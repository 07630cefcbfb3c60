import DescriptorKit.Image.Basic
import Mathlib.Data.List.Forall2
import Mathlib.Data.List.Nodup
import Mathlib.Data.List.Perm.Subperm
import Mathlib.Logic.Relation

/-!
The walk that orders files. It lists every file once, leaves files alone that stand behind their
imports already, and puts every file behind those of its imports that do not lead back to it: behind
all of them where no file imports itself, directly or not.
-/
namespace DescriptorKit.Image

variable {entries other : List (String × ImageFile)} {path d : String} {fuel : Nat}

abbrev keys (entries : List (String × ImageFile)) : List String := entries.map (·.1)

/-- The file under `path` imports the file under `d`, which is present. -/
def Imports (entries : List (String × ImageFile)) (path d : String) : Prop :=
  d ∈ present entries path

instance (entries : List (String × ImageFile)) (path d : String) :
    Decidable (Imports entries path d) := inferInstanceAs (Decidable (d ∈ present entries path))

/-- No file imports itself, directly or not. -/
def Acyclic (entries : List (String × ImageFile)) : Prop :=
  ∀ path, ¬ Relation.TransGen (Imports entries) path path

/-- Every file stands behind the files it imports, as far as they are present. -/
def InOrder (entries : List (String × ImageFile)) : Prop :=
  ∀ before e after, entries = before ++ e :: after → ∀ d, Imports entries e.1 d → d ∈ keys before

theorem find?_isSome_iff : (find? entries path).isSome ↔ path ∈ keys entries := by
  simp [find?, keys]

theorem find?_eq_none_iff : find? entries path = none ↔ path ∉ keys entries := by
  rw [← find?_isSome_iff]
  cases find? entries path <;> simp

theorem mem_of_find? {f : ImageFile} (h : find? entries path = some f) : (path, f) ∈ entries := by
  obtain ⟨e, he, rfl⟩ := Option.map_eq_some_iff.mp h
  have hp := List.find?_some he
  simp only [decide_eq_true_eq] at hp
  subst hp
  exact List.mem_of_find?_eq_some he

theorem eq_of_key_eq (hd : (keys entries).Nodup) {a b : String × ImageFile} (ha : a ∈ entries)
    (hb : b ∈ entries) (h : a.1 = b.1) : a = b :=
  List.inj_on_of_nodup_map hd ha hb h

theorem find?_eq_some_iff (hd : (keys entries).Nodup) {f : ImageFile} :
    find? entries path = some f ↔ (path, f) ∈ entries := by
  refine ⟨mem_of_find?, fun h => ?_⟩
  cases hf : find? entries path with
  | none => exact absurd (List.mem_map_of_mem h) (find?_eq_none_iff.mp hf)
  | some g => simpa using eq_of_key_eq hd (mem_of_find? hf) h rfl

theorem find?_perm (hd : (keys entries).Nodup) (hp : entries.Perm other) (path : String) :
    find? entries path = find? other path := by
  have ho : (keys other).Nodup := (hp.map _).nodup_iff.mp hd
  apply Option.ext
  intro f
  rw [find?_eq_some_iff hd, find?_eq_some_iff ho, hp.mem_iff]

theorem imports_iff : Imports entries path d ↔
    ∃ f, find? entries path = some f ∧ d ∈ f.dependencies ∧ d ∈ keys entries := by
  unfold Imports present
  cases find? entries path with
  | none => simp
  | some f => simp only [List.mem_filter, find?_isSome_iff]; simp

theorem Imports.mem_keys (h : Imports entries path d) : d ∈ keys entries := by
  obtain ⟨f, -, -, hd⟩ := imports_iff.mp h
  exact hd

theorem imports_perm (hd : (keys entries).Nodup) (hp : entries.Perm other) :
    Imports entries path d ↔ Imports other path d := by
  rw [imports_iff, imports_iff, find?_perm hd hp, (hp.map _).mem_iff]

namespace Walk

variable {u v w : Walk} {ds : List String}

/-- What every walk over distinct files keeps to: it is at files only, at none twice, and has left
behind only those it was at. -/
structure Sound (entries : List (String × ImageFile)) (w : Walk) : Prop where
  visited_nodup : w.visited.Nodup
  visited_keys : w.visited ⊆ keys entries
  finished_nodup : w.finished.Nodup
  finished_visited : w.finished ⊆ w.visited

/-- The walk went on from `w`, and left behind every file that it came upon since. -/
def Extends (w v : Walk) : Prop :=
  ∃ new, v.finished = new ++ w.finished ∧ (∀ p, p ∈ v.visited ↔ p ∈ w.visited ∨ p ∈ new) ∧
    ∀ p ∈ new, p ∉ w.visited

theorem Extends.refl (w : Walk) : Extends w w := ⟨[], rfl, by simp, by simp⟩

theorem Extends.visited (h : Extends w v) : w.visited ⊆ v.visited := by
  obtain ⟨xs, -, hv, -⟩ := h
  exact fun p hp => (hv p).mpr (Or.inl hp)

theorem Extends.trans (h : Extends u v) (k : Extends v w) : Extends u w := by
  obtain ⟨xs, hf, hv, hn⟩ := h
  obtain ⟨ys, kf, kv, kn⟩ := k
  refine ⟨ys ++ xs, by simp [kf, hf], fun p => ?_, fun p hp => ?_⟩
  · rw [kv, hv, List.mem_append]
    tauto
  · rcases List.mem_append.mp hp with hp | hp
    · exact fun hu => kn p hp ((hv p).mpr (Or.inl hu))
    · exact hn p hp

/-- What is still open was open before. -/
theorem Extends.still_open (h : Extends w v) {p : String} (hp : p ∈ v.visited)
    (hn : p ∉ v.finished) : p ∈ w.visited ∧ p ∉ w.finished := by
  obtain ⟨xs, hf, hv, -⟩ := h
  rw [hf, List.mem_append, not_or] at hn
  exact ⟨((hv p).mp hp).resolve_right hn.1, hn.2⟩

theorem Extends.length_le (h : Extends w v) (hw : Sound entries w) :
    w.visited.length ≤ v.visited.length :=
  (hw.visited_nodup.subperm h.visited).length_le

/-- A walk that has been at as many files as there are has been at all of them. -/
theorem Sound.mem_visited (h : Sound entries w) (hn : entries.length ≤ w.visited.length)
    (hp : path ∈ keys entries) : path ∈ w.visited := by
  have hs := h.visited_nodup.subperm h.visited_keys
  exact (hs.perm_of_length_le (by simpa using hn)).symm.subset hp

theorem Sound.enter (h : Sound entries w) (hp : path ∈ keys entries) (hn : path ∉ w.visited) :
    Sound entries { w with visited := path :: w.visited } where
  visited_nodup := List.nodup_cons.mpr ⟨hn, h.visited_nodup⟩
  visited_keys := List.cons_subset.mpr ⟨hp, h.visited_keys⟩
  finished_nodup := h.finished_nodup
  finished_visited := fun _ hm => List.mem_cons_of_mem _ (h.finished_visited hm)

theorem Sound.leave (h : Sound entries w) (hp : path ∈ w.visited) (hn : path ∉ w.finished) :
    Sound entries { w with finished := path :: w.finished } where
  visited_nodup := h.visited_nodup
  visited_keys := h.visited_keys
  finished_nodup := List.nodup_cons.mpr ⟨hn, h.finished_nodup⟩
  finished_visited := List.cons_subset.mpr ⟨hp, h.finished_visited⟩

theorem visit_of_mem (h : path ∈ w.visited) : visit entries fuel w path = w := by
  cases fuel with
  | zero => rfl
  | succ fuel => rw [visit, if_pos h]

theorem foldl_visit_of_subset (h : ds ⊆ w.visited) : ds.foldl (visit entries fuel) w = w := by
  induction ds with
  | nil => rfl
  | cons d ds ih =>
    rw [List.cons_subset] at h
    rw [List.foldl_cons, visit_of_mem h.1, ih h.2]

/-- What visits to some files come to, where there are steps enough for all files that are left. -/
theorem foldl_visit
    (hv : ∀ w, Sound entries w → entries.length ≤ fuel + w.visited.length → ∀ p ∈ keys entries,
      Sound entries (visit entries fuel w p) ∧ Extends w (visit entries fuel w p) ∧
        p ∈ (visit entries fuel w p).visited)
    (hw : Sound entries w) (hn : entries.length ≤ fuel + w.visited.length)
    (hd : ds ⊆ keys entries) :
    Sound entries (ds.foldl (visit entries fuel) w) ∧
      Extends w (ds.foldl (visit entries fuel) w) ∧
        ds ⊆ (ds.foldl (visit entries fuel) w).visited := by
  induction ds generalizing w with
  | nil => exact ⟨hw, .refl w, by simp⟩
  | cons d ds ih =>
    rw [List.cons_subset] at hd
    obtain ⟨s, e, m⟩ := hv w hw hn d hd.1
    have hl := e.length_le hw
    obtain ⟨s', e', m'⟩ := ih s (by omega) hd.2
    exact ⟨s', e.trans e', List.cons_subset.mpr ⟨e'.visited m, m'⟩⟩

theorem visit_extends (hw : Sound entries w) (hn : entries.length ≤ fuel + w.visited.length)
    (hp : path ∈ keys entries) :
    Sound entries (visit entries fuel w path) ∧ Extends w (visit entries fuel w path) ∧
      path ∈ (visit entries fuel w path).visited := by
  induction fuel generalizing w path with
  | zero =>
    rw [visit]
    exact ⟨hw, .refl w, hw.mem_visited (by omega) hp⟩
  | succ fuel ih =>
    rw [visit]
    split
    case isTrue hm => exact ⟨hw, .refl w, hm⟩
    case isFalse hm =>
      obtain ⟨s, e, -⟩ := foldl_visit (fun w hw hn p hp => ih hw hn hp) (hw.enter hp hm)
        (by simp only [List.length_cons]; omega) (fun d hd => Imports.mem_keys hd)
      obtain ⟨xs, hf, hv, hx⟩ := e
      have hxs : path ∉ xs := fun h => hx path h (by simp)
      have hfin : path ∉ w.finished := fun h => hm (hw.finished_visited h)
      have hvis := (hv path).mpr (Or.inl (by simp))
      refine ⟨s.leave hvis ?_, ⟨path :: xs, by simp [hf], fun p => ?_, fun p h => ?_⟩, hvis⟩
      · rw [hf, List.mem_append]
        tauto
      · rw [hv p, List.mem_cons, List.mem_cons]
        tauto
      · rcases List.mem_cons.mp h with rfl | h
        · exact hm
        · exact fun hw => hx p h (List.mem_cons_of_mem _ hw)

/-- Among files left behind, the last one first, each was left behind later than its imports, those
apart that lead back to it. -/
def Settled (entries : List (String × ImageFile)) (finished : List String) : Prop :=
  ∀ after p before, finished = after ++ p :: before → ∀ d, Imports entries p d →
    d ∈ before ∨ Relation.ReflTransGen (Imports entries) d p

theorem Settled.cons {finished : List String} (h : Settled entries finished)
    (hp : ∀ d, Imports entries path d →
      d ∈ finished ∨ Relation.ReflTransGen (Imports entries) d path) :
    Settled entries (path :: finished) := by
  intro after p before he
  cases after with
  | nil =>
    obtain ⟨rfl, rfl⟩ := List.cons_eq_cons.mp he
    exact hp
  | cons a after => exact h after p before (List.cons_eq_cons.mp he).2

/-- Every file that is still open leads to `path`. -/
def LeadsTo (entries : List (String × ImageFile)) (w : Walk) (path : String) : Prop :=
  ∀ p ∈ w.visited, p ∉ w.finished → Relation.TransGen (Imports entries) p path

theorem LeadsTo.extends (h : LeadsTo entries w path) (he : Extends w v) :
    LeadsTo entries v path := by
  intro p hp hn
  obtain ⟨hv, hf⟩ := he.still_open hp hn
  exact h p hv hf

theorem LeadsTo.enter (h : LeadsTo entries w path) (hd : Imports entries path d) :
    LeadsTo entries { w with visited := path :: w.visited } d := by
  intro p hp hn
  rcases List.mem_cons.mp hp with rfl | hp
  · exact .single hd
  · exact (h p hp hn).tail hd

/-- What was come upon below `path` is left behind by then, or it was open before and leads
there. -/
theorem LeadsTo.left_or_leads (h : LeadsTo entries w path)
    (he : Extends { w with visited := path :: w.visited } v) (hd : d ∈ v.visited) :
    d ∈ v.finished ∨ Relation.ReflTransGen (Imports entries) d path := by
  refine or_iff_not_imp_left.mpr fun hn => ?_
  obtain ⟨hv, hf⟩ := he.still_open hd hn
  rcases List.mem_cons.mp hv with rfl | hv
  · exact .refl
  · exact (h d hv hf).to_reflTransGen

theorem foldl_visit_settled
    (hv : ∀ w, Sound entries w → entries.length ≤ fuel + w.visited.length → ∀ p ∈ keys entries,
      Settled entries w.finished → LeadsTo entries w p →
        Settled entries (visit entries fuel w p).finished)
    (hw : Sound entries w) (hn : entries.length ≤ fuel + w.visited.length)
    (hd : ds ⊆ keys entries) (hs : Settled entries w.finished)
    (hl : ∀ d ∈ ds, LeadsTo entries w d) :
    Settled entries (ds.foldl (visit entries fuel) w).finished := by
  induction ds generalizing w with
  | nil => exact hs
  | cons d ds ih =>
    rw [List.cons_subset] at hd
    obtain ⟨s, e, -⟩ := visit_extends hw hn hd.1
    have hlen := e.length_le hw
    have t := hv w hw hn d hd.1 hs (hl d (by simp))
    exact ih s (by omega) hd.2 t fun d hm => (hl d (List.mem_cons_of_mem _ hm)).extends e

theorem visit_settled (hw : Sound entries w) (hn : entries.length ≤ fuel + w.visited.length)
    (hp : path ∈ keys entries) (hs : Settled entries w.finished) (hl : LeadsTo entries w path) :
    Settled entries (visit entries fuel w path).finished := by
  induction fuel generalizing w path with
  | zero => exact hs
  | succ fuel ih =>
    rw [visit]
    split
    case isTrue hm => exact hs
    case isFalse hm =>
      have henter := hw.enter hp hm
      have hlen : entries.length ≤ fuel + (path :: w.visited).length := by
        rw [List.length_cons]
        omega
      have hkeys : present entries path ⊆ keys entries := fun d hd => Imports.mem_keys hd
      obtain ⟨-, e, m⟩ := foldl_visit (fun w hw hn p hp => visit_extends hw hn hp) henter hlen hkeys
      have t := foldl_visit_settled (fun w hw hn p hp hs hl => ih hw hn hp hs hl) henter hlen hkeys
        hs (fun d hd => hl.enter hd)
      exact t.cons fun d hd => hl.left_or_leads e (m hd)

theorem sound_empty (entries : List (String × ImageFile)) : Sound entries {} where
  visited_nodup := List.nodup_nil
  visited_keys := List.nil_subset _
  finished_nodup := List.nodup_nil
  finished_visited := List.nil_subset _

end Walk

open Walk

theorem order_perm (hd : (keys entries).Nodup) : (order entries).Perm (keys entries) := by
  obtain ⟨s, ⟨new, hf, hv, -⟩, m⟩ := foldl_visit
    (fun w hw hn p hp => visit_extends hw hn hp) (sound_empty entries)
    (show entries.length ≤ entries.length + _ by simp) (List.Subset.refl (keys entries))
  have he : ∀ p, p ∈ order entries ↔ p ∈ keys entries := by
    intro p
    rw [order, List.mem_reverse]
    refine ⟨fun h => s.visited_keys (s.finished_visited h), fun h => ?_⟩
    rw [hf]
    simpa using (hv p).mp (m h)
  exact (List.perm_ext_iff_of_nodup (List.nodup_reverse.mpr s.finished_nodup) hd).mpr he

theorem filterMap_keys (hd : (keys entries).Nodup) :
    (keys entries).filterMap (fun path => entries.find? (·.1 = path)) = entries := by
  rw [List.filterMap_map]
  conv => rhs; rw [← List.filterMap_some (l := entries)]
  apply List.filterMap_congr
  intro e he
  cases hf : entries.find? (fun x => x.1 = e.1) with
  | none => simpa using List.find?_eq_none.mp hf e he
  | some x =>
    have hx := List.find?_some hf
    simp only [Function.comp_apply, hf, Option.some.injEq]
    exact eq_of_key_eq hd (List.mem_of_find?_eq_some hf) he (by simpa using hx)

/-- Entries under distinct paths are told by the order of these. -/
theorem eq_of_perm_of_keys (hd : (keys entries).Nodup) (hp : entries.Perm other)
    (hk : keys entries = keys other) : entries = other := by
  refine List.ext_getElem hp.length_eq fun i hi ho => ?_
  refine eq_of_key_eq hd (List.getElem_mem hi) (hp.mem_iff.mpr (List.getElem_mem ho)) ?_
  have := congrArg (·[i]?) hk
  simpa [keys, hi, ho] using this

theorem sort_perm (hd : (keys entries).Nodup) : (sort entries).Perm entries := by
  have := (order_perm hd).filterMap fun path => entries.find? (·.1 = path)
  rwa [filterMap_keys hd] at this

theorem keys_sort (hd : (keys entries).Nodup) : keys (sort entries) = order entries := by
  rw [keys, sort, List.map_filterMap]
  conv => rhs; rw [← List.filterMap_some (l := order entries)]
  apply List.filterMap_congr
  intro p hp
  have hk := (order_perm hd).mem_iff.mp hp
  cases hf : entries.find? (fun e => e.1 = p) with
  | none =>
    obtain ⟨e, he, rfl⟩ := List.mem_map.mp hk
    simpa using List.find?_eq_none.mp hf e he
  | some e => simpa using List.find?_some hf

/-- Files that stand behind their imports are left in their places. -/
theorem order_of_inOrder (hd : (keys entries).Nodup) (ho : InOrder entries) :
    order entries = keys entries := by
  have step : ∀ before after, entries = before ++ after →
      (keys after).foldl (visit entries entries.length)
        ⟨(keys before).reverse, (keys before).reverse⟩ =
          ⟨(keys entries).reverse, (keys entries).reverse⟩ := by
    intro before after
    induction after generalizing before with
    | nil => rintro rfl; simp
    | cons e after ih =>
      intro he
      have hnew : e.1 ∉ (keys before).reverse := by
        rw [he] at hd
        simp only [keys, List.map_append, List.map_cons, List.nodup_append] at hd
        intro hm
        exact hd.2.2 e.1 (List.mem_reverse.mp hm) e.1 (by simp) rfl
      have hlen : entries.length = (entries.length - 1) + 1 := by
        have := congrArg List.length he
        simp only [List.length_append, List.length_cons] at this
        omega
      have hnext := ih (before ++ [e]) (by simp [he])
      have hvisit : visit entries entries.length ⟨(keys before).reverse, (keys before).reverse⟩ e.1
          = ⟨(keys (before ++ [e])).reverse, (keys (before ++ [e])).reverse⟩ := by
        rw [hlen, visit, if_neg hnew]
        dsimp only
        rw [foldl_visit_of_subset]
        · simp
        · intro d hm
          exact List.mem_cons_of_mem _ (List.mem_reverse.mpr (ho before e after he d hm))
      change (keys after).foldl _ (visit _ _ _ e.1) = _
      rw [hvisit, hnext]
  have hall := step [] entries rfl
  simp only [keys, List.map_nil, List.reverse_nil] at hall
  rw [order, hall, List.reverse_reverse]

theorem sort_of_inOrder (hd : (keys entries).Nodup) (ho : InOrder entries) :
    sort entries = entries := by
  rw [sort, order_of_inOrder hd ho, filterMap_keys hd]

/-- Every file comes to stand behind its imports, those apart that lead back to it. -/
theorem sort_behind (hd : (keys entries).Nodup) {before after : List (String × ImageFile)}
    {e : String × ImageFile} (he : sort entries = before ++ e :: after)
    (hm : Imports entries e.1 d) :
    d ∈ keys before ∨ Relation.ReflTransGen (Imports entries) d e.1 := by
  have s := foldl_visit_settled (fun w hw hn p hp hs hl => visit_settled hw hn hp hs hl)
    (sound_empty entries) (show entries.length ≤ entries.length + _ by simp)
    (List.Subset.refl (keys entries)) (by simp [Settled]) (by simp [LeadsTo])
  have hk : order entries = keys before ++ e.1 :: keys after := by
    rw [← keys_sort hd, he, keys, List.map_append, List.map_cons]
  have hf := congrArg List.reverse hk
  rw [order, List.reverse_reverse] at hf
  have := s (keys after).reverse e.1 (keys before).reverse (by simp [hf]) d hm
  rwa [List.mem_reverse] at this

/-- Without cycles every file comes to stand behind its imports. -/
theorem inOrder_sort (hd : (keys entries).Nodup) (ha : Acyclic entries) :
    InOrder (sort entries) := by
  intro before e after he d hm
  have him := (imports_perm hd (sort_perm hd).symm).mpr hm
  exact (sort_behind hd he him).resolve_right fun h => ha e.1 (.head' him h)

theorem acyclic_of_sort (hd : (keys entries).Nodup) (ha : Acyclic (sort entries)) :
    Acyclic entries := by
  intro path h
  have hsorted : Imports entries ≤ Imports (sort entries) := fun a b hab =>
    (imports_perm hd (sort_perm hd).symm).mp hab
  exact ha path (Relation.TransGen.mono hsorted _ _ h)

/-- In order are files none of which imports itself or one that stands behind it. -/
theorem inOrder_iff (hd : (keys entries).Nodup) : InOrder entries ↔
    (∀ e ∈ entries, ¬ Imports entries e.1 e.1) ∧
      entries.Pairwise fun a b => ¬ Imports entries a.1 b.1 := by
  constructor
  · intro ho
    constructor
    · intro e he him
      obtain ⟨before, after, heq⟩ := List.append_of_mem he
      have hmem := ho before e after heq e.1 him
      rw [heq, keys, List.map_append, List.map_cons, List.nodup_append] at hd
      exact hd.2.2 e.1 hmem e.1 (by simp) rfl
    · rw [List.pairwise_iff_forall_sublist]
      intro a b hab him
      obtain ⟨front, back, heq, ha, hb⟩ := List.cons_sublist_iff.mp hab
      obtain ⟨before, after, rfl⟩ := List.append_of_mem ha
      have hb : b ∈ back := List.singleton_sublist.mp hb
      have hmem := ho before a (after ++ back) (by simp [heq]) b.1 him
      rw [heq, keys, List.map_append, List.map_append, List.nodup_append] at hd
      exact hd.2.2 b.1 (by simp [hmem]) b.1 (List.mem_map_of_mem hb) rfl
  · rintro ⟨hself, hpair⟩ before e after heq d him
    have hmem := him.mem_keys
    rw [heq, keys, List.map_append, List.map_cons, List.mem_append, List.mem_cons] at hmem
    rcases hmem with hmem | rfl | hmem
    · exact hmem
    · exact absurd him (hself e (by simp [heq]))
    · obtain ⟨b, hb, rfl⟩ := List.mem_map.mp hmem
      rw [heq, List.pairwise_append, List.pairwise_cons] at hpair
      rw [heq] at him
      exact absurd him (hpair.2.1.1 b hb)

/-- Whether the paths differ and each file stands behind those it imports. -/
def standsInOrder (entries : List (String × ImageFile)) : Bool :=
  decide ((keys entries).Nodup) && decide (∀ e ∈ entries, ¬ Imports entries e.1 e.1) &&
    decide (entries.Pairwise fun a b => ¬ Imports entries a.1 b.1)

theorem standsInOrder_iff :
    standsInOrder entries = true ↔ (keys entries).Nodup ∧ InOrder entries := by
  simp only [standsInOrder, Bool.and_eq_true, decide_eq_true_eq, and_assoc]
  exact and_congr_right fun hd => (inOrder_iff hd).symm

theorem InOrder.acyclic (hd : (keys entries).Nodup) (ho : InOrder entries) : Acyclic entries := by
  have hlt : ∀ p d, Imports entries p d → (keys entries).idxOf d < (keys entries).idxOf p := by
    intro p d him
    obtain ⟨f, hf, -, -⟩ := imports_iff.mp him
    obtain ⟨before, after, heq⟩ := List.append_of_mem (mem_of_find? hf)
    have hd' := ho before (p, f) after heq d him
    have hkeys : keys entries = keys before ++ p :: keys after := by simp [heq, keys]
    rw [hkeys] at hd ⊢
    have hp : p ∉ keys before := fun hm => (List.nodup_append.mp hd).2.2 p hm p (by simp) rfl
    rw [List.idxOf_append_of_mem hd', List.idxOf_append_of_notMem hp]
    exact Nat.lt_add_right _ (List.idxOf_lt_length_of_mem hd')
  intro path h
  have : ∀ d, Relation.TransGen (Imports entries) path d →
      (keys entries).idxOf d < (keys entries).idxOf path := by
    intro d h
    induction h with
    | single him => exact hlt _ _ him
    | tail _ him ih => exact Nat.lt_trans (hlt _ _ him) ih
  exact absurd (this path h) (Nat.lt_irrefl _)

theorem imports_sublist (hd : (keys entries).Nodup) (hs : other.Sublist entries)
    (h : Imports other path d) : Imports entries path d := by
  obtain ⟨f, hf, hdep, hk⟩ := imports_iff.mp h
  refine imports_iff.mpr ⟨f, ?_, hdep, (hs.map _).subset hk⟩
  exact (find?_eq_some_iff hd).mpr (hs.subset (mem_of_find? hf))

/-- Leaving files out keeps the others in order. -/
theorem InOrder.sublist (hd : (keys entries).Nodup) (ho : InOrder entries)
    (hs : other.Sublist entries) : InOrder other := by
  obtain ⟨hself, hpair⟩ := (inOrder_iff hd).mp ho
  refine (inOrder_iff (hd.sublist (hs.map _))).mpr ⟨fun e he him => ?_, ?_⟩
  · exact hself e (hs.subset he) (imports_sublist hd hs him)
  · exact (hpair.sublist hs).imp fun hab him => hab (imports_sublist hd hs him)

/-- The files of one list stand in for those of another: under the same paths, with the same
imports. -/
abbrev SameImports (entries other : List (String × ImageFile)) : Prop :=
  List.Forall₂ (fun e e' => e'.1 = e.1 ∧ e'.2.dependencies = e.2.dependencies) entries other

theorem SameImports.keys_eq (h : SameImports entries other) : keys other = keys entries := by
  induction h with
  | nil => rfl
  | cons he _ ih => rw [keys, List.map_cons, he.1]; exact congrArg _ ih

theorem SameImports.find? (h : SameImports entries other) (path : String) :
    (find? other path).map (·.dependencies) = (find? entries path).map (·.dependencies) := by
  induction h with
  | nil => rfl
  | @cons e e' entries other he _ ih =>
    rw [Image.find?, Image.find?, List.find?_cons, List.find?_cons, he.1]
    by_cases hp : e.1 = path
    · simp [hp, he.2]
    · simpa [hp, Image.find?] using ih

theorem SameImports.imports (h : SameImports entries other) (him : Imports other path d) :
    Imports entries path d := by
  obtain ⟨f, hf, hdep, hk⟩ := imports_iff.mp him
  have hfind := h.find? path
  rw [hf, Option.map_some] at hfind
  obtain ⟨g, hg, hdeps⟩ := Option.map_eq_some_iff.mp hfind.symm
  exact imports_iff.mpr ⟨g, hg, hdeps ▸ hdep, h.keys_eq ▸ hk⟩

theorem InOrder.sameImports (ho : InOrder entries) (h : SameImports entries other) :
    InOrder other := by
  intro before e after heq d him
  have hsplit : entries = entries.take before.length ++ entries.drop before.length :=
    (List.take_append_drop _ _).symm
  have hfront := List.forall₂_take_append entries before (e :: after) (heq ▸ h)
  have hback := List.forall₂_drop_append entries before (e :: after) (heq ▸ h)
  obtain ⟨e₀, back, he, -, hdrop⟩ := List.forall₂_cons_right_iff.mp hback
  rw [hdrop] at hsplit
  have hmem := ho _ e₀ back hsplit d (he.1 ▸ h.imports him)
  rwa [← SameImports.keys_eq hfront] at hmem

end DescriptorKit.Image
