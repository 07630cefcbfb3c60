import DescriptorKit.Proofs.Path
import DescriptorKit.Proofs.Text.Encoding
import Mathlib.Data.List.Induction

/-!
Which path lies below which. For paths in normal form it is a matter of components: the first ones
of the path below are those of the path above. So the paths above a path are in line, with the root
as the first and the directory of the path as the last but one.
-/
namespace DescriptorKit.Path

variable {p q r : String} {cs ds : List (List Char)} {c : List Char}

section Components

theorem ofComponents_of_ne_nil (h : cs ≠ []) : ofComponents cs = Text.glue '/' cs := by
  cases cs with
  | nil => exact absurd rfl h
  | cons => rfl

theorem pieces_ofComponents (h : ∀ c ∈ cs, Plain c) (hn : cs ≠ []) :
    Text.pieces '/' (ofComponents cs) = cs := by
  rw [ofComponents_of_ne_nil hn]
  exact Text.pieces_glue hn fun c hc => (h c hc).slash

theorem ofComponents_eq_dot_iff (h : ∀ c ∈ cs, Plain c) : ofComponents cs = ['.'] ↔ cs = [] := by
  refine ⟨fun hdot => ?_, fun h => by rw [h]; rfl⟩
  by_contra hn
  have hpieces := pieces_ofComponents h hn
  rw [hdot] at hpieces
  exact (h ['.'] (by rw [← hpieces]; decide)).ne_dot rfl

theorem components_ofComponents (h : ∀ c ∈ cs, Plain c) :
    components (String.ofList (ofComponents cs)) = cs := by
  rw [components, String.toList_ofList]
  split
  · rename_i hdot
    exact ((ofComponents_eq_dot_iff h).mp hdot).symm
  · rename_i hdot
    exact pieces_ofComponents h (mt (ofComponents_eq_dot_iff h).mpr hdot)

/-- A path in normal form has plain components and is made of them. -/
theorem components_spec (h : normalize p = .ok p) :
    p = String.ofList (ofComponents (components p)) ∧ ∀ c ∈ components p, Plain c := by
  obtain ⟨cs, hp, hcs⟩ := exists_components h
  rw [hp, components_ofComponents hcs]
  exact ⟨rfl, hcs⟩

theorem eq_of_components (hp : normalize p = .ok p) (hq : normalize q = .ok q)
    (h : components p = components q) : p = q := by
  rw [(components_spec hp).1, (components_spec hq).1, h]

end Components

section Containing

theorem contains_ofComponents_iff (hcs : ∀ c ∈ cs, Plain c) (hds : ∀ d ∈ ds, Plain d) :
    contains (String.ofList (ofComponents cs))
    (String.ofList (ofComponents ds)) = true ↔ cs <+: ds := by
  have hroot : String.ofList (ofComponents cs) = "." ↔ cs = [] := by
    rw [← ofComponents_eq_dot_iff hcs, show "." = String.ofList ['.'] from rfl, String.ofList_inj]
  have hsame : String.ofList (ofComponents cs) = String.ofList (ofComponents ds) ↔ cs = ds := by
    refine ⟨fun h => ?_, fun h => by rw [h]⟩
    rw [← components_ofComponents hcs, h, components_ofComponents hds]
  rw [contains, Bool.or_eq_true, Bool.or_eq_true, decide_eq_true_iff, decide_eq_true_iff,
    String.toList_ofList, String.toList_ofList, List.isPrefixOf_iff_prefix, hroot, hsame]
  constructor
  · rintro ((rfl | rfl) | ⟨rest, hrest⟩)
    · exact List.nil_prefix
    · exact List.prefix_refl _
    · rw [List.append_assoc, List.singleton_append] at hrest
      have hds' : ds ≠ [] := by
        rintro rfl
        have hslash : '/' ∈ ofComponents [] := hrest ▸ by simp
        simp [ofComponents] at hslash
      by_cases hcs' : cs = []
      · exact hcs' ▸ List.nil_prefix
      · refine ⟨Text.pieces '/' rest, ?_⟩
        rw [← pieces_ofComponents hds hds', ← hrest, Text.pieces_append,
          pieces_ofComponents hcs hcs']
  · rintro ⟨rest, rfl⟩
    by_cases hcs : cs = []
    · exact .inl (.inl hcs)
    · by_cases hr : rest = []
      · exact .inl (.inr (by simp [hr]))
      · refine .inr ⟨Text.glue '/' rest, ?_⟩
        rw [ofComponents_of_ne_nil hcs, ofComponents_of_ne_nil (by simp [hcs]),
          Text.glue_append hcs hr]
        simp

theorem contains_iff_prefixed (hp : normalize p = .ok p) (hq : normalize q = .ok q) :
    contains p q = true ↔ components p <+: components q := by
  obtain ⟨hp, hcs⟩ := components_spec hp
  obtain ⟨hq, hds⟩ := components_spec hq
  conv_lhs => rw [hp, hq]
  exact contains_ofComponents_iff hcs hds

/-- The first byte of a character is the slash just where the character is. -/
theorem encode_head?_eq_slash_iff {c : Char} {u : Bytes} :
    (String.utf8EncodeChar c ++ u).head? = some '/'.toUInt8 ↔ c = '/' := by
  refine ⟨fun h => ?_, fun h => by rw [h]; rfl⟩
  by_contra hne
  obtain ⟨b, v, hv⟩ := List.exists_cons_of_ne_nil (Bytes.encode_ne_nil c)
  rw [hv] at h
  obtain rfl : b = '/'.toUInt8 := Option.some.inj h
  rcases lt_or_gt_of_ne hne with hlt | hlt
  all_goals
    have hbelow := Bytes.below_encode hlt
    rw [hv] at hbelow
    cases hbelow with
    | head h => exact absurd h (UInt8.lt_irrefl _)
    | tail h => cases h

/-- Reading the bytes of two paths tells whether one lies below the other. -/
theorem contains_iff_bytes (p q : String) : contains p q = true ↔ p = "." ∨ p = q ∨
    (Bytes.ofText p).length < (Bytes.ofText q).length ∧ Bytes.ofText p <+: Bytes.ofText q ∧
      (Bytes.ofText q)[(Bytes.ofText p).length]? = some '/'.toUInt8 := by
  rw [contains, Bool.or_eq_true, Bool.or_eq_true, decide_eq_true_iff, decide_eq_true_iff,
    List.isPrefixOf_iff_prefix, or_assoc]
  refine or_congr_right (or_congr_right ⟨?_, ?_⟩)
  · rintro ⟨rest, hrest⟩
    have hq : Bytes.ofText q = Bytes.ofText p ++ '/'.toUInt8 ::
      rest.flatMap String.utf8EncodeChar := by
      rw [Bytes.ofText_eq, Bytes.ofText_eq, ← hrest, List.flatMap_append, List.flatMap_append]
      simp
      rfl
    simp [hq]
  · rintro ⟨-, hprefix, hslash⟩
    obtain ⟨rest, hrest⟩ := Bytes.ofText_prefix_iff.mp hprefix
    rw [Bytes.ofText_eq, Bytes.ofText_eq, ← hrest, List.flatMap_append,
      List.getElem?_append_right (Nat.le_refl _), Nat.sub_self, ← List.head?_eq_getElem?] at hslash
    cases rest with
    | nil => simp at hslash
    | cons c rest =>
      rw [List.flatMap_cons, encode_head?_eq_slash_iff] at hslash
      exact ⟨rest, by rw [← hrest, hslash]; simp⟩

end Containing

section Directory

/-- The components of a directory are those of the path without the last one. -/
theorem dir_ofComponents (h : ∀ c ∈ cs, Plain c) :
    dir (String.ofList (ofComponents cs)) = String.ofList (ofComponents cs.dropLast) := by
  rw [dir, String.toList_ofList]
  cases cs with
  | nil => rfl
  | cons c cs =>
    rw [pieces_ofComponents h (List.cons_ne_nil c cs)]
    cases (c :: cs).dropLast <;> rfl

theorem base_ofComponents (h : ∀ c ∈ cs, Plain c) (hc : Plain c) :
    base (String.ofList (ofComponents (cs ++ [c]))) = String.ofList c := by
  have hall : ∀ d ∈ cs ++ [c], Plain d := by simpa [or_imp, forall_and] using ⟨h, hc⟩
  rw [base, String.toList_ofList, pieces_ofComponents hall (by simp)]
  simp

theorem isRoot_ofList_iff {l : List Char} :
    isRoot (String.ofList l) = true ↔ l = [] ∨ l = ['.'] := by
  simp [isRoot]

theorem isRoot_ofComponents_iff (h : ∀ c ∈ cs, Plain c) :
    isRoot (String.ofList (ofComponents cs)) = true ↔ cs = [] := by
  rw [isRoot_ofList_iff, ofComponents_eq_dot_iff h, or_iff_right]
  intro hnil
  cases cs with
  | nil => cases hnil
  | cons c cs =>
    have hpieces := pieces_ofComponents h (List.cons_ne_nil c cs)
    rw [hnil] at hpieces
    obtain ⟨rfl, -⟩ := List.cons.inj hpieces
    exact (h [] List.mem_cons_self).ne_nil rfl

theorem ofComponents_ne_concat_slash (h : ∀ c ∈ cs, Plain c) (s : List Char) :
    ofComponents cs ≠ s ++ ['/'] := by
  intro hs
  have hn : cs ≠ [] := by
    rintro rfl
    simpa [ofComponents] using congrArg List.getLast? hs
  have hpieces := pieces_ofComponents h hn
  rw [hs, Text.pieces_append] at hpieces
  exact (h [] (by rw [← hpieces]; simp [Text.pieces])).ne_nil rfl

theorem trimSlashes_ofComponents (h : ∀ c ∈ cs, Plain c) :
    trimSlashes (String.ofList (ofComponents cs)) = String.ofList (ofComponents cs) := by
  rw [trimSlashes, String.toList_ofList]
  congr 1
  cases hs : (ofComponents cs).reverse with
  | nil => rw [List.reverse_eq_nil_iff.mp hs]; rfl
  | cons d rest =>
    have hs : ofComponents cs = rest.reverse ++ [d] := by
      rw [← List.reverse_cons, ← hs, List.reverse_reverse]
    have hd : d ≠ '/' := fun hd => ofComponents_ne_concat_slash h _ (hd ▸ hs)
    rw [List.dropWhile_cons_of_neg (by simpa using hd), List.reverse_cons, hs]

theorem join_dir_base (h : normalize q = .ok q) : join (dir q) (base q) = q := by
  obtain ⟨hq, hcs⟩ := components_spec h
  generalize components q = cs at hq hcs
  subst hq
  cases cs using List.reverseRecOn with
  | nil => rfl
  | append_singleton above c =>
    obtain ⟨habove, hc⟩ : (∀ d ∈ above, Plain d) ∧ Plain c := by
      simpa [or_imp, forall_and] using hcs
    have hright : isRoot (String.ofList c) = false := by
      rw [Bool.eq_false_iff, ne_eq, isRoot_ofList_iff, not_or]
      exact ⟨hc.ne_nil, hc.ne_dot⟩
    rw [dir_ofComponents hcs, base_ofComponents habove hc, List.dropLast_concat, join]
    by_cases hn : above = []
    · rw [if_pos ((isRoot_ofComponents_iff habove).mpr hn), if_neg (by simp [hright]), hn]
      rfl
    · rw [if_neg (mt (isRoot_ofComponents_iff habove).mp hn), if_neg (by simp [hright]),
        trimSlashes_ofComponents habove, String.toList_ofList, String.toList_ofList,
        ofComponents_of_ne_nil hn, ofComponents_of_ne_nil (by simp), Text.glue_append hn (by simp)]
      rfl

end Directory

/-- Lying below is told by components, as by bytes. It orders the paths in normal form, with the
root first; the paths above one path are in line, and a path is made of its directory and its
base. -/
theorem contains_exact (hp : normalize p = .ok p) (hq : normalize q = .ok q)
    (hr : normalize r = .ok r) :
    (contains p q = true ↔ components p <+: components q) ∧
    (contains p q = true ↔ p = "." ∨ p = q ∨
      (Bytes.ofText p).length < (Bytes.ofText q).length ∧ Bytes.ofText p <+: Bytes.ofText q ∧
        (Bytes.ofText q)[(Bytes.ofText p).length]? = some '/'.toUInt8) ∧
    (contains p p = true ∧ (contains p q = true → contains q p = true → p = q) ∧
      (contains p q = true → contains q r = true → contains p r = true)) ∧
    (normalize "." = .ok "." ∧ components "." = [] ∧ contains "." q = true) ∧
    (contains p r = true → contains q r = true → contains p q = true ∨ contains q p = true) ∧
    (normalize (dir q) = .ok (dir q) ∧ contains (dir q) q = true ∧ join (dir q) (base q) = q) := by
  have hdir : normalize (dir q) = .ok (dir q) ∧ components (dir q) = (components q).dropLast := by
    obtain ⟨hq, hcs⟩ := components_spec hq
    have hinit : ∀ c ∈ (components q).dropLast, Plain c := fun c hc =>
      hcs c ((List.dropLast_sublist _).subset hc)
    rw [hq, dir_ofComponents hcs, components_ofComponents hcs, components_ofComponents hinit]
    exact ⟨normalize_ofComponents hinit, rfl⟩
  refine ⟨contains_iff_prefixed hp hq, contains_iff_bytes p q, ⟨?_, ?_, ?_⟩, ⟨rfl, rfl, ?_⟩, ?_,
    hdir.1, ?_, join_dir_base hq⟩
  · exact (contains_iff_prefixed hp hp).mpr (List.prefix_refl _)
  · rw [contains_iff_prefixed hp hq, contains_iff_prefixed hq hp]
    exact fun hpq hqp => eq_of_components hp hq (hpq.eq_of_length_le hqp.length_le)
  · rw [contains_iff_prefixed hp hq, contains_iff_prefixed hq hr, contains_iff_prefixed hp hr]
    exact List.IsPrefix.trans
  · rfl
  · rw [contains_iff_prefixed hp hr, contains_iff_prefixed hq hr, contains_iff_prefixed hp hq,
      contains_iff_prefixed hq hp]
    exact List.prefix_or_prefix_of_prefix
  · rw [contains_iff_prefixed hdir.1 hq, hdir.2]
    exact List.dropLast_prefix _

/-- The last component of the second path takes two bytes. -/
theorem contains_exact_accent :
    (normalize "a" = .ok "a" ∧ normalize "a/é" = .ok "a/é" ∧
      normalize "a/é/b.proto" = .ok "a/é/b.proto") ∧
    contains "a" "a/é" = true ∧ contains "a/é" "a/é/b.proto" = true ∧
      contains "a" "a/é/b.proto" = true ∧ join (dir "a/é") (base "a/é") = "a/é" := by
  have hp : normalize "a" = .ok "a" := by decide +kernel
  have hq : normalize "a/é" = .ok "a/é" := by decide +kernel
  have hr : normalize "a/é/b.proto" = .ok "a/é/b.proto" := by decide +kernel
  have hpq : contains "a" "a/é" = true := by decide +kernel
  have hqr : contains "a/é" "a/é/b.proto" = true := by decide +kernel
  obtain ⟨-, -, ⟨-, -, htrans⟩, -, -, -, -, hjoin⟩ := contains_exact hp hq hr
  exact ⟨⟨hp, hq, hr⟩, hpq, hqr, htrans hpq hqr, hjoin⟩

end DescriptorKit.Path
