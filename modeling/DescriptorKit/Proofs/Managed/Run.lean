import DescriptorKit.Managed.Modify
import DescriptorKit.Proofs.Descriptor.Modify

/-!
Runs of the steps that modify a file. A step ends with a result and the progress made, and what
holds of every step holds of a run of them.
-/
namespace DescriptorKit.Managed
open Descriptor

namespace Modifying

variable {α β : Type} {x : Modifying α} {next : α → Modifying β} {p q : Progress}
  {R S : Progress → Progress → Prop}

/-- How a step ends. -/
def runOn (x : Modifying α) (p : Progress) : Except Error α × Progress := x.run.run p

theorem runOn_bind (x : Modifying α) (next : α → Modifying β) (p : Progress) :
    runOn (x >>= next) p =
      match runOn x p with
      | (.ok a, q) => runOn (next a) q
      | (.error e, q) => (.error e, q) := by
  have hrun : runOn (x >>= next) p = (ExceptT.bindCont next (runOn x p).1).run (runOn x p).2 := rfl
  rw [hrun]
  rcases runOn x p with ⟨r, q⟩
  cases r <;> rfl

theorem runOn_forM_cons (step : β → Modifying Unit) (b : β) (l : List β) (p : Progress) :
    runOn ((b :: l).forM step) p =
      match runOn (step b) p with
      | (.ok _, q) => runOn (l.forM step) q
      | (.error e, q) => (.error e, q) := by
  have hcons : (b :: l).forM step = step b >>= fun _ => l.forM step := rfl
  rw [hcons, runOn_bind]
  rcases runOn (step b) p with ⟨r, q⟩
  cases r <;> rfl

theorem runOn_file (p : Progress) : runOn file p = (.ok p.file, p) := rfl

theorem runOn_change (f : Descriptor → Descriptor × Except Error α) (p : Progress) :
    runOn (change f) p = ((f p.file.descriptor).2,
      { p with file := { p.file with descriptor := (f p.file.descriptor).1 } }) := by
  rcases hf : f p.file.descriptor with ⟨descriptor, result⟩
  have hget : runOn (get : Modifying Progress) p = (.ok p, p) := rfl
  rw [change, runOn_bind, hget]
  simp only [hf]
  cases result <;> rfl

/-- What comes of a step is related to what it started from, in one way if it succeeds and in
another if it fails. -/
def Ends (R S : Progress → Progress → Prop) (p : Progress) : Except Error α × Progress → Prop
  | (.ok _, q) => R p q
  | (.error _, q) => S p q

def Yields (R S : Progress → Progress → Prop) (x : Modifying α) : Prop :=
  ∀ p, Ends R S p (runOn x p)

/-- Steps may come after one that succeeds. -/
structure Chains (R S : Progress → Progress → Prop) : Prop where
  refl : ∀ p, R p p
  stop : ∀ p, S p p
  trans : ∀ {p q r}, R p q → R q r → R p r
  trans_stop : ∀ {p q r}, R p q → S q r → S p r

variable (h : Chains R S)
include h

theorem yields_pure (a : α) : Yields R S (pure a) := fun p => h.refl p

theorem yields_throw (e : Error) : Yields R S (throw e : Modifying α) := fun p => h.stop p

theorem yields_file : Yields R S file := fun p => h.refl p

theorem yields_bind (hx : Yields R S x) (hn : ∀ a, Yields R S (next a)) :
    Yields R S (x >>= next) := by
  intro p
  have hp := hx p
  rw [runOn_bind]
  generalize runOn x p = outcome at hp ⊢
  obtain ⟨r, q⟩ := outcome
  cases r with
  | error e => exact hp
  | ok a =>
    have hq := hn a q
    dsimp only
    generalize runOn (next a) q = outcome at hq ⊢
    obtain ⟨r, k⟩ := outcome
    cases r with
    | ok b => exact h.trans hp hq
    | error e => exact h.trans_stop hp hq

theorem yields_forM {l : List β} {step : β → Modifying Unit} (hs : ∀ b ∈ l, Yields R S (step b)) :
    Yields R S (l.forM step) := by
  induction l with
  | nil => exact yields_pure h ()
  | cons b l ih =>
    exact yields_bind h (hs b (by simp)) fun _ => ih fun b hb => hs b (List.mem_cons_of_mem _ hb)

end Modifying

/-- How a change ends, and what it makes of the descriptor. -/
def Outcome {α : Type} (R S : Descriptor → Descriptor → Prop) (d : Descriptor) :
    Descriptor × Except Error α → Prop
  | (e, .ok _) => R d e
  | (e, .error _) => S d e

/-- Relations that every change to a descriptor carries on, one by succeeding and one by failing. -/
structure Conducts (R S : Descriptor → Descriptor → Prop) : Prop where
  refl : ∀ d, R d d
  stop : ∀ d, S d d
  trans : ∀ {d e k}, R d e → R e k → R d k
  trans_stop : ∀ {d e k}, R d e → S e k → S d k
  setFileOption : ∀ d name s, Outcome R S d (d.setFileOption name s)
  setJsType : ∀ d {path : List Int32} code, path.head? = some 4 ∨ path.head? = some 7 →
    Outcome R S d (d.setJsType path code)
  removeLocations : ∀ d paths, Outcome R S d (d.removeLocations paths)

/-- A relation that every change to a descriptor carries on. -/
structure Carries (R : Descriptor → Descriptor → Prop) : Prop where
  refl : ∀ d, R d d
  trans : ∀ {d e k}, R d e → R e k → R d k
  setFileOption : ∀ d name s, R d (d.setFileOption name s).1
  setJsType : ∀ d {path : List Int32} code, path.head? = some 4 ∨ path.head? = some 7 →
    R d (d.setJsType path code).1
  removeLocations : ∀ d paths, R d (d.removeLocations paths).1

theorem follows_carries : Carries Follows where
  refl := .refl
  trans := .trans
  setFileOption := setFileOption_follows
  setJsType := setJsType_follows
  removeLocations := removeLocations_follows

theorem outcome_self {α : Type} {R : Descriptor → Descriptor → Prop} {d : Descriptor}
    {c : Descriptor × Except Error α} (h : R d c.1) : Outcome R R d c := by
  obtain ⟨e, r⟩ := c
  cases r <;> exact h

theorem Carries.conducts {R : Descriptor → Descriptor → Prop} (h : Carries R) : Conducts R R where
  refl := h.refl
  stop := h.refl
  trans := h.trans
  trans_stop := h.trans
  setFileOption d name s := outcome_self (h.setFileOption d name s)
  setJsType d _ code hp := outcome_self (h.setJsType d code hp)
  removeLocations d paths := outcome_self (h.removeLocations d paths)

/-- Of the file only the descriptor changed, to one that it is related to. -/
structure Progress.Carried (R : Descriptor → Descriptor → Prop) (p q : Progress) : Prop where
  file : q.file = { p.file with descriptor := q.file.descriptor }
  descriptor : R p.file.descriptor q.file.descriptor

section Paths

variable {path : List Int32} {k : Int32}

theorem childPath_head? (h : path.head? = some k) (field : Int32) (index : Nat) :
    (MessageDecl.childPath path field index).head? = some k := by
  cases path with
  | nil => cases h
  | cons a path => exact h

mutual

theorem sites_head? (path : List Int32) (scope : String) (h : path.head? = some k) :
    ∀ m : MessageDecl, ∀ s ∈ m.sites path scope, s.path.head? = some k
  | ⟨name, _, nested, _, _, _, _, _, _, _⟩ => by
    intro s hs
    rw [MessageDecl.sites, List.mem_cons] at hs
    rcases hs with rfl | hs
    · exact h
    · exact nestedSites_head? path (qualify scope name) 0 h nested s hs

theorem nestedSites_head? (path : List Int32) (scope : String) (index : Nat)
    (h : path.head? = some k) :
    ∀ ms : List MessageDecl, ∀ s ∈ MessageDecl.nestedSites path scope index ms,
      s.path.head? = some k
  | [] => by
    intro s hs
    rw [MessageDecl.nestedSites] at hs
    cases hs
  | m :: rest => by
    intro s hs
    rw [MessageDecl.nestedSites, List.mem_append] at hs
    rcases hs with hs | hs
    · exact sites_head? _ scope (childPath_head? h 3 index) m s hs
    · exact nestedSites_head? path scope (index + 1) h rest s hs

end

theorem sitesIn_head? {s : MessageSite} {site : FieldSite} (hs : s.path.head? = some k)
    (h : site ∈ sitesIn s) : site.path.head? = some k := by
  rcases List.mem_append.mp h with h | h
  all_goals
    obtain ⟨d, -, rfl⟩ := List.mem_map.mp h
    exact childPath_head? hs _ _

/-- The path of a field leads into a message of the file, or it is that of an extension. -/
theorem fieldSites_head? {f : FileDecl} {site : FieldSite} (h : site ∈ fieldSites f) :
    site.path.head? = some 4 ∨ site.path.head? = some 7 := by
  rcases List.mem_append.mp h with h | h
  · obtain ⟨s, hs, h⟩ := List.mem_flatMap.mp h
    obtain ⟨⟨m, i⟩, -, hs⟩ := List.mem_flatMap.mp hs
    exact Or.inl (sitesIn_head? (sites_head? _ _ rfl m s hs) h)
  · obtain ⟨d, -, rfl⟩ := List.mem_map.mp h
    exact Or.inr rfl

/-- The fields whose representation is to change come in the order of the walk, each at most as
often as there. -/
theorem jsTypeChanges_sublist {C : Config} {f : ImageFile} {rules : List FieldRule}
    {sites : List FieldSite} {changes : List (List Int32 × JsType)}
    (h : jsTypeChanges C f rules sites = .ok changes) :
    (changes.map (·.1)).Sublist (sites.map (·.path)) := by
  induction sites generalizing changes with
  | nil =>
    obtain rfl := Except.ok.inj h
    exact .refl _
  | cons s rest ih =>
    unfold jsTypeChanges at h
    split at h
    · exact (ih h).cons _
    · split at h
      · cases h
      · split at h
        · cases h
        · rename_i more hm
          split at h
          · obtain rfl := Except.ok.inj h
            split
            · exact (ih hm).cons _
            · exact (ih hm).cons_cons _
          · obtain rfl := Except.ok.inj h
            exact (ih hm).cons _

end Paths

section Carried
open Modifying

variable {R S : Descriptor → Descriptor → Prop} (h : Conducts R S)
include h

theorem Conducts.chains : Chains (Progress.Carried R) (Progress.Carried S) where
  refl _ := ⟨rfl, h.refl _⟩
  stop _ := ⟨rfl, h.stop _⟩
  trans hp hq := ⟨by rw [hq.file, hp.file], h.trans hp.descriptor hq.descriptor⟩
  trans_stop hp hq := ⟨by rw [hq.file, hp.file], h.trans_stop hp.descriptor hq.descriptor⟩

omit h in
theorem yields_change {α : Type} {f : Descriptor → Descriptor × Except Error α}
    (hf : ∀ d, Outcome R S d (f d)) :
    Yields (Progress.Carried R) (Progress.Carried S) (change f) := by
  intro p
  have hd := hf p.file.descriptor
  rw [runOn_change]
  generalize f p.file.descriptor = c at hd ⊢
  obtain ⟨e, r⟩ := c
  cases r <;> exact ⟨rfl, hd⟩

theorem yields_mark (path : List Int32) :
    Yields (Progress.Carried R) (Progress.Carried S) (mark path) := fun _ => ⟨rfl, h.refl _⟩

theorem yields_setIfChanged (o : FileOption) (s : Scalar) :
    Yields (Progress.Carried R) (Progress.Carried S) (setIfChanged o s) := by
  have hset : ∀ path, Yields (Progress.Carried R) (Progress.Carried S)
      (change (fun d => d.setFileOption o.name s) >>= fun _ => mark path) := fun path =>
    yields_bind h.chains (yields_change fun d => h.setFileOption d o.name s) fun _ =>
      yields_mark h path
  unfold setIfChanged
  split
  · exact yields_throw h.chains _
  · refine yields_bind h.chains (yields_file h.chains) fun f => ?_
    split
    · split
      · exact yields_pure h.chains _
      · exact hset _
    · exact hset _

theorem yields_modifyOption (o : FileOption) (value : ImageFile → Except Error (Option Scalar)) :
    Yields (Progress.Carried R) (Progress.Carried S) (modifyOption o value) := by
  refine yields_bind h.chains (yields_file h.chains) fun f => ?_
  split
  · exact yields_throw h.chains _
  · exact yields_pure h.chains _
  · exact yields_setIfChanged h o _

theorem yields_modifyJsTypes (C : Config) :
    Yields (Progress.Carried R) (Progress.Carried S) (modifyJsTypes C) := by
  refine yields_bind h.chains (yields_file h.chains) fun f => ?_
  dsimp only
  split
  · exact yields_pure h.chains _
  · cases hc : jsTypeChanges C f ((C.fieldRulesFor f).filter fun r => r.option = .jsType)
        (fieldSites f.descriptor.decl) with
    | error e => exact yields_throw h.chains e
    | ok changes =>
      refine yields_forM h.chains fun c hmem => ?_
      obtain ⟨s, hs, he⟩ :=
        List.mem_map.mp ((jsTypeChanges_sublist hc).subset (List.mem_map_of_mem hmem))
      refine yields_bind h.chains (yields_change fun d => h.setJsType d _ ?_)
        fun _ => yields_mark h _
      rw [← he]
      exact fieldSites_head? hs

/-- Modifying a file carries on what each change does. -/
theorem yields_modifyFile (C : Config) :
    Yields (Progress.Carried R) (Progress.Carried S) (modifyFile C) := by
  refine yields_bind h.chains (yields_forM h.chains fun F _ => yields_modifyOption h _ _)
    fun _ => ?_
  refine yields_bind h.chains (yields_forM h.chains fun o _ => yields_modifyOption h _ _)
    fun _ => ?_
  exact yields_modifyJsTypes h C

omit h in
/-- Whether the file is modified in full or not, it is carried on. -/
theorem modifyFile_carried (h : Carries R) (C : Config) (p : Progress) :
    Progress.Carried R p (runOn (modifyFile C) p).2 := by
  have hp := yields_modifyFile h.conducts C p
  generalize runOn (modifyFile C) p = outcome at hp ⊢
  obtain ⟨r, q⟩ := outcome
  cases r <;> exact hp

end Carried

end DescriptorKit.Managed
