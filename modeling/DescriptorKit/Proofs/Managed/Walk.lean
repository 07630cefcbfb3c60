import DescriptorKit.Proofs.Managed.Sites

/-!
What the walk over the fields of a file comes upon: every field and extension that is declared in
the file or in a message of it, at any depth, and each of them once, under a path of its own.
-/
namespace DescriptorKit
open Managed

/-- A field declared in a message or in those in it, with the path that leads to it from the message
and with its full name, where the message stands in a scope. -/
inductive MessageDecl.HasField :
    (scope : String) → List Int32 → String → FieldDecl → MessageDecl → Prop where
  | field {scope : String} {D : MessageDecl} {i : Nat} {d : FieldDecl} (hi : i < 2 ^ 31)
      (hd : D.fields[i]? = some d) :
      HasField scope [2, Int32.ofNat i] (qualify (qualify scope D.name) d.name) d D
  | extension {scope : String} {D : MessageDecl} {i : Nat} {d : FieldDecl} (hi : i < 2 ^ 31)
      (hd : D.extensions[i]? = some d) :
      HasField scope [6, Int32.ofNat i] (qualify (qualify scope D.name) d.name) d D
  | nested {scope name : String} {D E : MessageDecl} {i : Nat} {rest : List Int32} {d : FieldDecl}
      (hi : i < 2 ^ 31) (hE : D.nested[i]? = some E)
      (h : HasField (qualify scope D.name) rest name d E) :
      HasField scope (3 :: Int32.ofNat i :: rest) name d D

/-- A field declared in a file or in the messages of it, with the path that leads to it and its full
name. -/
inductive FileDecl.HasField : List Int32 → String → FieldDecl → FileDecl → Prop where
  | message {D : FileDecl} {E : MessageDecl} {i : Nat} {rest : List Int32} {name : String}
      {d : FieldDecl} (hi : i < 2 ^ 31) (hE : D.messages[i]? = some E)
      (h : E.HasField D.scope rest name d) : HasField (4 :: Int32.ofNat i :: rest) name d D
  | extension {D : FileDecl} {i : Nat} {d : FieldDecl} (hi : i < 2 ^ 31)
      (hd : D.extensions[i]? = some d) : HasField [7, Int32.ofNat i] (qualify D.scope d.name) d D

variable {path rest : List Int32} {scope name : String} {k : Int32} {s : FieldSite} {d : FieldDecl}

/-- Paths that are distinct still are when each of them goes on in the same way. -/
theorem nodup_map_append {α : Type} {l : List α} {F : α → List Int32} (h : (l.map F).Nodup)
    (rest : List Int32) : (l.map fun a => F a ++ rest).Nodup := by
  rw [show (fun a => F a ++ rest) = (· ++ rest) ∘ F from rfl, ← List.map_map]
  exact h.map fun _ _ he => List.append_cancel_right he

namespace MessageDecl

variable {D : MessageDecl} {l : List FieldDecl} {ms : List MessageDecl}

theorem Declares.hasField (h : D.Declares rest) (scope : String) :
    ∃ name d, D.HasField scope rest name d := by
  induction h generalizing scope with
  | field hi hd => exact ⟨_, _, .field hi hd⟩
  | extension hi hd => exact ⟨_, _, .extension hi hd⟩
  | @nested D E i rest hi hE h ih =>
    obtain ⟨name, d, h⟩ := ih (qualify scope D.name)
    exact ⟨name, d, .nested hi hE h⟩

theorem mem_sitesUnder (hD : D.Addressable) : s ∈ sitesUnder path scope D ↔
    ∃ rest, s.path = path ++ rest ∧ D.HasField scope rest s.fullName s.decl := by
  induction hD generalizing path scope with
  | mk hfields hextensions hnested _ ih =>
    rw [sitesUnder_eq, List.mem_append, List.mem_append, mem_zipIdx_map, mem_zipIdx_map,
      mem_zipIdx_flatMap]
    constructor
    · rintro ((⟨i, d, hd, rfl⟩ | ⟨i, d, hd, rfl⟩) | ⟨i, E, hE, hs⟩)
      · exact ⟨_, rfl, .field (lt_of_getElem? hd hfields) hd⟩
      · exact ⟨_, rfl, .extension (lt_of_getElem? hd hextensions) hd⟩
      · obtain ⟨rest, hp, h⟩ := (ih E (List.mem_of_getElem? hE)).mp hs
        refine ⟨3 :: Int32.ofNat i :: rest, ?_, .nested (lt_of_getElem? hE hnested) hE h⟩
        rw [hp, childPath, List.append_assoc]
        rfl
    · obtain ⟨p, name, d⟩ := s
      rintro ⟨rest, hp, h⟩
      dsimp only at hp h
      subst hp
      cases h with
      | field hi hd => exact Or.inl (Or.inl ⟨_, _, hd, rfl⟩)
      | extension hi hd => exact Or.inl (Or.inr ⟨_, _, hd, rfl⟩)
      | @nested _ _ _ E i rest _ hi hE h =>
        refine Or.inr ⟨i, E, hE, (ih E (List.mem_of_getElem? hE)).mpr ⟨rest, ?_, h⟩⟩
        rw [childPath, List.append_assoc]
        rfl

section Paths

/-- Paths that go on from `path` to the elements of the list under a number. -/
def Below (path : List Int32) (k : Int32) (p : List Int32) : Prop := ∃ rest, p = path ++ k :: rest

theorem disjoint_of_below {l l' : List (List Int32)} {k' : Int32} (h : ∀ p ∈ l, Below path k p)
    (h' : ∀ p ∈ l', Below path k' p) (hk : k ≠ k') : l.Disjoint l' := by
  intro p hp hp'
  obtain ⟨rest, hr⟩ := h p hp
  obtain ⟨rest', hr'⟩ := h' p hp'
  rw [hr] at hr'
  exact hk (List.cons_eq_cons.mp (List.append_cancel_left hr')).1

/-- The elements of a list have paths of their own. -/
theorem nodup_childPaths (hl : l.length ≤ 2 ^ 31) :
    ((l.zipIdx.map (siteAt path scope k)).map (·.path)).Nodup := by
  have hpaths : (l.zipIdx.map (siteAt path scope k)).map (·.path) =
      (List.range' 0 l.length).map (childPath path k) := by
    rw [List.map_map, ← List.zipIdx_map_snd, List.map_map]
    rfl
  rw [hpaths]
  refine List.Nodup.map_on (fun i hi j hj he => ?_) List.nodup_range'
  rw [List.mem_range'_1] at hi hj
  have he := List.append_cancel_left he
  exact ofNat_inj (by omega) (by omega) (List.cons_eq_cons.mp (List.cons_eq_cons.mp he).2).1

theorem below_childPaths : ∀ p ∈ (l.zipIdx.map (siteAt path scope k)).map (·.path),
    Below path k p := by
  intro p hp
  obtain ⟨s, hs, rfl⟩ := List.mem_map.mp hp
  obtain ⟨i, d, -, rfl⟩ := mem_zipIdx_map.mp hs
  exact ⟨[Int32.ofNat i], rfl⟩

/-- The paths of the fields in the messages of a list, which stands under a number. -/
def pathsIn (path : List Int32) (k : Int32) (scope : String) (ms : List MessageDecl) :
    List (List Int32) :=
  (ms.zipIdx.flatMap fun p => sitesUnder (childPath path k p.2) scope p.1).map (·.path)

theorem path_of_sitesUnder {E : MessageDecl} {i : Nat} {p : List Int32} (hE : E.Addressable)
    (hp : p ∈ (sitesUnder (childPath path k i) scope E).map (·.path)) :
    ∃ rest, p = path ++ k :: Int32.ofNat i :: rest := by
  obtain ⟨s, hs, rfl⟩ := List.mem_map.mp hp
  obtain ⟨rest, hr, -⟩ := (mem_sitesUnder hE).mp hs
  exact ⟨rest, by rw [hr, childPath, List.append_assoc]; rfl⟩

theorem below_pathsIn (hms : ∀ E ∈ ms, E.Addressable) :
    ∀ p ∈ pathsIn path k scope ms, Below path k p := by
  intro p hp
  rw [pathsIn, List.map_flatMap] at hp
  obtain ⟨i, E, hE, hp⟩ := mem_zipIdx_flatMap.mp hp
  obtain ⟨rest, rfl⟩ := path_of_sitesUnder (hms E (List.mem_of_getElem? hE)) hp
  exact ⟨Int32.ofNat i :: rest, rfl⟩

/-- Messages of one list lead to fields under different paths. -/
theorem nodup_pathsIn (hl : ms.length ≤ 2 ^ 31) (hms : ∀ E ∈ ms, E.Addressable)
    (h : ∀ E ∈ ms, ∀ path, ((sitesUnder path scope E).map (·.path)).Nodup) :
    (pathsIn path k scope ms).Nodup := by
  rw [pathsIn, List.map_flatMap, List.nodup_flatMap]
  refine ⟨fun p hp => h _ (List.fst_mem_of_mem_zipIdx hp) _, ?_⟩
  have hdistinct : ms.zipIdx.Pairwise fun p q => p.2 ≠ q.2 := by
    rw [← List.pairwise_map (f := Prod.snd) (R := (· ≠ ·)), List.zipIdx_map_snd]
    exact List.nodup_range'
  refine hdistinct.imp_of_mem fun {p q} hp hq hne a ha ha' => hne ?_
  have hlt : ∀ {p}, p ∈ ms.zipIdx → p.2 < 2 ^ 31 := fun hp =>
    lt_of_getElem? (List.mem_zipIdx_iff_getElem?.mp hp) hl
  obtain ⟨rest, hr⟩ := path_of_sitesUnder (hms _ (List.fst_mem_of_mem_zipIdx hp)) ha
  obtain ⟨rest', hr'⟩ := path_of_sitesUnder (hms _ (List.fst_mem_of_mem_zipIdx hq)) ha'
  have he := List.append_cancel_left (hr.symm.trans hr')
  exact ofNat_inj (hlt hp) (hlt hq) (List.cons_eq_cons.mp (List.cons_eq_cons.mp he).2).1

theorem nodup_paths (hD : D.Addressable) (path : List Int32) (scope : String) :
    ((sitesUnder path scope D).map (·.path)).Nodup := by
  induction hD generalizing path scope with
  | mk hfields hextensions hnested hinner ih =>
    rw [sitesUnder_eq, List.map_append, List.map_append]
    refine List.nodup_append'.mpr ⟨List.nodup_append'.mpr
      ⟨nodup_childPaths hfields, nodup_childPaths hextensions, ?_⟩,
      nodup_pathsIn hnested hinner fun E hE path => ih E hE path _, ?_⟩
    · exact disjoint_of_below below_childPaths below_childPaths (by decide)
    · rw [List.disjoint_append_left]
      exact ⟨disjoint_of_below below_childPaths (below_pathsIn hinner) (by decide),
        disjoint_of_below below_childPaths (below_pathsIn hinner) (by decide)⟩

end Paths

end MessageDecl

namespace FileDecl

variable {D : FileDecl}

theorem fieldSites_eq (D : FileDecl) : fieldSites D =
    (D.messages.zipIdx.flatMap fun p => sitesUnder (MessageDecl.childPath [] 4 p.2) D.scope p.1) ++
      D.extensions.zipIdx.map (siteAt [] D.scope 7) := by
  rw [fieldSites, FileDecl.sites, List.flatMap_assoc]
  rfl

theorem Declares.hasField (h : D.Declares path) : ∃ name d, D.HasField path name d := by
  cases h with
  | message hi hE h =>
    obtain ⟨name, d, h⟩ := h.hasField D.scope
    exact ⟨name, d, .message hi hE h⟩
  | extension hi hd => exact ⟨_, _, .extension hi hd⟩

/-- The walk comes upon the fields that are declared, each with its path and its full name. -/
theorem mem_fieldSites (hD : D.Addressable) :
    s ∈ fieldSites D ↔ D.HasField s.path s.fullName s.decl := by
  rw [fieldSites_eq, List.mem_append, mem_zipIdx_map, mem_zipIdx_flatMap]
  constructor
  · rintro (⟨i, E, hE, hs⟩ | ⟨i, d, hd, rfl⟩)
    · obtain ⟨rest, hp, h⟩ :=
        (MessageDecl.mem_sitesUnder (hD.inner E (List.mem_of_getElem? hE))).mp hs
      rw [hp]
      exact .message (lt_of_getElem? hE hD.messages) hE h
    · exact .extension (lt_of_getElem? hd hD.extensions) hd
  · obtain ⟨p, name, d⟩ := s
    intro h
    dsimp only at h
    cases h with
    | @message _ E i rest _ _ hi hE h =>
      exact Or.inl ⟨i, E, hE, (MessageDecl.mem_sitesUnder
        (hD.inner E (List.mem_of_getElem? hE))).mpr
        ⟨rest, rfl, h⟩⟩
    | extension hi hd => exact Or.inr ⟨_, _, hd, rfl⟩

/-- No two fields have one path, and none is come upon twice. -/
theorem nodup_fieldSites (hD : D.Addressable) : ((fieldSites D).map (·.path)).Nodup := by
  rw [fieldSites_eq, List.map_append]
  refine List.nodup_append'.mpr ⟨MessageDecl.nodup_pathsIn hD.messages hD.inner fun E hE path =>
    MessageDecl.nodup_paths (hD.inner E hE) path _, MessageDecl.nodup_childPaths hD.extensions, ?_⟩
  exact MessageDecl.disjoint_of_below (MessageDecl.below_pathsIn hD.inner)
    MessageDecl.below_childPaths (by decide)

end FileDecl
end DescriptorKit
