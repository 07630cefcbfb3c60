import DescriptorKit.Managed.Modify
import Mathlib.Algebra.Group.Nat.Defs
import Mathlib.Data.List.Nodup
import Mathlib.Data.List.ProdSigma

/-!
The fields that a file declares, each under the path that leads to it. As long as lists of
declarations are not too long to be counted, every field has a path of its own, and changing the one
under a path changes no other.
-/
namespace DescriptorKit
open Managed

section Lists

variable {α β : Type} {l : List α} {a a' : α} {i k : Nat}

theorem zipIdx_map_set {F : α × Nat → β} {r : β → β} (ha : l[i]? = some a)
    (hi : F (a', k + i) = r (F (a, k + i)))
    (hj : ∀ j b, l[j]? = some b → j ≠ i → r (F (b, k + j)) = F (b, k + j)) :
    ((l.set i a').zipIdx k).map F = ((l.zipIdx k).map F).map r := by
  induction l generalizing i k with
  | nil => simp at ha
  | cons b l ih =>
    cases i with
    | zero =>
      obtain rfl := Option.some.inj ha
      rw [List.set_cons_zero, List.zipIdx_cons, List.zipIdx_cons, List.map_cons, List.map_cons,
        List.map_cons, List.map_map]
      rw [Nat.add_zero] at hi
      rw [hi]
      congr 1
      refine List.map_congr_left fun p hp => ?_
      obtain ⟨c, n⟩ := p
      obtain ⟨hle, hc⟩ := List.mem_zipIdx_iff_le_and_getElem?_sub.mp hp
      have := hj (n - k) c ?_ (by omega)
      · rw [Nat.add_sub_cancel' (by omega)] at this
        exact this.symm
      · rw [show n - k = (n - (k + 1)) + 1 by omega]
        exact hc
    | succ i =>
      rw [List.set_cons_succ, List.zipIdx_cons, List.zipIdx_cons, List.map_cons, List.map_cons,
        List.map_cons]
      rw [ih ha (by rwa [show k + 1 + i = k + (i + 1) by omega]) fun j c hc hne => by
        have := hj (j + 1) c hc (by omega)
        rwa [show k + (j + 1) = k + 1 + j by omega] at this]
      rw [show r (F (b, k)) = F (b, k) from hj 0 b rfl (by omega)]

theorem zipIdx_flatMap_set {F : α × Nat → List β} {r : β → β} (ha : l[i]? = some a)
    (hi : F (a', k + i) = (F (a, k + i)).map r)
    (hj : ∀ j b, l[j]? = some b → j ≠ i → (F (b, k + j)).map r = F (b, k + j)) :
    ((l.set i a').zipIdx k).flatMap F = ((l.zipIdx k).flatMap F).map r := by
  rw [List.flatMap_def, List.flatMap_def, zipIdx_map_set (r := List.map r) ha hi hj,
    List.map_flatten]

theorem mem_zipIdx_map {F : α × Nat → β} {b : β} :
    b ∈ l.zipIdx.map F ↔ ∃ i a, l[i]? = some a ∧ b = F (a, i) := by
  constructor
  · intro h
    obtain ⟨⟨a, i⟩, hm, rfl⟩ := List.mem_map.mp h
    exact ⟨i, a, List.mem_zipIdx_iff_getElem?.mp hm, rfl⟩
  · rintro ⟨i, a, ha, rfl⟩
    exact List.mem_map_of_mem (List.mem_zipIdx_iff_getElem?.mpr ha)

theorem mem_zipIdx_flatMap {F : α × Nat → List β} {b : β} :
    b ∈ l.zipIdx.flatMap F ↔ ∃ i a, l[i]? = some a ∧ b ∈ F (a, i) := by
  constructor
  · intro h
    obtain ⟨⟨a, i⟩, hm, hb⟩ := List.mem_flatMap.mp h
    exact ⟨i, a, List.mem_zipIdx_iff_getElem?.mp hm, hb⟩
  · rintro ⟨i, a, ha, hb⟩
    exact List.mem_flatMap.mpr ⟨_, List.mem_zipIdx_iff_getElem?.mpr ha, hb⟩

theorem lt_of_getElem? (h : l[i]? = some a) (hl : l.length ≤ 2 ^ 31) : i < 2 ^ 31 := by
  have := (List.getElem?_eq_some_iff.mp h).1
  omega

end Lists

theorem ofNat_inj {i j : Nat} (hi : i < 2 ^ 31) (hj : j < 2 ^ 31)
    (h : Int32.ofNat i = Int32.ofNat j) : i = j := by
  have he := congrArg Int32.toInt h
  rw [Int32.toInt_ofNat_of_lt hi, Int32.toInt_ofNat_of_lt hj] at he
  exact Int.ofNat.inj he

namespace Managed

/-- What there is to know of a field to choose how its integers are represented. -/
structure SiteView where
  path : List Int32
  fullName : String
  wide : Bool
  jsType : JsType

def FieldSite.view (s : FieldSite) : SiteView :=
  ⟨s.path, s.fullName, isWide s.decl, jsTypeOf s.decl⟩

/-- The view after the field under a path has got another representation. -/
def SiteView.retype (path : List Int32) (t : JsType) (v : SiteView) : SiteView :=
  if v.path = path then { v with jsType := t } else v

/-- An element of a list of fields that stands in what is at `path`. -/
def siteAt (path : List Int32) (scope : String) (field : Int32) (p : FieldDecl × Nat) : FieldSite :=
  ⟨MessageDecl.childPath path field p.2, qualify scope p.1.name, p.1⟩

/-- The fields of a message and of all messages in it. -/
def sitesUnder (path : List Int32) (scope : String) (D : MessageDecl) : List FieldSite :=
  (D.sites path scope).flatMap sitesIn

/-- An element of a list of fields that stands in what is at `path`. -/
def viewAt (path : List Int32) (scope : String) (field : Int32) (p : FieldDecl × Nat) : SiteView :=
  FieldSite.view ⟨MessageDecl.childPath path field p.2, qualify scope p.1.name, p.1⟩

/-- The fields of a message and of all messages in it. -/
def viewsUnder (path : List Int32) (scope : String) (D : MessageDecl) : List SiteView :=
  ((D.sites path scope).flatMap sitesIn).map FieldSite.view

variable {path : List Int32} {scope : String} {field : Int32} {t : JsType} {v w : SiteView}

theorem SiteView.retype_of_ne (h : v.path ≠ path) : v.retype path t = v := if_neg h

theorem map_retype_of_ne {views : List SiteView} (h : ∀ v ∈ views, v.path ≠ path) :
    views.map (SiteView.retype path t) = views := by
  conv_rhs => rw [← List.map_id views]
  exact List.map_congr_left fun v hv => SiteView.retype_of_ne (h v hv)

theorem nestedSites_eq (path : List Int32) (scope : String) (k : Nat) (ms : List MessageDecl) :
    MessageDecl.nestedSites path scope k ms =
      (ms.zipIdx k).flatMap fun p => p.1.sites (MessageDecl.childPath path 3 p.2) scope := by
  induction ms generalizing k with
  | nil => rw [MessageDecl.nestedSites, List.zipIdx_nil, List.flatMap_nil]
  | cons m ms ih => rw [MessageDecl.nestedSites, ih, List.zipIdx_cons, List.flatMap_cons]

/-- The fields of a message come first, then its extensions, then what stands in the messages in
it. -/
theorem sitesUnder_eq (path : List Int32) (scope : String) (D : MessageDecl) :
    sitesUnder path scope D =
      D.fields.zipIdx.map (siteAt path (qualify scope D.name) 2) ++
        D.extensions.zipIdx.map (siteAt path (qualify scope D.name) 6) ++
          D.nested.zipIdx.flatMap fun p =>
            sitesUnder (MessageDecl.childPath path 3 p.2) (qualify scope D.name) p.1 := by
  have hsites : D.sites path scope = ⟨path, qualify scope D.name, D⟩ ::
      MessageDecl.nestedSites path (qualify scope D.name) 0 D.nested := by
    cases D
    rw [MessageDecl.sites]
  rw [sitesUnder, hsites, nestedSites_eq, List.flatMap_cons, List.flatMap_assoc, sitesIn]
  rfl

theorem viewsUnder_eq (path : List Int32) (scope : String) (D : MessageDecl) :
    viewsUnder path scope D =
      D.fields.zipIdx.map (viewAt path (qualify scope D.name) 2) ++
        D.extensions.zipIdx.map (viewAt path (qualify scope D.name) 6) ++
          D.nested.zipIdx.flatMap fun p =>
            viewsUnder (MessageDecl.childPath path 3 p.2) (qualify scope D.name) p.1 := by
  change (sitesUnder path scope D).map FieldSite.view = _
  rw [sitesUnder_eq, List.map_append, List.map_append, List.map_flatMap, List.map_map, List.map_map]
  rfl

theorem mem_viewsUnder {D : MessageDecl} : v ∈ viewsUnder path scope D ↔
    (∃ i d, D.fields[i]? = some d ∧ v = viewAt path (qualify scope D.name) 2 (d, i)) ∨
      (∃ i d, D.extensions[i]? = some d ∧ v = viewAt path (qualify scope D.name) 6 (d, i)) ∨
        ∃ i E, D.nested[i]? = some E ∧
          v ∈ viewsUnder (MessageDecl.childPath path 3 i) (qualify scope D.name) E := by
  rw [viewsUnder_eq, List.mem_append, List.mem_append, mem_zipIdx_map, mem_zipIdx_map,
    mem_zipIdx_flatMap, or_assoc]

end Managed

/-- The lists in a message, at any depth, are short enough for their elements to have paths of
their own. -/
inductive MessageDecl.Addressable : MessageDecl → Prop where
  | mk {D : MessageDecl} (fields : D.fields.length ≤ 2 ^ 31)
      (extensions : D.extensions.length ≤ 2 ^ 31) (nested : D.nested.length ≤ 2 ^ 31)
      (inner : ∀ E ∈ D.nested, E.Addressable) : Addressable D

/-- The lists in a message itself are short enough. -/
def MessageDecl.isShort (D : MessageDecl) : Bool :=
  D.fields.length ≤ 2 ^ 31 && D.extensions.length ≤ 2 ^ 31 && D.nested.length ≤ 2 ^ 31

mutual

/-- It is enough to look at every message that stands in a message. -/
theorem MessageDecl.addressable_of_sites (path : List Int32) (scope : String) :
    ∀ D : MessageDecl, (∀ s ∈ D.sites path scope, s.decl.isShort = true) → D.Addressable
  | D@⟨name, _, nested, _, _, _, _, _, _, _⟩ => by
    intro h
    rw [sites] at h
    obtain ⟨hshort, hrest⟩ := List.forall_mem_cons.mp h
    simp only [isShort, Bool.and_eq_true, decide_eq_true_eq] at hshort
    exact ⟨hshort.1.1, hshort.1.2, hshort.2,
      addressable_of_nestedSites path (qualify scope name) 0 nested hrest⟩

theorem MessageDecl.addressable_of_nestedSites (path : List Int32) (scope : String) (index : Nat) :
    ∀ ms : List MessageDecl, (∀ s ∈ nestedSites path scope index ms, s.decl.isShort = true) →
      ∀ D ∈ ms, D.Addressable
  | [] => by simp
  | m :: rest => by
    intro h
    rw [nestedSites] at h
    obtain ⟨hm, hrest⟩ := List.forall_mem_append.mp h
    exact List.forall_mem_cons.mpr ⟨addressable_of_sites _ scope m hm,
      addressable_of_nestedSites path scope (index + 1) rest hrest⟩

end

/-- Paths that lead from a message to a field. -/
inductive Leads : List Int32 → Prop where
  | field (i : Nat) : Leads [2, Int32.ofNat i]
  | extension (i : Nat) : Leads [6, Int32.ofNat i]
  | nested (i : Nat) {rest : List Int32} (h : Leads rest) : Leads (3 :: Int32.ofNat i :: rest)

/-- Paths that lead to a field that stands in a message or in those in it. -/
inductive MessageDecl.Declares : List Int32 → MessageDecl → Prop where
  | field {D : MessageDecl} {i : Nat} {d : FieldDecl} (hi : i < 2 ^ 31)
      (hd : D.fields[i]? = some d) :
      Declares [2, Int32.ofNat i] D
  | extension {D : MessageDecl} {i : Nat} {d : FieldDecl} (hi : i < 2 ^ 31)
      (hd : D.extensions[i]? = some d) : Declares [6, Int32.ofNat i] D
  | nested {D E : MessageDecl} {i : Nat} {rest : List Int32} (hi : i < 2 ^ 31)
      (hE : D.nested[i]? = some E) (h : Declares rest E) : Declares (3 :: Int32.ofNat i :: rest) D

/-- Of a field only the representation of its integers has changed. -/
structure FieldDecl.Retyped (t : JsType) (d d' : FieldDecl) : Prop where
  name : d'.name = d.name
  wide : isWide d' = isWide d
  jsType : jsTypeOf d' = t

/-- The field under a path has got another representation, and nothing else has changed. -/
inductive MessageDecl.Retyped (t : JsType) : List Int32 → MessageDecl → MessageDecl → Prop where
  | field {D : MessageDecl} {i : Nat} {d d' : FieldDecl} (hd : D.fields[i]? = some d)
      (h : d.Retyped t d') :
      Retyped t [2, Int32.ofNat i] D { D with fields := D.fields.set i d' }
  | extension {D : MessageDecl} {i : Nat} {d d' : FieldDecl} (hd : D.extensions[i]? = some d)
      (h : d.Retyped t d') :
      Retyped t [6, Int32.ofNat i] D { D with extensions := D.extensions.set i d' }
  | nested {D E E' : MessageDecl} {i : Nat} {rest : List Int32} (hE : D.nested[i]? = some E)
      (h : Retyped t rest E E') :
      Retyped t (3 :: Int32.ofNat i :: rest) D { D with nested := D.nested.set i E' }

namespace MessageDecl

variable {path : List Int32} {scope : String} {D D' : MessageDecl} {v w : SiteView} {t : JsType}
  {rest : List Int32}

/-- The path of a field leads to it from where the message stands. -/
theorem exists_declares (hD : D.Addressable) (hv : v ∈ viewsUnder path scope D) :
    ∃ rest, D.Declares rest ∧ v.path = path ++ rest := by
  induction hD generalizing path scope with
  | mk hfields hextensions hnested _ ih =>
    rcases mem_viewsUnder.mp hv with ⟨i, d, hd, rfl⟩ | ⟨i, d, hd, rfl⟩ | ⟨i, E, hE, hv⟩
    · exact ⟨_, .field (lt_of_getElem? hd hfields) hd, rfl⟩
    · exact ⟨_, .extension (lt_of_getElem? hd hextensions) hd, rfl⟩
    · obtain ⟨rest, hl, hp⟩ := ih E (List.mem_of_getElem? hE) hv
      refine ⟨_, .nested (lt_of_getElem? hE hnested) hE hl, ?_⟩
      rw [hp, childPath, List.append_assoc]
      rfl

theorem Declares.leads (h : D.Declares rest) : Leads rest := by
  induction h with
  | field => exact .field _
  | extension => exact .extension _
  | nested _ _ _ ih => exact .nested _ ih

theorem exists_leads (hD : D.Addressable) (hv : v ∈ viewsUnder path scope D) :
    ∃ rest, Leads rest ∧ v.path = path ++ rest := by
  obtain ⟨rest, h, hp⟩ := exists_declares hD hv
  exact ⟨rest, h.leads, hp⟩

theorem path_of_nested {E : MessageDecl} {i : Nat} (hE : E.Addressable)
    (hv : v ∈ viewsUnder (childPath path 3 i) scope E) :
    ∃ rest, v.path = path ++ 3 :: Int32.ofNat i :: rest := by
  obtain ⟨rest, -, hp⟩ := exists_leads hE hv
  exact ⟨rest, by rw [hp, childPath, List.append_assoc]; rfl⟩

theorem viewAt_path (path : List Int32) (scope : String) (field : Int32) (d : FieldDecl) (i : Nat) :
    (viewAt path scope field (d, i)).path = path ++ [field, Int32.ofNat i] := rfl

/-- Two elements of a list that have one path are the same. -/
theorem viewAt_unique {l : List FieldDecl} (hl : l.length ≤ 2 ^ 31) {field : Int32}
    {d d' : FieldDecl} {i j : Nat} (hd : l[i]? = some d) (hd' : l[j]? = some d')
    (h : (viewAt path scope field (d, i)).path = (viewAt path scope field (d', j)).path) :
    d = d' ∧ i = j := by
  rw [viewAt_path, viewAt_path] at h
  have hi : Int32.ofNat i = Int32.ofNat j := by simpa using h
  obtain rfl := ofNat_inj (lt_of_getElem? hd hl) (lt_of_getElem? hd' hl) hi
  exact ⟨Option.some.inj (hd.symm.trans hd'), rfl⟩

/-- No two fields have one path. -/
theorem view_unique (hD : D.Addressable) (hv : v ∈ viewsUnder path scope D)
    (hw : w ∈ viewsUnder path scope D) (h : v.path = w.path) : v = w := by
  induction hD generalizing path scope with
  | mk hfields hextensions hnested hinner ih =>
    rcases mem_viewsUnder.mp hv with ⟨i, d, hd, rfl⟩ | ⟨i, d, hd, rfl⟩ | ⟨i, E, hE, hv⟩ <;>
      rcases mem_viewsUnder.mp hw with ⟨j, d', hd', rfl⟩ | ⟨j, d', hd', rfl⟩ | ⟨j, E', hE', hw⟩
    case inl.inl =>
      obtain ⟨rfl, rfl⟩ := viewAt_unique hfields hd hd' h
      rfl
    case inr.inl.inr.inl =>
      obtain ⟨rfl, rfl⟩ := viewAt_unique hextensions hd hd' h
      rfl
    case inr.inr.inr.inr =>
      obtain ⟨r, hr⟩ := path_of_nested (hinner E (List.mem_of_getElem? hE)) hv
      obtain ⟨r', hr'⟩ := path_of_nested (hinner E' (List.mem_of_getElem? hE')) hw
      rw [hr, hr'] at h
      have hi : Int32.ofNat i = Int32.ofNat j := by
        simp only [List.append_cancel_left_eq, List.cons.injEq, true_and] at h
        exact h.1
      obtain rfl := ofNat_inj (lt_of_getElem? hE hnested) (lt_of_getElem? hE' hnested) hi
      obtain rfl := Option.some.inj (hE.symm.trans hE')
      exact ih E (List.mem_of_getElem? hE) hv hw
    case inl.inr.inl | inr.inl.inl => simp [viewAt_path] at h
    case inl.inr.inr | inr.inl.inr.inr =>
      obtain ⟨r, hr⟩ := path_of_nested (hinner E' (List.mem_of_getElem? hE')) hw
      simp [viewAt_path, hr] at h
    case inr.inr.inl | inr.inr.inr.inl =>
      obtain ⟨r, hr⟩ := path_of_nested (hinner E (List.mem_of_getElem? hE)) hv
      simp [viewAt_path, hr] at h

theorem Retyped.addressable (h : Retyped t rest D D') (hD : D.Addressable) : D'.Addressable := by
  induction h with
  | field hd h =>
    obtain ⟨hfields, hextensions, hnested, hinner⟩ := hD
    exact ⟨by rwa [List.length_set], hextensions, hnested, hinner⟩
  | extension hd h =>
    obtain ⟨hfields, hextensions, hnested, hinner⟩ := hD
    exact ⟨hfields, by rwa [List.length_set], hnested, hinner⟩
  | nested hE h ih =>
    obtain ⟨hfields, hextensions, hnested, hinner⟩ := hD
    refine ⟨hfields, hextensions, by rwa [List.length_set], fun x hx => ?_⟩
    rcases List.mem_or_eq_of_mem_set hx with hx | rfl
    · exact hinner x hx
    · exact ih (hinner _ (List.mem_of_getElem? hE))

/-- Exchanging a field in a list changes what there is to know of it, and of no other. -/
theorem viewAt_set (path : List Int32) {l : List FieldDecl} (hl : l.length ≤ 2 ^ 31)
    {field : Int32} {d d' : FieldDecl} {i : Nat} (hd : l[i]? = some d) (h : d.Retyped t d') :
    (l.set i d').zipIdx.map (viewAt path scope field) =
      (l.zipIdx.map (viewAt path scope field)).map
        (SiteView.retype (path ++ [field, Int32.ofNat i]) t) := by
  refine zipIdx_map_set hd ?_ fun j e he hne => ?_
  · rw [Nat.zero_add, SiteView.retype, if_pos (viewAt_path path scope field d i), viewAt, viewAt,
      FieldSite.view, FieldSite.view, h.name, h.wide, h.jsType]
  · rw [Nat.zero_add]
    refine SiteView.retype_of_ne fun hp => hne ?_
    rw [viewAt_path] at hp
    exact ofNat_inj (lt_of_getElem? he hl) (lt_of_getElem? hd hl) (by simpa using hp)

theorem map_viewAt_of_ne (path rest : List Int32) {l : List FieldDecl} {field k : Int32}
    (h : field ≠ k) :
    (l.zipIdx.map (viewAt path scope field)).map (SiteView.retype (path ++ k :: rest) t) =
      l.zipIdx.map (viewAt path scope field) := by
  refine map_retype_of_ne fun v hv => ?_
  obtain ⟨i, d, -, rfl⟩ := mem_zipIdx_map.mp hv
  rw [viewAt_path]
  simp [h]

theorem map_nested_of_ne (hD : D.Addressable) {k : Int32} (h : (3 : Int32) ≠ k) :
    (D.nested.zipIdx.flatMap fun p => viewsUnder (childPath path 3 p.2) scope p.1).map
        (SiteView.retype (path ++ k :: rest) t) =
      D.nested.zipIdx.flatMap fun p => viewsUnder (childPath path 3 p.2) scope p.1 := by
  refine map_retype_of_ne fun v hv => ?_
  obtain ⟨i, E, hE, hv⟩ := mem_zipIdx_flatMap.mp hv
  obtain ⟨-, -, -, hinner⟩ := hD
  obtain ⟨r, hr⟩ := path_of_nested (hinner E (List.mem_of_getElem? hE)) hv
  rw [hr]
  simp [h]

/-- What there is to know of the fields follows the change. -/
theorem Retyped.views (h : Retyped t rest D D') (hD : D.Addressable) (path : List Int32)
    (scope : String) : viewsUnder path scope D' =
      (viewsUnder path scope D).map (SiteView.retype (path ++ rest) t) := by
  induction h generalizing path scope with
  | field hd h =>
    obtain ⟨hfields, -, -, -⟩ := id hD
    rw [viewsUnder_eq, viewsUnder_eq, List.map_append, List.map_append, viewAt_set _ hfields hd h,
      map_viewAt_of_ne _ _ (show (6 : Int32) ≠ 2 by decide), map_nested_of_ne hD (by decide)]
  | extension hd h =>
    obtain ⟨-, hextensions, -, -⟩ := id hD
    rw [viewsUnder_eq, viewsUnder_eq, List.map_append, List.map_append,
      viewAt_set _ hextensions hd h, map_viewAt_of_ne _ _ (show (2 : Int32) ≠ 6 by decide),
      map_nested_of_ne hD (by decide)]
  | @nested D E E' i rest hE h ih =>
    obtain ⟨-, -, hnested, hinner⟩ := id hD
    rw [viewsUnder_eq, viewsUnder_eq, List.map_append, List.map_append,
      map_viewAt_of_ne _ _ (by decide), map_viewAt_of_ne _ _ (by decide)]
    congr 1
    refine zipIdx_flatMap_set hE ?_ fun j F hF hne => ?_
    · rw [Nat.zero_add, ih (hinner E (List.mem_of_getElem? hE)), childPath, List.append_assoc]
      rfl
    · rw [Nat.zero_add]
      refine map_retype_of_ne fun v hv hp => hne ?_
      obtain ⟨r, hr⟩ := path_of_nested (hinner F (List.mem_of_getElem? hF)) hv
      rw [hr] at hp
      have hj : Int32.ofNat j = Int32.ofNat i := by
        simp only [List.append_cancel_left_eq, List.cons.injEq, true_and] at hp
        exact hp.1
      exact ofNat_inj (lt_of_getElem? hF hnested) (lt_of_getElem? hE hnested) hj

end MessageDecl

/-- The lists in a file are short enough for the fields in them to have paths of their own. -/
structure FileDecl.Addressable (D : FileDecl) : Prop where
  messages : D.messages.length ≤ 2 ^ 31
  extensions : D.extensions.length ≤ 2 ^ 31
  inner : ∀ E ∈ D.messages, E.Addressable

/-- It is enough to look at every message of a file. -/
theorem FileDecl.addressable_of_sites {D : FileDecl} (hm : D.messages.length ≤ 2 ^ 31)
    (he : D.extensions.length ≤ 2 ^ 31) (h : ∀ s ∈ D.sites, s.decl.isShort = true) :
    D.Addressable where
  messages := hm
  extensions := he
  inner E hE := by
    obtain ⟨i, hi, rfl⟩ := List.getElem_of_mem hE
    refine MessageDecl.addressable_of_sites [4, Int32.ofNat i] D.scope _ fun s hs => h s ?_
    exact List.mem_flatMap.mpr ⟨(D.messages[i], i), List.mem_zipIdx_iff_getElem?.mpr
      (List.getElem?_eq_getElem hi), hs⟩

/-- Paths that lead from a file to a field. -/
inductive FileLeads : List Int32 → Prop where
  | message (i : Nat) {rest : List Int32} (h : Leads rest) : FileLeads (4 :: Int32.ofNat i :: rest)
  | extension (i : Nat) : FileLeads [7, Int32.ofNat i]

/-- Paths that lead to a field that a file declares. -/
inductive FileDecl.Declares : List Int32 → FileDecl → Prop where
  | message {D : FileDecl} {E : MessageDecl} {i : Nat} {rest : List Int32} (hi : i < 2 ^ 31)
      (hE : D.messages[i]? = some E) (h : E.Declares rest) : Declares (4 :: Int32.ofNat i :: rest) D
  | extension {D : FileDecl} {i : Nat} {d : FieldDecl} (hi : i < 2 ^ 31)
      (hd : D.extensions[i]? = some d) : Declares [7, Int32.ofNat i] D

/-- The field under a path has got another representation, and nothing else has changed. -/
inductive FileDecl.Retyped (t : JsType) : List Int32 → FileDecl → FileDecl → Prop where
  | message {D : FileDecl} {E E' : MessageDecl} {i : Nat} {rest : List Int32}
      (hE : D.messages[i]? = some E) (h : E.Retyped t rest E') :
      Retyped t (4 :: Int32.ofNat i :: rest) D { D with messages := D.messages.set i E' }
  | extension {D : FileDecl} {i : Nat} {d d' : FieldDecl} (hd : D.extensions[i]? = some d)
      (h : d.Retyped t d') :
      Retyped t [7, Int32.ofNat i] D { D with extensions := D.extensions.set i d' }

namespace FileDecl

variable {D D' : FileDecl} {v w : SiteView} {t : JsType} {path : List Int32}

/-- What there is to know of the fields of a file. -/
def views (D : FileDecl) : List SiteView := (fieldSites D).map FieldSite.view

theorem views_eq (D : FileDecl) : D.views =
    (D.messages.zipIdx.flatMap fun p =>
      viewsUnder (MessageDecl.childPath [] 4 p.2) D.scope p.1) ++
        D.extensions.zipIdx.map (viewAt [] D.scope 7) := by
  rw [views, fieldSites, List.map_append, FileDecl.sites, List.flatMap_assoc, List.map_flatMap,
    List.map_map]
  rfl

theorem mem_views : v ∈ D.views ↔
    (∃ i E, D.messages[i]? = some E ∧ v ∈ viewsUnder (MessageDecl.childPath [] 4 i) D.scope E) ∨
      ∃ i d, D.extensions[i]? = some d ∧ v = viewAt [] D.scope 7 (d, i) := by
  rw [views_eq, List.mem_append, mem_zipIdx_map, mem_zipIdx_flatMap]

theorem Addressable.declares (hD : D.Addressable) (hv : v ∈ D.views) : D.Declares v.path := by
  rcases mem_views.mp hv with ⟨i, E, hE, hv⟩ | ⟨i, d, hd, rfl⟩
  · obtain ⟨rest, h, hp⟩ := MessageDecl.exists_declares (hD.inner E (List.mem_of_getElem? hE)) hv
    rw [hp]
    exact .message (lt_of_getElem? hE hD.messages) hE h
  · exact .extension (lt_of_getElem? hd hD.extensions) hd

theorem Declares.leads (h : D.Declares path) : FileLeads path := by
  cases h with
  | message _ _ h => exact .message _ h.leads
  | extension => exact .extension _

theorem Addressable.leads (hD : D.Addressable) (hv : v ∈ D.views) : FileLeads v.path :=
  (hD.declares hv).leads

theorem view_unique (hD : D.Addressable) (hv : v ∈ D.views) (hw : w ∈ D.views)
    (h : v.path = w.path) : v = w := by
  rcases mem_views.mp hv with ⟨i, E, hE, hv⟩ | ⟨i, d, hd, rfl⟩ <;>
    rcases mem_views.mp hw with ⟨j, E', hE', hw⟩ | ⟨j, d', hd', rfl⟩
  case inl.inl =>
    have hin := hD.inner E (List.mem_of_getElem? hE)
    obtain ⟨r, -, hr⟩ := MessageDecl.exists_leads hin hv
    obtain ⟨r', -, hr'⟩ := MessageDecl.exists_leads (hD.inner E' (List.mem_of_getElem? hE')) hw
    rw [hr, hr'] at h
    have hi : Int32.ofNat i = Int32.ofNat j := by
      simp only [MessageDecl.childPath, List.nil_append, List.cons_append, List.cons.injEq,
        true_and] at h
      exact h.1
    obtain rfl := ofNat_inj (lt_of_getElem? hE hD.messages) (lt_of_getElem? hE' hD.messages) hi
    obtain rfl := Option.some.inj (hE.symm.trans hE')
    exact MessageDecl.view_unique hin hv hw (hr.trans (h.trans hr'.symm))
  case inr.inr =>
    obtain ⟨rfl, rfl⟩ := MessageDecl.viewAt_unique hD.extensions hd hd' h
    rfl
  case inl.inr =>
    obtain ⟨r, -, hr⟩ := MessageDecl.exists_leads (hD.inner E (List.mem_of_getElem? hE)) hv
    simp [MessageDecl.viewAt_path, MessageDecl.childPath, hr] at h
  case inr.inl =>
    obtain ⟨r, -, hr⟩ := MessageDecl.exists_leads (hD.inner E' (List.mem_of_getElem? hE')) hw
    simp [MessageDecl.viewAt_path, MessageDecl.childPath, hr] at h

theorem Retyped.scope (h : Retyped t path D D') : D'.scope = D.scope := by
  cases h <;> rfl

theorem Retyped.addressable (h : Retyped t path D D') (hD : D.Addressable) : D'.Addressable := by
  cases h with
  | message hE h =>
    refine ⟨by rw [List.length_set]; exact hD.messages, hD.extensions, fun x hx => ?_⟩
    rcases List.mem_or_eq_of_mem_set hx with hx | rfl
    · exact hD.inner x hx
    · exact h.addressable (hD.inner _ (List.mem_of_getElem? hE))
  | extension hd h =>
    exact ⟨hD.messages, by rw [List.length_set]; exact hD.extensions, hD.inner⟩

/-- What there is to know of the fields follows the change. -/
theorem Retyped.views (h : Retyped t path D D') (hD : D.Addressable) :
    D'.views = D.views.map (SiteView.retype path t) := by
  cases h with
  | @message _ E E' i rest hE h =>
    rw [views_eq, views_eq, List.map_append]
    congr 1
    · refine zipIdx_flatMap_set hE ?_ fun j F hF hne => ?_
      · rw [Nat.zero_add, h.views (hD.inner E (List.mem_of_getElem? hE))]
        rfl
      · rw [Nat.zero_add]
        refine map_retype_of_ne fun v hv hp => hne ?_
        obtain ⟨r, -, hr⟩ := MessageDecl.exists_leads (hD.inner F (List.mem_of_getElem? hF)) hv
        rw [hr] at hp
        have hj : Int32.ofNat j = Int32.ofNat i := by
          simp only [MessageDecl.childPath, List.nil_append, List.cons_append, List.cons.injEq,
            true_and] at hp
          exact hp.1
        exact ofNat_inj (lt_of_getElem? hF hD.messages) (lt_of_getElem? hE hD.messages) hj
    · exact (MessageDecl.map_viewAt_of_ne [] (Int32.ofNat i :: rest)
        (show (7 : Int32) ≠ 4 by decide)).symm
  | @extension _ i d d' hd h =>
    rw [views_eq, views_eq, List.map_append]
    congr 1
    · refine (map_retype_of_ne fun v hv => ?_).symm
      obtain ⟨j, E, hE, hv⟩ := mem_zipIdx_flatMap.mp hv
      obtain ⟨r, -, hr⟩ := MessageDecl.exists_leads (hD.inner E (List.mem_of_getElem? hE)) hv
      rw [hr]
      simp [MessageDecl.childPath]
    · exact MessageDecl.viewAt_set [] hD.extensions hd h

end FileDecl
end DescriptorKit
