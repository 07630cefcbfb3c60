import DescriptorKit.Proofs.Scalar
import DescriptorKit.Schema.OfDeclaration
import Mathlib.Data.List.Nodup

/-!
Schemas that files declare. Their fields fit together as readers and writers expect, and the fields
of a message have numbers of their own where the declarations had.
-/
namespace DescriptorKit

/-- Kinds of single values rather than of messages. -/
def Kind.Single (k : Kind) : Prop := k.wireType ≠ .startGroup ∧ ∀ type, k ≠ .message type

theorem Kind.single_or_nested (k : Kind) :
    k.Single ∨ ∃ type, k = .message type ∨ k = .group type := by
  cases k with
  | scalar k =>
    left
    refine ⟨?_, by simp⟩
    cases k <;> simp [Kind.wireType, ScalarKind.wireType]
  | enum type => exact Or.inl ⟨by simp [Kind.wireType], by simp⟩
  | message type => exact Or.inr ⟨type, Or.inl rfl⟩
  | group type => exact Or.inr ⟨type, Or.inr rfl⟩

/-- The entries of a map are messages, and there may be many of them. Only values that can share a
record do so, and a default is one of the kind. -/
structure Field.Regular (f : Field) : Prop where
  kind_of_map : f.map = true → ∃ type, f.kind = .message type
  repeated_of_map : f.map = true → f.repeated = true
  packable_of_packed : f.packed = true → f.packable = true
  default_fits : ∀ s, f.declaredDefault = some s → s.Fits f.kind

theorem Field.Regular.map_of_single {f : Field} (h : f.Regular) (hk : f.kind.Single) :
    f.map = false := by
  by_contra hm
  obtain ⟨type, hkind⟩ := h.kind_of_map (by simpa using hm)
  exact hk.2 type hkind

structure Schema.Regular (S : Schema) : Prop where
  fields : ∀ t ∈ S.messages, ∀ f ∈ t.fields, f.Regular
  extensions : ∀ e ∈ S.extensions, e.field.Regular
  numbered : ∀ t ∈ S.messages, (t.fields.map (·.number)).Nodup

namespace Schema

variable {S : Schema} {t : MessageType} {f : Field} {n : Nat} {type name : String}

theorem messageOf?_eq (hk : f.kind = .message type ∨ f.kind = .group type) :
    S.messageOf? f = S.message? type := by
  rcases hk with hk | hk <;> simp [messageOf?, hk]

theorem nested_of_messageOf? (h : S.messageOf? f = some t) :
    ∃ type, (f.kind = .message type ∨ f.kind = .group type) ∧ S.message? type = some t := by
  rcases f.kind.single_or_nested with hk | ⟨type, hk⟩
  · rw [messageOf?] at h
    split at h
    · rename_i hf
      exact absurd hf (hk.2 _)
    · rename_i hf
      exact absurd (by rw [hf]; rfl) hk.1
    · cases h
  · exact ⟨type, hk, messageOf?_eq hk ▸ h⟩

theorem not_single_of_messageOf? (h : S.messageOf? f = some t) : ¬ f.kind.Single := by
  obtain ⟨type, hk | hk, -⟩ := nested_of_messageOf? h
  · exact fun hs => hs.2 type hk
  · exact fun hs => hs.1 (by rw [hk]; rfl)

theorem not_packed (h : f.Regular) (hu : S.messageOf? f = some t) :
    f.packed = false := by
  by_contra hp
  have hpacks := h.packable_of_packed (by simpa using hp)
  obtain ⟨type, hk | hk, -⟩ := nested_of_messageOf? hu <;> simp [Field.packable, hk] at hpacks

theorem mem_of_message? (h : S.message? type = some t) : t ∈ S.messages ∧ t.name = type :=
  ⟨List.mem_of_find?_eq_some h, by simpa using List.find?_some h⟩

theorem mem_of_messageOf? (h : S.messageOf? f = some t) : t ∈ S.messages := by
  obtain ⟨type, -, ht⟩ := nested_of_messageOf? h
  exact (mem_of_message? ht).1

theorem field?_number (h : S.field? t n = some f) : f.number = n := by
  rw [field?] at h
  cases ht : t.fieldNumbered? n with
  | some g =>
    rw [ht] at h
    obtain rfl := Option.some.inj h
    simpa using List.find?_some ht
  | none =>
    simp only [ht, Option.orElse_eq_orElse, Option.orElse_none, extension?] at h
    obtain ⟨e, he, rfl⟩ := Option.map_eq_some_iff.mp h
    have := List.find?_some he
    simp only [Bool.and_eq_true, decide_eq_true_eq] at this
    exact this.2

theorem Regular.field (hS : S.Regular) (ht : t ∈ S.messages) (hf : S.field? t n = some f) :
    f.Regular := by
  rw [field?] at hf
  cases hd : t.fieldNumbered? n with
  | some g =>
    rw [hd] at hf
    obtain rfl := Option.some.inj hf
    exact hS.fields t ht g (List.mem_of_find?_eq_some hd)
  | none =>
    simp only [hd, Option.orElse_eq_orElse, Option.orElse_none, extension?] at hf
    obtain ⟨e, he, rfl⟩ := Option.map_eq_some_iff.mp hf
    exact hS.extensions e (List.mem_of_find?_eq_some he)

/-- A field is the one that its number stands for. -/
theorem Regular.field?_of_mem (hS : S.Regular) (ht : t ∈ S.messages) (hf : f ∈ t.fields) :
    S.field? t f.number = some f := by
  have hnd := hS.numbered t ht
  have hfind : t.fieldNumbered? f.number = some f := by
    rw [MessageType.fieldNumbered?]
    have hsome : (t.fields.find? fun g => g.number = f.number).isSome :=
      List.find?_isSome.mpr ⟨f, hf, by simp⟩
    obtain ⟨g, hg⟩ := Option.isSome_iff_exists.mp hsome
    have hgn : g.number = f.number := by simpa using List.find?_some hg
    rw [hg, List.inj_on_of_nodup_map hnd (List.mem_of_find?_eq_some hg) hf hgn]
  rw [field?, hfind]
  rfl

theorem Regular.field?_of_named (hS : S.Regular) (ht : t ∈ S.messages)
    (hf : t.fieldNamed? name = some f) : S.field? t f.number = some f :=
  hS.field?_of_mem ht (List.mem_of_find?_eq_some hf)

end Schema

theorem ScalarKind.zero_fits (k : ScalarKind) : k.zero.Fits (.scalar k) := by
  cases k <;> constructor

theorem ScalarKind.fits_of_ofInt? {k : ScalarKind} {n : Int} {s : Scalar}
    (h : k.ofInt? n = some s) : s.Fits (.scalar k) := by
  unfold ofInt? at h
  cases k <;> simp only [Option.ite_none_right_eq_some, Option.some.injEq, reduceCtorEq] at h <;>
    (obtain ⟨-, rfl⟩ := h; constructor)

theorem Text.Literal.fits_of_scalarOf? {k : ScalarKind} {text : String} {s : Scalar}
    (h : scalarOf? k text = some s) : s.Fits (.scalar k) := by
  unfold scalarOf? at h
  have hint : ∀ k : ScalarKind, (if k.isSigned then (int? text.toList).bind k.ofInt?
      else (plusNat? 10 text.toList).bind fun n => k.ofInt? n) = some s → s.Fits (.scalar k) := by
    intro k h
    split at h
    · obtain ⟨n, -, h⟩ := Option.bind_eq_some_iff.mp h
      exact ScalarKind.fits_of_ofInt? h
    · obtain ⟨n, -, h⟩ := Option.bind_eq_some_iff.mp h
      exact ScalarKind.fits_of_ofInt? h
  cases k with
  | double =>
    obtain ⟨⟨b, x⟩, -, rfl⟩ := Option.map_eq_some_iff.mp h
    constructor
  | float =>
    obtain ⟨⟨b, x⟩, -, rfl⟩ := Option.map_eq_some_iff.mp h
    constructor
  | bool =>
    dsimp only at h
    split at h
    · obtain rfl := Option.some.inj h
      constructor
    · split at h
      · obtain rfl := Option.some.inj h
        constructor
      · cases h
  | string =>
    obtain rfl := Option.some.inj h
    constructor
  | bytes =>
    obtain ⟨b, -, rfl⟩ := Option.map_eq_some_iff.mp h
    constructor
  | _ => exact hint _ h

mutual

/-- The fields of a message and of those nested in it have numbers of their own. -/
def MessageDecl.Numbered : MessageDecl → Prop
  | ⟨_, fields, nested, _, _, _, _, _, _, _⟩ =>
    (fields.map fun d => d.number.toInt.toNat).Nodup ∧ MessageDecl.AllNumbered nested

def MessageDecl.AllNumbered : List MessageDecl → Prop
  | [] => True
  | m :: rest => m.Numbered ∧ MessageDecl.AllNumbered rest

end

namespace MessageDecl

theorem allNumbered_iff {ms : List MessageDecl} : AllNumbered ms ↔ ∀ m ∈ ms, m.Numbered := by
  induction ms with
  | nil => simp [AllNumbered]
  | cons m ms ih => simp [AllNumbered, ih]

mutual

theorem Numbered.site (path : List Int32) (scope : String) : ∀ m : MessageDecl, m.Numbered →
    ∀ s ∈ m.sites path scope, (s.decl.fields.map fun d => d.number.toInt.toNat).Nodup
  | ⟨name, fields, nested, _, _, _, _, _, _, _⟩, h => by
    intro s hs
    rw [Numbered] at h
    rw [sites, List.mem_cons] at hs
    rcases hs with rfl | hs
    · exact h.1
    · exact AllNumbered.site path (qualify scope name) 0 nested h.2 s hs

theorem AllNumbered.site (path : List Int32) (scope : String) (index : Nat) :
    ∀ ms : List MessageDecl, AllNumbered ms → ∀ s ∈ nestedSites path scope index ms,
      (s.decl.fields.map fun d => d.number.toInt.toNat).Nodup
  | [], _ => by
    intro s hs
    rw [nestedSites] at hs
    cases hs
  | m :: rest, h => by
    intro s hs
    rw [AllNumbered] at h
    rw [nestedSites, List.mem_append] at hs
    rcases hs with hs | hs
    · exact Numbered.site (childPath path 3 index) scope m h.1 s hs
    · exact AllNumbered.site path scope (index + 1) rest h.2 s hs

end

end MessageDecl

/-- The fields of each message of the file have numbers of their own. -/
def FileDecl.Numbered (f : FileDecl) : Prop := MessageDecl.AllNumbered f.messages

theorem FileDecl.Numbered.site {f : FileDecl} (h : f.Numbered) {s : MessageSite}
    (hs : s ∈ f.sites) : (s.decl.fields.map fun d => d.number.toInt.toNat).Nodup := by
  obtain ⟨⟨m, i⟩, hm, hs⟩ := List.mem_flatMap.mp hs
  have hmem : m ∈ f.messages := List.fst_mem_of_mem_zipIdx hm
  exact (MessageDecl.allNumbered_iff.mp h m hmem).site _ _ m s hs

namespace Schema

theorem field_regular (C : Context) (proto3 : Bool) (extendedBy : Option String) (d : FieldDecl) :
    (field C proto3 extendedBy d).Regular := by
  unfold field
  dsimp only
  constructor
  · intro h
    dsimp only at h
    split at h
    · rename_i type hk
      exact ⟨type, hk⟩
    · cases h
  · intro h
    dsimp only at h
    split at h
    · simp only [Bool.and_eq_true] at h
      exact h.1
    · cases h
  · intro h
    exact (Bool.and_eq_true_iff.mp h).1
  · intro s h
    obtain ⟨text, -, h⟩ := Option.bind_eq_some_iff.mp h
    unfold defaultOf at h
    dsimp only
    cases hk : kindOf C d with
    | scalar k =>
      rw [hk] at h
      exact Text.Literal.fits_of_scalarOf? h
    | enum type =>
      rw [hk] at h
      obtain ⟨e, -, h⟩ := Option.bind_eq_some_iff.mp h
      obtain ⟨v, -, rfl⟩ := Option.map_eq_some_iff.mp h
      constructor
    | message type =>
      rw [hk] at h
      cases h
    | group type =>
      rw [hk] at h
      cases h

theorem insertByNumber_perm (f : Field) (fs : List Field) :
    (insertByNumber f fs).Perm (f :: fs) := by
  induction fs with
  | nil => exact .refl _
  | cons g fs ih =>
    rw [insertByNumber]
    split
    · exact .refl _
    · exact (ih.cons g).trans (.swap f g fs)

theorem messageType_fields_perm (C : Context) (proto3 : Bool) (s : MessageSite) :
    (messageType C proto3 s).fields.Perm (s.decl.fields.map (field C proto3 none)) := by
  have : ∀ ds : List FieldDecl, ∀ fs : List Field,
      (ds.foldl (fun fs d => insertByNumber (field C proto3 none d) fs) fs).Perm
        (ds.map (field C proto3 none) ++ fs) := by
    intro ds
    induction ds with
    | nil => exact fun fs => .refl _
    | cons d ds ih =>
      intro fs
      refine (ih _).trans (((insertByNumber_perm _ fs).append_left _).trans ?_)
      exact List.perm_middle
  have hperm := this s.decl.fields []
  rwa [List.append_nil] at hperm

/-- Schemas of files are regular, as far as fields have numbers of their own. -/
theorem ofFilesIn_regular_of {C : Context} {files : List FileDecl}
    (h : ∀ t ∈ (ofFilesIn C files).messages, (t.fields.map (·.number)).Nodup) :
    (ofFilesIn C files).Regular where
  fields := by
    intro t ht f hf
    obtain ⟨file, -, ht⟩ := List.mem_flatMap.mp ht
    obtain ⟨s, -, rfl⟩ := List.mem_map.mp ht
    obtain ⟨d, -, rfl⟩ := List.mem_map.mp ((messageType_fields_perm C _ s).mem_iff.mp hf)
    exact field_regular C _ none d
  extensions := by
    intro e he
    obtain ⟨file, -, he⟩ := List.mem_flatMap.mp he
    unfold extensionsOf at he
    rcases List.mem_append.mp he with he | he
    · obtain ⟨d, -, rfl⟩ := List.mem_map.mp he
      exact field_regular C _ _ d
    · obtain ⟨s, -, he⟩ := List.mem_flatMap.mp he
      obtain ⟨d, -, rfl⟩ := List.mem_map.mp he
      exact field_regular C _ _ d
  numbered := h

theorem ofFilesIn_regular (C : Context) {files : List FileDecl} (h : ∀ f ∈ files, f.Numbered) :
    (ofFilesIn C files).Regular := by
  refine ofFilesIn_regular_of fun t ht => ?_
  obtain ⟨file, hfile, ht⟩ := List.mem_flatMap.mp ht
  obtain ⟨s, hs, rfl⟩ := List.mem_map.mp ht
  have hperm := (messageType_fields_perm C file.isProto3 s).map (·.number)
  rw [List.map_map] at hperm
  exact hperm.nodup_iff.mpr ((h file hfile).site hs)

end Schema
end DescriptorKit
