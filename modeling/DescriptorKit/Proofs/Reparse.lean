import DescriptorKit.Proofs.Descriptor.Modify
import DescriptorKit.Proofs.Pool.Order
import DescriptorKit.Proofs.Reparse.Incomplete

/-!
Descriptors that were read again by the schema of their own pool. They are messages of that schema,
and their typed messages, which stay as they were, still go with them where the schema is a standard
one. They make a pool in any order, and its schema reads the same messages from them.
-/
namespace DescriptorKit
open Bundled Descriptor

/-- A descriptor whose typed message tells its structure, where its schema is a standard one. -/
structure Descriptor.Kept (d : Descriptor) : Prop where
  sound : d.Sound
  synced : Standard d.schema d.type → ∀ g ∈ structural, d.Synced g

namespace Descriptor

variable {d e : Descriptor} {S : Schema} {t : MessageType} {bytes : Bytes} {typed : Message}

/-- A descriptor whose typed message goes with its message in every field of single values. -/
structure InStep (d : Descriptor) : Prop where
  sound : d.Sound
  synced : ∀ g, Declares g → d.Synced g

theorem InStep.kept (h : d.InStep) : d.Kept :=
  ⟨h.sound, fun _ g hg => h.synced g (declares_of_structural hg)⟩

theorem decode_inStep (h : decode bytes = .ok d) : d.InStep :=
  ⟨(decode_sound h).1, (decode_sound h).2⟩

theorem ofTyped_inStep (hm : readTyped bytes = .ok typed) (h : ofTyped typed = .ok d) : d.InStep :=
  ⟨(ofTyped_sound hm h).1, (ofTyped_sound hm h).2⟩

theorem reread_kept (hS : S.Regular) (ht : t ∈ S.messages) (hd : d.InStep)
    (h : d.reread S t = .ok e) : e.Kept := by
  obtain ⟨hsound, -, hschema, htype, hsync⟩ := reread_sound hS ht hd.sound h
  refine ⟨hsound, fun hs g hg => ?_⟩
  rw [hschema, htype] at hs
  have hdecl := declares_of_structural hg
  exact hsync g hdecl (hs g hg) (hd.synced g hdecl)

theorem Follows.kept (h : Follows d e) (hd : d.Kept) : e.Kept where
  sound := h.sound hd.sound
  synced hs g hg := by
    rw [h.schema, h.type] at hs
    exact (h.held hd.sound hs g hg (hd.synced hs g hg)).1

theorem Follows.sameStructure (h : Follows d e) (hd : d.Kept) (hs : Standard d.schema d.type) :
    SameStructure d e :=
  sameStructure_of_held fun g hg => (h.held hd.sound hs g hg (hd.synced hs g hg)).2

end Descriptor

namespace Reparse

variable {ds es : List Descriptor}

theorem pool_regular {P : Pool} (h : pool ds = .ok P) : P.schema.Regular := by
  unfold pool at h
  dsimp only at h
  split at h
  · rename_i Q added he
    obtain rfl := Except.ok.inj h
    exact Pool.schema_regular he
  · cases h

section Typed

variable {present opened : List String} {fuel : Nat}

theorem importing_congr (h : es.map (·.typed) = ds.map (·.typed)) :
    importing present opened es = importing present opened ds := by
  have heq : ∀ ds, importing present opened ds =
      ((ds.map (·.typed)).filter fun m => (m.textsAt 3).any fun i =>
        !present.contains i || opened.contains i).map (·.textAt 1) := by
    intro ds
    rw [List.filter_map, List.map_map]
    rfl
  rw [heq, heq, h]

theorem closeOver_congr (h : es.map (·.typed) = ds.map (·.typed)) :
    closeOver present es fuel opened = closeOver present ds fuel opened := by
  induction fuel generalizing opened with
  | zero => rfl
  | succ fuel ih =>
    rw [closeOver, closeOver, importing_congr h]
    split
    · rfl
    · exact ih

/-- The pool depends on the typed messages only. -/
theorem pool_congr (h : es.map (·.typed) = ds.map (·.typed)) : pool es = pool ds := by
  have hnames : es.map (·.name) = ds.map (·.name) := by
    have := congrArg (List.map fun m : Message => m.textAt 1) h
    rwa [List.map_map, List.map_map] at this
  have hincomplete : incomplete es = incomplete ds := by
    rw [incomplete, incomplete, hnames, closeOver_congr h,
      show es.length = ds.length by simpa using congrArg List.length h]
  have hdecls : ∀ opened : List String, ∀ ds : List Descriptor,
      (ds.filter fun d => !opened.contains d.name).map Descriptor.decl =
        ((ds.map (·.typed)).filter fun m =>
          !opened.contains (m.textAt 1)).map FileDecl.ofMessage := by
    intro opened ds
    rw [List.filter_map, List.map_map]
    rfl
  rw [pool, pool, hincomplete, hdecls, hdecls, h]

end Typed

/-- The second descriptor is the first one, read again by a schema that says what descriptors are,
or left as it is by one that does not. -/
structure Rereads (S : Schema) (d e : Descriptor) : Prop where
  same : S.message? fileTypeName = none → e = d
  read : ∀ {t}, S.message? fileTypeName = some t → d.reread S t = .ok e

theorem Rereads.typed {S : Schema} {d e : Descriptor} (h : Rereads S d e) : e.typed = d.typed := by
  cases ht : S.message? fileTypeName with
  | none => rw [h.same ht]
  | some t =>
    obtain ⟨m, -, he⟩ := bind_eq_ok_iff.mp (h.read ht)
    rw [← Except.ok.inj he]

/-- Reading descriptors again gives as many, one for each. -/
theorem apply_eq_ok_iff :
    apply ds = .ok es ↔ ∃ P, pool ds = .ok P ∧ List.Forall₂ (Rereads P.schema) ds es := by
  rw [apply, bind_eq_ok_iff]
  refine exists_congr fun P => and_congr mapError_eq_ok_iff ?_
  dsimp only
  cases ht : P.schema.message? fileTypeName with
  | none =>
    have hsame : Rereads P.schema = Eq := by
      ext d e
      exact ⟨fun h => (h.same ht).symm, fun h => ⟨fun _ => h.symm, fun h => by simp [ht] at h⟩⟩
    rw [hsame, List.forall₂_eq_eq_eq]
    exact ⟨Except.ok.inj, congrArg Except.ok⟩
  | some t =>
    have hread : Rereads P.schema = fun d e => d.reread P.schema t = .ok e := by
      ext d e
      refine ⟨fun h => h.read ht, fun h => ⟨fun hn => by simp [ht] at hn, fun ht' => ?_⟩⟩
      rwa [← Option.some.inj (ht.symm.trans ht')]
    simp only [hread, mapM_eq_ok_iff, mapError_eq_ok_iff]

theorem apply_typed (h : apply ds = .ok es) : es.map (·.typed) = ds.map (·.typed) := by
  obtain ⟨P, -, hall⟩ := apply_eq_ok_iff.mp h
  clear h
  induction hall with
  | nil => rfl
  | cons hd _ ih => rw [List.map_cons, List.map_cons, ih, hd.typed]

theorem apply_cases (h : apply ds = .ok es) : es = ds ∨
    ∃ S t, S.Regular ∧ t ∈ S.messages ∧ List.Forall₂ (fun d e => d.reread S t = .ok e) ds es := by
  obtain ⟨P, hP, hall⟩ := apply_eq_ok_iff.mp h
  cases ht : P.schema.message? fileTypeName with
  | none =>
    left
    exact (List.forall₂_eq_eq_eq ▸ hall.imp fun d e he => (he.same ht).symm : ds = es).symm
  | some t =>
    right
    exact ⟨P.schema, t, pool_regular hP, (Schema.mem_of_message? ht).1,
      hall.imp fun d e he => he.read ht⟩

theorem apply_kept (h : apply ds = .ok es) (hd : ∀ d ∈ ds, d.InStep) : ∀ e ∈ es, e.Kept := by
  intro e he
  rcases apply_cases h with rfl | ⟨S, t, hS, ht, hall⟩
  · exact (hd e he).kept
  · obtain ⟨d, hmem, hr⟩ := exists_of_forall₂ hall he
    exact reread_kept hS ht (hd d hmem) hr

section Order

variable {d e : Descriptor} {P : Pool} {S T : Schema}

theorem pool_eq_ok_iff : pool ds = .ok P ↔ Pool.MadeOf ((pooled ds).map Descriptor.decl) P := by
  rw [pool_eq, mapError_eq_ok_iff, Pool.madeOf_iff]
  cases Pool.extend {} ((pooled ds).map Descriptor.decl) with
  | error f => simp [Except.map]
  | ok p => simp [Except.map, Prod.ext_iff]

/-- Descriptors that make a pool make one in any order, and its schema finds the same. -/
theorem pool_perm (hp : es.Perm ds) (h : pool ds = .ok P) (ha : P.schema.NumbersApart) :
    ∃ Q, pool es = .ok Q ∧ P.schema.Agrees Q.schema := by
  obtain ⟨Q, hQ, hagrees⟩ := (pool_eq_ok_iff.mp h).perm ((pooled_perm hp).map _) ha
  exact ⟨Q, pool_eq_ok_iff.mpr hQ, hagrees⟩

/-- The schema that holds descriptors once they were read again by that of a pool. -/
def rereader (S : Schema) : Schema :=
  if (S.message? Bundled.fileTypeName).isSome then S else Bundled.descriptorSchema

theorem Rereads.schema (h : Rereads S d e) (hd : d.schema = Bundled.descriptorSchema) :
    e.schema = rereader S := by
  rw [rereader]
  cases ht : S.message? Bundled.fileTypeName with
  | none => rw [h.same ht, hd]; rfl
  | some t =>
    obtain ⟨m, -, he⟩ := bind_eq_ok_iff.mp (h.read ht)
    rw [← Except.ok.inj he]
    rfl

/-- A schema that finds the same reads the same from a descriptor. -/
theorem Rereads.of_agrees (h : Rereads S d e) (hS : S.Agrees T)
    (hd : d.schema = Bundled.descriptorSchema) : Rereads T d { e with schema := rereader T } where
  same hn := by
    rw [hS.message] at hn
    have hrereader : rereader T = Bundled.descriptorSchema := by
      rw [rereader, hS.message, hn]
      rfl
    rw [h.same hn, hrereader, ← hd]
  read {t} ht := by
    have hrereader : rereader T = T := by
      rw [rereader, ht]
      rfl
    rw [hS.message] at ht
    obtain ⟨m, hm, he⟩ := bind_eq_ok_iff.mp (h.read ht)
    rw [hrereader, ← Except.ok.inj he, reread, Message.decode_congr hS, hm]
    rfl

end Order

end Reparse
end DescriptorKit
