import DescriptorKit.Proofs.Descriptor.Current
import DescriptorKit.Proofs.Descriptor.Follow

/-!
Descriptors in which options can be set. Their schema declares the fields for the options, and the
fields that options are set for do not lie too deep for their options to be read. Setting one
succeeds, if what is written then is not too long.
-/
namespace DescriptorKit
open Wire Payload Bundled Message Managed

/-- By type, the fields of descriptors in which options are set or that lead to those. -/
def Bundled.settableFields : List (String × List Nat) := [
  (fileTypeName, [4, 7, 8]),
  ("google.protobuf.DescriptorProto", [2, 3, 6]),
  ("google.protobuf.FieldDescriptorProto", [8]),
  ("google.protobuf.FieldOptions", [6]),
  ("google.protobuf.FileOptions", FileOption.all.filterMap FileOption.fieldNumber?)]

/-- The schema declares the fields of descriptors in which options are set. -/
def Schema.Settable (S : Schema) : Prop :=
  ∀ p ∈ settableFields, ∀ t ∈ S.message? p.1, ∀ n ∈ p.2, (t.fieldNumbered? n).isSome

instance (S : Schema) : Decidable S.Settable :=
  inferInstanceAs (Decidable (∀ p ∈ settableFields, ∀ t ∈ S.message? p.1, ∀ n ∈ p.2,
    (t.fieldNumbered? n).isSome))

theorem Schema.Settable.walkable {S : Schema} (h : S.Settable) : S.Walkable := by
  have hall : ∀ p ∈ walkedFields, ∃ q ∈ settableFields, q.1 = p.1 ∧ p.2 ⊆ q.2 := by decide
  intro p hp t ht n hn
  obtain ⟨q, hq, hname, hns⟩ := hall p hp
  exact h q hq t (hname ▸ ht) n (hns hn)

namespace Message

variable {S : Schema} {t u w : MessageType} {m k : Message} {depth : Nat} {js : JsType}
  {path : List Int32} {missing a : Breach} {b : SetFault → Breach}

variable (missing a b) (js) in
theorem retype_ok (hS : S.Regular) (hM : S.Mirrors descriptorSchema) (hset : S.Settable)
    (hc : Schema.Counterpart S descriptorSchema t fieldType) (hm : Shaped S t m) :
    (retype S js a b t m).2 = .ok () :=
  setOption_ok hM hS hc hasOption_jsType rfl
    (isSome_of_declared _ [8] hset (by decide) (by decide) (types_facts.1 _ (by simp)) hc)
    (fun _ hw => isSome_of_declared _ [6] hset (by decide) (by decide)
      (types_facts.1 _ (by simp)) hw) hm

variable (missing a b) (js) in
/-- The representation of integers can be set for a field that a file declares. -/
theorem updateAt_fileDeclares (hS : S.Regular) (hM : S.Mirrors descriptorSchema) (hset : S.Settable)
    {D : FileDecl} (h : D.Declares path) (hc : Schema.Counterpart S descriptorSchema t fileType)
    (hm : Shaped S t m)
    (hk : Steps (readField descriptorSchema .typed depth fileType) [] (Value.recordsOf m) k)
    (hD : FileDecl.ofMessage k = D) :
    (updateAt S missing (retype S js a b) path t m).2 = .ok () := by
  obtain ⟨name, decl, hfield⟩ := h.hasField
  obtain ⟨w, inner, hfinds⟩ := exists_findsField_file hS hM hset.walkable hfield hc hm hk hD
  rw [hfinds.reaches]
  exact retype_ok js a b hS hM hset hfinds.counterpart hfinds.shaped

section Read

variable (js missing a b)

/-- The options of a field lie one level below it. -/
theorem retype_keeps (hS : S.Regular) (hM : S.Mirrors descriptorSchema) (depth : Nat) :
    KeepsReadable S descriptorSchema (depth + 1) fieldType
      (updateAt S missing (retype S js a b) []) := by
  intro w m hc hm
  obtain ⟨hshaped, hset⟩ := setOption_shaped (s := .enum js.code) (a := a) (b := b) hM hS hc
    hasOption_jsType hm
  exact ⟨hshaped, fun hok hlen => (hset hok).readable hS descriptorSchema_asks hc.right
    hasOption_jsType (sized_of_length hS hc.left hshaped hlen _)⟩

/-- Each pair in a path leads one level down. -/
theorem leads_keeps (hS : S.Regular) (hM : S.Mirrors descriptorSchema) (h : Leads path)
    (hd : path.length / 2 < depth) :
    KeepsReadable S descriptorSchema depth messageType
      (updateAt S missing (retype S js a b) path) := by
  have hmem : messageType ∈ descriptorSchema.messages := typeNamed_mem (types_facts.1 _ (by simp))
  induction h generalizing depth with
  | field i =>
    obtain ⟨d, rfl⟩ : ∃ d, depth = d + 1 + 1 := ⟨depth - 2, by simp at hd; omega⟩
    exact updateAt_keeps hM hS holds_messageFields rfl (calm hmem) rfl
      (retype_keeps js missing a b hS hM d)
  | extension i =>
    obtain ⟨d, rfl⟩ : ∃ d, depth = d + 1 + 1 := ⟨depth - 2, by simp at hd; omega⟩
    exact updateAt_keeps hM hS holds_messageExtensions rfl (calm hmem) rfl
      (retype_keeps js missing a b hS hM d)
  | nested i h ih =>
    rw [List.length_cons, List.length_cons] at hd
    obtain ⟨d, rfl⟩ : ∃ d, depth = d + 1 := ⟨depth - 1, by omega⟩
    exact updateAt_keeps hM hS holds_messageNested rfl (calm hmem) rfl (ih (by omega))

theorem fileLeads_keeps (hS : S.Regular) (hM : S.Mirrors descriptorSchema) (h : FileLeads path)
    (hd : path.length / 2 < depth) :
    KeepsReadable S descriptorSchema depth fileType
    (updateAt S missing (retype S js a b) path) := by
  cases h with
  | message i h =>
    rw [List.length_cons, List.length_cons] at hd
    obtain ⟨d, rfl⟩ : ∃ d, depth = d + 1 := ⟨depth - 1, by omega⟩
    exact updateAt_keeps hM hS holds_fileMessages rfl (calm fileType_mem) rfl
      (leads_keeps js missing a b hS hM h (by omega))
  | extension i =>
    obtain ⟨d, rfl⟩ : ∃ d, depth = d + 1 + 1 := ⟨depth - 2, by simp at hd; omega⟩
    exact updateAt_keeps hM hS holds_fileExtensions rfl (calm fileType_mem) rfl
      (retype_keeps js missing a b hS hM d)

end Read

end Message

namespace Descriptor

variable {d : Descriptor} {o : FileOption} {n : Nat} {s : Scalar} {js : JsType} {path : List Int32}
  {paths : List (List Int32)} {m : Message}

/-- What a typed reader gets through has a typed message. -/
theorem exists_typed_iff {S : Schema} {t : MessageType} (hS : S.Regular) (ht : t ∈ S.messages)
    (hm : Shaped S t m) :
    (∃ typed, readTyped m.encode = .ok typed) ↔ Readable descriptorSchema maxDepth fileType m :=
  exists_congr fun _ => readTyped_eq_ok_iff.trans (fills_encode_iff hS ht hm.typed)

/-- A change that succeeds and leaves what can be read is made. -/
theorem modify_ok {α : Type} {change : Message → Message × Except Breach α} {a : α} (h : d.Mirrored)
    (hok : (change d.message).2 = .ok a) (hm : Shaped d.schema d.type (change d.message).1)
    (hlen : (d.modify change).1.encode.length < 2 ^ 64)
    (hread : (Value.encodeSlots (change d.message).1).length < 2 ^ 64 →
      Readable descriptorSchema maxDepth fileType (change d.message).1) :
    (d.modify change).2 = .ok a := by
  rcases d.modify_cases change with ⟨f, hf, hmod⟩ | ⟨typed, -, hmod⟩
  · rw [hmod] at hlen
    obtain ⟨typed, htyped⟩ := (exists_typed_iff h.regular h.counterpart.left hm).mpr (hread hlen)
    rw [hf] at htyped
    cases htyped
  · rw [hmod, hok]
    rfl

theorem Mirrored.readable (h : d.Mirrored) :
    Readable descriptorSchema maxDepth fileType d.message :=
  ⟨d.typed, h.reads⟩

/-- A file option can be set to a value of its kind. -/
theorem setFileOption_ok (h : d.Mirrored) (hset : d.schema.Settable) (ho : o.fieldNumber? = some n)
    (hs : ∀ g ∈ fileOptionsType.fieldNamed? o.name, (Value.scalar s).fits g = true)
    (hlen : (d.setFileOption o.name s).1.encode.length < 2 ^ 64) :
    (d.setFileOption o.name s).2 = .ok () := by
  obtain ⟨g, hname, rfl, hg⟩ := hasOption_file ho
  have hmem : g.number ∈ FileOption.all.filterMap FileOption.fieldNumber? :=
    List.mem_filterMap.mpr ⟨o, o.mem_all, ho⟩
  have hok := setOption_ok (a := .noFileOptions)
    (b := .fileOptionRefused g.name) h.mirrors h.regular
    h.counterpart hg (hs g (hname ▸ hg.option_named))
    (isSome_of_declared fileTypeName [4, 7, 8] hset (by decide) (by decide)
      (by rw [message?_fileType]; rfl) h.counterpart)
    (fun _ hw => isSome_of_declared _ _ hset (by simp [settableFields]) hmem
      (types_facts.1 _ (by simp)) hw) h.shaped
  obtain ⟨hshaped, hsets⟩ := setOption_shaped (s := s) (a := .noFileOptions)
    (b := .fileOptionRefused g.name) h.mirrors h.regular h.counterpart hg h.shaped
  rw [setFileOption, ← hname] at hlen ⊢
  refine modify_ok h hok hshaped hlen fun hlen => ?_
  have hreadable : Readable descriptorSchema (99 + 1) fileType d.message := h.readable
  exact (hsets hok).readable h.regular descriptorSchema_asks h.counterpart.right hg
    (sized_of_length h.regular h.counterpart.left hshaped hlen _) hreadable

/-- The representation of integers can be set for a field that is declared not too deep. -/
theorem setJsType_ok (h : d.Mirrored) (hset : d.schema.Settable) (hp : d.decl.Declares path)
    (hd : path.length / 2 < maxDepth) (hlen : (d.setJsType path js.code).1.encode.length < 2 ^ 64) :
    (d.setJsType path js.code).2 = .ok () := by
  have hok := updateAt_fileDeclares js (.noFieldAt path) .noFieldOptions .jsTypeRefused h.regular
    h.mirrors hset hp h.counterpart h.shaped h.reads rfl
  obtain ⟨hshaped, hkeeps⟩ := fileLeads_keeps js (.noFieldAt path) .noFieldOptions .jsTypeRefused
    h.regular h.mirrors hp.leads hd d.type d.message h.counterpart h.shaped
  rw [setJsType] at hlen ⊢
  exact modify_ok h hok hshaped hlen fun hlen => hkeeps hok hlen h.readable

end Descriptor
end DescriptorKit
