import DescriptorKit.Declaration.ToMessage
import DescriptorKit.Proofs.Bundled.Types
import DescriptorKit.Proofs.Descriptor.Modify

/-!
The descriptors of declared files. A message that describes a file is put together field by field,
so what is read of it tells the name and the imports that were declared, however deep the
declarations in it are.
-/
namespace DescriptorKit
open Wire Payload Bundled Message

namespace Value

variable {f : Field} {vs : List Value}

/-- The value is written record by record. -/
def Recorded (f : Field) (v : Value) : Prop := v.encode f = Payload.encodeAll (v.records f)

theorem recorded_scalar (hf : f.Regular) {s : Scalar} (h : s.Fits f.kind) :
    Recorded f (.scalar s) :=
  encode_eq_records descriptorSchema_regular f hf _ (by rwa [Typed])

theorem recorded_message {type : String} (h : f.kind = .message type) (m : Message) :
    Recorded f (.message m) := by
  simp [Recorded, encode, records, h, Payload.encodeAll, Payload.encode]

theorem recorded_many (h : ∀ v ∈ vs, Recorded f v) : Recorded f (.many vs) := by
  have heach : encodeEach f vs = Payload.encodeAll (recordsEach f vs) := by
    induction vs with
    | nil => rw [encodeEach, recordsEach, Payload.encodeAll]
    | cons v vs ih =>
      obtain ⟨hv, hvs⟩ := List.forall_mem_cons.mp h
      rw [encodeEach, recordsEach, Payload.encodeAll_append, ih hvs, hv]
  rw [Recorded, encode, records]
  split
  · split
    · rfl
    · simp [Payload.encodeAll, Payload.encode]
  · exact heach

end Value

namespace Message

variable {m : Message} {n : Nat} {f : Field} {v : Value}

/-- A message that describes a file, of whose fields only the numbers and the bytes count. -/
structure Drafted (m : Message) : Prop where
  made : Made descriptorSchema fileType m
  recorded : ∀ f v, .known f v ∈ m → v.Recorded f
  known : ∀ n p, .unknown n p ∉ m

theorem Drafted.nil : Drafted [] := ⟨.nil, by simp, by simp⟩

theorem Drafted.set (h : m.Drafted) (hf : descriptorSchema.field? fileType f.number = some f)
    (hv : v.Recorded f) : (m.set f v).Drafted where
  made := ⟨h.made.sorted.set f v, h.made.declared.set hf v⟩
  recorded g w hg := by
    rcases mem_set hg with hg | hg
    · obtain ⟨rfl, rfl⟩ := Slot.known.inj hg
      exact hv
    · exact h.recorded g w hg
  known n p hn := by
    rcases mem_set hn with hn | hn
    · cases hn
    · exact h.known n p hn

theorem Drafted.encode_eq (h : m.Drafted) : m.encode = Payload.encodeAll (Value.recordsOf m) := by
  have hall : ∀ k : Message, k ⊆ m →
      Value.encodeSlots k = Payload.encodeAll (Value.recordsOf k) := by
    intro k hk
    induction k with
    | nil => rw [Value.encodeSlots, Value.recordsOf, Payload.encodeAll]
    | cons s k ih =>
      obtain ⟨hs, hk⟩ := List.cons_subset.mp hk
      rw [Value.encodeSlots, Value.recordsOf, Payload.encodeAll_append, ih hk]
      cases s with
      | known f v => rw [Value.encodeSlot, Value.slotRecords, h.recorded f v hs]
      | unknown n p => exact (h.known n p hs).elim
  exact hall m (List.Subset.refl m)

end Message

namespace Draft

variable {d : Draft} {n : Nat} {v : Value}

/-- What there is to compute about the fields of the descriptor of a file. -/
theorem fileType_kinds :
    (∀ n ∈ [1, 2, 3, 12], (fileType.fieldNumbered? n).all fun f => f.kind = .scalar .string) ∧
    (∀ n ∈ [10, 11], (fileType.fieldNumbered? n).all fun f => f.kind = .scalar .int32) ∧
    (∀ n ∈ [4, 5, 6, 7, 8, 9], (fileType.fieldNumbered? n).all fun f =>
      match f.kind with
      | .message _ => true
      | _ => false) := by
  decide +kernel

/-- A draft of the descriptor of a file. -/
structure OfFile (d : Draft) : Prop where
  type : d.type = fileType
  drafted : d.slots.Drafted

theorem ofFile_of : OfFile (Draft.of "FileDescriptorProto") := by
  refine ⟨?_, .nil⟩
  have hname : "google.protobuf." ++ "FileDescriptorProto" = fileTypeName := by decide
  rw [of, hname, message?_fileType]
  rfl

theorem field?_of_fieldNumbered? {f : Field} (h : fileType.fieldNumbered? n = some f) :
    f.number = n ∧ descriptorSchema.field? fileType f.number = some f := by
  have hn : f.number = n := by simpa using List.find?_some h
  exact ⟨hn, descriptorSchema_regular.field?_of_mem fileType_mem (List.mem_of_find?_eq_some h)⟩

theorem regular_of_fieldNumbered? {f : Field} (h : fileType.fieldNumbered? n = some f) :
    f.Regular :=
  descriptorSchema_regular.field fileType_mem (field?_of_fieldNumbered? h).2

/-- The second draft is the first with a field set. -/
structure Puts (n : Nat) (d d' : Draft) : Prop where
  ofFile : d'.OfFile
  only : ∀ k, n ≠ k → d'.slots.only k = d.slots.only k

theorem OfFile.puts_self (h : d.OfFile) : Puts n d d := ⟨h, fun _ _ => rfl⟩

theorem OfFile.puts (h : d.OfFile) (hv : ∀ f, fileType.fieldNumbered? n = some f → v.Recorded f) :
    Puts n d (d.put n v) := by
  rw [Draft.put, h.type]
  cases hf : fileType.fieldNumbered? n with
  | none => exact h.puts_self
  | some f =>
    obtain ⟨hn, hfield⟩ := field?_of_fieldNumbered? hf
    refine ⟨⟨rfl, h.drafted.set hfield (hv f hf)⟩, fun k hk => ?_⟩
    exact only_set_ne h.drafted.made.sorted
      (fun s hs hsk => h.drafted.made.declared.not_rivals (calm fileType_mem k) hs hsk f)
      (hn ▸ hk) v

theorem recorded_of_kind {f : Field} {k : Kind} {s : Scalar}
    (hkind : (fileType.fieldNumbered? n).all fun f => f.kind = k) (hs : s.Fits k)
    (hf : fileType.fieldNumbered? n = some f) : Value.Recorded f (.scalar s) := by
  rw [hf] at hkind
  have hkind : f.kind = k := by simpa using hkind
  exact Value.recorded_scalar (regular_of_fieldNumbered? hf) (hkind ▸ hs)

theorem recorded_nested {f : Field} (hn : n ∈ [4, 5, 6, 7, 8, 9])
    (hf : fileType.fieldNumbered? n = some f) (m : Message) : Value.Recorded f (.message m) := by
  have hkind := fileType_kinds.2.2 n hn
  rw [hf] at hkind
  cases hk : f.kind with
  | message type => exact Value.recorded_message hk m
  | _ => simp [hk] at hkind

theorem OfFile.text (h : d.OfFile) (hn : n ∈ [1, 2, 3, 12]) (s : String) : Puts n d (d.text n s) :=
  h.puts fun _ hf => recorded_of_kind (fileType_kinds.1 n hn) (.string s) hf

theorem OfFile.text? (h : d.OfFile) (hn : n ∈ [1, 2, 3, 12]) (s : Option String) :
    Puts n d (d.text? n s) := by
  cases s with
  | none => exact h.puts_self
  | some s => exact h.text hn s

theorem OfFile.texts (h : d.OfFile) (hn : n ∈ [1, 2, 3, 12]) (ss : List String) :
    Puts n d (d.texts n ss) :=
  h.puts fun _ hf => Value.recorded_many (by
    simpa using fun s _ => recorded_of_kind (fileType_kinds.1 n hn) (.string s) hf)

theorem OfFile.ints (h : d.OfFile) (hn : n ∈ [10, 11]) (is : List Int32) : Puts n d (d.ints n is) :=
  h.puts fun _ hf => Value.recorded_many (by
    simpa using fun i _ => recorded_of_kind (fileType_kinds.2.1 n hn) (.int32 i) hf)

theorem OfFile.messages (h : d.OfFile) (hn : n ∈ [4, 5, 6, 7, 8, 9]) (ms : List Message) :
    Puts n d (d.messages n ms) :=
  h.puts fun _ hf => Value.recorded_many (by simpa using fun m _ => recorded_nested hn hf m)

theorem OfFile.message? (h : d.OfFile) (hn : n ∈ [4, 5, 6, 7, 8, 9]) (m : Option Message) :
    Puts n d (d.message? n m) := by
  cases m with
  | none => exact h.puts_self
  | some m => exact h.puts fun _ hf => recorded_nested hn hf m

/-- What a draft holds under the number of a field that was set. -/
theorem OfFile.only_put (h : d.OfFile) {g : Field} (hg : Declares g)
    (hf : fileType.fieldNumbered? g.number = some g) (v : Value) :
    (d.put g.number v).slots.only g.number = Message.set g v (d.slots.only g.number) := by
  rw [Draft.put, h.type, hf]
  exact only_set h.drafted.made.sorted hg.oneof rfl v

end Draft

theorem fieldNumbered?_of_declares {g : Field} (h : Declares g) :
    fileType.fieldNumbered? g.number = some g := by
  have hfield := h.plain.field
  rw [Schema.field?, Schema.extension?, no_extensions] at hfield
  simpa using hfield

namespace FileDecl

variable {F : FileDecl}

/-- The message of a file is drafted, and under the numbers of its name and its imports stands what
was declared. -/
theorem toMessage_drafted (F : FileDecl) : F.toMessage.Drafted ∧
    F.toMessage.only 1 = Message.set nameField (.scalar (.string F.name)) [] ∧
    F.toMessage.only 3 =
      Message.set dependencyField (.many (F.dependencies.map fun s => .scalar (.string s))) [] := by
  have h₀ := Draft.ofFile_of
  have h₁ := h₀.text (n := 1) (by decide) F.name
  have h₂ := h₁.ofFile.text? (n := 2) (by decide) F.package
  have h₃ := h₂.ofFile.texts (n := 3) (by decide) F.dependencies
  have h₄ := h₃.ofFile.ints (n := 10) (by decide) F.publicDependencies
  have h₅ := h₄.ofFile.ints (n := 11) (by decide) F.weakDependencies
  have h₆ := h₅.ofFile.messages (n := 4) (by decide) (F.messages.map MessageDecl.toMessage)
  have h₇ := h₆.ofFile.messages (n := 5) (by decide) (F.enums.map EnumDecl.toMessage)
  have h₈ := h₇.ofFile.messages (n := 6) (by decide) (F.services.map ServiceDecl.toMessage)
  have h₉ := h₈.ofFile.messages (n := 7) (by decide) (F.extensions.map FieldDecl.toMessage)
  have h₁₀ := h₉.ofFile.message? (n := 8) (by decide) F.options
  have h₁₁ := h₁₀.ofFile.message? (n := 9) (by decide) (F.locations.map fun ls =>
    ((Draft.of "SourceCodeInfo").messages 1 (ls.map Location.toMessage)).slots)
  have h₁₂ := h₁₁.ofFile.text? (n := 12) (by decide) F.dialect
  -- What is set behind the imports has other numbers than these and the name.
  have hrest (k : Nat) (hk : k = 1 ∨ k = 3) : F.toMessage.only k
      = ((((Draft.of "FileDescriptorProto").text 1 F.name).text? 2 F.package).texts 3
          F.dependencies).slots.only k := by
    refine (h₁₂.only k (by omega)).trans ?_
    rw [h₁₁.only k (by omega), h₁₀.only k (by omega), h₉.only k (by omega), h₈.only k (by omega),
      h₇.only k (by omega), h₆.only k (by omega), h₅.only k (by omega), h₄.only k (by omega)]
  refine ⟨h₁₂.ofFile.drafted, ?_, ?_⟩
  · rw [hrest 1 (.inl rfl), h₃.only 1 (by omega), h₂.only 1 (by omega)]
    exact h₀.only_put declares_name (fieldNumbered?_of_declares declares_name) _
  · rw [hrest 3 (.inr rfl)]
    refine (h₂.ofFile.only_put declares_dependency
      (fieldNumbered?_of_declares declares_dependency) _).trans ?_
    rw [show dependencyField.number = 3 from rfl, h₂.only 3 (by omega), h₁.only 3 (by omega)]
    rfl

end FileDecl

namespace Descriptor

variable {d : Descriptor} {F : FileDecl}

/-- What is read back of a field that the message holds in good shape. -/
theorem held_of_steps {reading : Reading} {g : Field} {k m : Message} (hg : Declares g)
    (hk : Shaped descriptorSchema fileType (k.only g.number))
    (h : Steps (readField descriptorSchema reading maxDepth fileType) [] (Value.recordsOf k) m) :
    held g m = held g k := by
  obtain ⟨vs, hvs, heq⟩ := tells_of_steps hg.plain (fun r hr => (Value.mem_recordsOf_only.mp hr).2)
    (steps_message_only hg.calm h)
  have hreg : g.Regular := descriptorSchema_regular.field fileType_mem hg.plain.field
  have honly : (k.only g.number).only g.number = k.only g.number := by simp [only]
  have htold := held_of_tells hg.plain hreg hk (honly.symm ▸ hvs)
  rw [held_only] at heq htold
  rw [heq, ← htold]
  congr 1
  unfold held
  split <;> rfl

/-- What a descriptor holds in a field that was drafted. -/
theorem held_of_decode {M : Message} {g : Field} (hM : M.Drafted) (hg : Declares g)
    (hk : Shaped descriptorSchema fileType (M.only g.number)) (h : decode M.encode = .ok d) :
    held g d.typed = held g M := by
  rw [decode, decodeAs] at h
  obtain ⟨m, hm, h⟩ := bind_eq_ok_iff.mp h
  obtain ⟨typed, htyped, rfl⟩ := ofMessage_eq_ok_iff.mp h
  have hshaped := decode_shaped descriptorSchema_regular (fun h => by cases h) fileType_mem hm
  obtain ⟨_, hfills, rfl⟩ := decode_eq_ok_iff.mp hm
  rw [hM.encode_eq] at hfills
  have hsteps := (runs_iff_steps (readField_local descriptorSchema .lossless maxDepth fileType)
    fun r _ => readField_ends descriptorSchema .lossless maxDepth fileType r.2).mp hfills
  rw [← held_of_steps hg hk hsteps]
  have hagain := (fills_encode_iff descriptorSchema_regular fileType_mem hshaped.typed).mp
    (readTyped_eq_ok_iff.mp htyped)
  exact held_of_steps hg (hshaped.sublist List.filter_sublist) hagain

/-- The descriptor of a declared file has its name and its imports. -/
theorem decode_toMessage (h : decode F.toMessage.encode = .ok d) :
    d.name = F.name ∧ d.dependencies = F.dependencies := by
  obtain ⟨hM, hname, hdeps⟩ := F.toMessage_drafted
  have hshaped₁ : Shaped descriptorSchema fileType (F.toMessage.only nameField.number) := by
    refine hname.symm ▸ Shaped.nil.set declares_name.plain.field ?_
    rw [Value.Shaped]
    exact ⟨rfl, .string _⟩
  have hshaped₃ : Shaped descriptorSchema fileType (F.toMessage.only dependencyField.number) := by
    refine hdeps.symm ▸ Shaped.nil.setMany declares_dependency.plain.field rfl ?_
    intro v hv
    obtain ⟨s, -, rfl⟩ := List.mem_map.mp hv
    rw [Value.Shaped]
    exact ⟨rfl, .string _⟩
  have hheld₁ := held_of_decode hM declares_name hshaped₁ h
  have hheld₃ := held_of_decode hM declares_dependency hshaped₃ h
  constructor
  · rw [name, textAt_eq (n := 1) (g := nameField) rfl rfl rfl, hheld₁, ← held_only,
      show F.toMessage.only nameField.number = _ from hname, held_set rfl]
    by_cases hempty : F.name = ""
    · rw [hempty]
      rfl
    · simp [Value.isZero, Scalar.isZero, hempty, textOf]
  · rw [dependencies, textsAt, manyAt_eq (n := 3) (g := dependencyField) rfl rfl rfl, hheld₃,
      ← held_only, show F.toMessage.only dependencyField.number = _ from hdeps, held,
      if_pos (show dependencyField.repeated = true from rfl), valuesOf_set]
    simp [List.filterMap_map]

end Descriptor
end DescriptorKit
