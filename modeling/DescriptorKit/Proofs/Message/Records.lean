import DescriptorKit.Proofs.Message.Shaped

/-!
Messages as records. What is written for a message is one record after the other, as long as every
value is one of the field that holds it, and the records of one number are those of its slots.
-/
namespace DescriptorKit
open Wire Payload

namespace Value

mutual

/-- The records of a field that holds the value. -/
def records (f : Field) : Value → List (Nat × Payload)
  | .scalar s => [(f.number, s.payload f.kind)]
  | .message m =>
    match f.kind with
    | .group _ => [(f.number, .group (recordsOf m))]
    | _ => [(f.number, .delimited (encodeSlots m))]
  | .many vs =>
    if f.packed then
      if vs.isEmpty then [] else [(f.number, .delimited (encodePacked f.kind vs))]
    else recordsEach f vs

def recordsEach (f : Field) : List Value → List (Nat × Payload)
  | [] => []
  | v :: rest => records f v ++ recordsEach f rest

def slotRecords : Slot → List (Nat × Payload)
  | .known f v => records f v
  | .unknown number p => [(number, p)]

def recordsOf : List Slot → List (Nat × Payload)
  | [] => []
  | s :: rest => slotRecords s ++ recordsOf rest

end

end Value

mutual

/-- A field can hold the value, be it a single one or many. -/
def Value.Typed (S : Schema) (f : Field) : Value → Prop
  | .scalar s => s.Fits f.kind
  | .message m => f.map = true ∨ m = [] ∨ ∃ t, S.messageOf? f = some t ∧ Message.Typed S t m
  | .many vs => Value.EachTyped S f vs

def Value.EachTyped (S : Schema) (f : Field) : List Value → Prop
  | [] => True
  | v :: rest => Value.Typed S f v ∧ Value.EachTyped S f rest

def Slot.Typed (S : Schema) (t : MessageType) : Slot → Prop
  | .known f v => S.field? t f.number = some f ∧ Value.Typed S f v
  | .unknown _ _ => True

/-- Every slot is of a declared field, and holds what a field of that kind can hold. -/
def Message.Typed (S : Schema) (t : MessageType) : List Slot → Prop
  | [] => True
  | s :: rest => Slot.Typed S t s ∧ Message.Typed S t rest

end

namespace Value

variable {S : Schema}

mutual

theorem encode_eq_records (hS : S.Regular) (f : Field) (hf : f.Regular) :
    ∀ v, Typed S f v → encode f v = encodeAll (records f v)
  | .scalar s, h => by
    rw [Typed] at h
    have hw := Scalar.wireType_payload h
    have hb := Scalar.encodeKind_eq h f.number
    rw [encode, records, encodeAll, encodeAll, List.append_nil, Payload.encode_eq, hw, ← hb]
    rfl
  | .message m, h => by
    rw [Typed] at h
    rw [encode, records]
    cases hk : f.kind with
    | group type =>
      have hm : encodeSlots m = encodeAll (recordsOf m) := by
        rcases h with hmap | rfl | ⟨t, ht, hm⟩
        · obtain ⟨type', hk'⟩ := hf.kind_of_map hmap
          rw [hk] at hk'
          cases hk'
        · rw [encodeSlots, recordsOf, encodeAll]
        · exact encodeSlots_eq_records hS t (Schema.mem_of_messageOf? ht) m hm
      simp only [encodeAll, List.append_nil, Payload.encode, hm]
    | _ => simp only [encodeAll, List.append_nil, Payload.encode]
  | .many vs, h => by
    rw [Typed] at h
    rw [encode, records]
    split
    · split
      · rfl
      · simp only [encodeAll, List.append_nil, Payload.encode]
    · exact encodeEach_eq_records hS f hf vs h

theorem encodeEach_eq_records (hS : S.Regular) (f : Field) (hf : f.Regular) :
    ∀ vs, EachTyped S f vs → encodeEach f vs = encodeAll (recordsEach f vs)
  | [], _ => by rw [encodeEach, recordsEach, encodeAll]
  | v :: rest, h => by
    rw [EachTyped] at h
    rw [encodeEach, recordsEach, encodeAll_append, encode_eq_records hS f hf v h.1,
      encodeEach_eq_records hS f hf rest h.2]

theorem encodeSlot_eq_records (hS : S.Regular) (t : MessageType) (ht : t ∈ S.messages) :
    ∀ s, Slot.Typed S t s → encodeSlot s = encodeAll (slotRecords s)
  | .known f v, h => by
    rw [Slot.Typed] at h
    rw [encodeSlot, slotRecords, encode_eq_records hS f (hS.field ht h.1) v h.2]
  | .unknown n p, _ => by
    rw [encodeSlot, slotRecords, encodeAll, encodeAll, List.append_nil]

/-- A message is written as its records. -/
theorem encodeSlots_eq_records (hS : S.Regular) (t : MessageType) (ht : t ∈ S.messages) :
    ∀ m, Message.Typed S t m → encodeSlots m = encodeAll (recordsOf m)
  | [], _ => by rw [encodeSlots, recordsOf, encodeAll]
  | s :: rest, h => by
    rw [Message.Typed] at h
    rw [encodeSlots, recordsOf, encodeAll_append, encodeSlot_eq_records hS t ht s h.1,
      encodeSlots_eq_records hS t ht rest h.2]

end

section Numbers

variable {f : Field} {r : Nat × Payload} {m k : Message} {s : Slot}

mutual

theorem number_of_mem_records (f : Field) : ∀ v, ∀ r ∈ records f v, r.1 = f.number
  | .scalar s => by
    intro r hr
    rw [records, List.mem_singleton] at hr
    rw [hr]
  | .message m => by
    intro r hr
    rw [records] at hr
    split at hr <;> (rw [List.mem_singleton] at hr; rw [hr])
  | .many vs => by
    intro r hr
    rw [records] at hr
    split at hr
    · split at hr
      · cases hr
      · rw [List.mem_singleton] at hr
        rw [hr]
    · exact number_of_mem_recordsEach f vs r hr

theorem number_of_mem_recordsEach (f : Field) : ∀ vs, ∀ r ∈ recordsEach f vs, r.1 = f.number
  | [] => by
    intro r hr
    rw [recordsEach] at hr
    cases hr
  | v :: rest => by
    intro r hr
    rw [recordsEach, List.mem_append] at hr
    rcases hr with hr | hr
    · exact number_of_mem_records f v r hr
    · exact number_of_mem_recordsEach f rest r hr

end

theorem wireType_payload_ne (k : Kind) (s : Scalar) : (s.payload k).wireType ≠ .startGroup := by
  unfold Scalar.payload
  split <;> simp [Payload.wireType]

mutual

/-- A field that is no group is written without groups. -/
theorem wireType_of_mem_records (hk : ∀ type, f.kind ≠ .group type) :
    ∀ v, ∀ r ∈ records f v, r.2.wireType ≠ .startGroup
  | .scalar s => by
    intro r hr
    rw [records, List.mem_singleton] at hr
    rw [hr]
    exact wireType_payload_ne f.kind s
  | .message m => by
    intro r hr
    rw [records] at hr
    split at hr
    · rename_i type ht
      exact absurd ht (hk type)
    · rw [List.mem_singleton] at hr
      rw [hr]
      simp [Payload.wireType]
  | .many vs => by
    intro r hr
    rw [records] at hr
    split at hr
    · split at hr
      · cases hr
      · rw [List.mem_singleton] at hr
        rw [hr]
        simp [Payload.wireType]
    · exact wireType_of_mem_recordsEach hk vs r hr

theorem wireType_of_mem_recordsEach (hk : ∀ type, f.kind ≠ .group type) :
    ∀ vs, ∀ r ∈ recordsEach f vs, r.2.wireType ≠ .startGroup
  | [] => by
    intro r hr
    rw [recordsEach] at hr
    cases hr
  | v :: rest => by
    intro r hr
    rw [recordsEach, List.mem_append] at hr
    rcases hr with hr | hr
    · exact wireType_of_mem_records hk v r hr
    · exact wireType_of_mem_recordsEach hk rest r hr

end

theorem number_of_mem_slotRecords (hr : r ∈ slotRecords s) : r.1 = s.number := by
  cases s with
  | known f v =>
    rw [slotRecords] at hr
    exact number_of_mem_records f v r hr
  | unknown n p =>
    rw [slotRecords, List.mem_singleton] at hr
    rw [hr]
    rfl

theorem recordsOf_append (m k : Message) : recordsOf (m ++ k) = recordsOf m ++ recordsOf k := by
  induction m with
  | nil => rw [List.nil_append, recordsOf, List.nil_append]
  | cons s m ih => rw [List.cons_append, recordsOf, recordsOf, ih, List.append_assoc]

/-- The records of one number are those of the slots of that number. -/
theorem recordsOf_only (n : Nat) (m : Message) :
    recordsOf (m.only n) = (recordsOf m).filter fun r => r.1 = n := by
  induction m with
  | nil =>
    rw [Message.only_nil, recordsOf]
    rfl
  | cons s m ih =>
    rw [Message.only_cons, recordsOf, List.filter_append, ← ih]
    by_cases hs : s.number = n
    · have hall : (slotRecords s).filter (fun r => r.1 = n) = slotRecords s := by
        refine List.filter_eq_self.mpr fun r hr => ?_
        rw [decide_eq_true_eq, number_of_mem_slotRecords hr, hs]
      rw [if_pos hs, recordsOf, hall]
    · have hnone : (slotRecords s).filter (fun r => r.1 = n) = [] := by
        refine List.filter_eq_nil_iff.mpr fun r hr => ?_
        rw [decide_eq_true_eq, number_of_mem_slotRecords hr]
        exact hs
      rw [if_neg hs, hnone, List.nil_append]

theorem mem_recordsOf_only {n : Nat} {m : Message} {r : Nat × Payload} :
    r ∈ recordsOf (m.only n) ↔ r ∈ recordsOf m ∧ r.1 = n := by
  rw [recordsOf_only, List.mem_filter, decide_eq_true_eq]

end Numbers

mutual

/-- What a field can hold as it is declared, it can hold as far as kinds go. -/
theorem typed_of_shaped (f : Field) (b : Bool) : ∀ v, Shaped S f b v → Typed S f v
  | .scalar s, h => by
    rw [Shaped] at h
    rw [Typed]
    exact h.2
  | .message m, h => by
    rw [Shaped] at h
    rw [Typed]
    rcases h.2 with hm | ⟨t, ht, hm⟩
    · exact Or.inl hm
    · exact Or.inr (Or.inr ⟨t, ht, slotsTyped_of_shaped t m hm⟩)
  | .many vs, h => by
    rw [Shaped] at h
    rw [Typed]
    exact eachTyped_of_shaped f vs h.2

theorem eachTyped_of_shaped (f : Field) : ∀ vs, AllShaped S f vs → EachTyped S f vs
  | [], _ => by rw [EachTyped]; trivial
  | v :: rest, h => by
    rw [AllShaped] at h
    rw [EachTyped]
    exact ⟨typed_of_shaped f true v h.1, eachTyped_of_shaped f rest h.2⟩

theorem slotTyped_of_shaped (t : MessageType) : ∀ s, Slot.Shaped S t s → Slot.Typed S t s
  | .known f v, h => by
    rw [Slot.Shaped] at h
    rw [Slot.Typed]
    exact ⟨h.1, typed_of_shaped f (!f.repeated) v h.2.2⟩
  | .unknown n p, _ => by rw [Slot.Typed]; trivial

theorem slotsTyped_of_shaped (t : MessageType) : ∀ m, Message.Shaped S t m → Message.Typed S t m
  | [], _ => by rw [Message.Typed]; trivial
  | s :: rest, h => by
    rw [Message.Shaped] at h
    rw [Message.Typed]
    exact ⟨slotTyped_of_shaped t s h.1, slotsTyped_of_shaped t rest h.2.2⟩

end

end Value

namespace Message

variable {S B : Schema} {reading : Reading} {depth n : Nat} {t u : MessageType} {m k k' : Message}

theorem Shaped.typed (h : Shaped S t m) : Typed S t m := Value.slotsTyped_of_shaped t m h

/-- Reading what was written for a message goes record by record. -/
theorem fills_encode_iff (hS : S.Regular) (ht : t ∈ S.messages) (hm : Typed S t m) :
    Fills B reading depth u k (Value.encodeSlots m) k' ↔
      Steps (readField B reading depth u) k (Value.recordsOf m) k' := by
  rw [Value.encodeSlots_eq_records hS t ht m hm]
  exact runs_iff_steps (readField_local B reading depth u) fun r _ =>
    readField_ends B reading depth u r.2

/-- What is read under a number comes from the slots of that number. -/
theorem steps_message_only (hc : Calm B u n)
    (h : Steps (readField B reading depth u) [] (Value.recordsOf m) k) :
    Steps (readField B reading depth u) [] (Value.recordsOf (m.only n)) (k.only n) := by
  have := Steps.only h .nil hc
  rwa [only_nil, ← Value.recordsOf_only] at this

/-- A message can be read if what it has under each number can be. -/
theorem exists_steps_message (hc : ∀ n, Calm B u n)
    (h : ∀ n, ∃ k, Steps (readField B reading depth u) [] (Value.recordsOf (m.only n)) k) :
    ∃ k, Steps (readField B reading depth u) [] (Value.recordsOf m) k := by
  refine exists_steps_of_only hc .nil fun n => ?_
  rw [only_nil, ← Value.recordsOf_only]
  exact h n

theorem Fills.only (hS : S.Regular) (ht : t ∈ S.messages) (hm : Typed S t m) (hc : Calm B u n)
    (h : Fills B reading depth u [] (Value.encodeSlots m) k) :
    Steps (readField B reading depth u) [] (Value.recordsOf (m.only n)) (k.only n) :=
  steps_message_only hc ((fills_encode_iff hS ht hm).mp h)

end Message
end DescriptorKit
