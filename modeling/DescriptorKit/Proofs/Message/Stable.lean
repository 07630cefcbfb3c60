import DescriptorKit.Proofs.Message.Required

/-!
Messages that are found again in what was written of them. A reader that keeps all records and gets
through what was written of a message finds that message.
-/
namespace DescriptorKit.Message
open Wire Payload

variable {S : Schema} {D : MessageType → Prop} {t u : MessageType} {f : Field} {m k : Message}
  {v : Value} {vs ws : List Value} {depth n : Nat} {type : String}

/-- Slots of no field are told by the records that they are written as. -/
theorem eq_map_recordsOf (h : ∀ s ∈ m, ∃ n p, s = .unknown n p) :
    m = (Value.recordsOf m).map fun r => .unknown r.1 r.2 := by
  induction m with
  | nil =>
    rw [Value.recordsOf]
    rfl
  | cons s m ih =>
    obtain ⟨⟨n, p, rfl⟩, hm⟩ := List.forall_mem_cons.mp h
    rw [Value.recordsOf, Value.slotRecords, List.singleton_append, List.map_cons, ← ih hm]

theorem exists_unknown_of_only (hf : S.field? t n = none) (hm : Shaped S t m) :
    ∀ s ∈ m.only n, ∃ n p, s = .unknown n p := by
  intro s hs
  obtain ⟨hs, hn⟩ := mem_only_iff.mp hs
  cases s with
  | known g v =>
    have hg := hm.declared g v hs
    rw [show g.number = n from hn, hf] at hg
    cases hg
  | unknown j p => exact ⟨j, p, rfl⟩

/-- The messages that are read from what was written of some are these. -/
def Returns (S : Schema) (D : MessageType → Prop) (depth : Nat) : Prop :=
  ∀ u (inner k : Message), D u → Shaped S u inner → (Value.encodeSlots inner).length < 2 ^ 64 →
    Fills S .lossless depth u [] (Value.encodeSlots inner) k → k = inner

theorem eq_of_gives (hk : f.kind = .message type) (hmap : f.map = false) (hD : D u)
    (hin : ∀ d, depth = d + 1 → Returns S D d) (hu : S.messageOf? f = some u)
    (hvs : ∀ x ∈ vs, x.Shaped S f true)
    (h : Gives (fun p ws => ∃ inner, Inside S .lossless depth u [] p inner ∧
      ws = [.message (finish S .lossless u inner)]) (Value.recordsEach f vs) ws) : ws = vs := by
  induction vs generalizing ws with
  | nil =>
    rw [Value.recordsEach] at h
    cases h
    rfl
  | cons x vs ih =>
    obtain ⟨hx, hothers⟩ := List.forall_mem_cons.mp hvs
    obtain ⟨inner, w, rfl, hw, hinner⟩ := exists_message_of_shaped hk hmap hx
    obtain rfl := Option.some.inj (hu.symm.trans hw)
    have hrecords : Value.recordsEach f (.message inner :: vs) =
        (f.number, .delimited (Value.encodeSlots inner)) :: Value.recordsEach f vs := by
      rw [Value.recordsEach, Value.records, hk]
      rfl
    rw [hrecords] at h
    cases h with
    | cons hn hone hrest =>
      obtain ⟨inner', ⟨d, b, rfl, hb, hshort, hfills⟩, rfl⟩ := hone
      obtain rfl := Payload.delimited.inj hb
      obtain rfl := hin d rfl u inner inner' hD hinner hshort hfills
      rw [ih hothers hrest]
      rfl

/-- What is read from the records that a field was written as sets the field as it was. -/
theorem eq_of_steps_known (hS : S.Regular) (hD : S.Simple D) (hA : S.Asks D) (ht : D t)
    (hin : ∀ d, depth = d + 1 → Returns S D d) (hs : Slot.Shaped S t (.known f v))
    (hlen : ∀ r ∈ Value.records f v, (r.2.body r.1).length < 2 ^ 64)
    (h : Steps (readField S .lossless depth t) [] (Value.records f v) k) : k = [.known f v] := by
  have hslot := hs
  rw [Slot.Shaped] at hs
  obtain ⟨hf, hzero, hv⟩ := hs
  have hmap := hD.map ht hf
  have hp := hD.presence ht hf
  rcases f.kind.single_or_nested with hsingle | ⟨type, hk | hk⟩
  · exact h.unique (steps_single hS (hD.mem ht) hsingle (hD.presence ht hf) hslot
      (hA.inRange ht hf) hlen)
  · cases hr : f.repeated with
    | true =>
      rw [hr] at hv
      obtain ⟨vs, rfl, hvs⟩ := many_of_shaped hv
      have hne : vs ≠ [] := by
        rintro rfl
        simp [hp hr, Value.isZero] at hzero
      obtain ⟨x, hx⟩ := List.exists_mem_of_ne_nil vs hne
      obtain ⟨-, u, -, hu, -⟩ := exists_message_of_shaped hk hmap (hvs x hx)
      have hholds : Holds S t f.number f u := ⟨hf, ⟨type, hk⟩, hu, hmap⟩
      obtain ⟨ws, hws, rfl⟩ := (steps_nil_iff_inside hholds hr (hp hr)
        (Value.number_of_mem_records f _)).mp h
      rw [Value.records, hholds.not_packed (hS.field (hD.mem ht) hf),
        if_neg Bool.false_ne_true] at hws
      rw [eq_of_gives hk hmap (hD.inner ht hf hu) hin hu hvs hws, put, if_pos hr]
      exact set_nil_of_shaped hslot
    | false =>
      rw [hr] at hv
      obtain ⟨inner, u, rfl, hu, hinner⟩ := exists_message_of_shaped hk hmap hv
      have hholds : Holds S t f.number f u := ⟨hf, ⟨type, hk⟩, hu, hmap⟩
      rw [Value.records, hk] at h
      obtain ⟨-, inner', ⟨d, b, rfl, hb, hshort, hfills⟩, rfl⟩ := (steps_one_iff hholds hr).mp h
      obtain rfl := Payload.delimited.inj hb
      obtain rfl := hin d rfl u inner inner' (hD.inner ht hf hu) hinner hshort hfills
      rfl
  · exact absurd hk (hD.group ht hf type)

/-- Nothing but the message is read from what was written of it, if that can be read. -/
theorem returns (hS : S.Regular) (hD : S.Simple D) (hA : S.Asks D) : Returns S D depth := by
  induction depth using Nat.strong_induction_on with
  | _ depth ih =>
    intro t m k ht hm hlen hk
    have hmem := hD.mem ht
    have hshaped : Shaped S t k := hk.shaped hS (fun h => by cases h) hmem .nil
    have hsteps := (fills_encode_iff hS hmem hm.typed).mp hk
    refine hshaped.sorted.ext hm.sorted fun n => ?_
    have hcalm : Calm S t n := fun f hf => hD.oneof ht hf
    have hn := steps_message_only hcalm hsteps
    cases hf : S.field? t n with
    | none =>
      have hrecords := recordsOf_of_undeclared hf (hD.entries ht)
        (fun r hr => (Value.mem_recordsOf_only.mp hr).2) (by simp) hn
      rw [Value.recordsOf, List.nil_append] at hrecords
      rw [eq_map_recordsOf (exists_unknown_of_only hf hshaped),
        eq_map_recordsOf (exists_unknown_of_only hf hm), hrecords]
    | some f =>
      rcases only_of_shaped hf hm with hnil | ⟨v, hv⟩
      · rw [hnil, Value.recordsOf] at hn
        rw [hnil]
        generalize k.only n = j at hn
        cases hn
        rfl
      · have hslot : Slot.known f v ∈ m := (mem_only_iff.mp (hv ▸ List.mem_singleton_self _)).1
        have hrecords : Value.recordsOf (m.only n) = Value.records f v := by
          rw [hv, Value.recordsOf, Value.recordsOf, List.append_nil, Value.slotRecords]
        rw [hrecords] at hn
        rw [hv]
        exact eq_of_steps_known hS hD hA ht (fun d hd => ih d (by omega)) (hm.slot hslot)
          (fun r hr => Nat.lt_of_le_of_lt (length_only_le hS hmem hm (hrecords ▸ hr)) hlen) hn

end DescriptorKit.Message
