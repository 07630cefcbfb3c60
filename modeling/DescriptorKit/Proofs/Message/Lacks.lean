import DescriptorKit.Proofs.Message.Change
import DescriptorKit.Proofs.Message.Numbers

/-!
Bytes without a record of some number. What was read from such bytes has no slot of the number, and
what has no slot of the number is written without such a record.
-/
namespace DescriptorKit
open Wire Payload

namespace Message

variable {S : Schema} {reading : Reading} {depth n k : Nat} {t : MessageType} {m m' : Message}
  {b : Bytes} {rs rs' : List (Nat × Payload)} {P : Field → Prop}

/-- No reader finds a record of the number among those that the bytes consist of. -/
def Lacks (k : Nat) (b : Bytes) : Prop := ∀ depth rs, Parsed depth b rs → ∀ r ∈ rs, r.1 ≠ k

/-- The records found are those written. -/
theorem parsed_encodeAll_inv (h : Parsed depth (encodeAll rs) rs') : rs' = rs := by
  induction rs generalizing rs' with
  | nil =>
    generalize hb : encodeAll [] = b at h
    cases h with
    | nil => rfl
    | cons hk _ _ =>
      rw [encodeAll] at hb
      exact absurd (List.append_eq_nil_iff.mp hb.symm).1 (Cursor.key_ne_nil hk)
  | cons r rs ih =>
    obtain ⟨n, p⟩ := r
    generalize hb : encodeAll ((n, p) :: rs) = b at h
    rw [encodeAll, encode_eq, List.append_assoc] at hb
    cases h with
    | nil => exact absurd (List.append_eq_nil_iff.mp hb).1 Varint.encode_ne_nil
    | @cons key x b n' p' rs' hk hp h =>
      have hkey := hk (x ++ b)
      rw [← hb] at hkey
      obtain ⟨-, -, he, hrest⟩ := Cursor.key_encode_inv hkey
      obtain ⟨rfl, hw⟩ := Prod.mk.inj he
      have hbody := hp b
      rw [ofBytes_inj hrest, hw] at hbody
      obtain ⟨-, rfl, hend⟩ := read_inv hbody
      obtain rfl := ofBytes_inj hend
      rw [ih h]

theorem lacks_encodeAll (h : ∀ r ∈ rs, r.1 ≠ k) : Lacks k (encodeAll rs) :=
  fun _ _ hparsed => parsed_encodeAll_inv hparsed ▸ h

/-- A message without slots of the number is written without records of it. -/
theorem lacks_encode (hS : S.Regular) (ht : t ∈ S.messages) (hm : Typed S t m)
    (h : ∀ s ∈ m, s.number ≠ k) : Lacks k m.encode := by
  rw [show m.encode = encodeAll (Value.recordsOf m) from Value.encodeSlots_eq_records hS t ht m hm]
  refine lacks_encodeAll fun r hr => ?_
  obtain ⟨s, hs, hr⟩ := mem_recordsOf_iff.mp hr
  rw [Value.number_of_mem_slotRecords hr]
  exact h s hs

/-- What was read from bytes without records of the number has no slot of it. -/
theorem number_ne_of_fills (hS : S.Regular) (ht : t ∈ S.messages) (hb : Lacks k b)
    (h : Fills S reading depth t [] b m) : ∀ s ∈ m, s.number ≠ k := by
  obtain ⟨rs, hparsed, hsteps⟩ := h.exists_records hS ht
  have hrs := hb depth rs hparsed
  obtain ⟨hknown, hunknown⟩ := Steps.sources hsteps
  intro s hs
  cases s with
  | known f v =>
    obtain ⟨w, hw⟩ | ⟨r, hr, he⟩ := hknown f v hs
    · cases hw
    · exact fun hf => hrs r hr (he.trans hf)
  | unknown n p => exact hrs (n, p) ((hunknown n p hs).resolve_left (by simp))

/-- Where a split finds no piece of the number, a reader finds no record of it. -/
theorem lacks_of_clear (hb : Records.Clear k b) (hlen : b.length < 2 ^ 64) : Lacks k b := by
  intro depth rs hparsed r hr he
  have hnone := (Records.clear_iff hparsed hlen).mp hb
  exact hnone (mem_allNumbers_iff.mpr ⟨r, hr, he ▸ mem_numbers_self⟩)

/-- A typed reader makes slots of declared fields only. -/
theorem Steps.known_of_typed (h : Steps (readField S .typed depth t) m rs m')
    (hm : ∀ s ∈ m, ∃ f v, s = .known f v) : ∀ s ∈ m', ∃ f v, s = .known f v := by
  induction h with
  | nil => exact hm
  | cons _ h _ ih =>
    refine ih ?_
    cases readField_takes_iff.mp h with
    | @known f _ _ h =>
      obtain ⟨u, rfl, -⟩ := h.exists_set
      intro s hs
      rcases mem_set hs with rfl | hs
      · exact ⟨f, u, rfl⟩
      · exact hm s hs
    | unknown _ _ => exact hm

theorem Edits.number_ne (h : Edits S t P m m') (hp : ∀ f ∈ t.fields, P f → f.number ≠ k)
    (hm : ∀ s ∈ m, s.number ≠ k) : ∀ s ∈ m', s.number ≠ k := by
  induction h with
  | refl => exact hm
  | set _ hf hpf _ ih =>
    intro s hs
    rcases mem_set hs with rfl | hs
    · exact hp _ hf hpf
    · exact ih s hs

end Message
end DescriptorKit
