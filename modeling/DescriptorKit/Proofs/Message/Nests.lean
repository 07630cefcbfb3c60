import DescriptorKit.Proofs.Message.Nested
import DescriptorKit.Proofs.Message.Numbers

/-!
How deep groups nest. What a message was read from is written again in groups that nest no deeper,
so a typed reader that got past the records of a field that it does not know gets past them again.
-/
namespace DescriptorKit
open Wire Payload

namespace Wire.Payload

variable {depth n : Nat} {p : Payload} {rs : List (Nat × Payload)}

/-- A typed reader that is this deep gets past the payload, as far as groups go. -/
def Nests : (depth : Nat) → Payload → Prop
  | 0, _ => False
  | depth + 1, .group rs => ∀ r ∈ rs, InRange r.1 ∧ Nests depth r.2
  | _ + 1, _ => True

theorem nests_succ_flat (hp : p.wireType ≠ .startGroup) : Nests (depth + 1) p := by
  cases p with
  | group rs => exact absurd rfl hp
  | _ => trivial

theorem nests_of_fits (h : Fits true depth p) : Nests depth p := by
  induction depth generalizing p with
  | zero => cases h.1
  | succ depth ih =>
    cases p with
    | group rs => exact fun r hr => ⟨(h r hr).1, ih (h r hr).2⟩
    | _ => trivial

theorem fits_of_nests (h : Nests depth p) (hlen : (p.body n).length < 2 ^ 64) :
    Fits true depth p := by
  induction depth generalizing n p with
  | zero => exact h.elim
  | succ depth ih =>
    cases p with
    | group rs =>
      intro r hr
      have hle := length_body_le (show (r.1, r.2) ∈ rs from hr)
      rw [body, List.length_append] at hlen
      exact ⟨(h r hr).1, ih (h r hr).2 (show (r.2.body r.1).length < 2 ^ 64 by omega)⟩
    | _ => exact fits_succ_flat (flat_of_length (by simp [wireType]) hlen)

end Wire.Payload

namespace Message

variable {S : Schema} {t u : MessageType} {f : Field} {m m' inner : Message} {v : Value}
  {depth d n : Nat} {p : Payload} {rs : List (Nat × Payload)} {type : String}

/-- The slots of a number are written in groups that do not nest too deep. -/
def NestsAt (depth n : Nat) (m : Message) : Prop :=
  ∀ s ∈ m, s.number = n → ∀ r ∈ Value.slotRecords s, InRange r.1 ∧ r.2.Nests depth

theorem nestsAt_iff : NestsAt depth n m ↔
    ∀ r ∈ Value.recordsOf (m.only n), InRange r.1 ∧ r.2.Nests depth := by
  constructor
  · intro h r hr
    obtain ⟨s, hs, hr⟩ := mem_recordsOf_iff.mp hr
    obtain ⟨hs, hn⟩ := mem_only_iff.mp hs
    exact h s hs hn r hr
  · exact fun h s hs hn r hr =>
      h r (mem_recordsOf_iff.mpr ⟨s, mem_only_iff.mpr ⟨hs, hn⟩, hr⟩)

theorem NestsAt.set (h : NestsAt depth n m)
    (hv : f.number = n → ∀ r ∈ Value.records f v, InRange r.1 ∧ r.2.Nests depth) :
    NestsAt depth n (m.set f v) := by
  intro s hs hn
  rcases mem_set hs with rfl | hs
  · exact hv hn
  · exact h s hs hn

theorem nestsAt_nil : NestsAt depth n [] := fun s hs => by cases hs

/-- The message in a field of groups is written in groups that nest less deep. -/
theorem NestsAt.startOf (h : NestsAt (depth + 1) f.number m) (hm : Shaped S t m)
    (hf : S.field? t f.number = some f) (hk : f.kind = .group type) :
    ∀ n, NestsAt depth n (startOf f m) := by
  intro n
  unfold Message.startOf
  split
  · exact nestsAt_nil
  · cases hg : m.get? f with
    | none => exact nestsAt_nil
    | some v =>
      cases v with
      | message k =>
        have hgroup := h _ (hm.get? hf hg) rfl (f.number, .group (Value.recordsOf k))
          (by rw [Value.slotRecords, Value.records, hk]; exact List.mem_singleton_self _)
        exact fun s hs _ r hr => hgroup.2 r (mem_recordsOf_iff.mpr ⟨s, hs, hr⟩)
      | _ => exact nestsAt_nil

theorem not_packed_of_group (hreg : f.Regular) (hk : f.kind = .group type) : f.packed = false := by
  cases hp : f.packed with
  | false => rfl
  | true =>
    have := hreg.packable_of_packed hp
    rw [Field.packable_eq, hk] at this
    simp [Kind.packs] at this

theorem map_eq_false_of_group (hreg : f.Regular) (hk : f.kind = .group type) : f.map = false := by
  by_contra hm
  obtain ⟨type', hk'⟩ := hreg.kind_of_map (by simpa using hm)
  rw [hk] at hk'
  cases hk'

theorem NestsAt.valuesOf (h : NestsAt depth f.number m) (hm : Shaped S t m)
    (hf : S.field? t f.number = some f) (hp : f.packed = false) (hv : v ∈ m.valuesOf f) :
    ∀ r ∈ Value.records f v, InRange r.1 ∧ r.2.Nests depth := by
  intro r hr
  rw [Message.valuesOf] at hv
  cases hg : m.get? f with
  | none => simp [hg] at hv
  | some w =>
    cases w with
    | many vs =>
      refine h _ (hm.get? hf hg) rfl r ?_
      rw [Value.slotRecords, Value.records, hp, if_neg Bool.false_ne_true]
      exact mem_recordsEach_iff.mpr ⟨v, by simpa [hg, Value.many?] using hv, hr⟩
    | _ => simp [hg, Value.many?] at hv

/-- What a field of groups holds after one more was read into it. -/
theorem NestsAt.putNested (h : NestsAt (depth + 1) f.number m) (hm : Shaped S t m)
    (hf : S.field? t f.number = some f) (hreg : f.Regular) (hk : f.kind = .group type)
    (hn : InRange f.number) (hin : ∀ n, NestsAt depth n inner) :
    NestsAt (depth + 1) f.number (putNested S .lossless u f m inner) := by
  have hone : ∀ r ∈ Value.records f (.message inner), InRange r.1 ∧ r.2.Nests (depth + 1) := by
    rw [Value.records, hk]
    refine List.forall_mem_singleton.mpr ⟨hn, fun r hr => ?_⟩
    obtain ⟨s, hs, hr⟩ := mem_recordsOf_iff.mp hr
    exact hin s.number s hs rfl r hr
  have hpacked := not_packed_of_group hreg hk
  have hmap := map_eq_false_of_group hreg hk
  cases hr : f.repeated with
  | false =>
    rw [putNested_single hr hmap]
    exact h.set fun _ => hone
  | true =>
    rw [putNested_repeated hr hmap]
    refine h.set fun _ r hr' => ?_
    rw [Value.records, hpacked, if_neg Bool.false_ne_true] at hr'
    obtain ⟨v, hv, hr'⟩ := mem_recordsEach_iff.mp hr'
    rcases List.mem_append.mp hv with hv | hv
    · exact h.valuesOf hm hf hpacked hv r hr'
    · rw [List.mem_singleton.mp hv] at hr'
      exact hone r hr'

/-- A group is read record by record. -/
theorem steps_of_makes_group (h : Makes (readField S .lossless d u) n m .startGroup
    ((Payload.group rs).body n) inner) : Steps (readField S .lossless d u) m rs inner := by
  generalize hw : WireType.startGroup = w at h
  generalize hb : (Payload.group rs).body n = x at h
  cases h with
  | delimited _ _ => cases hw
  | group h =>
    have hrun := Cursor.repeatGroup_takes h []
    rw [← hb, body, List.append_assoc] at hrun
    exact (steps_of_repeatGroup (readField_local S .lossless d u)
      (fun r _ => readField_ends S .lossless d u r.2) hrun).2.2

/-- One record more, in groups that do not nest too deep. -/
theorem NestsAt.accepts (h : NestsAt depth f.number m) (hS : S.Regular) (ht : t ∈ S.messages)
    (hm : Shaped S t m) (hf : S.field? t f.number = some f) (hn : InRange f.number)
    (hp : p.Nests depth)
    (hin : ∀ {e depth u k inner rs}, d = e + 1 → u ∈ S.messages → Shaped S u k →
      Steps (readField S .lossless e u) k rs inner → (∀ r ∈ rs, InRange r.1 ∧ r.2.Nests depth) →
        (∀ n, NestsAt depth n k) → ∀ n, NestsAt depth n inner)
    (haccepts : Accepts S .lossless (nestedAt S .lossless d) f m p.wireType (p.body f.number) m') :
    NestsAt depth f.number m' := by
  obtain ⟨depth, rfl⟩ : ∃ e, depth = e + 1 := by
    cases depth with
    | zero => exact hp.elim
    | succ e => exact ⟨e, rfl⟩
  by_cases hgroup : ∃ type, f.kind = .group type
  · obtain ⟨type, hk⟩ := hgroup
    have hreg := hS.field ht hf
    have hmap := map_eq_false_of_group hreg hk
    have hsingle : ¬ f.kind.Single := fun hs => hs.1 (by rw [hk]; rfl)
    generalize hw : p.wireType = w at haccepts
    generalize hb : p.body f.number = x at haccepts
    cases haccepts with
    | single hs => exact absurd hs hsingle
    | more hs => exact absurd hs hsingle
    | packed hs => exact absurd hs hsingle
    | @nested _ u step inner hu hs hmakes =>
      rw [hk, Kind.wireType] at hw hmakes
      obtain ⟨rs, rfl⟩ : ∃ rs, p = .group rs := by
        cases p with
        | group rs => exact ⟨rs, rfl⟩
        | _ => cases hw
      rw [hmap, if_neg Bool.false_ne_true] at hs
      cases d with
      | zero => cases hs
      | succ e =>
        obtain rfl := Option.some.inj hs
        rw [← hb] at hmakes
        exact h.putNested hm hf hreg hk hn (hin rfl (Schema.mem_of_messageOf? hu)
          (hm.startOf hf hu) (steps_of_makes_group hmakes) hp (h.startOf hm hf hk))
  · obtain ⟨v, rfl, -⟩ := haccepts.exists_set
    refine h.set fun _ r hr => ?_
    rw [Value.number_of_mem_records f v r hr]
    exact ⟨hn, nests_succ_flat (Value.wireType_of_mem_records
      (fun type hk => hgroup ⟨type, hk⟩) v r hr)⟩

/-- What is read from records in groups that do not nest too deep is written in such groups
again. -/
theorem nestsAt_of_steps (hS : S.Regular) (ht : t ∈ S.messages)
    (h : Steps (readField S .lossless d t) m rs m')
    (hr : ∀ r ∈ rs, r.1 = n → InRange r.1 ∧ r.2.Nests depth) (hshaped : Shaped S t m)
    (hm : NestsAt depth n m) : NestsAt depth n m' := by
  induction d using Nat.strong_induction_on generalizing t m rs m' n depth with
  | _ d ihd =>
    induction h with
    | nil => exact hm
    | @cons a b c number p rs hrange h _ ih =>
      have hread := readField_takes_iff.mp h
      refine ih (fun r hmem => hr r (List.mem_cons_of_mem _ hmem))
        (readField_shaped hS (fun h => by cases h) ht h hshaped) ?_
      cases hread with
      | @unknown q hf hread =>
        obtain ⟨-, rfl, -⟩ := read_inv (hread [])
        split
        · exact hm
        · intro s hs hn r hmem
          rcases mem_insert_iff.mp hs with rfl | hs
          · rw [Value.slotRecords, List.mem_singleton] at hmem
            exact hmem ▸ hr _ List.mem_cons_self hn
          · exact hm s hs hn r hmem
      | @known f _ hf haccepts =>
        obtain rfl := Schema.field?_number hf
        by_cases hn : f.number = n
        · subst hn
          refine hm.accepts hS ht hshaped hf hrange (hr _ List.mem_cons_self rfl).2 ?_ haccepts
          intro e depth u k inner rs hd hu hk hsteps hrs hkn j
          exact ihd e (by omega) hu hsteps (fun r hr _ => hrs r hr) hk (hkn j)
        · obtain ⟨v, rfl, -⟩ := haccepts.exists_set
          exact hm.set fun he => absurd he hn

end Message
end DescriptorKit
