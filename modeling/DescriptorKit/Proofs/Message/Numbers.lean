import DescriptorKit.Proofs.Message.Parsed
import DescriptorKit.Proofs.Wire.Pieces

/-!
The numbers that a split comes across in some records: those of the records themselves, and of the
records in groups. Reading a message and writing it again brings no number in.
-/
namespace DescriptorKit
open Wire Payload

namespace Wire.Payload

variable {n j : Nat} {p : Payload} {rs ss : List (Nat × Payload)}

mutual

def numbers (n : Nat) : Payload → List Nat
  | .group rs => n :: (allNumbers rs ++ [n])
  | _ => [n]

def allNumbers : List (Nat × Payload) → List Nat
  | [] => []
  | (n, p) :: rs => numbers n p ++ allNumbers rs

end

theorem mem_allNumbers_iff : j ∈ allNumbers rs ↔ ∃ r ∈ rs, j ∈ numbers r.1 r.2 := by
  induction rs with
  | nil => simp [allNumbers]
  | cons r rs ih =>
    obtain ⟨n, p⟩ := r
    simp [allNumbers, ih]

theorem numbers_of_ne (h : p.wireType ≠ .startGroup) : numbers n p = [n] := by
  cases p with
  | group rs => exact absurd rfl h
  | _ => simp [numbers]

theorem mem_numbers_self : n ∈ numbers n p := by
  cases p <;> simp [numbers]

end Wire.Payload

namespace Wire.Records

variable {x y b : Bytes} {n k depth : Nat} {p : Payload} {rs : List (Nat × Payload)}
  {acc acc' : List (Nat × Payload)}

/-- What stands between the markers of a group is cut into pieces, and so is the marker at its
end. -/
theorem exists_pieces_of_group
    (hin : ∀ {n : Nat} {p : Payload} {x y : Bytes}, Takes Cursor.key x (n, p.wireType) →
      Takes (Payload.read false depth n p.wireType) y p → (x ++ y).length < 2 ^ 64 →
        ∃ ps, Pieces (x ++ y) ps ∧ ps.map (·.1) = numbers n p)
    (h : Cursor.Group n (readInto (Payload.read false depth)) acc b acc')
    (hlen : b.length < 2 ^ 64) :
    ∃ (rs : List (Nat × Payload)) (ps : List (Nat × Bytes)), acc' = rs.reverse ++ acc ∧
      Pieces b ps ∧ ps.map (·.1) = allNumbers rs ++ [n] := by
  induction h with
  | @stop a x hk =>
    have hpiece := Pieces.cons (piece_of_marker hk (Or.inr rfl)) .nil
    rw [List.append_nil] at hpiece
    exact ⟨[], _, rfl, hpiece, by rw [allNumbers]; rfl⟩
  | @cons a b c x y z inner w hk hw h _ ih =>
    obtain ⟨p, hp, rfl⟩ := (takes_readInto (read_local _ _ _ _)).mp h
    obtain rfl := (takes_read hp).1
    rw [← List.append_assoc, List.length_append] at hlen
    obtain ⟨ps, hps, hnumbers⟩ := hin hk hp (by omega)
    obtain ⟨rs, qs, rfl, hqs, hrest⟩ := ih (by omega)
    refine ⟨(inner, p) :: rs, ps ++ qs, by simp, ?_, ?_⟩
    · rw [← List.append_assoc]
      exact hps.append hqs
    · rw [List.map_append, hnumbers, hrest, allNumbers, List.append_assoc]

theorem exists_pieces_of_read (hk : Takes Cursor.key x (n, p.wireType))
    (hp : Takes (Payload.read false depth n p.wireType) y p) (hlen : (x ++ y).length < 2 ^ 64) :
    ∃ ps, Pieces (x ++ y) ps ∧ ps.map (·.1) = numbers n p := by
  induction depth generalizing n p x y with
  | zero =>
    by_cases hw : p.wireType = .startGroup
    · have hr := hp []
      rw [hw, read_zero, if_pos (by simp)] at hr
      cases hr
    · have hpiece := Pieces.cons (piece_of_flat hk ((takes_read_flat hw).mp hp).2 hlen) .nil
      rw [List.append_nil] at hpiece
      exact ⟨_, hpiece, by rw [numbers_of_ne hw]; rfl⟩
  | succ depth ih =>
    by_cases hw : p.wireType = .startGroup
    · rw [hw] at hk hp
      -- splitting knows no groups: the markers are pieces, and so is all that stands between them
      obtain ⟨acc, hgroup, rfl⟩ := takes_read_group.mp hp
      rw [List.length_append] at hlen
      obtain ⟨rs, ps, rfl, hps, hnumbers⟩ := exists_pieces_of_group ih hgroup (by omega)
      refine ⟨(n, x) :: ps, .cons (piece_of_marker hk (Or.inl rfl)) hps, ?_⟩
      rw [List.map_cons, hnumbers, numbers, List.append_nil, List.reverse_reverse]
    · have hpiece := Pieces.cons (piece_of_flat hk ((takes_read_flat hw).mp hp).2 hlen) .nil
      rw [List.append_nil] at hpiece
      exact ⟨_, hpiece, by rw [numbers_of_ne hw]; rfl⟩

/-- A split comes across the numbers of the records that stand in the bytes. -/
theorem exists_pieces_of_parsed (h : Message.Parsed depth b rs) (hlen : b.length < 2 ^ 64) :
    ∃ ps, Pieces b ps ∧ ps.map (·.1) = allNumbers rs := by
  induction h with
  | nil => exact ⟨[], .nil, by rw [allNumbers]; rfl⟩
  | @cons x y b n p rs hk hp _ ih =>
    rw [← List.append_assoc, List.length_append] at hlen
    obtain ⟨ps, hps, hnumbers⟩ := exists_pieces_of_read hk hp (by omega)
    obtain ⟨qs, hqs, hrest⟩ := ih (by omega)
    refine ⟨ps ++ qs, ?_, by rw [List.map_append, hnumbers, hrest, allNumbers]⟩
    rw [← List.append_assoc]
    exact hps.append hqs

theorem clear_iff (h : Message.Parsed depth b rs) (hlen : b.length < 2 ^ 64) :
    Clear k b ↔ k ∉ allNumbers rs := by
  obtain ⟨ps, hps, hnumbers⟩ := exists_pieces_of_parsed h hlen
  rw [← hnumbers, List.mem_map, not_exists]
  constructor
  · rintro ⟨qs, hqs, hne⟩ p ⟨hp, he⟩
    exact hne p (hqs.unique hps ▸ hp) he
  · exact fun hne => ⟨ps, hps, fun p hp he => hne p ⟨hp, he⟩⟩

end Wire.Records

namespace Message

variable {S : Schema} {reading : Reading} {t : MessageType} {m m' : Message} {k depth : Nat}
  {b : Bytes} {rs : List (Nat × Payload)}

/-- What is read one by one stands in the bytes one by one. -/
theorem parsed_of_steps (hS : S.Regular) (ht : t ∈ S.messages)
    (h : Steps (readField S reading depth t) m rs m') : Parsed depth (encodeAll rs) rs := by
  induction h with
  | nil => exact .nil
  | @cons a b c n p rs hn h _ ih =>
    obtain ⟨q, hq, hread, -⟩ := exists_payload hS ht hn h
    obtain ⟨-, rfl, -⟩ := read_inv (hread [])
    rw [encodeAll, encode_eq, List.append_assoc]
    exact .cons (Cursor.key_encode hn.1 hn.2) hread ih

/-- Where a message was read from, there are records for all of its slots. -/
theorem Steps.sources (h : Steps (readField S reading depth t) m rs m') :
    (∀ f v, Slot.known f v ∈ m' → (∃ w, Slot.known f w ∈ m) ∨ ∃ r ∈ rs, r.1 = f.number) ∧
      ∀ n p, Slot.unknown n p ∈ m' → Slot.unknown n p ∈ m ∨ (n, p) ∈ rs := by
  induction h with
  | nil => exact ⟨fun f v h => Or.inl ⟨v, h⟩, fun n p h => Or.inl h⟩
  | @cons a b c number p rs hn h _ ih =>
    have hstep : (∀ f v, Slot.known f v ∈ b → (∃ w, Slot.known f w ∈ a) ∨ number = f.number) ∧
        ∀ n q, Slot.unknown n q ∈ b → Slot.unknown n q ∈ a ∨ (n, q) = (number, p) := by
      cases readField_takes_iff.mp h with
      | @known f _ hf h =>
        obtain ⟨u, rfl, -⟩ := h.exists_set
        refine ⟨fun g v hg => ?_, fun n q hq => Or.inl ?_⟩
        · rcases mem_set hg with hg | hg
          · exact Or.inr (congrArg Field.number (Slot.known.inj hg).1 ▸
              (Schema.field?_number hf).symm)
          · exact Or.inl ⟨v, hg⟩
        · exact (mem_set hq).resolve_left (by simp)
      | @unknown q hf hread =>
        obtain ⟨-, rfl, -⟩ := read_inv (hread [])
        split
        · exact ⟨fun g v hg => Or.inl ⟨v, hg⟩, fun n q hq => Or.inl hq⟩
        · refine ⟨fun g v hg => ?_, fun n q hq => ?_⟩
          · exact Or.inl ⟨v, (mem_insert_iff.mp hg).resolve_left (by simp)⟩
          · rcases mem_insert_iff.mp hq with hq | hq
            · obtain ⟨rfl, rfl⟩ := Slot.unknown.inj hq
              exact Or.inr rfl
            · exact Or.inl hq
    refine ⟨fun f v hf => ?_, fun n q hq => ?_⟩
    · rcases ih.1 f v hf with ⟨w, hw⟩ | ⟨r, hr, he⟩
      · rcases hstep.1 f w hw with hw | he
        · exact Or.inl hw
        · exact Or.inr ⟨(number, p), List.mem_cons_self, he⟩
      · exact Or.inr ⟨r, List.mem_cons_of_mem _ hr, he⟩
    · rcases ih.2 n q hq with hq | hq
      · rcases hstep.2 n q hq with hq | he
        · exact Or.inl hq
        · exact Or.inr (he ▸ List.mem_cons_self)
      · exact Or.inr (List.mem_cons_of_mem _ hq)

theorem mem_recordsOf_iff {r : Nat × Payload} :
    r ∈ Value.recordsOf m ↔ ∃ s ∈ m, r ∈ Value.slotRecords s := by
  induction m with
  | nil => simp [Value.recordsOf]
  | cons s m ih => simp [Value.recordsOf, ih]

theorem mem_recordsEach_iff {f : Field} {vs : List Value} {r : Nat × Payload} :
    r ∈ Value.recordsEach f vs ↔ ∃ x ∈ vs, r ∈ Value.records f x := by
  induction vs with
  | nil => simp [Value.recordsEach]
  | cons x vs ih => simp [Value.recordsEach, ih]

/-- Writing what was read brings no number in, where the type has no groups. -/
theorem Steps.allNumbers_subset
    (hgroup : ∀ f n, S.field? t n = some f → ∀ type, f.kind ≠ .group type)
    (h : Steps (readField S reading depth t) [] rs m) :
    allNumbers (Value.recordsOf m) ⊆ allNumbers rs := by
  intro j hj
  obtain ⟨r, hr, hj⟩ := mem_allNumbers_iff.mp hj
  obtain ⟨s, hs, hr⟩ := mem_recordsOf_iff.mp hr
  have hdeclared := (Steps.made h .nil).declared
  cases s with
  | known f v =>
    rw [Value.slotRecords] at hr
    have hk := hgroup f f.number (hdeclared f v hs)
    rw [numbers_of_ne (Value.wireType_of_mem_records hk v r hr), List.mem_singleton,
      Value.number_of_mem_records f v r hr] at hj
    obtain ⟨w, hw⟩ | ⟨r', hr', he⟩ := (Steps.sources h).1 f v hs
    · cases hw
    · exact mem_allNumbers_iff.mpr ⟨r', hr', by rw [hj, ← he]; exact mem_numbers_self⟩
  | unknown n p =>
    rw [Value.slotRecords, List.mem_singleton] at hr
    subst hr
    have hp := ((Steps.sources h).2 n p hs).resolve_left (by simp)
    exact mem_allNumbers_iff.mpr ⟨(n, p), hp, hj⟩

end Message
end DescriptorKit
