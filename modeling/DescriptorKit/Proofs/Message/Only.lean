import DescriptorKit.Proofs.Message.Read
import DescriptorKit.Proofs.Message.Slots

/-!
What a message holds under a number comes from the records of that number alone, where the field of
the number is no member of a oneof.
-/
namespace DescriptorKit.Message
open Wire Payload

variable {S : Schema} {reading : Reading} {nested : Nested} {f : Field} {t : MessageType}
  {m m' k : Message} {w : WireType} {x : Bytes} {depth number n : Nat} {v : Value}
  {rs : List (Nat × Payload)}

theorem exists_add_eq (S : Schema) (f : Field) (v : Value) (m : Message) :
    ∃ u, ∀ k : Message, k.get? f = m.get? f → k.add S f v = k.set f u := by
  have hvalues : ∀ k : Message, k.get? f = m.get? f → k.valuesOf f = m.valuesOf f := by
    intro k hk
    rw [valuesOf, valuesOf, hk]
  unfold add
  split
  · exact ⟨_, fun k hk => by rw [hvalues k hk]⟩
  · split
    · exact ⟨_, fun k hk => by rw [hvalues k hk]⟩
    · exact ⟨_, fun k _ => rfl⟩

theorem startOf_congr (h : k.get? f = m.get? f) : startOf f k = startOf f m := by
  rw [startOf, startOf, h]

theorem exists_putNested_eq (S : Schema) (reading : Reading) (t : MessageType) (f : Field)
    (m inner : Message) :
    ∃ u, ∀ k : Message, k.get? f = m.get? f →
      putNested S reading t f k inner = k.set f u := by
  unfold putNested
  split
  · exact exists_add_eq S f _ m
  · split
    · exact exists_add_eq S f _ m
    · exact ⟨_, fun k _ => rfl⟩

/-- A record of a field sets the field, to what it does with nothing but the value before it. -/
theorem Accepts.exists_set (h : Accepts S reading nested f m w x m') :
    ∃ u, m' = m.set f u ∧ ∀ k : Message, k.get? f = m.get? f →
      Accepts S reading nested f k w x (k.set f u) := by
  cases h with
  | @single x v hk hr h => exact ⟨v, rfl, fun k _ => .single hk hr h⟩
  | @more x v hk hr hp h =>
    obtain ⟨u, hu⟩ := exists_add_eq S f v m
    exact ⟨u, hu m rfl, fun k hg => hu k hg ▸ .more hk hr hp h⟩
  | packed hk hr hp hl h =>
    refine ⟨_, rfl, fun k hg => ?_⟩
    have : m.valuesOf f = k.valuesOf f := by rw [valuesOf, valuesOf, hg]
    rw [this]
    exact .packed hk hr hp hl h
  | @nested x t step inner ht hs h =>
    obtain ⟨u, hu⟩ := exists_putNested_eq S reading t f m inner
    exact ⟨u, hu m rfl, fun k hg => hu k hg ▸ .nested ht hs (startOf_congr hg ▸ h)⟩

/-- The field of the number is no member of a oneof. -/
def Calm (S : Schema) (t : MessageType) (n : Nat) : Prop :=
  ∀ f, S.field? t n = some f → f.oneof = none

/-- Known slots are of the fields that their numbers stand for. -/
def Declared (S : Schema) (t : MessageType) (m : Message) : Prop :=
  ∀ f v, Slot.known f v ∈ m → S.field? t f.number = some f

theorem Declared.nil : Declared S t [] := fun _ _ h => by cases h

theorem Declared.set (h : Declared S t m) (hf : S.field? t f.number = some f) (v : Value) :
    Declared S t (m.set f v) := by
  intro g w hg
  rcases mem_set hg with hg | hg
  · obtain ⟨rfl, rfl⟩ := Slot.known.inj hg
    exact hf
  · exact h g w hg

theorem Declared.not_rivals (h : Declared S t m) (hc : Calm S t n) {s : Slot} (hs : s ∈ m)
    (hn : s.number = n) (f : Field) : s.rivals f = false := by
  cases s with
  | known g v =>
    have hg : g.oneof = none := hc g (hn ▸ h g v hs)
    simp [Slot.rivals, hg]
  | unknown k p => rfl

/-- A message in the making: its slots are in order and of the fields that were declared. -/
structure Made (S : Schema) (t : MessageType) (m : Message) : Prop where
  sorted : m.Sorted
  declared : Declared S t m

theorem Made.nil : Made S t [] := ⟨.nil, .nil⟩

theorem Reads.made (h : Reads S reading depth nested t m number w x m') (hm : Made S t m) :
    Made S t m' := by
  cases h with
  | @known f m' hf h =>
    obtain ⟨u, rfl, -⟩ := h.exists_set
    exact ⟨hm.sorted.set f u, hm.declared.set (Schema.field?_number hf ▸ hf) u⟩
  | unknown hf h =>
    split
    · exact hm
    · refine ⟨hm.sorted.insert _, fun g v hg => ?_⟩
      rcases mem_insert_iff.mp hg with hg | hg
      · cases hg
      · exact hm.declared g v hg

theorem Reads.only_ne (h : Reads S reading depth nested t m number w x m') (hm : Made S t m)
    (hc : Calm S t n) (hn : number ≠ n) : m'.only n = m.only n := by
  cases h with
  | @known f m' hf h =>
    obtain ⟨u, rfl, -⟩ := h.exists_set
    exact only_set_ne hm.sorted (fun s hs hk => hm.declared.not_rivals hc hs hk f)
      (Schema.field?_number hf ▸ hn) u
  | unknown hf h =>
    split
    · rfl
    · rw [only_insert hm.sorted]
      exact if_neg hn

theorem Reads.only (h : Reads S reading depth nested t m n w x m') (hm : Made S t m)
    (hc : Calm S t n) : Reads S reading depth nested t (m.only n) n w x (m'.only n) := by
  cases h with
  | @known f m' hf h =>
    have hfn := Schema.field?_number hf
    obtain ⟨u, rfl, hk⟩ := h.exists_set
    rw [only_set hm.sorted (hc f hf) hfn]
    exact .known hf (hk _ (get?_only hfn m))
  | @unknown p hf h =>
    have : Reads S reading depth nested t (m.only n) n w x _ := .unknown hf h
    split
    · rename_i hd
      rwa [if_pos hd] at this
    · rename_i hd
      rw [if_neg hd] at this
      rwa [only_insert hm.sorted, if_pos (show (Slot.unknown n p).number = n from rfl)]

theorem Steps.made (h : Steps (readField S reading depth t) m rs m') (hm : Made S t m) :
    Made S t m' := by
  induction h with
  | nil => exact hm
  | cons _ h _ ih => exact ih ((readField_takes_iff.mp h).made hm)

/-- From the records of one number comes what all records make of that number. -/
theorem Steps.only (h : Steps (readField S reading depth t) m rs m') (hm : Made S t m)
    (hc : Calm S t n) :
    Steps (readField S reading depth t) (m.only n) (rs.filter fun r => r.1 = n) (m'.only n) := by
  induction h with
  | nil => exact .nil _
  | @cons a b c number p rs hn h _ ih =>
    have hr := readField_takes_iff.mp h
    have ihs := ih (hr.made hm)
    rw [List.filter_cons]
    by_cases he : number = n
    · subst he
      rw [if_pos (by simp)]
      exact .cons hn (readField_takes_iff.mpr (hr.only hm hc)) ihs
    · rw [if_neg (by simpa using he), ← hr.only_ne hm hc he]
      exact ihs

theorem Reads.of_only (h : Reads S reading depth nested t (m.only n) n w x m') :
    ∃ k, Reads S reading depth nested t m n w x k := by
  cases h with
  | known hf h =>
    obtain ⟨u, -, hk⟩ := h.exists_set
    exact ⟨_, .known hf (hk m (get?_only (Schema.field?_number hf) m).symm)⟩
  | unknown hf h => exact ⟨_, .unknown hf h⟩

/-- Where the records of each number can be read, all of them can. -/
theorem exists_steps_of_only (hc : ∀ n, Calm S t n) (hm : Made S t m)
    (h : ∀ n, ∃ k, Steps (readField S reading depth t) (m.only n) (rs.filter fun r => r.1 = n) k) :
    ∃ m', Steps (readField S reading depth t) m rs m' := by
  induction rs generalizing m with
  | nil => exact ⟨m, .nil m⟩
  | cons r rs ih =>
    obtain ⟨number, p⟩ := r
    obtain ⟨k, hk⟩ := h number
    rw [List.filter_cons, if_pos (by simp)] at hk
    cases hk with
    | @cons _ b _ _ _ _ hn hb hs =>
      obtain ⟨m', hm'⟩ := (readField_takes_iff.mp hb).of_only
      have honly : m'.only number = b := by
        have htaken := readField_takes_iff.mpr (hm'.only hm (hc number))
        exact (htaken.unique hb (show _ ++ [] = _ ++ [] from rfl)).2.1
      obtain ⟨m'', hsteps⟩ := ih (hm'.made hm) fun j => by
        by_cases hj : j = number
        · subst hj
          exact ⟨k, honly ▸ hs⟩
        · obtain ⟨kj, hkj⟩ := h j
          rw [List.filter_cons, if_neg (by simpa using fun he => hj he.symm)] at hkj
          exact ⟨kj, by rwa [hm'.only_ne hm (hc j) (fun he => hj he.symm)]⟩
      exact ⟨m'', .cons hn (readField_takes_iff.mpr hm') hsteps⟩

/-- Slots in order are told by the slots of each number. -/
theorem Sorted.ext {k : Message} (hm : m.Sorted) (hk : k.Sorted)
    (h : ∀ n, m.only n = k.only n) : m = k := by
  have hmem : ∀ {m k : Message}, (∀ n, m.only n = k.only n) → ∀ s ∈ m, s ∈ k := by
    intro m k h s hs
    have hs' : s ∈ m.only s.number := mem_only_iff.mpr ⟨hs, rfl⟩
    rw [h] at hs'
    exact (mem_only_iff.mp hs').1
  induction m generalizing k with
  | nil =>
    cases k with
    | nil => rfl
    | cons r k => exact absurd (hmem (fun n => (h n).symm) r (by simp)) (by simp)
  | cons s m ih =>
    cases k with
    | nil => exact absurd (hmem h s (by simp)) (by simp)
    | cons r k =>
      obtain ⟨hsm, hm'⟩ := List.pairwise_cons.mp hm
      obtain ⟨hrk, hk'⟩ := List.pairwise_cons.mp hk
      have hsr : s = r := by
        by_contra hne
        have hs : s ∈ k := (List.mem_cons.mp (hmem h s (by simp))).resolve_left hne
        have hr : r ∈ m := (List.mem_cons.mp (hmem (fun n => (h n).symm) r (by simp))).resolve_left
          fun he => hne he.symm
        have hnum : s.number = r.number := by
          have h₁ := hsm r hr
          have h₂ := hrk s hs
          unfold Slot.before at h₁ h₂
          cases hd : s.declared <;> cases hd' : r.declared <;> simp_all <;> omega
        have := h s.number
        rw [only_cons, only_cons, if_pos rfl, if_pos hnum.symm] at this
        exact hne (List.cons.inj this).1
      subst hsr
      congr 1
      refine ih hm' hk' fun n => ?_
      have := h n
      rw [only_cons, only_cons] at this
      split at this
      · exact (List.cons.inj this).2
      · exact this

end DescriptorKit.Message
