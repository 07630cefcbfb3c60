import DescriptorKit.Message.Basic

/-!
The slots of a message. Setting a field leaves the slots of all other numbers alone where the field
has no rivals, and slots stay in the order in which they are written.
-/
namespace DescriptorKit

namespace Slot

variable {s t u : Slot} {f : Field}

/-- What does not stand after a slot stands behind all that the slot stands behind. -/
theorem before_of_before (h : s.before t) (hu : ¬ u.before t) : s.before u := by
  unfold before at *
  cases hs : s.declared <;> cases ht : t.declared <;> cases hu' : u.declared <;>
    simp_all <;> omega

theorem not_before_of_before (h : s.before t) : ¬ t.before s := by
  unfold before at *
  cases hs : s.declared <;> cases ht : t.declared <;> simp_all <;> omega

theorem number_of_holds (h : s.holds f) : s.number = f.number := by
  cases s with
  | known g v =>
    simp only [holds, Bool.and_eq_true, decide_eq_true_eq] at h
    exact h.1
  | unknown n p => cases h

theorem declared_of_holds {v : Value} (h : s.holds f) : s.declared = (known f v).declared := by
  cases s with
  | known g w =>
    simp only [holds, Bool.and_eq_true, decide_eq_true_eq] at h
    simp [declared, h.2]
  | unknown n p => cases h

theorem holds_known (f : Field) (v : Value) : (known f v).holds f = true := by
  simp [holds]

theorem rivals_self (f : Field) (v : Value) : (known f v).rivals f = false := by
  simp [rivals]

theorem rivals_eq_false (h : f.oneof = none) (s : Slot) : s.rivals f = false := by
  cases s with
  | known g v =>
    simp only [rivals, h]
    cases g.oneof <;> simp
  | unknown n p => rfl

end Slot

namespace Message

variable {m : Message} {f g : Field} {v w : Value} {s : Slot} {n : Nat}

/-- The slots stand in the order in which they are written. -/
def Sorted (m : Message) : Prop := m.Pairwise fun a b => ¬ b.before a

/-- The slots of a number. -/
def only (n : Nat) (m : Message) : Message := m.filter fun s => s.number = n

@[simp] theorem only_nil (n : Nat) : only n [] = [] := rfl

theorem only_cons (n : Nat) (s : Slot) (m : Message) :
    only n (s :: m) = if s.number = n then s :: only n m else only n m := by
  rw [only, List.filter_cons]
  simp only [decide_eq_true_eq]
  rfl

theorem mem_only_iff : s ∈ only n m ↔ s ∈ m ∧ s.number = n := by
  simp [only]

theorem get?_only (hf : f.number = n) (m : Message) : (m.only n).get? f = m.get? f := by
  induction m with
  | nil => rfl
  | cons s m ih =>
    rw [only_cons]
    cases s with
    | known g v =>
      by_cases hg : g.number = n
      · rw [if_pos (show (Slot.known g v).number = n from hg), get?, get?, ih]
      · have hh : Slot.holds f (.known g v) = false := by
          simp [Slot.holds, hf, hg]
        rw [if_neg (show ¬ (Slot.known g v).number = n from hg), get?, hh]
        exact ih
    | unknown k p =>
      by_cases hk : k = n
      · rw [if_pos (show (Slot.unknown k p).number = n from hk), get?, get?, ih]
      · rw [if_neg (show ¬ (Slot.unknown k p).number = n from hk), get?, ih]

theorem at?_only (n : Nat) (m : Message) : (m.only n).at? n = m.at? n := by
  induction m with
  | nil => rfl
  | cons s m ih =>
    rw [only_cons]
    cases s with
    | known g v =>
      by_cases hg : g.number = n
      · rw [if_pos (show (Slot.known g v).number = n from hg), at?, at?, ih]
      · rw [if_neg (show ¬ (Slot.known g v).number = n from hg), at?, ih]
        simp [hg]
    | unknown k p =>
      by_cases hk : k = n
      · rw [if_pos (show (Slot.unknown k p).number = n from hk), at?, at?, ih]
      · rw [if_neg (show ¬ (Slot.unknown k p).number = n from hk), at?, ih]

theorem get?_isSome_iff : (m.get? f).isSome ↔ ∃ s ∈ m, s.holds f := by
  induction m with
  | nil => simp [get?]
  | cons s m ih =>
    cases s with
    | known g v =>
      rw [get?]
      split
      · rename_i h
        simp [h]
      · rename_i h
        rw [ih]
        simp [h]
    | unknown k p =>
      rw [get?, ih]
      simp [Slot.holds]

theorem mem_of_get? (h : m.get? f = some v) :
    ∃ g, Slot.known g v ∈ m ∧ Slot.holds f (.known g v) := by
  induction m with
  | nil => cases h
  | cons s m ih =>
    cases s with
    | known g w =>
      rw [get?] at h
      split at h
      · obtain rfl := Option.some.inj h
        exact ⟨g, by simp, by assumption⟩
      · obtain ⟨g', hm, hg'⟩ := ih h
        exact ⟨g', List.mem_cons_of_mem _ hm, hg'⟩
    | unknown k p =>
      obtain ⟨g', hm, hg'⟩ := ih h
      exact ⟨g', List.mem_cons_of_mem _ hm, hg'⟩

theorem insert_perm (s : Slot) (m : Message) : (m.insert s).Perm (s :: m) := by
  induction m with
  | nil => exact .refl _
  | cons t m ih =>
    rw [insert]
    split
    · exact .refl _
    · exact (ih.cons t).trans (.swap s t m)

theorem mem_insert_iff {t : Slot} : t ∈ m.insert s ↔ t = s ∨ t ∈ m := by
  rw [(insert_perm s m).mem_iff, List.mem_cons]

theorem Sorted.insert (h : m.Sorted) (s : Slot) : (m.insert s).Sorted := by
  induction m with
  | nil => exact List.pairwise_singleton _ _
  | cons t m ih =>
    obtain ⟨ht, hm⟩ := List.pairwise_cons.mp h
    rw [Message.insert]
    split
    · rename_i hst
      refine List.pairwise_cons.mpr ⟨fun u hu => ?_, h⟩
      rcases List.mem_cons.mp hu with rfl | hu
      · exact Slot.not_before_of_before hst
      · exact Slot.not_before_of_before (Slot.before_of_before hst (ht u hu))
    · rename_i hst
      refine List.pairwise_cons.mpr ⟨fun u hu => ?_, ih hm⟩
      rcases mem_insert_iff.mp hu with rfl | hu
      · exact hst
      · exact ht u hu

theorem insert_of_forall {m : Message} (h : ∀ t ∈ m, s.before t) : m.insert s = s :: m := by
  cases m with
  | nil => rfl
  | cons t m => rw [insert, if_pos (h t (by simp))]

theorem insert_of_forall_not (h : ∀ r ∈ m, s.before r = false) :
    m.insert s = m ++ [s] := by
  induction m with
  | nil => rfl
  | cons r m ih =>
    rw [insert, if_neg (by rw [h r (by simp)]; simp),
      ih fun r hr => h r (List.mem_cons_of_mem _ hr), List.cons_append]

theorem only_insert (h : m.Sorted) (s : Slot) (n : Nat) :
    (m.insert s).only n = if s.number = n then (m.only n).insert s else m.only n := by
  induction m with
  | nil => rw [Message.insert, only_cons, only_nil]; rfl
  | cons t m ih =>
    obtain ⟨ht, hm⟩ := List.pairwise_cons.mp h
    rw [Message.insert]
    split
    · rename_i hst
      rw [only_cons]
      split
      · rw [insert_of_forall]
        intro u hu
        rcases List.mem_cons.mp (mem_only_iff.mp hu).1 with rfl | hu
        · exact hst
        · exact Slot.before_of_before hst (ht u hu)
      · rfl
    · rename_i hst
      rw [only_cons, only_cons, ih hm]
      by_cases hs : s.number = n <;> by_cases ht' : t.number = n
      · rw [if_pos hs, if_pos ht', if_pos ht', if_pos hs, Message.insert, if_neg hst]
      · rw [if_pos hs, if_neg ht', if_neg ht', if_pos hs]
      · rw [if_neg hs, if_neg hs]
      · rw [if_neg hs, if_neg hs]

theorem mem_replace {t : Slot} (h : t ∈ m.replace f v) : t = .known f v ∨ t ∈ m := by
  induction m with
  | nil => cases h
  | cons s m ih =>
    cases s with
    | known g w =>
      rw [replace] at h
      split at h
      · rcases List.mem_cons.mp h with h | h
        · exact Or.inl h
        · exact Or.inr (List.mem_cons_of_mem _ h)
      · rcases List.mem_cons.mp h with rfl | h
        · exact Or.inr (by simp)
        · exact (ih h).imp id (List.mem_cons_of_mem _)
    | unknown k p =>
      rw [replace] at h
      rcases List.mem_cons.mp h with rfl | h
      · exact Or.inr (by simp)
      · exact (ih h).imp id (List.mem_cons_of_mem _)

theorem before_congr {a b c : Slot} (hd : a.declared = b.declared) (hn : a.number = b.number) :
    a.before c = b.before c ∧ c.before a = c.before b := by
  simp [Slot.before, hd, hn]

/-- What replaces a slot stands where the slot stood. -/
theorem replace_eq_append (h : (m.get? f).isSome) (v : Value) :
    ∃ before g w after, m = before ++ .known g w :: after ∧ Slot.holds f (.known g w) ∧
      (∀ s ∈ before, s.holds f = false) ∧ m.get? f = some w ∧
        m.replace f v = before ++ .known f v :: after := by
  induction m with
  | nil => simp [get?] at h
  | cons s m ih =>
    cases s with
    | known g w =>
      rw [get?] at h ⊢
      rw [replace]
      split
      · rename_i hg
        exact ⟨[], g, w, m, rfl, hg, by simp, rfl, rfl⟩
      · rename_i hg
        rw [if_neg hg] at h
        obtain ⟨before, g', w', after, rfl, hg', hb, hget, hrep⟩ := ih h
        refine ⟨.known g w :: before, g', w', after, rfl, hg', ?_, hget, by rw [hrep]; rfl⟩
        intro s hs
        rcases List.mem_cons.mp hs with rfl | hs
        · simpa using hg
        · exact hb s hs
    | unknown k p =>
      rw [get?] at h ⊢
      rw [replace]
      obtain ⟨before, g', w', after, rfl, hg', hb, hget, hrep⟩ := ih h
      refine ⟨.unknown k p :: before, g', w', after, rfl, hg', ?_, hget, by rw [hrep]; rfl⟩
      intro s hs
      rcases List.mem_cons.mp hs with rfl | hs
      · rfl
      · exact hb s hs

theorem Sorted.replace (h : m.Sorted) (hs : (m.get? f).isSome) (v : Value) :
    (m.replace f v).Sorted := by
  obtain ⟨before, g, w, after, rfl, hg, -, -, hrep⟩ := replace_eq_append hs v
  rw [hrep]
  unfold Sorted at *
  rw [List.pairwise_append, List.pairwise_cons] at h ⊢
  obtain ⟨hb, ⟨hga, ha⟩, hba⟩ := h
  have hc := fun c => before_congr (c := c) (Slot.declared_of_holds (v := v) hg)
    (Slot.number_of_holds hg : _ = (Slot.known f v).number)
  refine ⟨hb, ⟨fun b hb => ?_, ha⟩, fun a ha b hb => ?_⟩
  · rw [← (hc b).2]
    exact hga b hb
  · rcases List.mem_cons.mp hb with rfl | hb
    · rw [← (hc a).1]
      exact hba a ha _ (by simp)
    · exact hba a ha b (by simp [hb])

theorem only_replace (hn : f.number = n) (v : Value) (m : Message) :
    (m.replace f v).only n = (m.only n).replace f v := by
  induction m with
  | nil => rfl
  | cons s m ih =>
    cases s with
    | known g w =>
      rw [replace]
      by_cases hg : Slot.holds f (.known g w) = true
      · have hnum : (Slot.known g w).number = n := (Slot.number_of_holds hg).trans hn
        rw [if_pos hg, only_cons, only_cons, if_pos hnum, if_pos (show (Slot.known f v).number = n
          from hn), replace, if_pos hg]
      · rw [if_neg hg, only_cons, only_cons, ih]
        split
        · rw [replace, if_neg hg]
        · rfl
    | unknown k p =>
      rw [replace, only_cons, only_cons, ih]
      split
      · rw [replace]
      · rfl

theorem only_replace_ne (hn : f.number ≠ n) (v : Value) (m : Message) :
    (m.replace f v).only n = m.only n := by
  induction m with
  | nil => rfl
  | cons s m ih =>
    cases s with
    | known g w =>
      rw [replace]
      by_cases hg : Slot.holds f (.known g w) = true
      · have hnum : (Slot.known g w).number ≠ n := by
          rw [Slot.number_of_holds hg]
          exact hn
        rw [if_pos hg, only_cons, only_cons, if_neg hnum,
          if_neg (show (Slot.known f v).number ≠ n from hn)]
      · rw [if_neg hg, only_cons, only_cons, ih]
    | unknown k p =>
      rw [replace, only_cons, only_cons, ih]

theorem only_filter (p : Slot → Bool) (n : Nat) (m : Message) :
    only n (m.filter p) = (m.only n).filter p := by
  simp [only, List.filter_filter, Bool.and_comm]

theorem filter_rivals (h : f.oneof = none) (m : Message) : (m.filter fun s => !s.rivals f) = m := by
  rw [List.filter_eq_self]
  intro s _
  simp [Slot.rivals_eq_false h s]

/-- Setting a field without rivals is a matter of the slots of its number. -/
theorem only_set (hs : m.Sorted) (ho : f.oneof = none) (hn : f.number = n) (v : Value) :
    (m.set f v).only n = (m.only n).set f v := by
  unfold set
  rw [filter_rivals ho, filter_rivals ho]
  dsimp only
  rw [get?_only hn]
  split
  · exact only_filter _ n m
  · split
    · exact only_replace hn v m
    · rw [only_insert hs, if_pos (show (Slot.known f v).number = n from hn)]

theorem only_set_ne (hs : m.Sorted) (hr : ∀ s ∈ m, s.number = n → s.rivals f = false)
    (hn : f.number ≠ n) (v : Value) : (m.set f v).only n = m.only n := by
  unfold set
  have hfilter : only n (m.filter fun s => !s.rivals f) = m.only n := by
    rw [only_filter, List.filter_eq_self]
    intro s h
    obtain ⟨hm, hk⟩ := mem_only_iff.mp h
    simp [hr s hm hk]
  have hs' : Sorted (m.filter fun s => !s.rivals f) := hs.sublist List.filter_sublist
  dsimp only
  split
  · rw [erase, only_filter, hfilter, List.filter_eq_self]
    intro s h
    have hk := (mem_only_iff.mp h).2
    cases hh : s.holds f with
    | false => rfl
    | true => exact absurd ((Slot.number_of_holds hh).symm.trans hk) hn
  · split
    · rw [only_replace_ne hn, hfilter]
    · rw [only_insert hs', if_neg (show (Slot.known f v).number ≠ n from hn), hfilter]

theorem Sorted.set (hs : m.Sorted) (f : Field) (v : Value) : (m.set f v).Sorted := by
  have hs' : Sorted (m.filter fun s => !s.rivals f) := hs.sublist List.filter_sublist
  unfold Message.set
  dsimp only
  split
  · exact hs'.sublist List.filter_sublist
  · split
    · rename_i h
      exact hs'.replace h v
    · exact hs'.insert _

theorem mem_set {t : Slot} (h : t ∈ m.set f v) : t = .known f v ∨ t ∈ m := by
  unfold set at h
  dsimp only at h
  split at h
  · exact Or.inr (List.mem_filter.mp (List.mem_filter.mp h).1).1
  · split at h
    · exact (mem_replace h).imp id fun h => (List.mem_filter.mp h).1
    · exact (mem_insert_iff.mp h).imp id fun h => (List.mem_filter.mp h).1

theorem get?_insert (h : m.get? f = none) (v : Value) :
    (m.insert (.known f v)).get? f = some v := by
  induction m with
  | nil => simp [insert, get?, Slot.holds_known]
  | cons s m ih =>
    rw [insert]
    split
    · rw [get?, if_pos (Slot.holds_known f v)]
    · cases s with
      | known g w =>
        rw [get?] at h ⊢
        split at h
        · cases h
        · rename_i hg
          rw [if_neg hg]
          exact ih h
      | unknown k p => exact ih h

theorem get?_replace (h : (m.get? f).isSome) (v : Value) : (m.replace f v).get? f = some v := by
  induction m with
  | nil => simp [get?] at h
  | cons s m ih =>
    cases s with
    | known g w =>
      rw [get?] at h
      rw [replace]
      split at h
      · rename_i hg
        rw [if_pos hg, get?, if_pos (Slot.holds_known f v)]
      · rename_i hg
        rw [if_neg hg, get?, if_neg hg]
        exact ih h
    | unknown k p => exact ih h

theorem get?_set (hv : f.presence = true ∨ v.isZero = false) (m : Message) :
    (m.set f v).get? f = some v := by
  unfold set
  dsimp only
  rw [if_neg (by rcases hv with h | h <;> simp [h])]
  split
  · rename_i h
    exact get?_replace h v
  · rename_i h
    exact get?_insert (by simpa using h) v

theorem set_nil (f : Field) (v : Value) : Message.set f v [] =
    if !f.presence && v.isZero then [] else [.known f v] := by
  unfold set
  split <;> rfl

theorem set_known (f : Field) (v w : Value) :
    Message.set f v [.known f w] = Message.set f v [] := by
  have hr : (Slot.known f w).rivals f = false := Slot.rivals_self f w
  unfold set
  cases !f.presence && v.isZero <;> simp [hr, get?, replace, insert, erase, Slot.holds_known]

end Message
end DescriptorKit
