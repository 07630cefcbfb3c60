import DescriptorKit.Proofs.Message.Records

/-!
Messages read slot by slot. Setting a field leaves the slots before it alone, and no message has
slots of one oneof; so a message is read from its records where each slot is read from those of its
own.
-/
namespace DescriptorKit.Message
open Wire Payload

variable {S : Schema} {reading : Reading} {t : MessageType} {f : Field} {m k k' : Message}
  {v : Value} {s : Slot} {depth n : Nat} {p : Payload} {rs : List (Nat × Payload)}

section Rivals

theorem rivals_comm (f g : Field) (v w : Value) :
    (Slot.known g w).rivals f = (Slot.known f v).rivals g := by
  simp only [Slot.rivals]
  by_cases ho : g.oneof = f.oneof
  · rw [ho, show decide (g.number ≠ f.number) = decide (f.number ≠ g.number) by simp [eq_comm]]
    cases g.isExtension <;> cases f.isExtension <;> simp
  · simp [ho, Ne.symm ho]

/-- No two slots are of the same oneof. -/
def Unrivalled (m : Message) : Prop :=
  ∀ f v, Slot.known f v ∈ m → ∀ s ∈ m, s.rivals f = false

theorem Unrivalled.nil : Unrivalled [] := fun _ _ h => by cases h

theorem Unrivalled.insert_unknown (h : Unrivalled m) (n : Nat) (p : Payload) :
    Unrivalled (m.insert (.unknown n p)) := by
  intro f v hf s hs
  rcases mem_insert_iff.mp hs with rfl | hs
  · rfl
  · rcases mem_insert_iff.mp hf with hf | hf
    · cases hf
    · exact h f v hf s hs

/-- What is left when a field is set are slots of no rival. -/
theorem rivals_of_mem_set (h : s ∈ m.set f v) : s = .known f v ∨ s ∈ m ∧ s.rivals f = false := by
  have hleft : s ∈ (m.filter fun s => !s.rivals f) → s ∈ m ∧ s.rivals f = false := by
    intro hs
    simpa using hs
  unfold Message.set at h
  dsimp only at h
  split at h
  · exact .inr (hleft (List.mem_filter.mp h).1)
  · split at h
    · exact (mem_replace h).imp id hleft
    · exact (mem_insert_iff.mp h).imp id hleft

theorem Unrivalled.set (h : Unrivalled m) (f : Field) (v : Value) : Unrivalled (m.set f v) := by
  intro g w hg s hs
  rcases rivals_of_mem_set hg with hg | ⟨hg, hgf⟩
  · obtain ⟨rfl, rfl⟩ := Slot.known.inj hg
    rcases rivals_of_mem_set hs with rfl | ⟨-, hsf⟩
    · exact Slot.rivals_self _ _
    · exact hsf
  · rcases rivals_of_mem_set hs with rfl | ⟨hs, -⟩
    · rw [← rivals_comm]
      exact hgf
    · exact h g w hg s hs

end Rivals

section Behind

/-- Slots behind which a field can be put: none of them is of the field, or of a rival of it, and
none stands after it. -/
structure Behind (f : Field) (m : Message) : Prop where
  unset : ∀ s ∈ m, s.holds f = false
  rivals : ∀ s ∈ m, s.rivals f = false
  before : ∀ v, ∀ s ∈ m, (Slot.known f v).before s = false

theorem get?_behind (h : Behind f m) (k : Message) : Message.get? f (m ++ k) = k.get? f := by
  have hunset := h.unset
  clear h
  induction m with
  | nil => rfl
  | cons s m ih =>
    obtain ⟨hs, hm⟩ := List.forall_mem_cons.mp hunset
    cases s with
    | known g w => rw [List.cons_append, get?, hs, if_neg Bool.false_ne_true, ih hm]
    | unknown j p => rw [List.cons_append, get?, ih hm]

theorem replace_behind (h : Behind f m) (k : Message) (v : Value) :
    Message.replace f v (m ++ k) = m ++ k.replace f v := by
  have hunset := h.unset
  clear h
  induction m with
  | nil => rfl
  | cons s m ih =>
    obtain ⟨hs, hm⟩ := List.forall_mem_cons.mp hunset
    cases s with
    | known g w =>
      rw [List.cons_append, replace, hs, if_neg Bool.false_ne_true, ih hm, List.cons_append]
    | unknown j p => rw [List.cons_append, replace, ih hm, List.cons_append]

/-- Setting the field leaves the slots before it alone. -/
theorem set_behind (h : Behind f m) (hk : ∀ s ∈ k, ∃ w, s = .known f w) (v : Value) :
    Message.set f v (m ++ k) = m ++ k.set f v := by
  have hm : (m.filter fun s => !s.rivals f) = m :=
    List.filter_eq_self.mpr fun s hs => by rw [h.rivals s hs]; rfl
  have hk' : (k.filter fun s => !s.rivals f) = k := by
    refine List.filter_eq_self.mpr fun s hs => ?_
    obtain ⟨w, rfl⟩ := hk s hs
    rw [Slot.rivals_self]
    rfl
  have herase : m.filter (fun s => !s.holds f) = m :=
    List.filter_eq_self.mpr fun s hs => by rw [h.unset s hs]; rfl
  unfold Message.set
  rw [List.filter_append, hm, hk']
  dsimp only
  split
  · rw [erase, List.filter_append, herase]
    rfl
  · rw [get?_behind h]
    split
    · exact replace_behind h k v
    · rename_i hunset
      have hnil : k = [] := by
        refine List.eq_nil_iff_forall_not_mem.mpr fun s hs => hunset ?_
        obtain ⟨w, rfl⟩ := hk s hs
        exact get?_isSome_iff.mpr ⟨_, hs, Slot.holds_known f w⟩
      rw [hnil, List.append_nil, insert_of_forall_not (h.before v)]
      rfl

/-- Records of a field are read behind other slots as they are read by themselves. -/
theorem Steps.behind (hf : S.field? t n = some f) (hm : Behind f m) (hn : ∀ r ∈ rs, r.1 = n)
    (hk : ∀ s ∈ k, ∃ w, s = .known f w) (h : Steps (readField S reading depth t) k rs k') :
    Steps (readField S reading depth t) (m ++ k) rs (m ++ k') := by
  induction h with
  | nil => exact .nil _
  | @cons a b c number p rs hrange h _ ih =>
    obtain rfl : number = n := hn (number, p) List.mem_cons_self
    have hreads := readField_takes_iff.mp h
    cases hreads with
    | unknown hnone _ =>
      rw [hf] at hnone
      cases hnone
    | known hf' h =>
      obtain rfl := Option.some.inj (hf.symm.trans hf')
      obtain ⟨u, rfl, hset⟩ := h.exists_set
      have htakes := hset (m ++ a) (get?_behind hm a)
      rw [set_behind hm hk] at htakes
      refine .cons hrange (readField_takes_iff.mpr (.known hf htakes))
        (ih (fun r hr => hn r (List.mem_cons_of_mem _ hr)) fun s hs => ?_)
      exact (mem_set hs).elim (fun he => ⟨u, he⟩) (hk s)

/-- A record that a lossless reader keeps as it is. -/
structure Stays (S : Schema) (depth : Nat) (t : MessageType) (n : Nat) (p : Payload) : Prop where
  inRange : InRange n
  fits : p.Fits false depth
  entry : t.mapEntry = false

theorem Stays.takes (h : Stays S depth t n p) (hf : S.field? t n = none) (m : Message) :
    Takes (readField S .lossless depth t m n p.wireType) (p.body n)
      (m.insert (.unknown n p)) := by
  have hread : Reads S .lossless depth (nestedAt S .lossless depth) t m n p.wireType (p.body n) _ :=
    .unknown hf (read_takes h.inRange (by simpa [h.entry] using h.fits))
  rw [if_neg (by simp [h.entry])] at hread
  exact readField_takes_iff.mpr hread

/-- A message is read from its records where each slot is read from those of its own. -/
theorem steps_of_slots (hm : Shaped S t m) (hr : Unrivalled m)
    (hknown : ∀ f v, Slot.known f v ∈ m →
      Steps (readField S .lossless depth t) [] (Value.records f v) [.known f v])
    (hstays : ∀ n p, Slot.unknown n p ∈ m → Stays S depth t n p) :
    Steps (readField S .lossless depth t) [] (Value.recordsOf m) m := by
  have hall : ∀ done rest : Message, m = done ++ rest →
      Steps (readField S .lossless depth t) done (Value.recordsOf rest) m := by
    intro done rest
    induction rest generalizing done with
    | nil =>
      rintro rfl
      rw [List.append_nil, Value.recordsOf]
      exact .nil _
    | cons s rest ih =>
      rintro rfl
      have hmem : s ∈ done ++ s :: rest := List.mem_append_right _ List.mem_cons_self
      have hbefore : ∀ r ∈ done, s.before r = false := by
        intro r hr
        simpa using (List.pairwise_append.mp hm.sorted).2.2 r hr s List.mem_cons_self
      have hone : Steps (readField S .lossless depth t) done (Value.slotRecords s)
          (done ++ [s]) := by
        cases s with
        | known f v =>
          have hf : S.field? t f.number = some f := hm.declared f v hmem
          have hbehind : Behind f done := by
            refine ⟨fun r hrd => ?_, fun r hrd => hr f v hmem r (List.mem_append_left _ hrd),
              fun w r hrd => ?_⟩
            · by_contra hholds
              have hnumber := Slot.number_of_holds (by simpa using hholds : r.holds f = true)
              have hnone := (List.pairwise_append.mp hm.apart).2.2 r hrd _ List.mem_cons_self
                hnumber.symm
              rw [hnumber, hf] at hnone
              cases hnone
            · rw [← hbefore r hrd]
              exact (before_congr rfl rfl).1
          have hsteps := Steps.behind hf hbehind (Value.number_of_mem_records f v) (by simp)
            (hknown f v hmem)
          rwa [List.append_nil] at hsteps
        | unknown n p =>
          have hstay := hstays n p hmem
          have hnone := hm.slot hmem
          rw [Slot.Shaped] at hnone
          rw [Value.slotRecords, ← insert_of_forall_not hbefore]
          exact .cons hstay.inRange (hstay.takes hnone done) (.nil _)
      rw [Value.recordsOf]
      exact hone.append (ih (done ++ [s]) (by rw [List.append_assoc]; rfl))
  exact hall [] m rfl

end Behind

end DescriptorKit.Message
