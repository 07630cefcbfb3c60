import DescriptorKit.Message.Encode
import DescriptorKit.Proofs.Message.Only

/-!
Messages of a schema: every slot is of a field that the schema declares for its number, and holds
what a field of that kind can hold. Such messages are written record by record.
-/
namespace DescriptorKit
open Wire

mutual

/-- A field can hold the value: as a single one, or as many. The entries of a map are not looked
into. -/
def Value.Shaped (S : Schema) (f : Field) (single : Bool) : Value → Prop
  | .scalar s => single = true ∧ s.Fits f.kind
  | .message m => single = true ∧
      (f.map = true ∨ ∃ t, S.messageOf? f = some t ∧ Message.Shaped S t m)
  | .many vs => single = false ∧ Value.AllShaped S f vs

def Value.AllShaped (S : Schema) (f : Field) : List Value → Prop
  | [] => True
  | v :: vs => Value.Shaped S f true v ∧ Value.AllShaped S f vs

/-- A message of the type can have the slot. -/
def Slot.Shaped (S : Schema) (t : MessageType) : Slot → Prop
  | .known f v => S.field? t f.number = some f ∧ (f.presence = true ∨ v.isZero = false) ∧
      Value.Shaped S f (!f.repeated) v
  | .unknown n _ => S.field? t n = none

/-- A message of the type can have the slots: they are in order, and a declared field has one at
most. -/
def Message.Shaped (S : Schema) (t : MessageType) : List Slot → Prop
  | [] => True
  | s :: m => Slot.Shaped S t s ∧
      (∀ r ∈ m, ¬ r.before s ∧ (r.number = s.number → S.field? t s.number = none)) ∧
        Message.Shaped S t m

end

namespace Value

variable {S : Schema} {f : Field} {vs ws : List Value} {v : Value}

theorem allShaped_iff : AllShaped S f vs ↔ ∀ v ∈ vs, Shaped S f true v := by
  induction vs with
  | nil => simp [AllShaped]
  | cons v vs ih => simp [AllShaped, ih]

theorem shaped_of_fits {b : Bool} (h : ∃ s, v = .scalar s ∧ s.Fits f.kind) (hb : b = true) :
    Shaped S f b v := by
  obtain ⟨s, rfl, hs⟩ := h
  rw [Shaped]
  exact ⟨hb, hs⟩

end Value

namespace Message

variable {S : Schema} {t : MessageType} {f : Field} {m : Message} {v : Value} {s : Slot} {n : Nat}

/-- Of two slots with one number, neither is for a declared field. -/
def Apart (S : Schema) (t : MessageType) (m : Message) : Prop :=
  m.Pairwise fun a b => b.number = a.number → S.field? t a.number = none

theorem shaped_iff : Shaped S t m ↔ (∀ s ∈ m, s.Shaped S t) ∧ m.Sorted ∧ Apart S t m := by
  induction m with
  | nil => simp [Shaped, Sorted, Apart]
  | cons s m ih =>
    have ho : Sorted (s :: m) ↔ (∀ r ∈ m, ¬ r.before s) ∧ Sorted m := List.pairwise_cons
    have ha : Apart S t (s :: m) ↔
        (∀ r ∈ m, r.number = s.number → S.field? t s.number = none) ∧ Apart S t m :=
      List.pairwise_cons
    rw [Shaped, ih, ho, ha, List.forall_mem_cons]
    constructor
    · rintro ⟨hs, hr, hm, ho, ha⟩
      exact ⟨⟨hs, hm⟩, ⟨fun r h => (hr r h).1, ho⟩, fun r h => (hr r h).2, ha⟩
    · rintro ⟨⟨hs, hm⟩, ⟨hr, ho⟩, ha, has⟩
      exact ⟨hs, fun r h => ⟨hr r h, ha r h⟩, hm, ho, has⟩

theorem Shaped.slot (h : Shaped S t m) (hs : s ∈ m) : s.Shaped S t := (shaped_iff.mp h).1 s hs

theorem Shaped.sorted (h : Shaped S t m) : m.Sorted := (shaped_iff.mp h).2.1

theorem Shaped.apart (h : Shaped S t m) : Apart S t m := (shaped_iff.mp h).2.2

theorem Shaped.declared (h : Shaped S t m) : Declared S t m := by
  intro f v hf
  have := h.slot hf
  rw [Slot.Shaped] at this
  exact this.1

theorem Shaped.made (h : Shaped S t m) : Made S t m := ⟨h.sorted, h.declared⟩

theorem Shaped.value (h : Shaped S t m) (hf : Slot.known f v ∈ m) :
    Value.Shaped S f (!f.repeated) v := by
  have := h.slot hf
  rw [Slot.Shaped] at this
  exact this.2.2

theorem field?_unique (h : Declared S t m) (hf : S.field? t f.number = some f)
    (hs : s ∈ m) (hh : s.holds f) : ∃ v, s = .known f v := by
  cases s with
  | known g v =>
    have hg := h g v hs
    rw [show g.number = f.number from Slot.number_of_holds hh, hf] at hg
    obtain rfl := Option.some.inj hg
    exact ⟨v, rfl⟩
  | unknown n p => cases hh

theorem Shaped.get? (h : Shaped S t m) (hf : S.field? t f.number = some f)
    (hv : m.get? f = some v) : Slot.known f v ∈ m := by
  obtain ⟨g, hm, hg⟩ := mem_of_get? hv
  obtain ⟨w, hw⟩ := field?_unique h.declared hf hm hg
  obtain ⟨rfl, -⟩ := Slot.known.inj hw
  exact hm

theorem Shaped.sublist {k : Message} (h : Shaped S t m) (hk : k.Sublist m) : Shaped S t k :=
  shaped_iff.mpr ⟨fun _ hs => h.slot (hk.subset hs), h.sorted.sublist hk, h.apart.sublist hk⟩

theorem Shaped.insert (h : Shaped S t m) (hs : s.Shaped S t)
    (hn : ∀ r ∈ m, r.number = s.number → S.field? t s.number = none) :
    Shaped S t (m.insert s) := by
  refine shaped_iff.mpr ⟨fun r hr => ?_, h.sorted.insert s, ?_⟩
  · rcases mem_insert_iff.mp hr with rfl | hr
    · exact hs
    · exact h.slot hr
  · have hperm : (m.insert s).Perm (s :: m) := insert_perm s m
    refine (hperm.pairwise_iff ?_).mpr (List.pairwise_cons.mpr ⟨hn, h.apart⟩)
    intro a b hab he
    rw [← he]
    exact hab he.symm

theorem Shaped.replace (h : Shaped S t m) (hs : (m.get? f).isSome)
    (hv : Slot.Shaped S t (.known f v)) :
    Shaped S t (m.replace f v) := by
  refine shaped_iff.mpr ⟨fun r hr => ?_, h.sorted.replace hs v, ?_⟩
  · rcases mem_replace hr with rfl | hr
    · exact hv
    · exact h.slot hr
  · obtain ⟨before, g, w, after, rfl, hg, -, -, hrep⟩ := replace_eq_append hs v
    have hn : g.number = f.number := Slot.number_of_holds hg
    have ha := h.apart
    rw [hrep]
    unfold Apart at *
    rw [List.pairwise_append, List.pairwise_cons] at ha ⊢
    obtain ⟨hb, ⟨hga, ha⟩, hba⟩ := ha
    refine ⟨hb, ⟨fun r hr he => ?_, ha⟩, fun a ha r hr => ?_⟩
    · have := hga r hr (he.trans hn.symm)
      rwa [show (Slot.known g w).number = f.number from hn] at this
    rcases List.mem_cons.mp hr with rfl | hr
    · exact fun he => hba a ha (.known g w) (by simp) (hn.trans he)
    · exact hba a ha r (by simp [hr])

/-- Setting a field to a value that it can hold. -/
theorem Shaped.set (h : Shaped S t m) (hf : S.field? t f.number = some f)
    (hv : Value.Shaped S f (!f.repeated) v) : Shaped S t (m.set f v) := by
  have hsub : Shaped S t (m.filter fun s => !s.rivals f) := h.sublist List.filter_sublist
  unfold Message.set
  dsimp only
  split
  · exact hsub.sublist List.filter_sublist
  · rename_i hp
    have hslot : Slot.Shaped S t (.known f v) := by
      rw [Slot.Shaped]
      refine ⟨hf, ?_, hv⟩
      cases hpr : f.presence
      · right
        simpa [hpr] using hp
      · exact Or.inl rfl
    split
    · rename_i hs
      exact hsub.replace hs hslot
    · rename_i hs
      refine hsub.insert hslot fun r hr he => ?_
      have he' : r.number = f.number := he
      cases r with
      | known g w =>
        have hg := hsub.declared g w hr
        rw [show g.number = f.number from he', hf] at hg
        obtain rfl := Option.some.inj hg
        exact absurd (get?_isSome_iff.mpr ⟨_, hr, Slot.holds_known f w⟩) hs
      | unknown k p =>
        have hu := hsub.slot hr
        rw [Slot.Shaped, show k = f.number from he', hf] at hu
        cases hu

theorem Shaped.nil : Shaped S t [] := by
  rw [Shaped]
  trivial

theorem Shaped.valuesOf (h : Shaped S t m) (hf : S.field? t f.number = some f)
    (hr : f.repeated = true) : ∀ v ∈ m.valuesOf f, Value.Shaped S f true v := by
  intro v hv
  rw [Message.valuesOf] at hv
  cases hg : m.get? f with
  | none =>
    rw [hg] at hv
    cases hv
  | some u =>
    have hu := h.value (h.get? hf hg)
    rw [hr] at hu
    rw [hg] at hv
    cases u with
    | many vs =>
      rw [Value.Shaped] at hu
      exact Value.allShaped_iff.mp hu.2 v hv
    | scalar s => cases hv
    | message k => cases hv

theorem Shaped.setMany (h : Shaped S t m) (hf : S.field? t f.number = some f)
    (hr : f.repeated = true) {vs : List Value} (hv : ∀ v ∈ vs, Value.Shaped S f true v) :
    Shaped S t (m.set f (.many vs)) := by
  refine h.set hf ?_
  rw [Value.Shaped, hr]
  exact ⟨rfl, Value.allShaped_iff.mpr hv⟩

theorem Shaped.add (h : Shaped S t m) (hf : S.field? t f.number = some f) (hreg : f.Regular)
    (hv : Value.Shaped S f true v) : Shaped S t (m.add S f v) := by
  unfold Message.add
  split
  · rename_i hmap _
    have hr := hreg.repeated_of_map hmap
    refine h.setMany hf hr fun u hu => ?_
    rcases List.mem_append.mp hu with hu | hu
    · exact h.valuesOf hf hr u (List.mem_filter.mp hu).1
    · obtain rfl := List.mem_singleton.mp hu
      rw [Value.Shaped]
      exact ⟨rfl, Or.inl hmap⟩
  · split
    · rename_i hr
      refine h.setMany hf hr fun u hu => ?_
      rcases List.mem_append.mp hu with hu | hu
      · exact h.valuesOf hf hr u hu
      · obtain rfl := List.mem_singleton.mp hu
        exact hv
    · rename_i hr
      refine h.set hf ?_
      simpa [hr] using hv

theorem Shaped.startOf {t' : MessageType} (h : Shaped S t m) (hf : S.field? t f.number = some f)
    (ht : S.messageOf? f = some t') : Shaped S t' (startOf f m) := by
  unfold Message.startOf
  split
  · exact .nil
  · rename_i hn
    simp only [Bool.or_eq_true, not_or, Bool.not_eq_true] at hn
    cases hg : m.get? f with
    | none => exact .nil
    | some u =>
      have hu := h.value (h.get? hf hg)
      cases u with
      | message k =>
        rw [Value.Shaped] at hu
        rcases hu.2 with hm | ⟨t'', ht'', hk⟩
        · simp [hn.1] at hm
        · rw [ht] at ht''
          obtain rfl := Option.some.inj ht''
          exact hk
      | scalar s => exact .nil
      | many vs => exact .nil

end Message

/-- Defaults of required fields can stand in them. -/
def Schema.Fills (S : Schema) : Prop :=
  ∀ t ∈ S.messages, ∀ f ∈ t.fields, f.required = true → S.field? t f.number = some f ∧
    f.repeated = false ∧ ∃ s, S.default f = .scalar s ∧ s.Fits f.kind

namespace Message

section Reading

variable {S : Schema} {t : MessageType} {f : Field} {m m' : Message} {reading : Reading}
  {nested : Nested} {w : WireType} {x bytes : Bytes} {n depth : Nat} {P : Message → Prop}
  {step : Message → Nat → WireType → Cursor → Except Failure (Message × Cursor)}

theorem record_takes_inv (hl : ∀ a n w, Local (step a n w)) (h : Takes (record step m) x m') :
    ∃ k y n w, x = k ++ y ∧ Takes Cursor.key k (n, w) ∧ Takes (step m n w) y m' := by
  have hr := h []
  rw [record_eq] at hr
  cases hk : Cursor.key (.ofBytes (x ++ [])) with
  | error f =>
    rw [hk] at hr
    cases hr
  | ok r =>
    obtain ⟨k, y, he, hc, hkey⟩ := Cursor.key_local _ r.1 r.2 hk
    rw [hk] at hr
    change step m r.1.1 r.1.2 r.2 = _ at hr
    rw [List.append_nil] at he
    rw [hc] at hr
    obtain ⟨z, z', rfl, hz, ht⟩ := hl m r.1.1 r.1.2 y m' _ hr
    obtain rfl := ofBytes_inj hz
    exact ⟨k, z, r.1.1, r.1.2, by simpa using he, hkey, ht⟩

/-- What every step keeps, all of them keep. -/
theorem Runs.keeps (hl : ∀ a n w, Local (step a n w))
    (hs : ∀ a n w x b, Takes (step a n w) x b → P a → P b) (h : Runs (record step) m x m')
    (hm : P m) : P m' := by
  induction h with
  | nil => exact hm
  | cons h _ ih =>
    obtain ⟨k, y, n, w, -, -, ht⟩ := record_takes_inv hl h
    exact ih (hs _ n w y _ ht hm)

theorem Makes.keeps (hl : ∀ a n w, Local (step a n w))
    (hs : ∀ a n w x b, Takes (step a n w) x b → P a → P b) (h : Makes step n m w x m')
    (hm : P m) : P m' := by
  cases h with
  | delimited _ h => exact Runs.keeps hl hs h hm
  | group h =>
    induction h with
    | stop => exact hm
    | cons _ _ h _ ih => exact ih (hs _ _ _ _ _ h hm)

theorem Shaped.fillRequired (hF : S.Fills) (ht : t ∈ S.messages) (h : Shaped S t m) :
    Shaped S t (fillRequired S t m) := by
  refine fillRequired_induction h fun k f hk hf hr _ => ?_
  obtain ⟨hfield, hrep, s, hd, hfit⟩ := hF t ht f hf hr
  refine hk.set hfield ?_
  rw [hd, hrep, Value.Shaped]
  exact ⟨rfl, hfit⟩

theorem Shaped.finish (hF : reading = .typed → S.Fills) (ht : t ∈ S.messages)
    (h : Shaped S t m) : Shaped S t (finish S reading t m) := by
  unfold Message.finish
  split
  · rename_i hr
    exact h.fillRequired (hF hr) ht
  · exact h

theorem Reads.shaped (hS : S.Regular) (hF : reading = .typed → S.Fills)
    (hn : ∀ s, nested.message = some s → StepLocal s)
    (hnested : ∀ s, nested.message = some s → ∀ t ∈ S.messages, ∀ a n w x b,
      Takes (s t a n w) x b → Shaped S t a → Shaped S t b)
    (ht : t ∈ S.messages) (h : Reads S reading depth nested t m n w x m')
    (hm : Shaped S t m) : Shaped S t m' := by
  cases h with
  | @known f m' hf h =>
    have hreg := hS.field ht hf
    rw [← Schema.field?_number hf] at hf
    cases h with
    | single hk hr h =>
      have hv := fits_of_readScalar hk (h [])
      exact hm.set hf (Value.shaped_of_fits hv (by simp [hr]))
    | more hk hr hp h =>
      have hv := fits_of_readScalar hk (h [])
      exact hm.add hf hreg (Value.shaped_of_fits hv rfl)
    | packed hk hr hp hl h =>
      refine hm.setMany hf hr fun v hv => ?_
      rcases List.mem_append.mp hv with hv | hv
      · exact hm.valuesOf hf hr v hv
      · refine Value.shaped_of_fits ?_ rfl
        exact (fits_of_runs hk h v (List.mem_reverse.mp hv)).resolve_left (by simp)
    | @nested x t' step inner ht' hs h =>
      unfold putNested
      split
      · rename_i hmap
        refine hm.add hf hreg ?_
        rw [Value.Shaped]
        exact ⟨rfl, Or.inl hmap⟩
      · rename_i hmap
        rw [if_neg hmap] at hs
        have ht'' := Schema.mem_of_messageOf? ht'
        have hinner : Shaped S t' inner := h.keeps (hn step hs t')
          (hnested step hs t' ht'') (hm.startOf hf ht')
        have hfin := hinner.finish hF ht''
        split
        · refine hm.add hf hreg ?_
          rw [Value.Shaped]
          exact ⟨rfl, Or.inr ⟨t', ht', hfin⟩⟩
        · rename_i hr
          refine hm.set hf ?_
          rw [Value.Shaped]
          exact ⟨by simp [hr], Or.inr ⟨t', ht', hfin⟩⟩
  | unknown hf h =>
    split
    · exact hm
    · refine hm.insert ?_ fun r _ _ => hf
      rw [Slot.Shaped]
      exact hf

/-- Whatever bytes are read, the message is one of its type. -/
theorem readField_shaped (hS : S.Regular) (hF : reading = .typed → S.Fills) (ht : t ∈ S.messages)
    (h : Takes (readField S reading depth t m n w) x m') (hm : Shaped S t m) :
    Shaped S t m' := by
  induction depth generalizing t m n w x m' with
  | zero =>
    exact (readField_takes_iff.mp h).shaped hS hF (by simp [nestedAt]) (by simp [nestedAt]) ht hm
  | succ depth ih =>
    refine (readField_takes_iff.mp h).shaped hS hF (nestedAt_good S reading (depth + 1)).1
      (fun s hs t ht a n w x b h ha => ?_) ht hm
    obtain rfl := Option.some.inj hs
    exact ih ht h ha

theorem Fills.shaped (hS : S.Regular) (hF : reading = .typed → S.Fills) (ht : t ∈ S.messages)
    (h : Fills S reading depth t m x m') (hm : Shaped S t m) : Shaped S t m' :=
  Runs.keeps (readField_local S reading depth t)
    (fun _ _ _ _ _ h => readField_shaped hS hF ht h) h hm

theorem decode_shaped (hS : S.Regular) (hF : reading = .typed → S.Fills) (ht : t ∈ S.messages)
    (h : decode S reading t bytes = .ok m) : Shaped S t m := by
  obtain ⟨m, hf, rfl⟩ := decode_eq_ok_iff.mp h
  exact (hf.shaped hS hF ht .nil).finish hF ht

end Reading

end Message
end DescriptorKit
