import DescriptorKit.Proofs.Message.Change
import DescriptorKit.Proofs.Mirror

/-!
Options of messages, set by a schema that agrees with another one, and what a typed reader of the
other schema makes of them.
-/
namespace DescriptorKit.Message
open Wire Payload

variable {S B : Schema} {t u v : MessageType} {f g o : Field} {m m' k' : Message} {s : Scalar}
  {w : Value} {n depth : Nat} {a : Breach} {b : SetFault → Breach}

/-- Setting a field leaves its slot alone under the number. -/
theorem only_set_one (hm : Shaped S t m) (hf : S.field? t n = some f) (ho : f.oneof = none)
    (hv : f.presence = true ∨ w.isZero = false) : (m.set f w).only n = [.known f w] := by
  have hz : (!f.presence && w.isZero) = false := by
    rcases hv with hv | hv <;> simp [hv]
  rw [only_set hm.sorted ho (Schema.field?_number hf)]
  rcases only_of_shaped hf hm with h | ⟨old, h⟩
  · rw [h, set]
    simp [hz, get?, insert]
  · have hr : (Slot.known f old).rivals f = false := Slot.rivals_eq_false ho _
    rw [h, set]
    simp [hz, hr, get?, replace, Slot.holds_known]

theorem only_set_other (hs : m.Sorted) (ho : f.oneof = none) (hn : f.number ≠ n) :
    (m.set f w).only n = m.only n :=
  only_set_ne hs (fun s _ _ => Slot.rivals_eq_false ho s) hn w

theorem default_of_message {type : String} (hk : f.kind = .message type) (hf : f.Regular)
    (hr : f.repeated = false) : S.default f = .message [] := by
  unfold Schema.default
  rw [hr, if_neg Bool.false_ne_true]
  have hnone : S.scalarDefault? f = none := by
    unfold Schema.scalarDefault?
    cases hd : f.declaredDefault with
    | none =>
      rw [hk]
      rfl
    | some d =>
      have hfit := hf.default_fits d hd
      rw [hk] at hfit
      cases hfit
  rw [hnone]

/-- What a field of a single message holds. -/
theorem get_of_holds (hm : Shaped S t m) (hf : Holds S t n f u) (hreg : f.Regular)
    (hr : f.repeated = false) : ∃ inner, m.get S f = .message inner ∧ Shaped S u inner ∧
      (m.only n = [] ∧ inner = [] ∨ m.only n = [.known f (.message inner)]) := by
  obtain ⟨type, hk⟩ := hf.kind
  have hn : f.number = n := Schema.field?_number hf.field
  rcases only_of_shaped hf.field hm with h | ⟨old, h⟩
  · refine ⟨[], ?_, .nil, Or.inl ⟨h, rfl⟩⟩
    rw [Message.get, ← get?_only hn m, h]
    exact default_of_message hk hreg hr
  · have hmem : Slot.known f old ∈ m := (mem_only_iff.mp (h ▸ List.mem_singleton_self _)).1
    have hshaped := hm.value hmem
    rw [hr] at hshaped
    cases old with
    | scalar s =>
      rw [Value.Shaped, hk] at hshaped
      cases hshaped.2
    | many vs =>
      rw [Value.Shaped] at hshaped
      cases hshaped.1
    | message inner =>
      rw [Value.Shaped, hf.map, hf.type] at hshaped
      obtain ⟨-, h' | ⟨u', hu, hin⟩⟩ := hshaped
      · cases h'
      · obtain rfl := Option.some.inj hu
        refine ⟨inner, ?_, hin, Or.inr h⟩
        rw [Message.get, ← get?_only hn m, h, get?, if_pos (Slot.holds_known f _)]
        rfl

theorem get_touch_message {k : Message} (h : m.get S f = .message k) :
    (m.touch S f).get S f = .message k := by
  rw [touch, h, Message.get, get?_set_eq]
  simp [Value.isZero]

theorem get_touch_many {vs : List Value} (hr : f.repeated = true) (h : m.get S f = .many vs) :
    (m.touch S f).get S f = .many vs := by
  rw [touch, h, Message.get, get?_set_eq]
  split
  · rename_i hz
    simp only [Value.isZero, Bool.and_eq_true, List.isEmpty_iff] at hz
    rw [hz.2, Schema.default, if_pos hr]
    rfl
  · rfl

/-- Messages of a type have options, in which there is a field. -/
structure HasOption (B : Schema) (u : MessageType) (o : Field) (v : MessageType) (g : Field) :
    Prop where
  options : Holds B u o.number o v
  options_named : u.fieldNamed? "options" = some o
  options_single : o.repeated = false
  option : Plain B v g.number g
  option_named : v.fieldNamed? g.name = some g
  option_single : g.repeated = false
  presence : g.presence = true
  calm : ∀ n, Calm B u n
  calm_options : ∀ n, Calm B v n
  required : ∀ f ∈ v.fields, f.required = false

/-- A field `f` of options, in the type `w`, has them changed in a field `x` of theirs. -/
structure OptionSet (S B : Schema) (t v : MessageType) (o g : Field) (s : Scalar) (m m' : Message)
    (f : Field) (w : MessageType) (x : Field) (options : Message) : Prop where
  named : t.fieldNamed? "options" = some f
  holds : Holds S t o.number f w
  same : f.Same o
  counterpart : Schema.Counterpart S B w v
  option_named : w.fieldNamed? g.name = some x
  plain : Plain S w g.number x
  option_same : x.Same g
  fits : s.Fits x.kind
  shaped : Shaped S w options
  get : m.get S f = .message options
  before : m.only o.number = [] ∧ options = [] ∨ m.only o.number = [.known f (.message options)]
  after : m'.only o.number = [.known f (.message (Message.set x (.scalar s) options))]

/-- What setting an option does to a message. -/
structure SetsOption (S B : Schema) (t v : MessageType) (o g : Field) (s : Scalar)
    (m m' : Message) : Prop where
  shaped : Shaped S t m'
  others : ∀ n, n ≠ o.number → m'.only n = m.only n
  exists_options : ∃ f w x options, OptionSet S B t v o g s m m' f w x options

theorem setOption_shaped (hM : S.Mirrors B) (hS : S.Regular)
    (hc : Schema.Counterpart S B t u) (ho : HasOption B u o v g) (hm : Shaped S t m) :
    Shaped S t (m.setOption S t g.name s a b).1 ∧
      ((m.setOption S t g.name s a b).2 = .ok () →
        SetsOption S B t v o g s m (m.setOption S t g.name s a b).1) := by
  rw [setOption]
  cases hf : t.fieldNamed? "options" with
  | none => exact ⟨hm, fun h => by cases h⟩
  | some f =>
    obtain ⟨hfield, hsame⟩ := hM.same_of_named hS hc hf ho.options.field ho.options_named
    obtain ⟨w, hw, hcw⟩ := hM.holds hc ho.options hfield
    have hreg : f.Regular := hS.field hc.left hfield
    have hr : f.repeated = false := hsame.repeated.trans ho.options_single
    have hself : S.field? t f.number = some f := hsame.number ▸ hfield
    obtain ⟨options, hget, hin, honly⟩ := get_of_holds hm hw hreg hr
    have hput : ∀ {k : Message} (x : Message), Shaped S t k → Shaped S w x →
        Shaped S t (k.set f (.message x)) := by
      intro k x hk hx
      refine hk.set hself ?_
      rw [Value.Shaped, hr]
      exact ⟨rfl, Or.inr ⟨w, hw.type, hx⟩⟩
    have htouch : Shaped S t (m.touch S f) := by
      rw [touch, hget]
      exact hput options hm hin
    dsimp only
    rw [get_touch_message hget, hw.type]
    dsimp only
    rw [setNamed]
    cases hx : w.fieldNamed? g.name with
    | none => exact ⟨htouch, fun h => by cases h⟩
    | some x =>
      obtain ⟨hxfield, hxsame⟩ := hM.same_of_named hS hcw hx ho.option.field ho.option_named
      dsimp only
      by_cases hfit : (Value.scalar s).fits x = true
      · rw [if_pos hfit]
        have hplain := hM.plain hcw ho.option hxfield
        have hset : Shaped S w (Message.set x (.scalar s) options) := by
          refine hin.set (hxsame.number ▸ hxfield) ?_
          rw [Value.Shaped, hxsame.repeated, ho.option_single]
          exact ⟨rfl, Value.fits_of_fits hfit⟩
        have hshaped := hput _ htouch hset
        refine ⟨hshaped, fun _ => ⟨hshaped, fun n hn => ?_, f, w, x, options, hf, hw, hsame, hcw,
          hx, hplain, hxsame, Value.fits_of_fits hfit, hin, hget, honly, ?_⟩⟩
        · have hne : f.number ≠ n := hsame.number ▸ hn.symm
          rw [only_set_other htouch.sorted hsame.oneof hne, touch,
            only_set_other hm.sorted hsame.oneof hne]
        · exact only_set_one htouch hfield hsame.oneof (Or.inr (by simp [Value.isZero]))
      · rw [if_neg hfit]
        exact ⟨htouch, fun h => by cases h⟩

section Size

variable {rs : List (Nat × Payload)} {p : Payload}

theorem length_delimited_le {x : Bytes} (h : (n, Payload.delimited x) ∈ rs) :
    x.length ≤ (encodeAll rs).length := by
  have hle := length_body_le h
  rw [body, encodeDelimited, List.length_append] at hle
  omega

/-- The messages in a field can be written with their lengths. -/
def Sized (n : Nat) (m : Message) : Prop :=
  ∀ b, (n, Payload.delimited b) ∈ Value.recordsOf m → b.length < 2 ^ 64

theorem sized_of_length (hS : S.Regular) (ht : t ∈ S.messages) (hm : Shaped S t m)
    (h : (Value.encodeSlots m).length < 2 ^ 64) (n : Nat) : Sized n m := by
  intro b hb
  rw [Value.encodeSlots_eq_records hS t ht m hm.typed] at h
  exact Nat.lt_of_le_of_lt (length_delimited_le hb) h

end Size

section Reads

variable {w : MessageType} {x : Field}

theorem length_only_le (hS : S.Regular) (ht : t ∈ S.messages) (hm : Shaped S t m)
    {r : Nat × Payload} (h : r ∈ Value.recordsOf (m.only n)) :
    (r.2.body r.1).length ≤ (Value.encodeSlots m).length := by
  rw [Value.encodeSlots_eq_records hS t ht m hm.typed]
  exact length_body_le (Value.mem_recordsOf_only.mp h).1

/-- Where a message with a scalar set can be read, so can the message before, and the scalar is
found again. -/
theorem set_reads (hS : S.Regular) (hc : Schema.Counterpart S B w v) (hx : Plain S w n x)
    (hsame : x.Same g) (hg : Plain B v n g) (hr : g.repeated = false) (hp : g.presence = true)
    (hcalm : ∀ n, Calm B v n) (hs : s.Fits x.kind) (hm : Shaped S w m)
    (hsize : (Value.encodeSlots m).length < 2 ^ 64)
    (h : Fills B .typed depth v [] (Value.encodeSlots (Message.set x (.scalar s) m)) k') :
    (∃ k, Fills B .typed depth v [] (Value.encodeSlots m) k) ∧ k'.get? g = some (.scalar s) := by
  have hxn : x.number = n := Schema.field?_number hx.field
  have hgn : g.number = n := Schema.field?_number hg.field
  have hxr : x.repeated = false := hsame.repeated.trans hr
  have hshaped : Shaped S w (Message.set x (.scalar s) m) := by
    refine hm.set (hxn ▸ hx.field) ?_
    rw [Value.Shaped, hxr]
    exact ⟨rfl, hs⟩
  have hread := (fills_encode_iff hS hc.left hshaped.typed).mp h
  have honly := fun j => steps_message_only (hcalm j) hread
  have hone := honly n
  rw [only_set_one hm hx.field hsame.oneof (Or.inl (hsame.presence.trans hp)), Value.recordsOf,
    Value.recordsOf, List.append_nil, Value.slotRecords, Value.records] at hone
  generalize hkn : k'.only n = kn at hone
  cases hone with
  | @cons _ b _ _ _ _ hrange htakes hsteps =>
    cases hsteps
    rw [hxn] at hrange htakes
    obtain ⟨vs, htold, rfl⟩ := (readField_iff_told hg).mp htakes
    rw [hsame.kind] at htold hs
    obtain rfl := told_payload hg.single hs htold
    constructor
    · suffices hk : ∃ k, Steps (readField B .typed depth v) [] (Value.recordsOf m) k by
        obtain ⟨k, hk⟩ := hk
        exact ⟨k, (fills_encode_iff hS hc.left hm.typed).mpr hk⟩
      refine exists_steps_message hcalm fun j => ?_
      by_cases hj : x.number = j
      · obtain rfl : n = j := hxn.symm.trans hj
        rcases only_of_shaped hx.field hm with ho | ⟨old, ho⟩
        · rw [ho, Value.recordsOf]
          exact ⟨[], .nil []⟩
        · have hmem : Slot.known x old ∈ m := (mem_only_iff.mp (ho ▸ List.mem_singleton_self _)).1
          have hold := hm.value hmem
          rw [hxr] at hold
          obtain ⟨s₀, rfl, hs₀⟩ := exists_scalar_of_shaped hx hold
          have hrec : Value.recordsOf (m.only n) = [(n, s₀.payload x.kind)] := by
            rw [ho, Value.recordsOf, Value.recordsOf, List.append_nil, Value.slotRecords,
              Value.records, hxn]
          have hmem : (n, s₀.payload x.kind) ∈ Value.recordsOf (m.only n) :=
            hrec ▸ List.mem_singleton_self _
          have hlen : ((s₀.payload x.kind).body n).length < 2 ^ 64 :=
            Nat.lt_of_le_of_lt (length_only_le hS hc.left hm hmem) hsize
          rw [hrec]
          rw [hsame.kind] at hs₀ hlen ⊢
          exact ⟨_, .cons hrange ((readField_iff_told hg).mpr
            ⟨_, told_of_fits hg.single hs₀ hlen, rfl⟩) (.nil _)⟩
      · exact ⟨k'.only j, only_set_other hm.sorted hsame.oneof hj ▸ honly j⟩
    · rw [← get?_only hgn k', hkn, put, hr]
      exact get?_set (Or.inl hp) []

theorem recordsOf_message {inner : Message} {type : String} (hk : f.kind = .message type) :
    Value.recordsOf [.known f (.message inner)] =
      [(f.number, .delimited (Value.encodeSlots inner))] := by
  rw [Value.recordsOf, Value.recordsOf, List.append_nil, Value.slotRecords, Value.records, hk]

/-- What a typed reader makes of a message before and after an option was set: the same but for the
options, which hold the scalar. -/
theorem SetsOption.reads (h : SetsOption S B t v o g s m m') (hS : S.Regular)
    (ho : HasOption B u o v g) (hsize : Sized o.number m)
    (hk : Steps (readField B .typed depth u) [] (Value.recordsOf m') k') :
    ∃ k, Steps (readField B .typed depth u) [] (Value.recordsOf m) k ∧
      (∀ n, n ≠ o.number → k'.only n = k.only n) ∧
        ∃ inner, k'.get? o = some (.message inner) ∧
          Message.get? g inner = some (.scalar s) := by
  obtain ⟨-, hothers, f, w, x, options, -, hf, hsame, hcw, -, hx, hxsame, hfit, hshaped, -, hold,
    hnew⟩ := h
  obtain ⟨type, hkind⟩ := hf.kind
  have honly := fun n => steps_message_only (ho.calm n) hk
  have hone := honly o.number
  rw [hnew, recordsOf_message hkind, hsame.number] at hone
  obtain ⟨hrange, inner, ⟨d, b, rfl, hb, hlen, hfills⟩, hk'⟩ :=
    (steps_one_iff ho.options ho.options_single).mp hone
  obtain rfl := Payload.delimited.inj hb
  have hfinish : finish B .typed v inner = inner := finish_of_none ho.required inner
  have hlength : m.only o.number = [.known f (.message options)] →
      (Value.encodeSlots options).length < 2 ^ 64 := by
    intro ho'
    have hin : (o.number, Payload.delimited (Value.encodeSlots options)) ∈
        Value.recordsOf (m.only o.number) := by
      rw [ho', recordsOf_message hkind, hsame.number]
      exact List.mem_singleton_self _
    exact hsize _ (Value.mem_recordsOf_only.mp hin).1
  have hlen' : (Value.encodeSlots options).length < 2 ^ 64 := by
    rcases hold with ⟨-, rfl⟩ | ho'
    · rw [Value.encodeSlots]
      exact Nat.two_pow_pos 64
    · exact hlength ho'
  obtain ⟨⟨y, hy⟩, hscalar⟩ := set_reads hS hcw hx hxsame ho.option ho.option_single ho.presence
    ho.calm_options hfit hshaped hlen' hfills
  have hread : ∀ n, ∃ k, Steps (readField B .typed (d + 1) u) []
    (Value.recordsOf (m.only n)) k := by
    intro n
    by_cases hn : n = o.number
    · subst hn
      rcases hold with ⟨ho', -⟩ | ho'
      · rw [ho', Value.recordsOf]
        exact ⟨[], .nil []⟩
      · rw [ho', recordsOf_message hkind, hsame.number]
        exact ⟨_, (steps_one_iff ho.options ho.options_single).mpr
          ⟨hrange, y, ⟨d, _, rfl, rfl, hlen', hy⟩, rfl⟩⟩
    · rw [← hothers n hn]
      exact ⟨_, honly n⟩
  obtain ⟨k, hk⟩ := exists_steps_message ho.calm hread
  refine ⟨k, hk, fun n hn => ?_, inner, ?_, hscalar⟩
  · have hkn := steps_message_only (ho.calm n) hk
    rw [← hothers n hn] at hkn
    exact (honly n).unique hkn
  · rw [← get?_only rfl k', hk', hfinish, get?, if_pos (Slot.holds_known o _)]

end Reads

end DescriptorKit.Message
