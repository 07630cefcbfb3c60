import DescriptorKit.Proofs.Message.Option

/-!
Changes along a path. The message that a path leads to stands in a list, and the change puts another
one in its place there.
-/
namespace DescriptorKit.Message
open Wire Payload

variable {S B : Schema} {t u v : MessageType} {f g : Field} {m m' k' : Message} {n depth : Nat}
  {number : Int32}

/-- What a field of many messages holds. -/
theorem get_of_holds_many (hm : Shaped S t m) (hf : Holds S t n f u) (hr : f.repeated = true) :
    ∃ vs, m.get S f = .many vs ∧ (∀ w ∈ vs, ∃ inner, w = .message inner ∧ Shaped S u inner) ∧
      (m.only n = [] ∧ vs = [] ∨ m.only n = [.known f (.many vs)]) := by
  have hn : f.number = n := Schema.field?_number hf.field
  rcases only_of_shaped hf.field hm with h | ⟨old, h⟩
  · refine ⟨[], ?_, by simp, Or.inl ⟨h, rfl⟩⟩
    rw [Message.get, ← get?_only hn m, h]
    change S.default f = _
    rw [Schema.default, if_pos hr]
  · have hmem : Slot.known f old ∈ m := (mem_only_iff.mp (h ▸ List.mem_singleton_self _)).1
    have hshaped := hm.value hmem
    rw [hr] at hshaped
    cases old with
    | scalar s =>
      rw [Value.Shaped] at hshaped
      cases hshaped.1
    | message inner =>
      rw [Value.Shaped] at hshaped
      cases hshaped.1
    | many vs =>
      rw [Value.Shaped, Value.allShaped_iff] at hshaped
      refine ⟨vs, ?_, fun w hw => ?_, Or.inr h⟩
      · rw [Message.get, ← get?_only hn m, h, get?, if_pos (Slot.holds_known f _)]
        rfl
      · have hw' := hshaped.2 w hw
        cases w with
        | scalar s =>
          obtain ⟨type, hk⟩ := hf.kind
          rw [Value.Shaped, hk] at hw'
          cases hw'.2
        | many ws =>
          rw [Value.Shaped] at hw'
          cases hw'.1
        | message inner =>
          rw [Value.Shaped, hf.map, hf.type] at hw'
          obtain ⟨-, h' | ⟨u', hu, hin⟩⟩ := hw'
          · cases h'
          · obtain rfl := Option.some.inj hu
            exact ⟨inner, rfl, hin⟩

/-- What a change along a path does to a message: in a list of messages it puts the changed one in
the place of another. -/
structure SetsElement (S B : Schema) (t v : MessageType) (n : Nat) (g : Field) (i : Nat)
    (step : MessageType → Message → Message × Except Breach Unit) (m m' : Message) : Prop where
  others : ∀ j, j ≠ n → m'.only j = m.only j
  exists_element : ∃ f w vs inner, Holds S t n f w ∧ f.Same g ∧ Schema.Counterpart S B w v ∧
    (∀ x ∈ vs, ∃ inner, x = .message inner ∧ Shaped S w inner) ∧
      m.only n = [.known f (.many vs)] ∧ vs[i]? = some (.message inner) ∧
        (step w inner).2 = .ok () ∧
          m'.only n = [.known f (.many (vs.set i (.message (step w inner).1)))]

theorem updateAt_shaped (missing : Breach)
    (change : MessageType → Message → Message × Except Breach Unit) (index : Int32)
    (rest : List Int32) (hM : S.Mirrors B) (hc : Schema.Counterpart S B t u) (hg : Holds B u n g v)
    (hr : g.repeated = true) (hn : number.toInt = n) (hm : Shaped S t m)
    (hstep : ∀ w inner, Schema.Counterpart S B w v → Shaped S w inner →
      Shaped S w (updateAt S missing change rest w inner).1) :
    Shaped S t (updateAt S missing change (number :: index :: rest) t m).1 ∧
      ((updateAt S missing change (number :: index :: rest) t m).2 = .ok () → 0 ≤ index.toInt ∧
        SetsElement S B t v n g index.toInt.toNat (updateAt S missing change rest) m
          (updateAt S missing change (number :: index :: rest) t m).1) := by
  rw [updateAt, if_pos (by omega), hn, Int.toNat_natCast]
  cases hf : t.fieldNumbered? n with
  | none => exact ⟨hm, fun h => by cases h⟩
  | some f =>
    have hfield : S.field? t n = some f := by
      rw [Schema.field?, hf]
      rfl
    have hsame := hM.numbered hc hfield hg.field
    have hfn : f.number = n := Schema.field?_number hfield
    obtain ⟨w, hw, hcw⟩ := hM.holds hc hg hfield
    have hfr : f.repeated = true := hsame.repeated.trans hr
    obtain ⟨vs, hget, hvs, honly⟩ := get_of_holds_many hm hw hfr
    have hput : ∀ {k : Message} (xs : List Value), Shaped S t k →
        (∀ x ∈ xs, ∃ inner, x = .message inner ∧ Shaped S w inner) →
          Shaped S t (k.set f (.many xs)) := by
      intro k xs hk hxs
      refine hk.setMany (hfn ▸ hfield) hfr fun x hx => ?_
      obtain ⟨inner, rfl, hin⟩ := hxs x hx
      rw [Value.Shaped]
      exact ⟨rfl, Or.inr ⟨w, hw.type, hin⟩⟩
    have htouch : Shaped S t (m.touch S f) := by
      rw [touch, hget]
      exact hput vs hm hvs
    dsimp only
    rw [get_touch_many hfr hget, hw.type]
    dsimp only
    by_cases hi : 0 ≤ index.toInt
    · rw [if_pos hi]
      cases hx : vs[index.toInt.toNat]? with
      | none => exact ⟨htouch, fun h => by cases h⟩
      | some x =>
        obtain ⟨inner, rfl, hin⟩ := hvs x (List.mem_of_getElem? hx)
        have hset : ∀ y ∈ vs.set index.toInt.toNat
            (.message (updateAt S missing change rest w inner).1),
              ∃ inner, y = .message inner ∧ Shaped S w inner := by
          intro y hy
          rcases List.mem_or_eq_of_mem_set hy with hy | rfl
          · exact hvs y hy
          · exact ⟨_, rfl, hstep w inner hcw hin⟩
        have hne : vs ≠ [] := by
          rintro rfl
          simp at hx
        refine ⟨hput _ htouch hset, fun hok => ⟨hi, fun j hj => ?_, f, w, vs, inner, hw, hsame, hcw,
          hvs, ?_, hx, hok, ?_⟩⟩
        · have hfj : f.number ≠ j := fun he => hj (he.symm.trans hfn)
          rw [only_set_other htouch.sorted hsame.oneof hfj, touch,
            only_set_other hm.sorted hsame.oneof hfj]
        · rcases honly with ⟨-, rfl⟩ | ho
          · exact absurd rfl hne
          · exact ho
        · refine only_set_one htouch hfield hsame.oneof (Or.inr ?_)
          simp [Value.isZero, hne]
    · rw [if_neg hi]
      exact ⟨htouch, fun h => by cases h⟩

section Reads

/-- Where one element of a list was exchanged, its partners are those of the list before, but for
one. -/
theorem exists_forall₂_of_set {α β : Type} {P : α → β → Prop} {R : β → β → Prop} {l : List α}
    {l' : List β} {i : Nat} {a a' : α} (h : List.Forall₂ P (l.set i a') l') (ha : l[i]? = some a)
    (hp : ∀ y, P a' y → ∃ x, P a x ∧ R x y) :
    ∃ ks x y, List.Forall₂ P l ks ∧ ks[i]? = some x ∧ l' = ks.set i y ∧ R x y := by
  induction l generalizing i l' with
  | nil => simp at ha
  | cons b l ih =>
    cases i with
    | zero =>
      obtain rfl := Option.some.inj ha
      cases h with
      | cons hy hrest =>
        obtain ⟨x, hx, hxy⟩ := hp _ hy
        exact ⟨x :: _, x, _, .cons hx hrest, rfl, rfl, hxy⟩
    | succ i =>
      cases h with
      | @cons _ c _ rest hc hrest =>
        obtain ⟨ks, x, y, hks, hx, rfl, hxy⟩ := ih hrest ha
        exact ⟨c :: ks, x, y, .cons hc hks, hx, rfl, hxy⟩

theorem exists_map_message {xs : List Value} {w : MessageType}
    (h : ∀ x ∈ xs, ∃ inner, x = .message inner ∧ Shaped S w inner) :
    ∃ ms : List Message, xs = ms.map Value.message ∧ ∀ x ∈ ms, Shaped S w x := by
  induction xs with
  | nil => exact ⟨[], rfl, by simp⟩
  | cons x xs ih =>
    obtain ⟨inner, rfl, hin⟩ := h x (by simp)
    obtain ⟨ms, rfl, hms⟩ := ih fun x hx => h x (List.mem_cons_of_mem _ hx)
    exact ⟨inner :: ms, rfl, List.forall_mem_cons.mpr ⟨hin, hms⟩⟩

theorem Holds.not_packed (hf : Holds S t n f u) (hreg : f.Regular) : f.packed = false :=
  Schema.not_packed hreg hf.type

theorem recordsOf_messages (hf : Holds S t n f u) (hreg : f.Regular) (ms : List Message) :
    Value.recordsOf [.known f (.many (ms.map Value.message))] =
      ms.map fun x => (n, .delimited (Value.encodeSlots x)) := by
  obtain ⟨type, hk⟩ := hf.kind
  have hpacked : f.packed = false := hf.not_packed hreg
  have heach : Value.recordsEach f (ms.map Value.message) =
      ms.map fun x => (n, .delimited (Value.encodeSlots x)) := by
    induction ms with
    | nil => rw [List.map_nil, Value.recordsEach, List.map_nil]
    | cons x ms ih =>
      rw [List.map_cons, Value.recordsEach, ih, Value.records, hk, List.map_cons,
        Schema.field?_number hf.field]
      rfl
  rw [Value.recordsOf, Value.recordsOf, List.append_nil, Value.slotRecords, Value.records, hpacked,
    if_neg Bool.false_ne_true, heach]

variable {i : Nat} {step : MessageType → Message → Message × Except Breach Unit}
  {R : Message → Message → Prop}

/-- What a typed reader makes of a message before and after one message in a list was changed: the
same but for that one, as far as the change goes. -/
theorem SetsElement.reads (h : SetsElement S B t v n g i step m m') (hS : S.Regular)
    (hc : Schema.Counterpart S B t u) (hg : Holds B u n g v) (hr : g.repeated = true)
    (hcalm : ∀ n, Calm B u n) (hsize : Sized n m)
    (hstep : ∀ w inner d y, Schema.Counterpart S B w v → Shaped S w inner →
      (step w inner).2 = .ok () → (Value.encodeSlots inner).length < 2 ^ 64 →
        Fills B .typed d v [] (Value.encodeSlots (step w inner).1) y →
          ∃ x, Fills B .typed d v [] (Value.encodeSlots inner) x ∧
            R (finish B .typed v x) (finish B .typed v y))
    (hk : Steps (readField B .typed depth u) [] (Value.recordsOf m') k') :
    ∃ k, Steps (readField B .typed depth u) [] (Value.recordsOf m) k ∧
      (∀ j, j ≠ n → k'.only j = k.only j) ∧
        ∃ (ks : List Message) (x y : Message), k.valuesOf g = ks.map Value.message ∧
          ks[i]? = some x ∧ k'.valuesOf g = (ks.set i y).map Value.message ∧ R x y := by
  obtain ⟨hothers, f, w, vs, inner, hf, hsame, hcw, hvs, hold, hi, hok, hnew⟩ := h
  obtain ⟨ms, rfl, hms⟩ := exists_map_message hvs
  have hreg : f.Regular := hS.field hc.left hf.field
  have hgn : g.number = n := Schema.field?_number hg.field
  have honly := fun j => steps_message_only (hcalm j) hk
  have hone := honly n
  rw [hnew, ← List.map_set, recordsOf_messages hf hreg] at hone
  obtain ⟨ys, hys, hvalues⟩ := inners_of_steps hg hr (fun _ => number_of_mem_messages) hone
  have hys := List.forall₂_map_left_iff.mp hys
  have hinner : ms[i]? = some inner := by
    rw [List.getElem?_map, Option.map_eq_some_iff] at hi
    obtain ⟨x, hx, he⟩ := hi
    rw [hx, Value.message.inj he]
  obtain ⟨ks, x, y, hks, hx, rfl, hxy⟩ := exists_forall₂_of_set (R := R) hys hinner <| by
    rintro y ⟨hrange, z, ⟨d, b, rfl, hb, hlen, hfills⟩, rfl⟩
    obtain rfl := Payload.delimited.inj hb
    have hlen' : (Value.encodeSlots inner).length < 2 ^ 64 := by
      have hin : (n, Payload.delimited (Value.encodeSlots inner)) ∈ Value.recordsOf (m.only n) := by
        rw [hold, recordsOf_messages hf hreg]
        exact List.mem_map_of_mem (List.mem_of_getElem? hinner)
      exact hsize _ (Value.mem_recordsOf_only.mp hin).1
    obtain ⟨x, hx, hxz⟩ := hstep w inner d z hcw (hms inner (List.mem_of_getElem? hinner)) hok
      hlen' hfills
    exact ⟨_, ⟨hrange, x, ⟨d, _, rfl, rfl, hlen', hx⟩, rfl⟩, hxz⟩
  obtain ⟨kn, hkn, hkn'⟩ := steps_of_inners hg hr (fun _ => number_of_mem_messages)
    (List.forall₂_map_left_iff.mpr hks) []
  rw [← recordsOf_messages hf hreg, ← hold] at hkn
  have hread : ∀ j, ∃ k, Steps (readField B .typed depth u) [] (Value.recordsOf (m.only j)) k := by
    intro j
    by_cases hj : j = n
    · exact ⟨kn, hj ▸ hkn⟩
    · exact ⟨_, hothers j hj ▸ honly j⟩
  obtain ⟨k, hk⟩ := exists_steps_message hcalm hread
  have hkonly := fun j => steps_message_only (hcalm j) hk
  refine ⟨k, hk, fun j hj => ?_, ks, x, y, ?_, hx, ?_, hxy⟩
  · exact (honly j).unique (hothers j hj ▸ hkonly j)
  · rw [valuesOf, ← get?_only hgn k, ← (hkn.unique (hkonly n)), ← valuesOf, hkn']
    rfl
  · rw [valuesOf, ← get?_only hgn k', ← valuesOf]
    exact hvalues

end Reads

end DescriptorKit.Message
