import DescriptorKit.Proofs.Message.Rewritten

/-!
Messages that are read from what was written of them. A message of declared fields only, each of
which stands on its own, is read as it was written.
-/
namespace DescriptorKit
open Wire Payload

/-- Types of a schema, closed under the types of their fields, whose fields each stand on their own:
they have no rivals and are neither maps nor groups, and one of many values is unset while it has
none. -/
structure Schema.Simple (S : Schema) (D : MessageType → Prop) : Prop where
  mem : ∀ {t}, D t → t ∈ S.messages
  entries : ∀ {t}, D t → t.mapEntry = false
  oneof : ∀ {t f n}, D t → S.field? t n = some f → f.oneof = none
  map : ∀ {t f n}, D t → S.field? t n = some f → f.map = false
  group : ∀ {t f n}, D t → S.field? t n = some f → ∀ type, f.kind ≠ .group type
  presence : ∀ {t f n}, D t → S.field? t n = some f → f.repeated = true → f.presence = false
  inner : ∀ {t u f n}, D t → S.field? t n = some f → S.messageOf? f = some u → D u

mutual

/-- Messages in the value nest at most `depth` deep, and have no slots but those of declared
fields. -/
def Value.Within (depth : Nat) : Value → Prop
  | .scalar _ => True
  | .message m =>
    match depth with
    | 0 => False
    | depth + 1 => Message.Within depth m
  | .many vs => Value.EachWithin depth vs

def Value.EachWithin (depth : Nat) : List Value → Prop
  | [] => True
  | v :: vs => Value.Within depth v ∧ Value.EachWithin depth vs

def Slot.Within (depth : Nat) : Slot → Prop
  | .known f v => InRange f.number ∧ Value.Within depth v
  | .unknown _ _ => False

def Message.Within (depth : Nat) : List Slot → Prop
  | [] => True
  | s :: m => Slot.Within depth s ∧ Message.Within depth m

end

namespace Message

variable {S : Schema} {D : MessageType → Prop} {reading : Reading} {t u : MessageType} {f : Field}
  {m : Message} {v : Value} {vs : List Value} {depth n : Nat} {type : String}

theorem within_iff : Within depth m ↔ ∀ s ∈ m, s.Within depth := by
  induction m with
  | nil => simp [Within]
  | cons s m ih => simp [Within, ih]

theorem eachWithin_iff : Value.EachWithin depth vs ↔ ∀ v ∈ vs, v.Within depth := by
  induction vs with
  | nil => simp [Value.EachWithin]
  | cons v vs ih => simp [Value.EachWithin, ih]

theorem Within.exists_depth {inner : Message} (h : Value.Within depth (.message inner)) :
    ∃ d, depth = d + 1 ∧ Within d inner := by
  cases depth with
  | zero =>
    rw [Value.Within] at h
    exact h.elim
  | succ d =>
    rw [Value.Within] at h
    exact ⟨d, rfl, h⟩

/-- What a field of messages holds are messages of the type. -/
theorem exists_message_of_shaped (hk : f.kind = .message type) (hmap : f.map = false)
    (h : v.Shaped S f true) : ∃ inner u, v = .message inner ∧ S.messageOf? f = some u ∧
      Shaped S u inner := by
  cases v with
  | scalar s =>
    rw [Value.Shaped, hk] at h
    cases h.2
  | message inner =>
    rw [Value.Shaped, hmap] at h
    obtain ⟨-, h | ⟨u, hu, hin⟩⟩ := h
    · cases h
    · exact ⟨inner, u, rfl, hu, hin⟩
  | many vs =>
    rw [Value.Shaped] at h
    cases h.1

/-- The messages inside are read as they were written. -/
def Reaches (S : Schema) (D : MessageType → Prop) (reading : Reading) (depth : Nat) : Prop :=
  ∀ u (inner : Message), D u → Shaped S u inner → Within depth inner →
    (Value.encodeSlots inner).length < 2 ^ 64 →
      Fills S reading depth u [] (Value.encodeSlots inner) inner

theorem gives_written (hk : f.kind = .message type) (hmap : f.map = false) (hn : InRange f.number)
    (hD : ∀ {u}, S.messageOf? f = some u → D u) (hin : ∀ d, depth = d + 1 → Reaches S D reading d)
    (hu : S.messageOf? f = some u) (hfinish : ∀ m, finish S reading u m = m)
    (hvs : ∀ x ∈ vs, x.Shaped S f true) (hdepth : ∀ x ∈ vs, x.Within depth)
    (hlen : ∀ r ∈ Value.recordsEach f vs, (r.2.body r.1).length < 2 ^ 64) :
    Gives (fun p ws => ∃ inner, Inside S reading depth u [] p inner ∧
      ws = [.message (finish S reading u inner)]) (Value.recordsEach f vs) vs := by
  induction vs with
  | nil =>
    rw [Value.recordsEach]
    exact .nil
  | cons x vs ih =>
    obtain ⟨inner, w, rfl, hw, hinner⟩ :=
      exists_message_of_shaped hk hmap (hvs x List.mem_cons_self)
    obtain rfl := Option.some.inj (hu.symm.trans hw)
    obtain ⟨d, rfl, hd⟩ := Within.exists_depth (hdepth _ List.mem_cons_self)
    have hrecords : Value.recordsEach f (.message inner :: vs) =
        (f.number, .delimited (Value.encodeSlots inner)) :: Value.recordsEach f vs := by
      rw [Value.recordsEach, Value.records, hk]
      rfl
    rw [hrecords] at hlen ⊢
    have hshort := length_lt_of_body (hlen _ List.mem_cons_self)
    have hread := hin d rfl u inner (hD hu) hinner hd hshort
    have hrest := ih (fun x hx => hvs x (List.mem_cons_of_mem _ hx))
      (fun x hx => hdepth x (List.mem_cons_of_mem _ hx))
      fun r hr => hlen r (List.mem_cons_of_mem _ hr)
    exact .cons hn ⟨inner, ⟨d, _, rfl, rfl, hshort, hread⟩, by rw [hfinish]⟩ hrest

theorem set_nil_of_shaped (h : Slot.Shaped S t (.known f v)) :
    Message.set f v [] = [.known f v] := by
  rw [Slot.Shaped] at h
  rw [set_nil, if_neg]
  rcases h.2.1 with h | h <;> simp [h]

/-- The records that a field of single values was written as set it as it was. -/
theorem steps_single (hS : S.Regular) (ht : t ∈ S.messages) (hk : f.kind.Single)
    (hp : f.repeated = true → f.presence = false) (hs : Slot.Shaped S t (.known f v))
    (hn : InRange f.number) (hlen : ∀ r ∈ Value.records f v, (r.2.body r.1).length < 2 ^ 64) :
    Steps (readField S reading depth t) [] (Value.records f v) [.known f v] := by
  have hset := set_nil_of_shaped hs
  rw [Slot.Shaped] at hs
  obtain ⟨hf, -, hv⟩ := hs
  have hreg := hS.field ht hf
  have hplain : Plain S t f.number f := ⟨hf, hk, hreg.map_of_single hk⟩
  obtain ⟨vs, htells, hput⟩ := exists_tells_records hplain hreg hn hv hlen
  exact (steps_nil_iff_tells hplain hp (Value.number_of_mem_records f v)).mpr
    ⟨vs, htells, by rw [hput f rfl, hset]⟩

/-- The records that one field was written as set the field as it was. -/
theorem steps_known (hS : S.Regular) (hD : S.Simple D) (ht : D t)
    (hfinish : ∀ {u}, D u → ∀ m, finish S reading u m = m)
    (hin : ∀ d, depth = d + 1 → Reaches S D reading d) (hs : Slot.Shaped S t (.known f v))
    (hd : Slot.Within depth (.known f v))
    (hlen : ∀ r ∈ Value.records f v, (r.2.body r.1).length < 2 ^ 64) :
    Steps (readField S reading depth t) [] (Value.records f v) [.known f v] := by
  have hslot := hs
  rw [Slot.Shaped] at hs
  obtain ⟨hf, hzero, hv⟩ := hs
  rw [Slot.Within] at hd
  obtain ⟨hn, hd⟩ := hd
  have hmap := hD.map ht hf
  have hp := hD.presence ht hf
  have hnumber := Value.number_of_mem_records f v
  have hset := set_nil_of_shaped hslot
  rcases f.kind.single_or_nested with hsingle | ⟨type, hk | hk⟩
  · exact steps_single hS (hD.mem ht) hsingle hp hslot hn hlen
  · cases hr : f.repeated with
    | true =>
      rw [hr] at hv
      obtain ⟨vs, rfl, hvs⟩ := many_of_shaped hv
      have hne : vs ≠ [] := by
        rintro rfl
        simp [hp hr, Value.isZero] at hzero
      obtain ⟨x, hx⟩ := List.exists_mem_of_ne_nil vs hne
      obtain ⟨-, u, -, hu, -⟩ := exists_message_of_shaped hk hmap (hvs x hx)
      have hholds : Holds S t f.number f u := ⟨hf, ⟨type, hk⟩, hu, hmap⟩
      have hrecords : Value.records f (.many vs) = Value.recordsEach f vs := by
        rw [Value.records, hholds.not_packed (hS.field (hD.mem ht) hf), if_neg Bool.false_ne_true]
      rw [hrecords] at hlen hnumber ⊢
      rw [Value.Within, eachWithin_iff] at hd
      refine (steps_nil_iff_inside hholds hr (hp hr) hnumber).mpr ⟨vs, ?_, ?_⟩
      · exact gives_written hk hmap hn (hD.inner ht hf) hin hu
          (hfinish (hD.inner ht hf hu)) hvs hd hlen
      · rw [put, if_pos hr]
        exact hset.symm
    | false =>
      rw [hr] at hv
      obtain ⟨inner, u, rfl, hu, hinner⟩ := exists_message_of_shaped hk hmap hv
      obtain ⟨d, rfl, hd⟩ := Within.exists_depth hd
      have hholds : Holds S t f.number f u := ⟨hf, ⟨type, hk⟩, hu, hmap⟩
      rw [Value.records, hk] at hlen ⊢
      have hshort := length_lt_of_body (hlen _ (List.mem_singleton_self _))
      have hread := hin d rfl u inner (hD.inner ht hf hu) hinner hd hshort
      refine (steps_one_iff hholds hr).mpr ⟨hn, inner, ⟨d, _, rfl, rfl, hshort, hread⟩, ?_⟩
      rw [hfinish (hD.inner ht hf hu)]
  · exact absurd hk (hD.group ht hf type)

/-- A message of declared fields is read as it was written, where nothing is required. -/
theorem reaches (hS : S.Regular) (hD : S.Simple D)
    (hfinish : ∀ {u}, D u → ∀ m, finish S reading u m = m) : Reaches S D reading depth := by
  induction depth using Nat.strong_induction_on with
  | _ depth ih =>
    intro t m ht hm hd hlen
    have hmem := hD.mem ht
    refine (fills_encode_iff hS hmem hm.typed).mpr
      (steps_of_only (fun n f hf => hD.oneof ht hf) hm.made fun n => ?_)
    have hnone : m.only n = [] →
        Steps (readField S reading depth t) [] (Value.recordsOf (m.only n)) (m.only n) := by
      intro h
      rw [h, Value.recordsOf]
      exact .nil _
    cases hf : S.field? t n with
    | none =>
      refine hnone (List.eq_nil_iff_forall_not_mem.mpr fun s hs => ?_)
      obtain ⟨hsm, rfl⟩ := mem_only_iff.mp hs
      cases s with
      | known g v =>
        have hg := hm.declared g v hsm
        rw [show S.field? t g.number = none from hf] at hg
        cases hg
      | unknown j p =>
        have := within_iff.mp hd _ hsm
        rw [Slot.Within] at this
        exact this.elim
    | some f =>
      rcases only_of_shaped hf hm with h | ⟨v, h⟩
      · exact hnone h
      · have hv : Slot.known f v ∈ m := (mem_only_iff.mp (h ▸ List.mem_singleton_self _)).1
        rw [h, Value.recordsOf, Value.recordsOf, List.append_nil, Value.slotRecords]
        refine steps_known hS hD ht hfinish (fun d hd => ih d (by omega)) (hm.slot hv)
          (within_iff.mp hd _ hv) fun r hr => ?_
        have hr' : r ∈ Value.recordsOf (m.only n) := by
          rw [h, Value.recordsOf, Value.recordsOf, List.append_nil, Value.slotRecords]
          exact hr
        exact Nat.lt_of_le_of_lt (length_only_le hS hmem hm hr') hlen

end Message
end DescriptorKit
