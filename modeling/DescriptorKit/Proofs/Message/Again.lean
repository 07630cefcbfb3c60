import DescriptorKit.Proofs.Message.Change
import DescriptorKit.Proofs.Message.Deeper
import DescriptorKit.Proofs.Message.Slotwise
import DescriptorKit.Proofs.Message.Written

/-!
Messages that a reader finds again. Whatever a lossless reader made of some bytes, it makes again of
what is written of the message: members of oneofs and groups are found like any other field, and so
are maps.
-/
namespace DescriptorKit
open Wire Payload Message

/-- A field of map entries: one value, which is a message only where `spare` levels are left to read
it once more. -/
structure Field.OfEntry (S : Schema) (spare : Nat) (D : MessageType → Prop) (f : Field) : Prop where
  inRange : InRange f.number
  repeated : f.repeated = false
  oneof : f.oneof = none
  value : f.kind.Single ∨ 0 < spare ∧ ∃ u, S.messageOf? f = some u ∧ D u

theorem Field.OfEntry.map_eq_false {S : Schema} {spare : Nat} {D : MessageType → Prop} {f : Field}
    (h : f.OfEntry S spare D) (hf : f.Regular) : f.map = false := by
  by_contra hm
  have hr := hf.repeated_of_map (by simpa using hm)
  simp [h.repeated] at hr

/-- Types of a schema, closed under the types of their fields, whose fields of many values are unset
while they have none. An entry of a map without its value has an empty one once it was read, which
is a level of its own where maps hold messages. -/
structure Schema.Orderly (S : Schema) (spare : Nat) (D : MessageType → Prop) : Prop where
  mem : ∀ {t}, D t → t ∈ S.messages
  presence : ∀ {t f n}, D t → S.field? t n = some f → f.repeated = true → f.presence = false
  inner : ∀ {t u f n}, D t → S.field? t n = some f → f.map = false → S.messageOf? f = some u → D u
  entry : ∀ {t u f n}, D t → S.field? t n = some f → f.map = true → S.messageOf? f = some u →
    ∀ {g n}, S.field? u n = some g → g.OfEntry S spare D

namespace Message

variable {S : Schema} {spare : Nat} {D : MessageType → Prop} {reading : Reading} {nested : Nested}
  {t u : MessageType} {f g : Field} {m m' k k' inner raw : Message} {v : Value} {s : Slot}
  {vs : List Value} {depth n : Nat} {w : WireType} {p : Payload} {rs : List (Nat × Payload)}
  {b x : Bytes} {step : Step}

section Entries

/-- A field of a single message is a message without slots while it is unset. -/
theorem default_message (hf : f.Regular) (hr : f.repeated = false) (hu : S.messageOf? f = some u) :
    S.default f = .message [] := by
  have htyped := Value.default_typed (S := S) hf
  rw [Schema.default, hr, if_neg Bool.false_ne_true] at htyped ⊢
  cases hs : S.scalarDefault? f with
  | none => rfl
  | some s =>
    rw [hs, Value.Typed] at htyped
    obtain ⟨type, hk | hk, -⟩ := Schema.nested_of_messageOf? hu
    all_goals
      rw [hk] at htyped
      cases htyped

/-- Where fields have no rivals, a number has what the field of the number was set to. -/
theorem only_foldl_set {fs : List Field} (value : Field → Value) (ho : ∀ f ∈ fs, f.oneof = none)
    (hnd : (fs.map (·.number)).Nodup) (hg : g ∈ fs) (hm : m.Sorted) :
    (fs.foldl (fun k f => Message.set f (value f) k) m).only g.number =
      (m.only g.number).set g (value g) := by
  have hother : ∀ {f : Field} {k : Message}, f.oneof = none → k.Sorted → f.number ≠ g.number →
      (k.set f (value f)).only g.number = k.only g.number := fun ho hk hne =>
    only_set_ne hk (fun s _ _ => Slot.rivals_eq_false ho s) hne _
  have hothers : ∀ (fs : List Field) (k : Message), (∀ f ∈ fs, f.oneof = none) →
      (∀ f ∈ fs, f.number ≠ g.number) → k.Sorted →
        (fs.foldl (fun k f => Message.set f (value f) k) k).only g.number = k.only g.number := by
    intro fs
    induction fs with
    | nil => exact fun _ _ _ _ => rfl
    | cons f fs ih =>
      intro k ho hne hk
      obtain ⟨hof, ho⟩ := List.forall_mem_cons.mp ho
      obtain ⟨hnf, hne⟩ := List.forall_mem_cons.mp hne
      rw [List.foldl_cons, ih _ ho hne (hk.set f _), hother hof hk hnf]
  induction fs generalizing m with
  | nil => cases hg
  | cons f fs ih =>
    have hof := ho f List.mem_cons_self
    obtain ⟨hnf, hnd⟩ := List.nodup_cons.mp hnd
    rw [List.foldl_cons]
    rcases List.mem_cons.mp hg with rfl | hg
    · have hne : ∀ f ∈ fs, f.number ≠ g.number := fun f hf he =>
        hnf (List.mem_map.mpr ⟨f, hf, he⟩)
      rw [hothers fs _ (fun f hf => ho f (List.mem_cons_of_mem _ hf)) hne (hm.set g _),
        only_set hm hof rfl]
    · have hne : f.number ≠ g.number := fun he => hnf (List.mem_map.mpr ⟨g, hg, he.symm⟩)
      rw [ih (fun f hf => ho f (List.mem_cons_of_mem _ hf)) hnd hg (hm.set f _),
        hother hof hm hne]

/-- Where fields have no rivals, the slots are of the fields and hold what they were set to. -/
theorem mem_foldl_set {fs : List Field} (value : Field → Value)
    (hs : s ∈ fs.foldl (fun k f => Message.set f (value f) k) []) :
    ∃ f ∈ fs, s = .known f (value f) := by
  have hall : ∀ s ∈ fs.foldl (fun k f => Message.set f (value f) k) [],
      ∃ f ∈ fs, s = .known f (value f) :=
    List.foldlRecOn (motive := fun k : Message => ∀ s ∈ k, ∃ f ∈ fs, s = .known f (value f))
      fs _ (fun _ h => by cases h) fun k hk f hf s hs =>
        (mem_set hs).elim (fun he => ⟨f, hf, he⟩) (hk s)
  exact hall s hs

theorem entrySlots_unrivalled : Unrivalled (entrySlots S u raw) :=
  List.foldlRecOn u.fields _ Unrivalled.nil fun _ hk f _ => hk.set f _

variable (hS : S.Regular) (hu : u ∈ S.messages)
  (hentry : ∀ {f n}, S.field? u n = some f → f.OfEntry S spare D) (hraw : Shaped S u raw)

include hS hu hentry hraw

theorem get_shaped (hf : f ∈ u.fields) : Value.Shaped S f (!f.repeated) (raw.get S f) := by
  have hfield := hS.field?_of_mem hu hf
  rw [Message.get]
  cases hg : raw.get? f with
  | some v => exact hraw.value (hraw.get? hfield hg)
  | none =>
    refine default_shaped (hS.fields u hu f hf) (.inr ?_)
    rcases (hentry hfield).value with hk | ⟨-, w, hw, -⟩
    · exact .inl (isSome_scalarDefault? hk)
    · exact .inr (by rw [hw]; rfl)

theorem entrySlots_shaped : Shaped S u (entrySlots S u raw) :=
  List.foldlRecOn u.fields _ .nil fun _ hk _ hf =>
    hk.set (hS.field?_of_mem hu hf) (get_shaped hS hu hentry hraw hf)

/-- An entry holds what it was made from, where its fields were unset their defaults. -/
theorem get_entrySlots (hg : g ∈ u.fields) : (entrySlots S u raw).get S g = raw.get S g := by
  have honly := only_foldl_set (raw.get S)
    (fun f hf => (hentry (hS.field?_of_mem hu hf)).oneof) (hS.numbered u hu) hg .nil
  have hget : (entrySlots S u raw).get? g = Message.get? g (Message.set g (raw.get S g) []) := by
    rw [← get?_only rfl, entrySlots, honly, only_nil]
  rw [Message.get, hget, get?_set_eq]
  split
  · rename_i hzero
    simp only [Bool.and_eq_true, Bool.not_eq_true'] at hzero
    -- a field that keeps no zero was unset where it reads as one
    cases hraw' : raw.get? g with
    | none => rw [Message.get, hraw']
    | some v =>
      have hslot := hraw.slot (hraw.get? (hS.field?_of_mem hu hg) hraw')
      rw [Slot.Shaped] at hslot
      rw [Message.get, hraw', Option.getD_some] at hzero
      rcases hslot.2.1 with hpresence | hnonzero
      · simp [hzero.1] at hpresence
      · simp [hzero.2] at hnonzero
  · rfl

/-- An entry that was made of a message is made of itself. -/
theorem entrySlots_again : entrySlots S u (entrySlots S u raw) = entrySlots S u raw := by
  rw [entrySlots, entrySlots.eq_1 S u raw]
  exact List.foldl_ext _ _ [] fun k f hf => by
    rw [← entrySlots, get_entrySlots hS hu hentry hraw hf]

end Entries

section Nested

/-- A message that a step makes of its records, it makes of the one record of a field that holds the
message. -/
theorem exists_record (hS : S.Regular) (hu : S.messageOf? f = some u) (hn : InRange f.number)
    (hm : Shaped S u inner) (h : Steps (step u) [] (Value.recordsOf inner) inner)
    (hlen : ∀ r ∈ Value.records f (.message inner), (r.2.body r.1).length < 2 ^ 64) :
    ∃ p, Value.records f (.message inner) = [(f.number, p)] ∧ p.wireType = f.kind.wireType ∧
      Makes (step u) f.number [] f.kind.wireType (p.body f.number) inner := by
  have hencode := Value.encodeSlots_eq_records hS u (Schema.mem_of_messageOf? hu) inner hm.typed
  obtain ⟨type, hk | hk, -⟩ := Schema.nested_of_messageOf? hu
  · rw [Value.records, hk] at hlen ⊢
    have hshort := length_lt_of_body (hlen _ (List.mem_singleton_self _))
    refine ⟨_, rfl, rfl, .delimited (Cursor.readVarint_encode hshort) ?_⟩
    rw [hencode]
    exact runs_of_steps h
  · rw [Value.records, hk]
    exact ⟨_, rfl, rfl, .group (group_of_steps hn h)⟩

/-- What is written of a message in a field is no longer than the record of the field. -/
theorem length_of_record (hS : S.Regular) (hu : S.messageOf? f = some u) (hm : Shaped S u inner)
    (hlen : ∀ r ∈ Value.records f (.message inner), (r.2.body r.1).length < 2 ^ 64) :
    (Value.encodeSlots inner).length < 2 ^ 64 := by
  obtain ⟨type, hk | hk, -⟩ := Schema.nested_of_messageOf? hu
  · rw [Value.records, hk] at hlen
    exact length_lt_of_body (hlen _ (List.mem_singleton_self _))
  · rw [Value.records, hk] at hlen
    have hbody := hlen _ (List.mem_singleton_self _)
    rw [body, List.length_append] at hbody
    rw [Value.encodeSlots_eq_records hS u (Schema.mem_of_messageOf? hu) inner hm.typed]
    omega

/-- No record of a message is longer than what is written of it. -/
theorem length_of_mem_records (hS : S.Regular) (ht : t ∈ S.messages) (hm : Shaped S t m)
    (hlen : (Value.encodeSlots m).length < 2 ^ 64) (hf : Slot.known f v ∈ m) :
    ∀ r ∈ Value.records f v, (r.2.body r.1).length < 2 ^ 64 := by
  intro r hr
  rw [Value.encodeSlots_eq_records hS t ht m hm.typed] at hlen
  have hmem : r ∈ Value.recordsOf m := mem_recordsOf_iff.mpr ⟨_, hf, hr⟩
  exact lt_of_le_of_lt (length_body_le hmem) hlen

/-- A message is read from a field as it is read by itself, one level up. -/
theorem exists_takes (hS : S.Regular) (hf : S.field? t f.number = some f) (hmap : f.map = false)
    (hu : S.messageOf? f = some u) (hn : InRange f.number) (hm : Shaped S u inner)
    (h : Steps (readField S .lossless depth u) [] (Value.recordsOf inner) inner)
    (hlen : ∀ r ∈ Value.records f (.message inner), (r.2.body r.1).length < 2 ^ 64) :
    ∃ p, Value.records f (.message inner) = [(f.number, p)] ∧ ∀ m, startOf f m = [] →
      Takes (readField S .lossless (depth + 1) t m f.number p.wireType) (p.body f.number)
        (putNested S .lossless u f m inner) := by
  obtain ⟨p, hrecords, hw, hmakes⟩ := exists_record hS hu hn hm h hlen
  refine ⟨p, hrecords, fun m hstart => readField_takes_iff.mpr (.known hf ?_)⟩
  rw [hw]
  exact .nested hu (by rw [hmap]; rfl) (hstart ▸ hmakes)

theorem steps_one (hS : S.Regular) (hf : S.field? t f.number = some f) (hmap : f.map = false)
    (hr : f.repeated = false) (hu : S.messageOf? f = some u) (hn : InRange f.number)
    (hm : Shaped S u inner)
    (h : Steps (readField S .lossless depth u) [] (Value.recordsOf inner) inner)
    (hlen : ∀ r ∈ Value.records f (.message inner), (r.2.body r.1).length < 2 ^ 64) :
    Steps (readField S .lossless (depth + 1) t) [] (Value.records f (.message inner))
      [.known f (.message inner)] := by
  obtain ⟨p, hrecords, htakes⟩ := exists_takes hS hf hmap hu hn hm h hlen
  have hone := htakes [] (by rw [startOf]; split <;> rfl)
  rw [putNested_single hr hmap, set_nil_message] at hone
  rw [hrecords]
  exact .cons hn hone (.nil _)

/-- Values that each have a record of their own, which puts them behind the others of a field, are
read one by one. -/
theorem steps_each (hn : InRange f.number) (hp : f.presence = false)
    (hone : ∀ us x ws, vs = us ++ x :: ws → ∃ p, Value.records f x = [(f.number, p)] ∧
      Takes (readField S reading depth t (Message.set f (.many us) []) f.number p.wireType)
        (p.body f.number) (Message.set f (.many (us ++ [x])) [])) :
    Steps (readField S reading depth t) [] (Value.recordsEach f vs)
      (Message.set f (.many vs) []) := by
  have hall : ∀ us ws, vs = us ++ ws →
      Steps (readField S reading depth t) (Message.set f (.many us) []) (Value.recordsEach f ws)
        (Message.set f (.many vs) []) := by
    intro us ws
    induction ws generalizing us with
    | nil =>
      rintro rfl
      rw [List.append_nil, Value.recordsEach]
      exact .nil _
    | cons x ws ih =>
      intro he
      obtain ⟨p, hrecords, htakes⟩ := hone us x ws he
      rw [Value.recordsEach, hrecords]
      exact .cons hn htakes (ih (us ++ [x]) (by rw [he, List.append_assoc]; rfl))
  have hnil : Message.set f (.many []) [] = [] := by
    rw [set_nil, hp]
    rfl
  have h := hall [] vs rfl
  rwa [hnil] at h

end Nested

section Sourced

/-- A step makes the message of some bytes. -/
def Begets (step : Option Step) (u : MessageType) (inner : Message) : Prop :=
  ∃ s b, step = some s ∧ Runs (record (s u)) [] b inner

/-- The values are entries of a map, each put together from a message that a step made, and no two
of them have the same key. -/
structure Mapped (S : Schema) (step : Option Step) (u : MessageType) (vs : List Value) : Prop where
  made : ∀ v ∈ vs, ∃ raw, Begets step u raw ∧ v = .message (entrySlots S u raw)
  apart : vs.Pairwise fun a b => sameKey u a b = false

/-- Where the value of a field comes from: messages in it were made by the step of the level below,
and entries of maps were put together from those that another step made. -/
inductive Value.Sourced (S : Schema) (nested : Nested) (f : Field) : Value → Prop where
  | single {v : Value} (hk : f.kind.Single) : Value.Sourced S nested f v
  | message {u : MessageType} {inner : Message} (hmap : f.map = false)
      (hu : S.messageOf? f = some u) (h : Begets nested.message u inner) :
      Value.Sourced S nested f (.message inner)
  | messages {u : MessageType} {vs : List Value} (hmap : f.map = false)
      (hu : S.messageOf? f = some u) (h : ∀ v ∈ vs, ∃ inner, v = .message inner ∧
        Begets nested.message u inner) : Value.Sourced S nested f (.many vs)
  | entries {u : MessageType} {vs : List Value} (hmap : f.map = true)
      (hu : S.messageOf? f = some u) (h : Mapped S nested.entry u vs) :
      Value.Sourced S nested f (.many vs)

/-- A message in the making by a lossless reader: what its slots hold comes from what was read. -/
structure Sourced (S : Schema) (depth : Nat) (t : MessageType) (m : Message) : Prop where
  shaped : Shaped S t m
  unrivalled : Unrivalled m
  known : ∀ f v, Slot.known f v ∈ m → InRange f.number ∧
    Value.Sourced S (nestedAt S .lossless depth) f v
  stays : ∀ n p, Slot.unknown n p ∈ m → Stays S depth t n p

theorem Makes.exists_runs {step : Message → Nat → WireType → Cursor →
    Except Failure (Message × Cursor)} (h : Makes step n m w x m') :
    ∃ b, Runs (record step) m b m' := by
  cases h with
  | delimited _ h => exact ⟨_, h⟩
  | group h =>
    induction h with
    | stop => exact ⟨[], .nil _⟩
    | cons hk _ h _ ih =>
      obtain ⟨b, hb⟩ := ih
      exact ⟨_, .cons (takes_record hk h) hb⟩

theorem eq_of_message (h : (nestedAt S reading depth).message = some step) :
    ∃ d, depth = d + 1 ∧ step = readField S reading d := by
  cases depth with
  | zero => cases h
  | succ d => exact ⟨d, rfl, (Option.some.inj h).symm⟩

theorem eq_of_entry (h : (nestedAt S reading depth).entry = some step) :
    step = readFieldWith S reading depth
      ⟨(nestedAt S reading depth).message, (nestedAt S reading depth).message⟩ := by
  cases depth <;> exact (Option.some.inj h).symm

theorem readKnown_unmapped (h : f.map = false) (entry : Option Step) (c : Cursor) :
    readKnown S reading ⟨nested.message, entry⟩ f m w c = readKnown S reading nested f m w c := by
  unfold readKnown
  simp only [h, Bool.false_eq_true, if_false]

/-- The entries of a map are read as messages that hold no maps are. -/
theorem eq_readField (hs : (nestedAt S reading depth).entry = some step)
    (hu : ∀ {g n}, S.field? u n = some g → g.map = false) :
    step u = readField S reading depth u := by
  rw [eq_of_entry hs, readField_eq]
  funext m n w c
  rw [readFieldWith, readFieldWith]
  cases hg : S.field? u n with
  | none => rfl
  | some g => simp only [readKnown_unmapped (hu hg)]

theorem Sourced.nil : Sourced S depth t [] :=
  ⟨.nil, .nil, by simp, by simp⟩

/-- The value that a field has comes from what was read. -/
theorem Sourced.get? (h : Sourced S depth t m) (hf : S.field? t f.number = some f)
    (hv : m.get? f = some v) : Value.Sourced S (nestedAt S .lossless depth) f v :=
  (h.known f v (h.shaped.get? hf hv)).2

/-- What a message in a field starts from was made by the same step. -/
theorem Sourced.startOf (h : Sourced S depth t m) (hf : S.field? t f.number = some f)
    (hu : S.messageOf? f = some u) (hs : (nestedAt S .lossless depth).message = some step)
    (hstart : Runs (record (step u)) (startOf f m) b inner) :
    Begets (nestedAt S .lossless depth).message u inner := by
  have hnil : Message.startOf f m = [] → Begets (nestedAt S .lossless depth).message u inner :=
    fun he => ⟨step, b, hs, he ▸ hstart⟩
  unfold Message.startOf at hnil hstart
  split at hstart
  · rename_i hr
    exact hnil (if_pos hr)
  · rename_i hr
    rw [if_neg hr] at hnil
    cases hv : m.get? f with
    | none => exact hnil (by rw [hv]; rfl)
    | some v =>
      rw [hv] at hnil hstart
      cases v with
      | scalar s => exact hnil rfl
      | many vs => exact hnil rfl
      | message old =>
        cases h.get? hf hv with
        | single hk => exact absurd hk (Schema.not_single_of_messageOf? hu)
        | @message v _ _ hv h =>
          obtain rfl := Option.some.inj (hu.symm.trans hv)
          obtain ⟨s, b', hs', hruns⟩ := h
          obtain rfl := Option.some.inj (hs.symm.trans hs')
          exact ⟨step, b' ++ b, hs, hruns.append hstart⟩

theorem Sourced.set (h : Sourced S depth t m) (hshaped : Shaped S t (m.set f v))
    (hn : InRange f.number)
    (hv : Value.Sourced S (nestedAt S .lossless depth) f v) :
    Sourced S depth t (m.set f v) where
  shaped := hshaped
  unrivalled := h.unrivalled.set f v
  known g w hg := by
    rcases mem_set hg with hg | hg
    · obtain ⟨rfl, rfl⟩ := Slot.known.inj hg
      exact ⟨hn, hv⟩
    · exact h.known g w hg
  stays n p hp := h.stays n p ((mem_set hp).resolve_left (by simp))

theorem Sourced.values (h : Sourced S depth t m) (hf : S.field? t f.number = some f) :
    m.valuesOf f = [] ∨
      Value.Sourced S (nestedAt S .lossless depth) f (.many (m.valuesOf f)) := by
  rw [Message.valuesOf]
  cases hg : m.get? f with
  | none => exact .inl rfl
  | some v =>
    cases v with
    | scalar s => exact .inl rfl
    | message inner => exact .inl rfl
    | many vs => exact .inr (h.get? hf hg)

/-- The messages that a field of many has were made by the step of the level below. -/
theorem Sourced.messages (h : Sourced S depth t m) (hf : S.field? t f.number = some f)
    (hmap : f.map = false) (hu : S.messageOf? f = some u) :
    ∀ v ∈ m.valuesOf f, ∃ inner, v = .message inner ∧
      Begets (nestedAt S .lossless depth).message u inner := by
  rcases h.values hf with hnil | hvs
  · simp [hnil]
  · cases hvs with
    | single hk => exact absurd hk (Schema.not_single_of_messageOf? hu)
    | messages _ hu' hvs =>
      obtain rfl := Option.some.inj (hu.symm.trans hu')
      exact hvs
    | entries hmap' =>
      rw [hmap] at hmap'
      cases hmap'

theorem Sourced.entries (h : Sourced S depth t m) (hf : S.field? t f.number = some f)
    (hmap : f.map = true) (hu : S.messageOf? f = some u) :
    Mapped S (nestedAt S .lossless depth).entry u (m.valuesOf f) := by
  rcases h.values hf with hnil | hvs
  · rw [hnil]
    exact ⟨by simp, .nil⟩
  · cases hvs with
    | single hk => exact absurd hk (Schema.not_single_of_messageOf? hu)
    | messages hmap' =>
      rw [hmap] at hmap'
      cases hmap'
    | entries _ hu' hvs =>
      obtain rfl := Option.some.inj (hu.symm.trans hu')
      exact hvs

theorem putNested_map (hmap : f.map = true) (hu : S.messageOf? f = some u) (m raw : Message) :
    putNested S reading u f m raw = m.set f (.many
      ((m.valuesOf f).filter (fun e => !sameKey u e (.message (entrySlots S u raw))) ++
        [.message (entrySlots S u raw)])) := by
  rw [putNested, if_pos hmap]
  unfold add
  rw [hmap, hu]

/-- Putting an entry into a map keeps its keys apart. -/
theorem Mapped.put {entry : Option Step} (h : Mapped S entry u vs) (hraw : Begets entry u raw) :
    Mapped S entry u (vs.filter (fun e => !sameKey u e (.message (entrySlots S u raw))) ++
      [.message (entrySlots S u raw)]) where
  made v hv := by
    rcases List.mem_append.mp hv with hv | hv
    · exact h.made v (List.mem_filter.mp hv).1
    · exact ⟨raw, hraw, List.mem_singleton.mp hv⟩
  apart := by
    refine List.pairwise_append.mpr ⟨h.apart.sublist List.filter_sublist,
      List.pairwise_singleton _ _, fun a ha b hb => ?_⟩
    obtain rfl := List.mem_singleton.mp hb
    simpa using (List.mem_filter.mp ha).2

/-- A record that a lossless reader takes leaves all slots with a source. -/
theorem Sourced.takes (hS : S.Regular) (ht : t ∈ S.messages) (hm : Sourced S depth t m)
    (hn : InRange n) (h : Takes (readField S .lossless depth t m n w) x m') :
    Sourced S depth t m' := by
  have hshaped := readField_shaped hS (fun h => by cases h) ht h hm.shaped
  have hreads := readField_takes_iff.mp h
  clear h
  cases hreads with
  | @unknown p hf h =>
    split
    · exact hm
    · rename_i hentry
      simp only [reduceCtorEq, decide_false, Bool.false_or, Bool.not_eq_true] at hentry
      refine ⟨?_, hm.unrivalled.insert_unknown n p, fun f v hv => ?_, fun j q hq => ?_⟩
      · rwa [if_neg (by simp [hentry])] at hshaped
      · exact hm.known f v ((mem_insert_iff.mp hv).resolve_left (by simp))
      · rcases mem_insert_iff.mp hq with hq | hq
        · obtain ⟨rfl, rfl⟩ := Slot.unknown.inj hq
          obtain ⟨-, hfits, -⟩ := takes_read h
          exact ⟨hn, by simpa [hentry] using hfits, hentry⟩
        · exact hm.stays j q hq
  | @known f _ hf h =>
    obtain rfl := Schema.field?_number hf
    cases h with
    | single hk _ _ => exact hm.set hshaped hn (.single hk)
    | @more _ v hk _ _ _ =>
      obtain ⟨u, hu⟩ := exists_add_eq S f v m
      rw [hu m rfl] at hshaped ⊢
      exact hm.set hshaped hn (.single hk)
    | packed hk _ _ _ _ => exact hm.set hshaped hn (.single hk)
    | @nested _ u step inner hu hs h =>
      cases hmap : f.map with
      | true =>
        rw [hmap, if_pos rfl] at hs
        obtain ⟨b, hruns⟩ := h.exists_runs
        rw [Message.startOf, hmap, Bool.true_or, if_pos rfl] at hruns
        have hraw : Begets (nestedAt S .lossless depth).entry u inner := ⟨step, b, hs, hruns⟩
        rw [putNested_map hmap hu] at hshaped ⊢
        exact hm.set hshaped hn (.entries hmap hu ((hm.entries hf hmap hu).put hraw))
      | false =>
        rw [hmap, if_neg Bool.false_ne_true] at hs
        obtain ⟨b, hruns⟩ := h.exists_runs
        have hinner := hm.startOf hf hu hs hruns
        cases hr : f.repeated with
        | true =>
          rw [putNested_repeated hr hmap] at hshaped ⊢
          refine hm.set hshaped hn (.messages hmap hu fun v hv => ?_)
          rcases List.mem_append.mp hv with hv | hv
          · exact hm.messages hf hmap hu v hv
          · exact ⟨inner, List.mem_singleton.mp hv, hinner⟩
        | false =>
          rw [putNested_single hr hmap] at hshaped ⊢
          exact hm.set hshaped hn (.message hmap hu hinner)

theorem Sourced.steps (hS : S.Regular) (ht : t ∈ S.messages) (hm : Sourced S depth t m)
    (h : Steps (readField S .lossless depth t) m rs m') : Sourced S depth t m' := by
  induction h with
  | nil => exact hm
  | cons hn h _ ih => exact ih (hm.takes hS ht hn h)

/-- A record that is kept is kept by a reader that nests messages deeper, too. -/
theorem Stays.deeper (h : Stays S depth t n p) (spare : Nat) : Stays S (depth + spare) t n p := by
  refine ⟨h.inRange, ?_, h.entry⟩
  induction spare with
  | zero => exact h.fits
  | succ spare ih => exact (takes_read (takes_read_deeper (read_takes h.inRange ih))).2.1

/-- What was read of bytes, a reader that nests messages `spare` levels deeper makes of the records
that are written of it. -/
def Again (S : Schema) (spare : Nat) (D : MessageType → Prop) (depth : Nat) : Prop :=
  ∀ t b m, D t → Fills S .lossless depth t [] b m → (Value.encodeSlots m).length < 2 ^ 64 →
    Steps (readField S .lossless (depth + spare) t) [] (Value.recordsOf m) m

end Sourced

section Again

variable (hS : S.Regular) (hD : S.Orderly spare D)

include hS

theorem Begets.reads (hmem : ∀ {u}, D u → u ∈ S.messages) (hDu : D u)
    (hin : ∀ d, depth = d + 1 → Again S spare D d)
    (h : Begets (nestedAt S .lossless depth).message u inner) :
    ∃ d, depth + spare = d + 1 ∧ Shaped S u inner ∧ ((Value.encodeSlots inner).length < 2 ^ 64 →
      Steps (readField S .lossless d u) [] (Value.recordsOf inner) inner) := by
  obtain ⟨step, b, hs, hruns⟩ := h
  obtain ⟨d, rfl, rfl⟩ := eq_of_message hs
  exact ⟨d + spare, by omega, Fills.shaped hS (fun h => by cases h) (hmem hDu) hruns .nil,
    hin d rfl u b inner hDu hruns⟩

include hD

omit hD in
/-- The message in an entry of a map is read again a level below it: one that was read there, or the
one of no slots that stands for an unset value. -/
theorem exists_inner (hmem : ∀ {u}, D u → u ∈ S.messages) (hf : f.Regular)
    (hfield : S.field? t f.number = some f) (hr : f.repeated = false)
    (hu : S.messageOf? f = some u) (hDu : D u) (hspare : 0 < spare)
    (hin : ∀ d, depth = d + 1 → Again S spare D d) (hraw : Sourced S depth t raw) :
    ∃ inner d, raw.get S f = .message inner ∧ depth + spare = d + 1 ∧ Shaped S u inner ∧
      ((Value.encodeSlots inner).length < 2 ^ 64 →
        Steps (readField S .lossless d u) [] (Value.recordsOf inner) inner) := by
  rw [Message.get]
  cases hg : raw.get? f with
  | none =>
    refine ⟨[], depth + spare - 1, default_message hf hr hu, by omega, .nil, fun _ => ?_⟩
    rw [Value.recordsOf]
    exact .nil _
  | some v =>
    have hshaped := hraw.shaped.value (hraw.shaped.get? hfield hg)
    cases hraw.get? hfield hg with
    | single hk => exact absurd hk (Schema.not_single_of_messageOf? hu)
    | @message u' inner _ hu' h =>
      obtain rfl := Option.some.inj (hu.symm.trans hu')
      obtain ⟨d, hd, hinner, hsteps⟩ := h.reads hS hmem hDu hin
      exact ⟨inner, d, rfl, hd, hinner, hsteps⟩
    | messages _ _ _ =>
      rw [Value.Shaped, hr] at hshaped
      cases hshaped.1
    | entries hmap _ _ => simp [hf.repeated_of_map hmap] at hr

/-- The entries of a map are read again, where those without a value have got one. -/
theorem steps_entry (hu : u ∈ S.messages)
    (hentry : ∀ {g n}, S.field? u n = some g → g.OfEntry S spare D)
    (hin : ∀ d, depth = d + 1 → Again S spare D d) (hraw : Sourced S depth u raw)
    (hlen : (Value.encodeSlots (entrySlots S u raw)).length < 2 ^ 64) :
    Steps (readField S .lossless (depth + spare) u) []
      (Value.recordsOf (entrySlots S u raw)) (entrySlots S u raw) := by
  have hshaped := entrySlots_shaped hS hu hentry hraw.shaped
  refine steps_of_slots hshaped entrySlots_unrivalled (fun f v hf => ?_) fun n p hp => ?_
  · obtain ⟨g, hg, he⟩ := mem_foldl_set _ hf
    obtain ⟨rfl, rfl⟩ := Slot.known.inj he
    have hfield := hS.field?_of_mem hu hg
    have hregular := hS.fields u hu f hg
    have hmap := (hentry hfield).map_eq_false hregular
    obtain ⟨hn, hr, -, hvalue⟩ := hentry hfield
    have hshort := length_of_mem_records hS hu hshaped hlen hf
    rcases hvalue with hk | ⟨hspare, w, hw, hDw⟩
    · exact steps_single hS hu hk (fun h => by simp [hr] at h) (hshaped.slot hf) hn hshort
    · obtain ⟨inner, d, he, hd, hinner, hsteps⟩ :=
        exists_inner hS hD.mem hregular hfield hr hw hDw hspare hin hraw
      rw [he] at hshort ⊢
      rw [hd]
      exact steps_one hS hfield hmap hr hw hn hinner
        (hsteps (length_of_record hS hw hinner hshort)) hshort
  · obtain ⟨g, -, he⟩ := mem_foldl_set _ hp
    cases he

/-- The entries of a map go one by one. -/
theorem Mapped.takes {us ws : List Value} (ht : D t) (hf : S.field? t f.number = some f)
    (hmap : f.map = true) (hu : S.messageOf? f = some u) (hn : InRange f.number)
    (hin : ∀ d, depth = d + 1 → Again S spare D d)
    (h : Mapped S (nestedAt S .lossless depth).entry u (us ++ v :: ws))
    (hlen : ∀ r ∈ Value.records f v, (r.2.body r.1).length < 2 ^ 64) :
    ∃ p, Value.records f v = [(f.number, p)] ∧
      Takes (readField S .lossless (depth + spare) t (Message.set f (.many us) []) f.number
        p.wireType) (p.body f.number) (Message.set f (.many (us ++ [v])) []) := by
  have hmem := Schema.mem_of_messageOf? hu
  have hentry : ∀ {g n}, S.field? u n = some g → g.OfEntry S spare D := hD.entry ht hf hmap hu
  have hunmapped : ∀ {g n}, S.field? u n = some g → g.map = false := fun hg =>
    (hentry hg).map_eq_false (hS.field hmem hg)
  have hr := (hS.field (hD.mem ht) hf).repeated_of_map hmap
  obtain ⟨raw, ⟨step, b, hs, hruns⟩, rfl⟩ := h.made v (by simp)
  rw [eq_readField hs hunmapped] at hruns
  obtain ⟨rs, -, hsteps⟩ := Fills.exists_records hS hmem hruns
  have hraw := Sourced.nil.steps hS hmem hsteps
  have hapart : ∀ e ∈ us, sameKey u e (.message (entrySlots S u raw)) = false := fun e he =>
    (List.pairwise_append.mp h.apart).2.2 e he _ List.mem_cons_self
  have hshaped := entrySlots_shaped hS hmem hentry hraw.shaped
  obtain ⟨other, ho⟩ : ∃ other, (nestedAt S .lossless (depth + spare)).entry = some other := by
    cases depth + spare <;> exact ⟨_, rfl⟩
  have hsteps : Steps (other u) [] (Value.recordsOf (entrySlots S u raw)) (entrySlots S u raw) := by
    rw [eq_readField ho hunmapped]
    exact steps_entry hS hD hmem hentry hin hraw (length_of_record hS hu hshaped hlen)
  obtain ⟨p, hrecords, hw, hmakes⟩ := exists_record hS hu hn hshaped hsteps hlen
  refine ⟨p, hrecords, ?_⟩
  have haccepts : Accepts S .lossless (nestedAt S .lossless (depth + spare)) f
      (Message.set f (.many us) []) f.kind.wireType (p.body f.number)
        (putNested S .lossless u f (Message.set f (.many us) []) (entrySlots S u raw)) :=
    .nested hu (by rw [hmap]; exact ho) (startOf_repeated hr _ ▸ hmakes)
  -- an entry that is read again stays as it is, and takes the place of no other
  rw [putNested_map hmap hu, entrySlots_again hS hmem hentry hraw.shaped, valuesOf_set,
    set_set_nil, List.filter_eq_self.mpr fun e he => by rw [hapart e he]; rfl] at haccepts
  exact readField_takes_iff.mpr (.known hf (hw ▸ haccepts))

/-- The records that a field was written as set it as it was. -/
theorem Value.Sourced.steps (ht : D t) (hn : InRange f.number)
    (hslot : Slot.Shaped S t (.known f v)) (hin : ∀ d, depth = d + 1 → Again S spare D d)
    (h : Value.Sourced S (nestedAt S .lossless depth) f v)
    (hlen : ∀ r ∈ Value.records f v, (r.2.body r.1).length < 2 ^ 64) :
    Steps (readField S .lossless (depth + spare) t) [] (Value.records f v) [.known f v] := by
  have hset := set_nil_of_shaped hslot
  have hshaped := hslot
  rw [Slot.Shaped] at hslot
  obtain ⟨hf, -, hv⟩ := hslot
  have hreg := hS.field (hD.mem ht) hf
  cases h with
  | single hk => exact steps_single hS (hD.mem ht) hk (hD.presence ht hf) hshaped hn hlen
  | @message u inner hmap hu h =>
    rw [Value.Shaped] at hv
    obtain ⟨d, hd, hinner, hsteps⟩ := h.reads hS hD.mem (hD.inner ht hf hmap hu) hin
    rw [hd]
    exact steps_one hS hf hmap (by simpa using hv.1) hu hn hinner
      (hsteps (length_of_record hS hu hinner hlen)) hlen
  | @messages u vs hmap hu h =>
    rw [Value.Shaped] at hv
    have hr : f.repeated = true := by simpa using hv.1
    rw [Value.records, Schema.not_packed hreg hu, if_neg Bool.false_ne_true] at hlen ⊢
    rw [← hset]
    refine steps_each hn (hD.presence ht hf hr) fun us x ws he => ?_
    have hx : x ∈ vs := by simp [he]
    obtain ⟨inner, rfl, hinner⟩ := h x hx
    have hshort : ∀ r ∈ Value.records f (.message inner), (r.2.body r.1).length < 2 ^ 64 :=
      fun r hr => hlen r (mem_recordsEach_iff.mpr ⟨_, hx, hr⟩)
    obtain ⟨d, hd, hinner, hsteps⟩ := hinner.reads hS hD.mem (hD.inner ht hf hmap hu) hin
    obtain ⟨p, hrecords, htakes⟩ := exists_takes hS hf hmap hu hn hinner
      (hsteps (length_of_record hS hu hinner hshort)) hshort
    refine ⟨p, hrecords, ?_⟩
    have hone := htakes (Message.set f (.many us) []) (startOf_repeated hr _)
    rwa [putNested_repeated hr hmap, valuesOf_set, set_set_nil, ← hd] at hone
  | @entries u vs hmap hu h =>
    have hr := hreg.repeated_of_map hmap
    rw [Value.records, Schema.not_packed hreg hu, if_neg Bool.false_ne_true] at hlen ⊢
    rw [← hset]
    refine steps_each hn (hD.presence ht hf hr) fun us x ws he => ?_
    subst he
    exact h.takes hS hD ht hf hmap hu hn hin fun r hr =>
      hlen r (mem_recordsEach_iff.mpr ⟨x, by simp, hr⟩)

theorem again : Again S spare D depth := by
  induction depth using Nat.strong_induction_on with
  | _ depth ih =>
    intro t b m ht h hlen
    have hmem := hD.mem ht
    obtain ⟨rs, -, hsteps⟩ := h.exists_records hS hmem
    have hm := Sourced.nil.steps hS hmem hsteps
    refine steps_of_slots hm.shaped hm.unrivalled (fun f v hf => ?_) fun n p hp =>
      (hm.stays n p hp).deeper spare
    obtain ⟨hn, hv⟩ := hm.known f v hf
    exact hv.steps hS hD ht hn (hm.shaped.slot hf) (fun d hd => ih d (by omega))
      (length_of_mem_records hS hmem hm.shaped hlen hf)

/-- What a lossless reader made of some bytes, one that may nest messages deeper makes of what is
written of it. -/
theorem fills_again (ht : D t) (h : Fills S .lossless depth t [] b m)
    (hlen : (Value.encodeSlots m).length < 2 ^ 64) :
    Fills S .lossless (depth + spare) t [] (Value.encodeSlots m) m := by
  have hm := Fills.shaped hS (fun h => by cases h) (hD.mem ht) h .nil
  exact (fills_encode_iff hS (hD.mem ht) hm.typed).mpr (again hS hD t b m ht h hlen)

/-- What it made of the records of a field, it makes of those that are written of the field. -/
theorem steps_only_again (ht : D t) (hf : S.field? t n = some f)
    (h : Fills S .lossless depth t [] b m)
    (hlen : ∀ r ∈ Value.recordsOf (m.only n), (r.2.body r.1).length < 2 ^ 64) :
    Steps (readField S .lossless (depth + spare) t) [] (Value.recordsOf (m.only n)) (m.only n) := by
  have hmem := hD.mem ht
  obtain ⟨rs, -, hsteps⟩ := h.exists_records hS hmem
  have hm := Sourced.nil.steps hS hmem hsteps
  rcases only_of_shaped hf hm.shaped with hnone | ⟨v, hv⟩
  · rw [hnone, Value.recordsOf]
    exact .nil _
  · have hslot : Slot.known f v ∈ m := (mem_only_iff.mp (hv ▸ List.mem_singleton_self _)).1
    obtain ⟨hn, hsourced⟩ := hm.known f v hslot
    rw [hv, Value.recordsOf, Value.recordsOf, List.append_nil, Value.slotRecords] at hlen ⊢
    exact hsourced.steps hS hD ht hn (hm.shaped.slot hslot) (fun d _ => again hS hD) hlen

end Again

end Message
end DescriptorKit
