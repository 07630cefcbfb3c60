import DescriptorKit.Proofs.Message.Held

/-!
Fields of messages. Each record of such a field is read as a message of its own, so that records of
a repeated field and messages in it go one by one.
-/
namespace DescriptorKit.Message
open Wire Payload

variable {S : Schema} {reading : Reading} {t u : MessageType} {f : Field} {depth n : Nat}
  {m m' k : Message} {p : Payload} {rs : List (Nat × Payload)} {ks : List Message}

/-- The schema has a field of messages for the number. -/
structure Holds (S : Schema) (t : MessageType) (n : Nat) (f : Field) (u : MessageType) : Prop where
  field : S.field? t n = some f
  kind : ∃ type, f.kind = .message type
  type : S.messageOf? f = some u
  map : f.map = false

/-- What a reader makes of the message in a payload, one level down. -/
def Inside (S : Schema) (reading : Reading) (depth : Nat) (u : MessageType) (start : Message)
    (p : Payload) (inner : Message) : Prop :=
  ∃ d b, depth = d + 1 ∧ p = .delimited b ∧ b.length < 2 ^ 64 ∧ Fills S reading d u start b inner

theorem Holds.wireType (hf : Holds S t n f u) : f.kind.wireType = .delimited := by
  obtain ⟨type, hk⟩ := hf.kind
  rw [hk]
  rfl

theorem readField_iff_inside (hf : Holds S t n f u) :
    Takes (readField S reading depth t m n p.wireType) (p.body n) m' ↔
      ∃ inner, Inside S reading depth u (startOf f m) p inner ∧
        m' = putNested S reading u f m inner := by
  obtain ⟨type, hk⟩ := hf.kind
  have hstep : ∀ step, (if f.map then (nestedAt S reading depth).entry
      else (nestedAt S reading depth).message) = some step ↔
        ∃ d, depth = d + 1 ∧ step = readField S reading d := by
    intro step
    rw [hf.map, if_neg Bool.false_ne_true]
    cases depth with
    | zero => simp [nestedAt]
    | succ d => simp [nestedAt, eq_comm]
  rw [readField_takes_iff]
  constructor
  · intro h
    cases h with
    | unknown hn _ =>
      rw [hf.field] at hn
      cases hn
    | known hg h =>
      rw [hf.field] at hg
      obtain rfl := Option.some.inj hg
      generalize hw : p.wireType = w at h
      generalize hb : p.body n = x at h
      cases h with
      | single hs => exact absurd hk (hs.2 type)
      | more hs => exact absurd hk (hs.2 type)
      | packed hs => exact absurd hk (hs.2 type)
      | @nested _ u' step inner hu hs h =>
        rw [hf.type] at hu
        obtain rfl := Option.some.inj hu
        obtain ⟨d, rfl, rfl⟩ := (hstep step).mp hs
        rw [hf.wireType] at hw h
        obtain ⟨b, rfl⟩ : ∃ b, p = .delimited b := by
          cases p with
          | delimited b => exact ⟨b, rfl⟩
          | _ => cases hw
        generalize hw' : WireType.delimited = w at h
        cases h with
        | group h => cases hw'
        | delimited hl h =>
          have hd := Cursor.repeatDelimited_takes record_advances hl h []
          rw [← hb] at hd
          obtain ⟨hlt, -, hruns⟩ := Cursor.repeatDelimited_encode_inv
            (record_local (readField_local S reading d u)) hd
          exact ⟨inner, ⟨d, b, rfl, rfl, hlt, hruns⟩, rfl⟩
  · rintro ⟨inner, ⟨d, b, rfl, rfl, hlt, hruns⟩, rfl⟩
    have hmakes : Makes (readField S reading d u) f.number (startOf f m) .delimited
        (encodeDelimited b) inner := .delimited (Cursor.readVarint_encode hlt) hruns
    have haccepts : Accepts S reading (nestedAt S reading (d + 1)) f m f.kind.wireType
        (encodeDelimited b) (putNested S reading u f m inner) :=
      .nested hf.type ((hstep _).mpr ⟨d, rfl, rfl⟩) (hf.wireType.symm ▸ hmakes)
    rw [hf.wireType] at haccepts
    exact .known hf.field haccepts

/-- A reader that gets past a message has read its length. -/
theorem length_of_steps (hf : Holds S t n f u) (h : Steps (readField S reading depth t) m rs m')
    {b : Bytes} (hb : (n, .delimited b) ∈ rs) : b.length < 2 ^ 64 := by
  induction h with
  | nil => cases hb
  | cons _ htakes _ ih =>
    rcases List.mem_cons.mp hb with he | hb
    · obtain ⟨rfl, rfl⟩ := Prod.mk.inj he
      obtain ⟨-, ⟨-, x, -, hx, hlen, -⟩, -⟩ := (readField_iff_inside hf).mp htakes
      exact Payload.delimited.inj hx ▸ hlen
    · exact ih hb

section Repeated

/-- The messages that a reader makes of records, one of each. -/
abbrev Inners (S : Schema) (reading : Reading) (depth : Nat) (u : MessageType) :
    List (Nat × Payload) → List Message → Prop :=
  List.Forall₂ fun r k => InRange r.1 ∧ ∃ inner, Inside S reading depth u [] r.2 inner ∧
    k = finish S reading u inner

theorem putNested_repeated (hr : f.repeated = true) (hm : f.map = false) (inner : Message) :
    putNested S reading u f m inner =
      m.set f (.many (m.valuesOf f ++ [.message (finish S reading u inner)])) := by
  unfold putNested add
  simp [hr, hm]

theorem startOf_repeated (hr : f.repeated = true) (m : Message) : startOf f m = [] := by
  rw [startOf, hr, Bool.or_true, if_pos rfl]

/-- The records of the messages in a field have the number of the field. -/
theorem number_of_mem_messages {ms : List Message} {r : Nat × Payload}
    (h : r ∈ ms.map fun x => (n, Payload.delimited (Value.encodeSlots x))) : r.1 = n := by
  obtain ⟨x, -, rfl⟩ := List.mem_map.mp h
  rfl

/-- Reading the records of a repeated field is reading a message of each. -/
theorem inners_of_steps (hf : Holds S t n f u) (hr : f.repeated = true) (hn : ∀ r ∈ rs, r.1 = n)
    (h : Steps (readField S reading depth t) m rs m') :
    ∃ ks, Inners S reading depth u rs ks ∧
      m'.valuesOf f = m.valuesOf f ++ ks.map Value.message := by
  induction h with
  | nil a => exact ⟨[], .nil, by simp⟩
  | @cons a b c number p rs hrange h _ ih =>
    obtain rfl : number = n := hn (number, p) (by simp)
    obtain ⟨inner, hin, rfl⟩ := (readField_iff_inside hf).mp h
    obtain ⟨ks, hks, hv⟩ := ih fun r hr => hn r (List.mem_cons_of_mem _ hr)
    rw [startOf_repeated hr] at hin
    refine ⟨finish S reading u inner :: ks, .cons ⟨hrange, inner, hin, rfl⟩ hks, ?_⟩
    rw [hv, putNested_repeated hr hf.map, valuesOf_set, List.map_cons, List.append_assoc]
    rfl

theorem steps_of_inners (hf : Holds S t n f u) (hr : f.repeated = true) (hn : ∀ r ∈ rs, r.1 = n)
    (h : Inners S reading depth u rs ks) (m : Message) :
    ∃ m', Steps (readField S reading depth t) m rs m' ∧
      m'.valuesOf f = m.valuesOf f ++ ks.map Value.message := by
  induction h generalizing m with
  | nil => exact ⟨m, .nil m, by simp⟩
  | @cons r k rs ks hone _ ih =>
    obtain ⟨number, p⟩ := r
    obtain rfl : number = n := hn (number, p) (by simp)
    obtain ⟨hrange, inner, hin, rfl⟩ := hone
    rw [← startOf_repeated hr m] at hin
    obtain ⟨m', hm', hv⟩ := ih (fun r hr => hn r (List.mem_cons_of_mem _ hr))
      (putNested S reading u f m inner)
    refine ⟨m', .cons hrange ((readField_iff_inside hf).mpr ⟨inner, hin, rfl⟩) hm', ?_⟩
    rw [hv, putNested_repeated hr hf.map, valuesOf_set, List.map_cons, List.append_assoc]
    rfl

end Repeated

section Single

theorem putNested_single (hr : f.repeated = false) (hm : f.map = false) (inner : Message) :
    putNested S reading u f m inner = m.set f (.message (finish S reading u inner)) := by
  unfold putNested
  simp [hr, hm]

theorem set_nil_message (f : Field) (inner : Message) :
    Message.set f (.message inner) [] = [.known f (.message inner)] := by
  unfold set
  simp [Value.isZero, get?, insert]

/-- Reading one record of a field of a single message. -/
theorem steps_one_iff (hf : Holds S t n f u) (hr : f.repeated = false) :
    Steps (readField S reading depth t) [] [(n, p)] m' ↔ InRange n ∧
      ∃ inner, Inside S reading depth u [] p inner ∧
        m' = [.known f (.message (finish S reading u inner))] := by
  have hstart : startOf f [] = [] := by
    unfold startOf
    split <;> rfl
  constructor
  · intro h
    cases h with
    | cons hn h hs =>
      cases hs
      obtain ⟨inner, hin, rfl⟩ := (readField_iff_inside hf).mp h
      rw [hstart] at hin
      exact ⟨hn, inner, hin, by rw [putNested_single hr hf.map, set_nil_message]⟩
  · rintro ⟨hn, inner, hin, rfl⟩
    refine .cons hn ((readField_iff_inside hf).mpr ⟨inner, hstart.symm ▸ hin, ?_⟩) (.nil _)
    rw [putNested_single hr hf.map, set_nil_message]

end Single

end DescriptorKit.Message
