import DescriptorKit.Message.Decode
import DescriptorKit.Proofs.Schema

/-!
How messages are read. A message is made record by record; each record is taken on its own, and
where the records of a message were written one by one, each of them makes for one step.
-/
namespace DescriptorKit
open Wire Payload

namespace Message

section Records

variable {α : Type} {step : α → Nat → WireType → Cursor → Except Failure (α × Cursor)}
  {a a' : α} {rs : List (Nat × Payload)} {number : Nat} {p : Payload} {x y : Bytes}

theorem lift_eq {β : Type} (r : Except Fault β) : lift r = r.mapError fun f => ⟨f, []⟩ := by
  cases r <;> rfl

/-- Reads a key and makes a step with it. -/
def record (step : α → Nat → WireType → Cursor → Except Failure (α × Cursor)) (a : α)
    (c : Cursor) : Except Failure (α × Cursor) := do
  let (number, w, c) ← lift c.readKey
  step a number w c

theorem record_eq (a : α) (c : Cursor) :
    record step a c = ((Cursor.key c).mapError fun f => Failure.mk f []) >>= fun p =>
      step a p.1.1 p.1.2 p.2 := by
  rw [record, lift_eq, Cursor.key]
  cases c.readKey <;> rfl

theorem record_local (hl : ∀ a n w, Local (step a n w)) (a : α) : Local (record step a) := by
  rw [funext (record_eq a)]
  have : Local fun c => ((Cursor.key c).mapError fun f => Failure.mk f []) >>= fun p =>
      (fun k : Nat × WireType => step a k.1 k.2) p.1 p.2 :=
    (Cursor.key_local.mapError fun f => Failure.mk f []).bind fun k => hl a k.1 k.2
  exact this

theorem record_advances : Advances (record step) := by
  rintro a x b h rfl
  have := h []
  have hk : Cursor.key (Cursor.ofBytes ([] ++ [])) = .error .varint := by
    rw [Cursor.key_eq]
    rfl
  rw [record_eq, hk] at this
  cases this

theorem record_takes (hn : InRange number)
    (h : Takes (step a number p.wireType) (p.body number) a') :
    Takes (record step a) (p.encode number) a' := by
  intro y
  rw [record_eq, encode_eq, List.append_assoc, Cursor.key_encode hn.1 hn.2]
  exact h y

/-- A record that was written is taken where its payload is. -/
theorem record_inv (hl : ∀ a n w, Local (step a n w)) (he : Ends step p) {c : Cursor}
    (h : record step a (.ofBytes (p.encode number ++ y)) = .ok (a', c)) :
    InRange number ∧ Takes (step a number p.wireType) (p.body number) a' ∧ c = .ofBytes y := by
  rw [record_eq, encode_eq, List.append_assoc] at h
  cases hk : Cursor.key (.ofBytes (encodeKey number p.wireType ++ (p.body number ++ y))) with
  | error f =>
    rw [hk] at h
    cases h
  | ok r =>
    obtain ⟨h₀, h₁, hk', hc⟩ := Cursor.key_encode_inv (k := r.1) (c := r.2) hk
    rw [hk] at h
    change step a r.1.1 r.1.2 r.2 = _ at h
    rw [hk', hc] at h
    have hend := he _ _ _ _ _ h
    rw [hend] at h
    exact ⟨⟨h₀, h₁⟩, (hl _ _ _).takes h, hend⟩

theorem runs_of_steps (h : Steps step a rs a') : Runs (record step) a (encodeAll rs) a' := by
  induction h with
  | nil a => exact .nil a
  | cons hn h _ ih => exact .cons (record_takes hn h) ih

theorem steps_of_runs (hl : ∀ a n w, Local (step a n w)) (he : ∀ r ∈ rs, Ends step r.2)
    (h : Runs (record step) a (encodeAll rs) a') : Steps step a rs a' := by
  induction rs generalizing a with
  | nil =>
    rw [h.of_nil record_advances rfl]
    exact .nil a
  | cons r rs ih =>
    obtain ⟨n, p⟩ := r
    rw [encodeAll] at h
    generalize hb : p.encode n ++ encodeAll rs = b at h
    cases h with
    | nil =>
      have : p.encode n = [] := (List.append_eq_nil_iff.mp hb).1
      rw [encode_eq] at this
      exact absurd (List.append_eq_nil_iff.mp this).1 Varint.encode_ne_nil
    | @cons _ a₁ _ x y h hs =>
      have hr : record step a (.ofBytes (p.encode n ++ encodeAll rs)) = .ok (a₁, .ofBytes y) := by
        rw [hb]
        exact h y
      obtain ⟨hn, ht, hc⟩ := record_inv hl (he (n, p) (by simp)) hr
      obtain rfl := ofBytes_inj hc
      exact .cons hn ht (ih (fun r hr => he r (List.mem_cons_of_mem _ hr)) hs)

theorem runs_iff_steps (hl : ∀ a n w, Local (step a n w)) (he : ∀ r ∈ rs, Ends step r.2) :
    Runs (record step) a (encodeAll rs) a' ↔ Steps step a rs a' :=
  ⟨steps_of_runs hl he, runs_of_steps⟩

end Records

section Scalars

variable {k : Kind} {p : Payload} {number : Nat} {x y : Bytes} {v : Value} {s : Scalar}
  {c : Cursor} {vs vs' : List Value}

theorem readScalar_eq (k : Kind) (c : Cursor) :
    readScalar k c = ((Scalar.readKind k c).mapError fun f => Failure.mk f []) >>= fun r =>
      .ok (.scalar r.1, r.2) := by
  cases k with
  | scalar k =>
    cases hr : Scalar.read k c <;>
      simp [readScalar, Scalar.readKind, hr, lift, Except.mapError, bind, Except.bind]
  | _ =>
    cases hr : Scalar.readEnum c <;>
      simp [readScalar, Scalar.readKind, hr, lift, Except.mapError, bind, Except.bind]

theorem readKind_local (hk : k.Single) : Local (Scalar.readKind k) := by
  rw [funext (Scalar.readKind_eq hk.1 hk.2)]
  refine (readFlat_local k.wireType).bind fun p => ?_
  unfold Scalar.toldBy
  cases Scalar.ofPayload k p with
  | error f => exact .error f
  | ok s => exact .ok s

theorem readScalar_local (hk : k.Single) : Local (readScalar k) := by
  rw [funext (readScalar_eq k)]
  exact ((readKind_local hk).mapError fun f => Failure.mk f []).map fun s => Value.scalar s

theorem readScalar_takes (hk : k.Single) (hw : p.wireType = k.wireType) (hf : p.Flat)
    (hs : Scalar.ofPayload k p = .ok s) : Takes (readScalar k) (p.body number) (.scalar s) := by
  intro y
  rw [readScalar_eq, Scalar.readKind_eq hk.1 hk.2, ← hw, readFlat_takes hf]
  simp only [bind, Except.bind, Scalar.toldBy, hs, Except.mapError]

theorem readScalar_inv (hk : k.Single) (hw : p.wireType = k.wireType)
    (h : readScalar k (.ofBytes (p.body number ++ y)) = .ok (v, c)) :
    p.Flat ∧ c = .ofBytes y ∧ ∃ s, Scalar.ofPayload k p = .ok s ∧ v = .scalar s := by
  rw [readScalar_eq, Scalar.readKind_eq hk.1 hk.2, ← hw] at h
  cases hr : readFlat p.wireType (.ofBytes (p.body number ++ y)) with
  | error f =>
    rw [hr] at h
    cases h
  | ok r =>
    have hf := flat_of_readFlat (q := r.1) (c := r.2) hr
    rw [readFlat_takes hf] at h
    cases hs : Scalar.ofPayload k p with
    | error f =>
      simp only [bind, Except.bind, Scalar.toldBy, hs] at h
      cases h
    | ok s =>
      simp only [bind, Except.bind, Scalar.toldBy, hs, Except.mapError, Except.ok.injEq,
        Prod.mk.injEq] at h
      exact ⟨hf, h.2.symm, s, rfl, h.1.symm⟩

/-- What is read as a scalar is one of the kind, or of an enum. -/
theorem fits_of_readScalar (hk : k.Single) {c' : Cursor} (h : readScalar k c = .ok (v, c')) :
    ∃ s, v = .scalar s ∧ s.Fits k := by
  rw [readScalar_eq, Scalar.readKind_eq hk.1 hk.2] at h
  cases hr : readFlat k.wireType c with
  | error f =>
    rw [hr] at h
    cases h
  | ok r =>
    rw [hr] at h
    cases hs : Scalar.ofPayload k r.1 with
    | error f =>
      simp only [bind, Except.bind, Scalar.toldBy, hs] at h
      cases h
    | ok s =>
      simp only [bind, Except.bind, Scalar.toldBy, hs, Except.mapError, Except.ok.injEq,
        Prod.mk.injEq] at h
      exact ⟨s, h.1.symm, Scalar.fits_of_ofPayload hs⟩

theorem readScalar_ne_nil (hk : k.Single) (h : Takes (readScalar k) x v) : x ≠ [] := by
  rintro rfl
  have := h []
  have hflat : ∃ f, readFlat k.wireType (Cursor.ofBytes ([] ++ [])) = .error f := by
    cases k.wireType <;> exact ⟨_, rfl⟩
  obtain ⟨f, hf⟩ := hflat
  rw [readScalar_eq, Scalar.readKind_eq hk.1 hk.2, hf] at this
  cases this

/-- Reads one more of the values that share a record, and puts it in front. -/
def readOneMore (k : Kind) (vs : List Value) (c : Cursor) :
    Except Failure (List Value × Cursor) := do
  let (v, c) ← readScalar k c
  .ok (v :: vs, c)

theorem readOneMore_local (hk : k.Single) (vs : List Value) : Local (readOneMore k vs) :=
  (readScalar_local hk).map fun v => v :: vs

theorem readOneMore_takes (h : Takes (readOneMore k vs) x vs') (hk : k.Single) :
    ∃ s, vs' = .scalar s :: vs ∧ s.Fits k := by
  have ht := h []
  rw [readOneMore] at ht
  cases hr : readScalar k (.ofBytes (x ++ [])) with
  | error f =>
    rw [hr] at ht
    cases ht
  | ok r =>
    obtain ⟨s, hv, hs⟩ := fits_of_readScalar hk (show _ = Except.ok (r.1, r.2) from hr)
    rw [hr] at ht
    obtain ⟨rfl, -⟩ := Prod.mk.inj (Except.ok.inj ht)
    exact ⟨s, by rw [hv], hs⟩

theorem fits_of_runs (hk : k.Single) (h : Runs (readOneMore k) vs x vs') :
    ∀ v ∈ vs', v ∈ vs ∨ ∃ s, v = .scalar s ∧ s.Fits k := by
  induction h with
  | nil => exact fun v hv => Or.inl hv
  | cons h _ ih =>
    obtain ⟨s, rfl, hs⟩ := readOneMore_takes h hk
    intro v hv
    rcases ih v hv with hv | hv
    · rcases List.mem_cons.mp hv with rfl | hv
      · exact Or.inr ⟨s, rfl, hs⟩
      · exact Or.inl hv
    · exact Or.inr hv

theorem readOneMore_advances (hk : k.Single) : Advances (readOneMore k) := by
  intro vs x vs' h
  rintro rfl
  have ht := h []
  rw [readOneMore] at ht
  cases hr : readScalar k (.ofBytes ([] ++ [])) with
  | error f =>
    rw [hr] at ht
    cases ht
  | ok r =>
    rw [hr] at ht
    obtain ⟨-, hc⟩ := Prod.mk.inj (Except.ok.inj ht)
    have htake : Takes (readScalar k) [] r.1 :=
      (readScalar_local hk).takes (y := []) (hr.trans (by rw [← hc]))
    exact readScalar_ne_nil hk htake rfl

end Scalars

section Fields

variable {S : Schema} {reading : Reading} {f : Field} {t : MessageType} {m m' inner : Message}
  {w : WireType} {c : Cursor} {number depth : Nat} {p : Payload} {nested : Nested} {type : String}
  {x b : Bytes}

/-- What becomes of a nested message that was read: a typed reader fills in what is required. -/
def finish (S : Schema) (reading : Reading) (t : MessageType) (m : Message) : Message :=
  if reading = .typed then fillRequired S t m else m

/-- What holds of a message, and goes on holding when a required field is set that it lacks, holds
once all required fields are filled in. -/
theorem fillRequired_induction {P : Message → Prop} (hm : P m)
    (hset : ∀ m f, P m → f ∈ t.fields → f.required = true → m.get? f = none →
      P (m.set f (S.default f))) : P (fillRequired S t m) := by
  have hfold : ∀ fs : List Field, (∀ f ∈ fs, f ∈ t.fields) → ∀ m : Message, P m →
      P (fs.foldl (fun (m : Message) (f : Field) =>
        if f.required && (m.get? f).isNone then m.set f (S.default f) else m) m) := by
    intro fs
    induction fs with
    | nil => exact fun _ _ hm => hm
    | cons f fs ih =>
      intro hfs m hm
      refine ih (fun g hg => hfs g (List.mem_cons_of_mem _ hg)) _ ?_
      dsimp only
      split
      · rename_i hr
        simp only [Bool.and_eq_true, Option.isNone_iff_eq_none] at hr
        exact hset m f hm (hfs f List.mem_cons_self) hr.1 hr.2
      · exact hm
  exact hfold t.fields (fun _ h => h) m hm

theorem fillRequired_of_forall
    (h : ∀ f ∈ t.fields, f.required = true → (m.get? f).isSome) : fillRequired S t m = m := by
  refine fillRequired_induction (P := fun k => k = m) rfl ?_
  rintro k f rfl hf hr hnone
  have := h f hf hr
  rw [hnone] at this
  cases this

theorem finish_of_none (h : ∀ f ∈ t.fields, f.required = false) (m : Message) :
    finish S reading t m = m := by
  unfold finish
  split
  · exact fillRequired_of_forall fun f hf hr => by simp [h f hf] at hr
  · rfl

/-- What messages of the field start from where one is there already. -/
def startOf (f : Field) (m : Message) : Message :=
  if f.map || f.repeated then [] else ((m.get? f).bind Value.message?).getD []

/-- Puts a nested message into its field. -/
def putNested (S : Schema) (reading : Reading) (t : MessageType) (f : Field) (m inner : Message) :
    Message :=
  if f.map then m.add S f (.message inner)
  else if f.repeated then m.add S f (.message (finish S reading t inner))
  else m.set f (.message (finish S reading t inner))

theorem readKnown_nested (hk : f.kind = .message type ∨ f.kind = .group type) :
    readKnown S reading nested f m w c =
      match S.message? type with
      | none => .error ⟨.tooDeep, []⟩
      | some t => readNested (if f.map then nested.entry else nested.message) t f w
          (startOf f m) c >>= fun p => .ok (putNested S reading t f m p.1, p.2) := by
  rcases hk with hk | hk
  all_goals
    unfold readKnown
    rw [hk]
    dsimp only
    cases S.message? type with
    | none => rfl
    | some t =>
      dsimp only
      unfold startOf putNested finish
      by_cases hm : f.map = true
      · simp only [hm, if_true, Bool.true_or]
      · by_cases hr : f.repeated = true
        · simp only [hm, hr, if_true, Bool.or_true, if_false, Bool.false_eq_true]
        · simp only [hm, hr, if_false, Bool.or_false, Bool.false_eq_true]
          cases m.get? f <;> rfl

theorem readKnown_single (hk : f.kind.Single) : readKnown S reading nested f m w c =
    if f.repeated then
      if w = .delimited && f.packable then
        c.repeatDelimited (readOneMore f.kind) [] >>= fun p =>
          .ok (m.set f (.many (m.valuesOf f ++ p.1.reverse)), p.2)
      else expect w f.kind.wireType >>= fun _ => readScalar f.kind c >>= fun p =>
        .ok (m.add S f p.1, p.2)
    else expect w f.kind.wireType >>= fun _ => readScalar f.kind c >>= fun p =>
      .ok (m.set f p.1, p.2) := by
  have hold : ((m.get? f).getD (.many [])).many?.getD [] = m.valuesOf f := by
    rw [valuesOf]
    cases m.get? f <;> rfl
  unfold readKnown
  cases hkind : f.kind with
  | message type => exact absurd hkind (hk.2 type)
  | group type => exact absurd (by rw [hkind]; rfl) hk.1
  | _ =>
    dsimp only
    by_cases hr : f.repeated = true
    · simp only [hr, if_true, hold]
      rfl
    · simp only [hr, if_false, Bool.false_eq_true]

theorem expect_ok {found expected : WireType} {u : Unit} (h : expect found expected = .ok u) :
    found = expected := by
  rw [expect] at h
  split at h
  · assumption
  · cases h

/-- A step that reads each record on its own, whatever the type. -/
def StepLocal (step : Step) : Prop := ∀ t m n w, Local (step t m n w)

/-- A step that stops behind every payload that it gets past. -/
def StepEnds (step : Step) : Prop := ∀ t p, Ends (step t) p

theorem readNested_eq (step : Option Step) (t : MessageType) (f : Field) (w : WireType)
    (m : Message) (c : Cursor) : readNested step t f w m c =
      expect w f.kind.wireType >>= fun _ =>
        match step with
        | none => .error ⟨.tooDeep, []⟩
        | some step =>
          if f.kind.wireType = .startGroup then
            c.repeatGroup f.number (step t) (c.size + 1) m
          else c.repeatDelimited (record (step t)) m := by
  cases step <;> rfl

/-- The message that the steps make of the value of a nested one. -/
inductive Makes (step : Message → Nat → WireType → Cursor → Except Failure (Message × Cursor))
    (number : Nat) (m : Message) : WireType → Bytes → Message → Prop where
  | delimited {l b : Bytes} {m' : Message} (hl : Takes Cursor.readVarint l b.length)
      (h : Runs (record step) m b m') : Makes step number m .delimited (l ++ b) m'
  | group {x : Bytes} {m' : Message} (h : Cursor.Group number step m x m') :
      Makes step number m .startGroup x m'

theorem readNested_takes {s : Step} (hw : w = f.kind.wireType)
    (h : Makes (s t) f.number m w x m') : Takes (readNested (some s) t f w m) x m' := by
  intro y
  rw [readNested_eq, expect, if_pos hw]
  change (if _ then _ else _) = _
  cases h with
  | delimited hl h =>
    rw [if_neg (by rw [← hw]; simp)]
    exact Cursor.repeatDelimited_takes record_advances hl h y
  | group h =>
    rw [if_pos hw.symm]
    exact Cursor.repeatGroup_takes h y

theorem readNested_inv {step : Option Step} (hl : ∀ s, step = some s → StepLocal s)
    (hk : f.kind.wireType = .delimited ∨ f.kind.wireType = .startGroup)
    (h : readNested step t f w m (.ofBytes b) = .ok (m', c)) :
    ∃ x y, b = x ++ y ∧ c = .ofBytes y ∧ w = f.kind.wireType ∧
      ∃ s, step = some s ∧ Makes (s t) f.number m w x m' := by
  rw [readNested_eq] at h
  cases hx : expect w f.kind.wireType with
  | error e =>
    rw [hx] at h
    cases h
  | ok u =>
    obtain rfl := expect_ok hx
    rw [hx] at h
    cases step with
    | none => cases h
    | some s =>
      have hls := hl s rfl t
      change (if _ then _ else _) = _ at h
      rcases hk with hk | hk
      · rw [if_neg (by rw [hk]; simp)] at h
        obtain ⟨l, x, y, rfl, hc, hlen, hr⟩ := Cursor.repeatDelimited_inv (record_local hls) h
        exact ⟨l ++ x, y, rfl, hc, rfl, s, rfl, hk ▸ .delimited hlen hr⟩
      · rw [if_pos hk] at h
        obtain ⟨x, y, rfl, hc, hg⟩ := Cursor.repeatGroup_inv hls h
        exact ⟨x, y, rfl, hc, rfl, s, rfl, hk ▸ .group hg⟩

/-- What a record of a declared field makes of a message. -/
inductive Accepts (S : Schema) (reading : Reading) (nested : Nested) (f : Field) (m : Message) :
    WireType → Bytes → Message → Prop where
  | single {x : Bytes} {v : Value} (hk : f.kind.Single) (hr : f.repeated = false)
      (h : Takes (readScalar f.kind) x v) :
      Accepts S reading nested f m f.kind.wireType x (m.set f v)
  | more {x : Bytes} {v : Value} (hk : f.kind.Single) (hr : f.repeated = true)
      (hp : ¬ (f.kind.wireType = .delimited ∧ f.packable = true))
      (h : Takes (readScalar f.kind) x v) :
      Accepts S reading nested f m f.kind.wireType x (m.add S f v)
  | packed {l b : Bytes} {vs : List Value} (hk : f.kind.Single) (hr : f.repeated = true)
      (hp : f.packable = true) (hl : Takes Cursor.readVarint l b.length)
      (h : Runs (readOneMore f.kind) [] b vs) :
      Accepts S reading nested f m .delimited (l ++ b)
        (m.set f (.many (m.valuesOf f ++ vs.reverse)))
  | nested {x : Bytes} {t : MessageType} {step : Step} {inner : Message}
      (ht : S.messageOf? f = some t)
      (hs : (if f.map then nested.entry else nested.message) = some step)
      (h : Makes (step t) f.number (startOf f m) f.kind.wireType x inner) :
      Accepts S reading nested f m f.kind.wireType x (putNested S reading t f m inner)

/-- The steps by which messages in fields are read do their part. -/
structure Nested.Good (nested : Nested) : Prop where
  message_local : ∀ s, nested.message = some s → StepLocal s
  message_ends : ∀ s, nested.message = some s → StepEnds s
  entry_local : ∀ s, nested.entry = some s → StepLocal s
  entry_ends : ∀ s, nested.entry = some s → StepEnds s

theorem Nested.Good.local (h : nested.Good) (b : Bool) :
    ∀ s, (if b then nested.entry else nested.message) = some s → StepLocal s := by
  cases b
  · exact h.message_local
  · exact h.entry_local

theorem Nested.Good.ends (h : nested.Good) (b : Bool) :
    ∀ s, (if b then nested.entry else nested.message) = some s → StepEnds s := by
  cases b
  · exact h.message_ends
  · exact h.entry_ends

theorem readKnown_takes (h : Accepts S reading nested f m w x m') :
    Takes (readKnown S reading nested f m w) x m' := by
  intro y
  cases h with
  | single hk hr h =>
    rw [readKnown_single hk, if_neg (by simp [hr]), expect, if_pos rfl]
    change (readScalar _ _).bind _ = _
    rw [h]
    rfl
  | more hk hr hp h =>
    rw [readKnown_single hk, if_pos hr, if_neg (by simpa using hp), expect, if_pos rfl]
    change (readScalar _ _).bind _ = _
    rw [h]
    rfl
  | packed hk hr hp hl h =>
    rw [readKnown_single hk, if_pos hr, if_pos (by simp [hp])]
    change (Cursor.repeatDelimited _ _ _).bind _ = _
    rw [Cursor.repeatDelimited_takes (readOneMore_advances hk) hl h]
    rfl
  | @nested x t step inner ht hs h =>
    obtain ⟨type, hk, ht⟩ := Schema.nested_of_messageOf? ht
    rw [readKnown_nested hk, ht]
    change (readNested _ _ _ _ _ _).bind _ = _
    rw [hs, readNested_takes rfl h]
    rfl

theorem wireType_of_nested (hk : f.kind = .message type ∨ f.kind = .group type) :
    f.kind.wireType = .delimited ∨ f.kind.wireType = .startGroup := by
  rcases hk with hk | hk
  · exact Or.inl (by rw [hk]; rfl)
  · exact Or.inr (by rw [hk]; rfl)

theorem readKnown_inv (hn : nested.Good)
    (h : readKnown S reading nested f m w (.ofBytes b) = .ok (m', c)) :
    ∃ x y, b = x ++ y ∧ c = .ofBytes y ∧ Accepts S reading nested f m w x m' := by
  rcases f.kind.single_or_nested with hk | ⟨type, hk⟩
  · have hone : ∀ put : Value → Message, (expect w f.kind.wireType >>= fun _ =>
        readScalar f.kind (.ofBytes b) >>= fun r => .ok (put r.1, r.2)) = .ok (m', c) →
          ∃ x y v, b = x ++ y ∧ c = .ofBytes y ∧ w = f.kind.wireType ∧
            Takes (readScalar f.kind) x v ∧ m' = put v := by
      intro put h
      cases hx : expect w f.kind.wireType with
      | error e =>
        rw [hx] at h
        cases h
      | ok u =>
        have hw := expect_ok hx
        rw [hx] at h
        change (readScalar _ _).bind _ = _ at h
        cases hr : readScalar f.kind (.ofBytes b) with
        | error e =>
          rw [hr] at h
          cases h
        | ok r =>
          obtain ⟨x, y, hb, hc, hv⟩ := readScalar_local hk b r.1 r.2 hr
          rw [hr] at h
          obtain ⟨rfl, rfl⟩ := Prod.mk.inj (Except.ok.inj h)
          exact ⟨x, y, r.1, hb, hc, hw, hv, rfl⟩
    rw [readKnown_single hk] at h
    split at h
    · rename_i hr
      split at h
      · rename_i hp
        simp only [Bool.and_eq_true, decide_eq_true_eq] at hp
        obtain ⟨rfl, hp⟩ := hp
        change (Cursor.repeatDelimited _ _ _).bind _ = _ at h
        cases hd : Cursor.repeatDelimited (readOneMore f.kind) [] (.ofBytes b) with
        | error e =>
          rw [hd] at h
          cases h
        | ok r =>
          obtain ⟨l, x, y, rfl, hc, hl, hruns⟩ := Cursor.repeatDelimited_inv
            (readOneMore_local hk) (show _ = Except.ok (r.1, r.2) from hd)
          rw [hd] at h
          obtain ⟨rfl, rfl⟩ := Prod.mk.inj (Except.ok.inj h)
          exact ⟨l ++ x, y, rfl, hc, .packed hk hr hp hl hruns⟩
      · rename_i hp
        obtain ⟨x, y, v, hb, hc, rfl, hv, rfl⟩ := hone (m.add S f) h
        exact ⟨x, y, hb, hc, .more hk hr (by simpa using hp) hv⟩
    · rename_i hr
      obtain ⟨x, y, v, hb, hc, rfl, hv, rfl⟩ := hone (m.set f) h
      exact ⟨x, y, hb, hc, .single hk (by simpa using hr) hv⟩
  · rw [readKnown_nested hk] at h
    cases ht : S.message? type with
    | none =>
      rw [ht] at h
      cases h
    | some t =>
      rw [ht] at h
      change (readNested _ _ _ _ _ _).bind _ = _ at h
      cases hr : readNested (if f.map then nested.entry else nested.message) t f w
          (startOf f m) (.ofBytes b) with
      | error e =>
        rw [hr] at h
        cases h
      | ok r =>
        obtain ⟨x, y, hb, hc, rfl, s, hs, hmakes⟩ := readNested_inv
          (hn.local f.map) (wireType_of_nested hk) (show _ = Except.ok (r.1, r.2) from hr)
        rw [hr] at h
        obtain ⟨rfl, rfl⟩ := Prod.mk.inj (Except.ok.inj h)
        exact ⟨x, y, hb, hc, .nested ((Schema.messageOf?_eq hk).trans ht) hs hmakes⟩

/-- A record that was written takes nothing of what follows it. -/
theorem readKnown_ends (hn : nested.Good) {y : Bytes}
    (h : readKnown S reading nested f m p.wireType (.ofBytes (p.body f.number ++ y)) =
      .ok (m', c)) : c = .ofBytes y := by
  obtain ⟨x, z, hb, hc, ha⟩ := readKnown_inv hn h
  have hscalar : ∀ v, f.kind.Single → p.wireType = f.kind.wireType →
      Takes (readScalar f.kind) x v → c = .ofBytes y := by
    intro v hk hw ht
    have hr := ht z
    rw [← hb] at hr
    rw [hc]
    exact (readScalar_inv hk hw hr).2.1
  generalize hw : p.wireType = w at ha
  cases ha with
  | single hk hr ht => exact hscalar _ hk hw ht
  | more hk hr hp ht => exact hscalar _ hk hw ht
  | @packed l b vs hk hr hp hl hruns =>
    cases p with
    | delimited d =>
      have hd := Cursor.repeatDelimited_takes (readOneMore_advances hk) hl hruns z
      rw [← hb, body] at hd
      rw [hc]
      exact (Cursor.repeatDelimited_encode_inv (readOneMore_local hk) hd).2.1
    | _ => cases hw
  | @nested x t step inner ht hs hmakes =>
    obtain ⟨type, hk, -⟩ := Schema.nested_of_messageOf? ht
    have hls := hn.local f.map step hs t
    rw [← hw] at hmakes
    cases p with
    | delimited d =>
      cases hmakes with
      | delimited hl hruns =>
        have hd := Cursor.repeatDelimited_takes record_advances hl hruns z
        rw [← hb, body] at hd
        rw [hc]
        exact (Cursor.repeatDelimited_encode_inv (record_local hls) hd).2.1
    | group rs =>
      cases hmakes with
      | group hg =>
        have hd := Cursor.repeatGroup_takes hg z
        rw [← hb, body, List.append_assoc] at hd
        rw [hc]
        exact (steps_of_repeatGroup hls (fun r _ => hn.ends f.map step hs t r.2) hd).2.1
    | varint v =>
      generalize hv : (varint v).wireType = w at hmakes
      cases hmakes <;> cases hv
    | fixed64 v =>
      generalize hv : (fixed64 v).wireType = w at hmakes
      cases hmakes <;> cases hv
    | fixed32 v =>
      generalize hv : (fixed32 v).wireType = w at hmakes
      cases hmakes <;> cases hv

/-- What a record makes of a message. Of one without a declared field a typed reader keeps
nothing. -/
inductive Reads (S : Schema) (reading : Reading) (depth : Nat) (nested : Nested)
    (t : MessageType) (m : Message) (number : Nat) (w : WireType) (x : Bytes) : Message → Prop where
  | known {f : Field} {m' : Message} (hf : S.field? t number = some f)
      (h : Accepts S reading nested f m w x m') : Reads S reading depth nested t m number w x m'
  | unknown {p : Payload} (hf : S.field? t number = none)
      (h : Takes (Payload.read (reading = .typed || t.mapEntry) depth number w) x p) :
      Reads S reading depth nested t m number w x
        (if reading = .typed || t.mapEntry then m else m.insert (.unknown number p))

theorem readFieldWith_unknown (hf : S.field? t number = none) :
    readFieldWith S reading depth nested t m number w c =
      (Payload.read (reading = .typed || t.mapEntry) depth number w c) >>= fun r =>
        .ok (if reading = .typed || t.mapEntry then m else m.insert (.unknown number r.1),
          r.2) := by
  rw [readFieldWith, hf]
  dsimp only
  cases Payload.read (decide (reading = .typed) || t.mapEntry) depth number w c <;> rfl

theorem readFieldWith_known (hf : S.field? t number = some f) :
    readFieldWith S reading depth nested t m number w c =
      (readKnown S reading nested f m w c).mapError fun e =>
        if reading = .typed then e.within t.shortName f.name else e := by
  rw [readFieldWith, hf]
  dsimp only
  cases readKnown S reading nested f m w c <;> rfl

theorem readFieldWith_takes (h : Reads S reading depth nested t m number w x m') :
    Takes (readFieldWith S reading depth nested t m number w) x m' := by
  intro y
  cases h with
  | known hf h =>
    rw [readFieldWith_known hf, readKnown_takes h]
    rfl
  | unknown hf h =>
    rw [readFieldWith_unknown hf, h]
    rfl

theorem readFieldWith_inv (hn : nested.Good)
    (h : readFieldWith S reading depth nested t m number w (.ofBytes b) = .ok (m', c)) :
    ∃ x y, b = x ++ y ∧ c = .ofBytes y ∧ Reads S reading depth nested t m number w x m' := by
  cases hf : S.field? t number with
  | none =>
    rw [readFieldWith_unknown hf] at h
    cases hr : Payload.read (decide (reading = .typed) || t.mapEntry) depth number w
        (.ofBytes b) with
    | error e =>
      rw [hr] at h
      cases h
    | ok r =>
      obtain ⟨x, y, hb, hc, hx⟩ := read_local _ depth number w b r.1 r.2 hr
      rw [hr] at h
      obtain ⟨rfl, rfl⟩ := Prod.mk.inj (Except.ok.inj h)
      exact ⟨x, y, hb, hc, .unknown hf hx⟩
  | some f =>
    rw [readFieldWith_known hf] at h
    cases hr : readKnown S reading nested f m w (.ofBytes b) with
    | error e =>
      rw [hr] at h
      cases h
    | ok r =>
      rw [hr] at h
      obtain rfl := Except.ok.inj h
      obtain ⟨x, y, hb, hc, ha⟩ := readKnown_inv hn hr
      exact ⟨x, y, hb, hc, .known hf ha⟩

theorem readFieldWith_local (hn : nested.Good) :
    StepLocal (readFieldWith S reading depth nested) := by
  intro t m n w b m' c h
  obtain ⟨x, y, hb, hc, hr⟩ := readFieldWith_inv hn h
  exact ⟨x, y, hb, hc, readFieldWith_takes hr⟩

theorem readFieldWith_ends (hn : nested.Good) :
    StepEnds (readFieldWith S reading depth nested) := by
  intro t p m n y m' c h
  cases hf : S.field? t n with
  | none =>
    rw [readFieldWith_unknown hf] at h
    cases hr : Payload.read (decide (reading = .typed) || t.mapEntry) depth n p.wireType
        (.ofBytes (p.body n ++ y)) with
    | error e =>
      rw [hr] at h
      cases h
    | ok r =>
      rw [hr] at h
      obtain ⟨-, rfl⟩ := Prod.mk.inj (Except.ok.inj h)
      exact (read_inv (q := r.1) (c := r.2) hr).2.2
  | some f =>
    rw [readFieldWith_known hf] at h
    cases hr : readKnown S reading nested f m p.wireType (.ofBytes (p.body n ++ y)) with
    | error e =>
      rw [hr] at h
      cases h
    | ok r =>
      rw [hr] at h
      obtain rfl := Except.ok.inj h
      rw [← Schema.field?_number hf] at hr
      exact readKnown_ends hn hr

/-- How messages in fields are read where they nest `depth` deep at most. -/
def nestedAt (S : Schema) (reading : Reading) : (depth : Nat) → Nested
  | 0 => ⟨none, some (readFieldWith S reading 0 ⟨none, none⟩)⟩
  | depth + 1 =>
    ⟨some (readField S reading depth),
      some (readFieldWith S reading (depth + 1)
        ⟨some (readField S reading depth), some (readField S reading depth)⟩)⟩

theorem readField_eq (S : Schema) (reading : Reading) (depth : Nat) :
    readField S reading depth = readFieldWith S reading depth (nestedAt S reading depth) := by
  cases depth <;> rfl

theorem good_of_step {step : Option Step} (hl : ∀ s, step = some s → StepLocal s)
    (he : ∀ s, step = some s → StepEnds s) (depth : Nat) :
    Nested.Good ⟨step, some (readFieldWith S reading depth ⟨step, step⟩)⟩ := by
  have hg : Nested.Good ⟨step, step⟩ := ⟨hl, he, hl, he⟩
  refine ⟨hl, he, fun s h => ?_, fun s h => ?_⟩
  · obtain rfl := Option.some.inj h
    exact readFieldWith_local hg
  · obtain rfl := Option.some.inj h
    exact readFieldWith_ends hg

theorem nestedAt_good (S : Schema) (reading : Reading) (depth : Nat) :
    (nestedAt S reading depth).Good := by
  induction depth with
  | zero => exact good_of_step (by simp) (by simp) 0
  | succ depth ih =>
    refine good_of_step (fun s h => ?_) (fun s h => ?_) (depth + 1)
    · obtain rfl := Option.some.inj h
      rw [readField_eq]
      exact readFieldWith_local ih
    · obtain rfl := Option.some.inj h
      rw [readField_eq]
      exact readFieldWith_ends ih

theorem readField_local (S : Schema) (reading : Reading) (depth : Nat) :
    StepLocal (readField S reading depth) := by
  rw [readField_eq]
  exact readFieldWith_local (nestedAt_good S reading depth)

theorem readField_ends (S : Schema) (reading : Reading) (depth : Nat) :
    StepEnds (readField S reading depth) := by
  rw [readField_eq]
  exact readFieldWith_ends (nestedAt_good S reading depth)

theorem readField_takes_iff : Takes (readField S reading depth t m number w) x m' ↔
    Reads S reading depth (nestedAt S reading depth) t m number w x m' := by
  rw [readField_eq]
  refine ⟨fun h => ?_, readFieldWith_takes⟩
  obtain ⟨x', y, hb, hc, hr⟩ := readFieldWith_inv (nestedAt_good S reading depth) (h [])
  obtain rfl := ofBytes_inj hc
  obtain rfl := List.append_cancel_right hb
  exact hr

/-- Reads the records in some bytes into a message. -/
abbrev Fills (S : Schema) (reading : Reading) (depth : Nat) (t : MessageType) :
    Message → Bytes → Message → Prop :=
  Runs (record (readField S reading depth t))

theorem decode_eq_ok_iff {bytes : Bytes} : decode S reading t bytes = .ok m' ↔
    ∃ m, Fills S reading maxDepth t [] bytes m ∧ m' = finish S reading t m := by
  have hl := record_local (readField_local S reading maxDepth t)
  have heq : decode S reading t bytes =
      (Cursor.repeatUntil 0 (record (readField S reading maxDepth t)) bytes.length []
        (.ofBytes bytes)) >>= fun r => .ok (finish S reading t r.1) := rfl
  rw [heq]
  constructor
  · intro h
    cases hr : Cursor.repeatUntil 0 (record (readField S reading maxDepth t)) bytes.length []
        (.ofBytes bytes) with
    | error e =>
      rw [hr] at h
      cases h
    | ok r =>
      obtain ⟨x, y, rfl, -, hy, hruns⟩ := Cursor.repeatUntil_inv hl
        (show _ = Except.ok (r.1, r.2) from hr)
      obtain rfl := List.eq_nil_of_length_eq_zero hy
      rw [hr] at h
      obtain rfl := Except.ok.inj h
      exact ⟨r.1, by simpa using hruns, rfl⟩
  · rintro ⟨m, hruns, rfl⟩
    have := Cursor.repeatUntil_runs (y := []) record_advances hruns (le_refl _)
    rw [List.append_nil] at this
    change (Cursor.repeatUntil 0 _ _ _ _).bind _ = _
    rw [show Cursor.repeatUntil 0 _ _ _ _ = _ from this]
    rfl

end Fields

end Message
end DescriptorKit
