import DescriptorKit.Proofs.Message.Records

/-!
What a field of single values holds comes down to the values that its records tell, whatever the
schema says besides the kind of the field and whether it is repeated.
-/
namespace DescriptorKit
open Wire Payload

/-- Values of the kind can share a record. -/
def Kind.packs : Kind → Bool
  | .scalar k => k.packable
  | .enum _ => true
  | _ => false

theorem Kind.wireType_of_packs {k : Kind} (h : k.packs = true) : k.wireType ≠ .delimited := by
  cases k with
  | scalar k => cases k <;> simp_all
      [Kind.packs, ScalarKind.packable, wireType, ScalarKind.wireType]
  | enum type => simp [wireType]
  | message type => cases h
  | group type => cases h

theorem Field.packable_eq (f : Field) : f.packable = (f.repeated && f.kind.packs) := by
  unfold Field.packable
  cases f.kind <;> rfl

theorem Scalar.flat_payload {k : Kind} {s : Scalar} (h : s.Fits k) (hp : k.packs = true) :
    (s.payload k).Flat := by
  cases h <;> trivial

namespace Message

variable {S : Schema} {reading : Reading} {nested : Nested} {f g : Field} {t : MessageType}
  {m m' : Message} {w : WireType} {x y : Bytes} {depth n : Nat} {v : Value} {vs ws : List Value}
  {k : Kind} {repeated : Bool} {rs ss : List (Nat × Payload)} {p : Payload}

/-- The values that the payload of a record tells. -/
inductive Told (k : Kind) (repeated : Bool) : WireType → Bytes → List Value → Prop where
  | one {x : Bytes} {v : Value} (h : Takes (readScalar k) x v) : Told k repeated k.wireType x [v]
  | packed {l b : Bytes} {vs : List Value} (hr : repeated = true) (hp : k.packs = true)
      (hl : Takes Cursor.readVarint l b.length) (h : Runs (readOneMore k) [] b vs) :
      Told k repeated .delimited (l ++ b) vs.reverse

theorem Told.unique (hk : k.Single) (h : Told k repeated w x vs) (h' : Told k repeated w x ws) :
    vs = ws := by
  cases h with
  | one h =>
    generalize hw : k.wireType = w at h'
    cases h' with
    | one h' =>
      obtain ⟨-, rfl, -⟩ := h.unique h' (show _ ++ [] = _ ++ [] from rfl)
      rfl
    | packed hr hp hl h' => exact absurd hw (Kind.wireType_of_packs hp)
  | @packed l b us hr hp hl h =>
    generalize hw : WireType.delimited = w at h'
    generalize hx : l ++ b = x at h'
    cases h' with
    | one h' => exact absurd hw.symm (Kind.wireType_of_packs hp)
    | packed hr' hp' hl' h' =>
      obtain ⟨rfl, -, rfl⟩ := hl.unique hl' hx
      rw [h.unique (readOneMore_advances hk) h']

/-- The values that records tell one after the other. -/
inductive Tells (k : Kind) (repeated : Bool) : List (Nat × Payload) → List Value → Prop where
  | nil : Tells k repeated [] []
  | cons {n : Nat} {p : Payload} {rs : List (Nat × Payload)} {vs ws : List Value}
      (hn : InRange n) (h : Told k repeated p.wireType (p.body n) vs)
        (hs : Tells k repeated rs ws) :
      Tells k repeated ((n, p) :: rs) (vs ++ ws)

theorem Tells.unique (hk : k.Single) (h : Tells k repeated rs vs) (h' : Tells k repeated rs ws) :
    vs = ws := by
  induction h generalizing ws with
  | nil =>
    cases h'
    rfl
  | cons hn h _ ih =>
    cases h' with
    | cons hn' h' hs' => rw [h.unique hk h', ih hs']

/-- What a message becomes where a record tells some values of a field. -/
def put (f : Field) (vs : List Value) (m : Message) : Message :=
  if f.repeated then m.set f (.many (m.valuesOf f ++ vs))
  else vs.foldl (fun m v => m.set f v) m

theorem accepts_iff_told (hk : f.kind.Single) (hm : f.map = false) :
    Accepts S reading nested f m w x m' ↔
      ∃ vs, Told f.kind f.repeated w x vs ∧ m' = put f vs m := by
  have hadd : ∀ v, f.repeated = true → m.add S f v = put f [v] m := by
    intro v hr
    unfold add put
    simp only [hm, hr, if_true]
  constructor
  · intro h
    cases h with
    | @single x v _ hr h => exact ⟨[v], .one h, by rw [put, hr]; rfl⟩
    | @more x v _ hr _ h => exact ⟨[v], .one h, hadd v hr⟩
    | @packed l b vs _ hr hp hl h =>
      rw [Field.packable_eq, hr, Bool.true_and] at hp
      exact ⟨vs.reverse, .packed hr hp hl h, by rw [put, if_pos hr]⟩
    | nested ht hs h =>
      obtain ⟨type, hg | hg, -⟩ := Schema.nested_of_messageOf? ht
      · exact absurd hg (hk.2 type)
      · exact absurd (by rw [hg]; rfl) hk.1
  · rintro ⟨vs, h, rfl⟩
    cases h with
    | @one x v h =>
      by_cases hr : f.repeated = true
      · rw [← hadd v hr]
        refine .more hk hr ?_ h
        rintro ⟨hw, hp⟩
        rw [Field.packable_eq, hr, Bool.true_and] at hp
        exact Kind.wireType_of_packs hp hw
      · rw [put, if_neg hr]
        exact .single hk (by simpa using hr) h
    | packed hr hp hl h =>
      rw [put, if_pos hr]
      exact .packed hk hr (by rw [Field.packable_eq, hr, hp]; rfl) hl h

/-- The values that a field holds. A single zero counts as none. -/
def held (f : Field) (m : Message) : List Value :=
  if f.repeated then m.valuesOf f
  else
    match m.get? f with
    | some v => if v.isZero then [] else [v]
    | none => []

/-- What a field holds after some more values. -/
def holding (repeated : Bool) (old vs : List Value) : List Value :=
  if repeated then old ++ vs
  else
    match vs.getLast? with
    | some v => if v.isZero then [] else [v]
    | none => old

theorem holding_append (repeated : Bool) (old vs ws : List Value) :
    holding repeated old (vs ++ ws) = holding repeated (holding repeated old vs) ws := by
  unfold holding
  split
  · rw [List.append_assoc]
  · rw [List.getLast?_append]
    cases ws.getLast? <;> rfl

theorem get?_erase (f : Field) (m : Message) : (m.erase f).get? f = none := by
  by_contra h
  obtain ⟨s, hs, hh⟩ := get?_isSome_iff.mp (Option.isSome_iff_ne_none.mpr h)
  have := (List.mem_filter.mp hs).2
  rw [hh] at this
  cases this

/-- A field that was set holds the value, unless this is a zero that it does not keep. -/
theorem get?_set_eq (f : Field) (v : Value) (m : Message) :
    (m.set f v).get? f = if !f.presence && v.isZero then none else some v := by
  split
  · rename_i h
    unfold set
    dsimp only
    rw [if_pos h]
    exact get?_erase f _
  · rename_i h
    refine get?_set ?_ m
    cases hp : f.presence
    · right
      simpa [hp] using h
    · exact Or.inl rfl

theorem valuesOf_set (f : Field) (vs : List Value) (m : Message) :
    (m.set f (.many vs)).valuesOf f = vs := by
  rw [valuesOf, get?_set_eq]
  split
  · rename_i h
    simp only [Value.isZero, Bool.and_eq_true, List.isEmpty_iff] at h
    rw [h.2]
    rfl
  · rfl

theorem held_set (hr : f.repeated = false) (v : Value) (m : Message) :
    held f (m.set f v) = if v.isZero then [] else [v] := by
  rw [held, hr, get?_set_eq]
  by_cases hz : v.isZero = true
  · cases f.presence <;> simp [hz]
  · simp [hz]

theorem held_put (f : Field) (vs : List Value) (m : Message) :
    held f (put f vs m) = holding f.repeated (held f m) vs := by
  unfold put
  by_cases hr : f.repeated = true
  · rw [if_pos hr, held, if_pos hr, valuesOf_set, holding, if_pos hr, held, if_pos hr]
  · rw [if_neg hr]
    have hr' : f.repeated = false := by simpa using hr
    induction vs generalizing m with
    | nil =>
      rw [hr']
      rfl
    | cons v vs ih =>
      rw [List.foldl_cons, ih, ← List.singleton_append, holding_append, held_set hr', hr']
      rfl

/-- The schema has a field of single values for the number. -/
structure Plain (S : Schema) (t : MessageType) (n : Nat) (f : Field) : Prop where
  field : S.field? t n = some f
  single : f.kind.Single
  map : f.map = false

theorem readField_iff_told (hf : Plain S t n f) :
    Takes (readField S reading depth t m n w) x m' ↔
      ∃ vs, Told f.kind f.repeated w x vs ∧ m' = put f vs m := by
  rw [readField_takes_iff, ← accepts_iff_told hf.single hf.map]
  constructor
  · intro h
    cases h with
    | known hf' h =>
      rw [hf.field] at hf'
      obtain rfl := Option.some.inj hf'
      exact h
    | unknown hf' h =>
      rw [hf.field] at hf'
      cases hf'
  · exact fun h => .known hf.field h

/-- Reading the records of a field of single values is hearing the values that they tell. -/
theorem tells_of_steps (hf : Plain S t n f) (hn : ∀ r ∈ rs, r.1 = n)
    (h : Steps (readField S reading depth t) m rs m') :
    ∃ vs, Tells f.kind f.repeated rs vs ∧ held f m' = holding f.repeated (held f m) vs := by
  induction h with
  | nil a => exact ⟨[], .nil, by unfold holding; split <;> simp⟩
  | @cons a b c number p rs hr h _ ih =>
    obtain rfl : number = n := hn (number, p) (by simp)
    obtain ⟨vs, hv, rfl⟩ := (readField_iff_told hf).mp h
    obtain ⟨ws, hw, he⟩ := ih fun r hr => hn r (List.mem_cons_of_mem _ hr)
    exact ⟨vs ++ ws, .cons hr hv hw, by rw [he, held_put, ← holding_append]⟩

theorem steps_of_tells (hf : Plain S t n f) (hn : ∀ r ∈ rs, r.1 = n)
    (h : Tells f.kind f.repeated rs vs) (m : Message) :
    ∃ m', Steps (readField S reading depth t) m rs m' := by
  induction h generalizing m with
  | nil => exact ⟨m, .nil m⟩
  | @cons number p rs vs ws hr h _ ih =>
    obtain rfl : number = n := hn (number, p) (by simp)
    obtain ⟨m', hm⟩ := ih (fun r hr => hn r (List.mem_cons_of_mem _ hr)) (put f vs m)
    exact ⟨m', .cons hr ((readField_iff_told hf).mpr ⟨vs, h, rfl⟩) hm⟩

section Written

theorem told_payload (hk : f.kind.Single) {s : Scalar} (hs : s.Fits f.kind)
    (h : Told f.kind repeated (s.payload f.kind).wireType ((s.payload f.kind).body n) vs) :
    vs = [.scalar s] := by
  have hw := Scalar.wireType_payload hs
  generalize hx : (s.payload f.kind).body n = x at h
  rw [hw] at h
  generalize hw' : f.kind.wireType = w at h
  cases h with
  | @one _ v h =>
    have hr := h []
    rw [← hx] at hr
    obtain ⟨-, -, s', hs', rfl⟩ := readScalar_inv hk hw hr
    rw [Scalar.ofPayload_payload hs] at hs'
    rw [Except.ok.inj hs']
  | packed hr hp hl h => exact absurd hw' (Kind.wireType_of_packs hp)

theorem told_of_fits (hk : k.Single) {s : Scalar} (hs : s.Fits k)
    (hl : ((s.payload k).body n).length < 2 ^ 64) :
    Told k repeated (s.payload k).wireType ((s.payload k).body n) [.scalar s] := by
  have hw := Scalar.wireType_payload hs
  have htakes : Takes (readScalar k) ((s.payload k).body n) (.scalar s) :=
    readScalar_takes hk hw (flat_of_length (hw ▸ hk.1) hl) (Scalar.ofPayload_payload hs)
  rw [hw]
  exact .one htakes

theorem runs_encodePacked (hk : k.Single) (hp : k.packs = true)
    (hv : ∀ v ∈ vs, ∃ s, v = .scalar s ∧ s.Fits k) (old : List Value) :
    Runs (readOneMore k) old (Value.encodePacked k vs) (vs.reverse ++ old) := by
  induction vs generalizing old with
  | nil => exact .nil old
  | cons v vs ih =>
    obtain ⟨s, rfl, hs⟩ := hv v (by simp)
    have hone : Takes (readOneMore k old) (Scalar.encodeKind k s) (.scalar s :: old) := by
      intro y
      rw [Scalar.encodeKind_eq hs 0, readOneMore,
        readScalar_takes hk (Scalar.wireType_payload hs) (Scalar.flat_payload hs hp)
          (Scalar.ofPayload_payload hs)]
      rfl
    have := ih (fun v hv' => hv v (List.mem_cons_of_mem _ hv')) (.scalar s :: old)
    rw [List.reverse_cons, List.append_assoc]
    exact .cons hone this

theorem told_packed (hk : f.kind.Single) (hp : f.kind.packs = true)
    (hv : ∀ v ∈ vs, ∃ s, v = .scalar s ∧ s.Fits f.kind)
    (h : Told f.kind repeated .delimited (encodeDelimited (Value.encodePacked f.kind vs)) ws) :
    ws = vs := by
  generalize hw : WireType.delimited = w at h
  generalize hx : encodeDelimited (Value.encodePacked f.kind vs) = x at h
  cases h with
  | one h => exact absurd hw.symm (Kind.wireType_of_packs hp)
  | packed hr _ hl h =>
    have hd := Cursor.repeatDelimited_takes (readOneMore_advances hk) hl h []
    rw [← hx] at hd
    obtain ⟨-, -, hruns⟩ := Cursor.repeatDelimited_encode_inv (readOneMore_local hk) hd
    have := runs_encodePacked hk hp hv []
    rw [List.append_nil] at this
    rw [hruns.unique (readOneMore_advances hk) this, List.reverse_reverse]

theorem exists_scalar_of_shaped (hf : Plain S t n f) (h : Value.Shaped S f true v) :
    ∃ s, v = .scalar s ∧ s.Fits f.kind := by
  cases v with
  | scalar s =>
    rw [Value.Shaped] at h
    exact ⟨s, rfl, h.2⟩
  | message k =>
    rw [Value.Shaped, hf.map] at h
    obtain ⟨-, h | ⟨t', ht, -⟩⟩ := h
    · cases h
    · obtain ⟨type, hg | hg, -⟩ := Schema.nested_of_messageOf? ht
      · exact absurd hg (hf.single.2 type)
      · exact absurd (by rw [hg]; rfl) hf.single.1
  | many vs =>
    rw [Value.Shaped] at h
    cases h.1

theorem tells_recordsEach (hk : f.kind.Single) (hv : ∀ v ∈ vs, ∃ s, v = .scalar s ∧ s.Fits f.kind)
    (h : Tells f.kind repeated (Value.recordsEach f vs) ws) : ws = vs := by
  induction vs generalizing ws with
  | nil =>
    rw [Value.recordsEach] at h
    cases h
    rfl
  | cons v vs ih =>
    obtain ⟨s, rfl, hs⟩ := hv v (by simp)
    rw [Value.recordsEach, Value.records, List.singleton_append] at h
    cases h with
    | cons hn h hw =>
      rw [told_payload hk hs h, ih (fun v hv' => hv v (List.mem_cons_of_mem _ hv')) hw]
      rfl

/-- The records that a field was written as tell what it holds. -/
theorem tells_records (hf : Plain S t n f) (hreg : f.Regular)
    (hv : Value.Shaped S f (!f.repeated) v) (h : Tells f.kind f.repeated (Value.records f v) vs)
    (hm : m.get? f = some v) : holding f.repeated [] vs = held f m := by
  by_cases hr : f.repeated = true
  · rw [hr] at hv h
    cases v with
    | many us =>
      rw [Value.Shaped, Value.allShaped_iff] at hv
      have hus : ∀ v ∈ us, ∃ s, v = .scalar s ∧ s.Fits f.kind :=
        fun v hmem => exists_scalar_of_shaped hf (hv.2 v hmem)
      have hvs : vs = us := by
        rw [Value.records] at h
        split at h
        · rename_i hpacked
          have hp := hreg.packable_of_packed hpacked
          rw [Field.packable_eq, hr, Bool.true_and] at hp
          split at h
          · rename_i hempty
            cases h
            exact (List.isEmpty_iff.mp hempty).symm
          · cases h with
            | cons hn h hs =>
              cases hs
              rw [List.append_nil]
              exact told_packed hf.single hp hus h
        · exact tells_recordsEach hf.single hus h
      rw [holding, held, if_pos hr, if_pos hr, valuesOf, hm, hvs]
      rfl
    | scalar s =>
      rw [Value.Shaped] at hv
      cases hv.1
    | message k =>
      rw [Value.Shaped] at hv
      cases hv.1
  · have hr' : f.repeated = false := by simpa using hr
    rw [hr'] at hv h
    obtain ⟨s, rfl, hs⟩ := exists_scalar_of_shaped hf hv
    rw [Value.records] at h
    cases h with
    | cons hn h hs' =>
      cases hs'
      rw [told_payload hf.single hs h, holding, held, hr', hm]
      rfl

theorem only_of_shaped (hf : S.field? t n = some f) (hm : Shaped S t m) :
    m.only n = [] ∨ ∃ v, m.only n = [.known f v] := by
  have hslot : ∀ s ∈ m.only n, ∃ v, s = .known f v := by
    intro s hs
    obtain ⟨hs, hn⟩ := mem_only_iff.mp hs
    have hsh := hm.slot hs
    cases s with
    | known g v =>
      rw [Slot.Shaped, show g.number = n from hn, hf] at hsh
      exact ⟨v, by rw [Option.some.inj hsh.1]⟩
    | unknown k p =>
      rw [Slot.Shaped, show k = n from hn, hf] at hsh
      cases hsh
  have hapart : Apart S t (m.only n) := hm.apart.sublist List.filter_sublist
  cases hms : m.only n with
  | nil => exact Or.inl rfl
  | cons s rest =>
    right
    obtain ⟨v, rfl⟩ := hslot s (by simp [hms])
    cases rest with
    | nil => exact ⟨v, rfl⟩
    | cons r rest =>
      have hr : (Slot.known f v).number = n := (mem_only_iff.mp (hms ▸ List.mem_cons_self)).2
      have hrn : r.number = n := (mem_only_iff.mp (hms ▸ by simp : r ∈ m.only n)).2
      rw [hms] at hapart
      have := (List.pairwise_cons.mp hapart).1 r (by simp) (hrn.trans hr.symm)
      rw [hr, hf] at this
      cases this

/-- What the records of a message tell about a field is what the message holds in it. -/
theorem held_of_tells (hf : Plain S t n f) (hreg : f.Regular) (hm : Shaped S t m)
    (h : Tells f.kind f.repeated (Value.recordsOf (m.only n)) vs) :
    holding f.repeated [] vs = held f m := by
  have hn : f.number = n := Schema.field?_number hf.field
  rcases only_of_shaped hf.field hm with ho | ⟨v, ho⟩
  · have hg : m.get? f = none := by
      rw [← get?_only hn m, ho]
      rfl
    rw [ho, Value.recordsOf] at h
    cases h
    rw [holding, held, valuesOf, hg]
    split <;> rfl
  · have hg : m.get? f = some v := by
      rw [← get?_only hn m, ho, get?, if_pos (Slot.holds_known f v)]
    have hv : Slot.known f v ∈ m := (mem_only_iff.mp (ho ▸ List.mem_singleton_self _)).1
    rw [ho, Value.recordsOf, Value.recordsOf, List.append_nil, Value.slotRecords] at h
    exact tells_records hf hreg (hm.value hv) h hg

end Written

section Rereading

variable {B : Schema} {u : MessageType} {d : Nat} {other k' : Message}

/-- A field that is declared as `g` is: under the same name, with the same kind, as a single one or
not, and in no oneof. -/
structure Alike (f g : Field) : Prop where
  name : f.name = g.name
  kind : f.kind = g.kind
  repeated : f.repeated = g.repeated
  oneof : f.oneof = none

/-- A schema that declares a field under a number as `g` is declared, or none, and then keeps what
it does not declare. -/
structure Honours (S : Schema) (t : MessageType) (n : Nat) (g : Field) : Prop where
  undeclared : S.field? t n = none → t.mapEntry = false
  alike : ∀ f, S.field? t n = some f → Alike f g

theorem Honours.calm (h : Honours S t n g) : Calm S t n := fun f hf => (h.alike f hf).oneof

/-- Records of an undeclared field are written as they were read. -/
theorem recordsOf_of_undeclared (hf : S.field? t n = none) (ht : t.mapEntry = false)
    (hn : ∀ r ∈ rs, r.1 = n) (hm : ∀ s ∈ m, s.number = n)
    (h : Steps (readField S .lossless depth t) m rs m') :
    Value.recordsOf m' = Value.recordsOf m ++ rs := by
  induction h with
  | nil a => rw [List.append_nil]
  | @cons a b c number p rs hr h _ ih =>
    obtain rfl : number = n := hn (number, p) (by simp)
    have hb : b = a ++ [.unknown number p] := by
      cases readField_takes_iff.mp h with
      | known hf' _ =>
        rw [hf] at hf'
        cases hf'
      | @unknown q _ hq =>
        rw [ht]
        obtain ⟨-, rfl, -⟩ := read_inv (hq [])
        refine insert_of_forall_not fun r hr => ?_
        have hrn := hm r hr
        unfold Slot.before
        rw [hrn, show (Slot.unknown number q).declared = false from rfl,
          show (Slot.unknown number q).number = number from rfl]
        cases r.declared <;> simp
    have hbn : ∀ s ∈ b, s.number = number := by
      intro s hs
      rw [hb, List.mem_append, List.mem_singleton] at hs
      rcases hs with hs | rfl
      · exact hm s hs
      · rfl
    rw [ih (fun r hr => hn r (List.mem_cons_of_mem _ hr)) hbn, hb, Value.recordsOf_append,
      Value.recordsOf, Value.recordsOf, List.append_nil, Value.slotRecords, List.append_assoc]
    rfl

/-- After a schema that keeps a field has read and written its records, another reader finds in
them what it would have found before. -/
theorem Honours.held_eq (hk : Honours S t n g) (hS : S.Regular) (ht : t ∈ S.messages)
    (hg : Plain B u n g) (hn : ∀ r ∈ rs, r.1 = n) (hm : Shaped S t m)
    (h : Steps (readField S .lossless depth t) [] rs (m.only n))
    (h' : Steps (readField B reading d u) [] (Value.recordsOf (m.only n)) k') :
    ∃ k, Steps (readField B reading d u) [] rs k ∧ held g k' = held g k := by
  cases hf : S.field? t n with
  | none =>
    rw [recordsOf_of_undeclared hf (hk.undeclared hf) hn (by simp) h, Value.recordsOf,
      List.nil_append] at h'
    exact ⟨k', h', rfl⟩
  | some f =>
    obtain ⟨-, hkind, hrep, -⟩ := hk.alike f hf
    have hreg : f.Regular := hS.field ht hf
    have hmap : f.map = false := by
      cases hmf : f.map with
      | false => rfl
      | true =>
        obtain ⟨type, ht⟩ := hreg.kind_of_map hmf
        exact absurd (hkind ▸ ht) (hg.single.2 type)
    have hplain : Plain S t n f := ⟨hf, hkind ▸ hg.single, hmap⟩
    have hfn : f.number = n := Schema.field?_number hf
    obtain ⟨vs, hvs, he⟩ := tells_of_steps hplain hn h
    have hrs : Tells g.kind g.repeated rs vs := by rwa [hkind, hrep] at hvs
    obtain ⟨k, hk⟩ := steps_of_tells hg hn hrs []
    have hwritten : ∀ r ∈ Value.recordsOf (m.only n), r.1 = n := fun r hr =>
      (Value.mem_recordsOf_only.mp hr).2
    obtain ⟨ws, hws, he'⟩ := tells_of_steps hg hwritten h'
    obtain ⟨us, hus, hek⟩ := tells_of_steps hg hn hk
    obtain rfl := hus.unique hg.single hrs
    have hheld := held_of_tells hplain hreg hm (by rwa [hkind, hrep])
    have hnil : ∀ f : Field, held f [] = [] := by
      intro f
      unfold held
      split <;> rfl
    rw [hnil] at he he' hek
    refine ⟨k, hk, ?_⟩
    rw [he', hek, ← hrep, hheld, ← he, held, held, valuesOf, valuesOf, get?_only hfn]

end Rereading

end Message
end DescriptorKit
