import DescriptorKit.Proofs.Wire.Digits

/-!
Splitting as a machine does it. Numbers are words of 64 bits that are put together by shifting, and
bytes are reached by their place in the message; what is not there or does not fit stops the
machine. For messages shorter than `2 ^ 63` none of this happens, and the machine splits as `split`
does.
-/
namespace DescriptorKit.Wire.Records

/-- Why the machine stops. -/
inductive Stop where
  | fault (f : Fault)
  /-- Bytes are asked for that are not there. -/
  | outOfRange
  /-- A number does not fit into a word, or a shift is as wide as a word. -/
  | overflow
  /-- The message is not at its end after the rounds that were allowed. -/
  | unfinished

namespace Machine

/-- A sum, if it fits. -/
def sum? (a b : Nat) : Option Nat := if a + b < 2 ^ 64 then some (a + b) else none

def add (a b : Nat) : Except Stop Nat :=
  match sum? a b with
  | some n => .ok n
  | none => .error .overflow

def sub (a b : Nat) : Except Stop Nat := if b ≤ a then .ok (a - b) else .error .overflow

/-- The bytes from one place up to another. -/
def slice (data : Bytes) (first last : Nat) : Except Stop Bytes :=
  if first ≤ last ∧ last ≤ data.length then .ok ((data.take last).drop first)
  else .error .outOfRange

/-- The word at the front of the bytes and how many bytes hold it. `place` bytes are read already,
and `result` holds them; the next goes in front of these `shift` bits. -/
def varintWord : (place shift : Nat) → (result : UInt64) → Bytes →
    Except Stop (Option (UInt64 × Nat))
  | _, _, _, [] => .ok none
  | place, shift, result, b :: rest =>
    if 10 ≤ place then .ok none
    else if 64 ≤ shift then .error .overflow
    else
      let result := result ||| ((b &&& 0x7f).toUInt64 <<< shift.toUInt64)
      if b &&& 0x80 = 0 then do .ok (some (result, ← add place 1))
      else varintWord (place + 1) (shift + 7) result rest

def fixedLength (data : Bytes) (tagLength width offset : Nat) : Except Stop Nat := do
  if data.length < (← add tagLength width) then
    .error (.fault (.malformed (← add offset tagLength) (.fixedValue width)))
  else .ok width

/-- The length of the value behind a tag. -/
def valueLength (data : Bytes) (tagLength offset : Nat) : WireType → Except Stop Nat
  | .varint => do
    match ← varintWord 0 0 0 (← slice data tagLength data.length) with
    | none => .error (.fault (.malformed (← add offset tagLength) .varintValue))
    | some (_, used) => .ok used
  | .fixed64 => fixedLength data tagLength 8 offset
  | .delimited => do
    match ← varintWord 0 0 0 (← slice data tagLength data.length) with
    | none => .error (.fault (.malformed (← add offset tagLength) .lengthPrefix))
    | some (length, used) =>
      match (sum? length.toNat used).filter fun total => (sum? total tagLength).isSome with
      | none =>
        .error (.fault (.malformed (← add offset tagLength) (.lengthOutOfRange length.toNat)))
      | some total => do
        if data.length < (← add tagLength total) then do
          let left ← sub (← sub data.length tagLength) used
          .error (.fault (.malformed (← add offset tagLength) (.tooShort length.toNat left)))
        else .ok total
  | .startGroup => .ok 0
  | .endGroup => .ok 0
  | .fixed32 => fixedLength data tagLength 4 offset

/-- The number and the length of the record at the front of the bytes, which start at `offset`. -/
def measure (data : Bytes) (offset : Nat) : Except Stop (UInt32 × Nat) := do
  if data = [] then .error (.fault (.malformed offset .noBytes))
  else
    match ← varintWord 0 0 0 data with
    | none => .error (.fault (.malformed offset .tag))
    | some (tag, tagLength) =>
      let code := (tag &&& 7).toUInt8
      match WireType.ofCode? code.toNat with
      | none => .error (.fault (.malformed 0 (.wireType code.toNat)))
      | some w =>
        let number := (tag >>> 3).toUInt32
        if number = 0 ∨ 0x1fffffff < number then .error (.fault (.fieldNumber number.toNat))
        else do
          let value ← valueLength data tagLength offset w
          .ok (number, ← add tagLength value)

/-- At most `fuel` rounds, each of which puts the record at `position` to the others of its kind. -/
def rounds (number : Nat) (data : Bytes) :
    (fuel position : Nat) → (rest extracted : Bytes) → Except Stop (Bytes × Bytes)
  | 0, position, rest, extracted =>
    if position < data.length then .error .unfinished else .ok (rest, extracted)
  | fuel + 1, position, rest, extracted =>
    if position < data.length then do
      let (found, length) ← measure (← slice data position data.length) position
      let last ← add position length
      let record ← slice data position last
      if found.toNat = number then rounds number data fuel last rest (extracted ++ record)
      else rounds number data fuel last (rest ++ record) extracted
    else .ok (rest, extracted)

variable {data b : Bytes} {r x : UInt64} {fuel k n position offset tagLength : Nat} {w : WireType}

section Primitives

variable {a c : Nat}

theorem ok_bind {ε α β : Type} (a : α) (f : α → Except ε β) : (Except.ok a >>= f) = f a := rfl

theorem add_eq (h : a + c < 2 ^ 64) : add a c = .ok (a + c) := by
  rw [add, sum?, if_pos h]

theorem sub_eq (h : c ≤ a) : sub a c = .ok (a - c) := if_pos h

theorem slice_eq (h : a ≤ c) (hc : c ≤ data.length) : slice data a c = .ok ((data.take c).drop a) :=
  if_pos ⟨h, hc⟩

theorem slice_rest (h : a ≤ data.length) : slice data a data.length = .ok (data.drop a) := by
  rw [slice_eq h le_rfl, List.take_length]

end Primitives

section Words

/-- Bits that are shifted in front of others are added to them. -/
theorem or_shift {s : Nat} (hs : s < 64) (hr : r.toNat < 2 ^ s) :
    r ||| (x <<< s.toUInt64) = UInt64.ofNat (r.toNat + 2 ^ s * x.toNat) := by
  have hpow : 2 ^ 64 = 2 ^ s * 2 ^ (64 - s) := by rw [← Nat.pow_add]; congr 1; omega
  have hshift : (x <<< s.toUInt64).toNat = 2 ^ s * (x.toNat % 2 ^ (64 - s)) := by
    have hamount : s.toUInt64.toNat % 64 = s := by
      rw [Nat.toUInt64, UInt64.toNat_ofNat']
      omega
    rw [UInt64.toNat_shiftLeft, hamount, Nat.shiftLeft_eq, Nat.mul_comm, hpow, Nat.mul_mod_mul_left]
  apply UInt64.toNat_inj.mp
  rw [UInt64.toNat_or, hshift, Nat.or_comm, ← Nat.two_pow_add_eq_or_of_lt hr, UInt64.toNat_ofNat',
    hpow, Nat.mod_mul, Nat.add_mul_mod_self_left, Nat.mod_eq_of_lt hr,
    Nat.add_mul_div_left _ _ (Nat.two_pow_pos s), Nat.div_eq_of_lt hr, Nat.zero_add, Nat.add_comm]

theorem low_bits (d : UInt8) : (d &&& 0x7f).toUInt64.toNat = d.toNat % 128 := by
  rw [UInt8.toNat_toUInt64, UInt8.toNat_and]
  exact Nat.and_two_pow_sub_one_eq_mod d.toNat 7

theorem high_bit (d : UInt8) : d &&& 0x80 = 0 ↔ d.toNat < 128 := by
  have hall : ∀ i : Fin 256, i.val &&& 128 = 0 ↔ i.val < 128 := by decide +kernel
  rw [← UInt8.toNat_inj, UInt8.toNat_and]
  exact hall ⟨d.toNat, d.toNat_lt⟩

/-- The digits of a byte fill the seven bits in front of those that are filled already. -/
theorem or_digit (d : UInt8) (hp : position < 10) (hr : r.toNat < 2 ^ (7 * position)) :
    r ||| ((d &&& 0x7f).toUInt64 <<< (7 * position).toUInt64) =
      UInt64.ofNat (r.toNat + 2 ^ (7 * position) * (d.toNat % 128)) := by
  rw [or_shift (by omega) hr, low_bits]

theorem pow_next (position : Nat) : 2 ^ (7 * (position + 1)) = 2 ^ (7 * position) * 128 := by
  ring

theorem digit_lt (d : UInt8) (hr : r.toNat < 2 ^ (7 * position)) :
    (UInt64.ofNat (r.toNat + 2 ^ (7 * position) * (d.toNat % 128))).toNat <
      2 ^ (7 * (position + 1)) := by
  have hd : d.toNat % 128 ≤ 127 := by omega
  have := Nat.mul_le_mul_left (2 ^ (7 * position)) hd
  rw [UInt64.toNat_ofNat', pow_next]
  exact (Nat.mod_le _ _).trans_lt (by omega)

/-- Bytes that are read already are left as they are, and the others go in front of them. -/
theorem word_digits (hp : position + k = 10) (hr : r.toNat < 2 ^ (7 * position)) :
    varintWord position (7 * position) r b = .ok ((digits k b).map fun p =>
      (UInt64.ofNat (r.toNat + 2 ^ (7 * position) * p.1), position + p.2)) := by
  induction k generalizing position r b with
  | zero =>
    cases b with
    | nil => rfl
    | cons d b => rw [varintWord, if_pos (by omega)]; rfl
  | succ k ih =>
    cases b with
    | nil => rfl
    | cons d b =>
      rw [varintWord, if_neg (by omega), if_neg (by omega), digits, or_digit d (by omega) hr]
      dsimp only
      by_cases hd : d.toNat < 128
      · have hlow : d.toNat % 128 = d.toNat := Nat.mod_eq_of_lt hd
        rw [if_pos (high_bit d |>.mpr hd), if_pos hd, add_eq (by omega), hlow]
        rfl
      · rw [if_neg (mt (high_bit d).mp hd), if_neg hd]
        refine (ih (by omega) (digit_lt d hr)).trans ?_
        rw [Option.map_map, mod_of_not_lt hd]
        refine congrArg (fun f => Except.ok ((digits k b).map f)) (funext fun p => ?_)
        rw [Function.comp_apply, UInt64.ofNat_add, UInt64.ofNat_toNat, ← UInt64.ofNat_add, pow_next]
        refine Prod.ext (congrArg UInt64.ofNat ?_) ?_
        · dsimp only
          ring
        · dsimp only
          omega

theorem word_varint (b : Bytes) :
    varintWord 0 0 0 b = .ok ((varint b).map fun p => (UInt64.ofNat p.1, p.2)) := by
  refine (word_digits (show 0 + 10 = 10 from rfl) (by decide)).trans ?_
  rw [varint, Option.map_map]
  refine congrArg (fun f => Except.ok ((digits 10 b).map f)) (funext fun p => ?_)
  refine Prod.ext (UInt64.toNat_inj.mp ?_) (Nat.zero_add p.2)
  rw [Function.comp_apply, UInt64.toNat_ofNat', UInt64.toNat_ofNat']
  simp

end Words

section Records

/-- Two sums that are asked for whether they fit, one after the other. -/
theorem sum?_filter (a b c : Nat) : ((sum? a b).filter fun n => (sum? n c).isSome) =
    if a + b + c < 2 ^ 64 then some (a + b) else none := by
  unfold sum?
  by_cases hab : a + b < 2 ^ 64
  · rw [if_pos hab, Option.filter_some]
    by_cases habc : a + b + c < 2 ^ 64
    · rw [if_pos habc, if_pos habc, Option.isSome_some, if_pos rfl]
    · rw [if_neg habc, if_neg habc, Option.isSome_none, if_neg Bool.false_ne_true]
  · rw [if_neg hab, if_neg (by omega), Option.filter_none]

theorem fixedLength_eq {width : Nat} (hd : offset + data.length < 2 ^ 63)
    (ht : tagLength ≤ data.length) (hw : width ≤ 8) :
    fixedLength data tagLength width offset =
      (if data.length < tagLength + width then
        (.error (.malformed (offset + tagLength) (.fixedValue width)) : Except Fault Nat)
      else .ok width).mapError .fault := by
  rw [fixedLength, add_eq (by omega), add_eq (by omega)]
  simp only [ok_bind]
  split <;> rfl

theorem valueLength_eq (hd : offset + data.length < 2 ^ 63) (ht : tagLength ≤ data.length) :
    valueLength data tagLength offset w =
      (Records.valueLength offset data.length tagLength w data).mapError .fault := by
  have hplace : add offset tagLength = .ok (offset + tagLength) := add_eq (by omega)
  unfold valueLength Records.valueLength
  cases w with
  | varint =>
    dsimp only
    rw [slice_rest ht, ok_bind, word_varint, ok_bind]
    cases varint (data.drop tagLength) with
    | none => rw [hplace]; rfl
    | some p => rfl
  | fixed64 => exact fixedLength_eq hd ht le_rfl
  | fixed32 => exact fixedLength_eq hd ht (by decide)
  | startGroup => rfl
  | endGroup => rfl
  | delimited =>
    dsimp only
    rw [slice_rest ht, ok_bind, word_varint, ok_bind]
    cases hv : varint (data.drop tagLength) with
    | none => rw [hplace]; rfl
    | some p =>
      obtain ⟨n, used⟩ := p
      obtain ⟨⟨-, -, hused⟩, hn⟩ := varint_bounds hv
      have hword : (UInt64.ofNat n).toNat = n := by
        rw [UInt64.toNat_ofNat', Nat.mod_eq_of_lt hn]
      rw [List.length_drop] at hused
      dsimp only [Option.map_some]
      rw [hword, sum?_filter]
      by_cases hfits : n + used + tagLength < 2 ^ 64
      · have hlast : add tagLength (n + used) = .ok (tagLength + (n + used)) := add_eq (by omega)
        rw [if_pos hfits, if_neg (by omega)]
        dsimp only
        rw [hlast, ok_bind]
        by_cases hshort : data.length < tagLength + (n + used)
        · rw [if_pos hshort, if_pos hshort, sub_eq ht, ok_bind, sub_eq hused, ok_bind, hplace]
          rfl
        · rw [if_neg hshort, if_neg hshort]
          rfl
      · rw [if_neg hfits, if_pos (by omega), hplace]
        rfl

/-- A value that is measured ends with the bytes or before. -/
theorem valueLength_le (ht : tagLength ≤ data.length)
    (h : Records.valueLength offset data.length tagLength w data = .ok n) :
    tagLength + n ≤ data.length := by
  have hlen : (data.take tagLength).length = tagLength := List.length_take_of_le ht
  have hsplit : Records.valueLength offset (data.take tagLength ++ data.drop tagLength).length
      (data.take tagLength).length w (data.take tagLength ++ data.drop tagLength) = .ok n := by
    rw [List.take_append_drop, hlen]
    exact h
  obtain ⟨v, z, hdrop, rfl, -⟩ := valueLength_local hsplit
  have := congrArg List.length hdrop
  rw [List.length_drop, List.length_append] at this
  omega

section Tag

variable {tag : Nat}

theorem toNat_code (h : tag < 2 ^ 64) : ((UInt64.ofNat tag &&& 7).toUInt8).toNat = tag % 8 := by
  rw [UInt64.toNat_toUInt8, UInt64.toNat_and, UInt64.toNat_ofNat', Nat.mod_eq_of_lt h]
  have hmask : tag &&& (7 : UInt64).toNat = tag % 8 := Nat.and_two_pow_sub_one_eq_mod tag 3
  rw [hmask]
  omega

theorem toNat_number (h : tag < 2 ^ 64) :
    ((UInt64.ofNat tag >>> 3).toUInt32).toNat = tag / 8 % 0x100000000 := by
  rw [UInt64.toNat_toUInt32, UInt64.toNat_shiftRight, UInt64.toNat_ofNat', Nat.mod_eq_of_lt h]
  have hshift : tag >>> ((3 : UInt64).toNat % 64) = tag / 8 := Nat.shiftRight_eq_div_pow tag 3
  rw [hshift]

theorem out_of_range_iff {number : UInt32} (h : number.toNat = n) :
    number = 0 ∨ 0x1fffffff < number ↔ n = 0 ∨ maxFieldNumber < n := by
  subst h
  rw [← UInt32.toNat_inj, UInt32.lt_iff_toNat_lt]
  rfl

end Tag

theorem measure_eq (hd : offset + data.length < 2 ^ 63) : measure data offset =
    ((Records.measure offset data.length data).mapError .fault).map
      fun p => (UInt32.ofNat p.1, p.2) := by
  unfold measure Records.measure
  by_cases hnil : data = []
  · rw [if_pos hnil, if_pos hnil]
    rfl
  · rw [if_neg hnil, if_neg hnil, word_varint, ok_bind]
    cases hv : varint data with
    | none => rfl
    | some p =>
      obtain ⟨tag, used⟩ := p
      obtain ⟨⟨-, hten, hused⟩, htag⟩ := varint_bounds hv
      have hnumber := toNat_number htag
      dsimp only [Option.map_some]
      rw [toNat_code htag]
      cases WireType.ofCode? (tag % 8) with
      | none => rfl
      | some w =>
        dsimp only
        by_cases hout : tag / 8 % 0x100000000 = 0 ∨ maxFieldNumber < tag / 8 % 0x100000000
        · rw [if_pos ((out_of_range_iff hnumber).mpr hout), if_pos hout, hnumber]
          rfl
        · rw [if_neg (mt (out_of_range_iff hnumber).mp hout), if_neg hout, valueLength_eq hd hused]
          cases hvalue : Records.valueLength offset data.length used w data with
          | error f => rfl
          | ok v =>
            have hle := valueLength_le hused hvalue
            have hsame : (UInt64.ofNat tag >>> 3).toUInt32 =
              UInt32.ofNat (tag / 8 % 0x100000000) := by
              rw [← hnumber, UInt32.ofNat_toNat]
            have hlast : add used v = .ok (used + v) := add_eq (by omega)
            rw [hsame]
            change (add used v >>= fun last => .ok (_, last)) = _
            rw [hlast]
            rfl

end Records

section Rounds

variable {rest extracted : Bytes}

/-- The machine's round for a record puts it where it belongs. -/
theorem rounds_piece {x y : Bytes} (hd : data.length < 2 ^ 63) (hp : position ≤ data.length)
    (h : data.drop position = x ++ y) (hx : Piece n x) :
    rounds k data (fuel + 1) position rest extracted =
      if n = k then rounds k data fuel (position + x.length) rest (extracted ++ x)
      else rounds k data fuel (position + x.length) (rest ++ x) extracted := by
  have hlen := congrArg List.length h
  rw [List.length_drop, List.length_append] at hlen
  have hpos := List.length_pos_iff.mpr hx.ne_nil
  have hmeasured : Records.measure position (data.drop position).length (data.drop position) =
      .ok (n, x.length) := by
    rw [h]
    exact hx position y
  have hnumber : (UInt32.ofNat n).toNat = n := by
    obtain ⟨_, _, _, _, _, _, _, ⟨-, hmax⟩, -⟩ := measure_eq_ok_iff.mp hmeasured
    rw [maxFieldNumber] at hmax
    rw [UInt32.toNat_ofNat', Nat.mod_eq_of_lt (by omega)]
  have hmeasure : measure (data.drop position) position = .ok (UInt32.ofNat n, x.length) := by
    rw [measure_eq (by rw [List.length_drop]; omega), hmeasured]
    rfl
  have hrecord : slice data position (position + x.length) = .ok x := by
    rw [slice_eq (by omega) (by omega), List.drop_take, h, Nat.add_sub_cancel_left, List.take_left]
  rw [rounds, if_pos (by omega), slice_rest hp, ok_bind, hmeasure, ok_bind]
  dsimp only
  rw [add_eq (by omega), ok_bind, hrecord, ok_bind, hnumber]

/-- Each round takes a record as it is measured, so as many rounds as there are bytes are enough. -/
theorem rounds_eq (hd : data.length < 2 ^ 63) (hp : position ≤ data.length)
    (hf : data.length - position ≤ fuel) : rounds k data fuel position rest extracted =
      ((splitFrom k fuel position (.ofBytes (data.drop position))).mapError .fault).map
        fun p => (rest ++ p.1, extracted ++ p.2) := by
  induction fuel generalizing position rest extracted with
  | zero =>
    rw [rounds, if_neg (by omega), splitFrom]
    simp [Except.mapError, Except.map]
  | succ fuel ih =>
    by_cases hlt : position < data.length
    · cases hm : Records.measure position (data.drop position).length (data.drop position) with
      | error f =>
        have hmeasure : measure (data.drop position) position = .error (.fault f) := by
          rw [measure_eq (by rw [List.length_drop]; omega), hm]
          rfl
        have hsize : (Cursor.ofBytes (data.drop position)).size ≠ 0 := by
          change (data.drop position).length ≠ 0
          rw [List.length_drop]
          omega
        rw [rounds, if_pos hlt, slice_rest hp, ok_bind, hmeasure, splitFrom, if_neg hsize]
        dsimp only [Cursor.ofBytes]
        rw [hm]
        rfl
      | ok found =>
        obtain ⟨n, length⟩ := found
        obtain ⟨x, y, hxy, -, hx⟩ := measure_local hm
        have hpos := List.length_pos_iff.mpr hx.ne_nil
        have hlen := congrArg List.length hxy
        rw [List.length_drop, List.length_append] at hlen
        have hy : data.drop (position + x.length) = y := by
          rw [← List.drop_drop, hxy, List.drop_left]
        rw [rounds_piece hd hp hxy hx, ih (by omega) (by omega), ih (by omega) (by omega), hxy, hy,
          splitFrom_piece hx]
        cases splitFrom k fuel (position + x.length) (.ofBytes y) with
        | error f => split <;> rfl
        | ok p => by_cases hn : n = k <;> simp [hn, Except.mapError, Except.map]
    · have hnil : splitFrom k (fuel + 1) position (.ofBytes []) = .ok ([], []) := rfl
      rw [rounds, if_neg hlt, List.drop_eq_nil_of_le (by omega), hnil]
      simp [Except.mapError, Except.map]

end Rounds

end Machine

/-- A message shorter than `2 ^ 63` is split without stopping for anything but a fault, within as
many rounds as it has bytes. It then is made of records that are measured as they are, and none of
their bytes is lost, nor their order; so what is left is split no further, and messages one behind
the other are split each for itself. -/
theorem split_lossless {d : Bytes} (hd : d.length < 2 ^ 63) (k : Nat) :
    (∀ fuel, d.length ≤ fuel →
      Machine.rounds k d fuel 0 [] [] = (split k d).mapError .fault) ∧
    ∀ rest extracted, split k d = .ok (rest, extracted) →
      (∃ ps, d = glued ps ∧ (∀ p ∈ ps, Piece p.1 p.2) ∧
        rest = glued (ps.filter (·.1 ≠ k)) ∧ extracted = glued (ps.filter (·.1 = k))) ∧
      split k rest = .ok (rest, []) ∧
      ∀ d' rest' extracted', split k d' = .ok (rest', extracted') →
        split k (d ++ d') = .ok (rest ++ rest', extracted ++ extracted') := by
  refine ⟨fun fuel hf => ?_, fun rest extracted h => ⟨?_, ?_, fun d' rest' extracted' h' => ?_⟩⟩
  · have hsame : splitFrom k fuel 0 (.ofBytes d) = split k d := splitFrom_congr hf le_rfl
    rw [Machine.rounds_eq hd (Nat.zero_le _) hf, List.drop_zero, hsame]
    cases split k d <;> rfl
  · obtain ⟨ps, hps, hrest, hextracted⟩ := split_eq_ok_iff.mp h
    exact ⟨ps, hps.glued_eq.symm, hps.of_mem, hrest, hextracted⟩
  · exact split_of_clear (clear_of_split h)
  · exact split_concat h h'

/-- A text, a varint of the number for metadata and a group with a word in it. -/
def mixed : Bytes :=
  [0x0a, 0x01, 0x61, 0xd0, 0xf6, 0x03, 0x01, 0xc3, 0x3e, 0x15, 1, 2, 3, 4, 0xc4, 0x3e]

theorem split_lossless_mixed : mixed.length < 2 ^ 63 ∧
    Machine.rounds 8042 mixed 16 0 [] [] = (split 8042 mixed).mapError .fault ∧
    ∃ rest extracted, split 8042 mixed = .ok (rest, extracted) ∧
      split 8042 rest = .ok (rest, []) ∧
      split 8042 (mixed ++ mixed) = .ok (rest ++ rest, extracted ++ extracted) := by
  have hlt : mixed.length < 2 ^ 63 := by decide
  have hsplit : (split 8042 mixed).toOption.isSome = true := by decide +kernel
  obtain ⟨⟨rest, extracted⟩, hsome⟩ := Option.isSome_iff_exists.mp hsplit
  have hok := ok_of_toOption hsome
  obtain ⟨hrounds, hlaws⟩ := split_lossless hlt 8042
  obtain ⟨-, hagain, hconcat⟩ := hlaws rest extracted hok
  exact ⟨hlt, hrounds 16 (by decide), rest, extracted, hok, hagain,
    hconcat mixed rest extracted hok⟩

end DescriptorKit.Wire.Records
