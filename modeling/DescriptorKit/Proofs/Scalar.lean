import DescriptorKit.Proofs.Wire.Payload
import DescriptorKit.Schema.Basic

/-!
Scalar values as payloads. Reading a scalar is reading a payload of its wire type and making
something of it, and what is made of the payload of a value is the value again.
-/
namespace DescriptorKit
open Wire

variable {k : Kind} {s : Scalar} {p : Payload} {n number : Nat} {c : Cursor}

theorem Wire.Varint.decodeWithin_lt {b rest : Bytes} {budget r : Nat}
    (h : decodeWithin (budget + 1) b = some (n, r, rest)) : n < 2 * 128 ^ budget := by
  induction budget generalizing b n r rest with
  | zero =>
    cases b with
    | nil => cases h
    | cons d b =>
      rw [decodeWithin] at h
      split at h
      · split at h
        · cases h
        · rename_i hk
          simp only [Option.some.injEq, Prod.mk.injEq] at h
          omega
      · cases h
  | succ k ih =>
    cases b with
    | nil => cases h
    | cons d b =>
      have h1 : 1 ≤ 128 ^ k := Nat.one_le_pow _ _ (by omega)
      have hpow : 2 * 128 ^ (k + 1) = 256 * 128 ^ k := by ring
      rw [decodeWithin] at h
      split at h
      · split at h
        · cases h
        · simp only [Option.some.injEq, Prod.mk.injEq] at h
          omega
      · simp only [Option.map_eq_some_iff, Prod.mk.injEq, Prod.exists] at h
        obtain ⟨n', r', rest', hb, hn, -, -⟩ := h
        have := ih hb
        have := d.toNat_lt
        omega

theorem Wire.Cursor.readVarint_lt {c' : Cursor} (h : c.readVarint = .ok (n, c')) : n < 2 ^ 64 := by
  rw [readVarint] at h
  cases hd : Varint.decode c.bytes with
  | none =>
    rw [hd] at h
    cases h
  | some r =>
    rw [hd] at h
    obtain ⟨rfl, -⟩ := Prod.mk.inj (Except.ok.inj h)
    exact Varint.decodeWithin_lt hd

namespace Scalar

/-- The value is one of the kind. -/
inductive Fits : Kind → Scalar → Prop where
  | double (b : UInt64) : Fits (.scalar .double) (.double b)
  | float (b : UInt32) : Fits (.scalar .float) (.float b)
  | int64 (n : Int64) : Fits (.scalar .int64) (.int64 n)
  | uint64 (n : UInt64) : Fits (.scalar .uint64) (.uint64 n)
  | int32 (n : Int32) : Fits (.scalar .int32) (.int32 n)
  | fixed64 (n : UInt64) : Fits (.scalar .fixed64) (.uint64 n)
  | fixed32 (n : UInt32) : Fits (.scalar .fixed32) (.uint32 n)
  | bool (b : Bool) : Fits (.scalar .bool) (.bool b)
  | string (s : String) : Fits (.scalar .string) (.string s)
  | bytes (b : Bytes) : Fits (.scalar .bytes) (.bytes b)
  | uint32 (n : UInt32) : Fits (.scalar .uint32) (.uint32 n)
  | sfixed32 (n : Int32) : Fits (.scalar .sfixed32) (.int32 n)
  | sfixed64 (n : Int64) : Fits (.scalar .sfixed64) (.int64 n)
  | sint32 (n : Int32) : Fits (.scalar .sint32) (.int32 n)
  | sint64 (n : Int64) : Fits (.scalar .sint64) (.int64 n)
  | enum (type : String) (n : Int32) : Fits (.enum type) (.enum n)

/-- The bytes of a value in a field of the kind, without its key. -/
def encodeKind (k : Kind) (s : Scalar) : Bytes :=
  match k with
  | .scalar k => s.encode k
  | _ => s.encode .int32

/-- The payload that holds a value of the kind. -/
def payload : Kind → Scalar → Payload
  | .scalar .sint64, .int64 n => .varint (zigzag n.toInt).toUInt64
  | .scalar .sint32, .int32 n => .varint (zigzag n.toInt).toUInt64
  | .scalar .sfixed64, .int64 n => .fixed64 n.toUInt64
  | .scalar .sfixed32, .int32 n => .fixed32 n.toUInt32
  | .scalar .fixed64, .uint64 n => .fixed64 n
  | .scalar .fixed32, .uint32 n => .fixed32 n
  | _, .double b => .fixed64 b
  | _, .float b => .fixed32 b
  | _, .int64 n => .varint (pattern64 n.toInt).toUInt64
  | _, .uint64 n => .varint n
  | _, .int32 n => .varint (pattern64 n.toInt).toUInt64
  | _, .uint32 n => .varint n.toUInt64
  | _, .bool b => .varint b.toUInt64
  | _, .string s => .delimited (Bytes.ofText s)
  | _, .bytes b => .delimited b
  | _, .enum n => .varint (pattern64 n.toInt).toUInt64

/-- What a payload means for the kind, if it is one of its wire type. -/
def ofPayload : Kind → Payload → Except Fault Scalar
  | .scalar .double, .fixed64 v => .ok (.double v)
  | .scalar .float, .fixed32 v => .ok (.float v)
  | .scalar .int64, .varint v => .ok (.int64 (Int64.ofNat v.toNat))
  | .scalar .uint64, .varint v => .ok (.uint64 v)
  | .scalar .int32, .varint v => .ok (.int32 (Int32.ofNat v.toNat))
  | .scalar .fixed64, .fixed64 v => .ok (.uint64 v)
  | .scalar .fixed32, .fixed32 v => .ok (.uint32 v)
  | .scalar .bool, .varint v => .ok (.bool (v.toNat ≠ 0))
  | .scalar .string, .delimited b =>
    match Bytes.text? b with
    | some s => .ok (.string s)
    | none => .error .notText
  | .scalar .bytes, .delimited b => .ok (.bytes b)
  | .scalar .uint32, .varint v => .ok (.uint32 v.toNat.toUInt32)
  | .scalar .sfixed32, .fixed32 v => .ok (.int32 (Int32.ofNat v.toNat))
  | .scalar .sfixed64, .fixed64 v => .ok (.int64 (Int64.ofNat v.toNat))
  | .scalar .sint32, .varint v => .ok (.int32 (Int32.ofInt (unzigzag (v.toNat % 0x100000000))))
  | .scalar .sint64, .varint v => .ok (.int64 (Int64.ofInt (unzigzag v.toNat)))
  | .enum _, .varint v => .ok (.enum (Int32.ofNat v.toNat))
  | _, _ => .error .endGroup

/-- Reads a scalar or the number of an enum. -/
def readKind (k : Kind) (c : Cursor) : Except Fault (Scalar × Cursor) :=
  match k with
  | .scalar k => read k c
  | _ => readEnum c

theorem wireType_payload (h : s.Fits k) : (s.payload k).wireType = k.wireType := by
  cases h <;> rfl

theorem toNat_toUInt64 (h : n < 2 ^ 64) : n.toUInt64.toNat = n := by
  simp only [Nat.toUInt64, UInt64.toNat_ofNat']
  omega

theorem pattern64_lt (n : Int) : pattern64 n < 2 ^ 64 := by
  unfold pattern64
  omega

theorem zigzag_lt {n : Int} (m : Nat) (h : -m ≤ n) (h' : n < m) : zigzag n < 2 * m := by
  unfold zigzag
  split <;> omega

theorem unzigzag_zigzag (n : Int) : unzigzag (zigzag n) = n := by
  unfold zigzag
  split
  · unfold unzigzag
    rw [if_neg (by omega)]
    omega
  · unfold unzigzag
    rw [if_pos (by omega)]
    omega

theorem zigzag_int32_lt (n : Int32) : zigzag n.toInt < 2 ^ 32 := by
  have h := n.le_toInt
  have h' := n.toInt_lt
  have hz := zigzag_lt (n := n.toInt) (2 ^ 31) (by omega) (by omega)
  omega

theorem zigzag_int64_lt (n : Int64) : zigzag n.toInt < 2 ^ 64 := by
  have h := n.le_toInt
  have h' := n.toInt_lt
  have hz := zigzag_lt (n := n.toInt) (2 ^ 63) (by omega) (by omega)
  omega

theorem encodeKind_eq (h : s.Fits k) (number : Nat) :
    encodeKind k s = (s.payload k).body number := by
  cases h with
  | sint32 n =>
    have h := zigzag_int32_lt n
    have h' : zigzag n.toInt < 2 ^ 64 := by omega
    simp [encodeKind, encode, payload, Payload.body, toNat_toUInt64 h']
  | sint64 n =>
    simp [encodeKind, encode, payload, Payload.body, toNat_toUInt64 (zigzag_int64_lt n)]
  | bool b => cases b <;> rfl
  | _ => simp [encodeKind, encode, payload, Payload.body, toNat_toUInt64 (pattern64_lt _)]

theorem int64_pattern (n : Int64) : Int64.ofNat (pattern64 n.toInt) = n := by
  have h := n.le_toInt
  have h' := n.toInt_lt
  rw [← Int64.ofInt_eq_ofNat, Int64.ofInt_eq_iff_bmod_eq_toInt, Int.bmod_def]
  unfold pattern64
  split <;> omega

theorem int32_pattern (n : Int32) : Int32.ofNat (pattern64 n.toInt) = n := by
  have h := n.le_toInt
  have h' := n.toInt_lt
  rw [← Int32.ofInt_eq_ofNat, Int32.ofInt_eq_iff_bmod_eq_toInt, Int.bmod_def]
  unfold pattern64
  split <;> omega

/-- What is made of the payload of a value is the value. -/
theorem ofPayload_payload (h : s.Fits k) : ofPayload k (s.payload k) = .ok s := by
  cases h with
  | int64 n => simp [payload, ofPayload, toNat_toUInt64 (pattern64_lt _), int64_pattern]
  | int32 n => simp [payload, ofPayload, toNat_toUInt64 (pattern64_lt _), int32_pattern]
  | enum type n => simp [payload, ofPayload, toNat_toUInt64 (pattern64_lt _), int32_pattern]
  | string s => simp [payload, ofPayload, Bytes.text?_ofText]
  | bool b => cases b <;> rfl
  | uint32 n => simp [payload, ofPayload]
  | sint32 n =>
    have hz := zigzag_int32_lt n
    have hz' : zigzag n.toInt < 2 ^ 64 := by omega
    have hm : zigzag n.toInt % 0x100000000 = zigzag n.toInt := by omega
    rw [payload, ofPayload, toNat_toUInt64 hz', hm, unzigzag_zigzag, Int32.ofInt_toInt]
  | sint64 n =>
    rw [payload, ofPayload, toNat_toUInt64 (zigzag_int64_lt n), unzigzag_zigzag, Int64.ofInt_toInt]
  | sfixed32 n =>
    rw [payload, ofPayload, ← UInt32.toInt32_ofNat', UInt32.ofNat_toNat, Int32.toInt32_toUInt32]
  | sfixed64 n =>
    rw [payload, ofPayload, ← UInt64.toInt64_ofNat', UInt64.ofNat_toNat, Int64.toInt64_toUInt64]
  | _ => rfl

theorem fits_of_ofPayload (h : ofPayload k p = .ok s) : s.Fits k := by
  unfold ofPayload at h
  split at h <;> first
    | (obtain rfl := Except.ok.inj h; constructor)
    | (split at h <;> first | (obtain rfl := Except.ok.inj h; exact .string _) | cases h)
    | cases h

theorem int64_ofNat_mod (n : Nat) : Int64.ofNat n.toUInt64.toNat = Int64.ofNat n := by
  rw [← UInt64.toInt64_ofNat', ← UInt64.toInt64_ofNat', UInt64.ofNat_toNat]

theorem int32_ofNat_mod (n : Nat) : Int32.ofNat n.toUInt32.toNat = Int32.ofNat n := by
  rw [← UInt32.toInt32_ofNat', ← UInt32.toInt32_ofNat', UInt32.ofNat_toNat]

theorem readFlat_varint (c : Cursor) : Payload.readFlat .varint c =
    c.readVarint >>= fun p => .ok (.varint p.1.toUInt64, p.2) := rfl

/-- What a payload means, with nothing else read. -/
def toldBy (k : Kind) (p : Payload) (c : Cursor) : Except Fault (Scalar × Cursor) :=
  ofPayload k p >>= fun s => .ok (s, c)

/-- Reading a scalar is reading a payload of its wire type. -/
theorem readKind_eq (hk : k.wireType ≠ .startGroup) (hm : ∀ type, k ≠ .message type) (c : Cursor) :
    readKind k c = Payload.readFlat k.wireType c >>= fun r => toldBy k r.1 r.2 := by
  have hvarint : ∀ f : Nat → Scalar,
    (∀ n, n < 2 ^ 64 → ofPayload k (.varint n.toUInt64) = .ok (f n)) →
      (c.readVarint >>= fun p => .ok (f p.1, p.2)) =
        Payload.readFlat .varint c >>= fun r => toldBy k r.1 r.2 := by
    intro f hf
    rw [readFlat_varint]
    cases hv : c.readVarint with
    | error e => rfl
    | ok p =>
      have hlt := Cursor.readVarint_lt (show c.readVarint = .ok (p.1, p.2) from hv)
      simp [toldBy, bind, Except.bind, hf p.1 hlt]
  cases k with
  | scalar k =>
    cases k with
    | int64 =>
      exact hvarint (fun n => .int64 (Int64.ofNat n)) fun n h => by
        rw [ofPayload, toNat_toUInt64 h]
    | uint64 => exact hvarint (fun n => .uint64 n.toUInt64) fun n h => rfl
    | int32 =>
      exact hvarint (fun n => .int32 (Int32.ofNat n)) fun n h => by
        rw [ofPayload, toNat_toUInt64 h]
    | bool =>
      exact hvarint (fun n => .bool (n ≠ 0)) fun n h => by rw [ofPayload, toNat_toUInt64 h]
    | uint32 =>
      exact hvarint (fun n => .uint32 n.toUInt32) fun n h => by
        rw [ofPayload, toNat_toUInt64 h]
    | sint32 =>
      exact hvarint (fun n => .int32 (Int32.ofInt (unzigzag (n % 0x100000000)))) fun n h => by
        rw [ofPayload, toNat_toUInt64 h]
    | sint64 =>
      exact hvarint (fun n => .int64 (Int64.ofInt (unzigzag n))) fun n h => by
        rw [ofPayload, toNat_toUInt64 h]
    | string =>
      change (c.readDelimited >>= fun p => _) =
        (c.readDelimited >>= fun p => .ok (Payload.delimited p.1, p.2)) >>= _
      cases hd : c.readDelimited with
      | error e => rfl
      | ok p =>
        simp only [bind, Except.bind, toldBy, ofPayload]
        cases Bytes.text? p.1 <;> rfl
    | bytes =>
      change (c.readDelimited >>= fun p => _) =
        (c.readDelimited >>= fun p => .ok (Payload.delimited p.1, p.2)) >>= _
      cases hd : c.readDelimited <;> rfl
    | sfixed64 =>
      change (c.take 8 >>= fun p => _) =
        (c.take 8 >>= fun p => .ok (Payload.fixed64 _, p.2)) >>= _
      cases c.take 8 with
      | error e => rfl
      | ok p => simp only [bind, Except.bind, toldBy, ofPayload, int64_ofNat_mod]
    | sfixed32 =>
      change (c.take 4 >>= fun p => _) =
        (c.take 4 >>= fun p => .ok (Payload.fixed32 _, p.2)) >>= _
      cases c.take 4 with
      | error e => rfl
      | ok p => simp only [bind, Except.bind, toldBy, ofPayload, int32_ofNat_mod]
    | double | fixed64 =>
      change (c.take 8 >>= fun p => _) =
        (c.take 8 >>= fun p => .ok (Payload.fixed64 _, p.2)) >>= _
      cases c.take 8 <;> rfl
    | float | fixed32 =>
      change (c.take 4 >>= fun p => _) =
        (c.take 4 >>= fun p => .ok (Payload.fixed32 _, p.2)) >>= _
      cases c.take 4 <;> rfl
  | enum type =>
    exact hvarint (fun n => .enum (Int32.ofNat n)) fun n h => by
      rw [ofPayload, toNat_toUInt64 h]
  | message type => exact absurd rfl (hm type)
  | group type => exact absurd rfl hk

end Scalar
end DescriptorKit
