import DescriptorKit.Wire.Payload
import Mathlib.Tactic.Ring

/-!
How readers go through bytes. A reader takes some bytes from the front, and what it makes of them
does not depend on those that follow; so reading one record after another goes through the bytes
piece by piece.
-/
namespace DescriptorKit.Wire

variable {ε ε' α β : Type} {x y b : Bytes} {n k : Nat}

/-- Whatever follows `x`, reading makes `a` of it and stops behind it. -/
def Takes (read : Cursor → Except ε (α × Cursor)) (x : Bytes) (a : α) : Prop :=
  ∀ y, read (.ofBytes (x ++ y)) = .ok (a, .ofBytes y)

/-- What is read depends on nothing but the bytes that it takes. -/
def Local (read : Cursor → Except ε (α × Cursor)) : Prop :=
  ∀ b a c, read (.ofBytes b) = .ok (a, c) → ∃ x y, b = x ++ y ∧ c = .ofBytes y ∧ Takes read x a

section Readers

variable {read : Cursor → Except ε (α × Cursor)} {next : α → Cursor → Except ε (β × Cursor)}
  {a : α} {b' : β} {c : Cursor}

theorem ofBytes_inj (h : Cursor.ofBytes x = Cursor.ofBytes y) : x = y := congrArg Cursor.bytes h

theorem Takes.unique {x' y' : Bytes} {a' : α} (h : Takes read x a) (h' : Takes read x' a')
    (he : x ++ y = x' ++ y') : x = x' ∧ a = a' ∧ y = y' := by
  have h₁ := h y
  rw [he, h' y', Except.ok.injEq, Prod.mk.injEq] at h₁
  obtain rfl := ofBytes_inj h₁.2
  exact ⟨List.append_cancel_right he, h₁.1.symm, rfl⟩

theorem Takes.bind (h : Takes read x a) (hn : Takes (next a) y b') :
    Takes (fun c => read c >>= fun p => next p.1 p.2) (x ++ y) b' := by
  intro z
  change (read _).bind _ = _
  rw [List.append_assoc, h, Except.bind, hn]

theorem Local.ok (a : α) : Local fun c => (.ok (a, c) : Except ε (α × Cursor)) := by
  intro b a' c h
  obtain ⟨rfl, rfl⟩ := Prod.mk.inj (Except.ok.inj h)
  exact ⟨[], b, rfl, rfl, fun y => rfl⟩

theorem Local.error (e : ε) : Local fun _ => (.error e : Except ε (α × Cursor)) := by
  intro b a' c h
  cases h

theorem Local.bind (h : Local read) (hn : ∀ a, Local (next a)) :
    Local fun c => read c >>= fun p => next p.1 p.2 := by
  intro b b' c hr
  change (read _).bind _ = _ at hr
  cases hb : read (.ofBytes b) with
  | error e =>
    rw [hb] at hr
    cases hr
  | ok p =>
    rw [hb] at hr
    obtain ⟨x, y, rfl, hy, hx⟩ := h b p.1 p.2 hb
    change next p.1 p.2 = _ at hr
    rw [hy] at hr
    obtain ⟨x', z, rfl, hz, hx'⟩ := hn p.1 y b' c hr
    exact ⟨x ++ x', z, by rw [List.append_assoc], hz, hx.bind hx'⟩

theorem Local.map (h : Local read) (f : α → β) :
    Local fun c => read c >>= fun p => .ok (f p.1, p.2) :=
  h.bind fun a => .ok (f a)

theorem Local.mapError (h : Local read) (f : ε → ε') : Local fun c => (read c).mapError f := by
  intro b a c hr
  dsimp only at hr
  cases hb : read (.ofBytes b) with
  | error e =>
    rw [hb] at hr
    cases hr
  | ok r =>
    rw [hb] at hr
    obtain rfl := Except.ok.inj hr
    obtain ⟨x, y, rfl, hy, hx⟩ := h b a c hb
    exact ⟨x, y, rfl, hy, fun z => by dsimp only; rw [hx]; rfl⟩

/-- A reader that takes `x` at all takes it whatever follows. -/
theorem Local.takes (h : Local read) (hr : read (.ofBytes (x ++ y)) = .ok (a, .ofBytes y)) :
    Takes read x a := by
  obtain ⟨x', y', he, hy, hx⟩ := h _ _ _ hr
  obtain rfl := ofBytes_inj hy
  obtain rfl := List.append_cancel_right he
  exact hx

/-- Reads made by one step after another, each from where the last one stopped. -/
inductive Runs (step : α → Cursor → Except ε (α × Cursor)) : α → Bytes → α → Prop where
  | nil (a : α) : Runs step a [] a
  | cons {a b c : α} {x y : Bytes} (h : Takes (step a) x b) (hs : Runs step b y c) :
      Runs step a (x ++ y) c

variable {step : α → Cursor → Except ε (α × Cursor)} {a a' a'' : α}

theorem Runs.append (h : Runs step a x a') (hs : Runs step a' y a'') :
    Runs step a (x ++ y) a'' := by
  induction h with
  | nil => exact hs
  | cons h _ ih =>
    rw [List.append_assoc]
    exact .cons h (ih hs)

/-- No step is made without bytes. -/
def Advances (step : α → Cursor → Except ε (α × Cursor)) : Prop :=
  ∀ a x b, Takes (step a) x b → x ≠ []

theorem Runs.of_nil (hp : Advances step) (h : Runs step a x a') (hx : x = []) : a' = a := by
  cases h with
  | nil => rfl
  | cons h _ => exact absurd (List.append_eq_nil_iff.mp hx).1 (hp _ _ _ h)

theorem Runs.cons_inv (h : Runs step a (x ++ y) a'') (hx : Takes (step a) x a')
    (hp : Advances step) : Runs step a' y a'' := by
  generalize hb : x ++ y = b at h
  cases h with
  | nil => exact absurd (List.append_eq_nil_iff.mp hb).1 (hp _ _ _ hx)
  | cons h hs =>
    obtain ⟨rfl, rfl, rfl⟩ := hx.unique h hb
    exact hs

/-- Where a run starts and what it reads say where it ends. -/
theorem Runs.unique (hp : Advances step) (h : Runs step a x a') (h' : Runs step a x a'') :
    a' = a'' := by
  induction h with
  | nil => exact (h'.of_nil hp rfl).symm
  | cons h _ ih => exact ih (h'.cons_inv h hp)

end Readers

namespace Varint

theorem decodeWithin_local {r : Nat} {rest : Bytes} (h : decodeWithin k b = some (n, r, rest)) :
    ∃ x, b = x ++ rest ∧ r = x.length ∧ x ≠ [] ∧
      ∀ y, decodeWithin k (x ++ y) = some (n, x.length, y) := by
  induction k generalizing b n r with
  | zero => simp [decodeWithin] at h
  | succ k ih =>
    cases b with
    | nil => simp [decodeWithin] at h
    | cons d b =>
      rw [decodeWithin] at h
      split at h
      case isTrue hd =>
        split at h
        · cases h
        · rename_i hk
          simp only [Option.some.injEq, Prod.mk.injEq] at h
          obtain ⟨rfl, rfl, rfl⟩ := h
          exact ⟨[d], rfl, rfl, by simp, fun y => by simp [decodeWithin, hd, hk]⟩
      case isFalse hd =>
        simp only [Option.map_eq_some_iff, Prod.mk.injEq, Prod.exists] at h
        obtain ⟨n', r', rest', hb, rfl, rfl, rfl⟩ := h
        obtain ⟨x, rfl, rfl, hx, hy⟩ := ih hb
        exact ⟨d :: x, rfl, rfl, by simp, fun y => by simp [decodeWithin, hd, hy]⟩

theorem encodeWithin_ne_nil : encodeWithin (k + 1) n ≠ [] := by
  rw [encodeWithin]
  split <;> simp

theorem toNat_low (h : n < 128) : (n.toUInt8).toNat = n := by
  simp only [Nat.toUInt8, UInt8.toNat_ofNat']
  omega

theorem toNat_high : ((n % 128 + 128).toUInt8).toNat = n % 128 + 128 := by
  simp only [Nat.toUInt8, UInt8.toNat_ofNat']
  omega

/-- A number that fits is read back; one that is too large is not read at all. -/
theorem decodeWithin_encodeWithin (k n : Nat) (y : Bytes) :
    decodeWithin (k + 1) (encodeWithin (k + 1) n ++ y) =
      if n < 2 * 128 ^ k then some (n, (encodeWithin (k + 1) n).length, y) else none := by
  induction k generalizing n with
  | zero =>
    rw [encodeWithin]
    by_cases hn : n < 128
    · rw [if_pos hn, List.singleton_append, decodeWithin, toNat_low hn, if_pos hn]
      by_cases h2 : n < 2
      · rw [if_neg (by omega), if_pos (by omega)]
        rfl
      · rw [if_pos (by omega), if_neg (by omega)]
    · rw [if_neg hn, List.cons_append, decodeWithin, toNat_high, if_neg (by omega),
        if_neg (by omega)]
      rfl
  | succ k ih =>
    rw [encodeWithin]
    by_cases hn : n < 128
    · have : 1 ≤ 128 ^ k := Nat.one_le_two_pow.trans (Nat.pow_le_pow_left (by omega) k)
      have hpow : 2 * 128 ^ (k + 1) = 256 * 128 ^ k := by ring
      rw [if_pos hn, List.singleton_append, decodeWithin, toNat_low hn, if_pos hn,
        if_neg (by omega), if_pos (by omega)]
      rfl
    · rw [if_neg hn, List.cons_append, decodeWithin, toNat_high, if_neg (by omega), ih]
      have hpow : 2 * 128 ^ (k + 1) = 128 * (2 * 128 ^ k) := by ring
      by_cases hlt : n / 128 < 2 * 128 ^ k
      · rw [if_pos hlt, if_pos (by omega), Option.map_some]
        simp only [List.length_cons, Option.some.injEq, Prod.mk.injEq, and_true]
        omega
      · rw [if_neg hlt, if_neg (by omega), Option.map_none]

theorem decode_encode (h : n < 2 ^ 64) (y : Bytes) :
    decode (encode n ++ y) = some (n, (encode n).length, y) := by
  rw [decode, encode, decodeWithin_encodeWithin 9, if_pos (by omega)]

theorem lt_of_decode_encode {r : Nat × Nat × Bytes} (h : decode (encode n ++ y) = some r) :
    n < 2 ^ 64 := by
  rw [decode, encode, decodeWithin_encodeWithin 9] at h
  split at h
  · omega
  · cases h

theorem encode_ne_nil : encode n ≠ [] := encodeWithin_ne_nil

end Varint

namespace Cursor

theorem ofBytes_skip (x y : Bytes) : (ofBytes (x ++ y)).skip x.length = ofBytes y := by
  simp [ofBytes, skip]

theorem readVarint_local : Local readVarint := by
  intro b n c h
  rw [readVarint] at h
  cases hd : Varint.decode (ofBytes b).bytes with
  | none =>
    rw [hd] at h
    cases h
  | some r =>
    obtain ⟨m, used, rest⟩ := r
    rw [hd] at h
    obtain ⟨rfl, rfl⟩ := Prod.mk.inj (Except.ok.inj h)
    obtain ⟨x, hb, rfl, -, hx⟩ := Varint.decodeWithin_local hd
    simp only [ofBytes] at hb
    subst hb
    refine ⟨x, rest, rfl, by simp [ofBytes], fun y => ?_⟩
    have : Varint.decode (x ++ y) = some (m, x.length, y) := hx y
    simp [readVarint, ofBytes, this]

theorem readVarint_encode (h : n < 2 ^ 64) : Takes readVarint (Varint.encode n) n := by
  intro y
  simp [readVarint, ofBytes, Varint.decode_encode h]

theorem readVarint_encode_inv {m : Nat} {c : Cursor}
    (h : readVarint (ofBytes (Varint.encode n ++ y)) = .ok (m, c)) :
    n < 2 ^ 64 ∧ m = n ∧ c = ofBytes y := by
  have hlt : n < 2 ^ 64 := by
    rw [readVarint] at h
    cases hd : Varint.decode (ofBytes (Varint.encode n ++ y)).bytes with
    | none =>
      rw [hd] at h
      cases h
    | some r => exact Varint.lt_of_decode_encode hd
  rw [readVarint_encode hlt, Except.ok.injEq, Prod.mk.injEq] at h
  exact ⟨hlt, h.1.symm, h.2.symm⟩

theorem take_append (x y : Bytes) : (ofBytes (x ++ y)).take x.length = .ok (x, ofBytes y) := by
  rw [take, if_pos (by simp [ofBytes]), ofBytes_skip]
  simp [ofBytes]

theorem take_takes (hx : x.length = n) : Takes (take n) x x := by
  subst hx
  exact take_append x

theorem take_inv {p : Bytes} {c : Cursor} (h : take n (ofBytes b) = .ok (p, c)) :
    p.length = n ∧ ∃ y, b = p ++ y ∧ c = ofBytes y := by
  rw [take] at h
  split at h
  case isTrue hn =>
    obtain ⟨rfl, rfl⟩ := Prod.mk.inj (Except.ok.inj h)
    simp only [ofBytes] at hn ⊢
    exact ⟨by simp [hn], b.drop n, by simp, by simp [skip]⟩
  case isFalse => cases h

theorem take_local (n : Nat) : Local (take n) := by
  intro b p c h
  obtain ⟨hp, y, rfl, rfl⟩ := take_inv h
  exact ⟨p, y, rfl, rfl, take_takes hp⟩

theorem readDelimited_local : Local readDelimited :=
  readVarint_local.bind take_local

theorem readDelimited_encode (h : x.length < 2 ^ 64) :
    Takes readDelimited (encodeDelimited x) x :=
  (readVarint_encode h).bind (take_takes rfl)

theorem readDelimited_encode_inv {p : Bytes} {c : Cursor}
    (h : readDelimited (ofBytes (encodeDelimited x ++ y)) = .ok (p, c)) :
    x.length < 2 ^ 64 ∧ p = x ∧ c = ofBytes y := by
  have hlt : x.length < 2 ^ 64 := by
    rw [encodeDelimited, List.append_assoc, readDelimited] at h
    cases hv : readVarint (ofBytes (Varint.encode x.length ++ (x ++ y))) with
    | error e =>
      rw [hv] at h
      cases h
    | ok r => exact (readVarint_encode_inv (m := r.1) (c := r.2) hv).1
  rw [readDelimited_encode hlt, Except.ok.injEq, Prod.mk.injEq] at h
  exact ⟨hlt, h.1.symm, h.2.symm⟩

/-- Reading a key, with the two things it says put together. -/
def key (c : Cursor) : Except Fault ((Nat × WireType) × Cursor) :=
  (readKey c).map fun (number, w, c) => ((number, w), c)

/-- The number in a key says which field follows and how its value is written. -/
def keyOf (key : Nat) : Except Fault (Nat × WireType) :=
  if 0x100000000 ≤ key then .error (.key key)
  else
    match WireType.ofCode? (key % 8) with
    | none => .error (.wireTypeCode (key % 8))
    | some w => if key / 8 = 0 then .error .tagZero else .ok (key / 8, w)

/-- What a key says, with nothing else read. -/
def toldBy (n : Nat) (c : Cursor) : Except Fault ((Nat × WireType) × Cursor) :=
  match keyOf n with
  | .ok k => .ok (k, c)
  | .error f => .error f

theorem key_eq (c : Cursor) : key c = readVarint c >>= fun p => toldBy p.1 p.2 := by
  unfold key readKey toldBy keyOf
  cases readVarint c with
  | error f => rfl
  | ok p =>
    obtain ⟨n, c⟩ := p
    simp only [bind, Except.bind]
    split
    · rfl
    · cases WireType.ofCode? (n % 8) with
      | none => rfl
      | some w =>
        dsimp only
        split <;> rfl

theorem key_local : Local key := by
  have : Local fun c => readVarint c >>= fun p => toldBy p.1 p.2 := by
    refine readVarint_local.bind fun n => ?_
    unfold toldBy
    cases keyOf n with
    | ok k => exact .ok k
    | error f => exact .error f
  intro b a c h
  rw [key_eq] at h
  obtain ⟨x, y, hb, hc, hx⟩ := this b a c h
  exact ⟨x, y, hb, hc, fun z => by rw [key_eq]; exact hx z⟩

theorem key_ne_nil {k : Nat × WireType} (h : Takes key x k) : x ≠ [] := by
  rintro rfl
  have := h []
  rw [key_eq] at this
  simp [readVarint, ofBytes, Varint.decode, Varint.decodeWithin, bind, Except.bind] at this

theorem readKey_of_key {k : Nat × WireType} {c c' : Cursor} (h : key c = .ok (k, c')) :
    readKey c = .ok (k.1, k.2, c') := by
  rw [key] at h
  cases hr : readKey c with
  | error f =>
    rw [hr] at h
    cases h
  | ok r =>
    rw [hr] at h
    obtain ⟨rfl, rfl⟩ := Prod.mk.inj (Except.ok.inj h)
    rfl

theorem readKey_of_error {f : Fault} {c : Cursor} (h : key c = .error f) :
    readKey c = .error f := by
  rw [key] at h
  cases hr : readKey c with
  | error g =>
    rw [hr] at h
    simpa [Except.map] using h
  | ok r =>
    rw [hr] at h
    cases h

theorem ofCode?_mod (number : Nat) (w : WireType) :
    WireType.ofCode? ((8 * number + w.code) % 8) = some w := by
  have : (8 * number + w.code) % 8 = w.code := by
    have : w.code < 8 := by cases w <;> decide
    omega
  rw [this, WireType.ofCode?_code]

theorem code_lt (w : WireType) : w.code < 8 := by cases w <;> decide

theorem key_encode {number : Nat} {w : WireType} (h : 0 < number) (hn : number < 2 ^ 29) :
    Takes key (encodeKey number w) (number, w) := by
  intro y
  have hw := code_lt w
  have hk : keyOf (8 * number + w.code) = .ok (number, w) := by
    rw [keyOf, if_neg (by omega), ofCode?_mod]
    dsimp only
    rw [if_neg (by omega)]
    simp only [Except.ok.injEq, Prod.mk.injEq, and_true]
    omega
  rw [key_eq, encodeKey, readVarint_encode (by omega)]
  simp only [bind, Except.bind, toldBy, hk]

theorem key_encode_inv {number : Nat} {w : WireType} {k : Nat × WireType} {c : Cursor}
    (h : key (ofBytes (encodeKey number w ++ y)) = .ok (k, c)) :
    0 < number ∧ number < 2 ^ 29 ∧ k = (number, w) ∧ c = ofBytes y := by
  have hw := code_lt w
  rw [key_eq, encodeKey] at h
  cases hv : readVarint (ofBytes (Varint.encode (8 * number + w.code) ++ y)) with
  | error e =>
    rw [hv] at h
    cases h
  | ok p =>
    obtain ⟨-, hp, hc⟩ := readVarint_encode_inv (m := p.1) (c := p.2) hv
    simp only [hv, bind, Except.bind, hp, hc, toldBy, keyOf, ofCode?_mod] at h
    split at h
    · rename_i hk
      split at hk
      · cases hk
      · split at hk
        · cases hk
        · simp only [Except.ok.injEq] at hk
          subst hk
          obtain ⟨rfl, rfl⟩ := Prod.mk.inj (Except.ok.inj h)
          refine ⟨by omega, by omega, ?_, rfl⟩
          simp only [Prod.mk.injEq, and_true]
          omega
    · cases h

end Cursor
end DescriptorKit.Wire
