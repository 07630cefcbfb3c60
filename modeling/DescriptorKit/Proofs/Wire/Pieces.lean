import DescriptorKit.Proofs.Except
import DescriptorKit.Proofs.Scalar
import DescriptorKit.Proofs.Wire.Payload
import DescriptorKit.Wire.Records

/-!
Bytes as the pieces that splitting finds in them. Each piece is measured by itself, whatever stands
behind it, so the pieces say all about a split.
-/
namespace DescriptorKit.Wire.Records

variable {b b' x y r e : Bytes} {k n length used offset fuel : Nat} {w : WireType}
  {ps qs : List (Nat × Bytes)}

theorem digits_local (h : digits k b = some (n, used)) :
    ∃ x y, b = x ++ y ∧ x.length = used ∧ ∀ z, digits k (x ++ z) = some (n, used) := by
  induction k generalizing b n used with
  | zero => cases h
  | succ k ih =>
    cases b with
    | nil => cases h
    | cons d b =>
      rw [digits] at h
      split at h
      · rename_i hd
        obtain ⟨rfl, rfl⟩ := Prod.mk.inj (Option.some.inj h)
        exact ⟨[d], b, rfl, rfl, fun z => by rw [List.singleton_append, digits, if_pos hd]⟩
      · rename_i hd
        obtain ⟨⟨m, l⟩, hm, he⟩ := Option.map_eq_some_iff.mp h
        obtain ⟨rfl, rfl⟩ := Prod.mk.inj he
        obtain ⟨x, y, rfl, rfl, hz⟩ := ih hm
        exact ⟨d :: x, y, rfl, rfl, fun z => by rw [List.cons_append, digits, if_neg hd, hz]; rfl⟩

theorem varint_local (h : varint b = some (n, used)) :
    ∃ x y, b = x ++ y ∧ x.length = used ∧ ∀ z, varint (x ++ z) = some (n, used) := by
  obtain ⟨⟨m, l⟩, hm, he⟩ := Option.map_eq_some_iff.mp h
  obtain ⟨x, y, rfl, hx, hz⟩ := digits_local hm
  obtain ⟨rfl, rfl⟩ := Prod.mk.inj he
  exact ⟨x, y, rfl, hx, fun z => by rw [varint, hz]; rfl⟩

theorem digits_of_decodeWithin {rest : Bytes} (h : Varint.decodeWithin k b = some (n, used, rest)) :
    digits k b = some (n, used) := by
  induction k generalizing b n used with
  | zero => cases h
  | succ k ih =>
    cases b with
    | nil => cases h
    | cons d b =>
      rw [Varint.decodeWithin] at h
      rw [digits]
      split at h
      · rename_i hd
        split at h
        · cases h
        · obtain ⟨rfl, he⟩ := Prod.mk.inj (Option.some.inj h)
          obtain ⟨rfl, -⟩ := Prod.mk.inj he
          rw [if_pos hd]
      · rename_i hd
        obtain ⟨⟨m, l, rest'⟩, hm, he⟩ := Option.map_eq_some_iff.mp h
        obtain ⟨hn, he⟩ := Prod.mk.inj he
        obtain ⟨hl, rfl⟩ := Prod.mk.inj he
        rw [if_neg hd, ih hm, ← hn, ← hl]
        rfl

/-- Splitting reads a number as any reader does. -/
theorem varint_of_takes (h : Takes Cursor.readVarint x n) (y : Bytes) :
    varint (x ++ y) = some (n, x.length) := by
  have hr := h y
  have hlt := Cursor.readVarint_lt hr
  rw [Cursor.readVarint] at hr
  cases hd : Varint.decode (Cursor.ofBytes (x ++ y)).bytes with
  | none =>
    rw [hd] at hr
    cases hr
  | some d =>
    obtain ⟨m, l, rest⟩ := d
    rw [hd] at hr
    obtain ⟨rfl, hc⟩ := Prod.mk.inj (Except.ok.inj hr)
    obtain rfl : rest = y := congrArg Cursor.bytes hc
    obtain ⟨x', hx', rfl, -, -⟩ := Varint.decodeWithin_local hd
    obtain rfl := List.append_cancel_right (show x ++ rest = x' ++ rest from hx')
    have hdigits : digits 10 (x ++ rest) = some (m, x.length) := digits_of_decodeWithin hd
    rw [varint, hdigits, Option.map_some]
    exact congrArg (fun v => some (v, x.length)) (Nat.mod_eq_of_lt hlt)

/-- What follows a key is measured by itself. -/
theorem valueLength_local
    (h : valueLength offset (x ++ b).length x.length w (x ++ b) = .ok length) :
    ∃ v z, b = v ++ z ∧ v.length = length ∧ ∀ offset z,
      valueLength offset (x ++ (v ++ z)).length x.length w (x ++ (v ++ z)) = .ok length := by
  have hdrop : ∀ y : Bytes, (x ++ y).drop x.length = y := fun y => List.drop_left
  have hfixed : ∀ width : Nat, (if (x ++ b).length < x.length + width then
      (.error (.malformed (offset + x.length) (.fixedValue width)) : Except Fault Nat)
      else .ok width) = .ok length → ∃ v z, b = v ++ z ∧ v.length = length ∧ width = length := by
    intro width h
    split at h
    · cases h
    · rename_i hle
      obtain rfl := Except.ok.inj h
      rw [List.length_append] at hle
      refine ⟨b.take width, b.drop width, (List.take_append_drop width b).symm, ?_, rfl⟩
      rw [List.length_take]
      omega
  unfold valueLength at h ⊢
  simp only [hdrop] at h ⊢
  cases w with
  | varint =>
    dsimp only at h ⊢
    split at h
    · cases h
    · rename_i v l hv
      obtain rfl := Except.ok.inj h
      obtain ⟨v', z, rfl, hl, hz⟩ := varint_local hv
      exact ⟨v', z, rfl, hl, fun offset z => by rw [hz]⟩
  | fixed64 =>
    obtain ⟨v, z, rfl, hv, rfl⟩ := hfixed 8 h
    exact ⟨v, z, rfl, hv, fun offset z => if_neg (by simp only [List.length_append]; omega)⟩
  | fixed32 =>
    obtain ⟨v, z, rfl, hv, rfl⟩ := hfixed 4 h
    exact ⟨v, z, rfl, hv, fun offset z => if_neg (by simp only [List.length_append]; omega)⟩
  | delimited =>
    dsimp only at h ⊢
    split at h
    · cases h
    · rename_i size l hv
      split at h
      · cases h
      · rename_i hrange
        split at h
        · cases h
        · rename_i hle
          obtain rfl := Except.ok.inj h
          obtain ⟨v, z, rfl, hl, hz⟩ := varint_local hv
          simp only [List.length_append] at hle
          refine ⟨v ++ z.take size, z.drop size, by simp, ?_, fun offset z' => ?_⟩
          · rw [List.length_append, List.length_take]
            omega
          · rw [List.append_assoc, hz]
            dsimp only
            rw [if_neg hrange, if_neg]
            simp only [List.length_append, List.length_take]
            omega
  | startGroup =>
    obtain rfl := Except.ok.inj h
    exact ⟨[], b, rfl, rfl, fun _ _ => rfl⟩
  | endGroup =>
    obtain rfl := Except.ok.inj h
    exact ⟨[], b, rfl, rfl, fun _ _ => rfl⟩

/-- Bytes that are measured as one record of a number, whatever stands behind them. -/
def Piece (n : Nat) (x : Bytes) : Prop :=
  ∀ offset y, measure offset (x ++ y).length (x ++ y) = .ok (n, x.length)

theorem Piece.ne_nil (h : Piece n x) : x ≠ [] := by
  rintro rfl
  cases h 0 []

/-- What measuring looks at, and what it makes of it. -/
theorem measure_eq_ok_iff {size number : Nat} : measure offset size b = .ok (number, length) ↔
    ∃ tag used w value, varint b = some (tag, used) ∧ WireType.ofCode? (tag % 8) = some w ∧
      number = tag / 8 % 2 ^ 32 ∧ (1 ≤ number ∧ number ≤ maxFieldNumber) ∧
      valueLength offset size used w b = .ok value ∧ length = used + value := by
  constructor
  · intro h
    unfold measure at h
    split at h
    · cases h
    · split at h
      · cases h
      · rename_i tag used htag
        split at h
        · cases h
        · rename_i w hw
          dsimp only at h
          split at h
          · cases h
          · rename_i hnumber
            split at h
            · rename_i value hvalue
              obtain ⟨rfl, rfl⟩ := Prod.mk.inj (Except.ok.inj h)
              exact ⟨tag, used, w, value, htag, hw, rfl, by omega, hvalue, rfl⟩
            · cases h
  · rintro ⟨tag, used, w, value, htag, hw, rfl, hnumber, hvalue, rfl⟩
    have hne : b ≠ [] := by
      rintro rfl
      cases htag
    have hin : ¬ (tag / 8 % 0x100000000 = 0 ∨ maxFieldNumber < tag / 8 % 0x100000000) := by
      omega
    rw [measure, if_neg hne, htag]
    dsimp only
    rw [hw]
    dsimp only
    rw [if_neg hin, hvalue]
    rfl

theorem measure_local (h : measure offset b.length b = .ok (n, length)) :
    ∃ x y, b = x ++ y ∧ x.length = length ∧ Piece n x := by
  obtain ⟨tag, used, w, size, htag, hw, hnumber, hrange, hsize, rfl⟩ := measure_eq_ok_iff.mp h
  obtain ⟨t, z, rfl, rfl, ht⟩ := varint_local htag
  obtain ⟨v, y, rfl, rfl, hv⟩ := valueLength_local hsize
  refine ⟨t ++ v, y, by rw [List.append_assoc], by rw [List.length_append], fun o y' => ?_⟩
  rw [List.append_assoc]
  exact measure_eq_ok_iff.mpr ⟨tag, t.length, w, v.length, ht _, hw, hnumber, hrange, hv o y',
    List.length_append⟩

/-- The pieces that some bytes consist of, each with its number. -/
inductive Pieces : Bytes → List (Nat × Bytes) → Prop where
  | nil : Pieces [] []
  | cons {x b : Bytes} {n : Nat} {ps : List (Nat × Bytes)} (h : Piece n x) (hs : Pieces b ps) :
    Pieces (x ++ b) ((n, x) :: ps)

/-- Pieces one after the other. -/
def glued (ps : List (Nat × Bytes)) : Bytes := (ps.map (·.2)).flatten

theorem Pieces.glued_eq (h : Pieces b ps) : glued ps = b := by
  induction h with
  | nil => rfl
  | @cons x b n ps _ _ ih => rw [glued, List.map_cons, List.flatten_cons, ← glued, ih]

theorem Pieces.of_mem (h : Pieces b ps) : ∀ p ∈ ps, Piece p.1 p.2 := by
  induction h with
  | nil => simp
  | cons h _ ih => exact List.forall_mem_cons.mpr ⟨h, ih⟩

theorem pieces_glued (h : ∀ p ∈ ps, Piece p.1 p.2) : Pieces (glued ps) ps := by
  induction ps with
  | nil => exact .nil
  | cons p ps ih =>
    obtain ⟨hp, hps⟩ := List.forall_mem_cons.mp h
    exact .cons hp (ih hps)

theorem Pieces.append (h : Pieces b ps) (h' : Pieces b' qs) : Pieces (b ++ b') (ps ++ qs) := by
  induction h with
  | nil => exact h'
  | cons h _ ih =>
    rw [List.append_assoc]
    exact .cons h ih

theorem Pieces.unique (h : Pieces b ps) (h' : Pieces b qs) : ps = qs := by
  induction h generalizing qs with
  | nil =>
    generalize hb : ([] : Bytes) = b at h'
    cases h' with
    | nil => rfl
    | cons hp _ => exact absurd (List.append_eq_nil_iff.mp hb.symm).1 hp.ne_nil
  | @cons x b n ps hp _ ih =>
    generalize hb : x ++ b = bytes at h'
    cases h' with
    | nil => exact absurd (List.append_eq_nil_iff.mp hb).1 hp.ne_nil
    | @cons x' b' n' ps' hp' h' =>
      have hsame := (hp 0 b).symm.trans
        ((congrArg (fun y => measure 0 y.length y) hb).trans (hp' 0 b'))
      obtain ⟨rfl, hlength⟩ := Prod.mk.inj (Except.ok.inj hsame)
      obtain ⟨rfl, rfl⟩ := List.append_inj hb hlength
      rw [ih h']

theorem splitFrom_piece (h : Piece n x) :
    splitFrom k (fuel + 1) offset (.ofBytes (x ++ y)) =
      (splitFrom k fuel (offset + x.length) (.ofBytes y)).map fun p =>
        if n = k then (p.1, x ++ p.2) else (x ++ p.1, p.2) := by
  have hx := List.length_pos_iff.mpr h.ne_nil
  have hsize : (Cursor.ofBytes (x ++ y)).size ≠ 0 := by
    change (x ++ y).length ≠ 0
    rw [List.length_append]
    omega
  have hmeasure : measure offset (Cursor.ofBytes (x ++ y)).size (Cursor.ofBytes (x ++ y)).bytes =
      .ok (n, x.length) := h offset y
  have htake : (Cursor.ofBytes (x ++ y)).bytes.take x.length = x := List.take_left
  rw [splitFrom, if_neg hsize, hmeasure]
  dsimp only
  rw [Cursor.ofBytes_skip, htake]
  cases splitFrom k fuel (offset + x.length) (.ofBytes y) with
  | error f => rfl
  | ok p => by_cases hn : n = k <;> simp [hn, Except.map]

/-- More fuel than there are bytes makes no difference. -/
theorem splitFrom_congr {fuel' : Nat} (hf : b.length ≤ fuel) (hf' : b.length ≤ fuel') :
    splitFrom k fuel offset (.ofBytes b) = splitFrom k fuel' offset (.ofBytes b) := by
  induction fuel generalizing b offset fuel' with
  | zero =>
    obtain rfl := List.length_eq_zero_iff.mp (by omega : b.length = 0)
    cases fuel' <;> rfl
  | succ fuel ih =>
    cases fuel' with
    | zero =>
      obtain rfl := List.length_eq_zero_iff.mp (by omega : b.length = 0)
      rfl
    | succ fuel' =>
      cases hm : measure offset b.length b with
      | error f => simp only [splitFrom, Cursor.ofBytes, hm]
      | ok found =>
        obtain ⟨x, y, rfl, -, hx⟩ := measure_local hm
        have hpos := List.length_pos_iff.mpr hx.ne_nil
        rw [List.length_append] at hf hf'
        have hy : splitFrom k fuel (offset + x.length) (.ofBytes y) =
            splitFrom k fuel' (offset + x.length) (.ofBytes y) := ih (by omega) (by omega)
        rw [splitFrom_piece hx, splitFrom_piece hx, hy]

theorem splitFrom_of_pieces (h : Pieces b ps) (hf : b.length ≤ fuel) :
    splitFrom k fuel offset (.ofBytes b) =
      .ok (glued (ps.filter (·.1 ≠ k)), glued (ps.filter (·.1 = k))) := by
  induction h generalizing fuel offset with
  | nil => cases fuel <;> rfl
  | @cons x b n ps hp _ ih =>
    have hx := List.length_pos_iff.mpr hp.ne_nil
    rw [List.length_append] at hf
    cases fuel with
    | zero => omega
    | succ fuel =>
      rw [splitFrom_piece hp, ih (by omega)]
      by_cases hn : n = k <;> simp [hn, glued, Except.map]

theorem exists_pieces_of_splitFrom (hf : b.length ≤ fuel)
    (h : splitFrom k fuel offset (.ofBytes b) = .ok (r, e)) : ∃ ps, Pieces b ps := by
  induction fuel generalizing b offset r e with
  | zero =>
    rw [List.length_eq_zero_iff.mp (by omega : b.length = 0)]
    exact ⟨[], .nil⟩
  | succ fuel ih =>
    rw [splitFrom] at h
    split at h
    · rename_i hsize
      rw [List.length_eq_zero_iff.mp hsize]
      exact ⟨[], .nil⟩
    · split at h
      · cases h
      · rename_i n length hmeasure
        obtain ⟨x, y, rfl, rfl, hp⟩ := measure_local hmeasure
        have hx := List.length_pos_iff.mpr hp.ne_nil
        rw [Cursor.ofBytes_skip] at h
        rw [List.length_append] at hf
        split at h
        · cases h
        · rename_i hrest
          obtain ⟨ps, hps⟩ := ih (by omega) hrest
          exact ⟨(n, x) :: ps, .cons hp hps⟩

/-- A split tells the pieces of one number from all others. -/
theorem split_eq_ok_iff : split k b = .ok (r, e) ↔ ∃ ps, Pieces b ps ∧
    r = glued (ps.filter (·.1 ≠ k)) ∧ e = glued (ps.filter (·.1 = k)) := by
  constructor
  · intro h
    obtain ⟨ps, hps⟩ := exists_pieces_of_splitFrom le_rfl h
    obtain ⟨hr, he⟩ := Prod.mk.inj (Except.ok.inj (h.symm.trans (splitFrom_of_pieces hps le_rfl)))
    exact ⟨ps, hps, hr, he⟩
  · rintro ⟨ps, hps, rfl, rfl⟩
    exact splitFrom_of_pieces hps le_rfl

/-- What a split leaves is no longer than what was split. -/
theorem length_le_of_split (h : split k b = .ok (r, e)) :
    r.length ≤ b.length := by
  obtain ⟨ps, hps, rfl, -⟩ := split_eq_ok_iff.mp h
  clear h
  induction hps with
  | nil => exact le_rfl
  | @cons x b n ps _ _ ih =>
    by_cases hn : n = k
    · simpa [hn, glued] using ih.trans (Nat.le_add_left _ _)
    · simpa [hn, glued] using ih

/-- No piece of the bytes has the number. -/
def Clear (k : Nat) (b : Bytes) : Prop := ∃ ps, Pieces b ps ∧ ∀ p ∈ ps, p.1 ≠ k

/-- What a split leaves has no piece of the number. -/
theorem clear_of_split (h : split k b = .ok (r, e)) : Clear k r := by
  obtain ⟨ps, hps, rfl, -⟩ := split_eq_ok_iff.mp h
  refine ⟨_, pieces_glued fun p hp => hps.of_mem p ((List.mem_filter.mp hp).1), fun p hp => ?_⟩
  simpa using (List.mem_filter.mp hp).2

theorem split_of_clear (h : Clear k b) : split k b = .ok (b, []) := by
  obtain ⟨ps, hps, hne⟩ := h
  refine split_eq_ok_iff.mpr ⟨ps, hps, ?_, ?_⟩
  · rw [List.filter_eq_self.mpr fun p hp => by simpa using hne p hp, hps.glued_eq]
  · rw [List.filter_eq_nil_iff.mpr fun p hp => by simpa using hne p hp]
    rfl

theorem glued_append (ps qs : List (Nat × Bytes)) : glued (ps ++ qs) = glued ps ++ glued qs := by
  rw [glued, List.map_append, List.flatten_append, glued, glued]

theorem split_concat {r' e' : Bytes} (h : split k b = .ok (r, e)) (h' : split k b' = .ok (r', e')) :
    split k (b ++ b') = .ok (r ++ r', e ++ e') := by
  obtain ⟨ps, hps, rfl, rfl⟩ := split_eq_ok_iff.mp h
  obtain ⟨qs, hqs, rfl, rfl⟩ := split_eq_ok_iff.mp h'
  refine split_eq_ok_iff.mpr ⟨ps ++ qs, hps.append hqs, ?_, ?_⟩ <;>
    rw [List.filter_append, glued_append]

/-- A split parts bytes with no piece of the number from a piece of the number behind them. -/
theorem split_append (hb : Clear k b) (hx : Piece k x) : split k (b ++ x) = .ok (b, x) := by
  have hpiece : split k x = .ok ([], x) :=
    split_eq_ok_iff.mpr ⟨[(k, x)], by simpa using Pieces.cons hx .nil,
      by simp [glued], by simp [glued]⟩
  have hboth := split_concat (split_of_clear hb) hpiece
  rwa [List.append_nil, List.nil_append] at hboth

section Readers

theorem exists_tag_of_key (h : Takes Cursor.key x (n, w)) : ∃ tag, Takes Cursor.readVarint x tag ∧
    WireType.ofCode? (tag % 8) = some w ∧ tag / 8 = n ∧ n ≠ 0 ∧ tag < 2 ^ 32 := by
  have hkey := h []
  rw [Cursor.key_eq] at hkey
  obtain ⟨⟨tag, c⟩, htag, htold⟩ := bind_eq_ok_iff.mp hkey
  unfold Cursor.toldBy Cursor.keyOf at htold
  split at htold
  · rename_i k hk
    obtain ⟨rfl, rfl⟩ := Prod.mk.inj (Except.ok.inj htold)
    split at hk
    · cases hk
    · rename_i hlt
      split at hk
      · cases hk
      · rename_i w' hw
        split at hk
        · cases hk
        · rename_i hzero
          obtain ⟨rfl, rfl⟩ := Prod.mk.inj (Except.ok.inj hk)
          exact ⟨tag, Cursor.readVarint_local.takes htag, hw, rfl, hzero, by omega⟩
  · cases htold

/-- A record is measured as its key and what is measured behind that. -/
theorem measure_of_key (hx : Takes Cursor.key x (n, w)) (y : Bytes)
    (h : valueLength offset (x ++ y).length x.length w (x ++ y) = .ok length) :
    measure offset (x ++ y).length (x ++ y) = .ok (n, x.length + length) := by
  have hne : x ++ y ≠ [] := fun he => Cursor.key_ne_nil hx (List.append_eq_nil_iff.mp he).1
  obtain ⟨tag, htag, hw, rfl, hzero, hlt⟩ := exists_tag_of_key hx
  have hnumber : tag / 8 % 0x100000000 = tag / 8 := Nat.mod_eq_of_lt (by omega)
  rw [measure, if_neg hne, varint_of_takes htag]
  dsimp only
  rw [hw]
  dsimp only
  rw [hnumber, if_neg (by rw [maxFieldNumber]; omega), h]

/-- The markers of a group are pieces of their own. -/
theorem piece_of_marker (hx : Takes Cursor.key x (n, w)) (hw : w = .startGroup ∨ w = .endGroup) :
    Piece n x := by
  intro offset y
  have hvalue : valueLength offset (x ++ y).length x.length w (x ++ y) = .ok 0 := by
    rcases hw with rfl | rfl <;> rfl
  exact measure_of_key hx y hvalue

/-- A record outside of groups is a piece. -/
theorem piece_of_flat {p : Payload} (hx : Takes Cursor.key x (n, w))
    (hy : Takes (Payload.readFlat w) y p) (hlen : (x ++ y).length < 2 ^ 64) : Piece n (x ++ y) := by
  intro offset z
  have hdrop : (x ++ (y ++ z)).drop x.length = y ++ z := List.drop_left
  have hr := hy []
  have hfixed : ∀ {width : Nat} {v : Bytes}, (Cursor.ofBytes (y ++ [])).take width =
      .ok (v, .ofBytes []) → y.length = width := by
    intro width v hv
    obtain ⟨hl, u, hu, hnil⟩ := Cursor.take_inv hv
    obtain rfl := ofBytes_inj hnil
    rw [List.append_cancel_right hu, hl]
  have hfits : ¬ (x ++ (y ++ z)).length < x.length + y.length := by
    simp only [List.length_append]
    omega
  rw [List.append_assoc, show (x ++ y).length = x.length + y.length from List.length_append]
  refine measure_of_key hx (y ++ z) ?_
  unfold valueLength
  rw [hdrop]
  cases w with
  | varint =>
    obtain ⟨⟨v, c⟩, hv, he⟩ := bind_eq_ok_iff.mp hr
    obtain ⟨-, rfl⟩ := Prod.mk.inj (Except.ok.inj he)
    dsimp only
    rw [varint_of_takes (Cursor.readVarint_local.takes hv)]
  | fixed64 =>
    obtain ⟨⟨v, c⟩, hv, he⟩ := bind_eq_ok_iff.mp hr
    obtain ⟨-, rfl⟩ := Prod.mk.inj (Except.ok.inj he)
    rw [hfixed hv] at hfits ⊢
    exact if_neg hfits
  | fixed32 =>
    obtain ⟨⟨v, c⟩, hv, he⟩ := bind_eq_ok_iff.mp hr
    obtain ⟨-, rfl⟩ := Prod.mk.inj (Except.ok.inj he)
    rw [hfixed hv] at hfits ⊢
    exact if_neg hfits
  | delimited =>
    obtain ⟨⟨v, c⟩, hv, he⟩ := bind_eq_ok_iff.mp hr
    obtain ⟨-, rfl⟩ := Prod.mk.inj (Except.ok.inj he)
    obtain ⟨⟨size, c⟩, hsize, hv⟩ := bind_eq_ok_iff.mp hv
    obtain ⟨l, r, hl, rfl, htakes⟩ := Cursor.readVarint_local _ _ _ hsize
    obtain ⟨rfl, u, rfl, hnil⟩ := Cursor.take_inv hv
    obtain rfl := ofBytes_inj hnil
    rw [List.append_nil, List.append_nil] at hl
    subst hl
    simp only [List.length_append] at hlen hfits ⊢
    rw [List.append_assoc, varint_of_takes htakes]
    dsimp only
    rw [if_neg (by omega), if_neg (by omega), Nat.add_comm]
  | startGroup => cases hr
  | endGroup => cases hr

end Readers

end DescriptorKit.Wire.Records
