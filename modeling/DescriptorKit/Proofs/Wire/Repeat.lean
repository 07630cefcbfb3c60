import DescriptorKit.Proofs.Wire.Reader

/-!
Repeated steps: those that fill a stated length, and those up to the end of a group. How many steps
are allowed does not matter, since each takes a byte at least.
-/
namespace DescriptorKit.Wire.Cursor

variable {α : Type} {x y b : Bytes} {number stop fuel : Nat} {a a' : α} {c : Cursor}

section Sequence

variable {step : α → Cursor → Except Failure (α × Cursor)}

theorem repeatUntil_inv (hl : ∀ a, Local (step a))
    (h : repeatUntil stop step fuel a (ofBytes b) = .ok (a', c)) :
    ∃ x y, b = x ++ y ∧ c = ofBytes y ∧ y.length = stop ∧ Runs step a x a' := by
  induction fuel generalizing a b with
  | zero =>
    rw [repeatUntil] at h
    split at h
    · rename_i hs
      obtain ⟨rfl, rfl⟩ := Prod.mk.inj (Except.ok.inj h)
      exact ⟨[], b, rfl, rfl, hs, .nil a⟩
    · cases h
  | succ fuel ih =>
    rw [repeatUntil] at h
    split at h
    · cases hr : step a (ofBytes b) with
      | error f =>
        rw [hr] at h
        cases h
      | ok r =>
        obtain ⟨x, y, rfl, hy, hx⟩ := hl a b r.1 r.2 hr
        rw [hr] at h
        dsimp only at h
        rw [hy] at h
        obtain ⟨x', z, rfl, hz, hlen, hs⟩ := ih h
        exact ⟨x ++ x', z, by rw [List.append_assoc], hz, hlen, .cons hx hs⟩
    · split at h
      · rename_i hs
        obtain ⟨rfl, rfl⟩ := Prod.mk.inj (Except.ok.inj h)
        exact ⟨[], b, rfl, rfl, hs, .nil a⟩
      · cases h

theorem repeatUntil_runs (hp : Advances step) (h : Runs step a x a') (hf : x.length ≤ fuel) :
    repeatUntil y.length step fuel a (ofBytes (x ++ y)) = .ok (a', ofBytes y) := by
  induction h generalizing fuel with
  | nil a =>
    cases fuel <;> simp [repeatUntil, ofBytes]
  | @cons a b c x z h hs ih =>
    have hx := List.length_pos_iff.mpr (hp _ _ _ h)
    rw [List.length_append] at hf
    cases fuel with
    | zero => omega
    | succ fuel =>
      have hlt : y.length < (ofBytes (x ++ z ++ y)).size := by
        simp only [ofBytes, List.length_append]
        omega
      rw [repeatUntil, if_pos hlt, List.append_assoc, h]
      exact ih (by omega)

theorem repeatDelimited_inv (hl : ∀ a, Local (step a))
    (h : repeatDelimited step a (ofBytes b) = .ok (a', c)) :
    ∃ p x y, b = p ++ x ++ y ∧ c = ofBytes y ∧ Takes readVarint p x.length ∧
      Runs step a x a' := by
  rw [repeatDelimited] at h
  cases hr : readVarint (ofBytes b) with
  | error f =>
    rw [hr] at h
    cases h
  | ok r =>
    obtain ⟨p, z, rfl, hz, hp⟩ := readVarint_local b r.1 r.2 hr
    rw [hr] at h
    dsimp only at h
    split at h
    · rename_i hn
      rw [hz] at h hn
      obtain ⟨x, y, rfl, hy, hlen, hs⟩ := repeatUntil_inv hl h
      simp only [ofBytes, List.length_append] at hlen hn
      refine ⟨p, x, y, by rw [List.append_assoc], hy, ?_, hs⟩
      rwa [show x.length = r.1 by omega]
    · cases h

theorem repeatDelimited_takes (hp : Advances step) {p : Bytes}
    (hv : Takes readVarint p x.length) (h : Runs step a x a') :
    Takes (repeatDelimited step a) (p ++ x) a' := by
  intro y
  rw [List.append_assoc, repeatDelimited, hv]
  dsimp only
  rw [if_pos (by simp [ofBytes])]
  have hstop : (ofBytes (x ++ y)).size - x.length = y.length := by
    simp [ofBytes]
  rw [hstop]
  exact repeatUntil_runs hp h (le_refl _)

theorem repeatDelimited_encode_inv (hl : ∀ a, Local (step a))
    (h : repeatDelimited step a (ofBytes (encodeDelimited x ++ y)) = .ok (a', c)) :
    x.length < 2 ^ 64 ∧ c = ofBytes y ∧ Runs step a x a' := by
  obtain ⟨p, x', y', he, hy, hv, hs⟩ := repeatDelimited_inv hl h
  have hr := hv (x' ++ y')
  rw [← List.append_assoc, ← he, encodeDelimited, List.append_assoc] at hr
  obtain ⟨hlt, hlen, hc⟩ := readVarint_encode_inv hr
  obtain ⟨rfl, rfl⟩ := List.append_inj (ofBytes_inj hc) hlen
  exact ⟨hlt, hy, hs⟩

end Sequence

section Group

variable {step : α → Nat → WireType → Cursor → Except Failure (α × Cursor)}

/-- Reads made between the markers of a group, up to and with its end. -/
inductive Group (number : Nat) (step : α → Nat → WireType → Cursor → Except Failure (α × Cursor)) :
    α → Bytes → α → Prop where
  | stop {a : α} {x : Bytes} (h : Takes key x (number, .endGroup)) : Group number step a x a
  | cons {a b c : α} {x y z : Bytes} {inner : Nat} {w : WireType} (hk : Takes key x (inner, w))
      (hw : w ≠ .endGroup) (h : Takes (step a inner w) y b) (hs : Group number step b z c) :
      Group number step a (x ++ (y ++ z)) c

theorem repeatGroup_stop {k : Nat × WireType} {c' : Cursor} (hk : key c = .ok (k, c'))
    (hw : k.2 = .endGroup) : repeatGroup number step (fuel + 1) a c =
      if k.1 = number then .ok (a, c') else .error ⟨.endGroup, []⟩ := by
  obtain ⟨inner, w⟩ := k
  dsimp only at hw
  subst hw
  rw [repeatGroup, readKey_of_key hk]

theorem repeatGroup_step {k : Nat × WireType} {c' : Cursor} (hk : key c = .ok (k, c'))
    (hw : k.2 ≠ .endGroup) : repeatGroup number step (fuel + 1) a c =
      match step a k.1 k.2 c' with
      | .ok (a, c) => repeatGroup number step fuel a c
      | .error f => .error f := by
  obtain ⟨inner, w⟩ := k
  rw [repeatGroup, readKey_of_key hk]
  cases w <;> first | rfl | exact absurd rfl hw

theorem repeatGroup_inv (hl : ∀ a n w, Local (step a n w))
    (h : repeatGroup number step fuel a (ofBytes b) = .ok (a', c)) :
    ∃ x y, b = x ++ y ∧ c = ofBytes y ∧ Group number step a x a' := by
  induction fuel generalizing a b with
  | zero => cases h
  | succ fuel ih =>
    cases hk : key (ofBytes b) with
    | error f =>
      rw [repeatGroup, readKey_of_error hk] at h
      cases h
    | ok r =>
      obtain ⟨k, c'⟩ := r
      obtain ⟨x, y, rfl, rfl, hx⟩ := key_local b k c' hk
      by_cases hw : k.2 = .endGroup
      · rw [repeatGroup_stop hk hw] at h
        split at h
        · rename_i hn
          obtain ⟨rfl, rfl⟩ := Prod.mk.inj (Except.ok.inj h)
          refine ⟨x, y, rfl, rfl, .stop ?_⟩
          rwa [← hn, ← hw]
        · cases h
      · rw [repeatGroup_step hk hw] at h
        cases hr : step a k.1 k.2 (ofBytes y) with
        | error f =>
          rw [hr] at h
          cases h
        | ok r =>
          obtain ⟨y₁, z, rfl, hz, hy⟩ := hl a k.1 k.2 y r.1 r.2 hr
          rw [hr] at h
          dsimp only at h
          rw [hz] at h
          obtain ⟨x', z', rfl, hz', hs⟩ := ih h
          exact ⟨x ++ (y₁ ++ x'), z', by simp only [List.append_assoc], hz', .cons hx hw hy hs⟩

theorem repeatGroup_group (h : Group number step a x a') (hf : x.length ≤ fuel) :
    repeatGroup number step fuel a (ofBytes (x ++ y)) = .ok (a', ofBytes y) := by
  induction h generalizing fuel with
  | stop hk =>
    have := List.length_pos_iff.mpr (key_ne_nil hk)
    cases fuel with
    | zero => omega
    | succ fuel => rw [repeatGroup_stop (hk y) rfl, if_pos rfl]
  | @cons a b c x y₁ z inner w hk hw h hs ih =>
    have := List.length_pos_iff.mpr (key_ne_nil hk)
    simp only [List.length_append] at hf
    cases fuel with
    | zero => omega
    | succ fuel =>
      rw [List.append_assoc, List.append_assoc, repeatGroup_step (hk _) hw, h]
      exact ih (by omega)

theorem repeatGroup_takes (h : Group number step a x a') :
    Takes (fun c => repeatGroup number step (c.size + 1) a c) x a' := by
  intro y
  refine repeatGroup_group h ?_
  simp only [ofBytes, List.length_append]
  omega

theorem repeatGroup_local (hl : ∀ a n w, Local (step a n w)) (a : α) :
    Local fun c => repeatGroup number step (c.size + 1) a c := by
  intro b a' c h
  obtain ⟨x, y, rfl, hy, hs⟩ := repeatGroup_inv hl h
  exact ⟨x, y, rfl, hy, repeatGroup_takes hs⟩

end Group

end DescriptorKit.Wire.Cursor
