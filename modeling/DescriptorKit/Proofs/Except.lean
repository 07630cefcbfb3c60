import Mathlib.Data.List.Forall2

/-!
Taking results apart: what comes before a result, and how a list of results comes about.
-/
namespace DescriptorKit

variable {ε ε' α β : Type} {x : Except ε α} {f : α → Except ε β} {a : α} {b : β}

theorem bind_eq_ok_iff : x >>= f = .ok b ↔ ∃ a, x = .ok a ∧ f a = .ok b := by
  cases x with
  | error e => simp [bind, Except.bind]
  | ok a => simp [bind, Except.bind]

theorem mapError_eq_ok_iff {g : ε → ε'} : x.mapError g = .ok a ↔ x = .ok a := by
  cases x <;> simp [Except.mapError]

/-- Steps that keep what they did when they fail, one after the other. -/
theorem run_bind_eq {σ : Type} (x : ExceptT ε (StateM σ) α) (k : α → ExceptT ε (StateM σ) β)
    (s : σ) :
    (x >>= k).run.run s =
      match x.run.run s with
      | (.ok a, s₁) => (k a).run.run s₁
      | (.error e, s₁) => (.error e, s₁) := by
  rw [ExceptT.run_bind, StateT.run_bind]
  rcases x.run.run s with ⟨_ | a, s₁⟩ <;> rfl

/-- Such steps come to their end where each does. -/
theorem run_bind_eq_ok_iff {σ : Type} {x : ExceptT ε (StateM σ) α} {k : α → ExceptT ε (StateM σ) β}
    {s s' : σ} : (x >>= k).run.run s = (.ok b, s') ↔
      ∃ a s₁, x.run.run s = (.ok a, s₁) ∧ (k a).run.run s₁ = (.ok b, s') := by
  rw [run_bind_eq]
  constructor
  · intro h
    split at h
    · rename_i a s₁ hx
      exact ⟨a, s₁, hx, h⟩
    · cases h
  · rintro ⟨a, s₁, hx, h⟩
    rw [hx]
    exact h

theorem run_get_bind {σ : Type} (k : σ → ExceptT ε (StateM σ) α) (s : σ) :
    (get >>= k).run.run s = (k s).run.run s := rfl

theorem ok_of_toOption (h : x.toOption = some a) : x = .ok a := by
  cases x with
  | error e => cases h
  | ok b => exact congrArg _ (Option.some.inj h)

/-- What is found of the result of a step that succeeds. -/
theorem exists_of_toOption_map {g : α → β} (h : x.toOption.map g = some b) :
    ∃ a, x = .ok a ∧ g a = b := by
  obtain ⟨a, ha, hg⟩ := Option.map_eq_some_iff.mp h
  exact ⟨a, ok_of_toOption ha, hg⟩

theorem exists_of_toOption_bind {g : α → Option β} (h : x.toOption.bind g = some b) :
    ∃ a, x = .ok a ∧ g a = some b := by
  obtain ⟨a, ha, hg⟩ := Option.bind_eq_some_iff.mp h
  exact ⟨a, ok_of_toOption ha, hg⟩

theorem mapM_eq_ok_iff {l : List α} {ys : List β} :
    l.mapM f = .ok ys ↔ List.Forall₂ (fun x y => f x = .ok y) l ys := by
  induction l generalizing ys with
  | nil => simp [pure, Except.pure, eq_comm]
  | cons x l ih =>
    rw [List.mapM_cons, bind_eq_ok_iff, List.forall₂_cons_left_iff]
    constructor
    · rintro ⟨y, hy, h⟩
      obtain ⟨ys', hys, h⟩ := bind_eq_ok_iff.mp h
      exact ⟨y, ys', hy, ih.mp hys, (Except.ok.inj h).symm⟩
    · rintro ⟨y, ys', hy, hys, rfl⟩
      exact ⟨y, hy, bind_eq_ok_iff.mpr ⟨ys', ih.mpr hys, rfl⟩⟩

theorem exists_of_forall₂ {R : α → β → Prop} {l : List α} {ys : List β} (h : List.Forall₂ R l ys)
    {y : β} (hy : y ∈ ys) : ∃ x ∈ l, R x y := by
  obtain ⟨i, hi, rfl⟩ := List.getElem_of_mem hy
  have hlen := h.length_eq
  exact ⟨_, List.getElem_mem (by omega), h.get (by omega) hi⟩

theorem mem_of_mapM {l : List α} {ys : List β} (h : l.mapM f = .ok ys) {y : β} (hy : y ∈ ys) :
    ∃ x ∈ l, f x = .ok y :=
  exists_of_forall₂ (mapM_eq_ok_iff.mp h) hy

theorem exists_forall₂ {R : α → β → Prop} {l : List α} (h : ∀ x ∈ l, ∃ y, R x y) :
    ∃ ys, List.Forall₂ R l ys := by
  induction l with
  | nil => exact ⟨[], .nil⟩
  | cons x l ih =>
    obtain ⟨hx, hl⟩ := List.forall_mem_cons.mp h
    obtain ⟨y, hy⟩ := hx
    obtain ⟨ys, hys⟩ := ih hl
    exact ⟨y :: ys, .cons hy hys⟩

theorem map_eq_of_forall₂ {γ : Type} {f : α → γ} {g : β → γ} {l : List α} {ys : List β}
    (h : List.Forall₂ (fun x y => f x = g y) l ys) : l.map f = ys.map g := by
  rw [← List.forall₂_eq_eq_eq, List.forall₂_map_left_iff, List.forall₂_map_right_iff]
  exact h

end DescriptorKit
