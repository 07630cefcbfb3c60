import DescriptorKit.Path

/-!
Paths in normal form. What is left of a path are components that are neither empty nor dots, so the
normal form of a path is a normal form.
-/
namespace DescriptorKit

namespace Text

variable {mark : Char} {s p : List Char} {ps : List (List Char)}

theorem pieces_of_not_mem (h : mark ∉ s) : pieces mark s = [s] := by
  induction s with
  | nil => rfl
  | cons c s ih =>
    simp only [List.mem_cons, not_or] at h
    rw [pieces, if_neg (Ne.symm h.1), ih h.2]

theorem pieces_append (mark : Char) (s t : List Char) :
    pieces mark (s ++ mark :: t) = pieces mark s ++ pieces mark t := by
  induction s with
  | nil => simp [pieces]
  | cons c s ih =>
    by_cases hc : c = mark
    · simp [pieces, hc, ih]
    · rw [List.cons_append, pieces, pieces, if_neg hc, if_neg hc, ih]
      obtain ⟨p, ps, hps⟩ := List.exists_cons_of_ne_nil (pieces_ne_nil mark s)
      simp [hps]

/-- Pieces without the mark in them are found again. -/
theorem pieces_glue (hn : ps ≠ []) (h : ∀ p ∈ ps, mark ∉ p) : pieces mark (glue mark ps) = ps := by
  induction ps with
  | nil => exact absurd rfl hn
  | cons p ps ih =>
    obtain ⟨hp, hps⟩ := List.forall_mem_cons.mp h
    cases ps with
    | nil => exact pieces_of_not_mem hp
    | cons q ps =>
      rw [glue_cons (by simp), pieces_append, pieces_of_not_mem hp, ih (by simp) hps]
      rfl

theorem glue_append {qs : List (List Char)} (hp : ps ≠ []) (hq : qs ≠ []) :
    glue mark (ps ++ qs) = glue mark ps ++ mark :: glue mark qs := by
  induction ps with
  | nil => exact absurd rfl hp
  | cons p ps ih =>
    cases ps with
    | nil => exact glue_cons hq
    | cons p' ps =>
      rw [List.cons_append, glue_cons (by simp), glue_cons (by simp), ih (by simp)]
      simp

theorem not_mem_of_mem_pieces (s : List Char) : ∀ p ∈ pieces mark s, mark ∉ p := by
  induction s with
  | nil => simp [pieces]
  | cons c s ih =>
    by_cases hc : c = mark
    · simpa [pieces, hc] using ih
    · rw [pieces, if_neg hc]
      cases hps : pieces mark s with
      | nil => simpa using Ne.symm hc
      | cons q qs =>
        rw [hps] at ih
        obtain ⟨hq, hqs⟩ := List.forall_mem_cons.mp ih
        refine List.forall_mem_cons.mpr ⟨?_, hqs⟩
        simpa using ⟨Ne.symm hc, hq⟩

theorem mem_of_mem_pieces (s : List Char) : ∀ p ∈ pieces mark s, ∀ c ∈ p, c ∈ s := by
  induction s with
  | nil => simp [pieces]
  | cons d s ih =>
    by_cases hd : d = mark
    · intro p hp c hc
      rw [pieces, if_pos hd] at hp
      rcases List.mem_cons.mp hp with rfl | hp
      · cases hc
      · exact List.mem_cons_of_mem _ (ih p hp c hc)
    · rw [pieces, if_neg hd]
      cases hps : pieces mark s with
      | nil => simp
      | cons q qs =>
        rw [hps] at ih
        intro p hp c hc
        rcases List.mem_cons.mp hp with rfl | hp
        · rcases List.mem_cons.mp hc with rfl | hc
          · exact List.mem_cons_self
          · exact List.mem_cons_of_mem _ (ih q List.mem_cons_self c hc)
        · exact List.mem_cons_of_mem _ (ih p (List.mem_cons_of_mem _ hp) c hc)

theorem mem_glue {c : Char} (h : c ∈ glue mark ps) : c = mark ∨ ∃ p ∈ ps, c ∈ p := by
  induction ps with
  | nil => cases h
  | cons p ps ih =>
    cases ps with
    | nil => exact .inr ⟨p, List.mem_cons_self, h⟩
    | cons q ps =>
      rw [glue_cons (by simp), List.mem_append, List.mem_cons] at h
      rcases h with h | rfl | h
      · exact .inr ⟨p, List.mem_cons_self, h⟩
      · exact .inl rfl
      · exact (ih h).imp_right fun ⟨q, hq, hc⟩ => ⟨q, List.mem_cons_of_mem _ hq, hc⟩

end Text

namespace Path

variable {path normal : String} {c : List Char} {cs stack result : List (List Char)}

/-- A component of a path in normal form. -/
structure Plain (c : List Char) : Prop where
  ne_nil : c ≠ []
  ne_dot : c ≠ ['.']
  ne_dots : c ≠ ['.', '.']
  slash : '/' ∉ c
  backslash : '\\' ∉ c

theorem step_plain (h : Plain c) (stack : List (List Char)) : step stack c = some (c :: stack) := by
  simp [step, h.ne_nil, h.ne_dot, h.ne_dots]

theorem resolve_plain (h : ∀ c ∈ cs, Plain c) (stack : List (List Char)) :
    resolve stack cs = some (cs.reverse ++ stack) := by
  induction cs generalizing stack with
  | nil => rfl
  | cons c cs ih =>
    obtain ⟨hc, hcs⟩ := List.forall_mem_cons.mp h
    rw [resolve, step_plain hc]
    simp [ih hcs]

/-- One more component leaves plain components only. -/
theorem plain_of_step (hs : ∀ d ∈ stack, Plain d) (hslash : '/' ∉ c) (hback : '\\' ∉ c)
    (h : step stack c = some result) : ∀ d ∈ result, Plain d := by
  unfold step at h
  split at h
  · obtain rfl := Option.some.inj h
    exact hs
  · rename_i hdot
    split at h
    · cases stack with
      | nil => cases h
      | cons d stack =>
        obtain rfl := Option.some.inj h
        exact (List.forall_mem_cons.mp hs).2
    · rename_i hdots
      obtain rfl := Option.some.inj h
      rw [not_or] at hdot
      exact List.forall_mem_cons.mpr ⟨⟨hdot.1, hdot.2, hdots, hslash, hback⟩, hs⟩

theorem plain_of_resolve (hs : ∀ d ∈ stack, Plain d) (hcs : ∀ c ∈ cs, '/' ∉ c ∧ '\\' ∉ c)
    (h : resolve stack cs = some result) : ∀ d ∈ result, Plain d := by
  induction cs generalizing stack with
  | nil =>
    obtain rfl := Option.some.inj h
    exact hs
  | cons c cs ih =>
    obtain ⟨hc, hcs⟩ := List.forall_mem_cons.mp hcs
    obtain ⟨next, hstep, h⟩ := Option.bind_eq_some_iff.mp h
    exact ih (plain_of_step hs hc.1 hc.2 hstep) hcs h

/-- A normal form is the root, or plain components. -/
theorem exists_components (h : normalize path = .ok normal) :
    ∃ cs, normal = String.ofList (ofComponents cs) ∧ ∀ c ∈ cs, Plain c := by
  rw [normalize] at h
  split at h
  · cases h
  split at h
  · cases h
  rename_i hback
  split at h
  · cases h
  split at h
  · cases h
  · rename_i stack hstack
    obtain rfl := Except.ok.inj h
    refine ⟨_, rfl, fun c hc => ?_⟩
    refine plain_of_resolve (by simp) (fun c hc => ?_) hstack c (List.mem_reverse.mp hc)
    exact ⟨Text.not_mem_of_mem_pieces _ c hc, fun hb => hback (Text.mem_of_mem_pieces _ c hc _ hb)⟩

theorem normalize_ofComponents (h : ∀ c ∈ cs, Plain c) :
    normalize (String.ofList (ofComponents cs)) = .ok (String.ofList (ofComponents cs)) := by
  cases cs with
  | nil => rfl
  | cons c cs =>
    have hglue : ofComponents (c :: cs) = Text.glue '/' (c :: cs) := rfl
    have hpieces : Text.pieces '/' (Text.glue '/' (c :: cs)) = c :: cs :=
      Text.pieces_glue (by simp) fun d hd => (h d hd).slash
    obtain ⟨hc, -⟩ := List.forall_mem_cons.mp h
    obtain ⟨a, as, rfl⟩ := List.exists_cons_of_ne_nil hc.ne_nil
    have ha : a ≠ '/' := by
      rintro rfl
      exact hc.slash List.mem_cons_self
    have hhead : ∃ rest, Text.glue '/' ((a :: as) :: cs) = a :: rest := by
      cases cs with
      | nil => exact ⟨as, rfl⟩
      | cons d cs => exact ⟨_, rfl⟩
    obtain ⟨rest, hrest⟩ := hhead
    have hback : '\\' ∉ Text.glue '/' ((a :: as) :: cs) := by
      intro hb
      rcases Text.mem_glue hb with hb | ⟨d, hd, hb⟩
      · cases hb
      · exact (h d hd).backslash hb
    rw [normalize, hglue, String.toList_ofList, if_neg (by simp [hrest]), if_neg hback,
      if_neg (by simpa [hrest] using ha), hpieces, resolve_plain h]
    simp [hglue]

/-- The normal form of a path is in normal form. -/
theorem normalize_normal (h : normalize path = .ok normal) : normalize normal = .ok normal := by
  obtain ⟨cs, rfl, hcs⟩ := exists_components h
  exact normalize_ofComponents hcs

end Path
end DescriptorKit
