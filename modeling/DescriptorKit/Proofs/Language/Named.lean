import DescriptorKit.Language.Parser.File
import DescriptorKit.Proofs.Except

/-!
What a reader gives, whatever it reads: the file that is read from a source has the name that it was
read under.
-/
namespace DescriptorKit.Language

namespace Parser

variable {α β : Type} {p : Parser α} {k : α → Parser β} {P : α → Prop} {Q : β → Prop}

/-- What the steps give, if they come to their end, has the property. -/
def Yields (p : Parser α) (P : α → Prop) : Prop := ∀ r a r', p.run.run r = (.ok a, r') → P a

theorem Yields.pure {a : α} (h : P a) : Yields (Pure.pure a) P := by
  intro r b r' hr
  cases hr
  exact h

theorem Yields.bind (hp : Yields p P) (hk : ∀ a, P a → Yields (k a) Q) : Yields (p >>= k) Q := by
  intro r b r' hr
  obtain ⟨a, r₁, hfirst, hr⟩ := run_bind_eq_ok_iff.mp hr
  exact hk a (hp r a r₁ hfirst) r₁ b r' hr

/-- Of the first steps nothing need be known. -/
theorem Yields.after (hk : ∀ a, Yields (k a) Q) : Yields (p >>= k) Q :=
  .bind (P := fun _ => True) (fun _ _ _ _ => trivial) fun a _ => hk a

theorem Yields.mono {P' : α → Prop} (hp : Yields p P) (h : ∀ a, P a → P' a) : Yields p P' :=
  fun r a r' hr => h a (hp r a r' hr)

theorem yields_throw {e : Unit} : Yields (throw e : Parser α) P := by
  intro r a r' hr
  cases hr

theorem yields_fail (f : Fault) : Yields (fail f : Parser α) P := .after fun _ => yields_throw

theorem yields_unexpected (expected : String) : Yields (unexpected expected : Parser α) P := by
  refine .after fun r => ?_
  split
  · exact yields_fail _
  · split
    · exact yields_throw
    · exact yields_fail _

theorem yields_iterate {step : α → Parser (Option α)}
    (hstep : ∀ a, P a → Yields (step a) fun o => ∀ b, o = some b → P b) (fuel : Nat) (a : α)
    (ha : P a) : Yields (iterate step fuel a) P := by
  induction fuel generalizing a with
  | zero => exact .pure ha
  | succ fuel ih =>
    refine .bind (hstep a ha) fun o ho => ?_
    cases o with
    | none => exact .pure ha
    | some b => exact ih b (ho b rfl)

theorem yields_repeatedly {step : α → Parser (Option α)}
    (hstep : ∀ a, P a → Yields (step a) fun o => ∀ b, o = some b → P b) {a : α} (ha : P a) :
    Yields (repeatedly step a) P := .after fun _ => yields_iterate hstep _ a ha

variable {name : String}

theorem package_named (b : FileBody) : Yields (package b) fun b' => b'.decl.name = b.decl.name := by
  refine .after fun _ => .after fun _ => .after fun _ => .after fun _ => .after fun _ => ?_
  split
  · exact .after fun _ => .pure rfl
  · exact .after fun _ => .pure rfl

/-- The steps behind the kind of an import. -/
theorem imported {b : FileBody} {d : FileDecl} (hd : d.name = b.decl.name) {start index : Nat} :
    Yields (do
      let (bytes, span) ← text "a string literal"
      let path := Text.lossy bytes
      if (Bytes.text? bytes).isNone then note (.encoding span)
      else if path = "." || (Path.normalize path).toOption ≠ some path then note (.form span)
      let comments ← endDeclaration ';'
      mark (MessageDecl.childPath [] 3 index) (← since start) comments
      return { b with decl := { d with dependencies := d.dependencies ++ [path] } })
    fun b' => b'.decl.name = b.decl.name := by
  refine .after fun (bytes, span) => ?_
  dsimp only
  split
  · exact .after fun _ => .after fun _ => .after fun _ => .after fun _ => .pure hd
  · split
    · exact .after fun _ => .after fun _ => .after fun _ => .after fun _ => .pure hd
    · exact .after fun _ => .after fun _ => .after fun _ => .pure hd

theorem importStatement_named (b : FileBody) :
    Yields (importStatement b) fun b' => b'.decl.name = b.decl.name := by
  refine .after fun _ => .after fun _ => .after fun _ => .after fun next => ?_
  dsimp only
  split
  · refine .after fun _ => .after fun _ => .after fun _ =>
      .bind (P := (·.name = b.decl.name)) (.pure rfl) fun d hd => ?_
    exact imported hd
  · refine .after fun _ => .after fun _ => .after fun _ =>
      .bind (P := (·.name = b.decl.name)) (.pure rfl) fun d hd => ?_
    exact imported hd
  · exact .bind (P := (·.name = b.decl.name)) (.pure rfl) fun d hd => imported hd
  · exact .bind (P := (·.name = b.decl.name)) (yields_unexpected _) fun d hd => imported hd

theorem fileStatement_named (body : BodyReader) (b : FileBody) :
    Yields (fileStatement body b) fun o => ∀ b', o = some b' → b'.decl.name = b.decl.name := by
  refine .after fun next => ?_
  split
  · exact .pure (by simp)
  · exact .after fun _ => .pure (by simp)
  · exact .bind (package_named b) fun b' hb => .pure (by simpa using hb)
  · exact .bind (importStatement_named b) fun b' hb => .pure (by simpa using hb)
  · exact .after fun _ => .pure (by simp)
  · exact .after fun _ => .pure (by simp)
  · exact .after fun _ => .pure (by simp)
  · exact .after fun _ => .pure (by simp)
  · exact .after fun _ => .pure (by simp)
  · exact yields_unexpected _

theorem file_named (name : String) : Yields (file name) fun d => d.name = name := by
  refine .after fun _ => .after fun _ => .after fun _ =>
    .bind (yields_repeatedly (P := (·.decl.name = name)) (fun b hb => ?_) rfl) fun b hb => ?_
  · exact (fileStatement_named _ b).mono fun o ho b' hb' => (ho b' hb').trans hb
  · exact .after fun _ => .after fun _ => .after fun _ => .pure hb

end Parser

namespace SourceUnit

/-- A source is read under its name. -/
theorem name_of_parse {name source : String} {u : SourceUnit} (h : parse name source = .ok u) :
    u.file.name = name := by
  rw [parse] at h
  cases hrun : (Parser.file name).run.run (Parser.start source) with
  | mk result r =>
    rw [hrun] at h
    dsimp only at h
    split at h
    · obtain rfl := Except.ok.inj h
      exact Parser.file_named name _ _ _ hrun
    · cases h
    · cases h

end SourceUnit
end DescriptorKit.Language
