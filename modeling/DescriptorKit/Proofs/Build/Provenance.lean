import DescriptorKit.Proofs.Build.Supply

/-!
Whether the origins that are recorded are those of the files that were served. A file that tells a
part of its origin which an earlier file of its path left out is not refused; where the files of a
path tell the same parts, a path has one origin, or the supply has failed.
-/
namespace DescriptorKit.Build

namespace Origins

/-- Where a record changes something, nothing was recorded. -/
theorem record_adds (o : Origins) (f : SourceFile) (part : OriginPart) (path : String) :
    (o.record f).2.noted part path = o.noted part path ∨
      path = f.path ∧ o.noted part path = none ∧ (o.record f).2.noted part path = f.told part := by
  obtain ⟨done, hnotes⟩ := (record_records o f).notes
  rw [hnotes.noted]
  split
  case isTrue hpath =>
    cases ho : o.noted part path with
    | none => exact .inr ⟨hpath.1, rfl, rfl⟩
    | some v => exact .inl rfl
  case isFalse => exact .inl rfl

end Origins

namespace Supply

variable {R : SourceReader} {s : Supply}

/-- What the origins that are recorded have to do with the files that were served. -/
structure Consistent (R : SourceReader) (s : Supply) : Prop where
  /-- Two files that were found at one path and differ in what both tell are a failure, an internal
  one unless a lookup ended with an error. -/
  conflict : ∀ p q f g part v w, Answered R s.lookups p (.ok (some f)) →
    Answered R s.lookups q (.ok (some g)) → f.path = g.path → f.told part = some v →
    g.told part = some w → part.key v ≠ part.key w →
    ∃ e, check s = .error e ∧
      ((∀ path e, ¬ Answered R s.lookups path (.error e)) → e.category = .internal)
  /-- Short of a failure, what each file tells that was found is recorded. -/
  recorded : check s = .ok () → ∀ p f part w, Answered R s.lookups p (.ok (some f)) →
    f.told part = some w → ∃ v, s.origins.noted part f.path = some v ∧ part.key v = part.key w
  /-- Where all files of a path tell the same, what is recorded is what each tells, a failure or
  not. -/
  unanimous : ∀ path, Unanimous R s.lookups path → ∀ p f, Served R s.lookups p f → f.path = path →
    ∀ part, (s.origins.noted part path).map part.key = (f.told part).map part.key
  /-- Nothing is recorded that no file told. -/
  told : ∀ part path v, s.origins.noted part path = some v →
    ∃ p f, Served R s.lookups p f ∧ f.path = path ∧ f.told part = some v
  /-- A file that is refused changes nothing that is recorded, and adds only to its own path, only
  in parts of which nothing is recorded. -/
  refused : ∀ f breach, (s.origins.record f).1 = .error breach → ∀ part path,
    (s.origins.record f).2.noted part path = s.origins.noted part path ∨
      path = f.path ∧ s.origins.noted part path = none ∧
        (s.origins.record f).2.noted part path = f.told part

theorem Traced.conflict (h : Traced R s) {p q : String} {f g : SourceFile} {part : OriginPart}
    {v w : part.Value} (hf : Answered R s.lookups p (.ok (some f)))
    (hg : Answered R s.lookups q (.ok (some g))) (hpath : f.path = g.path)
    (hv : f.told part = some v)
    (hw : g.told part = some w) (hne : part.key v ≠ part.key w) :
    ∃ e, check s = .error e ∧
      ((∀ path e, ¬ Answered R s.lookups path (.error e)) → e.category = .internal) := by
  cases hs : s.failure with
  | none =>
    obtain ⟨u, hu, hkey⟩ := h.noted hs p f part v hf hv
    obtain ⟨u', hu', hkey'⟩ := h.noted hs q g part w hg hw
    rw [← hpath, hu] at hu'
    cases hu'
    exact absurd (hkey.symm.trans hkey') hne
  | some e =>
    refine ⟨e, by rw [check, hs], fun hanswers => ?_⟩
    rcases h.failure e hs with ⟨path, ha⟩ | ⟨breach, rfl⟩
    · exact (hanswers path e ha).elim
    · rfl

/-- After any sequence of files asked for, of whatever is read from: the origins that are recorded
are those of the files that were served, or the supply has failed. -/
theorem Reached.consistent (h : Reached R s) : Consistent R s where
  conflict _ _ _ _ _ _ _ := h.traced.conflict
  recorded hok := h.traced.noted (check_eq_ok_iff.mp hok)
  unanimous _ hsame _ _ hf hpath := h.traced.unanimous_map hsame hf hpath
  told := h.traced.told
  refused f _ _ := Origins.record_adds s.origins f

section Shifting

/-- Answers the first lookup with one file and each later one with another. -/
def shifting (first second : SourceFile) : SourceReader where
  paths := ["a.proto"]
  targets := ["a.proto"]
  lookup _ n := .ok (some (if n = 0 then first else second))

def askedTwice (R : SourceReader) : Supply :=
  ((take R "a.proto").run ((take R "a.proto").run {}).2).2

theorem reached_askedTwice (R : SourceReader) : Reached R (askedTwice R) :=
  .take _ (.take _ .start)

/-- An empty file that is nowhere on disk. -/
def nowhere : SourceFile := { path := "a.proto", content := [], externalPath := "a.proto" }

/-- The file at a path that is shown otherwise. -/
def renamed : SourceFile := nowhere.withExternalPath "/src/a.proto"

/-- The file with a place on disk. -/
def placed : SourceFile := nowhere.withLocalPath "/src/a.proto"

theorem consistent_renamed :
    Reached (shifting nowhere renamed) (askedTwice (shifting nowhere renamed)) ∧
      ∃ e, check (askedTwice (shifting nowhere renamed)) = .error e ∧ e.category = .internal := by
  have hreached := reached_askedTwice (shifting nowhere renamed)
  have hcount : (askedTwice (shifting nowhere renamed)).lookups.count "a.proto" = 2 := by
    decide +kernel
  obtain ⟨e, he, hinternal⟩ := hreached.consistent.conflict "a.proto" "a.proto" nowhere renamed
    .externalPath "a.proto" "/src/a.proto" ⟨0, by omega, rfl⟩ ⟨1, by omega, rfl⟩
    rfl rfl rfl (by decide)
  exact ⟨hreached, e, he, hinternal fun path e ⟨n, _, ha⟩ => nomatch ha⟩

def weather : ModuleName := ⟨"remote", "owner", "weather", by decide, by decide, by decide⟩

def traffic : ModuleName := ⟨"remote", "owner", "traffic", by decide, by decide, by decide⟩

/-- A file that tells a place on disk is not refused where one was found before that tells none; and
a file that is refused can leave such a place behind. -/
theorem placed_not_refused :
    (¬ ∀ R s, Reached R s → ∀ path f g part, Answered R s.lookups path (.ok (some f)) →
      Answered R s.lookups path (.ok (some g)) →
      (f.told part).map part.key ≠ (g.told part).map part.key →
      ∃ e, check s = .error e ∧ e.category = .internal) ∧
    ¬ ∀ (o : Origins) f breach, (o.record f).1 = .error breach → ∀ part path,
      (o.record f).2.noted part path = o.noted part path := by
  constructor
  · intro h
    have hcount : (askedTwice (shifting nowhere placed)).lookups.count "a.proto" = 2 := by
      decide +kernel
    have hok : (check (askedTwice (shifting nowhere placed))).isOk = true := by decide +kernel
    obtain ⟨e, he, -⟩ := h _ _ (reached_askedTwice (shifting nowhere placed)) "a.proto"
      nowhere placed .localPath ⟨0, by omega, rfl⟩ ⟨1, by omega, rfl⟩ (by decide)
    rw [he] at hok
    cases hok
  · intro h
    have := h (({} : Origins).record (nowhere.withModule weather none)).2
      (placed.withModule traffic none) _
      rfl .localPath "a.proto"
    exact absurd (congrArg Option.isSome this) (by decide +kernel)

end Shifting

end Supply
end DescriptorKit.Build
