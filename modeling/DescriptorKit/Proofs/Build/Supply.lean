import DescriptorKit.Proofs.Build.Origins
import DescriptorKit.Proofs.Build.Stages

/-!
What is known about the origins of the files that were supplied, after any number of files were
asked for. What is read from may answer each lookup differently.
-/
namespace DescriptorKit.Build
open DescriptorKit.Language

namespace Supply

variable {R : SourceReader} {s s' : Supply} {o : Origins} {name path p q : String} {f : SourceFile}
  {lookups : List String} {answer : Except Error (Option SourceFile)} {part : OriginPart}
  {done : List OriginPart} {result : Except SupplyFault SourceUnit}

/-- The supply after one more lookup. -/
def looked (s : Supply) (path : String) : Supply := { s with lookups := path :: s.lookups }

/-- The supply after the source of a file was read. -/
def marked (s : Supply) (path source : String) : Supply :=
  if !Source.declaresDialect source then { s with origins := s.origins.recordUndeclared path }
  else s

@[simp] theorem marked_lookups (s : Supply) (path source : String) :
    (s.marked path source).lookups = s.lookups := by
  rw [marked]
  split <;> rfl

@[simp] theorem marked_failure (s : Supply) (path source : String) :
    (s.marked path source).failure = s.failure := by
  rw [marked]
  split <;> rfl

@[simp] theorem marked_noted (s : Supply) (path source : String) (part : OriginPart) (p : String) :
    (s.marked path source).origins.noted part p = s.origins.noted part p := by
  rw [marked]
  split <;> cases part <;> rfl

/-- A file is marked just where its source does not declare a dialect. -/
theorem mem_undeclared_marked_iff (s : Supply) (path source p : String) :
    p ∈ (s.marked path source).origins.undeclared ↔
      p ∈ s.origins.undeclared ∨ p = path ∧ Source.declaresDialect source = false := by
  rw [marked]
  cases Source.declaresDialect source <;> simp [Origins.recordUndeclared, or_comm]

/-- What loading a source gives, and the supply after it. -/
inductive Loads (R : SourceReader) (s : Supply) (name : String) :
    Except SupplyFault SourceUnit → Supply → Prop where
  | unnamed {fault : Path.Fault} (abnormal : Path.normalize name = .error fault) :
      Loads R s name (.error (.missing name)) (s.addMissing name)
  | broken {path : String} {e : Error} (normal : Path.normalize name = .ok path)
      (answer : R.lookup path (s.lookups.count path) = .error e) :
      Loads R s name (.error (.missing path)) ((s.looked path).fail e)
  | bundled {path : String} {file : FileDecl} (normal : Path.normalize name = .ok path)
      (answer : R.lookup path (s.lookups.count path) = .ok none)
        (held : Bundled.file? path = some file) :
      Loads R s name (.ok ⟨[], file, []⟩)
        { s.looked path with origins := s.origins.recordBundled path }
  | absent {path : String} (normal : Path.normalize name = .ok path)
      (answer : R.lookup path (s.lookups.count path) = .ok none)
        (held : Bundled.file? path = none) :
      Loads R s name (.error (.missing path)) ((s.looked path).addMissing path)
  | refused {path : String} {f : SourceFile} {breach : Breach}
      (normal : Path.normalize name = .ok path)
      (answer : R.lookup path (s.lookups.count path) = .ok (some f))
      (recorded : (s.origins.record f).1 = .error breach) :
      Loads R s name (.error (.missing path))
        ({ s.looked path with origins := (s.origins.record f).2 }.fail (.breach breach))
  | read {path : String} {f : SourceFile} (normal : Path.normalize name = .ok path)
      (answer : R.lookup path (s.lookups.count path) = .ok (some f))
      (recorded : (s.origins.record f).1 = .ok ()) :
      Loads R s name
        ((SourceUnit.parse path (Text.lossy f.content)).mapError
          (.unreadable path (Text.lossy f.content)))
        (marked { s.looked path with origins := (s.origins.record f).2 } path
          (Text.lossy f.content))

theorem load_eq (R : SourceReader) (s : Supply) (normal : Path.normalize name = .ok path) :
    (load R name).run s =
      match R.lookup path (s.lookups.count path) with
      | .ok (some f) => (read path f).run (s.looked path)
      | .ok none => (Supply.bundled path).run (s.looked path)
      | .error e => (.error (.missing path), (s.looked path).fail e) := by
  rw [load, normal]
  change StateT.run (match R.lookup path (s.lookups.count path) with
    | .ok (some f) => read path f
    | .ok none => Supply.bundled path
    | .error e => do
      modify (·.fail e)
      return .error (.missing path)) (s.looked path) = _
  cases R.lookup path (s.lookups.count path) with
  | error e => rfl
  | ok found => cases found <;> rfl

theorem bundled_eq (path : String) (s : Supply) :
    (Supply.bundled path).run s =
      match Bundled.file? path with
      | some file => (.ok ⟨[], file, []⟩, { s with origins := s.origins.recordBundled path })
      | none => (.error (.missing path), s.addMissing path) := by
  rw [Supply.bundled]
  cases Bundled.file? path <;> rfl

theorem read_eq (path : String) (f : SourceFile) (s : Supply) :
    (read path f).run s =
      match (s.origins.record f).1 with
      | .error breach => (.error (.missing path),
          { s with origins := (s.origins.record f).2 }.fail (.breach breach))
      | .ok () =>
        ((SourceUnit.parse path (Text.lossy f.content)).mapError
          (.unreadable path (Text.lossy f.content)),
          marked { s with origins := (s.origins.record f).2 } path (Text.lossy f.content)) := by
  rw [read, marked]
  change StateT.run (match (s.origins.record f).1 with
    | .error breach => _
    | .ok () => _) { s with origins := (s.origins.record f).2 } = _
  cases (s.origins.record f).1 with
  | error breach => rfl
  | ok done =>
    dsimp only
    cases Source.declaresDialect (Text.lossy f.content) <;>
      cases SourceUnit.parse path (Text.lossy f.content) <;> rfl

theorem load_loads (R : SourceReader) (s : Supply) (name : String) :
    Loads R s name ((load R name).run s).1 ((load R name).run s).2 := by
  cases hn : Path.normalize name with
  | error fault =>
    rw [load, hn]
    exact .unnamed hn
  | ok path =>
    rw [load_eq R s hn]
    cases ha : R.lookup path (s.lookups.count path) with
    | error e => exact .broken hn ha
    | ok found =>
      cases found with
      | none =>
        rw [bundled_eq]
        cases hb : Bundled.file? path with
        | some file => exact .bundled hn ha hb
        | none => exact .absent hn ha hb
      | some f =>
        dsimp only
        rw [read_eq]
        cases hr : ((s.looked path).origins.record f).1 with
        | error breach => exact .refused hn ha hr
        | ok done => exact .read hn ha hr

/-- One of the lookups of a path was answered so. -/
def Answered (R : SourceReader) (lookups : List String) (path : String)
    (answer : Except Error (Option SourceFile)) : Prop :=
  ∃ n < lookups.count path, R.lookup path n = answer

/-- A file was served for a path: one that was found, or a bundled one. -/
inductive Served (R : SourceReader) (lookups : List String) (path : String) :
    SourceFile → Prop where
  | found {f : SourceFile} (answered : Answered R lookups path (.ok (some f))) :
      Served R lookups path f
  | bundled (answered : Answered R lookups path (.ok none)) (held : (Bundled.file? path).isSome) :
      Served R lookups path (Origins.ofBundled path)

/-- All files that were served at a path tell the same about their origin. -/
def Unanimous (R : SourceReader) (lookups : List String) (path : String) : Prop :=
  ∀ p q f g, Served R lookups p f → Served R lookups q g → f.path = path → g.path = path →
    ∀ part, (f.told part).map part.key = (g.told part).map part.key

theorem answered_cons_iff :
    Answered R (q :: lookups) p answer ↔
      Answered R lookups p answer ∨ p = q ∧ R.lookup q (lookups.count q) = answer := by
  by_cases h : p = q
  · subst h
    simp only [Answered, List.count_cons_self, Nat.lt_succ_iff_lt_or_eq, true_and]
    constructor
    · rintro ⟨n, hn | rfl, ha⟩
      · exact .inl ⟨n, hn, ha⟩
      · exact .inr ha
    · rintro (⟨n, hn, ha⟩ | ha)
      · exact ⟨n, .inl hn, ha⟩
      · exact ⟨_, .inr rfl, ha⟩
  · simp [Answered, h, Ne.symm h]

theorem Answered.cons (h : Answered R lookups p answer) : Answered R (q :: lookups) p answer :=
  answered_cons_iff.mpr (.inl h)

theorem answered_self (h : R.lookup q (lookups.count q) = answer) :
    Answered R (q :: lookups) q answer :=
  answered_cons_iff.mpr (.inr ⟨rfl, h⟩)

/-- What was answered before, if the last lookup was answered otherwise. -/
theorem Answered.of_cons {last : Except Error (Option SourceFile)}
    (h : Answered R (q :: lookups) p answer) (hlast : R.lookup q (lookups.count q) = last)
    (hne : last ≠ answer) : Answered R lookups p answer := by
  rcases answered_cons_iff.mp h with h | ⟨-, ha⟩
  · exact h
  · exact absurd (hlast.symm.trans ha) hne

theorem Served.cons (h : Served R lookups p f) : Served R (q :: lookups) p f := by
  cases h with
  | found ha => exact .found ha.cons
  | bundled ha hb => exact .bundled ha.cons hb

/-- Why a supply fails: a lookup that ended so, or a file that was refused. -/
def Caused (R : SourceReader) (lookups : List String) (e : Error) : Prop :=
  (∃ path, Answered R lookups path (.error e)) ∨ ∃ breach, e = .breach breach

theorem Caused.cons {e : Error} (h : Caused R lookups e) : Caused R (q :: lookups) e :=
  h.imp_left fun ⟨p, ha⟩ => ⟨p, ha.cons⟩

theorem Unanimous.of_cons (h : Unanimous R (q :: lookups) path) : Unanimous R lookups path :=
  fun p p' f g hf hg => h p p' f g hf.cons hg.cons

theorem fail_ne_none (s : Supply) (e : Error) : (s.fail e).failure ≠ none := by
  cases h : s.failure <;> simp [fail, h]

/-- Only the first failure counts. -/
theorem failure_of_fail {first e : Error} (h : (s.fail first).failure = some e) :
    s.failure = some e ∨ e = first := by
  cases hs : s.failure with
  | none => exact .inr (by simpa [fail, hs] using h.symm)
  | some e' => exact .inl (by simpa [fail, hs] using h)

/-- What is known about the supply after any number of files were asked for. -/
structure Traced (R : SourceReader) (s : Supply) : Prop where
  failure : ∀ e, s.failure = some e → Caused R s.lookups e
  /-- What is recorded was told by a file that was served. -/
  told : ∀ part path v, s.origins.noted part path = some v →
    ∃ p f, Served R s.lookups p f ∧ f.path = path ∧ f.told part = some v
  /-- Short of a failure, what the files tell that were found is recorded. -/
  noted : s.failure = none → ∀ path f part w, Answered R s.lookups path (.ok (some f)) →
    f.told part = some w → ∃ v, s.origins.noted part f.path = some v ∧ part.key v = part.key w
  /-- Where all files tell the same, what they tell is recorded, a failure or not. -/
  unanimous : ∀ path, Unanimous R s.lookups path → ∀ p f part w,
    Served R s.lookups p f → f.path = path →
    f.told part = some w → ∃ v, s.origins.noted part path = some v ∧ part.key v = part.key w
  /-- Short of a failure, the files are marked that do not declare a dialect. -/
  undeclared : s.failure = none → ∀ path, path ∈ s.origins.undeclared ↔
    ∃ f, Answered R s.lookups path (.ok (some f)) ∧
      Source.declaresDialect (Text.lossy f.content) = false

theorem not_answered_nil : ¬ Answered R [] p answer := by
  simp [Answered]

theorem not_served_nil : ¬ Served R [] p f := by
  rintro (ha | ⟨ha, -⟩) <;> exact not_answered_nil ha

theorem traced_start (R : SourceReader) : Traced R {} where
  failure := by simp
  told part _ _ h := by cases part <;> simp [Origins.noted, Origins.known] at h
  noted _ _ _ _ _ h := (not_answered_nil h).elim
  unanimous _ _ _ _ _ _ h := (not_served_nil h).elim
  undeclared := by simp [not_answered_nil]

namespace Traced

/-- Neither what was read ahead nor what is missing has to do with origins. -/
theorem congr (h : Traced R s) (hl : s'.lookups = s.lookups) (ho : s'.origins = s.origins)
    (hf : s'.failure = s.failure) : Traced R s' := by
  obtain ⟨_, _, _, _, _⟩ := s
  obtain ⟨_, _, _, _, _⟩ := s'
  subst hl ho hf
  exact ⟨h.failure, h.told, h.noted, h.unanimous, h.undeclared⟩

/-- A file that tells what the others tell is not refused. -/
theorem not_clashes (h : Traced R s) (hf : Served R (q :: s.lookups) q f)
    (hsame : Unanimous R (q :: s.lookups) f.path) : ¬ s.origins.Clashes f part := by
  rintro ⟨v, w, hv, hw, hne⟩
  obtain ⟨p, g, hg, hpath, hv⟩ := h.told part f.path v hv
  have hkeys := hsame p q g f hg.cons hf hpath rfl part
  rw [hv, hw] at hkeys
  exact hne (by simpa using hkeys)

theorem served_told (h : Traced R s) (hf : Served R (q :: s.lookups) q f)
    (hnotes : Origins.Notes f done s.origins o) (part : OriginPart) (path : String) (v : part.Value)
    (hv : o.noted part path = some v) :
    ∃ p g, Served R (q :: s.lookups) p g ∧ g.path = path ∧ g.told part = some v := by
  rcases hnotes.of_noted hv with hv | ⟨rfl, -, hv⟩
  · obtain ⟨p, g, hg, hpath, hv⟩ := h.told part path v hv
    exact ⟨p, g, hg.cons, hpath, hv⟩
  · exact ⟨q, f, hf, rfl, hv⟩

theorem served_alike (h : Traced R s) (hf : Served R (q :: s.lookups) q f)
    (hlast : ∀ p g, Served R (q :: s.lookups) p g → Served R s.lookups p g ∨ g = f)
    (hnotes : Origins.Notes f done s.origins o)
    (hdone : done = Origins.parts ∨ ∃ part, s.origins.Clashes f part) (path : String)
    (hsame : Unanimous R (q :: s.lookups) path) (p : String) (g : SourceFile) (part : OriginPart)
    (w : part.Value) (hg : Served R (q :: s.lookups) p g) (hpath : g.path = path)
    (hw : g.told part = some w) :
    ∃ v, o.noted part path = some v ∧ part.key v = part.key w := by
  rcases hlast p g hg with hg | rfl
  · obtain ⟨v, hv, hkey⟩ := h.unanimous path hsame.of_cons p g part w hg hpath hw
    exact ⟨v, hnotes.keeps hv, hkey⟩
  · subst hpath
    rcases hdone with rfl | ⟨refused, hclash⟩
    · refine hnotes.noted_of_told hw fun v hv => ?_
      by_contra hne
      exact h.not_clashes hf hsame ⟨v, w, hv, hw, hne⟩
    · exact (h.not_clashes hf hsame hclash).elim

/-- After a lookup that gives no file, short of what was recorded. -/
theorem looked (h : Traced R s) (hanswer : R.lookup path (s.lookups.count path) = answer)
    (hnone : ∀ f, answer ≠ .ok (some f))
    (hbundled : answer = .ok none → Bundled.file? path = none) :
    Traced R (s.looked path) where
  failure e he := (h.failure e he).cons
  told part p v hv := by
    obtain ⟨q, f, hf, hrest⟩ := h.told part p v hv
    exact ⟨q, f, hf.cons, hrest⟩
  noted hok p f part w ha := h.noted hok p f part w (ha.of_cons hanswer (hnone f))
  unanimous p hsame q f part w hf := by
    refine h.unanimous p hsame.of_cons q f part w ?_
    cases hf with
    | found ha => exact .found (ha.of_cons hanswer (hnone f))
    | bundled ha hb =>
      rcases answered_cons_iff.mp ha with ha | ⟨rfl, ha⟩
      · exact .bundled ha hb
      · simp [hbundled (hanswer.symm.trans ha)] at hb
  undeclared hok p := by
    refine (h.undeclared hok p).trans (exists_congr fun f => and_congr_left fun _ => ?_)
    exact ⟨.cons, fun ha => ha.of_cons hanswer (hnone f)⟩

theorem fail {e : Error} (h : Traced R s) (he : Caused R s.lookups e) : Traced R (s.fail e) where
  failure e' he' := by
    rcases failure_of_fail he' with he' | rfl
    · exact h.failure e' he'
    · exact he
  told := h.told
  noted hok := (fail_ne_none s e hok).elim
  unanimous := h.unanimous
  undeclared hok := (fail_ne_none s e hok).elim

/-- What was served before the last lookup, or is the file that it gave. -/
theorem served_of_found (hanswer : R.lookup q (lookups.count q) = .ok (some f)) (p : String)
    (g : SourceFile) (hg : Served R (q :: lookups) p g) : Served R lookups p g ∨ g = f := by
  cases hg with
  | found ha =>
    rcases answered_cons_iff.mp ha with ha | ⟨-, ha⟩
    · exact .inl (.found ha)
    · cases hanswer.symm.trans ha
      exact .inr rfl
  | bundled ha hb => exact .inl (.bundled (ha.of_cons hanswer (by simp)) hb)

theorem served_of_bundled (hanswer : R.lookup q (lookups.count q) = .ok none) (p : String)
    (g : SourceFile) (hg : Served R (q :: lookups) p g) :
    Served R lookups p g ∨ g = Origins.ofBundled q := by
  cases hg with
  | found ha => exact .inl (.found (ha.of_cons hanswer (by simp)))
  | bundled ha hb =>
    rcases answered_cons_iff.mp ha with ha | ⟨rfl, -⟩
    · exact .inl (.bundled ha hb)
    · exact .inr rfl

theorem bundled (h : Traced R s) (hanswer : R.lookup path (s.lookups.count path) = .ok none)
    (held : (Bundled.file? path).isSome) :
    Traced R { s.looked path with origins := s.origins.recordBundled path } := by
  have hserved : Served R (path :: s.lookups) path (Origins.ofBundled path) :=
    .bundled (answered_self hanswer) held
  have hnotes := Origins.recordBundled_notes s.origins path
  refine ⟨fun e he => (h.failure e he).cons, h.served_told hserved hnotes, ?_,
    h.served_alike hserved (served_of_bundled hanswer) hnotes (.inl rfl), ?_⟩
  · intro hok p f part w ha hw
    obtain ⟨v, hv, hkey⟩ := h.noted hok p f part w (ha.of_cons hanswer (by simp)) hw
    exact ⟨v, hnotes.keeps hv, hkey⟩
  · intro hok p
    rw [hnotes.undeclared, h.undeclared hok p]
    refine exists_congr fun f => and_congr_left fun _ => ?_
    exact ⟨.cons, fun ha => ha.of_cons hanswer (by simp)⟩

theorem refused {breach : Breach} (h : Traced R s)
    (hanswer : R.lookup path (s.lookups.count path) = .ok (some f))
    (hrecord : (s.origins.record f).1 = .error breach) :
    Traced R ({ s.looked path with origins := (s.origins.record f).2 }.fail (.breach breach)) := by
  have hserved : Served R (path :: s.lookups) path f := .found (answered_self hanswer)
  have hrecords := Origins.record_records s.origins f
  rw [hrecord] at hrecords
  obtain ⟨⟩ | ⟨first, second, hnotes, -, hclash⟩ := hrecords
  refine ⟨?_, h.served_told hserved hnotes, fun hok => (fail_ne_none _ _ hok).elim,
    h.served_alike hserved (served_of_found hanswer) hnotes (.inr ⟨_, hclash⟩),
    fun hok => (fail_ne_none _ _ hok).elim⟩
  intro e he
  rcases failure_of_fail he with he | rfl
  · exact (h.failure e he).cons
  · exact .inr ⟨_, rfl⟩

theorem read (h : Traced R s) (hanswer : R.lookup path (s.lookups.count path) = .ok (some f))
    (hrecord : (s.origins.record f).1 = .ok ()) :
    Traced R (marked { s.looked path with origins := (s.origins.record f).2 } path
      (Text.lossy f.content)) := by
  have hserved : Served R (path :: s.lookups) path f := .found (answered_self hanswer)
  have hrecords := Origins.record_records s.origins f
  rw [hrecord] at hrecords
  obtain ⟨hnotes, hagrees⟩ | ⟨⟩ := hrecords
  constructor
  · simp only [marked_failure, marked_lookups]
    exact fun e he => (h.failure e he).cons
  · simp only [marked_noted, marked_lookups]
    exact h.served_told hserved hnotes
  · simp only [marked_failure, marked_noted, marked_lookups]
    intro hok p g part w ha hw
    rcases answered_cons_iff.mp ha with ha | ⟨-, ha⟩
    · obtain ⟨v, hv, hkey⟩ := h.noted hok p g part w ha hw
      exact ⟨v, hnotes.keeps hv, hkey⟩
    · cases hanswer.symm.trans ha
      refine hnotes.noted_of_told hw fun v hv => ?_
      by_contra hne
      exact hagrees part ⟨v, w, hv, hw, hne⟩
  · simp only [marked_noted, marked_lookups]
    exact h.served_alike hserved (served_of_found hanswer) hnotes (.inl rfl)
  · simp only [marked_failure, marked_lookups, mem_undeclared_marked_iff]
    intro hok p
    rw [hnotes.undeclared, h.undeclared hok p]
    constructor
    · rintro (⟨g, ha, hg⟩ | ⟨rfl, hf⟩)
      · exact ⟨g, ha.cons, hg⟩
      · exact ⟨f, answered_self hanswer, hf⟩
    · rintro ⟨g, ha, hg⟩
      rcases answered_cons_iff.mp ha with ha | ⟨rfl, ha⟩
      · exact .inl ⟨g, ha, hg⟩
      · cases hanswer.symm.trans ha
        exact .inr ⟨rfl, hg⟩

end Traced

/-- Where all files tell the same, what is recorded is what each tells. -/
theorem Traced.unanimous_map (h : Traced R s) (hsame : Unanimous R s.lookups path)
    (hf : Served R s.lookups p f) (hpath : f.path = path) (part : OriginPart) :
    (s.origins.noted part path).map part.key = (f.told part).map part.key := by
  cases hw : f.told part with
  | some w =>
    obtain ⟨v, hv, hkey⟩ := h.unanimous path hsame p f part w hf hpath hw
    simp [hv, hkey]
  | none =>
    cases hv : s.origins.noted part path with
    | none => rfl
    | some v =>
      -- What is recorded was told by a file that does not tell what `f` tells.
      obtain ⟨q, g, hg, hgpath, hgv⟩ := h.told part path v hv
      have := hsame q p g f hg hf hgpath hpath part
      simp [hgv, hw] at this

@[simp] theorem addMissing_lookups (s : Supply) (path : String) :
    (s.addMissing path).lookups = s.lookups := by
  rw [addMissing]
  split <;> rfl

@[simp] theorem addMissing_origins (s : Supply) (path : String) :
    (s.addMissing path).origins = s.origins := by
  rw [addMissing]
  split <;> rfl

@[simp] theorem addMissing_failure (s : Supply) (path : String) :
    (s.addMissing path).failure = s.failure := by
  rw [addMissing]
  split <;> rfl

theorem Loads.traced (hl : Loads R s name result s') (h : Traced R s) : Traced R s' := by
  cases hl with
  | unnamed => exact h.congr (by simp) (by simp) (by simp)
  | broken _ answer =>
    exact (h.looked answer (by simp) (by simp)).fail (.inl ⟨_, answered_self answer⟩)
  | bundled _ answer held => exact h.bundled answer (by simp [held])
  | absent _ answer held =>
    exact (h.looked answer (by simp) fun _ => held).congr (by simp) (by simp) (by simp)
  | refused _ answer recorded => exact h.refused answer recorded
  | read _ answer recorded => exact h.read answer recorded

/-- The supply after any number of files were asked for. -/
inductive Reached (R : SourceReader) : Supply → Prop where
  | start : Reached R {}
  | ahead {s : Supply} (path : String) (before : Reached R s) :
      Reached R ((readAhead R path).run s).2
  | take {s : Supply} (path : String) (before : Reached R s) : Reached R ((take R path).run s).2

theorem readAhead_eq (R : SourceReader) (s : Supply) (path : String) :
    (readAhead R path).run s =
      if (s.ahead.lookup path).isSome then (.ok (), s)
      else
        match (load R path).run s with
        | (.error fault, s') => (.error fault, s')
        | (.ok unit, s') => (.ok (), { s' with ahead := (path, unit) :: s'.ahead }) := by
  rw [readAhead]
  change StateT.run (if (s.ahead.lookup path).isSome then _ else _) s = _
  split
  · rfl
  · rw [StateT.run_bind]
    obtain ⟨fault | unit, s'⟩ := (load R path).run s <;> rfl

theorem take_eq (R : SourceReader) (s : Supply) (path : String) :
    (take R path).run s =
      match s.ahead.lookup path with
      | some unit => (.ok unit, { s with ahead := s.ahead.filter (·.1 ≠ path) })
      | none => (load R path).run s := by
  rw [take]
  change StateT.run (match s.ahead.lookup path with
    | some unit => _
    | none => load R path) s = _
  cases s.ahead.lookup path <;> rfl

/-- What loading a source keeps holds after any number of files were asked for, whatever was read
ahead. -/
theorem Reached.invariant {P : Supply → Prop} (start : P {})
    (loads : ∀ {s s' : Supply} {name : String} {result : Except SupplyFault SourceUnit},
      Reached R s → Loads R s name result s' → P s → P s')
    (ahead : ∀ {s : Supply} (ahead : List (String × SourceUnit)), P s → P { s with ahead })
    (h : Reached R s) : P s := by
  induction h with
  | start => exact start
  | @ahead s path before ih =>
    rw [readAhead_eq]
    split
    · exact ih
    · have hload := loads before (load_loads R s path) ih
      split
      all_goals rename_i hrun; rw [hrun] at hload
      · exact hload
      · exact ahead _ hload
  | @take s path before ih =>
    rw [take_eq]
    split
    · exact ahead _ ih
    · exact loads before (load_loads R s path) ih

theorem Reached.traced (h : Reached R s) : Traced R s :=
  h.invariant (traced_start R) (fun _ hloads ih => hloads.traced ih) fun _ ih =>
    ih.congr rfl rfl rfl

end Supply
end DescriptorKit.Build
