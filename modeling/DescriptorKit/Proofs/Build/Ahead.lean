import Mathlib.Data.String.Basic
import DescriptorKit.Proofs.Build.Linked

/-!
Reading the targets ahead. Where each lookup of a path gets the same answer, what was read so far
says which targets are missing, in their order, and what is told about those that cannot be read;
unless the supply fails, which it does only over two files that carry one path.
-/
namespace DescriptorKit.Build
open DescriptorKit.Language

/-- No lookup fails, and each lookup of a path gets the same answer. -/
def Answers (R : SourceReader) (answer : String → Option SourceFile) : Prop :=
  ∀ path n, R.lookup path n = .ok (answer path)

/-- The file that is served for a path: one that is found there, or a bundled one. -/
def fileFor (answer : String → Option SourceFile) (path : String) : Option SourceFile :=
  (answer path).or ((Bundled.file? path).map fun _ => Origins.ofBundled path)

/-- Two files that are served carry a path, and tell a part of its origin differently. -/
def Contradicts (answer : String → Option SourceFile) (part : OriginPart) (path : String) : Prop :=
  ∃ p q f g v w, fileFor answer p = some f ∧ fileFor answer q = some g ∧ f.path = path ∧
    g.path = path ∧ f.told part = some v ∧ g.told part = some w ∧ part.key v ≠ part.key w

/-- An error that says of which path which part of the origin is contradicted. -/
def Refuses (answer : String → Option SourceFile) (e : Error) : Prop :=
  ∃ part path first second, Contradicts answer part path ∧
    e = .breach (.origin part path first second)

variable {R : SourceReader} {answer : String → Option SourceFile} {path : String}

theorem Answers.eq {n : Nat} {found : Option SourceFile} (hR : Answers R answer)
    (h : R.lookup path n = .ok found) : answer path = found :=
  Except.ok.inj ((hR path n).symm.trans h)

theorem fileFor_of_found {f : SourceFile} (h : answer path = some f) :
    fileFor answer path = some f := by
  simp [fileFor, h]

theorem fileFor_of_bundled {file : FileDecl} (hnone : answer path = none)
    (held : Bundled.file? path = some file) :
    fileFor answer path = some (Origins.ofBundled path) := by
  simp [fileFor, hnone, held]

theorem fileFor_eq_none_iff :
    fileFor answer path = none ↔ answer path = none ∧ Bundled.file? path = none := by
  simp [fileFor]

namespace Supply

variable {s s' : Supply} {name : String} {done : List String}
  {result : Except SupplyFault SourceUnit}
  {f : SourceFile} {e : Error}

section Failing

theorem steady_of_answers (hR : Answers R answer) : Steady R :=
  fun path n k => (hR path n).trans (hR path k).symm

theorem Answered.eq {lookups : List String} {found : Option SourceFile}
    (h : Answered R lookups path (.ok found)) (hR : Answers R answer) : answer path = found := by
  obtain ⟨n, -, h⟩ := h
  exact hR.eq h

theorem Served.fileFor_eq {lookups : List String} (h : Served R lookups path f)
    (hR : Answers R answer) :
    fileFor answer path = some f := by
  cases h with
  | found ha => exact fileFor_of_found (ha.eq hR)
  | bundled ha held =>
    obtain ⟨file, hfile⟩ := Option.isSome_iff_exists.mp held
    exact fileFor_of_bundled (ha.eq hR) hfile

/-- A file that is served nowhere is not supplied. -/
theorem not_supplied (hR : Answers R answer) (hnone : fileFor answer path = none)
    {heard : List String} {unit : SourceUnit} : ¬ Supplied R heard path unit := by
  obtain ⟨hanswer, hbundle⟩ := fileFor_eq_none_iff.mp hnone
  intro h
  cases h with
  | found answered => cases hanswer.symm.trans (answered.eq hR)
  | bundled _ held => simp [hbundle] at held

theorem Traced.contradicts {part : OriginPart} (h : Traced R s) (hR : Answers R answer)
    (hf : answer path = some f) (hclash : s.origins.Clashes f part) :
    Contradicts answer part f.path := by
  obtain ⟨v, w, hv, hw, hne⟩ := hclash
  obtain ⟨p, g, hg, hpath, hv⟩ := h.told part f.path v hv
  exact ⟨p, path, g, f, v, w, hg.fileFor_eq hR, fileFor_of_found hf, hpath, rfl, hv, hw, hne⟩

theorem Loads.refuses (hl : Loads R s name result s') (hR : Answers R answer) (h : Traced R s)
    (hs : ∀ e, s.failure = some e → Refuses answer e) :
    ∀ e, s'.failure = some e → Refuses answer e := by
  intro e he
  cases hl with
  | unnamed => exact hs e (by simpa using he)
  | broken _ hanswer => cases (hR _ _).symm.trans hanswer
  | bundled => exact hs e he
  | absent =>
    rw [addMissing_failure] at he
    exact hs e he
  | @refused path f breach _ hanswer recorded =>
    rcases failure_of_fail he with he | rfl
    · exact hs e he
    · have hrecords := Origins.record_records s.origins f
      rw [recorded] at hrecords
      cases hrecords with
      | refused first second _ _ clashes =>
        exact ⟨_, f.path, first, second, h.contradicts hR (hR.eq hanswer) clashes, rfl⟩
  | read =>
    rw [marked_failure] at he
    exact hs e he

/-- Where no lookup fails, a supply fails only over a contradiction. -/
theorem Reached.refuses (h : Reached R s) (hR : Answers R answer) :
    ∀ e, s.failure = some e → Refuses answer e :=
  h.invariant (by simp) (fun hs hloads ih => hloads.refuses hR hs.traced ih) fun _ ih => ih

end Failing

section Missing

@[simp] theorem looked_missing (s : Supply) (path : String) : (s.looked path).missing = s.missing :=
  rfl

@[simp] theorem looked_origins (s : Supply) (path : String) : (s.looked path).origins = s.origins :=
  rfl

@[simp] theorem looked_failure (s : Supply) (path : String) : (s.looked path).failure = s.failure :=
  rfl

@[simp] theorem marked_missing (s : Supply) (path source : String) :
    (s.marked path source).missing = s.missing := by
  rw [marked]
  split <;> rfl

/-- Paths that are missing stay so, in the order in which they were asked for. -/
theorem Loads.missing (hl : Loads R s name result s') : s.missing <+: s'.missing := by
  have hadd (s : Supply) (p : String) : s.missing <+: (s.addMissing p).missing := by
    rw [addMissing]
    split <;> simp
  cases hl with
  | unnamed => exact hadd s name
  | absent => exact hadd (s.looked _) _
  | read =>
    rw [marked_missing]
    exact List.prefix_refl _
  | _ => exact List.prefix_refl _

theorem take_missing (R : SourceReader) (s : Supply) (path : String) :
    s.missing <+: ((take R path).run s).2.missing := by
  rw [take_eq]
  split
  · exact List.prefix_refl _
  · exact (load_loads R s path).missing

end Missing

end Supply

/-- The first of the files that carries a path, of those that are served for the given paths. -/
def carrier (answer : String → Option SourceFile) (read : List String) (path : String) :
    Option SourceFile :=
  (read.filterMap (fileFor answer)).find? (·.path = path)

/-- The path that is shown for a path when the given ones were read. -/
def shownAfter (answer : String → Option SourceFile) (read : List String) (path : String) :
    String :=
  ((carrier answer read path).map (·.externalPath)).getD path

/-- What is told about the file at a path, if it cannot be read. -/
def complaints (answer : String → Option SourceFile) (read : List String) (path : String) :
    List Annotation :=
  match answer path with
  | none => []
  | some f =>
    match SourceUnit.parse path (Text.lossy f.content) with
    | .ok _ => []
    | .error faults =>
      (LinkFault.unreadable path (Text.lossy f.content) faults).annotations
        { externalPaths := [(path, shownAfter answer read path)] }

/-- What is told about a file depends on the path that is shown for it. -/
theorem annotations_unreadable {o o' : Origins} (source : String) (faults : List Fault)
    (h : o.displayPath path = o'.displayPath path) :
    (LinkFault.unreadable path source faults).annotations o =
      (LinkFault.unreadable path source faults).annotations o' := by
  simp only [LinkFault.annotations, LinkFault.file?, Option.map_some, Option.getD_some, h]

def SupplyFault.told (origins : Origins) : SupplyFault → List Annotation
  | .missing _ => []
  | .unreadable path source faults => (LinkFault.unreadable path source faults).annotations origins

/-- What is told about a file that was asked for: nothing, if it is missing. -/
def toldOf {α : Type} (origins : Origins) : Except SupplyFault α → List Annotation
  | .ok _ => []
  | .error fault => fault.told origins

/-- What is known once the given paths were read ahead. -/
structure Begun (answer : String → Option SourceFile) (done : List String) (s : Supply) : Prop where
  ahead : ∀ e ∈ s.ahead, e.1 ∈ done
  missing : s.missing = done.filter fun p => (fileFor answer p).isNone
  shown : s.failure = none → ∀ p,
    s.origins.noted .externalPath p = (carrier answer done p).map (·.externalPath)

section Reading
open Supply

variable {s s' : Supply} {done rest targets : List String} {result : Except SupplyFault SourceUnit}
  {f : SourceFile} {o o' : Origins}

theorem begun_nil (answer : String → Option SourceFile) : Begun answer [] {} :=
  ⟨by simp, rfl, fun _ _ => rfl⟩

theorem Begun.displayPath (h : Begun answer done s) (hok : s.failure = none) (p : String) :
    s.origins.displayPath p = shownAfter answer done p :=
  congrArg (Option.getD · p) (h.shown hok p)

theorem carrier_append_of_none (hf : fileFor answer path = none) (p : String) :
    carrier answer (done ++ [path]) p = carrier answer done p := by
  have hlast : [path].filterMap (fileFor answer) = [] := by simp [hf]
  rw [carrier, List.filterMap_append, hlast, List.append_nil, carrier]

theorem carrier_append_of_some (hf : fileFor answer path = some f) (p : String) :
    carrier answer (done ++ [path]) p =
      if p = f.path then (carrier answer done p).or (some f) else carrier answer done p := by
  have hlast : [path].filterMap (fileFor answer) = [f] := by simp [hf]
  rw [carrier, List.filterMap_append, hlast, List.find?_append, ← carrier]
  by_cases hp : p = f.path
  · simp [hp]
  · simp [hp, Ne.symm hp]

/-- What is shown after one more file was recorded. -/
theorem noted_of_notes (hnotes : Origins.Notes f Origins.parts o o')
    (hf : fileFor answer path = some f)
    (h : ∀ p, o.noted .externalPath p = (carrier answer done p).map (·.externalPath)) (p : String) :
    o'.noted .externalPath p = (carrier answer (done ++ [path]) p).map (·.externalPath) := by
  rw [hnotes.noted, h, carrier_append_of_some hf]
  by_cases hp : p = f.path
  · subst hp
    cases carrier answer done f.path <;> simp [Origins.mem_parts, SourceFile.told]
  · simp [hp]

theorem filter_append_served (hf : fileFor answer path = some f) :
    (done ++ [path]).filter (fun p => (fileFor answer p).isNone) =
      done.filter fun p => (fileFor answer p).isNone := by
  simp [hf]

theorem Begun.loads (h : Begun answer done s) (hR : Answers R answer)
    (hl : Loads R s path result s') (hn : Path.normalize path = .ok path) (hnew : path ∉ done) :
    Begun answer (done ++ [path]) s' := by
  have hahead : ∀ e ∈ s'.ahead, e.1 ∈ done ++ [path] := by
    rw [hl.ahead]
    exact fun e he => List.mem_append_left _ (h.ahead e he)
  cases hl with
  | unnamed abnormal => cases hn.symm.trans abnormal
  | broken _ hanswer => cases (hR _ _).symm.trans hanswer
  | bundled normal hanswer held =>
    cases hn.symm.trans normal
    have hf := fileFor_of_bundled (hR.eq hanswer) held
    exact ⟨hahead, h.missing.trans (filter_append_served hf).symm,
      fun hok => noted_of_notes (Origins.recordBundled_notes _ _) hf (h.shown hok)⟩
  | absent normal hanswer held =>
    cases hn.symm.trans normal
    have hnone : fileFor answer path = none := fileFor_eq_none_iff.mpr ⟨hR.eq hanswer, held⟩
    refine ⟨hahead, ?_, fun hok p => ?_⟩
    · have hold : path ∉ (s.looked path).missing := by
        change path ∉ s.missing
        rw [h.missing]
        exact fun hp => hnew (List.mem_filter.mp hp).1
      rw [addMissing, if_neg hold]
      simpa [hnone] using h.missing
    · rw [addMissing_failure] at hok
      rw [addMissing_origins, carrier_append_of_none hnone]
      exact h.shown hok p
  | refused normal hanswer recorded =>
    cases hn.symm.trans normal
    have hf := fileFor_of_found (hR.eq hanswer)
    exact ⟨hahead, h.missing.trans (filter_append_served hf).symm,
      fun hok => (fail_ne_none _ _ hok).elim⟩
  | @read path f normal hanswer recorded =>
    cases hn.symm.trans normal
    have hf := fileFor_of_found (hR.eq hanswer)
    have hrecords := Origins.record_records s.origins f
    rw [recorded] at hrecords
    obtain ⟨hnotes, -⟩ | ⟨⟩ := hrecords
    refine ⟨hahead, ?_, fun hok p => ?_⟩
    · rw [marked_missing]
      exact h.missing.trans (filter_append_served hf).symm
    · rw [marked_failure] at hok
      rw [marked_noted]
      exact noted_of_notes hnotes hf (h.shown hok) p

/-- What is told about a file is told of what was read up to it. -/
theorem Begun.told (h : Begun answer (done ++ [path]) s') (hR : Answers R answer)
    (hl : Loads R s path result s') (hn : Path.normalize path = .ok path)
    (hok : s'.failure = none) :
    s.failure = none ∧ toldOf s'.origins result = complaints answer (done ++ [path]) path := by
  cases hl with
  | unnamed abnormal => cases hn.symm.trans abnormal
  | broken _ hanswer => cases (hR _ _).symm.trans hanswer
  | bundled normal hanswer =>
    cases hn.symm.trans normal
    have hnone : answer path = none := hR.eq hanswer
    exact ⟨hok, by simp [toldOf, complaints, hnone]⟩
  | absent normal hanswer =>
    cases hn.symm.trans normal
    have hnone : answer path = none := hR.eq hanswer
    exact ⟨by simpa using hok, by simp [toldOf, SupplyFault.told, complaints, hnone]⟩
  | refused => exact (fail_ne_none _ _ hok).elim
  | @read path f normal hanswer recorded =>
    cases hn.symm.trans normal
    have hfound : answer path = some f := hR.eq hanswer
    refine ⟨by rwa [marked_failure] at hok, ?_⟩
    rw [complaints, hfound]
    dsimp only
    cases hparse : SourceUnit.parse path (Text.lossy f.content) with
    | ok unit => rfl
    | error faults =>
      refine annotations_unreadable _ _ ?_
      rw [h.displayPath hok]
      simp [Origins.displayPath]

theorem Begun.lookup_ahead (h : Begun answer done s) (hnew : path ∉ done) :
    s.ahead.lookup path = none := by
  cases hl : s.ahead.lookup path with
  | none => rfl
  | some unit => exact absurd (h.ahead _ (mem_of_lookup hl)) hnew

/-- One more target is read ahead. -/
theorem Begun.readAhead (h : Begun answer done s) (hR : Answers R answer)
    (hn : Path.normalize path = .ok path) (hnew : path ∉ done) {r : Except SupplyFault Unit}
    (hrun : (Supply.readAhead R path).run s = (r, s')) :
    Begun answer (done ++ [path]) s' ∧ (s'.failure = none →
      s.failure = none ∧ toldOf s'.origins r = complaints answer (done ++ [path]) path) := by
  have hloads := load_loads R s path
  rw [readAhead_eq, h.lookup_ahead hnew] at hrun
  simp only [Option.isSome_none, Bool.false_eq_true, if_false] at hrun
  split at hrun
  all_goals
    rename_i hload
    rw [hload] at hloads
    obtain ⟨rfl, rfl⟩ := Prod.mk.inj hrun
    have hbegun := h.loads hR hloads hn hnew
  · exact ⟨hbegun, hbegun.told hR hloads hn⟩
  · refine ⟨⟨?_, hbegun.missing, hbegun.shown⟩, hbegun.told hR hloads hn⟩
    simpa using fun a u hu => by simpa using hbegun.ahead (a, u) hu

theorem readTargets_cons {r : Except SupplyFault Unit} (rest : List String)
    (h : (Supply.readAhead R path).run s = (r, s')) :
    (readTargets R (path :: rest)).run s =
      (toldOf s'.origins r ++ ((readTargets R rest).run s').1,
        ((readTargets R rest).run s').2) := by
  rw [readTargets, StateT.run_bind, h]
  obtain (_ | _) | _ := r <;> rfl

/-- Of ascending paths, those up to one are those before it and itself. -/
theorem filter_le_of_ascending (h : (done ++ path :: rest).Pairwise (· < ·)) :
    (done ++ path :: rest).filter (· ≤ path) = done ++ [path] := by
  obtain ⟨-, hrest, hbefore⟩ := List.pairwise_append.mp h
  have hdone : done.filter (· ≤ path) = done :=
    List.filter_eq_self.mpr fun p hp => decide_eq_true (hbefore p hp path List.mem_cons_self).le
  have hlater : rest.filter (· ≤ path) = [] := by
    simpa [List.filter_eq_nil_iff] using fun p hp => (List.pairwise_cons.mp hrest).1 p hp
  rw [List.filter_append, hdone, List.filter_cons_of_pos (by simp), hlater]

/-- All targets are read ahead, in their order. What is told of one is told of what was read up to
it. -/
theorem Begun.readTargets (h : Begun answer done s) (hR : Answers R answer)
    (hn : ∀ p ∈ rest, Path.normalize p = .ok p) (hasc : (done ++ rest).Pairwise (· < ·)) :
    Begun answer (done ++ rest) ((readTargets R rest).run s).2 ∧
      (((Build.readTargets R rest).run s).2.failure = none → s.failure = none ∧
        ((Build.readTargets R rest).run s).1 =
          rest.flatMap fun t => complaints answer ((done ++ rest).filter (· ≤ t)) t) := by
  induction rest generalizing done s with
  | nil =>
    rw [List.append_nil]
    exact ⟨h, fun hok => ⟨hok, rfl⟩⟩
  | cons path rest ih =>
    obtain ⟨hpath, hrest⟩ := List.forall_mem_cons.mp hn
    have hnew : path ∉ done := fun hp =>
      lt_irrefl path ((List.pairwise_append.mp hasc).2.2 path hp path List.mem_cons_self)
    have hall : done ++ [path] ++ rest = done ++ path :: rest := by simp
    cases hrun : (Supply.readAhead R path).run s with
    | mk r s₁ =>
      obtain ⟨hbegun, htold⟩ := h.readAhead hR hpath hnew hrun
      obtain ⟨hlater, hlaterTold⟩ := ih hbegun hrest (hall ▸ hasc)
      rw [hall] at hlater hlaterTold
      rw [readTargets_cons rest hrun]
      refine ⟨hlater, fun hok => ?_⟩
      obtain ⟨hok₁, hrestTold⟩ := hlaterTold hok
      obtain ⟨hok₀, hfirst⟩ := htold hok₁
      refine ⟨hok₀, ?_⟩
      rw [List.flatMap_cons, filter_le_of_ascending hasc, hfirst, hrestTold]

end Reading

section Order
open Supply

variable {B : Bucket} {given done order targets before : List String} {s s' : Supply} {p : String}
  {unit : SourceUnit} {f : SourceFile} {r : Except SupplyFault Unit}

theorem answers_building (B : Bucket) (given : List String) : Answers (B.building given) B.file? :=
  fun _ _ => rfl

theorem path_of_fileFor (h : fileFor B.file? p = some f) : f.path = p := by
  rcases Option.or_eq_some_iff.mp h with h | ⟨-, h⟩
  · exact Bucket.path_of_file? h
  · obtain ⟨file, -, rfl⟩ := Option.map_eq_some_iff.mp h
    rfl

/-- A bucket has one file at a path, so nothing contradicts another. -/
theorem not_contradicts_bucket (part : OriginPart) : ¬ Contradicts B.file? part p := by
  rintro ⟨q, q', f, g, v, w, hf, hg, hp, hp', hv, hw, hne⟩
  obtain rfl : q = q' := by rw [← path_of_fileFor hf, ← path_of_fileFor hg, hp, hp']
  obtain rfl := Option.some.inj (hf.symm.trans hg)
  exact hne (congrArg part.key (Option.some.inj (hv.symm.trans hw)))

theorem Supply.Reached.failure_eq_none (h : Reached (B.building given) s) : s.failure = none := by
  refine Option.eq_none_iff_forall_ne_some.mpr fun e he => ?_
  obtain ⟨part, path, -, -, hcontradicts, -⟩ := h.refuses (answers_building B given) e he
  exact not_contradicts_bucket part hcontradicts

/-- Two supplies hold the same, whatever the order in which it came. -/
structure Supply.Agrees (s s' : Supply) : Prop where
  lookups : s.lookups.Perm s'.lookups
  noted : ∀ part path, s.origins.noted part path = s'.origins.noted part path
  undeclared : ∀ path, path ∈ s.origins.undeclared ↔ path ∈ s'.origins.undeclared
  ahead : ∀ path, s.ahead.lookup path = s'.ahead.lookup path
  missing : s.missing.Perm s'.missing
  failure : s.failure = s'.failure

/-- What was served from a bucket depends on which paths were looked up. -/
theorem served_of_subset (h : Served (B.building given) before p f) {after : List String}
    (hs : before ⊆ after) : Served (B.building given) after p f := by
  cases h with
  | found answered =>
    obtain ⟨hp, ha⟩ := Bucket.answered_iff.mp answered
    exact .found (Bucket.answered_iff.mpr ⟨hs hp, ha⟩)
  | bundled answered held =>
    obtain ⟨hp, ha⟩ := Bucket.answered_iff.mp answered
    exact .bundled (Bucket.answered_iff.mpr ⟨hs hp, ha⟩) held

theorem supplied_of_subset (h : Supplied (B.building given) before p unit) {after : List String}
    (hs : before ⊆ after) : Supplied (B.building given) after p unit := by
  cases h with
  | found answered parsed =>
    obtain ⟨hp, ha⟩ := Bucket.answered_iff.mp answered
    exact .found (Bucket.answered_iff.mpr ⟨hs hp, ha⟩) parsed
  | bundled answered held =>
    obtain ⟨hp, ha⟩ := Bucket.answered_iff.mp answered
    exact .bundled (Bucket.answered_iff.mpr ⟨hs hp, ha⟩) held

theorem mem_of_supplied (h : Supplied (B.building given) before p unit) : p ∈ before := by
  cases h with
  | found answered => exact (Bucket.answered_iff.mp answered).1
  | bundled answered => exact (Bucket.answered_iff.mp answered).1

theorem noted_of_subset {part : OriginPart} {v : part.Value} (h : Reached (B.building given) s)
    (h' : Reached (B.building given) s') (hs : s.lookups ⊆ s'.lookups)
    (hv : s.origins.noted part p = some v) : s'.origins.noted part p = some v := by
  obtain ⟨q, f, hf, hfp, htold⟩ := h.traced.told part p v hv
  obtain rfl : q = p := (Bucket.path_of_served hf).symm.trans hfp
  rw [Bucket.noted_eq h'.traced (served_of_subset hf hs) part, htold]

/-- What is recorded of the files of a bucket depends on which paths were looked up. -/
theorem noted_eq_of_perm (h : Reached (B.building given) s) (h' : Reached (B.building given) s')
    (hs : s.lookups.Perm s'.lookups) (part : OriginPart) (p : String) :
    s.origins.noted part p = s'.origins.noted part p :=
  Option.ext fun _ => ⟨noted_of_subset h h' hs.subset, noted_of_subset h' h hs.symm.subset⟩

theorem mem_undeclared_iff_of_perm (h : Reached (B.building given) s)
    (h' : Reached (B.building given) s') (hs : s.lookups.Perm s'.lookups) (p : String) :
    p ∈ s.origins.undeclared ↔ p ∈ s'.origins.undeclared := by
  rw [h.traced.undeclared h.failure_eq_none, h'.traced.undeclared h'.failure_eq_none]
  simp only [Bucket.answered_iff, hs.mem_iff]

/-- What is known once the files at the given paths of a bucket were read ahead, in any order. -/
structure Held (B : Bucket) (given done : List String) (s : Supply) : Prop where
  reached : Reached (B.building given) s
  begun : Begun B.file? done s
  lookups : s.lookups.Perm done
  ahead : ∀ p unit, s.ahead.lookup p = some unit ↔ Supplied (B.building given) s.lookups p unit

theorem held_nil (B : Bucket) (given : List String) : Held B given [] {} where
  reached := .start
  begun := begun_nil B.file?
  lookups := .nil
  ahead p unit := by simpa using fun h => by simpa using mem_of_supplied h

theorem Held.agrees (h : Held B given done s) (h' : Held B given order s') (ho : done.Perm order) :
    s.Agrees s' := by
  have hlookups : s.lookups.Perm s'.lookups := h.lookups.trans (ho.trans h'.lookups.symm)
  refine ⟨hlookups, noted_eq_of_perm h.reached h'.reached hlookups,
    mem_undeclared_iff_of_perm h.reached h'.reached hlookups, fun p => Option.ext fun unit => ?_,
    ?_, ?_⟩
  · rw [h.ahead, h'.ahead]
    exact ⟨fun hu => supplied_of_subset hu hlookups.subset,
      fun hu => supplied_of_subset hu hlookups.symm.subset⟩
  · rw [h.begun.missing, h'.begun.missing]
    exact ho.filter _
  · rw [h.reached.failure_eq_none, h'.reached.failure_eq_none]

/-- The file at a path that was read is the one that carries the path. -/
theorem carrier_bucket (hp : p ∈ done) : carrier B.file? done p = fileFor B.file? p := by
  have hmem (g : SourceFile) (hg : carrier B.file? done p = some g) :
    fileFor B.file? p = some g := by
    obtain ⟨q, -, hq⟩ := List.mem_filterMap.mp (List.mem_of_find?_eq_some hg)
    obtain rfl : q = p := by
      rw [← path_of_fileFor hq]
      simpa using List.find?_some hg
    exact hq
  cases hf : fileFor B.file? p with
  | none =>
    refine Option.eq_none_iff_forall_ne_some.mpr fun g hg => ?_
    cases hf.symm.trans (hmem g hg)
  | some f =>
    have hfound : (carrier B.file? done p).isSome := List.find?_isSome.mpr
      ⟨f, List.mem_filterMap.mpr ⟨p, hp, hf⟩, by simpa using path_of_fileFor hf⟩
    obtain ⟨g, hg⟩ := Option.isSome_iff_exists.mp hfound
    rw [hg, ← hmem g hg, hf]

/-- What is told about a file is told of it alone. -/
theorem complaints_bucket (hp : p ∈ done) :
    complaints B.file? done p = complaints B.file? [p] p := by
  simp only [complaints, shownAfter, carrier_bucket hp, carrier_bucket (List.mem_singleton_self p)]

theorem supplied_cons_iff {q : String} (hne : q ≠ p) :
    Supplied (B.building given) (p :: before) q unit ↔
    Supplied (B.building given) before q unit := by
  refine ⟨fun h => ?_, fun h => supplied_of_subset h (List.subset_cons_self _ _)⟩
  cases h with
  | found answered parsed =>
    exact .found (((answered_cons_iff).mp answered).resolve_right fun h => hne h.1) parsed
  | bundled answered held =>
    exact .bundled (((answered_cons_iff).mp answered).resolve_right fun h => hne h.1) held

/-- Loading gives what is supplied at a path, and an error where nothing is. -/
theorem loads_eq_ok_iff {result : Except SupplyFault SourceUnit} (h : Traced (B.building given) s)
    (hl : Loads (B.building given) s p result s') (hn : Path.normalize p = .ok p) :
    s'.lookups = p :: s.lookups ∧
      ∀ unit, result = .ok unit ↔ Supplied (B.building given) s'.lookups p unit := by
  have hsteady := B.building_steady given
  have hforth (unit : SourceUnit) (hr : result = .ok unit) :
      Supplied (B.building given) s'.lookups p unit := by
    obtain ⟨q, hq, hu⟩ := hl.supplied hr
    obtain rfl := Except.ok.inj (hn.symm.trans hq)
    exact hu
  cases hl with
  | unnamed abnormal => cases hn.symm.trans abnormal
  | broken _ hanswer => cases (answers_building B given _ _).symm.trans hanswer
  | bundled normal hanswer held =>
    cases hn.symm.trans normal
    refine ⟨rfl, fun unit => ⟨hforth unit, fun hu => ?_⟩⟩
    rw [hu.unique hsteady (hforth _ rfl)]
  | absent normal hanswer held =>
    cases hn.symm.trans normal
    have hnone : fileFor B.file? _ = none :=
      fileFor_eq_none_iff.mpr ⟨(answers_building B given).eq hanswer, held⟩
    exact ⟨by simp [looked], fun unit =>
      ⟨hforth unit, fun hu => (not_supplied (answers_building B given) hnone hu).elim⟩⟩
  | @refused path f breach normal hanswer recorded =>
    have hrecords := Origins.record_records s.origins f
    rw [recorded] at hrecords
    cases hrecords with
    | refused first second _ _ clashes =>
      have hfound := (answers_building B given).eq hanswer
      exact (not_contradicts_bucket _
        (h.contradicts (answers_building B given) hfound clashes)).elim
  | read normal hanswer recorded =>
    cases hn.symm.trans normal
    refine ⟨by simp [looked], fun unit => ⟨hforth unit, fun hu => ?_⟩⟩
    cases hu with
    | found answered parsed =>
      obtain rfl := Option.some.inj ((answered.eq (answers_building B given)).symm.trans
        ((answers_building B given).eq hanswer))
      exact mapError_eq_ok_iff.mpr parsed
    | bundled answered =>
      cases (answered.eq (answers_building B given)).symm.trans
        ((answers_building B given).eq hanswer)

/-- One more file is read ahead. -/
theorem Held.readAhead (h : Held B given done s) (hn : Path.normalize p = .ok p) (hnew : p ∉ done)
    (hrun : (Supply.readAhead (B.building given) p).run s = (r, s')) :
    Held B given (done ++ [p]) s' ∧ toldOf s'.origins r = complaints B.file? [p] p := by
  have hreached : Reached (B.building given) s' := by
    have hahead := h.reached.ahead p
    rwa [hrun] at hahead
  obtain ⟨hbegun, htold⟩ := h.begun.readAhead (answers_building B given) hn hnew hrun
  have hcomplaints := (htold hreached.failure_eq_none).2
  rw [complaints_bucket (by simp)] at hcomplaints
  have hloads := load_loads (B.building given) s p
  have hold := h.begun.lookup_ahead hnew
  rw [readAhead_eq, hold, if_neg (by simp)] at hrun
  obtain ⟨hlookups, hunit⟩ := loads_eq_ok_iff h.reached.traced hloads hn
  have hperm : (p :: s.lookups).Perm (done ++ [p]) :=
    (h.lookups.cons p).trans (List.perm_append_singleton p done).symm
  cases hload : (load (B.building given) p).run s with
  | mk result s₁ =>
    rw [hload] at hrun hloads hlookups hunit
    dsimp only at hloads hlookups hunit
    have hother (q : String) (hq : q ≠ p) (unit : SourceUnit) :
        s₁.ahead.lookup q = some unit ↔ Supplied (B.building given) s₁.lookups q unit := by
      rw [hloads.ahead, h.ahead, hlookups, supplied_cons_iff hq]
    cases result with
    | error fault =>
      obtain ⟨rfl, rfl⟩ := Prod.mk.inj hrun
      refine ⟨⟨hreached, hbegun, hlookups ▸ hperm, fun q unit => ?_⟩, hcomplaints⟩
      by_cases hq : q = p
      · subst hq
        rw [hloads.ahead, hold, ← hunit]
        simp
      · exact hother q hq unit
    | ok u =>
      obtain ⟨rfl, rfl⟩ := Prod.mk.inj hrun
      refine ⟨⟨hreached, hbegun, hlookups ▸ hperm, fun q unit => ?_⟩, hcomplaints⟩
      by_cases hq : q = p
      · subst hq
        simpa using hunit unit
      · simpa [List.lookup_cons, hq, beq_false_of_ne] using hother q hq unit

/-- What is told of a file that is read ahead does not depend on those read before it. -/
theorem Held.readTargets (h : Held B given done s) (hn : ∀ p ∈ order, Path.normalize p = .ok p)
    (hd : (done ++ order).Nodup) :
    Held B given (done ++ order) ((readTargets (B.building given) order).run s).2 ∧
      ((Build.readTargets (B.building given) order).run s).1 =
        order.flatMap fun p => complaints B.file? [p] p := by
  induction order generalizing done s with
  | nil => exact ⟨(List.append_nil done).symm ▸ h, rfl⟩
  | cons p order ih =>
    obtain ⟨hp, hrest⟩ := List.forall_mem_cons.mp hn
    have hnew : p ∉ done := fun hp =>
      (List.nodup_append.mp hd).2.2 p hp p List.mem_cons_self rfl
    have hall : done ++ [p] ++ order = done ++ p :: order := by simp
    cases hrun : (Supply.readAhead (B.building given) p).run s with
    | mk r s₁ =>
      obtain ⟨hheld, hfirst⟩ := h.readAhead hp hnew hrun
      obtain ⟨hlater, htold⟩ := ih hheld hrest (hall ▸ hd)
      rw [hall] at hlater
      rw [readTargets_cons order hrun, List.flatMap_cons, hfirst, htold]
      exact ⟨hlater, rfl⟩

/-- Targets may be read ahead in any order: the supply holds the same then, and the same is told of
each target. -/
theorem readTargets_perm (B : Bucket) (given : List String)
    (hn : ∀ p ∈ targets, Path.normalize p = .ok p) (hd : targets.Nodup) (ho : order.Perm targets) :
    ((readTargets (B.building given) order).run {}).2.Agrees
        ((readTargets (B.building given) targets).run {}).2 ∧
      ((readTargets (B.building given) order).run {}).1 =
        order.flatMap fun p => complaints B.file? [p] p := by
  obtain ⟨hheld, htold⟩ := (held_nil B given).readTargets
    (fun p (hp : p ∈ order) => hn p (ho.subset hp)) (by simpa using ho.nodup_iff.mpr hd)
  exact ⟨hheld.agrees ((held_nil B given).readTargets hn (by simpa using hd)).1 (by simpa using ho),
    htold⟩

end Order

end DescriptorKit.Build
