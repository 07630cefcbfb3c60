import DescriptorKit.Build.Origins

/-!
Recording where a file came from. The four parts of an origin are noted one after the other, up to
the first that is refused, so one lemma on the noting of a part gives what a whole record does.
-/
namespace DescriptorKit
namespace OriginPart

/-- What a part of an origin is given as. -/
abbrev Value : OriginPart → Type
  | .externalPath => String
  | .localPath => String
  | .module => ModuleName
  | .commit => Commit

/-- By what values of a part are compared. -/
abbrev Key : OriginPart → Type
  | .externalPath => String
  | .localPath => List String
  | .module => ModuleName
  | .commit => Commit

instance (part : OriginPart) : DecidableEq part.Key :=
  match part with
  | .externalPath => inferInstanceAs (DecidableEq String)
  | .localPath => inferInstanceAs (DecidableEq (List String))
  | .module => inferInstanceAs (DecidableEq ModuleName)
  | .commit => inferInstanceAs (DecidableEq Commit)

def key : (part : OriginPart) → part.Value → part.Key
  | .externalPath => id
  | .localPath => Build.diskSteps
  | .module => id
  | .commit => id

def shown : (part : OriginPart) → part.Value → String
  | .externalPath => Text.quoted
  | .localPath => Text.quoted
  | .module => Build.moduleShown
  | .commit => Commit.groupedText

end OriginPart

/-- What a file tells about a part of its origin. -/
def SourceFile.told (f : SourceFile) : (part : OriginPart) → Option part.Value
  | .externalPath => some f.externalPath
  | .localPath => f.localPath
  | .module => f.module
  | .commit => f.commit

namespace Build

variable {o o₁ o₂ : Origins} {f : SourceFile} {part : OriginPart} {done : List OriginPart}
  {path : String}

theorem noteValue_cases {α β : Type} [DecidableEq β] (part : OriginPart) (key : α → β)
    (shown : α → String)
    (path : String) (value : α) (known : List (String × α)) :
    (∃ known', noteValue part key shown path value known = .ok known' ∧
      (∀ first, known.lookup path = some first → key first = key value) ∧
      ∀ p, known'.lookup p = if p = path then (known.lookup p).or (some value)
        else known.lookup p) ∨
    ∃ first, noteValue part key shown path value known
        = .error (.origin part path (shown first) (shown value)) ∧
      known.lookup path = some first ∧ key first ≠ key value := by
  rw [noteValue]
  cases hl : known.lookup path with
  | none =>
    refine .inl ⟨_, rfl, by simp, fun p => ?_⟩
    by_cases hp : p = path
    · simp [hp, hl]
    · simp [List.lookup_cons, hp, beq_false_of_ne]
  | some first =>
    by_cases hk : key first = key value
    · refine .inl ⟨known, if_pos hk, by simpa [hl] using hk, fun p => ?_⟩
      by_cases hp : p = path <;> simp [hp, hl]
    · exact .inr ⟨first, if_neg hk, rfl, hk⟩

namespace Origins

/-- The values that are recorded of a part. -/
def known (o : Origins) : (part : OriginPart) → List (String × part.Value)
  | .externalPath => o.externalPaths
  | .localPath => o.localPaths
  | .module => o.modules
  | .commit => o.commits

def withKnown (o : Origins) : (part : OriginPart) → List (String × part.Value) → Origins
  | .externalPath, externalPaths => { o with externalPaths }
  | .localPath, localPaths => { o with localPaths }
  | .module, modules => { o with modules }
  | .commit, commits => { o with commits }

/-- What is recorded about a part of the origin of a path. -/
def noted (o : Origins) (part : OriginPart) (path : String) : Option part.Value :=
  (o.known part).lookup path

@[simp] theorem known_withKnown (o : Origins) (part : OriginPart)
    (known : List (String × part.Value)) :
    (o.withKnown part known).known part = known := by
  cases part <;> rfl

theorem known_withKnown_of_ne {part part' : OriginPart} (h : part' ≠ part) (o : Origins)
    (known : List (String × part.Value)) :
    (o.withKnown part known).known part' = o.known part' := by
  cases part <;> cases part' <;> first | rfl | exact absurd rfl h

@[simp] theorem undeclared_withKnown (o : Origins) (part : OriginPart)
    (known : List (String × part.Value)) : (o.withKnown part known).undeclared = o.undeclared := by
  cases part <;> rfl

/-- Notes one part of what a file tells. -/
def notePart (f : SourceFile) (part : OriginPart) : Recording Unit := do
  if let some value := f.told part then
    let o ← get
    let known ← noteValue part part.key part.shown f.path value (o.known part)
    set (o.withKnown part known)

def noteParts (f : SourceFile) : List OriginPart → Recording Unit
  | [] => return ()
  | part :: rest => do
    notePart f part
    noteParts f rest

/-- The parts of an origin, in the order in which they are noted. -/
def parts : List OriginPart := [.externalPath, .localPath, .module, .commit]

theorem recording_eq (f : SourceFile) : recording f = noteParts f parts := by
  cases hl : f.localPath <;> cases hm : f.module <;> cases hc : f.commit <;>
    simp [recording, parts, noteParts, notePart, SourceFile.told, hl, hm, hc, known, withKnown,
      OriginPart.key, OriginPart.shown]

/-- What a file tells of a part differs from what is recorded. -/
def Clashes (o : Origins) (f : SourceFile) (part : OriginPart) : Prop :=
  ∃ v w, o.noted part f.path = some v ∧ f.told part = some w ∧ part.key v ≠ part.key w

/-- The second origins are the first with what a file tells of some parts, where nothing was
recorded before. -/
structure Notes (f : SourceFile) (done : List OriginPart) (o₁ o₂ : Origins) : Prop where
  noted : ∀ part path, o₂.noted part path =
    if path = f.path ∧ part ∈ done then (o₁.noted part path).or (f.told part)
      else o₁.noted part path
  undeclared : o₂.undeclared = o₁.undeclared

theorem Notes.nil (f : SourceFile) (o : Origins) : Notes f [] o o := ⟨by simp, rfl⟩

theorem Notes.cons (h₁ : Notes f [part] o o₁) (h₂ : Notes f done o₁ o₂) :
    Notes f (part :: done) o o₂ := by
  refine ⟨fun p path => ?_, h₂.undeclared.trans h₁.undeclared⟩
  rw [h₂.noted, h₁.noted]
  by_cases hpath : path = f.path
  · by_cases hp : p = part
    · subst hp
      by_cases hd : p ∈ done
      · cases o.noted p path <;> cases f.told p <;> simp [hpath, hd]
      · simp [hpath, hd]
    · simp [hpath, hp]
  · simp [hpath]

/-- A clash is met after other parts were noted just where it is there before. -/
theorem Notes.clashes_iff (h : Notes f done o₁ o₂) (hp : part ∉ done) :
    o₂.Clashes f part ↔ o₁.Clashes f part := by
  simp [Clashes, h.noted, hp]

theorem notes_withKnown (part : OriginPart) {known : List (String × part.Value)}
    (h : ∀ p, known.lookup p =
      if p = f.path then (o.noted part p).or (f.told part) else o.noted part p) :
    Notes f [part] o (o.withKnown part known) := by
  refine ⟨fun p path => ?_, undeclared_withKnown o part known⟩
  by_cases hp : p = part
  · subst hp
    simp [noted, h]
  · simp [noted, hp, known_withKnown_of_ne hp]

theorem run_lift_bind {α β : Type} (x : Except Breach α) (k : α → Recording β) (o : Origins) :
    ((liftM x : Recording α) >>= k).run.run o =
      match x with
      | .ok a => (k a).run.run o
      | .error breach => (.error breach, o) := by
  cases x <;> rfl

theorem notePart_cases (f : SourceFile) (part : OriginPart) (o : Origins) :
    (∃ o', (notePart f part).run.run o = (.ok (), o') ∧ Notes f [part] o o' ∧ ¬ o.Clashes f part) ∨
    ∃ first second, (notePart f part).run.run o
        = (.error (.origin part f.path first second), o) ∧ o.Clashes f part := by
  cases ht : f.told part with
  | none =>
    refine .inl ⟨o, by rw [notePart, ht]; rfl, ⟨?_, rfl⟩, ?_⟩
    · intro p path
      by_cases hp : p = part
      · subst hp
        simp [ht]
      · simp [hp]
    · simp [Clashes, ht]
  | some value =>
    have hrun : (notePart f part).run.run o
        = (liftM (noteValue part part.key part.shown f.path value (o.known part)) >>= fun known =>
            set (o.withKnown part known) : Recording Unit).run.run o := by
      rw [notePart, ht]
      rfl
    rw [hrun, run_lift_bind]
    obtain ⟨known, hk, hsame, hlookup⟩ | ⟨first, hk, hfirst, hne⟩ :=
      noteValue_cases part part.key part.shown f.path value (o.known part)
    · refine .inl ⟨_, by rw [hk]; rfl, notes_withKnown part ?_, ?_⟩
      · simpa only [ht, noted] using hlookup
      · rintro ⟨v, w, hv, hw, hne⟩
        cases ht.symm.trans hw
        exact hne (hsame v hv)
    · exact .inr ⟨_, _, by rw [hk], first, value, hfirst, ht, hne⟩

theorem noteParts_cases (f : SourceFile) (parts : List OriginPart) (o : Origins)
    (hn : parts.Nodup) :
    (∃ o', (noteParts f parts).run.run o = (.ok (), o') ∧ Notes f parts o o' ∧
      ∀ part ∈ parts, ¬ o.Clashes f part) ∨
    ∃ part ∈ parts, ∃ first second done o', (noteParts f parts).run.run o
        = (.error (.origin part f.path first second), o') ∧
      Notes f done o o' ∧ part ∉ done ∧ o.Clashes f part := by
  induction parts generalizing o with
  | nil => exact .inl ⟨o, rfl, .nil f o, by simp⟩
  | cons part rest ih =>
    obtain ⟨hpart, hrest⟩ := List.nodup_cons.mp hn
    obtain ⟨o₁, h₁, hnotes, hagree⟩ | ⟨first, second, h₁, hclash⟩ := notePart_cases f part o
    · have hrun : (noteParts f (part :: rest)).run.run o = (noteParts f rest).run.run o₁ := by
        rw [noteParts, ExceptT.run_bind, StateT.run_bind, h₁]
        rfl
      obtain ⟨o₂, h₂, hmore, hall⟩ | ⟨p, hr, first, second, done, o₂, h₂, hmore, hp, hclash⟩ :=
          ih o₁ hrest
      · refine .inl ⟨o₂, hrun.trans h₂, hnotes.cons hmore, ?_⟩
        simp only [List.forall_mem_cons]
        refine ⟨hagree, fun p hp => ?_⟩
        rw [← hnotes.clashes_iff (by simpa using ne_of_mem_of_not_mem hp hpart)]
        exact hall p hp
      · have hne : p ≠ part := ne_of_mem_of_not_mem hr hpart
        exact .inr ⟨p, List.mem_cons_of_mem _ hr, first, second, part :: done, o₂, hrun.trans h₂,
          hnotes.cons hmore, by simp [hne, hp], (hnotes.clashes_iff (by simpa using hne)).mp hclash⟩
    · refine .inr ⟨part, List.mem_cons_self, first, second, [], o, ?_, .nil f o, by simp, hclash⟩
      rw [noteParts, ExceptT.run_bind, StateT.run_bind, h₁]
      rfl

theorem mem_parts (part : OriginPart) : part ∈ parts := by
  cases part <;> decide

/-- What recording a file does: all that it tells is noted, or the parts before the one that is
refused. -/
inductive Records (o : Origins) (f : SourceFile) : Except Breach Unit → Origins → Prop where
  | noted {o' : Origins} (all : Notes f parts o o') (agrees : ∀ part, ¬ o.Clashes f part) :
      Records o f (.ok ()) o'
  | refused {o' : Origins} {part : OriginPart} {done : List OriginPart} (first second : String)
      (some : Notes f done o o') (left : part ∉ done) (clashes : o.Clashes f part) :
      Records o f (.error (.origin part f.path first second)) o'

theorem record_records (o : Origins) (f : SourceFile) :
    Records o f (o.record f).1 (o.record f).2 := by
  rw [record, recording_eq]
  obtain ⟨o', h, hnotes, hagree⟩ | ⟨part, -, first, second, done, o', h, hnotes, hleft, hclash⟩ :=
    noteParts_cases f parts o (by decide)
  · rw [h]
    exact .noted hnotes fun part => hagree part (mem_parts part)
  · rw [h]
    exact .refused first second hnotes hleft hclash

theorem Records.notes {result : Except Breach Unit} {o' : Origins} (h : Records o f result o') :
    ∃ done, Notes f done o o' := by
  cases h with
  | noted all _ => exact ⟨_, all⟩
  | refused _ _ some _ _ => exact ⟨_, some⟩

namespace Notes

variable {v w : part.Value}

/-- What is recorded stands. -/
theorem keeps (h : Notes f done o₁ o₂) (hv : o₁.noted part path = some v) :
    o₂.noted part path = some v := by
  rw [h.noted]
  split <;> simp [hv]

/-- What is recorded was recorded before, or is told by the file of a part of which nothing was
recorded. -/
theorem of_noted (h : Notes f done o₁ o₂) (hv : o₂.noted part path = some v) :
    o₁.noted part path = some v ∨
      path = f.path ∧ o₁.noted part path = none ∧ f.told part = some v := by
  rw [h.noted] at hv
  split at hv
  case isTrue hdone =>
    rcases Option.or_eq_some_iff.mp hv with hv | ⟨hnone, hv⟩
    · exact .inl hv
    · exact .inr ⟨hdone.1, hnone, hv⟩
  case isFalse => exact .inl hv

/-- What a file tells is recorded, or was recorded before in a like value. -/
theorem noted_of_told (h : Notes f parts o₁ o₂) (hw : f.told part = some w)
    (hagree : ∀ v, o₁.noted part f.path = some v → part.key v = part.key w) :
    ∃ v, o₂.noted part f.path = some v ∧ part.key v = part.key w := by
  rw [h.noted, if_pos ⟨rfl, mem_parts part⟩, hw]
  cases ho : o₁.noted part f.path with
  | none => exact ⟨w, rfl, rfl⟩
  | some v => exact ⟨v, rfl, hagree v ho⟩

end Notes

/-- What a bundled file tells about its origin. -/
def ofBundled (path : String) : SourceFile := { path, content := [], externalPath := path }

/-- Of a bundled file only a path is told, so one that is recorded is all there is to note. -/
theorem recordBundled_notes (o : Origins) (path : String) :
    Notes (ofBundled path) parts o (o.recordBundled path) := by
  have hrest (part : OriginPart) (h : part ≠ .externalPath) :
    (ofBundled path).told part = none := by
    cases part <;> first | rfl | exact absurd rfl h
  have hall {o' : Origins} (h : Notes (ofBundled path) [.externalPath] o o') :
      Notes (ofBundled path) parts o o' := by
    refine ⟨fun part p => ?_, h.undeclared⟩
    rw [h.noted]
    by_cases hpart : part = .externalPath
    · simp [hpart, mem_parts]
    · simp [hpart, mem_parts, hrest]
  rw [recordBundled]
  cases hl : o.externalPaths.lookup path with
  | none =>
    refine hall (notes_withKnown .externalPath fun p => ?_)
    by_cases hp : p = path
    · simp [noted, known, ofBundled, SourceFile.told, hp, hl]
    · simp [noted, known, ofBundled, List.lookup_cons, hp, beq_false_of_ne]
  | some v =>
    refine hall ⟨fun part p => ?_, rfl⟩
    by_cases hp : p = path ∧ part = .externalPath
    · obtain ⟨rfl, rfl⟩ := hp
      simp [noted, known, hl]
    · simp [ofBundled, hp]

end Origins
end Build
end DescriptorKit
