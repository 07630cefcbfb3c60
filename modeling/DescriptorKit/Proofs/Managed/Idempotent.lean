import DescriptorKit.Proofs.Managed.Frame

/-!
A pass over an image that a pass with the same rules has modified finds nothing to do. What it would
write is computed from the path and the package of each file, which the first pass has left alone,
and reads back as it was written.
-/
namespace DescriptorKit.Managed
open Descriptor Modifying

variable {C : Config} {I J : Image} {f g : ImageFile} {r : Report}

/-- A pass finds nothing to do in a file. -/
def Still (C : Config) (f : ImageFile) : Prop :=
  f.isWellKnown = true ∨ runOn (modifyFile C) { file := f } = (.ok (), { file := f })

theorem AllSettled.congr {k : ImageFile} (h : AllSettled C f g)
    (ho : ∀ name, k.descriptor.fileOption? name = g.descriptor.fileOption? name)
    (hv : k.descriptor.decl.views = g.descriptor.decl.views) : AllSettled C f k where
  options s hs := by
    obtain ⟨r, hr, hold⟩ := h.options s hs
    exact ⟨r, hr, fun v hrv => (ho _).trans (hold v hrv)⟩
  jsTypes := by
    rw [JsTypesSettled, hv]
    exact h.jsTypes

/-- Of a file without marks nothing is dropped. -/
theorem sweepFile_sweeps {m : Marked} (h : m.1.2.descriptor.Mirrored) :
    Sweeps m.2 m.1.2.descriptor (sweepFile m).1.2.descriptor := by
  obtain ⟨⟨path, f⟩, marks⟩ := m
  rw [sweepFile]
  split
  · next hnone =>
    dsimp only at hnone h ⊢
    subst hnone
    exact ⟨.refl h, fun _ => by simp⟩
  · obtain ⟨n, -, hsweeps, -⟩ := removeLocations_sweeps h marks
    exact hsweeps

/-- What a pass makes of a file that is not well known comes of setting its options and dropping the
source locations of these. -/
theorem exists_run_of_rewrite (hf : f.descriptor.Mirrored) (ha : f.descriptor.decl.Addressable)
    (hk : f.isWellKnown = false) (h : rewrite C f = some g) :
    ∃ p, runOn (modifyFile C) { file := f } = (.ok (), p) ∧ AllSettled C f p.file ∧ Pass C f g ∧
      p.file.descriptor.Mirrored ∧ Sweeps p.marks p.file.descriptor g.descriptor := by
  rw [rewrite, if_neg (by simp [hk])] at h
  have hwrote := modifyFile_wrote (C := C) hf ha
  generalize runOn (modifyFile C) { file := f } = outcome at h hwrote ⊢
  obtain ⟨r, p⟩ := outcome
  cases r with
  | error e => cases h
  | ok u =>
    obtain ⟨hwrote, hsettled⟩ := hwrote (meant_ok _)
    obtain ⟨n, hn, -, hpass, -⟩ := hwrote.sweep hk f.path
    have hmirrored := hwrote.touched.mirrored
    have hsweeps := sweepFile_sweeps (m := ((f.path, p.file), p.marks)) hmirrored
    dsimp only at h
    generalize sweepFile ((f.path, p.file), p.marks) = swept at h hn hpass hsweeps
    obtain ⟨e, r⟩ := swept
    cases r with
    | error e => cases hn
    | ok n =>
      obtain rfl := Option.some.inj h
      exact ⟨p, rfl, hsettled rfl, hpass, hmirrored, hsweeps⟩

/-- What a pass has made of a file is steady, and it needs no other pass. -/
theorem still_of_rewrite (hf : f.descriptor.Mirrored) (ha : f.descriptor.decl.Addressable)
    (h : rewrite C f = some g) : Steady f g ∧ Still C g := by
  by_cases hk : f.isWellKnown = true
  · rw [rewrite, if_pos hk] at h
    obtain rfl := Option.some.inj h
    exact ⟨⟨rfl, rfl, rfl⟩, Or.inl hk⟩
  · obtain ⟨p, -, hsettled, hpass, hmirrored, hsweeps⟩ :=
      exists_run_of_rewrite hf ha (Bool.eq_false_iff.mpr hk) h
    have hsettled := hsettled.congr (hsweeps.fileOption? hmirrored) hsweeps.views
    exact ⟨hpass.steady, Or.inr (hsettled.still hpass.steady)⟩

theorem modifyFiles_still {entries : List (String × ImageFile)} (h : ∀ e ∈ entries, Still C e.2) :
    modifyFiles C entries = (entries.map fun e => (e, []), .ok ()) := by
  induction entries with
  | nil => rfl
  | cons e rest ih =>
    obtain ⟨path, f⟩ := e
    obtain ⟨hf, hrest⟩ := List.forall_mem_cons.mp h
    rw [modifyFiles, ih hrest]
    by_cases hk : f.isWellKnown = true
    · rw [if_pos hk]
      rfl
    · rw [if_neg hk, show (modifyFile C).run.run { file := f } = _ from hf.resolve_left hk]
      rfl

theorem total_zero (entries : List (String × ImageFile)) :
    total (entries.map fun _ => .ok 0) = .ok 0 := by
  induction entries with
  | nil => rfl
  | cons e rest ih =>
    rw [List.map_cons, total, ih]
    rfl

theorem modify_still (hC : C.validate = .ok ()) (h : ∀ e ∈ J.entries, Still C e.2) :
    modify J C = (J, .ok ⟨0, 0, C.unusedRules J.files⟩) := by
  have hmarks : (J.entries.map fun e => ((e, []) : Marked)).flatMap (·.2) = [] := by simp
  have hcounts : total ((J.entries.map fun e => (e, .ok 0)).map (·.2)) = .ok 0 := by
    rw [List.map_map]
    exact total_zero J.entries
  rw [modify, hC]
  dsimp only
  rw [modifyFiles_still h]
  dsimp only
  rw [map_sweepFile_unmarked, map_fst_unmarked, hcounts, hmarks]
  rfl

/-- Which overrides name no file does not change. -/
theorem unusedRules_congr (h : List.Forall₂ Steady I.files J.files) :
    C.unusedRules J.files = C.unusedRules I.files := by
  have hany : ∀ s : Selector, J.files.any s.chooses = I.files.any s.chooses := by
    intro s
    generalize J.files = gs at h
    generalize I.files = fs at h
    induction h with
    | nil => rfl
    | cons hfg _ ih => rw [List.any_cons, List.any_cons, hfg.chooses, ih]
  simp only [Config.unusedRules, hany]

/-- A second pass changes nothing, and reports that. -/
theorem modify_idempotent (hI : I.Mirrored) (h : modify I C = (J, .ok r)) :
    modify J C = (J, .ok ⟨0, 0, r.unusedOverrides⟩) := by
  obtain ⟨hC, hrel⟩ := turns_iff_related.mp ⟨r, h⟩
  have hall : ∀ f ∈ I.files, f.descriptor.Mirrored ∧ f.descriptor.decl.Addressable := hI
  have hpairs : List.Forall₂ (fun f g => Steady f g ∧ Still C g) I.files J.files :=
    ((List.forall₂_and_left _ _).mpr ⟨hall, hrel.files⟩).imp fun f g h =>
      still_of_rewrite h.1.1 h.1.2 h.2
  have hstill : ∀ g ∈ J.files, Still C g := by
    intro g hg
    obtain ⟨f, -, -, hstill⟩ := exists_of_forall₂ hpairs hg
    exact hstill
  have hreport : r.unusedOverrides = C.unusedRules I.files := by
    rw [modify, hC] at h
    dsimp only at h
    split at h
    · cases (Prod.mk.inj h).2
    · split at h
      · cases (Prod.mk.inj h).2
      · rw [← Except.ok.inj (Prod.mk.inj h).2]
  rw [modify_still hC fun e he => hstill e.2 (List.mem_map_of_mem he), hreport,
    unusedRules_congr (hpairs.imp fun _ _ h => h.1)]

theorem modify_idempotent_located : ∃ I J r, Image.decode located { reparse := false } = .ok I ∧
    I.Mirrored ∧ modify I onlyGo = (J, .ok r) ∧
      modify J onlyGo = (J, .ok ⟨0, 0, r.unusedOverrides⟩) := by
  obtain ⟨I, J, hI, ⟨r, hr⟩, hmirrored, -⟩ := exists_located
  exact ⟨I, J, r, hI, hmirrored, hr, modify_idempotent hmirrored hr⟩

section Runs
open Bundled

/-- The bytes of a file that declares the representation of integers under a number of its own, and
of a file with a field that it is for. -/
def moved : Bytes :=
  let file : MessageDecl :=
    { name := "FileDescriptorProto"
      fields := [one "name" 1 text, many "message_type" 4 (message "DescriptorProto"),
        one "options" 8 (message "FileOptions")] }
  let decl : MessageDecl :=
    { name := "DescriptorProto"
      fields := [one "name" 1 text, many "field" 2 (message "FieldDescriptorProto")] }
  let field : MessageDecl :=
    { name := "FieldDescriptorProto"
      fields := [one "name" 1 text, one "options" 8 (message "FieldOptions")] }
  let options : MessageDecl :=
    { name := "FieldOptions", fields := [one "jstype" 7 (enum "FieldOptions.JSType")]
      enums := [{ name := "JSType", values := [⟨"JS_NORMAL", 0, none⟩, ⟨"JS_STRING", 1, none⟩] }] }
  Storage.encodeFiles
    [FileDecl.toMessage
      { name := "google/protobuf/descriptor.proto", package := some "google.protobuf"
        messages := [file, { name := "FileOptions" }, decl, field, options] } |>.encode,
      FileDecl.toMessage
        { name := "a.proto"
          messages := [{ name := "M", fields := [one "id" 1 int64] }] } |>.encode]

/-- Rules that set no option but how integers are represented. -/
def onlyStrings : Config :=
  { disables := FileOption.all.map fun o => { fileOption := some o }
    fieldRules := [{ option := .jsType, value := .jsType .string }] }

/-- The options that two passes in succession report to have modified. -/
def modifiedTwice (I : Image) : Option (Nat × Nat) := do
  let r ← (modify I onlyStrings).2.toOption
  let r' ← (modify (modify I onlyStrings).1 onlyStrings).2.toOption
  some (r.modifiedOptions, r'.modifiedOptions)

theorem modifiedTwice_moved :
    (Image.decode moved {}).toOption.bind modifiedTwice = some (1, 1) := by
  decide +kernel

/-- Where the schema has another number for the option, each pass sets it anew. -/
theorem not_idempotent_moved : ∃ I J r r', Image.decode moved {} = .ok I ∧
    modify I onlyStrings = (J, .ok r) ∧ (modify J onlyStrings).2 = .ok r' ∧
      r'.modifiedOptions ≠ 0 := by
  obtain ⟨I, hI, h⟩ := exists_of_toOption_bind modifiedTwice_moved
  obtain ⟨r, hr, h⟩ := exists_of_toOption_bind h
  obtain ⟨r', hr', h⟩ := exists_of_toOption_bind h
  obtain ⟨-, htwice⟩ := Prod.mk.inj (Option.some.inj h)
  refine ⟨I, (modify I onlyStrings).1, r, r', hI, ?_, hr', ?_⟩
  · rw [← hr]
  · rw [htwice]
    decide

end Runs

end DescriptorKit.Managed
