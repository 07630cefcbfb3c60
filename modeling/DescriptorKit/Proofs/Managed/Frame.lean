import DescriptorKit.Proofs.Managed.Commute
import DescriptorKit.Proofs.Managed.File

/-!
What a pass over an image leaves alone. The files stay in their order, with all that is known about
them, and their descriptors differ in the places of options that are not disabled and in source
locations only, whether the pass succeeds or an override of a wrong type stops it midway.
-/
namespace DescriptorKit
open Message Descriptor

/-- The schemas that the descriptors of the files are held by agree with the built-in one, and the
fields that the files declare can be told from each other by their paths. -/
def Image.Mirrored (I : Image) : Prop :=
  ∀ f ∈ I.files, f.descriptor.Mirrored ∧ f.descriptor.decl.Addressable

namespace Managed
open Modifying

variable {C : Config} {I : Image} {entries : List (String × ImageFile)} {f g : ImageFile}

/-- A pass succeeds, or it is stopped by an override of a wrong type or by a selector that is not in
normal form. -/
def Foreseen (C : Config) (r : Except Error Report) : Prop :=
  ∀ e, r = .error e → IllTyped e ∨ C.validate = .error e

/-- Nothing is dropped from files without marks. -/
theorem map_sweepFile_unmarked (entries : List (String × ImageFile)) :
    (entries.map fun e => (e, [])).map sweepFile = entries.map fun e => (e, .ok 0) := by
  rw [List.map_map]
  rfl

theorem map_fst_unmarked (entries : List (String × ImageFile)) :
    (entries.map fun e => (e, (.ok 0 : Except Error Nat))).map (·.1) = entries := by
  rw [List.map_map]
  exact List.map_id _

/-- What comes of an entry: all of it is known from the entry alone. -/
structure Passed (C : Config) (e : String × ImageFile) (m : Marked) : Prop where
  key : (sweepFile m).1.1 = e.1
  pass : Pass C e.2 (sweepFile m).1.2
  exists_count : ∃ n, (sweepFile m).2 = .ok n

theorem Passed.refl {e : String × ImageFile}
    (h : e.2.descriptor.Mirrored ∧ e.2.descriptor.decl.Addressable) : Passed C e (e, []) :=
  ⟨rfl, .refl h.1 h.2, 0, rfl⟩

theorem Wrote.passed {p : Progress} (h : Wrote C f p) (hk : f.isWellKnown = false)
    (path : String) : Passed C (path, f) ((path, p.file), p.marks) := by
  obtain ⟨n, hn, -, hpass, -⟩ := h.sweep hk path
  refine ⟨?_, hpass, n, hn⟩
  rw [sweepFile]
  split <;> rfl

/-- What holds of every entry before and after it was modified, whether in full or not, and of every
entry that was left alone holds of the entries all along. -/
theorem modifyFiles_forall₂ {R : String × ImageFile → Marked → Prop}
    (hm : Meant (modifyFiles C entries).2) (hkept : ∀ e ∈ entries, R e (e, []))
    (hrun : ∀ e ∈ entries, e.2.isWellKnown = false →
      Meant (runOn (modifyFile C) { file := e.2 }).1 →
        R e ((e.1, (runOn (modifyFile C) { file := e.2 }).2.file),
          (runOn (modifyFile C) { file := e.2 }).2.marks)) :
    List.Forall₂ R entries (modifyFiles C entries).1 := by
  induction entries with
  | nil => exact .nil
  | cons e rest ih =>
    obtain ⟨path, f⟩ := e
    obtain ⟨hfirst, hrest⟩ := List.forall_mem_cons.mp hkept
    obtain ⟨hstep, hsteps⟩ := List.forall_mem_cons.mp hrun
    rw [modifyFiles] at hm ⊢
    by_cases hk : f.isWellKnown = true
    · rw [if_pos hk] at hm ⊢
      exact .cons hfirst (ih hm hrest hsteps)
    · rw [if_neg hk] at hm ⊢
      have hrun : (modifyFile C).run.run { file := f } = runOn (modifyFile C) { file := f } := rfl
      have hstep := hstep (Bool.eq_false_iff.mpr hk)
      rw [hrun] at hm ⊢
      generalize runOn (modifyFile C) { file := f } = outcome at hm hstep ⊢
      obtain ⟨r, p⟩ := outcome
      cases r with
      | error e =>
        refine .cons (hstep fun e' he => hm e' (by rw [← he])) ?_
        rw [List.forall₂_map_right_iff]
        exact List.forall₂_same.mpr hrest
      | ok u => exact .cons (hstep (meant_ok _)) (ih hm hrest hsteps)

theorem modifyFiles_passed
    (h : ∀ e ∈ entries, e.2.descriptor.Mirrored ∧ e.2.descriptor.decl.Addressable)
    (hm : Meant (modifyFiles C entries).2) :
    List.Forall₂ (Passed C) entries (modifyFiles C entries).1 := by
  refine modifyFiles_forall₂ hm (fun e he => .refl (h e he)) fun e he hk hrun => ?_
  obtain ⟨hf, ha⟩ := h e he
  exact (modifyFile_wrote hf ha hrun).1.passed hk e.1

theorem exists_total {marked : List Marked} (h : List.Forall₂ (Passed C) entries marked) :
    ∃ n, total ((marked.map sweepFile).map (·.2)) = .ok n := by
  induction h with
  | nil => exact ⟨0, rfl⟩
  | cons hpassed _ ih => exact total_cons_iff.mpr ⟨hpassed.exists_count, ih⟩

/-- The outcome of a pass, if it is one that was to be expected. -/
theorem modify_cases (hI : I.Mirrored) (hm : Foreseen C (modify I C).2) :
    (∃ e, C.validate = .error e ∧ modify I C = (I, .error e)) ∨
      C.validate = .ok () ∧ Meant (modifyFiles C I.entries).2 ∧
        List.Forall₂ (Passed C) I.entries (modifyFiles C I.entries).1 ∧
        (modify I C).1 = ⟨((modifyFiles C I.entries).1.map sweepFile).map (·.1)⟩ := by
  have hentries : ∀ e ∈ I.entries, e.2.descriptor.Mirrored ∧ e.2.descriptor.decl.Addressable :=
    fun e he => hI e.2 (List.mem_map_of_mem he)
  rw [modify] at hm ⊢
  cases hC : C.validate with
  | error e => exact Or.inl ⟨e, rfl, rfl⟩
  | ok u =>
    rw [hC] at hm
    dsimp only at hm ⊢
    have hmeant : Meant (modifyFiles C I.entries).2 := by
      intro e he
      rw [he] at hm
      rcases hm e rfl with h | h
      · exact h
      · rw [hC] at h
        cases h
    refine Or.inr ⟨rfl, hmeant, modifyFiles_passed hentries hmeant, ?_⟩
    split
    · rfl
    · split <;> rfl

/-- Each file after a pass comes from the file before it in the same place. -/
theorem modify_passes (hI : I.Mirrored) (hm : Foreseen C (modify I C).2) :
    List.Forall₂ (fun e e' => e'.1 = e.1 ∧ Pass C e.2 e'.2) I.entries
      (modify I C).1.entries := by
  rcases modify_cases hI hm with ⟨e, -, hrun⟩ | ⟨-, -, hall, hJ⟩
  · rw [hrun]
    refine List.forall₂_same.mpr fun e he => ⟨rfl, ?_⟩
    obtain ⟨hf, ha⟩ := hI e.2 (List.mem_map_of_mem he)
    exact .refl hf ha
  · rw [hJ, List.map_map, List.forall₂_map_right_iff]
    exact hall.imp fun e m h => ⟨h.key, h.pass⟩

/-- All of a file that a pass leaves alone. -/
structure Frame (C : Config) (f g : ImageFile) : Prop where
  wellKnown : f.isWellKnown = true → g = f
  metadata : g = { f with descriptor := g.descriptor }
  schema : g.descriptor.schema = f.descriptor.schema
  type : g.descriptor.type = f.descriptor.type
  message : ∀ n, Differs (Allowed C f) [n] (f.descriptor.message.only n)
    (g.descriptor.message.only n)
  typed : ∀ n, n ∉ [4, 7, 8, 9] → g.descriptor.typed.only n = f.descriptor.typed.only n
  synced : readTyped g.descriptor.message.encode = .ok g.descriptor.typed
  unmodified : (∀ path, ¬ Rewrote f g path) → g = f

theorem Pass.frame (h : Pass C f g) : Frame C f g where
  wellKnown := h.wellKnown
  metadata := h.file
  schema := h.touched.schema
  type := h.touched.type
  message := h.touched.message
  typed := h.touched.typed
  synced := h.touched.mirrored.synced
  unmodified hno := by
    obtain ⟨marks, hmarks, hsame, -⟩ := h.exists_marks
    exact hsame (List.eq_nil_iff_forall_not_mem.mpr fun path hp => hno path ((hmarks path).mp hp))

/-- A pass leaves every file alone but for options that are not disabled and source locations. -/
theorem modify_frame (hI : I.Mirrored) (hm : Foreseen C (modify I C).2) :
    List.Forall₂ (fun e e' => e'.1 = e.1 ∧ Frame C e.2 e'.2) I.entries (modify I C).1.entries :=
  (modify_passes hI hm).imp fun _ _ h => ⟨h.1, h.2.frame⟩

section Runs
open Bundled

theorem addressable_of_isEmpty {D : FileDecl} (hm : D.messages.isEmpty = true)
    (he : D.extensions.isEmpty = true) : D.Addressable where
  messages := by simp [List.isEmpty_iff.mp hm]
  extensions := by simp [List.isEmpty_iff.mp he]
  inner := by simp [List.isEmpty_iff.mp hm]

/-- The bytes of a file with an option and the source location of that. -/
def located : Bytes :=
  Storage.encodeFiles
    [FileDecl.toMessage
      { name := "a.proto", options := some ((Draft.of "FileOptions").text 11 "old").slots
        locations := some [⟨[8, 11], [3, 0, 4], none, none, []⟩] } |>.encode]

/-- Whether the image can be modified, and declares no fields. -/
def fieldless (I : Image) : Bool :=
  (modify I onlyGo).2.toOption.isSome &&
    I.files.all fun f => f.descriptor.decl.messages.isEmpty && f.descriptor.decl.extensions.isEmpty

theorem fieldless_located :
    (Image.decode located { reparse := false }).toOption.map fieldless = some true := by
  decide +kernel

theorem exists_located : ∃ I J, Image.decode located { reparse := false } = .ok I ∧
    Turns onlyGo I J ∧ I.Mirrored ∧ ∀ f ∈ I.files, f.descriptor.Located := by
  obtain ⟨I, hI, hfieldless⟩ := exists_of_toOption_map fieldless_located
  obtain ⟨hok, hempty⟩ := Bool.and_eq_true_iff.mp hfieldless
  refine ⟨I, _, hI, turns_of_isOk hok, fun f hf => ?_, fun f hf =>
    (Image.builtin_of_decode rfl hI f hf).located⟩
  obtain ⟨b, hb⟩ := Image.exists_bytes_of_decode rfl hI f hf
  obtain ⟨hm, he⟩ := Bool.and_eq_true_iff.mp (List.all_eq_true.mp hempty f hf)
  exact ⟨decode_mirrored hb, addressable_of_isEmpty hm he⟩

theorem Turns.foreseen {J : Image} (h : Turns C I J) : Foreseen C (modify I C).2 := by
  obtain ⟨r, hr⟩ := h
  rw [hr]
  exact fun e he => by cases he

theorem modify_frame_located : ∃ I, Image.decode located { reparse := false } = .ok I ∧
    I.Mirrored ∧ Foreseen onlyGo (modify I onlyGo).2 ∧
      List.Forall₂ (fun e e' => e'.1 = e.1 ∧ Frame onlyGo e.2 e'.2) I.entries
        (modify I onlyGo).1.entries := by
  obtain ⟨I, J, hI, hturns, hmirrored, -⟩ := exists_located
  exact ⟨I, hI, hmirrored, hturns.foreseen, modify_frame hmirrored hturns.foreseen⟩

/-- The imports of all files of an image before and after a pass that succeeds. -/
def importsAround (I : Image) : Option (List (List String) × List (List String)) :=
  if (modify I onlyGo).2.toOption.isSome then
    some (I.files.map (·.dependencies), (modify I onlyGo).1.files.map (·.dependencies))
  else none

theorem importsAround_lone : (Image.decode lone {}).toOption.bind importsAround =
    some ([[], [], [], ["b.proto", "c.proto"]], [[], [], [], ["c.proto"]]) := by
  decide +kernel

theorem Frame.dependencies (h : Frame C f g) : g.dependencies = f.dependencies := by
  rw [ImageFile.dependencies, ImageFile.dependencies, Descriptor.dependencies,
    Descriptor.dependencies, Message.textsAt, Message.textsAt, Message.manyAt, Message.manyAt,
    at?_congr (h.typed 3 (by decide))]

/-- Where the schema declares a single import, the imports of a file are not left alone. -/
theorem not_frame_lone : ∃ I J, Image.decode lone {} = .ok I ∧ Turns onlyGo I J ∧
    ¬ List.Forall₂ (fun e e' => e'.1 = e.1 ∧ Frame onlyGo e.2 e'.2) I.entries J.entries := by
  obtain ⟨I, hI, h⟩ := exists_of_toOption_bind importsAround_lone
  obtain ⟨hok, h⟩ := Option.ite_none_right_eq_some.mp h
  refine ⟨I, _, hI, turns_of_isOk hok, fun hall => ?_⟩
  have hsame : I.files.map (·.dependencies) = (modify I onlyGo).1.files.map (·.dependencies) := by
    rw [Image.files, Image.files, List.map_map, List.map_map]
    exact map_eq_of_forall₂ (hall.imp fun _ _ he => he.2.dependencies.symm)
  obtain ⟨hbefore, hafter⟩ := Prod.mk.inj (Option.some.inj h)
  rw [hbefore, hafter] at hsame
  exact absurd hsame (by decide)

end Runs

end Managed
end DescriptorKit
