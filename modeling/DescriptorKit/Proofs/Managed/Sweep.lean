import DescriptorKit.Proofs.Managed.Frame

/-!
The source locations that a pass over an image drops: those of the options that it rewrote, and no
others. An error stops the pass at one file; the files before it are as after a pass that succeeds,
and those behind it as before.
-/
namespace DescriptorKit.Managed
open Modifying

variable {C : Config} {I : Image} {entries : List (String × ImageFile)} {f g : ImageFile}
  {e : Error}

/-- The source locations left are those of before, in their order, without those of options that are
other ones than before. -/
def Swept (f g : ImageFile) : Prop :=
  ∃ marks : List (List Int32), (∀ path, path ∈ marks ↔ Rewrote f g path) ∧
    g.descriptor.decl.locations =
      f.descriptor.decl.locations.map fun ls => ls.filter fun l => !marks.contains l.path

theorem Pass.swept (h : Pass C f g) (hl : f.descriptor.Located) : Swept f g := by
  obtain ⟨marks, hmarks, -, hlocations⟩ := h.exists_marks
  exact ⟨marks, hmarks, hlocations hl⟩

/-- The pass over the images `I` stops at one file with an error and leaves `J`. -/
def Stops (C : Config) (I J : Image) (e : Error) : Prop :=
  ∃ before before' x y after, I = ⟨before ++ x :: after⟩ ∧ J = ⟨before' ++ y :: after⟩ ∧
    Turns C ⟨before⟩ ⟨before'⟩ ∧ modify ⟨[x]⟩ C = (⟨[y]⟩, .error e)

theorem modifyFiles_cons (C : Config) (x : String × ImageFile) (rest : List (String × ImageFile)) :
    modifyFiles C (x :: rest) = match modifyFiles C [x] with
      | (marked, .ok ()) => (marked ++ (modifyFiles C rest).1, (modifyFiles C rest).2)
      | (marked, .error e) => (marked ++ rest.map fun e => (e, []), .error e) := by
  obtain ⟨path, f⟩ := x
  rw [modifyFiles, modifyFiles]
  by_cases hk : f.isWellKnown = true
  · rw [if_pos hk, if_pos hk]
    rfl
  · rw [if_neg hk, if_neg hk]
    generalize (modifyFile C).run.run { file := f } = outcome
    obtain ⟨r, p⟩ := outcome
    cases r <;> rfl

/-- An error stops at one entry. -/
theorem exists_of_modifyFiles_error (h : (modifyFiles C entries).2 = .error e) :
    ∃ before x after, entries = before ++ x :: after ∧ (modifyFiles C before).2 = .ok () ∧
      (modifyFiles C [x]).2 = .error e ∧ (modifyFiles C entries).1 =
        (modifyFiles C before).1 ++ (modifyFiles C [x]).1 ++ after.map fun e => (e, []) := by
  induction entries with
  | nil => cases h
  | cons x rest ih =>
    rw [modifyFiles_cons] at h ⊢
    cases hx : modifyFiles C [x] with
    | mk marked r =>
      rw [hx] at h
      cases r with
      | error e' => exact ⟨[], x, rest, rfl, rfl, by rw [hx]; exact h, by rw [hx]; rfl⟩
      | ok u =>
        obtain ⟨before, y, after, rfl, hok, herr, hmarked⟩ := ih h
        have hcons : modifyFiles C (x :: before) =
            (marked ++ (modifyFiles C before).1, (modifyFiles C before).2) := by
          rw [modifyFiles_cons, hx]
        refine ⟨x :: before, y, after, rfl, ?_, herr, ?_⟩
        · rw [hcons]
          exact hok
        · rw [hcons]
          dsimp only
          rw [hmarked, List.append_assoc, List.append_assoc, List.append_assoc]

/-- Sweeping does not fail, so an error comes from setting options. -/
theorem modifyFiles_error_of_modify (hC : C.validate = .ok ())
    (hall : List.Forall₂ (Passed C) I.entries (modifyFiles C I.entries).1)
    (h : (modify I C).2 = .error e) : (modifyFiles C I.entries).2 = .error e := by
  obtain ⟨n, hn⟩ := exists_total hall
  rw [modify, hC] at h
  dsimp only at h
  cases hr : (modifyFiles C I.entries).2 with
  | error e' =>
    rw [hr] at h
    exact congrArg Except.error (Except.error.inj h)
  | ok u =>
    rw [hr, hn] at h
    cases h

theorem stops_of_error (hI : I.Mirrored) (hC : C.validate = .ok ())
    (hm : Meant (modifyFiles C I.entries).2) (h : (modifyFiles C I.entries).2 = .error e) :
    Stops C I ⟨((modifyFiles C I.entries).1.map sweepFile).map (·.1)⟩ e := by
  obtain ⟨before, x, after, heq, hok, herr, hmarked⟩ := exists_of_modifyFiles_error h
  have hentries : ∀ y ∈ before ++ x :: after,
      y.2.descriptor.Mirrored ∧ y.2.descriptor.decl.Addressable := fun y hy =>
    hI y.2 (List.mem_map_of_mem (heq ▸ hy))
  have hbefore : List.Forall₂ (Passed C) before _ := modifyFiles_passed
    (fun y hy => hentries y (List.mem_append_left _ hy)) (by rw [hok]; exact meant_ok _)
  have hx : List.Forall₂ (Passed C) [x] _ := modifyFiles_passed
    (fun y hy => hentries y (List.mem_append_right _ (List.mem_cons.mpr (Or.inl
      (List.mem_singleton.mp hy))))) (by rw [herr, ← h]; exact hm)
  obtain ⟨m, rest, -, hrest, hone⟩ := List.forall₂_cons_left_iff.mp hx
  obtain rfl := List.forall₂_nil_left_iff.mp hrest
  refine ⟨before, ((modifyFiles C before).1.map sweepFile).map (·.1), x, (sweepFile m).1, after,
    ?_, ?_, turns_iff.mpr ⟨hC, hok, exists_total hbefore, rfl⟩, ?_⟩
  · rw [← heq]
  · rw [hmarked, hone, List.map_append, List.map_append, List.map_append, List.map_append,
      map_sweepFile_unmarked, map_fst_unmarked, List.append_assoc]
    rfl
  · rw [modify, hC]
    dsimp only
    rw [herr, hone]
    rfl

/-- A pass drops the locations of the options it rewrote, and no others. A selector that is not in
normal form stops it beforehand; an override of a wrong type stops it at one file. -/
theorem modify_sweeps (hI : I.Mirrored) (hl : ∀ f ∈ I.files, f.descriptor.Located)
    (hm : Foreseen C (modify I C).2) :
    List.Forall₂ (fun e e' => e'.1 = e.1 ∧ Swept e.2 e'.2) I.entries (modify I C).1.entries ∧
      ∀ e, (modify I C).2 = .error e →
        (C.validate = .error e ∧ (modify I C).1 = I) ∨ Stops C I (modify I C).1 e := by
  have hswept : List.Forall₂ (fun e e' => e'.1 = e.1 ∧ Swept e.2 e'.2) I.entries
      (modify I C).1.entries := by
    have hall : ∀ e ∈ I.entries, e.2.descriptor.Located := fun e he =>
      hl e.2 (List.mem_map_of_mem he)
    refine ((List.forall₂_and_left _ _).mpr ⟨hall, modify_passes hI hm⟩).imp fun e e' h => ?_
    exact ⟨h.2.1, h.2.2.swept h.1⟩
  refine ⟨hswept, fun e he => ?_⟩
  rcases modify_cases hI hm with ⟨e', hC, hrun⟩ | ⟨hC, hmeant, hall, hJ⟩
  · rw [hrun] at he ⊢
    exact Or.inl ⟨hC.trans (congrArg Except.error (Except.error.inj he)), rfl⟩
  · rw [hJ]
    exact Or.inr (stops_of_error hI hC hmeant (modifyFiles_error_of_modify hC hall he))

theorem modify_sweeps_located : ∃ I, Image.decode located { reparse := false } = .ok I ∧
    I.Mirrored ∧ (∀ f ∈ I.files, f.descriptor.Located) ∧ Foreseen onlyGo (modify I onlyGo).2 ∧
      List.Forall₂ (fun e e' => e'.1 = e.1 ∧ Swept e.2 e'.2) I.entries
        (modify I onlyGo).1.entries := by
  obtain ⟨I, J, hI, hturns, hmirrored, hlocated⟩ := exists_located
  exact ⟨I, hI, hmirrored, hlocated, hturns.foreseen,
    (modify_sweeps hmirrored hlocated hturns.foreseen).1⟩

section Order

variable {marked : List Marked} {order : List String} {path : String} {n : Nat}

/-- Sweeps one file, which has no marks after that. -/
def sweepAt (path : String) : List Marked → List Marked × Except Error Nat
  | [] => ([], .ok 0)
  | m :: rest =>
    if m.1.1 = path then (((sweepFile m).1, []) :: rest, (sweepFile m).2)
    else (m :: (sweepAt path rest).1, (sweepAt path rest).2)

/-- Sweeps one file after the other, in any order, up to the first that cannot be swept. -/
def sweepInTurn : List String → List Marked → List Marked × Except Error Nat
  | [], marked => (marked, .ok 0)
  | path :: order, marked =>
    match sweepAt path marked with
    | (marked, .error e) => (marked, .error e)
    | (marked, .ok n) => ((sweepInTurn order marked).1, (sweepInTurn order marked).2.map (n + ·))

/-- The entries of files after each of them was swept, and the number of places dropped. -/
def sweepAll (marked : List Marked) : List (String × ImageFile) × Except Error Nat :=
  ((marked.map sweepFile).map (·.1), total ((marked.map sweepFile).map (·.2)))

theorem sweepAll_cons (m : Marked) (rest : List Marked) : sweepAll (m :: rest) =
    ((sweepFile m).1 :: (sweepAll rest).1,
      (sweepFile m).2 >>= fun n => (sweepAll rest).2.map (n + ·)) := by
  simp only [sweepAll, List.map_cons, total]
  cases (sweepFile m).2 with
  | error e => rfl
  | ok n => cases total ((rest.map sweepFile).map (·.2)) <;> rfl

theorem sweepFile_unmarked (e : String × ImageFile) : sweepFile (e, []) = (e, .ok 0) := rfl

/-- A file that is swept first is swept no more. -/
theorem sweepAll_sweepAt_fst (path : String) (marked : List Marked) :
    (sweepAll (sweepAt path marked).1).1 = (sweepAll marked).1 := by
  induction marked with
  | nil => rfl
  | cons m rest ih =>
    rw [sweepAt]
    split
    · rw [sweepAll_cons, sweepAll_cons, sweepFile_unmarked]
    · rw [sweepAll_cons, sweepAll_cons, ih]

theorem sweepAll_sweepAt_snd (h : (sweepAt path marked).2 = .ok n) :
    (sweepAll marked).2 = (sweepAll (sweepAt path marked).1).2.map (n + ·) := by
  induction marked with
  | nil =>
    obtain rfl := Except.ok.inj h
    rfl
  | cons m rest ih =>
    rw [sweepAt] at h ⊢
    split at h
    · rename_i hm
      rw [if_pos hm, sweepAll_cons, sweepAll_cons, sweepFile_unmarked, h]
      cases (sweepAll rest).2 <;> simp [bind, Except.bind, Except.map]
    · rename_i hm
      rw [if_neg hm, sweepAll_cons, sweepAll_cons, ih h]
      cases (sweepFile m).2 with
      | error e => rfl
      | ok k =>
        cases (sweepAll (sweepAt path rest).1).2 with
        | error e => rfl
        | ok j => simp [bind, Except.bind, Except.map, Nat.add_left_comm]

theorem sweepAll_of_sweepAt_error {e : Error} (h : (sweepAt path marked).2 = .error e) :
    ∃ e', (sweepAll marked).2 = .error e' := by
  induction marked with
  | nil => cases h
  | cons m rest ih =>
    rw [sweepAt] at h
    rw [sweepAll_cons]
    split at h
    · exact ⟨e, by rw [h]; rfl⟩
    · obtain ⟨e', he'⟩ := ih h
      cases (sweepFile m).2 with
      | error e => exact ⟨e, rfl⟩
      | ok k => exact ⟨e', by rw [he']; rfl⟩

theorem sweepAt_marks (hd : (marked.map (·.1.1)).Nodup) :
    ∀ m ∈ (sweepAt path marked).1, m.2 ≠ [] → m.1.1 ≠ path ∧ m ∈ marked := by
  induction marked with
  | nil => simp [sweepAt]
  | cons m rest ih =>
    obtain ⟨hm, hrest⟩ := List.nodup_cons.mp hd
    rw [sweepAt]
    split
    · rename_i hp
      refine List.forall_mem_cons.mpr ⟨fun h => (h rfl).elim, fun m' hm' _ => ?_⟩
      refine ⟨fun he => hm ?_, List.mem_cons_of_mem _ hm'⟩
      exact List.mem_map.mpr ⟨m', hm', he.trans hp.symm⟩
    · rename_i hp
      refine List.forall_mem_cons.mpr ⟨fun _ => ⟨hp, List.mem_cons_self⟩, fun m' hm' h => ?_⟩
      exact (ih hrest m' hm' h).imp_right (List.mem_cons_of_mem _)

theorem sweepFile_key (m : Marked) : (sweepFile m).1.1 = m.1.1 := by
  obtain ⟨⟨path, f⟩, marks⟩ := m
  rw [sweepFile]
  split <;> rfl

theorem sweepAt_keys (path : String) (marked : List Marked) :
    (sweepAt path marked).1.map (·.1.1) = marked.map (·.1.1) := by
  induction marked with
  | nil => rfl
  | cons m rest ih =>
    rw [sweepAt]
    split
    · simp [sweepFile_key]
    · simp [ih]

theorem sweepAll_of_unmarked (h : ∀ m ∈ marked, m.2 = []) :
    sweepAll marked = (marked.map (·.1), .ok 0) := by
  induction marked with
  | nil => rfl
  | cons m rest ih =>
    obtain ⟨hm, hrest⟩ := List.forall_mem_cons.mp h
    obtain ⟨e, marks⟩ := m
    obtain rfl := hm
    rw [sweepAll_cons, ih hrest, sweepFile_unmarked]
    rfl

/-- Files that can all be swept are swept alike in every order; where one cannot, every order ends
with an error. A pass that sweeps all files tells no more and no less than that. -/
theorem sweepInTurn_eq (hd : (marked.map (·.1.1)).Nodup)
    (ho : ∀ m ∈ marked, m.2 ≠ [] → m.1.1 ∈ order) :
    (∀ n, (sweepAll marked).2 = .ok n → (sweepInTurn order marked).2 = .ok n ∧
      (sweepInTurn order marked).1.map (·.1) = (sweepAll marked).1) ∧
    ∀ e, (sweepAll marked).2 = .error e → ∃ e', (sweepInTurn order marked).2 = .error e' := by
  induction order generalizing marked with
  | nil =>
    have hall := sweepAll_of_unmarked fun m hm => by_contra fun h => by simpa using ho m hm h
    simp [hall, sweepInTurn]
  | cons path order ih =>
    have hkeys := sweepAt_keys path marked
    have hfirst := sweepAll_sweepAt_fst path marked
    have hmarks : ∀ m ∈ (sweepAt path marked).1, m.2 ≠ [] → m.1.1 ∈ order := fun m hm h => by
      obtain ⟨hne, hmem⟩ := sweepAt_marks hd m hm h
      exact (List.mem_cons.mp (ho m hmem h)).resolve_left hne
    obtain ⟨hok, herror⟩ := ih (hkeys ▸ hd) hmarks
    rw [sweepInTurn]
    cases hr : sweepAt path marked with
    | mk rest r =>
      rw [hr] at hok herror hfirst
      dsimp only at hok herror hfirst ⊢
      cases r with
      | error e =>
        obtain ⟨e', he'⟩ := sweepAll_of_sweepAt_error (congrArg Prod.snd hr)
        refine ⟨fun n hn => ?_, fun _ _ => ⟨e, rfl⟩⟩
        rw [he'] at hn
        cases hn
      | ok k =>
        have hsum := sweepAll_sweepAt_snd (congrArg Prod.snd hr)
        rw [hr] at hsum
        rw [hsum, ← hfirst]
        dsimp only
        cases hrest : (sweepAll rest).2 with
        | error e =>
          obtain ⟨e', he'⟩ := herror e hrest
          refine ⟨fun n hn => ?_, fun _ _ => ⟨e', ?_⟩⟩
          · cases hn
          · rw [he']
            rfl
        | ok j =>
          obtain ⟨hj, hfiles⟩ := hok j hrest
          refine ⟨fun n hn => ⟨?_, hfiles⟩, fun e he => ?_⟩
          · rw [hj]
            exact hn
          · cases he

theorem modifyFiles_keys (C : Config) (entries : List (String × ImageFile)) :
    (modifyFiles C entries).1.map (·.1.1) = entries.map (·.1) := by
  have h := modifyFiles_carried follows_carries C entries
  generalize (modifyFiles C entries).1 = marked at h ⊢
  induction h with
  | nil => rfl
  | cons h _ ih => rw [List.map_cons, List.map_cons, h.path, ih]

/-- A pass that succeeds has swept the marked files, in whatever order that is done. -/
theorem sweepInTurn_of_modify {r : Report} (hd : (I.entries.map (·.1)).Nodup)
    (ho : ∀ path ∈ I.entries.map (·.1), path ∈ order) (h : (modify I C).2 = .ok r) :
    (sweepInTurn order (modifyFiles C I.entries).1).2 = .ok r.removedLocations ∧
      (sweepInTurn order (modifyFiles C I.entries).1).1.map (·.1) = (modify I C).1.entries := by
  rw [modify] at h ⊢
  cases hC : C.validate with
  | error e =>
    rw [hC] at h
    cases h
  | ok u =>
    rw [hC] at h
    dsimp only at h ⊢
    have hkeys := modifyFiles_keys C I.entries
    have hsweep := sweepInTurn_eq (hkeys ▸ hd) fun m hm _ =>
      ho m.1.1 (hkeys ▸ List.mem_map_of_mem hm)
    cases hrun : (modifyFiles C I.entries).2 with
    | error e =>
      rw [hrun] at h
      cases h
    | ok u =>
      rw [hrun] at h
      dsimp only at h ⊢
      cases hn : total (((modifyFiles C I.entries).1.map sweepFile).map (·.2)) with
      | error e =>
        rw [hn] at h
        cases h
      | ok n =>
        rw [hn] at h
        obtain rfl := Except.ok.inj h
        exact hsweep.1 n hn

end Order

section Runs
open Bundled

/-- The bytes of a file that declares descriptors without source locations, and of a file with an
option and the source location of that. -/
def stale : Bytes :=
  let descriptor : MessageDecl :=
    { name := "FileDescriptorProto"
      fields := [one "name" 1 text, one "options" 8 (message "FileOptions")] }
  let options : MessageDecl := { name := "FileOptions", fields := [one "go_package" 11 text] }
  Storage.encodeFiles
    [FileDecl.toMessage
      { name := "google/protobuf/descriptor.proto", package := some "google.protobuf"
        messages := [descriptor, options] } |>.encode,
      FileDecl.toMessage
        { name := "a.proto", options := some ((Draft.of "FileOptions").text 11 "old").slots
          locations := some [⟨[8, 11], [3, 0, 4], none, none, []⟩] } |>.encode]

/-- The text of the option for the import path, and the paths of the source locations. -/
def goPackageOf (f : ImageFile) : Option String :=
  match f.descriptor.fileOption? FileOption.goPackage.name with
  | some (.scalar (.string s)) => some s
  | _ => none

def locationPaths (f : ImageFile) : Option (List (List Int32)) :=
  f.descriptor.decl.locations.map fun ls => ls.map (·.path)

/-- The options and locations of the second file before and after a pass that succeeds. -/
def sweptAround (I : Image) : Option (List (Option String × Option (List (List Int32)))) := do
  let f ← I.files[1]?
  let g ← (modify I onlyGo).1.files[1]?
  if (modify I onlyGo).2.toOption.isSome then
    some [(goPackageOf f, locationPaths f), (goPackageOf g, locationPaths g)]
  else none

theorem sweptAround_stale : (Image.decode stale {}).toOption.bind sweptAround =
    some [(some "old", some [[8, 11]]), (some "gen", some [[8, 11]])] := by
  decide +kernel

/-- The location of an option that is another one than before is dropped. -/
theorem Swept.not_mem (h : Swept f g) {path : List Int32} (hp : Rewrote f g path)
    {paths : List (List Int32)} (hpaths : locationPaths g = some paths) : path ∉ paths := by
  obtain ⟨marks, hmarks, hlocations⟩ := h
  rw [locationPaths, hlocations] at hpaths
  obtain ⟨kept, hkept, rfl⟩ := Option.map_eq_some_iff.mp hpaths
  obtain ⟨ls, -, rfl⟩ := Option.map_eq_some_iff.mp hkept
  intro hmem
  obtain ⟨l, hl, rfl⟩ := List.mem_map.mp hmem
  have := (List.mem_filter.mp hl).2
  simp [(hmarks l.path).mpr hp] at this

/-- Where the schema declares no source locations, that of an option rewritten stays. -/
theorem not_swept_stale : ∃ I J, Image.decode stale {} = .ok I ∧ Turns onlyGo I J ∧
    ¬ List.Forall₂ (fun e e' => e'.1 = e.1 ∧ Swept e.2 e'.2) I.entries J.entries := by
  obtain ⟨I, hI, h⟩ := exists_of_toOption_bind sweptAround_stale
  obtain ⟨f, hf, h⟩ := Option.bind_eq_some_iff.mp h
  obtain ⟨g, hg, h⟩ := Option.bind_eq_some_iff.mp h
  obtain ⟨hok, h⟩ := Option.ite_none_right_eq_some.mp h
  simp only [Option.some.injEq, List.cons.injEq, Prod.mk.injEq, and_true] at h
  obtain ⟨⟨hold, -⟩, hnew, hpaths⟩ := h
  refine ⟨I, _, hI, turns_of_isOk hok, fun hall => ?_⟩
  have hrewrote : Rewrote f g [8, 11] := by
    refine Or.inl ⟨.goPackage, rfl, fun he => ?_⟩
    rw [goPackageOf, he] at hnew
    rw [goPackageOf, hnew] at hold
    exact absurd hold (by decide)
  have hfiles : List.Forall₂ Swept I.files (modify I onlyGo).1.files := by
    rw [Image.files, Image.files, List.forall₂_map_left_iff, List.forall₂_map_right_iff]
    exact hall.imp fun _ _ he => he.2
  obtain ⟨hi, rfl⟩ := List.getElem?_eq_some_iff.mp hf
  obtain ⟨hj, rfl⟩ := List.getElem?_eq_some_iff.mp hg
  exact (hfiles.get hi hj).not_mem hrewrote hpaths (by simp)

end Runs

end DescriptorKit.Managed
