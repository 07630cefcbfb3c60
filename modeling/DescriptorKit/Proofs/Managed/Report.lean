import DescriptorKit.Proofs.Managed.Idempotent

/-!
The report of a pass over an image is true of the images before and after it. Every option that was
written is another one than before, and was written once; every location that is counted is gone;
and an override is unused if it names files of which none is there.
-/
namespace DescriptorKit.Managed
open Descriptor Modifying

variable {C : Config} {I J : Image} {f g k : ImageFile} {p : Progress} {r : Report}
  {entries : List (String × ImageFile)} {marked : List Marked}

open Classical in
/-- The file options that have other values than before. One that is not set has its default. -/
noncomputable def changedOptions (f g : ImageFile) : List FileOption :=
  FileOption.all.filter fun o => o.sourcePath?.isSome ∧
    g.descriptor.fileOption? o.name ≠ f.descriptor.fileOption? o.name

/-- The fields whose integers are represented in another way than before. -/
def changedFields (f g : ImageFile) : List SiteView :=
  f.descriptor.decl.views.filter fun v =>
    ∃ w ∈ g.descriptor.decl.views, w.path = v.path ∧ w.jsType ≠ v.jsType

/-- How many options are other ones than before, those of the file and those of its fields. -/
noncomputable def changeCount (f g : ImageFile) : Nat :=
  (changedOptions f g).length + (changedFields f g).length

/-- A selector that names a path or a module, and chooses none of the files. -/
structure Idle (files : List ImageFile) (s : Selector) : Prop where
  limited : s.path.isSome ∨ s.module.isSome
  chooses : ∀ f ∈ files, s.chooses f = false

theorem idle_iff {files : List ImageFile} {s : Selector} : Idle files s ↔
    (s.path.isSome ∨ s.module.isSome) ∧ ∀ f ∈ files, s.chooses f = false :=
  ⟨fun ⟨hs, hc⟩ => ⟨hs, hc⟩, fun ⟨hs, hc⟩ => ⟨hs, hc⟩⟩

instance {files : List ImageFile} {s : Selector} : Decidable (Idle files s) :=
  decidable_of_iff _ idle_iff.symm

/-- What a report says of the images before and after a pass. -/
structure Truthful (C : Config) (I J : Image) (r : Report) : Prop where
  paths : J.paths = I.paths
  modified : r.modifiedOptions = ((I.files.zip J.files).map fun p => changeCount p.1 p.2).sum
  removed : (J.files.map fun f => f.descriptor.decl.locationCount).sum + r.removedLocations =
    (I.files.map fun f => f.descriptor.decl.locationCount).sum
  unused : r.unusedOverrides =
    (C.fileRules.filter fun rule => Idle I.files rule.selector).map
        (fun rule => rule.option.name ++ " " ++ rule.selector.text) ++
      (C.fieldRules.filter fun rule => Idle I.files rule.selector).map
        fun rule => rule.option.name ++ " " ++ rule.selector.text

section Marks

theorem mem_changedOptions {o : FileOption} : o ∈ changedOptions f g ↔
    o.sourcePath?.isSome ∧ g.descriptor.fileOption? o.name ≠ f.descriptor.fileOption? o.name := by
  simp [changedOptions, FileOption.mem_all]

theorem mem_changedFields {v : SiteView} : v ∈ changedFields f g ↔ v ∈ f.descriptor.decl.views ∧
    ∃ w ∈ g.descriptor.decl.views, w.path = v.path ∧ w.jsType ≠ v.jsType := by
  simp [changedFields]

theorem changeCount_congr (ho : ∀ name,
      k.descriptor.fileOption? name = g.descriptor.fileOption? name)
    (hv : k.descriptor.decl.views = g.descriptor.decl.views) :
    changeCount f k = changeCount f g := by
  have hoptions : changedOptions f k = changedOptions f g :=
    List.filter_congr fun o _ => decide_eq_decide.mpr (by rw [ho])
  rw [changeCount, changeCount, hoptions, changedFields, changedFields, hv]

/-- The source paths of the options that are other ones than before. -/
noncomputable def changedPaths (f g : ImageFile) : List (List Int32) :=
  (changedOptions f g).map (fun o => o.sourcePath?.getD []) ++
    (changedFields f g).map (·.path ++ [8, 6])

theorem mem_changedPaths {path : List Int32} : path ∈ changedPaths f g ↔ Rewrote f g path := by
  rw [changedPaths, List.mem_append, List.mem_map, List.mem_map, Rewrote]
  refine or_congr ⟨?_, ?_⟩ ⟨?_, ?_⟩
  · rintro ⟨o, ho, rfl⟩
    obtain ⟨hpath, hne⟩ := mem_changedOptions.mp ho
    obtain ⟨path, hpath⟩ := Option.isSome_iff_exists.mp hpath
    exact ⟨o, by rw [hpath, Option.getD_some], hne⟩
  · rintro ⟨o, ho, hne⟩
    exact ⟨o, mem_changedOptions.mpr ⟨by rw [ho, Option.isSome_some], hne⟩,
      by rw [ho, Option.getD_some]⟩
  · rintro ⟨v, hv, rfl⟩
    obtain ⟨hv, w, hw, hp, hne⟩ := mem_changedFields.mp hv
    exact ⟨v, hv, w, hw, hp, hne, rfl⟩
  · rintro ⟨v, hv, w, hw, hp, hne, rfl⟩
    exact ⟨v, mem_changedFields.mpr ⟨hv, w, hw, hp, hne⟩, rfl⟩

theorem nodup_changedPaths (ha : f.descriptor.decl.Addressable) : (changedPaths f g).Nodup := by
  have hviews : (f.descriptor.decl.views.map (·.path)).Nodup := by
    rw [FileDecl.views, List.map_map]
    exact FileDecl.nodup_fieldSites ha
  have hfields : ((changedFields f g).map (·.path ++ [8, 6])).Nodup :=
    nodup_map_append ((List.filter_sublist.map _).nodup hviews) _
  have hoptions : ((changedOptions f g).map fun o => o.sourcePath?.getD []).Nodup := by
    refine List.Nodup.map_on (fun o ho o' ho' he => ?_) (List.Nodup.filter _ (by decide))
    obtain ⟨path, hpath⟩ := Option.isSome_iff_exists.mp (mem_changedOptions.mp ho).1
    obtain ⟨path', hpath'⟩ := Option.isSome_iff_exists.mp (mem_changedOptions.mp ho').1
    rw [hpath, hpath', Option.getD_some, Option.getD_some] at he
    exact FileOption.sourcePath?_inj hpath (he ▸ hpath')
  refine hoptions.append hfields fun path hp hp' => ?_
  obtain ⟨o, ho, rfl⟩ := List.mem_map.mp hp
  obtain ⟨v, hv, he⟩ := List.mem_map.mp hp'
  obtain ⟨path, hpath⟩ := Option.isSome_iff_exists.mp (mem_changedOptions.mp ho).1
  rw [hpath, Option.getD_some] at he
  exact not_sourcePath (ha.leads (mem_changedFields.mp hv).1) o (he ▸ hpath)

/-- The paths noted are as many as there are options that are other ones than before. -/
theorem Wrote.length_marks (h : Wrote C f p) (ha : f.descriptor.decl.Addressable) :
    p.marks.length = changeCount f p.file := by
  have hperm : p.marks.Perm (changedPaths f p.file) :=
    (List.perm_ext_iff_of_nodup h.distinct (nodup_changedPaths ha)).mpr fun path =>
      (h.marks path).trans mem_changedPaths.symm
  rw [hperm.length_eq, changedPaths, List.length_append, List.length_map, List.length_map]
  rfl

end Marks

section Files

/-- What a pass counts in a file is what has become of the file. -/
structure Tallied (e : String × ImageFile) (m : Marked) : Prop where
  marks : m.2.length = changeCount e.2 (sweepFile m).1.2
  exists_count : ∃ n, (sweepFile m).2 = .ok n ∧
    (sweepFile m).1.2.descriptor.decl.locationCount + n = e.2.descriptor.decl.locationCount

/-- Dropping locations leaves the options, and counts what it drops. -/
theorem sweepFile_counts {m : Marked} (h : m.1.2.descriptor.Mirrored) :
    changeCount f (sweepFile m).1.2 = changeCount f m.1.2 ∧
      ∃ n, (sweepFile m).2 = .ok n ∧ (sweepFile m).1.2.descriptor.decl.locationCount + n =
        m.1.2.descriptor.decl.locationCount := by
  have hsweeps := sweepFile_sweeps h
  refine ⟨changeCount_congr (hsweeps.fileOption? h) hsweeps.views, ?_⟩
  obtain ⟨⟨path, f⟩, marks⟩ := m
  rw [sweepFile]
  split
  · exact ⟨0, rfl, rfl⟩
  · obtain ⟨n, hn, -, hcount⟩ := removeLocations_sweeps h marks
    exact ⟨n, hn, hcount⟩

theorem Wrote.tallied (h : Wrote C f p) (ha : f.descriptor.decl.Addressable) (path : String) :
    Tallied (path, f) ((path, p.file), p.marks) := by
  obtain ⟨hchanges, n, hn, hcount⟩ :=
    sweepFile_counts (f := f) (m := ((path, p.file), p.marks)) h.touched.mirrored
  refine ⟨(h.length_marks ha).trans hchanges.symm, n, hn, hcount.trans ?_⟩
  rw [FileDecl.locationCount, FileDecl.locationCount, h.touched.locations (by decide)]

theorem Tallied.refl {e : String × ImageFile} (ha : e.2.descriptor.decl.Addressable) :
    Tallied e (e, []) := by
  refine ⟨?_, 0, rfl, rfl⟩
  have hnone : changedPaths e.2 e.2 = [] := List.eq_nil_iff_forall_not_mem.mpr fun path hp => by
    rcases mem_changedPaths.mp hp with ⟨o, -, hne⟩ | hviews
    · exact hne rfl
    · exact not_rewrote_views path ha rfl hviews
  obtain ⟨hoptions, hfields⟩ := List.append_eq_nil_iff.mp hnone
  change 0 = changeCount e.2 e.2
  rw [changeCount, List.map_eq_nil_iff.mp hoptions, List.map_eq_nil_iff.mp hfields]
  rfl

theorem modifyFiles_tallied
    (h : ∀ e ∈ entries, e.2.descriptor.Mirrored ∧ e.2.descriptor.decl.Addressable)
    (hm : Meant (modifyFiles C entries).2) :
    List.Forall₂ Tallied entries (modifyFiles C entries).1 := by
  refine modifyFiles_forall₂ hm (fun e he => .refl (h e he).2) fun e he _ hrun => ?_
  obtain ⟨hf, ha⟩ := h e he
  exact (modifyFile_wrote hf ha hrun).1.tallied ha e.1

/-- The entries that a pass leaves. -/
def swept (marked : List Marked) : List (String × ImageFile) := (marked.map sweepFile).map (·.1)

theorem length_marks_of_tallied (h : List.Forall₂ Tallied entries marked) :
    (marked.flatMap (·.2)).length =
      (((entries.map (·.2)).zip ((swept marked).map (·.2))).map fun p =>
        changeCount p.1 p.2).sum := by
  induction h with
  | nil => rfl
  | cons hfirst _ ih =>
    rw [List.flatMap_cons, List.length_append, ih, hfirst.marks]
    rfl

theorem count_of_tallied (h : List.Forall₂ Tallied entries marked) {n : Nat}
    (hn : total ((marked.map sweepFile).map (·.2)) = .ok n) :
    (((swept marked).map (·.2)).map fun f => f.descriptor.decl.locationCount).sum + n =
      ((entries.map (·.2)).map fun f => f.descriptor.decl.locationCount).sum := by
  induction h generalizing n with
  | nil =>
    obtain rfl := Except.ok.inj hn
    rfl
  | @cons e m rest marked hfirst _ ih =>
    obtain ⟨j, hj, hcount⟩ := hfirst.exists_count
    rw [List.map_cons, List.map_cons, total, hj] at hn
    obtain ⟨i, hi, hn⟩ := bind_eq_ok_iff.mp hn
    obtain rfl := Except.ok.inj hi
    obtain ⟨k, hk, hn⟩ := bind_eq_ok_iff.mp hn
    obtain rfl := Except.ok.inj hn
    have hrest := ih hk
    simp only [swept, List.map_cons, List.sum_cons] at hrest ⊢
    omega

end Files

theorem unusedRules_eq (C : Config) (files : List ImageFile) : C.unusedRules files =
    (C.fileRules.filter fun rule => Idle files rule.selector).map
        (fun rule => rule.option.name ++ " " ++ rule.selector.text) ++
      (C.fieldRules.filter fun rule => Idle files rule.selector).map
        fun rule => rule.option.name ++ " " ++ rule.selector.text := by
  have hidle : ∀ s : Selector, (!s.isGlobal && !files.any s.chooses) = decide (Idle files s) := by
    intro s
    rw [Bool.eq_iff_iff, Bool.and_eq_true, decide_eq_true_eq, idle_iff, Selector.isGlobal]
    simp [Option.isSome_iff_ne_none]
  simp only [Config.unusedRules, hidle]

/-- What a pass that succeeds has made, and what it reports. -/
theorem eq_of_modify (h : modify I C = (J, .ok r)) :
    (modifyFiles C I.entries).2 = .ok () ∧
      J = ⟨swept (modifyFiles C I.entries).1⟩ ∧
      total (((modifyFiles C I.entries).1.map sweepFile).map (·.2)) = .ok r.removedLocations ∧
      r.modifiedOptions = ((modifyFiles C I.entries).1.flatMap (·.2)).length ∧
      r.unusedOverrides = C.unusedRules I.files := by
  rw [modify] at h
  split at h
  · cases (Prod.mk.inj h).2
  · dsimp only at h
    split at h
    · cases (Prod.mk.inj h).2
    · next hok =>
      split at h
      · cases (Prod.mk.inj h).2
      · next n hn =>
        obtain ⟨hJ, hr⟩ := Prod.mk.inj h
        obtain rfl := Except.ok.inj hr
        exact ⟨hok, hJ.symm, hn, rfl, rfl⟩

/-- A report tells how many options are other ones than before the pass, how many locations are
gone, and which overrides name no file. -/
theorem modify_truthful (hI : I.Mirrored) (h : modify I C = (J, .ok r)) : Truthful C I J r := by
  have hentries : ∀ e ∈ I.entries, e.2.descriptor.Mirrored ∧ e.2.descriptor.decl.Addressable :=
    fun e he => hI e.2 (List.mem_map_of_mem he)
  obtain ⟨hok, rfl, hremoved, hmodified, hunused⟩ := eq_of_modify h
  have hall : List.Forall₂ Tallied I.entries (modifyFiles C I.entries).1 :=
    modifyFiles_tallied hentries (by rw [hok]; exact meant_ok _)
  exact ⟨(turns_iff_related.mp ⟨r, h⟩).2.paths_eq, hmodified.trans (length_marks_of_tallied hall),
    count_of_tallied hall hremoved, hunused.trans (unusedRules_eq C I.files)⟩

section Runs

/-- Sets the option for the import path of all files, and that of files below a directory. -/
def partlyIdle : Config := onlyGo.overrideForFile .goPackage "elsewhere" (.string "other")

theorem report_located : (Image.decode located { reparse := false }).toOption.bind
      (fun I => (modify I partlyIdle).2.toOption) =
    some ⟨1, 1, ["go_package for elsewhere"]⟩ := by
  decide +kernel

theorem modify_truthful_located : ∃ I J, Image.decode located { reparse := false } = .ok I ∧
    I.Mirrored ∧ modify I partlyIdle = (J, .ok ⟨1, 1, ["go_package for elsewhere"]⟩) ∧
      Truthful partlyIdle I J ⟨1, 1, ["go_package for elsewhere"]⟩ := by
  obtain ⟨I, -, hI, -, hmirrored, -⟩ := exists_located
  have hr := report_located
  rw [hI] at hr
  have hrun : modify I partlyIdle = (_, .ok _) := Prod.ext rfl (ok_of_toOption hr)
  exact ⟨I, _, hI, hmirrored, hrun, modify_truthful hmirrored hrun⟩

/-- Two files that declare no file options, and whose fields are represented in the same way. -/
def isQuiet (p : ImageFile × ImageFile) : Bool :=
  FileOption.all.all (fun o => (p.1.descriptor.fileOption? o.name).isNone &&
    (p.2.descriptor.fileOption? o.name).isNone) && (changedFields p.1 p.2).isEmpty

theorem changeCount_of_isQuiet (h : isQuiet (f, g) = true) : changeCount f g = 0 := by
  obtain ⟨hnone, hfields⟩ := Bool.and_eq_true_iff.mp h
  have hoptions : changedOptions f g = [] := by
    refine List.filter_eq_nil_iff.mpr fun o ho => ?_
    obtain ⟨hf, hg⟩ := Bool.and_eq_true_iff.mp (List.all_eq_true.mp hnone o ho)
    rw [Option.isNone_iff_eq_none] at hf hg
    simp [hf, hg]
  rw [changeCount, hoptions, List.isEmpty_iff.mp hfields]
  rfl

/-- What a pass that succeeds reports to have modified, and whether the files are as before. -/
def reportedQuiet (I : Image) : Option (Nat × Bool) :=
  (modify I onlyStrings).2.toOption.map fun r =>
    (r.modifiedOptions, (I.files.zip (modify I onlyStrings).1.files).all isQuiet)

theorem reportedQuiet_moved :
    (Image.decode moved {}).toOption.bind reportedQuiet = some (1, true) := by
  decide +kernel

/-- Where the schema has another number for the option, one is reported that is the same as
before. -/
theorem not_truthful_moved : ∃ I J r, Image.decode moved {} = .ok I ∧
    modify I onlyStrings = (J, .ok r) ∧ ¬ Truthful onlyStrings I J r := by
  obtain ⟨I, hI, h⟩ := Option.bind_eq_some_iff.mp reportedQuiet_moved
  obtain ⟨r, hr, h⟩ := Option.map_eq_some_iff.mp h
  obtain ⟨hone, hquiet⟩ := Prod.mk.inj h
  refine ⟨I, _, r, ok_of_toOption hI, Prod.ext rfl (ok_of_toOption hr), fun htrue => ?_⟩
  have hzero : ((I.files.zip (modify I onlyStrings).1.files).map fun p =>
      changeCount p.1 p.2).sum = 0 :=
    List.sum_eq_zero_iff_forall_eq_nat.mpr (List.forall_mem_map.mpr fun p hp =>
      changeCount_of_isQuiet (List.all_eq_true.mp hquiet p hp))
  have hmodified := htrue.modified
  rw [hone, hzero] at hmodified
  cases hmodified

end Runs

end DescriptorKit.Managed
