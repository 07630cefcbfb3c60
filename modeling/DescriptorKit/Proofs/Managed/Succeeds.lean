import DescriptorKit.Proofs.Descriptor.Settable
import DescriptorKit.Proofs.Managed.Frame
import DescriptorKit.Proofs.Managed.WellTyped

/-!
Passes that succeed. Where options can be set in all files, nothing stops a pass but an override
with a value of another kind than its option's, as long as what is written is not too long to be
read.
-/
namespace DescriptorKit
open Wire Bundled Message Descriptor

/-- A descriptor in which options can be set. The paths of its fields do not lead so deep that a
reader would refuse options there. -/
structure Descriptor.Ready (d : Descriptor) : Prop where
  mirrored : d.Mirrored
  settable : d.schema.Settable
  addressable : d.decl.Addressable
  shallow : ∀ v ∈ d.decl.views, v.path.length / 2 < maxDepth

namespace Managed
open Modifying

variable {C : Config} {I : Image} {f : ImageFile} {d : Descriptor} {o : FileOption} {s : Scalar}
  {t : JsType} {n : Nat} {e : Error} {path : List Int32} {paths : List (List Int32)} {p : Progress}
  {x y : Modifying Unit} {entries : List (String × ImageFile)}

section Changes

/-- A descriptor in which options can be set, with fields under some paths. -/
structure ReadyAt (paths : List (List Int32)) (d : Descriptor) : Prop where
  ready : d.Ready
  paths : d.decl.views.map (·.path) = paths

theorem ReadyAt.setFileOption (h : ReadyAt paths d) (ho : o.fieldNumber? = some n)
    (hok : (d.setFileOption o.name s).2 = .ok ()) : ReadyAt paths (d.setFileOption o.name s).1 := by
  have htouched := (setFileOption_touched h.ready.mirrored ho hok).touched
  have hviews := htouched.views (by decide)
  refine ⟨⟨htouched.mirrored, htouched.schema ▸ h.ready.settable,
    htouched.addressable (by decide) h.ready.addressable, ?_⟩, ?_⟩
  · rw [hviews]
    exact h.ready.shallow
  · rw [hviews]
    exact h.paths

theorem ReadyAt.setJsType (h : ReadyAt paths d) (hp : path ∈ paths)
    (hok : (d.setJsType path t.code).2 = .ok ()) : ReadyAt paths (d.setJsType path t.code).1 := by
  rw [← h.paths] at hp
  obtain ⟨v, hv, rfl⟩ := List.mem_map.mp hp
  have hleads := h.ready.addressable.leads hv
  obtain ⟨htouched, hdecl⟩ := setJsType_touched h.ready.mirrored hleads hok
  have hviews := hdecl.views h.ready.addressable
  have hpath : ∀ w : SiteView, (w.retype v.path t).path = w.path := fun w => by
    rw [SiteView.retype_eq]
  refine ⟨⟨htouched.mirrored, htouched.schema ▸ h.ready.settable,
    hdecl.addressable h.ready.addressable, ?_⟩, ?_⟩
  · rw [hviews, List.forall_mem_map]
    exact fun w hw => hpath w ▸ h.ready.shallow w hw
  · rw [hviews, List.map_map, ← h.paths]
    exact List.map_congr_left fun w _ => hpath w

theorem ReadyAt.setJsType_ok (h : ReadyAt paths d) (hp : path ∈ paths)
    (hlen : (d.setJsType path t.code).1.encode.length < 2 ^ 64) :
    (d.setJsType path t.code).2 = .ok () := by
  rw [← h.paths] at hp
  obtain ⟨v, hv, rfl⟩ := List.mem_map.mp hp
  exact Descriptor.setJsType_ok h.ready.mirrored h.ready.settable (h.ready.addressable.declares hv)
    (h.ready.shallow v hv) hlen

end Changes

section Steps

/-- How a step may end: unless it failed and left more than can be read, options can still be set in
the file, and if it failed, an override stopped it. -/
structure Safe (C : Config) (paths : List (List Int32)) (outcome : Except Error Unit × Progress) :
    Prop where
  ready : outcome.1 = .ok () ∨ outcome.2.file.descriptor.encode.length < 2 ^ 64 →
    ReadyAt paths outcome.2.file.descriptor
  misled : outcome.2.file.descriptor.encode.length < 2 ^ 64 →
    ∀ e, outcome.1 = .error e → Misled C e

/-- A step that ends so for every file in which options can be set. -/
def SafeStep (C : Config) (paths : List (List Int32)) (x : Modifying Unit) : Prop :=
  ∀ p, ReadyAt paths p.file.descriptor → Safe C paths (runOn x p)

theorem safe_ok (hp : ReadyAt paths p.file.descriptor) : Safe C paths (.ok (), p) where
  ready _ := hp
  misled _ _ h := by cases h

theorem safe_misled (hp : ReadyAt paths p.file.descriptor) (he : Misled C e) :
    Safe C paths (.error e, p) where
  ready _ := hp
  misled _ _ h := by
    cases h
    exact he

theorem safeStep_bind (hx : SafeStep C paths x) (hy : SafeStep C paths y) :
    SafeStep C paths (x >>= fun _ => y) := by
  intro p hp
  have hsafe := hx p hp
  rw [runOn_bind]
  generalize runOn x p = outcome at hsafe ⊢
  obtain ⟨r, q⟩ := outcome
  cases r with
  | ok u => exact hy q (hsafe.ready (Or.inl rfl))
  | error e => exact hsafe

theorem safeStep_forM {α : Type} {l : List α} {step : α → Modifying Unit}
    (h : ∀ a ∈ l, SafeStep C paths (step a)) : SafeStep C paths (l.forM step) := by
  induction l with
  | nil => exact fun _ hp => safe_ok hp
  | cons a l ih =>
    exact safeStep_bind (h a (by simp)) (ih fun b hb => h b (List.mem_cons_of_mem _ hb))

/-- A change that succeeds unless it leaves more than can be read, and is noted then. -/
theorem safe_change {f : Descriptor → Descriptor × Except Error Unit} (path : List Int32)
    (hok : (f p.file.descriptor).1.encode.length < 2 ^ 64 → (f p.file.descriptor).2 = .ok ())
    (hready : (f p.file.descriptor).2 = .ok () → ReadyAt paths (f p.file.descriptor).1) :
    Safe C paths (runOn (change f >>= fun _ => mark path) p) := by
  rw [runOn_bind, runOn_change]
  cases hr : (f p.file.descriptor).2 with
  | ok u => exact safe_ok (hready hr)
  | error e =>
    rw [hr] at hok
    refine ⟨?_, fun hlen => by cases hok hlen⟩
    rintro (h | hlen)
    · cases h
    · cases hok hlen

theorem modifyOption_safe {s : FileOption × (ImageFile → Except Error (Option Scalar))}
    (hs : s ∈ optionSteps C) : SafeStep C paths (modifyOption s.1 s.2) := by
  intro p hp
  obtain ⟨n, hn⟩ := exists_fieldNumber hs
  rw [modifyOption, runOn_bind, runOn_file]
  dsimp only
  rcases value_cases (f := p.file) hs with ⟨value, hv, hfits⟩ | ⟨e, he, hmisled⟩
  · rw [hv]
    cases value with
    | none => exact safe_ok hp
    | some v =>
      have hset : ∀ path, Safe C paths
          (runOn (change (fun d => d.setFileOption s.1.name v) >>= fun _ => mark path) p) :=
        fun path => safe_change path
          (setFileOption_ok hp.ready.mirrored hp.ready.settable hn (hfits v rfl))
          (hp.setFileOption hn)
      dsimp only
      rw [setIfChanged, FileOption.sourcePath?_eq hn]
      dsimp only
      rw [runOn_bind, runOn_file]
      dsimp only
      split
      · split
        · exact safe_ok hp
        · exact hset _
      · exact hset _
  · rw [he]
    exact safe_misled hp hmisled

theorem setJsTypes_safe {l : List (List Int32 × JsType)} (hl : ∀ c ∈ l, c.1 ∈ paths) :
    SafeStep C paths (setJsTypes l) :=
  safeStep_forM fun c hc _ hp => safe_change _ (hp.setJsType_ok (hl c hc)) (hp.setJsType (hl c hc))

theorem modifyJsTypes_safe : SafeStep C paths (modifyJsTypes C) := by
  intro p hp
  rw [runOn_modifyJsTypes]
  cases hc : jsTypeChanges C p.file (jsTypeRules C p.file) (fieldSites p.file.descriptor.decl) with
  | error e =>
    refine safe_misled hp (jsTypeChanges_misled (fun r hr => ?_) hc)
    exact List.mem_of_mem_filter (List.mem_of_mem_filter hr)
  | ok l =>
    refine setJsTypes_safe (fun c hmem => ?_) p hp
    rw [← hp.paths, FileDecl.views, List.map_map]
    exact (jsTypeChanges_sublist hc).subset (List.mem_map_of_mem hmem)

/-- Setting all options of a file, one step after the other. -/
theorem modifyFile_safe : SafeStep C paths (modifyFile C) := by
  rw [modifyFile_eq]
  exact safeStep_bind (safeStep_forM fun s hs => modifyOption_safe hs) modifyJsTypes_safe

end Steps

section Passes

/-- What a pass leaves of every file, before source locations are dropped, can be read by its
length. -/
def Brief (C : Config) (entries : List (String × ImageFile)) : Prop :=
  ∀ m ∈ (modifyFiles C entries).1, m.1.2.descriptor.encode.length < 2 ^ 64

theorem brief_cons {path : String} (hk : f.isWellKnown = false)
    (h : Brief C ((path, f) :: entries)) :
    (runOn (modifyFile C) { file := f }).2.file.descriptor.encode.length < 2 ^ 64 ∧
      ((runOn (modifyFile C) { file := f }).1 = .ok () → Brief C entries) := by
  have hrun : (modifyFile C).run.run { file := f } = runOn (modifyFile C) { file := f } := rfl
  rw [Brief, modifyFiles, if_neg (by simp [hk]), hrun] at h
  generalize runOn (modifyFile C) { file := f } = outcome at h ⊢
  obtain ⟨r, p⟩ := outcome
  cases r with
  | error e => exact ⟨h _ List.mem_cons_self, fun he => by cases he⟩
  | ok u => exact ⟨h _ List.mem_cons_self, fun _ m hm => h m (List.mem_cons_of_mem _ hm)⟩

/-- Where options can be set in every file, they still can be after the options were set, and if
that was not done in full, an override stopped it. -/
theorem modifyFiles_safe (h : ∀ e ∈ entries, e.2.descriptor.Ready) (hb : Brief C entries) :
    (∀ m ∈ (modifyFiles C entries).1, m.1.2.descriptor.Ready) ∧
      ∀ e, (modifyFiles C entries).2 = .error e → Misled C e := by
  induction entries with
  | nil => exact ⟨by simp [modifyFiles], fun e he => by cases he⟩
  | cons entry rest ih =>
    obtain ⟨path, f⟩ := entry
    obtain ⟨hf, hrest⟩ := List.forall_mem_cons.mp h
    rw [modifyFiles]
    by_cases hk : f.isWellKnown = true
    · have hb' : Brief C rest := by
        rw [Brief, modifyFiles, if_pos hk] at hb
        exact fun m hm => hb m (List.mem_cons_of_mem _ hm)
      obtain ⟨hready, hmisled⟩ := ih hrest hb'
      rw [if_pos hk]
      exact ⟨List.forall_mem_cons.mpr ⟨hf, hready⟩, hmisled⟩
    · obtain ⟨hshort, hb'⟩ := brief_cons (Bool.eq_false_iff.mpr hk) hb
      have hrun : (modifyFile C).run.run { file := f } = runOn (modifyFile C) { file := f } := rfl
      have hsafe := modifyFile_safe (C := C) { file := f } ⟨hf, rfl⟩
      rw [if_neg hk, hrun]
      generalize runOn (modifyFile C) { file := f } = outcome at hshort hb' hsafe ⊢
      obtain ⟨r, p⟩ := outcome
      have hp := (hsafe.ready (Or.inr hshort)).ready
      cases r with
      | error e =>
        refine ⟨List.forall_mem_cons.mpr ⟨hp, ?_⟩, hsafe.misled hshort⟩
        rw [List.forall_mem_map]
        exact hrest
      | ok u =>
        obtain ⟨hready, hmisled⟩ := ih hrest (hb' rfl)
        exact ⟨List.forall_mem_cons.mpr ⟨hp, hready⟩, hmisled⟩

theorem sweepFile_ready {m : Marked} (h : m.1.2.descriptor.Ready) :
    (sweepFile m).1.2.descriptor.Ready := by
  obtain ⟨⟨path, f⟩, marks⟩ := m
  rw [sweepFile]
  split
  · exact h
  · obtain ⟨n, -, hsweeps, -⟩ := removeLocations_sweeps h.mirrored marks
    have htouched := hsweeps.touched
    refine ⟨htouched.mirrored, htouched.schema ▸ h.settable,
      htouched.addressable (by decide) h.addressable, fun v hv => h.shallow v ?_⟩
    exact hsweeps.views ▸ hv

/-- A pass over files in which options can be set leaves such files, whether it succeeds or not. -/
theorem modify_ready (hI : ∀ f ∈ I.files, f.descriptor.Ready) (hb : Brief C I.entries) :
    ∀ f ∈ (modify I C).1.files, f.descriptor.Ready := by
  have hentries : ∀ e ∈ I.entries, e.2.descriptor.Ready := fun e he =>
    hI e.2 (List.mem_map_of_mem he)
  have hswept : ∀ f ∈ (⟨((modifyFiles C I.entries).1.map sweepFile).map (·.1)⟩ : Image).files,
      f.descriptor.Ready := by
    intro f hf
    obtain ⟨e, he, rfl⟩ := List.mem_map.mp hf
    obtain ⟨swept, hswept, rfl⟩ := List.mem_map.mp he
    obtain ⟨m, hm, rfl⟩ := List.mem_map.mp hswept
    exact sweepFile_ready ((modifyFiles_safe hentries hb).1 m hm)
  unfold modify
  split
  · exact hI
  · dsimp only
    split
    · exact hswept
    · split <;> exact hswept

/-- Only an override that gives no value of the kind of its option, or a selector that is not in
normal form, stops a pass over files in which options can be set. -/
theorem modify_error (hI : ∀ f ∈ I.files, f.descriptor.Ready) (hb : Brief C I.entries)
    (he : (modify I C).2 = .error e) : C.validate = .error e ∨ Misled C e := by
  have hentries : ∀ e ∈ I.entries, e.2.descriptor.Ready := fun e he =>
    hI e.2 (List.mem_map_of_mem he)
  have hmisled := (modifyFiles_safe hentries hb).2
  rw [modify] at he
  cases hC : C.validate with
  | error e' =>
    rw [hC] at he
    exact Or.inl (congrArg Except.error (Except.error.inj he))
  | ok u =>
    rw [hC] at he
    dsimp only at he
    obtain ⟨n, hn⟩ := exists_total (modifyFiles_passed
      (fun e he => ⟨(hentries e he).mirrored, (hentries e he).addressable⟩)
      fun e he => (hmisled e he).1)
    rw [hn] at he
    cases hr : (modifyFiles C I.entries).2 with
    | error e' =>
      rw [hr] at he
      exact Or.inr (Except.error.inj he ▸ hmisled e' hr)
    | ok u =>
      rw [hr] at he
      cases he

end Passes

end Managed
end DescriptorKit
