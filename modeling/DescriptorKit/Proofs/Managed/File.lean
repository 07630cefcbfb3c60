import DescriptorKit.Proofs.Managed.JsTypes

/-!
What a pass makes of one file. It rewrites options, notes their source paths, and then drops the
source locations of the paths noted; everything else in the file is left alone. Where the pass
succeeds, every option has the value that it is to have, and another pass finds nothing to do.
-/
namespace DescriptorKit
open Bundled Message Descriptor

namespace FileDecl

variable {x y : Message}

theorem views_congr (hp : y.only 2 = x.only 2) (hm : y.only 4 = x.only 4)
    (he : y.only 7 = x.only 7) : (ofMessage y).views = (ofMessage x).views := by
  have hscope : (ofMessage y).scope = (ofMessage x).scope := by
    simp only [scope, ofMessage, textAt?, scalarAt?, at?_congr hp]
  rw [views_eq, views_eq, messages_congr hm, extensions_congr he, hscope]

theorem addressable_congr (hm : y.only 4 = x.only 4) (he : y.only 7 = x.only 7)
    (h : (ofMessage x).Addressable) : (ofMessage y).Addressable where
  messages := messages_congr hm ▸ h.messages
  extensions := extensions_congr he ▸ h.extensions
  inner := messages_congr hm ▸ h.inner

end FileDecl

namespace Descriptor

variable {d e : Descriptor} {may : List Nat → Message → Message → Prop} {ns : List Nat}
  {paths : List (List Int32)}

theorem Touched.views (h : Touched may ns d e) (hns : 2 ∉ ns ∧ 4 ∉ ns ∧ 7 ∉ ns) :
    e.decl.views = d.decl.views :=
  FileDecl.views_congr (h.typed 2 hns.1) (h.typed 4 hns.2.1) (h.typed 7 hns.2.2)

theorem Touched.addressable (h : Touched may ns d e) (hns : 4 ∉ ns ∧ 7 ∉ ns)
    (ha : d.decl.Addressable) : e.decl.Addressable :=
  FileDecl.addressable_congr (h.typed 4 hns.1) (h.typed 7 hns.2) ha

theorem Touched.locations (h : Touched may ns d e) (hns : 9 ∉ ns) :
    e.decl.locations = d.decl.locations := by
  simp only [decl, FileDecl.ofMessage, messageAt?, at?_congr (h.typed 9 hns)]

theorem Touched.located (h : Touched may ns d e) (hl : d.Located) : e.Located := by
  rw [Located, h.schema, h.type]
  exact hl

/-- Nothing happens to the file options where nothing is touched below them. -/
theorem Touched.fileOption? (h : Touched may ns d e) (hd : d.Mirrored)
    (hno : ∀ q k k', [8] <+: q → ¬ may q k k') (name : String) :
    e.fileOption? name = d.fileOption? name :=
  fileOption?_congr hd h.schema h.type ((h.message 8).eq hno).symm name

theorem Sweeps.fileOption? (h : Sweeps paths d e) (hd : d.Mirrored) (name : String) :
    e.fileOption? name = d.fileOption? name :=
  h.touched.fileOption? hd (fun q k k' hq hdrop => by
    rw [hdrop.1, List.cons_prefix_cons] at hq
    exact absurd hq.1 (by decide)) name

theorem Sweeps.views (h : Sweeps paths d e) : e.decl.views = d.decl.views :=
  h.touched.views (by decide)

end Descriptor

namespace Managed
open Modifying

variable {C : Config} {f g k : ImageFile} {p : Progress}

/-- The option at a source path, of the file or of a field, is another one than before. -/
def Rewrote (f g : ImageFile) (path : List Int32) : Prop :=
  (∃ o : FileOption, o.sourcePath? = some path ∧
    g.descriptor.fileOption? o.name ≠ f.descriptor.fileOption? o.name) ∨
  ∃ v ∈ f.descriptor.decl.views, ∃ w ∈ g.descriptor.decl.views,
    w.path = v.path ∧ w.jsType ≠ v.jsType ∧ path = v.path ++ [8, 6]

theorem rewrote_congr (ho : ∀ name, k.descriptor.fileOption? name = g.descriptor.fileOption? name)
    (hv : k.descriptor.decl.views = g.descriptor.decl.views) (path : List Int32) :
    Rewrote f k path ↔ Rewrote f g path := by
  simp only [Rewrote, ho, hv]

/-- What came of a file when options were set in it, the paths of those rewritten being noted. -/
structure Wrote (C : Config) (f : ImageFile) (p : Progress) : Prop where
  unmarked : p.marks = [] → p.file = f
  file : p.file = { f with descriptor := p.file.descriptor }
  touched : Touched (Allowed C f) [4, 7, 8] f.descriptor p.file.descriptor
  marks : ∀ path, path ∈ p.marks ↔ Rewrote f p.file path
  distinct : p.marks.Nodup

/-- Of the fields nothing is rewritten where they are the same. -/
theorem not_rewrote_views (path : List Int32) (ha : f.descriptor.decl.Addressable)
    (hv : g.descriptor.decl.views = f.descriptor.decl.views) :
    ¬ ∃ v ∈ f.descriptor.decl.views, ∃ w ∈ g.descriptor.decl.views,
      w.path = v.path ∧ w.jsType ≠ v.jsType ∧ path = v.path ++ [8, 6] := by
  rintro ⟨v, hvm, w, hwm, hp, hne, -⟩
  rw [hv] at hwm
  exact hne (congrArg SiteView.jsType (FileDecl.view_unique ha hwm hvm hp))

theorem OptionsSet.wrote (h : OptionsSet C f p) (ha : f.descriptor.decl.Addressable) :
    Wrote C f p where
  unmarked := h.unmarked
  file := h.file
  touched := h.touched.mono (fun _ _ _ hq => hq) (by simp)
  marks path := by
    have hno := not_rewrote_views path ha (h.touched.views (by decide))
    rw [h.marks, Rewrote, or_iff_left hno]
  distinct := h.distinct

/-- All that is to be set under the path of a field is what the rules choose for the field. -/
theorem chosen_unique {l : List (List Int32 × JsType)} {rules : List FieldRule} {D : FileDecl}
    {v : SiteView} {t : JsType} (ha : D.Addressable)
    (hl : ∀ path t, (path, t) ∈ l ↔ ∃ v ∈ D.views, path = v.path ∧ Chosen C f rules v t)
    (hv : v ∈ D.views) (ht : applyJsType v.fullName none rules = .ok (some t)) :
    ∀ c ∈ l, c.1 = v.path → c.2 = t := by
  intro c hc he
  obtain ⟨u, hu, hp, ht'⟩ := (hl c.1 c.2).mp hc
  obtain rfl := FileDecl.view_unique ha hu hv (hp.symm.trans he)
  exact Option.some.inj (Except.ok.inj (ht'.value.symm.trans ht))

/-- The fields that were set are those that are not as they were. -/
theorem mem_marks_iff {l : List (List Int32 × JsType)} {rules : List FieldRule}
    {D E : FileDecl} (ha : D.Addressable) (hE : E.views = D.views.map (SiteView.retypes l))
    (hl : ∀ path t, (path, t) ∈ l ↔ ∃ v ∈ D.views, path = v.path ∧ Chosen C f rules v t)
    (path : List Int32) : path ∈ l.map (fun c => c.1 ++ [8, 6]) ↔
      ∃ v ∈ D.views, ∃ w ∈ E.views, w.path = v.path ∧ w.jsType ≠ v.jsType ∧
        path = v.path ++ [8, 6] := by
  constructor
  · intro h
    obtain ⟨⟨q, t⟩, hc, rfl⟩ := List.mem_map.mp h
    obtain ⟨v, hv, rfl, ht⟩ := (hl q t).mp hc
    refine ⟨v, hv, v.retypes l, hE ▸ List.mem_map_of_mem hv, v.retypes_path l, ?_, rfl⟩
    rw [SiteView.retypes_jsType hc (chosen_unique ha hl hv ht.value)]
    exact ht.new
  · rintro ⟨v, hv, w, hw, hp, hne, rfl⟩
    rw [hE] at hw
    obtain ⟨u, hu, rfl⟩ := List.mem_map.mp hw
    rw [SiteView.retypes_path] at hp
    obtain rfl := FileDecl.view_unique ha hu hv hp
    by_contra hno
    refine hne (congrArg SiteView.jsType (SiteView.retypes_of_ne fun c hc he => hno ?_))
    exact List.mem_map.mpr ⟨c, hc, by rw [he]⟩

/-- A field of a file is no file option. -/
theorem not_prefix_place {path : List Int32} (h : FileLeads path) :
    ¬ [8] <+: place (path ++ [8, 6]) := by
  intro hp
  cases h with
  | message i h => exact absurd (List.cons_prefix_cons.mp hp).1 (by decide)
  | extension i => exact absurd (List.cons_prefix_cons.mp hp).1 (by decide)

theorem not_sourcePath {path : List Int32} (h : FileLeads path) (o : FileOption) :
    o.sourcePath? ≠ some (path ++ [8, 6]) := by
  intro ho
  obtain ⟨n, -, he⟩ := Option.map_eq_some_iff.mp ho
  cases h with
  | message i h => exact absurd (List.cons_eq_cons.mp he).1 (by decide)
  | extension i => exact absurd (List.cons_eq_cons.mp he).1 (by decide)

/-- Setting the representation of integers after the options. -/
theorem OptionsSet.jsTypes (h : OptionsSet C f p) (ha : f.descriptor.decl.Addressable)
    (hm : Meant (runOn (modifyJsTypes C) p).1) :
    Wrote C f (runOn (modifyJsTypes C) p).2 ∧
      (∀ name, (runOn (modifyJsTypes C) p).2.file.descriptor.fileOption? name =
        p.file.descriptor.fileOption? name) ∧
      ((runOn (modifyJsTypes C) p).1 = .ok () →
        JsTypesSettled C f (runOn (modifyJsTypes C) p).2.file) := by
  have hviews : p.file.descriptor.decl.views = f.descriptor.decl.views :=
    h.touched.views (by decide)
  have hsteady := h.steady
  have hmirrored := h.touched.mirrored
  rcases modifyJsTypes_cases hmirrored (h.touched.addressable (by decide) ha) hm with
    ⟨e, hrun⟩ | ⟨l, d, hd, hdistinct, hl, hvalues, hrun⟩
  · rw [hrun]
    exact ⟨h.wrote ha, fun _ => rfl, fun he => by cases he⟩
  · rw [hrun]
    have hleads : ∀ c ∈ l, FileLeads c.1 := by
      intro c hc
      obtain ⟨v, hv, hp, -⟩ := (hl c.1 c.2).mp hc
      rw [hp]
      exact ha.leads (hviews ▸ hv)
    have hoptions : ∀ name, d.fileOption? name = p.file.descriptor.fileOption? name :=
      hd.touched.fileOption? hmirrored fun q k k' hq hmem => by
        obtain ⟨c, hc, rfl⟩ := hmem
        exact not_prefix_place (hleads c hc) hq
    have hchosen : ∀ path t, (path, t) ∈ l ↔ ∃ v ∈ f.descriptor.decl.views, path = v.path ∧
        Chosen C p.file (jsTypeRules C f) v t := by
      rw [← hviews, ← hsteady.jsTypeRules]
      exact hl
    have hafter : d.decl.views = f.descriptor.decl.views.map (SiteView.retypes l) := by
      rw [hd.views, hviews]
    refine ⟨⟨fun hno => ?_, ?_, ?_, fun path => ?_, ?_⟩, hoptions, fun _ w hw he => ?_⟩
    · obtain ⟨hmarks, hnil⟩ := List.append_eq_nil_iff.mp hno
      rw [List.map_eq_nil_iff] at hnil
      dsimp only
      rw [hd.unset hnil]
      exact h.unmarked hmarks
    · dsimp only
      rw [h.file]
    · refine (h.touched.mono (fun _ _ _ hq => hq) (by simp)).trans
        (hd.touched.mono (fun q k k' hq => ?_) (by simp))
      obtain ⟨c, hc, rfl⟩ := hq
      obtain ⟨v, hv, hp, ht⟩ := (hchosen c.1 c.2).mp hc
      obtain ⟨hw, he⟩ := hsteady.eligible.mp ht.eligible
      rw [hp]
      exact .jsType hv hw he
    · rw [List.mem_append, h.marks, mem_marks_iff ha hafter hchosen, Rewrote]
      simp only [hoptions]
    · refine h.distinct.append (nodup_map_append hdistinct _) fun path hp hp' => ?_
      obtain ⟨o, ho, -⟩ := (h.marks path).mp hp
      obtain ⟨c, hc, rfl⟩ := List.mem_map.mp hp'
      exact not_sourcePath (hleads c hc) o ho
    · obtain ⟨v, hv, rfl⟩ := List.mem_map.mp (hafter ▸ hw)
      rw [SiteView.retypes_eq] at he
      have heligible : Eligible C p.file v := hsteady.eligible.mpr ⟨he.wide, he.enabled⟩
      obtain ⟨r, hr⟩ := hvalues v (hviews.symm ▸ hv) heligible
      rw [hsteady.jsTypeRules] at hr
      refine ⟨r, ?_, fun t ht => ?_⟩
      · rw [SiteView.retypes_eq]
        exact hr
      · subst ht
        have hone := chosen_unique ha hchosen hv hr
        by_cases ht : t = v.jsType
        · exact SiteView.retypes_stays hone ht.symm
        · exact SiteView.retypes_jsType
            ((hchosen v.path t).mpr ⟨v, hv, rfl, heligible, hr, ht⟩) hone

/-- Every option of a file is as it is to be. -/
structure AllSettled (C : Config) (f g : ImageFile) : Prop where
  options : ∀ s ∈ optionSteps C, Settled f g s
  jsTypes : JsTypesSettled C f g

/-- What setting all options of a file does, and what it has come to if it succeeds. -/
theorem modifyFile_wrote (h : f.descriptor.Mirrored) (ha : f.descriptor.decl.Addressable)
    (hm : Meant (runOn (modifyFile C) { file := f }).1) :
    Wrote C f (runOn (modifyFile C) { file := f }).2 ∧
      ((runOn (modifyFile C) { file := f }).1 = .ok () →
        AllSettled C f (runOn (modifyFile C) { file := f }).2.file) := by
  have hrun := OptionsSet.run (fun s hs => hs) (optionSteps_nodup C) (.start (C := C) h) fun _ _ =>
    rfl
  rw [modifyFile_eq, runOn_bind] at hm ⊢
  generalize runOn ((optionSteps C).forM fun s => modifyOption s.1 s.2) { file := f } = outcome
    at hm hrun ⊢
  obtain ⟨r, p⟩ := outcome
  cases r with
  | error e => exact ⟨(hrun hm).1.wrote ha, fun he => by cases he⟩
  | ok u =>
    obtain ⟨hset, -, hsettled⟩ := hrun (meant_ok _)
    obtain ⟨hwrote, hoptions, hjs⟩ := hset.jsTypes ha hm
    refine ⟨hwrote, fun hok => ⟨fun s hs => ?_, hjs hok⟩⟩
    obtain ⟨r, hr, hv⟩ := hsettled rfl s hs
    exact ⟨r, hr, fun v hrv => (hoptions _).trans (hv v hrv)⟩

/-- What a pass makes of a file, whether it succeeds or not. -/
structure Pass (C : Config) (f g : ImageFile) : Prop where
  wellKnown : f.isWellKnown = true → g = f
  file : g = { f with descriptor := g.descriptor }
  touched : Touched (Allowed C f) [4, 7, 8, 9] f.descriptor g.descriptor
  exists_marks : ∃ marks : List (List Int32), (∀ path, path ∈ marks ↔ Rewrote f g path) ∧
    (marks = [] → g = f) ∧ (f.descriptor.Located → g.descriptor.decl.locations =
      f.descriptor.decl.locations.map fun ls => ls.filter fun l => !marks.contains l.path)

/-- A pass that does nothing to a file. -/
theorem Pass.refl (h : f.descriptor.Mirrored) (ha : f.descriptor.decl.Addressable) :
    Pass C f f where
  wellKnown _ := rfl
  file := rfl
  touched := .refl h
  exists_marks := by
    refine ⟨[], fun path => ⟨nofun, ?_⟩, fun _ => rfl, fun _ => by simp⟩
    rintro (⟨o, -, hne⟩ | hviews)
    · exact absurd rfl hne
    · exact absurd hviews (not_rewrote_views path ha rfl)

/-- The locations of the options rewritten are dropped in the end. -/
theorem Wrote.sweep (h : Wrote C f p) (hk : f.isWellKnown = false) (path : String) :
    ∃ n, (sweepFile ((path, p.file), p.marks)).2 = .ok n ∧ (p.marks = [] → n = 0) ∧
      Pass C f (sweepFile ((path, p.file), p.marks)).1.2 ∧
      (∀ name, (sweepFile ((path, p.file), p.marks)).1.2.descriptor.fileOption? name =
        p.file.descriptor.fileOption? name) ∧
      (sweepFile ((path, p.file), p.marks)).1.2.descriptor.decl.views =
        p.file.descriptor.decl.views := by
  have hknown : ∀ g, f.isWellKnown = true → g = f := fun g he => by
    rw [hk] at he
    cases he
  rw [sweepFile]
  by_cases hnone : p.marks = []
  · rw [if_pos hnone]
    refine ⟨0, rfl, fun _ => rfl,
      ⟨hknown _, h.file, h.touched.mono (fun _ _ _ hq => hq) (by simp), [],
      ?_, fun _ => h.unmarked hnone, fun _ => ?_⟩, fun _ => rfl, rfl⟩
    · rw [← hnone]
      exact h.marks
    · rw [h.unmarked hnone]
      simp
  · rw [if_neg hnone]
    obtain ⟨n, hn, hsweeps, -⟩ := removeLocations_sweeps h.touched.mirrored p.marks
    generalize p.file.descriptor.removeLocations p.marks = out at hn hsweeps ⊢
    obtain ⟨d, r⟩ := out
    have hoptions := hsweeps.fileOption? h.touched.mirrored
    refine ⟨n, hn, fun he => absurd he hnone, ⟨hknown _, ?_, ?_, p.marks, fun path => ?_,
      fun he => absurd he hnone, fun hl => ?_⟩, hoptions, hsweeps.views⟩
    · dsimp only
      rw [h.file]
    · exact (h.touched.mono (fun _ _ _ hq => hq) (by simp)).trans
        (hsweeps.touched.mono (fun _ _ _ hq => .location hq) (by simp))
    · rw [h.marks]
      exact (rewrote_congr (k := { p.file with descriptor := d }) hoptions hsweeps.views path).symm
    · exact (hsweeps.locations (h.touched.located hl)).trans
        (by rw [h.touched.locations (by decide)])

section Stable

variable {s : FileOption × (ImageFile → Except Error (Option Scalar))} {r : Option Scalar}

theorem Pass.steady (h : Pass C f g) : Steady f g :=
  steady_of_touched h.file h.touched (by decide)

/-- An option that has its value is not written. -/
theorem modifyOption_settled (hs : s ∈ optionSteps C) (hr : s.2 p.file = .ok r)
    (hv : ∀ v, r = some v → p.file.descriptor.fileOption? s.1.name = some (.scalar v)) :
    runOn (modifyOption s.1 s.2) p = (.ok (), p) := by
  obtain ⟨n, hn⟩ := exists_fieldNumber hs
  rw [modifyOption, runOn_bind, runOn_file]
  dsimp only
  rw [hr]
  cases r with
  | none => rfl
  | some v =>
    dsimp only
    rw [setIfChanged, FileOption.sourcePath?_eq hn]
    dsimp only
    rw [runOn_bind, runOn_file]
    dsimp only
    rw [hv v rfl]
    dsimp only
    rw [if_pos rfl]
    rfl

theorem runOn_forM_of_still {α : Type} {l : List α} {step : α → Modifying Unit}
    (h : ∀ a ∈ l, runOn (step a) p = (.ok (), p)) : runOn (l.forM step) p = (.ok (), p) := by
  induction l with
  | nil => rfl
  | cons a l ih =>
    rw [runOn_forM_cons, h a (by simp)]
    exact ih fun b hb => h b (List.mem_cons_of_mem _ hb)

/-- Where all options are as they are to be, a pass does nothing. -/
theorem AllSettled.still (h : AllSettled C f g) (hsteady : Steady f g) :
    runOn (modifyFile C) { file := g } = (.ok (), { file := g }) := by
  have hoptions : runOn ((optionSteps C).forM fun s => modifyOption s.1 s.2) { file := g } =
      (.ok (), { file := g }) := runOn_forM_of_still fun s hs => by
    obtain ⟨r, hr, hv⟩ := h.options s hs
    exact modifyOption_settled hs ((hsteady.value hs).trans hr) hv
  have hchanges : jsTypeChanges C g (jsTypeRules C g) (fieldSites g.descriptor.decl) = .ok [] := by
    refine jsTypeChanges_of_settled fun s hs he => ?_
    rw [hsteady.jsTypeRules]
    exact h.jsTypes s.view (List.mem_map_of_mem hs) (hsteady.eligible.mp he)
  rw [modifyFile_eq, runOn_bind, hoptions]
  dsimp only
  rw [runOn_modifyJsTypes, hchanges]
  rfl

end Stable

end Managed
end DescriptorKit
