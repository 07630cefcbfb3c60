import DescriptorKit.Proofs.Managed.Options
import DescriptorKit.Proofs.Managed.Walk

/-!
How the representation of integers is set in a file, one field after the other. A field is set where
the rules choose another representation than it has. Every field has a path of its own, so the paths
noted are those of the fields that have got another representation.
-/
namespace DescriptorKit.Managed
open Descriptor Modifying

section Views

variable {l : List (List Int32 × JsType)} {v : SiteView} {path : List Int32} {t u : JsType}

/-- The view after the fields under some paths have got other representations. -/
def SiteView.retypes (l : List (List Int32 × JsType)) (v : SiteView) : SiteView :=
  l.foldl (fun v c => v.retype c.1 c.2) v

theorem SiteView.retypes_cons (c : List Int32 × JsType) (l : List (List Int32 × JsType))
    (v : SiteView) : v.retypes (c :: l) = (v.retype c.1 c.2).retypes l := rfl

theorem SiteView.retype_eq (path : List Int32) (t : JsType) (v : SiteView) :
    v.retype path t = { v with jsType := (v.retype path t).jsType } := by
  unfold SiteView.retype
  split <;> rfl

theorem SiteView.retypes_eq (l : List (List Int32 × JsType)) (v : SiteView) :
    v.retypes l = { v with jsType := (v.retypes l).jsType } := by
  induction l generalizing v with
  | nil => rfl
  | cons c l ih =>
    rw [retypes_cons, ih, retype_eq]

theorem SiteView.retypes_path (l : List (List Int32 × JsType)) (v : SiteView) :
    (v.retypes l).path = v.path := by rw [retypes_eq]

theorem SiteView.retypes_of_ne (h : ∀ c ∈ l, c.1 ≠ v.path) : v.retypes l = v := by
  induction l with
  | nil => rfl
  | cons c l ih =>
    rw [retypes_cons, retype_of_ne fun he => h c (by simp) he.symm]
    exact ih fun c hc => h c (List.mem_cons_of_mem _ hc)

theorem SiteView.retype_jsType (he : v.path = path → u = t) (hv : v.jsType = t) :
    (v.retype path u).jsType = t := by
  unfold retype
  split
  · next hp => exact he hp
  · exact hv

/-- A representation stays where no other one is given. -/
theorem SiteView.retypes_stays (hl : ∀ c ∈ l, c.1 = v.path → c.2 = t) (hv : v.jsType = t) :
    (v.retypes l).jsType = t := by
  induction l generalizing v with
  | nil => exact hv
  | cons c l ih =>
    have hpath : (v.retype c.1 c.2).path = v.path := by rw [retype_eq]
    exact ih (fun c' hc' he => hl c' (List.mem_cons_of_mem _ hc') (he.trans hpath))
      (retype_jsType (fun he => hl c (by simp) he.symm) hv)

/-- The representation is the one given, if only one is given for the path. -/
theorem SiteView.retypes_jsType (ht : (v.path, t) ∈ l) (hone : ∀ c ∈ l, c.1 = v.path → c.2 = t) :
    (v.retypes l).jsType = t := by
  induction l generalizing v with
  | nil => cases ht
  | cons c l ih =>
    have hpath : (v.retype c.1 c.2).path = v.path := by rw [retype_eq]
    have hrest : ∀ c' ∈ l, c'.1 = (v.retype c.1 c.2).path → c'.2 = t := fun c' hc' he =>
      hone c' (List.mem_cons_of_mem _ hc') (he.trans hpath)
    rcases List.mem_cons.mp ht with rfl | ht
    · exact retypes_stays (v := v.retype v.path t) hrest (by rw [retype, if_pos rfl])
    · exact ih (hpath ▸ ht) hrest

end Views

section Choice

variable {C : Config} {f g : ImageFile} {rules : List FieldRule} {s : FieldSite}
  {sites : List FieldSite} {changes : List (List Int32 × JsType)} {v : SiteView} {t : JsType}

/-- A field that rules may set: it holds integers of 64 bits, and is not exempt. -/
structure Eligible (C : Config) (f : ImageFile) (v : SiteView) : Prop where
  wide : v.wide = true
  enabled : C.fieldOptionDisabled f v.fullName .jsType = false

theorem eligible_iff : Eligible C f s.view ↔
    ¬ (!isWide s.decl || C.fieldOptionDisabled f s.fullName .jsType) = true := by
  rw [Bool.or_eq_true, not_or, Bool.not_eq_true, Bool.not_eq_true, Bool.not_eq_false']
  exact ⟨fun ⟨hw, he⟩ => ⟨hw, he⟩, fun ⟨hw, he⟩ => ⟨hw, he⟩⟩

/-- The rules choose another representation than a field has. -/
structure Chosen (C : Config) (f : ImageFile) (rules : List FieldRule) (v : SiteView) (t : JsType) :
    Prop where
  eligible : Eligible C f v
  value : applyJsType v.fullName none rules = .ok (some t)
  new : t ≠ v.jsType

theorem jsTypeChanges_nil (C : Config) (f : ImageFile) (sites : List FieldSite) :
    jsTypeChanges C f [] sites = .ok [] := by
  induction sites with
  | nil => rfl
  | cons s sites ih =>
    rw [jsTypeChanges, ih]
    split <;> rfl

/-- What comes of the first field. -/
theorem jsTypeChanges_cons (h : jsTypeChanges C f rules (s :: sites) = .ok changes) :
    ∃ more, jsTypeChanges C f rules sites = .ok more ∧
      (Eligible C f s.view → ∃ r, applyJsType s.fullName none rules = .ok r) ∧
        ((changes = more ∧ ∀ t, ¬ Chosen C f rules s.view t) ∨
          ∃ t, changes = (s.path, t) :: more ∧ Chosen C f rules s.view t) := by
  rw [jsTypeChanges] at h
  split at h
  · next hskip =>
    have hno : ¬ Eligible C f s.view := fun he => eligible_iff.mp he hskip
    exact ⟨changes, h, fun he => absurd he hno, Or.inl ⟨rfl, fun t ht => hno ht.eligible⟩⟩
  · next hgo =>
    have heligible := eligible_iff.mpr hgo
    split at h
    · cases h
    · next r hr =>
      split at h
      · cases h
      · next more hmore =>
        refine ⟨more, hmore, fun _ => ⟨r, hr⟩, ?_⟩
        cases r with
        | none =>
          refine Or.inl ⟨(Except.ok.inj h).symm, fun t ht => ?_⟩
          cases hr.symm.trans ht.value
        | some t =>
          dsimp only at h
          by_cases ht : t = jsTypeOf s.decl
          · rw [if_pos ht] at h
            refine Or.inl ⟨(Except.ok.inj h).symm, fun t' ht' => ht'.new ?_⟩
            obtain rfl := Option.some.inj (Except.ok.inj (hr.symm.trans ht'.value))
            exact ht
          · rw [if_neg ht] at h
            exact Or.inr ⟨t, (Except.ok.inj h).symm, heligible, hr, ht⟩

theorem mem_jsTypeChanges (h : jsTypeChanges C f rules sites = .ok changes) (path : List Int32)
    (t : JsType) :
    (path, t) ∈ changes ↔ ∃ v ∈ sites.map FieldSite.view, path = v.path ∧ Chosen C f rules v t := by
  induction sites generalizing changes with
  | nil =>
    obtain rfl := Except.ok.inj h
    simp
  | cons s sites ih =>
    obtain ⟨more, hmore, -, ⟨rfl, hno⟩ | ⟨t', rfl, ht'⟩⟩ := jsTypeChanges_cons h
    · rw [ih hmore, List.map_cons]
      simp only [List.mem_cons, exists_eq_or_imp, hno t, and_false, false_or]
    · have hone : Chosen C f rules s.view t ↔ t = t' := by
        refine ⟨fun ht => ?_, fun he => he ▸ ht'⟩
        exact Option.some.inj (Except.ok.inj (ht.value.symm.trans ht'.value))
      rw [List.mem_cons, ih hmore, List.map_cons, Prod.mk.injEq]
      simp only [List.mem_cons, exists_eq_or_imp, hone]
      rfl

theorem exists_applyJsType (h : jsTypeChanges C f rules sites = .ok changes) :
    ∀ v ∈ sites.map FieldSite.view, Eligible C f v →
      ∃ r, applyJsType v.fullName none rules = .ok r := by
  induction sites generalizing changes with
  | nil => simp
  | cons s sites ih =>
    obtain ⟨more, hmore, hs, -⟩ := jsTypeChanges_cons h
    rw [List.map_cons, List.forall_mem_cons]
    exact ⟨hs, ih hmore⟩

/-- Nothing is to change where every field has the representation that the rules choose. -/
theorem jsTypeChanges_of_settled (h : ∀ s ∈ sites, Eligible C f s.view →
      ∃ r, applyJsType s.fullName none rules = .ok r ∧ ∀ t, r = some t → s.view.jsType = t) :
    jsTypeChanges C f rules sites = .ok [] := by
  induction sites with
  | nil => rfl
  | cons s sites ih =>
    have hrest := ih fun s' hs' => h s' (List.mem_cons_of_mem _ hs')
    rw [jsTypeChanges]
    split
    · exact hrest
    · next hgo =>
      obtain ⟨r, hr, ht⟩ := h s (by simp) (eligible_iff.mpr hgo)
      rw [hr, hrest]
      cases r with
      | none => rfl
      | some t => exact congrArg Except.ok (if_pos (ht t rfl).symm)

/-- The rules that say how fields represent integers. -/
def jsTypeRules (C : Config) (f : ImageFile) : List FieldRule :=
  (C.fieldRulesFor f).filter fun r => r.option = .jsType

theorem Steady.jsTypeRules (h : Steady f g) : jsTypeRules C g = jsTypeRules C f := by
  simp only [Managed.jsTypeRules, Config.fieldRulesFor, h.chooses]

theorem Steady.eligible (h : Steady f g) : Eligible C g v ↔ Eligible C f v := by
  have hdisabled : C.fieldOptionDisabled g v.fullName .jsType =
      C.fieldOptionDisabled f v.fullName .jsType := by
    simp only [Config.fieldOptionDisabled, DisableRule.coversField, h.chooses]
  exact ⟨fun ⟨hw, he⟩ => ⟨hw, hdisabled ▸ he⟩, fun ⟨hw, he⟩ => ⟨hw, hdisabled.symm ▸ he⟩⟩

/-- Every field that rules may set has the representation that they choose, if they choose one. -/
def JsTypesSettled (C : Config) (f g : ImageFile) : Prop :=
  ∀ w ∈ g.descriptor.decl.views, Eligible C f w →
    ∃ r, applyJsType w.fullName none (jsTypeRules C f) = .ok r ∧ ∀ t, r = some t → w.jsType = t

end Choice

section Run

variable {C : Config} {p : Progress} {l : List (List Int32 × JsType)}

/-- The representations that were set for some fields. -/
structure SetsJsTypes (l : List (List Int32 × JsType)) (d e : Descriptor) : Prop where
  unset : l = [] → e = d
  touched : Touched (fun q _ _ => ∃ c ∈ l, q = place (c.1 ++ [8, 6])) [4, 7] d e
  addressable : e.decl.Addressable
  views : e.decl.views = d.decl.views.map (SiteView.retypes l)

/-- Sets representations one after the other. -/
def setJsTypes (l : List (List Int32 × JsType)) : Modifying Unit :=
  l.forM fun (path, t) => do
    change fun d => d.setJsType path t.code
    mark (path ++ [8, 6])

theorem setJsTypes_cons (path : List Int32) (t : JsType) (l : List (List Int32 × JsType)) :
    setJsTypes ((path, t) :: l) = change (fun d => d.setJsType path t.code) >>= fun _ =>
      mark (path ++ [8, 6]) >>= fun _ => setJsTypes l := by
  rw [setJsTypes, List.forM_eq_forM, List.forM_cons, bind_assoc]
  rfl

theorem setJsTypes_run (h : p.file.descriptor.Mirrored) (ha : p.file.descriptor.decl.Addressable)
    (hl : ∀ c ∈ l, FileLeads c.1) (hm : Meant (runOn (setJsTypes l) p).1) :
    ∃ d, SetsJsTypes l p.file.descriptor d ∧ runOn (setJsTypes l) p =
      (.ok (), ⟨{ p.file with descriptor := d }, p.marks ++ l.map fun c => c.1 ++ [8, 6]⟩) := by
  induction l generalizing p with
  | nil =>
    refine ⟨p.file.descriptor, ⟨fun _ => rfl, .refl h, ha, (List.map_id _).symm⟩, ?_⟩
    rw [List.map_nil, List.append_nil]
    rfl
  | cons c l ih =>
    obtain ⟨path, t⟩ := c
    rw [setJsTypes_cons, runOn_bind, runOn_change] at hm ⊢
    cases hset : (p.file.descriptor.setJsType path t.code).2 with
    | error e =>
      rw [hset] at hm
      have hok := setJsType_meant (fun e' he' => hm e' (by rw [← he', hset]))
      rw [hset] at hok
      cases hok
    | ok u =>
      rw [hset] at hm
      have hsets := setJsType_touched h (hl (path, t) (by simp)) hset
      obtain ⟨d, hd, hrest⟩ := ih (p := ⟨{ p.file with descriptor :=
        (p.file.descriptor.setJsType path t.code).1 }, p.marks ++ [path ++ [8, 6]]⟩)
        hsets.touched.mirrored (hsets.decl.addressable ha)
        (fun c hc => hl c (List.mem_cons_of_mem _ hc)) hm
      refine ⟨d, ⟨nofun, ?_, hd.addressable, ?_⟩, ?_⟩
      · refine (hsets.touched.mono (fun q k k' hq => ?_) (List.Subset.refl _)).trans
          (hd.touched.mono (fun q k k' hq => ?_) (List.Subset.refl _))
        · exact ⟨(path, t), by simp, hq⟩
        · obtain ⟨c, hc, rfl⟩ := hq
          exact ⟨c, List.mem_cons_of_mem _ hc, rfl⟩
      · rw [hd.views, hsets.decl.views ha, List.map_map]
        rfl
      · refine hrest.trans ?_
        rw [List.map_cons, List.append_assoc]
        rfl

/-- Setting the representation of integers in a file is choosing and then setting. -/
theorem runOn_modifyJsTypes (C : Config) (p : Progress) : runOn (modifyJsTypes C) p =
    match jsTypeChanges C p.file (jsTypeRules C p.file) (fieldSites p.file.descriptor.decl) with
    | .ok l => runOn (setJsTypes l) p
    | .error e => (.error e, p) := by
  have hrun : runOn (modifyJsTypes C) p = runOn (if (jsTypeRules C p.file).isEmpty then pure ()
      else modifyJsTypes.liftExcept (jsTypeChanges C p.file (jsTypeRules C p.file)
        (fieldSites p.file.descriptor.decl)) >>= setJsTypes) p := rfl
  rw [hrun]
  split
  · next hempty =>
    rw [List.isEmpty_iff.mp hempty, jsTypeChanges_nil]
    rfl
  · cases jsTypeChanges C p.file (jsTypeRules C p.file) (fieldSites p.file.descriptor.decl) <;> rfl

/-- All that setting the representation of integers in a file can do. -/
theorem modifyJsTypes_cases (h : p.file.descriptor.Mirrored)
    (ha : p.file.descriptor.decl.Addressable) (hm : Meant (runOn (modifyJsTypes C) p).1) :
    (∃ e, runOn (modifyJsTypes C) p = (.error e, p)) ∨
      ∃ l d, SetsJsTypes l p.file.descriptor d ∧ (l.map (·.1)).Nodup ∧
        (∀ path t, (path, t) ∈ l ↔ ∃ v ∈ p.file.descriptor.decl.views, path = v.path ∧
          Chosen C p.file (jsTypeRules C p.file) v t) ∧
        (∀ v ∈ p.file.descriptor.decl.views, Eligible C p.file v →
          ∃ r, applyJsType v.fullName none (jsTypeRules C p.file) = .ok r) ∧
        runOn (modifyJsTypes C) p =
          (.ok (), ⟨{ p.file with descriptor := d }, p.marks ++ l.map fun c => c.1 ++ [8, 6]⟩) := by
  rw [runOn_modifyJsTypes] at hm ⊢
  cases hc : jsTypeChanges C p.file (jsTypeRules C p.file) (fieldSites p.file.descriptor.decl) with
  | error e => exact Or.inl ⟨e, rfl⟩
  | ok l =>
    rw [hc] at hm
    have hmem := mem_jsTypeChanges hc
    obtain ⟨d, hd, hrun⟩ := setJsTypes_run h ha (fun c hcl => by
      obtain ⟨v, hv, hp, -⟩ := (hmem c.1 c.2).mp hcl
      rw [hp]
      exact ha.leads hv) hm
    have hdistinct := (jsTypeChanges_sublist hc).nodup (FileDecl.nodup_fieldSites ha)
    exact Or.inr ⟨l, d, hd, hdistinct, hmem, exists_applyJsType hc, hrun⟩

end Run

end DescriptorKit.Managed
