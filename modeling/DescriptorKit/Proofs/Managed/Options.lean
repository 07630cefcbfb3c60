import DescriptorKit.Proofs.Descriptor.JsType
import DescriptorKit.Proofs.Descriptor.Locations
import DescriptorKit.Proofs.Managed.Run

/-!
How the file options of a mirrored descriptor are set, one after the other. An option is written
where its value is not yet the one it is to have, and then its source path is noted; so the paths
noted are those of the options whose values have changed.
-/
namespace DescriptorKit
open Bundled Message Descriptor

namespace Descriptor

variable {d e : Descriptor}

/-- The file options are read from the slots of one number. -/
theorem fileOption?_congr (h : d.Mirrored) (hs : e.schema = d.schema) (ht : e.type = d.type)
    (ho : e.message.only 8 = d.message.only 8) (name : String) :
    e.fileOption? name = d.fileOption? name := by
  rw [fileOption?, fileOption?, ht, hs]
  cases hf : d.type.fieldNamed? "options" with
  | none => rfl
  | some f =>
    have hn : f.number = 8 := h.mirrors.named h.counterpart hf
      (types_facts.2.2.1 (fileType, optionsOfFile) (by simp))
    dsimp only
    rw [Message.get, Message.get, ← get?_only hn e.message, ho, get?_only hn]

end Descriptor

namespace Message

variable {S : Schema} {name : String} {s : Scalar} {missing a x : Breach} {b : SetFault → Breach}

theorem setOption_error {t : MessageType} {m : Message}
    (h : (m.setOption S t name s a b).2 = .error x) : x = a ∨ ∃ fault, x = b fault := by
  unfold setOption at h
  split at h
  · exact Or.inl (Except.error.inj h).symm
  · dsimp only at h
    split at h
    · split at h
      · cases h
      · exact Or.inr ⟨_, (Except.error.inj h).symm⟩
    · exact Or.inl (Except.error.inj h).symm

theorem updateAt_error {change : MessageType → Message → Message × Except Breach Unit}
    (hc : ∀ t m, (change t m).2 = .error x → x = a ∨ ∃ fault, x = b fault) :
    ∀ (path : List Int32) (t : MessageType) (m : Message),
      (updateAt S missing change path t m).2 = .error x →
        x = missing ∨ x = a ∨ ∃ fault, x = b fault
  | [], t, m, h => Or.inr (hc t m h)
  | [_], _, _, h => Or.inl (Except.error.inj h).symm
  | number :: index :: rest, t, m, h => by
    unfold updateAt at h
    split at h
    · exact Or.inl (Except.error.inj h).symm
    · dsimp only at h
      split at h
      · split at h
        · exact updateAt_error hc rest _ _ h
        · exact Or.inl (Except.error.inj h).symm
      · exact Or.inl (Except.error.inj h).symm

end Message

namespace Managed
open Modifying

/-- An override gives an option a value of another kind than its own. -/
inductive IllTyped : Error → Prop where
  | text (o : FileOption) (v : OverrideValue) : IllTyped (.breach (.textExpected o v))
  | flag (o : FileOption) (v : OverrideValue) : IllTyped (.breach (.flagExpected o v))
  | mode (v : OverrideValue) : IllTyped (.breach (.modeExpected v))
  | jsType (v : OverrideValue) : IllTyped (.breach (.jsTypeExpected v))

/-- A step succeeds, or an ill-typed override stops it. -/
def Meant {α : Type} (r : Except Error α) : Prop := ∀ e, r = .error e → IllTyped e

section Meant

variable {α : Type} {d : Descriptor}

theorem meant_ok (a : α) : Meant (.ok a) := fun e h => by cases h

theorem modify_meant {change : Message → Message × Except Breach α}
    (hc : ∀ b, (change d.message).2 = .error b → ¬ IllTyped (.breach b))
    (h : Meant (d.modify change).2) : ∃ a, (d.modify change).2 = .ok a := by
  cases hr : (d.modify change).2 with
  | ok a => exact ⟨a, rfl⟩
  | error e =>
    have he := h e hr
    rcases d.modify_cases change with ⟨f, -, hm⟩ | ⟨typed, -, hm⟩
    · rw [hm] at hr
      obtain rfl := Except.error.inj hr
      cases he
    · rw [hm] at hr
      cases hb : (change d.message).2 with
      | ok a =>
        rw [hb] at hr
        cases hr
      | error b =>
        rw [hb] at hr
        obtain rfl := Except.error.inj (show Except.error (Error.breach b) = _ from hr)
        exact absurd he (hc b hb)

/-- Setting a file option does not fail for an ill-typed override. -/
theorem setFileOption_meant {name : String} {s : Scalar} (h : Meant (d.setFileOption name s).2) :
    (d.setFileOption name s).2 = .ok () := by
  obtain ⟨u, hu⟩ : ∃ u, (d.setFileOption name s).2 = .ok u := by
    refine modify_meant (fun b hb => ?_) h
    rcases setOption_error hb with rfl | ⟨fault, rfl⟩ <;> rintro ⟨⟩
  exact hu

theorem setJsType_meant {path : List Int32} {code : Int32} (h : Meant (d.setJsType path code).2) :
    (d.setJsType path code).2 = .ok () := by
  obtain ⟨u, hu⟩ : ∃ u, (d.setJsType path code).2 = .ok u := by
    refine modify_meant (fun b hb => ?_) h
    rcases updateAt_error (fun _ _ hx => setOption_error hx) _ _ _ hb with
      rfl | rfl | ⟨fault, rfl⟩ <;> rintro ⟨⟩
  exact hu

end Meant

section Steps

/-- The options of a file in the order in which they are set, each with the value it is to have. -/
def optionSteps (C : Config) : List (FileOption × (ImageFile → Except Error (Option Scalar))) :=
  (families.map fun F => (F.option, fun f => (textOption C F f).map fun s =>
    s.map Scalar.string)) ++
    scalarOptions.map fun o => (o.1, scalarOption C o.1 o.2)

theorem modifyFile_eq (C : Config) : modifyFile C =
    ((optionSteps C).forM fun s => modifyOption s.1 s.2) >>= fun _ => modifyJsTypes C := by
  simp only [modifyFile, optionSteps, List.forM_eq_forM, List.forM_append, List.forM_map,
    bind_assoc]

/-- The options that are set are fields of descriptors. -/
theorem optionSteps_options (C : Config) :
    (optionSteps C).map (·.1) = [.javaPackage, .javaOuterClassname, .goPackage, .objcClassPrefix,
      .csharpNamespace, .swiftPrefix, .phpNamespace, .phpMetadataNamespace, .rubyPackage,
      .javaMultipleFiles, .javaStringCheckUtf8, .optimizeFor, .ccEnableArenas] := rfl

theorem optionSteps_nodup (C : Config) : ((optionSteps C).map (·.1)).Nodup := by
  rw [optionSteps_options]
  decide

variable {C : Config} {f g : ImageFile}
  {s : FileOption × (ImageFile → Except Error (Option Scalar))}

theorem exists_fieldNumber (hs : s ∈ optionSteps C) : ∃ n, s.1.fieldNumber? = some n := by
  have hmem : s.1 ∈ (optionSteps C).map (·.1) := List.mem_map_of_mem hs
  have hall : ∀ o ∈ (optionSteps C).map (·.1), ∃ n, o.fieldNumber? = some n := by
    rw [optionSteps_options]
    simp [FileOption.fieldNumber?]
  exact hall _ hmem

/-- A disabled option is not to have any value. -/
theorem enabled_of_value {v : Scalar} (hs : s ∈ optionSteps C) (hv : s.2 f = .ok (some v)) :
    C.fileOptionDisabled f s.1 = false := by
  by_contra hd
  have hd : C.fileOptionDisabled f s.1 = true := by simpa using hd
  rcases List.mem_append.mp hs with hs | hs
  · obtain ⟨F, -, rfl⟩ := List.mem_map.mp hs
    dsimp only at hv hd
    rw [textOption, if_pos hd] at hv
    cases hv
  · obtain ⟨o, -, rfl⟩ := List.mem_map.mp hs
    dsimp only at hv hd
    rw [scalarOption, if_pos hd] at hv
    cases hv

/-- What the value of an option is taken from stays as it is: all of a file but its descriptor, and
the path and the package that the descriptor tells. -/
structure Steady (f g : ImageFile) : Prop where
  file : g = { f with descriptor := g.descriptor }
  path : g.path = f.path
  package : g.descriptor.package = f.descriptor.package

theorem Steady.chooses (h : Steady f g) (s : Selector) : s.chooses g = s.chooses f := by
  rw [Selector.chooses, Selector.chooses, h.path, h.file]

theorem Steady.value (h : Steady f g) (hs : s ∈ optionSteps C) : s.2 g = s.2 f := by
  have hrules : C.fileRulesFor g = C.fileRulesFor f := by
    simp only [Config.fileRulesFor, h.chooses]
  have hdisabled : ∀ o, C.fileOptionDisabled g o = C.fileOptionDisabled f o := fun o => by
    simp only [Config.fileOptionDisabled, DisableRule.coversFile, h.chooses]
  rcases List.mem_append.mp hs with hs | hs
  · obtain ⟨F, hF, rfl⟩ := List.mem_map.mp hs
    have hderive : F.derive g = F.derive f := by
      simp only [families, List.mem_cons, List.not_mem_nil, or_false] at hF
      rcases hF with rfl | rfl | rfl | rfl | rfl | rfl | rfl | rfl | rfl <;>
        simp only [h.path, h.package]
    simp only [textOption, hrules, hdisabled, hderive]
  · obtain ⟨o, -, rfl⟩ := List.mem_map.mp hs
    simp only [scalarOption, hrules, hdisabled]

end Steps

section Run

variable {C : Config} {f g : ImageFile} {p q : Progress} {o : FileOption} {n : Nat}
  {value : ImageFile → Except Error (Option Scalar)}
  {l : List (FileOption × (ImageFile → Except Error (Option Scalar)))}

/-- The places of a file's descriptor in which a pass may make a difference: options that are not
disabled, and source locations, which may be dropped. -/
inductive Allowed (C : Config) (f : ImageFile) : List Nat → Message → Message → Prop where
  | fileOption {o : FileOption} {n : Nat} {k k' : Message} (hn : o.fieldNumber? = some n)
      (ho : C.fileOptionDisabled f o = false) : Allowed C f [8, n] k k'
  | jsType {v : SiteView} {k k' : Message} (hv : v ∈ f.descriptor.decl.views) (hw : v.wide = true)
      (ho : C.fieldOptionDisabled f v.fullName .jsType = false) :
      Allowed C f (place (v.path ++ [8, 6])) k k'
  | location {p : List Nat} {k k' : Message} (h : Dropped p k k') : Allowed C f p k k'

theorem steady_of_touched {may : List Nat → Message → Message → Prop} {ns : List Nat}
    (hfile : g = { f with descriptor := g.descriptor })
    (h : Touched may ns f.descriptor g.descriptor) (hns : 1 ∉ ns ∧ 2 ∉ ns) : Steady f g where
  file := hfile
  path := by
    change g.descriptor.typed.textAt 1 = f.descriptor.typed.textAt 1
    simp only [textAt, textAt?, scalarAt?, at?_congr (h.typed 1 hns.1)]
  package := by
    simp only [package, textAt, textAt?, scalarAt?, at?_congr (h.typed 2 hns.2)]

/-- What came of a file when some of its options were set: those whose source paths were noted have
other values than before. -/
structure OptionsSet (C : Config) (f : ImageFile) (p : Progress) : Prop where
  unmarked : p.marks = [] → p.file = f
  file : p.file = { f with descriptor := p.file.descriptor }
  touched : Touched (Allowed C f) [8] f.descriptor p.file.descriptor
  marks : ∀ path, path ∈ p.marks ↔ ∃ o : FileOption, o.sourcePath? = some path ∧
    p.file.descriptor.fileOption? o.name ≠ f.descriptor.fileOption? o.name
  distinct : p.marks.Nodup

theorem OptionsSet.steady (h : OptionsSet C f p) : Steady f p.file :=
  steady_of_touched h.file h.touched (by decide)

theorem OptionsSet.start (h : f.descriptor.Mirrored) : OptionsSet C f { file := f } :=
  ⟨fun _ => rfl, rfl, .refl h, fun path => by simp, .nil⟩

/-- Writing an option and noting its path. -/
theorem write_cases {v : Scalar} (h : p.file.descriptor.Mirrored) (ho : o.fieldNumber? = some n)
    (path : List Int32)
    (hm : Meant (runOn (change (fun d => d.setFileOption o.name v) >>= fun _ => mark path) p).1) :
    ∃ d, SetsFileOption o n v p.file.descriptor d ∧
      runOn (change (fun d => d.setFileOption o.name v) >>= fun _ => mark path) p =
        (.ok (), ⟨{ p.file with descriptor := d }, p.marks ++ [path]⟩) := by
  rw [runOn_bind, runOn_change] at hm ⊢
  cases hset : (p.file.descriptor.setFileOption o.name v).2 with
  | error e =>
    rw [hset] at hm
    have hok : (p.file.descriptor.setFileOption o.name v).2 = .ok () := by
      refine setFileOption_meant fun e' he' => hm e' ?_
      rw [← he', hset]
    rw [hset] at hok
    cases hok
  | ok u => exact ⟨_, setFileOption_touched h ho hset, rfl⟩

/-- All that bringing an option to a value can do. -/
theorem setIfChanged_cases {v : Scalar} (h : p.file.descriptor.Mirrored)
    (ho : o.fieldNumber? = some n) (hm : Meant (runOn (setIfChanged o v) p).1) :
    (p.file.descriptor.fileOption? o.name = some (.scalar v) ∧
        runOn (setIfChanged o v) p = (.ok (), p)) ∨
      (p.file.descriptor.fileOption? o.name ≠ some (.scalar v) ∧
        ∃ d, SetsFileOption o n v p.file.descriptor d ∧ runOn (setIfChanged o v) p =
          (.ok (), ⟨{ p.file with descriptor := d }, p.marks ++ [[8, Int32.ofNat n]]⟩)) := by
  rw [setIfChanged, FileOption.sourcePath?_eq ho] at hm ⊢
  dsimp only at hm ⊢
  rw [runOn_bind, runOn_file] at hm ⊢
  dsimp only at hm ⊢
  cases hold : p.file.descriptor.fileOption? o.name with
  | none =>
    rw [hold] at hm
    exact Or.inr ⟨by simp, write_cases h ho _ hm⟩
  | some x =>
    rw [hold] at hm
    cases x with
    | message k => exact Or.inr ⟨by simp, write_cases h ho _ hm⟩
    | many vs => exact Or.inr ⟨by simp, write_cases h ho _ hm⟩
    | scalar old =>
      dsimp only at hm ⊢
      by_cases he : old = v
      · subst he
        rw [if_pos rfl]
        exact Or.inl ⟨rfl, rfl⟩
      · rw [if_neg he] at hm ⊢
        exact Or.inr ⟨by simpa using he, write_cases h ho _ hm⟩

/-- All that setting one option can do. -/
theorem modifyOption_cases (h : p.file.descriptor.Mirrored) (ho : o.fieldNumber? = some n)
    (hm : Meant (runOn (modifyOption o value) p).1) :
    (∃ e, runOn (modifyOption o value) p = (.error e, p)) ∨
      (runOn (modifyOption o value) p = (.ok (), p) ∧ ∃ r, value p.file = .ok r ∧
        ∀ v, r = some v → p.file.descriptor.fileOption? o.name = some (.scalar v)) ∨
      ∃ v d, value p.file = .ok (some v) ∧
        p.file.descriptor.fileOption? o.name ≠ some (.scalar v) ∧
          SetsFileOption o n v p.file.descriptor d ∧ runOn (modifyOption o value) p =
            (.ok (), ⟨{ p.file with descriptor := d }, p.marks ++ [[8, Int32.ofNat n]]⟩) := by
  rw [modifyOption, runOn_bind, runOn_file] at hm ⊢
  dsimp only at hm ⊢
  cases hv : value p.file with
  | error e => exact Or.inl ⟨e, rfl⟩
  | ok r =>
    cases r with
    | none => exact Or.inr (Or.inl ⟨rfl, none, rfl, fun v hv => by cases hv⟩)
    | some v =>
      rw [hv] at hm
      rcases setIfChanged_cases h ho hm with ⟨hold, hrun⟩ | ⟨hold, d, hset, hrun⟩
      · refine Or.inr (Or.inl ⟨hrun, some v, rfl, fun w hw => ?_⟩)
        rw [← Option.some.inj hw, hold]
      · exact Or.inr (Or.inr ⟨v, d, rfl, hold, hset, hrun⟩)

/-- An option has the value that it is to have, if it is to have one. -/
def Settled (f g : ImageFile) (s : FileOption × (ImageFile → Except Error (Option Scalar))) :
    Prop :=
  ∃ r, s.2 f = .ok r ∧ ∀ v, r = some v → g.descriptor.fileOption? s.1.name = some (.scalar v)

/-- Setting an option that was not set before. -/
theorem OptionsSet.step {s : FileOption × (ImageFile → Except Error (Option Scalar))}
    (hs : s ∈ optionSteps C) (h : OptionsSet C f p)
    (hnew : p.file.descriptor.fileOption? s.1.name = f.descriptor.fileOption? s.1.name)
    (hm : Meant (runOn (modifyOption s.1 s.2) p).1) :
    OptionsSet C f (runOn (modifyOption s.1 s.2) p).2 ∧
      (∀ o, o ≠ s.1 → (runOn (modifyOption s.1 s.2) p).2.file.descriptor.fileOption? o.name =
        p.file.descriptor.fileOption? o.name) ∧
      ((runOn (modifyOption s.1 s.2) p).1 = .ok () →
        Settled f (runOn (modifyOption s.1 s.2) p).2.file s) := by
  obtain ⟨n, hn⟩ := exists_fieldNumber hs
  have hvalue := h.steady.value hs
  rcases modifyOption_cases h.touched.mirrored hn hm with
    ⟨e, hrun⟩ | ⟨hrun, r, hr, hsettled⟩ | ⟨v, d, hv, hold, hset, hrun⟩
  · rw [hrun]
    exact ⟨h, fun _ _ => rfl, fun he => by cases he⟩
  · rw [hrun]
    exact ⟨h, fun _ _ => rfl, fun _ => ⟨r, hvalue ▸ hr, hsettled⟩⟩
  · rw [hrun]
    rw [hvalue] at hv
    have hpath := FileOption.sourcePath?_eq hn
    refine ⟨⟨fun hno => ?_, ?_, ?_, fun path => ?_, ?_⟩, hset.others,
      fun _ => ⟨some v, hv, fun w hw => ?_⟩⟩
    · simp at hno
    · dsimp only
      rw [h.file]
    · refine h.touched.trans (hset.touched.mono (fun q k k' hq => ?_) (List.Subset.refl _))
      obtain rfl : q = [8, n] := hq
      exact .fileOption hn (enabled_of_value hs hv)
    · rw [List.mem_append, List.mem_singleton, h.marks]
      constructor
      · rintro (⟨o, ho, hne⟩ | rfl)
        · refine ⟨o, ho, ?_⟩
          by_cases hos : o = s.1
          · exact absurd (hos ▸ hnew) hne
          · rwa [hset.others o hos]
        · refine ⟨s.1, hpath, ?_⟩
          rw [hset.option, ← hnew]
          exact hold.symm
      · rintro ⟨o, ho, hne⟩
        by_cases hos : o = s.1
        · subst hos
          exact Or.inr (Option.some.inj (ho.symm.trans hpath))
        · rw [hset.others o hos] at hne
          exact Or.inl ⟨o, ho, hne⟩
    · refine List.nodup_append.mpr
        ⟨h.distinct, List.pairwise_singleton _ _, fun path hmem _ hp he => ?_⟩
      obtain ⟨o, ho, hne⟩ := (h.marks path).mp hmem
      rw [he, List.mem_singleton.mp hp] at ho
      obtain rfl := FileOption.sourcePath?_inj ho hpath
      exact hne hnew
    · rw [← Option.some.inj hw, hset.option]

/-- Setting options one after the other, each of them once. -/
theorem OptionsSet.run (hl : ∀ s ∈ l, s ∈ optionSteps C) (hd : (l.map (·.1)).Nodup)
    (h : OptionsSet C f p)
    (hnew : ∀ s ∈ l, p.file.descriptor.fileOption? s.1.name = f.descriptor.fileOption? s.1.name)
    (hm : Meant (runOn (l.forM fun s => modifyOption s.1 s.2) p).1) :
    OptionsSet C f (runOn (l.forM fun s => modifyOption s.1 s.2) p).2 ∧
      (∀ o, o ∉ l.map (·.1) →
        (runOn (l.forM fun s => modifyOption s.1 s.2) p).2.file.descriptor.fileOption? o.name =
          p.file.descriptor.fileOption? o.name) ∧
      ((runOn (l.forM fun s => modifyOption s.1 s.2) p).1 = .ok () →
        ∀ s ∈ l, Settled f (runOn (l.forM fun s => modifyOption s.1 s.2) p).2.file s) := by
  induction l generalizing p with
  | nil => exact ⟨h, fun _ _ => rfl, fun _ s hs => by cases hs⟩
  | cons s l ih =>
    obtain ⟨hfirst, hrest⟩ := List.nodup_cons.mp hd
    rw [runOn_forM_cons] at hm ⊢
    have hstep := h.step (hl s (by simp)) (hnew s (by simp))
    generalize runOn (modifyOption s.1 s.2) p = outcome at hm hstep ⊢
    obtain ⟨r, q⟩ := outcome
    cases r with
    | error e =>
      obtain ⟨hq, hothers, -⟩ := hstep hm
      refine ⟨hq, fun o ho => hothers o fun he => ho (he ▸ by simp), fun he => by cases he⟩
    | ok u =>
      obtain ⟨hq, hothers, hsettled⟩ := hstep (meant_ok _)
      have hother : ∀ s' ∈ l, q.file.descriptor.fileOption? s'.1.name =
          p.file.descriptor.fileOption? s'.1.name := fun s' hs' =>
        hothers s'.1 fun he => hfirst (List.mem_map.mpr ⟨s', hs', he⟩)
      obtain ⟨hq', hothers', hsettled'⟩ :=
        ih (fun s' hs' => hl s' (List.mem_cons_of_mem _ hs')) hrest
        hq (fun s' hs' => (hother s' hs').trans (hnew s' (List.mem_cons_of_mem _ hs'))) hm
      refine ⟨hq', fun o ho => ?_, fun hok s' hs' => ?_⟩
      · rw [List.map_cons, List.mem_cons, not_or] at ho
        rw [hothers' o ho.2, hothers o ho.1]
      · rcases List.mem_cons.mp hs' with rfl | hs'
        · obtain ⟨r, hr, hv⟩ := hsettled rfl
          refine ⟨r, hr, fun v hrv => ?_⟩
          rw [hothers' s'.1 hfirst]
          exact hv v hrv
        · exact hsettled' hok s' hs'

end Run

end Managed
end DescriptorKit
