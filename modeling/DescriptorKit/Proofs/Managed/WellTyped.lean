import DescriptorKit.Proofs.Managed.JsTypes

/-!
Overrides whose values are of the kinds that their options take. What a pass computes for an option
is then of the kind that the field of the option takes, and only an override of another kind stops
it.
-/
namespace DescriptorKit.Managed
open Bundled Message

namespace FileOption

/-- The options that are set to one of two values. -/
def isFlag (o : FileOption) : Bool :=
  o ∈ [javaMultipleFiles, javaStringCheckUtf8, ccEnableArenas]

/-- The kind of value that an option takes. -/
def takes (o : FileOption) : OverrideValue → Bool
  | .string _ => !o.isFlag && o ≠ .optimizeFor
  | .bool _ => o.isFlag
  | .optimizeMode _ => o = .optimizeFor
  | .jsType _ => false

end FileOption

/-- Every override gives a value of the kind that its option takes. -/
structure Config.WellTyped (C : Config) : Prop where
  file : ∀ r ∈ C.fileRules, r.option.takes r.value = true
  field : ∀ r ∈ C.fieldRules, ∃ t, r.value = .jsType t

variable {C : Config} {f : ImageFile} {F : Family} {o : FileOption} {rules : List FileRule}
  {e : Error}
  {v : Scalar}

/-- The fields of file options have the kinds of the values that the options take. -/
theorem kind_facts : (∀ o ∈ FileOption.all, ∀ g ∈ fileOptionsType.fieldNamed? o.name,
      (o.isFlag = true → g.kind = .scalar .bool) ∧
      (o = .optimizeFor → g.kind = .enum "google.protobuf.FileOptions.OptimizeMode") ∧
      (o.isFlag = false → o ≠ .optimizeFor → g.kind = .scalar .string)) ∧
    (∀ F ∈ families, ∀ o ∈ [some F.option, F.lead, F.tail], ∀ x ∈ o,
      x.isFlag = false ∧ x ≠ .optimizeFor) ∧
    ∀ o ∈ scalarOptions, o.1.isFlag = true ∨ o.1 = .optimizeFor := by
  decide +kernel

/-- A step is stopped by an override that does not give a value of the kind of its option. -/
def Misled (C : Config) (e : Error) : Prop := IllTyped e ∧ ¬ C.WellTyped

theorem misled_of_takes {r : FileRule} (hr : r ∈ C.fileRules) (h : IllTyped e)
    (hno : r.option.takes r.value = false) : Misled C e :=
  ⟨h, fun hT => by rw [hT.file r hr] at hno; cases hno⟩

theorem textValue_misled {r : FileRule} (hr : r ∈ C.fileRules)
    (ho : r.option.isFlag = false ∧ r.option ≠ .optimizeFor)
    (he : textValue r.option r.value = .error e) : Misled C e := by
  refine misled_of_takes hr ?_ ?_
  · cases hv : r.value with
    | string s =>
      rw [hv] at he
      cases he
    | _ =>
      rw [hv] at he
      exact Except.error.inj he ▸ .text _ _
  · cases hv : r.value with
    | string s =>
      rw [hv] at he
      cases he
    | bool b => exact ho.1
    | optimizeMode m => exact decide_eq_false ho.2
    | jsType t => rfl

/-- Taking overrides of text options into account is stopped by the value of one of them. -/
theorem exists_rule_of_apply {lead tail : Bool} {r : Resolved}
    (he : r.apply F lead tail rules = .error e) :
    ∃ rule ∈ rules, some rule.option ∈ [some F.option, F.lead, F.tail] ∧
      textValue rule.option rule.value = .error e := by
  induction rules generalizing r with
  | nil => cases he
  | cons rule rest ih =>
    have hrest : ∀ {r : Resolved}, r.apply F lead tail rest = .error e →
        ∃ rule' ∈ rule :: rest, some rule'.option ∈ [some F.option, F.lead, F.tail] ∧
          textValue rule'.option rule'.value = .error e := fun he => by
      obtain ⟨rule', hmem, h⟩ := ih he
      exact ⟨rule', List.mem_cons_of_mem _ hmem, h⟩
    unfold Resolved.apply at he
    split at he
    · next hoption =>
      split at he
      · exact hrest he
      · next hv => exact ⟨rule, List.mem_cons_self, by simp [hoption], Except.error.inj he ▸ hv⟩
    · split at he
      · next hlead =>
        rw [Bool.and_eq_true, decide_eq_true_eq] at hlead
        split at he
        · exact hrest he
        · next hv => exact ⟨rule, List.mem_cons_self, by simp [hlead.2], Except.error.inj he ▸ hv⟩
      · split at he
        · next htail =>
          rw [Bool.and_eq_true, decide_eq_true_eq] at htail
          split at he
          · exact hrest he
          · next hv => exact ⟨rule, List.mem_cons_self, by simp [htail.2], Except.error.inj he ▸ hv⟩
        · exact hrest he

theorem fileRulesFor_subset : C.fileRulesFor f ⊆ C.fileRules :=
  fun _ h => List.mem_of_mem_filter h

theorem textOption_misled (hF : F ∈ families) (he : textOption C F f = .error e) : Misled C e := by
  unfold textOption at he
  split at he
  · cases he
  · dsimp only at he
    split at he
    · next e' hr =>
      obtain rfl := Except.error.inj he
      obtain ⟨rule, hrule, hoption, hv⟩ := exists_rule_of_apply hr
      exact textValue_misled (fileRulesFor_subset hrule) (kind_facts.2.1 F hF _ hoption _ rfl) hv
    · cases he

/-- The value of an option that is no text is of the kind that the option takes. -/
def Suits (o : FileOption) (v : Scalar) : Prop :=
  (o.isFlag = true ∧ ∃ b, v = .bool b) ∨ (o = .optimizeFor ∧ ∃ n, v = .enum n)

theorem scalarValue_cases {r : FileRule} (hr : r ∈ C.fileRules)
    (ho : r.option.isFlag = true ∨ r.option = .optimizeFor) :
    (∃ v, scalarValue r.option r.value = .ok v ∧ Suits r.option v) ∨
      ∃ e, scalarValue r.option r.value = .error e ∧ Misled C e := by
  have hmisled := fun e he hno => misled_of_takes (e := e) hr he hno
  generalize r.option = o at ho hmisled ⊢
  generalize r.value = value at hmisled ⊢
  unfold scalarValue
  rcases ho with hflag | rfl
  · have hmode : o ≠ .optimizeFor := by
      rintro rfl
      cases hflag
    rw [if_neg hmode]
    cases value with
    | bool b => exact Or.inl ⟨.bool b, rfl, Or.inl ⟨hflag, b, rfl⟩⟩
    | string s => exact Or.inr ⟨_, rfl, hmisled _ (.flag _ _) (by simp [FileOption.takes, hflag])⟩
    | optimizeMode m => exact Or.inr ⟨_, rfl, hmisled _ (.flag _ _) (decide_eq_false hmode)⟩
    | jsType t => exact Or.inr ⟨_, rfl, hmisled _ (.flag _ _) rfl⟩
  · rw [if_pos rfl]
    cases value with
    | optimizeMode m => exact Or.inl ⟨.enum m.code, rfl, Or.inr ⟨rfl, m.code, rfl⟩⟩
    | string s => exact Or.inr ⟨_, rfl, hmisled _ (.mode _) rfl⟩
    | bool b => exact Or.inr ⟨_, rfl, hmisled _ (.mode _) rfl⟩
    | jsType t => exact Or.inr ⟨_, rfl, hmisled _ (.mode _) rfl⟩

/-- All overrides of an option that is no text come to a value of its kind, if the value before is
of that kind. -/
theorem applyScalar_cases (ho : o.isFlag = true ∨ o = .optimizeFor) {value : Option Scalar}
    (hvalue : ∀ v ∈ value, Suits o v) (hrules : rules ⊆ C.fileRules) :
    (∃ value', applyScalar o value rules = .ok value' ∧ ∀ v ∈ value', Suits o v) ∨
      ∃ e, applyScalar o value rules = .error e ∧ Misled C e := by
  induction rules generalizing value with
  | nil => exact Or.inl ⟨value, rfl, hvalue⟩
  | cons rule rest ih =>
    obtain ⟨hr, hrest⟩ := List.cons_subset.mp hrules
    rw [applyScalar]
    split
    · next hopt =>
      subst hopt
      rcases scalarValue_cases hr ho with ⟨v, hv, hsuits⟩ | ⟨e, he, hmisled⟩
      · rw [hv]
        exact ih (fun w hw => Option.some.inj hw ▸ hsuits) hrest
      · rw [he]
        exact Or.inr ⟨e, rfl, hmisled⟩
    · exact ih hvalue hrest

theorem scalarOption_cases {o : FileOption × Option Scalar} (ho : o ∈ scalarOptions) :
    (∃ value, scalarOption C o.1 o.2 f = .ok value ∧ ∀ v ∈ value, Suits o.1 v) ∨
      ∃ e, scalarOption C o.1 o.2 f = .error e ∧ Misled C e := by
  have hdefault : ∀ v ∈ o.2, Suits o.1 v := by
    simp only [scalarOptions, List.mem_cons, List.not_mem_nil, or_false] at ho
    rcases ho with rfl | rfl | rfl | rfl
    · exact fun v hv => Or.inl ⟨rfl, true, (Option.some.inj hv).symm⟩
    · exact fun v hv => by cases hv
    · exact fun v hv => Or.inr ⟨rfl, _, (Option.some.inj hv).symm⟩
    · exact fun v hv => by cases hv
  rw [scalarOption]
  split
  · exact Or.inl ⟨none, rfl, fun v hv => by cases hv⟩
  · exact applyScalar_cases (kind_facts.2.2 o ho) hdefault fileRulesFor_subset

/-- What an option is to be set to, its field takes, or an override stops the step. -/
theorem value_cases {s : FileOption × (ImageFile → Except Error (Option Scalar))}
    (hs : s ∈ optionSteps C) :
    (∃ value, s.2 f = .ok value ∧ ∀ v ∈ value, ∀ g ∈ fileOptionsType.fieldNamed? s.1.name,
      (Value.scalar v).fits g = true) ∨ ∃ e, s.2 f = .error e ∧ Misled C e := by
  have hkind := fun o : FileOption => kind_facts.1 o o.mem_all
  rcases List.mem_append.mp hs with hs | hs
  · obtain ⟨F, hF, rfl⟩ := List.mem_map.mp hs
    cases ht : textOption C F f with
    | error e => exact Or.inr ⟨e, by dsimp only; rw [ht]; rfl, textOption_misled hF ht⟩
    | ok text =>
      refine Or.inl ⟨text.map Scalar.string, by dsimp only; rw [ht]; rfl, fun v hv g hg => ?_⟩
      obtain ⟨t, -, rfl⟩ := Option.map_eq_some_iff.mp hv
      obtain ⟨hflag, hmode⟩ := kind_facts.2.1 F hF (some F.option) (by simp) F.option rfl
      unfold Value.fits
      rw [(hkind _ g hg).2.2 hflag hmode]
  · obtain ⟨o, ho, rfl⟩ := List.mem_map.mp hs
    rcases scalarOption_cases (C := C) (f := f) ho with ⟨value, hv, hsuits⟩ | h
    · refine Or.inl ⟨value, hv, fun v hv g hg => ?_⟩
      rcases hsuits v hv with ⟨hflag, b, rfl⟩ | ⟨hmode, n, rfl⟩
      · unfold Value.fits
        rw [(hkind _ g hg).1 hflag]
      · unfold Value.fits
        rw [(hkind _ g hg).2.1 hmode]
    · exact Or.inr h

theorem jsTypeValue_misled {r : FieldRule} (hr : r ∈ C.fieldRules)
    (he : jsTypeValue r.value = .error e) : Misled C e := by
  refine ⟨?_, fun hT => ?_⟩
  · unfold jsTypeValue at he
    split at he
    · cases he
    · exact Except.error.inj he ▸ .jsType _
  · obtain ⟨t, ht⟩ := hT.field r hr
    rw [ht] at he
    cases he

theorem applyJsType_misled {name : String} {value : Option JsType} {rules : List FieldRule}
    (hrules : rules ⊆ C.fieldRules) (he : applyJsType name value rules = .error e) :
    Misled C e := by
  induction rules generalizing value with
  | nil => cases he
  | cons rule rest ih =>
    obtain ⟨hr, hrest⟩ := List.cons_subset.mp hrules
    rw [applyJsType] at he
    split at he
    · split at he
      · exact ih hrest he
      · next hv => exact Except.error.inj he ▸ jsTypeValue_misled hr hv
    · exact ih hrest he

/-- What the rules choose for fields is stopped by one that gives no representation. -/
theorem jsTypeChanges_misled {rules : List FieldRule} {sites : List FieldSite}
    (hrules : rules ⊆ C.fieldRules) (he : jsTypeChanges C f rules sites = .error e) :
    Misled C e := by
  induction sites generalizing e with
  | nil => cases he
  | cons s rest ih =>
    rw [jsTypeChanges] at he
    split at he
    · exact ih he
    · split at he
      · next hv => exact Except.error.inj he ▸ applyJsType_misled hrules hv
      · split at he
        · next hv => exact Except.error.inj he ▸ ih hv
        · split at he <;> cases he

end DescriptorKit.Managed
