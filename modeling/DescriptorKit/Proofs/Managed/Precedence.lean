import DescriptorKit.Managed.Modify
import Mathlib.Data.List.DropRight
import Mathlib.Data.List.Induction

/-!
What the overrides of a text option come to. The last of them decides whether the value is given or
derived, and a derived value is shaped by the overrides since the last one that gave a value.
-/
namespace DescriptorKit.Managed

variable {C : Config} {F : Family} {f : ImageFile} {o : FileOption} {v : OverrideValue}
  {r r' : Resolved} {rule : FileRule} {rules : List FileRule} {leadEnabled tailEnabled : Bool}

def OverrideValue.text? : OverrideValue → Option String
  | .string s => some s
  | _ => none

theorem OverrideValue.text?_eq_some_iff {s : String} : v.text? = some s ↔ v = .string s := by
  cases v <;> simp [text?]

theorem textValue_of_none (h : v.text? = none) :
    textValue o v = .error (.breach (.textExpected o v)) := by
  cases v with
  | string t => cases h
  | _ => rfl

/-- The text that shapes one end of a derived value: that of the last rule for it since the last
rule for the option itself. Where there is none, the default counts unless a rule is for the
option. -/
def Family.shape (F : Family) (part : Option FileOption) (default : Option String)
    (rules : List FileRule) : Option String :=
  let since := rules.rtakeWhile fun r => r.option ≠ F.option
  match (since.filter fun r => some r.option = part).getLast? with
  | some r => r.value.text?
  | none => if rules.any fun r => r.option = F.option then none else default

/-- The text that is given by the last rule, if this is one for the option itself. -/
def Family.given (F : Family) (rules : List FileRule) : Option String :=
  (rules.getLast?.filter fun r => r.option = F.option).bind fun r => r.value.text?

section Shape

variable {part : Option FileOption} {default : Option String}

theorem Family.shape_option (h : rule.option = F.option) :
    F.shape part default (rules ++ [rule]) = none := by
  simp [shape, h]

theorem Family.shape_part (hn : rule.option ≠ F.option) (h : some rule.option = part) :
    F.shape part default (rules ++ [rule]) = rule.value.text? := by
  simp [shape, hn, h]

theorem Family.shape_other (hn : rule.option ≠ F.option) (h : some rule.option ≠ part) :
    F.shape part default (rules ++ [rule]) = F.shape part default rules := by
  simp [shape, hn, h]

theorem Family.given_of_option (hl : rules.getLast? = some rule) (h : rule.option = F.option) :
    F.given rules = rule.value.text? := by
  simp [given, Option.filter, hl, h]

theorem Family.given_of_other (h : ∀ rule, rules.getLast? = some rule → rule.option ≠ F.option) :
    F.given rules = none := by
  cases hl : rules.getLast? with
  | none => simp [given, hl]
  | some rule => simp [given, Option.filter, hl, h rule hl]

end Shape

/-- An option is no end of itself, and its two ends differ. -/
theorem families_apart : ∀ F ∈ families, F.lead ≠ some F.option ∧ F.tail ≠ some F.option ∧
    ∀ o, F.lead = some o → F.tail ≠ some o := by
  simp [families]

theorem apply_concat (r : Resolved) (rules : List FileRule) (rule : FileRule) :
    r.apply F leadEnabled tailEnabled (rules ++ [rule]) =
      (r.apply F leadEnabled tailEnabled rules).bind
        fun r => r.apply F leadEnabled tailEnabled [rule] := by
  induction rules generalizing r with
  | nil => rfl
  | cons first rest ih =>
    rw [List.cons_append, Resolved.apply, Resolved.apply]
    split
    · split
      · exact ih _
      · rfl
    · split
      · split
        · exact ih _
        · rfl
      · split
        · split
          · exact ih _
          · rfl
        · exact ih _

/-- A rule that is taken into account. -/
def Family.counts (F : Family) (leadEnabled tailEnabled : Bool) (rule : FileRule) : Bool :=
  rule.option = F.option || leadEnabled && some rule.option = F.lead ||
    tailEnabled && some rule.option = F.tail

theorem apply_filter (r : Resolved) (rules : List FileRule) :
    r.apply F leadEnabled tailEnabled rules =
      r.apply F leadEnabled tailEnabled (rules.filter (F.counts leadEnabled tailEnabled)) := by
  induction rules generalizing r with
  | nil => rfl
  | cons rule rest ih =>
    by_cases hc : F.counts leadEnabled tailEnabled rule = true
    · rw [List.filter_cons_of_pos hc, Resolved.apply, Resolved.apply]
      simp only [ih]
    · rw [List.filter_cons_of_neg hc, ← ih, Resolved.apply]
      simp only [Family.counts, Bool.or_eq_true, decide_eq_true_eq, not_or] at hc
      rw [if_neg hc.1.1, if_neg hc.1.2, if_neg hc.2]

/-- Overrides that all give a text are taken into account, and the last ones of each kind tell what
they come to. -/
theorem apply_texts (hF : F ∈ families) (hs : r.value = none)
    (hc : ∀ rule ∈ rules, F.counts leadEnabled tailEnabled rule = true)
    (ht : ∀ rule ∈ rules, rule.value.text? ≠ none) :
    r.apply F leadEnabled tailEnabled rules = .ok
      { value := F.given rules
        lead := F.shape F.lead r.lead rules
        tail := F.shape F.tail r.tail rules } := by
  obtain ⟨hlead, htail, hends⟩ := families_apart F hF
  induction rules using List.reverseRecOn with
  | nil =>
    obtain ⟨value, lead, tail⟩ := r
    obtain rfl : value = none := hs
    rfl
  | append_singleton rules rule ih =>
    obtain ⟨s, hv⟩ := Option.ne_none_iff_exists'.mp (ht rule (by simp))
    have htext : textValue rule.option rule.value = .ok s := by
      rw [OverrideValue.text?_eq_some_iff.mp hv]
      rfl
    have hc' := hc rule (by simp)
    have ih := ih (fun x hx => hc x (by simp [hx])) fun x hx => ht x (by simp [hx])
    have hlast : (rules ++ [rule]).getLast? = some rule := List.getLast?_concat
    rw [apply_concat, ih]
    dsimp only [Except.bind]
    rw [Resolved.apply]
    simp only [htext]
    by_cases hoption : rule.option = F.option
    · rw [if_pos hoption, Family.given_of_option hlast hoption, hv, Family.shape_option hoption,
        Family.shape_option hoption]
      rfl
    · simp only [Family.counts, hoption, decide_false, Bool.false_or, Bool.or_eq_true] at hc'
      have hgiven : F.given (rules ++ [rule]) = none := by
        refine Family.given_of_other fun x hx => ?_
        rw [← Option.some.inj (hlast.symm.trans hx)]
        exact hoption
      rw [if_neg hoption, hgiven]
      rcases hc' with hc' | hc'
      · have hpart : some rule.option = F.lead := by simpa using (Bool.and_eq_true_iff.mp hc').2
        have hother : some rule.option ≠ F.tail := fun he => hends _ hpart.symm he.symm
        rw [if_pos hc', Family.shape_part hoption hpart, Family.shape_other hoption hother, hv]
        rfl
      · have hpart : some rule.option = F.tail := by simpa using (Bool.and_eq_true_iff.mp hc').2
        have hother : some rule.option ≠ F.lead := fun he => hends _ he.symm hpart.symm
        rw [if_neg (by simp [hother]), if_pos hc', Family.shape_part hoption hpart,
          Family.shape_other hoption hother, hv]
        rfl

/-- An override that is taken into account and gives no text stops the pass. -/
theorem texts_of_apply (h : r.apply F leadEnabled tailEnabled rules = .ok r') :
    ∀ rule ∈ rules, F.counts leadEnabled tailEnabled rule = true → rule.value.text? ≠ none := by
  have htext {o : FileOption} {v : OverrideValue} {s : String} (h : textValue o v = .ok s) :
      v.text? ≠ none := fun hv => by
    rw [textValue_of_none hv] at h
    cases h
  induction rules generalizing r with
  | nil => simp
  | cons first rest ih =>
    rw [Resolved.apply] at h
    rw [List.forall_mem_cons]
    split at h
    · split at h
      · next hv => exact ⟨fun _ => htext hv, ih h⟩
      · cases h
    · split at h
      · split at h
        · next hv => exact ⟨fun _ => htext hv, ih h⟩
        · cases h
      · split at h
        · split at h
          · next hv => exact ⟨fun _ => htext hv, ih h⟩
          · cases h
        · next hoption hlead htail =>
          refine ⟨fun hc => ?_, ih h⟩
          simp only [Family.counts, hoption, decide_false, Bool.false_or, Bool.or_eq_true] at hc
          exact absurd hc (by simp [hlead, htail])

section Config

/-- The overrides that have a say in a text option of a file, in the order they are declared: those
of the option itself, and those of its ends as far as these are not disabled. -/
def Config.bearing (C : Config) (F : Family) (f : ImageFile) : List FileRule :=
  (C.fileRulesFor f).filter fun r => r.option = F.option ||
    (some r.option = F.lead || some r.option = F.tail) && !C.fileOptionDisabled f r.option

/-- The text that shapes one end of what is derived for a file. A default does not count where the
end is disabled. -/
def Config.shape (C : Config) (F : Family) (f : ImageFile) (part : Option FileOption)
    (default : Option String) : Option String :=
  F.shape part (default.filter fun _ => part.any fun o => !C.fileOptionDisabled f o)
    (C.bearing F f)

theorem Config.bearing_eq (C : Config) (F : Family) (f : ImageFile) :
    C.bearing F f = (C.fileRulesFor f).filter
      (F.counts (F.lead.any fun o => !C.fileOptionDisabled f o)
        (F.tail.any fun o => !C.fileOptionDisabled f o)) := by
  have hopen (part : Option FileOption) (r : FileRule) :
      ((part.any fun o => !C.fileOptionDisabled f o) && decide (some r.option = part)) =
        (decide (some r.option = part) && !C.fileOptionDisabled f r.option) := by
    by_cases h : some r.option = part
    · simp [← h]
    · simp [h]
  apply List.filter_congr
  intro r hr
  rw [Family.counts, hopen, hopen, Bool.or_assoc, Bool.and_or_distrib_right]

/-- The value of a text option that is not disabled, as far as the overrides give texts. -/
theorem textOption_of_texts (hF : F ∈ families) (he : C.fileOptionDisabled f F.option = false)
    (ht : ∀ rule ∈ C.bearing F f, rule.value.text? ≠ none) : textOption C F f =
      .ok ((F.given (C.bearing F f)).or (F.derive f (C.shape F f F.lead F.defaultLead)
        (C.shape F f F.tail F.defaultTail))) := by
  have hc : ∀ rule ∈ C.bearing F f, F.counts (F.lead.any fun o => !C.fileOptionDisabled f o)
      (F.tail.any fun o => !C.fileOptionDisabled f o) rule = true := by
    intro rule hrule
    rw [Config.bearing_eq] at hrule
    exact (List.mem_filter.mp hrule).2
  rw [textOption, if_neg (by simp [he])]
  dsimp only
  rw [apply_filter, ← Config.bearing_eq, apply_texts hF rfl hc ht]
  cases F.given (C.bearing F f) <;> rfl

theorem texts_of_textOption {value : Option String} (he : C.fileOptionDisabled f F.option = false)
    (h : textOption C F f = .ok value) : ∀ rule ∈ C.bearing F f, rule.value.text? ≠ none := by
  rw [textOption, if_neg (by simp [he])] at h
  dsimp only at h
  split at h
  · cases h
  · next hr =>
    intro rule hrule
    rw [Config.bearing_eq] at hrule
    obtain ⟨hrule, hc⟩ := List.mem_filter.mp hrule
    exact texts_of_apply hr rule hrule hc

end Config

end DescriptorKit.Managed
