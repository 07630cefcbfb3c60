import DescriptorKit.Proofs.Image.Amenable
import DescriptorKit.Proofs.Managed.Left
import DescriptorKit.Proofs.Managed.Precedence

/-!
What a pass makes of the text options of a file. The overrides that bear on an option decide its
value, all of them have to give texts, and an option for which there is no value is left alone.
-/
namespace DescriptorKit.Managed
open Bundled Descriptor Modifying

variable {C : Config} {I J : Image} {F : Family} {f g : ImageFile}

section Decided

/-- What a text option comes to in a file. A disabled one is left alone. Otherwise the last override
that bears on it counts if it is one for the option itself; if it is not, or if there is none, the
value is derived from the file as it was before, if it can be. -/
inductive Decided (C : Config) (F : Family) (f g : ImageFile) : Prop
  | disabled (hd : C.fileOptionDisabled f F.option = true)
    (hg : KeepsOption F.option f.descriptor g.descriptor)
  | overridden (hd : C.fileOptionDisabled f F.option = false) (rule : FileRule) (s : String)
    (hl : (C.bearing F f).getLast? = some rule) (ho : rule.option = F.option)
    (hs : rule.value = .string s)
    (hg : g.descriptor.fileOption? F.option.name = some (.scalar (.string s)))
  | derived (hd : C.fileOptionDisabled f F.option = false) (s : String)
    (hl : ∀ rule, (C.bearing F f).getLast? = some rule → rule.option ≠ F.option)
    (hs : F.derive f (C.shape F f F.lead F.defaultLead) (C.shape F f F.tail F.defaultTail) = some s)
    (hg : g.descriptor.fileOption? F.option.name = some (.scalar (.string s)))
  | underived (hd : C.fileOptionDisabled f F.option = false)
    (hl : ∀ rule, (C.bearing F f).getLast? = some rule → rule.option ≠ F.option)
    (hs : F.derive f (C.shape F f F.lead F.defaultLead) (C.shape F f F.tail F.defaultTail) = none)
    (hg : KeepsOption F.option f.descriptor g.descriptor)

theorem textStep_mem (hF : F ∈ families) :
    (F.option, fun f => (textOption C F f).map fun s => s.map Scalar.string) ∈ optionSteps C :=
  List.mem_append_left _ (List.mem_map_of_mem hF)

theorem textOption_of_settled {k : ImageFile} (hF : F ∈ families) (h : AllSettled C f k) :
    ∃ value, textOption C F f = .ok value := by
  obtain ⟨r, hr, -⟩ := h.options _ (textStep_mem hF)
  dsimp only at hr
  cases hv : textOption C F f with
  | error e =>
    rw [hv] at hr
    cases hr
  | ok value => exact ⟨value, rfl⟩

theorem decided_of_rewrite (hf : f.descriptor.Mirrored) (ha : f.descriptor.decl.Addressable)
    (hk : f.isWellKnown = false) (h : rewrite C f = some g) (hF : F ∈ families) :
    Decided C F f g := by
  obtain ⟨p, -, hsettled, -, hmirrored, hsweeps⟩ := exists_run_of_rewrite hf ha hk h
  have hs := textStep_mem (C := C) hF
  obtain ⟨r, hr, hold⟩ := hsettled.options _ hs
  have hleft (hnone : textOption C F f = .ok none) :
    KeepsOption F.option f.descriptor g.descriptor :=
    keeps_of_rewrite hf ha hk h hs (by dsimp only; rw [hnone]; rfl)
  have hset (s : String) (hsome : textOption C F f = .ok (some s)) :
      g.descriptor.fileOption? F.option.name = some (.scalar (.string s)) := by
    dsimp only at hr
    rw [hsome] at hr
    exact (hsweeps.fileOption? hmirrored _).trans (hold _ (Except.ok.inj hr).symm)
  obtain ⟨value, hv⟩ := textOption_of_settled hF hsettled
  cases hd : C.fileOptionDisabled f F.option with
  | true => exact .disabled hd (hleft (if_pos hd))
  | false =>
    have htexts := texts_of_textOption hd hv
    have hvalue := textOption_of_texts hF hd htexts
    by_cases hl : ∀ rule, (C.bearing F f).getLast? = some rule → rule.option ≠ F.option
    · rw [Family.given_of_other hl, Option.none_or] at hvalue
      cases hs : F.derive f (C.shape F f F.lead F.defaultLead)
        (C.shape F f F.tail F.defaultTail) with
      | none => exact .underived hd hl hs (hleft (hvalue.trans (congrArg _ hs)))
      | some s => exact .derived hd s hl hs (hset s (hvalue.trans (congrArg _ hs)))
    · simp only [not_forall, not_not] at hl
      obtain ⟨rule, hl, ho⟩ := hl
      obtain ⟨s, hs⟩ := Option.ne_none_iff_exists'.mp (htexts rule (List.mem_of_getLast? hl))
      rw [Family.given_of_option hl ho, hs] at hvalue
      exact .overridden hd rule s hl ho (OverrideValue.text?_eq_some_iff.mp hs) (hset s hvalue)

/-- A file is only rewritten where all overrides that bear on its text options give texts. -/
theorem texts_of_rewrite (hf : f.descriptor.Mirrored) (ha : f.descriptor.decl.Addressable)
    (hk : f.isWellKnown = false) (h : rewrite C f = some g) (hF : F ∈ families)
    (hd : C.fileOptionDisabled f F.option = false) :
    ∀ rule ∈ C.bearing F f, ∃ s, rule.value = .string s := by
  obtain ⟨p, -, hsettled, -⟩ := exists_run_of_rewrite hf ha hk h
  obtain ⟨value, hv⟩ := textOption_of_settled hF hsettled
  intro rule hrule
  obtain ⟨s, hs⟩ := Option.ne_none_iff_exists'.mp (texts_of_textOption hd hv rule hrule)
  exact ⟨s, OverrideValue.text?_eq_some_iff.mp hs⟩

end Decided

section Passes

/-- The paths by which rules choose files are in normal form. -/
def Config.Normal (C : Config) : Prop :=
  ∀ s ∈ C.disables.map (·.selector) ++ C.fileRules.map (·.selector) ++
    C.fieldRules.map (·.selector),
    ∀ p ∈ s.path, Path.normalize p = .ok p

theorem validate_of_normal (h : C.Normal) : C.validate = .ok () := by
  have hselector (s : Selector) (hs : ∀ p ∈ s.path, Path.normalize p = .ok p) :
      s.validate = .ok () := by
    rw [Selector.validate]
    cases hp : s.path with
    | none => rfl
    | some p => simp [hs p hp]
  have hall {α : Type} (selector : α → Selector) (l : List α)
      (hl : ∀ s ∈ l.map selector, ∀ p ∈ s.path, Path.normalize p = .ok p) :
      (l.forM fun a => (selector a).validate) = .ok () := by
    induction l with
    | nil => rfl
    | cons a l ih =>
      obtain ⟨ha, hl⟩ := List.forall_mem_cons.mp hl
      have hfirst : ((a :: l).forM fun a => (selector a).validate) =
        (selector a).validate >>= fun _ => l.forM fun a => (selector a).validate := rfl
      rw [hfirst, hselector _ ha]
      exact ih hl
  rw [Config.Normal, List.forall_mem_append, List.forall_mem_append] at h
  have hdisables : (C.disables.forM fun r => r.selector.validate) = .ok () := hall _ _ h.1.1
  have hfile : (C.fileRules.forM fun r => r.selector.validate) = .ok () := hall _ _ h.1.2
  have hfield : (C.fieldRules.forM fun r => r.selector.validate) = .ok () := hall _ _ h.2
  rw [Config.validate, hdisables, hfile, hfield]
  rfl

theorem exists_rewrite_of_turns (h : Turns C I J) (hf : f ∈ I.files) :
    ∃ g, rewrite C f = some g := by
  have hrel := (turns_iff_related.mp h).2.files
  obtain ⟨i, hi, rfl⟩ := List.getElem_of_mem hf
  exact ⟨_, hrel.get hi (hrel.length_eq ▸ hi)⟩

/-- Where a pass succeeds, each text option of a file that is not well known is what the overrides
of it come to. An override that bears on one and gives no text stops the pass, with an internal
error if nothing else can go wrong. -/
theorem modify_precedence (hI : I.Mirrored) (C : Config) :
    (∀ J r, modify I C = (J, .ok r) → List.Forall₂ (fun e e' => e'.1 = e.1 ∧
      (e.2.isWellKnown = false → ∀ F ∈ families, Decided C F e.2 e'.2)) I.entries J.entries) ∧
    (C.Normal → ∀ f ∈ I.files, f.isWellKnown = false → ∀ F ∈ families,
      C.fileOptionDisabled f F.option = false → ∀ rule ∈ C.bearing F f,
        (∀ s, rule.value ≠ .string s) → ∃ e, (modify I C).2 = .error e ∧
          ((∀ f ∈ I.files, f.descriptor.Ready) → Brief C I.entries → e.category = .internal)) := by
  constructor
  · intro J r h
    have hall : ∀ e ∈ I.entries, e.2.descriptor.Mirrored ∧ e.2.descriptor.decl.Addressable :=
      fun e he => hI e.2 (List.mem_map_of_mem he)
    have hrel := (turns_iff_related.mp ⟨r, h⟩).2
    refine ((List.forall₂_and_left _ _).mpr ⟨hall, hrel⟩).imp fun e e' he => ?_
    exact ⟨he.2.1, fun hk F hF => decided_of_rewrite he.1.1 he.1.2 hk he.2.2 hF⟩
  · intro hC f hf hk F hF hd rule hrule hno
    cases hr : (modify I C).2 with
    | ok report =>
      obtain ⟨g, hg⟩ := exists_rewrite_of_turns ⟨report, Prod.ext rfl hr⟩ hf
      obtain ⟨hmirrored, ha⟩ := hI f hf
      obtain ⟨s, hs⟩ := texts_of_rewrite hmirrored ha hk hg hF hd rule hrule
      exact absurd hs (hno s)
    | error e =>
      refine ⟨e, rfl, fun hready hbrief => ?_⟩
      rcases modify_error hready hbrief hr with he | ⟨he, -⟩
      · rw [validate_of_normal hC] at he
        cases he
      · cases he <;> rfl

/-- Rules that give a flag where a text is to be had. -/
def flagForText : Config :=
  { onlyGo with fileRules := [{ option := .goPackageLead, value := .bool true }] }

/-- Whether an image has a file that is not well known, and a pass that is stopped by those rules
leaves what can be read. -/
def isOpen (I : Image) : Bool :=
  I.files.any (fun f => !f.isWellKnown) &&
    I.files.all (fun f => f.descriptor.decl.views.all fun v =>
      v.path.length / 2 < Message.maxDepth) &&
      (modifyFiles flagForText I.entries).1.all fun m => m.1.2.descriptor.encode.length < 2 ^ 64

theorem isOpen_located :
    (Image.decode located { reparse := false }).toOption.map isOpen = some true := by
  decide +kernel

theorem modify_precedence_located : ∃ I J r, Image.decode located { reparse := false } = .ok I ∧
    I.Mirrored ∧ modify I onlyGo = (J, .ok r) ∧ List.Forall₂ (fun e e' => e'.1 = e.1 ∧
      (e.2.isWellKnown = false → ∀ F ∈ families, Decided onlyGo F e.2 e'.2))
        I.entries J.entries ∧
    ∃ e, (modify I flagForText).2 = .error e ∧ e.category = .internal := by
  obtain ⟨I, J, hI, ⟨r, hr⟩, hmirrored, -⟩ := exists_located
  have hopen := isOpen_located
  rw [hI] at hopen
  obtain ⟨hopen, hbrief⟩ := Bool.and_eq_true_iff.mp (Option.some.inj hopen)
  obtain ⟨hopen, hshallow⟩ := Bool.and_eq_true_iff.mp hopen
  obtain ⟨f, hf, hk⟩ := List.any_eq_true.mp hopen
  have hready : ∀ f ∈ I.files, f.descriptor.Ready := fun f hf =>
    { mirrored := (hmirrored f hf).1
      settable := (Image.builtin_of_decode rfl hI f hf).schema ▸ Image.descriptorSchema_settable
      addressable := (hmirrored f hf).2
      shallow := by simpa using List.all_eq_true.mp hshallow f hf }
  have hpaths : ∀ s ∈ flagForText.disables.map (·.selector) ++
    flagForText.fileRules.map (·.selector)
      ++ flagForText.fieldRules.map (·.selector), s.path = none := by
    decide
  have hnormal : flagForText.Normal := fun s hs p hp => by simp [hpaths s hs] at hp
  have hfails := (modify_precedence hmirrored flagForText).2 hnormal
    f hf (by simpa using hk) families[2] (List.getElem_mem _) rfl
    { option := .goPackageLead, value := .bool true } (List.mem_singleton_self _) nofun
  obtain ⟨e, he, hinternal⟩ := hfails
  refine ⟨I, J, r, hI, hmirrored, hr, (modify_precedence hmirrored onlyGo).1 J r hr, e, he,
    hinternal hready fun m hm => ?_⟩
  simpa using List.all_eq_true.mp hbrief m hm

/-- The bytes of a file that declares descriptors which have a package or a syntax, but not both,
and of a file that has both. -/
def torn : Bytes :=
  let descriptor : MessageDecl :=
    { name := "FileDescriptorProto"
      fields := [one "name" 1 text, inOneof (one "package" 2 text) 0,
        one "options" 8 (message "FileOptions"), inOneof (one "syntax" 12 text) 0]
      oneofs := [{ name := "last" }] }
  let options : MessageDecl :=
    { name := "FileOptions"
      fields := [one "objc_class_prefix" 36 text, one "csharp_namespace" 37 text] }
  Storage.encodeFiles
    [FileDecl.toMessage
      { name := "google/protobuf/descriptor.proto", package := some "google.protobuf"
        messages := [descriptor, options] } |>.encode,
      FileDecl.toMessage
        { name := "a.proto", package := some "acme", dialect := some "proto3" } |>.encode]

/-- Rules that set no options but those two. -/
def onlyNames : Config :=
  { disables := (FileOption.all.filter fun o => o ∉ [.objcClassPrefix, .csharpNamespace]).map
      fun o => { fileOption := some o } }

/-- What a file has for a text option. -/
def optionText? (f : ImageFile) (o : FileOption) : Option String :=
  match f.descriptor.fileOption? o.name with
  | some (.scalar (.string s)) => some s
  | _ => none

/-- The package of the second file before a pass that succeeds, and the options it has after it. -/
def namesAround (I : Image) : Option (String × List (Option String)) := do
  let f ← I.files[1]?
  let g ← (modify I onlyNames).1.files[1]?
  if (modify I onlyNames).2.toOption.isSome && !f.isWellKnown then
    some (f.descriptor.package, [FileOption.objcClassPrefix, .csharpNamespace].map (optionText? g))
  else none

theorem namesAround_torn : (Image.decode torn {}).toOption.bind namesAround =
    some ("acme", [some "AXX", some ""]) := by
  decide +kernel

/-- Where the schema of an image drops the package of a file as soon as options are set, the options
after the first are not derived. -/
theorem not_decided_torn : ∃ I J r, Image.decode torn {} = .ok I ∧
    modify I onlyNames = (J, .ok r) ∧ ¬ List.Forall₂ (fun e e' => e'.1 = e.1 ∧
      (e.2.isWellKnown = false → ∀ F ∈ families, Decided onlyNames F e.2 e'.2))
        I.entries J.entries := by
  obtain ⟨I, hI, h⟩ := Option.bind_eq_some_iff.mp namesAround_torn
  obtain ⟨f, hf, h⟩ := Option.bind_eq_some_iff.mp h
  obtain ⟨g, hg, h⟩ := Option.bind_eq_some_iff.mp h
  obtain ⟨hok, h⟩ := Option.ite_none_right_eq_some.mp h
  obtain ⟨hok, hk⟩ := Bool.and_eq_true_iff.mp hok
  obtain ⟨hpackage, hnames⟩ := Prod.mk.inj (Option.some.inj h)
  obtain ⟨r, hr⟩ := Option.isSome_iff_exists.mp hok
  refine ⟨I, _, r, ok_of_toOption hI, Prod.ext rfl (ok_of_toOption hr), fun hall => ?_⟩
  have hfiles : List.Forall₂ (fun f g => f.isWellKnown = false → ∀ F ∈ families,
      Decided onlyNames F f g) I.files (modify I onlyNames).1.files :=
    List.forall₂_map_left_iff.mpr (List.forall₂_map_right_iff.mpr (hall.imp fun _ _ he => he.2))
  obtain ⟨hi, rfl⟩ := List.getElem?_eq_some_iff.mp hf
  obtain ⟨hj, rfl⟩ := List.getElem?_eq_some_iff.mp hg
  have hdecided : Decided onlyNames families[4] I.files[1] (modify I onlyNames).1.files[1] :=
    hfiles.get hi hj (by simpa using hk) _ (List.getElem_mem _)
  generalize I.files[1] = f at hdecided hpackage
  generalize (modify I onlyNames).1.files[1] = g at hdecided hnames
  have hempty : optionText? g .csharpNamespace = some "" :=
    (List.cons.inj (List.cons.inj hnames).2).1
  cases hdecided with
  | disabled hd => cases hd
  | overridden hd rule s hl => cases hl
  | derived hd s hl hs hg =>
    have htext : optionText? g .csharpNamespace = some s := by
      rw [optionText?]
      exact hg ▸ rfl
    obtain rfl := Option.some.inj (htext.symm.trans hempty)
    change Value.csharpNamespace f.descriptor.package none = some "" at hs
    rw [hpackage] at hs
    exact absurd hs (by decide +kernel)
  | underived hd hl hs =>
    change Value.csharpNamespace f.descriptor.package none = none at hs
    rw [hpackage] at hs
    cases hs

end Passes

end DescriptorKit.Managed
