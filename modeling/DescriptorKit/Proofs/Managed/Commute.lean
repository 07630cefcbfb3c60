import DescriptorKit.Proofs.Image.Run
import DescriptorKit.Proofs.Image.Views
import DescriptorKit.Proofs.Managed.Image

/-!
A pass makes of each file what the file alone calls for: neither the other files of the image nor
the import flag have a say. So it does not matter whether an image is modified before or after it is
narrowed, split, stripped of its imports or merged.
-/
namespace DescriptorKit.Managed
open Bundled Image Modifying

/-- What a pass makes of a file, if it succeeds. -/
def rewrite (C : Config) (f : ImageFile) : Option ImageFile :=
  if f.isWellKnown then some f
  else
    match runOn (modifyFile C) { file := f } with
    | (.error _, _) => none
    | (.ok (), p) =>
      match sweepFile ((f.path, p.file), p.marks) with
      | (_, .error _) => none
      | (e, .ok _) => some e.2

section Blind

variable {α β : Type} {x : Modifying α} {next : α → Modifying β} {C : Config} {f g : ImageFile}

/-- The same progress in the file as a target or as an import. -/
def Progress.withImport (p : Progress) (b : Bool) : Progress :=
  { p with file := p.file.withImport b }

/-- A step that takes no notice of the import flag. -/
def Blind (x : Modifying α) : Prop :=
  ∀ p b, runOn x (p.withImport b) = ((runOn x p).1, (runOn x p).2.withImport b)

theorem blind_pure (a : α) : Blind (pure a : Modifying α) := fun _ _ => rfl

theorem blind_throw (e : Error) : Blind (throw e : Modifying α) := fun _ _ => rfl

theorem blind_mark (path : List Int32) : Blind (mark path) := fun _ _ => rfl

theorem blind_change (change : Descriptor → Descriptor × Except Error α) :
    Blind (Modifying.change change) := by
  intro p b
  rw [runOn_change, runOn_change]
  rfl

theorem blind_bind (hx : Blind x) (hn : ∀ a, Blind (next a)) : Blind (x >>= next) := by
  intro p b
  rw [runOn_bind, runOn_bind, hx p b]
  rcases runOn x p with ⟨r, q⟩
  cases r with
  | ok a => exact hn a q b
  | error e => rfl

theorem blind_forM {l : List β} {step : β → Modifying Unit} (h : ∀ a ∈ l, Blind (step a)) :
    Blind (l.forM step) := by
  induction l with
  | nil => exact blind_pure ()
  | cons a l ih =>
    exact blind_bind (h a (by simp)) fun _ => ih fun a ha => h a (List.mem_cons_of_mem _ ha)

theorem blind_file {next : ImageFile → Modifying α} (hf : ∀ f b, next (f.withImport b) = next f)
    (hn : ∀ f, Blind (next f)) : Blind (Modifying.file >>= next) := by
  intro p b
  rw [runOn_bind, runOn_bind, runOn_file, runOn_file]
  change runOn (next (p.file.withImport b)) (p.withImport b) = _
  rw [hf]
  exact hn p.file p b

theorem setIfChanged_blind (o : FileOption) (s : Scalar) : Blind (setIfChanged o s) := by
  have hset : ∀ path, Blind (Modifying.change (fun d => d.setFileOption o.name s) >>=
      fun _ => mark path) := fun path =>
    blind_bind (blind_change _) fun _ => blind_mark path
  unfold setIfChanged
  split
  · exact blind_throw _
  · refine blind_file (fun _ _ => rfl) fun f => ?_
    split
    · split
      · exact blind_pure _
      · exact hset _
    · exact hset _

theorem modifyOption_blind {o : FileOption} {value : ImageFile → Except Error (Option Scalar)}
    (h : ∀ f b, value (f.withImport b) = value f) : Blind (modifyOption o value) := by
  refine blind_file (fun f b => by simp only [h]) fun f => ?_
  split
  · exact blind_throw _
  · exact blind_pure _
  · exact setIfChanged_blind o _

theorem derive_withImport {F : Family} (hF : F ∈ families) (f : ImageFile) (b : Bool) :
    F.derive (f.withImport b) = F.derive f := by
  simp only [families, List.mem_cons, List.not_mem_nil, or_false] at hF
  rcases hF with rfl | rfl | rfl | rfl | rfl | rfl | rfl | rfl | rfl <;> rfl

theorem textOption_withImport {F : Family} (hF : F ∈ families) (f : ImageFile) (b : Bool) :
    textOption C F (f.withImport b) = textOption C F f := by
  unfold textOption
  rw [derive_withImport hF]
  rfl

theorem jsTypeChanges_withImport (f : ImageFile) (b : Bool) (rules : List FieldRule)
    (sites : List FieldSite) :
    jsTypeChanges C (f.withImport b) rules sites = jsTypeChanges C f rules sites := by
  have hd : ∀ name o, C.fieldOptionDisabled (f.withImport b) name o =
      C.fieldOptionDisabled f name o := fun _ _ => rfl
  induction sites with
  | nil => rfl
  | cons s sites ih => rw [jsTypeChanges, jsTypeChanges, hd, ih]

theorem modifyJsTypes_blind (C : Config) : Blind (modifyJsTypes C) := by
  refine blind_file (fun f b => ?_) fun f => ?_
  · have hrules : C.fieldRulesFor (f.withImport b) = C.fieldRulesFor f := rfl
    simp only [hrules, jsTypeChanges_withImport]
    rfl
  · dsimp only
    split
    · exact blind_pure _
    · cases jsTypeChanges C f ((C.fieldRulesFor f).filter fun r => r.option = .jsType)
        (fieldSites f.descriptor.decl) with
      | error e => exact blind_throw e
      | ok changes =>
        exact blind_forM fun c _ => blind_bind (blind_change _) fun _ => blind_mark _

theorem modifyFile_blind (C : Config) : Blind (modifyFile C) := by
  refine blind_bind (blind_forM fun F hF => modifyOption_blind fun f b => ?_) fun _ => ?_
  · rw [textOption_withImport hF]
  · refine blind_bind (blind_forM fun o _ => modifyOption_blind fun f b => rfl) fun _ => ?_
    exact modifyJsTypes_blind C

theorem sweepFile_withImport (path : String) (f : ImageFile) (b : Bool)
    (marks : List (List Int32)) : sweepFile ((path, f.withImport b), marks) =
      ((path, (sweepFile ((path, f), marks)).1.2.withImport b),
        (sweepFile ((path, f), marks)).2) := by
  rw [sweepFile, sweepFile]
  split <;> rfl

/-- A file that is modified as a target is modified in the same way as an import. -/
theorem rewrite_withImport (h : rewrite C f = some g) (b : Bool) :
    rewrite C (f.withImport b) = some (g.withImport b) := by
  have hrun := modifyFile_blind C { file := f } b
  have hw : (f.withImport b).isWellKnown = f.isWellKnown := rfl
  have hp : (f.withImport b).path = f.path := rfl
  rw [rewrite] at h ⊢
  rw [hw, hp]
  by_cases hk : f.isWellKnown = true
  · rw [if_pos hk] at h ⊢
    rw [Option.some.inj h]
  · rw [if_neg hk] at h ⊢
    change runOn (modifyFile C) { file := f.withImport b } = _ at hrun
    rw [hrun]
    generalize runOn (modifyFile C) { file := f } = outcome at h ⊢
    obtain ⟨r, p⟩ := outcome
    cases r with
    | error e => cases h
    | ok u =>
      dsimp only [Progress.withImport] at h ⊢
      rw [sweepFile_withImport]
      generalize sweepFile ((f.path, p.file), p.marks) = swept at h ⊢
      obtain ⟨e, n⟩ := swept
      cases n with
      | error e => cases h
      | ok n =>
        obtain rfl := Option.some.inj h
        rfl

end Blind

section Turns

variable {C : Config} {I J : Image} {path : String} {f : ImageFile}
  {entries out : List (String × ImageFile)}

/-- A pass over an image succeeds and turns it into another one. -/
def Turns (C : Config) (I J : Image) : Prop := ∃ r, modify I C = (J, .ok r)

/-- What comes of a list of files: all are modified, and swept of the places noted. -/
def Passes (C : Config) (entries out : List (String × ImageFile)) : Prop :=
  (modifyFiles C entries).2 = .ok () ∧
    (∃ n, total (((modifyFiles C entries).1.map sweepFile).map (·.2)) = .ok n) ∧
    ((modifyFiles C entries).1.map sweepFile).map (·.1) = out

theorem turns_iff : Turns C I J ↔ C.validate = .ok () ∧ Passes C I.entries J.entries := by
  obtain ⟨out⟩ := J
  rw [Turns, Passes, modify]
  cases C.validate with
  | error e => simp
  | ok u =>
    dsimp only
    cases (modifyFiles C I.entries).2 with
    | error e => simp
    | ok u =>
      cases total (((modifyFiles C I.entries).1.map sweepFile).map (·.2)) with
      | error e => simp
      | ok n => simp

theorem total_cons_iff {r : Except Error Nat} {rest : List (Except Error Nat)} :
    (∃ n, total (r :: rest) = .ok n) ↔ (∃ n, r = .ok n) ∧ ∃ n, total rest = .ok n := by
  rw [total]
  cases r with
  | error e => simp [bind, Except.bind]
  | ok m => cases total rest <;> simp [bind, Except.bind]

theorem sweepFile_path (path other : String) (f : ImageFile) (marks : List (List Int32)) :
    sweepFile ((path, f), marks) =
      ((path, (sweepFile ((other, f), marks)).1.2), (sweepFile ((other, f), marks)).2) := by
  rw [sweepFile, sweepFile]
  split <;> rfl

/-- The first file is modified on its own, whatever files come after it. -/
theorem passes_cons_iff : Passes C ((path, f) :: entries) out ↔
    ∃ g rest, rewrite C f = some g ∧ Passes C entries rest ∧ out = (path, g) :: rest := by
  rw [Passes, modifyFiles, rewrite]
  by_cases hk : f.isWellKnown = true
  · simp only [hk, if_true, List.map_cons, total_cons_iff, sweepFile, Passes]
    constructor
    · rintro ⟨h, ⟨-, ht⟩, rfl⟩
      exact ⟨f, _, rfl, ⟨h, ht, rfl⟩, rfl⟩
    · rintro ⟨g, rest, hg, ⟨h, ht, rfl⟩, rfl⟩
      obtain rfl := Option.some.inj hg
      exact ⟨h, ⟨⟨0, rfl⟩, ht⟩, rfl⟩
  · have hrun : (modifyFile C).run.run { file := f } = runOn (modifyFile C) { file := f } := rfl
    rw [if_neg hk, if_neg hk, hrun]
    generalize runOn (modifyFile C) { file := f } = outcome
    obtain ⟨r, p⟩ := outcome
    cases r with
    | error e =>
      simp
    | ok u =>
      simp only [List.map_cons, total_cons_iff, Passes]
      rw [sweepFile_path path f.path]
      generalize sweepFile ((f.path, p.file), p.marks) = swept
      obtain ⟨e, n⟩ := swept
      cases n with
      | error e => simp
      | ok n =>
        constructor
        · rintro ⟨h, ⟨-, ht⟩, rfl⟩
          exact ⟨_, _, rfl, ⟨h, ht, rfl⟩, rfl⟩
        · rintro ⟨g, rest, hg, ⟨h, ht, rfl⟩, rfl⟩
          obtain rfl := Option.some.inj hg
          exact ⟨h, ⟨⟨n, rfl⟩, ht⟩, rfl⟩

theorem passes_iff : Passes C entries out ↔
    List.Forall₂ (Entry fun f g => rewrite C f = some g) entries out := by
  induction entries generalizing out with
  | nil => simp [Passes, modifyFiles, total, eq_comm]
  | cons e entries ih =>
    obtain ⟨path, f⟩ := e
    rw [passes_cons_iff, List.forall₂_cons_left_iff]
    constructor
    · rintro ⟨g, rest, hg, hrest, rfl⟩
      exact ⟨(path, g), rest, ⟨rfl, hg⟩, ih.mp hrest, rfl⟩
    · rintro ⟨⟨path', g⟩, rest, ⟨rfl, hg⟩, hrest, rfl⟩
      exact ⟨g, rest, hg, ih.mpr hrest, rfl⟩

/-- A pass succeeds where it succeeds on every file, and makes of each what it makes of the file on
its own. -/
theorem turns_iff_related : Turns C I J ↔
    C.validate = .ok () ∧ Related (fun f g => rewrite C f = some g) I J := by
  rw [turns_iff, passes_iff]

variable {R S : Descriptor → Descriptor → Prop}

theorem sweepFile_conducted (h : Conducts R S) {m : Marked} {e : String × ImageFile} {n : Nat}
    (hm : sweepFile m = (e, .ok n)) : R m.1.2.descriptor e.2.descriptor := by
  obtain ⟨⟨path, f⟩, marks⟩ := m
  rw [sweepFile] at hm
  split at hm
  · obtain ⟨rfl, -⟩ := Prod.mk.inj hm
    exact h.refl _
  · have hremoved := h.removeLocations f.descriptor marks
    generalize f.descriptor.removeLocations marks = c at hremoved hm
    obtain ⟨d, r⟩ := c
    obtain ⟨rfl, rfl⟩ := Prod.mk.inj hm
    exact hremoved

/-- A pass that succeeds carries on what each change does by succeeding. -/
theorem rewrite_conducted (h : Conducts R S) (hg : rewrite C f = some g) :
    R f.descriptor g.descriptor := by
  unfold rewrite at hg
  split at hg
  · exact Option.some.inj hg ▸ h.refl _
  · have hrun := yields_modifyFile h C { file := f }
    generalize runOn (modifyFile C) { file := f } = outcome at hrun hg
    obtain ⟨r, p⟩ := outcome
    cases r with
    | error e => cases hg
    | ok u =>
      dsimp only at hg
      split at hg
      · cases hg
      · rename_i e n hswept
        obtain rfl := Option.some.inj hg
        exact h.trans hrun.descriptor (sweepFile_conducted h hswept)

theorem Turns.conducted (h : Conducts R S) (ht : Turns C I J) :
    List.Forall₂ (fun f g => R f.descriptor g.descriptor) I.files J.files :=
  (turns_iff_related.mp ht).2.files.imp fun _ _ => rewrite_conducted h

end Turns

section Views

variable {C : Config} {I J M : Image} {f g : ImageFile} {Is Js : List Image}

/-- A pass turns one file into another one that views do not tell from it. -/
def Rewritten (C : Config) (f g : ImageFile) : Prop := rewrite C f = some g ∧ f.Same g

theorem rewritten_viewed (C : Config) : Viewed (Rewritten C) where
  same h := h.2
  withImport b h := ⟨rewrite_withImport h.1 b,
    ⟨h.2.path, h.2.dependencies, h.2.module, h.2.commit, rfl⟩⟩

theorem same_of_changed (h : f.Changed g) (hk : f.descriptor.Kept)
    (hs : Descriptor.Standard f.descriptor.schema f.descriptor.type) : f.Same g := by
  have hsame := h.descriptor.sameStructure hk hs
  constructor
  · exact hsame.name
  · exact hsame.dependencies
  all_goals rw [h.file]

theorem Turns.related (h : Turns C I J) (hk : I.Kept) (hs : I.Standard) :
    Related (Rewritten C) I J := by
  have hrel := (turns_iff_related.mp h).2
  obtain ⟨r, hr⟩ := h
  have hchanged := modify_changed I C
  rw [hr] at hchanged
  have hall : ∀ e ∈ I.entries, e.2.descriptor.Kept ∧
      Descriptor.Standard e.2.descriptor.schema e.2.descriptor.type := fun e he =>
    ⟨hk e.2 (List.mem_map_of_mem he), hs e.2 (List.mem_map_of_mem he)⟩
  refine List.Forall₂.mp (fun e e' hc hr => ?_)
    ((List.forall₂_and_left _ _).mpr ⟨hall, hchanged⟩) hrel
  exact ⟨hr.1, hr.2, same_of_changed hc.2.2 hc.1.1 hc.1.2⟩

theorem Turns.of_related (hC : C.validate = .ok ()) (h : Related (Rewritten C) I J) : Turns C I J :=
  turns_iff_related.mpr ⟨hC, h.imp fun _ _ he => ⟨he.1, he.2.1⟩⟩

/-- What modifying the image `I` into `J` has to do with their views, and with other images that
hold one of their files. -/
structure Commutes (C : Config) (I J : Image) : Prop where
  withoutImports : Turns C I.withoutImports J.withoutImports
  narrow : ∀ missing include_ exclude M, I.narrow missing include_ exclude = .ok M →
    ∃ N, J.narrow missing include_ exclude = .ok N ∧ Turns C M N
  byDirectory : ∀ parts, I.byDirectory = .ok parts →
    ∃ parts', J.byDirectory = .ok parts' ∧ List.Forall₂ (Turns C) parts parts'
  elsewhere : ∀ K L, Turns C K L → ∀ (i j : Nat) (f g g' : ImageFile) (b : Bool),
    I.files[i]? = some f → J.files[i]? = some g →
      K.files[j]? = some (f.withImport b) → L.files[j]? = some g' → g' = g.withImport b

theorem rewrite_of_turns (h : Turns C I J) {i : Nat} (hf : I.files[i]? = some f)
    (hg : J.files[i]? = some g) : rewrite C f = some g := by
  have hrel := (turns_iff_related.mp h).2.files
  obtain ⟨hi, rfl⟩ := List.getElem?_eq_some_iff.mp hf
  obtain ⟨hj, rfl⟩ := List.getElem?_eq_some_iff.mp hg
  exact hrel.get hi hj

theorem Turns.commutes (h : Turns C I J) (hk : I.Kept) (hs : I.Standard) : Commutes C I J := by
  have hC := (turns_iff_related.mp h).1
  have hR := rewritten_viewed C
  have hrel := h.related hk hs
  constructor
  case withoutImports => exact .of_related hC (hrel.withoutImports hR)
  case narrow =>
    intro missing include_ exclude M hM
    obtain ⟨N, hN, hMN⟩ := hrel.narrow hR hM
    exact ⟨N, hN, .of_related hC hMN⟩
  case byDirectory =>
    intro parts hparts
    obtain ⟨parts', hparts', hall⟩ := hrel.byDirectory hR hparts
    exact ⟨parts', hparts', hall.imp fun _ _ => .of_related hC⟩
  case elsewhere =>
    intro K L hKL i j f g g' b hf hg hf' hg'
    have hrw := rewrite_withImport (rewrite_of_turns h hf hg) b
    exact Option.some.inj ((rewrite_of_turns hKL hf' hg').symm.trans hrw)

/-- Images that are modified one by one go on to give the same views, and the same image when they
are merged, as if they had been modified afterwards. -/
theorem modify_commutes (h : List.Forall₂ (Turns C) Is Js) (hk : ∀ I ∈ Is, I.Kept)
    (hs : ∀ I ∈ Is, I.Standard) : List.Forall₂ (Commutes C) Is Js ∧
      ∀ M, merge Is = .ok (some M) → ∃ N, merge Js = .ok (some N) ∧ Turns C M N := by
  have hall : List.Forall₂ (fun I J => (I.Kept ∧ I.Standard) ∧ Turns C I J) Is Js :=
    (List.forall₂_and_left _ _).mpr ⟨fun I hI => ⟨hk I hI, hs I hI⟩, h⟩
  refine ⟨hall.imp fun I J hIJ => hIJ.2.commutes hIJ.1.1 hIJ.1.2, fun M hM => ?_⟩
  obtain ⟨N, hN, hMN⟩ := merge_related (rewritten_viewed C)
    (hall.imp fun I J hIJ => hIJ.2.related hIJ.1.1 hIJ.1.2) hM
  refine ⟨N, hN, .of_related ?_ hMN⟩
  cases h with
  | nil => cases hM
  | cons hIJ _ => exact (turns_iff_related.mp hIJ).1

theorem turns_of_isOk (h : (modify I C).2.toOption.isSome = true) : Turns C I (modify I C).1 := by
  rw [Turns]
  generalize modify I C = outcome at h ⊢
  obtain ⟨J, r⟩ := outcome
  cases r with
  | error e => cases h
  | ok r => exact ⟨r, rfl⟩

/-- What a pass that succeeds turns the image into that is read from the bytes. -/
def turned (C : Config) (bytes : Bytes) (options : DecodeOptions) : Option Image := do
  let I ← (Image.decode bytes options).toOption
  if (modify I C).2.toOption.isSome then some (modify I C).1 else none

theorem exists_turned {bytes : Bytes} {options : DecodeOptions} {p : Image → Bool}
    (h : (turned C bytes options).map p = some true) :
    ∃ I J, Image.decode bytes options = .ok I ∧ Turns C I J ∧ p J = true := by
  obtain ⟨J, hJ, hp⟩ := Option.map_eq_some_iff.mp h
  obtain ⟨I, hI, hJ⟩ := exists_of_toOption_bind hJ
  obtain ⟨hok, hJ⟩ := Option.ite_none_right_eq_some.mp hJ
  exact ⟨I, J, hI, Option.some.inj hJ ▸ turns_of_isOk hok, hp⟩

theorem turned_chain : (turned {} chain { reparse := false }).map (fun _ => true) = some true := by
  decide +kernel

theorem modify_commutes_chain : ∃ I J, Image.decode chain { reparse := false } = .ok I ∧
    Turns {} I J ∧ Commutes {} I J := by
  obtain ⟨I, J, hI, hturns, -⟩ := exists_turned turned_chain
  have hk : I.Kept := (decode_made hI).kept
  have hs : I.Standard := fun f hf => (builtin_of_decode rfl hI f hf).standard
  obtain ⟨hall, -⟩ := modify_commutes (.cons hturns .nil) (by simpa using hk) (by simpa using hs)
  exact ⟨I, J, hI, hturns, (List.forall₂_cons.mp hall).1⟩

/-- The bytes of a file that declares descriptors with a single import each, and of a file with two
imports that come with it. -/
def lone : Bytes :=
  let descriptor : MessageDecl :=
    { name := "FileDescriptorProto"
      fields := [one "name" 1 text, one "dependency" 3 text,
        one "options" 8 (message "FileOptions")] }
  let options : MessageDecl := { name := "FileOptions", fields := [one "go_package" 11 text] }
  Storage.encodeFiles
    [FileDecl.toMessage
      { name := "google/protobuf/descriptor.proto", package := some "google.protobuf"
        messages := [descriptor, options] } |>.encode,
      FileDecl.toMessage { name := "b.proto" } |>.encode,
      FileDecl.toMessage { name := "c.proto" } |>.encode,
      FileDecl.toMessage { name := "a.proto", dependencies := ["b.proto", "c.proto"] } |>.encode]

/-- Rules that set no option but the import path. -/
def onlyGo : Config :=
  { disables := (FileOption.all.filter fun o => o ∉ [.goPackage, .goPackageLead]).map fun o =>
      { fileOption := some o }
    fileRules := [{ option := .goPackageLead, value := .string "gen" }] }

/-- The paths of `a.proto` and what it imports, in an image that was modified after it was narrowed
and in one that was modified before. -/
def narrowed (I : Image) : Option (List String × List String) := do
  let N ← (I.narrow .refused ["a.proto"] []).toOption
  let J' ← ((modify I onlyGo).1.narrow .refused ["a.proto"] []).toOption
  if (modify I onlyGo).2.toOption.isSome && (modify N onlyGo).2.toOption.isSome then
    some ((modify N onlyGo).1.paths, J'.paths)
  else none

theorem narrowed_lone : (Image.decode lone {}).toOption.bind narrowed =
    some (["b.proto", "c.proto", "a.proto"], ["c.proto", "a.proto"]) := by
  decide +kernel

/-- Without a standard schema, a pass may lose the imports that narrowing follows. -/
theorem not_commutes_lone : ∃ I J N N' J', Image.decode lone {} = .ok I ∧ Turns onlyGo I J ∧
    I.narrow .refused ["a.proto"] [] = .ok N ∧ Turns onlyGo N N' ∧
    J.narrow .refused ["a.proto"] [] = .ok J' ∧ N' ≠ J' := by
  obtain ⟨I, hI, h⟩ := exists_of_toOption_bind narrowed_lone
  rw [narrowed] at h
  obtain ⟨N, hN, h⟩ := exists_of_toOption_bind h
  obtain ⟨J', hJ', h⟩ := exists_of_toOption_bind h
  obtain ⟨hok, h⟩ := Option.ite_none_right_eq_some.mp h
  obtain ⟨hI', hN'⟩ := Bool.and_eq_true_iff.mp hok
  refine ⟨I, _, N, _, J', hI, turns_of_isOk hI', hN, turns_of_isOk hN', hJ', fun he => ?_⟩
  obtain ⟨hp, hp'⟩ := Prod.mk.inj (Option.some.inj h)
  rw [he, hp'] at hp
  exact absurd hp (by decide)

end Views

end DescriptorKit.Managed
