import DescriptorKit.Proofs.Build.Ahead
import DescriptorKit.Proofs.Build.Labels
import DescriptorKit.Proofs.Image.SplitMerge
import DescriptorKit.Proofs.Text.Encoding

/-!
Targets that are missing or cannot be read. Linking adds only to the end of the paths that are
missing, so the first of them is still the least missing target when a file cannot be linked, and
some file cannot: that target.
-/
namespace DescriptorKit.Build
open DescriptorKit.Language Supply

variable {R : SourceReader} {answer : String → Option SourceFile} {path m : String} {e : Error}
  {l l' : Linking} {targets rest read : List String} {annotations : List Annotation}
  {options : BuildOptions}

namespace Linker

variable {P : Supply → Prop} {α β : Type} {x : Linker α} {unit : SourceUnit}

/-- Steps that keep what holds of the supply, whether they fail or not. -/
def Preserves (P : Supply → Prop) (x : Linker α) : Prop :=
  ∀ l : Linking, P l.supply → P (x.run.run l).2.supply

theorem Preserves.pure (a : α) : Preserves P (pure a : Linker α) := fun _ h => h

theorem Preserves.bind {k : α → Linker β} (hx : Preserves P x) (hk : ∀ a, Preserves P (k a)) :
    Preserves P (x >>= k) := by
  intro l h
  have hfirst := hx l h
  rw [ExceptT.run_bind, StateT.run_bind]
  rcases hrun : x.run.run l with ⟨_ | a, l'⟩
  all_goals rw [hrun] at hfirst
  · exact hfirst
  · exact hk a l' hfirst

theorem Preserves.handOn {x : Linker Unit} (hx : Preserves P x) (g : LinkFault → LinkFault) :
    Preserves P (tryCatch x fun f => throw (g f)) := by
  intro l h
  have hrun := hx l h
  rw [tryCatch_throw_eq]
  split <;> simpa [*] using hrun

theorem preserves_isLinked (path : String) : Preserves P (isLinked path) := fun _ h => h

theorem preserves_take (hP : ∀ s path, P s → P ((Supply.take R path).run s).2) (path : String) :
    Preserves P (take R path) := by
  intro l h
  have htaken := hP l.supply path h
  rw [take_eq]
  split <;> simpa [*] using htaken

theorem preserves_add (unit : SourceUnit) : Preserves P (add unit) := by
  intro l h
  rw [add_eq]
  split <;> exact h

theorem preserves_linkImports {link : String → Linker Unit}
    (hlink : ∀ path, Preserves P (link path))
    (unit : SourceUnit) (seen : List String) (imports : List (String × Nat)) :
    Preserves P (linkImports link unit seen imports) := by
  induction imports generalizing seen with
  | nil => exact .pure _
  | cons i rest ih =>
    rw [linkImports]
    refine ((hlink i.1).handOn _).bind fun _ => ?_
    split
    · exact fun _ h => h
    · exact ih _

theorem preserves_link (hP : ∀ s path, P s → P ((Supply.take R path).run s).2) (fuel : Nat)
    (stack : List String) (path : String) : Preserves P (link R fuel stack path) := by
  induction fuel generalizing stack path with
  | zero => exact fun _ h => h
  | succ fuel ih =>
    rw [link]
    split
    · exact fun _ h => h
    · refine (preserves_isLinked path).bind fun found => ?_
      split
      · exact .pure _
      · exact (preserves_take hP path).bind fun unit =>
          (preserves_linkImports (ih _) unit [] _).bind fun _ => preserves_add unit

end Linker

section Linking

/-- A path that was not found stays the first of the missing ones. -/
theorem link_missing (fuel : Nat) (stack : List String) (path : String) (hl : Reached R l.supply)
    (hm : [m] <+: l.supply.missing) {result : Except LinkFault Unit}
    (h : (Linker.link R fuel stack path).run.run l = (result, l')) :
    Reached R l'.supply ∧ [m] <+: l'.supply.missing := by
  have hkeeps := Linker.preserves_link (R := R) (P := fun s => Reached R s ∧ [m] <+: s.missing)
    (fun s path hs => ⟨hs.1.take path,
      hs.2.trans (take_missing R s path)⟩) fuel stack path l ⟨hl, hm⟩
  rwa [h] at hkeeps

/-- A file that is served nowhere is not linked. -/
theorem Goes.ne_missing (h : Goes R [path] l l') (hR : Answers R answer)
    (hnormal : Path.normalize path = .ok path) : fileFor answer path ≠ none := by
  intro hnone
  obtain ⟨f, hf, hn⟩ := h.linked path (List.mem_singleton_self path)
  obtain rfl := Except.ok.inj (hnormal.symm.trans hn)
  exact not_supplied hR hnone (h.sound.supplied f hf)

/-- Where a target is missing, linking the targets ends with the first path that was not found. -/
theorem linkTargets_missing (hR : Answers R answer) (hl : Sound R l) (hm : [m] <+: l.supply.missing)
    (htarget : m ∈ targets) (hnormal : ∀ p ∈ rest, Path.normalize p = .ok p)
    (hnone : ∃ p ∈ rest, fileFor answer p = none) :
    ∃ e, linkTargets R targets rest l annotations = .error e ∧
      (e = .fileNotFound m ∨ Refuses answer e) := by
  induction rest generalizing l annotations with
  | nil => simp at hnone
  | cons path rest ih =>
    obtain ⟨hpath, hrest⟩ := List.forall_mem_cons.mp hnormal
    rw [linkTargets]
    split
    · rename_i l₁ hlink
      have hgoes := link_goes (steady_of_answers hR) hl hlink
      have hserved := hgoes.ne_missing hR hpath
      have hleft : ∃ p ∈ rest, fileFor answer p = none := by simpa [hserved] using hnone
      exact ih hgoes.sound (link_missing _ _ _ hl.reached hm hlink).2 hrest hleft
    · rename_i f l₁ hlink
      obtain ⟨hreached, more, hmissing⟩ := link_missing _ _ _ hl.reached hm hlink
      rw [← hmissing]
      -- Whatever the fault is, a failure of the supply is told first, then the first missing path.
      cases hs : l₁.supply.failure with
      | some e => exact ⟨e, by simp [check, hs], .inr (hreached.refuses hR e hs)⟩
      | none => exact ⟨_, by simp [check, hs, notFound, htarget], .inl rfl⟩

end Linking

section Complaining

/-- What is found at a path, if anything, can be read. -/
def Readable (answer : String → Option SourceFile) (path : String) : Prop :=
  ∀ f, answer path = some f → ∃ unit, SourceUnit.parse path (Text.lossy f.content) = .ok unit

theorem complaints_eq_nil_iff : complaints answer read path = [] ↔ Readable answer path := by
  rw [complaints, Readable]
  cases answer path with
  | none => simp
  | some f =>
    cases hp : SourceUnit.parse path (Text.lossy f.content) with
    | ok unit => simp [hp]
    | error faults => simp [hp, annotations_ne_nil]

theorem mem_ofList_iff {a : Annotation} :
    a ∈ (AnnotationSet.ofList annotations).items ↔ a ∈ annotations := by
  rw [AnnotationSet.ofList, mem_dropRepeats_iff, List.mem_mergeSort]

end Complaining

/-- Ascending paths in normal form are the targets that they give. -/
theorem normalTargets_eq (hnormal : ∀ t ∈ targets, Path.normalize t = .ok t)
    (hasc : targets.Pairwise (· < ·)) : normalTargets targets = .ok targets := by
  obtain ⟨normal, hn⟩ := exists_normalTargets fun t ht => ⟨t, hnormal t ht⟩
  obtain ⟨hsorted, hmem⟩ := mem_normalTargets hn
  have hsame : normal = targets := hsorted.eq_of_mem_iff hasc fun p => (hmem p).trans <| by
    refine ⟨fun ⟨t, ht, hp⟩ => ?_, fun hp => ⟨p, hp, hnormal p hp⟩⟩
    obtain rfl := Except.ok.inj ((hnormal t ht).symm.trans hp)
    exact ht
  rw [hn, hsame]

/-- A build whose targets can be named, up to where they are linked. -/
theorem build_eq (hn : normalTargets R.targets = .ok targets) (hne : targets ≠ [])
    (hc : options.cancelled = false) :
    Image.build R options = (do
      check ((readTargets R targets).run {}).2
      compileError ((readTargets R targets).run {}).1
      let (l, annotations) ←
        linkTargets R targets targets { supply := ((readTargets R targets).run {}).2 } []
      check l.supply
      compileError annotations
      assemble l.supply.origins targets options l.files) := by
  rw [Image.build, hn]
  change (if targets.isEmpty then _ else _) = _
  rw [if_neg (by simpa using hne), hc]
  rfl

/-- What a build ends with of whose targets some are missing, or cannot be read. -/
structure Reported (answer : String → Option SourceFile) (targets : List String)
    (result : Except Error Image) : Prop where
  /-- Where all that is found can be read, it is the first of the missing targets, by their
  bytes. -/
  missing : (∀ p ∈ targets, Readable answer p) → (∃ p ∈ targets, fileFor answer p = none) →
    (∃ p ∈ targets, fileFor answer p = none ∧
      (∀ q ∈ targets, fileFor answer q = none → Bytes.ofText p ≤ Bytes.ofText q) ∧
      result = .error (.fileNotFound p)) ∨
    ∃ e, result = .error e ∧ Refuses answer e
  /-- Else it is all that is told about the targets that cannot be read, and no more. -/
  unreadable : (∃ p ∈ targets, ¬ Readable answer p) →
    (∃ set, result = .error (.compile set) ∧
      ∀ a, a ∈ set.items ↔ ∃ p ∈ targets, a ∈ complaints answer (targets.filter (· ≤ p)) p) ∨
    ∃ e, result = .error e ∧ Refuses answer e

section Reporting

theorem ofText_le {p q : String} (h : p ≤ q) : Bytes.ofText p ≤ Bytes.ofText q := by
  rcases eq_or_lt_of_le h with rfl | h
  · exact List.le_refl _
  · exact List.le_of_lt (Bytes.ofText_lt h)

/-- Of ascending paths, the first that is missing is the least. -/
theorem exists_first_missing (hasc : targets.Pairwise (· < ·))
    (h : ∃ p ∈ targets, fileFor answer p = none) :
    ∃ p ∈ targets, fileFor answer p = none ∧ (∀ q ∈ targets, fileFor answer q = none → p ≤ q) ∧
      [p] <+: targets.filter fun p => (fileFor answer p).isNone := by
  obtain ⟨q, hq, hnone⟩ := h
  have hmem : q ∈ targets.filter fun p => (fileFor answer p).isNone :=
    List.mem_filter.mpr ⟨hq, by simp [hnone]⟩
  cases hmissing : targets.filter fun p => (fileFor answer p).isNone with
  | nil => simp [hmissing] at hmem
  | cons p more =>
    have hp : p ∈ targets.filter fun p => (fileFor answer p).isNone := by simp [hmissing]
    have hsorted := hasc.filter fun p => (fileFor answer p).isNone
    rw [hmissing] at hsorted
    obtain ⟨hp, hpnone⟩ := List.mem_filter.mp hp
    refine ⟨p, hp, by simpa using hpnone, fun q hq hnone => ?_, by simp⟩
    have hq : q ∈ p :: more := hmissing ▸ List.mem_filter.mpr ⟨hq, by simp [hnone]⟩
    rcases List.mem_cons.mp hq with rfl | hq
    · exact le_refl _
    · exact ((List.pairwise_cons.mp hsorted).1 q hq).le

/-- A build of ascending targets. -/
theorem reported_of_targets (hR : Answers R answer) (hc : options.cancelled = false)
    (hn : normalTargets R.targets = .ok targets) (hasc : targets.Pairwise (· < ·))
    (hnormal : ∀ p ∈ targets, Path.normalize p = .ok p) :
    Reported answer targets (Image.build R options) := by
  obtain ⟨hbegun, htold⟩ := (begun_nil answer).readTargets hR hnormal hasc
  have hreached := readTargets_reached .start targets (R := R)
  have hbuild (hne : targets ≠ []) := build_eq hn hne hc
  generalize (readTargets R targets).run {} = begun at hbegun htold hreached hbuild
  obtain ⟨told, supply⟩ := begun
  cases hs : supply.failure with
  | some e =>
    -- The supply failed while the targets were read.
    have hfailed (hne : targets ≠ []) : Image.build R options = .error e := by
      rw [hbuild hne, check, hs]
      rfl
    have hrefuses := hreached.refuses hR e hs
    constructor
    · rintro - ⟨p, hp, -⟩
      exact .inr ⟨e, hfailed (List.ne_nil_of_mem hp), hrefuses⟩
    · rintro ⟨p, hp, -⟩
      exact .inr ⟨e, hfailed (List.ne_nil_of_mem hp), hrefuses⟩
  | none =>
    obtain ⟨-, rfl⟩ := htold hs
    constructor
    · intro hreadable hnone
      have htold : (targets.flatMap fun t => complaints answer (targets.filter (· ≤ t)) t) = [] :=
        List.flatMap_eq_nil_iff.mpr fun p hp => complaints_eq_nil_iff.mpr (hreadable p hp)
      obtain ⟨p, hp, hpnone, hleast, hfirst⟩ := exists_first_missing hasc hnone
      have hsound : Sound R { supply } := ⟨hreached, rfl, by simp, by simp, by simp, by simp⟩
      obtain ⟨e, hlinked, he⟩ : ∃ e, linkTargets R targets targets { supply } [] = .error e ∧
          (e = .fileNotFound p ∨ Refuses answer e) :=
        linkTargets_missing hR hsound (hbegun.missing ▸ hfirst) hp hnormal hnone
      have hfailed : Image.build R options = .error e := by
        rw [hbuild (List.ne_nil_of_mem hp), check, hs]
        simp only [List.nil_append, htold, hlinked]
        rfl
      rcases he with rfl | he
      · exact .inl ⟨p, hp, hpnone, fun q hq hqnone => ofText_le (hleast q hq hqnone), hfailed⟩
      · exact .inr ⟨e, hfailed, he⟩
    · rintro ⟨p, hp, hunreadable⟩
      have htold :
          (targets.flatMap fun t => complaints answer (targets.filter (· ≤ t)) t) ≠ [] := by
        rw [Ne, List.flatMap_eq_nil_iff]
        exact fun h => hunreadable (complaints_eq_nil_iff.mp (h p hp))
      refine .inl ⟨.ofList _, ?_, fun a => mem_ofList_iff.trans List.mem_flatMap⟩
      rw [hbuild (List.ne_nil_of_mem hp), check, hs, compileError, if_neg (by simpa using htold)]
      rfl

/-- Where each file that is found carries the path at which it is found, nothing is contradicted. -/
theorem not_refuses_of_named (hnamed : ∀ p f, answer p = some f → f.path = p) :
    ¬ Refuses answer e := by
  have hpath {p : String} {f : SourceFile} (h : fileFor answer p = some f) : f.path = p := by
    rcases Option.or_eq_some_iff.mp h with h | ⟨-, h⟩
    · exact hnamed p f h
    · obtain ⟨_, _, rfl⟩ := Option.map_eq_some_iff.mp h
      rfl
  rintro ⟨part, path, _, _, ⟨p, q, f, g, v, w, hf, hg, hfp, hgp, hv, hw, hne⟩, -⟩
  obtain rfl : p = q := (hpath hf).symm.trans ((hfp.trans hgp.symm).trans (hpath hg))
  cases hf.symm.trans hg
  cases hv.symm.trans hw
  exact hne rfl

/-- A build tells of the least target that is missing, or of all that cannot be read; unless two
files that carry one path contradict each other, which none do that carry the paths at which they
are found. -/
theorem build_reported (R : SourceReader) (answer : String → Option SourceFile)
    (options : BuildOptions)
    (hR : Answers R answer) (hc : options.cancelled = false)
    (hall : ∀ t ∈ R.targets, ∃ p, Path.normalize t = .ok p) :
    ∃ targets, targets.Pairwise (· < ·) ∧
      (∀ p, p ∈ targets ↔ ∃ t ∈ R.targets, Path.normalize t = .ok p) ∧
      Reported answer targets (Image.build R options) ∧
      ((∀ p f, answer p = some f → f.path = p) → ∀ e, ¬ Refuses answer e) := by
  obtain ⟨targets, hn⟩ := exists_normalTargets hall
  obtain ⟨hasc, hmem⟩ := mem_normalTargets hn
  refine ⟨targets, hasc, hmem, reported_of_targets hR hc hn hasc fun p hp => ?_,
    fun hnamed _ => not_refuses_of_named hnamed⟩
  obtain ⟨t, -, ht⟩ := (hmem p).mp hp
  exact Path.normalize_normal ht

end Reporting

section Stranded

/-- A file that imports two that do not exist. -/
def stranded : SourceFile where
  path := "b.proto"
  content := Bytes.ofText "import \"gone.proto\"; import \"lost.proto\";"
  externalPath := "/src/b.proto"

/-- A file that cannot be read. -/
def garbled : SourceFile where
  path := "c.proto"
  content := Bytes.ofText "message \x7b"
  externalPath := "/src/c.proto"

/-- Linking meets an import that is missing, but the least missing target is told; where a target
cannot be read, that is told instead. -/
theorem build_reported_stranded :
    (∀ t ∈ ["gone.proto", "./b.proto", "c.proto"], ∃ p, Path.normalize t = .ok p) ∧
    Image.build (Bucket.building ⟨[stranded]⟩ ["gone.proto", "./b.proto", "c.proto"]) {}
      = .error (.fileNotFound "c.proto") ∧
    ∃ set, Image.build (Bucket.building ⟨[stranded, garbled]⟩
      ["gone.proto", "./b.proto", "c.proto"]) {}
        = .error (.compile set) ∧
      ∀ a, a ∈ set.items ↔ a = ⟨"/src/c.proto", 1, 9,
        "expected an identifier, but found '\x7b'"⟩ := by
  have hgone : Path.normalize "gone.proto" = .ok "gone.proto" := rfl
  have hdotted : Path.normalize "./b.proto" = .ok "b.proto" := rfl
  have hc : Path.normalize "c.proto" = .ok "c.proto" := rfl
  have hall : ∀ t ∈ ["gone.proto", "./b.proto", "c.proto"], ∃ p, Path.normalize t = .ok p := by
    simp [hgone, hdotted, hc]
  have hgiven (p : String) : p ∈ ["b.proto", "c.proto", "gone.proto"] ↔
      ∃ t ∈ ["gone.proto", "./b.proto", "c.proto"], Path.normalize t = .ok p := by
    grind
  have hsorted : ["b.proto", "c.proto", "gone.proto"].Pairwise (· < ·) := by decide
  have hnamed (B : Bucket) (p : String) (f : SourceFile) (h : B.file? p = some f) : f.path = p :=
    B.path_of_file? h
  refine ⟨hall, ?_, ?_⟩
  · obtain ⟨targets, hasc, hmem, hreported, hagree⟩ := build_reported
      (Bucket.building ⟨[stranded]⟩ ["gone.proto", "./b.proto", "c.proto"])
      (Bucket.file? ⟨[stranded]⟩) {} (fun _ _ => rfl) rfl hall
    obtain rfl := hasc.eq_of_mem_iff hsorted fun p => (hmem p).trans (hgiven p).symm
    have hreadable : ∀ p ∈ ["b.proto", "c.proto", "gone.proto"],
        complaints (Bucket.file? ⟨[stranded]⟩) [] p = [] := by decide +kernel
    have hnone : (fileFor (Bucket.file? ⟨[stranded]⟩) "c.proto").isNone := by decide +kernel
    have hserved : (fileFor (Bucket.file? ⟨[stranded]⟩) "b.proto").isSome := by decide +kernel
    obtain ⟨p, hp, hpnone, hleast, hbuild⟩ := (hreported.missing
      (fun p hp => complaints_eq_nil_iff.mp (hreadable p hp))
      ⟨"c.proto", by simp, Option.isNone_iff_eq_none.mp hnone⟩).resolve_right
      fun ⟨e, _, he⟩ => hagree (hnamed _) e he
    have hle := hleast "c.proto" (by simp) (Option.isNone_iff_eq_none.mp hnone)
    simp only [List.mem_cons, List.not_mem_nil, or_false] at hp
    rcases hp with rfl | rfl | rfl
    · simp [hpnone] at hserved
    · exact hbuild
    · exact absurd hle (by decide +kernel)
  · obtain ⟨targets, hasc, hmem, hreported, hagree⟩ := build_reported
      (Bucket.building ⟨[stranded, garbled]⟩ ["gone.proto", "./b.proto", "c.proto"])
      (Bucket.file? ⟨[stranded, garbled]⟩) {} (fun _ _ => rfl) rfl hall
    obtain rfl := hasc.eq_of_mem_iff hsorted fun p => (hmem p).trans (hgiven p).symm
    have htold : (["b.proto", "c.proto", "gone.proto"].flatMap fun p =>
        complaints (Bucket.file? ⟨[stranded, garbled]⟩)
          (["b.proto", "c.proto", "gone.proto"].filter (· ≤ p)) p) =
        [⟨"/src/c.proto", 1, 9, "expected an identifier, but found '\x7b'"⟩] := by decide +kernel
    have hunreadable : complaints (Bucket.file? ⟨[stranded, garbled]⟩) [] "c.proto" ≠ [] := by
      decide +kernel
    obtain ⟨set, hbuild, hset⟩ := (hreported.unreadable
      ⟨"c.proto", by simp, fun h => hunreadable (complaints_eq_nil_iff.mpr h)⟩).resolve_right
      fun ⟨e, _, he⟩ => hagree (hnamed _) e he
    exact ⟨set, hbuild, fun a => by rw [hset, ← List.mem_flatMap, htold, List.mem_singleton]⟩

end Stranded

section Clashing

/-- Two targets find files that carry one path and are shown otherwise; a third finds none. -/
def clashing (path : String) : Option SourceFile :=
  let content := Bytes.ofText "syntax = \"proto3\";\n"
  if path = "a.proto" then some { path := "x.proto", content, externalPath := "/one/x.proto" }
  else if path = "b.proto" then some { path := "x.proto", content, externalPath := "/two/x.proto" }
  else none

def clashingReader : SourceReader where
  paths := ["a.proto", "b.proto"]
  targets := ["a.proto", "b.proto", "gone.proto"]
  lookup path _ := .ok (clashing path)

/-- Two files that carry one path end a build before its missing target is told. -/
theorem build_clashing :
    ¬ ∀ (R : SourceReader) (answer : String → Option SourceFile) (options : BuildOptions),
      Answers R answer → options.cancelled = false →
      (∀ t ∈ R.targets, ∃ p, Path.normalize t = .ok p ∧ Readable answer p) →
      (∃ t ∈ R.targets, ∃ p, Path.normalize t = .ok p ∧ fileFor answer p = none) →
      ∃ p, Image.build R options = .error (.fileNotFound p) := by
  intro h
  have hnormal : ∀ t ∈ clashingReader.targets, Path.normalize t = .ok t := by
    intro t ht
    simp only [clashingReader, List.mem_cons, List.not_mem_nil, or_false] at ht
    rcases ht with rfl | rfl | rfl <;> rfl
  have hreadable : ∀ p ∈ clashingReader.targets, complaints clashing [] p = [] := by decide +kernel
  have hnone : (fileFor clashing "gone.proto").isNone := by decide +kernel
  have hgone : "gone.proto" ∈ clashingReader.targets := by simp [clashingReader]
  obtain ⟨p, hp⟩ := h clashingReader clashing {} (fun _ _ => rfl) rfl
    (fun t ht => ⟨t, hnormal t ht, complaints_eq_nil_iff.mp (hreadable t ht)⟩)
    ⟨"gone.proto", hgone, "gone.proto", hnormal _ hgone, Option.isNone_iff_eq_none.mp hnone⟩
  have hfailed : ((readTargets clashingReader clashingReader.targets).run {}).2.failure.map
      (·.category) = some .internal := by decide +kernel
  obtain ⟨e, he, hinternal⟩ := Option.map_eq_some_iff.mp hfailed
  rw [build_eq (normalTargets_eq hnormal (by decide)) (by simp [clashingReader]) rfl,
    check, he] at hp
  cases hp
  cases hinternal

end Clashing

end DescriptorKit.Build
