import DescriptorKit.Proofs.Pool
import DescriptorKit.Proofs.Pool.Reading
import DescriptorKit.Proofs.Pool.Types

/-!
Pools in another order of their files. A set of files that fits together does so in any order, and
the schema of the pool finds the same, unless two extensions of a message share a number: of these
the first one counts.
-/
namespace DescriptorKit

namespace Schema

variable {C D : Context} {files others : List FileDecl} {f : FileDecl}

/-- No two extensions of a message have the same number. -/
def NumbersApart (S : Schema) : Prop :=
  (S.extensions.map fun e => (e.extendee, e.field.number)).Nodup

instance {S : Schema} : Decidable S.NumbersApart := inferInstanceAs (Decidable (List.Nodup _))

theorem extensionsOf_names (C : Context) (f : FileDecl) :
    (extensionsOf C f).map (·.name) = Pool.extensionNames f := by
  simp only [extensionsOf, Pool.extensionNames, List.map_append, List.map_map, List.map_flatMap,
    Function.comp_def]

/-- Which numbers extensions have does not depend on the types around them. -/
theorem extensionsOf_numbers (C D : Context) (f : FileDecl) :
    (extensionsOf C f).map (fun e => (e.extendee, e.field.number)) =
      (extensionsOf D f).map fun e => (e.extendee, e.field.number) := by
  simp only [extensionsOf, List.map_append, List.map_map, List.map_flatMap, Function.comp_def,
    field]

theorem contextOf_agrees (hp : others.Perm files)
    (hone : files.Pairwise fun f g =>
      ((Pool.enumTypes f).map (·.name)).Disjoint ((Pool.enumTypes g).map (·.name))) :
    Pool.ContextAgrees (contextOf files) (contextOf others) where
  enums := find?_flatMap_perm hp hone
  mapEntries name := by
    have hmem := (hp.flatMap_right fun f : FileDecl =>
      (f.sites.filter (·.decl.isMapEntry)).map (·.fullName)).mem_iff (a := name)
    rw [Bool.eq_iff_iff, List.contains_iff_mem, List.contains_iff_mem]
    exact hmem

theorem numbersApart_of (h : (ofFilesIn C files).NumbersApart) :
    (ofFilesIn D files).NumbersApart := by
  have heq : ∀ C, (ofFilesIn C files).extensions.map (fun e => (e.extendee, e.field.number)) =
      files.flatMap fun f => (extensionsOf C f).map fun e => (e.extendee, e.field.number) :=
    fun C => List.map_flatMap
  rw [NumbersApart, heq] at h ⊢
  simpa only [extensionsOf_numbers D C] using h

/-- Schemas of the same files in another order find the same. -/
theorem ofFilesIn_agrees (hC : Pool.ContextAgrees C D) (hp : others.Perm files)
    (hm : files.Pairwise fun f g => (Pool.messageNames f).Disjoint (Pool.messageNames g))
    (hx : files.Pairwise fun f g => (Pool.extensionNames f).Disjoint (Pool.extensionNames g))
    (ha : (ofFilesIn C files).NumbersApart) : (ofFilesIn C files).Agrees (ofFilesIn D others) where
  message := by
    funext name
    have hone : files.Pairwise fun f g =>
        ((f.sites.map (messageType C f.isProto3)).map (·.name)).Disjoint
          ((g.sites.map (messageType C g.isProto3)).map (·.name)) := by
      simp only [List.map_map]
      exact hm
    simp only [message?, ofFilesIn, hC.messageType]
    exact find?_flatMap_perm hp hone name
  enum := by
    funext name
    exact hC.enums name
  extension := by
    funext type n
    have hkey : (fun e : Extension => e.extendee = type && e.field.number = n) =
        fun e => decide ((e.extendee, e.field.number) = (type, n)) := by
      funext e
      rw [Bool.eq_iff_iff]
      simp
    rw [extension?, extension?, hkey]
    simp only [ofFilesIn, hC.extensionsOf]
    rw [find?_perm_of_nodup (hp.flatMap_right _) ha]
  named := by
    funext name
    have hone : files.Pairwise fun f g =>
        ((extensionsOf C f).map (·.name)).Disjoint ((extensionsOf C g).map (·.name)) := by
      simpa only [extensionsOf_names] using hx
    simp only [extensionNamed?, ofFilesIn, hC.extensionsOf]
    exact find?_flatMap_perm hp hone name

end Schema

namespace Pool
open Names

variable {P : Pool} {files others : List FileDecl} {f : FileDecl}

/-- What the names in files stand for where they are all the files that there are. -/
def symbolsOf (files : List FileDecl) : List Symbol := (addFiles [] ⟨[], []⟩ files).symbols

def placesOf (files : List FileDecl) : List MessagePlace :=
  files.flatMap fun f => f.sites.map (MessagePlace.mk f.name)

def resolvedIn (files : List FileDecl) (f : FileDecl) : FileDecl :=
  resolveFile (view (symbolsOf files) files f) f

/-- Where the options of a file are read. -/
def contextIn (files : List FileDecl) (f : FileDecl) : OptionContext :=
  ⟨Schema.ofFiles (files.map (resolvedIn files)),
    view (symbolsOf files) (files.map (resolvedIn files)) (resolvedIn files f)⟩

/-- Reads the options of a file whose names are resolved. -/
def readIn (files : List FileDecl) (f : FileDecl) : FileDecl × OptionNotes :=
  (OptionReader.readFile (contextIn files f) (resolvedIn files f)).run {}

/-- Files fit together, and the pool is made of them. -/
structure MadeOf (files : List FileDecl) (P : Pool) : Prop where
  fit : Fit files
  sound : ∀ f ∈ files, fileFindings (symbolsOf files) files (Schema.contextOf files)
    (placesOf files) f = []
  read : ∀ f ∈ files, (readIn files f).2.findings = []
  pool : P = ⟨files.map fun f => (readIn files f).1, files.map (resolvedIn files), symbolsOf files⟩

theorem first_nil : first [] = .ok () := rfl

theorem first_eq_ok_iff {findings : List Finding} : first findings = .ok () ↔ findings = [] :=
  ⟨first_eq_ok, fun h => h ▸ first_nil⟩

/-- Reads the options of a file of a pool. -/
def readOf (P : Pool) (f : FileDecl) : FileDecl × OptionNotes :=
  (OptionReader.readFile ⟨P.schema, view P.symbols P.files f⟩ f).run {}

theorem readOptions_eq_ok_iff {added : List Added} : P.readOptions files = .ok added ↔
    (∀ f ∈ files, (P.readOf f).2.findings = []) ∧
      added = files.map fun f => ⟨(P.readOf f).1, (P.readOf f).2.moves⟩ := by
  have hnone : ∀ read : List (FileDecl × OptionNotes),
      (read.reverse.flatMap fun (_, notes) => notes.findings) = [] ↔
        ∀ p ∈ read, p.2.findings = [] := by
    intro read
    simp [List.flatMap_eq_nil_iff]
  rw [readOptions]
  constructor
  · intro h
    split at h
    · cases h
    · rename_i hfirst
      have hall := (hnone _).mp (first_eq_ok_iff.mp hfirst)
      refine ⟨fun f hf => hall _ (List.mem_map_of_mem hf), ?_⟩
      rw [← Except.ok.inj h, List.map_map]
      rfl
  · rintro ⟨hall, rfl⟩
    split
    · rename_i finding hfirst
      have hfound := first_eq_ok_iff.mpr ((hnone _).mpr fun p hp => by
        obtain ⟨f, hf, rfl⟩ := List.mem_map.mp hp
        exact hall f hf)
      cases hfound.symm.trans hfirst
    · rw [List.map_map]
      rfl

/-- Growing from nothing, written out. -/
theorem extend_nil_eq (files : List FileDecl) : extend {} files = (do
    first (addFiles [] ⟨[], []⟩ files).findings
    first (files.flatMap (fileFindings (symbolsOf files) files (Schema.contextOf files)
      (placesOf files))).reverse
    let added ← readOptions ⟨files.map (resolvedIn files), files.map (resolvedIn files),
      symbolsOf files⟩ (files.map (resolvedIn files))
    .ok (⟨added.map (·.file), files.map (resolvedIn files), symbolsOf files⟩, added)) := by
  have hnew : (files.filter fun f => !([] : List FileDecl).any (·.name = f.name)) = files := by simp
  rw [extend]
  dsimp only
  rw [hnew]
  rfl

theorem madeOf_iff : MadeOf files P ↔ ∃ added, extend {} files = .ok (P, added) := by
  rw [extend_nil_eq]
  constructor
  · rintro ⟨hfit, hsound, hread, rfl⟩
    refine ⟨files.map fun f => ⟨(readIn files f).1, (readIn files f).2.moves⟩, ?_⟩
    refine bind_eq_ok_iff.mpr ⟨(), first_eq_ok_iff.mpr (addFiles_findings_iff.mpr hfit), ?_⟩
    have hnone := List.reverse_eq_nil_iff.mpr (List.flatMap_eq_nil_iff.mpr hsound)
    refine bind_eq_ok_iff.mpr ⟨(), first_eq_ok_iff.mpr hnone, ?_⟩
    refine bind_eq_ok_iff.mpr ⟨_, readOptions_eq_ok_iff.mpr ⟨fun g hg => ?_, rfl⟩, ?_⟩
    · obtain ⟨f, hf, rfl⟩ := List.mem_map.mp hg
      exact hread f hf
    · simp only [List.map_map]
      rfl
  · rintro ⟨added, h⟩
    obtain ⟨⟨⟩, hnames, h⟩ := bind_eq_ok_iff.mp h
    obtain ⟨⟨⟩, hfind, h⟩ := bind_eq_ok_iff.mp h
    obtain ⟨added', hadded, h⟩ := bind_eq_ok_iff.mp h
    obtain ⟨rfl, rfl⟩ := Prod.mk.inj (Except.ok.inj h)
    obtain ⟨hread, rfl⟩ := readOptions_eq_ok_iff.mp hadded
    have hnone := List.reverse_eq_nil_iff.mp (first_eq_ok hfind)
    refine ⟨addFiles_findings_iff.mp (first_eq_ok hnames), List.flatMap_eq_nil_iff.mp hnone,
      fun f hf => hread _ (List.mem_map_of_mem hf), ?_⟩
    rw [List.map_map, List.map_map]
    rfl

section Permuted

theorem Names.Fit.enums (h : Fit files) : files.Pairwise fun f g =>
    ((enumTypes f).map (·.name)).Disjoint ((enumTypes g).map (·.name)) :=
  h.disjoint (by decide) fun _ _ => declaredIn_enumTypes

theorem Names.Fit.messages (h : Fit files) :
    files.Pairwise fun f g => (messageNames f).Disjoint (messageNames g) :=
  h.disjoint (by decide) fun _ _ => declaredIn_messageNames

theorem Names.Fit.extensions (h : Fit files) :
    files.Pairwise fun f g => (extensionNames f).Disjoint (extensionNames g) :=
  h.disjoint (by decide) fun _ _ => declaredIn_extensionNames

/-- Among the same files in another order a file is looked at with the same. -/
theorem looksAlike_of_perm (hp : others.Perm files) (h : Fit files) (f : FileDecl) :
    LooksAlike (view (symbolsOf files) files f) (view (symbolsOf others) others f)
      (Schema.contextOf files) (Schema.contextOf others) (placesOf files) (placesOf others) where
  view := view_agrees (sameEntries_addFiles hp h) hp h.names f
  context := Schema.contextOf_agrees hp h.enums
  messages name := by
    refine find?_flatMap_perm hp (h.messages.imp fun {f g} hfg => ?_) name
    rw [List.map_map, List.map_map]
    exact hfg

theorem resolvedIn_eq (hp : others.Perm files) (h : Fit files) :
    resolvedIn others = resolvedIn files :=
  funext fun f => resolveFile_congr (looksAlike_of_perm hp h f).view f

theorem resolvedIn_sameNames (files : List FileDecl) (f : FileDecl) :
    SameNames f (resolvedIn files f) := resolveFile_sameNames _ f

/-- What files do not share, they do not share once each was changed without changing that. -/
theorem pairwise_map_disjoint {names : FileDecl → List String} {r : FileDecl → FileDecl}
    (h : files.Pairwise fun f g => (names f).Disjoint (names g)) (hr : ∀ f, names (r f) = names f) :
    (files.map r).Pairwise fun f g => (names f).Disjoint (names g) := by
  rw [List.pairwise_map]
  exact h.imp fun {f g} hfg => by rwa [hr, hr]

/-- The schemas by which options are read in another order of the files, and that of the pool. -/
theorem ofFilesIn_agrees_of_perm (hp : others.Perm files) (h : Fit files)
    {r : FileDecl → FileDecl} (hr : ∀ f, SameNames f (r f))
    (ha : (Schema.ofFilesIn (Schema.contextOf (files.map r))
      (files.map (resolvedIn files))).NumbersApart) :
    (Schema.ofFilesIn (Schema.contextOf (files.map r)) (files.map (resolvedIn files))).Agrees
      (Schema.ofFilesIn (Schema.contextOf (others.map r)) (others.map (resolvedIn files))) := by
  have hsame := resolvedIn_sameNames files
  have henums := pairwise_map_disjoint h.enums fun f => by rw [(hr f).enumTypes]
  exact Schema.ofFilesIn_agrees (Schema.contextOf_agrees (hp.map r) henums) (hp.map _)
    (pairwise_map_disjoint h.messages fun f => (hsame f).messageNames)
    (pairwise_map_disjoint h.extensions fun f => (hsame f).extensionNames) ha

theorem contextIn_agrees (hp : others.Perm files) (h : Fit files)
    (ha : (Schema.ofFiles (files.map (resolvedIn files))).NumbersApart) (f : FileDecl) :
    (contextIn files f).Agrees (contextIn others f) := by
  have hnames : (files.map (resolvedIn files)).map (·.name) = files.map (·.name) := by
    rw [List.map_map]
    rfl
  rw [contextIn, contextIn, resolvedIn_eq hp h]
  exact ⟨ofFilesIn_agrees_of_perm hp h (resolvedIn_sameNames files) ha,
    view_agrees (sameEntries_addFiles hp h) (hp.map _) (hnames ▸ h.names) _⟩

/-- Files that make a pool make one in any order, and its schema finds the same. -/
theorem MadeOf.perm (hp : others.Perm files) (hm : MadeOf files P) (ha : P.schema.NumbersApart) :
    ∃ Q, MadeOf others Q ∧ P.schema.Agrees Q.schema := by
  obtain ⟨hfit, hsound, hread, rfl⟩ := hm
  have hresolved := resolvedIn_eq hp hfit
  have hreadIn : ∀ f ∈ files, readIn others f = readIn files f := by
    intro f hf
    have hagrees := contextIn_agrees hp hfit (Schema.numbersApart_of ha) f
    rw [readIn, hresolved]
    exact (OptionReader.readFile_repeats hagrees _ _ (hread f hf)).2
  refine ⟨_, ⟨hfit.perm hp, fun f hf => ?_, fun f hf => ?_, rfl⟩, ?_⟩
  · exact fileFindings_nil_of (looksAlike_of_perm hp hfit f) hp (hsound f (hp.mem_iff.mp hf))
  · rw [hreadIn f (hp.mem_iff.mp hf)]
    exact hread f (hp.mem_iff.mp hf)
  · have hfiles : others.map (fun f => (readIn others f).1) =
        others.map fun f => (readIn files f).1 :=
      List.map_congr_left fun f hf => by rw [hreadIn f (hp.mem_iff.mp hf)]
    have hsame : ∀ f, SameNames f (readIn files f).1 := fun f =>
      (resolvedIn_sameNames files f).trans (readFile_sameNames _ _ _)
    unfold Pool.schema
    rw [hfiles, hresolved]
    exact ofFilesIn_agrees_of_perm hp hfit hsame ha

end Permuted

end Pool

end DescriptorKit