import DescriptorKit.Proofs.Descriptor.Stable
import DescriptorKit.Proofs.Image.PlainSet
import DescriptorKit.Proofs.Image.RequestTrip
import DescriptorKit.Proofs.Managed.Commute

/-!
Images that are read from what was written of them. What an image knows about a file beside its
descriptor comes back, and so does the typed message; the files are put in order again.
-/
namespace DescriptorKit
open Wire Payload Bundled Descriptor

namespace Descriptor

variable {d : Descriptor}

/-- What is written of the descriptor can be told from what is written beside it. Its schema agrees
with the built-in one. -/
structure Intact (d : Descriptor) : Prop where
  mirrors : d.schema.Mirrors descriptorSchema
  /-- No record has the reserved number, not even in groups. -/
  apart : Storage.metadataNumber ∉ allNumbers (Value.recordsOf d.message)
  short : d.Short

theorem Intact.exists_decode (h : d.Intact) (hs : d.Sound) (hu : d.Upright)
    (hlen : d.encode.length < 2 ^ 64) : ∃ e, decode d.encode = .ok e ∧ e.typed = d.typed ∧
      Records.Clear Storage.metadataNumber d.encode := by
  obtain ⟨e, he, htyped⟩ := Current.exists_decode ⟨hu h.mirrors, h.short⟩
  exact ⟨e, he, htyped, clear_encode hs he hlen h.apart⟩

end Descriptor

namespace ImageFile

/-- The file as it is stored, with another descriptor. Where it was found is not known. -/
def beside (f : ImageFile) (d : Descriptor) : ImageFile :=
  { f with descriptor := d, externalPath := f.path, localPath := none }

/-- The second file is the first one as it is stored, with a descriptor of the same typed
message. -/
structure Recovered (f g : ImageFile) : Prop where
  typed : g.descriptor.typed = f.descriptor.typed
  file : g = f.beside g.descriptor

variable {f g : ImageFile}

theorem Recovered.path (h : Recovered f g) : g.path = f.path :=
  congrArg (fun typed => Message.textAt 1 typed) h.typed

theorem Recovered.dependencies (h : Recovered f g) : g.dependencies = f.dependencies :=
  congrArg (fun typed => Message.textsAt 3 typed) h.typed

theorem Recovered.module (h : Recovered f g) : g.module = f.module := by
  rw [h.file]
  rfl

theorem Recovered.commit (h : Recovered f g) : g.commit = f.commit := by
  rw [h.file]
  rfl

end ImageFile

namespace Image
open Storage

variable {I J : Image} {f : ImageFile} {d : Descriptor} {s : Descriptor × Message}
  {files gs : List ImageFile} {ds : List Descriptor} {stored : List (Descriptor × Message)}
  {options : DecodeOptions} {modified images : List Image}

section Files

/-- A valid file is found again beside a descriptor with its typed message. -/
theorem fileOf_beside (hf : f.Valid) (h : d.typed = f.descriptor.typed) :
    fileOf d (metadata f) f.unused = .ok (f.beside d) := by
  have hname : d.name = f.path := congrArg (fun typed => Message.textAt 1 typed) h
  have hdependencies : d.dependencies = f.dependencies :=
    congrArg (fun typed => Message.textsAt 3 typed) h
  have hpublic : ∀ i, d.isPublic i = f.descriptor.isPublic i := by
    intro i
    rw [isPublic, isPublic, h]
  have hnormal : Path.normalize d.name = .ok d.name := hname ▸ hf.normal
  have hnot : d.name ≠ "" := by
    intro he
    rw [he] at hnormal
    cases hnormal
  have hascending := ascending_of_pairwise hf.unused_ascending
  rw [fileOf, if_neg hnot]
  refine bind_eq_ok_iff.mpr ⟨_, storedModule_metadata d.name hf.module_of_commit, ?_⟩
  rw [boolAt_isImport, boolAt_syntaxUnspecified]
  refine ImageFile.ofParts_eq_ok_iff.mpr ⟨hnormal, hf.module_of_commit, fun i hi => ?_, ?_⟩
  · rw [hascending] at hi
    rw [hdependencies, hpublic]
    exact ⟨hf.unused_lt i hi, hf.unused_private i hi⟩
  · simp only [ImageFile.Parts.file, ImageFile.beside, hascending, hname, Option.getD_none,
      Option.getD_some]

/-- Valid files are found again beside descriptors with their typed messages. -/
theorem filesOf_beside (h : List.Forall₂ (fun f d => d.typed = f.descriptor.typed) files ds)
    (hv : ∀ f ∈ files, f.Valid) (hb : ∀ f ∈ files, f.dependencies.length ≤ 2 ^ 31) :
    filesOf none (ds.zip (files.map metadata)) = .ok (List.zipWith ImageFile.beside files ds) := by
  induction h with
  | nil => rfl
  | @cons f d files ds hd _ ih =>
    obtain ⟨hf, hv⟩ := List.forall_mem_cons.mp hv
    obtain ⟨hsmall, hb⟩ := List.forall_mem_cons.mp hb
    have hunused := storedUnused_metadata (d := d) fun i hi =>
      lt_of_lt_of_le (hf.unused_lt i hi) hsmall
    exact filesOf_cons_iff.mpr ⟨f.unused, _, _, hunused, fileOf_beside hf hd, ih hv hb, rfl⟩

theorem forall₂_beside {R : ImageFile → Descriptor → Prop} (h : List.Forall₂ R files ds) :
    List.Forall₂ (fun f g => R f g.descriptor ∧ g = f.beside g.descriptor) files
      (List.zipWith ImageFile.beside files ds) := by
  induction h with
  | nil => exact .nil
  | cons hd _ ih => exact .cons ⟨hd, rfl⟩ ih

/-- What is read of a file from what was written of it: its metadata, and a descriptor with its
typed message. -/
structure Finds (f : ImageFile) (s : Descriptor × Message) : Prop where
  decoded : decodeFile (encodeFile f) = .ok s
  descriptor : Descriptor.decode f.descriptor.encode = .ok s.1
  typed : s.1.typed = f.descriptor.typed
  metadata : s.2 = metadata f

theorem exists_finds (hd : f.descriptor.Intact) (hs : f.descriptor.Sound)
    (hu : f.descriptor.Upright)
    (hlen : (encodeFile f).length < 2 ^ 64) : ∃ s, Finds f s := by
  have hle : f.descriptor.encode.length ≤ (encodeFile f).length := by
    rw [encodeFile, List.length_append]
    omega
  obtain ⟨e, he, htyped, hclear⟩ := hd.exists_decode hs hu (by omega)
  exact ⟨(e, metadata f), decodeFile_encodeFile hclear hlen he, he, htyped, rfl⟩

/-- Reading an image from what was written of it, where trust is put in the indexes of imports that
are not needed: the descriptors are settled, and the files are made of these. -/
theorem decode_encode_iff (hfinds : List.Forall₂ Finds I.files stored) (hn : I.files ≠ [])
    (hlen : I.encode.length < 2 ^ 64) (ho : options.computeUnused = false) :
    Image.decode I.encode options = .ok J ↔ ∃ ds gs, settled options (stored.map (·.1)) = .ok ds ∧
      filesOf none (ds.zip (I.files.map metadata)) = .ok gs ∧ ofFiles gs = .ok J := by
  have hne : I.files.map encodeFile ≠ [] := by simpa using hn
  have hdecoded : decodeFiles I.encode = .ok (I.files.map encodeFile) :=
    decodeFiles_encodeFiles hne hlen
  have hstored : (I.files.map encodeFile).mapM decodeFile = .ok stored := by
    rw [mapM_eq_ok_iff, List.forall₂_map_left_iff]
    exact hfinds.imp fun _ _ h => h.decoded
  have hmetadata : stored.map (·.2) = I.files.map metadata :=
    map_eq_of_forall₂ (hfinds.flip.imp fun _ _ h => h.metadata)
  have hcomputed : ∀ ds, computedUnused options ds = none := fun ds => by
    rw [computedUnused, ho, if_neg Bool.false_ne_true]
  rw [decode_eq_ok_iff]
  constructor
  · rintro ⟨-, encoded, stored', ds, gs, hencoded, -, hstored', hds, hgs, hJ⟩
    obtain rfl := Except.ok.inj (hdecoded.symm.trans hencoded)
    obtain rfl := Except.ok.inj (hstored.symm.trans hstored')
    rw [hcomputed, hmetadata] at hgs
    exact ⟨ds, gs, hds, hgs, hJ⟩
  · rintro ⟨ds, gs, hds, hgs, hJ⟩
    refine ⟨by rw [ho, Bool.false_and], _, stored, ds, gs, hdecoded, hne, hstored, hds, ?_, hJ⟩
    rw [hcomputed, hmetadata]
    exact hgs

/-- Settled descriptors have the typed messages of the files. -/
theorem typed_of_settled (hfinds : List.Forall₂ Finds files stored)
    (h : settled options (stored.map (·.1)) = .ok ds) :
    List.Forall₂ (fun f d => d.typed = f.descriptor.typed) files ds := by
  have hsame : ds.map (·.typed) = (stored.map (·.1)).map (·.typed) := by
    unfold settled at h
    split at h
    · exact Reparse.apply_typed h
    · rw [Except.ok.inj h]
  have hfiles : (stored.map (·.1)).map (·.typed) = files.map (·.descriptor.typed) := by
    rw [List.map_map]
    exact map_eq_of_forall₂ (hfinds.flip.imp fun _ _ h => h.typed)
  have heq := List.forall₂_eq_eq_eq ▸ hsame.trans hfiles
  exact (List.forall₂_map_left_iff.mp (List.forall₂_map_right_iff.mp heq)).flip

end Files

section Order

/-- The files of the second image are those of the first one as they are stored. They stand as they
stood if each stood behind its imports, and only then. -/
structure Recovers (I J : Image) : Prop where
  files : ∃ gs, J.files.Perm gs ∧ List.Forall₂ ImageFile.Recovered I.files gs
  ordered : InOrder I.entries → List.Forall₂ ImageFile.Recovered I.files J.files
  paths : J.paths = I.paths ↔ InOrder I.entries

theorem files_of_inOrder (ho : InOrder I.entries) (h : SameImports I.entries (underPaths gs))
    (hJ : ofFiles gs = .ok J) : J.files = gs := by
  rw [files, ofFiles_of_sameImports ho h hJ, map_snd_underPaths]

variable (hv : I.Valid) (h : List.Forall₂ ImageFile.Recovered I.files gs)
include hv h

theorem sameImports_recovered : SameImports I.entries (underPaths gs) := by
  rw [hv.entries_eq, SameImports, underPaths, underPaths, List.forall₂_map_left_iff,
    List.forall₂_map_right_iff]
  exact h.imp fun _ _ hg => ⟨hg.path, hg.dependencies⟩

theorem exists_ofFiles (hn : I.files ≠ []) : ∃ J, ofFiles gs = .ok J := by
  have hkeys : gs.map (·.path) = I.paths := by
    rw [← keys_underPaths]
    exact (sameImports_recovered hv h).keys_eq
  refine ⟨_, ofFiles_eq_ok_iff.mpr ⟨?_, hkeys ▸ hv.distinct, ?_, rfl⟩⟩
  · rintro rfl
    exact hn (List.forall₂_nil_right_iff.mp h)
  · intro g hg g' hg' m hm hm'
    obtain ⟨f, hf, hr⟩ := exists_of_forall₂ h hg
    obtain ⟨f', hf', hr'⟩ := exists_of_forall₂ h hg'
    rw [hr.commit, hr'.commit]
    exact hv.agree f hf f' hf' m (hr.module ▸ hm) (hr'.module ▸ hm')

theorem recovers_of_ofFiles (ha : Acyclic I.entries) (hJ : ofFiles gs = .ok J) : I.Recovers J := by
  have hsame := sameImports_recovered hv h
  refine ⟨⟨gs, perm_ofFiles hJ, h⟩, fun ho => ?_, fun hpaths => ?_, fun ho => ?_⟩
  · exact files_of_inOrder ho hsame hJ ▸ h
  · -- what an image of files lists is in order, and these files import the same
    obtain ⟨-, hd, -, rfl⟩ := ofFiles_eq_ok_iff.mp hJ
    rw [← keys_underPaths] at hd
    have hacyclic : Acyclic (underPaths gs) := by
      unfold Acyclic at ha ⊢
      rwa [hsame.imports_eq]
    have hsort : sort (underPaths gs) = underPaths gs :=
      eq_of_perm_of_keys ((keys_sort hd).symm ▸ (order_perm hd).nodup_iff.mpr hd) (sort_perm hd)
        (hpaths.trans hsame.keys_eq.symm)
    have ho : InOrder (underPaths gs) := hsort ▸ inOrder_sort hd hacyclic
    exact ho.sameImports (SameImports.symm hsame)
  · rw [paths, ofFiles_of_sameImports ho hsame hJ]
    exact hsame.keys_eq

end Order

section Runs

theorem Run.tidy (h : Run modified images) : ∀ I ∈ images, ∀ f ∈ I.files, f.descriptor.Tidy :=
  h.lasting tidy_lasting fun _ _ _ _ => trivial

/-- Where a pass over an image of the run failed, typed readers still get through what is written of
the descriptors it left. -/
def FailuresLegible (modified images : List Image) : Prop :=
  ∀ J ∈ images, ∀ I ∈ modified, ∀ C e, Managed.modify I C = (J, .error e) →
    ∀ f ∈ J.files, ∃ typed, readTyped f.descriptor.encode = .ok typed

theorem FailuresLegible.mono {modified' images' : List Image}
    (h : FailuresLegible modified' images')
    (hm : modified ⊆ modified') (hI : images ⊆ images') : FailuresLegible modified images :=
  fun J hJ I hmem => h J (hI hJ) I (hm hmem)

/-- The typed messages are what typed readers find, unless a pass that failed left what they do not
get through. -/
theorem Run.upright (h : Run modified images)
    (hw : ∀ I ∈ images, ∀ f ∈ I.files, f.descriptor.Writable)
    (hl : FailuresLegible modified images) : ∀ I ∈ images, ∀ f ∈ I.files, f.descriptor.Upright := by
  have htold := h.lasting told_lasting hw
  induction h with
  | nil => simp
  | form h hJ ih =>
    obtain ⟨hw, hw'⟩ := List.forall_mem_cons.mp hw
    have hall := ih hw' (hl.mono (List.Subset.refl _) (List.subset_cons_self _ _))
      (List.forall_mem_cons.mp htold).2
    exact List.forall_mem_cons.mpr
      ⟨fun f hf => origin_inborn upright_inborn hall (hJ.origin f hf) (hw f hf), hall⟩
  | @modify _ _ I h hI C ih =>
    obtain ⟨-, hw⟩ := List.forall_mem_cons.mp hw
    obtain ⟨htold, htold'⟩ := List.forall_mem_cons.mp htold
    have hall := ih hw (hl.mono (List.subset_cons_self _ _) (List.subset_cons_self _ _)) htold'
    refine List.forall_mem_cons.mpr ⟨fun g hg => ?_, hall⟩
    cases hr : (Managed.modify I C).2 with
    | ok r =>
      have hturns : Managed.Turns C I (Managed.modify I C).1 := ⟨r, Prod.ext rfl hr⟩
      obtain ⟨f, hf, hfg⟩ := exists_of_forall₂ (hturns.conducted upright_conducts) hg
      exact hfg (hall I hI f hf)
    | error e =>
      intro hm
      obtain ⟨typed, hread⟩ :=
        hl _ List.mem_cons_self I List.mem_cons_self C e (Prod.ext rfl hr) g hg
      rw [(htold g hg).honest hm typed hread, hread]

/-- The file comes back, and where the built-in schema holds its descriptor, the same descriptor
does. -/
def Returned (f g : ImageFile) : Prop :=
  ImageFile.Recovered f g ∧ (f.descriptor.Builtin → g = f.beside f.descriptor)

theorem encodeFiles_returned {gs : List ImageFile} (h : List.Forall₂ Returned files gs)
    (hb : ∀ f ∈ files, f.descriptor.Builtin) : gs.map encodeFile = files.map encodeFile := by
  refine map_eq_of_forall₂ (((List.forall₂_and_left _ _).mpr ⟨hb, h⟩).flip.imp fun g f hfg => ?_)
  rw [hfg.2.2 hfg.1]
  rfl

/-- However an image without a cycle of imports was made and modified, it is read from what was
written of it, with the same metadata and the same typed messages, in the same order where each file
stood behind its imports. What the built-in schema holds comes back as it was. Where the image is
read anew by its own descriptors, nothing else is lost either, if it can be read. -/
theorem decode_recovers (h : Run modified images) (hs : ∀ J ∈ modified, J.Standard)
    (hw : ∀ J ∈ images, ∀ f ∈ J.files, f.descriptor.Writable) (hl : FailuresLegible modified images)
    (hI : I ∈ images) (hn : I.files ≠ []) (ha : Acyclic I.entries)
    (hd : ∀ f ∈ I.files, f.descriptor.Intact)
    (hb : ∀ f ∈ I.files, f.dependencies.length ≤ 2 ^ 31) (hlen : I.encode.length < 2 ^ 64) :
    (∃ J, Image.decode I.encode { reparse := false } = .ok J ∧
      (∃ gs, J.files.Perm gs ∧ List.Forall₂ Returned I.files gs) ∧
      ((∀ f ∈ I.files, f.descriptor.Builtin) → InOrder I.entries → J.encode = I.encode)) ∧
    ∀ options J, options.computeUnused = false → Image.decode I.encode options = .ok J →
      I.Recovers J := by
  have hv : I.Valid := (h.kept hs).1 I hI
  have htold := h.lasting told_lasting hw I hI
  have hupright := h.upright hw hl I hI
  obtain ⟨stored, hfinds⟩ : ∃ stored, List.Forall₂ Finds I.files stored := by
    refine exists_forall₂ fun f hf => exists_finds (hd f hf) (htold f hf).sound (hupright f hf) ?_
    exact (length_le_encodeFiles (List.mem_map_of_mem hf)).trans_lt hlen
  constructor
  · -- nothing is settled here, so the descriptors are those that were read
    have hds : settled { reparse := false } (stored.map (·.1)) = .ok (stored.map (·.1)) := rfl
    have hread : List.Forall₂ (fun f d => d.typed = f.descriptor.typed ∧
        Descriptor.decode f.descriptor.encode = .ok d) I.files (stored.map (·.1)) :=
      List.forall₂_map_right_iff.mpr (hfinds.imp fun _ _ h => ⟨h.typed, h.descriptor⟩)
    have hgs := filesOf_beside (hread.imp fun _ _ h => h.1) hv.sound hb
    have hreturned : List.Forall₂ Returned I.files
        (List.zipWith ImageFile.beside I.files (stored.map (·.1))) := by
      refine List.Forall₂.imp ?_ ((List.forall₂_and_left _ _).mpr
        ⟨fun _ => id, forall₂_beside hread⟩)
      rintro f g ⟨hf, ⟨htyped, hdecode⟩, hg⟩
      refine ⟨⟨htyped, hg⟩, fun hbuiltin => ?_⟩
      have heq := (h.tidy I hI f hf).eq_of_decode hbuiltin (hw I hI f hf).length hdecode htyped
      rwa [heq] at hg
    generalize List.zipWith ImageFile.beside I.files (stored.map (·.1)) = gs at hgs hreturned
    have hrecovered := hreturned.imp fun _ _ h => h.1
    obtain ⟨J, hJ⟩ := exists_ofFiles hv hrecovered hn
    refine ⟨J, (decode_encode_iff hfinds hn hlen rfl).mpr ⟨_, gs, hds, hgs, hJ⟩,
      ⟨gs, perm_ofFiles hJ, hreturned⟩, fun hbuiltin ho => ?_⟩
    rw [Image.encode, files_of_inOrder ho (sameImports_recovered hv hrecovered) hJ,
      encodeFiles_returned hreturned hbuiltin, Image.encode]
  · intro options J ho hJ
    obtain ⟨ds, gs, hds, hgs, hJ⟩ := (decode_encode_iff hfinds hn hlen ho).mp hJ
    have htyped := typed_of_settled hfinds hds
    obtain rfl := Except.ok.inj ((filesOf_beside htyped hv.sound hb).symm.trans hgs)
    exact recovers_of_ofFiles hv ((forall₂_beside htyped).imp fun _ _ h => ⟨h.1, h.2⟩) ha hJ

theorem Changed.builtin (h : Changed I J) (hI : ∀ f ∈ I.files, f.descriptor.Builtin) :
    ∀ f ∈ J.files, f.descriptor.Builtin := by
  intro g hg
  obtain ⟨e', he', rfl⟩ := List.mem_map.mp hg
  obtain ⟨e, he, -, hc⟩ := exists_of_forall₂ h he'
  have hb := hI e.2 (List.mem_map_of_mem he)
  exact ⟨hc.descriptor.schema.trans hb.schema, hc.descriptor.type.trans hb.type⟩

/-- Whether an image can be written, and what is written of its descriptors can be read and told
apart. -/
def recoverable (I : Image) : Bool :=
  (I.files.all fun f => decide (f.descriptor.encode.length < 2 ^ 64) &&
    decide (f.descriptor.typed.encode.length < 2 ^ 64) &&
      (readTyped f.descriptor.encode).toOption.isSome &&
        decide (metadataNumber ∉ allNumbers (Value.recordsOf f.descriptor.message)) &&
          decide (f.dependencies.length ≤ 2 ^ 31)) &&
    decide (I.encode.length < 2 ^ 64)

theorem recoverable_facts (h : I.recoverable = true) : I.encode.length < 2 ^ 64 ∧
    ∀ f ∈ I.files, f.descriptor.Writable ∧ (∃ typed, readTyped f.descriptor.encode = .ok typed) ∧
      metadataNumber ∉ allNumbers (Value.recordsOf f.descriptor.message) ∧
        f.dependencies.length ≤ 2 ^ 31 := by
  simp only [recoverable, Bool.and_eq_true, List.all_eq_true, decide_eq_true_eq] at h
  refine ⟨h.2, fun f hf => ?_⟩
  obtain ⟨⟨⟨⟨hlen, htyped⟩, hread⟩, hapart⟩, hdependencies⟩ := h.1 f hf
  obtain ⟨typed, hread⟩ := Option.isSome_iff_exists.mp hread
  exact ⟨⟨hlen, htyped⟩, ⟨typed, ok_of_toOption hread⟩, hapart, hdependencies⟩

theorem recoverable_chain : (Image.decode chain { reparse := false }).toOption.map
    (fun I => standsInOrder I.entries && !I.entries.isEmpty && I.recoverable &&
      (Managed.modify I {}).1.recoverable) = some true := by
  decide +kernel

theorem decode_recovers_chain : ∃ I J, Image.decode chain { reparse := false } = .ok I ∧
    Image.decode (Managed.modify I {}).1.encode { reparse := false } = .ok J ∧
    J.encode = (Managed.modify I {}).1.encode := by
  obtain ⟨I, hI, -, hready⟩ := exists_valid_decoded recoverable_chain
  simp only [Bool.and_eq_true, standsInOrder_iff, Bool.not_eq_true', List.isEmpty_eq_false_iff]
    at hready
  obtain ⟨⟨⟨⟨hdistinct, ho⟩, hne⟩, hbefore⟩, hafter⟩ := hready
  obtain ⟨-, hplain⟩ := recoverable_facts hbefore
  obtain ⟨hlen, hall⟩ := recoverable_facts hafter
  have hs : I.Standard := fun f hf => (builtin_of_decode rfl hI f hf).standard
  have hchanged : Changed I (Managed.modify I {}).1 := Managed.modify_changed I {}
  have hrun : Run [I] [(Managed.modify I {}).1, I] := .modify (.form .nil (.decode hI)) (by simp) {}
  generalize hM : (Managed.modify I {}).1 = M at hall hlen hchanged hrun
  have hsame := hchanged.sameImports (decode_made hI).kept hs
  have ho : InOrder M.entries := ho.sameImports hsame
  have hbuiltin := hchanged.builtin (builtin_of_decode rfl hI)
  have hintact : ∀ f ∈ M.files, f.descriptor.Intact := by
    intro f hf
    obtain ⟨hw, -, hapart, -⟩ := hall f hf
    exact ⟨(hbuiltin f hf).schema ▸ mirrors_self, hapart,
      (hrun.tidy M (by simp) f hf).short (hbuiltin f hf) hw.length⟩
  have hn : M.files ≠ [] := by
    intro he
    rw [List.map_eq_nil_iff.mp he] at hsame
    exact hne (List.forall₂_nil_right_iff.mp hsame)
  have hlegible : FailuresLegible [I] [M, I] := by
    simp only [FailuresLegible, List.forall_mem_cons, List.not_mem_nil, false_implies, implies_true,
      and_true]
    exact ⟨fun _ _ _ f hf => (hall f hf).2.1, fun _ _ _ f hf => (hplain f hf).2.1⟩
  obtain ⟨⟨J, hJ, -, hsame⟩, -⟩ := decode_recovers hrun (by simpa using hs)
    (by simpa using ⟨fun f hf => (hall f hf).1, fun f hf => (hplain f hf).1⟩) hlegible
    (List.mem_cons_self (a := M)) hn (ho.acyclic (hsame.keys_eq ▸ hdistinct)) hintact
    (fun f hf => (hall f hf).2.2.2) hlen
  exact ⟨I, J, hI, hM ▸ hJ, hM ▸ hsame hbuiltin ho⟩

/-- Whether the files of an image stand behind their imports, and tell apart what is written of
them. -/
def tellsApart (I : Image) : Bool :=
  standsInOrder I.entries && I.files.all fun f =>
    decide (metadataNumber ∉ allNumbers (Value.recordsOf f.descriptor.message)) &&
      decide (f.dependencies.length < 2 ^ 31)

/-- The imports of all files of an image, and those of the image that is read from what was written
of it, with its paths. -/
def importsAgain (I : Image) : Option (List (List String) × List (List String)) := do
  let J ← (Image.decode I.encode { reparse := false }).toOption
  if J.paths = I.paths then some (I.files.map (·.dependencies), J.files.map (·.dependencies))
  else none

theorem importsAgain_lone : (Image.decode Managed.lone {}).toOption.map
    (fun I => (tellsApart I, importsAgain I)) =
      some (true, some ([[], [], [], ["b.proto", "c.proto"]], [[], [], [], ["c.proto"]])) := by
  decide +kernel

/-- Where the schema declares a single import, what is written of a file does not carry all its
imports. -/
theorem not_recovered_lone : ∃ I J, Image.decode Managed.lone {} = .ok I ∧ I.files ≠ [] ∧
    Acyclic I.entries ∧
    (∀ f ∈ I.files, metadataNumber ∉ allNumbers (Value.recordsOf f.descriptor.message) ∧
      f.dependencies.length < 2 ^ 31) ∧
    Image.decode I.encode { reparse := false } = .ok J ∧ J.paths = I.paths ∧
    J.files.map (·.descriptor.typed) ≠ I.files.map (·.descriptor.typed) := by
  obtain ⟨I, hI, hfacts⟩ := exists_of_toOption_map importsAgain_lone
  obtain ⟨hsettled, himports⟩ := Prod.mk.inj hfacts
  simp only [tellsApart, Bool.and_eq_true, List.all_eq_true, decide_eq_true_eq,
    standsInOrder_iff] at hsettled
  obtain ⟨⟨hd, ho⟩, hall⟩ := hsettled
  obtain ⟨J, hJ, himports⟩ := Option.bind_eq_some_iff.mp himports
  obtain ⟨hsame, himports⟩ := Option.ite_none_right_eq_some.mp himports
  obtain ⟨hbefore, hafter⟩ := Prod.mk.inj (Option.some.inj himports)
  refine ⟨I, J, hI, fun hn => ?_, ho.acyclic hd, hall, ok_of_toOption hJ, hsame, fun he => ?_⟩
  · rw [hn] at hbefore
    cases hbefore
  · rw [map_dependencies, ← he, ← map_dependencies, hafter] at hbefore
    exact absurd hbefore (by decide)

end Runs

end Image
end DescriptorKit
