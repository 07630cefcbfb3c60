import DescriptorKit.Image.Decode
import DescriptorKit.Proofs.Build.Stages
import DescriptorKit.Proofs.Image.Narrow
import DescriptorKit.Proofs.Managed.Image

/-!
Where images come from. Whatever is read, built, narrowed or merged is in the end an image of files
that are valid each.
-/
namespace DescriptorKit
open Descriptor

section Ascending

variable {ns : List Nat} {m n : Nat}

theorem mem_insert_iff : m ∈ ascending.insert ns n ↔ m = n ∨ m ∈ ns := by
  induction ns with
  | nil => simp [ascending.insert]
  | cons k ns ih =>
    rw [ascending.insert]
    split
    · simp
    · split
      · rename_i he
        subst he
        simp
      · rw [List.mem_cons, List.mem_cons, ih]
        tauto

theorem insert_pairwise (h : ns.Pairwise (· < ·)) : (ascending.insert ns n).Pairwise (· < ·) := by
  induction ns with
  | nil => simp [ascending.insert]
  | cons k ns ih =>
    obtain ⟨hk, hns⟩ := List.pairwise_cons.mp h
    rw [ascending.insert]
    split
    · rename_i hlt
      refine List.pairwise_cons.mpr ⟨fun m hm => ?_, h⟩
      rcases List.mem_cons.mp hm with rfl | hm
      · exact hlt
      · exact hlt.trans (hk m hm)
    · split
      · exact h
      · refine List.pairwise_cons.mpr ⟨fun m hm => ?_, ih hns⟩
        rcases mem_insert_iff.mp hm with rfl | hm
        · omega
        · exact hk m hm

theorem ascending_pairwise (ns : List Nat) : (ascending ns).Pairwise (· < ·) := by
  have : ∀ ns old : List Nat, old.Pairwise (· < ·) →
      (ns.foldl ascending.insert old).Pairwise (· < ·) := by
    intro ns
    induction ns with
    | nil => exact fun _ h => h
    | cons n ns ih => exact fun old h => ih _ (insert_pairwise h)
  exact this ns [] .nil

/-- Numbers in ascending order stay as they are. -/
theorem ascending_of_pairwise (h : ns.Pairwise (· < ·)) : ascending ns = ns := by
  have hinsert : ∀ {old : List Nat} {n : Nat}, (∀ m ∈ old, m < n) →
      ascending.insert old n = old ++ [n] := by
    intro old n
    induction old with
    | nil => exact fun _ => rfl
    | cons m old ih =>
      intro h
      obtain ⟨hm, hold⟩ := List.forall_mem_cons.mp h
      rw [ascending.insert, if_neg (by omega), if_neg (by omega), ih hold, List.cons_append]
  have hfold : ∀ ns old : List Nat, (old ++ ns).Pairwise (· < ·) →
      ns.foldl ascending.insert old = old ++ ns := by
    intro ns
    induction ns with
    | nil => simp
    | cons n ns ih =>
      intro old h
      have hold : ∀ m ∈ old, m < n := fun m hm => (List.pairwise_append.mp h).2.2 m hm n (by simp)
      rw [List.foldl_cons, hinsert hold, ih _ (by simpa using h), List.append_assoc]
      rfl
  exact hfold ns [] h

end Ascending

namespace ImageFile

variable {d : Descriptor} {f : ImageFile} {p : Parts} {indexes : List Nat}

theorem badIndex?_eq_none_iff : badIndex? d indexes = none ↔
    ∀ i ∈ indexes, i < d.dependencies.length ∧ d.isPublic i = false := by
  induction indexes with
  | nil => simp [badIndex?]
  | cons i rest ih =>
    rw [List.forall_mem_cons, ← ih, badIndex?]
    split
    · rename_i hle
      simp [Nat.not_lt.mpr hle]
    · rename_i hlt
      split
      · rename_i hpub
        simp [hpub]
      · rename_i hpub
        simp [Nat.not_le.mp hlt, hpub]

/-- The file that the parts are about. -/
def Parts.file (p : Parts) : ImageFile where
  descriptor := p.descriptor
  externalPath := p.externalPath.getD p.descriptor.name
  localPath := p.localPath
  module := p.module
  commit := p.commit
  isImport := p.isImport
  syntaxUnspecified := p.syntaxUnspecified
  unused := ascending p.unused

/-- Parts make a file where the name is a path in normal form, a commit comes with a module, and
imports that are not needed are there and not public. -/
theorem ofParts_eq_ok_iff : ofParts p = .ok f ↔
    Path.normalize p.descriptor.name = .ok p.descriptor.name ∧
      (p.commit.isSome → p.module.isSome) ∧
      (∀ i ∈ ascending p.unused, i < p.descriptor.dependencies.length ∧
        p.descriptor.isPublic i = false) ∧ f = p.file := by
  rw [← badIndex?_eq_none_iff, ofParts]
  by_cases hne : p.descriptor.name = ""
  · rw [if_pos hne, hne]
    constructor
    · intro h
      cases h
    · rintro ⟨h, -⟩
      cases h
  rw [if_neg hne]
  cases hn : Path.normalize p.descriptor.name with
  | error fault => simp
  | ok normal =>
    dsimp only
    by_cases hsame : normal = p.descriptor.name
    · rw [if_neg (not_not.mpr hsame), hsame]
      cases hc : p.commit <;> cases hm : p.module <;>
        cases badIndex? p.descriptor (ascending p.unused) <;>
          simp [Parts.file, hc, hm, eq_comm]
    · rw [if_pos hsame]
      simp [hsame]

/-- A file of parts is valid, and it is about the descriptor that was given. -/
theorem ofParts_valid (h : ofParts p = .ok f) : f.Valid ∧ f.descriptor = p.descriptor := by
  obtain ⟨hnormal, hcommit, hgood, rfl⟩ := ofParts_eq_ok_iff.mp h
  exact ⟨⟨hnormal, hcommit, fun i hi => (hgood i hi).1, fun i hi => (hgood i hi).2,
    ascending_pairwise _⟩, rfl⟩

end ImageFile

namespace Storage

variable {d : Descriptor} {metadata : Message} {unused : List Nat} {f : ImageFile}

theorem fileOf_valid (h : fileOf d metadata unused = .ok f) : f.Valid ∧ f.descriptor = d := by
  unfold fileOf at h
  split at h
  · cases h
  · obtain ⟨⟨module, commit⟩, -, h⟩ := bind_eq_ok_iff.mp h
    exact ImageFile.ofParts_valid h

theorem decodeFile_inv {encoded : Bytes} {stored : Descriptor × Message}
    (h : decodeFile encoded = .ok stored) : ∃ rest extracted,
      Wire.Records.split metadataNumber encoded = .ok (rest, extracted) ∧
        Descriptor.decode rest = .ok stored.1 := by
  obtain ⟨⟨rest, extracted⟩, hsplit, h⟩ := bind_eq_ok_iff.mp h
  obtain ⟨carrier, -, h⟩ := bind_eq_ok_iff.mp h
  obtain ⟨d, hd, h⟩ := bind_eq_ok_iff.mp h
  obtain rfl := Except.ok.inj h
  exact ⟨rest, extracted, mapError_eq_ok_iff.mp hsplit, mapError_eq_ok_iff.mp hd⟩

theorem exists_decode {encoded : Bytes} {stored : Descriptor × Message}
    (h : decodeFile encoded = .ok stored) : ∃ rest, Descriptor.decode rest = .ok stored.1 := by
  obtain ⟨rest, -, -, hd⟩ := decodeFile_inv h
  exact ⟨rest, hd⟩

end Storage

namespace Image

variable {I J M : Image} {files : List ImageFile} {computed : Option (List (List Nat))}
  {stored : List (Descriptor × Message)} {targets : List String}

/-- An image of valid files, whose typed messages tell their structure. -/
def Made (I : Image) : Prop :=
  ∃ files, ofFiles files = .ok I ∧ ∀ f ∈ files, f.Valid ∧ f.descriptor.Kept

theorem Made.valid (h : I.Made) : I.Valid := by
  obtain ⟨files, hok, hf⟩ := h
  exact ofFiles_valid hok fun f hm => (hf f hm).1

theorem Made.kept (h : I.Made) : I.Kept := by
  obtain ⟨files, hok, hf⟩ := h
  exact fun f hm => (hf f ((mem_files_of_ofFiles hok).mp hm)).2

/-- Without cycles, an image of files has each behind its imports. -/
theorem Made.inOrder (h : I.Made) (ha : Acyclic I.entries) : InOrder I.entries := by
  obtain ⟨files, hok, -⟩ := h
  obtain ⟨-, hd, -, rfl⟩ := ofFiles_eq_ok_iff.mp hok
  have hd' : (keys (underPaths files)).Nodup := by rwa [keys_underPaths]
  exact inOrder_sort hd' (acyclic_of_sort hd' ha)

/-- The indexes of imports that are not needed: those found, or those stored. -/
def unusedFor (computed : Option (List (List Nat))) (d : Descriptor) (metadata : Message) :
    Except Error (List Nat) :=
  computed.elim (Storage.storedUnused d metadata) fun found => .ok found.headI

theorem filesOf_cons_iff {d : Descriptor} {m : Message} :
    filesOf computed ((d, m) :: stored) = .ok files ↔
    ∃ unused f fs, unusedFor computed d m = .ok unused ∧ Storage.fileOf d m unused = .ok f ∧
      filesOf (computed.map List.tail) stored = .ok fs ∧ files = f :: fs := by
  have heq : filesOf computed ((d, m) :: stored) = unusedFor computed d m >>= fun unused =>
      Storage.fileOf d m unused >>= fun f => filesOf (computed.map List.tail) stored >>= fun fs =>
        .ok (f :: fs) := by
    rcases computed with - | - | ⟨indexes, rest⟩ <;> rfl
  simp only [heq, bind_eq_ok_iff, Except.ok.injEq, eq_comm (a := _ :: _)]
  constructor
  · rintro ⟨unused, hu, f, hf, fs, hfs, rfl⟩
    exact ⟨unused, f, fs, hu, hf, hfs, rfl⟩
  · rintro ⟨unused, f, fs, hu, hf, hfs, rfl⟩
    exact ⟨unused, hu, f, hf, fs, hfs, rfl⟩

theorem map_descriptor_of_filesOf (h : filesOf computed stored = .ok files) :
    files.map (·.descriptor) = stored.map (·.1) := by
  induction stored generalizing computed files with
  | nil =>
    obtain rfl := Except.ok.inj h
    rfl
  | cons s stored ih =>
    obtain ⟨unused, f, fs, -, hf, hfs, rfl⟩ := filesOf_cons_iff.mp h
    rw [List.map_cons, List.map_cons, ih hfs, (Storage.fileOf_valid hf).2]

theorem filesOf_valid (h : filesOf computed stored = .ok files) :
    ∀ f ∈ files, f.Valid ∧ ∃ p ∈ stored, f.descriptor = p.1 := by
  induction stored generalizing computed files with
  | nil =>
    obtain rfl := Except.ok.inj h
    simp
  | cons p rest ih =>
    obtain ⟨unused, f, fs, -, hf, hfs, rfl⟩ := filesOf_cons_iff.mp h
    obtain ⟨hv, hd⟩ := Storage.fileOf_valid hf
    refine List.forall_mem_cons.mpr ⟨⟨hv, p, List.mem_cons_self, hd⟩, fun g hg => ?_⟩
    obtain ⟨hv, q, hq, hd⟩ := ih hfs g hg
    exact ⟨hv, q, List.mem_cons_of_mem _ hq, hd⟩

/-- The descriptors that an image is made of: as they were stored, or read again. -/
def settled (options : DecodeOptions) (ds : List Descriptor) : Except Error (List Descriptor) :=
  if options.reparse then Reparse.apply ds else .ok ds

/-- Which unused imports are known beforehand. -/
def computedUnused (options : DecodeOptions) (ds : List Descriptor) : Option (List (List Nat)) :=
  if options.computeUnused then some (Unused.indexes ds) else none

theorem decode_eq (bytes : Bytes) (options : DecodeOptions) : Image.decode bytes options =
    if options.computeUnused && !options.reparse then .error (.options .unusedWithoutReparse)
    else (Storage.decodeFiles bytes).mapError .decode >>= fun encoded =>
      if encoded = [] then .error .noFiles
      else encoded.mapM Storage.decodeFile >>= fun stored =>
        settled options (stored.map (·.1)) >>= fun ds =>
          filesOf (computedUnused options ds) (ds.zip (stored.map (·.2))) >>= ofFiles := by
  unfold Image.decode settled computedUnused
  obtain ⟨reparse, computeUnused⟩ := options
  cases reparse <;> cases computeUnused <;> rfl

theorem decode_eq_ok_iff {bytes : Bytes} {options : DecodeOptions} :
    Image.decode bytes options = .ok I ↔
      (options.computeUnused && !options.reparse) = false ∧
      ∃ encoded stored ds files, Storage.decodeFiles bytes = .ok encoded ∧ encoded ≠ [] ∧
        encoded.mapM Storage.decodeFile = .ok stored ∧
        settled options (stored.map (·.1)) = .ok ds ∧
        filesOf (computedUnused options ds) (ds.zip (stored.map (·.2))) = .ok files ∧
        ofFiles files = .ok I := by
  rw [decode_eq]
  cases hopt : options.computeUnused && !options.reparse with
  | true => simp
  | false =>
    rw [if_neg Bool.false_ne_true, bind_eq_ok_iff]
    constructor
    · rintro ⟨encoded, hencoded, h⟩
      split at h
      · cases h
      · rename_i hn
        obtain ⟨stored, hstored, h⟩ := bind_eq_ok_iff.mp h
        obtain ⟨ds, hds, h⟩ := bind_eq_ok_iff.mp h
        obtain ⟨files, hfiles, h⟩ := bind_eq_ok_iff.mp h
        exact ⟨rfl, encoded, stored, ds, files, mapError_eq_ok_iff.mp hencoded, hn, hstored, hds,
          hfiles, h⟩
    · rintro ⟨-, encoded, stored, ds, files, hencoded, hn, hstored, hds, hfiles, h⟩
      refine ⟨encoded, mapError_eq_ok_iff.mpr hencoded, ?_⟩
      rw [if_neg hn]
      exact bind_eq_ok_iff.mpr ⟨stored, hstored, bind_eq_ok_iff.mpr ⟨ds, hds,
        bind_eq_ok_iff.mpr ⟨files, hfiles, h⟩⟩⟩

theorem decode_made {bytes : Bytes} {options : DecodeOptions}
    (h : Image.decode bytes options = .ok I) : I.Made := by
  obtain ⟨-, encoded, stored, ds, files, -, -, hstored, hds, hfiles, hI⟩ := decode_eq_ok_iff.mp h
  have hin : ∀ d ∈ stored.map (·.1), d.InStep := by
    intro d hd
    obtain ⟨p, hp, rfl⟩ := List.mem_map.mp hd
    obtain ⟨b, -, hb⟩ := mem_of_mapM hstored hp
    obtain ⟨rest, hrest⟩ := Storage.exists_decode hb
    exact decode_inStep hrest
  have hkept : ∀ d ∈ ds, d.Kept := by
    unfold settled at hds
    split at hds
    · exact Reparse.apply_kept hds hin
    · obtain rfl := Except.ok.inj hds
      exact fun d hd => (hin d hd).kept
  refine ⟨files, hI, fun f hf => ?_⟩
  obtain ⟨hv, p, hp, hd⟩ := filesOf_valid hfiles f hf
  exact ⟨hv, hd ▸ hkept p.1 (List.of_mem_zip hp).1⟩

/-- Without reading them again, descriptors stay as they were stored. -/
theorem exists_bytes_of_decode {bytes : Bytes} {options : DecodeOptions}
    (hr : options.reparse = false) (h : Image.decode bytes options = .ok I) :
    ∀ f ∈ I.files, ∃ b, Descriptor.decode b = .ok f.descriptor := by
  obtain ⟨-, encoded, stored, ds, files, -, -, hstored, hds, hfiles, hI⟩ := decode_eq_ok_iff.mp h
  intro f hf
  obtain ⟨-, p, hp, hd⟩ := filesOf_valid hfiles f ((mem_files_of_ofFiles hI).mp hf)
  rw [settled, hr] at hds
  obtain rfl := Except.ok.inj hds
  obtain ⟨q, hq, hpq⟩ := List.mem_map.mp (List.of_mem_zip hp).1
  obtain ⟨b, -, hb⟩ := mem_of_mapM hstored hq
  rw [hd, ← hpq]
  exact Storage.exists_decode hb

theorem builtin_of_decode {bytes : Bytes} {options : DecodeOptions} (hr : options.reparse = false)
    (h : Image.decode bytes options = .ok I) : ∀ f ∈ I.files, f.descriptor.Builtin := by
  intro f hf
  obtain ⟨b, hb⟩ := exists_bytes_of_decode hr h f hf
  exact decode_builtin hb

theorem keep_made (hv : I.Valid) (hk : I.Kept) (h : I.keep targets = .ok J) : J.Made := by
  refine ⟨_, h, fun f hf => ?_⟩
  obtain ⟨g, hg, rfl⟩ := List.mem_map.mp hf
  have hg' := List.mem_of_mem_filter hg
  exact ⟨(hv.sound g hg').withImport _, hk g hg'⟩

/-- Narrowing leaves an image alone or makes another. -/
theorem narrow_made {missing : Missing} {include_ exclude : List String} (hv : I.Valid)
    (hk : I.Kept) (h : I.narrow missing include_ exclude = .ok J) : J = I ∨ J.Made := by
  obtain ⟨include', -, h⟩ := bind_eq_ok_iff.mp h
  obtain ⟨exclude', -, h⟩ := bind_eq_ok_iff.mp h
  rw [narrowTo] at h
  split at h
  · exact Or.inl (Except.ok.inj h).symm
  · right
    split at h
    · cases h
    · split at h
      · cases h
      · dsimp only at h
        split at h
        · cases h
        · exact keep_made hv hk h

theorem ofRequest_made {r : Request} (h : Image.ofRequest r = .ok I) : I.Made := by
  obtain ⟨ds, hds, h⟩ := bind_eq_ok_iff.mp h
  obtain ⟨es, hes, h⟩ := bind_eq_ok_iff.mp h
  obtain ⟨files, hfiles, h⟩ := bind_eq_ok_iff.mp h
  obtain ⟨J, hJ, h⟩ := bind_eq_ok_iff.mp h
  have hin : ∀ d ∈ ds, d.InStep := by
    intro d hd
    obtain ⟨b, -, hb⟩ := mem_of_mapM hds hd
    exact decode_inStep (mapError_eq_ok_iff.mp hb)
  have hkept := Reparse.apply_kept hes hin
  have hmade : J.Made := by
    refine ⟨files, hJ, fun f hf => ?_⟩
    obtain ⟨d, hd, hf⟩ := mem_of_mapM hfiles hf
    obtain ⟨hv, hdesc⟩ := ImageFile.ofParts_valid hf
    exact ⟨hv, hdesc ▸ hkept d hd⟩
  rcases narrow_made hmade.valid hmade.kept h with rfl | h
  · exact hmade
  · exact h

theorem assemble_made {origins : Build.Origins} {options : BuildOptions}
    {linked : List Build.Linked}
    (h : Build.assemble origins targets options linked = .ok I) : I.Made := by
  obtain ⟨ds, hds, h⟩ := bind_eq_ok_iff.mp h
  obtain ⟨es, hes, h⟩ := bind_eq_ok_iff.mp h
  obtain ⟨files, hfiles, h⟩ := bind_eq_ok_iff.mp h
  have hin : ∀ d ∈ ds, d.InStep := by
    intro d hd
    obtain ⟨l, -, hl⟩ := mem_of_mapM hds hd
    exact decode_inStep (mapError_eq_ok_iff.mp hl)
  have hkept := Reparse.apply_kept hes hin
  refine ⟨files, h, fun f hf => ?_⟩
  obtain ⟨⟨d, unused⟩, hd, hf⟩ := mem_of_mapM hfiles hf
  obtain ⟨hv, hdesc⟩ := ImageFile.ofParts_valid hf
  exact ⟨hv, hdesc ▸ hkept d (List.of_mem_zip hd).1⟩

theorem build_made {R : SourceReader} {options : BuildOptions}
    (h : Image.build R options = .ok I) : I.Made := by
  obtain ⟨_, _, _, hs⟩ := Build.exists_stages h
  exact assemble_made hs.assembled

/-- Merging gives one of the images, or puts one together from their files. -/
theorem merge_cases {images : List Image} (h : merge images = .ok (some M)) :
    M ∈ images ∨ ∃ files, ofFiles files = .ok M ∧ ∀ f ∈ files, ∃ I ∈ images, f ∈ I.files := by
  unfold merge at h
  split at h
  · cases h
  · obtain rfl := Option.some.inj (Except.ok.inj h)
    exact Or.inl (by simp)
  · right
    obtain ⟨merged, hmerged, h⟩ := bind_eq_ok_iff.mp h
    obtain ⟨J, hJ, h⟩ := bind_eq_ok_iff.mp h
    obtain rfl := Option.some.inj (Except.ok.inj h)
    have hm := mergeFiles_merged .nil hmerged
    refine ⟨_, hJ, fun f hf => ?_⟩
    obtain ⟨e, he, rfl⟩ := List.mem_map.mp hf
    exact List.mem_flatMap.mp (by simpa using hm.given e he)

theorem mem_of_merge {images : List Image} (h : merge images = .ok (some M)) :
    ∀ f ∈ M.files, ∃ I ∈ images, f ∈ I.files := by
  rcases merge_cases h with hm | ⟨files, hM, hfrom⟩
  · exact fun f hf => ⟨M, hm, hf⟩
  · exact fun f hf => hfrom f ((mem_files_of_ofFiles hM).mp hf)

theorem merge_made {images : List Image} (hv : ∀ I ∈ images, I.Valid) (hk : ∀ I ∈ images, I.Kept)
    (h : merge images = .ok (some M)) : M ∈ images ∨ M.Made := by
  refine (merge_cases h).imp_right ?_
  rintro ⟨files, hM, hfrom⟩
  refine ⟨files, hM, fun f hf => ?_⟩
  obtain ⟨I, hI, hf⟩ := hfrom f hf
  exact ⟨(hv I hI).sound _ hf, hk I hI _ hf⟩

end Image
end DescriptorKit
