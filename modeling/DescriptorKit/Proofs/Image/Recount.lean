import DescriptorKit.Proofs.Descriptor.Faithful
import DescriptorKit.Proofs.Image.Run
import DescriptorKit.Proofs.Image.Stored
import DescriptorKit.Proofs.Reparse
import DescriptorKit.Proofs.Unused.Exact

/-!
Imports that are not needed, found again in an image that was written and read. An image lists its
files in an order of its own, which may be another one than that of the bytes it was read from. What
is found is the same where files were listed in the order that the image gave them, and in any order
where no two files declare the same type and no two extensions of a message share a number; where
two files declare a type, other imports may be the ones that are needed.
-/
namespace DescriptorKit

/-- The file with its descriptor held by another schema. -/
def ImageFile.heldBy (f : ImageFile) (S : Schema) : ImageFile :=
  { f with descriptor := { f.descriptor with schema := S } }

namespace Image
open Wire Storage

variable {I J : Image} {files gs : List ImageFile} {f : ImageFile} {bytes b : Bytes}
  {S T : Schema} {P Q : Pool} {ds es : List Descriptor} {options : DecodeOptions}
  {stored : List (Descriptor × Message)} {s : Descriptor × Message}

section Unneeded

/-- The imports that a descriptor does not need among others. -/
def unneeded (ds : List Descriptor) (d : Descriptor) : List Nat :=
  Unused.indexesOf (Unused.withDecls ds) (Unused.symbols (Unused.withDecls ds)) d d.decl

theorem indexes_eq (ds : List Descriptor) : Unused.indexes ds = ds.map (unneeded ds) := by
  rw [Unused.indexes, List.map_map]
  rfl

/-- Where indexes are found, every file is made with those of its descriptor. -/
theorem fileOf_of_filesOf {unused : Descriptor → List Nat} {ms : List Message}
    (h : filesOf (some (ds.map unused)) (ds.zip ms) = .ok files) :
    ∀ f ∈ files, ∃ m, fileOf f.descriptor m (unused f.descriptor) = .ok f := by
  induction ds generalizing ms files with
  | nil =>
    obtain rfl := Except.ok.inj h
    simp
  | cons d ds ih =>
    cases ms with
    | nil =>
      obtain rfl := Except.ok.inj h
      simp
    | cons m ms =>
      obtain ⟨_, f, fs, hu, hf, hfs, rfl⟩ := filesOf_cons_iff.mp h
      obtain rfl := Except.ok.inj hu
      refine List.forall_mem_cons.mpr ⟨⟨m, ?_⟩, ih hfs⟩
      rwa [(fileOf_valid hf).2]

/-- Files that are each made with indexes that were found are made with all of them. -/
theorem filesOf_found {d : ImageFile → Descriptor} {unused : ImageFile → List Nat}
    {made : ImageFile → ImageFile}
    (h : ∀ f ∈ gs, fileOf (d f) (metadata f) (unused f) = .ok (made f)) :
    filesOf (some (gs.map unused)) (gs.map fun f => (d f, metadata f)) = .ok (gs.map made) := by
  induction gs with
  | nil => rfl
  | cons f gs ih =>
    obtain ⟨hf, hgs⟩ := List.forall_mem_cons.mp h
    exact filesOf_cons_iff.mpr ⟨_, _, _, rfl, hf, ih hgs, rfl⟩

/-- Files that are each made with the indexes that are stored are made with those. -/
theorem filesOf_trusted {d : ImageFile → Descriptor} {made : ImageFile → ImageFile}
    (h : ∀ f ∈ gs, fileOf (d f) (metadata f) f.unused = .ok (made f))
    (hsmall : ∀ f ∈ gs, ∀ i ∈ f.unused, i < 2 ^ 31) :
    filesOf none (gs.map fun f => (d f, metadata f)) = .ok (gs.map made) := by
  induction gs with
  | nil => rfl
  | cons f gs ih =>
    obtain ⟨hf, hgs⟩ := List.forall_mem_cons.mp h
    obtain ⟨hone, hrest⟩ := List.forall_mem_cons.mp hsmall
    exact filesOf_cons_iff.mpr ⟨_, _, _, storedUnused_metadata hone, hf, ih hgs hrest, rfl⟩

/-- Files that were made are made again beside their own metadata, held by another schema, whether
the indexes of imports that are not needed are found again or were stored. -/
theorem filesOf_heldBy
    (h : ∀ f ∈ gs, ∃ m, fileOf f.descriptor m (unneeded ds f.descriptor) = .ok f)
    (hu : ∀ f ∈ gs, unneeded (gs.map fun f => (f.heldBy S).descriptor) (f.heldBy S).descriptor =
      unneeded ds f.descriptor) :
    filesOf (some (Unused.indexes (gs.map fun f => (f.heldBy S).descriptor)))
        (gs.map fun f => ((f.heldBy S).descriptor, metadata f)) = .ok (gs.map (·.heldBy S)) ∧
      ((∀ f ∈ gs, f.dependencies.length ≤ 2 ^ 31) →
        filesOf none (gs.map fun f => ((f.heldBy S).descriptor, metadata f)) =
          .ok (gs.map (·.heldBy S))) := by
  have hmade : ∀ f ∈ gs, ∀ unused, ascending unused = f.unused →
      fileOf (f.heldBy S).descriptor (metadata f) unused = .ok (f.heldBy S) := by
    intro f hf unused hsame
    obtain ⟨m, hm⟩ := h f hf
    exact fileOf_metadata hm hsame rfl
  constructor
  · rw [indexes_eq, List.map_map]
    refine filesOf_found fun f hf => hmade f hf _ ?_
    obtain ⟨m, hm⟩ := h f hf
    rw [Function.comp_apply, hu f hf, fileOf_unused hm]
  · intro hsmall
    refine filesOf_trusted (fun f hf => ?_) fun f hf i hi => ?_
    all_goals
      obtain ⟨m, hm⟩ := h f hf
      obtain ⟨hvalid, -⟩ := fileOf_valid hm
    · exact hmade f hf _ (ascending_of_pairwise hvalid.unused_ascending)
    · exact lt_of_lt_of_le (hvalid.unused_lt i hi) (hsmall f hf)

end Unneeded

section Stored

/-- What stands in the bytes of an image for its files, in their order. -/
def storedIn (bytes : Bytes) : Except Error (List (Descriptor × Message)) := do
  let encoded ← (decodeFiles bytes).mapError .decode
  encoded.mapM decodeFile

/-- The paths of the files in the bytes of an image, in their order. -/
def listed (bytes : Bytes) : Except Error (List String) :=
  (storedIn bytes).map fun stored => stored.map (·.1.name)

/-- No two files in the bytes of an image declare the same type, and no two extensions in its pool
have the same number for the same message. -/
structure Unambiguous (bytes : Bytes) : Prop where
  types : ∀ stored, storedIn bytes = .ok stored → Unused.Undisputed (stored.map (·.1))
  extensions : ∀ stored P, storedIn bytes = .ok stored → Reparse.pool (stored.map (·.1)) = .ok P →
    P.schema.NumbersApart

theorem storedIn_eq {encoded : List Bytes} (h : decodeFiles bytes = .ok encoded)
    (hs : encoded.mapM decodeFile = .ok stored) : storedIn bytes = .ok stored :=
  bind_eq_ok_iff.mpr ⟨encoded, mapError_eq_ok_iff.mpr h, hs⟩

/-- Where no file declares what a descriptor is, descriptors stay as they were stored. -/
theorem exists_bytes_of_undeclared (h : Image.decode bytes options = .ok I)
    (hr : options.reparse = true) (hs : storedIn bytes = .ok stored)
    (hP : Reparse.pool (stored.map (·.1)) = .ok P)
    (hn : P.schema.message? Bundled.fileTypeName = none) :
    ∀ f ∈ I.files, ∃ b, Descriptor.decode b = .ok f.descriptor := by
  obtain ⟨-, encoded, stored, ds, files, hencoded, -, hstored, hds, hfiles, hI⟩ :=
    decode_eq_ok_iff.mp h
  obtain rfl := Except.ok.inj (hs.symm.trans (storedIn_eq hencoded hstored))
  rw [settled, if_pos hr] at hds
  obtain ⟨Q, hQ, hall⟩ := Reparse.apply_eq_ok_iff.mp hds
  obtain rfl := Except.ok.inj (hP.symm.trans hQ)
  intro f hf
  obtain ⟨-, p, hp, hd⟩ := filesOf_valid hfiles f ((mem_files_of_ofFiles hI).mp hf)
  obtain ⟨d, hd', hr⟩ := exists_of_forall₂ hall (List.of_mem_zip hp).1
  obtain ⟨s, hsm, rfl⟩ := List.mem_map.mp hd'
  obtain ⟨b, -, hb⟩ := mem_of_mapM hstored hsm
  rw [hd, hr.same hn]
  exact exists_decode hb

/-- What is written of a file is read as its metadata, and as a descriptor that a schema takes for
the one of the file. -/
structure Restores (S : Schema) (f : ImageFile) (s : Descriptor × Message) : Prop where
  decoded : decodeFile (encodeFile f) = .ok s
  builtin : s.1.schema = Bundled.descriptorSchema
  metadata : s.2 = metadata f
  typed : s.1.typed = f.descriptor.typed
  reread : Reparse.Rereads S s.1 f.descriptor

theorem exists_restores (h : decodeFile b = .ok s) (hb : b.length < 2 ^ 64) (hS : S.Regular)
    (hr : Reparse.Rereads S s.1 f.descriptor) (hf : f.descriptor.Faithful)
    (hs : f.descriptor.Short) (hlen : (encodeFile f).length < 2 ^ 64) : ∃ s, Restores S f s := by
  obtain ⟨rest, extracted, hsplit, hd⟩ := decodeFile_inv h
  have hclear := Records.clear_of_split hsplit
  have hrest := lt_of_le_of_lt (Records.length_le_of_split hsplit) hb
  have hwritten : f.descriptor.encode.length < 2 ^ 64 := by
    rw [encodeFile, List.length_append] at hlen
    omega
  obtain ⟨e, he, htyped, hreread⟩ := Descriptor.exists_rereads hd hS hr hf hwritten hs
  have hclear' := Descriptor.clear_of_rereads hd hrest hclear hS hr hf hwritten he
  exact ⟨(e, metadata f), decodeFile_encodeFile hclear' hlen he,
    (Descriptor.decode_builtin he).schema, rfl, htyped, hreread⟩

/-- Files that are each found again in what is written of them are read as what they are by the
schema of their pool. -/
theorem decode_encodeFiles (hne : gs ≠ []) (hr : options.reparse = true)
    (hQ : Reparse.pool (gs.map (·.descriptor)) = .ok Q) (hagrees : S.Agrees Q.schema)
    (hone : ∀ f ∈ gs, ∃ s, Restores S f s)
    (hfiles : filesOf (computedUnused options
        (gs.map fun f => (f.heldBy (Reparse.rereader Q.schema)).descriptor))
      (gs.map fun f => ((f.heldBy (Reparse.rereader Q.schema)).descriptor, metadata f)) = .ok files)
    (hlen : (encodeFiles (gs.map encodeFile)).length < 2 ^ 64) (hJ : ofFiles files = .ok J) :
    Image.decode (encodeFiles (gs.map encodeFile)) options = .ok J := by
  obtain ⟨stored, hall⟩ := exists_forall₂ hone
  have hne : gs.map encodeFile ≠ [] := by simpa using hne
  have hstored : (gs.map encodeFile).mapM decodeFile = .ok stored := by
    rw [mapM_eq_ok_iff, List.forall₂_map_left_iff]
    exact hall.imp fun _ _ h => h.decoded
  have htyped : (stored.map (·.1)).map (·.typed) = (gs.map (·.descriptor)).map (·.typed) := by
    simp only [List.map_map]
    exact map_eq_of_forall₂ (hall.flip.imp fun _ _ h => h.typed)
  have hmetadata : stored.map (·.2) = gs.map metadata :=
    map_eq_of_forall₂ (hall.flip.imp fun _ _ h => h.metadata)
  have hsettled : settled options (stored.map (·.1)) =
      .ok (gs.map fun f => (f.heldBy (Reparse.rereader Q.schema)).descriptor) := by
    rw [settled, if_pos hr]
    refine Reparse.apply_eq_ok_iff.mpr ⟨Q, (Reparse.pool_congr htyped).trans hQ, ?_⟩
    rw [List.forall₂_map_left_iff, List.forall₂_map_right_iff]
    exact hall.flip.imp fun _ _ h => h.reread.of_agrees hagrees h.builtin
  refine decode_eq_ok_iff.mpr ⟨by simp [hr], gs.map encodeFile, stored, _, files,
    decodeFiles_encodeFiles hne hlen, hne, hstored, hsettled, ?_, hJ⟩
  rw [hmetadata, List.zip_map']
  exact hfiles

end Stored

section Recount

/-- What an image was decoded from where imports that are not needed were found: what stands in the
bytes for its files, and the pool of that. -/
structure Counted (bytes : Bytes) (I : Image) (files : List ImageFile)
    (stored : List (Descriptor × Message)) (P : Pool) : Prop where
  told : storedIn bytes = .ok stored
  pool : Reparse.pool (stored.map (·.1)) = .ok P
  typed : (files.map (·.descriptor)).map (·.typed) = (stored.map (·.1)).map (·.typed)
  read : ∀ f ∈ files, ∃ b s, b.length < 2 ^ 64 ∧ decodeFile b = .ok s ∧
    Reparse.Rereads P.schema s.1 f.descriptor
  found : ∀ f ∈ files, ∃ m,
    fileOf f.descriptor m (unneeded (files.map (·.descriptor)) f.descriptor) = .ok f
  image : ofFiles files = .ok I

theorem exists_counted (h : Image.decode bytes { computeUnused := true } = .ok I) :
    ∃ files stored P, Counted bytes I files stored P := by
  obtain ⟨-, encoded, stored, ds, files, hencoded, -, hstored, hds, hfiles, hI⟩ :=
    decode_eq_ok_iff.mp h
  have hds : Reparse.apply (stored.map (·.1)) = .ok ds := hds
  have hfiles : filesOf (some (Unused.indexes ds)) (ds.zip (stored.map (·.2))) = .ok files := hfiles
  rw [indexes_eq] at hfiles
  obtain ⟨P, hP, hall⟩ := Reparse.apply_eq_ok_iff.mp hds
  have htyped := Reparse.apply_typed hds
  have hdesc : files.map (·.descriptor) = ds := by
    have hlength : ds.length = stored.length := by simpa using congrArg List.length htyped
    rw [map_descriptor_of_filesOf hfiles, List.map_fst_zip (by simp [hlength])]
  subst hdesc
  refine ⟨files, stored, P, storedIn_eq hencoded hstored, hP, htyped, fun f hf => ?_,
    fileOf_of_filesOf hfiles, hI⟩
  obtain ⟨d, hd, hr⟩ := exists_of_forall₂ hall (List.mem_map_of_mem hf)
  obtain ⟨s, hs, rfl⟩ := List.mem_map.mp hd
  obtain ⟨b, hb, hdecoded⟩ := mem_of_mapM hstored hs
  exact ⟨b, s, length_lt_of_decodeFiles hencoded b hb, hdecoded, hr⟩

/-- The files are held by the schema of their pool. -/
theorem Counted.held (h : Counted bytes I files stored P) :
    ∀ f ∈ files, f.heldBy (Reparse.rereader P.schema) = f := by
  intro f hf
  obtain ⟨b, s, -, hdecoded, hr⟩ := h.read f hf
  obtain ⟨rest, -, -, hd⟩ := decodeFile_inv hdecoded
  rw [ImageFile.heldBy, ← hr.schema (Descriptor.decode_builtin hd).schema]

/-- Where the bytes list files in the order of the image, the image has taken them as they were. -/
theorem Counted.files_eq (h : Counted bytes I files stored P)
    (hl : listed bytes = .ok I.paths) : I.files = files := by
  refine files_of_paths h.image ?_
  have hnames : listed bytes = .ok (stored.map (·.1.name)) := by rw [listed, h.told, Except.map]
  have hsame := congrArg (List.map fun m : Message => m.textAt 1) h.typed
  simp only [List.map_map] at hsame
  rw [← Except.ok.inj (hnames.symm.trans hl)]
  exact hsame.symm

/-- Held by another schema, the files of an image make an image. -/
theorem exists_ofFiles_heldBy (hI : ofFiles files = .ok I) (S : Schema) :
    ∃ J, ofFiles (I.files.map (·.heldBy S)) = .ok J ∧
      J.files.Perm (I.files.map (·.heldBy S)) := by
  have hperm := perm_ofFiles hI
  obtain ⟨hne, hd, hagree, -⟩ := ofFiles_eq_ok_iff.mp hI
  have hJ : ofFiles (I.files.map (·.heldBy S)) =
      .ok ⟨sort (underPaths (I.files.map (·.heldBy S)))⟩ := by
    refine ofFiles_eq_ok_iff.mpr ⟨fun hnil => ?_, ?_, ?_, rfl⟩
    · rw [List.map_eq_nil_iff.mp hnil] at hperm
      exact hne (List.nil_perm.mp hperm)
    · rw [List.map_map]
      exact (hperm.map _).nodup_iff.mpr hd
    · intro f' hf' g' hg' m hfm hgm
      obtain ⟨f, hf, rfl⟩ := List.mem_map.mp hf'
      obtain ⟨g, hg, rfl⟩ := List.mem_map.mp hg'
      exact hagree f (hperm.mem_iff.mp hf) g (hperm.mem_iff.mp hg) m hfm hgm
  exact ⟨_, hJ, perm_ofFiles hJ⟩

/-- The files of an image make a pool that finds the same as that of the files it was made of, and
held by its schema they have the same imports that are not needed. -/
theorem exists_agreeing (hI : ofFiles files = .ok I)
    (hP : Reparse.pool (files.map (·.descriptor)) = .ok P)
    (hheld : ∀ f ∈ files, f.heldBy (Reparse.rereader P.schema) = f)
    (ho : I.files = files ∨
      Unused.Undisputed (files.map (·.descriptor)) ∧ P.schema.NumbersApart) :
    ∃ Q, Reparse.pool (I.files.map (·.descriptor)) = .ok Q ∧ P.schema.Agrees Q.schema ∧
      (I.files = files → Q = P) ∧ ∀ f ∈ files,
        unneeded (I.files.map fun f => (f.heldBy (Reparse.rereader Q.schema)).descriptor)
            (f.heldBy (Reparse.rereader Q.schema)).descriptor =
          unneeded (files.map (·.descriptor)) f.descriptor := by
  by_cases hsame : I.files = files
  · have hall : (files.map fun f => (f.heldBy (Reparse.rereader P.schema)).descriptor) =
        files.map (·.descriptor) := List.map_congr_left fun f hf => by rw [hheld f hf]
    refine ⟨P, by rwa [hsame], ⟨rfl, rfl, rfl, rfl⟩, fun _ => rfl, fun f hf => ?_⟩
    rw [hsame, hall, hheld f hf]
  obtain ⟨hu, ha⟩ := ho.resolve_left hsame
  have hperm := perm_ofFiles hI
  have hds : (I.files.map (·.descriptor)).Perm (files.map (·.descriptor)) := hperm.map _
  obtain ⟨Q, hQ, hagrees⟩ := Reparse.pool_perm hds hP ha
  have hd : ((files.map (·.descriptor)).map (·.name)).Nodup := by
    rw [List.map_map]
    exact (ofFiles_eq_ok_iff.mp hI).2.1
  have hheld' : (I.files.map fun f => (f.heldBy (Reparse.rereader Q.schema)).descriptor).Perm
      ((files.map (·.descriptor)).map fun d => { d with schema := Reparse.rereader Q.schema }) := by
    rw [List.map_map]
    exact hperm.map _
  exact ⟨Q, hQ, hagrees, fun h => absurd h hsame,
    fun f _ => Unused.indexesOf_perm hd hu hheld' f.descriptor⟩

/-- Reading again what was written of an image gives its files with the imports that they do not
need, found or trusted, where the bytes list them in their order or dispute no type, and where
nothing is lost by their descriptors. -/
theorem recount_encode (h : Image.decode bytes { computeUnused := true } = .ok I)
    (ho : listed bytes = .ok I.paths ∨ Unambiguous bytes)
    (hf : ∀ f ∈ I.files, f.descriptor.Faithful) (hs : ∀ f ∈ I.files, f.descriptor.Short)
    (hlen : I.encode.length < 2 ^ 64) :
    ∃ S J, J.files.Perm (I.files.map (·.heldBy S)) ∧ (listed bytes = .ok I.paths → J = I) ∧
      Image.decode I.encode { computeUnused := true } = .ok J ∧
        ((∀ f ∈ I.files, f.dependencies.length ≤ 2 ^ 31) →
          Image.decode I.encode {} = .ok J) := by
  obtain ⟨files, stored, P, hc⟩ := exists_counted h
  have hI := hc.image
  have hperm := perm_ofFiles hI
  have hone : ∀ f ∈ I.files, ∃ s, Restores P.schema f s := by
    intro f hfile
    obtain ⟨b, s, hb, hdecoded, hr⟩ := hc.read f (hperm.mem_iff.mp hfile)
    exact exists_restores hdecoded hb (Reparse.pool_regular hc.pool) hr (hf f hfile) (hs f hfile)
      (lt_of_le_of_lt (length_le_encodeFiles (List.mem_map_of_mem hfile)) hlen)
  have ho : I.files = files ∨
      Unused.Undisputed (files.map (·.descriptor)) ∧ P.schema.NumbersApart :=
    ho.imp hc.files_eq fun hu => ⟨(hu.types stored hc.told).congr hc.typed,
      hu.extensions stored P hc.told hc.pool⟩
  -- the second pass finds the pool of the first one, which typed messages alone decide
  have hP := (Reparse.pool_congr hc.typed).trans hc.pool
  obtain ⟨Q, hQ, hagrees, hpool, hunused⟩ := exists_agreeing hI hP hc.held ho
  obtain ⟨J, hJ, hJperm⟩ := exists_ofFiles_heldBy hI (Reparse.rereader Q.schema)
  obtain ⟨hfound, htrusted⟩ := filesOf_heldBy
    (fun f hf => hc.found f (hperm.mem_iff.mp hf)) (fun f hf => hunused f (hperm.mem_iff.mp hf))
  have hne : I.files ≠ [] := by
    intro hnil
    rw [hnil] at hperm
    exact (ofFiles_eq_ok_iff.mp hI).1 (List.nil_perm.mp hperm)
  refine ⟨_, J, hJperm, fun hl => ?_, ?_, fun hsmall => ?_⟩
  · have hsame := hc.files_eq hl
    rw [hpool hsame, hsame, List.map_congr_left hc.held, List.map_id'] at hJ
    exact Except.ok.inj (hJ.symm.trans hI)
  · exact decode_encodeFiles hne rfl hQ hagrees hone hfound hlen hJ
  · exact decode_encodeFiles hne rfl hQ hagrees hone (htrusted hsmall) hlen hJ

end Recount

/-- The bytes of a file that imports two others and uses a type, of one that declares nothing, and
of the one that declares the type. -/
def spare : Bytes :=
  let user : MessageDecl :=
    { name := "A"
      fields := [{ name := "m", number := 1, type := some .message, typeName := some ".M" }] }
  Storage.encodeFiles
    [FileDecl.toMessage
      { name := "a.proto", dependencies := ["b.proto", "c.proto"], messages := [user] } |>.encode,
      FileDecl.toMessage { name := "c.proto" } |>.encode,
      FileDecl.toMessage { name := "b.proto", messages := [{ name := "M" }] } |>.encode]

/-- Whether the image is that of `spare`, with bytes that have a length. -/
def spares (I : Image) : Bool :=
  decide (I.paths = ["b.proto", "c.proto", "a.proto"]) &&
    decide (I.files.map (·.unused) = [[], [], [1]]) && decide (I.encode.length < 2 ^ 64) &&
    I.files.all fun f => f.descriptor.encode.length < 2 ^ 64 && f.dependencies.length ≤ 2 ^ 31

theorem spares_spare :
    (Image.decode spare { computeUnused := true }).toOption.map spares = some true := by
  decide +kernel

/-- Whether what stands in bytes disputes nothing, and declares nothing of what a descriptor is. -/
def plain (stored : List (Descriptor × Message)) : Bool :=
  decide (Unused.Undisputed (stored.map (·.1))) &&
    (Reparse.pool (stored.map (·.1))).toOption.any fun P =>
      decide P.schema.NumbersApart && (P.schema.message? Bundled.fileTypeName).isNone

theorem plain_spare : (storedIn spare).toOption.map plain = some true := by
  decide +kernel

/-- The files of `spare` stand before their imports. -/
theorem recount_encode_spare : ∃ I, Image.decode spare { computeUnused := true } = .ok I ∧
    I.paths = ["b.proto", "c.proto", "a.proto"] ∧ I.files.map (·.unused) = [[], [], [1]] ∧
      ∃ S J, J.files.Perm (I.files.map (·.heldBy S)) ∧
        Image.decode I.encode { computeUnused := true } = .ok J ∧
          Image.decode I.encode {} = .ok J := by
  obtain ⟨I, hI, hspares⟩ := exists_of_toOption_map spares_spare
  obtain ⟨stored, hstored, hplain⟩ := exists_of_toOption_map plain_spare
  simp only [spares, Bool.and_eq_true, decide_eq_true_eq, List.all_eq_true] at hspares
  obtain ⟨⟨⟨hpaths, hunused⟩, hlen⟩, hfiles⟩ := hspares
  simp only [plain, Bool.and_eq_true, decide_eq_true_eq, Option.any_eq_true] at hplain
  obtain ⟨hundisputed, P, hP, hapart, hnone⟩ := hplain
  have hP := ok_of_toOption hP
  have hdecoded := exists_bytes_of_undeclared hI rfl hstored hP (Option.isNone_iff_eq_none.mp hnone)
  have hspare : Unambiguous spare :=
    ⟨fun s hs => Except.ok.inj (hstored.symm.trans hs) ▸ hundisputed, fun s Q hs hQ => by
      obtain rfl := Except.ok.inj (hstored.symm.trans hs)
      exact Except.ok.inj (hP.symm.trans hQ) ▸ hapart⟩
  obtain ⟨S, J, hperm, -, hfound, htrusted⟩ := recount_encode hI (.inr hspare)
    (fun f hf => (hdecoded f hf).elim fun b hb => Descriptor.faithful_of_decode hb)
    (fun f hf => (hdecoded f hf).elim fun b hb =>
      Descriptor.short_of_decode hb (hfiles f hf).1) hlen
  exact ⟨I, hI, hpaths, hunused, S, J, hperm, hfound, htrusted fun f hf => (hfiles f hf).2⟩

/-- The bytes of two files that declare the same type and import a file that is missing, behind one
that imports them both and uses the type. -/
def disputed : Bytes :=
  let shared : MessageDecl := { name := "M" }
  let user : MessageDecl :=
    { name := "A"
      fields := [{ name := "m", number := 1, type := some .message, typeName := some ".M" }] }
  Storage.encodeFiles
    [FileDecl.toMessage
      { name := "a.proto", dependencies := ["y.proto", "x.proto"], messages := [user] } |>.encode,
      FileDecl.toMessage
        { name := "x.proto", dependencies := ["gone.proto"], messages := [shared] } |>.encode,
      FileDecl.toMessage
        { name := "y.proto", dependencies := ["gone.proto"], messages := [shared] } |>.encode]

/-- The imports that the files do not need, before and after the image is written and read. -/
def unusedAcross (I : Image) : Option (List (String × List Nat) × List (String × List Nat)) :=
  (Image.decode I.encode { computeUnused := true }).toOption.map fun J =>
    (I.files.map fun f => (f.path, f.unused), J.files.map fun f => (f.path, f.unused))

theorem unusedAcross_disputed :
    (Image.decode disputed { computeUnused := true }).toOption.bind unusedAcross =
      some ([("y.proto", [0]), ("x.proto", [0]), ("a.proto", [1])],
        [("y.proto", [0]), ("x.proto", [0]), ("a.proto", [0])]) := by
  decide +kernel

/-- Where two files declare a type, the order of the files tells which of them is needed, and an
image that was written and read is in another order. -/
theorem recount_disputed : ∃ I J, Image.decode disputed { computeUnused := true } = .ok I ∧
    Image.decode I.encode { computeUnused := true } = .ok J ∧
      ∃ f ∈ I.files, ∃ g ∈ J.files, f.path = g.path ∧ f.unused ≠ g.unused := by
  obtain ⟨I, hI, h⟩ := exists_of_toOption_bind unusedAcross_disputed
  obtain ⟨J, hJ, h⟩ := exists_of_toOption_map h
  obtain ⟨hbefore, hafter⟩ := Prod.mk.inj h
  have hone : ("a.proto", [1]) ∈ I.files.map fun f => (f.path, f.unused) := by simp [hbefore]
  have hother : ("a.proto", [0]) ∈ J.files.map fun f => (f.path, f.unused) := by simp [hafter]
  obtain ⟨f, hf, hfa⟩ := List.mem_map.mp hone
  obtain ⟨g, hg, hga⟩ := List.mem_map.mp hother
  obtain ⟨hpath, hunused⟩ := Prod.mk.inj hfa
  obtain ⟨hpath', hunused'⟩ := Prod.mk.inj hga
  refine ⟨I, J, hI, hJ, f, hf, g, hg, hpath.trans hpath'.symm, ?_⟩
  rw [hunused, hunused']
  decide

end Image
end DescriptorKit
