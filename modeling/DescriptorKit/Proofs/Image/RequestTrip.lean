import DescriptorKit.Proofs.Descriptor.Current
import DescriptorKit.Proofs.Descriptor.Mirrored
import DescriptorKit.Proofs.Image.Narrowed
import DescriptorKit.Proofs.Image.Requests
import DescriptorKit.Proofs.Image.Run

/-!
Images that are read from their own requests. A request carries all descriptors of an image, and the
image that is made of them is narrowed to what code is generated for.
-/
namespace DescriptorKit.Image

variable {I J : Image} {ds es : List Descriptor} {d e : Descriptor}

section Order

variable {entries other : List (String × ImageFile)}

theorem SameImports.symm (h : SameImports entries other) : SameImports other entries :=
  (List.Forall₂.flip h).imp fun _ _ he => ⟨he.1.symm, he.2.symm⟩

theorem SameImports.imports_eq (h : SameImports entries other) :
    Imports other = Imports entries := by
  funext path d
  exact propext ⟨h.imports, h.symm.imports⟩

/-- Narrowing leaves the files that stay in their order. -/
theorem Valid.narrow_sublist {missing : Missing} {include_ exclude : List String} (hv : I.Valid)
    (ho : InOrder I.entries) (h : I.narrow missing include_ exclude = .ok J) :
    J.paths.Sublist I.paths := by
  obtain ⟨include', -, h⟩ := bind_eq_ok_iff.mp h
  obtain ⟨exclude', -, h⟩ := bind_eq_ok_iff.mp h
  rw [narrowTo] at h
  split at h
  · obtain rfl := Except.ok.inj h
    exact .refl _
  · split at h
    · cases h
    · split at h
      · cases h
      · dsimp only at h
        split at h
        · cases h
        · rw [(keep_valid hv h).paths_eq, hv.files_of_keep ho h, hv.paths_eq, List.map_map]
          exact List.filter_sublist.map _

end Order

/-- A file of a request: what is not said in the descriptor is not known. -/
def imported (d : Descriptor) : ImageFile :=
  { descriptor := d, externalPath := d.name, isImport := true }

theorem ofParts_imported (h : Path.normalize d.name = .ok d.name) :
    ImageFile.ofParts { descriptor := d, isImport := true } = .ok (imported d) :=
  ImageFile.ofParts_eq_ok_iff.mpr ⟨h, fun h => (by cases h), by simp [ascending], rfl⟩

/-- Descriptors that tell what is written of them can be read from that. -/
theorem exists_decoded (hd : ∀ d ∈ ds, d.Current) :
    ∃ es, (ds.map Descriptor.encode).mapM Descriptor.decode = .ok es ∧
      es.map (·.typed) = ds.map (·.typed) := by
  obtain ⟨es, hes⟩ := exists_forall₂ fun d h => (hd d h).exists_decode
  refine ⟨es, ?_, map_eq_of_forall₂ (hes.flip.imp fun _ _ h => h.2)⟩
  rw [mapM_eq_ok_iff, List.forall₂_map_left_iff]
  exact hes.imp fun _ _ h => h.1

/-- Descriptors with the typed messages of the files of an image make an image of imports under the
same paths, in the same order. -/
theorem Valid.exists_imported (hv : I.Valid) (hn : I.files ≠ []) (ho : InOrder I.entries)
    (h : es.map (·.typed) = I.files.map (·.descriptor.typed)) :
    ∃ J, (es.mapM fun d => ImageFile.ofParts { descriptor := d, isImport := true }) =
        .ok (es.map imported) ∧ ofFiles (es.map imported) = .ok J ∧ J.Valid ∧
      SameImports I.entries J.entries ∧
      ∀ g ∈ J.files, g = imported g.descriptor ∧
        ∃ f ∈ I.files, g.descriptor.typed = f.descriptor.typed := by
  have hall : List.Forall₂ (fun f e => e.typed = f.descriptor.typed) I.files es := by
    have := List.forall₂_eq_eq_eq ▸ h
    exact (List.forall₂_map_left_iff.mp (List.forall₂_map_right_iff.mp this)).flip
  have hsame : SameImports I.entries (underPaths (es.map imported)) := by
    rw [hv.entries_eq, SameImports, underPaths, underPaths, List.map_map, List.forall₂_map_left_iff,
      List.forall₂_map_right_iff]
    refine hall.imp fun f e he => ⟨?_, ?_⟩
    · exact congrArg (fun typed => Message.textAt 1 typed) he
    · exact congrArg (fun typed => Message.textsAt 3 typed) he
  have hkeys : (es.map imported).map (·.path) = I.paths := by
    rw [← keys_underPaths]
    exact hsame.keys_eq
  obtain ⟨J, hJ⟩ : ∃ J, ofFiles (es.map imported) = .ok J := by
    refine ⟨_, ofFiles_eq_ok_iff.mpr ⟨?_, hkeys ▸ hv.distinct, ?_, rfl⟩⟩
    · intro he
      rw [List.map_eq_nil_iff] at he
      subst he
      exact hn (List.forall₂_nil_right_iff.mp hall)
    · intro f hf g _ m hm
      obtain ⟨d, -, rfl⟩ := List.mem_map.mp hf
      cases hm
  have hparts : ∀ e ∈ es, ImageFile.ofParts { descriptor := e, isImport := true } =
      .ok (imported e) := by
    intro e he
    obtain ⟨f, hf, htyped⟩ := exists_of_forall₂ hall he
    have hname : e.name = f.path := congrArg (fun typed => Message.textAt 1 typed) htyped
    apply ofParts_imported
    rw [hname]
    exact (hv.sound f hf).normal
  refine ⟨J, ?_, hJ, ofFiles_valid hJ fun f hf => ?_, ofFiles_of_sameImports ho hsame hJ ▸ hsame,
    fun g hg => ?_⟩
  · rw [mapM_eq_ok_iff, List.forall₂_map_right_iff, List.forall₂_same]
    exact hparts
  · obtain ⟨e, he, rfl⟩ := List.mem_map.mp hf
    exact (ImageFile.ofParts_valid (hparts e he)).1
  · obtain ⟨e, he, rfl⟩ := List.mem_map.mp ((mem_files_of_ofFiles hJ).mp hg)
    exact ⟨rfl, exists_of_forall₂ hall he⟩

/-- Narrowing an image of imports to some of its paths, or to none. -/
theorem Valid.narrow_imports {names : List String} (hv : I.Valid) (hs : names ⊆ I.paths)
    (hi : ∀ f ∈ I.files, f.isImport = true)
    (hc : ∀ f ∈ I.files, ∀ g ∈ I.files, f.path ≠ g.path → Path.contains f.path g.path = false) :
    ∃ J, I.narrow .refused names [] = .ok J ∧ ∀ g, g ∈ J.files ↔ ∃ f ∈ I.files,
      (names = [] ∨ I.Reached names f.path) ∧ g = f.withImport (!(names.contains f.path)) := by
  by_cases hn : names = []
  · subst hn
    refine ⟨I, rfl, fun g => ?_⟩
    have hself : ∀ f ∈ I.files, f.withImport (!(List.contains [] f.path)) = f := fun f hf =>
      ImageFile.withImport_self (hi f hf)
    constructor
    · intro hg
      exact ⟨g, hg, Or.inl rfl, (hself g hg).symm⟩
    · rintro ⟨f, hf, -, rfl⟩
      rwa [hself f hf]
  · simp only [hn, false_or]
    exact hv.narrow_paths hn hs hc

/-- The request for an image of descriptors that tell what is written of them can be read. Where
its descriptors can be read again by their own schema, the image of the request has the files
reached from those to generate code for, or all files where there are none, in the same order and
with the same typed messages. Just the files to generate code for are targets, and nothing is known
of a file but its descriptor. -/
theorem ofRequest_request (hv : I.Valid) (hn : I.files ≠ []) (ho : InOrder I.entries)
    (hc : ∀ f ∈ I.files, ∀ g ∈ I.files, f.path ≠ g.path → Path.contains f.path g.path = false)
    (hd : ∀ f ∈ I.files, f.descriptor.Current) (options : RequestOptions) :
    ∃ ds, (I.request options).descriptors.mapM Descriptor.decode = .ok ds ∧
      ds.map (·.typed) = I.files.map (·.descriptor.typed) ∧
      ∀ es, Reparse.apply ds = .ok es → ∃ J, Image.ofRequest (I.request options) = .ok J ∧
        J.paths.Sublist I.paths ∧
        (∀ path, path ∈ J.paths ↔ path ∈ I.paths ∧ ((I.request options).filesToGenerate = [] ∨
          I.Reached (I.request options).filesToGenerate path)) ∧
        ∀ g ∈ J.files, ∃ f ∈ I.files, g.path = f.path ∧ g.descriptor.typed = f.descriptor.typed ∧
          (g.isImport = false ↔ g.path ∈ (I.request options).filesToGenerate) ∧
            g.module = none ∧ g.commit = none ∧ g.localPath = none ∧ g.unused = [] := by
  have hsub : (I.request options).filesToGenerate ⊆ I.paths := by
    intro path hp
    rcases hv.mem_request_iff.mp hp with h | h
    · obtain ⟨f, hf, -, rfl⟩ := mem_targets_iff.mp h
      exact hv.path_mem hf
    · exact h.1
  obtain ⟨ds, hds, hsame⟩ := @exists_decoded (I.files.map (·.descriptor)) (by simpa using hd)
  rw [List.map_map] at hds hsame
  refine ⟨ds, hds, hsame, fun es hes => ?_⟩
  obtain ⟨J, hparts, hJ, hJv, hsame, hfiles⟩ :=
    hv.exists_imported hn ho ((Reparse.apply_typed hes).trans hsame)
  have hstart : Image.ofRequest (I.request options) =
      J.narrow .refused (I.request options).filesToGenerate [] := by
    have hdecoded : ((I.request options).descriptors.mapM fun b =>
        (Descriptor.decode b).mapError Error.decode) = .ok ds := by
      rw [mapM_eq_ok_iff]
      exact (mapM_eq_ok_iff.mp hds).imp fun _ _ h => mapError_eq_ok_iff.mpr h
    simp only [Image.ofRequest, hdecoded, hes, hparts, hJ, bind, Except.bind]
  generalize (I.request options).filesToGenerate = names at hsub hstart ⊢
  have hpaths : J.paths = I.paths := hsame.keys_eq
  have hpath : ∀ g ∈ J.files, ∃ f ∈ I.files, g.path = f.path ∧
      g.descriptor.typed = f.descriptor.typed := by
    intro g hg
    obtain ⟨-, f, hf, htyped⟩ := hfiles g hg
    exact ⟨f, hf, congrArg (fun typed => Message.textAt 1 typed) htyped, htyped⟩
  obtain ⟨K, hK, hmem⟩ := hJv.narrow_imports (hpaths ▸ hsub)
    (fun g hg => by rw [(hfiles g hg).1]; rfl) fun f hf g hg hne => by
      obtain ⟨f', hf', hpf, -⟩ := hpath f hf
      obtain ⟨g', hg', hpg, -⟩ := hpath g hg
      rw [hpf, hpg] at hne ⊢
      exact hc f' hf' g' hg' hne
  refine ⟨K, hstart.trans hK, ?_, fun path => ?_, fun g hg => ?_⟩
  · rw [← hpaths]
    exact hJv.narrow_sublist (ho.sameImports hsame) hK
  · have hreached : J.Reached names = I.Reached names := by
      unfold Reached
      rw [hsame.imports_eq]
    rw [(narrow_valid hJv hK).paths_eq, ← hpaths, hJv.paths_eq, ← hreached]
    simp only [List.mem_map, hmem]
    constructor
    · rintro ⟨_, ⟨f, hf, h, rfl⟩, rfl⟩
      exact ⟨⟨f, hf, rfl⟩, h⟩
    · rintro ⟨⟨f, hf, rfl⟩, h⟩
      exact ⟨_, ⟨f, hf, h, rfl⟩, rfl⟩
  · obtain ⟨g', hg', -, rfl⟩ := (hmem g).mp hg
    obtain ⟨f, hf, hp, htyped⟩ := hpath g' hg'
    refine ⟨f, hf, hp, htyped, ?_, ?_⟩
    · simp [ImageFile.withImport, ImageFile.path]
    · rw [(hfiles g' hg').1]
      exact ⟨rfl, rfl, rfl, rfl⟩

/-- Whether the descriptors of an image can be written again after they were read, and those of its
request can be read again by their own schema. -/
def rereadable (I : Image) : Bool :=
  (I.files.all fun f =>
    (Message.decode Bundled.descriptorSchema .lossless Bundled.fileType
      f.descriptor.encode).toOption.all
      fun m => m.encode.length < 2 ^ 64) &&
    ((I.request {}).descriptors.mapM Descriptor.decode).toOption.any
      fun ds => (Reparse.apply ds).toOption.isSome

theorem rereadable_chain : (Image.decode chain { reparse := false }).toOption.map
    (fun I => standsInOrder I.entries && splittable I && rereadable I) = some true := by
  decide +kernel

theorem ofRequest_request_chain : ∃ I J, Image.decode chain { reparse := false } = .ok I ∧
    Image.ofRequest (I.request {}) = .ok J ∧ J.paths.Sublist I.paths ∧
      ∀ path, path ∈ J.paths ↔ path ∈ I.paths ∧ ((I.request {}).filesToGenerate = [] ∨
        I.Reached (I.request {}).filesToGenerate path) := by
  obtain ⟨I, hI, hv, hready⟩ := exists_valid_decoded rereadable_chain
  simp only [Bool.and_eq_true, standsInOrder_iff, splittable_iff, rereadable, List.all_eq_true]
    at hready
  obtain ⟨⟨⟨-, ho⟩, ⟨f, hf, -⟩, hc⟩, hlength, hread⟩ := hready
  have hd : ∀ f ∈ I.files, f.descriptor.Current := by
    intro f hf
    obtain ⟨b, hb⟩ := exists_bytes_of_decode rfl hI f hf
    refine ⟨(Descriptor.decode_mirrored hb).synced, fun m hm => ?_⟩
    have hlen := hlength f hf
    rw [hm] at hlen
    exact of_decide_eq_true hlen
  obtain ⟨ds, hds, -, htrip⟩ :=
    ofRequest_request hv (List.ne_nil_of_mem hf) ho hc hd {}
  rw [hds] at hread
  obtain ⟨es, hes⟩ := Option.isSome_iff_exists.mp
    (show (Reparse.apply ds).toOption.isSome from hread)
  obtain ⟨J, hJ, hsub, hreached, -⟩ := htrip es (ok_of_toOption hes)
  exact ⟨I, J, hI, hJ, hsub, hreached⟩

/-- The typed messages tell the imports. -/
theorem map_dependencies (I : Image) : I.files.map (·.dependencies) =
    (I.files.map (·.descriptor.typed)).map fun typed => typed.textsAt 3 := by
  rw [List.map_map]
  rfl

/-- The imports of all files of an image, and those of the image that its request gives. -/
def importsAcross (I : Image) : Option (List (List String) × List (List String)) :=
  (Image.ofRequest (I.request {})).toOption.map fun J =>
    (I.files.map (·.dependencies), J.files.map (·.dependencies))

/-- Whether each file stands behind those it imports, and no path lies below another one. -/
def apartInOrder (I : Image) : Bool :=
  standsInOrder I.entries &&
    decide (∀ p ∈ I.paths, ∀ q ∈ I.paths, p ≠ q → Path.contains p q = false)

theorem apartInOrder_scant :
    (Image.decode scant {}).toOption.map (fun I => (apartInOrder I, importsAcross I)) =
      some (true, some ([[], ["b.proto", "c.proto"]], [[], ["c.proto"]])) := by
  decide +kernel

/-- Where the schema declares a single import, a request does not carry all imports of a file. -/
theorem ofRequest_scant : ∃ I J, Image.decode scant {} = .ok I ∧ I.Valid ∧ InOrder I.entries ∧
    (∀ p ∈ I.paths, ∀ q ∈ I.paths, p ≠ q → Path.contains p q = false) ∧
    Image.ofRequest (I.request {}) = .ok J ∧
      J.files.map (·.descriptor.typed) ≠ I.files.map (·.descriptor.typed) := by
  obtain ⟨I, hI, hfacts⟩ := exists_of_toOption_map apartInOrder_scant
  obtain ⟨hsettled, himports⟩ := Prod.mk.inj hfacts
  simp only [apartInOrder, Bool.and_eq_true, decide_eq_true_eq, standsInOrder_iff] at hsettled
  obtain ⟨⟨-, ho⟩, hapart⟩ := hsettled
  obtain ⟨J, hJ, himports⟩ := Option.map_eq_some_iff.mp himports
  refine ⟨I, J, hI, (decode_made hI).valid, ho, hapart, ok_of_toOption hJ, fun he => ?_⟩
  obtain ⟨hbefore, hafter⟩ := Prod.mk.inj himports
  rw [map_dependencies, ← he, ← map_dependencies, hafter] at hbefore
  exact absurd hbefore (by decide)

end DescriptorKit.Image
