import DescriptorKit.Proofs.Descriptor.Honest
import DescriptorKit.Proofs.Image.Amenable
import DescriptorKit.Proofs.Image.Run

/-!
Images as plain sets of descriptors. A typed reader of such sets takes what an image knows about a
file for an unknown record, and finds the typed messages of the files. It reads each descriptor one
level down, so it gets through just where every descriptor leaves room for that level.
-/
namespace DescriptorKit
open Wire Payload Message Bundled Descriptor

namespace Image

def setType : MessageType := typeNamed "google.protobuf.FileDescriptorSet"

def setFiles : Field := messagesField 1 "file" fileTypeName

/-- Reads a plain set of descriptors as typed readers do. -/
def readSet (bytes : Bytes) : Except Failure (List Message) := do
  let m ← Message.decode descriptorSchema .typed setType bytes
  .ok (m.messagesAt 1)

theorem setType_facts : (descriptorSchema.message? "google.protobuf.FileDescriptorSet").isSome ∧
    descriptorSchema.field? setType 1 = some setFiles ∧ ∀ f ∈ setType.fields,
    f.required = false := by
  decide +kernel

theorem holds_setFiles : Holds descriptorSchema setType 1 setFiles fileType :=
  holds_of setType_facts.2.1 rfl rfl (by rw [message?_fileType]; rfl)

section Sets

variable {bs : List Bytes} {ms : List Message} {m : Message} {f : ImageFile} {d depth : Nat}

theorem recordsEach_bytes (bs : List Bytes) :
    Value.recordsEach Storage.fileField (bs.map fun b => .scalar (.bytes b)) =
      bs.map fun b => (1, Payload.delimited b) := by
  induction bs with
  | nil => rfl
  | cons b bs ih =>
    rw [List.map_cons, Value.recordsEach, ih]
    rfl

theorem recordsOf_filesMessage (bs : List Bytes) :
    Value.recordsOf (Storage.filesMessage bs) = bs.map fun b => (1, Payload.delimited b) := by
  by_cases hn : bs = []
  · subst hn
    rfl
  · rw [Storage.filesMessage_cons hn, Value.recordsOf, Value.recordsOf, List.append_nil,
      Value.slotRecords, Value.records, if_neg (by decide), recordsEach_bytes]

theorem filesMessage_typed (bs : List Bytes) :
    Typed Storage.schema Storage.imageType (Storage.filesMessage bs) := by
  by_cases hn : bs = []
  · subst hn
    exact Shaped.nil.typed
  · exact (Storage.filesMessage_shaped hn).typed

/-- Each descriptor of a set is read one level down. -/
theorem inners_iff (hlen : ∀ b ∈ bs, b.length < 2 ^ 64) :
    Inners descriptorSchema .typed (depth + 1) fileType
    (bs.map fun b => (1, Payload.delimited b)) ms ↔
      List.Forall₂ (Fills descriptorSchema .typed depth fileType []) bs ms := by
  have hfinish : ∀ m, Message.finish descriptorSchema .typed fileType m = m :=
    finish_of_none required_fileType
  have hone : ∀ b m, (InRange 1 ∧ ∃ inner, Inside descriptorSchema .typed (depth + 1) fileType []
      (.delimited b) inner ∧ m = finish descriptorSchema .typed fileType inner) ↔
        b.length < 2 ^ 64 ∧ Fills descriptorSchema .typed depth fileType [] b m := by
    intro b m
    constructor
    · rintro ⟨-, inner, ⟨d, b', hd, hb, hshort, hfills⟩, hm⟩
      obtain rfl := Nat.succ.inj hd
      obtain rfl := Payload.delimited.inj hb
      exact ⟨hshort, (hm.trans (hfinish inner)).symm ▸ hfills⟩
    · rintro ⟨hshort, hfills⟩
      exact ⟨⟨by decide, by decide⟩, m, ⟨depth, b, rfl, rfl, hshort, hfills⟩, (hfinish m).symm⟩
  rw [Inners, List.forall₂_map_left_iff]
  simp only [hone]
  rw [List.forall₂_and_left]
  exact and_iff_right hlen

theorem readSet_encodeFiles_iff (hlen : ∀ b ∈ bs, b.length < 2 ^ 64) :
    readSet (Storage.encodeFiles bs) = .ok ms ↔
      List.Forall₂ (Fills descriptorSchema .typed (maxDepth - 1) fileType []) bs ms := by
  have hfinish : ∀ m, Message.finish descriptorSchema .typed setType m = m :=
    finish_of_none setType_facts.2.2
  have hnumber : ∀ r ∈ bs.map fun b => (1, Payload.delimited b), r.1 = 1 := by simp
  have hdecode : ∀ m,
      Message.decode descriptorSchema .typed setType (Storage.encodeFiles bs) = .ok m ↔
      Steps (readField descriptorSchema .typed maxDepth setType) []
        (bs.map fun b => (1, Payload.delimited b)) m := by
    intro m
    rw [Message.decode_eq_ok_iff, ← recordsOf_filesMessage]
    simp only [hfinish, exists_eq_right']
    exact fills_encode_iff Storage.schema_regular (by simp [Storage.schema]) (filesMessage_typed bs)
  have hmessages : ∀ {m : Message} {ks : List Message},
    m.valuesOf setFiles = ks.map Value.message → m.messagesAt 1 = ks :=
    messagesAt_eq rfl rfl rfl
  rw [← inners_iff hlen, readSet, bind_eq_ok_iff]
  simp only [hdecode, Except.ok.injEq]
  constructor
  · rintro ⟨m, hm, rfl⟩
    obtain ⟨ks, hks, hv⟩ := inners_of_steps holds_setFiles rfl hnumber hm
    exact (hmessages hv).symm ▸ hks
  · intro h
    obtain ⟨m, hm, hv⟩ := steps_of_inners holds_setFiles rfl hnumber h []
    exact ⟨m, hm, hmessages hv⟩

/-- A typed reader takes what is written of a file beside its descriptor for an unknown record. -/
theorem fills_encodeFile_iff (hd : f.descriptor.Sound)
    (hlen : (Storage.encodeFile f).length < 2 ^ 64) :
    Fills descriptorSchema .typed (depth + 1) fileType [] (Storage.encodeFile f) m ↔
      Fills descriptorSchema .typed (depth + 1) fileType [] f.descriptor.encode m := by
  have hunknown : descriptorSchema.field? fileType Storage.metadataNumber = none := by
    decide +kernel
  have hwritten : f.descriptor.encode = encodeAll (Value.recordsOf f.descriptor.message) :=
    Value.encodeSlots_eq_records hd.regular _ hd.type_mem _ hd.typed
  have hcarrier : (Storage.carrier f).encode =
      encodeAll [(Storage.metadataNumber,
        .delimited (Value.encodeSlots (Storage.metadata f)))] := by
    rw [Storage.encode_carrier, encodeAll, encodeAll, List.append_nil, encode_eq]
    rfl
  have hfile : Storage.encodeFile f = encodeAll (Value.recordsOf f.descriptor.message ++
      [(Storage.metadataNumber, .delimited (Value.encodeSlots (Storage.metadata f)))]) := by
    rw [encodeAll_append, ← hwritten, ← hcarrier]
    rfl
  have hmetadata : ∀ k k', Steps (readField descriptorSchema .typed (depth + 1) fileType) k
      [(Storage.metadataNumber, .delimited (Value.encodeSlots (Storage.metadata f)))] k' ↔
        k' = k := by
    intro k k'
    rw [steps_unknown_iff hunknown (by simp)]
    have hrange : InRange Storage.metadataNumber := ⟨by decide, by decide⟩
    refine and_iff_left (List.forall_mem_singleton.mpr ⟨hrange, fits_succ_flat ?_⟩)
    rw [Storage.encodeFile, ← Storage.carrier, List.length_append, Storage.encode_carrier,
      encodeDelimited, List.length_append, List.length_append] at hlen
    show (Value.encodeSlots (Storage.metadata f)).length < 2 ^ 64
    omega
  have hsteps : ∀ {bs rs}, bs = encodeAll rs →
      (Fills descriptorSchema .typed (depth + 1) fileType [] bs m ↔
        Steps (readField descriptorSchema .typed (depth + 1) fileType) [] rs m) := by
    rintro bs rs rfl
    exact runs_iff_steps (readField_local _ _ _ _) fun r _ => readField_ends _ _ _ _ r.2
  rw [hsteps hfile, hsteps hwritten, steps_append_iff]
  simp only [hmetadata, exists_eq_right']

end Sets

section Runs

variable {P : Bytes → Prop} {images modified : List Image} {I J : Image} {d : Descriptor}
  {f : ImageFile}

theorem given_of_atHand (h : d.AtHand images) : d.Given (fun _ => True) images := by
  cases h with
  | read h => exact .read trivial h
  | typed hm h => exact .typed hm h
  | file hI hf => exact .file hI hf

theorem fileGiven_of_atHand (h : f.AtHand images) : f.Given (fun _ => True) images := by
  induction h with
  | made hd h => exact .made (given_of_atHand hd) h
  | file hI hf => exact .file hI hf
  | withImport _ b ih => exact .withImport ih b

theorem origin_of_assemble {origins : Build.Origins} {targets : List String}
    {options : BuildOptions}
    {linked : List Build.Linked} (hp : ∀ l ∈ linked, P (Build.descriptorBytes options.sourceInfo l))
    (h : Build.assemble origins targets options linked = .ok I) :
    ∀ f ∈ I.files, f.descriptor.Origin P images := by
  obtain ⟨ds, hds, h⟩ := bind_eq_ok_iff.mp h
  obtain ⟨es, hes, h⟩ := bind_eq_ok_iff.mp h
  obtain ⟨files, hfiles, h⟩ := bind_eq_ok_iff.mp h
  intro f hf
  obtain ⟨⟨e, unused⟩, he, hparts⟩ := mem_of_mapM hfiles ((mem_files_of_ofFiles h).mp hf)
  rw [(ImageFile.ofParts_valid hparts).2]
  refine .reread (fun d hd => ?_) hes (List.of_mem_zip he).1
  obtain ⟨l, hl, hdecode⟩ := mem_of_mapM hds hd
  exact .read (hp l hl) (mapError_eq_ok_iff.mp hdecode)

/-- The descriptors of an image that was formed in a run come from what the operation was given, or
from sources. -/
theorem Forms.origin (h : Forms images J) :
    ∀ f ∈ J.files, f.descriptor.Origin (fun _ => True) images := by
  cases h with
  | new hf h => exact Arises.origin (.new (fun f hm => fileGiven_of_atHand (hf f hm)) h)
  | decode h => exact Arises.origin (.decode h)
  | ofRequest h => exact Arises.origin (.ofRequest (fun _ _ => trivial) h)
  | build h =>
    obtain ⟨_, _, _, hs⟩ := Build.exists_stages h
    exact origin_of_assemble (fun _ _ => trivial) hs.assembled
  | withoutImports hI => exact Arises.origin (.withoutImports hI)
  | narrow hI h => exact Arises.origin (.narrow hI h)
  | part hI h hJ => exact Arises.origin (.part hI h hJ)
  | merge hI h => exact Arises.origin (.merge hI h)
  | copy hI => exact Arises.origin (.copy hI)

theorem origin_inborn {W Q : Descriptor → Prop} (hQ : Inborn W Q)
    (hI : ∀ I ∈ images, ∀ f ∈ I.files, Q f.descriptor) (h : d.Origin P images) (hw : W d) :
    Q d := by
  cases h with
  | given h =>
    cases h with
    | read _ h => exact hQ.decode h
    | typed hm h => exact hQ.ofTyped hm h hw
    | file hmem hf => exact hI _ hmem _ hf
  | fresh h =>
    obtain ⟨bytes, hd⟩ := exists_decode_of_fresh h
    exact hQ.decode hd
  | reread hds h he => exact hQ.apply (fun d hd => exists_decode_of_fresh (hds d hd)) h he hw

/-- Whatever operations made and modified an image, successfully or not, its descriptors have the
properties that last. -/
theorem Run.lasting {W Q : Descriptor → Prop} (hQ : Lasting W Q) (h : Run modified images)
    (hw : ∀ I ∈ images, ∀ f ∈ I.files, W f.descriptor) :
    ∀ I ∈ images, ∀ f ∈ I.files, Q f.descriptor := by
  induction h with
  | nil => simp
  | form _ hJ ih =>
    obtain ⟨hw, hw'⟩ := List.forall_mem_cons.mp hw
    exact List.forall_mem_cons.mpr
      ⟨fun f hf => origin_inborn hQ.toInborn (ih hw') (hJ.origin f hf) (hw f hf), ih hw'⟩
  | @modify _ _ I _ hI C ih =>
    obtain ⟨-, hw⟩ := List.forall_mem_cons.mp hw
    refine List.forall_mem_cons.mpr ⟨fun g hg => ?_, ih hw⟩
    obtain ⟨e', he', rfl⟩ := List.mem_map.mp hg
    obtain ⟨e, he, hc⟩ := exists_of_forall₂ (Managed.modify_carried hQ.carries I C) he'
    exact hc.descriptor (ih hw I hI e.2 (List.mem_map_of_mem he))

/-- A set can be read just where each of its descriptors can be, one level down. -/
theorem readSet_iff {files : List ImageFile} {write : ImageFile → Bytes}
    (hlen : ∀ f ∈ files, (write f).length < 2 ^ 64)
    (hread : ∀ f ∈ files, ∀ m,
      Fills descriptorSchema .typed (maxDepth - 1) fileType [] (write f) m ↔
      f.descriptor.Enclosable ∧ m = f.descriptor.typed) {ms : List Message} :
    readSet (Storage.encodeFiles (files.map write)) = .ok ms ↔
      (∀ f ∈ files, f.descriptor.Enclosable) ∧ ms = files.map (·.descriptor.typed) := by
  rw [readSet_encodeFiles_iff (by simpa using hlen), List.forall₂_map_left_iff]
  clear hlen
  induction files generalizing ms with
  | nil => simp
  | cons f files ih =>
    obtain ⟨hf, hread⟩ := List.forall_mem_cons.mp hread
    simp only [List.forall₂_cons_left_iff, hf, ih hread, List.forall_mem_cons, List.map_cons]
    constructor
    · rintro ⟨m, ms, ⟨he, rfl⟩, ⟨hall, rfl⟩, rfl⟩
      exact ⟨⟨he, hall⟩, rfl⟩
    · rintro ⟨⟨he, hall⟩, rfl⟩
      exact ⟨_, _, ⟨he, rfl⟩, ⟨hall, rfl⟩, rfl⟩

/-- However an image was made and modified, a typed reader of sets finds in what is written of it,
and in what is written of its descriptors alone, the typed messages of its files in their order, if
it gets through each descriptor one level down. If not, it finds nothing. -/
theorem readSet_encode (h : Run modified images)
    (hw : ∀ J ∈ images, ∀ f ∈ J.files, f.descriptor.Writable) (hI : I ∈ images)
    (hm : ∀ f ∈ I.files, f.descriptor.schema.Mirrors descriptorSchema)
    (hlen : ∀ f ∈ I.files, (Storage.encodeFile f).length < 2 ^ 64) (ms : List Message) :
    (readSet I.encode = .ok ms ↔
      (∀ f ∈ I.files, f.descriptor.Enclosable) ∧ ms = I.files.map (·.descriptor.typed)) ∧
    (readSet I.encodeDescriptors = .ok ms ↔
      (∀ f ∈ I.files, f.descriptor.Enclosable) ∧ ms = I.files.map (·.descriptor.typed)) := by
  have htold : ∀ f ∈ I.files, f.descriptor.Told := h.lasting told_lasting hw I hI
  have hread : ∀ f ∈ I.files, ∀ m,
      Fills descriptorSchema .typed (maxDepth - 1) fileType [] f.descriptor.encode m ↔
        f.descriptor.Enclosable ∧ m = f.descriptor.typed :=
    fun f hf m => ((htold f hf).honest (hm f hf)).fills_iff
  constructor
  · refine readSet_iff hlen fun f hf m => Iff.trans ?_ (hread f hf m)
    exact fills_encodeFile_iff (htold f hf).sound (hlen f hf)
  · exact readSet_iff (fun f hf => (hw I hI f hf).length) hread

/-- Whether an image can be written, and the set of its descriptors can be read. -/
def isPlain (I : Image) : Bool :=
  (I.files.all fun f => decide (f.descriptor.encode.length < 2 ^ 64) &&
    decide (f.descriptor.typed.encode.length < 2 ^ 64) &&
      decide ((Storage.encodeFile f).length < 2 ^ 64)) &&
    (readSet I.encodeDescriptors).toOption.isSome

theorem isPlain_chain :
    (Image.decode chain { reparse := false }).toOption.map isPlain = some true := by
  decide +kernel

theorem readSet_encode_chain : ∃ I, Image.decode chain { reparse := false } = .ok I ∧
    readSet I.encode = .ok (I.files.map (·.descriptor.typed)) := by
  obtain ⟨I, hI, hplain⟩ := Option.map_eq_some_iff.mp isPlain_chain
  have hI := ok_of_toOption hI
  simp only [isPlain, Bool.and_eq_true, List.all_eq_true, decide_eq_true_eq] at hplain
  obtain ⟨hlen, hset⟩ := hplain
  obtain ⟨ms, hms⟩ := Option.isSome_iff_exists.mp hset
  have hread := readSet_encode (.form .nil (.decode hI)) (I := I)
    (by simpa using fun f hf => ⟨(hlen f hf).1.1, (hlen f hf).1.2⟩) (by simp)
    (fun f hf => (builtin_of_decode rfl hI f hf).schema ▸ mirrors_self) fun f hf => (hlen f hf).2
  have hall := ((hread ms).2.mp (ok_of_toOption hms)).1
  exact ⟨I, hI, (hread _).1.mpr ⟨hall, rfl⟩⟩

/-- A message type with a field of 64 bits, inside as many others. -/
def sunk : (depth : Nat) → Payload
  | 0 => .delimited (encodeAll [(2, .delimited (encodeAll [(5, .varint 3)]))])
  | depth + 1 => .delimited (encodeAll [(3, sunk depth)])

/-- The bytes of an image whose file is as deep as a reader of descriptors goes. -/
def sunken : Bytes :=
  Storage.encodeFiles [encodeAll [(1, .delimited "a.proto".toUTF8.toList), (4, sunk 98)]]

/-- Whether the set that is written of an image can be read, and the one after a pass over the
image. -/
def readsSets (I : Image) : Bool × Bool :=
  ((readSet I.encode).toOption.isSome,
    (readSet (Managed.modify I strings).1.encode).toOption.isSome)

theorem readsSets_sunken :
    (Image.decode sunken { reparse := false }).toOption.map readsSets = some (false, false) := by
  decide +kernel

/-- A descriptor that can be read by itself cannot always be read in a set, whether a pass has gone
over it or not. -/
theorem not_readSet_sunken : ∃ I, Image.decode sunken { reparse := false } = .ok I ∧
    (∀ f ∈ I.files, f.descriptor.schema.Mirrors descriptorSchema) ∧
    (∀ ms, readSet I.encode ≠ .ok ms) ∧ ∀ ms,
      readSet (Managed.modify I strings).1.encode ≠ .ok ms := by
  obtain ⟨I, hI, hsets⟩ := Option.map_eq_some_iff.mp readsSets_sunken
  have hI := ok_of_toOption hI
  obtain ⟨hbefore, hafter⟩ := Prod.mk.inj hsets
  refine ⟨I, hI, fun f hf => (builtin_of_decode rfl hI f hf).schema ▸ mirrors_self, fun ms h => ?_,
    fun ms h => ?_⟩
  · rw [h] at hbefore
    cases hbefore
  · rw [h] at hafter
    cases hafter

end Runs

end Image
end DescriptorKit
