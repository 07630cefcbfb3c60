import DescriptorKit.Proofs.Image.Formed
import DescriptorKit.Proofs.Message.Numbers
import DescriptorKit.Proofs.Message.Written

/-!
What is stored of a file beside its descriptor. Whoever reads an image finds in its bytes what was
written for every file.
-/
namespace DescriptorKit
open Wire Payload Message

namespace Commit

variable {c : Commit}

theorem mapM_digit?_digitChar (ds : List (Fin 16)) : (ds.map digitChar).mapM digit? = some ds := by
  induction ds with
  | nil => rfl
  | cons d ds ih => rw [List.map_cons, List.mapM_cons, digit?_digitChar, ih]; rfl

/-- A commit is read from the text that it is written as. -/
theorem parse_text (c : Commit) : parse c.text = .ok c := by
  have hchars : c.text.toList = c.digits.map digitChar := String.toList_ofList
  have hplain : ofPlain? (c.digits.map digitChar) = some c := by
    rw [ofPlain?, mapM_digit?_digitChar]
    exact dif_pos c.length_digits
  rw [parse, hchars, ofChars?, List.length_map, c.length_digits]
  simp only [hplain]

theorem text_ne_empty (c : Commit) : c.text ≠ "" := by
  intro h
  have hchars : c.text.toList = c.digits.map digitChar := String.toList_ofList
  have hlength := c.length_digits
  rw [h] at hchars
  have := congrArg List.length hchars
  rw [List.length_map, hlength] at this
  cases this

end Commit

theorem ModuleName.ofParts_self (m : ModuleName) : ofParts m.remote m.owner m.name = .ok m :=
  dif_pos ⟨m.remote_isPart, m.owner_isPart, m.name_isPart⟩

namespace Storage

variable {t : MessageType} {f : Field} {n : Nat}

theorem schema_facts : ∀ t ∈ schema.messages, t.mapEntry = false ∧ (t.fields.map (·.number)).Nodup ∧
    ∀ f ∈ t.fields, f.oneof = none ∧ f.map = false ∧ f.packed = false ∧ f.declaredDefault = none ∧
      f.required = false ∧ (f.repeated = true → f.presence = false) ∧
        f.kind.wireType ≠ .startGroup := by
  decide

theorem mem_of_field? (hf : schema.field? t n = some f) : f ∈ t.fields := by
  rw [Schema.field?] at hf
  cases hd : t.fieldNumbered? n with
  | some g =>
    rw [hd] at hf
    obtain rfl := Option.some.inj hf
    exact List.mem_of_find?_eq_some hd
  | none =>
    rw [hd] at hf
    cases hf

theorem schema_regular : schema.Regular where
  fields t ht f hf := by
    obtain ⟨-, hmap, hpacked, hdefault, -⟩ := (schema_facts t ht).2.2 f hf
    exact ⟨fun h => by simp [hmap] at h, fun h => by simp [hmap] at h,
      fun h => by simp [hpacked] at h,
      fun s h => by simp [hdefault] at h⟩
  extensions := by simp [schema]
  numbered t ht := (schema_facts t ht).2.1

theorem schema_simple : schema.Simple (· ∈ schema.messages) where
  mem := id
  entries ht := (schema_facts _ ht).1
  oneof ht hf := ((schema_facts _ ht).2.2 _ (mem_of_field? hf)).1
  map ht hf := ((schema_facts _ ht).2.2 _ (mem_of_field? hf)).2.1
  group ht hf type hk := by
    have := ((schema_facts _ ht).2.2 _ (mem_of_field? hf)).2.2.2.2.2.2
    rw [hk] at this
    exact this rfl
  presence ht hf := ((schema_facts _ ht).2.2 _ (mem_of_field? hf)).2.2.2.2.2.1
  inner _ _ hu := Schema.mem_of_messageOf? hu

theorem decode_encode {m : Message} (ht : t ∈ schema.messages) (hm : Shaped schema t m)
    (hd : Within maxDepth m) (hlen : m.encode.length < 2 ^ 64) :
    Message.decode schema .typed t m.encode = .ok m := by
  have hfinish : ∀ {u : MessageType}, u ∈ schema.messages → ∀ m, finish schema .typed u m = m :=
    fun hu => finish_of_none fun f hf => ((schema_facts _ hu).2.2 f hf).2.2.2.2.1
  exact decode_eq_ok_iff.mpr ⟨m, reaches schema_regular schema_simple hfinish t m ht hm hd hlen,
    (hfinish ht m).symm⟩

/-- Slots of declared fields by ascending number make a message. -/
theorem shaped_of_ascending {S : Schema} {m : Message} (hs : ∀ s ∈ m, s.Shaped S t)
    (hd : ∀ s ∈ m, s.declared = true) (hn : (m.map Slot.number).Pairwise (· < ·)) :
    Shaped S t m := by
  have hn := List.pairwise_map.mp hn
  refine shaped_iff.mpr ⟨hs, ?_, hn.imp fun h he => absurd he (by omega)⟩
  refine hn.imp_of_mem fun {a b} ha hb h => ?_
  rw [Slot.before, hd a ha, hd b hb]
  simpa using h.le

section Files

variable {files : List Bytes} {b : Bytes}

/-- The message that encoded descriptors make. -/
def filesMessage (files : List Bytes) : Message :=
  Message.set fileField (.many (files.map fun b => .scalar (.bytes b))) []

theorem filesMessage_cons (h : files ≠ []) : filesMessage files =
    [.known fileField (.many (files.map fun b => .scalar (.bytes b)))] := by
  rw [filesMessage, set_nil, if_neg]
  simpa [fileField, Value.isZero] using h

theorem filesMessage_shaped (h : files ≠ []) : Shaped schema imageType (filesMessage files) := by
  rw [filesMessage_cons h]
  refine shaped_of_ascending ?_ (by simp [Slot.declared, Field.isExtension, fileField]) (by simp)
  intro s hs
  obtain rfl := List.mem_singleton.mp hs
  rw [Slot.Shaped]
  refine ⟨rfl, Or.inr ?_, ?_⟩
  · simpa [Value.isZero] using h
  · rw [Value.Shaped, Value.allShaped_iff]
    refine ⟨rfl, fun v hv => ?_⟩
    obtain ⟨b, -, rfl⟩ := List.mem_map.mp hv
    rw [Value.Shaped]
    exact ⟨rfl, .bytes b⟩

theorem bytesAt_filesMessage (h : files ≠ []) : (filesMessage files).bytesAt 1 = files := by
  rw [filesMessage_cons h]
  simp [Message.bytesAt, Message.manyAt, Message.at?, fileField, Field.isExtension, Value.many?,
    List.filterMap_map]

theorem plain_fileField : Plain schema imageType 1 fileField :=
  ⟨rfl, ⟨by decide, fun _ h => by cases h⟩, rfl⟩

theorem decodeFiles_encodeFiles (h : files ≠ []) (hlen : (encodeFiles files).length < 2 ^ 64) :
    decodeFiles (encodeFiles files) = .ok files := by
  have hwithin : Within maxDepth (filesMessage files) := by
    rw [filesMessage_cons h, within_iff]
    intro s hs
    obtain rfl := List.mem_singleton.mp hs
    rw [Slot.Within, Value.Within, eachWithin_iff]
    refine ⟨⟨by decide, by decide⟩, fun v hv => ?_⟩
    obtain ⟨b, -, rfl⟩ := List.mem_map.mp hv
    rw [Value.Within]
    trivial
  have hdecode := decode_encode (by simp [schema]) (filesMessage_shaped h) hwithin hlen
  exact bind_eq_ok_iff.mpr ⟨_, hdecode, congrArg Except.ok (bytesAt_filesMessage h)⟩

/-- Whoever reads descriptors from what was written of them reads those. -/
theorem eq_of_decodeFiles {encoded : List Bytes}
    (h : decodeFiles (encodeFiles files) = .ok encoded) :
    encoded = files := by
  by_cases hne : files = []
  · subst hne
    exact (Except.ok.inj h).symm
  obtain ⟨m, hm, he⟩ := bind_eq_ok_iff.mp h
  obtain ⟨m, hfills, rfl⟩ := Message.decode_eq_ok_iff.mp hm
  obtain rfl := Except.ok.inj he
  have hshaped := filesMessage_shaped hne
  have hsteps := (fills_encode_iff schema_regular (by simp [schema]) hshaped.typed).mp hfills
  have honly : (filesMessage files).only 1 = filesMessage files := by
    rw [filesMessage_cons hne]
    rfl
  obtain ⟨vs, htells, hheld⟩ := tells_of_steps plain_fileField (fun r hr => by
    rw [← honly, Value.recordsOf_only] at hr
    simpa using (List.mem_filter.mp hr).2) hsteps
  have hfield : fileField.Regular := schema_regular.field (by simp [schema]) plain_fileField.field
  have hsame : held fileField m = held fileField (filesMessage files) :=
    hheld.trans (held_of_tells plain_fileField hfield hshaped (honly.symm ▸ htells))
  have hmany : ∀ m : Message, m.manyAt 1 = held fileField m := manyAt_eq rfl rfl rfl
  change m.bytesAt 1 = files
  rw [Message.bytesAt, hmany, hsame, ← hmany]
  exact bytesAt_filesMessage hne

/-- A record tells how long the bytes are that it holds, so they are no longer than a number
tells. -/
theorem length_lt_of_told {w : WireType} {x : Bytes} {vs : List Value}
    (h : Told (.scalar .bytes) true w x vs) :
    ∀ e, Value.scalar (.bytes e) ∈ vs → e.length < 2 ^ 64 := by
  have hsingle : Kind.Single (.scalar .bytes) := ⟨by decide, fun _ h => by cases h⟩
  cases h with
  | @one _ v h =>
    intro e he
    obtain rfl := List.mem_singleton.mp he
    obtain ⟨p, hw, -, hbody⟩ := takes_readScalar hsingle h 1
    obtain ⟨hflat, -, s, hs, hv⟩ := readScalar_inv hsingle hw (hbody [])
    obtain rfl := Value.scalar.inj hv
    cases p with
    | delimited d =>
      obtain rfl := Scalar.bytes.inj (Except.ok.inj hs)
      exact hflat
    | _ => cases hw
  | packed _ hp => cases hp

/-- Descriptors that were read from an image are no longer than a length can tell. -/
theorem length_lt_of_decodeFiles (h : decodeFiles b = .ok files) :
    ∀ e ∈ files, e.length < 2 ^ 64 := by
  obtain ⟨m, hm, he⟩ := bind_eq_ok_iff.mp h
  obtain ⟨m, hfills, rfl⟩ := Message.decode_eq_ok_iff.mp hm
  obtain rfl := Except.ok.inj he
  have hstep : ∀ m n w x m', Takes (readField schema .typed maxDepth imageType m n w) x m' →
      (∀ e, Value.scalar (.bytes e) ∈ held fileField m → e.length < 2 ^ 64) →
        ∀ e, Value.scalar (.bytes e) ∈ held fileField m' → e.length < 2 ^ 64 := by
    intro m n w x m' h hm e he
    cases readField_takes_iff.mp h with
    | @known f _ hf hk =>
      obtain rfl : f = fileField := List.mem_singleton.mp (mem_of_field? hf)
      obtain rfl : 1 = n := Schema.field?_number hf
      obtain ⟨vs, htold, rfl⟩ := (readField_iff_told plain_fileField).mp h
      rw [held_put] at he
      rcases List.mem_append.mp he with he | he
      · exact hm e he
      · exact length_lt_of_told htold e he
    | unknown hf hread => exact hm e he
  have hall := Runs.keeps (readField_local schema .typed maxDepth imageType) hstep hfills
    (by simp [held, valuesOf, Message.get?])
  intro e hmem
  obtain ⟨v, hv, hve⟩ := List.mem_filterMap.mp hmem
  rw [manyAt_eq (g := fileField) (n := 1) rfl rfl rfl] at hv
  refine hall e ?_
  split at hve
  · obtain rfl := Option.some.inj hve
    exact hv
  · cases hve

/-- Each descriptor stands in full in what is written of all. -/
theorem length_le_encodeFiles (hb : b ∈ files) : b.length ≤ (encodeFiles files).length := by
  have hne := List.ne_nil_of_mem hb
  have heach : ∀ files : List Bytes, b ∈ files →
      b.length ≤ (Value.encodeEach fileField (files.map fun b => .scalar (.bytes b))).length := by
    intro files
    induction files with
    | nil => simp
    | cons a files ih =>
      intro h
      rw [List.map_cons, Value.encodeEach, List.length_append]
      rcases List.mem_cons.mp h with rfl | h
      · have hone : Value.encode fileField (.scalar (.bytes b)) =
            encodeKey 1 .delimited ++ (Varint.encode b.length ++ b) := rfl
        rw [hone, List.length_append, List.length_append]
        omega
      · have := ih h
        omega
  have hencode : encodeFiles files =
      Value.encodeEach fileField (files.map fun b => .scalar (.bytes b)) := by
    rw [encodeFiles, ← filesMessage, filesMessage_cons hne, Message.encode, Value.encodeSlots,
      Value.encodeSlots, List.append_nil, Value.encodeSlot, Value.encode]
    rfl
  rw [hencode]
  exact heach files hb

end Files

section Metadata

variable {f : ImageFile} {d : Descriptor} {module : ModuleName} {commit : Option Commit}

def nameMessage (module : ModuleName) : Message :=
  [.known remoteField (text module.remote), .known ownerField (text module.owner),
    .known repositoryField (text module.name)]

def moduleMessage (module : ModuleName) (commit : Option Commit) : Message :=
  .known nameField (.message (nameMessage module)) ::
    (commit.map fun c => Slot.known commitField (text c.text)).toList

theorem metadata_eq (f : ImageFile) : metadata f = .known isImportField (flag f.isImport) ::
    (f.module.map fun m => Slot.known moduleField (.message (moduleMessage m f.commit))).toList ++
      [.known unspecifiedField (flag f.syntaxUnspecified)] ++ (if f.unused = [] then []
        else [.known unusedField (.many
          (f.unused.map fun i => .scalar (.int32 (Int32.ofNat i))))]) := by
  unfold metadata
  cases f.module <;> rfl

theorem slot_shaped {f : Field} {s : Scalar} (hf : schema.field? t f.number = some f)
    (hp : f.presence = true) (hr : f.repeated = false) (hs : s.Fits f.kind) :
    Slot.Shaped schema t (.known f (.scalar s)) := by
  rw [Slot.Shaped, Value.Shaped, hr]
  exact ⟨hf, Or.inl hp, rfl, hs⟩

theorem slot_shaped_message {f : Field} {u : MessageType} {m : Message}
    (hf : schema.field? t f.number = some f) (hp : f.presence = true) (hr : f.repeated = false)
    (hu : schema.messageOf? f = some u) (hm : Shaped schema u m) :
    Slot.Shaped schema t (.known f (.message m)) := by
  rw [Slot.Shaped, Value.Shaped, hr]
  exact ⟨hf, Or.inl hp, rfl, Or.inr ⟨u, hu, hm⟩⟩

theorem nameMessage_shaped (module : ModuleName) : Shaped schema nameType (nameMessage module) := by
  refine shaped_of_ascending ?_
    (by simp [nameMessage, Slot.declared, Field.isExtension, remoteField,
    ownerField, repositoryField]) (by simp [nameMessage, Slot.number, remoteField, ownerField,
    repositoryField])
  simp only [nameMessage, text, List.forall_mem_cons]
  exact ⟨slot_shaped rfl rfl rfl (.string _), slot_shaped rfl rfl rfl (.string _),
    slot_shaped rfl rfl rfl (.string _), by simp⟩

theorem moduleMessage_shaped (module : ModuleName) (commit : Option Commit) :
    Shaped schema moduleType (moduleMessage module commit) := by
  refine shaped_of_ascending ?_ ?_ ?_
  · rw [moduleMessage, List.forall_mem_cons]
    refine ⟨slot_shaped_message rfl rfl rfl rfl (nameMessage_shaped module), ?_⟩
    cases commit with
    | none => simp
    | some c =>
      intro s hs
      obtain rfl := List.mem_singleton.mp hs
      exact slot_shaped rfl rfl rfl (.string _)
  · cases commit <;> simp [moduleMessage, Slot.declared, Field.isExtension, nameField, commitField]
  · cases commit <;> simp [moduleMessage, Slot.number, nameField, commitField]

theorem metadata_shaped (f : ImageFile) : Shaped schema metadataType (metadata f) := by
  rw [metadata_eq]
  refine shaped_of_ascending ?_ ?_ ?_
  · intro s hs
    simp only [List.mem_append, List.mem_cons, List.not_mem_nil, or_false] at hs
    rcases hs with ((rfl | hs) | rfl) | hs
    · exact slot_shaped rfl rfl rfl (.bool _)
    · obtain ⟨m, -, rfl⟩ := Option.map_eq_some_iff.mp (Option.mem_toList.mp hs)
      exact slot_shaped_message rfl rfl rfl rfl (moduleMessage_shaped m f.commit)
    · exact slot_shaped rfl rfl rfl (.bool _)
    · split at hs
      · cases hs
      · rename_i hne
        obtain rfl := List.mem_singleton.mp hs
        rw [Slot.Shaped, Value.Shaped, Value.allShaped_iff]
        refine ⟨rfl, Or.inr (by simpa [Value.isZero] using hne), rfl, fun v hv => ?_⟩
        obtain ⟨i, -, rfl⟩ := List.mem_map.mp hv
        rw [Value.Shaped]
        exact ⟨rfl, .int32 _⟩
  · cases f.module <;> split <;> simp [Slot.declared, Field.isExtension, isImportField, moduleField,
      unspecifiedField, unusedField]
  · cases f.module <;> split <;> simp [Slot.number, isImportField, moduleField, unspecifiedField,
      unusedField]

theorem within_scalar {f : Field} {s : Scalar} {depth : Nat} (hn : InRange f.number) :
    Slot.Within depth (.known f (.scalar s)) := by
  rw [Slot.Within, Value.Within]
  exact ⟨hn, trivial⟩

theorem within_message {f : Field} {m : Message} {depth : Nat} (hn : InRange f.number)
    (hm : Within depth m) : Slot.Within (depth + 1) (.known f (.message m)) := by
  rw [Slot.Within, Value.Within]
  exact ⟨hn, hm⟩

theorem metadata_within (f : ImageFile) (depth : Nat) : Within (depth + 2) (metadata f) := by
  rw [metadata_eq, within_iff]
  intro s hs
  simp only [List.mem_append, List.mem_cons, List.not_mem_nil, or_false] at hs
  rcases hs with ((rfl | hs) | rfl) | hs
  · exact within_scalar ⟨by decide, by decide⟩
  · obtain ⟨m, -, rfl⟩ := Option.map_eq_some_iff.mp (Option.mem_toList.mp hs)
    refine within_message ⟨by decide, by decide⟩ (within_iff.mpr ?_)
    rw [moduleMessage, List.forall_mem_cons]
    refine ⟨within_message ⟨by decide, by decide⟩ (within_iff.mpr ?_), fun s hs => ?_⟩
    · simp only [nameMessage, text, List.forall_mem_cons]
      exact ⟨within_scalar ⟨by decide, by decide⟩, within_scalar ⟨by decide, by decide⟩,
        within_scalar ⟨by decide, by decide⟩, by simp⟩
    · obtain ⟨c, -, rfl⟩ := Option.map_eq_some_iff.mp (Option.mem_toList.mp hs)
      exact within_scalar ⟨by decide, by decide⟩
  · exact within_scalar ⟨by decide, by decide⟩
  · split at hs
    · cases hs
    · obtain rfl := List.mem_singleton.mp hs
      rw [Slot.Within, Value.Within, eachWithin_iff]
      refine ⟨⟨by decide, by decide⟩, fun v hv => ?_⟩
      obtain ⟨i, -, rfl⟩ := List.mem_map.mp hv
      rw [Value.Within]
      trivial

/-- The record that holds the metadata of a file. -/
def carrier (f : ImageFile) : Message := [.known metadataField (.message (metadata f))]

theorem decode_carrier (hlen : (carrier f).encode.length < 2 ^ 64) :
    Message.decode schema .typed carrierType (carrier f).encode = .ok (carrier f) := by
  refine decode_encode (by simp [schema]) ?_ ?_ hlen
  · refine shaped_of_ascending (fun s hs => ?_) (by simp [carrier, Slot.declared, Field.isExtension,
      metadataField]) (by simp [carrier])
    obtain rfl := List.mem_singleton.mp hs
    exact slot_shaped_message rfl rfl rfl rfl (metadata_shaped f)
  · refine within_iff.mpr fun s hs => ?_
    obtain rfl := List.mem_singleton.mp hs
    exact within_message ⟨by decide, by decide⟩ (metadata_within f 97)

theorem encode_carrier (f : ImageFile) : (carrier f).encode =
    encodeKey metadataNumber .delimited ++ encodeDelimited (Value.encodeSlots (metadata f)) := by
  rw [carrier, Message.encode, Value.encodeSlots, Value.encodeSlots, List.append_nil,
    Value.encodeSlot, Value.encode]
  rfl

/-- The metadata is one piece behind the descriptor. -/
theorem piece_carrier (hlen : (carrier f).encode.length < 2 ^ 64) :
    Records.Piece metadataNumber (carrier f).encode := by
  rw [encode_carrier] at hlen ⊢
  have hshort : (Value.encodeSlots (metadata f)).length < 2 ^ 64 := by
    rw [encodeDelimited, List.length_append, List.length_append] at hlen
    omega
  have hkey : Takes Cursor.key (encodeKey metadataNumber .delimited) (metadataNumber, .delimited) :=
    Cursor.key_encode (by decide) (by decide)
  have hflat : Takes (readFlat .delimited)
      ((Payload.delimited (Value.encodeSlots (metadata f))).body metadataNumber)
      (.delimited (Value.encodeSlots (metadata f))) := readFlat_takes (p := .delimited _) hshort
  exact Records.piece_of_flat hkey hflat hlen

/-- What was written of a file is parted into what was written of its descriptor, and its
metadata. -/
theorem decodeFile_encodeFile (hc : Records.Clear metadataNumber f.descriptor.encode)
    (hlen : (encodeFile f).length < 2 ^ 64) (hd : Descriptor.decode f.descriptor.encode = .ok d) :
    decodeFile (encodeFile f) = .ok (d, metadata f) := by
  have hcarrier : (carrier f).encode.length < 2 ^ 64 := by
    rw [encodeFile, ← carrier, List.length_append] at hlen
    omega
  refine bind_eq_ok_iff.mpr ⟨(f.descriptor.encode, (carrier f).encode), ?_, ?_⟩
  · exact mapError_eq_ok_iff.mpr (Records.split_append hc (piece_carrier hcarrier))
  · refine bind_eq_ok_iff.mpr ⟨carrier f, mapError_eq_ok_iff.mpr (decode_carrier hcarrier), ?_⟩
    refine bind_eq_ok_iff.mpr ⟨d, mapError_eq_ok_iff.mpr hd, ?_⟩
    simp [carrier, Message.messageAt?, Message.at?, metadataField, Field.isExtension,
      Value.message?]

theorem boolAt_isImport (f : ImageFile) : (metadata f).boolAt? 1 = some f.isImport := by
  rw [metadata_eq]
  rfl

theorem boolAt_syntaxUnspecified (f : ImageFile) :
    (metadata f).boolAt? 3 = some f.syntaxUnspecified := by
  rw [metadata_eq]
  cases f.module <;> rfl

theorem intsAt_unused (f : ImageFile) : (metadata f).intsAt 4 = f.unused.map Int32.ofNat := by
  rw [metadata_eq]
  cases f.module <;> by_cases h : f.unused = []
  all_goals
    simp [Message.intsAt, Message.manyAt, Message.at?, h, isImportField, moduleField,
      unspecifiedField, unusedField, Field.isExtension, Value.many?]

/-- The indexes that were stored are the indexes that are read, as long as they are 32-bit
numbers. -/
theorem storedUnused_metadata (h : ∀ i ∈ f.unused, i < 2 ^ 31) :
    storedUnused d (metadata f) = .ok f.unused := by
  rw [storedUnused, intsAt_unused, mapM_eq_ok_iff, List.forall₂_map_left_iff, List.forall₂_same]
  intro i hi
  have hint : (Int32.ofNat i).toInt = i := Int32.toInt_ofNat_of_lt (h i hi)
  rw [hint, if_pos (by omega), Int.toNat_natCast]

theorem messageAt_module (f : ImageFile) : (metadata f).messageAt? 2 =
    f.module.map fun m => moduleMessage m f.commit := by
  rw [metadata_eq]
  cases f.module <;> by_cases h : f.unused = []
  all_goals
    simp [Message.messageAt?, Message.at?, h, isImportField, moduleField, unspecifiedField,
      unusedField, Field.isExtension, Value.message?]

/-- The module and the commit that were stored are read. -/
theorem storedModule_metadata (path : String) (h : f.commit.isSome → f.module.isSome) :
    storedModule path (metadata f) = .ok (f.module, f.commit) := by
  rw [storedModule, messageAt_module]
  cases hm : f.module with
  | none =>
    rw [hm] at h
    cases hc : f.commit with
    | none => rfl
    | some c =>
      rw [hc] at h
      cases h rfl
  | some m =>
    have hname : (moduleMessage m f.commit).messageAt? 1 = some (nameMessage m) := rfl
    have hparts : ModuleName.ofParts ((nameMessage m).textAt 1) ((nameMessage m).textAt 2)
        ((nameMessage m).textAt 3) = .ok m := m.ofParts_self
    rw [Option.map_some]
    dsimp only
    rw [hname]
    dsimp only
    rw [hparts]
    dsimp only
    cases hc : f.commit with
    | none => rfl
    | some c =>
      have htext : (moduleMessage m (some c)).textAt 2 = c.text := rfl
      rw [htext, if_neg c.text_ne_empty, c.parse_text]

theorem fileOf_unused {stored : Message} {unused : List Nat} (h : fileOf d stored unused = .ok f) :
    ascending unused = f.unused := by
  unfold fileOf at h
  split at h
  · cases h
  obtain ⟨⟨module, commit⟩, -, h⟩ := bind_eq_ok_iff.mp h
  obtain ⟨-, -, -, rfl⟩ := ImageFile.ofParts_eq_ok_iff.mp h
  rfl

/-- A file that was read is found again beside a descriptor with the typed message of its own. -/
theorem fileOf_metadata {e : Descriptor} {stored : Message} {unused other : List Nat}
    (h : fileOf d stored unused = .ok f) (hu : ascending other = f.unused)
    (he : e.typed = d.typed) :
    fileOf e (metadata f) other = .ok { f with descriptor := e } := by
  have hsame : e.name = d.name := congrArg (fun typed => Message.textAt 1 typed) he
  have hdependencies : e.dependencies = d.dependencies :=
    congrArg (fun typed => Message.textsAt 3 typed) he
  have hpublic : ∀ i, e.isPublic i = d.isPublic i := fun i => by
    rw [Descriptor.isPublic, Descriptor.isPublic, he]
  unfold fileOf at h ⊢
  split at h
  · cases h
  rename_i hname
  obtain ⟨⟨module, commit⟩, -, h⟩ := bind_eq_ok_iff.mp h
  obtain ⟨hnormal, hcommit, hgood, rfl⟩ := ImageFile.ofParts_eq_ok_iff.mp h
  have hu : ascending other = ascending unused := hu
  rw [hsame, if_neg hname]
  refine bind_eq_ok_iff.mpr ⟨_, storedModule_metadata d.name hcommit, ?_⟩
  rw [boolAt_isImport, boolAt_syntaxUnspecified]
  refine ImageFile.ofParts_eq_ok_iff.mpr ⟨hsame ▸ hnormal, hcommit, ?_, ?_⟩
  · rw [hu]
    intro i hi
    rw [hdependencies, hpublic]
    exact hgood i hi
  · simp only [ImageFile.Parts.file, Option.getD_none, Option.getD_some, hu, hsame]

end Metadata

end Storage
end DescriptorKit
