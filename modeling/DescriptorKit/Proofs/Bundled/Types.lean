import DescriptorKit.Managed.Option
import DescriptorKit.Proofs.Bundled
import DescriptorKit.Proofs.Message.Element

/-!
The types that descriptors are made of, as far as options are set in them.
-/
namespace DescriptorKit
open Message

namespace Schema

variable {C : Context} {files : List FileDecl} {t : MessageType} {f : Field} {n : Nat}

/-- Whatever holds of the fields that files declare holds of those of the schema. -/
theorem field_of_field? {P : Field → Prop}
    (hP : ∀ proto3 extendedBy d, P (field C proto3 extendedBy d))
    (ht : t ∈ (ofFilesIn C files).messages) (hf : (ofFilesIn C files).field? t n = some f) :
    P f := by
  rw [field?] at hf
  cases hd : t.fieldNumbered? n with
  | some g =>
    rw [hd] at hf
    obtain rfl := Option.some.inj hf
    obtain ⟨file, -, ht⟩ := List.mem_flatMap.mp ht
    obtain ⟨s, -, rfl⟩ := List.mem_map.mp ht
    have hmem := (messageType_fields_perm C _ s).mem_iff.mp (List.mem_of_find?_eq_some hd)
    obtain ⟨d, -, rfl⟩ := List.mem_map.mp hmem
    exact hP _ _ _
  | none =>
    simp only [hd, Option.orElse_eq_orElse, Option.orElse_none, extension?] at hf
    obtain ⟨e, he, rfl⟩ := Option.map_eq_some_iff.mp hf
    obtain ⟨file, -, he⟩ := List.mem_flatMap.mp (List.mem_of_find?_eq_some he)
    unfold extensionsOf at he
    rcases List.mem_append.mp he with he | he
    · obtain ⟨d, -, rfl⟩ := List.mem_map.mp he
      exact hP _ _ _
    · obtain ⟨s, -, he⟩ := List.mem_flatMap.mp he
      obtain ⟨d, -, rfl⟩ := List.mem_map.mp he
      exact hP _ _ _

theorem field_map (hC : C.mapEntries = []) (proto3 : Bool) (extendedBy : Option String)
    (d : FieldDecl) : (field C proto3 extendedBy d).map = false := by
  unfold field
  dsimp only
  split
  · rw [hC]
    simp
  · rfl

theorem mapEntry_of_mem (hC : C.mapEntries = []) (ht : t ∈ (ofFilesIn C files).messages) :
    t.mapEntry = false := by
  obtain ⟨file, -, ht⟩ := List.mem_flatMap.mp ht
  obtain ⟨s, -, rfl⟩ := List.mem_map.mp ht
  change C.mapEntries.contains s.fullName = false
  rw [hC]
  rfl

end Schema

namespace Bundled

/-- Descriptors have no maps, no oneofs and no extensions of their own. -/
theorem descriptorSchema_plain : (Schema.contextOf [descriptorFile]).mapEntries = [] ∧
    (∀ t ∈ descriptorSchema.messages, ∀ f ∈ t.fields, f.oneof = none) ∧
    descriptorSchema.extensions.isEmpty = true := by
  decide +kernel

theorem no_mapEntries : (Schema.contextOf [descriptorFile]).mapEntries = [] :=
  descriptorSchema_plain.1

theorem no_oneofs : ∀ t ∈ descriptorSchema.messages, ∀ f ∈ t.fields, f.oneof = none :=
  descriptorSchema_plain.2.1

theorem no_extensions : descriptorSchema.extensions = [] :=
  List.isEmpty_iff.mp descriptorSchema_plain.2.2

/-- The fields of descriptors are those that their types declare. -/
theorem mem_of_field? {t : MessageType} {f : Field} {n : Nat}
    (hf : descriptorSchema.field? t n = some f) : f ∈ t.fields := by
  rw [Schema.field?, Schema.extension?, no_extensions] at hf
  cases hd : t.fieldNumbered? n with
  | some g =>
    rw [hd] at hf
    obtain rfl := Option.some.inj hf
    exact List.mem_of_find?_eq_some hd
  | none =>
    rw [hd] at hf
    cases hf

theorem calm {t : MessageType} (ht : t ∈ descriptorSchema.messages) (n : Nat) :
    Calm descriptorSchema t n :=
  fun f hf => no_oneofs t ht f (mem_of_field? hf)

/-- The schema of descriptors agrees with itself. -/
theorem mirrors_self : descriptorSchema.Mirrors descriptorSchema where
  numbered := by
    intro t u f g n hc hf hg
    obtain rfl := hc.eq
    rw [hf] at hg
    obtain rfl := Option.some.inj hg
    have hm : f.map = false := Schema.field_of_field? (P := fun f => f.map = false)
      (Schema.field_map no_mapEntries) hc.left hf
    exact ⟨rfl, rfl, rfl, rfl, rfl, hm, calm hc.left n f hf⟩
  named := by
    intro t u f g name hc hf hg
    obtain rfl := hc.eq
    rw [hf] at hg
    rw [Option.some.inj hg]
  types := fun _ _ _ _ h => h
  entries := fun hc => Schema.mapEntry_of_mem no_mapEntries hc.left

section Part

/-- Whether types of the schema that descriptors have, too, declare only what descriptors declare,
as an older schema of descriptors does. -/
def isPart (S : Schema) : Bool :=
  S.extensions.isEmpty && S.messages.all fun t =>
    match descriptorSchema.message? t.name with
    | none => true
    | some u => !t.mapEntry && t.fields.all fun f =>
        u.fields.any (fun g => f.Same g) &&
          match f.kind with
          | .message type => (S.message? type).isSome
          | _ => true

theorem names_nodup : ∀ t ∈ descriptorSchema.messages, (t.fields.map (·.name)).Nodup := by
  decide +kernel

theorem eq_of_name {u : MessageType} {f g : Field} (hu : u ∈ descriptorSchema.messages)
    (hf : f ∈ u.fields) (hg : g ∈ u.fields) (h : f.name = g.name) : f = g :=
  List.inj_on_of_nodup_map (names_nodup u hu) hf hg h

variable {S : Schema} {t u : MessageType} {f : Field} {n : Nat}

/-- What such a schema declares for a type that descriptors have, too, they declare. -/
theorem of_isPart (h : isPart S = true) (hc : Schema.Counterpart S descriptorSchema t u) :
    t.mapEntry = false ∧ ∀ f ∈ t.fields, (∃ g ∈ u.fields, f.Same g) ∧
      ∀ type, f.kind = .message type → (S.message? type).isSome := by
  obtain ⟨type, ht, hu⟩ := hc
  obtain ⟨hmem, hname⟩ := Schema.mem_of_message? ht
  have hone := List.all_eq_true.mp (Bool.and_eq_true_iff.mp h).2 t hmem
  rw [hname, hu] at hone
  obtain ⟨hentry, hfields⟩ := Bool.and_eq_true_iff.mp hone
  refine ⟨by simpa using hentry, fun f hf => ?_⟩
  obtain ⟨hany, hkind⟩ := Bool.and_eq_true_iff.mp (List.all_eq_true.mp hfields f hf)
  obtain ⟨g, hg, hsame⟩ := List.any_eq_true.mp hany
  refine ⟨⟨g, hg, by simpa using hsame⟩, fun type hk => ?_⟩
  rwa [hk] at hkind

/-- The fields of such a schema are those that its types declare. -/
theorem mem_of_isPart (h : isPart S = true) (hf : S.field? t n = some f) :
    f ∈ t.fields ∧ f.number = n := by
  have hext := (Bool.and_eq_true_iff.mp h).1
  rw [Schema.field?, Schema.extension?, List.isEmpty_iff.mp hext] at hf
  have hf : t.fieldNumbered? n = some f := by simpa using hf
  exact ⟨List.mem_of_find?_eq_some hf, by simpa using List.find?_some hf⟩

theorem exists_same_of_isPart (h : isPart S = true)
    (hc : Schema.Counterpart S descriptorSchema t u) (hf : S.field? t n = some f) :
    ∃ g, descriptorSchema.field? u n = some g ∧ f.Same g := by
  obtain ⟨hmem, rfl⟩ := mem_of_isPart h hf
  obtain ⟨⟨g, hg, hsame⟩, -⟩ := (of_isPart h hc).2 f hmem
  exact ⟨g, hsame.number ▸ descriptorSchema_regular.field?_of_mem hc.right hg, hsame⟩

/-- A schema that declares a part of what descriptors declare agrees with that of descriptors. -/
theorem mirrors_of_isPart (h : isPart S = true) : S.Mirrors descriptorSchema := by
  have hsame : ∀ {t u f g n}, Schema.Counterpart S descriptorSchema t u → S.field? t n = some f →
      descriptorSchema.field? u n = some g → f.Same g := by
    intro t u f g n hc hf hg
    obtain ⟨g', hg', hsame⟩ := exists_same_of_isPart h hc hf
    exact Option.some.inj (hg'.symm.trans hg) ▸ hsame
  refine ⟨hsame, ?_, ?_, fun hc => (of_isPart h hc).1⟩
  · intro t u f g name hc hf hg
    have hfname : f.name = name := by simpa using List.find?_some hf
    have hgname : g.name = name := by simpa using List.find?_some hg
    obtain ⟨⟨g', hg', hsame⟩, -⟩ := (of_isPart h hc).2 f (List.mem_of_find?_eq_some hf)
    rw [hsame.number, eq_of_name hc.right hg' (List.mem_of_find?_eq_some hg)
      (hsame.name.symm.trans (hfname.trans hgname.symm))]
  · intro t u f g n type hc hf hg hk _
    exact ((of_isPart h hc).2 f (mem_of_isPart h hf).1).2 type ((hsame hc hf hg).kind.trans hk)

end Part

/-- The type of a name among those of descriptors. -/
def typeNamed (name : String) : MessageType :=
  (descriptorSchema.message? name).getD ⟨name, [], false⟩

theorem message?_typeNamed {name : String} (h : (descriptorSchema.message? name).isSome) :
    descriptorSchema.message? name = some (typeNamed name) := by
  obtain ⟨t, ht⟩ := Option.isSome_iff_exists.mp h
  rw [typeNamed, ht]
  rfl

def messageType : MessageType := typeNamed "google.protobuf.DescriptorProto"

def fieldType : MessageType := typeNamed "google.protobuf.FieldDescriptorProto"

def fileOptionsType : MessageType := typeNamed "google.protobuf.FileOptions"

def fieldOptionsType : MessageType := typeNamed "google.protobuf.FieldOptions"

def sourceInfoType : MessageType := typeNamed "google.protobuf.SourceCodeInfo"

def locationType : MessageType := typeNamed "google.protobuf.SourceCodeInfo.Location"

/-- A field of many messages. -/
def messagesField (number : Nat) (name type : String) : Field :=
  { number, name, kind := .message type, repeated := true, presence := false }

def optionsField (number : Nat) (type : String) : Field :=
  { number, name := "options", kind := .message type }

theorem holds_of {t : MessageType} {n : Nat} {f : Field} {type : String}
    (hf : descriptorSchema.field? t n = some f) (hk : f.kind = .message type) (hm : f.map = false)
    (ht : (descriptorSchema.message? type).isSome) :
    Holds descriptorSchema t n f (typeNamed type) :=
  ⟨hf, ⟨type, hk⟩, (Schema.messageOf?_eq (Or.inl hk)).trans (message?_typeNamed ht), hm⟩

def fileMessages : Field := messagesField 4 "message_type" "google.protobuf.DescriptorProto"

def fileExtensions : Field := messagesField 7 "extension" "google.protobuf.FieldDescriptorProto"

def messageFields : Field := messagesField 2 "field" "google.protobuf.FieldDescriptorProto"

def messageNested : Field := messagesField 3 "nested_type" "google.protobuf.DescriptorProto"

def messageExtensions : Field := messagesField 6 "extension" "google.protobuf.FieldDescriptorProto"

def optionsOfFile : Field := optionsField 8 "google.protobuf.FileOptions"

def optionsOfField : Field := optionsField 8 "google.protobuf.FieldOptions"

def jsTypeField : Field :=
  { number := 6, name := "jstype", kind := .enum "google.protobuf.FieldOptions.JSType"
    declaredDefault := some (.enum 0) }

def sourceInfoField : Field :=
  { number := 9, name := "source_code_info", kind := .message "google.protobuf.SourceCodeInfo" }

def locationsField : Field := messagesField 1 "location" "google.protobuf.SourceCodeInfo.Location"

def locationPathField : Field :=
  { number := 1, name := "path", kind := .scalar .int32, repeated := true, presence := false
    packed := true }

/-- Whether a field holds a single value that it tells from none. -/
def isOption (g : Field) : Bool :=
  (match g.kind with
    | .scalar _ => true
    | .enum _ => true
    | _ => false) && !g.repeated && g.presence

/-- What there is to compute about the types of options and of what has them. -/
theorem types_facts :
    (∀ name ∈ ["google.protobuf.DescriptorProto", "google.protobuf.FieldDescriptorProto",
      "google.protobuf.FileOptions", "google.protobuf.FieldOptions",
      "google.protobuf.SourceCodeInfo", "google.protobuf.SourceCodeInfo.Location"],
        (descriptorSchema.message? name).isSome) ∧
    (∀ p ∈ [(fileType, fileMessages), (fileType, fileExtensions), (fileType, optionsOfFile),
      (messageType, messageFields), (messageType, messageNested),
      (messageType, messageExtensions), (fieldType, optionsOfField),
      (fieldOptionsType, jsTypeField), (fileType, sourceInfoField),
        (sourceInfoType, locationsField),
      (locationType, locationPathField)], descriptorSchema.field? p.1 p.2.number = some p.2) ∧
    (∀ p ∈ [(fileType, optionsOfFile), (fieldType, optionsOfField), (fieldOptionsType, jsTypeField),
      (fileType, sourceInfoField), (sourceInfoType, locationsField),
      (locationType, locationPathField)], p.1.fieldNamed? p.2.name = some p.2) ∧
    (∀ t ∈ [fileOptionsType, fieldOptionsType, messageType, fieldType, sourceInfoType,
      locationType], ∀ f ∈ t.fields, f.required = false) ∧
    ∀ o ∈ Managed.FileOption.all, o.fieldNumber?.isSome →
      (fileOptionsType.fieldNamed? o.name).any
        (fun g => isOption g && o.fieldNumber? = some g.number) = true := by
  decide +kernel

theorem holds_fileMessages : Holds descriptorSchema fileType 4 fileMessages messageType :=
  holds_of (types_facts.2.1 (fileType, fileMessages) (by simp)) rfl rfl
    (types_facts.1 _ (by simp))

theorem holds_fileExtensions : Holds descriptorSchema fileType 7 fileExtensions fieldType :=
  holds_of (types_facts.2.1 (fileType, fileExtensions) (by simp)) rfl rfl
    (types_facts.1 _ (by simp))

theorem holds_optionsOfFile : Holds descriptorSchema fileType 8 optionsOfFile fileOptionsType :=
  holds_of (types_facts.2.1 (fileType, optionsOfFile) (by simp)) rfl rfl
    (types_facts.1 _ (by simp))

theorem holds_messageFields : Holds descriptorSchema messageType 2 messageFields fieldType :=
  holds_of (types_facts.2.1 (messageType, messageFields) (by simp)) rfl rfl
    (types_facts.1 _ (by simp))

theorem holds_messageNested : Holds descriptorSchema messageType 3 messageNested messageType :=
  holds_of (types_facts.2.1 (messageType, messageNested) (by simp)) rfl rfl
    (types_facts.1 _ (by simp))

theorem holds_messageExtensions :
    Holds descriptorSchema messageType 6 messageExtensions fieldType :=
  holds_of (types_facts.2.1 (messageType, messageExtensions) (by simp)) rfl rfl
    (types_facts.1 _ (by simp))

theorem holds_optionsOfField : Holds descriptorSchema fieldType 8 optionsOfField fieldOptionsType :=
  holds_of (types_facts.2.1 (fieldType, optionsOfField) (by simp)) rfl rfl
    (types_facts.1 _ (by simp))

theorem holds_sourceInfo : Holds descriptorSchema fileType 9 sourceInfoField sourceInfoType :=
  holds_of (types_facts.2.1 (fileType, sourceInfoField) (by simp)) rfl rfl
    (types_facts.1 _ (by simp))

theorem holds_locations : Holds descriptorSchema sourceInfoType 1 locationsField locationType :=
  holds_of (types_facts.2.1 (sourceInfoType, locationsField) (by simp)) rfl rfl
    (types_facts.1 _ (by simp))

theorem plain_locationPath : Plain descriptorSchema locationType 1 locationPathField :=
  ⟨types_facts.2.1 (locationType, locationPathField) (by simp),
    ⟨by decide, by simp [locationPathField]⟩, rfl⟩

theorem typeNamed_mem {name : String} (h : (descriptorSchema.message? name).isSome) :
    typeNamed name ∈ descriptorSchema.messages :=
  (Schema.mem_of_message? (message?_typeNamed h)).1

theorem fieldType_mem : fieldType ∈ descriptorSchema.messages :=
  typeNamed_mem (types_facts.1 _ (by simp))

theorem fileOptionsType_mem : fileOptionsType ∈ descriptorSchema.messages :=
  typeNamed_mem (types_facts.1 _ (by simp))

theorem fieldOptionsType_mem : fieldOptionsType ∈ descriptorSchema.messages :=
  typeNamed_mem (types_facts.1 _ (by simp))

theorem sourceInfoType_mem : sourceInfoType ∈ descriptorSchema.messages :=
  typeNamed_mem (types_facts.1 _ (by simp))

theorem locationType_mem : locationType ∈ descriptorSchema.messages :=
  typeNamed_mem (types_facts.1 _ (by simp))

/-- Fields have options, one of which says how integers of 64 bits are represented. -/
theorem hasOption_jsType :
    HasOption descriptorSchema fieldType optionsOfField fieldOptionsType jsTypeField where
  options := holds_optionsOfField
  options_named := types_facts.2.2.1 (fieldType, optionsOfField) (by simp)
  options_single := rfl
  option := ⟨types_facts.2.1 (fieldOptionsType, jsTypeField) (by simp),
    ⟨by decide, by simp [jsTypeField]⟩, rfl⟩
  option_named := types_facts.2.2.1 (fieldOptionsType, jsTypeField) (by simp)
  option_single := rfl
  presence := rfl
  calm := calm fieldType_mem
  calm_options := calm fieldOptionsType_mem
  required := types_facts.2.2.2.1 fieldOptionsType (by simp)

/-- Files have the options that fields of descriptors stand for. -/
theorem hasOption_file {o : Managed.FileOption} {n : Nat} (h : o.fieldNumber? = some n) :
    ∃ g, g.name = o.name ∧ g.number = n ∧
      HasOption descriptorSchema fileType optionsOfFile fileOptionsType g := by
  have hany := types_facts.2.2.2.2 o o.mem_all (Option.isSome_iff_exists.mpr ⟨n, h⟩)
  cases hg : fileOptionsType.fieldNamed? o.name with
  | none =>
    rw [hg] at hany
    cases hany
  | some g =>
    rw [hg] at hany
    simp only [Option.any_some, isOption, Bool.and_eq_true, Bool.not_eq_true', decide_eq_true_eq]
      at hany
    obtain ⟨⟨⟨hkind, hr⟩, hp⟩, hnumber⟩ := hany
    have hname : g.name = o.name := by simpa using List.find?_some hg
    have hfield := descriptorSchema_regular.field?_of_named fileOptionsType_mem hg
    have hsingle : g.kind.Single := by
      rcases g.kind.single_or_nested with hs | ⟨type, hs | hs⟩
      · exact hs
      all_goals
        rw [hs] at hkind
        cases hkind
    have hmap : g.map = false := Schema.field_of_field? (P := fun f => f.map = false)
      (Schema.field_map no_mapEntries) fileOptionsType_mem hfield
    refine ⟨g, hname, Option.some.inj (hnumber.symm.trans h), ?_⟩
    exact
      { options := holds_optionsOfFile
        options_named := types_facts.2.2.1 (fileType, optionsOfFile) (by simp)
        options_single := rfl
        option := ⟨hfield, hsingle, hmap⟩
        option_named := hname ▸ hg
        option_single := hr
        presence := hp
        calm := calm fileType_mem
        calm_options := calm fileOptionsType_mem
        required := types_facts.2.2.2.1 fileOptionsType (by simp) }

end Bundled
end DescriptorKit
