import DescriptorKit.Bundled.Shorthand
import DescriptorKit.Schema.OfDeclaration

/-!
The file that declares how files, messages and fields are themselves described, and the schema it
gives.
-/
namespace DescriptorKit.Bundled

def fileDescriptorSet : MessageDecl :=
  { name := "FileDescriptorSet"
    fields := [many "file" 1 (message "FileDescriptorProto")] }

def fileDescriptorProto : MessageDecl :=
  { name := "FileDescriptorProto"
    fields := [
      one "name" 1 text,
      one "package" 2 text,
      many "dependency" 3 text,
      many "public_dependency" 10 int32,
      many "weak_dependency" 11 int32,
      many "message_type" 4 (message "DescriptorProto"),
      many "enum_type" 5 (message "EnumDescriptorProto"),
      many "service" 6 (message "ServiceDescriptorProto"),
      many "extension" 7 (message "FieldDescriptorProto"),
      one "options" 8 (message "FileOptions"),
      one "source_code_info" 9 (message "SourceCodeInfo"),
      one "syntax" 12 text,
      one "edition" 13 text] }

def descriptorProto : MessageDecl :=
  { name := "DescriptorProto"
    fields := [
      one "name" 1 text,
      many "field" 2 (message "FieldDescriptorProto"),
      many "extension" 6 (message "FieldDescriptorProto"),
      many "nested_type" 3 (message "DescriptorProto"),
      many "enum_type" 4 (message "EnumDescriptorProto"),
      many "extension_range" 5 (message "DescriptorProto.ExtensionRange"),
      many "oneof_decl" 8 (message "OneofDescriptorProto"),
      one "options" 7 (message "MessageOptions"),
      many "reserved_range" 9 (message "DescriptorProto.ReservedRange"),
      many "reserved_name" 10 text]
    nested := [
      { name := "ExtensionRange"
        fields := [
          one "start" 1 int32,
          one "end" 2 int32,
          one "options" 3 (message "ExtensionRangeOptions")] },
      { name := "ReservedRange"
        fields := [one "start" 1 int32, one "end" 2 int32] }] }

def fieldDescriptorProto : MessageDecl :=
  { name := "FieldDescriptorProto"
    fields := [
      one "name" 1 text,
      one "number" 3 int32,
      one "label" 4 (enum "FieldDescriptorProto.Label"),
      one "type" 5 (enum "FieldDescriptorProto.Type"),
      one "type_name" 6 text,
      one "extendee" 2 text,
      one "default_value" 7 text,
      one "oneof_index" 9 int32,
      one "json_name" 10 text,
      one "options" 8 (message "FieldOptions"),
      one "proto3_optional" 17 flag]
    enums := [
      { name := "Type"
        values := numbered 1 [
          "TYPE_DOUBLE", "TYPE_FLOAT", "TYPE_INT64", "TYPE_UINT64", "TYPE_INT32", "TYPE_FIXED64",
          "TYPE_FIXED32", "TYPE_BOOL", "TYPE_STRING", "TYPE_GROUP", "TYPE_MESSAGE", "TYPE_BYTES",
          "TYPE_UINT32", "TYPE_ENUM", "TYPE_SFIXED32", "TYPE_SFIXED64", "TYPE_SINT32",
          "TYPE_SINT64"] },
      { name := "Label"
        values := numbered 1 ["LABEL_OPTIONAL", "LABEL_REQUIRED", "LABEL_REPEATED"] }] }

def oneofDescriptorProto : MessageDecl :=
  { name := "OneofDescriptorProto"
    fields := [one "name" 1 text, one "options" 2 (message "OneofOptions")] }

def enumDescriptorProto : MessageDecl :=
  { name := "EnumDescriptorProto"
    fields := [
      one "name" 1 text,
      many "value" 2 (message "EnumValueDescriptorProto"),
      one "options" 3 (message "EnumOptions"),
      many "reserved_range" 4 (message "EnumDescriptorProto.EnumReservedRange"),
      many "reserved_name" 5 text]
    nested := [
      { name := "EnumReservedRange"
        fields := [one "start" 1 int32, one "end" 2 int32] }] }

def enumValueDescriptorProto : MessageDecl :=
  { name := "EnumValueDescriptorProto"
    fields := [
      one "name" 1 text,
      one "number" 2 int32,
      one "options" 3 (message "EnumValueOptions")] }

def serviceDescriptorProto : MessageDecl :=
  { name := "ServiceDescriptorProto"
    fields := [
      one "name" 1 text,
      many "method" 2 (message "MethodDescriptorProto"),
      one "options" 3 (message "ServiceOptions")] }

def methodDescriptorProto : MessageDecl :=
  { name := "MethodDescriptorProto"
    fields := [
      one "name" 1 text,
      one "input_type" 2 text,
      one "output_type" 3 text,
      one "options" 4 (message "MethodOptions"),
      withDefault (one "client_streaming" 5 flag) "false",
      withDefault (one "server_streaming" 6 flag) "false"] }

def fileOptions : MessageDecl :=
  { name := "FileOptions"
    fields := [
      one "java_package" 1 text,
      one "java_outer_classname" 8 text,
      withDefault (one "java_multiple_files" 10 flag) "false",
      deprecated (one "java_generate_equals_and_hash" 20 flag),
      withDefault (one "java_string_check_utf8" 27 flag) "false",
      withDefault (one "optimize_for" 9 (enum "FileOptions.OptimizeMode")) "SPEED",
      one "go_package" 11 text,
      withDefault (one "cc_generic_services" 16 flag) "false",
      withDefault (one "java_generic_services" 17 flag) "false",
      withDefault (one "py_generic_services" 18 flag) "false",
      withDefault (one "php_generic_services" 42 flag) "false",
      withDefault (one "deprecated" 23 flag) "false",
      withDefault (one "cc_enable_arenas" 31 flag) "true",
      one "objc_class_prefix" 36 text,
      one "csharp_namespace" 37 text,
      one "swift_prefix" 39 text,
      one "php_class_prefix" 40 text,
      one "php_namespace" 41 text,
      one "php_metadata_namespace" 44 text,
      one "ruby_package" 45 text,
      uninterpreted]
    enums := [
      { name := "OptimizeMode", values := numbered 1 ["SPEED", "CODE_SIZE", "LITE_RUNTIME"] }]
    extensionRanges := customNumbers
    reservedRanges := [⟨38, 39, none⟩] }

def messageOptions : MessageDecl :=
  { name := "MessageOptions"
    fields := [
      withDefault (one "message_set_wire_format" 1 flag) "false",
      withDefault (one "no_standard_descriptor_accessor" 2 flag) "false",
      withDefault (one "deprecated" 3 flag) "false",
      one "map_entry" 7 flag,
      uninterpreted]
    extensionRanges := customNumbers
    reservedRanges := [⟨4, 5, none⟩, ⟨5, 6, none⟩, ⟨6, 7, none⟩, ⟨8, 9, none⟩, ⟨9, 10, none⟩] }

def fieldOptions : MessageDecl :=
  { name := "FieldOptions"
    fields := [
      withDefault (one "ctype" 1 (enum "FieldOptions.CType")) "STRING",
      one "packed" 2 flag,
      withDefault (one "jstype" 6 (enum "FieldOptions.JSType")) "JS_NORMAL",
      withDefault (one "lazy" 5 flag) "false",
      withDefault (one "unverified_lazy" 15 flag) "false",
      withDefault (one "deprecated" 3 flag) "false",
      withDefault (one "weak" 10 flag) "false",
      uninterpreted]
    enums := [
      { name := "CType", values := numbered 0 ["STRING", "CORD", "STRING_PIECE"] },
      { name := "JSType", values := numbered 0 ["JS_NORMAL", "JS_STRING", "JS_NUMBER"] }]
    extensionRanges := customNumbers
    reservedRanges := [⟨4, 5, none⟩] }

def oneofOptions : MessageDecl :=
  { name := "OneofOptions", fields := [uninterpreted], extensionRanges := customNumbers }

def extensionRangeOptions : MessageDecl :=
  { name := "ExtensionRangeOptions", fields := [uninterpreted], extensionRanges := customNumbers }

def enumOptions : MessageDecl :=
  { name := "EnumOptions"
    fields := [
      one "allow_alias" 2 flag,
      withDefault (one "deprecated" 3 flag) "false",
      uninterpreted]
    extensionRanges := customNumbers
    reservedRanges := [⟨5, 6, none⟩] }

def enumValueOptions : MessageDecl :=
  { name := "EnumValueOptions"
    fields := [withDefault (one "deprecated" 1 flag) "false", uninterpreted]
    extensionRanges := customNumbers }

def serviceOptions : MessageDecl :=
  { name := "ServiceOptions"
    fields := [withDefault (one "deprecated" 33 flag) "false", uninterpreted]
    extensionRanges := customNumbers }

def methodOptions : MessageDecl :=
  { name := "MethodOptions"
    fields := [
      withDefault (one "deprecated" 33 flag) "false",
      withDefault (one "idempotency_level" 34 (enum "MethodOptions.IdempotencyLevel"))
        "IDEMPOTENCY_UNKNOWN",
      uninterpreted]
    enums := [
      { name := "IdempotencyLevel"
        values := numbered 0 ["IDEMPOTENCY_UNKNOWN", "NO_SIDE_EFFECTS", "IDEMPOTENT"] }]
    extensionRanges := customNumbers }

def uninterpretedOption : MessageDecl :=
  { name := "UninterpretedOption"
    fields := [
      many "name" 2 (message "UninterpretedOption.NamePart"),
      one "identifier_value" 3 text,
      one "positive_int_value" 4 uint64,
      one "negative_int_value" 5 int64,
      one "double_value" 6 double,
      one "string_value" 7 bytes,
      one "aggregate_value" 8 text]
    nested := [
      { name := "NamePart"
        fields := [need "name_part" 1 text, need "is_extension" 2 flag] }] }

def sourceCodeInfo : MessageDecl :=
  { name := "SourceCodeInfo"
    fields := [many "location" 1 (message "SourceCodeInfo.Location")]
    nested := [
      { name := "Location"
        fields := [
          packed (many "path" 1 int32),
          packed (many "span" 2 int32),
          one "leading_comments" 3 text,
          one "trailing_comments" 4 text,
          many "leading_detached_comments" 6 text] }] }

def generatedCodeInfo : MessageDecl :=
  { name := "GeneratedCodeInfo"
    fields := [many "annotation" 1 (message "GeneratedCodeInfo.Annotation")]
    nested := [
      { name := "Annotation"
        fields := [
          packed (many "path" 1 int32),
          one "source_file" 2 text,
          one "begin" 3 int32,
          one "end" 4 int32,
          one "semantic" 5 (enum "GeneratedCodeInfo.Annotation.Semantic")]
        enums := [
          { name := "Semantic", values := numbered 0 ["NONE", "SET", "ALIAS"] }] }] }

/-- The options of the file that declares descriptors. -/
def descriptorOptions : Message := [
  textSlot 1 "java_package" "com.google.protobuf",
  textSlot 8 "java_outer_classname" "DescriptorProtos",
  .known
    { number := 9, name := "optimize_for"
      kind := .enum "google.protobuf.FileOptions.OptimizeMode" }
    (.scalar (.enum 1)),
  textSlot 11 "go_package" "google.golang.org/protobuf/types/descriptorpb",
  flagSlot 31 "cc_enable_arenas" true,
  textSlot 36 "objc_class_prefix" "GPB",
  textSlot 37 "csharp_namespace" "Google.Protobuf.Reflection"]

def descriptorFile : FileDecl :=
  { name := "google/protobuf/descriptor.proto"
    package := some "google.protobuf"
    messages := [
      fileDescriptorSet, fileDescriptorProto, descriptorProto, extensionRangeOptions,
      fieldDescriptorProto, oneofDescriptorProto, enumDescriptorProto, enumValueDescriptorProto,
      serviceDescriptorProto, methodDescriptorProto, fileOptions, messageOptions, fieldOptions,
      oneofOptions, enumOptions, enumValueOptions, serviceOptions, methodOptions,
      uninterpretedOption, sourceCodeInfo, generatedCodeInfo]
    options := some descriptorOptions }

/-- The schema of descriptors themselves. -/
def descriptorSchema : Schema := Schema.ofFiles [descriptorFile]

def fileTypeName : String := "google.protobuf.FileDescriptorProto"

/-- The type of a message that describes a file. -/
def fileType : MessageType :=
  (descriptorSchema.message? fileTypeName).getD ⟨fileTypeName, [], false⟩

end DescriptorKit.Bundled
