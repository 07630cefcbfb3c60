import DescriptorKit.Bundled.Descriptor

/-!
The files that a compiler knows without being given them.
-/
namespace DescriptorKit.Bundled

/-- The options that bundled files share. `target` names the package of the code that is made of a
file; only some files ask for `arenas`. -/
def options (className target : String) (arenas : Bool) : Message :=
  [textSlot 1 "java_package" "com.google.protobuf",
    textSlot 8 "java_outer_classname" (className ++ "Proto"),
    flagSlot 10 "java_multiple_files" true,
    textSlot 11 "go_package" ("google.golang.org/protobuf/types/known/" ++ target ++ "pb")] ++
  (if arenas then [flagSlot 31 "cc_enable_arenas" true] else []) ++
  [textSlot 36 "objc_class_prefix" "GPB",
    textSlot 37 "csharp_namespace" "Google.Protobuf.WellKnownTypes"]

/-- A file of the package that all bundled files share, in the third version of the language. -/
def file (name : String) (options : Message) (messages : List MessageDecl)
    (dependencies : List String := []) (enums : List EnumDecl := []) : FileDecl :=
  { name := "google/protobuf/" ++ name ++ ".proto", package := some "google.protobuf"
    dependencies := dependencies.map fun d => "google/protobuf/" ++ d ++ ".proto"
    messages, enums, options := some options, dialect := some "proto3" }

def anyFile : FileDecl :=
  file "any" (options "Any" "any" false) [
    { name := "Any", fields := [one "type_url" 1 text, one "value" 2 bytes] }]

def apiFile : FileDecl :=
  file "api" (options "Api" "api" false) [
    { name := "Api"
      fields := [
        one "name" 1 text,
        many "methods" 2 (message "Method"),
        many "options" 3 (message "Option"),
        one "version" 4 text,
        one "source_context" 5 (message "SourceContext"),
        many "mixins" 6 (message "Mixin"),
        one "syntax" 7 (enum "Syntax")] },
    { name := "Method"
      fields := [
        one "name" 1 text,
        one "request_type_url" 2 text,
        one "request_streaming" 3 flag,
        one "response_type_url" 4 text,
        one "response_streaming" 5 flag,
        many "options" 6 (message "Option"),
        one "syntax" 7 (enum "Syntax")] },
    { name := "Mixin", fields := [one "name" 1 text, one "root" 2 text] }]
    ["source_context", "type"]

def pluginFile : FileDecl :=
  { name := "google/protobuf/compiler/plugin.proto"
    package := some "google.protobuf.compiler"
    dependencies := [descriptorFile.name]
    messages := [
      { name := "Version"
        fields := [
          one "major" 1 int32,
          one "minor" 2 int32,
          one "patch" 3 int32,
          one "suffix" 4 text] },
      { name := "CodeGeneratorRequest"
        fields := [
          many "file_to_generate" 1 text,
          one "parameter" 2 text,
          many "proto_file" 15 (message "FileDescriptorProto"),
          one "compiler_version" 3 (message "compiler.Version")] },
      { name := "CodeGeneratorResponse"
        fields := [
          one "error" 1 text,
          one "supported_features" 2 uint64,
          many "file" 15 (message "compiler.CodeGeneratorResponse.File")]
        nested := [
          { name := "File"
            fields := [
              one "name" 1 text,
              one "insertion_point" 2 text,
              one "content" 15 text,
              one "generated_code_info" 16 (message "GeneratedCodeInfo")] }]
        enums := [
          { name := "Feature"
            values := numbered 0 ["FEATURE_NONE", "FEATURE_PROTO3_OPTIONAL"] }] }]
    options := some [
      textSlot 1 "java_package" "com.google.protobuf.compiler",
      textSlot 8 "java_outer_classname" "PluginProtos",
      textSlot 11 "go_package" "google.golang.org/protobuf/types/pluginpb",
      textSlot 37 "csharp_namespace" "Google.Protobuf.Compiler"] }

def durationFile : FileDecl :=
  file "duration" (options "Duration" "duration" true) [
    { name := "Duration", fields := [one "seconds" 1 int64, one "nanos" 2 int32] }]

def emptyFile : FileDecl := file "empty" (options "Empty" "empty" true) [{ name := "Empty" }]

def fieldMaskFile : FileDecl :=
  file "field_mask" (options "FieldMask" "fieldmask" true) [
    { name := "FieldMask", fields := [many "paths" 1 text] }]

def sourceContextFile : FileDecl :=
  file "source_context" (options "SourceContext" "sourcecontext" false) [
    { name := "SourceContext", fields := [one "file_name" 1 text] }]

def structFile : FileDecl :=
  file "struct" (options "Struct" "struct" true) [
    { name := "Struct"
      fields := [many "fields" 1 (message "Struct.FieldsEntry")]
      nested := [
        { name := "FieldsEntry"
          fields := [one "key" 1 text, one "value" 2 (message "Value")]
          options := some entryOptions }] },
    { name := "Value"
      fields := [
        one "null_value" 1 (enum "NullValue"),
        one "number_value" 2 double,
        one "string_value" 3 text,
        one "bool_value" 4 flag,
        one "struct_value" 5 (message "Struct"),
        one "list_value" 6 (message "ListValue")].map (inOneof · 0)
      oneofs := [{ name := "kind" }] },
    { name := "ListValue", fields := [many "values" 1 (message "Value")] }]
    [] [{ name := "NullValue", values := numbered 0 ["NULL_VALUE"] }]

def timestampFile : FileDecl :=
  file "timestamp" (options "Timestamp" "timestamp" true) [
    { name := "Timestamp", fields := [one "seconds" 1 int64, one "nanos" 2 int32] }]

def typeFile : FileDecl :=
  file "type" (options "Type" "type" true) [
    { name := "Type"
      fields := [
        one "name" 1 text,
        many "fields" 2 (message "Field"),
        many "oneofs" 3 text,
        many "options" 4 (message "Option"),
        one "source_context" 5 (message "SourceContext"),
        one "syntax" 6 (enum "Syntax")] },
    { name := "Field"
      fields := [
        one "kind" 1 (enum "Field.Kind"),
        one "cardinality" 2 (enum "Field.Cardinality"),
        one "number" 3 int32,
        one "name" 4 text,
        one "type_url" 6 text,
        one "oneof_index" 7 int32,
        one "packed" 8 flag,
        many "options" 9 (message "Option"),
        one "json_name" 10 text,
        one "default_value" 11 text]
      enums := [
        { name := "Kind"
          values := numbered 0 [
            "TYPE_UNKNOWN", "TYPE_DOUBLE", "TYPE_FLOAT", "TYPE_INT64", "TYPE_UINT64", "TYPE_INT32",
            "TYPE_FIXED64", "TYPE_FIXED32", "TYPE_BOOL", "TYPE_STRING", "TYPE_GROUP",
            "TYPE_MESSAGE", "TYPE_BYTES", "TYPE_UINT32", "TYPE_ENUM", "TYPE_SFIXED32",
            "TYPE_SFIXED64", "TYPE_SINT32", "TYPE_SINT64"] },
        { name := "Cardinality"
          values := numbered 0 [
            "CARDINALITY_UNKNOWN", "CARDINALITY_OPTIONAL", "CARDINALITY_REQUIRED",
            "CARDINALITY_REPEATED"] }] },
    { name := "Enum"
      fields := [
        one "name" 1 text,
        many "enumvalue" 2 (message "EnumValue"),
        many "options" 3 (message "Option"),
        one "source_context" 4 (message "SourceContext"),
        one "syntax" 5 (enum "Syntax")] },
    { name := "EnumValue"
      fields := [one "name" 1 text, one "number" 2 int32, many "options" 3 (message "Option")] },
    { name := "Option", fields := [one "name" 1 text, one "value" 2 (message "Any")] }]
    ["any", "source_context"]
    [{ name := "Syntax", values := numbered 0 ["SYNTAX_PROTO2", "SYNTAX_PROTO3"] }]

/-- A message that holds a single value. -/
def wrapper (name : String) (s : FieldShape) : MessageDecl := { name, fields := [one "value" 1 s] }

def wrappersFile : FileDecl :=
  file "wrappers" (options "Wrappers" "wrappers" true) [
    wrapper "DoubleValue" double, wrapper "FloatValue" float, wrapper "Int64Value" int64,
    wrapper "UInt64Value" uint64, wrapper "Int32Value" int32, wrapper "UInt32Value" uint32,
    wrapper "BoolValue" flag, wrapper "StringValue" text, wrapper "BytesValue" bytes]

def files : List FileDecl := [
  anyFile, apiFile, pluginFile, descriptorFile, durationFile, emptyFile, fieldMaskFile,
  sourceContextFile, structFile, timestampFile, typeFile, wrappersFile]

/-- The bundled file at a path. -/
def file? (path : String) : Option FileDecl := files.find? (·.name = path)

end DescriptorKit.Bundled
