import DescriptorKit.Build.Link
import DescriptorKit.Declaration.ToMessage
import DescriptorKit.Image.Basic
import DescriptorKit.Reparse
import DescriptorKit.Unused

/-!
Building an image from sources. First every target is read, and what is wrong with any of them is
told at once; then the targets are linked with all they import. The files of the image are labelled
with where they came from.
-/
namespace DescriptorKit

structure BuildOptions where
  /-- Whether descriptors say where each declaration stands. -/
  sourceInfo : Bool := true
  /-- Whether to find out which imports are not needed. -/
  computeUnused : Bool := true
  /-- Whether the build was called off before it began. -/
  cancelled : Bool := false

namespace Build

/-- The paths to build in normal form, in order, each once. -/
def normalTargets (targets : List String) : Except Error (List String) := do
  let normal ← targets.mapM fun t => (Path.normalize t).mapError (.badPath t)
  .ok ((normal.mergeSort fun a b => !decide (b < a)).eraseDups)

/-- Reads the targets ahead. Gives what is wrong with those that cannot be read; one that is missing
is told later. -/
def readTargets (R : SourceReader) : List String → Supplying (List Annotation)
  | [] => return []
  | path :: rest => do
    let found ← match ← Supply.readAhead R path with
      | .ok () => pure []
      | .error (.missing _) => pure []
      | .error fault => pure ((LinkFault.ofSupply fault).annotations (← get).origins)
    return found ++ (← readTargets R rest)

/-- Nothing if there is nothing to tell. -/
def compileError (annotations : List Annotation) : Except Error Unit :=
  if annotations.isEmpty then .ok () else .error (.compile (.ofList annotations))

/-- The failure that was met while sources were supplied. -/
def check (s : Supply) : Except Error Unit :=
  match s.failure with
  | some e => .error e
  | none => .ok ()

/-- The error of a file that was not found. -/
def notFound (targets : List String) (f : LinkFault) (path : String) : Error :=
  if path ∈ targets then .fileNotFound path
  else .importNotFound path (f.file?.filter (· ≠ path))

/-- Links the targets. A failure or a missing file ends this at once; what else is wrong is
collected over all targets. -/
def linkTargets (R : SourceReader) (targets : List String) :
    List String → Linking → List Annotation → Except Error (Linking × List Annotation)
  | [], l, annotations => .ok (l, annotations)
  | path :: rest, l, annotations =>
    match (Linker.linkTarget R path).run.run l with
    | (.ok (), l) => linkTargets R targets rest l annotations
    | (.error f, l) =>
      match check l.supply, l.supply.missing with
      | .error e, _ => .error e
      | .ok (), missing :: _ => .error (notFound targets f missing)
      | .ok (), [] =>
        linkTargets R targets rest l (annotations ++ f.annotations l.supply.origins)

/-- The descriptor of a linked file. -/
def descriptorBytes (sourceInfo : Bool) (f : Linked) : Bytes :=
  let locations :=
    if sourceInfo && !f.unit.marks.isEmpty then some (f.unit.locations f.moves) else none
  ({ f.file with locations } : FileDecl).toMessage.encode

/-- The image of linked files. -/
def assemble (origins : Origins) (targets : List String) (options : BuildOptions)
    (files : List Linked) : Except Error Image := do
  let descriptors ← files.mapM fun f =>
    (Descriptor.decode (descriptorBytes options.sourceInfo f)).mapError .decode
  let descriptors ← Reparse.apply descriptors
  let unused :=
    if options.computeUnused then Unused.indexes descriptors else descriptors.map fun _ => []
  let files ← (descriptors.zip unused).mapM fun (d, unused) =>
    ImageFile.ofParts
      { descriptor := d
        externalPath := some (origins.displayPath d.name)
        localPath := origins.localPaths.lookup d.name
        module := origins.modules.lookup d.name
        commit := origins.commits.lookup d.name
        isImport := !targets.contains d.name
        syntaxUnspecified := origins.undeclared.contains d.name
        unused }
  Image.ofFiles files

end Build

open Build in
/-- Builds the targets of what is read from, and all they import. -/
def Image.build (R : SourceReader) (options : BuildOptions) : Except Error Image := do
  let targets ← normalTargets R.targets
  if targets.isEmpty then .error .noFiles
  else if options.cancelled then .error .cancelled
  else
    let (annotations, supply) := (readTargets R targets).run {}
    check supply
    compileError annotations
    let (l, annotations) ← linkTargets R targets targets { supply } []
    check l.supply
    compileError annotations
    assemble l.supply.origins targets options l.files

end DescriptorKit
