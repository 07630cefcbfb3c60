import DescriptorKit.Image.Narrow
import DescriptorKit.Image.Request
import DescriptorKit.Image.Storage
import DescriptorKit.Reparse
import DescriptorKit.Unused

/-!
Images read from bytes and from requests to code generators.
-/
namespace DescriptorKit

/-- How an image is read. -/
structure DecodeOptions where
  /-- Resolve custom options against the extensions that the image itself declares. -/
  reparse : Bool := true
  /-- Find the imports that are not needed, rather than trust those stored. -/
  computeUnused : Bool := false

namespace Image

/-- The files of the given descriptors and metadata. -/
def filesOf (computed : Option (List (List Nat))) :
    List (Descriptor × Message) → Except Error (List ImageFile)
  | [] => .ok []
  | (d, metadata) :: rest => do
    let unused ← match computed with
      | some (indexes :: _) => .ok indexes
      | some [] => .ok []
      | none => Storage.storedUnused d metadata
    let f ← Storage.fileOf d metadata unused
    let fs ← filesOf (computed.map List.tail) rest
    .ok (f :: fs)

def decode (bytes : Bytes) (options : DecodeOptions) : Except Error Image := do
  if options.computeUnused && !options.reparse then
    throw (.options .unusedWithoutReparse)
  let encoded ← (Storage.decodeFiles bytes).mapError .decode
  if encoded = [] then throw .noFiles
  let stored ← encoded.mapM Storage.decodeFile
  let ds := stored.map (·.1)
  let ds ← if options.reparse then Reparse.apply ds else pure ds
  let computed := if options.computeUnused then some (Unused.indexes ds) else none
  let files ← filesOf computed (ds.zip (stored.map (·.2)))
  ofFiles files

/-- The image that a request is about. Exactly the files to generate code for are targets. -/
def ofRequest (r : Request) : Except Error Image := do
  let ds ← r.descriptors.mapM fun b => (Descriptor.decode b).mapError .decode
  let ds ← Reparse.apply ds
  let files ← ds.mapM fun d => ImageFile.ofParts { descriptor := d, isImport := true }
  let I ← ofFiles files
  I.narrow .refused r.filesToGenerate []

end Image
end DescriptorKit
