import DescriptorKit.Image.Basic

/-!
Merging images. A path that is a target in one of them is a target of the result; it must not be one
in two.
-/
namespace DescriptorKit.Image

/-- Adds a file to those merged so far, under its own path. -/
def addFile (f : ImageFile) : List (String × ImageFile) → Except Error (List (String × ImageFile))
  | [] => .ok [(f.path, f)]
  | (path, g) :: rest =>
    if path = f.path then
      if g.isImport then .ok ((path, if f.isImport then g else f) :: rest)
      else if f.isImport then .ok ((path, g) :: rest)
      else .error (.nonImportTwice path)
    else (addFile f rest).map ((path, g) :: ·)

def mergeFiles (merged : List (String × ImageFile)) :
    List ImageFile → Except Error (List (String × ImageFile))
  | [] => .ok merged
  | f :: rest => (addFile f merged).bind (mergeFiles · rest)

/-- The union of the images; nothing for no images, and a single image as it is. -/
def merge : List Image → Except Error (Option Image)
  | [] => .ok none
  | [I] => .ok (some I)
  | images => do
    let merged ← mergeFiles [] (images.flatMap (·.files))
    let I ← ofFiles (merged.map (·.2))
    .ok (some I)

end DescriptorKit.Image
