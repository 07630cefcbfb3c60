import DescriptorKit.Source.Bucket

/-!
Loading a bucket from a directory. A disk is seen as the names that lead to each of its files, and
to directories that may hold none.
-/
namespace DescriptorKit

structure Disk where
  directories : List (List String) := []
  files : List (List String × Bytes) := []

namespace Disk

def makeDirectory (D : Disk) (names : List String) : Disk :=
  { D with directories := D.directories ++ [names] }

def write (D : Disk) (names : List String) (content : Bytes) : Disk :=
  { D with files := D.files.filter (·.1 ≠ names) ++ [(names, content)] }

/-- The names that lead on from a directory, if `names` starts with those of the directory. -/
def below? : (directory names : List String) → Option (List String)
  | [], names => some names
  | _ :: _, [] => none
  | d :: directory, n :: names => if d = n then below? directory names else none

/-- Whether something is there: the root, a file, or a directory on the way to something. -/
def holds (D : Disk) (names : List String) : Bool :=
  names.isEmpty || (D.directories ++ D.files.map (·.1)).any fun e => (below? names e).isSome

/-- The files at or under some names, with the names that lead on, in the order of a walk that takes
the entries of each directory by name. -/
def walk (D : Disk) (names : List String) : List (List String × Bytes) :=
  let found := D.files.filterMap fun (file, content) =>
    (below? names file).map fun rest => (rest, content)
  found.mergeSort fun a b => !decide (b.1 < a.1)

/-- Whether a file name ends in `.proto` behind something else. -/
def isSourceName (name : String) : Bool :=
  match Text.stripTail? ".proto".toList name.toList with
  | some (_ :: _) => true
  | _ => false

/-- A path with a name behind it. -/
def child (path name : String) : String :=
  if path.toList.getLast? = some '/' then path ++ name else path ++ "/" ++ name

end Disk

namespace Bucket

/-- The file that names lead to below a directory. -/
def diskFile (directory : String) (names : List String) (content : Bytes) :
    Except Error SourceFile := do
  let onDisk := names.foldl Disk.child directory
  let f ← SourceFile.ofPath (String.intercalate "/" names) content
  .ok ((f.withExternalPath onDisk).withLocalPath onDisk)

/-- The source files in a directory at any depth, all of them targets. `directory` is how to write
the path of the directory that `names` lead to. -/
def ofDirectory (D : Disk) (directory : String) (names : List String) : Except Error Bucket :=
  if D.holds names then
    (D.walk names).foldlM
      (fun B (rest, content) =>
        if Disk.isSourceName ((rest.getLast? <|> names.getLast?).getD "") then do
          .ok (B.insert (← diskFile directory rest content))
        else .ok B)
      {}
  else .error (.readDisk directory (.walk directory))

end Bucket
end DescriptorKit
