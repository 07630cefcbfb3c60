import DescriptorKit.Image.File

/-!
Images: compiled files under distinct paths, in an order in which each file follows the files it
imports. The order is found by a depth-first walk that leaves files alone which stand in order
already.
-/
namespace DescriptorKit

structure Image where
  /-- Files with the paths they are found under. -/
  entries : List (String × ImageFile)

namespace Image

def files (I : Image) : List ImageFile := I.entries.map (·.2)

def paths (I : Image) : List String := I.entries.map (·.1)

def find? (entries : List (String × ImageFile)) (path : String) : Option ImageFile :=
  (entries.find? (·.1 = path)).map (·.2)

def file? (I : Image) (path : String) : Option ImageFile := find? I.entries path

/-- The imports of the file under a path that are themselves present. -/
def present (entries : List (String × ImageFile)) (path : String) : List String :=
  match find? entries path with
  | none => []
  | some f => f.dependencies.filter fun d => (find? entries d).isSome

/-- How far a walk over files has come. -/
structure Walk where
  visited : List String := []
  /-- The paths left behind, the last one first. -/
  finished : List String := []

/-- Walks over a file and all it imports. Each step down visits another file, so `fuel` need not be
more than their number. -/
def Walk.visit (entries : List (String × ImageFile)) : (fuel : Nat) → Walk → String → Walk
  | 0, w, _ => w
  | fuel + 1, w, path =>
    if path ∈ w.visited then w
    else
      let w : Walk := { w with visited := path :: w.visited }
      let w := (present entries path).foldl (Walk.visit entries fuel) w
      { w with finished := path :: w.finished }

/-- The paths so that each follows those it imports, unless they import each other. -/
def order (entries : List (String × ImageFile)) : List String :=
  ((entries.map (·.1)).foldl (Walk.visit entries entries.length) {}).finished.reverse

def sort (entries : List (String × ImageFile)) : List (String × ImageFile) :=
  (order entries).filterMap fun path => entries.find? (·.1 = path)

/-- The first path that an earlier file has too. -/
def repeated? (seen : List String) : List String → Option String
  | [] => none
  | p :: rest => if p ∈ seen then some p else repeated? (p :: seen) rest

/-- The first two commits that disagree about a module. Having none counts as a value. -/
def conflict? (seen : List (ModuleName × Option Commit)) : List ImageFile → Option Error
  | [] => none
  | f :: rest =>
    match f.module with
    | none => conflict? seen rest
    | some m =>
      match seen.find? (·.1 = m) with
      | none => conflict? ((m, f.commit) :: seen) rest
      | some (_, first) =>
        if first = f.commit then conflict? seen rest
        else some (.inconsistentCommit m first f.commit)

/-- The image of the given files. -/
def ofFiles (files : List ImageFile) : Except Error Image :=
  if files = [] then .error .noFiles
  else
    match repeated? [] (files.map (·.path)) with
    | some path => .error (.duplicatePath path)
    | none =>
      let entries := sort (files.map fun f => (f.path, f))
      match conflict? [] (entries.map (·.2)) with
      | some e => .error e
      | none => .ok ⟨entries⟩

/-- The files that are not merely imported. The result may be empty. -/
def withoutImports (I : Image) : Image := ⟨I.entries.filter fun e => !e.2.isImport⟩

end Image
end DescriptorKit
