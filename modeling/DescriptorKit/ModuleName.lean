import DescriptorKit.Text.Split

/-!
Module names `remote/owner/name`. Each part is non-empty and holds no slash, so a name is read back
from its text.
-/
namespace DescriptorKit

/-- Whether a text can be one part of a module name. -/
def ModuleName.isPart (part : String) : Bool :=
  part.toList ≠ [] && !part.toList.contains '/'

structure ModuleName where
  remote : String
  owner : String
  name : String
  remote_isPart : ModuleName.isPart remote = true
  owner_isPart : ModuleName.isPart owner = true
  name_isPart : ModuleName.isPart name = true
  deriving DecidableEq

namespace ModuleName

def render (remote owner name : String) : String :=
  remote ++ "/" ++ owner ++ "/" ++ name

def text (m : ModuleName) : String := render m.remote m.owner m.name

/-- The name with the given parts; the error is the text that was refused. -/
def ofParts (remote owner name : String) : Except String ModuleName :=
  if h : isPart remote ∧ isPart owner ∧ isPart name then
    .ok ⟨remote, owner, name, h.1, h.2.1, h.2.2⟩
  else .error (render remote owner name)

def parse (s : String) : Except String ModuleName :=
  match Text.splitAt '/' s with
  | [remote, owner, name] => ofParts remote owner name
  | _ => .error s

end ModuleName
end DescriptorKit
