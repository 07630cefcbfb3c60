import DescriptorKit.Descriptor
import DescriptorKit.Pool.Basic

/-!
Resolving custom options. The extensions that declare them are found among the descriptors
themselves: those whose imports are all there make a pool, and every descriptor is read again by the
schema of that pool.
-/
namespace DescriptorKit.Reparse

/-- The names of descriptors that import one of the names `open_`, or one that is missing. -/
def importing (present : List String) (open_ : List String) (ds : List Descriptor) : List String :=
  (ds.filter fun d =>
    d.dependencies.any fun i => !present.contains i || open_.contains i).map (·.name)

/-- Adds names until there are none to add; each round but the last adds one at least. -/
def closeOver (present : List String) (ds : List Descriptor) :
    (fuel : Nat) → List String → List String
  | 0, open_ => open_
  | fuel + 1, open_ =>
    match (importing present open_ ds).filter fun n => !open_.contains n with
    | [] => open_
    | more => closeOver present ds fuel (more ++ open_)

/-- The names of descriptors that import a missing file, directly or not. -/
def incomplete (ds : List Descriptor) : List String :=
  closeOver (ds.map (·.name)) ds (ds.length + 1) []

/-- The pool of the descriptors whose imports are all there. -/
def pool (ds : List Descriptor) : Except Pool.Fault Pool :=
  let open_ := incomplete ds
  match Pool.extend {} ((ds.filter fun d => !open_.contains d.name).map Descriptor.decl) with
  | .ok (P, _) => .ok P
  | .error f => .error f.fault

/-- The descriptors read again, as they are when the pool does not say what a descriptor is. -/
def apply (ds : List Descriptor) : Except Error (List Descriptor) := do
  let P ← (pool ds).mapError .pool
  let schema := P.schema
  match schema.message? Bundled.fileTypeName with
  | none => .ok ds
  | some type => ds.mapM fun d => (d.reread schema type).mapError .decode

end DescriptorKit.Reparse
