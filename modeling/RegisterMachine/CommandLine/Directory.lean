import RegisterMachine.CommandLine.Files

/-!
# A working directory

A path is followed from the working directory one component at a time. Every
component but the last has to be a folder, and so has the last when a slash
comes after it. Of what lies outside of the working directory nothing is
known but that it is a folder.

Where a component leads depends on the spot that has been reached and on
nothing else (`Spot.next`). The same steps that look a path up therefore lay
it out: what is at its end is listed under the spot it ends at, however the
path is written, and the spots on its way are listed as folders.
-/

namespace RegisterMachine.CommandLine

/-- **A spot that a path can reach.** -/
inductive Spot where
  /-- These components of the working directory, innermost first, so that a
  name in a folder is put in front and the folder around it is the rest. -/
  | inside (components : List String)
  /-- Out of it. -/
  | outside
  deriving DecidableEq, Repr

namespace Spot

/-- The working directory itself. -/
def root : Spot := .inside []

/-- The folder that a spot lies in. -/
def parent : Spot → Spot
  | .inside (_ :: components) => .inside components
  | .inside [] | .outside => .outside

/-- The spot of a name in the folder at a spot. -/
def child (name : String) : Spot → Except FileError Spot
  | .outside => .error .notFound
  | .inside components => .ok (.inside (name :: components))

/-- **The spot one more component leads to.** The component between two
slashes, or after one at the end, is empty and leads nowhere, like a dot. -/
def next (spot : Spot) (component : String) : Except FileError Spot :=
  if component = "" ∨ component = "." then .ok spot
  else if component = ".." then .ok spot.parent
  else spot.child component

/-- Where a path begins, and the components to follow from there. One that
begins with a slash begins outside. -/
def ofPath (path : String) : Spot × List String :=
  match path.splitOn "/" with
  | "" :: components => (.outside, components)
  | components => (.root, components)

end Spot

/-- **A working directory**: what there is in it, by spot. -/
structure Directory where
  /-- Spots and what is there, the latest first. -/
  entries : List (Spot × Node) := []

namespace Directory

/-- What a path from a spot adds to a directory when a node is to be at its
end. -/
def entriesOf (node : Node) (spot : Spot) : List String → List (Spot × Node)
  | [] => [(spot, node)]
  | component :: components =>
    (spot, .folder) ::
      match spot.next component with
      | .error _ => []
      | .ok spot => entriesOf node spot components

/-- **The working directory with something more in it.** -/
def insert (d : Directory) (path : String) (node : Node) : Directory :=
  let (spot, components) := Spot.ofPath path
  { entries := (entriesOf node spot components).reverse ++ d.entries }

/-- The working directory with these things in it, by path. -/
def ofPaths (nodes : List (String × Node)) : Directory :=
  nodes.foldl (fun d (path, node) => d.insert path node) {}

/-- **What there is at a spot.** -/
def look (d : Directory) : Spot → Except FileError Node
  | .outside | .inside [] => .ok .folder
  | spot =>
    match d.entries.lookup spot with
    | none => .error .notFound
    | some node => .ok node

/-- **Follow one more component of a path**, which has to start from a
folder. -/
def follow (d : Directory) (spot : Spot) (component : String) : Except FileError Spot := do
  match ← d.look spot with
  | .file _ => .error .notADirectory
  | .folder => spot.next component

/-- **What there is at a path.** The empty one leads nowhere. -/
def find (d : Directory) (path : String) : Except FileError Node :=
  if path.isEmpty then .error .notFound
  else
    let (spot, components) := Spot.ofPath path
    components.foldlM d.follow spot >>= d.look

/-- The files of a call in a working directory. -/
def files (d : Directory) : Files := { find := d.find }

end Directory

end RegisterMachine.CommandLine
