/-!
# File trees

A tree of named files and directories, and what comes of reading the file that a
path names in it.
-/

namespace Framestep

inductive ReadFault where
  | notFound
  | notADirectory
  | isADirectory
  | invalidPath
  deriving DecidableEq, Repr

def ReadFault.name : ReadFault → String
  | notFound => "NotFound"
  | notADirectory => "NotADirectory"
  | isADirectory => "IsADirectory"
  | invalidPath => "InvalidInput"

/-- A file, or a directory with named entries. -/
inductive FileTree where
  | file (bytes : Array UInt8)
  | directory (entries : List (String × FileTree))

namespace FileTree

/-- Whether a component of a path leads nowhere else. -/
def stays (name : String) : Bool := name = "" || name = "."

/-- The names in a path.  Where nothing stands between two slashes, or before or behind one
at an end, the name is empty. -/
def components (path : String) : List String := (path.toList.splitOn '/').map String.ofList

/-- A relative path without the components at its ends that lead nowhere else. -/
def trimmed (path : String) : String :=
  let names := (components path).dropWhile stays
  "/".intercalate (names.reverse.dropWhile stays).reverse

/-- Follows the components of a path.  `above` holds the directories on the way
from here to the root, the nearest first; the root is its own parent. -/
def follow : FileTree → List FileTree → List String → Except ReadFault FileTree
  | tree, _, [] => .ok tree
  | file _, _, _ :: _ => .error .notADirectory
  | directory entries, above, name :: names =>
    if stays name then
      follow (directory entries) above names
    else if name = ".." then
      match above with
      | [] => follow (directory entries) [] names
      | parent :: above => follow parent above names
    else
      match entries.lookup name with
      | none => .error .notFound
      | some tree => follow tree (directory entries :: above) names

/-- The bytes of the file that a path names.  The path starts at `tree`, which lies
below the directories `above`, the nearest first. -/
def read (tree : FileTree) (above : List FileTree) (path : String) :
    Except ReadFault (Array UInt8) :=
  if path.toList.contains (Char.ofNat 0) then
    .error .invalidPath
  else
    match tree.follow above (components path) with
    | .error fault => .error fault
    | .ok (file bytes) => .ok bytes
    | .ok (directory _) => .error .isADirectory

end FileTree

end Framestep
