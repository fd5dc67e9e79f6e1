import Framestep.Disk.Kind
import Framestep.Disk.Tree

/-!
# Machine requests

A host hands over the path of a disk image, its bytes, or both.  From that comes
the request that a machine is started with.  Bytes go before the file: only
where there are none is the head of the file read, to see its kind.
-/

namespace Framestep

structure MachineRequest where
  path : Option String
  ramMb : Nat
  kind : ImageKind
  deriving DecidableEq, Repr

inductive RequestFault where
  /-- There is neither a path nor a byte. -/
  | empty
  | unreadable (cause : ReadFault)
  deriving DecidableEq, Repr

/-- The wording of a load fault; for a file that cannot be read, only its
beginning, which the system's own words follow. -/
def RequestFault.message : RequestFault → String
  | empty => "nothing to load (no path and no data)"
  | unreadable _ => "failed to read disk image: "

/-- Reads the file that a path names. -/
abbrev FileReader := String → Except ReadFault (Array UInt8)

namespace MachineRequest

/-- Megabytes of memory for a machine when nobody asks for a size. -/
def defaultRamMb : Nat := 128

/-- The request for what a host hands over.  An empty path counts as none, and so
do no bytes. -/
def ofMedia (read : FileReader) (path : Option String) (image : Option (Array UInt8))
    (ramMb : Nat) : Except RequestFault MachineRequest :=
  let path := path.filter fun path => path != ""
  let image := image.filter fun image => !image.isEmpty
  let request (kind : ImageKind) : MachineRequest :=
    { path, ramMb := if ramMb = 0 then defaultRamMb else ramMb, kind }
  match image, path with
  | some bytes, _ => .ok (request (.ofBytes bytes))
  | none, none => .error .empty
  | none, some path =>
    match read path with
    | .error cause => .error (.unreadable cause)
    | .ok bytes => .ok (request (.ofBytes (bytes.extract 0 ImageKind.headLength)))

end MachineRequest

end Framestep
