/-!
# Kinds of disk images

The extension of a disk image says little about it, so its kind is read off the
signatures that file systems leave at fixed offsets.  An image that shows none of
them is of unknown kind, which is no fault.
-/

namespace Framestep

/-- What a disk image holds, as far as its bytes tell. -/
inductive ImageKind where
  | hfs
  /-- A bare volume of its successor. -/
  | hfsPlus
  | iso9660
  | applePartitionMap
  | unknown
  deriving DecidableEq, Repr

/-- Some bytes at a fixed place. -/
structure Signature where
  offset : Nat
  bytes : List UInt8
  deriving DecidableEq, Repr

namespace Signature

/-- The signature of a text in single-byte characters. -/
def ofText (offset : Nat) (text : String) : Signature :=
  ⟨offset, text.toList.map fun c => UInt8.ofNat c.toNat⟩

def marks (signature : Signature) (image : Array UInt8) : Bool :=
  (image.extract signature.offset (signature.offset + signature.bytes.length)).toList
    == signature.bytes

def driverMap : Signature := ofText 0 "ER"

def partitionEntry : Signature := ofText 512 "PM"

def hfs : Signature := ofText 1024 "BD"

def hfsPlus : Signature := ofText 1024 "H+"

/-- The header of a volume of the successor with names in both cases. -/
def hfsx : Signature := ofText 1024 "HX"

def iso9660 : Signature := ofText 32769 "CD001"

end Signature

namespace ImageKind

/-- The kind of an image.  A partition map goes before a bare volume, and a bare
volume before a compact disc. -/
def ofBytes (image : Array UInt8) : ImageKind :=
  if Signature.driverMap.marks image && Signature.partitionEntry.marks image then
    applePartitionMap
  else if Signature.hfs.marks image then
    hfs
  else if Signature.hfsPlus.marks image || Signature.hfsx.marks image then
    hfsPlus
  else if Signature.iso9660.marks image then
    iso9660
  else
    unknown

/-- Bytes from the start of an image that suffice to see every signature. -/
def headLength : Nat := 32769 + 5

def name : ImageKind → String
  | hfs => "Hfs"
  | hfsPlus => "HfsPlus"
  | iso9660 => "Iso9660"
  | applePartitionMap => "ApplePartitionMap"
  | unknown => "Unknown"

end ImageKind

end Framestep
