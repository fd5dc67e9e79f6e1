import Framestep.Disk.Request

/-!
# Where the kind of an image is read

The kind of an image depends on eleven of its bytes, those that a signature can cover
(`IsSniffed`).  Two images that agree there are of the same kind, however much else they differ:
`ImageKind.ofBytes_congr`.  All of these bytes lie in the head of an image, so a file of which only
the head is read is taken for what it is as a whole.

The main statement, `MachineRequest.same_request_of_file`, is about the requests that come of it.
It asks of the file system only that a file has a path which is not empty; files in a `FileTree` do
(`FileTree.ne_empty_of_read`).
-/

namespace Framestep

/-! ## Signatures -/

/-- The places in an image that a signature can cover. -/
def IsSniffed (i : Nat) : Prop :=
  i ≤ 1 ∨ (512 ≤ i ∧ i ≤ 513) ∨ (1024 ≤ i ∧ i ≤ 1025) ∨ (32769 ≤ i ∧ i ≤ 32773)

/-- A stretch of an image has the bytes of the image at its places, as far as there are any. -/
theorem getElem?_extract_eq (image : Array UInt8) (start stop i : Nat) :
    (image.extract start stop)[i]? = if start + i < stop then image[start + i]? else none := by
  rw [Array.getElem?_extract]
  by_cases hstop : start + i < stop
  · by_cases hsize : start + i < image.size
    · rw [if_pos hstop, if_pos (by omega)]
    · rw [if_pos hstop, if_neg (by omega), Array.getElem?_eq_none (Nat.le_of_not_lt hsize)]
  · rw [if_neg hstop, if_neg (by omega)]

namespace Signature

/-- Only the bytes at its own place count for a signature. -/
theorem marks_congr {signature : Signature} {image other : Array UInt8}
    (hagree : ∀ i, signature.offset ≤ i → i < signature.offset + signature.bytes.length →
      image[i]? = other[i]?) :
    signature.marks image = signature.marks other := by
  have hstretch : image.extract signature.offset (signature.offset + signature.bytes.length) =
      other.extract signature.offset (signature.offset + signature.bytes.length) := by
    apply Array.ext_getElem?
    intro i
    rw [getElem?_extract_eq, getElem?_extract_eq]
    split
    · next hi => exact hagree _ (Nat.le_add_right _ _) hi
    · rfl
  rw [marks, marks, hstretch]

/-- The signatures that an image is looked through for. -/
def known : List Signature := [driverMap, partitionEntry, hfs, hfsPlus, hfsx, iso9660]

theorem spans_known :
    known.map (fun signature => (signature.offset, signature.bytes.length)) =
      [(0, 2), (512, 2), (1024, 2), (1024, 2), (1024, 2), (32769, 5)] := by
  decide

theorem isSniffed_of_known {signature : Signature} (hknown : signature ∈ known) {i : Nat}
    (hfrom : signature.offset ≤ i) (hto : i < signature.offset + signature.bytes.length) :
    IsSniffed i := by
  have hspan : (signature.offset, signature.bytes.length) ∈
      known.map fun signature => (signature.offset, signature.bytes.length) :=
    List.mem_map_of_mem hknown
  rw [spans_known] at hspan
  simp only [List.mem_cons, Prod.mk.injEq, List.not_mem_nil, or_false] at hspan
  unfold IsSniffed
  omega

end Signature

/-! ## Kinds -/

namespace ImageKind

variable {image other : Array UInt8}

theorem ofBytes_congr (hagree : ∀ i, IsSniffed i → image[i]? = other[i]?) :
    ofBytes image = ofBytes other := by
  have hmarks {signature : Signature} (hknown : signature ∈ Signature.known) :
      signature.marks image = signature.marks other :=
    Signature.marks_congr fun i hfrom hto =>
      hagree i (Signature.isSniffed_of_known hknown hfrom hto)
  -- An image is looked through for known signatures only.
  have hdriverMap : Signature.driverMap ∈ Signature.known := by decide
  have hpartition : Signature.partitionEntry ∈ Signature.known := by decide
  have hhfs : Signature.hfs ∈ Signature.known := by decide
  have hhfsPlus : Signature.hfsPlus ∈ Signature.known := by decide
  have hhfsx : Signature.hfsx ∈ Signature.known := by decide
  have hiso : Signature.iso9660 ∈ Signature.known := by decide
  rw [ofBytes, ofBytes, hmarks hdriverMap, hmarks hpartition, hmarks hhfs, hmarks hhfsPlus,
    hmarks hhfsx, hmarks hiso]

/-- Every signature lies in the head of an image. -/
theorem ofBytes_head (image : Array UInt8) :
    ofBytes (image.extract 0 headLength) = ofBytes image := by
  apply ofBytes_congr
  intro i hi
  have hhead : 0 + i < headLength := by
    unfold IsSniffed at hi
    unfold headLength
    omega
  rw [getElem?_extract_eq, if_pos hhead, Nat.zero_add]

end ImageKind

/-! ## Requests -/

/-- A file tree has no file at the empty path. -/
theorem FileTree.ne_empty_of_read {tree : FileTree} {above : List FileTree} {path : String}
    {bytes : Array UInt8} (hread : tree.read above path = .ok bytes) : path ≠ "" := by
  rintro rfl
  have hnames : components "" = [""] := by decide
  have hnul : "".toList.contains (Char.ofNat 0) = false := by decide
  simp only [read, hnul, hnames] at hread
  cases tree with
  | file bytes => simp [follow] at hread
  | directory entries => simp [follow, stays] at hread

namespace MachineRequest

variable {read : FileReader} {path : String} {image : Array UInt8}

theorem ofMedia_image (read : FileReader) (hpath : path ≠ "") (himage : image ≠ #[])
    (ramMb : Nat) :
    ofMedia read (some path) (some image) ramMb =
      .ok ⟨some path, if ramMb = 0 then defaultRamMb else ramMb, .ofBytes image⟩ := by
  have hbytes : image.isEmpty = false := by simpa using himage
  simp [ofMedia, Option.filter, hpath, hbytes]

theorem ofMedia_path (hpath : path ≠ "") (hread : read path = .ok image) (ramMb : Nat) :
    ofMedia read (some path) none ramMb =
      .ok ⟨some path, if ramMb = 0 then defaultRamMb else ramMb, .ofBytes image⟩ := by
  simp [ofMedia, Option.filter, hpath, hread, ImageKind.ofBytes_head]

/-- Nothing to load is the fault of a request without a path and without a byte, and of no other. -/
theorem ofMedia_eq_empty_iff (read : FileReader) (path : Option String)
    (image : Option (Array UInt8)) (ramMb : Nat) :
    ofMedia read path image ramMb = .error .empty ↔
      (path = none ∨ path = some "") ∧ (image = none ∨ image = some #[]) := by
  have hpath : path.filter (fun path => path != "") = none ↔ path = none ∨ path = some "" := by
    cases path <;> simp
  have himage : image.filter (fun image => !image.isEmpty) = none ↔
      image = none ∨ image = some #[] := by
    cases image <;> simp
  rw [← hpath, ← himage]
  unfold ofMedia
  cases image.filter fun image => !image.isEmpty with
  | some bytes => simp
  | none =>
      cases path.filter fun path => path != "" with
      | none => simp
      | some path =>
          simp only [reduceCtorEq, false_and, iff_false]
          cases read path <;> nofun

/-- A file and its bytes make the same request.  The kind of an image depends on no byte but those
that signatures can cover, and not on what comes behind its head; so the head of a file, which is
read where only its path is handed over, tells as much as all bytes do.  There is nothing to load
exactly where neither a path nor a byte is handed over. -/
theorem same_request_of_file (read : FileReader) (ramMb : Nat) :
    (∀ image other : Array UInt8, (∀ i, IsSniffed i → image[i]? = other[i]?) →
      ImageKind.ofBytes image = .ofBytes other) ∧
    (∀ image : Array UInt8, ImageKind.ofBytes (image.extract 0 32774) = .ofBytes image) ∧
    (∀ (path : String) (image : Array UInt8), path ≠ "" → read path = .ok image → image ≠ #[] →
      ∃ request, ofMedia read (some path) none ramMb = .ok request ∧
        ofMedia read (some path) (some image) ramMb = .ok request) ∧
    ∀ (path : Option String) (image : Option (Array UInt8)),
      ofMedia read path image ramMb = .error .empty ↔
        (path = none ∨ path = some "") ∧ (image = none ∨ image = some #[]) := by
  refine ⟨fun _ _ => ImageKind.ofBytes_congr, ImageKind.ofBytes_head, ?_,
    fun path image => ofMedia_eq_empty_iff read path image ramMb⟩
  intro path image hpath hread himage
  exact ⟨_, ofMedia_path hpath hread ramMb, ofMedia_image read hpath himage ramMb⟩

/-- The law at work on a volume that ends with its signature, as a file and as bytes.  Behind that
there may be anything: none of it is sniffed. -/
theorem same_request_of_file_of_short_volume :
    let image : Array UInt8 := Array.replicate 1024 0 ++ #[66, 68]
    let longer : Array UInt8 := image ++ #[67, 68]
    let tree : FileTree := .directory [("disk", .file image)]
    (∀ i, IsSniffed i → image[i]? = longer[i]?) ∧ "disk" ≠ "" ∧
      tree.read [] "disk" = .ok image ∧ image ≠ #[] ∧
      ImageKind.ofBytes image = .ofBytes longer ∧ ImageKind.ofBytes image = .hfs ∧
      ∃ request, ofMedia (tree.read []) (some "disk") none 0 = .ok request ∧
        ofMedia (tree.read []) (some "disk") (some image) 0 = .ok request := by
  intro image longer tree
  have hsize : image.size = 1026 := by simp [image]
  have hagree (i : Nat) (hi : IsSniffed i) : image[i]? = longer[i]? := by
    by_cases hinside : i < image.size
    · exact (Array.getElem?_append_left hinside).symm
    · have hbehind : longer.size ≤ i := by
        simp only [longer, Array.size_append, hsize]
        unfold IsSniffed at hi
        simp
        omega
      rw [Array.getElem?_eq_none (Nat.le_of_not_lt hinside), Array.getElem?_eq_none hbehind]
  have himage : image ≠ #[] := by
    intro hempty
    rw [hempty] at hsize
    cases hsize
  have hread : tree.read [] "disk" = .ok image := by
    have hnames : FileTree.components "disk" = ["disk"] := by decide
    simp [FileTree.read, hnames, tree, FileTree.follow, FileTree.stays]
  have hpath := FileTree.ne_empty_of_read hread
  obtain ⟨hkinds, -, hrequests, -⟩ := same_request_of_file (tree.read []) 0
  exact ⟨hagree, hpath, hread, himage, hkinds image longer hagree, by decide +kernel,
    hrequests "disk" image hpath hread himage⟩

end MachineRequest

end Framestep
