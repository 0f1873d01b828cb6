import MDesk.Core.MachineInt
import MDesk.Clipboard.Frame
import MDesk.Clipboard.LocalFile

/-!
# Reading the contents of clipboard files

A paste reads a remote file in ranges. `read_node` of the FUSE server splits the offset
into two words and stores them and the length in signed 32-bit fields; the owner of the
file puts them together again in `read_file_contents` and serves the range. The owner
widens the fields with their sign, so a low word or a length from `2 ^ 31` on comes out
as another number.
-/

namespace MDesk.Clipboard

open Core

/-- `FuseNode`, as far as a read looks at it. -/
structure FuseNode where
  streamId : Int
  index : Int
  deriving DecidableEq, Repr

/-- The request that `read_node` sends for a range. -/
def FuseNode.rangeRequest (node : FuseNode) (offset : Int) (size : UInt32) : ClipboardFile :=
  let cbRequested := wrapI32 size.toNat
  let nPositionHigh := wrapI32 (offset / 2 ^ 32)
  let nPositionLow := wrapI32 (offset % 2 ^ 32)
  .fileContentsRequest node.streamId (wrapI32 node.index) 2 nPositionLow nPositionHigh
    cbRequested false 0

inductive FileContentsRequest where
  | size (streamId : Int) (fileIdx : Nat)
  | range (streamId : Int) (fileIdx offset length : Nat)
  deriving DecidableEq, Repr

/-- The first half of `read_file_contents`: what is asked for. -/
def decodeRequest (streamId listIndex dwFlags nPositionLow nPositionHigh cbRequested : Int) :
    Except CliprdrError FileContentsRequest :=
  if dwFlags = 0x1 then .ok (.size streamId (asUsize listIndex))
  else if dwFlags = 0x2 then
    let offset := (asUsize nPositionHigh <<< 32) % 2 ^ 64 ||| asUsize nPositionLow
    let length := asUsize cbRequested
    .ok (.range streamId (asUsize listIndex) offset length)
  else .error (.invalidRequest s!"got invalid FileContentsRequest, dw_flats: {dwFlags}")

/-- What the owner of the files sends back. -/
inductive Served where
  | files (files : List (String × Nat))
  | fileContentsResponse (msgFlags streamId : Int) (requestedData : Bytes)
  deriving DecidableEq, Repr

/-- `ClipFiles`. -/
structure ClipFiles where
  fileList : List LocalFile
  firstFileIndex : Nat
  deriving DecidableEq, Repr

namespace ClipFiles

/-- `get_files_for_audit`: a paste is audited when its first file is read from the start. -/
def getFilesForAudit (clip : ClipFiles) (disk : Disk) : FileContentsRequest → Option Served
  | .size _ _ => none
  | .range _ fileIdx offset _ =>
    if fileIdx = clip.firstFileIndex ∧ offset = 0 then
      let files := (clip.fileList.filter fun f => (disk f.path).isSome).map fun f =>
        (LocalFile.pathString f.path, f.size.toNat)
      if files.isEmpty then none else some (.files files)
    else none

/-- Load the handle of the first file in a list that is not a directory. -/
def loadNext (disk : Disk) : List LocalFile → Except CliprdrError (List LocalFile)
  | [] => .ok []
  | f :: files =>
    if f.isDir then (loadNext disk files).map (f :: ·)
    else (f.loadHandle disk).map (· :: files)

/-- The end of `serve_file_contents`: hot reload the next file. -/
def reloadNext (clip : ClipFiles) (disk : Disk) (fileIdx : Nat) : Except CliprdrError ClipFiles :=
  (loadNext disk (clip.fileList.drop (fileIdx + 1))).map fun next =>
    { clip with fileList := clip.fileList.take (fileIdx + 1) ++ next }

/-- The bytes of a range that the file has. An addition that overflows wraps. -/
def readSize (f : LocalFile) (offset length : Nat) : Nat :=
  if (offset + length) % 2 ^ 64 > f.size.toNat then f.size.toNat - offset else length

/-- `serve_file_contents`. -/
def serveFileContents (clip : ClipFiles) (disk : Disk) (connId : Int) :
    FileContentsRequest → Except CliprdrError (Served × ClipFiles)
  | .size streamId fileIdx =>
    match clip.fileList[fileIdx]? with
    | none => .error (.invalidRequest
        s!"invalid file index {fileIdx} requested from conn: {connId}")
    | some file => (clip.reloadNext disk fileIdx).map fun clip =>
        (.fileContentsResponse 0x1 streamId (leBytes 8 file.size.toNat), clip)
  | .range streamId fileIdx offset length =>
    match clip.fileList[fileIdx]? with
    | none => .error (.invalidRequest
        s!"invalid file index {fileIdx} requested from conn: {connId}")
    | some file =>
      if offset > file.size.toNat then .error (.invalidRequest
        s!"invalid reading offset requested from conn: {connId}")
      -- a buffer past `isize::MAX` cannot be allocated
      else if readSize file offset length ≥ 2 ^ 63 then .error .aborted
      else do
        let (data, file) ← file.readExactAt disk (readSize file offset length) offset
        let clip := { clip with fileList := clip.fileList.set fileIdx file }
        let clip ← clip.reloadNext disk fileIdx
        .ok (.fileContentsResponse 0x1 streamId data, clip)

/-- `read_file_contents`: the answers to a request that arrived as this message. -/
def readFileContents (clip : ClipFiles) (disk : Disk) (connId : Int)
    (streamId listIndex dwFlags nPositionLow nPositionHigh cbRequested : Int) :
    List (Except CliprdrError Served) :=
  match decodeRequest streamId listIndex dwFlags nPositionLow nPositionHigh cbRequested with
  | .error e => [.error e]
  | .ok request =>
    ((clip.getFilesForAudit disk request).toList.map .ok) ++
      [(clip.serveFileContents disk connId request).map Prod.fst]

end ClipFiles

/-- What the owner makes of a message that asks for contents. -/
def ClipboardFile.decodeContents : ClipboardFile → Option FileContentsRequest
  | .fileContentsRequest streamId listIndex dwFlags low high cb _ _ =>
    (decodeRequest streamId listIndex dwFlags low high cb).toOption
  | _ => none

variable {node : FuseNode} {offset : Nat} {size : UInt32}

theorem asUsize_wrapI32 {n : Nat} (h : n < 2 ^ 32) :
    asUsize (wrapI32 n) = if n < 2 ^ 31 then n else n + (2 ^ 64 - 2 ^ 32) := by
  unfold asUsize wrapI32
  split <;> omega

/-- Two words that do not overlap. -/
theorem join_words {high low : Nat} (hhigh : high < 2 ^ 32) (hlow : low < 2 ^ 32) :
    (high <<< 32) % 2 ^ 64 ||| low = high * 2 ^ 32 + low := by
  have hfit : high <<< 32 < 2 ^ 64 := by
    rw [Nat.shiftLeft_eq]
    omega
  rw [Nat.mod_eq_of_lt hfit, ← Nat.shiftLeft_add_eq_or_of_lt hlow, Nat.shiftLeft_eq]

/-- The offset is put together as it was exactly when its low word has no sign. -/
theorem join_offset (h : offset < 2 ^ 63) :
    (asUsize (wrapI32 (offset / 2 ^ 32 : Nat)) <<< 32) % 2 ^ 64 |||
      asUsize (wrapI32 (offset % 2 ^ 32 : Nat)) = offset ↔ offset % 2 ^ 32 < 2 ^ 31 := by
  rw [asUsize_wrapI32 (by omega), asUsize_wrapI32 (Nat.mod_lt _ (by omega)), if_pos (by omega)]
  constructor
  · intro hjoin
    by_contra hsign
    rw [if_neg hsign] at hjoin
    have hle := Nat.right_le_or (n := (offset / 2 ^ 32) <<< 32 % 2 ^ 64)
      (m := offset % 2 ^ 32 + (2 ^ 64 - 2 ^ 32))
    omega
  · intro hsign
    rw [if_pos hsign, join_words (by omega) (by omega)]
    omega

/-- What the owner reads in the request for a range. -/
theorem decodeContents_rangeRequest (node : FuseNode) (offset : Nat) (size : UInt32) :
    (node.rangeRequest offset size).decodeContents =
      some (.range node.streamId (asUsize (wrapI32 node.index))
        ((asUsize (wrapI32 (offset / 2 ^ 32 : Nat)) <<< 32) % 2 ^ 64 |||
          asUsize (wrapI32 (offset % 2 ^ 32 : Nat))) (asUsize (wrapI32 size.toNat))) := by
  have hhigh : ((offset / 2 ^ 32 : Nat) : Int) = (offset : Int) / 2 ^ 32 := by omega
  have hlow : ((offset % 2 ^ 32 : Nat) : Int) = (offset : Int) % 2 ^ 32 := by omega
  rw [hhigh, hlow]
  rfl

/-- The length is read as it was exactly when it has no sign. -/
theorem length_iff (size : UInt32) :
    asUsize (wrapI32 size.toNat) = size.toNat ↔ size.toNat < 2 ^ 31 := by
  rw [asUsize_wrapI32 size.toNat_lt]
  split_ifs <;> omega

/-- The owner of a file reads the range that was asked for exactly when neither the low
word of the offset nor the length has its highest bit set. -/
theorem range_decoded_iff (node : FuseNode) (offset : Nat) (size : UInt32)
    (h : offset < 2 ^ 63) :
    (node.rangeRequest offset size).decodeContents =
        some (.range node.streamId (asUsize (wrapI32 node.index)) offset size.toNat) ↔
      offset % 2 ^ 32 < 2 ^ 31 ∧ size.toNat < 2 ^ 31 := by
  rw [decodeContents_rangeRequest, Option.some.injEq, FileContentsRequest.range.injEq,
    join_offset h, length_iff]
  simp

/-- A block behind five gigabytes is read as it was asked for. -/
theorem range_decoded_past_five_gigabytes :
    (FuseNode.rangeRequest ⟨7, 3⟩ (5368709120 : Nat) 4096).decodeContents =
      some (.range 7 3 5368709120 4096) :=
  (range_decoded_iff ⟨7, 3⟩ 5368709120 4096 (by decide)).mpr (by decide)

/-- A block behind two gigabytes is not. -/
theorem range_lost_past_two_gigabytes :
    ¬ ∀ (node : FuseNode) (offset : Nat) (size : UInt32), offset < 2 ^ 63 →
      (node.rangeRequest offset size).decodeContents =
        some (.range node.streamId (asUsize (wrapI32 node.index)) offset size.toNat) := by
  intro hall
  exact absurd (hall ⟨7, 3⟩ (2 ^ 31) 4096 (by decide)) (by decide)

/-- Files that can be opened load. -/
theorem loadNext_total {disk : Disk} {files : List LocalFile}
    (h : ∀ f ∈ files, f.isDir = false → (disk f.path).isSome) :
    ∃ next, ClipFiles.loadNext disk files = .ok next := by
  induction files with
  | nil => exact ⟨[], rfl⟩
  | cons f files ih =>
    unfold ClipFiles.loadNext
    split
    · obtain ⟨next, hnext⟩ := ih fun f hf => h f (List.mem_cons_of_mem _ hf)
      exact ⟨f :: next, by rw [hnext]; rfl⟩
    · rename_i hdir
      obtain ⟨content, hcontent⟩ :=
        Option.isSome_iff_exists.mp (h f List.mem_cons_self (Bool.eq_false_iff.mpr hdir))
      unfold LocalFile.loadHandle
      rw [hcontent]
      split <;> exact ⟨_, rfl⟩

/-- The next file reloads, whatever became of the one that was read. -/
theorem reloadNext_total {clip : ClipFiles} {disk : Disk}
    (h : ∀ f ∈ clip.fileList, f.isDir = false → (disk f.path).isSome) (idx : Nat)
    (file : LocalFile) : ∃ clip',
      ClipFiles.reloadNext { clip with fileList := clip.fileList.set idx file } disk idx =
        .ok clip' := by
  have hdrop : (clip.fileList.set idx file).drop (idx + 1) = clip.fileList.drop (idx + 1) :=
    List.drop_set_of_lt (by omega)
  obtain ⟨next, hnext⟩ : ∃ next, ClipFiles.loadNext disk (clip.fileList.drop (idx + 1)) =
      .ok next := loadNext_total fun f hf => h f (List.mem_of_mem_drop hf)
  simp only [ClipFiles.reloadNext, hdrop, hnext, Except.map]
  exact ⟨_, rfl⟩

/-- A range that the owner reads as it was asked for is answered with the bytes of the file. -/
theorem range_served {clip : ClipFiles} {disk : Disk} {file : LocalFile} {content : Bytes}
    {streamId : Int} {idx offset length : Nat} (connId : Int)
    (hfile : clip.fileList[idx]? = some file) (hdir : file.isDir = false)
    (hdisk : disk file.path = some content) (hsynced : file.Synced content)
    (hsize : file.size.toNat = content.length) (hbound : content.length < 2 ^ 63)
    (hlength : length < 2 ^ 63) (hoffset : offset ≤ content.length)
    (hopen : ∀ f ∈ clip.fileList, f.isDir = false → (disk f.path).isSome) :
    ∃ clip', clip.serveFileContents disk connId (.range streamId idx offset length) =
      .ok (.fileContentsResponse 1 streamId ((content.drop offset).take length), clip') := by
  have hread : ClipFiles.readSize file offset length = min length (content.length - offset) := by
    unfold ClipFiles.readSize
    rw [Nat.mod_eq_of_lt (by omega), hsize]
    split <;> omega
  obtain ⟨file', hslice, -⟩ := LocalFile.readExactAt_slice (min length (content.length - offset))
    offset hdir hdisk hsynced (by omega)
  have hbytes : (content.drop offset).take (min length (content.length - offset)) =
      (content.drop offset).take length := by
    rw [← List.length_drop, ← List.take_eq_take_min]
  obtain ⟨clip', hreload⟩ := reloadNext_total hopen idx file'
  refine ⟨clip', ?_⟩
  simp only [ClipFiles.serveFileContents, hfile]
  rw [if_neg (by omega), hread, if_neg (by omega), hslice, hbytes]
  simp only [bind, Except.bind, hreload]

end MDesk.Clipboard
