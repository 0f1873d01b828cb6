import MDesk.Core.Endian
import MDesk.Core.Utf16
import MDesk.Transfer.Path

/-!
# Local files on the clipboard

`LocalFile` of the Unix clipboard: a file or directory offered for pasting, with the
attributes that travel in its descriptor and a handle that is opened on the first read.
The file system is what opening a path gives: the contents of a regular file.
-/

namespace MDesk.Clipboard

open Core

/-- `CliprdrError`, as far as serving files raises it. The fault of an allocation or a
subtraction that ends the process is `aborted`. -/
inductive CliprdrError where
  | fileError (path : PathBuf)
  | invalidRequest (description : String)
  | conversionFailure
  | aborted
  deriving DecidableEq, Repr

/-- The contents of the regular files by path. -/
abbrev Disk := PathBuf → Option Bytes

/-- An open `BufReader<File>`: what it reads and where it stands. -/
structure Handle where
  content : Bytes
  pos : Nat := 0
  deriving DecidableEq, Repr

/-- A path starts with an empty component when it is absolute. -/
structure LocalFile where
  relativeRoot : PathBuf
  path : PathBuf
  handle : Option Handle := none
  offset : Nat := 0
  name : String
  size : UInt64
  /-- Nanoseconds since the Unix epoch. -/
  lastWriteTime : Int
  isDir : Bool
  perm : UInt32
  readOnly : Bool := false
  hidden : Bool := false
  system : Bool := false
  archive : Bool := false
  normal : Bool := false
  deriving DecidableEq, Repr

namespace LocalFile

/-- `Path::to_string_lossy` of a path in Unicode. -/
def pathString (p : PathBuf) : String := if p = [""] then "/" else joinSlash p

/-- The path under the root that the files were copied from. -/
def relativeName (f : LocalFile) : String :=
  pathString ((f.relativeRoot.isPrefixOf? f.path).getD f.path)

/-- `load_handle`. -/
def loadHandle (disk : Disk) (f : LocalFile) : Except CliprdrError LocalFile :=
  if !f.isDir && f.handle.isNone then
    match disk f.path with
    | none => .error (.fileError f.path)
    | some content => .ok { f with handle := some { content } }
  else .ok f

/-- `read_exact_at` into a buffer of `len` bytes. -/
def readExactAt (disk : Disk) (f : LocalFile) (len offset : Nat) :
    Except CliprdrError (Bytes × LocalFile) := do
  let f ← f.loadHandle disk
  match f.handle with
  | none => .error (.fileError f.path)
  | some handle =>
    let pos := if offset ≠ f.offset then offset else handle.pos
    if handle.content.length < pos + len then .error (.fileError f.path)
    else
      let newOffset := offset + len
      let data := (handle.content.drop pos).take len
      -- the handle is dropped with the last byte
      if newOffset ≥ f.size.toNat then .ok (data, { f with offset := 0, handle := none })
      else
        .ok (data, { f with offset := newOffset, handle := some { handle with pos := pos + len } })

/-- The handle reads the contents of the file and stands at the recorded offset. -/
def Synced (f : LocalFile) (content : Bytes) : Prop :=
  match f.handle with
  | none => f.offset = 0
  | some handle => handle.content = content ∧ handle.pos = f.offset

variable {disk : Disk} {f : LocalFile} {content : Bytes}

/-- A handle loads at the start of the file, or stays where it stands. -/
theorem loadHandle_synced (hdir : f.isDir = false) (hdisk : disk f.path = some content)
    (h : f.Synced content) : ∃ handle, f.loadHandle disk = .ok { f with handle := some handle } ∧
      handle.content = content ∧ handle.pos = f.offset := by
  unfold loadHandle
  unfold Synced at h
  cases hhandle : f.handle with
  | none =>
    rw [hhandle] at h
    refine ⟨{ content }, ?_, rfl, h.symm⟩
    simp [hdir, hdisk]
  | some handle =>
    rw [hhandle] at h
    refine ⟨handle, ?_, h⟩
    rw [if_neg (by simp), ← hhandle]

/-- A read inside the file returns the bytes asked for and leaves the handle in step. -/
theorem readExactAt_slice (len offset : Nat) (hdir : f.isDir = false)
    (hdisk : disk f.path = some content) (h : f.Synced content)
    (hlen : offset + len ≤ content.length) :
    ∃ f', f.readExactAt disk len offset = .ok ((content.drop offset).take len, f') ∧
      f'.Synced content ∧ f'.path = f.path ∧ f'.isDir = f.isDir ∧ f'.size = f.size := by
  obtain ⟨⟨_, pos⟩, hload, rfl, rfl⟩ := loadHandle_synced hdir hdisk h
  have hpos : (if offset ≠ f.offset then offset else f.offset) = offset := by
    split_ifs with hne
    · rfl
    · exact (not_not.mp hne).symm
  simp only [readExactAt, hload, bind, Except.bind]
  rw [hpos, if_neg (by simpa using hlen)]
  split
  · exact ⟨_, rfl, rfl, rfl, rfl, rfl⟩
  · exact ⟨_, rfl, ⟨rfl, rfl⟩, rfl, rfl, rfl⟩

end LocalFile

end MDesk.Clipboard
