import MDesk.Transfer.Read

/-!
# Digests

What a receiver compares before a file is sent: the size and the modification time that
the sender announces, with what the receiver has of the file. A file that an earlier
transfer left half done is recognised by its digest file.
-/

namespace MDesk

open MDesk.Core

/-- A `FileTransferDigest` message. -/
structure FileTransferDigest where
  id : Int
  fileNum : Int
  lastModified : Nat
  fileSize : Nat
  isUpload : Bool := false
  isIdentical : Bool := false
  transferredSize : Nat := 0
  isResume : Bool := false
  deriving DecidableEq, Repr

inductive DigestCheckResult where
  | isSame
  | needConfirm (digest : FileTransferDigest)
  | noSuchFile
  deriving DecidableEq, Repr

/-- `modified` of a path: seconds and nanoseconds since the epoch, nothing for an earlier
or unknown time. -/
abbrev ModifiedAt := PathBuf → Option (Nat × Nat)

/-- The length `metadata` reports. -/
def metadataLen : Node UInt8 → Nat
  | .file contents => contents.length
  | .dir => 0

/-- The length of a staging file whose digest file records the announced digest, unless it
is empty. `parseDigest` reads the JSON of a digest file. -/
def resumableSize (parseDigest : Bytes → Option FileDigest) (fs : Fs) (path : PathBuf)
    (digest : FileTransferDigest) : Option Nat :=
  match fs.lookup (digestPath path), fs.lookup (downloadPath path) with
  | some (.file content), some download =>
    match parseDigest content with
    | none => none
    | some localDigest =>
      if localDigest.modified = digest.lastModified ∧ localDigest.size = digest.fileSize ∧
          0 < metadataLen download then
        some (metadataLen download)
      else none
  | _, _ => none

/-- `is_write_need_confirmation`. -/
def isWriteNeedConfirmation (parseDigest : Bytes → Option FileDigest) (fs : Fs)
    (modified : ModifiedAt) (isResume : Bool) (path : PathBuf) (digest : FileTransferDigest) :
    Except String DigestCheckResult :=
  match if isResume then resumableSize parseDigest fs path digest else none with
  | some transferredSize =>
    .ok (.needConfirm {
      id := digest.id
      fileNum := digest.fileNum
      lastModified := digest.lastModified
      fileSize := digest.fileSize
      isIdentical := true
      transferredSize })
  | none =>
    match fs.lookup path with
    | some (.file contents) =>
      match modified path with
      | none => .error "second time provided was later than self"
      | some (seconds, nanos) =>
        .ok (.needConfirm {
          id := digest.id
          fileNum := digest.fileNum
          lastModified := seconds
          fileSize := contents.length
          isIdentical := (digest.lastModified, 0) = (seconds, nanos) ∧
            digest.fileSize = contents.length })
    | _ => .ok .noSuchFile

end MDesk
