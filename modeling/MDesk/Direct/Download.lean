import MDesk.Cm.DeviceRemote
import MDesk.Direct.Soundness

/-!
# Unattended downloads

A push that the controller receives into its Downloads folder without being asked: the name it
reserves there, the job it makes, and what is left of the reservation when the job ends. Names
that the file system takes for one are one name here.
-/

namespace MDesk

open MDesk.Core

/-- `direct_file_transfer_receive_request::Destination`. -/
inductive DirectDestination where
  | unspecified
  | downloads
  deriving DecidableEq, Repr

/-- `DirectFileTransferReceiveRequest`; `destination` is `none` for an unknown number. -/
structure DirectFileTransferReceiveRequest where
  id : Int
  destination : Option DirectDestination := some .unspecified
  rootName : String
  isDirectory : Bool
  files : List FileEntry
  emptyDirs : List String
  totalSize : Nat
  deriving DecidableEq, Repr

/-- `DirectDownloadJob`. -/
structure DirectDownloadJob where
  destination : PathBuf
  isDirectory : Bool
  totalSize : Nat
  deriving DecidableEq, Repr

/-- `Path::file_stem` and `Path::extension` of a name that is no dot name. -/
def splitExtension (name : String) : String × Option String :=
  let reversed := name.toList.reverse
  match reversed.dropWhile (· ≠ '.') with
  | [] => (name, none)
  | _ :: stem =>
    if stem.isEmpty then (name, none)
    else (String.ofList stem.reverse,
      some (String.ofList (reversed.takeWhile (· ≠ '.')).reverse))

/-- `add_collision_suffix`. -/
def addCollisionSuffix (rootName : String) (suffix : Nat) (isDirectory : Bool) : String :=
  if suffix = 0 then rootName
  else if isDirectory then rootName ++ " (" ++ toString suffix ++ ")"
  else
    match splitExtension rootName with
    | (stem, some extension) => stem ++ " (" ++ toString suffix ++ ")." ++ extension
    | (_, none) => rootName ++ " (" ++ toString suffix ++ ")"

/-- The names tried for a root. -/
def directCandidate (folder : PathBuf) (rootName : String) (isDirectory : Bool) (suffix : Nat) :
    PathBuf :=
  folder ++ [addCollisionSuffix rootName suffix isDirectory]

/-- A directory root is made, a file root is held by its staging file. `none` stands for a name
that is in use. -/
def reserveCandidate (fs : Fs) (isDirectory : Bool) (candidate : PathBuf) :
    Except Core.FsError (Option Fs) :=
  if isDirectory then
    match fs.createDir candidate with
    | .ok fs => .ok (some fs)
    | .error .alreadyExists => .ok none
    | .error e => .error e
  else if fs.pathExists candidate then .ok none
  else
    match fs.createNew (downloadPath candidate) with
    | .ok fs => .ok (some fs)
    | .error .alreadyExists => .ok none
    | .error e => .error e

/-- The loop of `reserve_direct_download_destination`, with the suffixes that are left. -/
def reserveFrom (folder : PathBuf) (rootName : String) (isDirectory : Bool) (fs : Fs) :
    Nat → Nat → Except String PathBuf × Fs
  | 0, _ => (.error "unable to reserve a unique Downloads destination", fs)
  | left + 1, suffix =>
    match reserveCandidate fs isDirectory (directCandidate folder rootName isDirectory suffix) with
    | .ok (some fs) => (.ok (directCandidate folder rootName isDirectory suffix), fs)
    | .ok none => reserveFrom folder rootName isDirectory fs left (suffix + 1)
    | .error e => (.error e.message, fs)

/-- The suffixes tried. -/
def directSuffixes : Nat := 10000

/-- `reserve_direct_download_destination`. -/
def reserveDirectDownloadDestination (H : Host) (fs : Fs) (rootName : String)
    (isDirectory : Bool) : Except String PathBuf × Fs :=
  match validateDirectPathComponent rootName with
  | .error e => (.error e, fs)
  | .ok () =>
    match H.getDownloadDirStrict fs with
    | (.error e, fs) => (.error e, fs)
    | (.ok folder, fs) => reserveFrom folder rootName isDirectory fs directSuffixes 0

/-- The walk over the components of one empty directory. -/
def createDirectComponents (target : PathBuf) (fs : Fs) : List String → Except String Unit × Fs
  | [] => (.ok (), fs)
  | component :: components =>
    match fs.symlinkMetadata (target ++ [component]) with
    | .ok .dir => createDirectComponents (target ++ [component]) fs components
    | .ok (.file _) => (.error "unsafe direct transfer directory component", fs)
    | .error .notFound =>
      match fs.createDir (target ++ [component]) with
      | .ok fs => createDirectComponents (target ++ [component]) fs components
      | .error e => (.error e.message, fs)
    | .error e => (.error e.message, fs)

/-- `create_direct_empty_directories`. -/
def createDirectEmptyDirectories (base : PathBuf) (fs : Fs) : List String → Except String Unit × Fs
  | [] => (.ok (), fs)
  | dir :: dirs =>
    match directRelativeComponents dir with
    | .error e => (.error e, fs)
    | .ok components =>
      match createDirectComponents base fs components with
      | (.ok (), fs) => createDirectEmptyDirectories base fs dirs
      | (.error e, fs) => (.error e, fs)

/-- `remove_all_empty_dir`, to a depth. -/
def removeAllEmptyDir : Nat → Fs → PathBuf → Fs
  | 0, fs, _ => fs
  | depth + 1, fs, path =>
    match fs.readDir path with
    | .error _ => fs
    | .ok names =>
      let folders := names.filter fun name => fs.isDir (path ++ [name])
      let fs := folders.foldl (fun fs name => removeAllEmptyDir depth fs (path ++ [name])) fs
      (fs.removeDir path).toOption.getD fs

/-- No path of the file system is longer. -/
def longestPath (fs : Fs) : Nat := (fs.entries.map fun e => e.1.length).foldr max 0

/-- `release_direct_download_reservation`. -/
def releaseDirectDownloadReservation (fs : Fs) (destination : PathBuf) (isDirectory : Bool) : Fs :=
  if isDirectory then removeAllEmptyDir (longestPath fs + 1) fs destination
  else
    let fs := (fs.removeFile (downloadPath destination)).toOption.getD fs
    (fs.removeFile (digestPath destination)).toOption.getD fs

/-- The part of `handle_direct_download_request` behind the limits of the session: the job and
its entry in the table, or the error the request is rejected with. -/
def acceptDirectDownload (H : Host) (fs : Fs) (request : DirectFileTransferReceiveRequest) :
    Except String (TransferJob × DirectDownloadJob) × Fs :=
  match validateDirectTransferLayout H.platform request.rootName request.isDirectory request.files
      request.emptyDirs request.totalSize with
  | .error e => (.error e, fs)
  | .ok () =>
    match reserveDirectDownloadDestination H fs request.rootName request.isDirectory with
    | (.error e, fs) => (.error e, fs)
    | (.ok destination, fs) =>
      match if request.isDirectory then
          createDirectEmptyDirectories destination fs request.emptyDirs
        else (.ok (), fs) with
      | (.error e, fs) => (.error e, releaseDirectDownloadReservation fs destination true)
      | (.ok (), fs) =>
        match TransferJob.newDirectWrite H.platform request.id request.rootName destination fs
            request.files with
        | .error e =>
          (.error e, releaseDirectDownloadReservation fs destination request.isDirectory)
        | .ok job =>
          (.ok (job, {
            destination
            isDirectory := request.isDirectory
            totalSize := request.totalSize }), fs)

/-- How a download ends, apart from a block that is refused: with the `Done` of the peer, while
receiving is still permitted or not, with an `Error`, a `Cancel` or a `Digest` of the peer, with
the cancellation of the user, with a block after the permission is gone, or with the session. -/
inductive DirectEnding where
  | done (permitted : Bool)
  | error
  | cancelledBySender
  | digest
  | cancelledByUser
  | revoked
  | disconnected
  deriving DecidableEq, Repr

namespace TransferJob

variable (P : Platform)

/-- What every ending but an orderly one does. -/
def abandonDirect (job : TransferJob) (entry : DirectDownloadJob) (fs : Fs) : Fs :=
  releaseDirectDownloadReservation (job.removeDownloadFile P fs) entry.destination
    entry.isDirectory

/-- What the `Done` of the peer does to a download: the error it ends with. -/
def finishDirect (job : TransferJob) (entry : DirectDownloadJob) (fs : Fs) (permitted : Bool) :
    Option String × Fs :=
  let o :=
    if permitted then job.finalizeDirectWrite P fs
    else .fail "direct file receive permission was revoked" job (job.removeDownloadFile P fs)
  let err :=
    match o.result with
    | .error e => some e
    | .ok () => o.job.jobError
  (err, if err.isSome then
      releaseDirectDownloadReservation o.fs entry.destination entry.isDirectory
    else o.fs)

/-- The files behind an ending. -/
def endDirect (job : TransferJob) (entry : DirectDownloadJob) (fs : Fs) : DirectEnding → Fs
  | .done permitted => (job.finishDirect P entry fs permitted).2
  | _ => job.abandonDirect P entry fs

/-- The files when a download is over: blocks come in, those with its id are written, until one
is refused or the download ends. -/
def receiveDirect (entry : DirectDownloadJob) (ending : DirectEnding) :
    TransferJob → Fs → List FileTransferBlock → Fs
  | job, fs, [] => job.endDirect P entry fs ending
  | job, fs, block :: blocks =>
    if block.id = job.id then
      let o := job.write P fs block
      match o.result with
      | .ok () => receiveDirect entry ending o.job o.fs blocks
      | .error _ => o.job.abandonDirect P entry o.fs
    else receiveDirect entry ending job fs blocks

end TransferJob

open Core.FileSystem

section Reserve

variable {H : Host} {fs fs' : Fs} {folder destination q : PathBuf} {rootName : String}
  {isDirectory : Bool} {c : Bytes} {base : PathBuf}

/-- A name is in use for a root. -/
def Taken (fs : Fs) (isDirectory : Bool) (candidate : PathBuf) : Prop :=
  fs.lookup candidate ≠ none ∨
    isDirectory = false ∧ fs.lookup (downloadPath candidate) ≠ none

/-- The suffix of the first name that is not in use. -/
def FirstFree (fs : Fs) (folder : PathBuf) (rootName : String) (isDirectory : Bool)
    (suffix : Nat) : Prop :=
  ¬ Taken fs isDirectory (directCandidate folder rootName isDirectory suffix) ∧
    ∀ m < suffix, Taken fs isDirectory (directCandidate folder rootName isDirectory m)

/-- What reserving a candidate did. -/
structure Reserved (fs : Fs) (isDirectory : Bool) (destination : PathBuf) (fs' : Fs) : Prop where
  free : fs.lookup destination = none
  staging : isDirectory = false → fs.lookup (downloadPath destination) = none
  made : fs' = if isDirectory then fs.insert destination .dir
    else fs.insert (downloadPath destination) (.file [])

theorem reserveCandidate_some
    (h : reserveCandidate fs isDirectory destination = .ok (some fs')) :
    Reserved fs isDirectory destination fs' := by
  unfold reserveCandidate at h
  cases isDirectory with
  | true =>
    rw [if_pos rfl] at h
    split at h
    · rename_i hmake
      cases h
      obtain ⟨hfree, rfl⟩ := eq_of_createDir hmake
      exact ⟨hfree, nofun, rfl⟩
    · cases h
    · cases h
  | false =>
    rw [if_neg Bool.false_ne_true] at h
    by_cases hexists : fs.pathExists destination
    · rw [if_pos hexists] at h
      cases h
    rw [if_neg hexists] at h
    split at h
    · rename_i hmake
      cases h
      obtain ⟨hfree, rfl⟩ := eq_of_createNew hmake
      refine ⟨?_, fun _ => hfree, rfl⟩
      rwa [pathExists, Bool.not_eq_true, Option.isSome_eq_false_iff,
        Option.isNone_iff_eq_none] at hexists
    · cases h
    · cases h

/-- A name is passed over only if it is in use. -/
theorem taken_of_reserveCandidate (h : reserveCandidate fs isDirectory destination = .ok none) :
    Taken fs isDirectory destination := by
  unfold reserveCandidate at h
  cases isDirectory with
  | true =>
    rw [if_pos rfl] at h
    split at h
    · cases h
    · rename_i hmake
      exact .inl (exists_of_createDir hmake)
    · cases h
  | false =>
    rw [if_neg Bool.false_ne_true] at h
    split_ifs at h with hexists
    · exact .inl (Option.isSome_iff_ne_none.mp hexists)
    · split at h
      · cases h
      · rename_i hmake
        exact .inr ⟨rfl, exists_of_createNew hmake⟩
      · cases h

theorem Reserved.not_taken (h : Reserved fs isDirectory destination fs') :
    ¬ Taken fs isDirectory destination := by
  rintro (hsome | ⟨hfile, hsome⟩)
  · exact hsome h.free
  · exact hsome (h.staging hfile)

/-- The loop reserves the first free name. -/
theorem reserveFrom_ok {left suffix : Nat}
    (hpast : ∀ m < suffix, Taken fs isDirectory (directCandidate folder rootName isDirectory m))
    (h : reserveFrom folder rootName isDirectory fs left suffix = (.ok destination, fs')) :
    ∃ n, destination = directCandidate folder rootName isDirectory n ∧
      FirstFree fs folder rootName isDirectory n ∧ Reserved fs isDirectory destination fs' := by
  induction left generalizing suffix with
  | zero => cases h
  | succ left ih =>
    unfold reserveFrom at h
    split at h
    · rename_i hres
      cases h
      have hreserved := reserveCandidate_some hres
      exact ⟨suffix, rfl, ⟨hreserved.not_taken, hpast⟩, hreserved⟩
    · rename_i hres
      refine ih (fun m hm => ?_) h
      rcases Nat.lt_succ_iff_lt_or_eq.mp hm with hlt | rfl
      · exact hpast m hlt
      · exact taken_of_reserveCandidate hres
    · cases h

/-- The Downloads folder stands in directories, and making it leaves the files. -/
theorem getDownloadDirStrict_ok (hfs : fs.Rooted)
    (h : H.getDownloadDirStrict fs = (.ok folder, fs')) :
    H.downloadDir = some folder ∧ (∀ q, q <+: folder → fs'.lookup q = some .dir) ∧
      (∀ q, ¬ q <+: folder → fs'.lookup q = fs.lookup q) ∧
      ∀ q c, fs.lookup q = some (.file c) → fs'.lookup q = some (.file c) := by
  unfold Host.getDownloadDirStrict at h
  split at h
  · cases h
  · rename_i path hpath
    by_cases hempty : path.isEmpty
    · rw [if_pos hempty] at h
      cases h
    rw [if_neg hempty] at h
    by_cases hexists : fs.pathExists path
    · rw [if_pos hexists] at h
      dsimp only at h
      split_ifs at h with hdir
      swap
      · cases h
      cases h
      have hfolder := isDir_iff.mp hdir
      refine ⟨hpath, fun q hq => ?_, fun q _ => rfl, fun q c hq => hq⟩
      by_cases hne : q = folder
      · rw [hne, hfolder]
      · exact hfs.above (by rw [hfolder]; rintro ⟨⟩) hq hne
    · rw [if_neg hexists] at h
      split at h
      · cases h
      · rename_i hmake
        split_ifs at h
        swap
        · cases h
        cases h
        refine ⟨hpath, fun q hq => ?_, fun q hq => lookup_createDirAll_of_not_prefix hmake hq,
          fun q c hq => lookup_createDirAll_file hmake hq⟩
        unfold createDirAll at hmake
        split_ifs at hmake
        cases hmake
        rw [lookup_foldl_insert, if_pos (by rwa [List.mem_inits])]

theorem lookup_createDirectComponents (base : PathBuf) (components : List String)
    (hq : fs.lookup q = some (.file c)) :
    (createDirectComponents base fs components).2.lookup q = some (.file c) := by
  induction components generalizing base fs with
  | nil => exact hq
  | cons component components ih =>
    unfold createDirectComponents
    split
    · exact ih _ hq
    · exact hq
    · split
      · rename_i hmake
        obtain ⟨hfree, rfl⟩ := eq_of_createDir hmake
        exact ih _ (lookup_insert_free hfree hq)
      · exact hq
    · exact hq

/-- The empty directories of a manifest leave the files. -/
theorem lookup_createDirectEmptyDirectories (base : PathBuf) (dirs : List String)
    (hq : fs.lookup q = some (.file c)) :
    (createDirectEmptyDirectories base fs dirs).2.lookup q = some (.file c) := by
  induction dirs generalizing fs with
  | nil => exact hq
  | cons dir dirs ih =>
    unfold createDirectEmptyDirectories
    split
    · exact hq
    · rename_i components _
      have hmade := lookup_createDirectComponents base components hq
      split
      · rename_i fs₁ hcreate
        rw [hcreate] at hmade
        exact ih hmade
      · rename_i hcreate
        rw [hcreate] at hmade
        exact hmade

theorem lookup_removeAllEmptyDir {depth : Nat} (hq : fs.lookup q = some (.file c)) :
    (removeAllEmptyDir depth fs base).lookup q = some (.file c) := by
  induction depth generalizing fs base with
  | zero => exact hq
  | succ depth ih =>
    unfold removeAllEmptyDir
    split
    · exact hq
    · have hfold : ∀ (folders : List String) (fs : Fs), fs.lookup q = some (.file c) →
          (folders.foldl (fun fs name => removeAllEmptyDir depth fs (base ++ [name])) fs).lookup q =
            some (.file c) := by
        intro folders
        induction folders with
        | nil => exact fun _ hq => hq
        | cons folder folders ihf => exact fun fs hq => ihf _ (ih hq)
      exact lookup_removeDir_file (hfold _ fs hq)

end Reserve

section Accepted

variable {H : Host} {fs fs' : Fs} {folder q : PathBuf} {n : Nat}
  {request : DirectFileTransferReceiveRequest} {job : TransferJob} {entry : DirectDownloadJob}
  {c : Bytes}

/-- A candidate is not above the folder it is in. -/
theorem not_prefix_folder {p : PathBuf} (hne : p ≠ []) (hp : p.dropLast = folder) :
    ¬ p <+: folder := by
  rw [← hp]
  exact not_prefix_dropLast hne rfl

theorem directCandidate_dropLast (folder : PathBuf) (rootName : String) (isDirectory : Bool)
    (n : Nat) : (directCandidate folder rootName isDirectory n).dropLast = folder :=
  List.dropLast_concat

theorem directCandidate_ne_nil (folder : PathBuf) (rootName : String) (isDirectory : Bool)
    (n : Nat) : directCandidate folder rootName isDirectory n ≠ [] := by
  simp [directCandidate]

/-- A request that was accepted: the name reserved for it is the first free one, and everything
that stood there before still does. -/
structure AcceptedDirect (H : Host) (fs : Fs) (request : DirectFileTransferReceiveRequest)
    (folder : PathBuf) (n : Nat) (job : TransferJob) (entry : DirectDownloadJob) (fs' : Fs) :
    Prop where
  downloads : H.downloadDir = some folder
  manifest : validateDirectTransferLayout H.platform request.rootName request.isDirectory
    request.files request.emptyDirs request.totalSize = .ok ()
  reserved : entry = {
    destination := directCandidate folder request.rootName request.isDirectory n
    isDirectory := request.isDirectory
    totalSize := request.totalSize }
  created : ∃ fs₁, TransferJob.newDirectWrite H.platform request.id request.rootName
    entry.destination fs₁ request.files = .ok job
  first : FirstFree fs folder request.rootName request.isDirectory n
  above : ∀ q, q <+: folder → ∀ c, fs.lookup q ≠ some (.file c)
  files : ∀ q c, fs.lookup q = some (.file c) → fs'.lookup q = some (.file c)

/-- The names that are in use do not depend on whether the folder has been made. -/
theorem taken_congr {fs₁ : Fs} {isDirectory : Bool}
    (h : ∀ q, ¬ q <+: folder → fs₁.lookup q = fs.lookup q) (rootName : String) (n : Nat) :
    Taken fs₁ isDirectory (directCandidate folder rootName isDirectory n) ↔
      Taken fs isDirectory (directCandidate folder rootName isDirectory n) := by
  have hdrop := directCandidate_dropLast folder rootName isDirectory n
  have hself := h _ (not_prefix_folder (directCandidate_ne_nil _ _ _ _) hdrop)
  have hstage := h _ (not_prefix_folder (withSuffix_ne_nil ".download" _)
    ((withSuffix_dropLast _ _).trans hdrop))
  unfold Taken
  rw [hself, downloadPath, hstage]

theorem firstFree_congr {fs₁ : Fs} {isDirectory : Bool} {rootName : String}
    (h : ∀ q, ¬ q <+: folder → fs₁.lookup q = fs.lookup q) :
    FirstFree fs₁ folder rootName isDirectory n ↔ FirstFree fs folder rootName isDirectory n :=
  and_congr (not_congr (taken_congr h rootName n))
    (forall₂_congr fun m _ => taken_congr h rootName m)

/-- Nothing that stood there is lost to a reservation. -/
theorem Reserved.files {destination : PathBuf} {isDirectory : Bool}
    (h : Reserved fs isDirectory destination fs') (hq : fs.lookup q = some (.file c)) :
    fs'.lookup q = some (.file c) := by
  rw [h.made]
  cases hd : isDirectory with
  | true => exact lookup_insert_free h.free hq
  | false => exact lookup_insert_free (h.staging hd) hq

theorem acceptedDirect_of_accept (hfs : fs.Rooted)
    (h : acceptDirectDownload H fs request = (.ok (job, entry), fs')) :
    ∃ folder n, AcceptedDirect H fs request folder n job entry fs' := by
  unfold acceptDirectDownload at h
  split at h
  · cases h
  rename_i hmanifest
  split at h
  · cases h
  rename_i destination fs₂ hreserve
  unfold reserveDirectDownloadDestination at hreserve
  split at hreserve
  · cases hreserve
  split at hreserve
  · cases hreserve
  rename_i folder fs₁ hfolder
  obtain ⟨hdownloads, hdirs, hother, hkept⟩ := getDownloadDirStrict_ok hfs hfolder
  obtain ⟨n, rfl, hfirst, hreserved⟩ := reserveFrom_ok (fun m hm => absurd hm (Nat.not_lt_zero m))
    hreserve
  have habove : ∀ q, q <+: folder → ∀ c, fs.lookup q ≠ some (.file c) := by
    intro q hq c hc
    have hfile := hkept q c hc
    rw [hdirs q hq] at hfile
    cases hfile
  split at h
  · cases h
  rename_i fs₃ hempty
  split at h
  · cases h
  rename_i hjob
  cases h
  refine ⟨folder, n, hdownloads, hmanifest, rfl, ⟨_, hjob⟩, (firstFree_congr hother).mp hfirst,
    habove, fun q c hq => ?_⟩
  have hstands := hreserved.files (hkept q c hq)
  split_ifs at hempty
  · have hmade := lookup_createDirectEmptyDirectories
      (directCandidate folder request.rootName request.isDirectory n) request.emptyDirs hstands
    rwa [hempty] at hmade
  · cases hempty
    exact hstands

namespace AcceptedDirect

theorem free (h : AcceptedDirect H fs request folder n job entry fs') :
    fs.lookup entry.destination = none := by
  rw [h.reserved]
  by_contra hsome
  exact h.first.1 (.inl hsome)

theorem staging (h : AcceptedDirect H fs request folder n job entry fs')
    (hfile : request.isDirectory = false) :
    fs.lookup (downloadPath entry.destination) = none := by
  rw [h.reserved]
  by_contra hsome
  exact h.first.1 (.inr ⟨hfile, hsome⟩)

/-- The job a request is received with. -/
theorem job_eq (h : AcceptedDirect H fs request folder n job entry fs') :
    job = { TransferJob.newWrite request.id .generic request.rootName
        (.filePath entry.destination) 0 false true false with
      totalSize := (request.files.map (·.size)).sum % 2 ^ 64
      files := request.files
      neverOverwriteDestination := true
      strictDirectTransfer := true } := by
  obtain ⟨fs₁, hjob⟩ := h.created
  exact (TransferJob.newDirectWrite_eq hjob).2

end AcceptedDirect

end Accepted

/-- A host with a Downloads folder. -/
def downloadHost : Host where
  platform := { Platform.posix with windows := true }
  downloadDir := some ["Downloads"]
  home := []
  tempDir := []
  pathOf _ := []
  uuid _ := ""
  parseDigest _ := none

/-- A Downloads folder with one file in it. -/
def downloadsWith (name : String) : Fs :=
  ⟨[([], .dir), (["Downloads"], .dir), (["Downloads", name], .file [1])]⟩

theorem rooted_downloadsWith (name : String) : (downloadsWith name).Rooted := by
  intro p hne hp
  simp only [downloadsWith, lookup_cons] at hp
  split_ifs at hp with hroot hfolder hfile
  · exact absurd hroot.symm hne
  · rw [← hfolder]
    rfl
  · rw [← hfile]
    rfl
  · exact absurd rfl hp

/-- A push of one file of one byte. -/
def pushOf (name : String) : DirectFileTransferReceiveRequest where
  id := -1
  destination := some .downloads
  rootName := name
  isDirectory := false
  files := [fileNamed "" 1]
  emptyDirs := []
  totalSize := 1

end MDesk
