import MDesk.Clipboard.FileContents
import MDesk.Core.Run

/-!
# Serving clipboard files over many requests

A file keeps its handle between reads and its own copy of the position of the handle, so that
reading on needs no seek. A read that fails leaves the file as it got it, and so does a request:
what later ones find depends on all that came before. After every answer the next file of the
list is opened in advance.
-/

namespace MDesk.Clipboard

open Core

namespace LocalFile

namespace Kept

/-- `read_exact_at`, with the file as it is left. A seek takes offsets of 63 bits. -/
def readExactAt (disk : Disk) (f : LocalFile) (len offset : Nat) :
    Except CliprdrError Bytes × LocalFile :=
  match f.loadHandle disk with
  | .error e => (.error e, f)
  | .ok f =>
    match f.handle with
    | none => (.error (.fileError f.path), f)
    | some handle =>
      if offset ≠ f.offset ∧ 2 ^ 63 ≤ offset then (.error (.fileError f.path), f)
      else
        let pos := if offset ≠ f.offset then offset else handle.pos
        if 0 < len ∧ handle.content.length < pos + len then
          -- what is left of the file has been consumed
          (.error (.fileError f.path),
            { f with handle := some { handle with pos := max pos handle.content.length } })
        else
          let newOffset := offset + len
          let data := (handle.content.drop pos).take len
          if newOffset ≥ f.size.toNat then (.ok data, { f with offset := 0, handle := none })
          else (.ok data, { f with
            offset := newOffset
            handle := some { handle with pos := pos + len } })

end Kept

/-- A call of `read_exact_at`, with what opening a file gives at that time. -/
structure ReadCall where
  disk : Disk
  len : Nat
  offset : Nat

namespace ReadCall

/-- The bytes that a call fills its buffer with, or its error. -/
def result (f : LocalFile) (call : ReadCall) : Except CliprdrError Bytes :=
  (Kept.readExactAt call.disk f call.len call.offset).1

def step (f : LocalFile) (call : ReadCall) : LocalFile :=
  (Kept.readExactAt call.disk f call.len call.offset).2

end ReadCall

/-- A file that does not change, though it may not open at times. -/
def Unchanging (disk : Disk) (path : PathBuf) (content : Bytes) : Prop :=
  disk path = none ∨ disk path = some content

/-- The copy of the position is right, or the handle has nothing left to read. -/
def Tracks (f : LocalFile) (content : Bytes) : Prop :=
  match f.handle with
  | none => f.offset = 0
  | some handle => handle.content = content ∧
    (handle.pos = f.offset ∨ content.length ≤ handle.pos)

variable {disk : Disk} {f : LocalFile} {content : Bytes} {len offset : Nat}

/-- Loading a handle keeps the file, or opens it at its start. -/
theorem loadHandle_ok {g : LocalFile} (hdisk : Unchanging disk f.path content)
    (hload : f.loadHandle disk = .ok g) :
    g = f ∨ (f.handle = none ∧ g = { f with handle := some { content } }) := by
  unfold loadHandle at hload
  split_ifs at hload with hopen
  · have hnone : f.handle = none := by
      rw [Bool.and_eq_true, Option.isNone_iff_eq_none] at hopen
      exact hopen.2
    rcases hdisk with hdisk | hdisk
    · rw [hdisk] at hload
      cases hload
    · rw [hdisk] at hload
      cases hload
      exact .inr ⟨hnone, rfl⟩
  · cases hload
    exact .inl rfl

theorem Tracks.loadHandle {g : LocalFile} (h : f.Tracks content)
    (hdisk : Unchanging disk f.path content) (hload : f.loadHandle disk = .ok g) :
    g.Tracks content ∧ g.path = f.path := by
  rcases loadHandle_ok hdisk hload with rfl | ⟨hnone, rfl⟩
  · exact ⟨h, rfl⟩
  · unfold Tracks at h ⊢
    rw [hnone] at h
    exact ⟨⟨rfl, .inl h.symm⟩, rfl⟩

/-- One read keeps the copy of the position right and returns the bytes at its offset. -/
theorem Tracks.readExactAt (h : f.Tracks content) (hdisk : Unchanging disk f.path content)
    (len offset : Nat) :
    (Kept.readExactAt disk f len offset).2.Tracks content ∧
      (Kept.readExactAt disk f len offset).2.path = f.path ∧
      ∀ data, (Kept.readExactAt disk f len offset).1 = .ok data →
        data = (content.drop offset).take len ∧ data.length = len := by
  unfold Kept.readExactAt
  cases hload : f.loadHandle disk with
  | error e => exact ⟨h, rfl, nofun⟩
  | ok g =>
    obtain ⟨hg, hpath⟩ := h.loadHandle hdisk hload
    dsimp only
    cases hhandle : g.handle with
    | none => exact ⟨hg, hpath, nofun⟩
    | some handle =>
      have hkept := hg
      unfold Tracks at hg
      rw [hhandle] at hg
      obtain ⟨rfl, hpos⟩ := hg
      dsimp only
      generalize hfrom : (if offset ≠ g.offset then offset else handle.pos) = pos
      -- without a seek the handle stands at the offset or has nothing left
      have hat : pos = offset ∨ (offset = g.offset ∧ handle.content.length ≤ pos) := by
        rw [← hfrom]
        split_ifs with hseek
        · exact .inl rfl
        · rw [not_not] at hseek
          rcases hpos with hpos | hpos
          · exact .inl (hpos.trans hseek.symm)
          · exact .inr ⟨hseek, hpos⟩
      have hdata (hend : ¬ (0 < len ∧ handle.content.length < pos + len)) :
          (handle.content.drop pos).take len = (handle.content.drop offset).take len ∧
            ((handle.content.drop pos).take len).length = len := by
        rcases Nat.eq_zero_or_pos len with rfl | hlen
        · exact ⟨rfl, rfl⟩
        · obtain rfl : pos = offset := hat.resolve_right fun hat => by omega
          refine ⟨rfl, ?_⟩
          rw [List.length_take, List.length_drop]
          omega
      split_ifs with hfar hend hlast
      · exact ⟨hkept, hpath, nofun⟩
      · exact ⟨⟨rfl, .inr (Nat.le_max_right _ _)⟩, hpath, nofun⟩
      · refine ⟨rfl, hpath, fun data hok => ?_⟩
        cases hok
        exact hdata hend
      · refine ⟨⟨rfl, ?_⟩, hpath, fun data hok => ?_⟩
        · rcases hat with rfl | ⟨-, hpast⟩
          · exact .inl rfl
          · exact .inr (Nat.le_add_right_of_le hpast)
        · cases hok
          exact hdata hend

/-- Behind any calls, those included that ran past the end, the copy of the position is right. -/
theorem Tracks.run {calls : List ReadCall} (h : f.Tracks content)
    (hdisk : ∀ call ∈ calls, Unchanging call.disk f.path content) :
    (Core.run ReadCall.step f calls).Tracks content ∧
      (Core.run ReadCall.step f calls).path = f.path := by
  induction calls generalizing f with
  | nil => exact ⟨h, rfl⟩
  | cons call calls ih =>
    obtain ⟨hnext, hpath, -⟩ :=
      h.readExactAt (hdisk call List.mem_cons_self) call.len call.offset
    obtain ⟨hlast, hsame⟩ := ih hnext fun later hlater => by
      change Unchanging later.disk (ReadCall.step f call).path content
      rw [show (ReadCall.step f call).path = f.path from hpath]
      exact hdisk later (List.mem_cons_of_mem _ hlater)
    exact ⟨hlast, hsame.trans hpath⟩

/-- In whatever order a file that does not change is read, with calls that fail among them, every
call that succeeds fills its buffer with the bytes of the file at its offset. -/
theorem readExactAt_right {calls : List ReadCall} (call : ReadCall) {data : Bytes}
    (hhandle : f.handle = none) (hstart : f.offset = 0)
    (hdisk : ∀ c ∈ calls ++ [call], Unchanging c.disk f.path content)
    (hok : call.result (Core.run ReadCall.step f calls) = .ok data) :
    data = (content.drop call.offset).take call.len ∧ data.length = call.len := by
  have hfresh : f.Tracks content := by
    unfold Tracks
    rw [hhandle]
    exact hstart
  obtain ⟨htracks, hpath⟩ := hfresh.run fun c hc => hdisk c (List.mem_append_left _ hc)
  refine (htracks.readExactAt ?_ call.len call.offset).2.2 data hok
  rw [hpath]
  exact hdisk call (by simp)

/-- A file of five bytes that has not been read. -/
def sampleUnread : LocalFile where
  relativeRoot := [""]
  path := ["", "a"]
  name := "a"
  size := 5
  lastWriteTime := 0
  isDir := false
  perm := 0o100644

/-- A read behind one that ran past the end. -/
theorem readExactAt_right_sample : ([2, 3] : Bytes) = (([1, 2, 3, 4, 5] : Bytes).drop 1).take 2 ∧
    ([2, 3] : Bytes).length = 2 :=
  @readExactAt_right sampleUnread [1, 2, 3, 4, 5] [⟨fun _ => some [1, 2, 3, 4, 5], 4, 3⟩]
    ⟨fun _ => some [1, 2, 3, 4, 5], 2, 1⟩ [2, 3] rfl rfl (by
      intro c hc
      rcases List.mem_append.mp hc with hc | hc
      all_goals
        obtain rfl := List.mem_singleton.mp hc
        exact .inr rfl) rfl

/-- The model of a single read, but for reads of nothing and offsets without a seek. -/
theorem readExactAt_eq (disk : Disk) (f : LocalFile) (hlen : 0 < len) (hoffset : offset < 2 ^ 63) :
    f.readExactAt disk len offset = (Kept.readExactAt disk f len offset).1.map fun data =>
      (data, (Kept.readExactAt disk f len offset).2) := by
  unfold LocalFile.readExactAt Kept.readExactAt
  cases f.loadHandle disk with
  | error e => rfl
  | ok g =>
    simp only [bind, Except.bind]
    cases g.handle with
    | none => rfl
    | some handle =>
      have hnear : ¬ (offset ≠ g.offset ∧ 2 ^ 63 ≤ offset) := fun hfar => by omega
      simp only [if_neg hnear, hlen, true_and]
      split_ifs <;> rfl

end LocalFile

namespace ClipFiles

namespace Kept

/-- Load the handle of the first file that is not a directory. -/
def loadNext (disk : Disk) : List LocalFile → Except CliprdrError Unit × List LocalFile
  | [] => (.ok (), [])
  | f :: files =>
    if f.isDir then ((loadNext disk files).1, f :: (loadNext disk files).2)
    else
      match f.loadHandle disk with
      | .error e => (.error e, f :: files)
      | .ok f => (.ok (), f :: files)

/-- The end of `serve_file_contents`: hot reload the next file, then answer. -/
def answer (clip : ClipFiles) (disk : Disk) (fileIdx : Nat) (resp : Served) :
    Except CliprdrError Served × ClipFiles :=
  let next := loadNext disk (clip.fileList.drop (fileIdx + 1))
  (next.1.map fun _ => resp,
    { clip with fileList := clip.fileList.take (fileIdx + 1) ++ next.2 })

/-- `serve_file_contents`, with the files as they are left. -/
def serveFileContents (clip : ClipFiles) (disk : Disk) (connId : Int) :
    FileContentsRequest → Except CliprdrError Served × ClipFiles
  | .size streamId fileIdx =>
    match clip.fileList[fileIdx]? with
    | none => (.error (.invalidRequest
        s!"invalid file index {fileIdx} requested from conn: {connId}"), clip)
    | some file =>
      answer clip disk fileIdx (.fileContentsResponse 0x1 streamId (leBytes 8 file.size.toNat))
  | .range streamId fileIdx offset length =>
    match clip.fileList[fileIdx]? with
    | none => (.error (.invalidRequest
        s!"invalid file index {fileIdx} requested from conn: {connId}"), clip)
    | some file =>
      if offset > file.size.toNat then (.error (.invalidRequest
        s!"invalid reading offset requested from conn: {connId}"), clip)
      -- a buffer past `isize::MAX` cannot be allocated
      else if readSize file offset length ≥ 2 ^ 63 then (.error .aborted, clip)
      else
        match LocalFile.Kept.readExactAt disk file (readSize file offset length) offset with
        | (.error e, file) => (.error e, { clip with fileList := clip.fileList.set fileIdx file })
        | (.ok data, file) =>
          answer { clip with fileList := clip.fileList.set fileIdx file } disk fileIdx
            (.fileContentsResponse 0x1 streamId data)

end Kept

/-- A request of a connection, with what opening a file gives at that time. -/
structure Request where
  disk : Disk
  connId : Int
  request : FileContentsRequest

namespace Request

def result (clip : ClipFiles) (r : Request) : Except CliprdrError Served :=
  (Kept.serveFileContents clip r.disk r.connId r.request).1

def step (clip : ClipFiles) (r : Request) : ClipFiles :=
  (Kept.serveFileContents clip r.disk r.connId r.request).2

end Request

/-- The first file that is not a directory has a handle or gets one. -/
def NextOpens (disk : Disk) (files : List LocalFile) : Prop :=
  ∀ f ∈ files.find? (fun f => !f.isDir), f.handle.isSome ∨ (disk f.path).isSome

instance (disk : Disk) (files : List LocalFile) : Decidable (NextOpens disk files) :=
  inferInstanceAs (Decidable (∀ _ ∈ _, _))

/-- The files hold a file of this content under an index, with its handle in step. -/
def Serves (clip : ClipFiles) (i : Nat) (path : PathBuf) (content : Bytes) : Prop :=
  ∃ f, clip.fileList[i]? = some f ∧ f.path = path ∧ f.isDir = false ∧
    f.size.toNat = content.length ∧ f.Synced content

variable {disk : Disk} {f : LocalFile} {content : Bytes} {clip : ClipFiles} {path : PathBuf}
  {files : List LocalFile} {i idx len offset : Nat}

theorem loadHandle_isOk (hdir : f.isDir = false) :
    (∃ g, f.loadHandle disk = .ok g) ↔ f.handle.isSome ∨ (disk f.path).isSome := by
  unfold LocalFile.loadHandle
  cases f.handle with
  | some handle => simp [hdir]
  | none =>
    cases hdisk : disk f.path with
    | none => simp [hdir]
    | some content => simp [hdir]

/-- Hot reloading fails for one reason only. -/
theorem loadNext_ok_iff (disk : Disk) (files : List LocalFile) :
    (Kept.loadNext disk files).1 = .ok () ↔ NextOpens disk files := by
  induction files with
  | nil => exact iff_of_true rfl nofun
  | cons f files ih =>
    unfold Kept.loadNext NextOpens
    cases hdir : f.isDir with
    | true => simpa [hdir, NextOpens] using ih
    | false =>
      have hopen : (∃ g, f.loadHandle disk = .ok g) ↔ _ := loadHandle_isOk hdir
      have hfirst : (∀ g ∈ (f :: files).find? (fun f => !f.isDir),
          g.handle.isSome ∨ (disk g.path).isSome) ↔ f.handle.isSome ∨ (disk f.path).isSome := by
        simp [hdir]
      rw [hfirst, ← hopen]
      cases hload : f.loadHandle disk with
      | error e => exact iff_of_false nofun nofun
      | ok g => exact iff_of_true rfl ⟨g, rfl⟩

/-- Hot reloading leaves every file where it is, with its handle loaded at most. -/
theorem loadNext_get (disk : Disk) (h : files[i]? = some f) :
    ∃ g, (Kept.loadNext disk files).2[i]? = some g ∧ (g = f ∨ f.loadHandle disk = .ok g) := by
  induction files generalizing i with
  | nil => cases h
  | cons first files ih =>
    unfold Kept.loadNext
    split_ifs with hdir
    · cases i with
      | zero => exact ⟨f, h, .inl rfl⟩
      | succ i => exact ih h
    · cases hload : first.loadHandle disk with
      | error e => exact ⟨f, h, .inl rfl⟩
      | ok g =>
        cases i with
        | zero =>
          obtain rfl := Option.some.inj h
          exact ⟨g, rfl, .inr hload⟩
        | succ i => exact ⟨f, h, .inl rfl⟩

/-- A file in step stays in step when its handle is loaded. -/
theorem synced_loadHandle {g : LocalFile} (h : f.Synced content)
    (hdisk : LocalFile.Unchanging disk f.path content) (hload : f.loadHandle disk = .ok g) :
    g.Synced content ∧ g.path = f.path ∧ g.isDir = f.isDir ∧ g.size = f.size := by
  rcases LocalFile.loadHandle_ok hdisk hload with rfl | ⟨hnone, rfl⟩
  · exact ⟨h, rfl, rfl, rfl⟩
  · unfold LocalFile.Synced at h ⊢
    rw [hnone] at h
    exact ⟨⟨rfl, h.symm⟩, rfl, rfl, rfl⟩

/-- Answering keeps the files served. -/
theorem Serves.answer (h : clip.Serves i path content)
    (hdisk : LocalFile.Unchanging disk path content) (fileIdx : Nat) (resp : Served) :
    (Kept.answer clip disk fileIdx resp).2.Serves i path content := by
  obtain ⟨f, hf, rfl, hdir, hsize, hsynced⟩ := h
  have hlt := (List.getElem?_eq_some_iff.mp hf).1
  unfold Kept.answer Serves
  dsimp only
  by_cases hi : i < fileIdx + 1
  · refine ⟨f, ?_, rfl, hdir, hsize, hsynced⟩
    rw [List.getElem?_append_left (by rw [List.length_take]; omega), List.getElem?_take_of_lt hi]
    exact hf
  · have htake : (clip.fileList.take (fileIdx + 1)).length = fileIdx + 1 := by
      rw [List.length_take]
      omega
    have hdrop : (clip.fileList.drop (fileIdx + 1))[i - (fileIdx + 1)]? = some f := by
      rw [List.getElem?_drop, Nat.add_sub_of_le (Nat.le_of_not_lt hi)]
      exact hf
    obtain ⟨g, hg, hsame⟩ := loadNext_get disk hdrop
    rw [List.getElem?_append_right (by omega), htake]
    refine ⟨g, hg, ?_⟩
    rcases hsame with rfl | hload
    · exact ⟨rfl, hdir, hsize, hsynced⟩
    · obtain ⟨hg', hpath, hdir', hsize'⟩ := synced_loadHandle hsynced hdisk hload
      exact ⟨hpath, hdir'.trans hdir, by rw [hsize', hsize], hg'⟩

/-- A read inside a file in step leaves it in step, and succeeds if the file opens. -/
theorem synced_readExactAt (h : f.Synced content)
    (hdisk : LocalFile.Unchanging disk f.path content) (hbound : content.length < 2 ^ 63)
    (hlen : offset + len ≤ content.length) :
    ((LocalFile.Kept.readExactAt disk f len offset).2.Synced content ∧
      (LocalFile.Kept.readExactAt disk f len offset).2.path = f.path ∧
      (LocalFile.Kept.readExactAt disk f len offset).2.isDir = f.isDir ∧
      (LocalFile.Kept.readExactAt disk f len offset).2.size = f.size) ∧
    (f.isDir = false → disk f.path = some content →
      (LocalFile.Kept.readExactAt disk f len offset).1 = .ok ((content.drop offset).take len)) := by
  unfold LocalFile.Kept.readExactAt
  cases hload : f.loadHandle disk with
  | error e =>
    refine ⟨⟨h, rfl, rfl, rfl⟩, fun hdir hopen => ?_⟩
    obtain ⟨_, hok, -⟩ := LocalFile.loadHandle_synced hdir hopen h
    rw [hload] at hok
    cases hok
  | ok g =>
    obtain ⟨hg, hpath, hdir', hsize⟩ := synced_loadHandle h hdisk hload
    dsimp only
    cases hhandle : g.handle with
    | none =>
      refine ⟨⟨hg, hpath, hdir', hsize⟩, fun hdir hopen => ?_⟩
      obtain ⟨_, hok, -⟩ := LocalFile.loadHandle_synced hdir hopen h
      rw [hload] at hok
      cases hok
      cases hhandle
    | some handle =>
      have hkept := hg
      unfold LocalFile.Synced at hg
      rw [hhandle] at hg
      obtain ⟨rfl, hpos⟩ := hg
      have hfrom : (if offset ≠ g.offset then offset else handle.pos) = offset := by
        split_ifs with hseek
        · rfl
        · rw [not_not] at hseek
          exact hpos.trans hseek.symm
      have hnear : ¬ (offset ≠ g.offset ∧ 2 ^ 63 ≤ offset) := fun hfar => by omega
      have hinside : ¬ (0 < len ∧ handle.content.length < offset + len) := fun hend => by omega
      simp only [hfrom, if_neg hnear, if_neg hinside]
      split_ifs
      · exact ⟨⟨rfl, hpath, hdir', hsize⟩, fun _ _ => rfl⟩
      · exact ⟨⟨⟨rfl, rfl⟩, hpath, hdir', hsize⟩, fun _ _ => rfl⟩

/-- What is read of a file lies in it, unless the buffer cannot be allocated. -/
theorem readSize_le (hsize : f.size.toNat = content.length) (hbound : content.length < 2 ^ 63)
    (hoffset : offset ≤ content.length) (hsmall : readSize f offset len < 2 ^ 63) :
    offset + readSize f offset len ≤ content.length := by
  unfold readSize at hsmall ⊢
  split_ifs at hsmall ⊢ <;> omega

theorem Serves.set (h : clip.Serves i path content) {file g : LocalFile}
    (hfile : clip.fileList[idx]? = some file)
    (hg : idx = i → g.path = path ∧ g.isDir = false ∧ g.size.toNat = content.length ∧
      g.Synced content) :
    Serves { clip with fileList := clip.fileList.set idx g } i path content := by
  unfold Serves
  by_cases hi : idx = i
  · subst hi
    have hlt := (List.getElem?_eq_some_iff.mp hfile).1
    exact ⟨g, List.getElem?_set_self hlt, hg rfl⟩
  · obtain ⟨f, hf, hrest⟩ := h
    refine ⟨f, ?_, hrest⟩
    dsimp only
    rw [List.getElem?_set_ne hi]
    exact hf

/-- Whatever is asked for, an unchanging file stays served. -/
theorem Serves.step (h : clip.Serves i path content) (hbound : content.length < 2 ^ 63)
    (r : Request) (hdisk : LocalFile.Unchanging r.disk path content) :
    (Request.step clip r).Serves i path content := by
  obtain ⟨disk, connId, request⟩ := r
  unfold Request.step Kept.serveFileContents
  cases request with
  | size streamId fileIdx =>
    dsimp only
    cases clip.fileList[fileIdx]? with
    | none => exact h
    | some file => exact h.answer hdisk _ _
  | range streamId fileIdx offset length =>
    dsimp only
    cases hfile : clip.fileList[fileIdx]? with
    | none => exact h
    | some file =>
      dsimp only
      split_ifs with hoffset hlarge
      · exact h
      · exact h
      · have hset (g : LocalFile) (hg : (LocalFile.Kept.readExactAt disk file
            (readSize file offset length) offset).2 = g) :
            Serves { clip with fileList := clip.fileList.set fileIdx g } i path content := by
          subst hg
          apply h.set hfile
          rintro rfl
          obtain ⟨f, hf, rfl, hdir, hsize, hsynced⟩ := h
          obtain rfl := Option.some.inj (hfile.symm.trans hf)
          have hlen := readSize_le hsize hbound (by omega) (Nat.lt_of_not_le hlarge)
          obtain ⟨⟨hkept, hpath, hdir', hsize'⟩, -⟩ :=
            synced_readExactAt hsynced hdisk hbound hlen
          exact ⟨hpath, hdir'.trans hdir, by rw [hsize', hsize], hkept⟩
        split
        · next e g hread => exact hset g (by rw [hread])
        · next data g hread => exact (hset g (by rw [hread])).answer hdisk _ _

theorem Serves.run {rs : List Request} (h : clip.Serves i path content)
    (hbound : content.length < 2 ^ 63)
    (hdisk : ∀ r ∈ rs, LocalFile.Unchanging r.disk path content) :
    (Core.run Request.step clip rs).Serves i path content := by
  induction rs generalizing clip with
  | nil => exact h
  | cons r rs ih =>
    exact ih (h.step hbound r (hdisk r List.mem_cons_self)) fun r' hr' =>
      hdisk r' (List.mem_cons_of_mem _ hr')

/-- A range of a file that opens is answered with its bytes exactly when the next file opens. -/
theorem Serves.range_iff (h : clip.Serves i path content) (hbound : content.length < 2 ^ 63)
    (hopen : disk path = some content) (connId streamId : Int) {length : Nat}
    (hoffset : offset ≤ content.length) (hlength : length < 2 ^ 63) :
    (Kept.serveFileContents clip disk connId (.range streamId i offset length)).1 =
        .ok (.fileContentsResponse 0x1 streamId ((content.drop offset).take length)) ↔
      NextOpens disk (clip.fileList.drop (i + 1)) := by
  obtain ⟨f, hf, rfl, hdir, hsize, hsynced⟩ := h
  have hread : readSize f offset length = min length (content.length - offset) := by
    unfold readSize
    rw [Nat.mod_eq_of_lt (by omega), hsize]
    split <;> omega
  have hbytes : (content.drop offset).take (min length (content.length - offset)) =
      (content.drop offset).take length := by
    rw [← List.length_drop, ← List.take_eq_take_min]
  have hok := (synced_readExactAt hsynced (.inr hopen) hbound
    (show offset + min length (content.length - offset) ≤ content.length by omega)).2 hdir hopen
  have hdrop (g : LocalFile) : (clip.fileList.set i g).drop (i + 1) = clip.fileList.drop (i + 1) :=
    List.drop_set_of_lt (by omega)
  have hnear : ¬ offset > f.size.toNat := by omega
  have hsmall : ¬ min length (content.length - offset) ≥ 2 ^ 63 := by omega
  rw [← loadNext_ok_iff]
  unfold Kept.serveFileContents
  simp only [hf, if_neg hnear, hread, if_neg hsmall]
  rw [hbytes] at hok
  split
  · next e g hfailed =>
    rw [hfailed] at hok
    cases hok
  · next data g hdone =>
    rw [hdone] at hok
    cases hok
    unfold Kept.answer
    simp only [hdrop]
    cases (Kept.loadNext disk (clip.fileList.drop (i + 1))).1 with
    | error e => exact iff_of_false nofun nofun
    | ok u => exact iff_of_true rfl rfl

/-- Whatever was asked for before, and whatever became of the other files meanwhile, a range of a
file that does not change is answered with its bytes exactly when the first file behind it that
is not a directory has a handle or can be opened. -/
theorem range_served_iff {file : LocalFile} {rs : List Request} (connId streamId : Int)
    {length : Nat} (hfile : clip.fileList[i]? = some file) (hdir : file.isDir = false)
    (hhandle : file.handle = none) (hstart : file.offset = 0)
    (hsize : file.size.toNat = content.length) (hbound : content.length < 2 ^ 63)
    (hdisk : ∀ r ∈ rs, LocalFile.Unchanging r.disk file.path content)
    (hopen : disk file.path = some content) (hoffset : offset ≤ content.length)
    (hlength : length < 2 ^ 63) :
    Request.result (Core.run Request.step clip rs)
        ⟨disk, connId, .range streamId i offset length⟩ =
        .ok (.fileContentsResponse 0x1 streamId ((content.drop offset).take length)) ↔
      NextOpens disk ((Core.run Request.step clip rs).fileList.drop (i + 1)) := by
  have hsynced : file.Synced content := by
    unfold LocalFile.Synced
    rw [hhandle]
    exact hstart
  have hserves : clip.Serves i file.path content := ⟨file, hfile, rfl, hdir, hsize, hsynced⟩
  exact (hserves.run hbound hdisk).range_iff hbound hopen connId streamId hoffset hlength

/-- Two files of five bytes, of which the second one is gone when the first one is read. -/
def sampleClip : ClipFiles where
  fileList :=
    [LocalFile.sampleUnread, { LocalFile.sampleUnread with path := ["", "b"], name := "b" }]
  firstFileIndex := 0

def sampleDisk : Disk := fun path =>
  if path = ["", "a"] then some [1, 2, 3, 4, 5] else none

theorem range_served_iff_sample :
    Request.result (Core.run Request.step sampleClip [⟨sampleDisk, 1, .size 7 1⟩])
        ⟨sampleDisk, 1, .range 7 0 1 3⟩ = .ok (.fileContentsResponse 0x1 7 [2, 3, 4]) ↔
      NextOpens sampleDisk
        ((Core.run Request.step sampleClip [⟨sampleDisk, 1, .size 7 1⟩]).fileList.drop 1) :=
  @range_served_iff sampleDisk [1, 2, 3, 4, 5] sampleClip 0 1 LocalFile.sampleUnread
    [⟨sampleDisk, 1, .size 7 1⟩] 1 7 3 rfl rfl rfl rfl rfl (by decide) (by
      intro r hr
      obtain rfl := List.mem_singleton.mp hr
      exact .inr rfl) rfl (by decide) (by decide)

/-- A file that is gone takes the one in front of it along. -/
theorem range_fails_by_next : ¬ ∀ (clip : ClipFiles) (i : Nat) (file : LocalFile) (content : Bytes)
    (disk : Disk) (connId streamId : Int) (offset length : Nat),
    clip.fileList[i]? = some file → file.isDir = false → file.handle = none → file.offset = 0 →
    file.size.toNat = content.length → disk file.path = some content →
    offset + length ≤ content.length →
    Request.result clip ⟨disk, connId, .range streamId i offset length⟩ =
      .ok (.fileContentsResponse 0x1 streamId ((content.drop offset).take length)) := by
  intro h
  have hok := h sampleClip 0 LocalFile.sampleUnread [1, 2, 3, 4, 5] sampleDisk 1 7 1 3 rfl rfl rfl
    rfl rfl rfl (by decide)
  cases hok

end ClipFiles

end MDesk.Clipboard
