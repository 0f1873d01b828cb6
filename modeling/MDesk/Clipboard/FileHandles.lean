import MDesk.Clipboard.FuseTree
import MDesk.Core.Run
import MDesk.Core.SortedSearch

/-!
# The handles of the mounted clipboard

Every file and directory of the mounted tree has a table of the handles it is open by. The handles
come from one counter of the server, so that a new one goes to the end of its table and the table
stays sorted, which the search for a handle rests on.
-/

namespace MDesk.Clipboard.FuseTree

open Core

inductive Errno where
  | ENOENT
  | ENFILE
  | ENOTDIR
  | EBUSY
  | EBADF
deriving DecidableEq

structure FileHandles where
  handlers : List Nat := []
  gc : Bool := false
deriving DecidableEq

namespace FileHandles

def marked (h : FileHandles) : Bool := h.gc

/-- Nobody adds a handle to a table that is marked. -/
def addHandler (h : FileHandles) (fh : Nat) : FileHandles :=
  { h with handlers := h.handlers ++ [fh] }

def haveHandler (h : FileHandles) (handler : Nat) : Bool := (binarySearch h.handlers handler).isSome

/-- The table without a handle, if it has it. -/
def unregister (h : FileHandles) (handler : Nat) : Option FileHandles :=
  (binarySearch h.handlers handler).map fun idx => { h with handlers := h.handlers.eraseIdx idx }

end FileHandles

/-- A node of the tree, as far as its handles go. -/
structure HandleNode where
  kind : FileType
  fileHandlers : FileHandles
deriving DecidableEq

structure FuseServer where
  files : List HandleNode
  fileHandleCounter : Nat := 0
deriving DecidableEq

namespace FuseServer

def entry (s : FuseServer) (ino : Nat) : Option HandleNode :=
  if ino = 0 then none else s.files[ino - 1]?

def setHandles (s : FuseServer) (ino : Nat) (handles : FileHandles) : FuseServer :=
  { s with files := s.files.modify (ino - 1) fun node => { node with fileHandlers := handles } }

/-- The counter wraps behind the last number of 64 bits. -/
def allocFd (s : FuseServer) : Nat × FuseServer :=
  (s.fileHandleCounter, { s with fileHandleCounter := (s.fileHandleCounter + 1) % 2 ^ 64 })

/-- A node of a kind is opened. -/
def openEntry (s : FuseServer) (kind : FileType) (other : Errno) (ino : Nat) :
    Except Errno Nat × FuseServer :=
  match s.entry ino with
  | none => (.error .ENOENT, s)
  | some node =>
    if node.kind ≠ kind then (.error other, s)
    else if node.fileHandlers.marked then (.error .EBUSY, s)
    else
      let (fh, s) := s.allocFd
      (.ok fh, s.setHandles ino (node.fileHandlers.addHandler fh))

def openFile (s : FuseServer) (ino : Nat) : Except Errno Nat × FuseServer :=
  s.openEntry .file .ENFILE ino

def opendir (s : FuseServer) (ino : Nat) : Except Errno Nat × FuseServer :=
  s.openEntry .directory .ENOTDIR ino

def release (s : FuseServer) (ino fh : Nat) : Except Errno Unit × FuseServer :=
  match s.entry ino with
  | none => (.error .ENOENT, s)
  | some node =>
    match node.fileHandlers.unregister fh with
    | none => (.error .EBADF, s)
    | some handles => (.ok (), s.setHandles ino handles)

def releasedir (s : FuseServer) (ino fh : Nat) : Except Errno Unit × FuseServer :=
  match s.entry ino with
  | none => (.error .ENOENT, s)
  | some node => if node.kind ≠ .directory then (.error .ENOTDIR, s) else s.release ino fh

end FuseServer

inductive HandleRequest where
  | openFile (ino : Nat)
  | opendir (ino : Nat)
  | release (ino fh : Nat)
  | releasedir (ino fh : Nat)

/-- The server, all handles it has given out, and the ones that are open at a node. -/
structure HandleRun where
  server : FuseServer
  returned : List Nat := []
  opened : List (Nat × Nat) := []

namespace HandleRun

def opens (s : HandleRun) (ino : Nat) : Except Errno Nat × FuseServer → HandleRun
  | (.ok fh, server) =>
    { server, returned := fh :: s.returned, opened := (ino, fh) :: s.opened }
  | (.error _, server) => { s with server }

def releases (s : HandleRun) (ino fh : Nat) : Except Errno Unit × FuseServer → HandleRun
  | (.ok _, server) => { s with server, opened := s.opened.filter (· ≠ (ino, fh)) }
  | (.error _, server) => { s with server }

def take (s : HandleRun) : HandleRequest → HandleRun
  | .openFile ino => s.opens ino (s.server.openFile ino)
  | .opendir ino => s.opens ino (s.server.opendir ino)
  | .release ino fh => s.releases ino fh (s.server.release ino fh)
  | .releasedir ino fh => s.releases ino fh (s.server.releasedir ino fh)

end HandleRun

variable {server : FuseServer} {node node' : HandleNode} {handles : FileHandles} {ino ino' fh : Nat}

theorem FuseServer.entry_setHandles (h : server.entry ino = some node) :
    (server.setHandles ino handles).entry ino' =
      if ino' = ino then some { node with fileHandlers := handles } else server.entry ino' := by
  unfold entry at *
  split_ifs at h with hzero
  split_ifs with hzero' hsame hsame
  · omega
  · rfl
  · rw [hsame, setHandles, List.getElem?_modify, h]
    simp
  · rw [setHandles, List.getElem?_modify]
    have hne : ¬ino - 1 = ino' - 1 := by omega
    simp [hne]

/-- The nodes are the entries. -/
theorem FuseServer.mem_files_iff : node ∈ server.files ↔ ∃ ino, server.entry ino = some node := by
  rw [List.mem_iff_getElem?]
  constructor
  · rintro ⟨i, hi⟩
    exact ⟨i + 1, hi⟩
  · rintro ⟨ino, hino⟩
    unfold entry at hino
    split_ifs at hino
    exact ⟨ino - 1, hino⟩

/-- A search that finds a handle finds it where it is. -/
theorem FileHandles.unregister_eq_some_iff (hsorted : handles.handlers.Pairwise (· < ·))
    {handles' : FileHandles} : handles.unregister fh = some handles' ↔
      fh ∈ handles.handlers ∧
        handles' = { handles with handlers := handles.handlers.erase fh } := by
  rw [unregister, Option.map_eq_some_iff, ← binarySearch_isSome_iff hsorted,
    Option.isSome_iff_exists]
  constructor
  · rintro ⟨idx, hidx, rfl⟩
    exact ⟨⟨idx, hidx⟩, by rw [eraseIdx_of_binarySearch hsorted hidx]⟩
  · rintro ⟨⟨idx, hidx⟩, rfl⟩
    exact ⟨idx, hidx, by rw [eraseIdx_of_binarySearch hsorted hidx]⟩

/-- The tables are sorted and hold the handles that are open. -/
def FuseServer.Tables (server : FuseServer) (opened : List (Nat × Nat)) : Prop :=
  ∀ ino node, server.entry ino = some node → node.fileHandlers.handlers.Pairwise (· < ·) ∧
    ∀ fh, fh ∈ node.fileHandlers.handlers ↔ (ino, fh) ∈ opened

/-- A table is changed together with what is open at its node. -/
theorem FuseServer.Tables.setHandles {opened opened' : List (Nat × Nat)}
    (h : server.Tables opened) (hentry : server.entry ino = some node)
    (hsorted : handles.handlers.Pairwise (· < ·))
    (hhere : ∀ fh, fh ∈ handles.handlers ↔ (ino, fh) ∈ opened')
    (hother : ∀ ino' fh, ino' ≠ ino → ((ino', fh) ∈ opened' ↔ (ino', fh) ∈ opened)) :
    (server.setHandles ino handles).Tables opened' := by
  intro ino' node' hentry'
  rw [entry_setHandles hentry] at hentry'
  split_ifs at hentry' with hsame
  · obtain rfl := Option.some.inj hentry'
    rw [hsame]
    exact ⟨hsorted, hhere⟩
  · obtain ⟨hsorted', hopened⟩ := h ino' node' hentry'
    exact ⟨hsorted', fun fh => by rw [hopened, hother ino' fh hsame]⟩

namespace HandleRun

/-- What holds of a server with fewer handles than there are numbers. -/
structure Inv (s : HandleRun) : Prop where
  counter : s.server.fileHandleCounter = s.returned.length % 2 ^ 64
  below : ∀ fh ∈ s.returned, fh < s.returned.length
  nodup : s.returned.Nodup
  tables : s.server.Tables s.opened
  returned : ∀ p ∈ s.opened, p.2 ∈ s.returned

variable {s : HandleRun}

/-- A table that gets a handle above all others stays sorted. -/
theorem Inv.openEntry (h : s.Inv) (hlen : s.returned.length < 2 ^ 64) (kind : FileType)
    (other : Errno) (ino : Nat) : (s.opens ino (s.server.openEntry kind other ino)).Inv := by
  unfold FuseServer.openEntry
  cases hentry : s.server.entry ino with
  | none => exact h
  | some node =>
    dsimp only
    split_ifs
    · exact h
    · exact h
    · have hcounter : s.server.fileHandleCounter = s.returned.length := by
        rw [h.counter, Nat.mod_eq_of_lt hlen]
      obtain ⟨hsorted, hopened⟩ := h.tables ino node hentry
      have hbelow : ∀ fh ∈ node.fileHandlers.handlers, fh < s.returned.length := fun fh hfh =>
        h.below fh (h.returned _ ((hopened fh).mp hfh))
      simp only [opens, FuseServer.allocFd, hcounter]
      constructor
      · rfl
      · intro fh hfh
        rw [List.length_cons]
        rcases List.mem_cons.mp hfh with rfl | hfh
        · exact Nat.lt_succ_self _
        · exact Nat.lt_succ_of_lt (h.below fh hfh)
      · exact List.nodup_cons.mpr ⟨fun hmem => Nat.lt_irrefl _ (h.below _ hmem), h.nodup⟩
      · have htables : FuseServer.Tables { s.server with
            fileHandleCounter := (s.returned.length + 1) % 2 ^ 64 } s.opened := h.tables
        apply htables.setHandles hentry
        · rw [FileHandles.addHandler, List.pairwise_append]
          refine ⟨hsorted, List.pairwise_singleton _ _, fun fh hfh fh' hfh' => ?_⟩
          rw [List.mem_singleton.mp hfh']
          exact hbelow fh hfh
        · intro fh
          simp [FileHandles.addHandler, hopened, or_comm]
        · intro ino' fh hne
          simp [hne]
      · intro p hp
        rcases List.mem_cons.mp hp with rfl | hp
        · exact List.mem_cons_self
        · exact List.mem_cons_of_mem _ (h.returned p hp)

/-- A table that loses a handle stays sorted. -/
theorem Inv.release (h : s.Inv) (ino fh : Nat) :
    (s.releases ino fh (s.server.release ino fh)).Inv := by
  unfold FuseServer.release
  cases hentry : s.server.entry ino with
  | none => exact h
  | some node =>
    dsimp only
    obtain ⟨hsorted, hopened⟩ := h.tables ino node hentry
    cases hhandles : node.fileHandlers.unregister fh with
    | none => exact h
    | some handles =>
      obtain ⟨-, rfl⟩ := (FileHandles.unregister_eq_some_iff hsorted).mp hhandles
      refine ⟨h.counter, h.below, h.nodup, ?_, fun p hp => h.returned p (List.mem_filter.mp hp).1⟩
      apply h.tables.setHandles hentry
      · exact hsorted.sublist List.erase_sublist
      · intro fh'
        have hnodup : node.fileHandlers.handlers.Nodup := hsorted.imp fun hlt => hlt.ne
        simp [releases, hnodup.mem_erase_iff, hopened, and_comm]
      · intro ino' fh' hne
        simp [releases, hne]

theorem Inv.take (h : s.Inv) (hlen : s.returned.length < 2 ^ 64) (request : HandleRequest) :
    (s.take request).Inv := by
  cases request with
  | openFile ino => exact h.openEntry hlen .file .ENFILE ino
  | opendir ino => exact h.openEntry hlen .directory .ENOTDIR ino
  | release ino fh => exact h.release ino fh
  | releasedir ino fh =>
    have hrelease := h.release ino fh
    change (s.releases ino fh (s.server.releasedir ino fh)).Inv
    unfold FuseServer.releasedir
    cases hentry : s.server.entry ino with
    | none => exact h
    | some node =>
      dsimp only
      split_ifs
      · exact h
      · exact hrelease

/-- Handles are only given out. -/
theorem returned_length_le (s : HandleRun) (request : HandleRequest) :
    s.returned.length ≤ (s.take request).returned.length := by
  have hopens (ino : Nat) (reply : Except Errno Nat × FuseServer) :
      s.returned.length ≤ (s.opens ino reply).returned.length := by
    rcases reply with ⟨_ | fh, server⟩
    · exact Nat.le_refl _
    · exact Nat.le_succ _
  have hreleases (ino fh : Nat) (reply : Except Errno Unit × FuseServer) :
      s.returned.length ≤ (s.releases ino fh reply).returned.length := by
    rcases reply with ⟨_ | _, server⟩
    · exact Nat.le_refl _
    · exact Nat.le_refl _
  cases request with
  | openFile ino => exact hopens ino _
  | opendir ino => exact hopens ino _
  | release ino fh => exact hreleases ino fh _
  | releasedir ino fh => exact hreleases ino fh _

/-- A server on a tree of which nothing is open. -/
def start (files : List (FileType × Bool)) : HandleRun where
  server.files := files.map fun (kind, gc) => ⟨kind, { gc }⟩

theorem inv_start (files : List (FileType × Bool)) : (start files).Inv := by
  refine ⟨rfl, nofun, List.nodup_nil, fun ino node hentry => ?_, nofun⟩
  obtain ⟨p, -, rfl⟩ := List.mem_map.mp (FuseServer.mem_files_iff.mpr ⟨ino, hentry⟩)
  exact ⟨List.Pairwise.nil, by simp [start]⟩

theorem inv_run (files : List (FileType × Bool)) (requests : List HandleRequest)
    (h : (run take (start files) requests).returned.length < 2 ^ 64) :
    (run take (start files) requests).Inv := by
  induction requests using List.reverseRecOn with
  | nil => exact inv_start files
  | append_singleton requests request ih =>
    rw [run_append, run_cons, run_nil] at h ⊢
    have hlen := Nat.lt_of_le_of_lt (returned_length_le _ request) h
    exact (ih hlen).take hlen request

/-- A handle that is open can be released. -/
theorem Inv.release_ok (h : s.Inv) {node : HandleNode} (hentry : s.server.entry ino = some node)
    (hfh : (ino, fh) ∈ s.opened) : (s.server.release ino fh).1 = .ok () := by
  obtain ⟨hsorted, hopened⟩ := h.tables ino node hentry
  have hhandles := (FileHandles.unregister_eq_some_iff hsorted).mpr ⟨(hopened fh).mpr hfh, rfl⟩
  simp only [FuseServer.release, hentry, hhandles]

/-- Along every run of requests that gives out fewer handles than there are numbers, no handle is
given out twice, every table stays sorted, and a node has exactly the handles that have been opened
at it and not released. -/
theorem haveHandler_iff (files : List (FileType × Bool)) (requests : List HandleRequest)
    (h : (run take (start files) requests).returned.length < 2 ^ 64) :
    (run take (start files) requests).returned.Nodup ∧
      ∀ ino node, (run take (start files) requests).server.entry ino = some node →
        node.fileHandlers.handlers.Pairwise (· < ·) ∧
        (∀ fh, node.fileHandlers.haveHandler fh = true ↔
          (ino, fh) ∈ (run take (start files) requests).opened) ∧
        ∀ fh, (ino, fh) ∈ (run take (start files) requests).opened →
          ((run take (start files) requests).server.release ino fh).1 = .ok () := by
  have hinv := inv_run files requests h
  refine ⟨hinv.nodup, fun ino node hentry => ?_⟩
  obtain ⟨hsorted, hopened⟩ := hinv.tables ino node hentry
  refine ⟨hsorted, fun fh => ?_, fun fh => hinv.release_ok hentry⟩
  rw [FileHandles.haveHandler, binarySearch_isSome_iff hsorted, hopened]

/-- A file is opened twice. -/
theorem twice_haveHandler :
    (run take (start [(.directory, false), (.file, false)])
      [.openFile 2, .openFile 2]).returned.Nodup :=
  (haveHandler_iff [(.directory, false), (.file, false)] [.openFile 2, .openFile 2] (by decide)).1

end HandleRun

end MDesk.Clipboard.FuseTree
