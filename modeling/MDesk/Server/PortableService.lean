import Mathlib.Data.List.Basic

/-!
# The shared memory of the portable service and its one-time token

The main process draws a token for each launch of the portable service, writes it into a shared
memory it has just created and accepts one connection that sends it back. The memory, its name and
the token are three globals; each of the operations below holds all of their locks.
-/

namespace MDesk.PortableService

/-- `IPC_TOKEN_LEN`. -/
def ipcTokenLen : Nat := 64

/-- The bytes of a token. -/
abbrev IpcToken := List UInt8

/-- One digit of `{:02x}`. -/
def hexDigit (n : UInt8) : UInt8 := if n < 10 then 48 + n else 87 + n

/-- `generate_one_time_ipc_token`, from the bytes of the random generator. -/
def generateOneTimeIpcToken (random : Vector UInt8 32) : IpcToken :=
  random.toList.flatMap fun byte => [hexDigit (byte / 16), hexDigit (byte % 16)]

/-- `is_valid_portable_service_ipc_token`. -/
def isValidPortableServiceIpcToken (token : IpcToken) : Bool :=
  token.length = ipcTokenLen &&
    token.all fun byte => (48 ≤ byte && byte ≤ 57) || (97 ≤ byte && byte ≤ 102)

/-- `constant_time_ipc_token_eq`. -/
def constantTimeIpcTokenEq (expected candidate : IpcToken) : Bool :=
  if expected.length ≠ ipcTokenLen ∨ candidate.length ≠ ipcTokenLen then false
  else (expected.zip candidate).foldl (fun diff p => diff ||| (p.1 ^^^ p.2)) 0 = 0

/-- The differences of two lists of one length vanish exactly when there are none. -/
theorem foldl_xor_eq_zero {diff : UInt8} {xs ys : List UInt8} (hlen : xs.length = ys.length) :
    (xs.zip ys).foldl (fun diff p => diff ||| (p.1 ^^^ p.2)) diff = 0 ↔ diff = 0 ∧ xs = ys := by
  induction xs generalizing ys diff with
  | nil =>
    rw [List.length_eq_zero_iff.mp hlen.symm]
    simp
  | cons x xs ih =>
    cases ys with
    | nil => cases hlen
    | cons y ys =>
      rw [List.zip_cons_cons, List.foldl_cons, ih (Nat.succ.inj hlen), UInt8.or_eq_zero_iff,
        UInt8.xor_eq_zero_iff, List.cons.injEq, and_assoc]

theorem constantTimeIpcTokenEq_iff {expected candidate : IpcToken} :
    constantTimeIpcTokenEq expected candidate = true ↔
      expected.length = ipcTokenLen ∧ expected = candidate := by
  unfold constantTimeIpcTokenEq
  by_cases hlen : expected.length ≠ ipcTokenLen ∨ candidate.length ≠ ipcTokenLen
  · rw [if_pos hlen]
    constructor
    · intro h
      cases h
    · rintro ⟨hexpected, rfl⟩
      exact absurd hexpected (hlen.elim id id)
  · rw [if_neg hlen]
    obtain ⟨hexpected, hcandidate⟩ := not_or.mp hlen
    rw [not_not] at hexpected hcandidate
    rw [decide_eq_true_iff, foldl_xor_eq_zero (hexpected.trans hcandidate.symm)]
    simp [hexpected]

/-- A `SharedMemory`, of which only the token area is read here. -/
structure SharedMemory where
  tokenArea : List UInt8 := List.replicate ipcTokenLen 0
  deriving DecidableEq, Repr

namespace SharedMemory

/-- `write_ipc_token_to_shmem`. -/
def writeIpcToken (shmem : SharedMemory) (token : IpcToken) : Option SharedMemory :=
  if isValidPortableServiceIpcToken token then some { shmem with tokenArea := token } else none

/-- `clear_ipc_token_in_shmem`. -/
def clearIpcToken (shmem : SharedMemory) : SharedMemory :=
  { shmem with tokenArea := List.replicate ipcTokenLen 0 }

theorem writeIpcToken_tokenArea {shmem shmem' : SharedMemory} {token : IpcToken}
    (h : shmem.writeIpcToken token = some shmem') : shmem'.tokenArea = token := by
  unfold writeIpcToken at h
  split_ifs at h
  rw [← Option.some.inj h]

end SharedMemory

/-- `SHMEM_NAME`. -/
def shmemName : String := "_portable_service"

/-- `{:08x}`. -/
def hex8 (n : UInt32) : String :=
  let digits := Nat.toDigits 16 n.toNat
  String.ofList (List.replicate (8 - digits.length) '0' ++ digits)

/-- `next_portable_service_shmem_name`, from the random number. -/
def nextPortableServiceShmemName (pid : Nat) (random : UInt32) : String :=
  shmemName ++ "_" ++ toString pid ++ "_" ++ hex8 random

/-- `is_valid_portable_service_shmem_name`. -/
def isValidPortableServiceShmemName (name : String) : Bool :=
  !name.isEmpty && name.utf8ByteSize ≤ 64 &&
    name.toList.all fun c => c.isAlphanum || c = '_' || c = '-'

/-- The globals `IPC_RUNTIME_TOKEN`, `SHMEM` and `SHMEM_RUNTIME_NAME`. -/
structure Runtime where
  ipcRuntimeToken : Option IpcToken := none
  shmem : Option SharedMemory := none
  shmemRuntimeName : Option String := none
  deriving DecidableEq, Repr

namespace Runtime

/-- `clear_runtime_shmem_state`, but for the file that is removed. -/
def clearRuntimeShmemState (_ : Runtime) : Runtime := {}

/-- `consume_runtime_ipc_token_if_match`. -/
def consumeRuntimeIpcTokenIfMatch (r : Runtime) (candidate : IpcToken) :
    Bool × Option String × Runtime :=
  match r.ipcRuntimeToken with
  | none => (false, none, r)
  | some expected =>
    if constantTimeIpcTokenEq expected candidate then
      (true, r.shmemRuntimeName,
        { r with ipcRuntimeToken := none, shmem := r.shmem.map SharedMemory.clearIpcToken })
    else (false, none, r)

/-- The token that is left when it cannot be restored. -/
def dropRuntimeToken (r : Runtime) (token : IpcToken) : Runtime :=
  { r with
    ipcRuntimeToken := if r.ipcRuntimeToken = some token then none else r.ipcRuntimeToken }

/-- `restore_runtime_ipc_token_after_failed_handshake`. -/
def restoreRuntimeIpcTokenAfterFailedHandshake (r : Runtime) (token : IpcToken)
    (expectedShmemName : Option String) : Runtime :=
  if r.ipcRuntimeToken.any (· ≠ token) then r
  else if r.shmemRuntimeName ≠ expectedShmemName then r.dropRuntimeToken token
  else
    match r.shmem.bind (·.writeIpcToken token) with
    | none => r.dropRuntimeToken token
    | some shmem => { r with shmem := some shmem, ipcRuntimeToken := some token }

/-- The section of a launch that creates the shared memory and writes the token, and whether the
token could be written. -/
def createShmem (r : Runtime) (name : String) (token : IpcToken) : Bool × Runtime :=
  let shmem : SharedMemory := {}
  match shmem.writeIpcToken token with
  | none => (false, { r with shmem := some shmem, shmemRuntimeName := some name })
  | some shmem => (true, { r with shmem := some shmem, shmemRuntimeName := some name })

/-- `set_runtime_ipc_token`. -/
def setRuntimeIpcToken (r : Runtime) (token : IpcToken) : Runtime :=
  { r with ipcRuntimeToken := some token }

/-- The shared memory exists under a name and has the token. -/
structure Holds (r : Runtime) (token : IpcToken) : Prop where
  shmem : ∃ shmem, r.shmem = some shmem ∧ shmem.tokenArea = token
  name : ∃ name, r.shmemRuntimeName = some name

/-- The shared memory has the token that is accepted. -/
def Matched (r : Runtime) : Prop := ∀ token, r.ipcRuntimeToken = some token → r.Holds token

variable {r r' : Runtime} {candidate token : IpcToken} {name : String} {name' : Option String}

/-- A token that matches is the one of the process, which is left without. -/
theorem consume_matched
    (h : r.consumeRuntimeIpcTokenIfMatch candidate = (true, name', r')) :
    r.ipcRuntimeToken = some candidate ∧ r.shmemRuntimeName = name' ∧
      r'.ipcRuntimeToken = none ∧ r'.shmemRuntimeName = r.shmemRuntimeName := by
  unfold consumeRuntimeIpcTokenIfMatch at h
  cases htoken : r.ipcRuntimeToken with
  | none =>
    rw [htoken] at h
    cases h
  | some expected =>
    rw [htoken] at h
    dsimp only at h
    by_cases heq : constantTimeIpcTokenEq expected candidate = true
    · rw [if_pos heq] at h
      cases h
      rw [(constantTimeIpcTokenEq_iff.mp heq).2]
      exact ⟨rfl, rfl, rfl, rfl⟩
    · rw [if_neg heq] at h
      cases h

/-- Where no token matches, nothing changes. -/
theorem consume_unmatched
    (h : r.consumeRuntimeIpcTokenIfMatch candidate = (false, name', r')) : r' = r := by
  unfold consumeRuntimeIpcTokenIfMatch at h
  cases htoken : r.ipcRuntimeToken with
  | none =>
    rw [htoken] at h
    cases h
    rfl
  | some expected =>
    rw [htoken] at h
    dsimp only at h
    by_cases heq : constantTimeIpcTokenEq expected candidate = true
    · rw [if_pos heq] at h
      cases h
    · rw [if_neg heq] at h
      cases h
      rfl

/-- A token is not restored into a shared memory of another name. -/
theorem restore_of_name_ne (hne : r.ipcRuntimeToken ≠ some token)
    (hname : r.shmemRuntimeName ≠ name') :
    r.restoreRuntimeIpcTokenAfterFailedHandshake token name' = r := by
  unfold restoreRuntimeIpcTokenAfterFailedHandshake
  by_cases hany : (r.ipcRuntimeToken.any (· ≠ token)) = true
  · rw [if_pos hany]
  · rw [if_neg hany, if_pos hname, dropRuntimeToken, if_neg hne]

/-- What a handshake that failed leaves: nothing has changed, or its token is back in the shared
memory it was taken from. -/
theorem restore_cases (hne : r.ipcRuntimeToken ≠ some token) :
    r.restoreRuntimeIpcTokenAfterFailedHandshake token (some name) = r ∨
      ((r.restoreRuntimeIpcTokenAfterFailedHandshake token (some name)).ipcRuntimeToken =
          some token ∧
        (r.restoreRuntimeIpcTokenAfterFailedHandshake token (some name)).shmemRuntimeName =
          r.shmemRuntimeName ∧
        r.shmemRuntimeName = some name ∧
        (r.restoreRuntimeIpcTokenAfterFailedHandshake token (some name)).Holds token) := by
  by_cases hname : r.shmemRuntimeName ≠ some name
  · exact .inl (restore_of_name_ne hne hname)
  · have hsame := not_not.mp hname
    unfold restoreRuntimeIpcTokenAfterFailedHandshake
    by_cases hany : (r.ipcRuntimeToken.any (· ≠ token)) = true
    · left
      rw [if_pos hany]
    · rw [if_neg hany, if_neg hname]
      cases hwrite : r.shmem.bind (·.writeIpcToken token) with
      | none =>
        left
        dsimp only
        rw [dropRuntimeToken, if_neg hne]
      | some shmem =>
        obtain ⟨old, -, hold⟩ := Option.bind_eq_some_iff.mp hwrite
        right
        refine ⟨rfl, rfl, hsame, ⟨⟨shmem, rfl, ?_⟩, ⟨name, hsame⟩⟩⟩
        exact SharedMemory.writeIpcToken_tokenArea hold

/-- The shared memory of a launch has its token. -/
theorem createShmem_holds (h : r.createShmem name token = (true, r')) :
    r'.Holds token ∧ r'.ipcRuntimeToken = r.ipcRuntimeToken ∧ r'.shmemRuntimeName = some name := by
  unfold createShmem at h
  dsimp only at h
  cases hwrite : SharedMemory.writeIpcToken {} token with
  | none =>
    rw [hwrite] at h
    cases h
  | some shmem =>
    rw [hwrite] at h
    cases h
    refine ⟨⟨⟨shmem, rfl, SharedMemory.writeIpcToken_tokenArea hwrite⟩, ⟨name, rfl⟩⟩, rfl, rfl⟩

theorem createShmem_failed (h : r.createShmem name token = (false, r')) :
    r'.ipcRuntimeToken = r.ipcRuntimeToken ∧ r'.shmemRuntimeName = some name := by
  unfold createShmem at h
  dsimp only at h
  cases hwrite : SharedMemory.writeIpcToken {} token with
  | none =>
    rw [hwrite] at h
    cases h
    exact ⟨rfl, rfl⟩
  | some shmem =>
    rw [hwrite] at h
    cases h

end Runtime

end MDesk.PortableService
