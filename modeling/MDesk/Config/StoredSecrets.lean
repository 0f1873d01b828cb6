import MDesk.Config.Endpoints
import MDesk.Config.PasswordSecurity
import MDesk.Core.Run

/-!
# Secrets in the configuration files

The permanent password, the unlock pin and the password of the proxy are kept in memory as they
are and sealed in the files. A secret comes back from its file exactly if it is short enough to be
sealed and is not a sealed one itself.
-/

namespace MDesk

open MDesk.Core
open MDesk.Endpoint (canonicalServer migrateOptions)

/-- `sodiumoxide`: a message is no longer than its box, and data no longer than its base64. -/
structure Sodium.Sized (S : Sodium) : Prop where
  length_open : ∀ boxed nonce key data, S.openBox boxed nonce key = some data →
    data.length ≤ boxed.length
  length_decode : ∀ text data, S.decode (asBytes text) = some data → data.length ≤ text.length

namespace StoredSecrets

open PasswordSecurity

/-- `ENCRYPT_MAX_LEN`. -/
def encryptMaxLen : Nat := 128

/-! ## The configuration -/

/-- `Config`, as far as its loading goes. -/
structure Config where
  id : String := ""
  encId : String := ""
  password : String := ""
  deriving DecidableEq

structure Socks5Server where
  proxy : String := ""
  username : String := ""
  password : String := ""
  deriving DecidableEq

/-- `Config2`, as far as its loading goes. -/
structure Config2 where
  rendezvousServer : String := ""
  unlockPin : String := ""
  trustedDevices : String := ""
  socks : Option Socks5Server := none
  options : Table String String := ∅

section Model

variable (S : Sodium) (uuid : Bytes)

/-- A secret as a file holds it. -/
def sealed (secret : String) : String :=
  encryptStrOrOriginal S uuid secret passwordEncVersion encryptMaxLen

/-- A secret from a file. -/
def unsealed (text : String) : String := (decryptStrOrOriginal S uuid text passwordEncVersion).1

/-- The file that is written. -/
def Config.store (c : Config) : Config :=
  { c with id := "", encId := sealed S uuid c.id, password := sealed S uuid c.password }

/-- The configuration of a file, and whether it should be stored. An id is made up if the file has
none; three attempts are made. -/
def Config.ofFile (attempts : List (Option String)) (file : Config) : Config × Bool :=
  let (password, _, store1) := decryptStrOrOriginal S uuid file.password passwordEncVersion
  let (id, encrypted, store2) := decryptStrOrOriginal S uuid file.encId passwordEncVersion
  if encrypted then ({ file with password, id }, store1 || store2)
  else if file.id ≠ "" ∧ file.encId = "" ∧
      !(decryptStrOrOriginal S uuid file.id passwordEncVersion).2.1 then
    ({ file with password }, true)
  else
    match (attempts.take 3).findSome? fun made => made with
    | some made => ({ file with password, id := made }, true)
    | none => ({ file with password }, store1)

/-- The configuration from a file, and the file behind. -/
def Config.load (attempts : List (Option String)) (file : Config) : Config × Config :=
  let read := file.ofFile S uuid attempts
  (read.1, if read.2 then read.1.store S uuid else file)

def Config2.store (c : Config2) : Config2 :=
  { c with
    socks := c.socks.map fun socks => { socks with password := sealed S uuid socks.password }
    unlockPin := sealed S uuid c.unlockPin }

/-- The configuration of a file, and whether it should be stored. -/
def Config2.ofFile (file : Config2) : Config2 × Bool :=
  let (options, store) := migrateOptions file.options
  let canonical := canonicalServer file.rendezvousServer
  let store := store || canonical ≠ file.rendezvousServer
  let store := store || file.socks.any fun socks =>
    (decryptStrOrOriginal S uuid socks.password passwordEncVersion).2.2
  let socks := file.socks.map fun socks =>
    { socks with password := unsealed S uuid socks.password }
  let (unlockPin, _, store2) := decryptStrOrOriginal S uuid file.unlockPin passwordEncVersion
  ({ file with options, rendezvousServer := canonical, socks, unlockPin }, store || store2)

/-- The configuration from a file, and the file behind. -/
def Config2.load (file : Config2) : Config2 × Config2 :=
  let read := file.ofFile S uuid
  (read.1, if read.2 then read.1.store S uuid else file)

end Model

/-- A machine: what is in memory, what is in the files and the settings of its client. -/
structure Machine where
  config : Config := {}
  config2 : Config2 := {}
  file : Config := {}
  file2 : Config2 := {}
  hardPassword : Option String := none
  overwriteSettings : Table String String := ∅
  defaultSettings : Table String String := ∅

/-- The configuration is stored, or the program is started again. -/
inductive Event where
  | store
  | load (attempts : List (Option String))
  deriving DecidableEq, Repr

namespace Machine

variable (S : Sodium) (uuid : Bytes)

def storeConfig (m : Machine) (config : Config) : Machine :=
  { m with config, file := config.store S uuid }

def storeConfig2 (m : Machine) (config2 : Config2) : Machine :=
  { m with config2, file2 := config2.store S uuid }

/-- `clear_trusted_devices`. -/
def clearTrustedDevices (m : Machine) : Machine :=
  m.storeConfig2 S uuid
    { m.config2 with
      trustedDevices := encryptStrOrOriginal S uuid "[]" passwordEncVersion (1024 * 1024) }

def setPermanentPassword (m : Machine) (password : String) : Machine :=
  if m.hardPassword = some password ∧ m.config.password = "" then m
  else if password = m.config.password then m
  else (m.storeConfig S uuid { m.config with password }).clearTrustedDevices S uuid

def getPermanentPassword (m : Machine) : String :=
  if m.config.password = "" then m.hardPassword.getD "" else m.config.password

def setUnlockPin (m : Machine) (pin : String) : Machine :=
  if pin = m.config2.unlockPin then m
  else m.storeConfig2 S uuid { m.config2 with unlockPin := pin }

def getUnlockPin (m : Machine) : String := m.config2.unlockPin

/-- The proxy that settings name. -/
def socksFromSettings (settings : Table String String) : Option Socks5Server :=
  (settings.get "proxy-url").map fun url =>
    { proxy := url
      username := (settings.get "proxy-username").getD ""
      password := (settings.get "proxy-password").getD "" }

/-- The proxy is the one that the default settings name in full. -/
def EqualToDefault (m : Machine) (socks : Socks5Server) : Prop :=
  m.defaultSettings.get "proxy-url" = some socks.proxy ∧
    m.defaultSettings.get "proxy-username" = some socks.username ∧
    m.defaultSettings.get "proxy-password" = some socks.password

instance (m : Machine) (socks : Socks5Server) : Decidable (m.EqualToDefault socks) :=
  inferInstanceAs (Decidable (_ ∧ _))

def setSocks (m : Machine) (socks : Option Socks5Server) : Machine :=
  if (m.overwriteSettings.get "proxy-url").isSome then m
  else if m.config2.socks = socks then m
  else if m.config2.socks = none ∧ (m.defaultSettings.get "proxy-url").isSome ∧
      m.EqualToDefault (socks.getD {}) then m
  else m.storeConfig2 S uuid { m.config2 with socks }

def getSocks (m : Machine) : Option Socks5Server :=
  ((socksFromSettings m.overwriteSettings).or m.config2.socks).or
    (socksFromSettings m.defaultSettings)

def step (m : Machine) : Event → Machine
  | .store => (m.storeConfig S uuid m.config).storeConfig2 S uuid m.config2
  | .load attempts =>
    { m with
      config := (m.file.load S uuid attempts).1
      file := (m.file.load S uuid attempts).2
      config2 := (m.file2.load S uuid).1
      file2 := (m.file2.load S uuid).2 }

/-- The machine after its configuration has been stored and loaded, and stored and loaded again
in any order. -/
def cycled (m : Machine) (attempts : List (Option String)) (es : List Event) : Machine :=
  run (step S uuid) m (.store :: .load attempts :: es)

end Machine

/-! ## One secret -/

/-- A secret that is short enough and that the key of the machine does not open. -/
def Storable (S : Sodium) (uuid : Bytes) (secret : String) : Prop :=
  secret.length ≤ encryptMaxLen ∧
    (decryptStrOrOriginal S uuid secret passwordEncVersion).2.1 = false

section Secret

variable {S : Sodium} {uuid : Bytes} {s t : String}

theorem decryptStr_plain (h : (decryptStrOrOriginal S uuid s passwordEncVersion).2.1 = false) :
    unsealed S uuid s = s := by
  rw [unsealed, decryptStr_eq] at *
  rw [decryptVec_plain h, fromUtf8Lossy_asBytes]

theorem unsealed_sealed_empty : unsealed S uuid (sealed S uuid "") = "" := rfl

/-- A secret that is short enough comes back. -/
theorem unsealed_sealed (hS : S.Lawful) (h : Storable S uuid s) :
    unsealed S uuid (sealed S uuid s) = s := by
  by_cases hempty : s = ""
  · rw [hempty, unsealed_sealed_empty]
  · rw [unsealed, sealed, (encrypt_decrypt_or_original hS hempty h.1 h.2).1]

/-- One that is too long does not. -/
theorem unsealed_sealed_long (h : encryptMaxLen < s.length)
    (hplain : (decryptStrOrOriginal S uuid s passwordEncVersion).2.1 = false) :
    unsealed S uuid (sealed S uuid s) = "" := by
  rw [sealed, encryptStrOrOriginal, hplain, if_neg Bool.false_ne_true, if_pos h]
  rfl

/-- A sealed one is taken for what it seals. -/
theorem unsealed_sealed_twice
    (h : (decryptStrOrOriginal S uuid s passwordEncVersion).2.1 = true) :
    unsealed S uuid (sealed S uuid s) = unsealed S uuid s := by
  rw [sealed, encryptStrOrOriginal, if_pos h]

/-- What a sealed secret seals is shorter than it. -/
theorem unsealed_ne (hZ : S.Sized)
    (h : (decryptStrOrOriginal S uuid s passwordEncVersion).2.1 = true) :
    unsealed S uuid s ≠ s := by
  unfold unsealed
  unfold decryptStrOrOriginal at h ⊢
  dsimp only at h ⊢
  split at h
  case isFalse => cases h
  case isTrue hversion =>
    obtain ⟨rest, hrest⟩ := hversion.2
    have hbody : (asBytes s).drop versionLen = asBytes (String.ofList rest) := by
      unfold asBytes
      rw [← hrest, utf8Bytes_append, String.toList_ofList]
      rfl
    rw [if_pos hversion]
    cases hopen : decrypt S uuid ((asBytes s).drop versionLen) with
    | none =>
      rw [hopen] at h
      cases h
    | some v =>
      rw [hbody, decrypt] at hopen
      split at hopen
      case isFalse => cases hopen
      case isTrue =>
        obtain ⟨data, hdata, hbox⟩ := Option.bind_eq_some_iff.mp hopen
        have hboxed := hZ.length_open _ _ _ _ hbox
        have hdecoded := hZ.length_decode _ _ hdata
        have hchars := utf8Lossy_length v
        have hlen : s.length = rest.length + 2 := by
          rw [← String.length_toList, ← hrest]
          simp
        intro heq
        have hshort : (fromUtf8Lossy v).length ≤ v.length := by
          rw [fromUtf8Lossy, String.length_ofList]
          exact hchars
        rw [String.length_ofList] at hdecoded
        have hsame : (fromUtf8Lossy v).length = s.length := congrArg String.length heq
        omega

/-- A secret comes back exactly if it is short enough and not a sealed one. -/
theorem unsealed_sealed_iff (hS : S.Lawful) (hZ : S.Sized) :
    unsealed S uuid (sealed S uuid s) = s ↔ Storable S uuid s := by
  refine ⟨fun h => ?_, unsealed_sealed hS⟩
  have hplain : (decryptStrOrOriginal S uuid s passwordEncVersion).2.1 = false := by
    rw [← Bool.not_eq_true]
    intro hsealed
    rw [unsealed_sealed_twice hsealed] at h
    exact unsealed_ne hZ hsealed h
  refine ⟨?_, hplain⟩
  by_contra hlong
  rw [unsealed_sealed_long (Nat.lt_of_not_le hlong) hplain] at h
  subst h
  exact hlong (Nat.zero_le _)

end Secret

/-! ## Runs -/

section Machine

variable {S : Sodium} {uuid : Bytes} {m : Machine} {s password pin : String}
  {attempts : List (Option String)} {es : List Event} {memory file : Machine → String}
  {socks : Socks5Server}

/-- What every event keeps holds behind the first two, if it holds there. -/
theorem cycled_keeps {Q : Machine → Prop} (hstep : ∀ m e, Q m → Q (m.step S uuid e))
    (h : Q ((m.step S uuid .store).step S uuid (.load attempts))) :
    Q (m.cycled S uuid attempts es) := by
  have hes : Allowed (Machine.step S uuid) (fun _ _ => True)
      ((m.step S uuid .store).step S uuid (.load attempts)) es :=
    allowed_of_forall (fun _ _ => trivial) _ _
  rw [Machine.cycled, run_cons, run_cons]
  exact run_keeps (fun m e hm _ => hstep m e hm) h hes

/-- The settings of the client are not part of the configuration. -/
def Machine.client (m : Machine) : Option String × Table String String × Table String String :=
  (m.hardPassword, m.overwriteSettings, m.defaultSettings)

@[simp] theorem client_step (e : Event) : (m.step S uuid e).client = m.client := by
  cases e <;> rfl

theorem client_cycled : (m.cycled S uuid attempts es).client = m.client := by
  refine cycled_keeps (Q := fun m' => m'.client = m.client) ?_ ?_
  · intro m' e h
    rw [client_step, h]
  · rw [client_step, client_step]

/-- A secret in memory is sealed when it is stored, and the one in its file opened when it is
loaded. -/
structure Kept (S : Sodium) (uuid : Bytes) (memory file : Machine → String) : Prop where
  memory_store : ∀ m : Machine, memory (m.step S uuid .store) = memory m
  file_store : ∀ m : Machine, file (m.step S uuid .store) = sealed S uuid (memory m)
  memory_load : ∀ (m : Machine) attempts,
    memory (m.step S uuid (.load attempts)) = unsealed S uuid (file m)
  file_load : ∀ (m : Machine) attempts, ∃ store : Bool, file (m.step S uuid (.load attempts)) =
    if store then sealed S uuid (unsealed S uuid (file m)) else file m

/-- Behind the first cycle a secret is the sealed one, opened. -/
theorem Kept.first (h : Kept S uuid memory file) :
    memory (m.cycled S uuid attempts []) = unsealed S uuid (sealed S uuid (memory m)) := by
  rw [Machine.cycled, run_cons, run_cons, run_nil, h.memory_load, h.file_store]

/-- It stays what it is then, if that is sealed and opened to itself. -/
theorem Kept.cycled (h : Kept S uuid memory file)
    (hs : unsealed S uuid (sealed S uuid (memory m)) = s)
    (hback : unsealed S uuid (sealed S uuid s) = s) :
    memory (m.cycled S uuid attempts es) = s := by
  have hload : ∀ (m : Machine) attempts, unsealed S uuid (file m) = s →
      memory (m.step S uuid (.load attempts)) = s ∧
        unsealed S uuid (file (m.step S uuid (.load attempts))) = s := by
    intro m attempts hfile
    obtain ⟨store, hstore⟩ := h.file_load m attempts
    rw [h.memory_load, hstore]
    refine ⟨hfile, ?_⟩
    cases store with
    | true => rw [if_pos rfl, hfile, hback]
    | false => rw [if_neg Bool.false_ne_true, hfile]
  have hat : memory (m.cycled S uuid attempts es) = s ∧
      unsealed S uuid (file (m.cycled S uuid attempts es)) = s := by
    refine cycled_keeps (Q := fun m => memory m = s ∧ unsealed S uuid (file m) = s) ?_ ?_
    · rintro m e ⟨hmemory, hfile⟩
      cases e with
      | store => exact ⟨by rw [h.memory_store, hmemory], by rw [h.file_store, hmemory, hback]⟩
      | load attempts => exact hload m attempts hfile
    · exact hload _ _ (by rw [h.file_store, hs])
  exact hat.1

/-- A secret that stays what it was. -/
theorem Kept.cycled_iff (h : Kept S uuid memory file) (hS : S.Lawful) (hZ : S.Sized) :
    (∀ attempts es, memory (m.cycled S uuid attempts es) = memory m) ↔
      Storable S uuid (memory m) := by
  rw [← unsealed_sealed_iff hS hZ]
  constructor
  · intro hall
    rw [← h.first, hall [] []]
  · intro hback attempts es
    exact h.cycled hback hback

/-! ## The permanent password -/

theorem password_ofFile {file : Config} : (file.ofFile S uuid attempts).1.password =
    unsealed S uuid file.password := by
  unfold Config.ofFile unsealed
  dsimp only
  split
  · rfl
  · split
    · rfl
    · split <;> rfl

theorem password_of_written (store : Bool) (config file : Config) :
    (if store then config.store S uuid else file).password =
      if store then sealed S uuid config.password else file.password := by
  cases store <;> rfl

theorem kept_password :
    Kept S uuid (fun m => m.config.password) (fun m => m.file.password) where
  memory_store _ := rfl
  file_store _ := rfl
  memory_load _ _ := password_ofFile
  file_load m attempts := by
    refine ⟨(m.file.ofFile S uuid attempts).2, ?_⟩
    have hread : (m.file.ofFile S uuid attempts).1.password = unsealed S uuid m.file.password :=
      password_ofFile
    rw [← hread, ← password_of_written]
    rfl

/-- The password that is told: an empty one stands for that of the client. -/
def told (hardPassword : Option String) (password : String) : String :=
  if password = "" then hardPassword.getD "" else password

theorem getPermanentPassword_cycled :
    (m.cycled S uuid attempts es).getPermanentPassword =
      told m.hardPassword (m.cycled S uuid attempts es).config.password := by
  have hclient : (m.cycled S uuid attempts es).client = m.client := client_cycled
  rw [← (Prod.mk.inj hclient).1]
  rfl

theorem setPermanentPassword_config :
    (m.setPermanentPassword S uuid password).config.password =
      if m.hardPassword = some password ∧ m.config.password = "" then "" else password := by
  unfold Machine.setPermanentPassword
  split
  case isTrue hhard => exact hhard.2
  case isFalse =>
    split
    case isTrue hsame => exact hsame.symm
    case isFalse => rfl

theorem setPermanentPassword_hard :
    (m.setPermanentPassword S uuid password).hardPassword = m.hardPassword := by
  unfold Machine.setPermanentPassword
  split_ifs <;> rfl

/-- A permanent password that can be stored, or that the client has for no password where nothing
else comes out of the file. -/
def PermanentFits (S : Sodium) (uuid : Bytes) (m : Machine) (password : String) : Prop :=
  (Storable S uuid password ∧ password ≠ "") ∨
    (m.hardPassword.getD "" = password ∧ (m.config.password = "" ∨
      (decryptStrOrOriginal S uuid password passwordEncVersion).2.1 = false ∨
      unsealed S uuid password = ""))

/-- The password comes back, or nothing does and the client has it. -/
theorem back_or_empty (hS : S.Lawful)
    (hearly : ¬(m.hardPassword = some password ∧ m.config.password = ""))
    (h : PermanentFits S uuid m password) :
    (unsealed S uuid (sealed S uuid password) = password ∧
        told m.hardPassword password = password) ∨
      (unsealed S uuid (sealed S uuid password) = "" ∧ m.hardPassword.getD "" = password) := by
  rcases h with ⟨hstorable, hne⟩ | ⟨hhard, hor⟩
  · exact .inl ⟨unsealed_sealed hS hstorable, if_neg hne⟩
  · by_cases hstorable : Storable S uuid password
    · refine .inl ⟨unsealed_sealed hS hstorable, ?_⟩
      unfold told
      split
      case isTrue => exact hhard
      case isFalse => rfl
    · refine .inr ⟨?_, hhard⟩
      cases hsealed : (decryptStrOrOriginal S uuid password passwordEncVersion).2.1 with
      | false =>
        apply unsealed_sealed_long _ hsealed
        by_contra hshort
        exact hstorable ⟨Nat.not_lt.mp hshort, hsealed⟩
      | true =>
        rw [unsealed_sealed_twice hsealed]
        rcases hor with hconfig | hplain | hnil
        · -- the client has no password, so this one is empty
          have hnone : m.hardPassword = none := by
            cases hhard' : m.hardPassword with
            | none => rfl
            | some hard =>
              rw [hhard', Option.getD_some] at hhard
              exact absurd ⟨hhard'.trans (congrArg some hhard), hconfig⟩ hearly
          rw [hnone, Option.getD_none] at hhard
          subst hhard
          cases hsealed
        · rw [hplain] at hsealed
          cases hsealed
        · exact hnil

theorem permanent_iff (hS : S.Lawful) (hZ : S.Sized) :
    (∀ attempts es, ((m.setPermanentPassword S uuid password).cycled S uuid attempts
      es).getPermanentPassword = password) ↔ PermanentFits S uuid m password := by
  have hconfig : (m.setPermanentPassword S uuid password).config.password =
      if m.hardPassword = some password ∧ m.config.password = "" then "" else password :=
    setPermanentPassword_config
  simp only [getPermanentPassword_cycled, setPermanentPassword_hard]
  by_cases hearly : m.hardPassword = some password ∧ m.config.password = ""
  · rw [if_pos hearly] at hconfig
    refine iff_of_true ?_ (.inr ⟨by rw [hearly.1, Option.getD_some], .inl hearly.2⟩)
    intro attempts es
    rw [kept_password.cycled (by rw [hconfig, unsealed_sealed_empty]) unsealed_sealed_empty, told,
      if_pos rfl, hearly.1, Option.getD_some]
  · rw [if_neg hearly] at hconfig
    constructor
    · intro h
      have hfirst := h [] []
      rw [kept_password.first, hconfig] at hfirst
      by_cases hstorable : Storable S uuid password
      · by_cases hempty : password = ""
        · subst hempty
          exact .inr ⟨hfirst, .inr (.inl hstorable.2)⟩
        · exact .inl ⟨hstorable, hempty⟩
      · have hne := (unsealed_sealed_iff hS hZ).not.mpr hstorable
        have hnil : unsealed S uuid (sealed S uuid password) = "" := by
          by_contra hsome
          exact hne ((if_neg hsome).symm.trans hfirst)
        rw [hnil] at hfirst
        refine .inr ⟨hfirst, .inr ?_⟩
        cases hsealed : (decryptStrOrOriginal S uuid password passwordEncVersion).2.1 with
        | false => exact .inl rfl
        | true =>
          rw [unsealed_sealed_twice hsealed] at hnil
          exact .inr hnil
    · intro h attempts es
      rcases back_or_empty hS hearly h with ⟨hback, htold⟩ | ⟨hnil, htold⟩
      · rw [kept_password.cycled (by rw [hconfig, hback]) hback, htold]
      · rw [kept_password.cycled (by rw [hconfig, hnil]) unsealed_sealed_empty, told, if_pos rfl,
          htold]

/-! ## The unlock pin -/

theorem unlockPin_ofFile {file : Config2} :
    (file.ofFile S uuid).1.unlockPin = unsealed S uuid file.unlockPin := rfl

theorem unlockPin_of_written (store : Bool) (config file : Config2) :
    (if store then config.store S uuid else file).unlockPin =
      if store then sealed S uuid config.unlockPin else file.unlockPin := by
  cases store <;> rfl

theorem kept_unlockPin :
    Kept S uuid (fun m => m.config2.unlockPin) (fun m => m.file2.unlockPin) where
  memory_store _ := rfl
  file_store _ := rfl
  memory_load _ _ := unlockPin_ofFile
  file_load m _ := by
    refine ⟨(m.file2.ofFile S uuid).2, ?_⟩
    rw [← unlockPin_ofFile, ← unlockPin_of_written]
    rfl

theorem unlockPin_iff (hS : S.Lawful) (hZ : S.Sized) :
    (∀ attempts es, ((m.setUnlockPin S uuid pin).cycled S uuid attempts es).getUnlockPin = pin) ↔
      Storable S uuid pin := by
  have hset : (m.setUnlockPin S uuid pin).config2.unlockPin = pin := by
    unfold Machine.setUnlockPin
    split
    case isTrue hsame => exact hsame.symm
    case isFalse => rfl
  have hkept : Kept S uuid (fun m => m.config2.unlockPin) (fun m => m.file2.unlockPin) :=
    kept_unlockPin
  have hiff := hkept.cycled_iff (m := m.setUnlockPin S uuid pin) hS hZ
  rw [hset] at hiff
  exact hiff

/-! ## The proxy -/

/-- A proxy without its password. -/
def withoutPassword (socks : Socks5Server) : String × String := (socks.proxy, socks.username)

/-- The password of a proxy, empty without a proxy. -/
def passwordOf (socks : Option Socks5Server) : String := (socks.map (·.password)).getD ""

theorem passwordOf_ofFile {file : Config2} :
    passwordOf (file.ofFile S uuid).1.socks = unsealed S uuid (passwordOf file.socks) := by
  unfold Config2.ofFile passwordOf
  dsimp only
  cases file.socks <;> rfl

theorem passwordOf_of_written (store : Bool) (config file : Config2) :
    passwordOf (if store then config.store S uuid else file).socks =
      if store then sealed S uuid (passwordOf config.socks) else passwordOf file.socks := by
  cases store with
  | false => rfl
  | true =>
    rw [if_pos rfl, if_pos rfl, Config2.store]
    cases config.socks <;> rfl

theorem kept_passwordOf :
    Kept S uuid (fun m => passwordOf m.config2.socks) (fun m => passwordOf m.file2.socks) where
  memory_store _ := rfl
  file_store m := passwordOf_of_written true m.config2 m.file2
  memory_load _ _ := passwordOf_ofFile
  file_load m _ := by
    refine ⟨(m.file2.ofFile S uuid).2, ?_⟩
    rw [← passwordOf_ofFile, ← passwordOf_of_written]
    rfl

/-- The rest of the proxy is stored as it is. -/
theorem withoutPassword_cycled {rest : Option (String × String)}
    (h : m.config2.socks.map withoutPassword = rest) :
    (m.cycled S uuid attempts es).config2.socks.map withoutPassword = rest := by
  have hstore : ∀ config : Config2, (config.store S uuid).socks.map withoutPassword =
      config.socks.map withoutPassword := by
    intro config
    unfold Config2.store
    dsimp only
    cases config.socks <;> rfl
  have hread : ∀ file : Config2, (file.ofFile S uuid).1.socks.map withoutPassword =
      file.socks.map withoutPassword := by
    intro file
    unfold Config2.ofFile
    dsimp only
    cases file.socks <;> rfl
  have hload : ∀ (m : Machine) attempts, m.file2.socks.map withoutPassword = rest →
      (m.step S uuid (.load attempts)).config2.socks.map withoutPassword = rest ∧
        (m.step S uuid (.load attempts)).file2.socks.map withoutPassword = rest := by
    intro m attempts hfile
    have hconfig : (m.file2.ofFile S uuid).1.socks.map withoutPassword = rest := by
      rw [hread, hfile]
    refine ⟨hconfig, ?_⟩
    show (if (m.file2.ofFile S uuid).2 then (m.file2.ofFile S uuid).1.store S uuid
      else m.file2).socks.map withoutPassword = rest
    cases (m.file2.ofFile S uuid).2 with
    | true => rw [if_pos rfl, hstore, hconfig]
    | false => exact hfile
  have hat : (m.cycled S uuid attempts es).config2.socks.map withoutPassword = rest ∧
      (m.cycled S uuid attempts es).file2.socks.map withoutPassword = rest := by
    refine cycled_keeps (Q := fun m => m.config2.socks.map withoutPassword = rest ∧
      m.file2.socks.map withoutPassword = rest) ?_ ?_
    · rintro m e ⟨hconfig, hfile⟩
      cases e with
      | store => exact ⟨hconfig, (hstore m.config2).trans hconfig⟩
      | load attempts => exact hload m attempts hfile
    · exact hload _ _ ((hstore m.config2).trans h)
  exact hat.1

/-- A proxy is its password and the rest. -/
theorem socks_eq_iff {socks' : Option Socks5Server}
    (h : socks'.map withoutPassword = some (withoutPassword socks)) :
    socks' = some socks ↔ passwordOf socks' = socks.password := by
  obtain ⟨other, rfl, hother⟩ := Option.map_eq_some_iff.mp h
  obtain ⟨hproxy, husername⟩ := Prod.mk.inj hother
  obtain ⟨proxy, username, password⟩ := socks
  obtain ⟨proxy', username', password'⟩ := other
  simp only at hproxy husername
  subst hproxy husername
  simp [passwordOf]

theorem client_setSocks : (m.setSocks S uuid (some socks)).client = m.client := by
  unfold Machine.setSocks
  split_ifs <;> rfl

/-- A proxy that is accepted is taken over, unless it is the default. -/
theorem setSocks_socks (hover : m.overwriteSettings.get "proxy-url" = none) :
    (m.setSocks S uuid (some socks)).config2.socks =
      if m.config2.socks = none ∧ m.EqualToDefault socks then none else some socks := by
  unfold Machine.setSocks
  rw [hover, if_neg (by simp)]
  by_cases hdefault : m.config2.socks = none ∧ m.EqualToDefault socks
  · have hurl : (m.defaultSettings.get "proxy-url").isSome := Option.isSome_of_eq_some hdefault.2.1
    rw [if_pos hdefault, if_neg (by simp [hdefault.1]), Option.getD_some,
      if_pos ⟨hdefault.1, hurl, hdefault.2⟩, hdefault.1]
  · rw [if_neg hdefault]
    split
    case isTrue hsame => exact hsame
    case isFalse =>
      rw [Option.getD_some, if_neg fun h => hdefault ⟨h.1, h.2.2⟩]
      rfl

/-- What is told of a proxy that nothing overwrites. -/
theorem getSocks_cycled (hover : m.overwriteSettings.get "proxy-url" = none) :
    (m.cycled S uuid attempts es).getSocks =
      ((m.cycled S uuid attempts es).config2.socks).or
        (Machine.socksFromSettings m.defaultSettings) := by
  have hclient : (m.cycled S uuid attempts es).client = m.client := client_cycled
  obtain ⟨-, hboth⟩ := Prod.mk.inj hclient
  obtain ⟨hover', hdefault⟩ := Prod.mk.inj hboth
  rw [Machine.getSocks, hover', hdefault, Machine.socksFromSettings, hover]
  rfl

/-- A proxy that is accepted is told as it was set, if its password can be stored or it is the
default in full. -/
theorem socks_iff (hS : S.Lawful) (hZ : S.Sized)
    (hover : m.overwriteSettings.get "proxy-url" = none) :
    (∀ attempts es, ((m.setSocks S uuid (some socks)).cycled S uuid attempts es).getSocks =
        some socks) ↔
      Storable S uuid socks.password ∨ m.config2.socks = none ∧ m.EqualToDefault socks := by
  have hsocks : (m.setSocks S uuid (some socks)).config2.socks =
      if m.config2.socks = none ∧ m.EqualToDefault socks then none else some socks :=
    setSocks_socks hover
  have hclient : (m.setSocks S uuid (some socks)).client = m.client := client_setSocks
  obtain ⟨-, hboth⟩ := Prod.mk.inj hclient
  obtain ⟨hover', hdefault'⟩ := Prod.mk.inj hboth
  generalize m.setSocks S uuid (some socks) = m' at hsocks hover' hdefault'
  rw [← hover'] at hover
  by_cases hdefault : m.config2.socks = none ∧ m.EqualToDefault socks
  · refine iff_of_true ?_ (.inr hdefault)
    intro attempts es
    rw [if_pos hdefault] at hsocks
    have hnone : (m'.cycled S uuid attempts es).config2.socks.map withoutPassword = none :=
      withoutPassword_cycled (congrArg (Option.map withoutPassword) hsocks)
    rw [getSocks_cycled hover, Option.map_eq_none_iff.mp hnone, hdefault', Option.none_or,
      Machine.socksFromSettings, hdefault.2.1, hdefault.2.2.1, hdefault.2.2.2]
    rfl
  · rw [if_neg hdefault] at hsocks
    rw [or_iff_left hdefault]
    have hkept : Kept S uuid (fun m => passwordOf m.config2.socks)
        (fun m => passwordOf m.file2.socks) := kept_passwordOf
    have hiff := hkept.cycled_iff (m := m') hS hZ
    rw [hsocks] at hiff
    rw [← show passwordOf (some socks) = socks.password from rfl, ← hiff]
    refine forall_congr' fun attempts => forall_congr' fun es => ?_
    have hrest : (m'.cycled S uuid attempts es).config2.socks.map withoutPassword =
        some (withoutPassword socks) :=
      withoutPassword_cycled (congrArg (Option.map withoutPassword) hsocks)
    rw [getSocks_cycled hover]
    generalize (m'.cycled S uuid attempts es).config2.socks = socks' at hrest
    cases socks' with
    | none => cases hrest
    | some other => exact socks_eq_iff hrest

end Machine

/-- A secret that is set is told again after its configuration has been stored and loaded, however
often, exactly if it is short enough and not a sealed one; but for a password that the client has
and a proxy that is its default. -/
theorem secrets_kept_iff {S : Sodium} (hS : S.Lawful) (hZ : S.Sized) (uuid : Bytes) (m : Machine) :
    (∀ password, (∀ attempts es, ((m.setPermanentPassword S uuid password).cycled S uuid attempts
        es).getPermanentPassword = password) ↔ PermanentFits S uuid m password) ∧
      (∀ pin, (∀ attempts es, ((m.setUnlockPin S uuid pin).cycled S uuid attempts
        es).getUnlockPin = pin) ↔ Storable S uuid pin) ∧
      ∀ socks, m.overwriteSettings.get "proxy-url" = none →
        ((∀ attempts es, ((m.setSocks S uuid (some socks)).cycled S uuid attempts es).getSocks =
            some socks) ↔
          Storable S uuid socks.password ∨ m.config2.socks = none ∧ m.EqualToDefault socks) :=
  ⟨fun _ => permanent_iff hS hZ, fun _ => unlockPin_iff hS hZ, fun _ => socks_iff hS hZ⟩

theorem sampleSodium_sized : sampleSodium.Sized where
  length_open boxed nonce key data h := by
    simp only [sampleSodium] at h
    split_ifs at h with hone
    · obtain rfl := Option.some.inj h
      rw [hone.1]
      decide
    · obtain rfl := Option.some.inj h
      rw [List.length_drop]
      omega
  length_decode text data h := by
    have hdecode : base64Decode text.toList = some data := by
      simpa only [sampleSodium, asBytes, utf8Lossy_bytes] using h
    have hlen := (length_of_base64Decode hdecode).2
    rw [String.length_toList] at hlen
    omega

/-- The password `1` of a sample machine, behind a cycle. -/
theorem secrets_kept_sample :
    ((({} : Machine).setPermanentPassword sampleSodium sampleUuid "1").cycled sampleSodium
        sampleUuid [] []).getPermanentPassword = "1" ∧
      ((({} : Machine).setUnlockPin sampleSodium sampleUuid "1").cycled sampleSodium
        sampleUuid [] []).getUnlockPin = "1" := by
  have h := secrets_kept_iff sampleSodium_lawful sampleSodium_sized sampleUuid {}
  have hstorable : Storable sampleSodium sampleUuid "1" := ⟨by decide, by decide +kernel⟩
  exact ⟨(h.1 "1").mpr (.inl ⟨hstorable, by decide⟩) [] [], (h.2.1 "1").mpr hstorable [] []⟩

/-- A password of 129 characters is lost at the next start. -/
theorem long_password_lost : ¬ ∀ password : String,
    ((({} : Machine).setPermanentPassword sampleSodium sampleUuid password).cycled sampleSodium
      sampleUuid [] []).getPermanentPassword = password := by
  intro h
  have hlost := h (String.ofList (List.replicate 129 'a'))
  have hchars : (String.ofList (List.replicate 129 'a')).toList = List.replicate 129 'a' :=
    String.toList_ofList
  have hlen : (String.ofList (List.replicate 129 'a')).length = 129 := by
    rw [← String.length_toList, hchars, List.length_replicate]
  generalize String.ofList (List.replicate 129 'a') = password at hlost hchars hlen
  have hplain : (decryptStrOrOriginal sampleSodium sampleUuid password passwordEncVersion).2.1 =
      false := by
    rw [decryptStrOrOriginal, if_neg]
    rintro ⟨-, rest, hrest⟩
    rw [hchars] at hrest
    cases (List.cons.inj hrest).1
  have hconfig : (({} : Machine).setPermanentPassword sampleSodium sampleUuid
      password).config.password = password :=
    setPermanentPassword_config.trans (if_neg fun hhard => by cases hhard.1)
  have hnil := unsealed_sealed_long (by rw [hlen]; decide) hplain
  rw [getPermanentPassword_cycled, kept_password.first, hconfig, hnil,
    setPermanentPassword_hard] at hlost
  have hzero := congrArg String.length hlost
  rw [hlen] at hzero
  cases hzero

end StoredSecrets

end MDesk
