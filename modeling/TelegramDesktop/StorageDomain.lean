import TelegramDesktop.LocalFiles
import TelegramDesktop.DataStreamValues

/-!
# The domain and its storage

The accounts of the application, as in `main/main_domain.cpp`, and the file with their
list, as in `storage/storage_domain.cpp`. A function has no result when one of its
`Expects`, `Assert` or `Unexpected` fails.
-/

namespace TelegramDesktop.Accounts

def kPremiumMaxAccounts : Int32 := 6

def localEncryptSaltSize : Nat := 32

/-- The bytes of an `MTP::AuthKey`. -/
structure AuthKey where
  data : Bytes
  size : data.length = 256
  deriving DecidableEq

abbrev Salt := { bytes : Bytes // bytes.length = localEncryptSaltSize }

/-- Nothing is known of the keys and the cipher.  The random bytes after the data that
is encrypted are part of the function. -/
structure Crypto where
  createLocalKey : Bytes → Bytes → AuthKey
  decryptLocal : Bytes → AuthKey → Option Bytes
  prepareEncrypted : Bytes → AuthKey → Bytes

/-- What a `FileReadDescriptor` has: the version of the file and its data. -/
structure KeyFile where
  version : Int32
  content : Bytes
  deriving DecidableEq

/-- How `legacyStart` of an account ends.  A map that cannot be read leaves the account
without a key. -/
inductive LegacyStart
  | incorrectPasscodeLegacy
  | success (localKey : Option AuthKey) (oldMapVersion : Int32) (sessionId : Nat)

/-- The bytes with which the local key and the salt of the passcode are filled. -/
structure Random where
  pass : Bytes
  salt : Bytes
  passcodeKeySalt : Salt

/-- What the domain finds outside.  The storage of an account gives the unique id of the
session that the account will have, or zero. -/
structure World where
  crypto : Crypto
  accountSession : AuthKey → Int32 → Nat
  legacyStart : Bytes → LegacyStart
  random : Random

/-- The fields of `Storage::Domain`. -/
structure StorageDomain where
  localKey : Option AuthKey := none
  passcodeKey : Option AuthKey := none
  passcodeKeySalt : Bytes := []
  passcodeKeyEncrypted : Bytes := []
  oldVersion : Int32 := 0
  hasLocalPasscode : Bool := false
  deriving DecidableEq

/-- An account has a session if the unique id of it is not zero. -/
structure AccountWithIndex where
  index : Int32 := 0
  sessionId : Nat
  deriving DecidableEq

def AccountWithIndex.sessionExists (account : AccountWithIndex) : Bool := account.sessionId ≠ 0

/-- The fields of `Main::Domain`, its storage and the file.  The active account is known
by its index. -/
structure Domain where
  storage : StorageDomain := {}
  accounts : List AccountWithIndex := []
  active : Option Int32 := none
  accountToActivate : Int32 := -1
  writeAccountsScheduled : Bool := false
  keyFile : Option KeyFile := none
  deriving DecidableEq

/-- How the start of the domain ends. -/
inductive StartResult
  | success
  | incorrectPasscode
  | incorrectPasscodeLegacy
  deriving DecidableEq

/-- How the reading of the key file ends. -/
inductive StartModernResult
  | success
  | incorrectPasscode
  | failed
  | empty
  deriving DecidableEq

namespace Domain

variable (owner : Domain)

def started : Bool := !owner.accounts.isEmpty

def indices : List Int32 := owner.accounts.map (·.index)

/-- An account of a new index is added. -/
def accountAddedInStorage (account : AccountWithIndex) : Option Domain :=
  if account.index ∈ owner.indices then none
  else some { owner with accounts := owner.accounts ++ [account] }

def activateFromStorage (index : Int32) : Domain := { owner with accountToActivate := index }

def activeForStorage : Int32 := owner.accountToActivate

end Domain

/-- The salt, the encrypted key and the encrypted list. -/
def KeyFile.read (file : KeyFile) : Option (Bytes × Bytes × Bytes) :=
  let salt := DataStream.readQByteArray ⟨file.content, true⟩
  let keyEncrypted := salt.2.readQByteArray
  let infoEncrypted := keyEncrypted.2.readQByteArray
  if infoEncrypted.2.ok then
    some (salt.1.data.getD [], keyEncrypted.1.data.getD [], infoEncrypted.1.data.getD [])
  else none

/-- Too few bytes spoil the stream, and after too many it is not at its end. -/
def readAuthKey (keyInnerData : Bytes) : Option AuthKey :=
  if size : keyInnerData.length = 256 then some ⟨keyInnerData, size⟩ else none

namespace Storage

open DataStream

section Writing

variable (crypto : Crypto) (passcode : Bytes) (owner : Domain)

/-- The key of the data under a new passcode. -/
def encryptLocalKey (salt : Salt) : Option Domain :=
  owner.storage.localKey.map fun localKey =>
    let passcodeKey := crypto.createLocalKey passcode salt.val
    { owner with storage := { owner.storage with
        passcodeKeySalt := salt.val
        passcodeKey := some passcodeKey
        passcodeKeyEncrypted := crypto.prepareEncrypted localKey.data passcodeKey
        hasLocalPasscode := !passcode.isEmpty } }

/-- The size of the list, its indices and the index of the active account. -/
def accountsInfo (indices : List Int32) (active : Int32) : Bytes :=
  writeSize indices.length ++ indices.flatMap writeInt32 ++ writeInt32 active

/-- The list of the accounts is written. -/
def writeAccounts : Option Domain :=
  if owner.accounts = [] then none
  else
    owner.storage.localKey.map fun localKey =>
      { owner with keyFile := some {
          version := appVersion
          content := writeByteArray (some owner.storage.passcodeKeySalt) ++
            writeByteArray (some owner.storage.passcodeKeyEncrypted) ++
            writeByteArray (some (crypto.prepareEncrypted
              (accountsInfo owner.indices owner.activeForStorage) localKey)) } }

/-- The local key is encrypted anew. -/
def setPasscode (salt : Salt) : Option Domain :=
  if owner.storage.passcodeKeySalt = [] then none
  else (encryptLocalKey crypto passcode owner salt).bind (writeAccounts crypto)

end Writing

variable (world : World) (owner : Domain)

def generateLocalKey : Option Domain :=
  if owner.storage.localKey.isNone ∧ owner.storage.passcodeKeySalt = [] ∧
      owner.storage.passcodeKeyEncrypted = [] then
    let localKey := world.crypto.createLocalKey world.random.pass world.random.salt
    encryptLocalKey world.crypto []
      { owner with storage := { owner.storage with localKey := some localKey } }
      world.random.passcodeKeySalt
  else none

/-- The account has a key of its own if it was started from a legacy map. -/
def startWithSingleAccount (passcode : Bytes) (legacyKey : Option AuthKey) (legacySession : Nat) :
    Option Domain :=
  let started := match legacyKey with
    | some localKey =>
      (encryptLocalKey world.crypto passcode
        { owner with storage := { owner.storage with localKey := some localKey } }
        world.random.passcodeKeySalt).map fun owner => (owner, legacySession)
    | none =>
      (generateLocalKey world owner).bind fun owner =>
        owner.storage.localKey.map fun localKey => (owner, world.accountSession localKey 0)
  started.bind fun (owner, sessionId) =>
    (owner.accountAddedInStorage { sessionId }).bind (writeAccounts world.crypto)

/-- A first account with a new key. -/
def startFromScratch : Option Domain := startWithSingleAccount world owner [] none 0

/-- The domain while its accounts are read. -/
structure Reading where
  stream : DataStream
  owner : Domain
  tried : List Int32 := []
  sessions : List Nat := []
  active : Int32 := 0

/-- One index.  Only the last one may have no session, if no account was added. -/
def readAccount (localKey : AuthKey) (isLast : Bool) (reading : Reading) : Option Reading :=
  let index := reading.stream.readInt32.1
  let reading := { reading with stream := reading.stream.readInt32.2 }
  if 0 ≤ index ∧ index < kPremiumMaxAccounts ∧ index ∉ reading.tried then
    let reading := { reading with tried := index :: reading.tried }
    let sessionId := world.accountSession localKey index
    if sessionId ∉ reading.sessions ∧ (sessionId ≠ 0 ∨ reading.sessions = [] ∧ isLast) then
      (reading.owner.accountAddedInStorage { index, sessionId }).map fun owner =>
        { reading with
          active := if reading.sessions = [] then index else reading.active
          owner
          sessions := sessionId :: reading.sessions }
    else some reading
  else some reading

/-- So many accounts of the list. -/
def readAccounts (localKey : AuthKey) : Nat → Reading → Option Reading
  | 0, reading => some reading
  | left + 1, reading =>
    (readAccount world localKey (left = 0) reading).bind (readAccounts localKey left)

/-- The list after it was decrypted. -/
def startAccounts (localKey : AuthKey) (version : Int32) (info : Bytes) :
    Option (Domain × StartModernResult) :=
  let count := readInt32 ⟨info, true⟩
  if count.1 ≤ 0 ∨ count.1 > kPremiumMaxAccounts then some (owner, .failed)
  else
    let owner := { owner with storage := { owner.storage with oldVersion := version } }
    (readAccounts world localKey count.1.toNatClampNeg { stream := count.2, owner }).map
      fun reading =>
        if reading.sessions = [] then (reading.owner, .failed)
        else
          let active :=
            if reading.stream.atEnd then reading.active else reading.stream.readInt32.1
          (reading.owner.activateFromStorage active, .success)

/-- The key file is opened with a passcode. -/
def startModern (passcode : Bytes) : Option (Domain × StartModernResult) :=
  match owner.keyFile with
  | none => some (owner, .empty)
  | some keyData =>
    match keyData.read with
    | none => some (owner, .failed)
    | some (salt, keyEncrypted, infoEncrypted) =>
      if salt.length ≠ localEncryptSaltSize then some (owner, .failed)
      else
        let passcodeKey := world.crypto.createLocalKey passcode salt
        let owner := { owner with
          storage := { owner.storage with passcodeKey := some passcodeKey } }
        match world.crypto.decryptLocal keyEncrypted passcodeKey with
        | none => some (owner, .incorrectPasscode)
        | some keyInnerData =>
          match readAuthKey keyInnerData with
          | none => some (owner, .failed)
          | some localKey =>
            let owner := { owner with storage := { owner.storage with
              localKey := some localKey
              passcodeKeyEncrypted := keyEncrypted
              passcodeKeySalt := salt
              hasLocalPasscode := !passcode.isEmpty } }
            match world.crypto.decryptLocal infoEncrypted localKey with
            | none => some (owner, .failed)
            | some info => startAccounts world owner localKey keyData.version info

/-- The accounts of the key file, or a first one. -/
def start (passcode : Bytes) : Option (Domain × StartResult) :=
  (startModern world owner passcode).bind fun (owner, modern) =>
    match modern with
    | .success =>
      if owner.storage.oldVersion < appVersion then
        (writeAccounts world.crypto owner).map fun owner => (owner, .success)
      else some (owner, .success)
    | .incorrectPasscode => some (owner, .incorrectPasscode)
    | .failed => (startFromScratch world owner).map fun owner => (owner, .success)
    | .empty =>
      match world.legacyStart passcode with
      | .incorrectPasscodeLegacy => some (owner, .incorrectPasscodeLegacy)
      | .success legacyKey oldMapVersion sessionId =>
        let owner := { owner with
          storage := { owner.storage with oldVersion := oldMapVersion } }
        (startWithSingleAccount world owner passcode legacyKey sessionId).map
          fun owner => (owner, .success)

end Storage

namespace Domain

variable (owner : Domain)

def sessionExists (index : Int32) : Bool :=
  owner.accounts.any fun account => account.index = index ∧ account.sessionExists

def activeSessionExists : Bool := owner.active.any owner.sessionExists

def scheduleWriteAccounts : Domain := { owner with writeAccountsScheduled := true }

/-- Where no write is scheduled after a change, `removeRedundantAccounts` is queued. -/
def activate (index : Int32) : Option Domain :=
  if owner.active = some index then some owner
  else if index ∉ owner.indices then none
  else
    let changed := owner.accountToActivate ≠ index
    let wasAuthed := owner.activeSessionExists
    let next := { owner with accountToActivate := index, active := some index }
    some (if changed ∧ wasAuthed then next.scheduleWriteAccounts else next)

/-- Without any login the passcode is removed. -/
def removePasscodeIfEmpty (crypto : Crypto) (salt : Salt) : Option (Domain × Bool) :=
  if owner.accounts.length ≠ 1 ∨ owner.activeSessionExists then some (owner, false)
  else if !owner.storage.hasLocalPasscode then some (owner, false)
  else (Storage.setPasscode crypto [] owner salt).map fun owner => (owner, true)

def activateAfterStarting (crypto : Crypto) (salt : Salt) : Option Domain :=
  match owner.accounts with
  | [] => none
  | front :: _ =>
    let toActivate :=
      if owner.accountToActivate ∈ owner.indices then owner.accountToActivate else front.index
    (owner.activate toActivate).bind fun owner =>
      (owner.removePasscodeIfEmpty crypto salt).map (·.1)

/-- The last argument is the salt of a passcode that is removed. -/
def start (world : World) (passcode : Bytes) (salt : Salt) : Option (Domain × StartResult) :=
  if owner.started then none
  else
    (Storage.start world owner passcode).bind fun (owner, result) =>
      if result = .success then
        (owner.activateAfterStarting world.crypto salt).map fun owner => (owner, result)
      else if owner.started then none
      else some (owner, result)

/-- A domain that did not start begins anew.  In one that did, each account asks to log
out, which changes nothing yet. -/
def resetWithForgottenPasscode (world : World) (salt : Salt) : Option Domain :=
  if owner.accounts = [] then
    (Storage.startFromScratch world owner).bind
      fun owner => owner.activateAfterStarting world.crypto salt
  else some owner

end Domain

end TelegramDesktop.Accounts
