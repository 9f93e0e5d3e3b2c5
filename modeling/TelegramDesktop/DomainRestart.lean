import TelegramDesktop.StorageDomainStart
import TelegramDesktop.DomainAccounts
import TelegramDesktop.LocalFilesRoundTrip
import Mathlib.Data.List.Perm.Subperm

/-!
# Starting again

A start from a list that was written before gives the accounts in the list that have a
session, in the order of the list, or the last one if there are none.
-/

namespace TelegramDesktop.Accounts

open DataStream List Option Domain

/-- The indices that the file of the domain may list. -/
structure Listable (indices : List Int32) : Prop where
  nonempty : indices ≠ []
  nodup : indices.Nodup
  inRange : ∀ index ∈ indices, InRange index

theorem listable_zero : Listable [0] where
  nonempty := cons_ne_nil _ _
  nodup := pairwise_singleton _ _
  inRange := by
    intro index member
    rw [mem_singleton.mp member]
    decide

def allIndices : List Int32 := [0, 1, 2, 3, 4, 5]

theorem mem_allIndices {index : Int32} (inRange : InRange index) : index ∈ allIndices := by
  obtain ⟨low, high⟩ := inRange
  have low : (0 : Int32).toInt ≤ index.toInt := Int32.le_iff_toInt_le.mp low
  have high : index.toInt < kPremiumMaxAccounts.toInt := Int32.lt_iff_toInt_lt.mp high
  have six : kPremiumMaxAccounts.toInt = 6 := rfl
  have zero : (0 : Int32).toInt = 0 := rfl
  rw [six] at high
  rw [zero] at low
  have back : index = Int32.ofInt index.toInt := index.ofInt_toInt.symm
  rw [back]
  obtain value | value | value | value | value | value : index.toInt = 0 ∨ index.toInt = 1 ∨
      index.toInt = 2 ∨ index.toInt = 3 ∨ index.toInt = 4 ∨ index.toInt = 5 := by omega
  all_goals
    rw [value]
    decide

variable {indices : List Int32}

theorem length_le_six (nodup : indices.Nodup)
    (inRange : ∀ index ∈ indices, InRange index) : indices.length ≤ 6 :=
  (Nodup.subperm nodup fun index member => mem_allIndices (inRange index member)).length_le

/-- Decryption inverts encryption, for data that is as short as a key. -/
structure Crypto.Faithful (crypto : Crypto) : Prop where
  decrypts : ∀ data key, data.length ≤ 256 →
    crypto.decryptLocal (crypto.prepareEncrypted data key) key = some data
  small : ∀ data key, data.length ≤ 256 → (crypto.prepareEncrypted data key).length < 2 ^ 31

/-- The local cipher with the keys and the random bytes of the domain. -/
def ofLocalCrypto (crypto : LocalCrypto AuthKey) (createLocalKey : Bytes → Bytes → AuthKey)
    (random : Nat → UInt8) : Crypto where
  createLocalKey := createLocalKey
  decryptLocal := fun bytes key => (crypto.decryptLocal key bytes).map (·.rest)
  prepareEncrypted := fun data key =>
    crypto.prepareEncrypted key random (LocalCrypto.encryptedDescriptor data)

theorem faithful_ofLocalCrypto (crypto : LocalCrypto AuthKey)
    (createLocalKey : Bytes → Bytes → AuthKey) (random : Nat → UInt8) :
    (ofLocalCrypto crypto createLocalKey random).Faithful where
  decrypts := by
    intro data key short
    simp only [ofLocalCrypto]
    rw [LocalCrypto.decryptLocal_prepareEncrypted key random (by omega), map_some]
    rfl
  small := by
    intro data key short
    have small : data.length < 2 ^ 31 := by omega
    obtain ⟨filling, fills, prepared⟩ :=
      LocalCrypto.prepareEncrypted_eq crypto key random small
    simp only [ofLocalCrypto]
    rw [prepared, length_append, crypto.length_encrypt _ _ _ (by simp; omega)]
    simp
    omega

theorem readQByteArray_write {bytes : Bytes} (small : bytes.length < 2 ^ 31) (rest : Bytes)
    (ok : Bool) : ∃ array : QByteArray, array.data = some bytes ∧
      readQByteArray ⟨writeByteArray (some bytes) ++ rest, ok⟩ = (array, ⟨rest, ok⟩) := by
  let array : QByteArray := ⟨some bytes, by rw [getD_some]; omega⟩
  exact ⟨array, rfl, exact_qByteArray.read_write array rest ok⟩

theorem read_written {salt keyEncrypted infoEncrypted : Bytes} (version : Int32)
    (saltSmall : salt.length < 2 ^ 31) (keySmall : keyEncrypted.length < 2 ^ 31)
    (infoSmall : infoEncrypted.length < 2 ^ 31) :
    KeyFile.read { version, content := writeByteArray (some salt) ++
        writeByteArray (some keyEncrypted) ++ writeByteArray (some infoEncrypted) } =
      some (salt, keyEncrypted, infoEncrypted) := by
  obtain ⟨saltArray, saltData, saltRead⟩ := readQByteArray_write saltSmall
    (writeByteArray (some keyEncrypted) ++ writeByteArray (some infoEncrypted)) true
  obtain ⟨keyArray, keyData, keyRead⟩ := readQByteArray_write keySmall
    (writeByteArray (some infoEncrypted)) true
  obtain ⟨infoArray, infoData, infoRead⟩ := readQByteArray_write infoSmall [] true
  rw [append_nil] at infoRead
  unfold KeyFile.read
  rw [append_assoc, saltRead]
  dsimp only
  rw [keyRead]
  rw [infoRead, if_pos rfl, saltData, keyData, infoData]
  rfl

/-- A file that lists these indices and this active index, for the passcode and the key. -/
def Lists (crypto : Crypto) (passcode : Bytes) (localKey : AuthKey) (file : KeyFile)
    (indices : List Int32) (active : Int32) : Prop :=
  ∃ salt keyEncrypted,
    file.read = some (salt, keyEncrypted,
      crypto.prepareEncrypted (Storage.accountsInfo indices active) localKey) ∧
    salt.length = localEncryptSaltSize ∧ keyEncrypted.length < 2 ^ 31 ∧
    crypto.decryptLocal keyEncrypted (crypto.createLocalKey passcode salt) = some localKey.data

theorem length_accountsInfo (indices : List Int32) (active : Int32) :
    (Storage.accountsInfo indices active).length = 4 * indices.length + 8 := by
  have each : (indices.flatMap writeInt32).length = 4 * indices.length := by
    induction indices with
    | nil => rfl
    | cons index rest ih =>
      rw [flatMap_cons, length_append, ih, length_writeInt32, length_cons]
      omega
  rw [Storage.accountsInfo, length_append, length_append, each, length_writeSize, length_writeInt32]
  omega

theorem readAuthKey_data (localKey : AuthKey) : readAuthKey localKey.data = some localKey := by
  rw [readAuthKey, dif_pos localKey.size]

/-- The accounts with a session, or the first one where there is none. -/
def restored (session : Int32 → Nat) (indices : List Int32) : List Int32 :=
  let authed := indices.filter fun index => session index ≠ 0
  if authed = [] then indices.getLast?.toList else authed

/-- No two of the accounts with these indices have the same session. -/
def DistinctSessions (session : Int32 → Nat) (indices : List Int32) : Prop :=
  ∀ first ∈ indices, ∀ second ∈ indices, session first = session second → session first ≠ 0 →
    first = second

variable {session : Int32 → Nat}

theorem DistinctSessions.mono {indices fewer : List Int32}
    (distinct : DistinctSessions session indices) (subset : fewer ⊆ indices) :
    DistinctSessions session fewer := by
  intro first firstMember second secondMember
  exact distinct first (subset firstMember) second (subset secondMember)

/-- The accounts with these sessions. -/
def withSessions (session : Int32 → Nat) (indices : List Int32) : List AccountWithIndex :=
  indices.map fun index => { index, sessionId := session index }

@[simp] theorem indices_withSessions (session : Int32 → Nat) (indices : List Int32) :
    (withSessions session indices).map (·.index) = indices := by
  rw [withSessions, List.map_map]
  exact List.map_id indices

section

variable {tried : List Int32} (nodup : indices.Nodup) (inRange : ∀ index ∈ indices, InRange index)
  (untried : ∀ index ∈ indices, index ∉ tried)

include nodup inRange untried

theorem accept_authed {sessions : List Nat} (some : sessions ≠ [])
    (fresh : ∀ index ∈ indices, session index ≠ 0 → session index ∉ sessions)
    (distinct : DistinctSessions session indices) :
    accept session tried sessions indices =
      withSessions session (indices.filter fun index => session index ≠ 0) := by
  induction indices generalizing tried sessions with
  | nil => rfl
  | cons index rest ih =>
    obtain ⟨unique, nodup⟩ := nodup_cons.mp nodup
    have inRangeRest := fun other member => inRange other (mem_cons_of_mem index member)
    have untriedRest : ∀ other ∈ rest, other ∉ index :: tried := fun other member =>
      not_mem_cons_of_ne_of_not_mem (ne_of_mem_of_not_mem member unique)
        ((forall_mem_cons.mp untried).2 other member)
    have distinctRest := distinct.mono (subset_cons_self index rest)
    unfold accept
    rw [if_pos ⟨inRange index mem_cons_self, untried index mem_cons_self⟩]
    by_cases authed : session index = 0
    · rw [if_neg (by simp [authed, some]), filter_cons_of_neg (by simp [authed])]
      exact ih nodup inRangeRest untriedRest some
        (fun other member => fresh other (mem_cons_of_mem _ member)) distinctRest
    · rw [if_pos ⟨fresh index mem_cons_self authed, .inl authed⟩,
        filter_cons_of_pos (by simp [authed]), withSessions, map_cons]
      congr 1
      refine ih nodup inRangeRest untriedRest (cons_ne_nil _ _) ?_ distinctRest
      intro other member has old
      rcases mem_cons.mp old with same | old
      · have equal := distinct other (mem_cons_of_mem _ member) index mem_cons_self same has
        exact unique (equal ▸ member)
      · exact fresh other (mem_cons_of_mem _ member) has old

theorem accept_eq_restored (distinct : DistinctSessions session indices) :
    accept session tried [] indices = withSessions session (restored session indices) := by
  induction indices generalizing tried with
  | nil => rfl
  | cons index rest ih =>
    obtain ⟨unique, nodup⟩ := nodup_cons.mp nodup
    have inRangeRest := fun other member => inRange other (mem_cons_of_mem index member)
    have untriedRest : ∀ other ∈ rest, other ∉ index :: tried := fun other member =>
      not_mem_cons_of_ne_of_not_mem (ne_of_mem_of_not_mem member unique)
        ((forall_mem_cons.mp untried).2 other member)
    have distinctRest := distinct.mono (subset_cons_self index rest)
    unfold accept
    rw [if_pos ⟨inRange index mem_cons_self, untried index mem_cons_self⟩]
    by_cases authed : session index = 0
    · cases rest with
      | nil => simp [accept, restored, withSessions, authed]
      | cons next rest =>
        rw [if_neg (by simp [authed]), ih nodup inRangeRest untriedRest distinctRest]
        congr 1
        have skip : (index :: next :: rest).filter (fun other => session other ≠ 0) =
            (next :: rest).filter fun other => session other ≠ 0 :=
          filter_cons_of_neg (by simp [authed])
        simp only [restored]
        rw [skip, getLast?_cons_cons]
    · have same : restored session (index :: rest) =
          index :: rest.filter fun other => session other ≠ 0 := by
        simp only [restored]
        rw [filter_cons_of_pos (by simp [authed]), if_neg (cons_ne_nil _ _)]
      rw [if_pos ⟨not_mem_nil, .inl authed⟩, same, withSessions, map_cons]
      congr 1
      refine accept_authed nodup inRangeRest untriedRest (cons_ne_nil _ _) ?_ distinctRest
      intro other member has old
      have equal := distinct other (mem_cons_of_mem _ member) index mem_cons_self
        (mem_singleton.mp old) has
      exact unique (equal ▸ member)

end

theorem restored_ne_nil (nonempty : indices ≠ []) :
    restored session indices ≠ [] := by
  unfold restored
  dsimp only
  split
  · rw [getLast?_eq_some_getLast nonempty]
    exact cons_ne_nil _ _
  · assumption

theorem restored_sublist (session : Int32 → Nat) (indices : List Int32) :
    (restored session indices).Sublist indices := by
  unfold restored
  dsimp only
  split
  · cases last : indices.getLast? with
    | none => exact nil_sublist _
    | some index => exact singleton_sublist.mpr (mem_of_getLast? last)
  · exact filter_sublist

theorem Listable.restored (listable : Listable indices)
    (session : Int32 → Nat) : Listable (restored session indices) where
  nonempty := restored_ne_nil listable.nonempty
  nodup := listable.nodup.sublist (restored_sublist session indices)
  inRange := fun index member =>
    listable.inRange index ((restored_sublist session indices).subset member)

/-- The storage has the local key, encrypted with the passcode. -/
structure StorageDomain.Sealed (crypto : Crypto) (storage : StorageDomain) (passcode : Bytes)
    (localKey : AuthKey) : Prop where
  key : storage.localKey = some localKey
  salt : storage.passcodeKeySalt.length = localEncryptSaltSize
  small : storage.passcodeKeyEncrypted.length < 2 ^ 31
  keyEncrypted : crypto.decryptLocal storage.passcodeKeyEncrypted
    (crypto.createLocalKey passcode storage.passcodeKeySalt) = some localKey.data
  hasLocalPasscode : storage.hasLocalPasscode = !passcode.isEmpty

theorem StorageDomain.Sealed.life_eq {crypto : Crypto} {domain : Domain} {given passcode : Bytes}
    {localKey : AuthKey} (stored : domain.storage.Sealed crypto passcode localKey)
    (same : passcode = given ∨ passcode = []) : domain.life given = { domain, passcode } := by
  rw [life, stored.hasLocalPasscode]
  obtain rfl | rfl := same
  · cases passcode with
    | nil => rfl
    | cons => rfl
  · rfl

namespace Storage

variable {crypto : Crypto} (owner : Domain) {passcode : Bytes} {localKey : AuthKey}

theorem writeAccounts_lists (faithful : crypto.Faithful)
    (stored : owner.storage.Sealed crypto passcode localKey) (listable : Listable owner.indices) :
    ∃ file, writeAccounts crypto owner = some { owner with keyFile := some file } ∧
      Lists crypto passcode localKey file owner.indices owner.accountToActivate := by
  have nonempty : owner.accounts ≠ [] := by
    intro none
    refine listable.nonempty ?_
    rw [indices, none]
    rfl
  have few := length_le_six listable.nodup listable.inRange
  have infoSmall := faithful.small (accountsInfo owner.indices owner.accountToActivate) localKey
    (by rw [length_accountsInfo]; omega)
  have size : localEncryptSaltSize = 32 := rfl
  have saltSmall : owner.storage.passcodeKeySalt.length < 2 ^ 31 := by
    rw [stored.salt, size]
    omega
  refine ⟨_, ?_, owner.storage.passcodeKeySalt, owner.storage.passcodeKeyEncrypted,
    read_written appVersion saltSmall stored.small infoSmall, stored.salt, stored.small,
    stored.keyEncrypted⟩
  rw [writeAccounts, if_neg nonempty, stored.key, map_some]
  rfl

theorem encryptLocalKey_sealed (faithful : crypto.Faithful)
    (key : owner.storage.localKey = some localKey) (passcode : Bytes) (salt : Salt) :
    ∃ storage, encryptLocalKey crypto passcode owner salt = some { owner with storage } ∧
      storage.Sealed crypto passcode localKey := by
  have size := localKey.size
  refine ⟨{ owner.storage with
    passcodeKeySalt := salt.val
    passcodeKey := some (crypto.createLocalKey passcode salt.val)
    passcodeKeyEncrypted := crypto.prepareEncrypted localKey.data
      (crypto.createLocalKey passcode salt.val)
    hasLocalPasscode := !passcode.isEmpty }, ?_, ?_⟩
  · rw [encryptLocalKey, key, map_some]
  · exact ⟨key, salt.property, faithful.small _ _ (by omega), faithful.decrypts _ _ (by omega), rfl⟩

theorem setPasscode_sealed (faithful : crypto.Faithful) {old : Bytes}
    (stored : owner.storage.Sealed crypto old localKey) (listable : Listable owner.indices)
    (passcode : Bytes) (salt : Salt) :
    ∃ storage file, setPasscode crypto passcode owner salt =
        some { owner with storage, keyFile := some file } ∧
      storage.Sealed crypto passcode localKey ∧
      Lists crypto passcode localKey file owner.indices owner.accountToActivate := by
  have salted : owner.storage.passcodeKeySalt ≠ [] := by
    intro none
    have size := stored.salt
    rw [none] at size
    cases size
  obtain ⟨storage, encrypted, good⟩ :=
    encryptLocalKey_sealed owner faithful stored.key passcode salt
  obtain ⟨file, written, lists⟩ :=
    writeAccounts_lists { owner with storage } faithful good listable
  refine ⟨storage, file, ?_, good, lists⟩
  rw [setPasscode, if_neg salted, encrypted, bind_some, written]

variable {world : World} {indices : List Int32} (active : Int32)

theorem startAccounts_listed (listable : Listable indices) (none : owner.accounts = [])
    (distinct : DistinctSessions (world.accountSession localKey) indices) (version : Int32) :
    startAccounts world owner localKey version (accountsInfo indices active) =
      some ({ owner with
        storage := { owner.storage with oldVersion := version }
        accounts := withSessions (world.accountSession localKey)
          (restored (world.accountSession localKey) indices)
        accountToActivate := active }, .success) := by
  have few := length_le_six listable.nodup listable.inRange
  have size : (UInt32.ofNat indices.length).toInt32.toInt = indices.length :=
    toInt_size (by omega)
  have positive := length_pos_iff.mpr listable.nonempty
  have goodCount : ¬((UInt32.ofNat indices.length).toInt32 ≤ 0 ∨
      (UInt32.ofNat indices.length).toInt32 > kPremiumMaxAccounts) := by
    have zero : (0 : Int32).toInt = 0 := rfl
    have six : kPremiumMaxAccounts.toInt = 6 := rfl
    rw [gt_iff_lt, Int32.le_iff_toInt_le, Int32.lt_iff_toInt_lt, size, zero, six]
    omega
  have count : (UInt32.ofNat indices.length).toInt32.toNatClampNeg = indices.length := by
    rw [Int32.toNatClampNeg, size]
    rfl
  obtain ⟨reading, done, streamEq, ownerEq, sessionsEq, -⟩ := readAccounts_eq world localKey
    indices.length {
      stream := ⟨indices.flatMap writeInt32 ++ writeInt32 active, true⟩
      owner := { owner with storage := { owner.storage with oldVersion := version } } }
    (by rw [Domain.indices, none]; exact nil_subset _)
  have read := readTimes_write exact_int32 indices (writeInt32 active) true
  rw [read] at streamEq ownerEq sessionsEq
  rw [accept_eq_restored listable.nodup listable.inRange (fun _ _ => not_mem_nil) distinct]
    at ownerEq sessionsEq
  have some : reading.sessions ≠ [] := by
    intro empty
    exact restored_ne_nil listable.nonempty (map_eq_nil_iff.mp (sessionsEq.mp empty).2)
  have notAtEnd : reading.stream.atEnd = false := by
    have length := length_writeInt32 active
    rw [streamEq, atEnd, isEmpty_eq_false_iff]
    rintro (empty : writeInt32 active = [])
    rw [empty] at length
    cases length
  have last : reading.stream.readInt32.1 = active := by
    have value := readInt32_write active [] true
    rw [append_nil] at value
    rw [streamEq, value]
  unfold startAccounts accountsInfo
  rw [append_assoc, readInt32_writeSize]
  dsimp only
  rw [if_neg goodCount, count, done, map_some, if_neg some, notAtEnd,
    if_neg Bool.false_ne_true, last, ownerEq, none, nil_append]
  rfl

section

variable {file : KeyFile} (faithful : world.crypto.Faithful) (listable : Listable indices)
  (none : owner.accounts = []) (present : owner.keyFile = some file)
  (lists : Lists world.crypto passcode localKey file indices active)
  (distinct : DistinctSessions (world.accountSession localKey) indices)

include faithful listable none present lists distinct

theorem startModern_listed :
    ∃ storage, startModern world owner passcode = some ({ owner with
        storage
        accounts := withSessions (world.accountSession localKey)
          (restored (world.accountSession localKey) indices)
        accountToActivate := active }, .success) ∧
      storage.Sealed world.crypto passcode localKey := by
  obtain ⟨salt, keyEncrypted, read, size, small, opened⟩ := lists
  have few := length_le_six listable.nodup listable.inRange
  have decrypted := faithful.decrypts (accountsInfo indices active) localKey
    (by rw [length_accountsInfo]; omega)
  let storage : StorageDomain := { owner.storage with
    localKey := some localKey
    passcodeKey := some (world.crypto.createLocalKey passcode salt)
    passcodeKeySalt := salt
    passcodeKeyEncrypted := keyEncrypted
    hasLocalPasscode := !passcode.isEmpty }
  refine ⟨{ storage with oldVersion := file.version }, ?_, ⟨rfl, size, small, opened, rfl⟩⟩
  have started := startAccounts_listed { owner with storage } active listable none distinct
    file.version
  unfold startModern
  rw [present]
  dsimp only
  rw [read]
  dsimp only
  rw [if_neg (not_not.mpr size), opened]
  dsimp only
  rw [readAuthKey_data]
  dsimp only
  rw [decrypted]
  rw [← present]
  exact started

theorem start_listed :
    ∃ storage file listed, start world owner passcode = some ({ owner with
        storage
        accounts := withSessions (world.accountSession localKey)
          (restored (world.accountSession localKey) indices)
        accountToActivate := active
        keyFile := some file }, .success) ∧
      storage.Sealed world.crypto passcode localKey ∧
      Lists world.crypto passcode localKey file listed active ∧
      (listed = indices ∨ listed = restored (world.accountSession localKey) indices) := by
  obtain ⟨storage, started, stored⟩ :=
    startModern_listed owner active faithful listable none present lists distinct
  have same : Domain.indices { owner with
      storage
      accounts := withSessions (world.accountSession localKey)
        (restored (world.accountSession localKey) indices)
      accountToActivate := active } = restored (world.accountSession localKey) indices :=
    indices_withSessions _ _
  unfold start
  rw [started, bind_some]
  dsimp only
  split
  · obtain ⟨newFile, written, newLists⟩ := writeAccounts_lists { owner with
        storage
        accounts := withSessions (world.accountSession localKey)
          (restored (world.accountSession localKey) indices)
        accountToActivate := active } faithful stored (by
      rw [same]
      exact listable.restored _)
    rw [same] at newLists
    rw [written, map_some]
    exact ⟨storage, newFile, _, rfl, stored, newLists, .inr rfl⟩
  · refine ⟨storage, file, indices, ?_, stored, lists, .inl rfl⟩
    rw [present]

end

theorem startWithSingleAccount_lists (faithful : world.crypto.Faithful)
    (untouched : owner.Untouched) (passcode : Bytes) (legacyKey : Option AuthKey)
    (legacySession : Nat) :
    ∃ storage file localKey sessionId newPasscode,
      startWithSingleAccount world owner passcode legacyKey legacySession = some { owner with
        storage
        accounts := [{ sessionId }]
        keyFile := some file } ∧
      (newPasscode = passcode ∨ newPasscode = []) ∧
      storage.Sealed world.crypto newPasscode localKey ∧
      Lists world.crypto newPasscode localKey file [0] owner.accountToActivate := by
  have free : (0 : Int32) ∉ owner.indices := by
    rw [indices, untouched.accounts]
    exact not_mem_nil
  have finish : ∀ storage localKey passcode sessionId,
      StorageDomain.Sealed world.crypto storage passcode localKey →
      ∃ file, (accountAddedInStorage { owner with storage } { sessionId }).bind
          (writeAccounts world.crypto) = some { owner with
            storage
            accounts := [{ sessionId }]
            keyFile := some file } ∧
        Lists world.crypto passcode localKey file [0] owner.accountToActivate := by
    intro storage localKey passcode sessionId stored
    obtain ⟨file, written, lists⟩ := writeAccounts_lists { owner with
      storage
      accounts := [{ sessionId }] } faithful stored listable_zero
    refine ⟨file, ?_, lists⟩
    rw [accountAddedInStorage, if_neg (by exact free), bind_some, untouched.accounts]
    exact written
  unfold startWithSingleAccount
  cases legacyKey with
  | some localKey =>
    obtain ⟨storage, encrypted, stored⟩ := encryptLocalKey_sealed
      { owner with storage := { owner.storage with localKey := some localKey } }
      faithful rfl passcode world.random.passcodeKeySalt
    obtain ⟨file, written, lists⟩ := finish storage localKey passcode legacySession stored
    refine ⟨storage, file, localKey, legacySession, passcode, ?_, .inl rfl, stored, lists⟩
    dsimp only
    rw [encrypted, map_some, bind_some]
    exact written
  | none =>
    have unset : owner.storage.localKey.isNone ∧ owner.storage.passcodeKeySalt = [] ∧
        owner.storage.passcodeKeyEncrypted = [] :=
      ⟨by rw [untouched.localKey]; rfl, untouched.salt, untouched.keyEncrypted⟩
    let localKey := world.crypto.createLocalKey world.random.pass world.random.salt
    obtain ⟨storage, encrypted, stored⟩ := encryptLocalKey_sealed
      { owner with storage := { owner.storage with localKey := some localKey } }
      faithful rfl [] world.random.passcodeKeySalt
    obtain ⟨file, written, lists⟩ :=
      finish storage localKey [] (world.accountSession localKey 0) stored
    refine ⟨storage, file, localKey, world.accountSession localKey 0, [], ?_, .inr rfl,
      stored, lists⟩
    dsimp only [generateLocalKey]
    rw [if_pos unset, encrypted, bind_some]
    rw [stored.key, map_some, bind_some]
    exact written

end Storage

end TelegramDesktop.Accounts
