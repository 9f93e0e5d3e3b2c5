import TelegramDesktop.StorageDomainReading

/-!
# Starting from any key file

A start falls back to a new domain whenever the file cannot be used.  The fallback
makes a local key and expects that there is none, so it works only if the file failed
before its own key was taken over.
-/

namespace TelegramDesktop.Accounts

open Option Domain List DataStream

/-- The domain of a running program. -/
structure Domain.Running (owner : Domain) : Prop where
  localKey : owner.storage.localKey ≠ none
  salt : owner.storage.passcodeKeySalt ≠ []
  accounts : owner.accounts ≠ []
  nodup : owner.indices.Nodup

/-- A domain whose storage was not read yet. -/
structure Domain.Untouched (owner : Domain) : Prop where
  localKey : owner.storage.localKey = none
  salt : owner.storage.passcodeKeySalt = []
  keyEncrypted : owner.storage.passcodeKeyEncrypted = []
  accounts : owner.accounts = []

theorem salt_ne_nil (salt : Salt) : salt.val ≠ [] := by
  intro none
  have size := salt.property
  rw [none] at size
  cases size

namespace Storage

section Writing

variable (crypto : Crypto) {owner : Domain}

theorem writeAccounts_running (running : owner.Running) :
    ∃ next, writeAccounts crypto owner = some next ∧ next.Running ∧
      next.storage = owner.storage ∧ next.accounts = owner.accounts ∧
      next.active = owner.active := by
  obtain ⟨localKey, key⟩ := ne_none_iff_exists'.mp running.localKey
  unfold writeAccounts
  rw [if_neg running.accounts, key, map_some]
  exact ⟨_, rfl, { running with }, rfl, rfl, rfl⟩

theorem encryptLocalKey_spec (owner : Domain) {localKey : AuthKey}
    (key : owner.storage.localKey = some localKey) (passcode : Bytes) (salt : Salt) :
    ∃ next, encryptLocalKey crypto passcode owner salt = some next ∧
      next.storage.localKey = some localKey ∧ next.storage.passcodeKeySalt ≠ [] ∧
      next.accounts = owner.accounts := by
  unfold encryptLocalKey
  rw [key, map_some]
  exact ⟨_, rfl, key, salt_ne_nil salt, rfl⟩

theorem setPasscode_running (passcode : Bytes) (salt : Salt) (running : owner.Running) :
    ∃ next, setPasscode crypto passcode owner salt = some next ∧ next.Running := by
  obtain ⟨localKey, key⟩ := ne_none_iff_exists'.mp running.localKey
  obtain ⟨middle, encrypted, keyNext, salted, same⟩ :=
    encryptLocalKey_spec crypto owner key passcode salt
  have good : middle.Running := {
    localKey := by rw [keyNext]; exact some_ne_none _
    salt := salted
    accounts := by rw [same]; exact running.accounts
    nodup := by rw [indices, same]; exact running.nodup }
  obtain ⟨next, written, goodNext, -⟩ := writeAccounts_running crypto good
  refine ⟨next, ?_, goodNext⟩
  rw [setPasscode, if_neg running.salt, encrypted, bind_some, written]

end Writing

variable (world : World) {owner : Domain}

theorem addSingleAccount {localKey : AuthKey} (key : owner.storage.localKey = some localKey)
    (salt : owner.storage.passcodeKeySalt ≠ []) (none : owner.accounts = []) (sessionId : Nat) :
    ∃ next, (owner.accountAddedInStorage { sessionId }).bind (writeAccounts world.crypto) =
      some next ∧ next.Running := by
  have free : (0 : Int32) ∉ owner.indices := by
    rw [indices, none]
    exact not_mem_nil
  have good : Running { owner with accounts := owner.accounts ++ [{ sessionId }] } := {
    localKey := by dsimp only; rw [key]; exact some_ne_none _
    salt := salt
    accounts := append_ne_nil_of_right_ne_nil _ (cons_ne_nil _ _)
    nodup := by
      rw [indices, none]
      exact pairwise_singleton _ _ }
  obtain ⟨next, written, goodNext, -⟩ := writeAccounts_running world.crypto good
  refine ⟨next, ?_, goodNext⟩
  rw [accountAddedInStorage, if_neg free, bind_some, written]

theorem startWithSingleAccount_untouched (untouched : owner.Untouched) (passcode : Bytes)
    (legacyKey : Option AuthKey) (legacySession : Nat) :
    ∃ next, startWithSingleAccount world owner passcode legacyKey legacySession = some next ∧
      next.Running := by
  unfold startWithSingleAccount
  cases legacyKey with
  | some localKey =>
    obtain ⟨middle, encrypted, key, salted, same⟩ := encryptLocalKey_spec world.crypto
      { owner with storage := { owner.storage with localKey := some localKey } }
      rfl passcode world.random.passcodeKeySalt
    obtain ⟨next, written, good⟩ := addSingleAccount world key salted
      (same.trans untouched.accounts) legacySession
    refine ⟨next, ?_, good⟩
    dsimp only
    rw [encrypted, map_some, bind_some]
    exact written
  | none =>
    have unset : owner.storage.localKey.isNone ∧ owner.storage.passcodeKeySalt = [] ∧
        owner.storage.passcodeKeyEncrypted = [] :=
      ⟨by rw [untouched.localKey]; rfl, untouched.salt, untouched.keyEncrypted⟩
    let localKey := world.crypto.createLocalKey world.random.pass world.random.salt
    obtain ⟨middle, encrypted, key, salted, same⟩ := encryptLocalKey_spec world.crypto
      { owner with storage := { owner.storage with localKey := some localKey } }
      rfl [] world.random.passcodeKeySalt
    obtain ⟨next, written, good⟩ := addSingleAccount world key salted
      (same.trans untouched.accounts) (world.accountSession localKey 0)
    refine ⟨next, ?_, good⟩
    dsimp only [generateLocalKey]
    rw [if_pos unset, encrypted, bind_some, key, map_some, bind_some]
    exact written

theorem startFromScratch_with_key (key : owner.storage.localKey ≠ none) :
    startFromScratch world owner = none := by
  obtain ⟨localKey, same⟩ := ne_none_iff_exists'.mp key
  unfold startFromScratch startWithSingleAccount generateLocalKey
  rw [if_neg (by rw [same]; simp)]
  rfl

end Storage

/-- The list names an account that may be added: the number of its indices may be right,
and one of them has a session or the last one is not a repeated one. -/
def NamesAccount (session : Int32 → Nat) (info : Bytes) : Prop :=
  let count := DataStream.readInt32 ⟨info, true⟩
  let indices := (DataStream.readTimes DataStream.readInt32 count.1.toNatClampNeg count.2).1
  0 < count.1 ∧ count.1 ≤ kPremiumMaxAccounts ∧
    ((∃ index ∈ indices, InRange index ∧ session index ≠ 0) ∨
      ∃ index, indices.getLast? = some index ∧ InRange index ∧ index ∉ indices.dropLast)

namespace Storage

variable (world : World) (owner : Domain)

theorem startAccounts_spec (untouched : owner.accounts = []) (localKey : AuthKey)
    (version : Int32) (info : Bytes) :
    ∃ next result, startAccounts world owner localKey version info = some (next, result) ∧
      next.storage.localKey = owner.storage.localKey ∧
      next.storage.passcodeKeySalt = owner.storage.passcodeKeySalt ∧
      (NamesAccount (world.accountSession localKey) info →
        result = .success ∧ next.accounts ≠ [] ∧ next.indices.Nodup) ∧
      (¬NamesAccount (world.accountSession localKey) info → result = .failed) := by
  unfold startAccounts NamesAccount
  obtain ⟨count, stream, read⟩ :
      ∃ count stream, readInt32 ⟨info, true⟩ = (count, stream) := ⟨_, _, rfl⟩
  simp only [read]
  by_cases badCount : count ≤ 0 ∨ count > kPremiumMaxAccounts
  · rw [if_pos badCount]
    refine ⟨owner, .failed, rfl, rfl, rfl, ?_, fun _ => rfl⟩
    rintro ⟨positive, few, -⟩
    rcases badCount with low | high
    · exact absurd positive (Int32.not_lt.mpr low)
    · exact absurd high (Int32.not_lt.mpr few)
  · rw [if_neg badCount]
    rw [not_or, Int32.not_le, gt_iff_lt, Int32.not_lt] at badCount
    obtain ⟨reading, done, -, ownerEq, sessionsEq, -⟩ := readAccounts_eq world localKey
      count.toNatClampNeg {
        stream, owner := { owner with
          storage := { owner.storage with oldVersion := version } } }
      (by rw [indices, untouched]; exact nil_subset _)
    rw [done, map_some]
    have named := accept_ne_nil_iff (world.accountSession localKey) []
      (readTimes readInt32 count.toNatClampNeg stream).1
    simp only [not_mem_nil, not_false_iff, true_and] at named
    rw [untouched, nil_append] at ownerEq
    have sessions : reading.sessions = [] ↔ accept (world.accountSession localKey) [] []
        (readTimes readInt32 count.toNatClampNeg stream).1 = [] := by
      rw [sessionsEq]
      exact and_iff_right rfl
    by_cases none : reading.sessions = []
    · rw [if_pos none]
      refine ⟨_, _, rfl, ?_, ?_, ?_, fun _ => rfl⟩
      · rw [ownerEq]
      · rw [ownerEq]
      · rintro ⟨-, -, names⟩
        exact absurd (sessions.mp none) (named.mpr names)
    · rw [if_neg none]
      refine ⟨_, _, rfl, ?_, ?_, fun _ => ⟨rfl, ?_, ?_⟩, ?_⟩
      · rw [activateFromStorage, ownerEq]
      · rw [activateFromStorage, ownerEq]
      · rw [activateFromStorage, ownerEq]
        exact fun empty => none (sessions.mpr empty)
      · rw [activateFromStorage, ownerEq]
        exact nodup_accept _
      · intro unnamed
        refine absurd ⟨badCount.1, badCount.2, named.mp ?_⟩ unnamed
        exact fun empty => none (sessions.mpr empty)

end Storage

/-- The passcode does not open the file, or the legacy map if there is no file. -/
def WrongPasscode (world : World) (file : Option KeyFile) (passcode : Bytes) : Prop :=
  match file with
  | none => world.legacyStart passcode = .incorrectPasscodeLegacy
  | some keyData =>
    ∃ salt keyEncrypted infoEncrypted,
      keyData.read = some (salt, keyEncrypted, infoEncrypted) ∧
      salt.length = localEncryptSaltSize ∧
      world.crypto.decryptLocal keyEncrypted (world.crypto.createLocalKey passcode salt) = none

/-- If the passcode opens the key of the file, the list is decrypted with that key and
names an account. -/
def Usable (world : World) (file : Option KeyFile) (passcode : Bytes) : Prop :=
  ∀ keyData salt keyEncrypted infoEncrypted keyInnerData localKey,
    file = some keyData → keyData.read = some (salt, keyEncrypted, infoEncrypted) →
    salt.length = localEncryptSaltSize →
    world.crypto.decryptLocal keyEncrypted (world.crypto.createLocalKey passcode salt) =
      some keyInnerData →
    readAuthKey keyInnerData = some localKey →
    ∃ info, world.crypto.decryptLocal infoEncrypted localKey = some info ∧
      NamesAccount (world.accountSession localKey) info

variable {world : World}

theorem usable_of_wrong {file : Option KeyFile} {passcode : Bytes}
    (wrong : WrongPasscode world file passcode) : Usable world file passcode := by
  rintro keyData salt keyEncrypted infoEncrypted keyInnerData localKey rfl read - opened -
  obtain ⟨_, _, _, read', -, closed⟩ := wrong
  rw [read] at read'
  cases read'
  rw [opened] at closed
  cases closed

theorem usable_iff {keyData : KeyFile} {passcode salt keyEncrypted infoEncrypted
    keyInnerData : Bytes} {localKey : AuthKey}
    (read : keyData.read = some (salt, keyEncrypted, infoEncrypted))
    (size : salt.length = localEncryptSaltSize)
    (opened : world.crypto.decryptLocal keyEncrypted
      (world.crypto.createLocalKey passcode salt) = some keyInnerData)
    (key : readAuthKey keyInnerData = some localKey) :
    Usable world (some keyData) passcode ↔
      ∃ info, world.crypto.decryptLocal infoEncrypted localKey = some info ∧
        NamesAccount (world.accountSession localKey) info := by
  constructor
  · intro usable
    exact usable _ _ _ _ _ _ rfl read size opened key
  · rintro list _ _ _ _ _ _ ⟨⟩ parts - again isKey
    rw [read] at parts
    cases parts
    rw [opened] at again
    cases again
    rw [key] at isKey
    cases isKey
    exact list

namespace Storage

variable (world : World) {owner : Domain}

/-- How `startModern` ends in a domain that nothing was read into. -/
inductive ModernOutcome (world : World) (owner : Domain) (passcode : Bytes) :
    Domain → StartModernResult → Prop
  | empty (absent : owner.keyFile = none) : ModernOutcome world owner passcode owner .empty
  | incorrectPasscode {next : Domain} (present : owner.keyFile ≠ none)
      (wrong : WrongPasscode world owner.keyFile passcode) (untouched : next.Untouched)
      (same : next.keyFile = owner.keyFile) :
      ModernOutcome world owner passcode next .incorrectPasscode
  | failed {next : Domain} (right : ¬WrongPasscode world owner.keyFile passcode)
      (usable : Usable world owner.keyFile passcode) (untouched : next.Untouched) :
      ModernOutcome world owner passcode next .failed
  | failedWithKey {next : Domain} (unusable : ¬Usable world owner.keyFile passcode)
      (key : next.storage.localKey ≠ none) : ModernOutcome world owner passcode next .failed
  | success {next : Domain} (right : ¬WrongPasscode world owner.keyFile passcode)
      (usable : Usable world owner.keyFile passcode) (running : next.Running) :
      ModernOutcome world owner passcode next .success

theorem startModern_outcome (untouched : owner.Untouched) (passcode : Bytes) :
    ∃ next modern, startModern world owner passcode = some (next, modern) ∧
      ModernOutcome world owner passcode next modern := by
  unfold startModern
  cases file : owner.keyFile with
  | none => exact ⟨_, _, rfl, .empty file⟩
  | some keyData =>
  dsimp only
  cases read : keyData.read with
  | none =>
    refine ⟨_, _, rfl, .failed ?_ ?_ untouched⟩
    · rw [file]
      rintro ⟨_, _, _, parts, -⟩
      exact some_ne_none _ (parts.symm.trans read)
    · rw [file]
      rintro _ _ _ _ _ _ ⟨⟩ parts
      exact absurd (parts.symm.trans read) (some_ne_none _)
  | some parts =>
  obtain ⟨salt, keyEncrypted, infoEncrypted⟩ := parts
  dsimp only
  by_cases size : salt.length = localEncryptSaltSize
  · rw [if_neg (not_not.mpr size)]
    have sameParts : ∀ {other : Bytes × Bytes × Bytes}, keyData.read = some other →
        other = (salt, keyEncrypted, infoEncrypted) := by
      intro other parts
      rw [read] at parts
      exact (some.inj parts).symm
    cases opened :
        world.crypto.decryptLocal keyEncrypted (world.crypto.createLocalKey passcode salt) with
    | none =>
      refine ⟨_, _, rfl, .incorrectPasscode ?_ ?_ ?_ ?_⟩
      · rw [file]
        exact some_ne_none _
      · rw [file]
        exact ⟨salt, keyEncrypted, infoEncrypted, read, size, opened⟩
      · exact { untouched with }
      · exact file.symm
    | some keyInnerData =>
      have right : ¬WrongPasscode world owner.keyFile passcode := by
        rw [file]
        rintro ⟨_, _, _, parts, -, closed⟩
        cases sameParts parts
        rw [opened] at closed
        cases closed
      dsimp only
      cases key : readAuthKey keyInnerData with
      | none =>
        refine ⟨_, _, rfl, .failed right ?_ ?_⟩
        · rw [file]
          rintro _ _ _ _ _ _ ⟨⟩ parts - again isKey
          cases sameParts parts
          rw [opened] at again
          cases again
          rw [key] at isKey
          cases isKey
        · exact { untouched with }
      | some localKey =>
        dsimp only
        cases list : world.crypto.decryptLocal infoEncrypted localKey with
        | none =>
          refine ⟨_, _, rfl, .failedWithKey ?_ (some_ne_none _)⟩
          rw [file, usable_iff read size opened key, list]
          rintro ⟨_, ⟨⟩, -⟩
        | some info =>
          obtain ⟨next, modern, started, sameKey, sameSalt, named, unnamed⟩ :=
            startAccounts_spec world { owner with
              keyFile := some keyData
              storage := { owner.storage with
                localKey := some localKey
                passcodeKey := some (world.crypto.createLocalKey passcode salt)
                passcodeKeySalt := salt
                passcodeKeyEncrypted := keyEncrypted
                hasLocalPasscode := !passcode.isEmpty } }
              untouched.accounts localKey keyData.version info
          have isKey : next.storage.localKey ≠ none := by
            rw [sameKey]
            exact some_ne_none _
          have usable : Usable world owner.keyFile passcode ↔
              NamesAccount (world.accountSession localKey) info := by
            rw [file, usable_iff read size opened key, list]
            simp
          refine ⟨next, modern, started, ?_⟩
          by_cases names : NamesAccount (world.accountSession localKey) info
          · obtain ⟨rfl, accounts, nodup⟩ := named names
            refine .success right (usable.mpr names) ⟨isKey, ?_, accounts, nodup⟩
            rw [sameSalt]
            rintro (none : salt = [])
            rw [none] at size
            cases size
          · obtain rfl := unnamed names
            exact .failedWithKey (mt usable.mp names) isKey
  · rw [if_pos size]
    refine ⟨_, _, rfl, .failed ?_ ?_ untouched⟩
    · rw [file]
      rintro ⟨_, _, _, parts, sized, -⟩
      rw [read] at parts
      cases parts
      exact size sized
    · rw [file]
      rintro _ _ _ _ _ _ ⟨⟩ parts sized
      rw [read] at parts
      cases parts
      exact absurd sized size

/-- A start works if and only if the file is usable with the passcode.  It then goes on
to a running domain unless the passcode is wrong. -/
theorem start_spec (untouched : owner.Untouched) (passcode : Bytes) :
    (¬Usable world owner.keyFile passcode → start world owner passcode = none) ∧
    (Usable world owner.keyFile passcode → ∃ next result,
      start world owner passcode = some (next, result) ∧
      (WrongPasscode world owner.keyFile passcode →
        result ≠ .success ∧ next.Untouched ∧ next.keyFile = owner.keyFile) ∧
      (¬WrongPasscode world owner.keyFile passcode → result = .success ∧ next.Running)) := by
  obtain ⟨middle, modern, ended, outcome⟩ := startModern_outcome world untouched passcode
  unfold start
  rw [ended, bind_some]
  cases outcome with
  | empty absent =>
    rw [absent]
    refine ⟨fun unusable => absurd (fun _ _ _ _ _ _ none => by cases none) unusable, fun _ => ?_⟩
    cases legacy : world.legacyStart passcode with
    | incorrectPasscodeLegacy =>
      exact ⟨_, _, rfl, fun _ => ⟨by decide, untouched, absent⟩, fun right => absurd legacy right⟩
    | success legacyKey oldMapVersion sessionId =>
      have untouched' : Untouched { owner with
          storage := { owner.storage with oldVersion := oldMapVersion } } :=
        { untouched with }
      obtain ⟨next, started, running⟩ := startWithSingleAccount_untouched world untouched'
        passcode legacyKey sessionId
      simp only [started, map_some]
      refine ⟨_, _, rfl, fun wrong => ?_, fun _ => ⟨rfl, running⟩⟩
      have none : world.legacyStart passcode = .incorrectPasscodeLegacy := wrong
      rw [legacy] at none
      cases none
  | incorrectPasscode present wrong same file =>
    exact ⟨fun unusable => absurd (usable_of_wrong wrong) unusable, fun _ =>
      ⟨_, _, rfl, fun _ => ⟨by decide, same, file⟩, fun right => absurd wrong right⟩⟩
  | failed right usable same =>
    obtain ⟨next, started, running⟩ :=
      startWithSingleAccount_untouched world same [] none 0
    refine ⟨fun unusable => absurd usable unusable, fun _ => ⟨next, .success, ?_, fun wrong =>
      absurd wrong right, fun _ => ⟨rfl, running⟩⟩⟩
    dsimp only
    rw [startFromScratch, started, map_some]
  | failedWithKey unusable key =>
    refine ⟨fun _ => ?_, fun usable => absurd usable unusable⟩
    dsimp only
    rw [startFromScratch_with_key world key, map_none]
  | success right usable running =>
    refine ⟨fun unusable => absurd usable unusable, fun _ => ?_⟩
    dsimp only
    split
    · obtain ⟨next, written, good, -⟩ := writeAccounts_running world.crypto running
      rw [written, map_some]
      exact ⟨_, _, rfl, fun wrong => absurd wrong right, fun _ => ⟨rfl, good⟩⟩
    · exact ⟨_, _, rfl, fun wrong => absurd wrong right, fun _ => ⟨rfl, running⟩⟩

end Storage

namespace Domain

variable {owner : Domain}

theorem activate_running (running : owner.Running) {index : Int32} (known : index ∈ owner.indices) :
    ∃ next, owner.activate index = some next ∧ next.Running := by
  unfold activate
  split
  · exact ⟨owner, rfl, running⟩
  · refine ⟨_, rfl, ?_⟩
    split
    · exact { running with }
    · exact { running with }

theorem removePasscodeIfEmpty_running (running : owner.Running) (crypto : Crypto) (salt : Salt) :
    ∃ next removed, owner.removePasscodeIfEmpty crypto salt = some (next, removed) ∧
      next.Running := by
  unfold removePasscodeIfEmpty
  split
  · exact ⟨_, _, rfl, running⟩
  split
  · exact ⟨_, _, rfl, running⟩
  · obtain ⟨next, changed, good⟩ :=
      Storage.setPasscode_running crypto [] salt running
    rw [changed]
    exact ⟨_, _, rfl, good⟩

theorem activateAfterStarting_running (running : owner.Running) (crypto : Crypto) (salt : Salt) :
    ∃ next, owner.activateAfterStarting crypto salt = some next ∧ next.Running := by
  unfold activateAfterStarting
  split
  next none =>
    exact absurd none running.accounts
  next front rest accounts =>
    have known : (if owner.accountToActivate ∈ owner.indices then owner.accountToActivate
        else front.index) ∈ owner.indices := by
      split
      · assumption
      · rw [indices, accounts]
        exact mem_cons_self
    obtain ⟨middle, activated, good⟩ := activate_running running known
    obtain ⟨next, removed, done, goodNext⟩ := removePasscodeIfEmpty_running good crypto salt
    refine ⟨next, ?_, goodNext⟩
    dsimp only
    rw [activated, bind_some, done, map_some]

theorem start_spec (world : World) (untouched : owner.Untouched) (passcode : Bytes) (salt : Salt) :
    (¬Usable world owner.keyFile passcode → owner.start world passcode salt = none) ∧
    (Usable world owner.keyFile passcode → ∃ next result,
      owner.start world passcode salt = some (next, result) ∧
      (WrongPasscode world owner.keyFile passcode →
        result ≠ .success ∧ next.Untouched ∧ next.keyFile = owner.keyFile) ∧
      (¬WrongPasscode world owner.keyFile passcode → result = .success ∧ next.Running)) := by
  have idle : owner.started = false := by
    rw [started, untouched.accounts]
    rfl
  obtain ⟨fails, works⟩ := Storage.start_spec world untouched passcode
  rw [start, if_neg (by rw [idle]; exact Bool.false_ne_true)]
  constructor
  · intro unusable
    rw [fails unusable, bind_none]
  · intro usable
    obtain ⟨middle, result, ended, wrongly, rightly⟩ := works usable
    rw [ended, bind_some]
    dsimp only
    by_cases wrong : WrongPasscode world owner.keyFile passcode
    · obtain ⟨failed, same, file⟩ := wrongly wrong
      have stillIdle : middle.started = false := by
        rw [started, same.accounts]
        rfl
      rw [if_neg failed, if_neg (by rw [stillIdle]; exact Bool.false_ne_true)]
      exact ⟨_, _, rfl, fun _ => ⟨failed, same, file⟩, fun right => absurd wrong right⟩
    · obtain ⟨rfl, running⟩ := rightly wrong
      obtain ⟨next, activated, good⟩ := activateAfterStarting_running running world.crypto salt
      rw [if_pos rfl, activated, map_some]
      exact ⟨_, _, rfl, fun isWrong => absurd isWrong wrong, fun _ => ⟨rfl, good⟩⟩

theorem resetWithForgottenPasscode_untouched {world : World} (untouched : owner.Untouched)
    (salt : Salt) :
    ∃ next, owner.resetWithForgottenPasscode world salt = some next ∧ next.Running := by
  obtain ⟨middle, started, running⟩ :=
    Storage.startWithSingleAccount_untouched world untouched [] none 0
  obtain ⟨next, activated, good⟩ := activateAfterStarting_running running world.crypto salt
  refine ⟨next, ?_, good⟩
  rw [resetWithForgottenPasscode, if_pos untouched.accounts, Storage.startFromScratch, started,
    bind_some, activated]

end Domain

/-- Each start in the sequence works.  It ends the sequence with a running domain, or it
leaves the domain unset for the next passcode or for the reset. -/
def StartsWell (world : World) (salt : Salt) (owner : Domain) : List Bytes → Prop
  | [] => ∃ next, owner.resetWithForgottenPasscode world salt = some next ∧ next.Running
  | passcode :: later =>
    ∃ next result, owner.start world passcode salt = some (next, result) ∧
      (result = .success → next.Running) ∧
      (result ≠ .success → next.Untouched ∧ StartsWell world salt next later)

/-- The first passcode that is not wrong, if there is one, can use the file. -/
def FirstRightIsUsable (world : World) (file : Option KeyFile) (passcodes : List Bytes) : Prop :=
  ∀ wrong passcode later, passcodes = wrong ++ passcode :: later →
    (∀ earlier ∈ wrong, WrongPasscode world file earlier) → Usable world file passcode

theorem firstRightIsUsable_cons {file : Option KeyFile} {passcode : Bytes} {later : List Bytes} :
    FirstRightIsUsable world file (passcode :: later) ↔
      Usable world file passcode ∧
        (WrongPasscode world file passcode → FirstRightIsUsable world file later) := by
  constructor
  · intro first
    refine ⟨first [] passcode later rfl (fun _ none => by cases none), ?_⟩
    rintro isWrong wrong next rest rfl allWrong
    refine first (passcode :: wrong) next rest rfl ?_
    intro earlier member
    rcases mem_cons.mp member with rfl | member
    · exact isWrong
    · exact allWrong earlier member
  · rintro ⟨usable, rest⟩ wrong next others split allWrong
    cases wrong with
    | nil =>
      cases split
      exact usable
    | cons head wrong =>
      cases split
      exact rest (allWrong passcode mem_cons_self) wrong next others rfl
        fun earlier member => allWrong earlier (mem_cons_of_mem _ member)

theorem startsWell_untouched {salt : Salt} {owner : Domain}
    (untouched : owner.Untouched) (passcodes : List Bytes) :
    StartsWell world salt owner passcodes ↔
      FirstRightIsUsable world owner.keyFile passcodes := by
  induction passcodes generalizing owner with
  | nil =>
    refine iff_of_true (resetWithForgottenPasscode_untouched untouched salt) ?_
    rintro wrong passcode later none
    cases wrong with
    | nil => cases none
    | cons => cases none
  | cons passcode later ih =>
    obtain ⟨fails, works⟩ := start_spec world untouched passcode salt
    rw [firstRightIsUsable_cons, StartsWell]
    by_cases usable : Usable world owner.keyFile passcode
    · obtain ⟨next, result, ended, wrongly, rightly⟩ := works usable
      rw [ended]
      by_cases wrong : WrongPasscode world owner.keyFile passcode
      · obtain ⟨failed, same, file⟩ := wrongly wrong
        have rest := ih same
        rw [file] at rest
        constructor
        · rintro ⟨_, _, ⟨⟩, -, again⟩
          exact ⟨usable, fun _ => rest.mp (again failed).2⟩
        · rintro ⟨-, again⟩
          exact ⟨_, _, rfl, fun success => absurd success failed,
            fun _ => ⟨same, rest.mpr (again wrong)⟩⟩
      · obtain ⟨rfl, running⟩ := rightly wrong
        exact iff_of_true ⟨_, _, rfl, fun _ => running, fun failed => absurd rfl failed⟩
          ⟨usable, fun isWrong => absurd isWrong wrong⟩
    · rw [fails usable]
      refine iff_of_false ?_ fun both => usable both.1
      rintro ⟨_, _, none, -⟩
      cases none

/-- A new domain starts well from a file and a sequence of passcodes if and only if the
first passcode that is not wrong can use the file. -/
theorem key_file_starts_iff (world : World) (salt : Salt) (file : Option KeyFile)
    (passcodes : List Bytes) :
    StartsWell world salt { keyFile := file } passcodes ↔
      FirstRightIsUsable world file passcodes := by
  have untouched : Domain.Untouched { keyFile := file } := ⟨rfl, rfl, rfl, rfl⟩
  exact startsWell_untouched untouched passcodes

/-- A world that encrypts nothing. -/
def plainWorld : World where
  crypto := {
    createLocalKey := fun _ _ => ⟨List.replicate 256 0, List.length_replicate⟩
    decryptLocal := fun bytes _ => some bytes
    prepareEncrypted := fun data _ => data }
  accountSession := fun _ _ => 0
  legacyStart := fun _ => .incorrectPasscodeLegacy
  random := {
    pass := []
    salt := []
    passcodeKeySalt := ⟨List.replicate 32 0, List.length_replicate⟩ }

def emptyListFile : KeyFile where
  version := appVersion
  content := DataStream.writeByteArray (some (List.replicate 32 0)) ++
    DataStream.writeByteArray (some (List.replicate 256 0)) ++
    DataStream.writeByteArray (some [])

/-- The list is refused after its key was taken over, and no new key can be made. -/
theorem empty_list_stops_start :
    ¬StartsWell plainWorld plainWorld.random.passcodeKeySalt { keyFile := some emptyListFile }
      [[]] := by
  rintro ⟨next, result, started, -⟩
  have none : Domain.start { keyFile := some emptyListFile } plainWorld []
      plainWorld.random.passcodeKeySalt = none := by
    decide +kernel
  rw [none] at started
  cases started

end TelegramDesktop.Accounts
