import TelegramDesktop.DomainSteps

/-!
# The list of accounts after a restart

A run of a started domain keeps the list of accounts up to date, except that an account
that was added is not written before another change, and neither is the active account
after one without a session was active.
-/

namespace TelegramDesktop.Accounts

open Domain List Option DataStream Function

/-- The start of a life: from no file, from a list that was written before, or after the
passcode was forgotten. -/
inductive Life.Begins (world : World) : Life → Prop
  | single {owner next : Domain} {passcode : Bytes} {salt : Salt} (waiting : owner.Waiting)
      (absent : owner.keyFile = none)
      (started : owner.start world passcode salt = some (next, .success)) :
      Begins world (next.life passcode)
  | listed {owner next : Domain} {passcode : Bytes} {salt : Salt} {localKey : AuthKey}
      {file : KeyFile} {listed : List Int32} {active : Int32} (waiting : owner.Waiting)
      (present : owner.keyFile = some file) (listable : Listable listed)
      (lists : Lists world.crypto passcode localKey file listed active)
      (distinct : DistinctSessions (world.accountSession localKey) listed)
      (started : owner.start world passcode salt = some (next, .success)) :
      Begins world (next.life passcode)
  | forgotten {owner next : Domain} {salt : Salt} (waiting : owner.Waiting)
      (reset : owner.resetWithForgottenPasscode world salt = some next) :
      Begins world (next.life [])

namespace Life

/-- A new domain that starts from the file has exactly the accounts with a session, if
there are any, and the active account is the same. -/
def Restores (world : World) (life : Life) : Prop :=
  ∀ salt, ∃ next,
    Domain.start { keyFile := life.domain.keyFile }
        { world with accountSession := fun _ => life.domain.sessionOf } life.passcode salt =
      some (next, .success) ∧
    next.accounts.filter (·.sessionExists) = life.domain.accounts.filter (·.sessionExists) ∧
    (life.domain.authed ≠ [] → ∀ account ∈ next.accounts, account.sessionExists) ∧
    (life.domain.activeSessionExists → next.active = life.domain.active)

/-- While no write is scheduled, a new start restores the accounts. -/
def Good (world : World) (life : Life) : Prop :=
  life.domain.writeAccountsScheduled = false →
    life.domain.indices.Nodup ∧ (∀ index ∈ life.domain.indices, InRange index) ∧
      life.Restores world

/-- What the key file lists, with the active account. -/
def listed (crypto : Crypto) (life : Life) : Option (List Int32 × Int32) := do
  let file ← life.domain.keyFile
  let (_, _, infoEncrypted) ← file.read
  let localKey ← life.domain.storage.localKey
  let info ← crypto.decryptLocal infoEncrypted localKey
  let count := DataStream.readInt32 ⟨info, true⟩
  let indices := DataStream.readTimes DataStream.readInt32 count.1.toNatClampNeg count.2
  some (indices.1, indices.2.readInt32.1)

/-- While no write is scheduled, an account logs in only if its index is in the file,
among those of the accounts with a session as in the domain, and the file tells the active
one of them; and after an account without a session only one is activated that the file
tells to be active. -/
def StepRecorded (crypto : Crypto) (life : Life) : Event → Prop
  | .login index sessionId =>
    life.domain.writeAccountsScheduled = false → life.domain.CanLogIn index sessionId →
      ∃ listed active, life.listed crypto = some (listed, active) ∧
        let authed := life.domain.indices.filter fun other =>
          other = index ∨ life.domain.sessionOf other ≠ 0
        authed.Sublist listed ∧
          ∀ current ∈ authed, life.domain.active = some current →
            Domain.chosen active authed = some current
  | .activate index =>
    life.domain.writeAccountsScheduled = false → life.domain.sessionExists index →
      life.domain.activeSessionExists = false →
      ∃ listed active, life.listed crypto = some (listed, active) ∧
        Domain.chosen active life.domain.authed = some index
  | _ => True

/-- The accounts of the domain are gone through, not all numbers there are. -/
instance decidableStepRecorded (crypto : Crypto) (life : Life) :
    ∀ event, Decidable (life.StepRecorded crypto event)
  | .login index sessionId =>
    let authed := life.domain.indices.filter fun other =>
      other = index ∨ life.domain.sessionOf other ≠ 0
    decidable_of_iff
      (life.domain.writeAccountsScheduled = false → life.domain.CanLogIn index sessionId →
        (life.listed crypto).any (fun file => authed.isSublist file.1 &&
          authed.all fun current => decide (life.domain.active = some current →
            Domain.chosen file.2 authed = some current)) = true)
      (imp_congr_right fun _ => imp_congr_right fun _ => by
        simp only [Option.any_eq_true, Bool.and_eq_true, isSublist_iff_sublist, List.all_eq_true,
          decide_eq_true_eq, Prod.exists, authed])
  | .activate index =>
    decidable_of_iff
      (life.domain.writeAccountsScheduled = false → life.domain.sessionExists index →
        life.domain.activeSessionExists = false →
          (life.listed crypto).any (fun file =>
            decide (Domain.chosen file.2 life.domain.authed = some index)) = true)
      (imp_congr_right fun _ => imp_congr_right fun _ => imp_congr_right fun _ => by
        simp only [Option.any_eq_true, decide_eq_true_eq, Prod.exists])
  | .add | .logout _ | .removeRedundantAccounts _ | .setPasscode _ _ | .writeAccounts =>
    isTrue trivial

end Life

theorem toNatClampNeg_size {size : Nat} (small : size < 2 ^ 31) :
    (UInt32.ofNat size).toInt32.toNatClampNeg = size := by
  rw [Int32.toNatClampNeg, toInt_size small]
  rfl

namespace Life.Sound

variable {crypto : Crypto} {localKey : AuthKey} {listed : List Int32} {active : Int32}
  {life : Life}

theorem listed_eq (faithful : crypto.Faithful) (sound : life.Sound crypto localKey listed active) :
    life.listed crypto = some (listed, active) := by
  obtain ⟨file, present, salt, keyEncrypted, read, -, -, -⟩ := sound.file
  have few := length_le_six sound.listable.nodup sound.listable.inRange
  have decrypted := faithful.decrypts (Storage.accountsInfo listed active) localKey
    (by rw [length_accountsInfo]; omega)
  have times := readTimes_write exact_int32 listed (writeInt32 active) true
  have last := readInt32_write active [] true
  rw [append_nil] at last
  have count : (UInt32.ofNat listed.length).toInt32.toNatClampNeg = listed.length :=
    toNatClampNeg_size (by omega)
  simp only [Life.listed, present, read, sound.stored.key, bind_eq_bind, bind_some, decrypted]
  simp only [Storage.accountsInfo, append_assoc, readInt32_writeSize, count, times, last]

theorem restores_iff_recordedIn {world : World} (faithful : world.crypto.Faithful)
    (sound : life.Sound world.crypto localKey listed active) :
    life.Restores world ↔ life.RecordedIn listed active := by
  obtain ⟨file, present, lists⟩ := sound.file
  have distinct := distinctSessions_all sound.distinct listed
  have nodup := sound.indices.nodup
  have waiting : Waiting { keyFile := life.domain.keyFile } :=
    ⟨⟨rfl, rfl, rfl, rfl⟩, rfl, rfl⟩
  have restart := fun salt => start_listed
    { world with accountSession := fun _ => life.domain.sessionOf }
    faithful waiting present sound.listable lists distinct salt
  have kept : ∀ {next : Domain}, next.accounts = withSessions life.domain.sessionOf
      (restored life.domain.sessionOf listed) →
      next.accounts.filter (·.sessionExists) = withSessions life.domain.sessionOf
        (listed.filter fun index => life.domain.sessionOf index ≠ 0) := by
    intro next accounts
    rw [accounts, filter_withSessions, filter_restored]
  constructor
  · intro restores
    obtain ⟨next, started, sameAccounts, -, sameActive⟩ := restores
      ⟨replicate 32 0, length_replicate⟩
    obtain ⟨other, _, _, again, accounts, isActive, -⟩ := restart ⟨replicate 32 0, length_replicate⟩
    rw [started] at again
    obtain rfl : next = other := congrArg Prod.fst (some.inj again)
    rw [kept accounts, filter_accounts nodup, withSessions_inj] at sameAccounts
    refine ⟨sameAccounts, fun exists' => ?_⟩
    have active := sameActive exists'
    obtain ⟨index, member, -⟩ := (activeSessionExists_iff nodup).mp exists'
    have same : restored life.domain.sessionOf listed = life.domain.authed := by
      rw [← sameAccounts] at member ⊢
      unfold restored
      rw [if_neg (ne_nil_of_mem member)]
    rw [← same, ← isActive, active]
  · intro recorded salt
    obtain ⟨next, _, _, started, accounts, isActive, -⟩ := restart salt
    have some : life.domain.authed ≠ [] →
        restored life.domain.sessionOf listed = life.domain.authed := by
      intro authed
      rw [← recorded.authed] at authed ⊢
      unfold restored
      rw [if_neg authed]
    refine ⟨next, started, ?_, ?_, ?_⟩
    · rw [kept accounts, recorded.authed, filter_accounts nodup]
    · intro authed account member
      rw [accounts, some authed, ← filter_accounts nodup] at member
      exact (mem_filter.mp member).2
    · intro exists'
      obtain ⟨index, member, -⟩ := (activeSessionExists_iff nodup).mp exists'
      rw [isActive]
      rw [some (ne_nil_of_mem member)]
      exact recorded.active exists'

end Life.Sound

theorem Life.Begins.sound {world : World} {life : Life} (faithful : world.crypto.Faithful)
    (begins : life.Begins world) :
    life.domain.writeAccountsScheduled = false ∧ ∃ localKey listed active,
      life.Sound world.crypto localKey listed active ∧ life.RecordedIn listed active := by
  cases begins with
  | @single owner next passcode salt waiting absent started =>
    have fresh : owner.started = false := by
      rw [Domain.started, waiting.accounts]
      rfl
    unfold Domain.start Storage.start Storage.startModern at started
    rw [fresh, if_neg Bool.false_ne_true, absent] at started
    cases legacy : world.legacyStart passcode with
    | incorrectPasscodeLegacy =>
      simp [legacy, fresh] at started
    | success legacyKey oldMapVersion sessionId =>
      have waiting' : Waiting { owner with
          storage := { owner.storage with oldVersion := oldMapVersion } } :=
        { waiting with }
      obtain ⟨last, localKey, listed, active, done, idle, sound, recorded⟩ :=
        startWithSingleAccount_sound faithful waiting' passcode legacyKey sessionId salt
      obtain ⟨middle, single, activated⟩ := bind_eq_some_iff.mp done
      simp only [legacy, single, map_some, bind_some, if_true, activated,
        some.injEq, Prod.mk.injEq, and_true] at started
      subst started
      exact ⟨idle, localKey, listed, active, sound, recorded⟩
  | listed waiting present listable lists distinct started =>
    obtain ⟨last, listed, active, again, -, -, idle, sound, recorded⟩ :=
      start_listed world faithful waiting present listable lists distinct _
    rw [started] at again
    cases again
    exact ⟨idle, _, listed, active, sound, recorded⟩
  | forgotten waiting reset =>
    rename_i owner next salt
    obtain ⟨last, localKey, listed, active, done, idle, sound, recorded⟩ :=
      startWithSingleAccount_sound faithful waiting [] none 0 salt
    rw [resetWithForgottenPasscode, if_pos waiting.accounts, Storage.startFromScratch,
      done] at reset
    cases reset
    exact ⟨idle, localKey, listed, active, sound, recorded⟩

theorem DistinctSessions.update {session : Int32 → Nat} {indices : List Int32}
    (distinct : DistinctSessions session indices) {index : Int32} {value : Nat}
    (fresh : value ≠ 0 → ∀ other, session other ≠ value) :
    DistinctSessions (Function.update session index value) indices := by
  intro first firstMember second secondMember same has
  by_cases isFirst : first = index
  · by_cases isSecond : second = index
    · rw [isFirst, isSecond]
    · rw [isFirst, update_self] at same has
      rw [update_of_ne isSecond] at same
      exact absurd same.symm (fresh has second)
  · rw [update_of_ne isFirst] at same has
    by_cases isSecond : second = index
    · rw [isSecond, update_self] at same
      exact absurd same (fresh (same ▸ has) first)
    · rw [update_of_ne isSecond] at same
      exact distinct first firstMember second secondMember same has

/-- The list tells the accounts with a session while no write is scheduled. -/
def Life.Fine (listed : List Int32) (active : Int32) (life : Life) : Prop :=
  life.domain.writeAccountsScheduled = false → life.RecordedIn listed active

namespace Life.Sound

variable {crypto : Crypto} {localKey : AuthKey} {listed : List Int32} {active : Int32}
  {life : Life}

theorem change (sound : life.Sound crypto localKey listed active) {domain : Domain}
    (storage : domain.storage = life.domain.storage)
    (file : domain.keyFile = life.domain.keyFile) (indices : Listable domain.indices)
    (distinct : DistinctSessions domain.sessionOf domain.indices)
    (isActive : ∃ index ∈ domain.indices, domain.active = some index ∧
      domain.accountToActivate = index) :
    Life.Sound crypto localKey listed active { life with domain } where
  stored := by
    rw [storage]
    exact sound.stored
  file := by
    rw [file]
    exact sound.file
  listable := sound.listable
  indices := indices
  distinct := distinct
  active := isActive

theorem written (domain : Domain) {passcode : Bytes} {file : KeyFile}
    (stored : domain.storage.Sealed crypto passcode localKey)
    (present : domain.keyFile = some file)
    (lists : Lists crypto passcode localKey file domain.indices domain.accountToActivate)
    (indices : Listable domain.indices)
    (distinct : DistinctSessions domain.sessionOf domain.indices)
    (isActive : ∃ index ∈ domain.indices, domain.active = some index ∧
      domain.accountToActivate = index) :
    Life.Sound crypto localKey domain.indices domain.accountToActivate { domain, passcode } ∧
      Life.RecordedIn domain.indices domain.accountToActivate { domain, passcode } := by
  refine ⟨⟨stored, ⟨file, present, lists⟩, indices, indices, distinct, isActive⟩, ?_⟩
  rw [Life.recordedIn_iff indices.nodup]
  refine ⟨rfl, fun index member same => ?_⟩
  obtain ⟨current, -, isCurrent, toActivate⟩ := isActive
  rw [same] at isCurrent
  cases isCurrent
  rw [toActivate, chosen, if_pos member]

variable {next : Domain}

theorem add (sound : life.Sound crypto localKey listed active) (fine : life.Fine listed active)
    (added : life.domain.add = some next) :
    Life.Sound crypto localKey listed active { life with domain := next } ∧
      Life.Fine listed active { life with domain := next } := by
  obtain ⟨index, inRange, free, rfl⟩ := Domain.add_spec added
  have sessions : Domain.sessionOf { life.domain with
      accounts := life.domain.accounts ++ [{ index, sessionId := 0 }] } = life.domain.sessionOf :=
    Domain.sessionOf_add
  have authed := Domain.authed_add free
  have indices : Listable (Domain.indices { life.domain with
      accounts := life.domain.accounts ++ [{ index, sessionId := 0 }] }) := by
    rw [Domain.indices, List.map_append]
    refine ⟨List.append_ne_nil_of_right_ne_nil _ (List.cons_ne_nil _ _), ?_, ?_⟩
    · refine List.nodup_append.mpr ⟨sound.indices.nodup, List.pairwise_singleton _ _, ?_⟩
      rintro other member same added rfl
      rw [List.mem_singleton.mp added] at member
      exact free member
    · intro other member
      rcases List.mem_append.mp member with old | new
      · exact sound.indices.inRange other old
      · rw [List.mem_singleton.mp new]
        exact inRange
  obtain ⟨current, known, isCurrent, toActivate⟩ := sound.active
  constructor
  · refine sound.change rfl rfl indices ?_ ⟨current, ?_, isCurrent, toActivate⟩
    · rw [sessions]
      exact Domain.distinctSessions_all sound.distinct _
    · rw [Domain.indices, List.map_append]
      exact List.mem_append_left _ known
  · intro quiet
    have recorded := (Life.recordedIn_iff sound.indices.nodup).mp (fine quiet)
    rw [Life.recordedIn_iff indices.nodup]
    rw [sessions, authed]
    exact recorded

theorem activate (faithful : crypto.Faithful) (sound : life.Sound crypto localKey listed active)
    (fine : life.Fine listed active) {index : Int32}
    (activated : life.domain.activate index = some next) :
    Life.Sound crypto localKey listed active { life with domain := next } ∧
      (Life.Fine listed active { life with domain := next } ↔
        life.StepRecorded crypto (.activate index)) := by
  obtain ⟨current, known, isCurrent, toActivate⟩ := sound.active
  have exists' := activeSessionExists_iff sound.indices.nodup
  have nodup := sound.indices.nodup
  obtain ⟨rfl, rfl⟩ | ⟨different, knownIndex, rfl⟩ :=
    activate_spec isCurrent toActivate activated
  · refine ⟨sound, iff_of_true fine ?_⟩
    intro quiet has unauthed
    rw [sessionExists_eq nodup, decide_eq_true_eq] at has
    rw [exists'.mpr ⟨current, mem_authed.mpr has, isCurrent⟩] at unauthed
    cases unauthed
  · refine ⟨sound.change rfl rfl sound.indices sound.distinct ⟨index, knownIndex, rfl, rfl⟩, ?_⟩
    constructor
    · intro fineNext quiet has unauthed
      refine ⟨listed, active, sound.listed_eq faithful, ?_⟩
      have recorded := (Life.recordedIn_iff (by exact nodup)).mp
        (fineNext (by rw [quiet, unauthed]; rfl))
      rw [sessionExists_eq nodup, decide_eq_true_eq] at has
      exact recorded.2 index (mem_authed.mpr has) rfl
    · intro condition quietNext
      obtain ⟨quiet, unauthed⟩ := Bool.or_eq_false_iff.mp quietNext
      have recorded := (Life.recordedIn_iff nodup).mp (fine quiet)
      refine (Life.recordedIn_iff (by exact nodup)).mpr ⟨recorded.1, ?_⟩
      rintro other member ⟨⟩
      have has : life.domain.sessionExists index = true := by
        rw [sessionExists_eq nodup, decide_eq_true_eq]
        exact mem_authed.mp member
      obtain ⟨listed', active', same, isChosen⟩ := condition quiet has unauthed
      rw [sound.listed_eq faithful] at same
      cases same
      exact isChosen

theorem login (faithful : crypto.Faithful) (sound : life.Sound crypto localKey listed active)
    {index : Int32} {sessionId : Nat} (logged : life.domain.login index sessionId = some next) :
    Life.Sound crypto localKey listed active { life with domain := next } ∧
      (Life.Fine listed active { life with domain := next } ↔
        life.StepRecorded crypto (.login index sessionId)) := by
  unfold Domain.login at logged
  split at logged
  swap
  · cases logged
  rename_i can
  cases logged
  obtain ⟨known, unauthed, some, fresh⟩ := can
  have indices : (life.domain.setSession index sessionId).indices = life.domain.indices :=
    indices_setSession index sessionId
  have sessions := sessionOf_setSession known sessionId
  have authed := authed_login known some
  obtain ⟨current, knownCurrent, isCurrent, toActivate⟩ := sound.active
  have distinct : DistinctSessions (life.domain.setSession index sessionId).sessionOf
      (life.domain.setSession index sessionId).indices := by
    have other : ∀ other, life.domain.sessionOf other ≠ sessionId := by
      intro other same
      rcases sessionIn_cases life.domain.accounts other with none | ⟨account, member, has⟩
      · exact some (same.symm.trans none)
      · exact fresh account member (has.trans same)
    rw [indices, sessions]
    exact sound.distinct.update fun _ => other
  have listable : Listable (life.domain.setSession index sessionId).indices := by
    rw [indices]
    exact sound.indices
  refine ⟨sound.change rfl rfl listable distinct
    ⟨current, by rw [indices]; exact knownCurrent, isCurrent, toActivate⟩, ?_⟩
  have recorded : Life.RecordedIn listed active
        { life with domain := life.domain.setSession index sessionId } ↔
      (life.domain.setSession index sessionId).authed.Sublist listed ∧
        ∀ other ∈ (life.domain.setSession index sessionId).authed,
          life.domain.active = Option.some other →
          chosen active (life.domain.setSession index sessionId).authed =
            Option.some other := by
    rw [Life.recordedIn_iff listable.nodup]
    refine and_congr_left' ?_
    rw [← filter_eq_iff_sublist sound.listable.nodup]
    have kept : listed.filter (fun other =>
          (life.domain.setSession index sessionId).sessionOf other ≠ 0) =
        listed.filter fun other =>
          other ∈ (life.domain.setSession index sessionId).authed := by
      refine filter_congr fun other _ => ?_
      rw [decide_eq_decide, mem_authed]
    rw [kept]
  constructor
  · intro fine quiet _
    refine ⟨listed, active, sound.listed_eq faithful, ?_⟩
    rw [← authed]
    exact recorded.mp (fine quiet)
  · intro condition quiet
    obtain ⟨listed', active', same, isRecorded⟩ := condition quiet ⟨known, unauthed, some, fresh⟩
    rw [sound.listed_eq faithful] at same
    cases same
    rw [← authed] at isRecorded
    exact recorded.mpr isRecorded

theorem logout (sound : life.Sound crypto localKey listed active) (fine : life.Fine listed active)
    {index : Int32} (logged : life.domain.logout index = some next) :
    Life.Sound crypto localKey listed active { life with domain := next } ∧
      Life.Fine listed active { life with domain := next } := by
  have nodup := sound.indices.nodup
  unfold Domain.logout at logged
  split at logged
  swap
  · cases logged
  rename_i has
  rw [sessionExists_eq nodup, decide_eq_true_eq] at has
  have isAuthed := mem_authed.mpr has
  have known := mem_of_mem_filter isAuthed
  obtain ⟨after, isAfter⟩ : ∃ after, after = life.domain.setSession index 0 := ⟨_, rfl⟩
  have indices : after.indices = life.domain.indices := by
    rw [isAfter, indices_setSession]
  have sessions : after.sessionOf = update life.domain.sessionOf index 0 := by
    rw [isAfter, sessionOf_setSession known]
  have authed : after.authed = life.domain.authed.filter fun other => other ≠ index := by
    rw [isAfter, authed_logout known]
  obtain ⟨current, knownCurrent, isCurrent, toActivate⟩ := sound.active
  have isCurrentAfter : after.active = some current := by
    rw [isAfter]
    exact isCurrent
  have listable : Listable after.indices := by
    rw [indices]
    exact sound.indices
  have distinct : DistinctSessions after.sessionOf after.indices := by
    rw [indices, sessions]
    exact sound.distinct.update fun some => absurd rfl some
  -- The list still has the sessions that are left.
  have kept : life.domain.writeAccountsScheduled = false →
      listed.filter (fun other => after.sessionOf other ≠ 0) = after.authed := by
    intro quiet
    rw [authed, ← (fine quiet).authed, List.filter_filter, sessions]
    refine filter_congr fun other _ => ?_
    by_cases here : other = index
    · simp [here]
    · simp [here]
  rw [← isAfter] at logged
  split at logged
  next isActive =>
    rw [isCurrent] at isActive
    cases isActive
    obtain ⟨last, done, ⟨none, rfl⟩ | ⟨-, first, isFirst, rfl⟩⟩ :=
      activateAuthedAccount_spec listable isCurrentAfter (indices ▸ known)
    · rw [done] at logged
      cases logged
      have empty : next.authed = [] := by
        refine none.resolve_left ?_
        rw [authed]
        exact fun member => of_decide_eq_true (mem_filter.mp member).2 rfl
      refine ⟨sound.change (by rw [isAfter]; rfl) (by rw [isAfter]; rfl) listable distinct
        ⟨index, indices ▸ known, isCurrentAfter, by rw [isAfter]; exact toActivate⟩,
        fun quiet => ?_⟩
      rw [Life.recordedIn_iff listable.nodup]
      refine ⟨kept (by rw [isAfter] at quiet; exact quiet), fun other member => ?_⟩
      rw [empty] at member
      cases member
    · rw [done] at logged
      cases logged
      have knownFirst : first ∈ after.indices :=
        mem_of_mem_filter (mem_of_head? isFirst)
      refine ⟨sound.change (by rw [isAfter]; rfl) (by rw [isAfter]; rfl) listable distinct
        ⟨first, knownFirst, rfl, rfl⟩, fun quiet => ?_⟩
      have quietBefore : life.domain.writeAccountsScheduled = false := by
        rw [isAfter] at quiet
        exact quiet
      have recorded := (Life.recordedIn_iff nodup).mp (fine quietBefore)
      refine (Life.recordedIn_iff (by exact listable.nodup)).mpr ⟨kept quietBefore, ?_⟩
      rintro other member ⟨⟩
      have head := isFirst
      rw [authed] at head
      refine Eq.trans ?_ head
      rw [← chosen_filter_self (recorded.2 index isAuthed isCurrent), ← authed]
      rfl
  next other =>
    cases logged
    rw [isCurrent] at other
    have different : current ≠ index := fun here => other (congrArg some here)
    refine ⟨sound.change (by rw [isAfter]; rfl) (by rw [isAfter]; rfl) listable distinct
      ⟨current, indices ▸ knownCurrent, isCurrentAfter, by rw [isAfter]; exact toActivate⟩,
      fun quiet => ?_⟩
    have quietBefore : life.domain.writeAccountsScheduled = false := by
      rw [isAfter] at quiet
      exact quiet
    have recorded := (Life.recordedIn_iff nodup).mp (fine quietBefore)
    rw [Life.recordedIn_iff listable.nodup]
    refine ⟨kept quietBefore, fun index member isActive => ?_⟩
    rw [isCurrentAfter] at isActive
    cases isActive
    rw [authed] at member ⊢
    exact chosen_filter_of_ne (recorded.2 current (mem_of_mem_filter member) isCurrent) different

section

variable (faithful : crypto.Faithful) (sound : life.Sound crypto localKey listed active)
include faithful sound

theorem setPasscode {passcode : Bytes} {salt : Salt}
    (changed : Storage.setPasscode crypto passcode life.domain salt = some next) :
    ∃ listed' active', Life.Sound crypto localKey listed' active' { domain := next, passcode } ∧
      Life.RecordedIn listed' active' { domain := next, passcode } := by
  obtain ⟨storage, file, done, stored, lists⟩ :=
    Storage.setPasscode_sealed life.domain faithful sound.stored sound.indices passcode salt
  rw [changed] at done
  cases done
  exact ⟨_, _, written { life.domain with storage, keyFile := some file } stored rfl
    lists sound.indices sound.distinct sound.active⟩

theorem writeScheduled (wrote : life.domain.writeScheduled crypto = some next) :
    ∃ listed' active', Life.Sound crypto localKey listed' active' { life with domain := next } ∧
      Life.RecordedIn listed' active' { life with domain := next } := by
  unfold Domain.writeScheduled at wrote
  split at wrote
  swap
  · cases wrote
  obtain ⟨file, done, lists⟩ := Storage.writeAccounts_lists
    { life.domain with writeAccountsScheduled := false } faithful sound.stored
    sound.indices
  rw [done] at wrote
  cases wrote
  exact ⟨_, _, written { life.domain with
      writeAccountsScheduled := false
      keyFile := some file } sound.stored rfl lists sound.indices sound.distinct sound.active⟩

theorem removeRedundantAccounts (fine : life.Fine listed active) {salt : Salt}
    (removed : life.domain.removeRedundantAccounts crypto salt = some next) :
    ∃ listed' active', Life.Sound crypto localKey listed' active' (next.life life.passcode) ∧
      Life.Fine listed' active' (next.life life.passcode) := by
  obtain ⟨current, knownCurrent, isCurrent, toActivate⟩ := sound.active
  obtain ⟨middle, done, isMiddle⟩ :=
    Domain.activateAuthedAccount_spec sound.indices isCurrent knownCurrent
  unfold Domain.removeRedundantAccounts at removed
  rw [done, Option.bind_some] at removed
  dsimp only at removed
  obtain ⟨sameAccounts, sameStorage, sameFile⟩ : middle.accounts = life.domain.accounts ∧
      middle.storage = life.domain.storage ∧ middle.keyFile = life.domain.keyFile := by
    rcases isMiddle with ⟨-, rfl⟩ | ⟨-, index, -, rfl⟩
    · exact ⟨rfl, rfl, rfl⟩
    · exact ⟨rfl, rfl, rfl⟩
  have isActive : ∃ index ∈ middle.indices, middle.active = some index ∧
      middle.accountToActivate = index := by
    rcases isMiddle with ⟨-, rfl⟩ | ⟨-, index, isFirst, rfl⟩
    · exact sound.active
    · exact ⟨index, List.mem_of_mem_filter (List.mem_of_head? isFirst), rfl, rfl⟩
  have nodup : middle.indices.Nodup := by
    rw [Domain.indices, sameAccounts]
    exact sound.indices.nodup
  obtain ⟨index, known, isIndex, toActivateIndex⟩ := isActive
  have kept : ∀ account ∈ middle.accounts, account.sessionId ≠ 0 →
      decide (middle.active = some account.index ∨ account.sessionExists = true) = true := by
    intro account _ has
    exact decide_eq_true (.inr (decide_eq_true has))
  obtain ⟨sessions, authed, fewer⟩ := Domain.remaining_spec nodup kept
  obtain ⟨after, isAfter⟩ : ∃ after : Domain, after = { middle with
    accounts := middle.accounts.filter fun account =>
      middle.active = some account.index ∨ account.sessionExists } := ⟨_, rfl⟩
  rw [← isAfter] at sessions authed fewer removed
  have knownAfter : index ∈ after.indices := by
    obtain ⟨account, member, rfl⟩ := List.mem_map.mp known
    rw [isAfter]
    exact List.mem_map.mpr ⟨account, List.mem_filter.mpr
      ⟨member, decide_eq_true (.inl isIndex)⟩, rfl⟩
  have isActiveAfter : ∃ index ∈ after.indices, after.active = some index ∧
      after.accountToActivate = index :=
    ⟨index, knownAfter, by rw [isAfter]; exact isIndex, by rw [isAfter]; exact toActivateIndex⟩
  have sameIndices : middle.indices = life.domain.indices := by
    rw [Domain.indices, Domain.indices, sameAccounts]
  have sameSessions : middle.sessionOf = life.domain.sessionOf := by
    rw [Domain.sessionOf, Domain.sessionOf, sameAccounts]
  have indices : Listable after.indices := {
    nonempty := List.ne_nil_of_mem knownAfter
    nodup := nodup.sublist fewer
    inRange := fun other member =>
      sound.indices.inRange other (sameIndices ▸ fewer.subset member) }
  have distinct : DistinctSessions after.sessionOf after.indices := by
    rw [sessions, sameSessions]
    exact Domain.distinctSessions_all sound.distinct _
  have stored : after.storage.Sealed crypto life.passcode localKey := by
    rw [isAfter]
    rw [sameStorage]
    exact sound.stored
  have unchanged : Life.Sound crypto localKey listed active { life with domain := after } := by
    refine sound.change ?_ ?_ indices distinct isActiveAfter
    · rw [isAfter]
      exact sameStorage
    · rw [isAfter]
      exact sameFile
  rcases Domain.removePasscodeIfEmpty_cases after faithful stored indices salt with
    same | ⟨-, storage, file, changed, good, lists⟩
  · rw [same, Option.map_some] at removed
    dsimp only at removed
    split at removed
    · cases removed
      have life' : after.scheduleWriteAccounts.life life.passcode =
          { life with domain := after.scheduleWriteAccounts } :=
        StorageDomain.Sealed.life_eq (by exact stored) (.inl rfl)
      rw [life']
      refine ⟨listed, active, unchanged.change rfl rfl indices distinct isActiveAfter, ?_⟩
      rintro ⟨⟩
    next sameLength =>
      cases removed
      rw [stored.life_eq (.inl rfl)]
      refine ⟨listed, active, unchanged, ?_⟩
      have all : middle.accounts.filter (fun account =>
          middle.active = some account.index ∨ account.sessionExists) = middle.accounts := by
        refine List.filter_sublist.eq_of_length ?_
        have length : next.accounts.length = life.domain.accounts.length := by
          simpa using sameLength
        rw [isAfter] at length
        rw [← sameAccounts] at length
        exact length
      have sameAfter : next = middle := by
        rw [isAfter, all]
      rcases isMiddle with ⟨-, isOwner⟩ | ⟨unauthed, first, isFirst, isOther⟩
      · rw [sameAfter, isOwner]
        exact fine
      · -- The account that was active is not among those that remain.
        obtain ⟨account, member, isAccount⟩ := List.mem_map.mp knownCurrent
        rw [← sameAccounts, ← all] at member
        have keeps := of_decide_eq_true (List.mem_filter.mp member).2
        refine absurd ?_ unauthed
        rcases keeps with isNow | has
        · rw [isOther] at isNow
          have here : first = account.index := Option.some.inj isNow
          rw [isAccount] at here
          rw [← here]
          exact List.mem_of_head? isFirst
        · have filtered : account ∈ life.domain.accounts.filter (·.sessionExists) :=
            List.mem_filter.mpr ⟨sameAccounts ▸ (List.mem_filter.mp member).1, has⟩
          rw [Domain.filter_accounts sound.indices.nodup] at filtered
          obtain ⟨other, otherMember, rfl⟩ := List.mem_map.mp filtered
          rw [← isAccount]
          exact otherMember
  · rw [changed, Option.map_some] at removed
    rw [if_neg (by simp)] at removed
    cases removed
    have life' : Domain.life { after with storage, keyFile := some file } life.passcode =
        { domain := { after with storage, keyFile := some file }, passcode := [] } :=
      StorageDomain.Sealed.life_eq (by exact good) (.inr rfl)
    obtain ⟨isSound, recorded⟩ := written
      { after with storage, keyFile := some file } good rfl lists indices distinct
      isActiveAfter
    rw [life']
    exact ⟨after.indices, after.accountToActivate, isSound, fun _ => recorded⟩

/-- A step keeps a sound life, and the list is up to date after it as the condition says. -/
theorem step (fine : life.Fine listed active) {event : Event} {next : Life}
    (taken : life.step crypto event = some next) :
    ∃ listed' active', next.Sound crypto localKey listed' active' ∧
      (next.Fine listed' active' ↔ life.StepRecorded crypto event) := by
  cases event with
  | add =>
    obtain ⟨domain, added, rfl⟩ := map_eq_some_iff.mp taken
    obtain ⟨isSound, isFine⟩ := sound.add fine added
    exact ⟨listed, active, isSound, iff_of_true isFine trivial⟩
  | activate index =>
    obtain ⟨domain, activated, rfl⟩ := map_eq_some_iff.mp taken
    obtain ⟨isSound, isFine⟩ := sound.activate faithful fine activated
    exact ⟨listed, active, isSound, isFine⟩
  | login index sessionId =>
    obtain ⟨domain, logged, rfl⟩ := map_eq_some_iff.mp taken
    obtain ⟨isSound, isFine⟩ := sound.login faithful logged
    exact ⟨listed, active, isSound, isFine⟩
  | logout index =>
    obtain ⟨domain, logged, rfl⟩ := map_eq_some_iff.mp taken
    obtain ⟨isSound, isFine⟩ := sound.logout fine logged
    exact ⟨listed, active, isSound, iff_of_true isFine trivial⟩
  | removeRedundantAccounts salt =>
    obtain ⟨domain, removed, rfl⟩ := map_eq_some_iff.mp taken
    obtain ⟨listed', active', isSound, isFine⟩ :=
      sound.removeRedundantAccounts faithful fine removed
    exact ⟨listed', active', isSound, iff_of_true isFine trivial⟩
  | setPasscode passcode salt =>
    obtain ⟨domain, changed, rfl⟩ := map_eq_some_iff.mp taken
    obtain ⟨listed', active', isSound, recorded⟩ := sound.setPasscode faithful changed
    exact ⟨listed', active', isSound, iff_of_true (fun _ => recorded) trivial⟩
  | writeAccounts =>
    obtain ⟨domain, wrote, rfl⟩ := map_eq_some_iff.mp taken
    obtain ⟨listed', active', isSound, recorded⟩ := sound.writeScheduled faithful wrote
    exact ⟨listed', active', isSound, iff_of_true (fun _ => recorded) trivial⟩

end

theorem stepRecorded_of_none (sound : life.Sound crypto localKey listed active) {event : Event}
    (none : life.step crypto event = none) : life.StepRecorded crypto event := by
  cases event with
  | add => trivial
  | activate index =>
    intro _ has _
    have idle : life.domain.activate index = Option.none := Option.map_eq_none_iff.mp none
    rw [Domain.sessionExists_eq sound.indices.nodup, decide_eq_true_eq] at has
    have known := List.mem_of_mem_filter (Domain.mem_authed.mpr has)
    unfold Domain.activate at idle
    split at idle
    · cases idle
    · cases idle
  | login index sessionId =>
    intro _ can
    have idle : life.domain.login index sessionId = Option.none := Option.map_eq_none_iff.mp none
    rw [Domain.login, if_pos can] at idle
    cases idle
  | logout index => trivial
  | removeRedundantAccounts salt => trivial
  | setPasscode passcode salt => trivial
  | writeAccounts => trivial

theorem good_iff {world : World} (faithful : world.crypto.Faithful)
    (sound : life.Sound world.crypto localKey listed active) :
    life.Good world ↔ life.Fine listed active := by
  refine imp_congr_right fun _ => ?_
  rw [← sound.restores_iff_recordedIn faithful]
  exact ⟨fun all => all.2.2, fun restores => ⟨sound.indices.nodup, sound.indices.inRange, restores⟩⟩

end Life.Sound

/-- The file of the domain is in order for some key and lists. -/
def Life.Known (crypto : Crypto) (life : Life) : Prop :=
  ∃ localKey listed active, life.Sound crypto localKey listed active

/-- In every state of a run in which no write is scheduled, the indices are distinct and in
range and a new start restores the accounts with a session and the active one, if and only
if every login and every activation finds the file up to date. -/
theorem accounts_survive_iff {world : World} (faithful : world.crypto.Faithful) {life : Life}
    (begins : life.Begins world) (events : List Event) :
    RunKeeps (Life.step world.crypto) (Life.Good world) life events ↔
      RunMeets (Life.step world.crypto) (Life.StepRecorded world.crypto) life events := by
  obtain ⟨-, localKey, listed, active, sound, recorded⟩ := begins.sound faithful
  have known : life.Known world.crypto := ⟨localKey, listed, active, sound⟩
  refine runKeeps_iff_runMeets ?_ ?_ events known ((sound.good_iff faithful).mpr fun _ => recorded)
  · rintro life event next ⟨localKey, listed, active, sound⟩ good taken
    obtain ⟨listed', active', isSound, -⟩ :=
      sound.step faithful ((sound.good_iff faithful).mp good) taken
    exact ⟨localKey, listed', active', isSound⟩
  · rintro life event ⟨localKey, listed, active, sound⟩ good
    have fine := (sound.good_iff faithful).mp good
    cases taken : life.step world.crypto event with
    | none =>
      refine iff_of_true ?_ (sound.stepRecorded_of_none taken)
      rintro next ⟨⟩
    | some next =>
      obtain ⟨listed', active', isSound, isFine⟩ := sound.step faithful fine taken
      rw [← isFine, ← isSound.good_iff faithful]
      constructor
      · exact fun all => all next rfl
      · rintro isGood _ ⟨⟩
        exact isGood

theorem length_zeroKey : (replicate 256 (0 : UInt8)).length = 256 := length_replicate

def zeroKey : AuthKey := ⟨List.replicate 256 0, length_zeroKey⟩

theorem length_zeroSalt : (replicate 32 (0 : UInt8)).length = 32 := length_replicate

def zeroSalt : Salt := ⟨List.replicate 32 0, length_zeroSalt⟩

/-- A first start without any file. -/
def newWorld : World where
  crypto := ofLocalCrypto default (fun _ _ => zeroKey) fun _ => 0
  accountSession := fun _ _ => 0
  legacyStart := fun _ => .success none 0 0
  random := { pass := [], salt := [], passcodeKeySalt := zeroSalt }

/-- The domain after a first start. -/
def newDomain : Domain := ((Domain.start {} newWorld [] zeroSalt).map (·.1)).getD {}

theorem newDomain_begins : (newDomain.life []).Begins newWorld := by
  have waiting : Waiting {} := ⟨⟨rfl, rfl, rfl, rfl⟩, rfl, rfl⟩
  have started : Domain.start {} newWorld [] zeroSalt = some (newDomain, .success) := by
    decide +kernel
  exact .single waiting rfl started

theorem newWorld_faithful : newWorld.crypto.Faithful := faithful_ofLocalCrypto _ _ _

/-- Two accounts log in, the second one while a passcode is set, and it is activated. -/
def loginTwo : List Event :=
  [.login 0 7, .add, .setPasscode [1] zeroSalt, .login 1 9, .activate 1, .writeAccounts]

theorem accounts_survive_added :
    (run (Life.step newWorld.crypto) (newDomain.life []) loginTwo).map
        (fun life => (life.domain.accounts, life.domain.active)) =
          some ([⟨0, 7⟩, ⟨1, 9⟩], some 1) ∧
      RunKeeps (Life.step newWorld.crypto) (Life.Good newWorld) (newDomain.life []) loginTwo := by
  refine ⟨by decide +kernel, ?_⟩
  exact (accounts_survive_iff newWorld_faithful newDomain_begins _).mpr (by decide +kernel)

/-- The new domain after an account was added and logged in. -/
def addedLife : Life :=
  (run (Life.step newWorld.crypto) (newDomain.life []) [.add, .login 1 7]).getD (newDomain.life [])

theorem addedLife_not_good : ¬addedLife.Good newWorld := by
  intro good
  have quiet : addedLife.domain.writeAccountsScheduled = false := by decide +kernel
  obtain ⟨next, started, same, -⟩ := (good quiet).2.2 zeroSalt
  have none : (Domain.start { keyFile := addedLife.domain.keyFile }
      { newWorld with accountSession := fun _ => addedLife.domain.sessionOf } addedLife.passcode
      zeroSalt).map (fun result => result.1.accounts.filter (·.sessionExists)) = some [] := by
    decide +kernel
  have kept : addedLife.domain.accounts.filter (·.sessionExists) = [⟨1, 7⟩] := by decide +kernel
  rw [started, map_some, same, kept] at none
  cases none

/-- An account that was added and then logs in is not in the file, and no write is
scheduled. -/
theorem added_account_is_lost : (newDomain.life []).Begins newWorld ∧
    ¬RunKeeps (Life.step newWorld.crypto) (Life.Good newWorld) (newDomain.life [])
      [.add, .login 1 7] := by
  refine ⟨newDomain_begins, ?_⟩
  rintro ⟨-, rest⟩
  obtain ⟨added, isAdded⟩ : ∃ added, (newDomain.life []).step newWorld.crypto .add = some added :=
    isSome_iff_exists.mp (by decide +kernel)
  have logged : added.step newWorld.crypto (.login 1 7) = some addedLife := by
    have both : ((newDomain.life []).step newWorld.crypto .add).bind
        (fun next => next.step newWorld.crypto (.login 1 7)) = some addedLife := by
      decide +kernel
    rw [isAdded] at both
    exact both
  exact addedLife_not_good ((rest added isAdded).2 addedLife logged)

end TelegramDesktop.Accounts
