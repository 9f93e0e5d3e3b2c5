import TelegramDesktop.DomainRestart

/-!
# Accounts with sessions

The storage of each account gives back its session.
-/

namespace TelegramDesktop.Accounts

open List Option

/-- The session of an account in a list, zero where it is missing. -/
def sessionIn : List AccountWithIndex → Int32 → Nat
  | [], _ => 0
  | account :: rest, index =>
    if account.index = index then account.sessionId else sessionIn rest index

variable {accounts : List AccountWithIndex}

theorem sessionIn_of_notMem {index : Int32}
    (unknown : index ∉ accounts.map (·.index)) : sessionIn accounts index = 0 := by
  induction accounts with
  | nil => rfl
  | cons account rest ih =>
    rw [map_cons, mem_cons, not_or] at unknown
    rw [sessionIn, if_neg (Ne.symm unknown.1), ih unknown.2]

theorem sessionIn_cases (accounts : List AccountWithIndex) (index : Int32) :
    sessionIn accounts index = 0 ∨
      ∃ account ∈ accounts, account.sessionId = sessionIn accounts index := by
  induction accounts with
  | nil => exact .inl rfl
  | cons account rest ih =>
    rw [sessionIn]
    split
    · exact .inr ⟨account, mem_cons_self, rfl⟩
    · rcases ih with none | ⟨other, member, same⟩
      · exact .inl none
      · exact .inr ⟨other, mem_cons_of_mem _ member, same⟩

theorem sessionIn_append (accounts added : List AccountWithIndex) (index : Int32) :
    sessionIn (accounts ++ added) index =
      if index ∈ accounts.map (·.index) then sessionIn accounts index
      else sessionIn added index := by
  induction accounts with
  | nil => rfl
  | cons account rest ih =>
    rw [cons_append, sessionIn, sessionIn, ih]
    by_cases here : account.index = index
    · simp [here]
    · simp [here, Ne.symm here]

theorem sessionIn_map (accounts : List AccountWithIndex) (changed index : Int32)
    (sessionId : Nat) (known : changed ∈ accounts.map (·.index)) :
    sessionIn (accounts.map fun account =>
        if account.index = changed then { account with sessionId } else account) index =
      Function.update (sessionIn accounts) changed sessionId index := by
  by_cases same : index = changed
  · subst same
    rw [Function.update_self]
    induction accounts with
    | nil => cases known
    | cons account rest ih =>
      rw [map_cons, sessionIn]
      by_cases here : account.index = index
      · rw [if_pos here, if_pos here]
      · rw [if_neg here, if_neg here]
        rw [map_cons, mem_cons] at known
        exact ih (known.resolve_left (Ne.symm here))
  · rw [Function.update_of_ne same]
    clear known
    induction accounts with
    | nil => rfl
    | cons account rest ih =>
      rw [map_cons, sessionIn, sessionIn, ih]
      by_cases here : account.index = changed
      · rw [if_pos here, if_neg (here ▸ Ne.symm same), if_neg (here ▸ Ne.symm same)]
      · rw [if_neg here]

theorem sessionIn_filter (nodup : (accounts.map (·.index)).Nodup) {keep : AccountWithIndex → Bool}
    (kept : ∀ account ∈ accounts, account.sessionId ≠ 0 → keep account) (index : Int32) :
    sessionIn (accounts.filter keep) index = sessionIn accounts index := by
  induction accounts with
  | nil => rfl
  | cons account rest ih =>
    rw [map_cons, nodup_cons] at nodup
    have ih := ih nodup.2 fun other member => kept other (mem_cons_of_mem _ member)
    by_cases keeps : keep account
    · rw [filter_cons_of_pos keeps, sessionIn, sessionIn, ih]
    · have without : account.sessionId = 0 := by
        by_contra authed
        exact keeps (kept account mem_cons_self authed)
      rw [filter_cons_of_neg keeps, ih, sessionIn]
      split
      next here =>
        rw [without, sessionIn_of_notMem (here ▸ nodup.1)]
      · rfl

theorem withSessions_sessionIn (nodup : (accounts.map (·.index)).Nodup) :
    withSessions (sessionIn accounts) (accounts.map (·.index)) = accounts := by
  induction accounts with
  | nil => rfl
  | cons account rest ih =>
    rw [map_cons, nodup_cons] at nodup
    have others : withSessions (sessionIn (account :: rest)) (rest.map (·.index)) =
        withSessions (sessionIn rest) (rest.map (·.index)) := by
      refine map_congr_left fun index member => ?_
      rw [sessionIn, if_neg]
      rintro rfl
      exact nodup.1 member
    rw [map_cons, withSessions, map_cons]
    rw [withSessions] at others
    rw [others, sessionIn, if_pos rfl]
    congr 1
    exact ih nodup.2

theorem filter_withSessions (session : Int32 → Nat) (indices : List Int32) :
    (withSessions session indices).filter (·.sessionExists) =
      withSessions session (indices.filter fun index => session index ≠ 0) := by
  rw [withSessions, List.filter_map]
  rfl

theorem withSessions_inj {session : Int32 → Nat} {first second : List Int32} :
    withSessions session first = withSessions session second ↔ first = second := by
  constructor
  · intro same
    have indices := congrArg (map fun account => account.index) same
    rwa [indices_withSessions, indices_withSessions] at indices
  · rintro rfl
    rfl

theorem filter_restored (session : Int32 → Nat) (indices : List Int32) :
    (restored session indices).filter (fun index => session index ≠ 0) =
      indices.filter fun index => session index ≠ 0 := by
  unfold restored
  dsimp only
  split
  next none =>
    rw [none]
    cases last : indices.getLast? with
    | none => rfl
    | some index =>
      have without := filter_eq_nil_iff.mp none index (mem_of_getLast? last)
      have skip : [index].filter (fun other => session other ≠ 0) = [] :=
        filter_cons_of_neg without
      exact skip
  · rw [List.filter_filter]
    simp

namespace Domain

variable (owner : Domain)

/-- What the storage of the account with an index gives back. -/
def sessionOf : Int32 → Nat := sessionIn owner.accounts

/-- The indices of the accounts with a session. -/
def authed : List Int32 := owner.indices.filter fun index => owner.sessionOf index ≠ 0

variable {owner}

theorem sessionExists_eq (nodup : owner.indices.Nodup) (index : Int32) :
    owner.sessionExists index = decide (owner.sessionOf index ≠ 0) := by
  unfold sessionExists sessionOf
  unfold indices at nodup
  revert nodup
  induction owner.accounts with
  | nil => exact fun _ => rfl
  | cons account rest ih =>
    intro nodup
    rw [map_cons, nodup_cons] at nodup
    rw [any_cons, ih nodup.2, sessionIn]
    by_cases here : account.index = index
    · have only : sessionIn rest index = 0 := sessionIn_of_notMem (here ▸ nodup.1)
      simp [here, only, AccountWithIndex.sessionExists]
    · simp [here]

theorem filter_accounts (nodup : owner.indices.Nodup) :
    owner.accounts.filter (·.sessionExists) = withSessions owner.sessionOf owner.authed := by
  have all : withSessions owner.sessionOf owner.indices = owner.accounts :=
    withSessions_sessionIn nodup
  rw [authed, ← filter_withSessions, all]

theorem mem_authed {index : Int32} :
    index ∈ owner.authed ↔ owner.sessionOf index ≠ 0 := by
  rw [authed, mem_filter, decide_eq_true_eq, and_iff_right_iff_imp]
  intro has
  by_contra unknown
  exact has (sessionIn_of_notMem unknown)

theorem distinctSessions_all (distinct : DistinctSessions owner.sessionOf owner.indices)
    (indices : List Int32) : DistinctSessions owner.sessionOf indices := by
  intro first _ second _ same has
  have secondHas : owner.sessionOf second ≠ 0 := same ▸ has
  exact distinct first (mem_of_mem_filter (mem_authed.mpr has)) second
    (mem_of_mem_filter (mem_authed.mpr secondHas)) same has

theorem activeSessionExists_iff (nodup : owner.indices.Nodup) :
    owner.activeSessionExists = true ↔ ∃ index ∈ owner.authed, owner.active = some index := by
  rw [activeSessionExists, Option.any_eq_true]
  constructor
  · rintro ⟨index, isActive, has⟩
    rw [sessionExists_eq nodup, decide_eq_true_eq] at has
    exact ⟨index, mem_authed.mpr has, isActive⟩
  · rintro ⟨index, member, isActive⟩
    refine ⟨index, isActive, ?_⟩
    rw [sessionExists_eq nodup, decide_eq_true_eq]
    exact mem_authed.mp member

/-- The account that is activated among those with these indices. -/
def chosen (active : Int32) (indices : List Int32) : Option Int32 :=
  if active ∈ indices then some active else indices.head?

theorem chosen_mem {active index : Int32} {indices : List Int32}
    (isChosen : chosen active indices = some index) : index ∈ indices := by
  unfold chosen at isChosen
  split at isChosen
  · cases isChosen
    assumption
  · exact mem_of_head? isChosen

theorem chosen_isSome (active : Int32) {indices : List Int32} (nonempty : indices ≠ []) :
    ∃ index, chosen active indices = some index := by
  unfold chosen
  split
  · exact ⟨active, rfl⟩
  · exact ⟨_, head?_eq_some_head nonempty⟩

theorem removePasscodeIfEmpty_cases (owner : Domain) {crypto : Crypto} {passcode : Bytes}
    {localKey : AuthKey} (faithful : crypto.Faithful)
    (stored : owner.storage.Sealed crypto passcode localKey)
    (listable : Listable owner.indices) (salt : Salt) :
    owner.removePasscodeIfEmpty crypto salt = some (owner, false) ∨
      owner.activeSessionExists = false ∧
      ∃ storage file, owner.removePasscodeIfEmpty crypto salt =
          some ({ owner with storage, keyFile := some file }, true) ∧
        storage.Sealed crypto [] localKey ∧
        Lists crypto [] localKey file owner.indices owner.accountToActivate := by
  unfold removePasscodeIfEmpty
  split
  · exact .inl rfl
  rename_i single
  split
  · exact .inl rfl
  · obtain ⟨storage, file, changed, good, lists⟩ :=
      Storage.setPasscode_sealed owner faithful stored listable [] salt
    rw [changed, map_some]
    exact .inr ⟨by simpa using (not_or.mp single).2, storage, file, rfl, good, lists⟩

theorem activate_first {index : Int32} (idle : owner.active = none)
    (known : index ∈ owner.indices) :
    owner.activate index =
      some { owner with accountToActivate := index, active := some index } := by
  have different : owner.active ≠ some index := by
    rw [idle]
    exact (some_ne_none index).symm
  have unauthed : owner.activeSessionExists = false := by
    rw [activeSessionExists, idle]
    rfl
  unfold activate
  rw [if_neg different, if_neg (not_not.mpr known)]
  dsimp only
  rw [if_neg (by rw [unauthed]; simp)]

end Domain

/-- The file of the domain lists accounts of the domain and can be read with the passcode. -/
structure Life.Sound (crypto : Crypto) (localKey : AuthKey) (listed : List Int32)
    (active : Int32) (life : Life) : Prop where
  stored : life.domain.storage.Sealed crypto life.passcode localKey
  file : ∃ file, life.domain.keyFile = some file ∧
    Lists crypto life.passcode localKey file listed active
  listable : Listable listed
  indices : Listable life.domain.indices
  distinct : DistinctSessions life.domain.sessionOf life.domain.indices
  active : ∃ index ∈ life.domain.indices, life.domain.active = some index ∧
    life.domain.accountToActivate = index

/-- The list tells which accounts have a session, and which one of them is active. -/
structure Life.RecordedIn (listed : List Int32) (active : Int32) (life : Life) : Prop where
  authed : listed.filter (fun index => life.domain.sessionOf index ≠ 0) = life.domain.authed
  active : life.domain.activeSessionExists →
    Domain.chosen active life.domain.authed = life.domain.active

namespace Domain

theorem activateAfterStarting_sound (owner : Domain) {crypto : Crypto} {passcode : Bytes}
    {localKey : AuthKey} {file : KeyFile} {listed : List Int32} (faithful : crypto.Faithful)
    (stored : owner.storage.Sealed crypto passcode localKey) (present : owner.keyFile = some file)
    (lists : Lists crypto passcode localKey file listed owner.accountToActivate)
    (listable : Listable listed) (indices : Listable owner.indices)
    (distinct : DistinctSessions owner.sessionOf owner.indices) (idle : owner.active = none)
    (salt : Salt) :
    ∃ next newPasscode listed' active, owner.activateAfterStarting crypto salt = some next ∧
      (newPasscode = passcode ∨ newPasscode = []) ∧
      next.accounts = owner.accounts ∧
      next.active = chosen owner.accountToActivate owner.indices ∧
      next.writeAccountsScheduled = owner.writeAccountsScheduled ∧
      Life.Sound crypto localKey listed' active { domain := next, passcode := newPasscode } ∧
      (listed' = listed ∧ active = owner.accountToActivate ∨
        listed' = owner.indices ∧ next.active = some active) := by
  obtain ⟨index, isChosen⟩ := chosen_isSome owner.accountToActivate indices.nonempty
  have known := chosen_mem isChosen
  have activated : owner.activateAfterStarting crypto salt =
      (removePasscodeIfEmpty
        { owner with accountToActivate := index, active := some index } crypto salt).map (·.1) := by
    unfold activateAfterStarting
    split
    next none =>
      refine absurd ?_ indices.nonempty
      rw [Domain.indices, none]
      rfl
    next front rest accounts =>
      have same : (if owner.accountToActivate ∈ owner.indices then owner.accountToActivate
          else front.index) = index := by
        unfold chosen at isChosen
        by_cases member : owner.accountToActivate ∈ owner.indices
        · rw [if_pos member] at isChosen ⊢
          exact some.inj isChosen
        · rw [if_neg member, Domain.indices, accounts] at isChosen
          rw [if_neg member]
          exact some.inj isChosen
      dsimp only
      rw [same, activate_first idle known, bind_some]
  rw [activated, isChosen]
  obtain same | ⟨-, storage, file', changed, good, newLists⟩ :=
    removePasscodeIfEmpty_cases
      { owner with accountToActivate := index, active := some index } faithful stored indices salt
  · rw [same, map_some]
    exact ⟨_, passcode, listed, _, rfl, .inl rfl, rfl, rfl, rfl,
      ⟨stored, ⟨file, present, lists⟩, listable, indices, distinct, index, known, rfl, rfl⟩,
        .inl ⟨rfl, rfl⟩⟩
  · rw [changed, map_some]
    exact ⟨_, [], owner.indices, index, rfl, .inr rfl, rfl, rfl, rfl,
      ⟨good, ⟨file', rfl, newLists⟩, indices, indices, distinct, index, known, rfl, rfl⟩,
        .inr ⟨rfl, rfl⟩⟩

theorem sessionIn_withSessions (session : Int32 → Nat) (indices : List Int32) (index : Int32) :
    sessionIn (withSessions session indices) index =
      if index ∈ indices then session index else 0 := by
  induction indices with
  | nil => rfl
  | cons first rest ih =>
    rw [withSessions, map_cons, sessionIn]
    rw [withSessions] at ih
    rw [ih]
    by_cases here : first = index
    · simp [here]
    · simp [here, Ne.symm here]

theorem authed_withSessions {session : Int32 → Nat} {indices : List Int32} {domain : Domain}
    (accounts : domain.accounts = withSessions session indices) :
    domain.authed = indices.filter fun index => session index ≠ 0 := by
  rw [authed, sessionOf, Domain.indices, accounts, indices_withSessions]
  refine filter_congr fun index member => ?_
  rw [sessionIn_withSessions, if_pos member]

theorem recordedIn_restored (session : Int32 → Nat) (listed : List Int32) (active : Int32)
    {listed' : List Int32} {active' : Int32} {life : Life} (nodup : life.domain.indices.Nodup)
    (accounts : life.domain.accounts = withSessions session (restored session listed))
    (isActive : life.domain.active = chosen active (restored session listed))
    (isListed : listed' = listed ∨ listed' = restored session listed)
    (isActive' : active' = active ∨ life.domain.active = some active') :
    life.RecordedIn listed' active' := by
  have authed : life.domain.authed = listed.filter fun index => session index ≠ 0 := by
    rw [authed_withSessions accounts, filter_restored]
  have sessions : ∀ index, life.domain.sessionOf index ≠ 0 ↔
      index ∈ restored session listed ∧ session index ≠ 0 := by
    intro index
    rw [sessionOf, accounts, sessionIn_withSessions]
    split
    · simp [*]
    · simp [*]
  have kept : ∀ index ∈ listed, session index ≠ 0 → index ∈ restored session listed := by
    intro index member has
    have isAuthed : index ∈ listed.filter fun index => session index ≠ 0 :=
      mem_filter.mpr ⟨member, decide_eq_true has⟩
    unfold restored
    rw [if_neg (ne_nil_of_mem isAuthed)]
    exact isAuthed
  constructor
  · rw [authed]
    rcases isListed with rfl | rfl
    · refine filter_congr fun index member => ?_
      rw [decide_eq_decide, sessions]
      exact ⟨fun both => both.2, fun has => ⟨kept index member has, has⟩⟩
    · refine (filter_congr fun index member => ?_).trans (filter_restored session listed)
      rw [decide_eq_decide, sessions]
      exact ⟨fun both => both.2, fun has => ⟨member, has⟩⟩
  · intro exists'
    obtain ⟨index, member, isIndex⟩ := (activeSessionExists_iff nodup).mp exists'
    have same : life.domain.authed = restored session listed := by
      rw [authed] at member ⊢
      unfold restored
      rw [if_neg (ne_nil_of_mem member)]
    rcases isActive' with rfl | isActive'
    · rw [same, isActive]
    · rw [isIndex] at isActive' ⊢
      cases isActive'
      unfold chosen
      rw [if_pos member]

/-- A domain that was not started yet. -/
structure Waiting (owner : Domain) : Prop extends owner.Untouched where
  active : owner.active = none
  idle : owner.writeAccountsScheduled = false

theorem start_listed (world : World) {owner : Domain} {passcode : Bytes} {localKey : AuthKey}
    {file : KeyFile} {listed : List Int32} {active : Int32} (faithful : world.crypto.Faithful)
    (waiting : owner.Waiting) (present : owner.keyFile = some file) (listable : Listable listed)
    (lists : Lists world.crypto passcode localKey file listed active)
    (distinct : DistinctSessions (world.accountSession localKey) listed) (salt : Salt) :
    ∃ next listed' active',
      owner.start world passcode salt = some (next, .success) ∧
      next.accounts = withSessions (world.accountSession localKey)
        (restored (world.accountSession localKey) listed) ∧
      next.active = chosen active (restored (world.accountSession localKey) listed) ∧
      next.writeAccountsScheduled = false ∧
      (next.life passcode).Sound world.crypto localKey listed' active' ∧
      (next.life passcode).RecordedIn listed' active' := by
  set session := world.accountSession localKey with sessionEq
  obtain ⟨storage, file', middle, started, stored, newLists, isMiddle⟩ :=
    Storage.start_listed owner active faithful listable waiting.accounts present lists distinct
  rw [← sessionEq] at started isMiddle
  have middleListable : Listable middle := by
    rcases isMiddle with rfl | rfl
    · exact listable
    · exact listable.restored session
  let after : Domain := { owner with
    storage
    accounts := withSessions session (restored session listed)
    accountToActivate := active
    keyFile := some file' }
  have indices : after.indices = restored session listed := indices_withSessions _ _
  have afterListable : Listable after.indices := by
    rw [indices]
    exact listable.restored session
  have afterDistinct : DistinctSessions after.sessionOf after.indices := by
    intro first firstMember second secondMember same has
    rw [indices] at firstMember secondMember
    have firstSession : after.sessionOf first = session first := by
      rw [sessionOf, sessionIn_withSessions, if_pos firstMember]
    have secondSession : after.sessionOf second = session second := by
      rw [sessionOf, sessionIn_withSessions, if_pos secondMember]
    have subset := (restored_sublist session listed).subset
    rw [firstSession] at same has
    rw [secondSession] at same
    exact distinct first (subset firstMember) second (subset secondMember) same has
  obtain ⟨next, newPasscode, listed', active', activated, same, accounts, isActive, idle, sound,
    isListed⟩ := activateAfterStarting_sound after faithful stored rfl newLists
      middleListable afterListable afterDistinct waiting.active salt
  have life : next.life passcode = { domain := next, passcode := newPasscode } :=
    sound.stored.life_eq same
  rw [indices] at isActive isListed
  refine ⟨next, listed', active', ?_, accounts, isActive, idle.trans waiting.idle, ?_, ?_⟩
  · have fresh : owner.started = false := by
      rw [Domain.started, waiting.accounts]
      rfl
    rw [start, fresh, if_neg Bool.false_ne_true, started, bind_some]
    dsimp only
    rw [if_pos rfl]
    exact congrArg (Option.map fun owner => (owner, StartResult.success)) activated
  · rw [life]
    exact sound
  · rw [life]
    refine recordedIn_restored session listed active sound.indices.nodup accounts isActive ?_ ?_
    · rcases isListed with ⟨rfl, -⟩ | ⟨rfl, -⟩
      · exact isMiddle
      · exact .inr rfl
    · rcases isListed with ⟨-, rfl⟩ | ⟨-, now⟩
      · exact .inl rfl
      · exact .inr now

theorem startWithSingleAccount_sound {world : World} {owner : Domain}
    (faithful : world.crypto.Faithful) (waiting : owner.Waiting) (passcode : Bytes)
    (legacyKey : Option AuthKey) (legacySession : Nat) (salt : Salt) :
    ∃ next localKey listed active,
      (Storage.startWithSingleAccount world owner passcode legacyKey legacySession).bind
        (activateAfterStarting · world.crypto salt) = some next ∧
      next.writeAccountsScheduled = false ∧
      (next.life passcode).Sound world.crypto localKey listed active ∧
      (next.life passcode).RecordedIn listed active := by
  obtain ⟨storage, file, localKey, sessionId, newPasscode, started, same, stored, lists⟩ :=
    Storage.startWithSingleAccount_lists owner faithful waiting.toUntouched passcode legacyKey
      legacySession
  let after : Domain := { owner with
    storage
    accounts := [{ sessionId }]
    keyFile := some file }
  have distinct : DistinctSessions after.sessionOf after.indices := by
    rintro first firstMember second secondMember - -
    rw [mem_singleton.mp firstMember, mem_singleton.mp secondMember]
  obtain ⟨next, lastPasscode, listed, active, activated, sameAgain, accounts, isActive, idle, sound,
    isListed⟩ := activateAfterStarting_sound after faithful stored rfl lists
      listable_zero listable_zero distinct waiting.active salt
  have life : next.life passcode = { domain := next, passcode := lastPasscode } := by
    refine sound.stored.life_eq ?_
    rcases sameAgain with rfl | rfl
    · exact same
    · exact .inr rfl
  refine ⟨next, localKey, listed, active, ?_, idle.trans waiting.idle, ?_, ?_⟩
  · rw [started, bind_some]
    exact activated
  · rw [life]
    exact sound
  · have zero : restored (fun _ => sessionId) [0] = [0] := by
      unfold restored
      dsimp only
      split
      · rfl
      next some =>
        rw [filter_eq_self]
        intro index member
        by_contra without
        refine some (filter_eq_nil_iff.mpr ?_)
        exact fun _ _ => without
    rw [life]
    refine recordedIn_restored (fun _ => sessionId) [0] owner.accountToActivate
      sound.indices.nodup ?_ ?_ ?_ ?_
    · rw [zero]
      exact accounts
    · rw [zero]
      exact isActive
    · rcases isListed with ⟨rfl, -⟩ | ⟨rfl, -⟩
      · exact .inl rfl
      · exact .inl rfl
    · rcases isListed with ⟨-, rfl⟩ | ⟨-, now⟩
      · exact .inl rfl
      · exact .inr now

end Domain

theorem Life.recordedIn_iff {listed : List Int32} {active : Int32} {life : Life}
    (nodup : life.domain.indices.Nodup) :
    life.RecordedIn listed active ↔
      listed.filter (fun index => life.domain.sessionOf index ≠ 0) = life.domain.authed ∧
        ∀ index ∈ life.domain.authed, life.domain.active = some index →
          Domain.chosen active life.domain.authed = some index := by
  constructor
  · rintro ⟨authed, isActive⟩
    refine ⟨authed, fun index member same => ?_⟩
    rw [isActive ((Domain.activeSessionExists_iff nodup).mpr ⟨index, member, same⟩), same]
  · rintro ⟨authed, isActive⟩
    refine ⟨authed, fun exists' => ?_⟩
    obtain ⟨index, member, same⟩ := (Domain.activeSessionExists_iff nodup).mp exists'
    rw [isActive index member same, same]

end TelegramDesktop.Accounts
