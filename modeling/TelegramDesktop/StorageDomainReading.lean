import TelegramDesktop.StorageDomain

/-!
# Reading the list of accounts

The loop over the indices in the file of the accounts never fails.
-/

namespace TelegramDesktop.Accounts

open List Option

/-- An index that an account may have. -/
def InRange (index : Int32) : Prop := 0 ≤ index ∧ index < kPremiumMaxAccounts

instance (index : Int32) : Decidable (InRange index) :=
  inferInstanceAs (Decidable (0 ≤ index ∧ index < kPremiumMaxAccounts))

/-- The accounts that are added for the indices left in the file. -/
def accept (session : Int32 → Nat) (tried : List Int32) (sessions : List Nat) :
    List Int32 → List AccountWithIndex
  | [] => []
  | index :: rest =>
    if InRange index ∧ index ∉ tried then
      if session index ∉ sessions ∧ (session index ≠ 0 ∨ sessions = [] ∧ rest = []) then
        { index, sessionId := session index } ::
          accept session (index :: tried) (session index :: sessions) rest
      else accept session (index :: tried) sessions rest
    else accept session tried sessions rest

section Accept

variable {session : Int32 → Nat} {tried : List Int32} {sessions : List Nat}

/-- An account is added for an index that was not tried before, with its session. -/
theorem of_mem_accept {indices : List Int32} {account : AccountWithIndex}
    (member : account ∈ accept session tried sessions indices) :
    InRange account.index ∧ account.index ∉ tried ∧
      account.sessionId = session account.index := by
  induction indices generalizing tried sessions with
  | nil => cases member
  | cons index rest ih =>
    unfold accept at member
    split at member
    next isNew =>
      split at member
      · cases member with
        | head => exact ⟨isNew.1, isNew.2, rfl⟩
        | tail _ member =>
          obtain ⟨inRange, untried, same⟩ := ih member
          exact ⟨inRange, fun old => untried (mem_cons_of_mem _ old), same⟩
      · obtain ⟨inRange, untried, same⟩ := ih member
        exact ⟨inRange, fun old => untried (mem_cons_of_mem _ old), same⟩
    · exact ih member

theorem nodup_accept (indices : List Int32) :
    ((accept session tried sessions indices).map (·.index)).Nodup := by
  induction indices generalizing tried sessions with
  | nil => exact nodup_nil
  | cons index rest ih =>
    unfold accept
    split
    · split
      · rw [map_cons, nodup_cons]
        refine ⟨?_, ih⟩
        intro again
        obtain ⟨account, member, same⟩ := mem_map.mp again
        refine (of_mem_accept member).2.1 ?_
        rw [same]
        exact mem_cons_self
      · exact ih
    · exact ih

/-- Some account is added if an account in the list has a session, or if the last index
may be used and is not a repeated one. -/
theorem accept_ne_nil_iff (session : Int32 → Nat) (tried indices : List Int32) :
    accept session tried [] indices ≠ [] ↔
      (∃ index ∈ indices, InRange index ∧ index ∉ tried ∧ session index ≠ 0) ∨
        ∃ index, indices.getLast? = some index ∧ InRange index ∧ index ∉ tried ∧
          index ∉ indices.dropLast := by
  induction indices generalizing tried with
  | nil => simp [accept]
  | cons index rest ih =>
    unfold accept
    by_cases isNew : InRange index ∧ index ∉ tried
    · rw [if_pos isNew]
      by_cases authed : session index = 0
      · cases rest with
        | nil => simp [accept, authed, isNew]
        | cons next rest =>
          rw [if_neg (by simp [authed]), ih]
          grind
      · rw [if_pos ⟨not_mem_nil, .inl authed⟩]
        exact iff_of_true (cons_ne_nil _ _) (.inl ⟨index, mem_cons_self, isNew.1, isNew.2, authed⟩)
    · rw [if_neg isNew, ih]
      cases rest with
      | nil => grind
      | cons next rest =>
        grind

end Accept

namespace Storage

open DataStream

/-- The loop adds the accepted accounts after those that the domain has, when their
indices were tried. -/
theorem readAccounts_eq (world : World) (localKey : AuthKey) (left : Nat) (reading : Reading)
    (tried : reading.owner.indices ⊆ reading.tried) :
    ∃ result, readAccounts world localKey left reading = some result ∧
      result.stream = (readTimes readInt32 left reading.stream).2 ∧
      let added := accept (world.accountSession localKey) reading.tried reading.sessions
        (readTimes readInt32 left reading.stream).1
      result.owner = { reading.owner with accounts := reading.owner.accounts ++ added } ∧
      (result.sessions = [] ↔ reading.sessions = [] ∧ added = []) ∧
      result.active =
        if reading.sessions = [] then (added.head?.map (·.index)).getD reading.active
        else reading.active := by
  induction left generalizing reading with
  | zero =>
    refine ⟨reading, rfl, rfl, ?_, ?_, ?_⟩
    · rw [readTimes, accept, append_nil]
    · simp [readTimes, accept]
    · simp [readTimes, accept]
  | succ left ih =>
    obtain ⟨stream, owner, triedIndices, sessions, active⟩ := reading
    obtain ⟨index, rest, read⟩ : ∃ index rest, stream.readInt32 = (index, rest) := ⟨_, _, rfl⟩
    have isLast : (readTimes readInt32 left rest).1 = [] ↔ left = 0 := by
      rw [← length_eq_zero_iff, length_readTimes]
    simp only [readAccounts, readAccount, readTimes, read, accept]
    by_cases isNew : InRange index ∧ index ∉ triedIndices
    · have isNew' : 0 ≤ index ∧ index < kPremiumMaxAccounts ∧ index ∉ triedIndices :=
        ⟨isNew.1.1, isNew.1.2, isNew.2⟩
      have unused : index ∉ owner.indices := fun used => isNew.2 (tried used)
      rw [if_pos isNew, if_pos isNew']
      simp only [isLast, decide_eq_true_eq]
      split
      · rw [Domain.accountAddedInStorage, if_neg unused, map_some, bind_some]
        obtain ⟨result, done, streamEq, ownerEq, sessionsEq, activeEq⟩ := ih
          { stream := rest
            owner := { owner with accounts := owner.accounts ++
              [{ index, sessionId := world.accountSession localKey index }] }
            tried := index :: triedIndices
            sessions := world.accountSession localKey index :: sessions
            active := if sessions = [] then index else active } (by
              intro used member
              rw [Domain.indices, map_append] at member
              rcases mem_append.mp member with old | fresh
              · exact mem_cons_of_mem _ (tried old)
              · exact mem_cons.mpr (.inl (mem_singleton.mp fresh)))
        refine ⟨result, done, streamEq, ?_, ?_, ?_⟩
        · rw [ownerEq]
          rw [append_assoc, singleton_append]
        · simp [sessionsEq]
        · rw [activeEq, if_neg (cons_ne_nil _ _)]
          rfl
      · rw [bind_some]
        exact ih _ fun used member => mem_cons_of_mem _ (tried member)
    · have isOld : ¬(0 ≤ index ∧ index < kPremiumMaxAccounts ∧ index ∉ triedIndices) :=
        fun both => isNew ⟨⟨both.1, both.2.1⟩, both.2.2⟩
      rw [if_neg isNew, if_neg isOld, bind_some]
      exact ih _ tried

end Storage

end TelegramDesktop.Accounts
