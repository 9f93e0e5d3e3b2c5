import TelegramDesktop.DomainSessions

/-!
# Steps of a started domain

What each change of the accounts does to their indices, their sessions and the active
account.
-/

namespace TelegramDesktop.Accounts

open List

namespace Domain

variable {owner next : Domain}

/-- So many indices from the given one on, and the one after them. -/
def candidates : Nat → Int32 → List Int32
  | 0, index => [index]
  | left + 1, index => index :: candidates left (index + 1)

theorem freeIndex_mem (taken : List Int32) (left : Nat) (index : Int32) :
    freeIndex taken left index ∈ candidates left index := by
  induction left generalizing index with
  | zero => exact mem_singleton_self index
  | succ left ih =>
    unfold freeIndex candidates
    split
    · exact mem_cons_of_mem _ (ih (index + 1))
    · exact mem_cons_self

variable {index : Int32}

theorem candidates_subset {taken : List Int32} {left : Nat}
    (isTaken : freeIndex taken left index ∈ taken) : candidates left index ⊆ taken := by
  induction left generalizing index with
  | zero =>
    intro other member
    rw [mem_singleton.mp member]
    exact isTaken
  | succ left ih =>
    unfold freeIndex at isTaken
    split at isTaken
    next here =>
      exact cons_subset.mpr ⟨here, ih isTaken⟩
    next free =>
      exact absurd isTaken free

theorem freeIndex_spec {taken : List Int32} (few : taken.length < 6) :
    InRange (freeIndex taken taken.length 0) ∧ freeIndex taken taken.length 0 ∉ taken := by
  have small : ∀ left < 6, (candidates left 0).all (fun index => decide (InRange index)) ∧
      (candidates left 0).Nodup ∧ (candidates left 0).length = left + 1 := by decide
  obtain ⟨inRange, nodup, length⟩ := small taken.length few
  have allInRange := all_eq_true.mp inRange _ (freeIndex_mem taken taken.length 0)
  refine ⟨of_decide_eq_true allInRange, fun isTaken => ?_⟩
  have fits := (Nodup.subperm nodup (candidates_subset isTaken)).length_le
  omega

theorem add_spec (added : owner.add = some next) :
    ∃ index, InRange index ∧ index ∉ owner.indices ∧
      next = { owner with accounts := owner.accounts ++ [{ index, sessionId := 0 }] } := by
  unfold add at added
  split at added
  · cases added
  rename_i few
  split at added
  · cases added
  · cases added
    have six : kPremiumMaxAccounts.toNatClampNeg = 6 := rfl
    have length : owner.indices.length = owner.accounts.length := length_map _
    rw [six, not_or, Nat.not_le, ← length] at few
    rw [← length]
    obtain ⟨inRange, free⟩ := freeIndex_spec few.2
    exact ⟨_, inRange, free, rfl⟩

theorem sessionOf_add :
    sessionOf { owner with accounts := owner.accounts ++ [{ index, sessionId := 0 }] } =
      owner.sessionOf := by
  funext other
  rw [sessionOf, sessionOf, sessionIn_append]
  split
  · rfl
  next unknown =>
    rw [sessionIn_of_notMem unknown]
    simp [sessionIn]

theorem authed_add (free : index ∉ owner.indices) :
    authed { owner with accounts := owner.accounts ++ [{ index, sessionId := 0 }] } =
      owner.authed := by
  have without : owner.sessionOf index = 0 := sessionIn_of_notMem free
  rw [authed, sessionOf_add, authed, indices, map_append, filter_append]
  simp [without, indices]

theorem activate_spec {current : Int32} (isActive : owner.active = some current)
    (same : owner.accountToActivate = current) (activated : owner.activate index = some next) :
    current = index ∧ next = owner ∨
      current ≠ index ∧ index ∈ owner.indices ∧
        next = { owner with
          accountToActivate := index
          active := some index
          writeAccountsScheduled :=
            owner.writeAccountsScheduled || owner.activeSessionExists } := by
  unfold activate at activated
  rw [isActive, same] at activated
  split at activated
  next here =>
    cases activated
    exact .inl ⟨Option.some.inj here, rfl⟩
  rename_i other
  split at activated
  · cases activated
  next known =>
    have different : current ≠ index := fun here => other (congrArg some here)
    refine .inr ⟨different, not_not.mp known, ?_⟩
    dsimp only at activated
    cases authed : owner.activeSessionExists with
    | true =>
      rw [authed, if_pos ⟨different, rfl⟩] at activated
      cases activated
      rw [Bool.or_true]
      rfl
    | false =>
      rw [authed, if_neg (by simp)] at activated
      cases activated
      rw [Bool.or_false]

theorem find_sessionExists (nodup : owner.indices.Nodup) :
    (owner.accounts.find? (·.sessionExists)).map (·.index) = owner.authed.head? := by
  rw [← head?_filter, filter_accounts nodup, withSessions, head?_map, Option.map_map]
  exact Option.map_id'

/-- Without a session in the active account, the first one with a session is activated. -/
theorem activateAuthedAccount_spec {current : Int32} (indices : Listable owner.indices)
    (isActive : owner.active = some current) (known : current ∈ owner.indices) :
    ∃ next, owner.activateAuthedAccount = some next ∧
      ((current ∈ owner.authed ∨ owner.authed = []) ∧ next = owner ∨
        current ∉ owner.authed ∧ ∃ index, owner.authed.head? = some index ∧
          next = { owner with accountToActivate := index, active := some index }) := by
  have nonempty : owner.accounts ≠ [] := by
    intro none
    rw [Domain.indices, none] at known
    cases known
  have exists' : owner.activeSessionExists = true ↔ current ∈ owner.authed := by
    rw [activeSessionExists_iff indices.nodup, isActive]
    constructor
    · rintro ⟨index, member, ⟨⟩⟩
      exact member
    · exact fun member => ⟨current, member, rfl⟩
  unfold activateAuthedAccount
  rw [if_neg nonempty]
  by_cases member : current ∈ owner.authed
  · rw [if_pos (exists'.mpr member)]
    exact ⟨owner, rfl, .inl ⟨.inl member, rfl⟩⟩
  · rw [if_neg (mt exists'.mp member)]
    have first := find_sessionExists indices.nodup
    cases found : owner.accounts.find? (·.sessionExists) with
    | none =>
      rw [found, Option.map_none] at first
      exact ⟨owner, rfl, .inl ⟨.inr (head?_eq_none_iff.mp first.symm), rfl⟩⟩
    | some account =>
      rw [found, Option.map_some] at first
      have isAuthed : account.index ∈ owner.authed := mem_of_head? first.symm
      have different : current ≠ account.index := fun here => member (here ▸ isAuthed)
      have knownIndex : account.index ∈ owner.indices := mem_of_mem_filter isAuthed
      have unauthed : owner.activeSessionExists = false := by
        rw [← Bool.not_eq_true, exists']
        exact member
      refine ⟨_, ?_, .inr ⟨member, account.index, first.symm, rfl⟩⟩
      unfold activate
      dsimp only
      rw [isActive, if_neg fun here => different (Option.some.inj here),
        if_neg (not_not.mpr knownIndex), unauthed, if_neg (by simp)]

/-- A list is what is kept of another one if and only if it stands in it in this order. -/
theorem filter_eq_iff_sublist {kept all : List Int32} (nodup : all.Nodup) :
    all.filter (fun index => index ∈ kept) = kept ↔ kept.Sublist all := by
  constructor
  · intro same
    rw [← same]
    exact filter_sublist
  · intro sublist
    have whole : kept.filter (fun index => index ∈ kept) = kept :=
      filter_eq_self.mpr fun index member => decide_eq_true member
    have fewer := sublist.filter fun index => index ∈ kept
    rw [whole] at fewer
    have notMore := (Nodup.subperm (nodup.filter fun index => decide (index ∈ kept))
      fun index member => of_decide_eq_true (mem_filter.mp member).2).length_le
    exact (fewer.eq_of_length_le notMore).symm

@[simp] theorem indices_setSession (index : Int32) (sessionId : Nat) :
    (owner.setSession index sessionId).indices = owner.indices := by
  rw [indices, setSession, map_map]
  refine map_congr_left fun account _ => ?_
  rw [Function.comp]
  split
  · rfl
  · rfl

theorem sessionOf_setSession (known : index ∈ owner.indices) (sessionId : Nat) :
    (owner.setSession index sessionId).sessionOf =
      Function.update owner.sessionOf index sessionId := by
  funext other
  exact sessionIn_map owner.accounts index other sessionId known

theorem authed_login {sessionId : Nat} (known : index ∈ owner.indices) (some : sessionId ≠ 0) :
    (owner.setSession index sessionId).authed =
      owner.indices.filter fun other => other = index ∨ owner.sessionOf other ≠ 0 := by
  rw [authed, sessionOf_setSession known, indices_setSession]
  refine filter_congr fun other _ => ?_
  rw [decide_eq_decide]
  by_cases here : other = index
  · simp [here, some]
  · simp [here]

theorem authed_logout (known : index ∈ owner.indices) :
    (owner.setSession index 0).authed = owner.authed.filter fun other => other ≠ index := by
  rw [authed, sessionOf_setSession known, indices_setSession, authed, filter_filter]
  refine filter_congr fun other _ => ?_
  by_cases here : other = index
  · simp [here]
  · simp [here]

theorem remaining_spec (nodup : owner.indices.Nodup) {keep : AccountWithIndex → Bool}
    (kept : ∀ account ∈ owner.accounts, account.sessionId ≠ 0 → keep account) :
    sessionOf { owner with accounts := owner.accounts.filter keep } = owner.sessionOf ∧
      authed { owner with accounts := owner.accounts.filter keep } = owner.authed ∧
      (indices { owner with accounts := owner.accounts.filter keep }).Sublist owner.indices := by
  have sessions : sessionOf { owner with accounts := owner.accounts.filter keep } =
      owner.sessionOf := funext fun index => sessionIn_filter nodup kept index
  have fewer : (indices { owner with accounts := owner.accounts.filter keep }).Sublist
      owner.indices := filter_sublist.map _
  refine ⟨sessions, ?_, fewer⟩
  have nodupAfter : (indices { owner with accounts := owner.accounts.filter keep }).Nodup :=
    nodup.sublist fewer
  have after := filter_accounts nodupAfter
  have same : (owner.accounts.filter keep).filter (·.sessionExists) =
      owner.accounts.filter (·.sessionExists) := by
    rw [filter_filter]
    refine filter_congr fun account member => ?_
    cases exists' : account.sessionExists with
    | false => rfl
    | true =>
      rw [AccountWithIndex.sessionExists, decide_eq_true_eq] at exists'
      exact kept account member exists'
  rw [same, filter_accounts nodup, sessions, withSessions_inj] at after
  exact after.symm

theorem chosen_filter_of_ne {active current : Int32} {indices : List Int32}
    (isChosen : chosen active indices = some current) (different : current ≠ index) :
    chosen active (indices.filter fun other => other ≠ index) = some current := by
  unfold chosen at isChosen ⊢
  split at isChosen
  next member =>
    cases isChosen
    rw [if_pos (mem_filter.mpr ⟨member, decide_eq_true different⟩)]
  next unknown =>
    rw [if_neg fun member => unknown (mem_of_mem_filter member)]
    cases indices with
    | nil => cases isChosen
    | cons first rest =>
      cases isChosen
      have first : (current :: rest).filter (fun other => other ≠ index) =
          current :: rest.filter fun other => other ≠ index :=
        filter_cons_of_pos (decide_eq_true different)
      rw [first, head?_cons]

theorem chosen_filter_self {active : Int32} {indices : List Int32}
    (isChosen : chosen active indices = some index) :
    chosen active (indices.filter fun other => other ≠ index) =
      (indices.filter fun other => other ≠ index).head? := by
  have gone : active ∉ indices.filter fun other => other ≠ index := by
    intro member
    have both := mem_filter.mp member
    unfold chosen at isChosen
    rw [if_pos both.1] at isChosen
    exact of_decide_eq_true both.2 (Option.some.inj isChosen)
  conv_lhs => unfold chosen
  rw [if_neg gone]

end Domain

end TelegramDesktop.Accounts
