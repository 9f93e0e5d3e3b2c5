import TelegramDesktop.FlatMap

/-!
# Replay protection of received message ids

A `ReceivedIdsManager` remembers the ids of received messages, as in
`mtproto/details/mtproto_received_ids_manager.cpp`.
-/

namespace TelegramDesktop

open FlatMap List

def kIdsBufferSize : Nat := 400

/-- The ids in the order of `_idsNeedAck`. -/
structure ReceivedIdsManager where
  idsNeedAck : FlatMap Nat Bool := ∅

namespace ReceivedIdsManager

/-- What registering an id says of it. -/
inductive Result
  | success
  | duplicate
  | tooOld
  deriving DecidableEq, Repr

/-- What is known of an id. -/
inductive State
  | notFound
  | needsAck
  | noAckNeeded
  deriving DecidableEq, Repr

variable (manager : ReceivedIdsManager)

def min : Nat := (manager.idsNeedAck.entries.head?.map Prod.fst).getD 0

def max : Nat := (manager.idsNeedAck.entries.getLast?.map Prod.fst).getD 0

/-- The id is kept, unless it is known or too old. -/
def registerMsgId (msgId : Nat) (needAck : Bool) : ReceivedIdsManager × Result :=
  if manager.idsNeedAck.contains msgId then (manager, .duplicate)
  else if manager.idsNeedAck.size < kIdsBufferSize ∨ manager.min < msgId then
    ({ idsNeedAck := manager.idsNeedAck.emplace msgId needAck }, .success)
  else (manager, .tooOld)

def lookup (msgId : Nat) : State :=
  match manager.idsNeedAck.find? msgId with
  | none => .notFound
  | some true => .needsAck
  | some false => .noAckNeeded

/-- The loop of `shrink`, by the size that is left. -/
def shrinkLoop : Nat → FlatMap Nat Bool → FlatMap Nat Bool
  | 0, ids => ids
  | size + 1, ids =>
    if kIdsBufferSize < size + 1 then shrinkLoop size ids.eraseFirst else ids

/-- The oldest ids are dropped beyond the limit. -/
def shrink : ReceivedIdsManager :=
  { idsNeedAck := shrinkLoop manager.idsNeedAck.size manager.idsNeedAck }

def clear : ReceivedIdsManager := {}

theorem shrinkLoop_eq_trim (size : Nat) (ids : FlatMap Nat Bool) :
    shrinkLoop size ids = ids.trim kIdsBufferSize size := by
  induction size generalizing ids with
  | zero => rfl
  | succ size ih => rw [shrinkLoop, FlatMap.trim, ih]

theorem entries_shrinkLoop (size : Nat) (ids : FlatMap Nat Bool) :
    (shrinkLoop size ids).entries = ids.entries.drop (size - kIdsBufferSize) := by
  rw [shrinkLoop_eq_trim, entries_trim]

theorem entries_shrink :
    manager.shrink.idsNeedAck.entries = manager.idsNeedAck.entries.drop
      (manager.idsNeedAck.size - kIdsBufferSize) :=
  entries_shrinkLoop _ _

theorem size_shrink :
    manager.shrink.idsNeedAck.size =
      if kIdsBufferSize ≤ manager.idsNeedAck.size then kIdsBufferSize
      else manager.idsNeedAck.size := by
  have length := congrArg length manager.entries_shrink
  rw [length_drop] at length
  unfold size at length ⊢
  rw [length]
  split <;> omega

/-- What is kept are the greatest of the entries, as many as fit. -/
structure KeepsGreatest (before after : FlatMap Nat Bool) : Prop where
  size : after.size = if kIdsBufferSize ≤ before.size then kIdsBufferSize else before.size
  kept : ∀ entry ∈ after.entries, entry ∈ before.entries
  greatest : ∀ entry ∈ before.entries, entry ∉ after.entries →
    ∀ other ∈ after.entries, entry.1 < other.1

theorem shrink_keepsGreatest :
    KeepsGreatest manager.idsNeedAck manager.shrink.idsNeedAck := by
  refine ⟨manager.size_shrink, ?_, ?_⟩
  · intro entry member
    rw [entries_shrink] at member
    exact mem_of_mem_drop member
  · intro entry member dropped other otherMem
    have increasing := manager.idsNeedAck.increasing
    rw [entries_shrink] at dropped otherMem
    rw [← take_append_drop (manager.idsNeedAck.size - kIdsBufferSize)
      manager.idsNeedAck.entries] at increasing member
    have inTaken := (mem_append.mp member).resolve_right dropped
    exact (pairwise_append.mp increasing).2.2 entry inTaken other otherMem

variable {manager} {msgId : Nat} {needAck : Bool}

theorem min_mem (some : 0 < manager.idsNeedAck.size) :
    ∃ entry ∈ manager.idsNeedAck.entries, entry.1 = manager.min := by
  unfold min
  unfold size at some
  cases entries : manager.idsNeedAck.entries with
  | nil => simp [entries] at some
  | cons head tail => exact ⟨head, mem_cons_self, rfl⟩

theorem registerMsgId_cases :
    (manager.registerMsgId msgId needAck).1 = manager ∧
        (manager.registerMsgId msgId needAck).2 ≠ .success ∨
      manager.idsNeedAck.contains msgId = false ∧
        (manager.idsNeedAck.size < kIdsBufferSize ∨ manager.min < msgId) ∧
        manager.registerMsgId msgId needAck =
          ({ idsNeedAck := manager.idsNeedAck.emplace msgId needAck }, .success) := by
  unfold registerMsgId
  split
  · exact .inl ⟨rfl, by simp⟩
  next missing =>
    split
    next fits =>
      rw [Bool.not_eq_true] at missing
      exact .inr ⟨missing, fits, rfl⟩
    · exact .inl ⟨rfl, by simp⟩

/-- An id is remembered while it is stored, or while the buffer is full of
greater ids. -/
def Remembers (manager : ReceivedIdsManager) (msgId : Nat) : Prop :=
  manager.idsNeedAck.contains msgId = true ∨
    (kIdsBufferSize ≤ manager.idsNeedAck.size ∧
      ∀ entry ∈ manager.idsNeedAck.entries, msgId < entry.1)

theorem Remembers.not_success (remembers : manager.Remembers msgId) (needAck : Bool) :
    (manager.registerMsgId msgId needAck).2 ≠ .success := by
  rcases registerMsgId_cases with ⟨-, refused⟩ | ⟨missing, fits, -⟩
  · exact refused
  · rcases remembers with stored | ⟨full, below⟩
    · rw [stored] at missing
      cases missing
    · have some : 0 < manager.idsNeedAck.size := lt_of_lt_of_le (by decide) full
      obtain ⟨entry, member, isMin⟩ := min_mem some
      have belowMin := below entry member
      omega

theorem size_emplace {ids : FlatMap Nat Bool} (missing : ids.contains msgId = false) :
    ids.size ≤ (ids.emplace msgId needAck).size := by
  have fresh := contains_eq_false.mp missing
  apply (subperm_of_subset ids.nodup _).length_le
  intro entry member
  exact (mem_emplace fresh).mpr (.inr member)

theorem Remembers.registerMsgId (remembers : manager.Remembers msgId) (other : Nat)
    (needAck : Bool) : (manager.registerMsgId other needAck).1.Remembers msgId := by
  rcases registerMsgId_cases with ⟨same, -⟩ | ⟨missing, fits, added⟩
  · rw [same]
    exact remembers
  · rw [added]
    have fresh := contains_eq_false.mp missing
    rcases remembers with stored | ⟨full, below⟩
    · obtain ⟨entry, member, isId⟩ := contains_iff.mp stored
      exact .inl (contains_iff.mpr ⟨entry, (mem_emplace fresh).mpr (.inr member), isId⟩)
    · refine .inr ⟨full.trans (size_emplace missing), ?_⟩
      intro entry member
      rcases (mem_emplace fresh).mp member with rfl | old
      · have some : 0 < manager.idsNeedAck.size := lt_of_lt_of_le (by decide) full
        obtain ⟨least, leastMem, isMin⟩ := min_mem some
        have belowMin := below least leastMem
        have above := fits.resolve_left (not_lt.mpr full)
        exact belowMin.trans (isMin ▸ above)
      · exact below entry old

theorem Remembers.shrink (remembers : manager.Remembers msgId) :
    manager.shrink.Remembers msgId := by
  have keeps := manager.shrink_keepsGreatest
  rcases remembers with stored | ⟨full, below⟩
  · obtain ⟨entry, member, rfl⟩ := contains_iff.mp stored
    by_cases kept : entry ∈ manager.shrink.idsNeedAck.entries
    · exact .inl (contains_iff.mpr ⟨entry, kept, rfl⟩)
    · refine .inr ⟨?_, keeps.greatest entry member kept⟩
      by_contra few
      have all : manager.idsNeedAck.size ≤ kIdsBufferSize := by
        have size := keeps.size
        split at size <;> omega
      rw [entries_shrink, Nat.sub_eq_zero_of_le all, drop_zero] at kept
      exact kept member
  · refine .inr ⟨?_, fun entry member => below entry (keeps.kept entry member)⟩
    rw [keeps.size, if_pos full]

theorem remembers_of_success (accepted : (manager.registerMsgId msgId needAck).2 = .success) :
    (manager.registerMsgId msgId needAck).1.Remembers msgId := by
  rcases registerMsgId_cases with ⟨-, refused⟩ | ⟨missing, -, added⟩
  · exact (refused accepted).elim
  · rw [added]
    have fresh := contains_eq_false.mp missing
    exact .inl (contains_iff.mpr ⟨(msgId, needAck), (mem_emplace fresh).mpr (.inl rfl), rfl⟩)

/-- The calls that change the manager. -/
inductive Call
  | registerMsgId (msgId : Nat) (needAck : Bool)
  | shrink
  deriving DecidableEq, Repr

def call (manager : ReceivedIdsManager) : Call → ReceivedIdsManager
  | .registerMsgId msgId needAck => (manager.registerMsgId msgId needAck).1
  | .shrink => manager.shrink

def callAll (manager : ReceivedIdsManager) (calls : List Call) : ReceivedIdsManager :=
  calls.foldl call manager

theorem Remembers.callAll (remembers : manager.Remembers msgId) (calls : List Call) :
    (manager.callAll calls).Remembers msgId := by
  induction calls generalizing manager with
  | nil => exact remembers
  | cons first calls ih =>
    cases first with
    | registerMsgId other needAck => exact ih (remembers.registerMsgId other needAck)
    | shrink => exact ih remembers.shrink

/-- In every run an id is accepted once at most, and shrinking keeps the
greatest ids. -/
theorem accepted_once (manager : ReceivedIdsManager) :
    (∀ before between msgId first second,
      ((manager.callAll before).registerMsgId msgId first).2 = .success →
      ((manager.callAll (before ++ .registerMsgId msgId first :: between)).registerMsgId
        msgId second).2 ≠ .success) ∧
    (∀ before, KeepsGreatest (manager.callAll before).idsNeedAck
      (manager.callAll (before ++ [.shrink])).idsNeedAck) := by
  constructor
  · intro before between msgId first second accepted
    have remembers := (remembers_of_success accepted).callAll between
    have run : manager.callAll (before ++ .registerMsgId msgId first :: between) =
        ((manager.callAll before).registerMsgId msgId first).1.callAll between := by
      rw [callAll, foldl_append, foldl_cons]
      rfl
    rw [run]
    exact remembers.not_success second
  · intro before
    have run : manager.callAll (before ++ [.shrink]) = (manager.callAll before).shrink := by
      rw [callAll, foldl_append]
      rfl
    rw [run]
    exact shrink_keepsGreatest _

end ReceivedIdsManager

end TelegramDesktop
