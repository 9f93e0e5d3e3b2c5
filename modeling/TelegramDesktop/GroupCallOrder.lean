import TelegramDesktop.GroupCall
import Mathlib.Data.List.Nodup

/-!
# Updates in the order of their versions

Every update can be applied to one version of the call only. The queue holds the updates
that are ahead of the call, and the first of them is the one that can be applied next,
if there is one.
-/

namespace TelegramDesktop

open List GroupCallUpdate

namespace GroupCallUpdate

variable {α : Type*} {update : GroupCallUpdate α}

theorem required_of_increment (increment : update.increment = true) :
    update.required = update.version - 1 := if_pos increment

theorem required_of_not_increment (increment : update.increment = false) :
    update.required = update.version := by
  rw [required, increment]
  rfl

theorem type_eq_iff : update.type = .versionedParticipant ↔ update.increment = true := by
  cases update with
  | updateGroupCall version fields =>
    exact iff_of_false (fun never => by cases never) Bool.noConfusion
  | updateGroupCallParticipants version versioned fields =>
    cases found : versioned.contains true with
    | true => simp only [type, increment, found, if_true]
    | false => simp only [type, increment, found, Bool.false_eq_true, if_false, reduceCtorEq]

end GroupCallUpdate

namespace GroupCall

open GroupCallUpdate (required_of_increment required_of_not_increment)

variable {α : Type*} {call : GroupCall α} {update : GroupCallUpdate α} {start : Int}
  {held : List (GroupCallUpdate α)}

theorem place_eq (isLoaded : call.version ≠ 0) :
    place update call =
      if !call.applyingQueuedUpdates && call.version = update.required then
        call.applyEnqueuedUpdate update
      else if call.version ≤ update.required then
        call.queue update.version update.type update
      else call := by
  cases update with
  | updateGroupCall version fields =>
    simp [place, isLoaded, GroupCallUpdate.required, GroupCallUpdate.increment,
      GroupCallUpdate.version, GroupCallUpdate.type]
  | updateGroupCallParticipants version versioned fields => rfl

/-- The versioned updates have versions of their own, all after the start. -/
structure Admissible (start : Int) (updates : List (GroupCallUpdate α)) : Prop where
  distinct : ((updates.filter GroupCallUpdate.increment).map GroupCallUpdate.version).Nodup
  after : ∀ update ∈ updates, update.increment = true → start < update.version

theorem Admissible.of_sublist {updates fewer : List (GroupCallUpdate α)}
    (admissible : Admissible start updates) (sublist : fewer.Sublist updates) :
    Admissible start fewer where
  distinct := admissible.distinct.sublist ((sublist.filter _).map _)
  after update member := admissible.after update (sublist.subset member)

/-- The updates that arrived in time are applied, held or queued, and the versioned
ones are applied one version after another. -/
structure Invariant (start : Int) (held : List (GroupCallUpdate α)) (call : GroupCall α) :
    Prop where
  keyed : ∀ entry ∈ call.queuedUpdates.entries,
    entry.1 = toLex (entry.2.version, entry.2.type)
  ahead : ∀ entry ∈ call.queuedUpdates.entries, call.version ≤ entry.2.required
  kept : (call.applied.map Prod.fst ++ (held ++ call.queuedUpdates.entries.map Prod.snd)).Perm
    ((call.arrived.filter fun entry => entry.2 ≤ entry.1.required).map Prod.fst)
  inTime : ∀ entry ∈ call.arrived, entry.1.increment = true → entry.2 ≤ entry.1.required
  moments : ∀ entry ∈ call.applied, entry.2 = entry.1.required
  increasing : ∃ count : Nat, call.version = start + count ∧
    ((call.applied.map Prod.fst).filter GroupCallUpdate.increment).map GroupCallUpdate.version =
      (List.range count).map fun index : Nat => start + 1 + (index : Int)

namespace Invariant

section

variable (inv : Invariant start held call)
include inv

theorem of_phase (phase : GroupCallPhase) : Invariant start held { call with phase := phase } :=
  { inv with }

theorem reached : start ≤ call.version := by
  obtain ⟨count, version, -⟩ := inv.increasing
  omega

theorem distinct (admissible : Admissible start (call.arrived.map Prod.fst)) :
    (((call.applied.map Prod.fst ++ (held ++ call.queuedUpdates.entries.map Prod.snd)).filter
      GroupCallUpdate.increment).map GroupCallUpdate.version).Nodup := by
  have inArrived : ((call.arrived.filter fun entry => entry.2 ≤ entry.1.required).map
      Prod.fst).Sublist (call.arrived.map Prod.fst) := filter_sublist.map _
  exact ((inv.kept.filter _).map _).nodup_iff.mpr (admissible.of_sublist inArrived).distinct

theorem applied_of_le {version : Int} (after : start < version) (reached : version ≤ call.version) :
    ∃ entry ∈ call.applied, entry.1.increment = true ∧ entry.1.version = version := by
  obtain ⟨count, isVersion, increasing⟩ := inv.increasing
  have inRange : version ∈ (range count).map fun index : Nat => start + 1 + (index : Int) := by
    refine mem_map.mpr ⟨(version - start - 1).toNat, ?_, ?_⟩
    · rw [mem_range]
      omega
    · omega
  rw [← increasing] at inRange
  obtain ⟨update, filtered, isThis⟩ := mem_map.mp inRange
  obtain ⟨member, increment⟩ := mem_filter.mp filtered
  obtain ⟨entry, applied, rfl⟩ := mem_map.mp member
  exact ⟨entry, applied, increment, isThis⟩

theorem arrived_of_kept
    (member : update ∈ call.applied.map Prod.fst ++
      (held ++ call.queuedUpdates.entries.map Prod.snd)) :
    update ∈ call.arrived.map Prod.fst := by
  obtain ⟨entry, filtered, rfl⟩ := mem_map.mp (inv.kept.mem_iff.mp member)
  exact mem_map_of_mem (mem_of_mem_filter filtered)

end

theorem arrive (inv : Invariant start [] call)
    (admissible : Admissible start (call.arrived.map Prod.fst ++ [update])) :
    Invariant start (if call.version ≤ update.required then [update] else [])
      { call with arrived := call.arrived ++ [(update, call.version)] } where
  keyed := inv.keyed
  ahead := inv.ahead
  kept := by
    have kept := inv.kept
    rw [nil_append] at kept
    rw [filter_append, map_append]
    split
    next early =>
      have isKept : ([(update, call.version)].filter fun entry =>
          decide (entry.2 ≤ entry.1.required)).map Prod.fst = [update] := by simp [early]
      rw [isKept, singleton_append]
      exact perm_middle.trans ((kept.cons update).trans (perm_append_singleton update _).symm)
    next late =>
      have isDropped : ([(update, call.version)].filter fun entry =>
          decide (entry.2 ≤ entry.1.required)).map Prod.fst = [] := by simp [late]
      rw [isDropped, append_nil]
      exact kept
  inTime entry member increment := by
    rcases mem_append.mp member with old | isNew
    · exact inv.inTime entry old increment
    · obtain rfl := mem_singleton.mp isNew
      by_contra late
      rw [required_of_increment increment] at late
      have after := admissible.after update (by simp) increment
      obtain ⟨applied, appliedMem, appliedIncrement, same⟩ :=
        inv.applied_of_le after (by simp only at late; omega)
      have inArrived := inv.arrived_of_kept (mem_append_left _ (mem_map_of_mem appliedMem))
      have distinct := admissible.distinct
      rw [filter_append, map_append, nodup_append] at distinct
      refine distinct.2.2 applied.1.version ?_ update.version ?_ same
      · exact mem_map_of_mem (mem_filter.mpr ⟨inArrived, appliedIncrement⟩)
      · exact mem_map_of_mem (mem_filter.mpr ⟨mem_singleton.mpr rfl, increment⟩)
  moments := inv.moments
  increasing := inv.increasing

theorem queue (inv : Invariant start [update] call) (early : call.version ≤ update.required) :
    Invariant start [] (call.queue update.version update.type update) where
  keyed entry member := by
    rcases FlatMultiMap.mem_emplace.mp member with rfl | old
    · rfl
    · exact inv.keyed entry old
  ahead entry member := by
    rcases FlatMultiMap.mem_emplace.mp member with rfl | old
    · exact early
    · exact inv.ahead entry old
  kept := by
    have queued := (FlatMultiMap.emplace_perm (toLex (update.version, update.type)) update
      call.queuedUpdates).map Prod.snd
    exact (queued.append_left _).trans inv.kept
  inTime := inv.inTime
  moments := inv.moments
  increasing := inv.increasing

theorem apply (inv : Invariant start [update] call) (positive : 0 < start)
    (applies : call.version = update.required)
    (ahead : ∀ entry ∈ call.queuedUpdates.entries, update.version ≤ entry.2.required) :
    Invariant start [] (call.applyEnqueuedUpdate update) := by
  have reached := inv.reached
  have version : (call.applyEnqueuedUpdate update).version = update.version := by
    refine if_neg ?_
    cases increment : update.increment with
    | true => rw [required_of_increment increment] at applies; omega
    | false => rw [required_of_not_increment increment] at applies; omega
  refine ⟨inv.keyed, ?_, ?_, inv.inTime, ?_, ?_⟩
  · rw [version]
    exact ahead
  · change ((call.applied ++ [(update, call.version)]).map Prod.fst ++ ([] ++ _)).Perm _
    rw [map_append, append_assoc]
    exact inv.kept
  · intro entry member
    rcases mem_append.mp member with old | isNew
    · exact inv.moments entry old
    · obtain rfl := mem_singleton.mp isNew
      exact applies
  · obtain ⟨count, isVersion, increasing⟩ := inv.increasing
    rw [version]
    change ∃ count : Nat, update.version = start + count ∧
      (((call.applied ++ [(update, call.version)]).map Prod.fst).filter _).map _ = _
    rw [map_append, filter_append, map_append, increasing]
    cases increment : update.increment with
    | true =>
      rw [required_of_increment increment] at applies
      refine ⟨count + 1, by omega, ?_⟩
      have next : update.version = start + 1 + (count : Int) := by omega
      simp [increment, range_succ, next]
    | false =>
      rw [required_of_not_increment increment] at applies
      exact ⟨count, by omega, by simp [increment]⟩

theorem pop {rest : FlatMultiMap (Int ×ₗ QueuedType) (GroupCallUpdate α)}
    {entry : (Int ×ₗ QueuedType) × GroupCallUpdate α} (inv : Invariant start [] call)
    (entries : call.queuedUpdates.entries = entry :: rest.entries) :
    Invariant start [entry.2] { call with queuedUpdates := rest } where
  keyed other member := inv.keyed other (entries ▸ mem_cons_of_mem entry member)
  ahead other member := inv.ahead other (entries ▸ mem_cons_of_mem entry member)
  kept := by
    have kept := inv.kept
    rw [entries] at kept
    exact kept
  inTime := inv.inTime
  moments := inv.moments
  increasing := inv.increasing

end Invariant

/-- Nothing is left in the queue for the version that the call has. -/
def Waits (call : GroupCall α) : Prop :=
  ∀ entry ∈ call.queuedUpdates.entries, call.version < entry.2.required

/-- What holds at all times if the updates that arrived are admissible. -/
def Good (start : Int) (call : GroupCall α) : Prop :=
  Admissible start (call.arrived.map Prod.fst) →
    Invariant start [] call ∧ (call.phase = .idle → call.Waits)

theorem good_loaded : Good start (loaded start : GroupCall α) := by
  intro _
  refine ⟨⟨?_, ?_, Perm.refl _, ?_, ?_, ⟨0, by simp [loaded], rfl⟩⟩, ?_⟩
  · exact fun _ member => by cases member
  · exact fun _ member => by cases member
  · exact fun _ member => by cases member
  · exact fun _ member => by cases member
  · exact fun _ _ member => by cases member

theorem version_le_required {other : GroupCallUpdate α} (applies : call.version = update.required)
    (later : call.version < other.required) : update.version ≤ other.required := by
  cases increment : update.increment with
  | true =>
    rw [required_of_increment increment] at applies
    omega
  | false =>
    rw [required_of_not_increment increment] at applies
    omega

theorem enqueueUpdate_cases (isLoaded : call.version ≠ 0) (notProcessing : call.phase ≠ .processing)
    {arrived : GroupCall α}
    (arrives : { call with arrived := call.arrived ++ [(update, call.version)] } = arrived) :
    (call.phase = .idle ∧ call.version = update.required ∧
      call.enqueueUpdate update = arrived.applyEnqueuedUpdate update) ∨
    ∃ phase, phase ≠ .idle ∧
      call.enqueueUpdate update =
        if call.version ≤ update.required then
          { arrived.queue update.version update.type update with phase := phase }
        else { arrived with phase := phase } := by
  subst arrives
  have placed := @place_eq α { call with arrived := call.arrived ++ [(update, call.version)] }
    update isLoaded
  unfold enqueueUpdate
  rw [placed]
  cases isPhase : call.phase with
  | processing => exact (notProcessing isPhase).elim
  | applying =>
    right
    refine ⟨.applying, by simp, ?_⟩
    simp only [applyingQueuedUpdates, decide_true, Bool.not_true, Bool.false_and,
      Bool.false_eq_true, if_false]
    split
    · simp [queue]
    · simp
  | idle =>
    by_cases applies : call.version = update.required
    · refine .inl ⟨rfl, applies, ?_⟩
      simp [applyingQueuedUpdates, applies, applyEnqueuedUpdate]
    · right
      refine ⟨.processing, by simp, ?_⟩
      simp only [applyingQueuedUpdates, applies, decide_false, Bool.and_false,
        Bool.false_eq_true, if_false]
      split
      · simp [queue]
      · simp

theorem place_arrived (update : GroupCallUpdate α) (call : GroupCall α) :
    (place update call).arrived = call.arrived := by
  unfold place
  dsimp only
  repeat' split
  all_goals rfl

theorem enqueueUpdate_arrived (update : GroupCallUpdate α) (call : GroupCall α) :
    (call.enqueueUpdate update).arrived = call.arrived ++ [(update, call.version)] := by
  unfold enqueueUpdate
  dsimp only
  split <;> rw [place_arrived]

theorem Good.enqueueUpdate (positive : 0 < start) (good : Good start call)
    (notProcessing : call.phase ≠ .processing) (update : GroupCallUpdate α) :
    Good start (call.enqueueUpdate update) := by
  intro admissibleNow
  have admissible : Admissible start (call.arrived.map Prod.fst ++ [update]) := by
    rw [enqueueUpdate_arrived, map_append] at admissibleNow
    exact admissibleNow
  obtain ⟨inv, waits⟩ := good (admissible.of_sublist (sublist_append_left _ _))
  have arrives := inv.arrive admissible
  have reached := inv.reached
  rcases enqueueUpdate_cases (by omega) notProcessing rfl with
    ⟨isIdle, applies, eq⟩ | ⟨phase, busy, eq⟩
  · rw [if_pos applies.le] at arrives
    have ahead := fun entry member => version_le_required applies (waits isIdle entry member)
    rw [eq]
    exact ⟨arrives.apply positive applies ahead, fun never => by cases never⟩
  · rw [eq]
    split
    next early =>
      rw [if_pos early] at arrives
      exact ⟨(arrives.queue early).of_phase phase, fun isIdle => (busy isIdle).elim⟩
    next late =>
      rw [if_neg late] at arrives
      exact ⟨arrives.of_phase phase, fun isIdle => (busy isIdle).elim⟩

theorem required_le_of_key {other : GroupCallUpdate α}
    (key : toLex (update.version, update.type) ≤ toLex (other.version, other.type)) :
    update.version ≤ other.version ∧ update.required ≤ other.required := by
  have lower : update.required ≤ update.version := by
    unfold required
    split <;> omega
  rcases Prod.Lex.toLex_le_toLex.mp key with below | ⟨same, types⟩
  · refine ⟨le_of_lt below, ?_⟩
    have atLeast : other.version - 1 ≤ other.required := by
      unfold required
      split <;> omega
    omega
  · change update.version = other.version at same
    refine ⟨same.le, ?_⟩
    cases increment : other.increment with
    | false =>
      rw [required_of_not_increment increment, ← same]
      exact lower
    | true =>
      have first : update.type = .versionedParticipant := by
        rw [type_eq_iff.mpr increment] at types
        exact QueuedType.rank_injective (Nat.le_zero.mp types)
      rw [required_of_increment increment, required_of_increment (type_eq_iff.mp first), same]

/-- A round applies the first of the queue if it can be applied, and ends the loop
otherwise. -/
theorem processQueuedUpdate_cases (isLoaded : call.version ≠ 0) (inv : Invariant start [] call) :
    (call.queuedUpdates = ∅ ∧ call.processQueuedUpdate = { call with phase := .idle }) ∨
    ∃ entry rest, call.queuedUpdates.entries = entry :: rest.entries ∧
      (∀ other ∈ rest.entries, entry.2.version ≤ other.2.version ∧
        entry.2.required ≤ other.2.required) ∧
      (call.version = entry.2.required ∧ call.processQueuedUpdate =
        applyEnqueuedUpdate entry.2 { call with queuedUpdates := rest } ∨
      call.version < entry.2.required ∧
        call.processQueuedUpdate = { call with phase := .idle }) := by
  unfold processQueuedUpdate
  rw [if_neg isLoaded]
  cases popped : call.queuedUpdates.popFront with
  | none => exact .inl ⟨FlatMultiMap.popFront_eq_none.mp popped, rfl⟩
  | some found =>
    obtain ⟨entry, rest⟩ := found
    obtain ⟨entries, first⟩ := FlatMultiMap.popFront_eq_some popped
    have inQueue : entry ∈ call.queuedUpdates.entries := by simp [entries]
    have key := inv.keyed entry inQueue
    have ahead := inv.ahead entry inQueue
    refine .inr ⟨entry, rest, entries, ?_, ?_⟩
    · intro other member
      have otherKey := inv.keyed other (entries ▸ mem_cons_of_mem entry member)
      exact required_le_of_key (key ▸ otherKey ▸ first other member)
    · simp only [key, ofLex_toLex, type_eq_iff]
      cases increment : entry.2.increment with
      | true =>
        rw [required_of_increment increment] at ahead ⊢
        by_cases applies : call.version = entry.2.version - 1
        · left
          refine ⟨applies, ?_⟩
          rw [if_neg (by simp; omega), if_pos (by simp; omega)]
        · right
          refine ⟨by omega, ?_⟩
          rw [if_neg (by simp; omega), if_neg (by simp; omega)]
      | false =>
        rw [required_of_not_increment increment] at ahead ⊢
        by_cases applies : call.version = entry.2.version
        · left
          refine ⟨applies, ?_⟩
          rw [if_neg (by simp; omega), if_pos (by simp; omega)]
        · right
          refine ⟨by omega, ?_⟩
          rw [if_neg (by simp; omega), if_neg (by simp; omega)]

theorem processQueuedUpdate_arrived (call : GroupCall α) :
    call.processQueuedUpdate.arrived = call.arrived := by
  unfold processQueuedUpdate
  dsimp only
  repeat' split
  all_goals rfl

theorem Good.processQueuedUpdate (positive : 0 < start) (good : Good start call) :
    Good start call.processQueuedUpdate := by
  intro admissibleNow
  rw [processQueuedUpdate_arrived] at admissibleNow
  obtain ⟨inv, -⟩ := good admissibleNow
  have reached := inv.reached
  rcases processQueuedUpdate_cases (by omega) inv with
    ⟨empty, eq⟩ | ⟨entry, rest, entries, first, ⟨applies, eq⟩ | ⟨early, eq⟩⟩
  · rw [eq]
    refine ⟨inv.of_phase _, fun _ other member => ?_⟩
    rw [empty] at member
    cases member
  · rw [eq]
    have taken := inv.pop entries
    refine ⟨taken.apply positive applies ?_, fun never => by cases never⟩
    intro other member
    obtain ⟨version, required⟩ := first other member
    cases increment : entry.2.increment with
    | false => rwa [required_of_not_increment increment] at required
    | true =>
      cases otherIncrement : other.2.increment with
      | false => rwa [required_of_not_increment otherIncrement]
      | true =>
        -- two versioned updates in the queue have different versions
        have distinct := inv.distinct admissibleNow
        rw [entries, nil_append, map_cons, filter_append, map_append,
          filter_cons_of_pos increment, map_cons] at distinct
        have notAgain := (nodup_cons.mp (nodup_append.mp distinct).2.1).1
        have different : entry.2.version ≠ other.2.version := by
          intro same
          refine notAgain (same ▸ mem_map_of_mem (mem_filter.mpr ⟨?_, otherIncrement⟩))
          exact mem_map_of_mem member
        rw [required_of_increment otherIncrement]
        omega
  · rw [eq]
    refine ⟨inv.of_phase _, fun _ other member => ?_⟩
    rw [entries] at member
    rcases mem_cons.mp member with rfl | later
    · exact early
    · exact early.trans_le (first other later).2

theorem applyEnqueuedUpdate_version_le (positive : 0 < call.version)
    (applies : call.version = update.required) :
    call.version ≤ (call.applyEnqueuedUpdate update).version := by
  have lower : update.required ≤ update.version := by
    unfold required
    split <;> omega
  have version : (call.applyEnqueuedUpdate update).version = update.version := if_neg (by omega)
  rw [version, applies]
  exact lower

/-- Every step keeps what holds and adds to what arrived, and the version never
decreases. -/
theorem Good.step (positive : 0 < start) (good : Good start call) {event : Event α}
    {later : GroupCall α} (taken : GroupCall.step call event = some later) :
    Good start later ∧
      later.arrived.map Prod.fst = call.arrived.map Prod.fst ++ arrivals [event] ∧
      (Admissible start (later.arrived.map Prod.fst) → call.version ≤ later.version) := by
  have arrivedBefore : ∀ more, Admissible start (call.arrived.map Prod.fst ++ more) →
      Invariant start [] call := fun more admissible =>
    (good (admissible.of_sublist (sublist_append_left _ _))).1
  cases event with
  | arrive update =>
    have eq : call.phase ≠ .processing ∧ call.enqueueUpdate update = later := by
      cases phase : call.phase with
      | processing => simp [GroupCall.step, phase] at taken
      | _ => simpa [GroupCall.step, phase] using taken
    obtain ⟨notProcessing, rfl⟩ := eq
    refine ⟨good.enqueueUpdate positive notProcessing update, ?_, ?_⟩
    · rw [enqueueUpdate_arrived, map_append]
      rfl
    · rw [enqueueUpdate_arrived, map_append]
      intro admissible
      have reached := (arrivedBefore _ admissible).reached
      rcases enqueueUpdate_cases (by omega) notProcessing rfl with
        ⟨-, applies, eq⟩ | ⟨phase, -, eq⟩
      · rw [eq]
        have positiveNow : 0 < call.version := by omega
        exact @applyEnqueuedUpdate_version_le α
          { call with arrived := call.arrived ++ [(update, call.version)] } update positiveNow
          applies
      · rw [eq]
        split <;> exact le_rfl
  | proceed =>
    cases phase : call.phase with
    | idle => simp [GroupCall.step, phase] at taken
    | applying =>
      have eq : { call with phase := .processing } = later := by
        simpa [GroupCall.step, phase] using taken
      subst eq
      refine ⟨fun admissible => ⟨(good admissible).1.of_phase _, fun never => by cases never⟩,
        (append_nil _).symm, fun _ => le_rfl⟩
    | processing =>
      have eq : call.processQueuedUpdate = later := by
        simpa [GroupCall.step, phase] using taken
      subst eq
      have arrived := call.processQueuedUpdate_arrived
      refine ⟨good.processQueuedUpdate positive, ?_, ?_⟩
      · rw [arrived]
        exact (append_nil _).symm
      · rw [arrived]
        intro admissible
        have inv := (good admissible).1
        have reached := inv.reached
        rcases processQueuedUpdate_cases (by omega) inv with
          ⟨-, eq⟩ | ⟨entry, rest, -, -, ⟨applies, eq⟩ | ⟨-, eq⟩⟩
        · rw [eq]
        · rw [eq]
          have positiveNow : 0 < call.version := by omega
          exact @applyEnqueuedUpdate_version_le α { call with queuedUpdates := rest } entry.2
            positiveNow applies
        · rw [eq]

theorem arrivals_cons (event : Event α) (events : List (Event α)) :
    arrivals (event :: events) = arrivals [event] ++ arrivals events := by
  cases event <;> rfl

/-- A run applies what arrives, and in this order. -/
theorem Good.run (positive : 0 < start) {events : List (Event α)} (good : Good start call)
    {last : GroupCall α} (ends : TelegramDesktop.run GroupCall.step call events = some last) :
    Good start last ∧
      last.arrived.map Prod.fst = call.arrived.map Prod.fst ++ arrivals events ∧
      (Admissible start (last.arrived.map Prod.fst) → call.version ≤ last.version) := by
  induction events generalizing call with
  | nil =>
    cases ends
    exact ⟨good, (append_nil _).symm, fun _ => le_rfl⟩
  | cons event events ih =>
    obtain ⟨next, taken, rest⟩ := Option.bind_eq_some_iff.mp ends
    obtain ⟨goodNext, arrivedNext, versionNext⟩ := good.step positive taken
    obtain ⟨goodLast, arrivedLast, versionLast⟩ := ih goodNext rest
    refine ⟨goodLast, ?_, fun admissible => ?_⟩
    · rw [arrivedLast, arrivedNext, append_assoc]
      exact congrArg _ (arrivals_cons event events).symm
    · refine (versionNext (admissible.of_sublist ?_)).trans (versionLast admissible)
      rw [arrivedLast]
      exact sublist_append_left _ _

/-- How much is left to do; every step of the queue makes it less. -/
def remaining (call : GroupCall α) : Nat :=
  3 * call.queuedUpdates.size + match call.phase with
    | .idle => 0
    | .processing => 1
    | .applying => 2

theorem processQueuedUpdate_remaining (isProcessing : call.phase = .processing) :
    call.processQueuedUpdate.remaining < call.remaining := by
  unfold processQueuedUpdate
  split
  · simp [remaining, isProcessing]
  · cases popped : call.queuedUpdates.popFront with
    | none => simp [remaining, isProcessing]
    | some found =>
      obtain ⟨entry, rest⟩ := found
      have entries := (FlatMultiMap.popFront_eq_some popped).1
      have size : call.queuedUpdates.size = rest.size + 1 := by
        simp [FlatMultiMap.size, entries]
      dsimp only
      split
      · simp [remaining, isProcessing, size]
      · split
        · simp [remaining, isProcessing, size, applyEnqueuedUpdate]
          omega
        · simp [remaining, isProcessing]

theorem settles (call : GroupCall α) :
    ∃ rounds final, TelegramDesktop.run step call (replicate rounds .proceed) = some final ∧
      final.phase = .idle := by
  induction left : call.remaining using Nat.strong_induction_on generalizing call with
  | _ left' ih =>
    subst left
    cases phase : call.phase with
    | idle => exact ⟨0, call, rfl, phase⟩
    | applying =>
      have fewer : ({ call with phase := .processing } : GroupCall α).remaining <
          call.remaining := by simp [remaining, phase]
      obtain ⟨rounds, final, ends, isIdle⟩ := ih _ fewer _ rfl
      refine ⟨rounds + 1, final, ?_, isIdle⟩
      simpa [replicate_succ, TelegramDesktop.run, step, phase] using ends
    | processing =>
      obtain ⟨rounds, final, ends, isIdle⟩ :=
        ih _ (processQueuedUpdate_remaining phase) _ rfl
      refine ⟨rounds + 1, final, ?_, isIdle⟩
      simpa [replicate_succ, TelegramDesktop.run, step, phase] using ends

/-- Once all versions have arrived and nothing is left to do, all of them are applied,
one after another. -/
theorem Invariant.inVersionOrder {count : Nat} (inv : Invariant start [] call)
    (waits : call.Waits)
    (versioned : (((call.arrived.map Prod.fst).filter GroupCallUpdate.increment).map
      GroupCallUpdate.version).Perm ((List.range count).map fun index : Nat =>
        start + 1 + (index : Int)))
    (others : ∀ update ∈ call.arrived.map Prod.fst, update.increment = false →
      update.version ≤ start + count) : InVersionOrder start count call := by
  have inRange : ∀ update ∈ call.arrived.map Prod.fst, update.increment = true →
      update.version ≤ start + count := by
    intro update member increment
    have isVersion := versioned.mem_iff.mp (mem_map_of_mem (mem_filter.mpr ⟨member, increment⟩))
    obtain ⟨index, isIndex, same⟩ := mem_map.mp isVersion
    rw [mem_range] at isIndex
    omega
  have upTo : ∀ update ∈ call.arrived.map Prod.fst, update.version ≤ start + count := by
    intro update member
    cases increment : update.increment with
    | true => exact inRange update member increment
    | false => exact others update member increment
  have reached := inv.reached
  have atMost : call.version ≤ start + count := by
    by_contra beyond
    obtain ⟨entry, member, -, same⟩ :=
      inv.applied_of_le (show start < call.version by omega) le_rfl
    have inArrived := inv.arrived_of_kept (mem_append_left _ (mem_map_of_mem member))
    have bound := upTo entry.1 inArrived
    omega
  have atLeast : start + count ≤ call.version := by
    by_contra below
    -- the update with the next version has arrived, and is neither applied nor queued
    have isNext : call.version + 1 ∈ (range count).map fun index : Nat =>
        start + 1 + (index : Int) := by
      refine mem_map.mpr ⟨(call.version - start).toNat, ?_, by omega⟩
      rw [mem_range]
      omega
    obtain ⟨update, filtered, isVersion⟩ := mem_map.mp (versioned.mem_iff.mpr isNext)
    obtain ⟨member, increment⟩ := mem_filter.mp filtered
    obtain ⟨entry, arrived, rfl⟩ := mem_map.mp member
    have inTime := inv.inTime entry arrived increment
    have kept := inv.kept.mem_iff.mpr
      (mem_map_of_mem (mem_filter.mpr ⟨arrived, decide_eq_true inTime⟩))
    rw [nil_append] at kept
    rcases mem_append.mp kept with applied | queued
    · obtain ⟨reachedCount, version, increasing⟩ := inv.increasing
      have isApplied : entry.1.version ∈ (range reachedCount).map fun index : Nat =>
          start + 1 + (index : Int) := by
        rw [← increasing]
        exact mem_map_of_mem (mem_filter.mpr ⟨applied, increment⟩)
      obtain ⟨index, isIndex, same⟩ := mem_map.mp isApplied
      rw [mem_range] at isIndex
      omega
    · obtain ⟨queuedEntry, inQueue, same⟩ := mem_map.mp queued
      have later := waits queuedEntry inQueue
      rw [same, required_of_increment increment] at later
      omega
  have version : call.version = start + count := le_antisymm atMost atLeast
  have empty : call.queuedUpdates = ∅ := by
    apply FlatMultiMap.ext_entries
    refine eq_nil_iff_forall_not_mem.mpr fun entry member => ?_
    have later := waits entry member
    have inArrived := inv.arrived_of_kept
      (mem_append_right _ (mem_append_right _ (mem_map_of_mem member)))
    have bound := upTo entry.2 inArrived
    unfold required at later
    split at later <;> omega
  refine ⟨version, empty, ?_, ?_, inv.moments⟩
  · have kept := inv.kept
    rw [empty, FlatMultiMap.entries_empty, map_nil, append_nil, append_nil] at kept
    have same : (call.arrived.filter fun entry => decide (entry.2 ≤ entry.1.required)) =
        call.arrived.filter fun entry =>
          entry.1.increment || decide (entry.2 ≤ entry.1.version) := by
      refine filter_congr fun entry arrived => ?_
      cases increment : entry.1.increment with
      | true => simp [inv.inTime entry arrived increment]
      | false => simp [required_of_not_increment increment]
    rwa [same] at kept
  · obtain ⟨reachedCount, isVersion, increasing⟩ := inv.increasing
    obtain rfl : reachedCount = count := by omega
    exact increasing

/-- For every order in which the updates arrive, also while others are applied, the
version never decreases, and in the end every update that arrived in time was applied
once, to the version that it requires. -/
theorem applied_in_version_order {count : Nat} (positive : 0 < start) {events : List (Event α)}
    {last : GroupCall α} (ends : run step (loaded start) events = some last)
    (versioned : (((arrivals events).filter GroupCallUpdate.increment).map
      GroupCallUpdate.version).Perm ((List.range count).map fun index : Nat =>
        start + 1 + (index : Int)))
    (others : ∀ update ∈ arrivals events, update.increment = false →
      update.version ≤ start + count) :
    (∀ before between after middle later, events = before ++ (between ++ after) →
      run step (loaded start) before = some middle → run step middle between = some later →
        middle.version ≤ later.version) ∧
    ∃ rounds final, run step last (List.replicate rounds .proceed) = some final ∧
      final.phase = .idle ∧ InVersionOrder start count final := by
  have admissible : Admissible start (arrivals events) := by
    refine ⟨?_, ?_⟩
    · refine versioned.nodup_iff.mpr (List.Nodup.map ?_ nodup_range)
      intro first second same
      dsimp only at same
      omega
    · intro update member increment
      have isVersion := versioned.mem_iff.mp (mem_map_of_mem (mem_filter.mpr ⟨member, increment⟩))
      obtain ⟨index, -, same⟩ := mem_map.mp isVersion
      omega
  have begins : Good start (loaded start : GroupCall α) := good_loaded
  refine ⟨?_, ?_⟩
  · rintro before between after middle later rfl first second
    obtain ⟨goodMiddle, arrivedMiddle, -⟩ := begins.run positive first
    obtain ⟨-, arrivedLater, monotone⟩ := goodMiddle.run positive second
    refine monotone (admissible.of_sublist ?_)
    have sofar : later.arrived.map Prod.fst = arrivals before ++ arrivals between := by
      rw [arrivedLater, arrivedMiddle]
      rfl
    have whole : arrivals (before ++ (between ++ after)) =
        arrivals before ++ arrivals between ++ arrivals after := by
      simp [arrivals, filterMap_append]
    rw [sofar, whole]
    exact sublist_append_left _ _
  · obtain ⟨goodLast, arrivedLast, -⟩ := begins.run positive ends
    obtain ⟨rounds, final, settled, isIdle⟩ := last.settles
    obtain ⟨goodFinal, arrivedFinal, -⟩ := goodLast.run positive settled
    have none : arrivals (replicate rounds (.proceed : Event α)) = [] := by
      simp [arrivals]
    have arrived : final.arrived.map Prod.fst = arrivals events := by
      rw [arrivedFinal, arrivedLast, none, append_nil]
      rfl
    obtain ⟨inv, waits⟩ := goodFinal (arrived.symm ▸ admissible)
    exact ⟨rounds, final, settled, isIdle,
      inv.inVersionOrder (waits isIdle) (arrived.symm ▸ versioned) (arrived.symm ▸ others)⟩

/-- A versioned update arrives after the one that follows it, and before another one
that can be applied then. -/
def outOfOrder : List (Event Unit) :=
  [.arrive (.updateGroupCallParticipants 3 [false, true] ()), .proceed,
    .arrive (.updateGroupCallParticipants 2 [true] ()), .arrive (.updateGroupCall 2 ()),
    .proceed, .proceed]

theorem applied_in_version_order_example :
    ∃ last, run step (loaded 1) outOfOrder = some last ∧
      ((∀ before between after middle later, outOfOrder = before ++ (between ++ after) →
        run step (loaded 1) before = some middle → run step middle between = some later →
          middle.version ≤ later.version) ∧
      ∃ rounds final, run step last (List.replicate rounds .proceed) = some final ∧
        final.phase = .idle ∧ InVersionOrder 1 2 final) := by
  obtain ⟨last, ends⟩ : ∃ last, run step (loaded 1) outOfOrder = some last := ⟨_, rfl⟩
  exact ⟨last, ends, applied_in_version_order (by decide) ends (by decide) (by decide)⟩

end GroupCall

end TelegramDesktop
