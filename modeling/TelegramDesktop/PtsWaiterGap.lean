import TelegramDesktop.PtsWaiter
import Mathlib.Data.List.Induction

/-!
# Skipped updates and gaps

An update that was put into the queue should leave it only when the gap before
it is closed.  The queue is handed over whenever `check` lets the current
update through, and `check` lets every update through that takes no position,
gap or not.  So the queue respects the gap exactly in the runs where no such
update arrives over a gap while something is queued.  A run loses no queued
update if moreover every update that is queued finds its key free.
-/

namespace TelegramDesktop.PtsWaiter

open List FlatMap

variable {Update Updates : Type*} (waiter : PtsWaiter Update Updates)

theorem setWaitingForSkipped_eq (ms : Int) :
    ∃ timers, waiter.setWaitingForSkipped ms =
      { waiter with waitingForSkipped := decide (0 ≤ ms), timers := timers } := by
  unfold setWaitingForSkipped
  by_cases start : 0 ≤ ms
  · rw [if_pos start]
    exact ⟨_, by simp [ptsWaiterStartTimerFor, start]; rfl⟩
  · rw [if_neg start]
    unfold checkForWaiting
    split
    · exact ⟨_, by simp [ptsWaiterStartTimerFor, start]; rfl⟩
    · exact ⟨waiter.timers, by simp [start]⟩

/-- What every update changes: the last pts and the count. -/
def advance (pts count : Int) : PtsWaiter Update Updates :=
  { waiter with
    last := max waiter.last pts
    count := toInt32 (waiter.count + count) }

/-- The update leaves no gap. -/
def closeGap (pts count : Int) : PtsWaiter Update Updates :=
  { waiter.advance pts count with good := max waiter.last pts }

/-- The update leaves a gap. -/
def startWaiting (pts count : Int) (timers : List Int) : PtsWaiter Update Updates :=
  { waiter.advance pts count with waitingForSkipped := true, timers := timers }

theorem check_cases (inited : waiter.inited) (pts count : Int) :
    (max waiter.last pts = toInt32 (waiter.count + count) ∧
      waiter.check pts count = (waiter.closeGap pts count, true)) ∨
    (max waiter.last pts ≠ toInt32 (waiter.count + count) ∧
      ∃ timers, waiter.check pts count =
        (waiter.startWaiting pts count timers, decide (count = 0))) := by
  unfold check
  rw [if_neg (not_not.mpr inited)]
  by_cases closed : max waiter.last pts = toInt32 (waiter.count + count)
  · left
    rw [if_pos closed]
    exact ⟨closed, rfl⟩
  · right
    refine ⟨closed, ?_⟩
    rw [if_neg closed]
    split
    · obtain ⟨timers, same⟩ := (waiter.advance pts count).setWaitingForSkipped_eq 1
      exact ⟨timers, congrArg (·, decide (count = 0)) same⟩
    · obtain ⟨timers, same⟩ :=
        (waiter.advance pts count).setWaitingForSkipped_eq kWaitForSkippedTimeout
      exact ⟨timers, congrArg (·, decide (count = 0)) same⟩

theorem enqueue_eq (pts : Int) (payload : PtsPayload Update Updates) :
    ∃ queue updateQueue updatesQueue skippedKey, queue ≠ ∅ ∧
      waiter.enqueue pts payload = { waiter with
        queue := queue
        updateQueue := updateQueue
        updatesQueue := updatesQueue
        skippedKey := skippedKey } := by
  cases payload with
  | update update =>
    exact ⟨_, _, _, _, emplace_ne_empty _ _ _, rfl⟩
  | updates updates =>
    exact ⟨_, _, _, _, emplace_ne_empty _ _ _, rfl⟩

/-- The key that `ptsKey` makes up next. -/
def nextKey (pts : Int) : Nat :=
  skippedPtsKey pts ((waiter.skippedKey + 1) % 2 ^ 32)

/-- Nothing is stored beside the queue. -/
structure Stored : Prop where
  updateKeys : ∀ stored ∈ waiter.updateQueue.entries, waiter.queue.contains stored.1 = true
  updatesKeys : ∀ stored ∈ waiter.updatesQueue.entries, waiter.queue.contains stored.1 = true

variable {waiter}

theorem Stored.of_empty (updateQueue : waiter.updateQueue = ∅)
    (updatesQueue : waiter.updatesQueue = ∅) : waiter.Stored := by
  constructor
  · simp [updateQueue]
  · simp [updatesQueue]

theorem Stored.enqueue (stored : waiter.Stored) (pts : Int)
    (payload : PtsPayload Update Updates) : (waiter.enqueue pts payload).Stored := by
  cases payload with
  | update update =>
    constructor
    · intro entry member
      refine contains_emplace.mpr ?_
      rcases mem_of_mem_emplaceEntry member with rfl | old
      · exact .inl rfl
      · exact .inr (stored.updateKeys entry old)
    · exact fun entry member => contains_emplace.mpr (.inr (stored.updatesKeys entry member))
  | updates updates =>
    constructor
    · exact fun entry member => contains_emplace.mpr (.inr (stored.updateKeys entry member))
    · intro entry member
      refine contains_emplace.mpr ?_
      rcases mem_of_mem_emplaceEntry member with rfl | old
      · exact .inl rfl
      · exact .inr (stored.updatesKeys entry old)

theorem enqueue_handed (pts : Int) (payload : PtsPayload Update Updates) :
    (waiter.enqueue pts payload).handed = waiter.handed := by
  cases payload <;> rfl

theorem enqueue_taken {pts : Int} (taken : waiter.queue.contains (waiter.nextKey pts) = true)
    (payload : PtsPayload Update Updates) : (waiter.enqueue pts payload).queue = waiter.queue := by
  cases payload <;> exact emplace_of_contains taken

section Delivering

variable [Inhabited Update] [Inhabited Updates]

/-- An update that finds its key free takes a place of its own, and the
payloads of the others stay. -/
theorem Stored.enqueue_place (stored : waiter.Stored) {pts : Int}
    (free : waiter.queue.contains (waiter.nextKey pts) = false)
    (payload : PtsPayload Update Updates) :
    ∃ kind, (waiter.enqueue pts payload).queue = waiter.queue.emplace (waiter.nextKey pts) kind ∧
      (waiter.enqueue pts payload).skippedPayload (waiter.nextKey pts, kind) = payload ∧
      ∀ entry, entry.1 ≠ waiter.nextKey pts →
        (waiter.enqueue pts payload).skippedPayload entry = waiter.skippedPayload entry := by
  have fresh := contains_eq_false.mp free
  cases payload with
  | update update =>
    have freshUpdate : ∀ entry ∈ waiter.updateQueue.entries, entry.1 ≠ waiter.nextKey pts := by
      intro entry member same
      rw [← same, stored.updateKeys entry member] at free
      cases free
    refine ⟨.skippedUpdate, rfl, ?_, ?_⟩
    · exact congrArg (fun found => PtsPayload.update (found.getD default))
        (find?_emplace_self freshUpdate)
    · rintro ⟨key, kind⟩ distinct
      cases kind with
      | skippedUpdate =>
        exact congrArg (fun found => PtsPayload.update (found.getD default))
          (find?_emplace_of_ne freshUpdate distinct)
      | skippedUpdates => rfl
  | updates updates =>
    have freshUpdates : ∀ entry ∈ waiter.updatesQueue.entries,
        entry.1 ≠ waiter.nextKey pts := by
      intro entry member same
      rw [← same, stored.updatesKeys entry member] at free
      cases free
    refine ⟨.skippedUpdates, rfl, ?_, ?_⟩
    · exact congrArg (fun found => PtsPayload.updates (found.getD default))
        (find?_emplace_self freshUpdates)
    · rintro ⟨key, kind⟩ distinct
      cases kind with
      | skippedUpdate => rfl
      | skippedUpdates =>
        exact congrArg (fun found => PtsPayload.updates (found.getD default))
          (find?_emplace_of_ne freshUpdates distinct)

variable (waiter)

/-- The updates that were handed over, and after them those in the queue. -/
def payloads : List (PtsPayload Update Updates) :=
  waiter.handed.map HandedUpdate.payload ++ waiter.queue.entries.map waiter.skippedPayload

variable {waiter}

/-- An update is queued beside the others exactly when its key is free. -/
theorem Stored.enqueue_payloads_iff (stored : waiter.Stored) {pts : Int}
    {payload : PtsPayload Update Updates} :
    (waiter.enqueue pts payload).payloads.Perm (payload :: waiter.payloads) ↔
      waiter.queue.contains (waiter.nextKey pts) = false := by
  unfold payloads
  rw [enqueue_handed]
  cases taken : waiter.queue.contains (waiter.nextKey pts) with
  | true =>
    refine iff_of_false ?_ (by simp)
    intro perm
    have lengths := perm.length_eq
    simp [enqueue_taken taken] at lengths
  | false =>
    refine iff_of_true ?_ rfl
    obtain ⟨kind, queue, new, others⟩ := stored.enqueue_place taken payload
    have fresh := contains_eq_false.mp taken
    have perm : (waiter.queue.emplace (waiter.nextKey pts) kind).entries.Perm _ :=
      emplace_perm fresh
    have placed := perm.map (waiter.enqueue pts payload).skippedPayload
    rw [map_cons, new, map_congr_left fun entry member => others entry (fresh entry member)]
      at placed
    rw [queue]
    exact (placed.append_left _).trans perm_middle

variable (waiter)

/-- Unless the waiter waits, its queue stays; otherwise all of it is handed over. -/
theorem applySkippedUpdates_cases :
    (waiter.waitingForSkipped = false ∧ waiter.applySkippedUpdates = waiter) ∨
    (waiter.waitingForSkipped = true ∧
      ∃ updateQueue updatesQueue applySkippedLevel timers,
        (applySkippedLevel = waiter.applySkippedLevel ∨ applySkippedLevel = 0) ∧
        waiter.applySkippedUpdates = { waiter with
          queue := ∅
          updateQueue := updateQueue
          updatesQueue := updatesQueue
          applySkippedLevel := applySkippedLevel
          waitingForSkipped := false
          timers := timers
          handed := waiter.handed ++ waiter.queue.entries.map fun entry =>
            waiter.hand (waiter.skippedPayload entry) true }) := by
  unfold applySkippedUpdates
  cases waits : waiter.waitingForSkipped with
  | false => exact .inl ⟨rfl, by simp⟩
  | true =>
    right
    refine ⟨rfl, ?_⟩
    obtain ⟨timers, stopped⟩ := waiter.setWaitingForSkipped_eq (-1)
    rw [decide_eq_false (by decide : ¬ (0 : Int) ≤ -1)] at stopped
    rw [stopped]
    by_cases none : waiter.queue = ∅
    · refine ⟨waiter.updateQueue, waiter.updatesQueue, waiter.applySkippedLevel, timers,
        .inl rfl, ?_⟩
      simp [none]
    · refine ⟨∅, ∅, 0, timers, .inr rfl, ?_⟩
      have some : waiter.queue.isEmpty = false := by
        rw [← Bool.not_eq_true, FlatMap.isEmpty_iff]
        exact none
      simp only [Bool.not_true, Bool.false_eq_true, if_false, some, clearSkippedUpdates]
      rfl

def settle (call : Call Update Updates) : PtsWaiter Update Updates :=
  match call.payload with
  | some payload =>
    if !waiter.waitingForSkipped || waiter.queue.isEmpty then
      waiter.applyNoPtsCheck payload
    else (waiter.enqueue call.pts payload).applySkippedUpdates
  | none => waiter.applySkippedUpdates

/-- The update goes to the queue, if it has a payload. -/
def keep (call : Call Update Updates) : PtsWaiter Update Updates :=
  match call.payload with
  | some payload => waiter.enqueue call.pts payload
  | none => waiter

omit [Inhabited Update] [Inhabited Updates] in
theorem keep_eq (call : Call Update Updates) :
    ∃ queue updateQueue updatesQueue skippedKey, waiter.keep call = { waiter with
      queue := queue
      updateQueue := updateQueue
      updatesQueue := updatesQueue
      skippedKey := skippedKey } := by
  unfold keep
  cases call.payload with
  | none => exact ⟨_, _, _, _, rfl⟩
  | some payload =>
    obtain ⟨queue, updateQueue, updatesQueue, skippedKey, _, same⟩ :=
      waiter.enqueue_eq call.pts payload
    exact ⟨queue, updateQueue, updatesQueue, skippedKey, same⟩

/-- All overloads of `updateAndApply` share their way through `check`. -/
theorem deliver_eq (call : Call Update Updates) :
    waiter.deliver call =
      if waiter.requesting ∨ waiter.applySkippedLevel ≠ 0 then waiter.settle call
      else if call.pts ≤ waiter.good ∧ 0 < call.count then waiter
      else if (waiter.check call.pts call.count).2 then
        (waiter.check call.pts call.count).1.settle call
      else (waiter.check call.pts call.count).1.keep call := by
  unfold deliver settle keep
  cases payloadEq : call.payload with
  | some payload =>
    unfold updateAndApply updated updatedOr
    dsimp only
    split
    · simp
      split <;> rfl
    · split
      · rfl
      · split
        next passes =>
          simp only [passes, Bool.not_true, Bool.false_eq_true, if_false]
          split <;> rfl
        · rfl
  | none =>
    unfold updateAndApplyPts updatedPts updatedOr
    dsimp only
    split
    · rfl
    · split
      · rfl
      · split
        next passes =>
          simp [passes]
        · rfl

omit [Inhabited Update] [Inhabited Updates] in
theorem queue_eq_empty {waiter : PtsWaiter Update Updates}
    (waiting : waiter.queue ≠ ∅ → waiter.waitingForSkipped = true)
    (direct : (!waiter.waitingForSkipped || waiter.queue.isEmpty) = true) : waiter.queue = ∅ := by
  by_contra some
  rw [waiting some, Bool.not_true, Bool.false_or, FlatMap.isEmpty_iff] at direct
  exact some direct

/-- Queued updates were handed over only where the gap was closed, and while
something is queued the waiter waits. -/
structure GapRespected : Prop where
  closed : ∀ handed ∈ waiter.handed, handed.fromQueue = true → handed.last = handed.count
  waiting : waiter.queue ≠ ∅ → waiter.waitingForSkipped = true

/-- The calls that do not hand the queue over a gap: one that takes no position
must find nothing queued, or close the gap. -/
def Call.KeepsGap (call : Call Update Updates) : Prop :=
  call.count = 0 → waiter.requesting = false → waiter.queue ≠ ∅ →
    max waiter.last call.pts = toInt32 waiter.count

/-- The update a call brings: none if its position is known already. -/
def Call.arriving (call : Call Update Updates) : List (PtsPayload Update Updates) :=
  if waiter.requesting = false ∧ call.pts ≤ waiter.good ∧ 0 < call.count then []
  else call.payload.toList

/-- The calls that find a place of their own in the queue. -/
def Call.FindsPlace (call : Call Update Updates) : Prop :=
  call.arriving waiter ≠ [] → waiter.queue.contains (waiter.nextKey call.pts) = false

/-- What every run keeps, whether the gap is respected or not. -/
structure Steady : Prop where
  inited : waiter.inited
  level : waiter.applySkippedLevel = 0
  waiting : waiter.queue ≠ ∅ → waiter.waitingForSkipped = true
  idle : waiter.requesting = true → waiter.queue = ∅

variable {waiter}

/-- Once an update is let through, the queue is empty.  What was in it has been
handed over at the cursors of this moment. -/
structure Settles (before after : PtsWaiter Update Updates)
    (extra : List (HandedUpdate Update Updates)) : Prop where
  handed : after.handed = before.handed ++ extra
  queue : after.queue = ∅
  good : after.good = before.good
  last : after.last = before.last
  count : after.count = before.count
  requesting : after.requesting = before.requesting
  level : after.applySkippedLevel = 0
  cursors : ∀ handed ∈ extra, handed.fromQueue = true →
    handed.last = before.last ∧ handed.count = before.count
  flushed : before.queue ≠ ∅ → ∃ handed ∈ extra, handed.fromQueue = true
  direct : before.queue = ∅ → ∀ handed ∈ extra, handed.fromQueue = false

section

variable (level : waiter.applySkippedLevel = 0)
  (waiting : waiter.queue ≠ ∅ → waiter.waitingForSkipped = true)

include level waiting

theorem applySkippedUpdates_settles :
    ∃ extra, Settles waiter waiter.applySkippedUpdates extra := by
  rcases waiter.applySkippedUpdates_cases with
    ⟨notWaiting, same⟩ | ⟨_, updateQueue, updatesQueue, newLevel, timers, levelEq, same⟩
  · have none : waiter.queue = ∅ := by
      by_contra some
      rw [waiting some] at notWaiting
      cases notWaiting
    rw [same]
    exact ⟨[], by simp, none, rfl, rfl, rfl, rfl, level, by simp,
      fun some => (some none).elim, by simp⟩
  · rw [same]
    refine ⟨waiter.queue.entries.map fun entry =>
      waiter.hand (waiter.skippedPayload entry) true, rfl, rfl, rfl, rfl, rfl, rfl, ?_, ?_, ?_, ?_⟩
    · rcases levelEq with kept | zero
      · exact kept.trans level
      · exact zero
    · intro handed member _
      obtain ⟨entry, _, rfl⟩ := mem_map.mp member
      exact ⟨rfl, rfl⟩
    · intro some
      cases entriesEq : waiter.queue.entries with
      | nil => exact (some (ext_entries entriesEq)).elim
      | cons entry entries => exact ⟨_, mem_cons_self, rfl⟩
    · intro none
      simp [none]

theorem settle_settles (call : Call Update Updates) :
    ∃ extra, Settles waiter (waiter.settle call) extra := by
  unfold settle
  cases call.payload with
  | none => exact applySkippedUpdates_settles level waiting
  | some payload =>
    dsimp only
    split
    next direct =>
      have none := queue_eq_empty waiting direct
      exact ⟨[waiter.hand payload false], rfl, none, rfl, rfl, rfl, rfl, level,
        by simp [hand], fun some => (some none).elim, by simp [hand]⟩
    next notDirect =>
      have flags : waiter.waitingForSkipped = true := by
        cases waits : waiter.waitingForSkipped with
        | true => rfl
        | false => simp [waits] at notDirect
      obtain ⟨queue, updateQueue, updatesQueue, skippedKey, some, same⟩ :=
        waiter.enqueue_eq call.pts payload
      obtain ⟨extra, settles⟩ : ∃ extra, Settles (waiter.enqueue call.pts payload)
          (waiter.enqueue call.pts payload).applySkippedUpdates extra := by
        apply applySkippedUpdates_settles
        · rw [same]
          exact level
        · intro _
          rw [same]
          exact flags
      have wasSome : waiter.queue ≠ ∅ := by
        intro none
        simp [none] at notDirect
      rw [same] at settles ⊢
      exact ⟨extra, { settles with
        flushed := fun _ => settles.flushed some
        direct := fun none => (wasSome none).elim }⟩

end

theorem applySkippedUpdates_payloads : waiter.applySkippedUpdates.payloads = waiter.payloads := by
  rcases waiter.applySkippedUpdates_cases with ⟨_, same⟩ | ⟨_, _, _, _, _, _, same⟩
  · rw [same]
  · rw [same]
    simp [payloads, hand]

theorem Stored.applySkippedUpdates (stored : waiter.Stored) :
    waiter.applySkippedUpdates.Stored := by
  obtain ⟨timers, stopped⟩ := waiter.setWaitingForSkipped_eq (-1)
  unfold PtsWaiter.applySkippedUpdates
  rw [stopped]
  dsimp only
  split
  · exact stored
  · split
    · exact ⟨stored.updateKeys, stored.updatesKeys⟩
    · exact .of_empty rfl rfl

theorem Stored.settle (stored : waiter.Stored) (call : Call Update Updates) :
    (waiter.settle call).Stored := by
  unfold PtsWaiter.settle
  cases call.payload with
  | none => exact stored.applySkippedUpdates
  | some payload =>
    dsimp only
    split
    · exact ⟨stored.updateKeys, stored.updatesKeys⟩
    · exact (stored.enqueue call.pts payload).applySkippedUpdates

omit [Inhabited Update] [Inhabited Updates] in
theorem Stored.keep (stored : waiter.Stored) (call : Call Update Updates) :
    (waiter.keep call).Stored := by
  unfold PtsWaiter.keep
  cases call.payload with
  | none => exact stored
  | some payload => exact stored.enqueue call.pts payload

/-- The waiter has the updates of `before`, and `arriving` besides. -/
def Gains (before : PtsWaiter Update Updates) (arriving : List (PtsPayload Update Updates))
    (after : PtsWaiter Update Updates) : Prop :=
  after.payloads.Perm (arriving ++ before.payloads)

theorem Stored.keep_gains_iff (stored : waiter.Stored) {call : Call Update Updates} :
    waiter.Gains call.payload.toList (waiter.keep call) ↔
      (call.payload.toList ≠ [] → waiter.queue.contains (waiter.nextKey call.pts) = false) := by
  unfold Gains PtsWaiter.keep
  cases call.payload with
  | none => simp
  | some payload =>
    rw [imp_iff_right (by simp)]
    exact stored.enqueue_payloads_iff

theorem Stored.settle_gains_iff (stored : waiter.Stored)
    (waiting : waiter.queue ≠ ∅ → waiter.waitingForSkipped = true) {call : Call Update Updates} :
    waiter.Gains call.payload.toList (waiter.settle call) ↔
      (call.payload.toList ≠ [] → waiter.queue.contains (waiter.nextKey call.pts) = false) := by
  unfold Gains PtsWaiter.settle
  cases call.payload with
  | none => simp [applySkippedUpdates_payloads]
  | some payload =>
    rw [imp_iff_right (by simp)]
    dsimp only
    split
    next direct =>
      have none := queue_eq_empty waiting direct
      refine iff_of_true ?_ (by rw [none, contains_empty])
      have applied : (waiter.applyNoPtsCheck payload).payloads =
          waiter.handed.map HandedUpdate.payload ++ payload ::
            waiter.queue.entries.map waiter.skippedPayload := by
        simp [payloads, applyNoPtsCheck, hand, none]
      rw [applied]
      exact perm_middle
    · rw [applySkippedUpdates_payloads]
      exact stored.enqueue_payloads_iff

omit [Inhabited Update] [Inhabited Updates] in
theorem Settles.steady {before after : PtsWaiter Update Updates}
    {extra : List (HandedUpdate Update Updates)} (settles : Settles before after extra)
    (inited : before.inited) : after.Steady where
  inited := by
    unfold PtsWaiter.inited at inited ⊢
    rw [settles.good]
    exact inited
  level := settles.level
  waiting some := (some settles.queue).elim
  idle _ := settles.queue

/-- A call either keeps its update, or ignores it, or settles with the cursors
it has moved. -/
inductive Delivers (before : PtsWaiter Update Updates) (call : Call Update Updates) :
    PtsWaiter Update Updates → Prop
  /-- While the difference is requested, updates pass unseen. -/
  | unseen (requesting : before.requesting = true) :
      Delivers before call (before.settle call)
  | stale (asked : before.requesting = false) (old : call.pts ≤ before.good)
      (positive : 0 < call.count) : Delivers before call before
  | closes (asked : before.requesting = false)
      (fresh : ¬ (call.pts ≤ before.good ∧ 0 < call.count))
      (closed : max before.last call.pts = toInt32 (before.count + call.count)) :
      Delivers before call ((before.closeGap call.pts call.count).settle call)
  | waits (timers : List Int) (asked : before.requesting = false)
      (fresh : ¬ (call.pts ≤ before.good ∧ 0 < call.count))
      (gap : max before.last call.pts ≠ toInt32 (before.count + call.count))
      (takes : call.count ≠ 0) :
      Delivers before call ((before.startWaiting call.pts call.count timers).keep call)
  | slips (timers : List Int) (asked : before.requesting = false)
      (fresh : ¬ (call.pts ≤ before.good ∧ 0 < call.count))
      (gap : max before.last call.pts ≠ toInt32 (before.count + call.count))
      (zero : call.count = 0) :
      Delivers before call ((before.startWaiting call.pts call.count timers).settle call)

section

variable (steady : waiter.Steady)
include steady

theorem Steady.unseen_settles (call : Call Update Updates) :
    ∃ extra, Settles waiter (waiter.settle call) extra :=
  settle_settles steady.level steady.waiting call

theorem Steady.closeGap_settles (call : Call Update Updates) :
    ∃ extra, Settles (waiter.closeGap call.pts call.count)
      ((waiter.closeGap call.pts call.count).settle call) extra := by
  have level : (waiter.closeGap call.pts call.count).applySkippedLevel = 0 := steady.level
  exact settle_settles level steady.waiting call

theorem Steady.startWaiting_settles (timers : List Int) (call : Call Update Updates) :
    ∃ extra, Settles (waiter.startWaiting call.pts call.count timers)
      ((waiter.startWaiting call.pts call.count timers).settle call) extra := by
  have level : (waiter.startWaiting call.pts call.count timers).applySkippedLevel = 0 :=
    steady.level
  exact settle_settles level (fun _ => rfl) call

theorem Steady.delivers (call : Call Update Updates) :
    Delivers waiter call (waiter.deliver call) := by
  rw [deliver_eq]
  cases asked : waiter.requesting with
  | true =>
    rw [if_pos (.inl rfl)]
    exact .unseen asked
  | false =>
    rw [if_neg (by simp [steady.level])]
    by_cases stale : call.pts ≤ waiter.good ∧ 0 < call.count
    · rw [if_pos stale]
      exact .stale asked stale.1 stale.2
    · rw [if_neg stale]
      rcases waiter.check_cases steady.inited call.pts call.count with
        ⟨closed, checked⟩ | ⟨gap, timers, checked⟩
      · rw [checked, if_pos rfl]
        exact .closes asked stale closed
      · rw [checked]
        by_cases zero : call.count = 0
        · rw [if_pos (decide_eq_true zero)]
          exact .slips timers asked stale gap zero
        · rw [if_neg (by simpa using zero)]
          exact .waits timers asked stale gap zero

theorem Steady.deliver {call : Call Update Updates} (positive : 0 < call.pts) :
    (waiter.deliver call).Steady := by
  have delivers := steady.delivers call
  generalize waiter.deliver call = after at delivers ⊢
  cases delivers with
  | unseen =>
    obtain ⟨extra, settles⟩ := steady.unseen_settles call
    exact settles.steady steady.inited
  | stale => exact steady
  | closes =>
    obtain ⟨extra, settles⟩ := steady.closeGap_settles call
    apply settles.steady
    exact positive.trans_le (le_max_right _ _)
  | slips timers =>
    obtain ⟨extra, settles⟩ := steady.startWaiting_settles timers call
    exact settles.steady steady.inited
  | waits timers asked =>
    obtain ⟨queue, updateQueue, updatesQueue, skippedKey, same⟩ :=
      (waiter.startWaiting call.pts call.count timers).keep_eq call
    rw [same]
    refine ⟨steady.inited, steady.level, fun _ => rfl, ?_⟩
    intro requesting
    exact absurd (requesting.symm.trans asked) (by simp)

theorem Steady.deliver_gapRespected_iff (respected : waiter.GapRespected)
    {call : Call Update Updates} (positive : 0 < call.pts) :
    (waiter.deliver call).GapRespected ↔ call.KeepsGap waiter := by
  have next := steady.deliver positive
  have delivers := steady.delivers call
  generalize waiter.deliver call = after at delivers next ⊢
  have closes : (∀ handed ∈ after.handed, handed.fromQueue = true →
      handed.last = handed.count) → after.GapRespected := fun closed => ⟨closed, next.waiting⟩
  cases delivers with
  | unseen requesting =>
    obtain ⟨extra, settles⟩ := steady.unseen_settles call
    refine iff_of_true (closes ?_) ?_
    · intro handed member queued
      rw [settles.handed] at member
      rcases mem_append.mp member with old | new
      · exact respected.closed handed old queued
      · rw [settles.direct (steady.idle requesting) handed new] at queued
        cases queued
    · intro _ asked
      exact absurd (requesting.symm.trans asked) (by simp)
  | stale asked old takes =>
    refine iff_of_true respected ?_
    intro zero
    omega
  | closes asked fresh closed =>
    obtain ⟨extra, settles⟩ := steady.closeGap_settles call
    refine iff_of_true (closes ?_) ?_
    · intro handed member queued
      rw [settles.handed] at member
      rcases mem_append.mp member with old | new
      · exact respected.closed handed old queued
      · obtain ⟨lastEq, countEq⟩ := settles.cursors handed new queued
        rw [lastEq, countEq]
        exact closed
    · intro zero _ _
      rwa [zero, Int.add_zero] at closed
  | waits timers asked fresh gap takes =>
    refine iff_of_true (closes ?_) fun zero => (takes zero).elim
    obtain ⟨queue, updateQueue, updatesQueue, skippedKey, same⟩ :=
      (waiter.startWaiting call.pts call.count timers).keep_eq call
    rw [same]
    exact respected.closed
  | slips timers asked fresh gap zero =>
    obtain ⟨extra, settles⟩ := steady.startWaiting_settles timers call
    rw [zero, Int.add_zero] at gap
    by_cases none : waiter.queue = ∅
    · refine iff_of_true (closes ?_) fun _ _ some => (some none).elim
      intro handed member queued
      rw [settles.handed] at member
      rcases mem_append.mp member with old | new
      · exact respected.closed handed old queued
      · rw [settles.direct none handed new] at queued
        cases queued
    · refine iff_of_false ?_ fun keeps => gap (keeps zero asked none)
      intro broken
      obtain ⟨handed, member, queued⟩ := settles.flushed none
      obtain ⟨lastEq, countEq⟩ := settles.cursors handed member queued
      have closed := broken.closed handed (settles.handed ▸ mem_append_right _ member) queued
      rw [lastEq, countEq] at closed
      apply gap
      simpa [startWaiting, advance, zero] using closed

/-- A call loses no update exactly when its own finds a place. -/
theorem Steady.deliver_gains_iff (stored : waiter.Stored) {call : Call Update Updates} :
    waiter.Gains (call.arriving waiter) (waiter.deliver call) ↔ call.FindsPlace waiter := by
  have delivers := steady.delivers call
  generalize waiter.deliver call = after at delivers ⊢
  have arrives : ¬ (waiter.requesting = false ∧ call.pts ≤ waiter.good ∧ 0 < call.count) →
      call.arriving waiter = call.payload.toList := fun seen => if_neg seen
  unfold Call.FindsPlace
  cases delivers with
  | unseen requesting =>
    rw [arrives (by simp [requesting])]
    exact stored.settle_gains_iff steady.waiting
  | stale asked old positive =>
    have none : call.arriving waiter = [] := if_pos ⟨asked, old, positive⟩
    rw [none]
    exact iff_of_true .rfl (by simp)
  | closes asked fresh closed =>
    rw [arrives fun seen => fresh seen.2]
    have same : (waiter.closeGap call.pts call.count).Stored := ⟨stored.1, stored.2⟩
    exact same.settle_gains_iff steady.waiting
  | waits timers asked fresh gap takes =>
    rw [arrives fun seen => fresh seen.2]
    have same : (waiter.startWaiting call.pts call.count timers).Stored := ⟨stored.1, stored.2⟩
    exact same.keep_gains_iff
  | slips timers asked fresh gap zero =>
    rw [arrives fun seen => fresh seen.2]
    have same : (waiter.startWaiting call.pts call.count timers).Stored := ⟨stored.1, stored.2⟩
    exact same.settle_gains_iff fun _ => rfl

theorem Steady.deliver_stored (stored : waiter.Stored) (call : Call Update Updates) :
    (waiter.deliver call).Stored := by
  have delivers := steady.delivers call
  generalize waiter.deliver call = after at delivers ⊢
  cases delivers with
  | unseen => exact stored.settle call
  | stale => exact stored
  | closes =>
    have same : (waiter.closeGap call.pts call.count).Stored := ⟨stored.1, stored.2⟩
    exact same.settle call
  | waits timers =>
    have same : (waiter.startWaiting call.pts call.count timers).Stored := ⟨stored.1, stored.2⟩
    exact same.keep call
  | slips timers =>
    have same : (waiter.startWaiting call.pts call.count timers).Stored := ⟨stored.1, stored.2⟩
    exact same.settle call

end

theorem deliverAll_append (done : List (Call Update Updates)) (call : Call Update Updates) :
    waiter.deliverAll (done ++ [call]) = (waiter.deliverAll done).deliver call := by
  simp [deliverAll]

theorem Steady.deliverAll (steady : waiter.Steady) {calls : List (Call Update Updates)}
    (positive : ∀ call ∈ calls, 0 < call.pts) : (waiter.deliverAll calls).Steady := by
  induction calls using reverseRecOn with
  | nil => exact steady
  | append_singleton done call ih =>
    rw [deliverAll_append]
    exact (ih fun earlier member => positive earlier (by simp [member])).deliver
      (positive call (by simp))

theorem Steady.deliverAll_stored (steady : waiter.Steady) (stored : waiter.Stored)
    {calls : List (Call Update Updates)} (positive : ∀ call ∈ calls, 0 < call.pts) :
    (waiter.deliverAll calls).Stored := by
  induction calls using reverseRecOn with
  | nil => exact stored
  | append_singleton done call ih =>
    have earlier : ∀ call ∈ done, 0 < call.pts := fun call member =>
      positive call (by simp [member])
    rw [deliverAll_append]
    exact (steady.deliverAll earlier).deliver_stored (ih earlier) call

/-- In every state of the run the gap is respected, and every update that came
is handed over or still queued. -/
structure RunRespectsGap (waiter : PtsWaiter Update Updates) (calls : List (Call Update Updates)) :
    Prop where
  respected : ∀ done, done <+: calls → (waiter.deliverAll done).GapRespected
  nothingLost : ∀ done call, done ++ [call] <+: calls →
    (waiter.deliverAll done).Gains (call.arriving (waiter.deliverAll done))
      (waiter.deliverAll (done ++ [call]))

/-- A run that starts with an empty queue respects the gap and loses nothing
exactly when none of its calls hands the queue over an open gap, and all find a
place. -/
theorem gapRespected_run_iff (inited : waiter.inited) (empty : waiter.queue = ∅)
    (updateEmpty : waiter.updateQueue = ∅) (updatesEmpty : waiter.updatesQueue = ∅)
    (level : waiter.applySkippedLevel = 0) (fresh : waiter.handed = [])
    {calls : List (Call Update Updates)} (positive : ∀ call ∈ calls, 0 < call.pts) :
    waiter.RunRespectsGap calls ↔ ∀ done call, done ++ [call] <+: calls →
      call.KeepsGap (waiter.deliverAll done) ∧ call.FindsPlace (waiter.deliverAll done) := by
  have steady : waiter.Steady :=
    ⟨inited, level, fun some => (some empty).elim, fun _ => empty⟩
  have stored : waiter.Stored := .of_empty updateEmpty updatesEmpty
  have before : ∀ {done call}, done ++ [call] <+: calls → done <+: calls :=
    fun isPrefix => (prefix_append _ _).trans isPrefix
  have allPositive : ∀ {done}, done <+: calls → ∀ call ∈ done, 0 < call.pts :=
    fun isPrefix call member => positive call (isPrefix.subset member)
  have step : ∀ done call, done ++ [call] <+: calls →
      (waiter.deliverAll done).GapRespected →
        ((waiter.deliverAll (done ++ [call])).GapRespected ↔
          call.KeepsGap (waiter.deliverAll done)) := by
    intro done call isPrefix respected
    rw [deliverAll_append]
    exact (steady.deliverAll (allPositive (before isPrefix))).deliver_gapRespected_iff respected
      (positive call (isPrefix.subset (by simp)))
  have gains : ∀ done call, done ++ [call] <+: calls →
      ((waiter.deliverAll done).Gains (call.arriving (waiter.deliverAll done))
        (waiter.deliverAll (done ++ [call])) ↔ call.FindsPlace (waiter.deliverAll done)) := by
    intro done call isPrefix
    have earlier := allPositive (before isPrefix)
    rw [deliverAll_append]
    exact (steady.deliverAll earlier).deliver_gains_iff (steady.deliverAll_stored stored earlier)
  constructor
  · intro run done call isPrefix
    exact ⟨(step done call isPrefix (run.respected done (before isPrefix))).mp
      (run.respected _ isPrefix),
      (gains done call isPrefix).mp (run.nothingLost done call isPrefix)⟩
  · intro keeps
    refine ⟨?_, fun done call isPrefix => (gains done call isPrefix).mpr (keeps _ _ isPrefix).2⟩
    intro done isPrefix
    induction done using reverseRecOn with
    | nil =>
      refine ⟨?_, fun some => (some empty).elim⟩
      intro handed member
      change handed ∈ waiter.handed at member
      rw [fresh] at member
      cases member
    | append_singleton done call ih =>
      exact (step done call isPrefix (ih (before isPrefix))).mpr (keeps done call isPrefix).1

end Delivering

/-- Positions 8 and 7 wait until 6 closes the gap; the second report of 8 then
finds nothing queued. -/
theorem gapRespected_run_iff_closed :
    ({ good := 5, last := 5, count := 5 } : PtsWaiter Nat Nat).RunRespectsGap
      [⟨8, 1, some (.update 3)⟩, ⟨7, 1, some (.updates 2)⟩, ⟨6, 1, some (.update 1)⟩,
        ⟨8, 0, some (.update 4)⟩] := by
  refine (gapRespected_run_iff (by decide) rfl rfl rfl rfl rfl (by decide)).mpr ?_
  intro done call isPrefix
  rcases done with _ | ⟨first, _ | ⟨second, _ | ⟨third, _ | ⟨fourth, rest⟩⟩⟩⟩ <;>
    simp only [nil_append, cons_append, cons_prefix_cons] at isPrefix
  · obtain ⟨rfl, -⟩ := isPrefix
    exact ⟨fun zero => absurd zero (by decide), by unfold Call.FindsPlace; decide⟩
  · obtain ⟨rfl, rfl, -⟩ := isPrefix
    exact ⟨fun zero => absurd zero (by decide), by unfold Call.FindsPlace; decide⟩
  · obtain ⟨rfl, rfl, rfl, -⟩ := isPrefix
    exact ⟨fun zero => absurd zero (by decide), by unfold Call.FindsPlace; decide⟩
  · obtain ⟨rfl, rfl, rfl, rfl, -⟩ := isPrefix
    exact ⟨fun _ _ _ => by decide, by unfold Call.FindsPlace; decide⟩
  · simp at isPrefix

/-- Position 8 leaves a gap at 6 and 7, so its update is queued; a second
report of position 8 that takes no position hands it over all the same. -/
theorem zero_count_hands_over_gap :
    (({ good := 5, last := 5, count := 5 } : PtsWaiter Nat Nat).deliverAll
      [⟨8, 1, some (.update 1)⟩, ⟨8, 0, some (.update 2)⟩]).handed =
        [⟨.update 1, true, 8, 6⟩, ⟨.update 2, true, 8, 6⟩] ∧
    ¬ (({ good := 5, last := 5, count := 5 } : PtsWaiter Nat Nat).deliverAll
      [⟨8, 1, some (.update 1)⟩, ⟨8, 0, some (.update 2)⟩]).GapRespected := by
  have handed : (({ good := 5, last := 5, count := 5 } : PtsWaiter Nat Nat).deliverAll
      [⟨8, 1, some (.update 1)⟩, ⟨8, 0, some (.update 2)⟩]).handed =
        [⟨.update 1, true, 8, 6⟩, ⟨.update 2, true, 8, 6⟩] := by decide
  refine ⟨handed, fun respected => ?_⟩
  have closed := respected.closed ⟨.update 1, true, 8, 6⟩ (by simp [handed]) rfl
  exact absurd closed (by decide)

end TelegramDesktop.PtsWaiter
