import TelegramDesktop.KeyedLists
import TelegramDesktop.LocalFiles
import TelegramDesktop.Runs

/-!
# Queued file writes

Writes of local files are queued, one for each base name, and a call that handles the
first of them is scheduled, as in `WriteManager` of
`storage/details/storage_file_utilities.cpp`.
-/

namespace TelegramDesktop

open List

/-- What is to be written, with the name of its file. -/
structure NamedWriteEntry extends WriteEntry where
  basePath : String
  base : String

/-- `written` are the entries that were passed to `writeNow`, and `pending` counts the
scheduled calls of `writeScheduled` that were not made yet. -/
structure WriteManager where
  scheduled : List NamedWriteEntry := []
  pending : Nat := 0
  written : List NamedWriteEntry := []

namespace WriteManager

open NamedWriteEntry (base)

variable (manager : WriteManager)

def scheduleWrite : WriteManager := { manager with pending := manager.pending + 1 }

def writeNow (entry : NamedWriteEntry) : WriteManager :=
  { manager with written := manager.written ++ [entry] }

/-- The entry takes the place of one with its base. -/
def write (entry : NamedWriteEntry) : WriteManager :=
  scheduleWrite { manager with scheduled := placeByKey base entry manager.scheduled }

/-- The entry is written now, one that waits is dropped. -/
def writeSync (entry : NamedWriteEntry) : WriteManager :=
  writeNow { manager with scheduled := eraseByKey base entry.base manager.scheduled } entry

def writeOneScheduledNow : WriteManager × Bool :=
  match manager.scheduled with
  | [] => (manager, false)
  | entry :: rest => (writeNow { manager with scheduled := rest } entry, true)

/-- The timer writes one entry. -/
def writeScheduled : WriteManager :=
  let (done, wrote) := manager.writeOneScheduledNow
  if wrote ∧ done.scheduled ≠ [] then done.scheduleWrite else done

/-- The loop of `writeSyncAll`, by the number of entries that are left. -/
def writeSyncLoop : Nat → WriteManager → WriteManager
  | 0, manager => manager
  | left + 1, manager =>
    let (done, wrote) := manager.writeOneScheduledNow
    if wrote then writeSyncLoop left done else done

/-- All that waits is written. -/
def writeSyncAll : WriteManager := writeSyncLoop (manager.scheduled.length + 1) manager

/-- The calls of the manager. -/
inductive Call
  | write (entry : NamedWriteEntry)
  | writeSync (entry : NamedWriteEntry)
  | writeScheduled
  | writeSyncAll

/-- A call of `writeScheduled` is made only when it was scheduled. -/
def step : WriteManager → Call → Option WriteManager
  | manager, .write entry => some (manager.write entry)
  | manager, .writeSync entry => some (manager.writeSync entry)
  | manager, .writeScheduled =>
    if 0 < manager.pending then
      some (writeScheduled { manager with pending := manager.pending - 1 })
    else none
  | manager, .writeSyncAll => some manager.writeSyncAll

def Call.entry? : Call → Option NamedWriteEntry
  | .write entry => some entry
  | .writeSync entry => some entry
  | _ => none

/-- The entries that the calls ask to write under one base name. -/
def issued (name : String) (calls : List Call) : List NamedWriteEntry :=
  withKey base name (calls.filterMap Call.entry?)

/-- The entry of a base name that is still scheduled, or else the one that was passed
to `writeNow` most recently. -/
def current (name : String) : Option NamedWriteEntry :=
  (manager.scheduled.find? fun entry => entry.base = name).or
    (withKey base name manager.written).getLast?

/-- The entries of a base name in the order in which they are written. -/
def handled (name : String) : List NamedWriteEntry :=
  withKey base name (manager.written ++ manager.scheduled)

/-- Of every file the writes are done in their order, and the latest one is not lost. -/
structure InOrder (calls : List Call) (manager : WriteManager) : Prop where
  unique : (manager.scheduled.map base).Nodup
  pending : manager.scheduled ≠ [] → 0 < manager.pending
  ordered : ∀ name, (manager.handled name).Sublist (issued name calls)
  latest : ∀ name, (manager.handled name).getLast? = (issued name calls).getLast?

variable {manager} {entry : NamedWriteEntry} {name : String}

theorem handled_write_self (entry : NamedWriteEntry) (unique : (manager.scheduled.map base).Nodup) :
    (manager.write entry).handled entry.base =
      withKey base entry.base manager.written ++ [entry] := by
  change withKey base _ (manager.written ++ placeByKey base entry manager.scheduled) = _
  rw [withKey_append, withKey_placeByKey_self entry unique]

theorem handled_write_of_ne (other : entry.base ≠ name) :
    (manager.write entry).handled name = manager.handled name := by
  change withKey base _ (manager.written ++ placeByKey base entry manager.scheduled) = _
  rw [withKey_append, withKey_placeByKey_of_ne other, ← withKey_append]
  rfl

theorem handled_writeSync_self (entry : NamedWriteEntry)
    (unique : (manager.scheduled.map base).Nodup) :
    (manager.writeSync entry).handled entry.base =
      withKey base entry.base manager.written ++ [entry] := by
  change withKey base _ (manager.written ++ [entry] ++ eraseByKey base _ manager.scheduled) = _
  rw [withKey_append, withKey_append, withKey_eraseByKey_self _ unique, withKey_cons_self,
    append_nil]
  rfl

theorem handled_writeSync_of_ne (other : entry.base ≠ name) :
    (manager.writeSync entry).handled name = manager.handled name := by
  change withKey base _ (manager.written ++ [entry] ++ eraseByKey base _ manager.scheduled) = _
  rw [withKey_append, withKey_append, withKey_eraseByKey_of_ne other, withKey_cons_of_ne other]
  change withKey base name manager.written ++ [] ++ _ = _
  rw [append_nil, ← withKey_append]
  rfl

/-- What is written moves from the front of the queue to the end of the written. -/
structure Drains (manager next : WriteManager) : Prop where
  same : next.written ++ next.scheduled = manager.written ++ manager.scheduled
  fewer : next.scheduled.Sublist manager.scheduled

namespace Drains

theorem refl (manager : WriteManager) : Drains manager manager :=
  ⟨rfl, Sublist.refl _⟩

theorem trans {middle next : WriteManager} (first : Drains manager middle)
    (second : Drains middle next) : Drains manager next :=
  ⟨second.same.trans first.same, second.fewer.trans first.fewer⟩

theorem handled {next : WriteManager} (drains : Drains manager next) (name : String) :
    next.handled name = manager.handled name :=
  congrArg (withKey base name) drains.same

theorem unique {next : WriteManager} (drains : Drains manager next)
    (unique : (manager.scheduled.map base).Nodup) : (next.scheduled.map base).Nodup :=
  unique.sublist (drains.fewer.map base)

theorem one (manager : WriteManager) : Drains manager manager.writeOneScheduledNow.1 := by
  unfold writeOneScheduledNow
  split
  · exact refl manager
  next entry rest queue =>
    refine ⟨?_, ?_⟩
    · change manager.written ++ [entry] ++ rest = _
      rw [queue, append_assoc]
      rfl
    · rw [queue]
      exact sublist_cons_self entry rest

theorem scheduled (manager : WriteManager) : Drains manager manager.writeScheduled := by
  have one := one manager
  unfold writeScheduled
  dsimp only
  split
  · exact ⟨one.same, one.fewer⟩
  · exact one

theorem loop (left : Nat) (manager : WriteManager) :
    Drains manager (writeSyncLoop left manager) := by
  induction left generalizing manager with
  | zero => exact refl manager
  | succ left ih =>
    have one := one manager
    unfold writeSyncLoop
    dsimp only
    split
    · exact one.trans (ih _)
    · exact one

end Drains

theorem scheduled_writeSyncLoop {left : Nat} (enough : manager.scheduled.length < left) :
    (writeSyncLoop left manager).scheduled = [] := by
  induction left generalizing manager with
  | zero => exact absurd enough (Nat.not_lt_zero _)
  | succ left ih =>
    unfold writeSyncLoop writeOneScheduledNow
    cases queue : manager.scheduled with
    | nil => exact queue
    | cons entry rest =>
      rw [queue, length_cons] at enough
      exact ih (Nat.lt_of_succ_lt_succ enough)

theorem scheduled_writeSyncAll (manager : WriteManager) : manager.writeSyncAll.scheduled = [] :=
  scheduled_writeSyncLoop (Nat.lt_succ_self _)

/-- A queue that is not empty after one of its entries was written is scheduled again. -/
theorem pending_writeScheduled (left : manager.writeScheduled.scheduled ≠ []) :
    0 < manager.writeScheduled.pending := by
  unfold writeScheduled writeOneScheduledNow at left ⊢
  cases queue : manager.scheduled with
  | nil => exact absurd (by rw [queue]; simp [queue]) left
  | cons entry rest =>
    rw [queue] at left
    dsimp only at left ⊢
    by_cases more : rest = []
    · simp [more, writeNow] at left
    · rw [if_pos ⟨rfl, more⟩]
      exact Nat.succ_pos _

section Steps

variable {calls : List Call} {next : WriteManager}

theorem issued_append (name : String) (calls : List Call) (call : Call) :
    issued name (calls ++ [call]) =
      issued name calls ++ withKey base name (call.entry?.toList) := by
  unfold issued
  rw [filterMap_append, withKey_append, filterMap_cons]
  cases call.entry? <;> rfl

theorem InOrder.drain (inOrder : InOrder calls manager) (drains : Drains manager next)
    (pending : next.scheduled ≠ [] → 0 < next.pending) {call : Call}
    (brings : call.entry? = none) : InOrder (calls ++ [call]) next where
  unique := drains.unique inOrder.unique
  pending := pending
  ordered name := by
    rw [issued_append, brings, drains.handled]
    exact (inOrder.ordered name).trans (sublist_append_left _ _)
  latest name := by
    rw [issued_append, brings, drains.handled, inOrder.latest]
    exact congrArg getLast? (append_nil _).symm

/-- A call that brings an entry puts it behind what was written of its base name, and
leaves the other base names alone. -/
theorem InOrder.bring (inOrder : InOrder calls manager) (unique : (next.scheduled.map base).Nodup)
    (pending : next.scheduled ≠ [] → 0 < next.pending) {call : Call}
    (brings : call.entry? = some entry)
    (self : next.handled entry.base = withKey base entry.base manager.written ++ [entry])
    (others : ∀ name, entry.base ≠ name → next.handled name = manager.handled name) :
    InOrder (calls ++ [call]) next := by
  have issuedSelf : issued entry.base (calls ++ [call]) = issued entry.base calls ++ [entry] := by
    rw [issued_append, brings]
    exact congrArg _ (withKey_cons_self entry [])
  have issuedOther : ∀ name, entry.base ≠ name →
      issued name (calls ++ [call]) = issued name calls := by
    intro name other
    rw [issued_append, brings]
    exact (congrArg _ (withKey_cons_of_ne other [])).trans (append_nil _)
  refine ⟨unique, pending, fun name => ?_, fun name => ?_⟩
  · by_cases other : entry.base = name
    · subst other
      have older := inOrder.ordered entry.base
      unfold handled at older
      rw [withKey_append] at older
      rw [self, issuedSelf]
      exact ((sublist_append_left _ _).trans older).append_right [entry]
    · rw [others name other, issuedOther name other]
      exact inOrder.ordered name
  · by_cases other : entry.base = name
    · subst other
      rw [self, issuedSelf, getLast?_concat, getLast?_concat]
    · rw [others name other, issuedOther name other]
      exact inOrder.latest name

theorem InOrder.call (inOrder : InOrder calls manager) {call : Call}
    (taken : manager.step call = some next) : InOrder (calls ++ [call]) next := by
  cases call with
  | write entry =>
    cases taken
    exact inOrder.bring (nodup_placeByKey entry inOrder.unique) (fun _ => Nat.succ_pos _) rfl
      (handled_write_self entry inOrder.unique) fun name other => handled_write_of_ne other
  | writeSync entry =>
    cases taken
    refine inOrder.bring (nodup_eraseByKey entry.base inOrder.unique) (fun left => ?_) rfl
      (handled_writeSync_self entry inOrder.unique)
      fun name other => handled_writeSync_of_ne other
    refine inOrder.pending fun none => left ?_
    change eraseByKey base entry.base manager.scheduled = []
    rw [none]
    rfl
  | writeScheduled =>
    unfold WriteManager.step at taken
    dsimp only at taken
    split at taken
    · cases taken
      have taken : Drains manager { manager with pending := manager.pending - 1 } :=
        ⟨rfl, Sublist.refl _⟩
      exact inOrder.drain (taken.trans (Drains.scheduled _)) pending_writeScheduled rfl
    · cases taken
  | writeSyncAll =>
    cases taken
    exact inOrder.drain (Drains.loop _ manager)
      (fun left => absurd manager.scheduled_writeSyncAll left) rfl

end Steps

/-- The calls of a run are written in order. -/
theorem inOrder_of_run {calls : List Call} (ends : run step {} calls = some manager) :
    InOrder calls manager := by
  have initially : InOrder [] {} :=
    ⟨nodup_nil, fun none => absurd rfl none, fun _ => Sublist.refl _, fun _ => rfl⟩
  exact run_history (fun _ _ _ _ inOrder taken => inOrder.call taken) initially ends

theorem current_eq_getLast?_handled (name : String) (unique : (manager.scheduled.map base).Nodup) :
    manager.current name = (manager.handled name).getLast? := by
  rw [current, handled, withKey_append, getLast?_append, find?_eq_getLast?_withKey name unique]

/-- At most one entry of each base name is scheduled, a call that will write is pending
while some entry is, and the entries of a base name are written in the order of their
calls, up to the one of the latest call. -/
theorem queuedWrites_inOrder (calls : List Call) (manager : WriteManager)
    (ends : run step {} calls = some manager) :
    (manager.scheduled.map base).Nodup ∧
      (manager.scheduled ≠ [] → 0 < manager.pending) ∧
      ∀ name, manager.current name = (issued name calls).getLast? ∧
        (manager.handled name).Sublist (issued name calls) := by
  have inOrder := inOrder_of_run ends
  refine ⟨inOrder.unique, inOrder.pending, fun name => ⟨?_, inOrder.ordered name⟩⟩
  rw [current_eq_getLast?_handled name inOrder.unique]
  exact inOrder.latest name

/-- A base name that is written at once while it is queued, and another one that waits. -/
theorem queuedWrites_inOrder_two :
    ∃ (calls : List Call) (manager : WriteManager) (first second : NamedWriteEntry),
      run step {} calls = some manager ∧ manager.scheduled = [second] ∧ 0 < manager.pending ∧
        manager.current first.base = (issued first.base calls).getLast? := by
  let first : NamedWriteEntry := { basePath := "", base := "settings", data := [1], md5 := [] }
  let older : NamedWriteEntry := { first with data := [0] }
  let second : NamedWriteEntry := { first with base := "map" }
  let calls : List Call :=
    [.write older, .write second, .writeScheduled, .write older, .writeSync first, .write second]
  let manager : WriteManager := { scheduled := [second], pending := 4, written := [older, first] }
  have ends : run step {} calls = some manager := by rfl
  have inOrder := queuedWrites_inOrder calls manager ends
  exact ⟨calls, manager, first, second, ends, rfl, inOrder.2.1 (by simp [manager]),
    (inOrder.2.2 first.base).1⟩

end WriteManager

end TelegramDesktop
