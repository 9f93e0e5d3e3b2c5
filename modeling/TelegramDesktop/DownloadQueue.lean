import TelegramDesktop.MovingKeyedItems
import TelegramDesktop.Runs
import Mathlib.Algebra.Order.Group.Int

/-!
# The download queue

`DownloadManagerMtproto::Queue` lists the tasks of a data center by priority.  A task that is
enqueued again is moved by a rotation.
-/

namespace TelegramDesktop.DownloadQueue

open List

/-- A task in the queue, with its priority. -/
structure Enqueued (Task : Type*) where
  task : Task
  priority : Int := 0

variable {Task : Type*}

/-- Nothing when the assertion fails. -/
def resetFrom : List (Enqueued Task) → Option (List (Enqueued Task))
  | [] => some []
  | enqueued :: tasks =>
    if enqueued.priority ≠ 0 then
      if enqueued.priority = -1 then some (enqueued :: tasks) else none
    else (resetFrom tasks).map ({ enqueued with priority := -1 } :: ·)

def resetGeneration (tasks : List (Enqueued Task)) : Option (List (Enqueued Task)) :=
  (resetFrom (tasks.dropWhile fun enqueued => enqueued.priority ≠ 0)).map
    (tasks.takeWhile (fun enqueued => enqueued.priority ≠ 0) ++ ·)

/-- Tasks by falling priority, none of them twice. -/
structure Ordered (tasks : List (Enqueued Task)) : Prop where
  distinct : (tasks.map (·.task)).Nodup
  sorted : tasks.Pairwise fun first second => second.priority ≤ first.priority
  lowest : ∀ enqueued ∈ tasks, -1 ≤ enqueued.priority

variable {tasks : List (Enqueued Task)}

/-- A task of the newest generation becomes one of the previous ones. -/
def Enqueued.reset (enqueued : Enqueued Task) : Enqueued Task :=
  if enqueued.priority = 0 then { enqueued with priority := -1 } else enqueued

theorem resetFrom_eq (sorted : tasks.Pairwise fun first second => second.priority ≤ first.priority)
    (range : ∀ enqueued ∈ tasks, -1 ≤ enqueued.priority ∧ enqueued.priority ≤ 0) :
    resetFrom tasks = some (tasks.map Enqueued.reset) := by
  induction tasks with
  | nil => rfl
  | cons enqueued tasks ih =>
    rw [pairwise_cons] at sorted
    rw [forall_mem_cons] at range
    unfold resetFrom
    split
    next older =>
      have same : ∀ other ∈ enqueued :: tasks, other.reset = other := by
        refine forall_mem_cons.mpr ⟨if_neg older, fun other member => if_neg ?_⟩
        have most := sorted.1 other member
        omega
      rw [if_pos (by omega), map_congr_left same, map_id']
    next newest =>
      rw [ih sorted.2 range.2, map_cons, Enqueued.reset, if_pos (not_not.mp newest)]
      rfl

theorem resetGeneration_eq (ordered : Ordered tasks) :
    resetGeneration tasks = some (tasks.map Enqueued.reset) := by
  obtain ⟨-, sorted, lowest⟩ := ordered
  unfold resetGeneration
  induction tasks with
  | nil => rfl
  | cons enqueued tasks ih =>
    by_cases newest : enqueued.priority = 0
    · have reset := resetFrom_eq sorted fun other member => ⟨lowest other member, by
        rcases mem_cons.mp member with rfl | member
        · exact newest.le
        · exact ((pairwise_cons.mp sorted).1 other member).trans newest.le⟩
      simp [newest, reset]
    · have rest := ih (pairwise_cons.mp sorted).2 (forall_mem_cons.mp lowest).2
      rw [Option.map_eq_some_iff] at rest
      simpa [newest, Enqueued.reset] using rest

theorem map_reset (tasks : List (Enqueued Task)) :
    (tasks.map Enqueued.reset).map (·.task) = tasks.map (·.task) := by
  rw [map_map]
  refine map_congr_left fun enqueued _ => ?_
  rw [Function.comp_apply, Enqueued.reset]
  split <;> rfl

theorem Ordered.reset (ordered : Ordered tasks) : Ordered (tasks.map Enqueued.reset) := by
  refine ⟨(map_reset tasks).symm ▸ ordered.distinct, pairwise_map.mpr ?_, forall_mem_map.mpr ?_⟩
  · refine ordered.sorted.imp_of_mem fun {first second} _ member lower => ?_
    have least := ordered.lowest second member
    unfold Enqueued.reset
    grind
  · intro enqueued member
    have least := ordered.lowest enqueued member
    unfold Enqueued.reset
    grind

variable [DecidableEq Task]

/-- The task is put behind those of its priority. -/
def enqueue (tasks : List (Enqueued Task)) (task : Task) (priority : Int) :
    List (Enqueued Task) :=
  let position := tasks.findIdx fun enqueued => enqueued.priority ≤ priority
  let i := tasks.findIdx fun enqueued => enqueued.task = task
  moveTo (placeByKey (·.task) ⟨task, priority⟩ tasks) i position

def remove (tasks : List (Enqueued Task)) (task : Task) : List (Enqueued Task) :=
  tasks.filter fun enqueued => enqueued.task ≠ task

/-- What is asked of the queue. -/
inductive Operation (Task : Type*)
  | enqueue (task : Task) (priority : Int)
  | remove (task : Task)
  | resetGeneration

def step (tasks : List (Enqueued Task)) : Operation Task → Option (List (Enqueued Task))
  | .enqueue task priority => some (enqueue tasks task priority)
  | .remove task => some (remove tasks task)
  | .resetGeneration => resetGeneration tasks

/-- Tasks are put in the queue with a priority of at least zero. -/
def Operation.Allowed : Operation Task → Prop
  | .enqueue _ priority => 0 ≤ priority
  | .remove _ | .resetGeneration => True

/-- Where the operation leaves its own task and all others. -/
def Places (tasks : List (Enqueued Task)) : Operation Task → List (Enqueued Task) → Prop
  | .enqueue task priority, result =>
    ∃ before after, result = before ++ ⟨task, priority⟩ :: after ∧
      before ++ after = remove tasks task ∧
      (∀ enqueued ∈ before, priority < enqueued.priority) ∧
      ∀ enqueued ∈ after, enqueued.priority ≤ priority
  | .remove task, result => result = tasks.filter fun enqueued => enqueued.task ≠ task
  | .resetGeneration, result => result.map (·.task) = tasks.map (·.task)

theorem enqueue_places (ordered : Ordered tasks) (task : Task) (priority : Int) :
    Places tasks (.enqueue task priority) (enqueue tasks task priority) := by
  let first := tasks.takeWhile fun enqueued => !decide (enqueued.priority ≤ priority)
  let last := tasks.dropWhile fun enqueued => !decide (enqueued.priority ≤ priority)
  have split : first ++ last = tasks := takeWhile_append_dropWhile
  have position := length_takeWhile_not (fun enqueued => decide (enqueued.priority ≤ priority))
    tasks
  have moved := @moveTo_placeByKey _ _ _ (fun enqueued : Enqueued Task => enqueued.task) first last
    ⟨task, priority⟩ (split.symm ▸ ordered.distinct)
  rw [split, position] at moved
  refine ⟨_, _, moved, ?_, fun enqueued member => ?_, fun enqueued member => ?_⟩
  · rw [← filter_append, split, remove]
  · simpa using mem_takeWhile_imp (mem_of_mem_filter member)
  · have stops := forall_dropWhile ordered.sorted (fun _ _ lower stops => by
      simp only [Bool.not_eq_false', decide_eq_true_eq] at stops ⊢
      exact lower.trans stops) enqueued (mem_of_mem_filter member)
    simpa using stops

theorem Ordered.enqueue (ordered : Ordered tasks) (task : Task) {priority : Int}
    (allowed : 0 ≤ priority) : Ordered (enqueue tasks task priority) := by
  obtain ⟨before, after, same, others, above, below⟩ := enqueue_places ordered task priority
  have fewer : (before ++ after).Sublist tasks := others ▸ filter_sublist
  have sorted := ordered.sorted.sublist fewer
  rw [pairwise_append] at sorted
  rw [same]
  refine ⟨?_, pairwise_append.mpr ⟨sorted.1, pairwise_cons.mpr ⟨below, sorted.2.1⟩, ?_⟩, ?_⟩
  · rw [map_append, map_cons, nodup_middle, nodup_cons, ← map_append, others]
    refine ⟨fun member => ?_, ordered.distinct.sublist (filter_sublist.map _)⟩
    obtain ⟨enqueued, member, same⟩ := mem_map.mp member
    exact of_decide_eq_true (mem_filter.mp member).2 same
  · intro first firstMem second member
    rcases mem_cons.mp member with rfl | member
    · exact (above first firstMem).le
    · exact sorted.2.2 first firstMem second member
  · intro enqueued member
    rw [mem_append, mem_cons, or_left_comm, ← mem_append] at member
    rcases member with rfl | member
    · exact (show (-1 : Int) ≤ 0 by decide).trans allowed
    · exact ordered.lowest enqueued (fewer.mem member)

/-- An operation puts its task where it belongs. -/
theorem Ordered.step (ordered : Ordered tasks) {operation : Operation Task}
    (allowed : operation.Allowed) :
    ∃ result, step tasks operation = some result ∧ Ordered result ∧
      Places tasks operation result := by
  cases operation with
  | enqueue task priority =>
    exact ⟨_, rfl, ordered.enqueue task allowed, enqueue_places ordered task priority⟩
  | remove task =>
    exact ⟨_, rfl, ⟨ordered.distinct.sublist (filter_sublist.map _),
      ordered.sorted.sublist filter_sublist,
      fun enqueued member => ordered.lowest enqueued (mem_of_mem_filter member)⟩, rfl⟩
  | resetGeneration =>
    exact ⟨_, resetGeneration_eq ordered, ordered.reset, map_reset tasks⟩

theorem exists_run {operations : List (Operation Task)} (ordered : Ordered tasks)
    (allowed : ∀ operation ∈ operations, operation.Allowed) :
    ∃ last, run step tasks operations = some last ∧ Ordered last := by
  induction operations generalizing tasks with
  | nil => exact ⟨tasks, rfl, ordered⟩
  | cons operation operations ih =>
    rw [forall_mem_cons] at allowed
    obtain ⟨next, taken, ordered, -⟩ := ordered.step allowed.1
    rw [run, taken]
    exact ih ordered allowed.2

/-- Whatever is called, the tasks stay ordered, and the next call leaves each where it belongs. -/
theorem queue_ordered {operations : List (Operation Task)}
    (allowed : ∀ operation ∈ operations, operation.Allowed) :
    ∃ tasks, run step [] operations = some tasks ∧ Ordered tasks ∧
      ∀ operation : Operation Task, operation.Allowed →
        ∃ result, step tasks operation = some result ∧ Places tasks operation result := by
  have start : Ordered ([] : List (Enqueued Task)) :=
    ⟨nodup_nil, .nil, fun _ member => absurd member not_mem_nil⟩
  obtain ⟨last, ends, ordered⟩ := exists_run start allowed
  refine ⟨last, ends, ordered, fun operation next => ?_⟩
  obtain ⟨result, taken, -, places⟩ := ordered.step next
  exact ⟨result, taken, places⟩

theorem queue_ordered_again :
    ∃ tasks, run step [] [.enqueue 1 0, .enqueue 2 0, .resetGeneration, .enqueue 1 2] =
        some tasks ∧ Ordered tasks ∧
      ∀ operation : Operation Nat, operation.Allowed →
        ∃ result, step tasks operation = some result ∧ Places tasks operation result :=
  queue_ordered (by simp [Operation.Allowed])

end TelegramDesktop.DownloadQueue
