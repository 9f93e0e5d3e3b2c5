import TelegramDesktop.PtsWaiterAccounts

/-!
# Applying a shuffled stream in order

The queue of a waiter is sorted by keys that carry the position in their high half, so
it lists the waiting calls in the order of the stream.
-/

namespace TelegramDesktop.PtsWaiter

open List FlatMap

variable {Update Updates : Type*}

theorem skippedPtsKey_div {pts : Int} (nonneg : 0 ≤ pts) (below : pts < 2 ^ 31)
    {skippedKey : Nat} (small : skippedKey < 2 ^ 32) :
    skippedPtsKey pts skippedKey / 2 ^ 32 = pts.toNat := by
  unfold skippedPtsKey
  rw [Int.emod_eq_of_lt nonneg (by omega), ← Nat.shiftLeft_add_eq_or_of_lt small, Nat.shiftLeft_eq,
    Nat.add_comm, Nat.add_mul_div_right _ _ (by decide), Nat.div_eq_of_lt small, Nat.zero_add]

theorem lt_of_div_lt {first second : Nat} (below : first / 2 ^ 32 < second / 2 ^ 32) :
    first < second := by
  omega

section Queue

variable [Inhabited Update] [Inhabited Updates] (waiter : PtsWaiter Update Updates)

/-- The entry of the queue is that of the call. -/
def Keeps (entry : Nat × PtsSkippedQueue) (call : Call Update Updates) : Prop :=
  entry.1 / 2 ^ 32 = call.pts.toNat ∧ some (waiter.skippedPayload entry) = call.payload

/-- The queue lists the waiting calls, and nothing is stored beside it. -/
structure Holds (waiting : List (Call Update Updates)) : Prop extends waiter.Stored where
  matched : List.Forall₂ waiter.Keeps waiter.queue.entries waiting

variable {waiter} {waiting left right : List (Call Update Updates)}
  {call : Call Update Updates} {payload : PtsPayload Update Updates}

theorem Holds.congr (holds : waiter.Holds waiting) {other : PtsWaiter Update Updates}
    (queue : other.queue = waiter.queue) (updateQueue : other.updateQueue = waiter.updateQueue)
    (updatesQueue : other.updatesQueue = waiter.updatesQueue) : other.Holds waiting := by
  have same : ∀ entry, other.skippedPayload entry = waiter.skippedPayload entry := by
    intro entry
    unfold skippedPayload
    rw [updateQueue, updatesQueue]
  refine ⟨⟨?_, ?_⟩, ?_⟩
  · rw [queue, updateQueue]
    exact holds.updateKeys
  · rw [queue, updatesQueue]
    exact holds.updatesKeys
  · rw [queue]
    refine forall₂_keep holds.matched ?_
    rintro entry - item - ⟨key, stored⟩
    exact ⟨key, by rw [same, stored]⟩

theorem holds_nil (queue : waiter.queue = ∅) (updateQueue : waiter.updateQueue = ∅)
    (updatesQueue : waiter.updatesQueue = ∅) : waiter.Holds [] := by
  refine ⟨.of_empty updateQueue updatesQueue, ?_⟩
  rw [queue]
  exact .nil

theorem Holds.queue_eq_empty (holds : waiter.Holds waiting) :
    waiter.queue = ∅ ↔ waiting = [] := by
  have length := holds.matched.length_eq
  constructor
  · intro none
    rw [none] at length
    exact length_eq_zero_iff.mp length.symm
  · intro none
    rw [none] at length
    exact ext_entries (length_eq_zero_iff.mp length)

theorem Holds.payloads (holds : waiter.Holds waiting) :
    waiter.queue.entries.map (fun entry => some (waiter.skippedPayload entry)) =
      waiting.map Call.payload := by
  have matched := holds.matched
  clear holds
  generalize waiter.queue.entries = entries at matched
  induction matched with
  | nil => rfl
  | cons related _ ih => rw [map_cons, map_cons, related.2, ih]

section

variable (holds : waiter.Holds (left ++ right))
include holds

section

variable {key : Nat} (keyDiv : key / 2 ^ 32 = call.pts.toNat)
  (nonneg : ∀ other ∈ left ++ call :: right, 0 ≤ other.pts)
  (increasing : (left ++ call :: right).Pairwise fun first second => first.pts < second.pts)

include keyDiv nonneg increasing

theorem Holds.key_between :
    (∀ entry, ∀ other ∈ left, waiter.Keeps entry other → entry.1 < key) ∧
      (∀ entry, ∀ other ∈ right, waiter.Keeps entry other → key < entry.1) ∧
      ∀ entry ∈ waiter.queue.entries, entry.1 ≠ key := by
  rw [pairwise_append, pairwise_cons] at increasing
  have keyBelow : ∀ entry, ∀ other ∈ left, waiter.Keeps entry other → entry.1 < key := by
    rintro entry other member ⟨entryDiv, -⟩
    have ordered := increasing.2.2 other member call (by simp)
    have otherNonneg := nonneg other (by simp [member])
    exact lt_of_div_lt (by omega)
  have keyAbove : ∀ entry, ∀ other ∈ right, waiter.Keeps entry other → key < entry.1 := by
    rintro entry other member ⟨entryDiv, -⟩
    have ordered := increasing.2.1.1 other member
    have callNonneg := nonneg call (by simp)
    exact lt_of_div_lt (by omega)
  refine ⟨keyBelow, keyAbove, ?_⟩
  intro entry member
  obtain ⟨other, otherMem, related⟩ := forall₂_exists holds.matched member
  rcases mem_append.mp otherMem with inLeft | inRight
  · exact (keyBelow entry other inLeft related).ne
  · exact (keyAbove entry other inRight related).ne'

/-- An update that is queued with its position takes its place in the order. -/
theorem Holds.place {kind : PtsSkippedQueue} {placed : PtsWaiter Update Updates}
    (stored : placed.Stored) (queue : placed.queue = waiter.queue.emplace key kind)
    (kept : ∀ entry, entry.1 ≠ key → placed.skippedPayload entry = waiter.skippedPayload entry)
    (new : some (placed.skippedPayload (key, kind)) = call.payload) :
    placed.Holds (left ++ call :: right) := by
  obtain ⟨keyBelow, keyAbove, fresh⟩ := holds.key_between keyDiv nonneg increasing
  refine ⟨stored, ?_⟩
  rw [queue]
  refine emplace_forall₂ holds.matched keyBelow keyAbove ?_ ⟨keyDiv, new⟩
  rintro entry member other - ⟨entryDiv, same⟩
  exact ⟨entryDiv, by rw [kept entry (fresh entry member), same]⟩

end

theorem Holds.enqueue (carries : call.payload = some payload)
    (nonneg : ∀ other ∈ left ++ call :: right, 0 ≤ other.pts) (below : call.pts < 2 ^ 31)
    (increasing : (left ++ call :: right).Pairwise fun first second => first.pts < second.pts) :
    (waiter.enqueue call.pts payload).Holds (left ++ call :: right) := by
  have keyDiv : waiter.nextKey call.pts / 2 ^ 32 = call.pts.toNat :=
    skippedPtsKey_div (nonneg call (by simp)) below (Nat.mod_lt _ (by decide))
  have free := contains_eq_false.mpr (holds.key_between keyDiv nonneg increasing).2.2
  obtain ⟨kind, queue, new, kept⟩ := holds.enqueue_place free payload
  refine holds.place keyDiv nonneg increasing (holds.toStored.enqueue call.pts payload) queue kept
    ?_
  rw [new, carries]

end

/-- The payloads handed over so far. -/
def applied (waiter : PtsWaiter Update Updates) : List (Option (PtsPayload Update Updates)) :=
  waiter.handed.map fun handed => some handed.payload

theorem applySkippedUpdates_flush (waits : waiter.waitingForSkipped = true)
    (some : waiter.queue ≠ ∅) :
    waiter.applySkippedUpdates.queue = ∅ ∧ waiter.applySkippedUpdates.updateQueue = ∅ ∧
      waiter.applySkippedUpdates.updatesQueue = ∅ ∧
      waiter.applySkippedUpdates.handed = waiter.handed ++
        waiter.queue.entries.map fun entry =>
          waiter.hand (waiter.skippedPayload entry) true := by
  obtain ⟨timers, stopped⟩ := waiter.setWaitingForSkipped_eq (-1)
  have notEmpty : waiter.queue.isEmpty = false := by
    rw [← Bool.not_eq_true, FlatMap.isEmpty_iff]
    exact some
  unfold applySkippedUpdates
  rw [waits, stopped]
  simp only [Bool.not_true, Bool.false_eq_true, if_false, notEmpty, clearSkippedUpdates, true_and]
  rfl

theorem Holds.settle (holds : waiter.Holds (left ++ right))
    (carries : call.payload = some payload)
    (waits : waiter.queue ≠ ∅ → waiter.waitingForSkipped = true)
    (nonneg : ∀ other ∈ left ++ call :: right, 0 ≤ other.pts) (below : call.pts < 2 ^ 31)
    (increasing : (left ++ call :: right).Pairwise fun first second =>
      first.pts < second.pts) :
    (waiter.settle call).Holds [] ∧
      (waiter.settle call).applied =
        waiter.applied ++ (left ++ call :: right).map Call.payload := by
  unfold PtsWaiter.settle
  rw [carries]
  dsimp only
  split
  next direct =>
    have none := PtsWaiter.queue_eq_empty waits direct
    have noWaiting := holds.queue_eq_empty.mp none
    rw [append_eq_nil_iff] at noWaiting
    obtain ⟨rfl, rfl⟩ := noWaiting
    refine ⟨holds.congr rfl rfl rfl, ?_⟩
    simp [applied, applyNoPtsCheck, hand, carries]
  next notDirect =>
    have queued := holds.enqueue carries nonneg below increasing
    obtain ⟨queue, updateQueue, updatesQueue, skippedKey, some, same⟩ :=
      waiter.enqueue_eq call.pts payload
    have flags : (waiter.enqueue call.pts payload).waitingForSkipped = true := by
      rw [same]
      cases waitsNow : waiter.waitingForSkipped with
      | true => rfl
      | false => simp [waitsNow] at notDirect
    have notEmpty : (waiter.enqueue call.pts payload).queue ≠ ∅ := by
      rw [same]
      exact some
    obtain ⟨queueEmpty, updateEmpty, updatesEmpty, handedEq⟩ :=
      applySkippedUpdates_flush flags notEmpty
    refine ⟨holds_nil queueEmpty updateEmpty updatesEmpty, ?_⟩
    have handedSame : (waiter.enqueue call.pts payload).handed = waiter.handed := by rw [same]
    rw [← queued.payloads, applied, handedEq, handedSame, map_append, map_map]
    rfl

/-- The waiter accounts for what it was given, holds the calls that wait and
has handed over the finished ones. -/
structure InOrder (base : Int) (stream : List (Call Update Updates))
    (earlier : List (Option (PtsPayload Update Updates)))
    (delivered : List (Call Update Updates)) (waiter : PtsWaiter Update Updates)
    (finished rest : List (Call Update Updates)) : Prop where
  tracks : Tracks base stream delivered waiter finished rest
  holds : waiter.Holds (rest.filter (seenBy delivered))
  applied : waiter.applied = earlier ++ finished.map Call.payload

variable {base : Int} {stream delivered finished rest : List (Call Update Updates)}
  {earlier : List (Option (PtsPayload Update Updates))}

theorem AtRest.inOrder (atRest : waiter.AtRest base) (asked : waiter.requesting = false)
    (stream : List (Call Update Updates)) :
    InOrder base stream waiter.applied [] waiter [] stream := by
  refine ⟨atRest.tracks asked stream, ?_, by simp⟩
  have none : stream.filter (seenBy []) = [] := by simp [seenBy]
  rw [none]
  exact holds_nil atRest.queue atRest.updateQueue atRest.updatesQueue

/-- One more call of the stream is either handed over with all that waited for
it, or waits at its place. -/
theorem InOrder.deliver (inOrder : InOrder base stream earlier delivered waiter finished rest)
    (positive : 0 < base) (gapless : Gapless Call.pts Call.count base stream)
    (bounded : ∀ update ∈ stream, update.pts < 2 ^ 31) (member : call ∈ stream)
    (new : call ∉ delivered) (carries : call.payload = some payload) :
    ∃ finished rest, InOrder base stream earlier (delivered ++ [call])
      (waiter.deliver call) finished rest := by
  have tracks := inOrder.tracks
  have restInside : ∀ other ∈ rest, other ∈ stream := by
    intro other otherMem
    rw [tracks.accounts.split]
    exact mem_append_right _ otherMem
  have unseen : ¬ seenBy delivered call = true := by
    rw [seenBy_iff gapless tracks.drawn member]
    exact new
  have inRest : call ∈ rest := by
    have somewhere := member
    rw [tracks.accounts.split] at somewhere
    exact (mem_append.mp somewhere).resolve_left fun inFinished =>
      unseen (tracks.accounts.finished_seen call inFinished)
  obtain ⟨left, right, was, becomes⟩ := filter_receive (tracks.accounts.nodup_rest gapless)
    inRest unseen fun other otherMem =>
      seenBy_append_iff gapless member (restInside other otherMem)
  have part : (left ++ call :: right).Sublist rest := by
    rw [← becomes]
    exact filter_sublist
  have increasing := (tracks.accounts.gapless_rest gapless).increasing.sublist part
  have nonneg : ∀ other ∈ left ++ call :: right, 0 ≤ other.pts := fun other otherMem =>
    (positive.trans (gapless.lt_ends (restInside other (part.subset otherMem)))).le
  have below := bounded call member
  have holds := inOrder.holds
  rw [was] at holds
  rcases tracks.deliver_new gapless bounded member new with
    ⟨settled, later, noneLater, next⟩ | ⟨⟨timers, kept⟩, next⟩
  · have closed : (waiter.closeGap call.pts call.count).Holds (left ++ right) :=
      holds.congr rfl rfl rfl
    obtain ⟨emptied, handed⟩ :=
      closed.settle carries tracks.steady.waiting nonneg below increasing
    refine ⟨_, later, next, ?_, ?_⟩
    · rw [settled, noneLater]
      exact emptied
    · have appliedSame : (waiter.closeGap call.pts call.count).applied = waiter.applied := rfl
      rw [settled, handed, appliedSame, becomes, inOrder.applied, append_assoc, ← map_append]
  · have waiting : (waiter.startWaiting call.pts call.count timers).Holds (left ++ right) :=
      holds.congr rfl rfl rfl
    have keepEq : (waiter.startWaiting call.pts call.count timers).keep call =
        (waiter.startWaiting call.pts call.count timers).enqueue call.pts payload := by
      unfold keep
      rw [carries]
    refine ⟨finished, rest, next, ?_, ?_⟩
    · rw [kept, keepEq, becomes]
      exact waiting.enqueue carries nonneg below increasing
    · obtain ⟨queue, updateQueue, updatesQueue, skippedKey, same⟩ :=
        (waiter.startWaiting call.pts call.count timers).keep_eq call
      rw [kept, same]
      exact inOrder.applied

/-- The stream was handed over in its order, and nothing is left in the queue. -/
structure AppliedInOrder (earlier : List (Option (PtsPayload Update Updates))) (base : Int)
    (stream : List (Call Update Updates)) (waiter : PtsWaiter Update Updates) : Prop where
  applied : waiter.applied = earlier ++ stream.map Call.payload
  good : waiter.good = lastEnd Call.pts base stream
  queue : waiter.queue = ∅

theorem InOrder.complete (inOrder : InOrder base stream earlier delivered waiter finished rest)
    (gapless : Gapless Call.pts Call.count base stream) (all : ∀ call ∈ stream, call ∈ delivered) :
    AppliedInOrder earlier base stream waiter := by
  have tracks := inOrder.tracks
  have seen : ∀ call ∈ stream, seenBy delivered call = true := fun call member =>
    (seenBy_iff gapless tracks.drawn member).mpr (all call member)
  have noneWaits : rest.filter (seenBy delivered) = [] := by
    by_contra some
    exact tracks.pending some (tracks.accounts.last_eq_total gapless seen)
  have noRest : rest = [] := by
    rw [filter_eq_nil_iff] at noneWaits
    apply eq_nil_iff_forall_not_mem.mpr
    intro call member
    apply noneWaits call member
    apply seen
    rw [tracks.accounts.split]
    exact mem_append_right _ member
  have allFinished : stream = finished := by
    rw [tracks.accounts.split, noRest, append_nil]
  have holds := inOrder.holds
  rw [noneWaits] at holds
  refine ⟨?_, ?_, holds.queue_eq_empty.mpr rfl⟩
  · rw [allFinished]
    exact inOrder.applied
  · rw [allFinished]
    exact tracks.accounts.good_eq

/-- A waiter at rest that is given every call of a gapless stream once, in any
order, hands all of them over in the order of the stream. -/
theorem shuffled_appliedInOrder (atRest : waiter.AtRest base) (asked : waiter.requesting = false)
    (gapless : Gapless Call.pts Call.count base stream)
    (bounded : ∀ update ∈ stream, update.pts < 2 ^ 31)
    (carried : ∀ update ∈ stream, update.payload.isSome) {deliveries : List (Call Update Updates)}
    (shuffled : deliveries.Perm stream) :
    AppliedInOrder waiter.applied base stream (waiter.deliverAll deliveries) := by
  have once : deliveries.Nodup := shuffled.nodup_iff.mpr gapless.nodup
  have run : ∀ done, done <+: deliveries → ∃ finished rest,
      InOrder base stream waiter.applied done (waiter.deliverAll done) finished rest := by
    intro done isPrefix
    induction done using reverseRecOn with
    | nil => exact ⟨[], stream, atRest.inOrder asked stream⟩
    | append_singleton done call ih =>
      obtain ⟨finished, rest, inOrder⟩ :=
        ih ((prefix_append done [call]).trans isPrefix)
      have member : call ∈ stream := shuffled.subset (isPrefix.subset (by simp))
      have new : call ∉ done := by
        have distinct := once.sublist isPrefix.sublist
        rw [nodup_append] at distinct
        intro again
        exact distinct.2.2 call again call (by simp) rfl
      obtain ⟨payload, carries⟩ := Option.isSome_iff_exists.mp (carried call member)
      rw [deliverAll_append]
      exact inOrder.deliver atRest.positive gapless bounded member new carries
  obtain ⟨finished, rest, inOrder⟩ := run deliveries prefix_rfl
  exact inOrder.complete gapless fun call member => shuffled.symm.subset member

end Queue

theorem shuffled_appliedInOrder_three :
    AppliedInOrder [] 5
      [⟨6, 1, some (.update 1)⟩, ⟨8, 2, some (.updates 2)⟩, ⟨9, 1, some (.update 3)⟩]
      (({ good := 5, last := 5, count := 5 } : PtsWaiter Nat Nat).deliverAll
        [⟨9, 1, some (.update 3)⟩, ⟨6, 1, some (.update 1)⟩, ⟨8, 2, some (.updates 2)⟩]) := by
  have atRest : ({ good := 5, last := 5, count := 5 } : PtsWaiter Nat Nat).AtRest 5 :=
    ⟨by decide, rfl, rfl, rfl, rfl, rfl, rfl, rfl⟩
  have shuffled : ([⟨9, 1, some (.update 3)⟩, ⟨6, 1, some (.update 1)⟩,
      ⟨8, 2, some (.updates 2)⟩] : List (Call Nat Nat)).Perm
      [⟨6, 1, some (.update 1)⟩, ⟨8, 2, some (.updates 2)⟩, ⟨9, 1, some (.update 3)⟩] :=
    (perm_append_singleton _ [_, _]).symm
  exact shuffled_appliedInOrder atRest rfl (by simp [Gapless]) (by decide) (by decide) shuffled

/-- A position alone that leaves a gap keeps the queue empty, but it moves
`last`; position 6 then waits though nothing before it is missing. -/
theorem pending_gap_not_appliedInOrder :
    ∃ waiter, waiter = (({} : PtsWaiter Nat Nat).init 5).deliver ⟨10, 1, none⟩ ∧
      waiter.good = 5 ∧ waiter.queue = ∅ ∧ waiter.requesting = false ∧
      Gapless Call.pts Call.count 5 ([⟨6, 1, some (.update 1)⟩] : List (Call Nat Nat)) ∧
      ¬ AppliedInOrder [] 5 [⟨6, 1, some (.update 1)⟩]
        (waiter.deliverAll [⟨6, 1, some (.update 1)⟩]) := by
  refine ⟨_, rfl, by decide, isEmpty_iff.mp (by decide), by decide, ⟨rfl, by decide, trivial⟩, ?_⟩
  intro inOrder
  exact absurd inOrder.good (by decide)

end TelegramDesktop.PtsWaiter
