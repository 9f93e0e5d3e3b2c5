import TelegramDesktop.GaplessStream
import TelegramDesktop.PtsWaiterGap

/-!
# What a waiter has accounted for

A waiter at rest that is handed calls of a gapless stream keeps account of it: `good` is
where the finished calls end, `last` is the largest end seen and `count` is what the
seen calls cover. While it holds, nothing below `good` is missing.
-/

namespace TelegramDesktop.PtsWaiter

open List

variable {Update Updates : Type*}

/-- The waiter is at a base and nothing is queued. -/
structure AtRest (waiter : PtsWaiter Update Updates) (base : Int) : Prop where
  positive : 0 < base
  good : waiter.good = base
  last : waiter.last = base
  count : waiter.count = base
  queue : waiter.queue = ∅
  updateQueue : waiter.updateQueue = ∅
  updatesQueue : waiter.updatesQueue = ∅
  level : waiter.applySkippedLevel = 0

theorem AtRest.steady {waiter : PtsWaiter Update Updates} {base : Int}
    (rest : waiter.AtRest base) : waiter.Steady where
  inited := by
    unfold inited
    rw [rest.good]
    exact rest.positive
  level := rest.level
  waiting some := (some rest.queue).elim
  idle _ := rest.queue

/-- A call that ends where `call` does is among the delivered ones. -/
def seenBy (delivered : List (Call Update Updates)) (call : Call Update Updates) : Bool :=
  delivered.any fun other => other.pts == call.pts

section Streams

variable {base : Int} {stream delivered : List (Call Update Updates)}
  {call : Call Update Updates}

theorem seenBy_iff (gapless : Gapless Call.pts Call.count base stream)
    (drawn : ∀ other ∈ delivered, other ∈ stream) (member : call ∈ stream) :
    seenBy delivered call = true ↔ call ∈ delivered := by
  unfold seenBy
  rw [any_eq_true]
  constructor
  · rintro ⟨other, otherMem, same⟩
    rw [beq_iff_eq] at same
    rwa [← gapless.eq_of_ends (drawn other otherMem) member same]
  · intro delivers
    exact ⟨call, delivers, beq_self_eq_true _⟩

theorem seenBy_append_iff (gapless : Gapless Call.pts Call.count base stream)
    (member : call ∈ stream) {other : Call Update Updates} (otherMem : other ∈ stream) :
    seenBy (delivered ++ [call]) other = true ↔
      seenBy delivered other = true ∨ other = call := by
  unfold seenBy
  rw [any_append, Bool.or_eq_true, any_cons, any_nil, Bool.or_false, beq_iff_eq]
  apply or_congr_right
  constructor
  · intro same
    exact (gapless.eq_of_ends member otherMem same).symm
  · rintro rfl
    rfl

end Streams

/-- The cursors of the waiter account for what it was given of a stream. -/
structure Tracks (base : Int) (stream delivered : List (Call Update Updates))
    (waiter : PtsWaiter Update Updates) (finished rest : List (Call Update Updates)) :
    Prop where
  steady : waiter.Steady
  asked : waiter.requesting = false
  drawn : ∀ call ∈ delivered, call ∈ stream
  accounts : Accounts Call.pts Call.count base stream (seenBy delivered)
    waiter.good waiter.last waiter.count finished rest
  pending : rest.filter (seenBy delivered) ≠ [] → waiter.last ≠ waiter.count

section Tracking

variable [Inhabited Update] [Inhabited Updates] {waiter : PtsWaiter Update Updates}
  {base : Int} {stream delivered finished rest : List (Call Update Updates)}
  {call : Call Update Updates}

omit [Inhabited Update] [Inhabited Updates] in
theorem AtRest.tracks (atRest : waiter.AtRest base) (asked : waiter.requesting = false)
    (stream : List (Call Update Updates)) : Tracks base stream [] waiter [] stream := by
  refine ⟨atRest.steady, asked, by simp, ?_, ?_⟩
  · rw [atRest.good, atRest.last, atRest.count]
    exact Accounts.start base stream
  · intro some
    exact (some (by simp [seenBy])).elim

namespace Tracks

section

variable (tracks : Tracks base stream delivered waiter finished rest)
  (gapless : Gapless Call.pts Call.count base stream)
include tracks gapless

omit [Inhabited Update] [Inhabited Updates] in
/-- A call is finished exactly when it ends no later than `good`. -/
theorem pts_le_good_iff (member : call ∈ stream) : call.pts ≤ waiter.good ↔ call ∈ finished :=
  tracks.accounts.ends_le_good_iff gapless member

omit [Inhabited Update] [Inhabited Updates] in
theorem delivered_of_finished (member : call ∈ finished) : call ∈ delivered := by
  have inStream : call ∈ stream := by
    rw [tracks.accounts.split]
    exact mem_append_left _ member
  exact (seenBy_iff gapless tracks.drawn inStream).mp (tracks.accounts.finished_seen call member)

theorem deliver_finished (member : call ∈ stream) (again : call ∈ finished) :
    waiter.deliver call = waiter ∧
      Tracks base stream (delivered ++ [call]) waiter finished rest := by
  have old : call.pts ≤ waiter.good := (tracks.pts_le_good_iff gapless member).mpr again
  have positive : 0 < call.count := gapless.count_pos member
  have seenAgain := tracks.accounts.finished_seen call again
  have sameSeen : ∀ other ∈ stream,
      seenBy (delivered ++ [call]) other = seenBy delivered other := by
    intro other otherMem
    rw [Bool.eq_iff_iff, seenBy_append_iff gapless member otherMem]
    constructor
    · rintro (seen | rfl)
      · exact seen
      · exact seenAgain
    · exact .inl
  have restInside : ∀ other ∈ rest, other ∈ stream := by
    intro other otherMem
    rw [tracks.accounts.split]
    exact mem_append_right _ otherMem
  have sameFilter : rest.filter (seenBy (delivered ++ [call])) =
      rest.filter (seenBy delivered) :=
    filter_congr fun other otherMem => sameSeen other (restInside other otherMem)
  constructor
  · rw [deliver_eq, if_neg (by simp [tracks.asked, tracks.steady.level]), if_pos ⟨old, positive⟩]
  · refine ⟨tracks.steady, tracks.asked, ?_, ⟨tracks.accounts.split, tracks.accounts.good_eq,
      ?_, ?_, ?_⟩, ?_⟩
    · intro other otherMem
      rcases mem_append.mp otherMem with earlier | new
      · exact tracks.drawn other earlier
      · rw [mem_singleton.mp new]
        exact member
    · intro other otherMem
      rw [sameSeen other (by rw [tracks.accounts.split]; exact mem_append_left _ otherMem)]
      exact tracks.accounts.finished_seen other otherMem
    · rw [sameFilter]
      exact tracks.accounts.last_eq
    · rw [sameFilter]
      exact tracks.accounts.total_eq
    · rw [sameFilter]
      exact tracks.pending

section

variable (bounded : ∀ update ∈ stream, update.pts < 2 ^ 31) (member : call ∈ stream)
  (new : call ∉ delivered)

include bounded member new

omit [Inhabited Update] [Inhabited Updates] in
/-- The account after a call that was not delivered before, with the cursors
moved but nothing handed over yet. -/
theorem receive :
    Accounts Call.pts Call.count base stream (seenBy (delivered ++ [call])) waiter.good
        (max waiter.last call.pts) (toInt32 (waiter.count + call.count)) finished rest ∧
      ¬ (call.pts ≤ waiter.good ∧ 0 < call.count) := by
  have fresh : ¬ call.pts ≤ waiter.good := by
    intro old
    exact new (tracks.delivered_of_finished gapless
      ((tracks.pts_le_good_iff gapless member).mp old))
  have unseen : ¬ seenBy delivered call = true := by
    rw [seenBy_iff gapless tracks.drawn member]
    exact new
  have received := tracks.accounts.receive gapless member unseen
    fun other otherMem => seenBy_append_iff gapless member otherMem
  have baseBelow : base < 2 ^ 31 := (gapless.lt_ends member).trans (bounded call member)
  have inited : 0 < waiter.good := tracks.steady.inited
  have same : toInt32 (waiter.count + call.count) = waiter.count + call.count := by
    apply toInt32_eq_self
    · exact inited.le.trans (received.good_le_total gapless)
    · exact (received.total_le_last gapless).trans_lt (received.last_lt baseBelow bounded)
  rw [same]
  exact ⟨received, fun stale => fresh stale.1⟩

theorem deliver_new :
    (waiter.deliver call = (waiter.closeGap call.pts call.count).settle call ∧
      ∃ later, later.filter (seenBy (delivered ++ [call])) = [] ∧
        Tracks base stream (delivered ++ [call]) (waiter.deliver call)
          (finished ++ rest.filter (seenBy (delivered ++ [call]))) later) ∨
    ((∃ timers, waiter.deliver call =
        (waiter.startWaiting call.pts call.count timers).keep call) ∧
      Tracks base stream (delivered ++ [call]) (waiter.deliver call) finished rest) := by
  obtain ⟨received, fresh⟩ := tracks.receive gapless bounded member new
  have ptsPositive : 0 < call.pts := by
    have inited : 0 < waiter.good := tracks.steady.inited
    have positive : 0 < call.count := gapless.count_pos member
    omega
  have steady := tracks.steady.deliver ptsPositive
  have drawn : ∀ other ∈ delivered ++ [call], other ∈ stream := by
    intro other otherMem
    rcases mem_append.mp otherMem with earlier | now
    · exact tracks.drawn other earlier
    · rw [mem_singleton.mp now]
      exact member
  have delivers := tracks.steady.delivers call
  generalize waiter.deliver call = after at delivers steady ⊢
  cases delivers with
  | unseen requesting => exact absurd (requesting.symm.trans tracks.asked) (by simp)
  | stale asked old positive => exact (fresh ⟨old, positive⟩).elim
  | closes asked _ closed =>
    left
    obtain ⟨extra, settles⟩ := tracks.steady.closeGap_settles call
    obtain ⟨later, _, noneLater, accounts⟩ := received.close gapless closed
    refine ⟨rfl, later, noneLater, steady, settles.requesting.trans asked, drawn, ?_,
      fun some => (some noneLater).elim⟩
    rw [settles.good, settles.last, settles.count]
    exact accounts
  | waits timers asked _ gap =>
    right
    obtain ⟨queue, updateQueue, updatesQueue, skippedKey, same⟩ :=
      (waiter.startWaiting call.pts call.count timers).keep_eq call
    refine ⟨⟨timers, rfl⟩, steady, ?_, drawn, ?_, ?_⟩
    · rw [same]
      exact asked
    · rw [same]
      exact received
    · intro _
      rw [same]
      exact gap
  | slips _ _ _ _ zero =>
    have positive : 0 < call.count := gapless.count_pos member
    omega

end

end

end Tracks

/-- Over a run in which no waiting call is delivered again, the waiter keeps
account of the stream. -/
theorem AtRest.deliverAll_tracks (atRest : waiter.AtRest base)
    (asked : waiter.requesting = false)
    (gapless : Gapless Call.pts Call.count base stream)
    (bounded : ∀ update ∈ stream, update.pts < 2 ^ 31)
    {deliveries : List (Call Update Updates)} (drawn : ∀ call ∈ deliveries, call ∈ stream)
    (once : ∀ done call, done ++ [call] <+: deliveries → call ∈ done →
      call.pts ≤ (waiter.deliverAll done).good)
    {done : List (Call Update Updates)} (isPrefix : done <+: deliveries) :
    ∃ finished rest, Tracks base stream done (waiter.deliverAll done) finished rest := by
  induction done using reverseRecOn with
  | nil => exact ⟨[], stream, atRest.tracks asked stream⟩
  | append_singleton done call ih =>
    obtain ⟨finished, rest, tracks⟩ := ih ((prefix_append done [call]).trans isPrefix)
    have member : call ∈ stream := drawn call (isPrefix.subset (by simp))
    rw [deliverAll_append]
    by_cases again : call ∈ done
    · have old := once done call isPrefix again
      obtain ⟨same, next⟩ := tracks.deliver_finished gapless member
        ((tracks.pts_le_good_iff gapless member).mp old)
      rw [same]
      exact ⟨finished, rest, next⟩
    · rcases tracks.deliver_new gapless bounded member again with
        ⟨_, later, _, next⟩ | ⟨_, next⟩
      · exact ⟨_, later, next⟩
      · exact ⟨finished, rest, next⟩

theorem deliver_requesting (steady : waiter.Steady) (asked : waiter.requesting = true)
    (call : Call Update Updates) :
    (waiter.deliver call).Steady ∧ (waiter.deliver call).requesting = true ∧
      (waiter.deliver call).good = waiter.good := by
  rw [deliver_eq, if_pos (.inl asked)]
  obtain ⟨extra, settles⟩ := steady.unseen_settles call
  exact ⟨settles.steady steady.inited, settles.requesting.trans asked, settles.good⟩

theorem deliverAll_requesting (steady : waiter.Steady) (asked : waiter.requesting = true)
    (calls : List (Call Update Updates)) :
    (waiter.deliverAll calls).Steady ∧ (waiter.deliverAll calls).requesting = true ∧
      (waiter.deliverAll calls).good = waiter.good := by
  induction calls using reverseRecOn with
  | nil => exact ⟨steady, asked, rfl⟩
  | append_singleton done call ih =>
    rw [deliverAll_append]
    obtain ⟨nextSteady, nextAsked, nextGood⟩ := deliver_requesting ih.1 ih.2.1 call
    exact ⟨nextSteady, nextAsked, nextGood.trans ih.2.2⟩

/-- A waiter that starts at rest confirms nothing past a missing call, if no
call it has not confirmed yet is delivered a second time. -/
theorem confirmed_delivered (atRest : waiter.AtRest base)
    (gapless : Gapless Call.pts Call.count base stream)
    (bounded : ∀ update ∈ stream, update.pts < 2 ^ 31)
    {deliveries : List (Call Update Updates)} (drawn : ∀ call ∈ deliveries, call ∈ stream)
    (once : ∀ done call, done ++ [call] <+: deliveries → call ∈ done →
      call.pts ≤ (waiter.deliverAll done).good) :
    ∀ done, done <+: deliveries → ∀ update ∈ stream,
      update.pts ≤ (waiter.deliverAll done).good → update ∈ done := by
  intro done isPrefix update member confirmed
  cases asked : waiter.requesting with
  | true =>
    have beyond : base < update.pts := gapless.lt_ends member
    rw [(deliverAll_requesting atRest.steady asked done).2.2, atRest.good] at confirmed
    omega
  | false =>
    obtain ⟨finished, rest, tracks⟩ :=
      atRest.deliverAll_tracks asked gapless bounded drawn once isPrefix
    exact tracks.delivered_of_finished gapless
      ((tracks.pts_le_good_iff gapless member).mp confirmed)

end Tracking

/-- Position 7 waits for position 6 and comes again after both are confirmed. -/
theorem confirmed_delivered_reordered :
    Gapless Call.pts Call.count 5
      ([⟨6, 1, some (.update 1)⟩, ⟨7, 1, some (.update 2)⟩] : List (Call Nat Nat)) ∧
    ∀ done, done <+: [⟨7, 1, some (.update 2)⟩, ⟨6, 1, some (.update 1)⟩,
        ⟨7, 1, some (.update 2)⟩] →
      ∀ update ∈ ([⟨6, 1, some (.update 1)⟩, ⟨7, 1, some (.update 2)⟩] :
        List (Call Nat Nat)),
        update.pts ≤ (({ good := 5, last := 5, count := 5 } : PtsWaiter Nat Nat).deliverAll
          done).good → update ∈ done := by
  refine ⟨by simp [Gapless], confirmed_delivered ⟨by decide, rfl, rfl, rfl, rfl, rfl, rfl, rfl⟩
    (by simp [Gapless]) (by decide) (by simp) ?_⟩
  intro done call isPrefix again
  rcases done with _ | ⟨first, _ | ⟨second, _ | ⟨third, done⟩⟩⟩
  · cases again
  · simp only [cons_append, nil_append, cons_prefix_cons] at isPrefix
    obtain ⟨rfl, rfl, _⟩ := isPrefix
    simp at again
  · simp only [cons_append, nil_append, cons_prefix_cons] at isPrefix
    obtain ⟨rfl, rfl, rfl, _⟩ := isPrefix
    decide
  · have length := isPrefix.length_le
    simp only [length_append, length_cons, length_nil] at length
    omega

/-- Position 8 is delivered three times while it waits for 6 and 7: its count
is added three times, and `good` moves past the two missing positions. -/
theorem repeated_waiting_confirms_missing :
    Gapless Call.pts Call.count 5 ([⟨6, 1, some (.update 1)⟩, ⟨7, 1, some (.update 2)⟩,
      ⟨8, 1, some (.update 3)⟩] : List (Call Nat Nat)) ∧
    (({ good := 5, last := 5, count := 5 } : PtsWaiter Nat Nat).deliverAll
      [⟨8, 1, some (.update 3)⟩, ⟨8, 1, some (.update 3)⟩,
        ⟨8, 1, some (.update 3)⟩]).good = 8 ∧
    (⟨6, 1, some (.update 1)⟩ : Call Nat Nat) ∉ ([⟨8, 1, some (.update 3)⟩,
      ⟨8, 1, some (.update 3)⟩, ⟨8, 1, some (.update 3)⟩] : List (Call Nat Nat)) := by
  refine ⟨by simp [Gapless], by decide, by simp⟩

end TelegramDesktop.PtsWaiter
