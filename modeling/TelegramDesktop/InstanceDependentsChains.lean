import TelegramDesktop.InstanceDependents
import TelegramDesktop.InstanceTracking

/-!
# What waits for a request

The rounds over the requests that wait end with all those whose chain leads to the one
that is unregistered, since each round but the last one finds another one.
-/

namespace TelegramDesktop.InstanceDependents

open FlatSet InstanceDependents FlatMap List

open Instance (dependentRound dependentLoop dependentRound_toResend)

section Rounds

variable {all dependent : List (Int × Int)} {requestId : Int}
  {found : FlatSet Int × FlatSet Int}

/-- What was found so far waits for the request, with the request itself to remove. -/
structure Found (all : List (Int × Int)) (requestId : Int)
    (found : FlatSet Int × FlatSet Int) : Prop where
  own : requestId ∈ found.1
  removed : ∀ other ∈ found.1, other = requestId ∨ other ∈ found.2
  resent : ∀ other ∈ found.2, other ∈ found.1 ∧
    Relation.TransGen (fun first second => (first, second) ∈ all) other requestId

theorem Found.leadsTo (isFound : Found all requestId found) {entry : Int × Int}
    (member : entry ∈ all) (after : entry.2 ∈ found.1) :
    Relation.TransGen (fun first second => (first, second) ∈ all) entry.1 requestId := by
  rcases isFound.removed entry.2 after with same | later
  · exact Relation.TransGen.single (same ▸ member)
  · exact Relation.TransGen.head member (isFound.resent entry.2 later).2

theorem Found.round (isFound : Found all requestId found)
    (members : ∀ entry ∈ dependent, entry ∈ all) :
    Found all requestId (dependentRound dependent found) := by
  induction dependent generalizing found with
  | nil => exact isFound
  | cons entry dependent ih =>
    apply ih _ fun other member => members other (mem_cons_of_mem _ member)
    dsimp only
    split
    next after =>
      have leads := isFound.leadsTo (members entry mem_cons_self) after
      constructor
      · exact mem_insert.mpr (.inr isFound.own)
      · intro other member
        rcases mem_insert.mp member with rfl | old
        · exact .inr (mem_insert.mpr (.inl rfl))
        · exact (isFound.removed other old).imp_right fun old =>
            mem_insert.mpr (.inr old)
      · intro other member
        rcases mem_insert.mp member with rfl | old
        · exact ⟨mem_insert.mpr (.inl rfl), leads⟩
        · exact ⟨mem_insert.mpr (.inr (isFound.resent other old).1), (isFound.resent other old).2⟩
    · exact isFound

theorem dependentRound_mono (dependent : List (Int × Int)) (found : FlatSet Int × FlatSet Int) :
    (∀ other ∈ found.1, other ∈ (dependentRound dependent found).1) ∧
      ∀ other ∈ found.2, other ∈ (dependentRound dependent found).2 := by
  induction dependent generalizing found with
  | nil => exact ⟨fun _ => id, fun _ => id⟩
  | cons entry dependent ih =>
    obtain ⟨first, second⟩ := ih (if entry.2 ∈ found.1 then
      (found.1.insert entry.1, found.2.insert entry.1) else found)
    constructor
    · intro other member
      apply first
      split
      · exact mem_insert.mpr (.inr member)
      · exact member
    · intro other member
      apply second
      split
      · exact mem_insert.mpr (.inr member)
      · exact member

theorem mem_dependentRound {entry : Int × Int} (member : entry ∈ dependent)
    (after : entry.2 ∈ found.1) : entry.1 ∈ (dependentRound dependent found).2 := by
  induction dependent generalizing found with
  | nil => cases member
  | cons head dependent ih =>
    rcases mem_cons.mp member with rfl | later
    · unfold dependentRound
      rw [foldl_cons, if_pos after]
      exact (dependentRound_mono dependent _).2 _ (mem_insert.mpr (.inl rfl))
    · apply ih later
      dsimp only
      split
      · exact mem_insert.mpr (.inr after)
      · exact after

/-- What depends on a found request is found. -/
def Closed (all : List (Int × Int)) (found : FlatSet Int × FlatSet Int) : Prop :=
  ∀ entry ∈ all, entry.2 ∈ found.1 → entry.1 ∈ found.2

theorem size_le_of_subset {first second : FlatSet Int} (subset : ∀ other ∈ first, other ∈ second) :
    first.size ≤ second.size := by
  rw [size_eq_card, size_eq_card]
  apply Finset.card_le_card
  intro other member
  exact FlatSet.mem_toFinset.mpr (subset other (FlatSet.mem_toFinset.mp member))

theorem eq_of_subset_of_size {first second : FlatSet Int}
    (subset : ∀ other ∈ first, other ∈ second) (size : second.size = first.size) :
    first = second := by
  rw [FlatSet.size_eq_card, FlatSet.size_eq_card] at size
  have same : first.toFinset = second.toFinset := by
    apply Finset.eq_of_subset_of_card_le _ size.le
    intro other member
    exact FlatSet.mem_toFinset.mpr (subset other (FlatSet.mem_toFinset.mp member))
  ext other
  rw [← FlatSet.mem_toFinset, same, FlatSet.mem_toFinset]

theorem Found.size_le (isFound : Found all requestId found) : found.2.size ≤ all.length := by
  have keys : found.2.toFinset ⊆ (all.map Prod.fst).toFinset := by
    intro other member
    obtain ⟨-, leads⟩ := isFound.resent other (FlatSet.mem_toFinset.mp member)
    obtain ⟨next, waits⟩ : ∃ next, (other, next) ∈ all := by
      obtain ⟨next, waits, -⟩ := Relation.TransGen.head'_iff.mp leads
      exact ⟨next, waits⟩
    rw [List.mem_toFinset, List.mem_map]
    exact ⟨(other, next), waits, rfl⟩
  calc found.2.size = found.2.toFinset.card := size_eq_card _
    _ ≤ (all.map Prod.fst).toFinset.card := Finset.card_le_card keys
    _ ≤ (all.map Prod.fst).length := toFinset_card_le _
    _ = all.length := length_map _

theorem Found.loop {rounds : Nat} (isFound : Found all requestId found)
    (enough : all.length < rounds + found.2.size) :
    Found all requestId (dependentLoop all rounds found) ∧
      Closed all (dependentLoop all rounds found) := by
  induction rounds generalizing found with
  | zero =>
    have := isFound.size_le
    omega
  | succ rounds ih =>
    have next := isFound.round fun entry member => member
    have mono := dependentRound_mono all found
    unfold dependentLoop
    dsimp only
    split
    next same =>
      have sameResent := eq_of_subset_of_size mono.2 same
      refine ⟨next, fun entry member after => ?_⟩
      apply mem_dependentRound member
      rcases next.removed entry.2 after with own | resent
      · exact own ▸ isFound.own
      · rw [← sameResent] at resent
        exact (isFound.resent entry.2 resent).1
    · apply ih next
      have := size_le_of_subset mono.2
      omega

end Rounds

variable {inst : InstanceDependents} {requestId : Int}

theorem mem_toRemoveAndResend (inst : InstanceDependents) (requestId other : Int) :
    (other ∈ (inst.toRemoveAndResend requestId).1 ↔
      other = requestId ∨ inst.LeadsTo other requestId) ∧
    (other ∈ (inst.toRemoveAndResend requestId).2 ↔ inst.LeadsTo other requestId) := by
  have first : Found inst.dependentRequests.entries requestId (ofList [requestId], ∅) := by
    refine ⟨by simp, by simp, by simp⟩
  obtain ⟨isFound, closed⟩ := first.loop (show inst.dependentRequests.entries.length <
      inst.dependentRequests.entries.length + 1 + (∅ : FlatSet Int).size by omega)
  have resent : ∀ other, other ∈ (inst.toRemoveAndResend requestId).2 ↔
      inst.LeadsTo other requestId := by
    intro other
    constructor
    · exact fun member => (isFound.resent other member).2
    · intro leads
      induction leads using Relation.TransGen.head_induction_on with
      | single waits => exact closed _ waits isFound.own
      | head waits _ ih => exact closed _ waits (isFound.resent _ ih).1
  refine ⟨?_, resent other⟩
  rw [← resent other]
  constructor
  · exact isFound.removed other
  · rintro (rfl | member)
    · exact isFound.own
    · exact (isFound.resent other member).1

/-- The requests that are known are those that are registered, and so are those that are
waited for. -/
structure Registered (inst : InstanceDependents) : Prop where
  known : ∀ requestId, inst.requestMap.contains requestId = true ↔
    inst.requestsByDc.contains requestId = true
  noneOrphaned : inst.NoneOrphaned

theorem resend_spec (ids : List Int) (registered : Registered inst) :
    ∃ sent, resend ids inst = { inst with prepared := inst.prepared ++ sent } ∧
      sent.map Prod.snd = ids.filter fun requestId => inst.requestsByDc.contains requestId := by
  induction ids generalizing inst with
  | nil => exact ⟨[], by simp [resend], rfl⟩
  | cons requestId ids ih =>
    unfold resend
    cases isDc : inst.requestsByDc.find? requestId with
    | none =>
      obtain ⟨sent, resent, isSent⟩ := ih registered
      refine ⟨sent, resent, ?_⟩
      rw [isSent, List.filter_cons_of_neg (by simp [FlatMap.contains, isDc])]
    | some dc =>
      have isRegistered : inst.requestsByDc.contains requestId = true := by
        simp [FlatMap.contains, isDc]
      obtain ⟨request, isKnown⟩ := Option.isSome_iff_exists.mp
        ((registered.known requestId).mpr isRegistered)
      have sentFirst : Registered (inst.sendPrepared dc requestId) :=
        ⟨registered.known, registered.noneOrphaned⟩
      obtain ⟨sent, resent, isSent⟩ := ih sentFirst
      rw [isKnown]
      refine ⟨(dc.natAbs, requestId) :: sent, ?_, ?_⟩
      · dsimp only
        rw [resent]
        simp [sendPrepared]
      · rw [map_cons, isSent, filter_cons_of_pos isRegistered]
        rfl

theorem Registered.removeRequest (registered : Registered inst) (requestId : Int) :
    Registered (inst.removeRequest requestId) := by
  refine ⟨fun other => ?_, fun other after waits => ?_⟩
  · unfold InstanceDependents.removeRequest
    rw [contains_erase, contains_erase, registered.known]
  · obtain ⟨member, isLeft⟩ := FlatMap.mem_filter.mp waits
    rw [decide_eq_true_eq, (mem_toRemoveAndResend inst requestId other).1, not_or] at isLeft
    refine contains_erase.mpr ⟨?_, registered.noneOrphaned other after member⟩
    rintro rfl
    exact isLeft.2 (Relation.TransGen.single member)

/-- The request that is unregistered loses its own entry, and so do those whose chain leads
to it, which are sent again. -/
theorem Registered.unregisters (registered : Registered inst) (requestId : Int) :
    Unregisters inst requestId (fun other => other = requestId ∨ inst.LeadsTo other requestId)
      (fun other => inst.LeadsTo other requestId) := by
  obtain ⟨sent, resent, isSent⟩ := resend_spec (inst.toRemoveAndResend requestId).2.keys
    (registered.removeRequest requestId)
  refine ⟨fun entry => ?_, sent, ?_, ?_, fun other => ?_⟩
  · rw [unregisterRequest, resent]
    refine FlatMap.mem_filter.trans (and_congr_right fun _ => ?_)
    rw [decide_eq_true_eq, (mem_toRemoveAndResend inst requestId entry.1).1]
  · rw [unregisterRequest, resent]
    rfl
  · rw [isSent]
    exact (FlatSet.isListing _).nodup.filter _
  · rw [isSent, List.mem_filter, unregisterRequest, resent]
    exact and_congr_left fun _ => (mem_toRemoveAndResend inst requestId other).2

theorem Registered.unregisterRequest (registered : Registered inst) (requestId : Int) :
    Registered (inst.unregisterRequest requestId) := by
  obtain ⟨sent, resent, -⟩ := resend_spec (inst.toRemoveAndResend requestId).2.keys
    (registered.removeRequest requestId)
  have removed := registered.removeRequest requestId
  rw [InstanceDependents.unregisterRequest, resent]
  exact ⟨removed.known, removed.noneOrphaned⟩

section

variable (registered : Registered inst)
include registered

theorem Registered.registerRequest {requestId : Int}
    (known : inst.requestMap.contains requestId = true) (dc : Int) :
    Registered (inst.registerRequest requestId dc) := by
  refine ⟨fun other => ?_, fun other after waits => ?_⟩
  · refine (registered.known other).trans (contains_set.trans ?_).symm
    refine or_iff_right_of_imp ?_
    rintro rfl
    exact (registered.known other).mp known
  · exact contains_set.mpr (.inr (registered.noneOrphaned other after waits))

theorem Registered.setAfter {requestId : Int} (known : inst.requestMap.contains requestId = true)
    (after : Option Int) :
    Registered { inst with requestMap := inst.requestMap.set requestId after } := by
  refine ⟨fun other => ?_, registered.noneOrphaned⟩
  refine (contains_set.trans ?_).trans (registered.known other)
  refine or_iff_right_of_imp ?_
  rintro rfl
  exact known

theorem Registered.sendPrepared (dc requestId : Int) :
    Registered (inst.sendPrepared dc requestId) :=
  ⟨registered.known, registered.noneOrphaned⟩

theorem Registered.sendRequest {requestId : Int} (dc after : Int) :
    Registered (inst.sendRequest requestId dc after) := by
  have stored : Registered (({ inst with
      requestMap := inst.requestMap.emplace requestId none } :
        InstanceDependents).registerRequest requestId dc) := by
    refine ⟨fun other => ?_, fun other after waits => ?_⟩
    · refine contains_emplace.trans (Iff.trans ?_ contains_set.symm)
      rw [registered.known]
    · exact contains_set.mpr (.inr (registered.noneOrphaned other after waits))
  apply Registered.sendPrepared
  unfold comesAfter
  split
  · exact stored.setAfter (contains_emplace.mpr (.inl rfl)) _
  · exact stored

theorem Registered.onMsgWait (requestId : Int) : Registered (inst.onMsgWait requestId).2 := by
  unfold InstanceDependents.onMsgWait
  split
  · exact registered
  · exact registered
  next after isKnown =>
    have known : inst.requestMap.contains requestId = true := by
      simp [FlatMap.contains, isKnown]
    split
    · exact registered
    next dc isDc =>
      by_cases waits : inst.requestsByDc.find? after = some dc
      · simp only [if_pos waits]
        split
        · exact registered
        · refine ⟨registered.known, fun other later isWaiting => ?_⟩
          rcases FlatMap.mem_of_mem_emplaceEntry isWaiting with same | old
          · cases same
            simp [FlatMap.contains, waits]
          · exact registered.noneOrphaned other later old
      · have changed := registered.setAfter known none
        simp only [if_neg waits]
        split
        · exact changed
        · exact changed.sendPrepared dc requestId

theorem Registered.onMigrate (requestId newDc : Int) :
    Registered (inst.onMigrate requestId newDc).2 := by
  unfold InstanceDependents.onMigrate
  split
  · exact registered
  · split
    · exact registered
    next known =>
      rw [not_or, not_or, not_or, Bool.not_eq_false] at known
      exact (registered.registerRequest known.2.2.2 _).sendPrepared _ _

theorem Registered.importDone (requestId newDc : Int) :
    Registered (inst.importDone requestId newDc) := by
  unfold InstanceDependents.importDone
  split
  · exact registered
  next known =>
    rw [Bool.not_eq_false] at known
    split
    · exact registered
    · exact (registered.registerRequest known _).sendPrepared _ _

end

theorem Registered.rpcErrorOccured {handled : Bool × InstanceDependents}
    (registered : Registered handled.2) (requestId : Int) :
    Registered (rpcErrorOccured requestId handled) := by
  unfold InstanceDependents.rpcErrorOccured
  split
  · exact registered
  · exact registered.unregisterRequest requestId

theorem unregisterRequest_of_erased (inst : InstanceDependents) (requestId : Int) :
    ({ inst with requestMap := inst.requestMap.erase requestId } :
      InstanceDependents).unregisterRequest requestId = inst.unregisterRequest requestId := by
  have erased : (inst.requestMap.erase requestId).erase requestId =
      inst.requestMap.erase requestId := by
    apply ext_mem
    intro entry
    simp
  unfold unregisterRequest removeRequest
  simp only [erased]
  rfl

theorem Registered.cancel (registered : Registered inst) (requestId : Int) :
    Registered (inst.cancel requestId) := by
  unfold InstanceDependents.cancel
  split
  · exact registered
  · rw [unregisterRequest_of_erased]
    exact registered.unregisterRequest requestId

/-- Every event keeps the requests registered. -/
theorem Registered.step (registered : Registered inst) (event : Event) :
    Registered (inst.step event) := by
  cases event with
  | sendRequest requestId dc after => exact registered.sendRequest dc after
  | finished requestId => exact registered.unregisterRequest requestId
  | msgWait requestId => exact (registered.onMsgWait requestId).rpcErrorOccured requestId
  | migrate requestId newDc =>
    exact (registered.onMigrate requestId newDc).rpcErrorOccured requestId
  | importDone requestId newDc => exact registered.importDone requestId newDc
  | cancel requestId => exact registered.cancel requestId

theorem registered_afterRun (events : List Event) : Registered (afterRun events) := by
  induction events using reverseRecOn with
  | nil => exact ⟨fun _ => Iff.rfl, fun _ _ waits => absurd waits not_mem_nil⟩
  | append_singleton events event ih =>
    rw [afterRun, foldl_append]
    exact ih.step event

/-- In every state that is reached no request waits for one that is not registered, and a
request that is unregistered is not waited for any more. -/
theorem noneOrphaned_afterRun (events : List Event) :
    (afterRun events).NoneOrphaned ∧ ∀ requestId, Unregisters (afterRun events) requestId
      (fun other => other = requestId ∨ (afterRun events).LeadsTo other requestId)
      (fun other => (afterRun events).LeadsTo other requestId) :=
  ⟨(registered_afterRun events).noneOrphaned, (registered_afterRun events).unregisters⟩

/-- A request that waits for another one and is unregistered loses the entry of its own, though
its chain does not lead to it. -/
theorem not_unregisters_chains_only : ∃ events requestId,
    ¬Unregisters (afterRun events) requestId
      (fun other => (afterRun events).LeadsTo other requestId)
      (fun other => (afterRun events).LeadsTo other requestId) := by
  let events : List Event := [.sendRequest 1 2 0, .sendRequest 2 2 1, .msgWait 2]
  have waiting : (afterRun events).dependentRequests.entries = [(2, 1)] := by decide
  have left : ((afterRun events).unregisterRequest 2).dependentRequests.entries = [] := by decide
  refine ⟨events, 2, fun unregisters => ?_⟩
  have member := (unregisters.left (2, 1)).mpr ⟨by simp [waiting], fun leads => ?_⟩
  · simp [left] at member
  · obtain ⟨before, -, waits⟩ := Relation.TransGen.tail'_iff.mp leads
    simp [WaitsFor, waiting] at waits

end TelegramDesktop.InstanceDependents
