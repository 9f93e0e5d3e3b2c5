import TelegramDesktop.FlatMapGroups
import TelegramDesktop.FlatSet
import TelegramDesktop.Runs
import Mathlib.Algebra.Group.Int.Defs

/-!
# Polling the reactions of messages

Items whose reactions were not refreshed for a while are collected and their
reactions are requested again, in one request for each peer, as in
`data/data_message_reactions.cpp`.
-/

namespace TelegramDesktop.ReactionsPolling

open List FlatSet

def kPollEach : Int := 20 * 1000

/-- A `messages.getMessagesReactions` request. -/
structure PollRequest (Peer : Type*) where
  requestId : Nat
  peer : Peer
  ids : List Int
  deriving DecidableEq

/-- What is read of the items: the peer of their history, whether it is a user, and
their ids. -/
structure Items (Item Peer : Type*) where
  peer : Item → Peer
  isUser : Peer → Bool
  id : Item → Int

/-- `scheduled` are the calls of `pollCollected` that are posted to the main thread,
`inFlight` the requests that wait for an answer and `finished` those that were answered
or have failed. -/
structure Reactions (Item Peer : Type*) [LinearOrder Item] where
  lastReactionsRefreshTime : Item → Int := fun _ => 0
  repaintItems : FlatMap Item Int := ∅
  repaintTimer : Option Int := none
  pollItems : FlatSet Item := ∅
  pollingItems : FlatSet Item := ∅
  pollRequestId : Nat := 0
  scheduled : Nat := 0
  nextRequestId : Nat := 1
  inFlight : List (PollRequest Peer) := []
  finished : List (PollRequest Peer) := []

variable {Item Peer : Type*} [LinearOrder Item] [LinearOrder Peer] (items : Items Item Peer)

/-- The request asks for the message. -/
def PollRequest.Names (request : PollRequest Peer) (item : Item) : Prop :=
  request.peer = items.peer item ∧ items.id item ∈ request.ids

instance (request : PollRequest Peer) (item : Item) : Decidable (request.Names items item) :=
  inferInstanceAs (Decidable (_ ∧ _))

namespace Reactions

variable (state : Reactions Item Peer)

/-- The last refresh, rounded up to whole seconds. -/
def grouped (item : Item) : Int := (state.lastReactionsRefreshTime item + 999).tdiv 1000 * 1000

/-- A running timer is only moved to an earlier time. -/
def startRepaintTimer (now left : Int) : Reactions Item Peer :=
  if state.repaintTimer.all fun due => left < due - now then
    { state with repaintTimer := some (now + left) }
  else state

/-- The item is put in the next poll. -/
def pollAgain (item : Item) : Reactions Item Peer :=
  { state with
    scheduled :=
      if state.pollItems.isEmpty && state.pollRequestId == 0 then state.scheduled + 1
      else state.scheduled
    pollItems := state.pollItems.insert item }

/-- An item is polled, or put off until its time. -/
def poll (item : Item) (now : Int) : Reactions Item Peer :=
  if state.grouped item == 0 || items.isUser (items.peer item) then state
  else if 0 < state.grouped item + kPollEach - now then
    if state.repaintItems.contains item then state
    else
      { state with
        repaintItems := state.repaintItems.emplace item (state.grouped item + kPollEach) }
        |>.startRepaintTimer now (state.grouped item + kPollEach - now)
  else if item ∈ state.pollingItems then state
  else state.pollAgain item

/-- The items that are due are forgotten, and the timer waits for the closest other one. -/
def repaintCollected (now : Int) : Reactions Item Peer :=
  let later := state.repaintItems.filter fun entry => now < entry.2
  let closest := later.entries.foldl (fun closest entry =>
    if closest == 0 || entry.2 < closest then entry.2 else closest) 0
  { state with
    repaintItems := later
    repaintTimer := if closest == 0 then none else some closest }

/-- The item is forgotten. -/
def itemRemoved (item : Item) : Reactions Item Peer :=
  { state with
    pollingItems := state.pollingItems.erase item
    pollItems := state.pollItems.erase item
    repaintItems := state.repaintItems.erase item }

/-- The items of a poll, grouped by peer. -/
def toRequest : FlatMap Peer (List Int) :=
  (state.pollItems.keys.map fun item => (items.peer item, items.id item)).foldl
    (FlatMap.amend [] fun ids id => ids ++ [id]) ∅

/-- One request for the items of a peer. -/
def sendPoll (group : Peer × List Int) : Reactions Item Peer :=
  { state with
    pollRequestId := state.nextRequestId
    nextRequestId := state.nextRequestId + 1
    inFlight := state.inFlight ++ [⟨state.nextRequestId, group.1, group.2⟩] }

/-- All collected items are requested. -/
def pollCollected : Reactions Item Peer :=
  (state.toRequest items).entries.foldl sendPoll
    { state with
      scheduled := state.scheduled - 1
      pollingItems := state.pollItems
      pollItems := ∅ }

/-- The polled items whose time has come again. -/
def expired (now : Int) : List Item :=
  state.pollingItems.keys.filter fun item =>
    state.lastReactionsRefreshTime item != 0 &&
      state.lastReactionsRefreshTime item + kPollEach ≤ now

/-- `updateReactions(nullptr)` for every expired item counts as a refresh. -/
def finalize (now : Int) : Reactions Item Peer :=
  { state with
    lastReactionsRefreshTime := fun item =>
      if (state.expired now).contains item then now else state.lastReactionsRefreshTime item
    pollingItems := ∅
    pollRequestId := 0
    scheduled := if state.pollItems.isEmpty then state.scheduled else state.scheduled + 1 }

/-- The request of a peer is answered or has failed. -/
def finish (request : PollRequest Peer) : Reactions Item Peer :=
  { state with
    inFlight := state.inFlight.erase request
    finished := request :: state.finished }

end Reactions

/-- What an answer changes in the items before its request is finalized are events of
their own: `refreshed` and `itemRemoved` can happen at any time. -/
inductive Event (Item Peer : Type*)
  | poll (item : Item) (now : Int)
  | repaintCollected (now : Int)
  | refreshed (item : Item) (time : Int)
  | itemRemoved (item : Item)
  | pollCollected
  | finished (request : PollRequest Peer) (now : Int)

def step (state : Reactions Item Peer) : Event Item Peer → Option (Reactions Item Peer)
  | .poll item now => some (state.poll items item now)
  | .repaintCollected now => some (state.repaintCollected now)
  | .refreshed item time =>
    some { state with
      lastReactionsRefreshTime := Function.update state.lastReactionsRefreshTime item time }
  | .itemRemoved item => some (state.itemRemoved item)
  | .pollCollected => if 0 < state.scheduled then some (state.pollCollected items) else none
  | .finished request now =>
    if request ∈ state.inFlight then some ((state.finish request).finalize now) else none

/-- The request for the item has finished, and no other one of its peer is in flight. -/
def OwnFinished (state : Reactions Item Peer) (item : Item) : Prop :=
  (∃ request ∈ state.finished, request.Names items item) ∧
    ∀ request ∈ state.inFlight, request.peer ≠ items.peer item

/-- Items are cleared after their own requests, and items are collected only when no
request is in flight. -/
def Orderly (state : Reactions Item Peer) : Event Item Peer → Prop
  | .pollCollected => 0 < state.scheduled → state.inFlight = []
  | .finished request now =>
    request ∈ state.inFlight →
      ∀ item ∈ state.expired now, OwnFinished items (state.finish request) item
  | _ => True

instance (state : Reactions Item Peer) (item : Item) : Decidable (OwnFinished items state item) :=
  inferInstanceAs (Decidable (_ ∧ _))

instance (state : Reactions Item Peer) : ∀ event, Decidable (Orderly items state event)
  | .pollCollected => inferInstanceAs (Decidable (_ → _))
  | .finished _ _ => inferInstanceAs (Decidable (_ → _))
  | .poll _ _ | .repaintCollected _ | .refreshed _ _ | .itemRemoved _ => isTrue trivial

/-- The message is shown and was not asked for lately. -/
def Due (state : Reactions Item Peer) (item : Item) (now : Int) : Prop :=
  state.grouped item ≠ 0 ∧ items.isUser (items.peer item) = false ∧
    state.grouped item + kPollEach ≤ now ∧ item ∉ state.pollingItems

/-- The collected items have one peer, and an item is not the first one to be collected
while a collection is posted already. -/
def OneAtATime (state : Reactions Item Peer) : Event Item Peer → Prop
  | .pollCollected =>
    ∀ first ∈ state.pollItems, ∀ second ∈ state.pollItems, items.peer first = items.peer second
  | .poll item now =>
    Due items state item now → state.pollItems = ∅ → state.pollRequestId = 0 →
      state.scheduled = 0
  | _ => True

instance (state : Reactions Item Peer) (item : Item) (now : Int) :
    Decidable (Due items state item now) :=
  inferInstanceAs (Decidable (_ ∧ _))

instance (state : Reactions Item Peer) : ∀ event, Decidable (OneAtATime items state event)
  | .pollCollected =>
    inferInstanceAs (Decidable (∀ first ∈ state.pollItems.keys,
      ∀ second ∈ state.pollItems.keys, items.peer first = items.peer second))
  | .poll _ _ => inferInstanceAs (Decidable (_ → _))
  | .finished _ _ | .repaintCollected _ | .refreshed _ _ | .itemRemoved _ => isTrue trivial

section Steps

omit [LinearOrder Peer] in
/-- Polling an item leaves what is requested alone, or adds the item to what is collected. -/
theorem poll_cases (state : Reactions Item Peer) (item : Item) (now : Int) :
    (¬Due items state item now ∧ ∃ map timer,
      state.poll items item now = { state with repaintItems := map, repaintTimer := timer }) ∨
    (Due items state item now ∧ state.poll items item now = state.pollAgain item) := by
  unfold Reactions.poll Due
  split_ifs with never early known polling
  · refine .inl ⟨?_, state.repaintItems, state.repaintTimer, rfl⟩
    rintro ⟨since, notUser, -⟩
    simp [since, notUser] at never
  · refine .inl ⟨?_, state.repaintItems, state.repaintTimer, rfl⟩
    rintro ⟨-, -, late, -⟩
    omega
  · refine .inl ⟨?_, ?_⟩
    · rintro ⟨-, -, late, -⟩
      omega
    · unfold Reactions.startRepaintTimer
      split
      · exact ⟨_, _, rfl⟩
      · exact ⟨_, _, rfl⟩
  · exact .inl ⟨fun due => due.2.2.2 polling, state.repaintItems, state.repaintTimer, rfl⟩
  · refine .inr ⟨?_, rfl⟩
    simp only [Bool.or_eq_true, beq_iff_eq, not_or, Bool.not_eq_true] at never
    exact ⟨never.1, never.2, by omega, polling⟩

omit [LinearOrder Peer] in
theorem sendPoll_foldl (groups : List (Peer × List Int)) (state : Reactions Item Peer) :
    groups.foldl Reactions.sendPoll state =
      { state with
        pollRequestId :=
          if groups = [] then state.pollRequestId else state.nextRequestId + groups.length - 1
        nextRequestId := state.nextRequestId + groups.length
        inFlight := state.inFlight ++ groups.zipIdx.map fun group =>
          ⟨state.nextRequestId + group.2, group.1.1, group.1.2⟩ } := by
  induction groups generalizing state with
  | nil => simp
  | cons group groups ih =>
    rw [foldl_cons, ih]
    simp only [Reactions.sendPoll, zipIdx_cons, map_cons, append_assoc]
    simp [zipIdx_succ, Function.comp_def, add_assoc, add_comm 1]

variable {items} {state : Reactions Item Peer} {item : Item} {now : Int}

theorem mem_toRequest {peer : Peer} {ids : List Int} :
    (peer, ids) ∈ (state.toRequest items).entries ↔
      (∃ item ∈ state.pollItems, items.peer item = peer) ∧
        ids = (state.pollItems.keys.filter fun item => items.peer item = peer).map items.id := by
  rw [← FlatMap.find?_eq_some, Reactions.toRequest, FlatMap.find?_foldl_amend_append]
  have known : peer ∈ (state.pollItems.keys.map fun item =>
      (items.peer item, items.id item)).map Prod.fst ↔
        ∃ item ∈ state.pollItems, items.peer item = peer := by
    simp
  rw [if_congr known rfl rfl, filter_map, map_map]
  have empty : (∅ : FlatMap Peer (List Int)).find? peer = none := rfl
  split_ifs with there
  · simp only [there, empty, Option.getD_none, nil_append, Option.some.injEq, true_and]
    exact eq_comm
  · simp [there, empty]

variable (items) in
theorem exists_mem_toRequest (member : item ∈ state.pollItems) :
    ∃ ids, (items.peer item, ids) ∈ (state.toRequest items).entries ∧ items.id item ∈ ids := by
  refine ⟨_, mem_toRequest.mpr ⟨⟨item, member, rfl⟩, rfl⟩, ?_⟩
  apply mem_map_of_mem
  rw [mem_filter]
  exact ⟨member, decide_eq_true rfl⟩

theorem toRequest_eq_nil (none : state.pollItems = ∅) :
    (state.toRequest items).entries = [] := by
  rw [Reactions.toRequest, none]
  rfl

theorem toRequest_eq_singleton {peer : Peer} (member : item ∈ state.pollItems)
    (same : ∀ item ∈ state.pollItems, items.peer item = peer) :
    ∃ ids, (state.toRequest items).entries = [(peer, ids)] := by
  have ofPeer : ∀ group ∈ (state.toRequest items).entries, group.1 = peer := by
    rintro ⟨other, ids⟩ asked
    obtain ⟨⟨found, collected, rfl⟩, -⟩ := mem_toRequest.mp asked
    exact same found collected
  have increasing := (state.toRequest items).increasing
  obtain ⟨ids, asked, -⟩ := exists_mem_toRequest items member
  rw [same item member] at asked
  cases entries : (state.toRequest items).entries with
  | nil =>
    rw [entries] at asked
    cases asked
  | cons first rest =>
    rw [entries] at increasing ofPeer
    cases rest with
    | nil => exact ⟨first.2, by rw [← ofPeer first (by simp)]⟩
    | cons second rest =>
      have below := (pairwise_cons.mp increasing).1 second (by simp)
      have firstPeer := ofPeer first (by simp)
      have secondPeer := ofPeer second (by simp)
      rw [firstPeer, secondPeer] at below
      exact absurd below (lt_irrefl peer)

theorem mem_inFlight_pollCollected {request : PollRequest Peer} :
    request ∈ (state.pollCollected items).inFlight ↔
      request ∈ state.inFlight ∨
        ∃ place, (state.toRequest items).entries[place]? = some (request.peer, request.ids) ∧
          request.requestId = state.nextRequestId + place := by
  rw [Reactions.pollCollected, sendPoll_foldl, mem_append, mem_map]
  refine or_congr_right ?_
  constructor
  · rintro ⟨⟨group, place⟩, member, rfl⟩
    exact ⟨place, mem_zipIdx_iff_getElem?.mp member, rfl⟩
  · rintro ⟨place, found, isId⟩
    refine ⟨((request.peer, request.ids), place), mem_zipIdx_iff_getElem?.mpr found, ?_⟩
    rw [← isId]

end Steps

/-- No request is in flight, and a collection is posted where items wait for it. -/
structure Idle (state : Reactions Item Peer) : Prop where
  inFlight : state.inFlight = []
  pollRequestId : state.pollRequestId = 0
  pollingItems : state.pollingItems = ∅
  scheduled : state.scheduled ≤ 1
  posted : state.scheduled = 0 → state.pollItems = ∅

/-- One request is in flight, for all the items that are polled. -/
structure Waiting (state : Reactions Item Peer) (request : PollRequest Peer) : Prop where
  inFlight : state.inFlight = [request]
  pollRequestId : state.pollRequestId ≠ 0
  scheduled : state.scheduled = 0
  names : ∀ item ∈ state.pollingItems, request.Names items item

/-- Nothing is asked for, or exactly one request waits. -/
def Alone (state : Reactions Item Peer) : Prop :=
  state.nextRequestId ≠ 0 ∧ (Idle state ∨ ∃ request, Waiting items state request)

section Alone

variable {items} {state next : Reactions Item Peer} {item : Item} {now : Int}
  {event : Event Item Peer}

section

variable (alone : Alone items state)
include alone

omit [LinearOrder Peer] in
theorem Alone.poll (condition : OneAtATime items state (.poll item now)) :
    Alone items (state.poll items item now) := by
  obtain ⟨positive, alone⟩ := alone
  obtain ⟨-, map, timer, isNext⟩ | ⟨due, isNext⟩ :=
    poll_cases items state item now
  · rw [isNext]
    refine ⟨positive, ?_⟩
    rcases alone with idle | ⟨request, waiting⟩
    · exact .inl { idle with }
    · exact .inr ⟨request, { waiting with }⟩
  · rw [isNext]
    refine ⟨positive, ?_⟩
    rcases alone with idle | ⟨request, waiting⟩
    · left
      have noRequest := idle.pollRequestId
      have few := idle.scheduled
      by_cases first : state.pollItems = ∅
      · have notPosted : state.scheduled = 0 := condition due first noRequest
        refine ⟨idle.inFlight, noRequest, idle.pollingItems, ?_, ?_⟩
        · simp [Reactions.pollAgain, noRequest, first, notPosted]
        · simp [Reactions.pollAgain, noRequest, first]
      · have posted : state.scheduled ≠ 0 := fun none => first (idle.posted none)
        have notEmpty : state.pollItems.isEmpty = false := by
          rw [← Bool.not_eq_true, FlatSet.isEmpty_iff]
          exact first
        refine ⟨idle.inFlight, noRequest, idle.pollingItems, ?_, ?_⟩
        · simpa [Reactions.pollAgain, notEmpty] using few
        · simpa [Reactions.pollAgain, notEmpty] using fun none => absurd none posted
    · right
      refine ⟨request, { waiting with scheduled := ?_ }⟩
      simp [Reactions.pollAgain, waiting.pollRequestId, waiting.scheduled]

omit [LinearOrder Peer] in
theorem Alone.itemRemoved : Alone items (state.itemRemoved item) := by
  obtain ⟨positive, idle | ⟨request, waiting⟩⟩ := alone
  · refine ⟨positive, .inl { idle with pollingItems := ?_, posted := ?_ }⟩
    · rw [Reactions.itemRemoved, idle.pollingItems]
      rfl
    · intro none
      rw [Reactions.itemRemoved, idle.posted none]
      rfl
  · refine ⟨positive, .inr ⟨request, { waiting with names := ?_ }⟩⟩
    intro other member
    exact waiting.names other (mem_erase.mp member).2

theorem Alone.pollCollected (posted : 0 < state.scheduled)
    (condition : OneAtATime items state .pollCollected) :
    Alone items (state.pollCollected items) := by
  obtain ⟨positive, idle | ⟨request, waiting⟩⟩ := alone
  · have few := idle.scheduled
    rw [Reactions.pollCollected, sendPoll_foldl]
    refine ⟨by simp only; omega, ?_⟩
    by_cases none : state.pollItems = ∅
    · left
      rw [toRequest_eq_nil none]
      refine ⟨?_, ?_, none, ?_, fun _ => rfl⟩
      · simp [idle.inFlight]
      · simp [idle.pollRequestId]
      · simp only
        omega
    · right
      obtain ⟨first, member⟩ : ∃ first, first ∈ state.pollItems := by
        rw [eq_empty_iff, not_forall] at none
        simpa using none
      have same := fun other collected => condition other collected first member
      obtain ⟨ids, entries⟩ := toRequest_eq_singleton member same
      refine ⟨⟨state.nextRequestId, items.peer first, ids⟩, ?_, ?_, ?_, ?_⟩
      · simp [entries, idle.inFlight]
      · simpa [entries] using positive
      · simp only
        omega
      · intro other collected
        obtain ⟨found, asked, named⟩ := exists_mem_toRequest items collected
        rw [entries, mem_singleton, Prod.mk.injEq] at asked
        obtain ⟨isPeer, rfl⟩ := asked
        exact ⟨isPeer.symm, named⟩
  · rw [waiting.scheduled] at posted
    exact absurd posted (lt_irrefl 0)

theorem Alone.finished {request : PollRequest Peer} (member : request ∈ state.inFlight) :
    Alone items ((state.finish request).finalize now) := by
  obtain ⟨positive, idle | ⟨own, waiting⟩⟩ := alone
  · rw [idle.inFlight] at member
    cases member
  · rw [waiting.inFlight, mem_singleton] at member
    subst member
    refine ⟨positive, .inl ⟨?_, rfl, rfl, ?_, ?_⟩⟩
    · simp [Reactions.finalize, Reactions.finish, waiting.inFlight]
    · simp only [Reactions.finalize, Reactions.finish, waiting.scheduled]
      split <;> omega
    · simp only [Reactions.finalize, Reactions.finish, waiting.scheduled]
      split
      next empty =>
        exact fun _ => isEmpty_iff.mp empty
      · omega

/-- Under the condition a request stays alone. -/
theorem Alone.step (condition : OneAtATime items state event)
    (taken : step items state event = some next) : Alone items next := by
  cases event with
  | poll item now =>
    cases taken
    exact alone.poll condition
  | repaintCollected now =>
    cases taken
    exact ⟨alone.1, alone.2.imp (fun idle => { idle with }) fun ⟨request, waiting⟩ =>
      ⟨request, { waiting with }⟩⟩
  | refreshed item time =>
    cases taken
    exact ⟨alone.1, alone.2.imp (fun idle => { idle with }) fun ⟨request, waiting⟩ =>
      ⟨request, { waiting with }⟩⟩
  | itemRemoved item =>
    cases taken
    exact alone.itemRemoved
  | pollCollected =>
    obtain ⟨posted, ⟨⟩⟩ := Option.ite_none_right_eq_some.mp taken
    exact alone.pollCollected posted condition
  | finished request now =>
    obtain ⟨member, ⟨⟩⟩ := Option.ite_none_right_eq_some.mp taken
    exact alone.finished member

theorem Alone.orderly : Orderly items state event := by
  obtain ⟨-, idle | ⟨own, waiting⟩⟩ := alone
  · cases event with
    | pollCollected => exact fun _ => idle.inFlight
    | finished request now =>
      intro member
      rw [idle.inFlight] at member
      cases member
    | _ => trivial
  · cases event with
    | pollCollected =>
      intro posted
      rw [waiting.scheduled] at posted
      exact absurd posted (lt_irrefl 0)
    | finished request now =>
      intro member item expired
      rw [waiting.inFlight, mem_singleton] at member
      subst member
      refine ⟨⟨request, mem_cons_self, ?_⟩, ?_⟩
      · exact waiting.names item (mem_of_mem_filter expired)
      · simp [Reactions.finish, waiting.inFlight]
    | _ => trivial

end

/-- With items of two peers one of them can be cleared while the request for it waits. -/
theorem exists_disorderly_pollCollected (posted : 0 < state.scheduled)
    (mixed : ¬OneAtATime items state .pollCollected) :
    ∃ rest, ¬RunMeets (ReactionsPolling.step items) (Orderly items) state
      (.pollCollected :: rest) := by
  obtain ⟨first, isFirst, second, isSecond, other⟩ :
      ∃ first ∈ state.pollItems, ∃ second ∈ state.pollItems,
        items.peer first ≠ items.peer second := by
    simpa [OneAtATime] using mixed
  obtain ⟨firstIds, firstAsked, -⟩ := exists_mem_toRequest items isFirst
  obtain ⟨secondIds, secondAsked, -⟩ := exists_mem_toRequest items isSecond
  obtain ⟨firstPlace, atFirst⟩ := getElem?_of_mem firstAsked
  obtain ⟨secondPlace, atSecond⟩ := getElem?_of_mem secondAsked
  have sentFirst : ⟨state.nextRequestId + firstPlace, items.peer first, firstIds⟩ ∈
      (state.pollCollected items).inFlight :=
    mem_inFlight_pollCollected.mpr (.inr ⟨firstPlace, atFirst, rfl⟩)
  have sentSecond : ⟨state.nextRequestId + secondPlace, items.peer second, secondIds⟩ ∈
      (state.pollCollected items).inFlight :=
    mem_inFlight_pollCollected.mpr (.inr ⟨secondPlace, atSecond, rfl⟩)
  refine ⟨[.refreshed second 1,
    .finished ⟨state.nextRequestId + firstPlace, items.peer first, firstIds⟩ (kPollEach + 1)], ?_⟩
  intro meets
  have collected := meets.2 _ (if_pos posted)
  have cleared := (collected.2 _ rfl).1 sentFirst second ?_
  · refine cleared.2 _ ((mem_erase_of_ne ?_).mpr sentSecond) rfl
    intro same
    exact other (congrArg PollRequest.peer same).symm
  · have polled : second ∈ (state.pollCollected items).pollingItems := by
      rw [Reactions.pollCollected, sendPoll_foldl]
      exact isSecond
    rw [Reactions.expired, mem_filter]
    refine ⟨polled, ?_⟩
    simp [add_comm]

theorem exists_disorderly_poll (early : ¬OneAtATime items state (.poll item now)) :
    ∃ rest, ¬RunMeets (ReactionsPolling.step items) (Orderly items) state
      (.poll item now :: rest) := by
  obtain ⟨due, first, noRequest, posted⟩ :
      Due items state item now ∧ state.pollItems = ∅ ∧ state.pollRequestId = 0 ∧
        state.scheduled ≠ 0 := by
    simpa [OneAtATime] using early
  refine ⟨[.pollCollected, .pollCollected], ?_⟩
  have isNext : state.poll items item now = state.pollAgain item := by
    obtain ⟨notDue, -⟩ | ⟨-, isNext⟩ :=
      poll_cases items state item now
    · exact absurd due notDue
    · exact isNext
  have twice : (state.pollAgain item).scheduled = state.scheduled + 1 := by
    simp [Reactions.pollAgain, first, noRequest]
  have collected : item ∈ (state.pollAgain item).pollItems := by
    simp [Reactions.pollAgain]
  obtain ⟨ids, asked, -⟩ := exists_mem_toRequest items collected
  obtain ⟨place, found⟩ := getElem?_of_mem asked
  have sent : ⟨(state.pollAgain item).nextRequestId + place, items.peer item, ids⟩ ∈
      ((state.pollAgain item).pollCollected items).inFlight :=
    mem_inFlight_pollCollected.mpr (.inr ⟨place, found, rfl⟩)
  intro meets
  have polled := meets.2 _ rfl
  rw [isNext] at polled
  have again := (polled.2 _ (if_pos (by omega))).1
  rw [again ?_] at sent
  · cases sent
  · rw [Reactions.pollCollected, sendPoll_foldl]
    simp only [twice]
    omega

end Alone

/-- Where the items that are collected have one peer, and none is the first one while a
collection is posted, items are cleared after their own requests only, and collected
while no request is in flight.  Any other step can be followed by one that is too early. -/
theorem orderly_of_oneAtATime (events : List (Event Item Peer)) :
    (RunMeets (step items) (OneAtATime items) {} events →
      RunMeets (step items) (Orderly items) {} events) ∧
    ∀ state event next, RunMeets (step items) (OneAtATime items) {} events →
      run (step items) {} events = some state → step items state event = some next →
      ¬OneAtATime items state event →
      ∃ rest, ¬RunMeets (step items) (Orderly items) state (event :: rest) := by
  have start : Alone items ({} : Reactions Item Peer) :=
    ⟨Nat.one_ne_zero, Or.inl ⟨rfl, rfl, rfl, Nat.zero_le 1, fun _ => rfl⟩⟩
  constructor
  · have kept : ∀ state event next, Alone items state → OneAtATime items state event →
        step items state event = some next → Alone items next :=
      fun state event next alone condition taken => alone.step condition taken
    exact RunMeets.of_invariant kept (fun state event alone _ => alone.orderly) start
  · intro state event next _ _ taken broken
    cases event with
    | pollCollected =>
      exact exists_disorderly_pollCollected (Option.ite_none_right_eq_some.mp taken).1 broken
    | poll item now => exact exists_disorderly_poll broken
    | _ => exact absurd trivial broken

/-- Two items of one peer are cleared after their request. -/
theorem orderly_two_items :
    RunMeets (step ⟨fun _ => 7, fun _ => false, Int.ofNat⟩)
      (Orderly ⟨fun _ => 7, fun _ => false, Int.ofNat⟩) ({} : Reactions Nat Nat)
      [.refreshed 1 1, .refreshed 2 1, .poll 1 30000, .poll 2 30000, .pollCollected,
        .finished ⟨1, 7, [1, 2]⟩ 30000] :=
  (orderly_of_oneAtATime _ _).1 (by decide)

/-- Two items of two peers: the first answer clears the item of the second peer too. -/
theorem not_orderly_of_two_peers :
    ¬∀ events : List (Event Nat Nat),
      RunMeets (step ⟨id, fun _ => false, Int.ofNat⟩) (Orderly ⟨id, fun _ => false, Int.ofNat⟩)
        {} events := by
  intro orderly
  have run := orderly [.refreshed 1 1, .refreshed 2 1, .poll 1 30000, .poll 2 30000,
    .pollCollected, .finished ⟨1, 1, [1]⟩ 30000]
  revert run
  decide

end TelegramDesktop.ReactionsPolling
