import TelegramDesktop.Histories

/-!
# Steps of the requests of a history

What `sendRequest` and `finishSentRequest` do to the state of one history.
-/

namespace TelegramDesktop.Histories

open FlatMap

variable {H G C A : Type*}

namespace State

variable {state : State G} {id other : Nat}

/-- A deletion is under way. -/
def Deletes (state : State G) : Prop :=
  ∃ entry ∈ state.sent.entries, entry.2.type = .delete

/-- The request is sent or postponed. -/
def Has (state : State G) (id : Nat) : Prop :=
  state.sent.contains id = true ∨ state.postponed.contains id = true

/-- What holds also in the middle of `finishSentRequest`. -/
structure Separate (state : State G) : Prop where
  excludes : state.Deletes → ∀ entry ∈ state.sent.entries, entry.2.type ≠ .history
  disjoint : ∀ id, state.sent.contains id = true → state.postponed.contains id = false

theorem Separate.erase_postponed (separate : state.Separate) (id : Nat) :
    Separate { state with postponed := state.postponed.erase id } := by
  refine ⟨separate.excludes, ?_⟩
  intro other sent
  have missing := separate.disjoint other sent
  rw [← Bool.not_eq_true, contains_erase, missing]
  simp

/-- Nothing is postponed unless a deletion is under way. -/
structure Consistent (state : State G) : Prop extends Separate state where
  waits : state.postponed.isEmpty = false → state.Deletes

/-- Two states agree in their requests. -/
structure Same (first second : State G) : Prop where
  sent : first.sent = second.sent
  postponed : first.postponed = second.postponed

theorem Same.refl (state : State G) : Same state state := ⟨rfl, rfl⟩

theorem Same.trans {first second third : State G} (one : Same first second)
    (two : Same second third) : Same first third :=
  ⟨one.sent.trans two.sent, one.postponed.trans two.postponed⟩

theorem Same.has_iff {first second : State G} (same : Same first second) :
    first.Has id ↔ second.Has id := by
  rw [Has, Has, same.sent, same.postponed]

theorem Same.consistent {first second : State G} (same : Same first second)
    (consistent : second.Consistent) : first.Consistent := by
  refine ⟨⟨?_, ?_⟩, ?_⟩
  · rw [Deletes, same.sent]
    exact consistent.excludes
  · rw [same.sent, same.postponed]
    exact consistent.disjoint
  · rw [Deletes, same.sent, same.postponed]
    exact consistent.waits

theorem Consistent.default : Consistent ({} : State G) := by
  refine ⟨⟨?_, ?_⟩, ?_⟩
  · intro _ entry member
    cases member
  · intro id sent
    cases sent
  · intro some
    cases some

theorem isEmpty_eq_true (empty : state.isEmpty = true) :
    state.postponed = ∅ ∧ state.sent = ∅ := by
  unfold isEmpty at empty
  simp only [Bool.and_eq_true] at empty
  exact ⟨isEmpty_iff.mp empty.1.1.1.1, isEmpty_iff.mp empty.1.1.2⟩

theorem same_of_isEmpty (empty : state.isEmpty = true) : Same {} state :=
  ⟨(isEmpty_eq_true empty).2.symm, (isEmpty_eq_true empty).1.symm⟩

end State

theorem postponeHistoryRequest_iff {state : State G} :
    postponeHistoryRequest state = true ↔ state.Deletes := by
  unfold postponeHistoryRequest State.Deletes
  rw [List.find?_isSome]
  simp

section Sending

variable (session : Api H G A) {history : H} {type : RequestType} {generator : G}
  {id other : Nat} {requested : Bool} {state : State G} {api : A}

/-- The request is listed as sent. -/
def withSent (state : State G) (id : Nat) (request : SentRequest G) : State G :=
  { state with sent := state.sent.emplace id request }

theorem sendNow_cases (history : H) (type : RequestType) (generator : G) (id : Nat)
    (requested : Bool) (state : State G) (api : A) :
    ∃ added : State G,
      added.sent = state.sent.emplace id
        ⟨generator, (session.generate generator history id api).2, type⟩ ∧
      added.postponed = state.postponed ∧
      postponeEntryRequest added = postponeEntryRequest (withSent state id
        ⟨generator, (session.generate generator history id api).2, type⟩) ∧
      added.postponedRequestEntry = (state.postponedRequestEntry ||
        (postponeEntryRequest (withSent state id
          ⟨generator, (session.generate generator history id api).2, type⟩) && requested)) ∧
      (added.Deletes ∧
          sendNow session history type generator id requested state api =
            resendHistoryRequests session added
              (session.generate generator history id api).1 ∨
        ¬added.Deletes ∧
          sendNow session history type generator id requested state api =
            (added, (session.generate generator history id api).1)) := by
  let sent := withSent state id ⟨generator, (session.generate generator history id api).2, type⟩
  let added :=
    if !sent.postponedRequestEntry && postponeEntryRequest sent && requested then
      { sent with postponedRequestEntry := true }
    else sent
  have unfolded : sendNow session history type generator id requested state api =
      if postponeHistoryRequest added then
        resendHistoryRequests session added (session.generate generator history id api).1
      else (added, (session.generate generator history id api).1) := rfl
  refine ⟨added, ?_, ?_, ?_, ?_, ?_⟩
  · unfold added
    split <;> rfl
  · unfold added
    split <;> rfl
  · unfold added
    split <;> rfl
  · have old : sent.postponedRequestEntry = state.postponedRequestEntry := rfl
    unfold added
    rw [old]
    cases marked : state.postponedRequestEntry <;> cases postponeEntryRequest sent <;>
      cases requested <;> simp [old, marked]
  · rw [unfolded, ← postponeHistoryRequest_iff]
    by_cases deletes : postponeHistoryRequest added = true
    · exact .inl ⟨deletes, if_pos deletes⟩
    · exact .inr ⟨deletes, if_neg deletes⟩

theorem mem_resend_sent {entry : Nat × SentRequest G} :
    entry ∈ (resendHistoryRequests session state api).1.sent.entries ↔
      entry ∈ state.sent.entries ∧ entry.2.type ≠ .history := by
  rw [resendHistoryRequests, mem_filter, decide_eq_true_eq]

theorem resend_postponed_contains :
    (resendHistoryRequests session state api).1.postponed.contains id = true ↔
      state.postponed.contains id = true ∨
        ∃ entry ∈ state.sent.entries, entry.2.type = .history ∧ entry.1 = id := by
  rw [resendHistoryRequests, contains_emplaceAll]
  simp only [List.mem_map, mem_filter, decide_eq_true_eq]
  constructor
  · rintro (known | ⟨_, ⟨entry, ⟨member, isHistory⟩, rfl⟩, rfl⟩)
    · exact .inl known
    · exact .inr ⟨entry, member, isHistory, rfl⟩
  · rintro (known | ⟨entry, member, isHistory, rfl⟩)
    · exact .inl known
    · exact .inr ⟨_, ⟨entry, ⟨member, isHistory⟩, rfl⟩, rfl⟩

theorem resend_has :
    (resendHistoryRequests session state api).1.Has id ↔ state.Has id := by
  have kept : (resendHistoryRequests session state api).1.sent.contains id = true ↔
      ∃ entry ∈ state.sent.entries, entry.2.type ≠ .history ∧ entry.1 = id := by
    simp only [contains_iff, mem_resend_sent, and_assoc]
  have sent : state.sent.contains id = true ↔ ∃ entry ∈ state.sent.entries, entry.1 = id :=
    contains_iff
  rw [State.Has, State.Has, resend_postponed_contains, kept, sent]
  constructor
  · rintro (⟨entry, member, -, rfl⟩ | known | ⟨entry, member, -, rfl⟩)
    · exact .inl ⟨entry, member, rfl⟩
    · exact .inr known
    · exact .inl ⟨entry, member, rfl⟩
  · rintro (⟨entry, member, rfl⟩ | known)
    · by_cases isHistory : entry.2.type = .history
      · exact .inr (.inr ⟨entry, member, isHistory, rfl⟩)
      · exact .inl ⟨entry, member, isHistory, rfl⟩
    · exact .inr (.inl known)

theorem resend_consistent (deletes : state.Deletes)
    (disjoint : ∀ id, state.sent.contains id = true → state.postponed.contains id = false) :
    (resendHistoryRequests session state api).1.Consistent := by
  refine ⟨⟨?_, ?_⟩, ?_⟩
  · intro _ entry member
    exact ((mem_resend_sent session).mp member).2
  · intro id sent
    obtain ⟨entry, member, rfl⟩ := contains_iff.mp sent
    obtain ⟨wasSent, notHistory⟩ := (mem_resend_sent session).mp member
    rw [← Bool.not_eq_true, resend_postponed_contains]
    rintro (known | ⟨other, otherMem, isHistory, same⟩)
    · rw [disjoint entry.1 (contains_of_mem wasSent)] at known
      cases known
    · rw [eq_of_key otherMem wasSent same] at isHistory
      exact notHistory isHistory
  · intro _
    obtain ⟨entry, member, isDelete⟩ := deletes
    exact ⟨entry, (mem_resend_sent session).mpr ⟨member, by simp [isDelete]⟩, isDelete⟩

theorem sendNow_has :
    (sendNow session history type generator id requested state api).1.Has other ↔
      other = id ∨ state.Has other := by
  obtain ⟨added, sent, postponed, -, -, ⟨-, result⟩ | ⟨-, result⟩⟩ :=
    sendNow_cases session history type generator id requested state api
  · rw [result, resend_has, State.Has, State.Has, sent, postponed, contains_emplace, or_assoc]
  · rw [result, State.Has, State.Has, sent, postponed, contains_emplace, or_assoc]

theorem sendNow_consistent (consistent : state.Consistent) (fresh : ¬state.Has id) :
    (sendNow session history type generator id requested state api).1.Consistent := by
  obtain ⟨added, sent, postponed, -, -, result⟩ :=
    sendNow_cases session history type generator id requested state api
  have notSent : state.sent.contains id = false := by
    rw [← Bool.not_eq_true]
    exact fun known => fresh (.inl known)
  have disjoint : ∀ other, added.sent.contains other = true →
      added.postponed.contains other = false := by
    intro other known
    rw [postponed]
    rw [sent, contains_emplace] at known
    rcases known with rfl | known
    · rw [← Bool.not_eq_true]
      exact fun known => fresh (.inr known)
    · exact consistent.disjoint other known
  rcases result with ⟨deletes, result⟩ | ⟨noDelete, result⟩
  · rw [result]
    exact resend_consistent session deletes disjoint
  · rw [result]
    refine ⟨⟨fun deletes => (noDelete deletes).elim, disjoint⟩, ?_⟩
    intro some
    rw [postponed] at some
    obtain ⟨entry, member, isDelete⟩ := consistent.waits some
    refine ⟨entry, ?_, isDelete⟩
    rw [sent, mem_emplace (contains_eq_false.mp notSent)]
    exact .inr member

theorem resend_entry :
    (resendHistoryRequests session state api).1.postponedRequestEntry =
      state.postponedRequestEntry := rfl

theorem sendNow_entry
    (waits : (sendNow session history type generator id requested state
      api).1.postponedRequestEntry = true) :
    state.postponedRequestEntry = true ∨ requested = true := by
  obtain ⟨added, -, -, -, mark, result⟩ :=
    sendNow_cases session history type generator id requested state api
  have same : (sendNow session history type generator id requested state
      api).1.postponedRequestEntry = added.postponedRequestEntry := by
    rcases result with ⟨-, result⟩ | ⟨-, result⟩
    · rw [result]
      rfl
    · rw [result]
  rw [same, mark, Bool.or_eq_true, Bool.and_eq_true] at waits
  exact waits.imp_right And.right

/-- The state of a history after `sendRequest`. -/
def accepted (history : H) (type : RequestType) (generator : G) (id : Nat) (requested : Bool)
    (state : State G) (api : A) : State G × A :=
  if type = .history ∧ postponeHistoryRequest state then
    ({ state with postponed := state.postponed.emplace id generator }, api)
  else sendNow session history type generator id requested state api

theorem accepted_has :
    (accepted session history type generator id requested state api).1.Has other ↔
      other = id ∨ state.Has other := by
  unfold accepted
  split
  · rw [State.Has, State.Has, contains_emplace, or_left_comm]
  · exact sendNow_has session

theorem accepted_consistent (consistent : state.Consistent) (fresh : ¬state.Has id) :
    (accepted session history type generator id requested state api).1.Consistent := by
  unfold accepted
  split
  next waits =>
    refine ⟨⟨consistent.excludes, ?_⟩, ?_⟩
    · intro other sent
      rw [← Bool.not_eq_true, contains_emplace]
      rintro (rfl | known)
      · exact fresh (.inl sent)
      · rw [consistent.disjoint other sent] at known
        cases known
    · exact fun _ => postponeHistoryRequest_iff.mp waits.2
  · exact sendNow_consistent session consistent fresh

theorem accepted_entry
    (waits : (accepted session history type generator id requested state
      api).1.postponedRequestEntry = true) :
    state.postponedRequestEntry = true ∨ requested = true := by
  unfold accepted at waits
  split at waits
  · exact .inl waits
  · exact sendNow_entry session waits

theorem eraseSent_state :
    (eraseSent session id state api).1 = { state with sent := state.sent.erase id } := by
  unfold eraseSent
  split
  next missing =>
    have none : state.sent.contains id = false := by rw [contains, missing]; rfl
    rw [erase_of_not_contains none]
  · rfl

theorem erase_separate (separate : state.Separate) :
    State.Separate { state with sent := state.sent.erase id } := by
  constructor
  · rintro ⟨entry, member, isDelete⟩ other otherMem
    have deletes : state.Deletes := ⟨entry, (mem_erase.mp member).1, isDelete⟩
    exact separate.excludes deletes other (mem_erase.mp otherMem).1
  · intro other sent
    exact separate.disjoint other (contains_erase.mp sent).2

theorem foldl_sendPostponed_state (history : H) (entries : List (Nat × G))
    (state : State G) (api : A) :
    (entries.foldl (sendPostponed session history) (state, api)).1 =
      { state with
        sent := (entries.foldl (sendPostponed session history) (state, api)).1.sent } := by
  induction entries generalizing state api with
  | nil => rfl
  | cons head entries ih =>
    rw [List.foldl_cons, sendPostponed]
    exact ih _ _

theorem foldl_sendPostponed_contains (history : H) (entries : List (Nat × G)) :
    (entries.foldl (sendPostponed session history) (state, api)).1.sent.contains id = true ↔
      state.sent.contains id = true ∨ ∃ entry ∈ entries, entry.1 = id := by
  induction entries generalizing state api with
  | nil => simp
  | cons head entries ih =>
    rw [List.foldl_cons, sendPostponed, ih, contains_emplace]
    simp only [List.mem_cons, exists_eq_or_imp]
    tauto

theorem mem_foldl_sendPostponed (history : H) {entries : List (Nat × G)}
    {sent : Nat × SentRequest G}
    (member : sent ∈
      (entries.foldl (sendPostponed session history) (state, api)).1.sent.entries) :
    sent ∈ state.sent.entries ∨ sent.2.type = .history := by
  induction entries generalizing state api with
  | nil => exact .inl member
  | cons head entries ih =>
    rw [List.foldl_cons, sendPostponed] at member
    rcases ih member with placed | isHistory
    · rcases mem_of_mem_emplaceEntry placed with rfl | old
      · exact .inr rfl
      · exact .inl old
    · exact .inr isHistory

theorem sendAllPostponed_has :
    (sendAllPostponed session history state api).1.Has id ↔ state.Has id := by
  unfold sendAllPostponed
  split
  · have rest := foldl_sendPostponed_state session history state.postponed.entries
      { state with postponed := ∅ } api
    have postponed : state.postponed.contains id = true ↔
        ∃ entry ∈ state.postponed.entries, entry.1 = id := contains_iff
    rw [State.Has, foldl_sendPostponed_contains, rest, State.Has, contains_empty, postponed]
    simp
  · rfl

theorem sendAllPostponed_consistent (separate : state.Separate) :
    (sendAllPostponed session history state api).1.Consistent := by
  unfold sendAllPostponed
  split
  next sends =>
    rw [Bool.and_eq_true, Bool.not_eq_true', Bool.not_eq_true'] at sends
    have noDelete : ¬state.Deletes := by
      rw [← postponeHistoryRequest_iff, sends.2]
      exact Bool.false_ne_true
    have rest := foldl_sendPostponed_state session history state.postponed.entries
      { state with postponed := ∅ } api
    refine ⟨⟨?_, ?_⟩, ?_⟩
    · rintro ⟨entry, member, isDelete⟩
      rcases mem_foldl_sendPostponed session history member with old | isHistory
      · exact (noDelete ⟨entry, old, isDelete⟩).elim
      · rw [isDelete] at isHistory
        cases isHistory
    · intro id _
      rw [rest]
      rfl
    · intro some
      rw [rest] at some
      cases some
  next stays =>
    refine ⟨separate, ?_⟩
    intro some
    rw [← postponeHistoryRequest_iff]
    by_contra noDelete
    rw [Bool.not_eq_true] at noDelete
    exact stays (by rw [some, noDelete]; rfl)

/-- The entry is erased and what waited for it is sent. -/
def finished (history : H) (id : Nat) (state : State G) (api : A) : State G × A :=
  sendAllPostponed session history (eraseSent session id state api).1
    (eraseSent session id state api).2

theorem finished_consistent (separate : state.Separate) :
    (finished session history id state api).1.Consistent := by
  apply sendAllPostponed_consistent
  rw [eraseSent_state]
  exact erase_separate separate

theorem finished_has_of_ne (distinct : other ≠ id) :
    (finished session history id state api).1.Has other ↔ state.Has other := by
  rw [finished, sendAllPostponed_has, eraseSent_state, State.Has, State.Has,
    contains_erase, and_iff_right distinct]

theorem finished_has (has : (finished session history id state api).1.Has other) :
    state.Has other := by
  rw [finished, sendAllPostponed_has, eraseSent_state, State.Has, contains_erase] at has
  exact has.imp_left And.right

theorem finished_type {entry : Nat × SentRequest G}
    (member : entry ∈ (finished session history id state api).1.sent.entries)
    (isId : entry.1 = id) : entry.2.type = .history := by
  have notErased : entry ∉ (eraseSent session id state api).1.sent.entries := by
    rw [eraseSent_state, mem_erase]
    exact fun old => old.2 isId
  unfold finished sendAllPostponed at member
  split at member
  · exact (mem_foldl_sendPostponed session history member).resolve_left notErased
  · exact (notErased member).elim

theorem finished_entry :
    (finished session history id state api).1.postponedRequestEntry =
      state.postponedRequestEntry := by
  have erased : (eraseSent session id state api).1.postponedRequestEntry =
      state.postponedRequestEntry := by
    rw [eraseSent_state]
  rw [finished, sendAllPostponed]
  split
  · rw [foldl_sendPostponed_state]
    exact erased
  · exact erased

end Sending

section All

variable [LinearOrder H] (session : Api H G A) {histories next : Histories H G C A}
  {history other : H} {state : State G} {id : Nat}

theorem lookup_checkEmptyState :
    (histories.checkEmptyState history).lookup other =
      if other = history then (histories.lookup history).filter fun state => !state.isEmpty
      else histories.lookup other := by
  unfold checkEmptyState
  split
  next missing =>
    split
    next same =>
      rw [same, missing]
      rfl
    · rfl
  next state found =>
    cases empty : state.isEmpty with
    | true =>
      rw [if_pos rfl, found]
      change (histories.states.erase history).find? other = _
      rw [find?_erase]
      simp [Option.filter, empty, lookup]
    | false =>
      rw [if_neg Bool.false_ne_true, found]
      split
      next same =>
        rw [same, found]
        simp [Option.filter, empty]
      · rfl

theorem stateOf_set {states : FlatMap H (State G)} {byRequest : FlatMap Nat H}
    {autoincrement : Nat} {requests pending : FlatMap H (List C)} {api : A} :
    (Histories.mk (states.set history state) byRequest autoincrement requests pending api).stateOf
        other = if other = history then state else (states.find? other).getD {} := by
  rw [stateOf, lookup, find?_set]
  split <;> rfl

theorem stateOf_of_lookup (found : histories.lookup history = some state) :
    histories.stateOf history = state := by
  rw [stateOf, found]
  rfl

theorem same_set (same : State.Same state (histories.stateOf history)) (other : H) :
    State.Same (stateOf { histories with states := histories.states.set history state } other)
      (histories.stateOf other) := by
  rw [stateOf_set]
  split
  next isHistory =>
    rw [isHistory]
    exact same
  · exact .refl _

theorem stateOf_checkEmptyState (history other : H) :
    (histories.checkEmptyState history).stateOf other = histories.stateOf other ∨
      (histories.stateOf other).isEmpty = true ∧
        (histories.checkEmptyState history).stateOf other = {} := by
  rw [stateOf, lookup_checkEmptyState]
  split
  next same =>
    subst same
    cases found : histories.lookup other with
    | none => exact .inl (by rw [stateOf, found]; rfl)
    | some state =>
      rw [stateOf_of_lookup found]
      cases empty : state.isEmpty with
      | true => exact .inr ⟨rfl, by simp [Option.filter, empty]⟩
      | false => exact .inl (by simp [Option.filter, empty])
  · exact .inl rfl

theorem same_checkEmptyState (history other : H) :
    State.Same ((histories.checkEmptyState history).stateOf other)
      (histories.stateOf other) := by
  rcases histories.stateOf_checkEmptyState history other with same | ⟨empty, erased⟩
  · rw [same]
    exact ⟨rfl, rfl⟩
  · rw [erased]
    exact State.same_of_isEmpty empty

theorem entry_checkEmptyState (history other : H)
    (waits : ((histories.checkEmptyState history).stateOf other).postponedRequestEntry = true) :
    (histories.stateOf other).postponedRequestEntry = true := by
  rcases histories.stateOf_checkEmptyState history other with same | ⟨-, erased⟩
  · rw [← same]
    exact waits
  · rw [erased] at waits
    cases waits

theorem checkEmptyState_fields (history : H) :
    (histories.checkEmptyState history).requestAutoincrement = histories.requestAutoincrement ∧
      (histories.checkEmptyState history).api = histories.api ∧
      (histories.checkEmptyState history).dialogRequests = histories.dialogRequests ∧
      (histories.checkEmptyState history).dialogRequestsPending =
        histories.dialogRequestsPending := by
  unfold checkEmptyState
  split
  · exact ⟨rfl, rfl, rfl, rfl⟩
  · split <;> exact ⟨rfl, rfl, rfl, rfl⟩

theorem releaseEntryRequest_cases
    (released : histories.releaseEntryRequest history state = some next) :
    next = histories ∨
      ∃ callbacks, histories.dialogRequests.find? history = some callbacks ∧
        histories.dialogRequestsPending.contains history = false ∧
        next = { histories with
          states := histories.states.set history { state with postponedRequestEntry := false }
          dialogRequests := histories.dialogRequests.erase history
          dialogRequestsPending :=
            histories.dialogRequestsPending.emplace history callbacks } := by
  unfold releaseEntryRequest at released
  split at released
  · split at released
    · cases released
    next callbacks found =>
      split at released
      · cases released
      next apart =>
        cases released
        exact .inr ⟨callbacks, found, Bool.eq_false_iff.mpr apart, rfl⟩
  · cases released
    exact .inl rfl

/-- What a call of `finishSentRequest` leaves. -/
structure Finishes (histories : Histories H G C A) (history : H) (result : State G × A)
    (next : Histories H G C A) : Prop where
  same : State.Same (next.stateOf history) result.1
  others : ∀ other, other ≠ history → next.lookup other = histories.lookup other
  autoincrement : next.requestAutoincrement = histories.requestAutoincrement
  api : next.api = result.2
  dialogs : next.dialogRequests = histories.dialogRequests ∧
      next.dialogRequestsPending = histories.dialogRequestsPending ∧
      ((next.stateOf history).postponedRequestEntry = true →
        result.1.postponedRequestEntry = true) ∨
    next.dialogRequests = histories.dialogRequests.erase history ∧
      (∃ callbacks, next.dialogRequestsPending =
        histories.dialogRequestsPending.emplace history callbacks) ∧
      (next.stateOf history).postponedRequestEntry = false

theorem Finishes.stateOf_of_ne {result : State G × A}
    (finishes : Finishes histories history result next) (distinct : other ≠ history) :
    next.stateOf other = histories.stateOf other := by
  rw [stateOf, stateOf, finishes.others other distinct]

theorem finishSentRequest_finishes
    (done : histories.finishSentRequest session history state id = some next) :
    Finishes histories history (finished session history id state histories.api) next := by
  let result := finished session history id state histories.api
  let stored := { histories with
    states := histories.states.set history result.1
    historyByRequest := histories.historyByRequest.erase id
    api := result.2 }
  have unfolded : (stored.releaseEntryRequest history result.1).map
      (fun released => released.checkEmptyState history) = some next := done
  obtain ⟨middle, released, rfl⟩ := Option.map_eq_some_iff.mp unfolded
  have fields := middle.checkEmptyState_fields history
  have same := middle.same_checkEmptyState history history
  have entry := middle.entry_checkEmptyState history history
  have others : ∀ other, other ≠ history →
      (middle.checkEmptyState history).lookup other = middle.lookup other := by
    intro other distinct
    rw [lookup_checkEmptyState, if_neg distinct]
  rcases releaseEntryRequest_cases released with rfl | ⟨callbacks, -, -, rfl⟩
  · have mine : stored.stateOf history = result.1 := by
      rw [stateOf_set, if_pos rfl]
    rw [mine] at same entry
    refine ⟨same, ?_, fields.1, fields.2.1, .inl ⟨fields.2.2.1, fields.2.2.2, entry⟩⟩
    intro other distinct
    rw [others other distinct]
    exact find?_set.trans (if_neg distinct)
  · rw [stateOf_set, if_pos rfl] at same entry
    refine ⟨⟨same.sent, same.postponed⟩, ?_, fields.1, fields.2.1,
      .inr ⟨fields.2.2.1, ⟨callbacks, fields.2.2.2⟩, ?_⟩⟩
    · intro other distinct
      rw [others other distinct]
      exact (find?_set.trans (if_neg distinct)).trans (find?_set.trans (if_neg distinct))
    · rw [← Bool.not_eq_true]
      exact fun waits => Bool.false_ne_true (entry waits)

theorem sendRequest_accepts {type : RequestType} {generator : G}
    (sent : histories.sendRequest session history type generator = some (next, id)) :
    type ≠ .none ∧ id = histories.requestAutoincrement + 1 ∧
      next = { histories with
        states := histories.states.set history (accepted session history type generator id
          (histories.dialogRequests.contains history) (histories.stateOf history)
          histories.api).1
        historyByRequest := histories.historyByRequest.emplace id history
        requestAutoincrement := id
        api := (accepted session history type generator id
          (histories.dialogRequests.contains history) (histories.stateOf history)
          histories.api).2 } := by
  unfold sendRequest at sent
  split at sent
  · cases sent
  next isSome =>
    cases sent
    exact ⟨isSome, rfl, rfl⟩

end All

end TelegramDesktop.Histories
