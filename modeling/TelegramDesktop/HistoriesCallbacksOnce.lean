import TelegramDesktop.HistoriesCallbacks

/-!
# Callbacks are invoked once

A history whose entry is requested while something else is sent for it is marked, and
the mark stays until the request is taken back.
-/

namespace TelegramDesktop.Histories

open FlatMap Histories

variable {H G C A : Type*}

theorem postponeEntryRequest_iff {state : State G} :
    postponeEntryRequest state = true ↔
      ∃ entry ∈ state.sent.entries, entry.2.type ≠ .history := by
  simp [postponeEntryRequest]

section Sending

variable (session : Api H G A) {history : H} {type : RequestType} {generator : G} {id : Nat}
  {requested : Bool} {state : State G} {api : A}

theorem postponeEntryRequest_resend :
    postponeEntryRequest (resendHistoryRequests session state api).1 =
      postponeEntryRequest state := by
  rw [Bool.eq_iff_iff, postponeEntryRequest_iff, postponeEntryRequest_iff]
  constructor
  · rintro ⟨entry, member, other⟩
    exact ⟨entry, (mem_resend_sent session).mp member |>.1, other⟩
  · rintro ⟨entry, member, other⟩
    exact ⟨entry, (mem_resend_sent session).mpr ⟨member, other⟩, other⟩

theorem sendNow_entryMark (history : H) (type : RequestType) (generator : G) (id : Nat)
    (requested : Bool) (state : State G) (api : A) :
    ∃ others : Bool,
      others = postponeEntryRequest (withSent state id
        ⟨generator, (session.generate generator history id api).2, type⟩) ∧
      postponeEntryRequest
        (sendNow session history type generator id requested state api).1 = others ∧
      (sendNow session history type generator id requested state api).1.postponedRequestEntry =
        (state.postponedRequestEntry || (others && requested)) := by
  obtain ⟨added, -, -, others, mark, ⟨-, result⟩ | ⟨-, result⟩⟩ :=
    sendNow_cases session history type generator id requested state api
  · refine ⟨_, rfl, ?_, ?_⟩
    · rw [result, postponeEntryRequest_resend, others]
    · rw [result, resend_entry, mark]
  · exact ⟨_, rfl, by rw [result, others], by rw [result, mark]⟩

section

variable
  (marked : requested = true → postponeEntryRequest state = true →
    state.postponedRequestEntry = true)

include marked

theorem accepted_marked (isRequested : requested = true) (others : postponeEntryRequest
      (accepted session history type generator id requested state api).1 = true) :
    (accepted session history type generator id requested state api).1.postponedRequestEntry =
      true := by
  unfold accepted at others ⊢
  split at others
  next waits =>
    rw [if_pos waits]
    exact marked isRequested others
  next now =>
    rw [if_neg now]
    obtain ⟨_, _, same, mark⟩ :=
      sendNow_entryMark session history type generator id requested state api
    rw [mark, ← same, others, isRequested]
    simp

theorem accepted_loading (mark : (accepted session history .history generator id requested state
      api).1.postponedRequestEntry = true) : state.postponedRequestEntry = true := by
  unfold accepted at mark
  split at mark
  · exact mark
  · obtain ⟨others, sent, _, now⟩ :=
      sendNow_entryMark session history .history generator id requested state api
    rw [now, Bool.or_eq_true, Bool.and_eq_true] at mark
    rcases mark with old | ⟨someOthers, isRequested⟩
    · exact old
    · apply marked isRequested
      rw [sent, postponeEntryRequest_iff] at someOthers
      obtain ⟨entry, member, other⟩ := someOthers
      rw [postponeEntryRequest_iff]
      rcases mem_of_mem_emplaceEntry member with rfl | earlier
      · exact absurd rfl other
      · exact ⟨entry, earlier, other⟩

end

theorem finished_others
    (others : postponeEntryRequest (finished session history id state api).1 = true) :
    postponeEntryRequest state = true := by
  rw [postponeEntryRequest_iff] at others ⊢
  obtain ⟨entry, member, other⟩ := others
  have erased : ∀ entry ∈ (eraseSent session id state api).1.sent.entries,
      entry ∈ state.sent.entries := by
    intro entry member
    rw [eraseSent_state, mem_erase] at member
    exact member.1
  unfold finished sendAllPostponed at member
  split at member
  · rcases mem_foldl_sendPostponed session history member with old | loading
    · exact ⟨entry, erased entry old, other⟩
    · exact absurd loading other
  · exact ⟨entry, erased entry member, other⟩

end Sending

section Maps

variable [LinearOrder H] {session : Api H G A} {histories next : Histories H G C A}
  {history other : H} {state : State G} {id : Nat}

/-- A history whose entry is requested is marked while something else is sent for it. -/
structure EntriesMarked (histories : Histories H G C A) : Prop extends EntriesKnown histories where
  marked : ∀ history, histories.dialogRequests.contains history = true →
    postponeEntryRequest (histories.stateOf history) = true →
      (histories.stateOf history).postponedRequestEntry = true

/-- No mark is set, and no entry is requested that was not. -/
structure Quiet (before after : Histories H G C A) : Prop where
  mark : ∀ history, (after.stateOf history).postponedRequestEntry = true →
    (before.stateOf history).postponedRequestEntry = true
  requested : ∀ history, after.dialogRequests.contains history = true →
    before.dialogRequests.contains history = true

theorem Quiet.refl (histories : Histories H G C A) : Quiet histories histories :=
  ⟨fun _ => id, fun _ => id⟩

theorem Quiet.trans {first second third : Histories H G C A} (one : Quiet first second)
    (two : Quiet second third) : Quiet first third :=
  ⟨fun history mark => one.mark history (two.mark history mark),
    fun history requested => one.requested history (two.requested history requested)⟩

/-- How often a callback is stored. -/
def stored [DecidableEq C] (callback : C) (histories : Histories H G C A) : Nat :=
  FlatMap.countItems callback histories.dialogRequests +
    FlatMap.countItems callback histories.dialogRequestsPending

theorem quiet_checkEmptyState (histories : Histories H G C A) (history : H) :
    Quiet histories (histories.checkEmptyState history) :=
  ⟨fun other => histories.entry_checkEmptyState history other, fun other requested => by
    rw [(histories.checkEmptyState_fields history).2.2.1] at requested
    exact requested⟩

theorem stored_checkEmptyState [DecidableEq C] (callback : C) (histories : Histories H G C A)
    (history : H) :
    stored callback (histories.checkEmptyState history) = stored callback histories := by
  have fields := histories.checkEmptyState_fields history
  rw [stored, fields.2.2.1, fields.2.2.2, stored]

theorem EntriesMarked.set (known : EntriesMarked histories)
    (sent : state.sent = (histories.stateOf history).sent)
    (entry : state.postponedRequestEntry =
      (histories.stateOf history).postponedRequestEntry) :
    EntriesMarked { histories with states := histories.states.set history state } := by
  refine ⟨known.toEntriesKnown.set entry, ?_⟩
  intro other requested others
  rw [stateOf_set] at others ⊢
  split at others
  next same =>
    subst same
    rw [if_pos rfl, entry]
    rw [postponeEntryRequest, sent] at others
    exact known.marked other requested others
  next different =>
    rw [if_neg different]
    exact known.marked other requested others

theorem quiet_set {byRequest : FlatMap Nat H} {api : A}
    (entry : state.postponedRequestEntry =
      (histories.stateOf history).postponedRequestEntry) :
    Quiet histories { histories with
      states := histories.states.set history state
      historyByRequest := byRequest
      api := api } := by
  refine ⟨?_, fun _ => id⟩
  intro other mark
  rw [stateOf_set] at mark
  split at mark
  next same =>
    rw [same, ← entry]
    exact mark
  · exact mark

variable {type : RequestType}

section

variable {generator : G} (known : EntriesMarked histories)
  (sent : histories.sendRequest session history type generator = some (next, id))

include known sent

theorem EntriesMarked.sendRequest :
    EntriesMarked next := by
  refine ⟨known.toEntriesKnown.sendRequest session sent, ?_⟩
  obtain ⟨-, -, rfl⟩ := sendRequest_accepts session sent
  intro other requested others
  rw [stateOf_set] at others ⊢
  split at others
  next same =>
    subst same
    rw [if_pos rfl]
    exact accepted_marked session (known.marked other) requested others
  next different =>
    rw [if_neg different]
    exact known.marked other requested others

/-- What loads a history is sent quietly, and so is everything for the other histories. -/
theorem sendRequest_mark (loads : other = history → type = .history)
    (mark : (next.stateOf other).postponedRequestEntry = true) :
    (histories.stateOf other).postponedRequestEntry = true := by
  obtain ⟨-, -, rfl⟩ := sendRequest_accepts session sent
  rw [stateOf_set] at mark
  split at mark
  next same =>
    cases loads same
    subst same
    exact accepted_loading session (known.marked other) mark
  · exact mark

end

theorem sendRequest_maps {generator : G}
    (sent : histories.sendRequest session history type generator = some (next, id)) :
    next.dialogRequests = histories.dialogRequests ∧
      next.dialogRequestsPending = histories.dialogRequestsPending := by
  obtain ⟨-, -, rfl⟩ := sendRequest_accepts session sent
  exact ⟨rfl, rfl⟩

/-- No more entries are wanted than before, those that stay postponed stay marked, and every
callback is where it was. -/
structure Settles (before after : Histories H G C A) : Prop extends Quiet before after where
  others : ∀ history, postponeEntryRequest (after.stateOf history) = true →
    postponeEntryRequest (before.stateOf history) = true
  stays : ∀ history, after.dialogRequests.contains history = true →
    (before.stateOf history).postponedRequestEntry = true →
      postponeEntryRequest (after.stateOf history) = true →
        (after.stateOf history).postponedRequestEntry = true
  stored : ∀ [DecidableEq C] (callback : C), stored callback after = stored callback before

theorem Settles.refl (histories : Histories H G C A) : Settles histories histories :=
  ⟨.refl _, fun _ others => others, fun _ _ mark _ => mark, fun _ => rfl⟩

theorem Settles.trans {first second third : Histories H G C A} (one : Settles first second)
    (two : Settles second third) : Settles first third where
  toQuiet := one.toQuiet.trans two.toQuiet
  others history others := one.others history (two.others history others)
  stays history requested mark others :=
    two.stays history requested (one.stays history (two.requested history requested) mark
      (two.others history others)) others
  stored callback := (two.stored callback).trans (one.stored callback)

theorem settles_checkEmptyState (histories : Histories H G C A) (history : H) :
    Settles histories (histories.checkEmptyState history) where
  toQuiet := histories.quiet_checkEmptyState history
  others other others := by
    rcases histories.stateOf_checkEmptyState history other with same | ⟨-, erased⟩
    · rwa [same] at others
    · rw [erased] at others
      cases others
  stays other _ mark others := by
    rcases histories.stateOf_checkEmptyState history other with same | ⟨-, erased⟩
    · rwa [same]
    · rw [erased] at others
      cases others
  stored callback := stored_checkEmptyState callback histories history

theorem settles_set {byRequest : FlatMap Nat H} {api : A}
    (entry : state.postponedRequestEntry = (histories.stateOf history).postponedRequestEntry)
    (others : postponeEntryRequest state = true →
      postponeEntryRequest (histories.stateOf history) = true) :
    Settles histories { histories with
      states := histories.states.set history state
      historyByRequest := byRequest
      api := api } where
  toQuiet := quiet_set entry
  others other otherSent := by
    rw [stateOf_set] at otherSent
    split at otherSent
    next same =>
      rw [same]
      exact others otherSent
    · exact otherSent
  stays other _ mark _ := by
    rw [stateOf_set]
    split
    next same =>
      rw [entry, ← same]
      exact mark
    · exact mark
  stored _ := rfl

theorem settles_releaseEntryRequest (mine : histories.stateOf history = state)
    (released : histories.releaseEntryRequest history state = some next) :
    Settles histories next := by
  rcases releaseEntryRequest_cases released with rfl | ⟨callbacks, found, apart, rfl⟩
  · exact .refl _
  · refine ⟨⟨?_, ?_⟩, ?_, ?_, ?_⟩
    · intro other mark
      rw [stateOf_set] at mark
      split at mark
      · cases mark
      · exact mark
    · exact fun other requested => (contains_erase.mp requested).2
    · intro other others
      rw [stateOf_set] at others
      split at others
      next same =>
        rw [same, mine]
        exact others
      · exact others
    · intro other requested mark _
      rw [stateOf_set, if_neg (contains_erase.mp requested).1]
      exact mark
    · intro _ callback
      have erased := countItems_erase histories.dialogRequests history callback
      have added := countItems_emplace callback callbacks apart
      rw [found, Option.getD_some] at erased
      unfold stored
      dsimp only
      omega

theorem finishSentRequest_settles
    (entry : state.postponedRequestEntry = (histories.stateOf history).postponedRequestEntry)
    (others : postponeEntryRequest state = true →
      postponeEntryRequest (histories.stateOf history) = true)
    (done : histories.finishSentRequest session history state id = some next) :
    Settles histories next := by
  let result := finished session history id state histories.api
  let kept := { histories with
    states := histories.states.set history result.1
    historyByRequest := histories.historyByRequest.erase id
    api := result.2 }
  have unfolded : (kept.releaseEntryRequest history result.1).map
      (fun released => released.checkEmptyState history) = some next := done
  obtain ⟨middle, released, rfl⟩ := Option.map_eq_some_iff.mp unfolded
  have mine : kept.stateOf history = result.1 := by
    rw [stateOf_set, if_pos rfl]
  have sets : Settles histories kept :=
    settles_set ((finished_entry session).trans entry)
      (fun sent => others (finished_others session sent))
  exact (sets.trans (settles_releaseEntryRequest mine released)).trans
    (settles_checkEmptyState middle history)

theorem checkPostponed_settles (done : histories.checkPostponed session history id = some next) :
    Settles histories next := by
  unfold checkPostponed at done
  split at done
  · cases done
    exact .refl _
  next state found =>
    rw [← stateOf_of_lookup found] at done
    exact finishSentRequest_settles rfl (fun sent => sent) done

theorem cancelRequest_settles (done : histories.cancelRequest session id = some next) :
    Settles histories next := by
  unfold cancelRequest at done
  split at done
  · cases done
    exact .refl _
  · split at done
    · cases done
      exact .refl _
    · have erased : Settles histories { histories with
          historyByRequest := histories.historyByRequest.erase id } :=
        ⟨⟨fun _ mark => mark, fun _ requested => requested⟩, fun _ others => others,
          fun _ _ mark _ => mark, fun _ => rfl⟩
      dsimp only at done
      split at done
      · cases done
        exact erased
      next state found =>
        refine erased.trans (finishSentRequest_settles ?_ ?_ done)
        · rw [stateOf_of_lookup found]
        · rw [stateOf_of_lookup found]
          exact fun others => others

theorem EntriesMarked.settles (known : EntriesMarked histories) (settles : Settles histories next)
    (nextKnown : EntriesKnown next) : EntriesMarked next :=
  ⟨nextKnown, fun history requested others =>
    settles.stays history requested (known.marked history (settles.requested history requested)
      (settles.others history others)) others⟩

theorem contains_requestDialogEntry (histories : Histories H G C A) (history other : H)
    (callback : Option C) :
    (histories.requestDialogEntry history callback).dialogRequests.contains other = true ↔
      histories.dialogRequests.contains other = true := by
  unfold requestDialogEntry
  split
  next callbacks found =>
    rw [contains_set, or_iff_right_iff_imp]
    rintro rfl
    rw [contains, found]
    rfl
  · rfl

theorem stateOf_requestDialogEntry (histories : Histories H G C A) (history other : H)
    (callback : Option C) :
    (histories.requestDialogEntry history callback).stateOf other = histories.stateOf other := by
  unfold requestDialogEntry
  split <;> rfl

theorem EntriesMarked.requestDialogEntry (known : EntriesMarked histories)
    (callback : Option C) : EntriesMarked (histories.requestDialogEntry history callback) := by
  refine ⟨known.toEntriesKnown.requestDialogEntry callback, ?_⟩
  intro other requested others
  rw [stateOf_requestDialogEntry] at others ⊢
  exact known.marked other ((contains_requestDialogEntry _ _ _ _).mp requested) others

theorem quiet_requestDialogEntry (histories : Histories H G C A) (history : H)
    (callback : Option C) : Quiet histories (histories.requestDialogEntry history callback) :=
  ⟨fun other mark => by rwa [stateOf_requestDialogEntry] at mark,
    fun _ requested => (contains_requestDialogEntry _ _ _ _).mp requested⟩

theorem stored_requestDialogEntry [DecidableEq C] (histories : Histories H G C A) (history : H)
    (callback : Option C) (other : C) :
    stored other (histories.requestDialogEntry history callback) =
      stored other histories + callback.toList.count other := by
  unfold requestDialogEntry stored
  split
  next callbacks found =>
    have before := countItems_erase histories.dialogRequests history other
    rw [found, Option.getD_some] at before
    dsimp only
    rw [countItems_set, List.count_append, before]
    omega
  · have before := countItems_erase histories.dialogRequestsPending history other
    dsimp only
    rw [countItems_set, List.count_append, before]
    omega

variable {histories : Histories H G C A}

theorem postponeEntry_keeps (mark : (histories.stateOf other).postponedRequestEntry = true) :
    ((histories.postponeEntry history).stateOf other).postponedRequestEntry = true := by
  unfold postponeEntry
  split
  · exact mark
  · split
    · rw [stateOf_set]
      split
      · rfl
      · exact mark
    · exact mark

theorem postponeEntry_marks (others : postponeEntryRequest (histories.stateOf history) = true) :
    ((histories.postponeEntry history).stateOf history).postponedRequestEntry = true := by
  unfold postponeEntry
  split
  next missing =>
    rw [stateOf, missing] at others
    cases others
  next state found =>
    rw [stateOf_of_lookup found] at others
    rw [if_pos others, stateOf_set, if_pos rfl]

theorem foldl_postponeEntry_keeps {waiting : List H}
    (mark : (histories.stateOf other).postponedRequestEntry = true) :
    ((waiting.foldl postponeEntry histories).stateOf other).postponedRequestEntry = true := by
  induction waiting generalizing histories with
  | nil => exact mark
  | cons history waiting ih => exact ih (postponeEntry_keeps mark)

theorem foldl_postponeEntry_marks {waiting : List H}
    (member : other ∈ waiting) (others : postponeEntryRequest (histories.stateOf other) = true) :
    ((waiting.foldl postponeEntry histories).stateOf other).postponedRequestEntry = true := by
  induction waiting generalizing histories with
  | nil => cases member
  | cons history waiting ih =>
    rw [List.foldl_cons]
    rcases List.mem_cons.mp member with rfl | later
    · exact foldl_postponeEntry_keeps (postponeEntry_marks others)
    · have same := histories.same_postponeEntry history other
      refine ih later ?_
      rwa [postponeEntryRequest, same.sent]

theorem EntriesMarked.sendDialogRequests (known : EntriesMarked histories) :
    EntriesMarked histories.sendDialogRequests := by
  refine ⟨known.toEntriesKnown.sendDialogRequests, ?_⟩
  intro other requested others
  let waiting := histories.dialogRequestsPending.entries.map Prod.fst
  change (histories.dialogRequests.emplaceAll _).contains other = true at requested
  have same := (foldl_postponeEntry waiting histories).1 other
  have sent : postponeEntryRequest (histories.stateOf other) = true := by
    rw [postponeEntryRequest, ← same.sent]
    exact others
  rw [contains_emplaceAll] at requested
  rcases requested with old | ⟨entry, member, rfl⟩
  · exact foldl_postponeEntry_keeps (known.marked other old sent)
  · exact foldl_postponeEntry_marks (List.mem_map_of_mem member) sent

theorem stored_sendDialogRequests [DecidableEq C] (known : EntriesKnown histories)
    (callback : C) : stored callback histories.sendDialogRequests = stored callback histories := by
  have distinct : histories.dialogRequestsPending.entries.Pairwise
      fun first second => first.1 ≠ second.1 :=
    histories.dialogRequestsPending.increasing.imp fun below => ne_of_lt below
  have fresh : ∀ group ∈ histories.dialogRequestsPending.entries,
      histories.dialogRequests.contains group.1 = false := by
    intro group member
    rw [← Bool.not_eq_true]
    intro requested
    have pending := contains_of_mem member
    rw [known.apart group.1 requested] at pending
    cases pending
  have all := countItems_emplaceAll callback distinct fresh
  unfold stored sendDialogRequests
  rw [all, countItems_empty, Nat.add_zero, Nat.add_comm]
  rfl

theorem EntriesMarked.erasePending (known : EntriesMarked histories) (history : H) :
    EntriesMarked { histories with
      dialogRequestsPending := histories.dialogRequestsPending.erase history } := by
  refine ⟨⟨known.requested, ?_⟩, known.marked⟩
  intro other requested
  rw [← Bool.not_eq_true, contains_erase, known.apart other requested]
  simp

theorem EntriesMarked.eraseRequested (known : EntriesMarked histories)
    (unmarked : (histories.stateOf history).postponedRequestEntry = false) :
    EntriesMarked { histories with
      dialogRequests := histories.dialogRequests.erase history } := by
  refine ⟨⟨?_, ?_⟩, ?_⟩
  · intro other mark
    refine contains_erase.mpr ⟨?_, known.requested other mark⟩
    rintro rfl
    exact Bool.false_ne_true (unmarked.symm.trans mark)
  · exact fun other requested => known.apart other (contains_erase.mp requested).2
  · exact fun other requested => known.marked other (contains_erase.mp requested).2

end Maps

end TelegramDesktop.Histories
