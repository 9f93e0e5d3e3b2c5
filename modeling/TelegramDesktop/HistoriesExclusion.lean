import TelegramDesktop.HistoriesStates

/-!
# Loading and deleting exclude each other

No request that loads a history is out while messages of the history are being
deleted, and a request that waits is waiting for such a deletion.  Every id that
`sendRequest` returned stays with its history until it is finished or cancelled.
-/

namespace TelegramDesktop.Histories

open FlatMap Histories Option

section All

variable {H G C A : Type*} [LinearOrder H] (session : Api H G A)
  {histories next : Histories H G C A} {history other : H} {state : State G} {id : Nat}

/-- A run remembers the ids that were returned, and the ones that were finished
or cancelled. -/
structure Tracked (H G C A : Type*) [LinearOrder H] where
  histories : Histories H G C A
  returned : List (Nat × H) := []
  closed : List Nat := []

/-- A finish callback exists for every id that was returned, and it can be called
more than once. -/
inductive Event (H G C : Type*)
  | sendRequest (history : H) (type : RequestType) (generator : G)
  | finish (history : H) (id : Nat)
  | cancelRequest (id : Nat)
  | change (change : Change H C)

def step (state : Tracked H G C A) : Event H G C → Option (Tracked H G C A)
  | .sendRequest history type generator =>
    (state.histories.sendRequest session history type generator).map fun (histories, id) =>
      { state with histories := histories, returned := (id, history) :: state.returned }
  | .finish history id =>
    if (id, history) ∈ state.returned then
      (state.histories.checkPostponed session history id).map fun histories =>
        { state with histories := histories, closed := id :: state.closed }
    else none
  | .cancelRequest id =>
    (state.histories.cancelRequest session id).map fun histories =>
      { state with histories := histories, closed := id :: state.closed }
  | .change change => some { state with histories := state.histories.change change }

/-- Every request that was returned and is not finished is known to its history. -/
structure Tracks (histories : Histories H G C A) (returned : List (Nat × H)) (closed : List Nat) :
    Prop where
  consistent : ∀ history, (histories.stateOf history).Consistent
  known : ∀ history id, (histories.stateOf history).Has id →
    id ≤ histories.requestAutoincrement
  held : ∀ id history, (id, history) ∈ returned → id ∉ closed →
    (histories.stateOf history).Has id

namespace Tracks

variable {returned : List (Nat × H)} {closed : List Nat}

theorem start (api : A) : Tracks ({ api := api } : Histories H G C A) [] [] := by
  refine ⟨fun _ => .default, ?_, ?_⟩
  · rintro history id (sent | postponed)
    · cases sent
    · cases postponed
  · intro id history isReturned
    cases isReturned

section

variable (tracks : Tracks histories returned closed)
include tracks

theorem close (id : Nat) : Tracks histories returned (id :: closed) :=
  ⟨tracks.consistent, tracks.known, fun known other isReturned live =>
    tracks.held known other isReturned fun isClosed => live (List.mem_cons_of_mem id isClosed)⟩

theorem sendRequest {type : RequestType} {generator : G}
    (sent : histories.sendRequest session history type generator = some (next, id)) :
    Tracks next ((id, history) :: returned) closed := by
  obtain ⟨-, isNext, rfl⟩ := sendRequest_accepts session sent
  have fresh : ¬(histories.stateOf history).Has id := by
    intro has
    have old := tracks.known history id has
    omega
  refine ⟨?_, ?_, ?_⟩
  · intro other
    rw [stateOf_set]
    split
    · exact accepted_consistent session (tracks.consistent history) fresh
    · exact tracks.consistent other
  · intro other known has
    rw [stateOf_set] at has
    change known ≤ id
    split at has
    · rcases (accepted_has session).mp has with rfl | old
      · exact le_refl _
      · have below := tracks.known history known old
        omega
    · have below := tracks.known other known has
      omega
  · intro known other isReturned live
    rw [stateOf_set]
    rcases List.mem_cons.mp isReturned with isNew | old
    · cases isNew
      rw [if_pos rfl]
      exact (accepted_has session).mpr (.inl rfl)
    · have has := tracks.held known other old live
      split
      next same =>
        subst same
        exact (accepted_has session).mpr (.inr has)
      · exact has

theorem finishes (separate : state.Separate)
    (hasKnown : ∀ other, state.Has other → (histories.stateOf history).Has other)
    (hasHeld : ∀ other, other ≠ id → (histories.stateOf history).Has other → state.Has other)
    (finishes : Finishes histories history (finished session history id state histories.api) next) :
    Tracks next returned (id :: closed) := by
  refine ⟨?_, ?_, ?_⟩
  · intro other
    by_cases same : other = history
    · subst same
      exact finishes.same.consistent (finished_consistent session separate)
    · rw [finishes.stateOf_of_ne same]
      exact tracks.consistent other
  · intro other known has
    rw [finishes.autoincrement]
    by_cases same : other = history
    · subst same
      exact tracks.known other known
        (hasKnown known (finished_has session (finishes.same.has_iff.mp has)))
    · rw [finishes.stateOf_of_ne same] at has
      exact tracks.known other known has
  · intro known other isReturned live
    rw [List.mem_cons, not_or] at live
    have has := tracks.held known other isReturned live.2
    by_cases same : other = history
    · subst same
      exact finishes.same.has_iff.mpr
        ((finished_has_of_ne session live.1).mpr (hasHeld known live.1 has))
    · rw [finishes.stateOf_of_ne same]
      exact has

theorem checkPostponed (done : histories.checkPostponed session history id = some next) :
    Tracks next returned (id :: closed) := by
  unfold Histories.checkPostponed at done
  split at done
  · cases done
    exact tracks.close id
  next state found =>
    have finishes := finishSentRequest_finishes session done
    rw [← stateOf_of_lookup found] at finishes
    exact tracks.finishes session (tracks.consistent history).toSeparate
      (fun _ has => has) (fun _ _ has => has) finishes

theorem cancelRequest (done : histories.cancelRequest session id = some next) :
    Tracks next returned (id :: closed) := by
  unfold Histories.cancelRequest at done
  split at done
  · cases done
    exact tracks.close id
  · split at done
    · cases done
      exact tracks.close id
    next history _ =>
      have erased : Tracks { histories with
          historyByRequest := histories.historyByRequest.erase id } returned closed :=
        { tracks with }
      dsimp only at done
      split at done
      · cases done
        exact erased.close id
      next state found =>
        have finishes := finishSentRequest_finishes session done
        rw [← stateOf_of_lookup found] at finishes
        refine erased.finishes session
          ((tracks.consistent history).toSeparate.erase_postponed id) ?_ ?_ finishes
        · rintro other (sent | postponed)
          · exact .inl sent
          · exact .inr (contains_erase.mp postponed).2
        · rintro other distinct (sent | postponed)
          · exact .inl sent
          · exact .inr (contains_erase.mpr ⟨distinct, postponed⟩)

theorem of_same (same : ∀ history, State.Same (next.stateOf history) (histories.stateOf history))
    (autoincrement : next.requestAutoincrement = histories.requestAutoincrement) :
    Tracks next returned closed := by
  refine ⟨fun history => (same history).consistent (tracks.consistent history), ?_, ?_⟩
  · intro history known has
    rw [autoincrement]
    exact tracks.known history known ((same history).has_iff.mp has)
  · intro known history isReturned live
    exact (same history).has_iff.mpr (tracks.held known history isReturned live)

end

end Tracks

theorem same_postponeEntry (history other : H) :
    State.Same ((histories.postponeEntry history).stateOf other) (histories.stateOf other) := by
  unfold postponeEntry
  split
  · exact .refl _
  next state found =>
    split
    · apply same_set
      rw [stateOf_of_lookup found]
      exact ⟨rfl, rfl⟩
    · exact .refl _

theorem postponeEntry_fields (history : H) :
    (histories.postponeEntry history).requestAutoincrement = histories.requestAutoincrement ∧
      (histories.postponeEntry history).api = histories.api := by
  unfold postponeEntry
  split
  · exact ⟨rfl, rfl⟩
  · split <;> exact ⟨rfl, rfl⟩

theorem foldl_postponeEntry (waiting : List H) (histories : Histories H G C A) :
    (∀ other, State.Same ((waiting.foldl postponeEntry histories).stateOf other)
        (histories.stateOf other)) ∧
      (waiting.foldl postponeEntry histories).requestAutoincrement =
        histories.requestAutoincrement ∧
      (waiting.foldl postponeEntry histories).api = histories.api := by
  induction waiting generalizing histories with
  | nil => exact ⟨fun _ => .refl _, rfl, rfl⟩
  | cons history waiting ih =>
    obtain ⟨same, autoincrement, api⟩ := ih (histories.postponeEntry history)
    have fields := histories.postponeEntry_fields history
    exact ⟨fun other => (same other).trans (histories.same_postponeEntry history other),
      autoincrement.trans fields.1, api.trans fields.2⟩

theorem same_dialogEntryApplied (history other : H) :
    State.Same ((histories.dialogEntryApplied history).stateOf other)
      (histories.stateOf other) := by
  unfold dialogEntryApplied
  split
  · exact .refl _
  · split
    · exact .refl _
    next state found =>
      split
      · refine (same_checkEmptyState _ _).trans (same_set ?_ other)
        rw [stateOf_of_lookup found]
        exact ⟨rfl, rfl⟩
      · exact .refl _

theorem dialogEntryApplied_fields (history : H) :
    (histories.dialogEntryApplied history).requestAutoincrement =
        histories.requestAutoincrement ∧
      (histories.dialogEntryApplied history).api = histories.api := by
  unfold dialogEntryApplied
  split
  · exact ⟨rfl, rfl⟩
  · split
    · exact ⟨rfl, rfl⟩
    · split
      · have fields := fun histories : Histories H G C A => histories.checkEmptyState_fields history
        exact ⟨(fields _).1, (fields _).2.1⟩
      · exact ⟨rfl, rfl⟩

theorem same_change (change : Change H C) (other : H) :
    State.Same ((histories.change change).stateOf other) (histories.stateOf other) := by
  cases change with
  | requestDialogEntry history callback =>
    dsimp only [change, requestDialogEntry]
    split <;> exact .refl _
  | sendDialogRequests =>
    exact (foldl_postponeEntry (histories.dialogRequestsPending.entries.map Prod.fst)
      histories).1 other
  | dialogEntryApplied history => exact same_dialogEntryApplied history other
  | setReadMarks history willReadTill sentReadTill sentReadDone =>
    have marked : State.Same
        { histories.stateOf history with
          willReadTill := willReadTill
          sentReadTill := sentReadTill
          sentReadDone := sentReadDone } (histories.stateOf history) := ⟨rfl, rfl⟩
    exact same_set marked other

theorem change_fields (change : Change H C) :
    (histories.change change).requestAutoincrement = histories.requestAutoincrement ∧
      (histories.change change).api = histories.api := by
  cases change with
  | requestDialogEntry history callback =>
    dsimp only [change, requestDialogEntry]
    split <;> exact ⟨rfl, rfl⟩
  | sendDialogRequests =>
    exact (foldl_postponeEntry (histories.dialogRequestsPending.entries.map Prod.fst) histories).2
  | dialogEntryApplied history => exact dialogEntryApplied_fields history
  | setReadMarks history willReadTill sentReadTill sentReadDone => exact ⟨rfl, rfl⟩

variable {event : Event H G C}

/-- Every step keeps the open requests known. -/
theorem step_tracks {state last : Tracked H G C A}
    (tracks : Tracks state.histories state.returned state.closed)
    (taken : step session state event = some last) :
    Tracks last.histories last.returned last.closed := by
  cases event with
  | sendRequest history type generator =>
    obtain ⟨⟨next, id⟩, sent, rfl⟩ := map_eq_some_iff.mp taken
    exact tracks.sendRequest session sent
  | finish history id =>
    rw [step] at taken
    split at taken
    · obtain ⟨next, done, rfl⟩ := map_eq_some_iff.mp taken
      exact tracks.checkPostponed session done
    · cases taken
  | cancelRequest id =>
    obtain ⟨next, done, rfl⟩ := map_eq_some_iff.mp taken
    exact tracks.cancelRequest session done
  | change change =>
    cases taken
    exact tracks.of_same (same_change change) (change_fields change).1

/-- In every state of a run a history with a deletion has no sent request that
loads it, each request that is neither finished nor cancelled is sent or
postponed and not both, and postponed requests wait for a deletion. -/
theorem loading_excludes_deleting (api : A) (events : List (Event H G C))
    (reached : Tracked H G C A)
    (reaches : run (step session) { histories := { api := api } } events = some reached) :
    (∀ history, ¬((∃ entry ∈ (reached.histories.stateOf history).sent.entries,
        entry.2.type = .history) ∧
      ∃ entry ∈ (reached.histories.stateOf history).sent.entries,
        entry.2.type = .delete)) ∧
    (∀ id history, (id, history) ∈ reached.returned → id ∉ reached.closed →
      Xor ((reached.histories.stateOf history).sent.contains id = true)
        ((reached.histories.stateOf history).postponed.contains id = true)) ∧
    (∀ history, (reached.histories.stateOf history).postponed ≠ ∅ →
      ∃ entry ∈ (reached.histories.stateOf history).sent.entries,
        entry.2.type = .delete) := by
  have tracks : Tracks reached.histories reached.returned reached.closed :=
    run_invariant (fun _ _ _ tracks taken => step_tracks session tracks taken)
      (Tracks.start api) reaches
  refine ⟨?_, ?_, ?_⟩
  · rintro history ⟨⟨entry, member, isHistory⟩, deletes⟩
    exact (tracks.consistent history).excludes deletes entry member isHistory
  · intro id history isReturned live
    have disjoint := (tracks.consistent history).disjoint id
    rcases tracks.held id history isReturned live with sent | postponed
    · exact Or.inl ⟨sent, by rw [disjoint sent]; exact Bool.false_ne_true⟩
    · refine Or.inr ⟨postponed, fun sent => ?_⟩
      rw [disjoint sent] at postponed
      cases postponed
  · intro history some
    apply (tracks.consistent history).waits
    rw [← Bool.not_eq_true, FlatMap.isEmpty_iff]
    exact some

/-- The postponed requests of dialog entries are known, so neither assertion of
`finishSentRequest` fails. -/
structure EntriesKnown (histories : Histories H G C A) : Prop where
  requested : ∀ history, (histories.stateOf history).postponedRequestEntry = true →
    histories.dialogRequests.contains history = true
  apart : ∀ history, histories.dialogRequests.contains history = true →
    histories.dialogRequestsPending.contains history = false

theorem releaseEntryRequest_isSome (apart : ∀ history,
      histories.dialogRequests.contains history = true →
        histories.dialogRequestsPending.contains history = false)
    (requested : state.postponedRequestEntry = true →
      histories.dialogRequests.contains history = true) :
    (histories.releaseEntryRequest history state).isSome = true := by
  unfold releaseEntryRequest
  split
  next waits =>
    rw [Bool.and_eq_true] at waits
    have known := requested waits.1
    split
    next missing =>
      rw [contains, missing] at known
      cases known
    · rw [if_neg (by rw [apart history known]; exact Bool.false_ne_true)]
      rfl
  · rfl

section

variable (known : EntriesKnown histories)
include known

theorem finishSentRequest_isSome
    (entry : state.postponedRequestEntry = (histories.stateOf history).postponedRequestEntry) :
    (histories.finishSentRequest session history state id).isSome = true := by
  have released : ((mk
      (histories.states.set history (finished session history id state histories.api).1)
      (histories.historyByRequest.erase id) histories.requestAutoincrement
      histories.dialogRequests histories.dialogRequestsPending
      (finished session history id state histories.api).2).releaseEntryRequest history
        (finished session history id state histories.api).1).isSome = true := by
    refine releaseEntryRequest_isSome ?_ ?_
    · exact known.apart
    · rw [finished_entry, entry]
      exact known.requested history
  unfold finishSentRequest
  rw [isSome_map]
  exact released

theorem checkPostponed_isSome (history : H) (id : Nat) :
    (histories.checkPostponed session history id).isSome = true := by
  unfold checkPostponed
  split
  · rfl
  next state found =>
    exact finishSentRequest_isSome session known (by rw [stateOf_of_lookup found])

theorem cancelRequest_isSome (id : Nat) : (histories.cancelRequest session id).isSome = true := by
  unfold cancelRequest
  split
  · rfl
  · split
    · rfl
    · dsimp only
      split
      · rfl
      next state found =>
        refine finishSentRequest_isSome session ⟨known.requested, known.apart⟩ ?_
        rw [stateOf_of_lookup found]

theorem EntriesKnown.finishes {result : State G × A}
    (finishes : Finishes histories history result next)
    (entry : result.1.postponedRequestEntry = (histories.stateOf history).postponedRequestEntry) :
    EntriesKnown next := by
  rcases finishes.dialogs with ⟨requests, pending, keeps⟩ | ⟨requests, ⟨callbacks, pending⟩, none⟩
  · refine ⟨?_, ?_⟩
    · intro other waits
      rw [requests]
      by_cases same : other = history
      · subst same
        exact known.requested other (entry ▸ keeps waits)
      · rw [finishes.stateOf_of_ne same] at waits
        exact known.requested other waits
    · rw [requests, pending]
      exact known.apart
  · refine ⟨?_, ?_⟩
    · intro other waits
      by_cases same : other = history
      · rw [same, none] at waits
        cases waits
      · rw [finishes.stateOf_of_ne same] at waits
        rw [requests, contains_erase]
        exact ⟨same, known.requested other waits⟩
    · intro other isRequested
      rw [requests, contains_erase] at isRequested
      rw [pending, ← Bool.not_eq_true, contains_emplace, known.apart other isRequested.2]
      simp [isRequested.1]

theorem EntriesKnown.set
    (entry : state.postponedRequestEntry = (histories.stateOf history).postponedRequestEntry) :
    EntriesKnown { histories with states := histories.states.set history state } := by
  refine ⟨?_, known.apart⟩
  intro other waits
  rw [stateOf_set] at waits
  split at waits
  next same =>
    subst same
    exact known.requested other (entry ▸ waits)
  · exact known.requested other waits

theorem EntriesKnown.checkEmptyState (history : H) :
    EntriesKnown (histories.checkEmptyState history) := by
  have fields := histories.checkEmptyState_fields history
  refine ⟨?_, ?_⟩
  · intro other waits
    rw [fields.2.2.1]
    exact known.requested other (entry_checkEmptyState history other waits)
  · rw [fields.2.2.1, fields.2.2.2]
    exact known.apart

theorem EntriesKnown.sendRequest {type : RequestType} {generator : G}
    (sent : histories.sendRequest session history type generator = some (next, id)) :
    EntriesKnown next := by
  obtain ⟨-, -, rfl⟩ := sendRequest_accepts session sent
  refine ⟨?_, known.apart⟩
  intro other waits
  rw [stateOf_set] at waits
  split at waits
  next same =>
    subst same
    rcases accepted_entry session waits with old | requested
    · exact known.requested other old
    · exact requested
  · exact known.requested other waits

theorem EntriesKnown.requestDialogEntry (callback : Option C) :
    EntriesKnown (histories.requestDialogEntry history callback) := by
  unfold Histories.requestDialogEntry
  split
  next callbacks found =>
    have contains : histories.dialogRequests.contains history = true := by
      rw [contains, found]
      rfl
    have same : ∀ other, (histories.dialogRequests.set history
        (callbacks ++ callback.toList)).contains other = true ↔
          histories.dialogRequests.contains other = true := by
      intro other
      rw [contains_set, or_iff_right_iff_imp]
      rintro rfl
      exact contains
    exact ⟨fun other waits => (same other).mpr (known.requested other waits),
      fun other requested => known.apart other ((same other).mp requested)⟩
  next missing =>
    refine ⟨known.requested, ?_⟩
    intro other requested
    rw [← Bool.not_eq_true, contains_set, known.apart other requested]
    rintro (rfl | pending)
    · rw [contains, missing] at requested
      cases requested
    · cases pending

end

theorem foldl_postponeEntry_waits {waiting : List H} {histories : Histories H G C A}
    (waits : ((waiting.foldl postponeEntry histories).stateOf other).postponedRequestEntry =
      true) :
    (histories.stateOf other).postponedRequestEntry = true ∨ other ∈ waiting := by
  induction waiting generalizing histories with
  | nil => exact .inl waits
  | cons history waiting ih =>
    rcases ih waits with marked | later
    · unfold postponeEntry at marked
      split at marked
      · exact .inl marked
      · split at marked
        · rw [stateOf_set] at marked
          split at marked
          next same =>
            exact .inr (by simp [same])
          · exact .inl marked
        · exact .inl marked
    · exact .inr (List.mem_cons_of_mem history later)

section

variable (known : EntriesKnown histories)
include known

theorem EntriesKnown.sendDialogRequests : EntriesKnown histories.sendDialogRequests := by
  refine ⟨?_, fun _ _ => rfl⟩
  intro other waits
  change (histories.dialogRequests.emplaceAll _).contains other = true
  rw [contains_emplaceAll]
  rcases foldl_postponeEntry_waits waits with old | pending
  · exact .inl (known.requested other old)
  · obtain ⟨entry, member, rfl⟩ := List.mem_map.mp pending
    exact .inr ⟨entry, member, rfl⟩

theorem EntriesKnown.checkPostponed
    (done : histories.checkPostponed session history id = some next) : EntriesKnown next := by
  unfold Histories.checkPostponed at done
  split at done
  · cases done
    exact known
  next state found =>
    have finishes := finishSentRequest_finishes session done
    refine known.finishes finishes ?_
    rw [finished_entry, stateOf_of_lookup found]

theorem EntriesKnown.cancelRequest (done : histories.cancelRequest session id = some next) :
    EntriesKnown next := by
  unfold Histories.cancelRequest at done
  split at done
  · cases done
    exact known
  · split at done
    · cases done
      exact known
    · have erased : EntriesKnown { histories with
          historyByRequest := histories.historyByRequest.erase id } :=
        ⟨known.requested, known.apart⟩
      dsimp only at done
      split at done
      · cases done
        exact erased
      next state found =>
        have finishes := finishSentRequest_finishes session done
        refine erased.finishes finishes ?_
        rw [finished_entry, stateOf_of_lookup found]

end

end All

/-- A request is taken back by a deletion and sent again after it. -/
theorem loading_excludes_deleting_resent :
    let session : Api Nat Unit Nat := ⟨fun _ _ _ api => (api + 1, api + 1), fun _ api => api⟩
    let events : List (Event Nat Unit Unit) :=
      [.sendRequest 7 .history (), .sendRequest 7 .delete (), .finish 7 2]
    let reached := run (step session) { histories := { api := 0 } } events
    ∃ state, reached = some state ∧
      Xor ((state.histories.stateOf 7).sent.contains 1 = true)
        ((state.histories.stateOf 7).postponed.contains 1 = true) := by
  intro session events reached
  refine ⟨_, rfl, ?_⟩
  have all := (loading_excludes_deleting session 0 events _ rfl).2.1
  exact all 1 7 (by decide) (by decide)

end TelegramDesktop.Histories
