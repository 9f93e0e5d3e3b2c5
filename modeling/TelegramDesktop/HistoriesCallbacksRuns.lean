import TelegramDesktop.HistoriesCallbacksOnce

/-!
# Runs of the dialog entries

Every call, and everything that returns, keeps the marks in order and each callback in one
place.
-/

namespace TelegramDesktop.Histories

open List Option FlatMap

variable {H G A : Type*} [LinearOrder H]

/-- What the rest of `dialogEntryApplied` relies on. -/
def Frame.Held (histories : Histories H G Nat A) : Frame H → Prop
  | .applying history _ => (histories.stateOf history).postponedRequestEntry = false
  | .invoking history _ true _ => histories.dialogRequests.contains history = false
  | _ => True

/-- The callbacks that were taken and are still to be invoked. -/
def Frame.left : Frame H → List Nat
  | .invoking _ _ _ left => left
  | _ => []

variable {after : Histories H G Nat A}

theorem Frame.Held.quiet {before : Histories H G Nat A} {frame : Frame H}
    (held : frame.Held before) (quiet : Quiet before after) : frame.Held after := by
  match frame, held with
  | .applying history _, held =>
    exact Bool.eq_false_iff.mpr fun mark => Bool.eq_false_iff.mp held (quiet.mark history mark)
  | .invoking history _ true _, held =>
    exact Bool.eq_false_iff.mpr fun requested =>
      Bool.eq_false_iff.mp held (quiet.requested history requested)
  | .invoking _ _ false _, _ => trivial
  | .answering _, _ => trivial

theorem takeSentRead_settles (histories : Histories H G Nat A) (history : H) (known : Bool) :
    Settles histories (histories.takeSentRead history known) := by
  unfold takeSentRead
  split
  · exact .refl _
  next state found =>
    split
    · refine Settles.trans (settles_set ?_ ?_) (settles_checkEmptyState _ history)
      · rw [stateOf_of_lookup found]
      · rw [stateOf_of_lookup found]
        exact fun others => others
    · exact .refl _

theorem EntriesMarked.takeSentRead {histories : Histories H G Nat A}
    (marked : EntriesMarked histories) (history : H) (known : Bool) :
    EntriesMarked (histories.takeSentRead history known) := by
  refine marked.settles (histories.takeSentRead_settles history known) ?_
  unfold Histories.takeSentRead
  split
  · exact marked.toEntriesKnown
  next state found =>
    split
    · refine EntriesKnown.checkEmptyState (marked.toEntriesKnown.set ?_) history
      rw [stateOf_of_lookup found]
    · exact marked.toEntriesKnown

namespace Dialogs

/-- How often a callback is stored, waits in what is executed, or was invoked. -/
def places (dialogs : Dialogs H G A) (callback : Nat) : Nat :=
  stored callback dialogs.histories +
    (dialogs.frames.map fun frame => frame.left.count callback).sum +
      dialogs.invoked.count callback

/-- Every callback that was passed is in one place and no other, and what the calls under
way hold is marked. -/
structure Sound (dialogs : Dialogs H G A) : Prop where
  marked : EntriesMarked dialogs.histories
  held : ∀ frame ∈ dialogs.frames, frame.Held dialogs.histories
  once : ∀ callback, dialogs.places callback = if callback < dialogs.passed then 1 else 0

namespace Sound

variable {dialogs next : Dialogs H G A} {history : H} {known : Bool}

theorem start (api : A) : Sound ({ histories := { api := api } } : Dialogs H G A) where
  marked := ⟨⟨fun _ mark => absurd mark Bool.false_ne_true, fun _ _ => rfl⟩,
    fun _ requested => absurd requested Bool.false_ne_true⟩
  held _ member := nomatch member
  once callback := by simp [places, stored]

section

variable (sound : Sound dialogs)
include sound

theorem changes (marked : EntriesMarked after) (quiet : Quiet dialogs.histories after)
    (same : ∀ callback, stored callback after = stored callback dialogs.histories) :
    Sound { dialogs with histories := after } where
  marked := marked
  held frame member := (sound.held frame member).quiet quiet
  once callback := by
    rw [← sound.once callback, places, places, same]

theorem settles (known : EntriesKnown after) (settles : Settles dialogs.histories after) :
    Sound { dialogs with histories := after } :=
  sound.changes (sound.marked.settles settles known) settles.toQuiet fun callback =>
    settles.stored callback

theorem pop {frame : Frame H} {frames : List (Frame H)} (top : dialogs.frames = frame :: frames)
    (none : frame.left = []) :
    Sound { dialogs with frames := frames } where
  marked := sound.marked
  held other member := sound.held other (top ▸ mem_cons_of_mem frame member)
  once callback := by
    rw [← sound.once callback, places, places, top]
    simp [none]

theorem push {frame : Frame H} (held : frame.Held dialogs.histories) (none : frame.left = []) :
    Sound { dialogs with frames := frame :: dialogs.frames } where
  marked := sound.marked
  held other member := by
    rcases mem_cons.mp member with rfl | below
    · exact held
    · exact sound.held other below
  once callback := by
    rw [← sound.once callback, places, places]
    simp [none]

theorem applyEntry (history : H) : Sound (dialogs.applyEntry history) := by
  unfold Dialogs.applyEntry
  split
  · exact sound
  next unmarked =>
    exact sound.push (Bool.eq_false_iff.mpr unmarked) rfl

/-- Callbacks are taken from a map, one of them is invoked and the others are left. -/
theorem invoke {pending : Bool} {callback : Nat} {left : List Nat} (marked : EntriesMarked after)
    (quiet : Quiet dialogs.histories after)
    (held : Frame.Held after (.invoking history known pending left))
    (taken : ∀ other, stored other dialogs.histories =
      (callback :: left).count other + stored other after) :
    Sound { dialogs with
      histories := after
      frames := .invoking history known pending left :: dialogs.frames
      invoked := callback :: dialogs.invoked } where
  marked := marked
  held frame member := by
    rcases mem_cons.mp member with rfl | below
    · exact held
    · exact (sound.held frame below).quiet quiet
  once other := by
    rw [← sound.once other, places, places, taken]
    simp only [Frame.left, map_cons, sum_cons, count_cons]
    omega

theorem invokeRequested
    (unmarked : (dialogs.histories.stateOf history).postponedRequestEntry = false) :
    Sound (dialogs.invokeRequested history known) := by
  have marked := sound.marked.eraseRequested unmarked
  have quiet : Quiet dialogs.histories { dialogs.histories with
      dialogRequests := dialogs.histories.dialogRequests.erase history } :=
    ⟨fun _ mark => mark, fun _ requested => (contains_erase.mp requested).2⟩
  have erased := countItems_erase dialogs.histories.dialogRequests history
  unfold Dialogs.invokeRequested
  split
  next none =>
    have same := sound.changes marked quiet fun callback => by
      have all := erased callback
      rw [none, count_nil, Nat.zero_add] at all
      rw [stored, stored, all]
    exact same.settles (marked.takeSentRead history known).toEntriesKnown
      (takeSentRead_settles _ history known)
  next callback left some =>
    refine sound.invoke marked quiet trivial fun other => ?_
    have all := erased other
    rw [some] at all
    rw [stored, stored, all]
    dsimp only
    omega

theorem invokePending
    (unmarked : (dialogs.histories.stateOf history).postponedRequestEntry = false) :
    Sound (dialogs.invokePending history known) := by
  have marked := sound.marked.erasePending history
  have quiet : Quiet dialogs.histories { dialogs.histories with
      dialogRequestsPending := dialogs.histories.dialogRequestsPending.erase history } :=
    ⟨fun _ mark => mark, fun _ requested => requested⟩
  have erased := countItems_erase dialogs.histories.dialogRequestsPending history
  unfold Dialogs.invokePending
  split
  next none =>
    have same := sound.changes marked quiet fun callback => by
      have all := erased callback
      rw [none, count_nil, Nat.zero_add] at all
      rw [stored, stored, all]
    exact same.invokeRequested unmarked
  next callback left some =>
    have pending : dialogs.histories.dialogRequestsPending.contains history = true := by
      rw [FlatMap.contains]
      cases found : dialogs.histories.dialogRequestsPending.find? history with
      | none => rw [found] at some; cases some
      | some callbacks => rfl
    -- The entry is not requested, and it cannot be while the callbacks are invoked.
    have notRequested : dialogs.histories.dialogRequests.contains history = false := by
      rw [← Bool.not_eq_true]
      intro requested
      rw [sound.marked.apart history requested] at pending
      cases pending
    refine sound.invoke marked quiet notRequested fun other => ?_
    have all := erased other
    rw [some] at all
    rw [stored, stored, all]
    dsimp only
    omega

theorem resume (resumed : dialogs.resume = some next) : Sound next := by
  unfold Dialogs.resume at resumed
  split at resumed
  · cases resumed
  next history known frames top =>
    cases resumed
    have unmarked := sound.held (.applying history known) (by simp [top])
    exact (sound.pop top rfl).invokePending unmarked
  next history known pending callback left frames top =>
    cases resumed
    have held := sound.held (.invoking history known pending (callback :: left)) (by simp [top])
    refine ⟨sound.marked, ?_, ?_⟩
    · intro frame member
      rcases mem_cons.mp member with rfl | below
      · cases pending <;> exact held
      · exact sound.held frame (by simp [top, below])
    · intro other
      rw [← sound.once other, places, places, top]
      simp only [Frame.left, map_cons, sum_cons, count_cons]
      omega
  next history known frames top =>
    cases resumed
    have notRequested : dialogs.histories.dialogRequests.contains history = false :=
      sound.held (.invoking history known true []) (by simp [top])
    have unmarked : (dialogs.histories.stateOf history).postponedRequestEntry = false := by
      rw [← Bool.not_eq_true]
      intro mark
      rw [sound.marked.requested history mark] at notRequested
      cases notRequested
    exact (sound.pop top rfl).invokeRequested unmarked
  next history known frames top =>
    cases resumed
    exact (sound.pop top rfl).settles (sound.marked.takeSentRead history known).toEntriesKnown
      (takeSentRead_settles _ history known)
  next frames top =>
    cases resumed
    exact sound.pop top rfl
  next history histories frames top =>
    cases resumed
    have below := sound.pop top rfl
    exact (below.push trivial rfl : Sound { dialogs with
      frames := .answering histories :: frames }).applyEntry history

theorem requestDialogEntry (history : H) (hasCallback : Bool) :
    Sound (dialogs.requestDialogEntry history hasCallback) where
  marked := sound.marked.requestDialogEntry _
  held frame member :=
    (sound.held frame member).quiet (quiet_requestDialogEntry dialogs.histories history _)
  once callback := by
    have before := sound.once callback
    have more := stored_requestDialogEntry dialogs.histories history
      (if hasCallback then some dialogs.passed else none) callback
    unfold places at before
    unfold places Dialogs.requestDialogEntry
    rw [more]
    cases hasCallback with
    | false => simpa using before
    | true =>
      simp only [if_true, toList_some, count_singleton, length_singleton, beq_iff_eq]
      split at before <;> split <;> split <;> omega

theorem sendDialogRequests (sent : dialogs.sendDialogRequests = some next) : Sound next := by
  unfold Dialogs.sendDialogRequests at sent
  split at sent
  · cases sent
  next rest =>
    split at sent
    · cases sent
      exact sound
    · cases sent
      refine ⟨sound.marked.sendDialogRequests, ?_, ?_⟩
      · intro frame member
        rw [not_not.mp rest] at member
        cases member
      · intro callback
        have same := stored_sendDialogRequests sound.marked.toEntriesKnown callback
        rw [← sound.once callback, places, places, same]

theorem sendRequest {session : Api H G A} {type : RequestType} {generator : G}
    {result : Histories H G Nat A × Nat}
    (loads : ¬(type ≠ .history ∧ dialogs.frames.any (Frame.applies history) = true))
    (sent : dialogs.histories.sendRequest session history type generator = some result) :
    Sound { dialogs with histories := result.1 } := by
  have maps := sendRequest_maps sent
  refine ⟨sound.marked.sendRequest sent, ?_, ?_⟩
  · intro frame member
    have held := sound.held frame member
    match frame, held with
    | .applying other known, held =>
      refine Bool.eq_false_iff.mpr fun mark => Bool.eq_false_iff.mp held ?_
      refine sendRequest_mark sound.marked sent ?_ mark
      rintro rfl
      by_contra other
      exact loads ⟨other, any_eq_true.mpr ⟨_, member, by simp [Frame.applies]⟩⟩
    | .invoking other _ true _, held =>
      change result.1.dialogRequests.contains other = false
      rw [maps.1]
      exact held
    | .invoking _ _ false _, _ => trivial
    | .answering _, _ => trivial
  · intro callback
    rw [← sound.once callback, places, places, stored, stored, maps.1, maps.2]

theorem call {session : Api H G A} {event : Call H G}
    (called : call session dialogs event = some next) : Sound next := by
  cases event with
  | requestDialogEntry history hasCallback =>
    cases called
    exact sound.requestDialogEntry history hasCallback
  | sendDialogRequests => exact sound.sendDialogRequests called
  | answer asked applied =>
    obtain ⟨_, same⟩ := ite_none_right_eq_some.mp called
    cases same
    have answers : Sound { dialogs with
        frames := .answering (applied ++ asked) :: dialogs.frames } := sound.push trivial rfl
    exact { answers with }
  | dialogEntryApplied history =>
    cases called
    exact sound.applyEntry history
  | sendRequest history type generator =>
    obtain ⟨loads, mapped⟩ := ite_none_left_eq_some.mp called
    obtain ⟨result, sent, rfl⟩ := map_eq_some_iff.mp mapped
    exact sound.sendRequest loads sent
  | finish history id =>
    obtain ⟨histories, done, rfl⟩ := map_eq_some_iff.mp called
    exact sound.settles (sound.marked.toEntriesKnown.checkPostponed session done)
      (checkPostponed_settles done)
  | cancelRequest id =>
    obtain ⟨histories, done, rfl⟩ := map_eq_some_iff.mp called
    exact sound.settles (sound.marked.toEntriesKnown.cancelRequest session done)
      (cancelRequest_settles done)
  | setReadMarks history willReadTill sentReadTill sentReadDone =>
    cases called
    exact sound.changes (sound.marked.set rfl rfl) (quiet_set rfl) fun _ => rfl
  | resume => exact sound.resume called

end

end Sound

end Dialogs

section Runs

variable (session : Api H G A)

/-- Going on with the calls under way, without any other call, leads to a state. -/
def Returns (dialogs next : Dialogs H G A) : Prop :=
  ∃ times, run (call session) dialogs (List.replicate times .resume) = some next

theorem Returns.refl (dialogs : Dialogs H G A) : Returns session dialogs dialogs := ⟨0, rfl⟩

variable {session} in
theorem Returns.resume {dialogs middle next : Dialogs H G A}
    (resumed : dialogs.resume = some middle) (returns : Returns session middle next) :
    Returns session dialogs next := by
  obtain ⟨times, ends⟩ := returns
  refine ⟨times + 1, ?_⟩
  rw [replicate_succ, run]
  exact bind_eq_some_iff.mpr ⟨middle, resumed, ends⟩

theorem returns_invoking {known pending : Bool} {history : H} {frames : List (Frame H)}
    {next : Dialogs H G A} (left : List Nat) (dialogs : Dialogs H G A)
    (top : dialogs.frames = .invoking history known pending left :: frames)
    (rest : Returns session { dialogs with
      frames := .invoking history known pending [] :: frames
      invoked := left.reverse ++ dialogs.invoked } next) : Returns session dialogs next := by
  induction left generalizing dialogs with
  | nil =>
    cases dialogs
    cases top
    exact rest
  | cons callback left ih =>
    refine Returns.resume (by rw [Dialogs.resume, top]) (ih _ rfl ?_)
    simpa using rest

/-- The callbacks that wait for the entry of a history, in the order they are invoked. -/
def Dialogs.waiting (dialogs : Dialogs H G A) (history : H) : List Nat :=
  (dialogs.histories.dialogRequestsPending.find? history).getD [] ++
    (dialogs.histories.dialogRequests.find? history).getD []

theorem returns_invokeRequested (dialogs : Dialogs H G A) (history : H) (known : Bool) :
    Returns session (dialogs.invokeRequested history known) { dialogs with
      histories := takeSentRead { dialogs.histories with
        dialogRequests := dialogs.histories.dialogRequests.erase history } history known
      invoked :=
        ((dialogs.histories.dialogRequests.find? history).getD []).reverse ++
          dialogs.invoked } := by
  unfold Dialogs.invokeRequested
  split
  next none =>
    rw [none]
    exact .refl session _
  next callback left some =>
    rw [some]
    refine returns_invoking session left _ rfl (Returns.resume rfl ?_)
    simp [Returns.refl]

theorem returns_invokePending (dialogs : Dialogs H G A) (history : H) (known : Bool) :
    Returns session (dialogs.invokePending history known) { dialogs with
      histories := takeSentRead { dialogs.histories with
        dialogRequests := dialogs.histories.dialogRequests.erase history
        dialogRequestsPending := dialogs.histories.dialogRequestsPending.erase history }
          history known
      invoked := (dialogs.waiting history).reverse ++ dialogs.invoked } := by
  unfold Dialogs.invokePending Dialogs.waiting
  rw [reverse_append, append_assoc]
  split
  next none =>
    rw [none]
    exact returns_invokeRequested session _ history known
  next callback left some =>
    rw [some]
    refine returns_invoking session left _ rfl (Returns.resume rfl ?_)
    have rest := returns_invokeRequested session { dialogs with
      histories := { dialogs.histories with
        dialogRequestsPending := dialogs.histories.dialogRequestsPending.erase history }
      invoked := left.reverse ++ callback :: dialogs.invoked } history known
    simpa using rest

theorem dialogEntryApplied_unmarked {histories : Histories H G Nat A} {history : H}
    (unmarked : ¬(histories.stateOf history).postponedRequestEntry = true) :
    histories.dialogEntryApplied history = takeSentRead { histories with
      dialogRequests := histories.dialogRequests.erase history
      dialogRequestsPending := histories.dialogRequestsPending.erase history }
        history (histories.lookup history).isSome := by
  have same : lookup { histories with
      dialogRequests := histories.dialogRequests.erase history
      dialogRequestsPending := histories.dialogRequestsPending.erase history } history =
        histories.lookup history := rfl
  unfold Histories.dialogEntryApplied takeSentRead
  rw [if_neg unmarked, same]
  cases histories.lookup history with
  | none => rfl
  | some state => simp only [isSome_some, true_and]

/-- An entry that is applied without any other call leaves what `dialogEntryApplied` of the
requests alone leaves, and invokes what waited for it: first the callbacks of the requests
that were sent, then those of the others, unless the entry is requested again. -/
theorem returns_applyEntry (dialogs : Dialogs H G A) (history : H) :
    Returns session (dialogs.applyEntry history) { dialogs with
      histories := dialogs.histories.dialogEntryApplied history
      invoked :=
        if (dialogs.histories.stateOf history).postponedRequestEntry = true then dialogs.invoked
        else (dialogs.waiting history).reverse ++ dialogs.invoked } := by
  unfold Dialogs.applyEntry
  by_cases marked : (dialogs.histories.stateOf history).postponedRequestEntry = true
  · simp only [if_pos marked, Histories.dialogEntryApplied]
    exact .refl session _
  · simp only [if_neg marked, dialogEntryApplied_unmarked marked]
    exact Returns.resume rfl (returns_invokePending session dialogs history
      (dialogs.histories.lookup history).isSome)

/-- In every state that a run reaches no history is in both maps, the entry of a marked
history is requested, no assertion of `finishSentRequest` can fail, and each callback that was
passed is in one place: it is stored in one of the maps, it is among those that a running
`dialogEntryApplied` has taken, or it was invoked. -/
theorem callbacks_invoked_once (api : A) (calls : List (Call H G)) (reached : Dialogs H G A)
    (reaches : run (call session) { histories := { api := api } } calls = some reached) :
    (∀ history, ¬(reached.histories.dialogRequests.contains history = true ∧
      reached.histories.dialogRequestsPending.contains history = true)) ∧
    (∀ history, (reached.histories.stateOf history).postponedRequestEntry = true →
      reached.histories.dialogRequests.contains history = true) ∧
    (∀ history id, (reached.histories.checkPostponed session history id).isSome = true) ∧
    (∀ id, (reached.histories.cancelRequest session id).isSome = true) ∧
    (∀ callback, callback < reached.passed →
      FlatMap.countItems callback reached.histories.dialogRequests +
        FlatMap.countItems callback reached.histories.dialogRequestsPending +
        (reached.frames.map fun frame => frame.left.count callback).sum +
        reached.invoked.count callback = 1) ∧
    (reached.frames = [] → ∀ callback, callback < reached.passed →
      FlatMap.countItems callback reached.histories.dialogRequests +
        FlatMap.countItems callback reached.histories.dialogRequestsPending +
        reached.invoked.count callback = 1) := by
  have sound : reached.Sound :=
    run_invariant (fun _ _ _ sound called => sound.call called) (Dialogs.Sound.start api) reaches
  have once : ∀ callback, callback < reached.passed → reached.places callback = 1 := by
    intro callback passed
    rw [sound.once, if_pos passed]
  refine ⟨?_, sound.marked.requested, checkPostponed_isSome session sound.marked.toEntriesKnown,
    cancelRequest_isSome session sound.marked.toEntriesKnown, once, ?_⟩
  · rintro history ⟨requested, pending⟩
    rw [sound.marked.apart history requested] at pending
    cases pending
  · intro rest callback passed
    have one := once callback passed
    rw [Dialogs.places, rest] at one
    simpa [stored] using one

end Runs

/-- An entry is requested, taken back for a deletion, requested again and applied. -/
def entryCalls : List (Call Nat Unit) :=
  [.requestDialogEntry 7 true, .sendDialogRequests, .sendRequest 7 .delete (),
    .requestDialogEntry 7 true, .answer [7] [], .resume, .resume, .finish 7 1,
    .sendDialogRequests, .answer [7] [], .resume, .resume, .resume, .resume, .resume]

/-- An api that numbers its requests as the histories do. -/
def entryApi : Api Nat Unit Unit where
  generate _ _ id api := (api, id)
  cancel _ api := api

theorem callbacks_invoked_once_deletion :
    ∃ reached, run (call entryApi) { histories := { api := () } } entryCalls = some reached ∧
      reached.invoked = [1, 0] ∧
      (reached.frames = [] → ∀ callback, callback < reached.passed →
        FlatMap.countItems callback reached.histories.dialogRequests +
          FlatMap.countItems callback reached.histories.dialogRequestsPending +
          reached.invoked.count callback = 1) := by
  have ends : (run (call entryApi) { histories := { api := () } } entryCalls).map
      Dialogs.invoked = some [1, 0] := by decide
  obtain ⟨reached, reaches, invoked⟩ := map_eq_some_iff.mp ends
  exact ⟨reached, reaches, invoked,
    (callbacks_invoked_once entryApi () entryCalls reached reaches).2.2.2.2.2⟩

end TelegramDesktop.Histories
