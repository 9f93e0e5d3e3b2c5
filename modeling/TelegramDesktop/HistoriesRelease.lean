import TelegramDesktop.HistoriesDeletion

/-!
# Deletions release their history

While a deletion is out, the api request that will finish it is pending.
-/

namespace TelegramDesktop.Histories

open FlatMap Histories

variable {H C : Type*}

/-- The request entry that an api request answers to. -/
def ApiRequest.target : ApiRequest H → Option (H × Nat)
  | .ordinary history id => some (history, id)
  | .channelsDeleteMessages history id _ => some (history, id)
  | .messagesDeleteMessages history id _ _ => some (history, id)
  | .channelsDeleteChannel _ => none
  | .channelsDeleteHistory history id _ _ => some (history, id)
  | .messagesDeleteChat history id _ _ _ => some (history, id)
  | .messagesAddChatUser _ _ _ _ => none
  | .messagesDeleteHistory history id _ _ _ => some (history, id)
  | .messagesDeleteHistoryByDates history id _ _ _ => some (history, id)

/-- The history whose messages the handlers may delete all again. -/
def ApiRequest.retries : ApiRequest H → Option H
  | .messagesDeleteChat history _ _ _ _ => some history
  | .messagesAddChatUser history _ _ _ => some history
  | .messagesDeleteHistory history _ _ _ _ => some history
  | _ => none

variable {kind : H → PeerKind} {rights : Rights} {history : H} {id : Nat}
  {generator : Generator}

theorem requestOf_target {target : H × Nat}
    (isTarget : (requestOf kind rights history id generator).target = some target) :
    target = (history, id) := by
  cases generator with
  | ordinary =>
    cases isTarget
    rfl
  | deleteMessages ids revoke =>
    rw [requestOf] at isTarget
    split at isTarget <;> cases isTarget <;> rfl
  | deleteAllMessages deleteTillId justClear revoke =>
    rw [requestOf] at isTarget
    split at isTarget
    · cases isTarget
    · split at isTarget
      · cases isTarget
        rfl
      · split at isTarget <;> cases isTarget <;> rfl
  | deleteMessagesByDates minDate maxDate revoke =>
    cases isTarget
    rfl

theorem requestOf_retries {retried : H}
    (retries : (requestOf kind rights history id generator).retries = some retried) :
    kind retried ≠ .channel := by
  cases generator with
  | ordinary => cases retries
  | deleteMessages ids revoke =>
    rw [requestOf] at retries
    split at retries <;> cases retries
  | deleteAllMessages deleteTillId justClear revoke =>
    rw [requestOf] at retries
    split at retries
    · cases retries
    · split at retries
      · cases retries
      next notChannel =>
        split at retries <;> cases retries <;> exact notChannel
  | deleteMessagesByDates minDate maxDate revoke => cases retries

/-- The api requests that the deletion of all messages sends finish it, unless
the channel is deleted. -/
theorem requestOf_deleteAllMessages {deleteTillId : Int} {justClear revoke : Bool}
    (keeps : ¬(justClear = false ∧ revoke = true ∧ kind history = .channel ∧
      rights.canDelete = true)) :
    (requestOf kind rights history id (.deleteAllMessages deleteTillId justClear revoke)).target =
      some (history, id) := by
  rw [requestOf, if_neg keeps]
  split
  · rfl
  · split <;> rfl

theorem requestOf_deleteMessages {ids : List Int} {revoke : Bool} :
    (requestOf kind rights history id (.deleteMessages ids revoke)).target =
      some (history, id) := by
  rw [requestOf]
  split <;> rfl

variable (kind) {api : ApiState H} {request : ApiRequest H}

/-- Ids of requests are not used again, and only deletions outside of channels are repeated. -/
structure ApiState.Sound (api : ApiState H) : Prop where
  bounded : ∀ entry ∈ api.pending.entries, entry.1 ≤ api.lastRequestId
  retries : ∀ entry ∈ api.pending.entries, ∀ retried, entry.2.retries = some retried →
    kind retried ≠ .channel

/-- The api request of a sent request finishes no other one, and that of a
deletion is pending.  The `spared` deletion may have been answered. -/
structure ApiState.Tied (spared : Option (H × Nat)) (api : ApiState H) (history : H)
    (entry : Nat × SentRequest Generator) : Prop where
  bounded : entry.2.id ≤ api.lastRequestId
  target : ∀ request, api.pending.find? entry.2.id = some request →
    ∀ target, request.target = some target → target = (history, entry.1)
  pending : entry.2.type = .delete → some (history, entry.1) ≠ spared →
    ∃ request, api.pending.find? entry.2.id = some request ∧
      request.target = some (history, entry.1)

namespace ApiState

variable {kind} {spared : Option (H × Nat)} {entry : Nat × SentRequest Generator}

theorem Sound.fresh (sound : api.Sound kind) :
    ∀ entry ∈ api.pending.entries, entry.1 ≠ api.lastRequestId + 1 := by
  intro entry member same
  have below := sound.bounded entry member
  omega

theorem Sound.send (sound : api.Sound kind)
    (retries : ∀ retried, request.retries = some retried → kind retried ≠ .channel) :
    (api.send request).1.Sound kind := by
  refine ⟨?_, ?_⟩
  · intro entry member
    change entry.1 ≤ api.lastRequestId + 1
    rcases (mem_emplace sound.fresh).mp member with rfl | old
    · exact le_refl _
    · have below := sound.bounded entry old
      omega
  · intro entry member
    rcases (mem_emplace sound.fresh).mp member with rfl | old
    · exact retries
    · exact sound.retries entry old

theorem Sound.find?_send (sound : api.Sound kind) (request : ApiRequest H) :
    (api.send request).1.pending.find? (api.send request).2 = some request :=
  find?_emplace_self sound.fresh

theorem Tied.send (tied : api.Tied spared history entry) (sound : api.Sound kind) :
    (api.send request).1.Tied spared history entry := by
  have distinct : entry.2.id ≠ api.lastRequestId + 1 := by
    have below := tied.bounded
    omega
  have same : (api.send request).1.pending.find? entry.2.id =
      api.pending.find? entry.2.id :=
    find?_emplace_of_ne sound.fresh distinct
  refine ⟨?_, ?_, ?_⟩
  · change entry.2.id ≤ api.lastRequestId + 1
    have below := tied.bounded
    omega
  · rw [same]
    exact tied.target
  · rw [same]
    exact tied.pending

theorem Sound.erase (sound : api.Sound kind) (requestId : Int) :
    Sound kind { api with pending := api.pending.erase requestId } :=
  ⟨fun entry member => sound.bounded entry (mem_erase.mp member).1,
    fun entry member => sound.retries entry (mem_erase.mp member).1⟩

/-- An api request that is gone leaves those requests tied that it would not
have finished. -/
theorem Tied.erase {sparedAfter : Option (H × Nat)} (tied : api.Tied spared history entry)
    (requestId : Int)
    (others : some (history, entry.1) ≠ sparedAfter → some (history, entry.1) ≠ spared ∧
      ∀ request, api.pending.find? requestId = some request →
        request.target ≠ some (history, entry.1)) :
    Tied sparedAfter { api with pending := api.pending.erase requestId } history entry := by
  refine ⟨tied.bounded, ?_, ?_⟩
  · intro request found
    rw [find?_erase] at found
    split at found
    · cases found
    · exact tied.target request found
  · intro isDelete notSpared
    obtain ⟨wasNotSpared, notTarget⟩ := others notSpared
    obtain ⟨request, found, target⟩ := tied.pending isDelete wasNotSpared
    refine ⟨request, ?_, target⟩
    rw [find?_erase, if_neg]
    · exact found
    · rintro rfl
      exact notTarget request found target

end ApiState

variable [LinearOrder H]

/-- Each deletion in flight is tied to its entry. -/
def deletionTie (spared : Option (H × Nat)) : Tie (deletionApi kind) where
  Sound := ApiState.Sound kind
  Tied := ApiState.Tied spared
  Permitted api history generator :=
    ∀ id, (requestOf kind (api.rights history) history id generator).target = some (history, id)
  generate_sound _ _ _ _ sound := sound.send fun _ retries => requestOf_retries retries
  generate_tied _ _ _ _ _ _ sound tied := tied.send sound
  generated type generator history id api sound permitted := by
    have found := sound.find?_send (requestOf kind (api.rights history) history id generator)
    refine ⟨le_refl _, ?_, ?_⟩
    · intro request isFound target isTarget
      have same := found.symm.trans isFound
      cases same
      exact requestOf_target isTarget
    · intro isDelete _
      exact ⟨_, found, permitted isDelete id⟩
  cancel_sound requestId api sound := sound.erase requestId
  cancel_tied history entry other kept api tied keptTied distinct := by
    refine keptTied.erase entry.2.id fun notSpared => ⟨notSpared, ?_⟩
    intro request found isTarget
    exact distinct (tied.target request found _ isTarget)

/-- The invariant of the runs.  The `spared` deletion has been answered and is
about to be finished. -/
structure Releases (spared : Option (H × Nat))
    (histories : Histories H Generator C (ApiState H)) : Prop where
  ties : (deletionTie kind spared).TiesAll histories
  tracks : ∃ returned closed, Tracks histories returned closed

namespace Releases

variable {kind} {spared : Option (H × Nat)}
  {histories next : Histories H Generator C (ApiState H)}

theorem withApi {sparedAfter : Option (H × Nat)} (releases : Releases kind spared histories)
    (sound : api.Sound kind)
    (tied : ∀ history, ∀ entry ∈ (histories.stateOf history).sent.entries,
      histories.api.Tied spared history entry → api.Tied sparedAfter history entry) :
    Releases kind sparedAfter { histories with api := api } := by
  obtain ⟨returned, closed, tracks⟩ := releases.tracks
  exact ⟨⟨sound, fun history entry member =>
      tied history entry member (releases.ties.tied history entry member)⟩,
    returned, closed, tracks.of_same (fun _ => .refl _) rfl⟩

theorem sendRequest (releases : Releases kind spared histories) {type : RequestType}
    (permitted : type = .delete → ∀ id,
      (requestOf kind (histories.api.rights history) history id generator).target =
        some (history, id))
    (sent : (histories.sendRequest (deletionApi kind) history type generator).map Prod.fst =
      some next) : Releases kind spared next := by
  obtain ⟨⟨_, id⟩, isSent, rfl⟩ := Option.map_eq_some_iff.mp sent
  obtain ⟨returned, closed, tracks⟩ := releases.tracks
  exact ⟨releases.ties.sendRequest permitted isSent, _, _, tracks.sendRequest _ isSent⟩

theorem checkPostponed (releases : Releases kind (some (history, id)) histories)
    (done : histories.checkPostponed (deletionApi kind) history id = some next) :
    Releases kind none next := by
  obtain ⟨returned, closed, tracks⟩ := releases.tracks
  have ties := releases.ties.checkPostponed done
  refine ⟨⟨ties.sound, ?_⟩, _, _, tracks.checkPostponed _ done⟩
  intro other entry member
  have tied := ties.tied other entry member
  refine ⟨tied.bounded, tied.target, ?_⟩
  intro isDelete _
  apply tied.pending isDelete
  intro isSpared
  cases isSpared
  have isHistory := checkPostponed_type done member rfl
  rw [isDelete] at isHistory
  cases isHistory

theorem cancelRequest (releases : Releases kind none histories)
    (done : histories.cancelRequest (deletionApi kind) id = some next) :
    Releases kind none next := by
  obtain ⟨returned, closed, tracks⟩ := releases.tracks
  exact ⟨releases.ties.cancelRequest done, _, _, tracks.cancelRequest _ done⟩

theorem deleteAllMessages (releases : Releases kind spared histories) {deleteTillId : Int}
    {justClear revoke : Bool} (notChannel : kind history ≠ .channel)
    (sent : histories.deleteAllMessages kind history deleteTillId justClear revoke = some next) :
    Releases kind spared next :=
  releases.sendRequest
    (fun _ _ => requestOf_deleteAllMessages fun deletes => notChannel deletes.2.2.1) sent

theorem deleteMessagesByDates (releases : Releases kind spared histories)
    {minDate maxDate : Int} {revoke : Bool}
    (sent : histories.deleteMessagesByDates kind history minDate maxDate revoke = some next) :
    Releases kind spared next :=
  releases.sendRequest (fun _ _ => rfl) sent

theorem handle (releases : Releases kind request.target histories)
    (retries : ∀ retried, request.retries = some retried → kind retried ≠ .channel)
    {response : Response} (done : histories.handle kind request response = some next) :
    Releases kind none next := by
  cases request with
  | ordinary history id => exact releases.checkPostponed done
  | channelsDeleteMessages history id ids => exact releases.checkPostponed done
  | messagesDeleteMessages history id revoke ids => exact releases.checkPostponed done
  | channelsDeleteChannel history =>
    cases done
    exact releases
  | channelsDeleteHistory history id forEveryone maxId => exact releases.checkPostponed done
  | messagesDeleteChat history id deleteTillId justClear revoke =>
    cases response with
    | done offset => exact releases.checkPostponed done
    | fail type =>
      have notChannel := retries history rfl
      rw [handle] at done
      split at done
      · have sound := releases.ties.sound
        have sent : Releases kind (some (history, id)) { histories with api :=
            (histories.api.send
              (.messagesAddChatUser history deleteTillId justClear revoke)).1 } := by
          refine releases.withApi (sound.send ?_) fun _ _ _ tied => tied.send sound
          intro retried isRetried
          cases isRetried
          exact notChannel
        exact sent.checkPostponed done
      · exact releases.checkPostponed done
  | messagesAddChatUser history deleteTillId justClear revoke =>
    cases response with
    | done offset => exact releases.deleteAllMessages (retries history rfl) done
    | fail type =>
      cases done
      exact releases
  | messagesDeleteHistory history id deleteTillId justClear revoke =>
    cases response with
    | done offset =>
      rw [handle] at done
      split at done
      · obtain ⟨again, deleted, done⟩ := Option.bind_eq_some_iff.mp done
        exact (releases.deleteAllMessages (retries history rfl) deleted).checkPostponed done
      · exact releases.checkPostponed done
    | fail type => exact releases.checkPostponed done
  | messagesDeleteHistoryByDates history id minDate maxDate revoke =>
    cases response with
    | done offset =>
      rw [handle] at done
      split at done
      · obtain ⟨again, deleted, done⟩ := Option.bind_eq_some_iff.mp done
        exact (releases.deleteMessagesByDates deleted).checkPostponed done
      · exact releases.checkPostponed done
    | fail type => exact releases.checkPostponed done

theorem answer (releases : Releases kind none histories) {requestId : Int} {response : Response}
    (done : histories.answer kind requestId response = some next) :
    Releases kind none next := by
  unfold Histories.answer at done
  split at done
  · cases done
  next request found =>
    have member := find?_eq_some.mp found
    have erased : Releases kind request.target { histories with api :=
        { histories.api with pending := histories.api.pending.erase requestId } } := by
      refine releases.withApi (releases.ties.sound.erase requestId) ?_
      intro history entry _ tied
      refine tied.erase requestId fun notTarget => ⟨by simp, ?_⟩
      intro other otherFound isTarget
      rw [found] at otherFound
      cases otherFound
      exact notTarget isTarget.symm
    exact erased.handle (releases.ties.sound.retries (requestId, request) member) done

theorem step (releases : Releases kind none histories) {event : DeletionEvent H C}
    (keeps : KeepsChannel kind histories event)
    (taken : deletionStep kind histories event = some next) : Releases kind none next := by
  cases event with
  | sendRequest history type => exact releases.sendRequest (fun _ _ => rfl) taken
  | deleteMessages history ids revoke =>
    rw [deletionStep, deleteMessages] at taken
    exact releases.sendRequest (fun _ _ => requestOf_deleteMessages) taken
  | deleteAllMessages history deleteTillId justClear revoke =>
    rw [deletionStep, Histories.deleteAllMessages] at taken
    exact releases.sendRequest (fun _ _ => requestOf_deleteAllMessages keeps) taken
  | deleteMessagesByDates history minDate maxDate revoke =>
    exact releases.deleteMessagesByDates taken
  | cancelRequest id => exact releases.cancelRequest taken
  | answer requestId response => exact releases.answer taken
  | setRights history rights =>
    cases taken
    exact releases.withApi ⟨releases.ties.sound.bounded, releases.ties.sound.retries⟩
      fun _ _ _ tied => ⟨tied.bounded, tied.target, tied.pending⟩
  | change change =>
    cases taken
    obtain ⟨returned, closed, tracks⟩ := releases.tracks
    have fields := histories.change_fields change
    exact ⟨releases.ties.of_same (same_change change) fields.2,
      returned, closed, tracks.of_same (same_change change) fields.1⟩

end Releases

/-- In every run that deletes no channel, when every api request has been
answered, no deletion is out and no request of any history is postponed. -/
theorem deletions_release (kind : H → PeerKind) (rights : H → Rights)
    (events : List (DeletionEvent H C)) (reached : Histories H Generator C (ApiState H))
    (reaches : run (deletionStep kind) { api := { rights := rights } } events = some reached)
    (keeps : RunMeets (deletionStep kind) (KeepsChannel kind) { api := { rights := rights } }
      events)
    (answered : reached.api.pending = ∅) (history : H) :
    (∀ entry ∈ (reached.stateOf history).sent.entries, entry.2.type ≠ .delete) ∧
      (reached.stateOf history).postponed = ∅ := by
  have start : Releases kind none
      ({ api := { rights := rights } } : Histories H Generator C (ApiState H)) := by
    refine ⟨⟨⟨?_, ?_⟩, ?_⟩, [], [], Tracks.start _⟩
    · intro entry member
      cases member
    · intro entry member
      cases member
    · intro other entry member
      cases member
  have releases : Releases kind none reached :=
    run_invariant_of_meets (fun _ _ _ releases keeps taken => releases.step keeps taken) start
      keeps reaches
  have noDelete : ∀ entry ∈ (reached.stateOf history).sent.entries,
      entry.2.type ≠ .delete := by
    intro entry member isDelete
    obtain ⟨request, found, -⟩ :=
      (releases.ties.tied history entry member).pending isDelete (by simp)
    rw [answered] at found
    cases found
  refine ⟨noDelete, ?_⟩
  obtain ⟨returned, closed, tracks⟩ := releases.tracks
  rw [← FlatMap.isEmpty_iff]
  by_contra some
  rw [Bool.not_eq_true] at some
  obtain ⟨entry, member, isDelete⟩ := (tracks.consistent history).waits some
  exact noDelete entry member isDelete

/-- A chat is deleted in two parts and a message of it as well, while a request waits. -/
def deletesChat : List (DeletionEvent Nat Unit) :=
  [.deleteAllMessages 7 0 false true, .sendRequest 7 .history, .deleteMessages 7 [1] true,
    .answer 1 (.done 5), .answer 2 (.done 0), .answer 3 (.done 0), .answer 4 (.done 0)]

/-- The request is postponed by the deletions, and not any more when they are answered. -/
theorem deletions_release_message :
    let start : Histories Nat Generator Unit (ApiState Nat) :=
      { api := { rights := fun _ => ⟨true, true⟩ } }
    (run (deletionStep fun _ => .user) start (deletesChat.take 3)).map
        (fun histories => (histories.stateOf 7).postponed.contains 2) = some true ∧
      ∃ reached, run (deletionStep fun _ => .user) start deletesChat = some reached ∧
        (∀ entry ∈ (reached.stateOf 7).sent.entries, entry.2.type ≠ .delete) ∧
          (reached.stateOf 7).postponed = ∅ := by
  intro start
  have keeps : RunMeets (deletionStep fun _ => .user) (KeepsChannel fun _ => .user) start
      deletesChat := by
    have always : RunKeeps (deletionStep fun _ => .user) (fun _ => True) start deletesChat :=
      runKeeps_invariant (fun _ _ _ held _ => held) deletesChat trivial
    refine always.meets fun histories event _ => ?_
    cases event with
    | deleteAllMessages history deleteTillId justClear revoke =>
      rintro ⟨-, -, isChannel, -⟩
      cases isChannel
    | _ => trivial
  have ends : (run (deletionStep fun _ => .user) start deletesChat).map
      (fun histories => histories.api.pending.isEmpty) = some true := by decide +kernel
  obtain ⟨reached, reaches, answered⟩ := Option.map_eq_some_iff.mp ends
  exact ⟨by decide +kernel, reached, reaches, deletions_release (fun _ => .user)
    (fun _ => ⟨true, true⟩) deletesChat reached reaches keeps (isEmpty_iff.mp answered) 7⟩

/-- A channel that is deleted is not released by the answer, and a request that
comes later is postponed forever. -/
theorem deleted_channel_stays :
    ∃ reached : Histories Nat Generator Unit (ApiState Nat),
      run (deletionStep fun _ => .channel) { api := { rights := fun _ => ⟨true, false⟩ } }
        [.deleteAllMessages 7 0 false true, .sendRequest 7 .history, .answer 1 (.done 0)] =
          some reached ∧
      reached.api.pending = ∅ ∧
      (∃ entry ∈ (reached.stateOf 7).sent.entries, entry.2.type = .delete) ∧
      (reached.stateOf 7).postponed.contains 2 = true := by
  refine ⟨_, rfl, ?_, ?_, rfl⟩
  · exact isEmpty_iff.mp rfl
  · exact ⟨_, List.mem_singleton_self _, rfl⟩

end TelegramDesktop.Histories
