import TelegramDesktop.HistoriesStates

/-!
# What ties sent requests to the api

A tie is a property of a sent request and the api that calling a generator establishes,
and that cancelling another request keeps.
-/

namespace TelegramDesktop.Histories

open Histories FlatMap

variable {H G C A : Type*}

/-- A relation between the entries of the histories and the requests of the session, which
each call keeps. -/
structure Tie (session : Api H G A) where
  Sound : A → Prop
  Tied : A → H → Nat × SentRequest G → Prop
  Permitted : A → H → G → Prop
  generate_sound : ∀ generator history id api, Sound api →
    Sound (session.generate generator history id api).1
  generate_tied : ∀ generator history id api other entry, Sound api → Tied api other entry →
    Tied (session.generate generator history id api).1 other entry
  generated : ∀ type generator history id api, Sound api →
    (type = .delete → Permitted api history generator) →
    Tied (session.generate generator history id api).1 history
      (id, ⟨generator, (session.generate generator history id api).2, type⟩)
  cancel_sound : ∀ requestId api, Sound api → Sound (session.cancel requestId api)
  cancel_tied : ∀ history entry other kept api, Tied api history entry → Tied api other kept →
    (other, kept.1) ≠ (history, entry.1) → Tied (session.cancel entry.2.id api) other kept

namespace Tie

variable {session : Api H G A} (tie : Tie session)

/-- All the requests of one history are tied, and those of others as well. -/
structure Holds (history : H) (Elsewhere : H → Nat × SentRequest G → Prop) (state : State G)
    (api : A) : Prop where
  sound : tie.Sound api
  here : ∀ entry ∈ state.sent.entries, tie.Tied api history entry
  elsewhere : ∀ other entry, Elsewhere other entry → other ≠ history ∧ tie.Tied api other entry

variable {tie} {history : H} {Elsewhere : H → Nat × SentRequest G → Prop} {state : State G}
  {api : A} {id : Nat}

theorem Holds.of_sent {other : State G} (holds : tie.Holds history Elsewhere state api)
    (sent : ∀ entry ∈ other.sent.entries, entry ∈ state.sent.entries) :
    tie.Holds history Elsewhere other api :=
  ⟨holds.sound, fun entry member => holds.here entry (sent entry member), holds.elsewhere⟩

theorem Holds.generate (holds : tie.Holds history Elsewhere state api) {type : RequestType}
    {generator : G} (permitted : type = .delete → tie.Permitted api history generator)
    {added : State G}
    (sent : added.sent = state.sent.emplace id
      ⟨generator, (session.generate generator history id api).2, type⟩) :
    tie.Holds history Elsewhere added (session.generate generator history id api).1 := by
  refine ⟨tie.generate_sound generator history id api holds.sound, ?_, ?_⟩
  · intro entry member
    rw [sent] at member
    rcases mem_of_mem_emplaceEntry member with rfl | old
    · exact tie.generated type generator history id api holds.sound permitted
    · exact tie.generate_tied generator history id api history entry holds.sound
        (holds.here entry old)
  · intro other entry isElsewhere
    obtain ⟨distinct, tied⟩ := holds.elsewhere other entry isElsewhere
    exact ⟨distinct, tie.generate_tied generator history id api other entry holds.sound tied⟩

theorem foldl_cancel {Kept : H → Nat × SentRequest G → Prop}
    {cancelled : List (Nat × SentRequest G)}
    (increasing : cancelled.Pairwise fun first second => first.1 < second.1)
    (sound : tie.Sound api) (tied : ∀ entry ∈ cancelled, tie.Tied api history entry)
    (kept : ∀ other entry, Kept other entry → tie.Tied api other entry ∧
      ∀ gone ∈ cancelled, (other, entry.1) ≠ (history, gone.1)) :
    tie.Sound (cancelled.foldl (fun api entry => session.cancel entry.2.id api) api) ∧
      ∀ other entry, Kept other entry →
        tie.Tied (cancelled.foldl (fun api entry => session.cancel entry.2.id api) api)
          other entry := by
  induction cancelled generalizing api with
  | nil => exact ⟨sound, fun other entry isKept => (kept other entry isKept).1⟩
  | cons head cancelled ih =>
    rw [List.pairwise_cons] at increasing
    have headTied := tied head (by simp)
    refine ih increasing.2 (tie.cancel_sound head.2.id api sound) ?_ ?_
    · intro entry member
      refine tie.cancel_tied history head history entry api headTied
        (tied entry (by simp [member])) ?_
      intro same
      have above := increasing.1 entry member
      have sameKey : entry.1 = head.1 := (Prod.ext_iff.mp same).2
      rw [sameKey] at above
      exact lt_irrefl _ above
    · intro other entry isKept
      obtain ⟨entryTied, apart⟩ := kept other entry isKept
      exact ⟨tie.cancel_tied history head other entry api headTied entryTied (apart head (by simp)),
        fun gone member => apart gone (by simp [member])⟩

section

variable (holds : tie.Holds history Elsewhere state api)
include holds

theorem Holds.resend :
    tie.Holds history Elsewhere (resendHistoryRequests session state api).1
      (resendHistoryRequests session state api).2 := by
  let resent := state.sent.filter fun entry => entry.2.type = .history
  let Kept : H → Nat × SentRequest G → Prop := fun other entry =>
    Elsewhere other entry ∨
      other = history ∧ entry ∈ state.sent.entries ∧ entry.2.type ≠ .history
  have resentMem : ∀ entry ∈ resent.entries,
      entry ∈ state.sent.entries ∧ entry.2.type = .history := by
    intro entry member
    simpa [resent] using member
  have kept : ∀ other entry, Kept other entry → tie.Tied api other entry ∧
      ∀ gone ∈ resent.entries, (other, entry.1) ≠ (history, gone.1) := by
    rintro other entry (isElsewhere | ⟨rfl, member, notHistory⟩)
    · obtain ⟨distinct, tied⟩ := holds.elsewhere other entry isElsewhere
      exact ⟨tied, fun gone _ same => distinct (Prod.ext_iff.mp same).1⟩
    · refine ⟨holds.here entry member, ?_⟩
      intro gone goneMem same
      obtain ⟨goneSent, isHistory⟩ := resentMem gone goneMem
      rw [eq_of_key member goneSent (Prod.ext_iff.mp same).2] at notHistory
      exact notHistory isHistory
  obtain ⟨sound, tied⟩ := foldl_cancel resent.increasing holds.sound
    (fun entry member => holds.here entry (resentMem entry member).1) kept
  refine ⟨sound, ?_, ?_⟩
  · intro entry member
    obtain ⟨wasSent, notHistory⟩ := (mem_resend_sent session).mp member
    exact tied history entry (.inr ⟨rfl, wasSent, notHistory⟩)
  · intro other entry isElsewhere
    exact ⟨(holds.elsewhere other entry isElsewhere).1, tied other entry (.inl isElsewhere)⟩

theorem Holds.accepted {type : RequestType} {generator : G} (id : Nat) (requested : Bool)
    (permitted : type = .delete → tie.Permitted api history generator) :
    tie.Holds history Elsewhere
      (accepted session history type generator id requested state api).1
      (accepted session history type generator id requested state api).2 := by
  unfold Histories.accepted
  split
  · exact holds.of_sent fun _ member => member
  · obtain ⟨added, sent, -, -, -, ⟨-, result⟩ | ⟨-, result⟩⟩ :=
      sendNow_cases session history type generator id requested state api
    · rw [result]
      exact (holds.generate permitted sent).resend
    · rw [result]
      exact holds.generate permitted sent

theorem Holds.eraseSent (id : Nat) :
    tie.Holds history Elsewhere (eraseSent session id state api).1
      (eraseSent session id state api).2 := by
  rw [eraseSent_state]
  unfold Histories.eraseSent
  split
  · exact holds.of_sent fun entry member => (mem_erase.mp member).1
  next sent found =>
    have member := find?_eq_some.mp found
    have tied := holds.here (id, sent) member
    refine ⟨tie.cancel_sound sent.id api holds.sound, ?_, ?_⟩
    · intro entry entryMem
      obtain ⟨wasSent, distinct⟩ := mem_erase.mp entryMem
      exact tie.cancel_tied history (id, sent) history entry api tied
        (holds.here entry wasSent) fun same => distinct (Prod.ext_iff.mp same).2
    · intro other entry isElsewhere
      obtain ⟨distinct, entryTied⟩ := holds.elsewhere other entry isElsewhere
      exact ⟨distinct, tie.cancel_tied history (id, sent) other entry api tied entryTied
        fun same => distinct (Prod.ext_iff.mp same).1⟩

theorem Holds.foldl_sendPostponed (entries : List (Nat × G)) : tie.Holds history Elsewhere
      (entries.foldl (sendPostponed session history) (state, api)).1
      (entries.foldl (sendPostponed session history) (state, api)).2 := by
  induction entries generalizing state api with
  | nil => exact holds
  | cons head entries ih =>
    have notDelete : RequestType.history = .delete → tie.Permitted api history head.2 := by
      intro impossible
      cases impossible
    exact ih (holds.generate notDelete rfl)

theorem Holds.finished (id : Nat) :
    tie.Holds history Elsewhere (finished session history id state api).1
      (finished session history id state api).2 := by
  have erased := holds.eraseSent id
  unfold Histories.finished sendAllPostponed
  split
  · apply Holds.foldl_sendPostponed
    exact erased.of_sent fun _ member => member
  · exact erased

end

variable [LinearOrder H] {histories next : Histories H G C A} {other : H}

/-- The relation holds of every request that is sent. -/
structure TiesAll (tie : Tie session) (histories : Histories H G C A) : Prop where
  sound : tie.Sound histories.api
  tied : ∀ history, ∀ entry ∈ (histories.stateOf history).sent.entries,
    tie.Tied histories.api history entry

section

variable (ties : tie.TiesAll histories)
include ties

theorem TiesAll.holds (history : H) :
    tie.Holds history
      (fun other entry => other ≠ history ∧ entry ∈ (histories.stateOf other).sent.entries)
      (histories.stateOf history) histories.api :=
  ⟨ties.sound, ties.tied history, fun other entry isElsewhere =>
    ⟨isElsewhere.1, ties.tied other entry isElsewhere.2⟩⟩

theorem TiesAll.sendRequest {type : RequestType} {generator : G}
    (permitted : type = .delete → tie.Permitted histories.api history generator)
    (sent : histories.sendRequest session history type generator = some (next, id)) :
    tie.TiesAll next := by
  obtain ⟨-, -, rfl⟩ := sendRequest_accepts session sent
  have holds := (ties.holds history).accepted id (histories.dialogRequests.contains history)
    permitted
  refine ⟨holds.sound, ?_⟩
  intro other entry member
  rw [stateOf_set] at member
  split at member
  next same =>
    subst same
    exact holds.here entry member
  next distinct =>
    exact (holds.elsewhere other entry ⟨distinct, member⟩).2

theorem TiesAll.finishes
    (sent : ∀ entry ∈ state.sent.entries, entry ∈ (histories.stateOf history).sent.entries)
    (finishes : Finishes histories history (finished session history id state histories.api) next) :
    tie.TiesAll next := by
  have holds := ((ties.holds history).of_sent sent).finished id
  refine ⟨?_, ?_⟩
  · rw [finishes.api]
    exact holds.sound
  · intro other entry member
    rw [finishes.api]
    by_cases same : other = history
    · subst same
      rw [finishes.same.sent] at member
      exact holds.here entry member
    · rw [finishes.stateOf_of_ne same] at member
      exact (holds.elsewhere other entry ⟨same, member⟩).2

theorem TiesAll.of_same
    (same : ∀ history, State.Same (next.stateOf history) (histories.stateOf history))
    (api : next.api = histories.api) : tie.TiesAll next := by
  refine ⟨?_, ?_⟩
  · rw [api]
    exact ties.sound
  · intro history entry member
    rw [api]
    rw [(same history).sent] at member
    exact ties.tied history entry member

theorem TiesAll.checkPostponed (done : histories.checkPostponed session history id = some next) :
    tie.TiesAll next := by
  unfold Histories.checkPostponed at done
  split at done
  · cases done
    exact ties
  next state found =>
    have finishes := finishSentRequest_finishes session done
    rw [← stateOf_of_lookup found] at finishes
    exact ties.finishes (fun _ member => member) finishes

theorem TiesAll.cancelRequest (done : histories.cancelRequest session id = some next) :
    tie.TiesAll next := by
  unfold Histories.cancelRequest at done
  split at done
  · cases done
    exact ties
  · split at done
    · cases done
      exact ties
    · have erased : tie.TiesAll { histories with
          historyByRequest := histories.historyByRequest.erase id } :=
        ⟨ties.sound, ties.tied⟩
      dsimp only at done
      split at done
      · cases done
        exact erased
      next state found =>
        have finishes := finishSentRequest_finishes session done
        refine erased.finishes ?_ finishes
        rw [stateOf_of_lookup found]
        exact fun _ member => member

end

end Tie

theorem checkPostponed_type [LinearOrder H] {session : Api H G A}
    {histories next : Histories H G C A} {history : H} {id : Nat} {entry : Nat × SentRequest G}
    (done : histories.checkPostponed session history id = some next)
    (member : entry ∈ (next.stateOf history).sent.entries) (isId : entry.1 = id) :
    entry.2.type = .history := by
  unfold checkPostponed at done
  split at done
  next missing =>
    cases done
    rw [stateOf, missing] at member
    cases member
  · have finishes := finishSentRequest_finishes session done
    rw [finishes.same.sent] at member
    exact finished_type session member isId

end TelegramDesktop.Histories
