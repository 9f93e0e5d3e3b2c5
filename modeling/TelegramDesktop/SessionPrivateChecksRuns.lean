import TelegramDesktop.SessionPrivateChecks

/-!
# Requests that wait stay scheduled

The timer is started by a container with requests that wait for their answers, but not
by such a request alone. Where a run avoids the rest, the timer is active as long as
requests wait.
-/

namespace TelegramDesktop

open SessionPrivate List

namespace SessionPrivate

variable {msgIds : Nat → Nat} {session : SessionPrivate} {forceNewMsgId : Bool}

theorem unusedMsgId_haveSent (tries newId : Nat) (session : SessionPrivate) :
    (unusedMsgId msgIds tries newId session).2.haveSent = session.haveSent := by
  induction tries generalizing newId session with
  | zero => rfl
  | succ tries ih =>
    rw [unusedMsgId]
    split
    · exact ih _ _
    · rfl

theorem prepareToSend_haveSent_empty {request : Request} {currentLastId : Nat}
    (empty : session.haveSent = ∅) :
    (prepareToSend msgIds request currentLastId forceNewMsgId session).2.haveSent = ∅ := by
  unfold prepareToSend
  simp only
  split
  · split
    · unfold replaceMsgId
      simp only
      split
      · exact empty
      · simp only [setHeader, nextRequestSeqNumber]
        rw [unusedMsgId_haveSent, empty]
        rfl
    · exact empty
  · exact empty

variable {attempt : Attempt}

namespace Packing

variable {packing : Packing}

theorem place_haveSent_empty {request : Request} (empty : packing.session.haveSent = ∅) :
    (packing.place msgIds forceNewMsgId request).2.session.haveSent = ∅ := by
  unfold place
  simp only
  split
  · exact prepareToSend_haveSent_empty empty
  · exact prepareToSend_haveSent_empty empty

theorem placeService_haveSent_empty (forceNewMsgId needAck : Bool)
    (empty : packing.session.haveSent = ∅) :
    (packing.placeService msgIds forceNewMsgId needAck).2.session.haveSent = ∅ :=
  place_haveSent_empty empty

theorem placeFirst_haveSent_empty {bind : Bool} (empty : packing.session.haveSent = ∅) :
    (packing.placeFirst msgIds attempt bind forceNewMsgId).session.haveSent = ∅ := by
  apply placeFirst_keeps fun packing => packing.session.haveSent = ∅
  · exact fun _ before => placeService_haveSent_empty forceNewMsgId true before
  · split
    · exact place_haveSent_empty empty
    · exact empty

theorem placeLast_haveSent_empty (msgIds : Nat → Nat) (attempt : Attempt)
    (forceNewMsgId : Bool) (empty : packing.session.haveSent = ∅) :
    (packing.placeLast msgIds attempt forceNewMsgId).session.haveSent = ∅ := by
  apply placeLast_keeps fun packing => packing.session.haveSent = ∅
  · exact fun _ _ before => placeService_haveSent_empty forceNewMsgId true before
  · exact fun _ before => placeService_haveSent_empty forceNewMsgId false before
  · exact empty

theorem placeRequest_haveSent_empty {entry : Int × Request}
    (notAwaiting : CheckedSession.IsAwaiting entry.2 = false)
    (empty : packing.session.haveSent = ∅) :
    (packing.placeRequest msgIds forceNewMsgId entry).session.haveSent = ∅ := by
  have placed : (packing.place msgIds forceNewMsgId entry.2).2.session.haveSent = ∅ :=
    place_haveSent_empty empty
  unfold placeRequest
  simp only
  split
  · exact placed
  next identified =>
    split
    next needAck =>
      simp [CheckedSession.IsAwaiting, identified, needAck] at notAwaiting
    · exact placed

end Packing

theorem sendContainer_haveSent_empty {bind : Bool}
    (notAwaiting : ∀ entry ∈ (session.takeToSend attempt.sendAll).1,
      CheckedSession.IsAwaiting entry.2 = false)
    (empty : session.haveSent = ∅) :
    (sendContainer msgIds attempt bind forceNewMsgId session).2.haveSent = ∅ := by
  have taken : (session.takeToSend attempt.sendAll).2.haveSent = ∅ := by
    unfold takeToSend
    split
    · exact empty
    · exact empty
  have first : ((Packing.start msgIds (session.takeToSend attempt.sendAll).2).placeFirst msgIds
      attempt bind forceNewMsgId).session.haveSent = ∅ := Packing.placeFirst_haveSent_empty taken
  have requests := foldlRecOn (motive := fun packing : Packing => packing.session.haveSent = ∅)
    (session.takeToSend attempt.sendAll).1 (Packing.placeRequest msgIds forceNewMsgId) first
    fun packing beforeEmpty entry member =>
      Packing.placeRequest_haveSent_empty (notAwaiting entry member) beforeEmpty
  have last := Packing.placeLast_haveSent_empty msgIds attempt forceNewMsgId requests
  unfold sendContainer Packing.close
  simp only
  exact prepareToSend_haveSent_empty last

theorem sendSingleService_haveSent_empty {bind : Bool} (empty : session.haveSent = ∅) :
    (sendSingleService msgIds attempt bind forceNewMsgId session).2.haveSent = ∅ := by
  unfold sendSingleService
  simp only
  rw [(Remembers.alone _ _ attempt bind).same.haveSent]
  apply prepareToSend_haveSent_empty
  split
  · exact empty
  · exact empty

theorem sendSingleRequest_haveSent {request : Request} (empty : session.haveSent = ∅) :
    (sendSingleRequest msgIds request forceNewMsgId session).2.haveSent = ∅ ↔
      CheckedSession.IsAwaiting request = false := by
  have prepared : ∀ currentLastId before, before.haveSent = ∅ →
      (prepareToSend msgIds request currentLastId forceNewMsgId before).2.haveSent = ∅ :=
    fun _ _ => prepareToSend_haveSent_empty
  unfold sendSingleRequest CheckedSession.IsAwaiting
  simp only
  split
  next service =>
    simp only [service, ne_eq, not_true_eq_false, decide_false, Bool.false_and, iff_true]
    exact prepared _ _ empty
  next identified =>
    split
    next needAck =>
      simp [identified, needAck, FlatMap.emplace_ne_empty]
    next noAck =>
      simp only [noAck, Bool.and_false, iff_true]
      exact prepared _ _ empty

theorem getReady_haveSent (attempt : Attempt) (bind : Bool) :
    (session.getReady msgIds attempt bind).haveSent = session.haveSent := by
  unfold getReady
  cases attempt.sendAll <;> cases bind <;> rfl

theorem getReady_header {bind : Bool} {requestId : Int} (identified : requestId ≠ 0) :
    (session.getReady msgIds attempt bind).header requestId = session.header requestId := by
  unfold getReady
  cases attempt.sendAll <;> cases bind <;>
    simp [prepareBind, setHeader, mtprotoMsgId, nextRequestSeqNumber, identified]

theorem takeToSend_waiting (attempt : Attempt) :
    (session.takeToSend attempt.sendAll).1 = CheckedSession.waiting attempt session := by
  unfold takeToSend CheckedSession.waiting
  split <;> rfl

theorem waiting_getReady (msgIds : Nat → Nat) (session : SessionPrivate) (attempt : Attempt)
    (bind : Bool) :
    CheckedSession.waiting attempt (session.getReady msgIds attempt bind) =
      CheckedSession.waiting attempt session := by
  unfold CheckedSession.waiting
  rw [getReady_toSend]

theorem waiting_of_notConnected {found : Attempt} (notConnected : found.connected = false) :
    CheckedSession.waiting found.whenConnected session = [] := by
  simp [CheckedSession.waiting, Attempt.sendAll, Attempt.whenConnected, notConnected]

theorem sendContainer_waits (msgIds : Nat → Nat) (found : Attempt) (bind forceNewMsgId : Bool)
    (empty : session.haveSent = ∅) :
    (sendContainer msgIds found.whenConnected bind forceNewMsgId
      (session.getReady msgIds found.whenConnected bind)).2.haveSent = ∅ ∨
    ∃ entry ∈ CheckedSession.waiting found.whenConnected session,
      CheckedSession.IsAwaiting entry.2 = true := by
  by_cases awaiting : ∃ entry ∈ CheckedSession.waiting found.whenConnected session,
      CheckedSession.IsAwaiting entry.2 = true
  · exact .inr awaiting
  · left
    apply sendContainer_haveSent_empty
    · intro entry member
      rw [takeToSend_waiting, waiting_getReady] at member
      rw [← Bool.not_eq_true]
      exact fun isAwaiting => awaiting ⟨entry, member, isAwaiting⟩
    · rw [getReady_haveSent, empty]

/-- The outcome of an attempt, told by what it sends and by what waits after it. -/
def Waits (alone : Bool) (waiting : List (Int × Request)) (sent : Option Packet × SessionPrivate) :
    Prop :=
  (alone = true ∧ sent.2.haveSent ≠ ∅ ∧ ∃ message, sent.1 = some (.single message)) ∨
  alone = false ∧ (sent.2.haveSent = ∅ ∨
    (∃ entry ∈ waiting, CheckedSession.IsAwaiting entry.2 = true) ∧
      ∃ outer inner, sent.1 = some (.container outer inner))

theorem Waits.of_container {waiting : List (Int × Request)} {sent : Packet × SessionPrivate}
    (isContainer : ∃ outer inner, sent.1 = .container outer inner)
    (waits : sent.2.haveSent = ∅ ∨
      ∃ entry ∈ waiting, CheckedSession.IsAwaiting entry.2 = true) :
    Waits false waiting (some sent.1, sent.2) := by
  obtain ⟨outer, inner, eq⟩ := isContainer
  exact .inr ⟨rfl, waits.imp_right fun awaiting =>
    ⟨awaiting, outer, inner, congrArg Option.some eq⟩⟩

theorem sendContainer_packet (msgIds : Nat → Nat) (session : SessionPrivate) (attempt : Attempt)
    (bind forceNewMsgId : Bool) :
    ∃ outer inner,
      (sendContainer msgIds attempt bind forceNewMsgId session).1 = .container outer inner :=
  ⟨_, _, rfl⟩

theorem sendOnly_waits {entry : Int × Request} {bind forced : Bool}
    (empty : session.haveSent = ∅)
    (sends : (sendContainer msgIds attempt bind forceNewMsgId session).2.haveSent = ∅ ∨
      ∃ other ∈ [entry], CheckedSession.IsAwaiting other.2 = true)
    (same : entry.2.requestId ≠ 0 →
      (session.header entry.2.requestId).forceSendInContainer = forced) :
    Waits (CheckedSession.IsAwaiting entry.2 && !forced) [entry]
      (let sent :=
        if (session.header entry.2.requestId).forceSendInContainer then
          sendContainer msgIds attempt bind forceNewMsgId session
        else sendSingleRequest msgIds entry.2 forceNewMsgId session
      (some sent.1, sent.2)) := by
  cases awaiting : CheckedSession.IsAwaiting entry.2 with
  | false =>
    rw [Bool.false_and]
    simp only
    split
    · exact Waits.of_container (sendContainer_packet _ _ _ _ _) sends
    · exact .inr ⟨rfl, .inl ((sendSingleRequest_haveSent empty).mpr awaiting)⟩
  | true =>
    have identified : entry.2.requestId ≠ 0 := by
      simp only [CheckedSession.IsAwaiting, Bool.and_eq_true, decide_eq_true_eq] at awaiting
      exact awaiting.1
    rw [same identified]
    cases forced with
    | true => exact Waits.of_container (sendContainer_packet _ _ _ _ _) sends
    | false =>
      refine .inl ⟨rfl, ?_, _, rfl⟩
      intro nothing
      have notAwaiting := (sendSingleRequest_haveSent empty).mp nothing
      simp [awaiting] at notAwaiting

/-- Requests come to wait for their answers in a container, or one of them alone. -/
theorem tryToSend_waits (msgIds : Nat → Nat) (found : Attempt) (empty : session.haveSent = ∅) :
    Waits (CheckedSession.sendsAlone found session)
      (CheckedSession.waiting found.whenConnected session)
      (session.tryToSend msgIds found) := by
  unfold tryToSend CheckedSession.sendsAlone
  split
  next idle =>
    have notConnected : found.connected = false := by
      cases connected : found.connected <;> simp [connected] at idle ⊢
    simp only [waiting_of_notConnected notConnected]
    exact .inr ⟨rfl, .inl empty⟩
  · simp only
    generalize (session.bindMsgId == 0 && found.whenConnected.keyCreator &&
      found.whenConnected.readyToBind) = bind
    generalize (found.whenConnected.sendAll && !session.sessionMarkedAsStarted) = forceNewMsgId
    have sends := sendContainer_waits msgIds found bind forceNewMsgId empty
    have ready : (session.getReady msgIds found.whenConnected bind).haveSent = ∅ := by
      rw [getReady_haveSent, empty]
    have header : ∀ requestId ≠ 0,
        (session.getReady msgIds found.whenConnected bind).header requestId =
          session.header requestId := fun _ identified => getReady_header identified
    have same : (if found.whenConnected.sendAll then session.toSend.entries else []) =
      CheckedSession.waiting found.whenConnected session := rfl
    rw [getReady_toSend, same]
    generalize session.getReady msgIds found.whenConnected bind = later at sends ready header ⊢
    generalize CheckedSession.waiting found.whenConnected session = waiting at sends ⊢
    have container := Waits.of_container
      (sendContainer_packet msgIds later found.whenConnected bind forceNewMsgId) sends
    generalize found.whenConnected.count bind = count
    cases count with
    | zero =>
      cases waiting with
      | nil => exact .inr ⟨rfl, .inl ready⟩
      | cons entry rest =>
        cases rest with
        | nil =>
          exact sendOnly_waits ready sends fun identified =>
            congrArg RequestHeader.forceSendInContainer (header _ identified)
        | cons second rest => exact container
    | succ count =>
      have notAlone : ∀ entry : Int × Request, (count + 1 == 0 &&
          CheckedSession.IsAwaiting entry.2 &&
            !(session.header entry.2.requestId).forceSendInContainer) = false := by simp
      cases waiting with
      | nil =>
        cases count with
        | zero => exact .inr ⟨rfl, .inl (sendSingleService_haveSent_empty ready)⟩
        | succ count => exact container
      | cons entry rest =>
        cases rest with
        | nil =>
          simp only [notAlone]
          exact container
        | cons second rest =>
          simp only
          exact container

theorem handle_haveSent_empty {hasCallback : Int → Bool} {event : Traffic}
    (notAttempt : ∀ found, event ≠ .tryToSend found) (empty : session.haveSent = ∅) :
    (session.handle msgIds hasCallback event).haveSent = ∅ := by
  have quiet : event.quiet = true → (session.handle msgIds hasCallback event).haveSent = ∅ := by
    intro isQuiet
    apply FlatMap.ext_entries
    refine eq_nil_iff_forall_not_mem.mpr fun entry member => ?_
    have before := (Quiet.handle session hasCallback isQuiet).haveSent entry member
    rw [empty] at before
    cases before
  cases event with
  | sendPrepared request => exact empty
  | changeSessionId => exact empty
  | tryToSend found => exact (notAttempt found rfl).elim
  | _ => exact quiet rfl

end SessionPrivate

namespace CheckedSession

variable {msgIds : Nat → Nat} {checked : CheckedSession}

/-- The same requests are watched since the same times. -/
structure Checks (checked later : CheckedSession) : Prop where
  session : later.session = checked.session
  now : later.now = checked.now
  checkSentRequestsTimer : later.checkSentRequestsTimer = checked.checkSentRequestsTimer
  sentSince : ∀ request, later.SentSince request ↔ checked.SentSince request

theorem Checks.trans {middle later : CheckedSession} (first : Checks checked middle)
    (second : Checks middle later) : Checks checked later where
  session := second.session.trans first.session
  now := second.now.trans first.now
  checkSentRequestsTimer := second.checkSentRequestsTimer.trans first.checkSentRequestsTimer
  sentSince request := (second.sentSince request).trans (first.sentSince request)

theorem checkSentRequest_checks (checked : CheckedSession) (nextTimeout : Int)
    (entry : Nat × Request) :
    Checks checked (checkSentRequest (checked, nextTimeout) entry).1 := by
  unfold checkSentRequest
  simp only
  split
  next old =>
    refine ⟨rfl, rfl, rfl, fun request => ?_⟩
    simp only [SentSince, touch, checkTime, decide_eq_true_eq]
    split
    next same =>
      rw [same]
      simp only [lt_irrefl, and_false, false_iff, not_and]
      exact fun recent => (recent.not_ge old).elim
    · exact Iff.rfl
  · exact ⟨rfl, rfl, rfl, fun _ => Iff.rfl⟩

theorem checkSentRequest_nextTimeout (checked : CheckedSession) (nextTimeout : Int)
    (entry : Nat × Request) :
    (checkSentRequest (checked, nextTimeout) entry).2 < kCheckSentRequestTimeout ↔
      nextTimeout < kCheckSentRequestTimeout ∨ checked.SentSince entry.2 := by
  unfold checkSentRequest SentSince checkTime
  simp only
  split
  next old =>
    simp [old.not_gt]
  · omega

theorem foldl_checkSentRequest (checked : CheckedSession) (entries : List (Nat × Request))
    (nextTimeout : Int) :
    Checks checked (entries.foldl checkSentRequest (checked, nextTimeout)).1 ∧
      ((entries.foldl checkSentRequest (checked, nextTimeout)).2 < kCheckSentRequestTimeout ↔
        nextTimeout < kCheckSentRequestTimeout ∨
          ∃ entry ∈ entries, checked.SentSince entry.2) := by
  induction entries generalizing checked nextTimeout with
  | nil => exact ⟨⟨rfl, rfl, rfl, fun _ => Iff.rfl⟩, by simp⟩
  | cons entry entries ih =>
    have first := checkSentRequest_checks checked nextTimeout entry
    have sooner := checkSentRequest_nextTimeout checked nextTimeout entry
    rw [foldl_cons]
    generalize checkSentRequest (checked, nextTimeout) entry = round at first sooner ⊢
    obtain ⟨rest, least⟩ := ih round.1 round.2
    refine ⟨first.trans rest, least.trans ?_⟩
    rw [sooner]
    simp only [first.sentSince, mem_cons, exists_eq_or_imp, or_assoc]

/-- The timer of the checks does not wait longer than one timeout. -/
def Soon (checked : CheckedSession) : Prop :=
  ∀ deadline, checked.checkSentRequestsTimer = some deadline →
    deadline ≤ checked.now + kCheckSentRequestTimeout

theorem Soon.scheduled_of_timer (soon : checked.Soon) :
    checked.Scheduled ↔
      (checked.checkSentRequestsTimer = none → checked.session.haveSent = ∅) := by
  unfold Scheduled
  cases active : checked.checkSentRequestsTimer with
  | none => simp
  | some deadline => simp [soon deadline active]

theorem soon_callOnce {timeout : Int} (short : timeout ≤ kCheckSentRequestTimeout) :
    (checked.callOnce timeout).Soon := by
  rintro deadline ⟨⟩
  simpa [callOnce] using short

/-- The timer that has fired is started again for the bind request that is late, and
for the requests that were sent since. -/
theorem checkSentRequests_timer (checked : CheckedSession)
    (inactive : checked.checkSentRequestsTimer = none) :
    checked.checkSentRequests.Soon ∧
      (checked.checkSentRequests.checkSentRequestsTimer = none ↔ ¬ (checked.BindIsLate ∨
        ∃ entry ∈ checked.session.haveSent.entries, checked.SentSince entry.2)) := by
  unfold checkSentRequests
  split
  next late =>
    exact ⟨soon_callOnce le_rfl, by simp [callOnce, late]⟩
  next notLate =>
    obtain ⟨checks, least⟩ := foldl_checkSentRequest checked
      checked.session.haveSent.entries kCheckSentRequestTimeout
    rw [lt_self_iff_false, false_or] at least
    rw [or_iff_right notLate, ← least]
    simp only
    split
    next sooner =>
      exact ⟨soon_callOnce sooner.le, by simp [callOnce, sooner]⟩
    next later =>
      have still := checks.checkSentRequestsTimer.trans inactive
      refine ⟨fun deadline active => ?_, by simp [still, later]⟩
      rw [still] at active
      cases active

theorem checkSentRequests_haveSent (checked : CheckedSession) :
    checked.checkSentRequests.session.haveSent = checked.session.haveSent := by
  obtain ⟨checks, -⟩ := foldl_checkSentRequest checked
    checked.session.haveSent.entries kCheckSentRequestTimeout
  unfold checkSentRequests
  split
  · rfl
  · simp only
    split
    · exact congrArg haveSent checks.session
    · exact congrArg haveSent checks.session

theorem tryToSend_session (checked : CheckedSession) (found : Attempt) :
    (checked.tryToSend msgIds found).session =
      (checked.session.tryToSend msgIds (checked.findState found)).2 := by
  unfold tryToSend
  simp only
  split
  · split <;> rfl
  · rfl

theorem tryToSend_soon (msgIds : Nat → Nat) (found : Attempt) (soon : checked.Soon) :
    (checked.tryToSend msgIds found).Soon ∧
      (checked.checkSentRequestsTimer ≠ none →
        (checked.tryToSend msgIds found).checkSentRequestsTimer ≠ none) := by
  unfold tryToSend
  simp only
  split
  · split
    · exact ⟨soon_callOnce le_rfl, fun _ => by simp [callOnce]⟩
    · exact ⟨soon, fun active => active⟩
  · exact ⟨soon, fun active => active⟩

theorem tryToSend_starts (msgIds : Nat → Nat) (found : Attempt)
    (inactive : checked.checkSentRequestsTimer = none) (empty : checked.session.haveSent = ∅) :
    ((checked.tryToSend msgIds found).checkSentRequestsTimer = none →
      (checked.tryToSend msgIds found).session.haveSent = ∅) ↔
    sendsAlone (checked.findState found) checked.session = false := by
  rw [tryToSend_session]
  rcases tryToSend_waits msgIds (checked.findState found) empty with
    ⟨alone, waits, message, single⟩ | ⟨notAlone, nothing | ⟨awaiting, outer, inner, container⟩⟩
  · have still : (checked.tryToSend msgIds found).checkSentRequestsTimer = none := by
      unfold tryToSend
      simp only [single]
      exact inactive
    simp [still, waits, alone]
  · simp [nothing, notAlone]
  · have starts : (checked.tryToSend msgIds found).checkSentRequestsTimer =
        some (checked.now + kCheckSentRequestTimeout) := by
      obtain ⟨entry, member, isAwaiting⟩ := awaiting
      have listed : ((waiting (checked.findState found).whenConnected checked.session).filter
          fun entry => IsAwaiting entry.2).isEmpty = false := by
        rw [← Bool.not_eq_true, List.isEmpty_iff]
        exact ne_nil_of_mem (mem_filter.mpr ⟨member, isAwaiting⟩)
      unfold tryToSend
      simp only [container, listed]
      rw [if_pos (by simp [touch, inactive])]
      rfl
    simp [starts, notAlone]

theorem handle_traffic (msgIds : Nat → Nat) (checked : CheckedSession)
    (hasCallback : Int → Bool) {event : Traffic} (notAttempt : ∀ found, event ≠ .tryToSend found) :
    (checked.handle msgIds (.traffic hasCallback event)).session =
        checked.session.handle msgIds hasCallback event ∧
      (checked.handle msgIds (.traffic hasCallback event)).now = checked.now ∧
      (checked.handle msgIds (.traffic hasCallback event)).checkSentRequestsTimer =
        checked.checkSentRequestsTimer := by
  cases event with
  | tryToSend found => exact (notAttempt found rfl).elim
  | _ => exact ⟨rfl, rfl, rfl⟩

theorem Soon.handle (soon : checked.Soon) (event : Event) :
    (checked.handle msgIds event).Soon := by
  have other : ∀ hasCallback event, (∀ found, event ≠ Traffic.tryToSend found) →
      (checked.handle msgIds (.traffic hasCallback event)).Soon := by
    intro hasCallback event notAttempt
    obtain ⟨-, now, timer⟩ := handle_traffic msgIds checked hasCallback notAttempt
    unfold Soon
    rw [now, timer]
    exact soon
  cases event with
  | traffic hasCallback event =>
    cases event with
    | tryToSend found => exact (tryToSend_soon msgIds found soon).1
    | _ => exact other _ _ fun _ same => by cases same
  | elapse duration =>
    intro deadline active
    have before := soon deadline active
    change deadline ≤ checked.now + duration + kCheckSentRequestTimeout
    omega
  | checkSentRequests => exact (checkSentRequests_timer _ rfl).1

theorem handle_scheduled (msgIds : Nat → Nat) (soon : checked.Soon)
    (scheduled : checked.Scheduled) (event : Event) :
    (checked.enabled event = true → (checked.handle msgIds event).Scheduled) ↔
      checked.StartsTimer event := by
  have before := soon.scheduled_of_timer.mp scheduled
  rw [(soon.handle event).scheduled_of_timer]
  have other : ∀ hasCallback event, (∀ found, event ≠ Traffic.tryToSend found) →
      (checked.handle msgIds (.traffic hasCallback event)).checkSentRequestsTimer = none →
        (checked.handle msgIds (.traffic hasCallback event)).session.haveSent = ∅ := by
    intro hasCallback event notAttempt
    obtain ⟨session, -, timer⟩ := handle_traffic msgIds checked hasCallback notAttempt
    rw [session, timer]
    exact fun inactive => handle_haveSent_empty notAttempt (before inactive)
  cases event with
  | traffic hasCallback event =>
    cases event with
    | tryToSend found =>
      by_cases inactive : checked.checkSentRequestsTimer = none
      · have starts := tryToSend_starts msgIds found inactive (before inactive)
        constructor
        · exact fun waits _ => starts.mp (waits rfl)
        · exact fun notAlone _ => starts.mpr (notAlone inactive)
      · have still := (tryToSend_soon msgIds found soon).2 inactive
        exact iff_of_true (fun _ stopped => (still stopped).elim)
          fun stopped => (inactive stopped).elim
    | _ => exact iff_of_true (fun _ => other _ _ fun _ same => by cases same) trivial
  | elapse duration => exact iff_of_true (fun _ => before) trivial
  | checkSentRequests =>
    refine imp_congr_right fun enabled => ?_
    have timer := (checkSentRequests_timer
      { checked with checkSentRequestsTimer := none } rfl).2
    have haveSent := checkSentRequests_haveSent
      { checked with checkSentRequestsTimer := none }
    change (checkSentRequests _).checkSentRequestsTimer = none → _ ↔ _
    rw [timer]
    change (_ → (checkSentRequests _).session.haveSent = ∅) ↔ _
    rw [haveSent, ← or_iff_not_imp_left, or_assoc, or_comm (a := ∃ _, _)]
    exact Iff.rfl

/-- In a run without anything sent before, requests that wait stay scheduled exactly
when each step starts the timer for them. -/
theorem scheduled_iff_startsTimer (msgIds : Nat → Nat) (events : List Event) :
    RunKeeps (step msgIds) Scheduled {} events ↔ RunMeets (step msgIds) StartsTimer {} events := by
  have kept : ∀ checked event next, Soon checked → checked.Scheduled →
      step msgIds checked event = some next → next.Soon := by
    intro checked event next soon _ taken
    unfold step at taken
    split at taken
    · cases taken
      exact soon.handle event
    · cases taken
  refine runKeeps_iff_runMeets kept ?_ events ?_ ?_
  · intro checked event soon scheduled
    rw [← handle_scheduled msgIds soon scheduled event]
    unfold step
    split
    next enabled =>
      simp [enabled]
    next disabled =>
      simp [disabled]
  · intro deadline active
    cases active
  · intro waits
    exact (waits rfl).elim

def sendsOne : List Event :=
  [.traffic firstHasCallback (.sendPrepared ⟨1, true⟩),
    .traffic firstHasCallback (.tryToSend requestsOnly), .elapse 3600000]

/-- Two requests are sent in a container, and both are checked. -/
def sendsTwo : List Event :=
  [.traffic firstHasCallback (.sendPrepared ⟨1, true⟩),
    .traffic firstHasCallback (.sendPrepared ⟨2, true⟩),
    .traffic firstHasCallback (.tryToSend requestsOnly), .elapse 10000, .checkSentRequests]

/-- The timer is not active while the requests wait. -/
theorem not_scheduled :
    ¬ RunKeeps (step everyFourth) Scheduled {} sendsOne ∧
      ¬ RunKeeps (step everyFourth) Scheduled {} sendsTwo := by
  have stays : ∀ events, ((run (step everyFourth) {} events).any fun last =>
      !last.session.haveSent.isEmpty && last.checkSentRequestsTimer.isNone) = true →
        ¬ RunKeeps (step everyFourth) Scheduled {} events := by
    intro events unscheduled keeps
    obtain ⟨last, ends, waiting⟩ := (Option.any_eq_true _ _).mp unscheduled
    rw [Bool.and_eq_true, Bool.not_eq_true', Option.isNone_iff_eq_none] at waiting
    have waits : last.session.haveSent ≠ ∅ := by
      rw [ne_eq, ← FlatMap.isEmpty_iff, waiting.1]
      exact Bool.false_ne_true
    obtain ⟨deadline, active, -⟩ := keeps.at_end ends waits
    rw [waiting.2] at active
    cases active
  exact ⟨stays _ (by decide), stays _ (by decide)⟩

end CheckedSession

end TelegramDesktop
