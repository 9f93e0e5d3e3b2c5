import TelegramDesktop.Instance
import TelegramDesktop.SessionPrivateAnswers

/-!
# Requests of an instance are tracked

A request that an instance has registered is tracked by the session: it waits or was
sent, under one key, unless it was answered or set aside.
-/

namespace TelegramDesktop.Instance

open FlatMap SessionPrivate List FlatSet

open SessionPrivate (Sound Tracks)

variable {msgIds : Nat → Nat} {inst : Instance} {excused : Int → Prop}

/-- The request is the one that is registered under its id. -/
def Known (inst : Instance) (request : Request) : Prop :=
  ∀ registered, inst.requestMap.find? request.requestId = some registered →
    request = registered

/-- What holds at all times, except for the requests that are to be sent again. -/
structure Invariant (msgIds : Nat → Nat) (excused : Int → Prop) (inst : Instance) : Prop where
  sound : Sound msgIds inst.session
  tracks : Tracks inst.Known
    (fun request => inst.Watched request ∧ ¬ excused request.requestId)
    inst.session.toSend.entries inst.session
  keys : ∀ entry ∈ inst.requestMap.entries, entry.2.requestId = entry.1 ∧ 0 < entry.1

theorem Invariant.initial : Invariant msgIds (fun _ => False) {} where
  sound := Sound.initial
  tracks :=
    { header := fun _ none => by cases none
      apart := fun _ none => by cases none
      knownWaiting := fun _ none => by cases none
      knownSent := fun _ none => by cases none
      present := fun _ isWatched => by cases isWatched.1.registered }
  keys := fun _ none => by cases none

variable {request : Request} {later : Instance}

theorem Known.of_registered (known : inst.Known request)
    (registered : ∀ requestId request, later.requestMap.find? requestId = some request →
      inst.requestMap.find? requestId = some request) : later.Known request :=
  fun other found => known other (registered _ other found)

theorem Invariant.of_same {excusedNow : Int → Prop}
    (inv : Invariant msgIds excused inst) (session : later.session = inst.session)
    (registered : ∀ requestId request, later.requestMap.find? requestId = some request →
      inst.requestMap.find? requestId = some request)
    (fewer : ∀ request, later.Watched request → ¬ excusedNow request.requestId →
      inst.Watched request ∧ ¬ excused request.requestId) :
    Invariant msgIds excusedNow later where
  sound := session ▸ inv.sound
  tracks := by
    rw [session]
    exact inv.tracks.mono (fun _ _ known => known.of_registered registered)
      (fun _ _ known => known.of_registered registered)
      fun request isWatched => fewer request isWatched.1 isWatched.2
  keys entry member := by
    have found := registered entry.1 entry.2 (find?_eq_some.mpr member)
    exact inv.keys entry (find?_eq_some.mp found)

theorem Invariant.trackedOnce (inv : Invariant msgIds (fun _ => False) inst) :
    inst.TrackedOnce where
  once _ isWatched := inv.tracks.once inv.sound ⟨isWatched, id⟩
  header := inv.tracks.header

variable {requestId : Int}

theorem Invariant.sendPrepared (source : IdSource msgIds)
    (inv : Invariant msgIds (fun other => other = requestId ∨ excused other) inst)
    (found : inst.requestMap.find? requestId = some request)
    (notSent : ∀ entry ∈ inst.session.haveSent.entries, entry.2.requestId ≠ requestId) :
    Invariant msgIds excused (inst.sendPrepared request) := by
  have identified := inv.keys _ (find?_eq_some.mp found)
  obtain ⟨rfl, positive⟩ : request.requestId = requestId ∧ 0 < requestId := identified
  have isKnown : inst.Known request := fun other same => Option.some.inj (found.symm.trans same)
  have unique : ∀ other, inst.Known other → other.requestId = request.requestId →
      other = request := fun other known same => known request (same ▸ found)
  have sent := inv.tracks.sendPrepared inv.sound isKnown unique notSent
  refine ⟨inv.sound.sendPrepared source positive, ?_, inv.keys⟩
  refine sent.mono (fun _ _ known => known) (fun _ _ known => known) ?_
  rintro other ⟨isWatched, notExcused⟩
  by_cases same : other.requestId = request.requestId
  · exact .inr (unique other (fun registered now =>
      Option.some.inj (isWatched.registered.symm.trans now)) same)
  · refine .inl ⟨{ isWatched with unanswered := ?_ }, fun now => now.elim same notExcused⟩
    intro answered
    refine isWatched.unanswered (mem_filter.mpr ⟨answered, ?_⟩)
    exact decide_eq_true same

theorem sendOneAgain_keeps (inst : Instance) (requestId : Int) :
    (inst.sendOneAgain requestId).requestMap = inst.requestMap ∧
      (inst.sendOneAgain requestId).session.haveSent = inst.session.haveSent := by
  unfold sendOneAgain
  cases inst.requestMap.find? requestId with
  | none => exact ⟨rfl, rfl⟩
  | some request => exact ⟨rfl, rfl⟩

theorem Invariant.sendAgain (source : IdSource msgIds) {ids : List Int}
    (inv : Invariant msgIds (· ∈ ids) inst) (noneSent : NoneSent (inst, ids)) :
    Invariant msgIds (fun _ => False) (inst.sendAgain ids) := by
  induction ids generalizing inst with
  | nil =>
    refine inv.of_same rfl (fun _ _ found => found) ?_
    exact fun request isWatched _ => ⟨isWatched, not_mem_nil⟩
  | cons requestId rest ih =>
    have next : Invariant msgIds (· ∈ rest) (inst.sendOneAgain requestId) := by
      unfold sendOneAgain
      cases found : inst.requestMap.find? requestId with
      | none =>
        refine inv.of_same rfl (fun _ _ found => found) ?_
        intro request isWatched notLater
        refine ⟨isWatched, fun excused => ?_⟩
        rcases mem_cons.mp excused with same | later
        · have registered := isWatched.registered
          rw [same, found] at registered
          cases registered
        · exact notLater later
      | some request =>
        have excusedFirst : Invariant msgIds (fun other => other = requestId ∨ other ∈ rest)
            inst := by
          refine inv.of_same rfl (fun _ _ found => found) ?_
          exact fun request isWatched notExcused =>
            ⟨isWatched, fun member => notExcused (mem_cons.mp member)⟩
        refine excusedFirst.sendPrepared source found ?_
        exact noneSent requestId (by simp) (by simp [FlatMap.contains, found])
    obtain ⟨requestMap, haveSent⟩ := inst.sendOneAgain_keeps requestId
    refine ih next ?_
    intro other member registered
    simp only [requestMap, haveSent] at registered ⊢
    exact noneSent other (mem_cons_of_mem requestId member) registered

theorem sendAgain_header (ids : List Int)
    (keys : ∀ entry ∈ inst.requestMap.entries, entry.2.requestId = entry.1)
    (unregistered : inst.requestMap.contains requestId = false) :
    (inst.sendAgain ids).session.header requestId = inst.session.header requestId ∧
      (inst.sendAgain ids).requestMap = inst.requestMap := by
  induction ids generalizing inst with
  | nil => exact ⟨rfl, rfl⟩
  | cons first rest ih =>
    have requestMap := (inst.sendOneAgain_keeps first).1
    have keysNow : ∀ entry ∈ (inst.sendOneAgain first).requestMap.entries,
        entry.2.requestId = entry.1 := requestMap.symm ▸ keys
    obtain ⟨header, kept⟩ := ih keysNow (requestMap.symm ▸ unregistered)
    refine ⟨Eq.trans header ?_, kept.trans requestMap⟩
    unfold sendOneAgain
    cases found : inst.requestMap.find? first with
    | none => rfl
    | some request =>
      have member := find?_eq_some.mp found
      have distinct : requestId ≠ request.requestId := by
        rintro rfl
        rw [keys _ member] at unregistered
        exact contains_eq_false.mp unregistered _ member rfl
      change ((SessionPrivate.sendPrepared request inst.session).header requestId) = _
      simp only [SessionPrivate.sendPrepared, SessionPrivate.setHeader, distinct, if_false]

theorem dependentRound_toResend (dependent : List (Int × Int)) {found : FlatSet Int × FlatSet Int}
    (resent : ∀ other ∈ found.1, other = requestId ∨ other ∈ found.2) :
    ∀ other ∈ (dependentRound dependent found).1,
      other = requestId ∨ other ∈ (dependentRound dependent found).2 := by
  induction dependent generalizing found with
  | nil => exact resent
  | cons entry dependent ih =>
    refine ih ?_
    dsimp only
    split
    · intro other member
      rcases mem_insert.mp member with rfl | old
      · exact .inr (mem_insert.mpr (.inl rfl))
      · exact (resent other old).imp_right fun member => mem_insert.mpr (.inr member)
    · exact resent

theorem dependentLoop_toResend (dependent : List (Int × Int)) (rounds : Nat)
    {found : FlatSet Int × FlatSet Int}
    (resent : ∀ other ∈ found.1, other = requestId ∨ other ∈ found.2) :
    ∀ other ∈ (dependentLoop dependent rounds found).1,
      other = requestId ∨ other ∈ (dependentLoop dependent rounds found).2 := by
  induction rounds generalizing found with
  | zero => exact resent
  | succ rounds ih =>
    have next := dependentRound_toResend dependent resent
    unfold dependentLoop
    simp only
    split
    · exact next
    · exact ih next

theorem find?_eq_some_of_erase {requests : FlatMap Int Request} {other : Int}
    (found : (requests.erase requestId).find? other = some request) :
    other ≠ requestId ∧ requests.find? other = some request := by
  rw [find?_erase] at found
  split at found
  · cases found
  next distinct =>
    exact ⟨distinct, found⟩

theorem Invariant.unregisterRequest (inv : Invariant msgIds (fun _ => False) inst)
    (requestId : Int) :
    Invariant msgIds (· ∈ (inst.unregisterRequest requestId).2)
      (inst.unregisterRequest requestId).1 := by
  refine inv.of_same rfl (fun _ _ found => (find?_eq_some_of_erase found).2) ?_
  intro request isWatched notResent
  obtain ⟨distinct, registered⟩ := find?_eq_some_of_erase isWatched.registered
  refine ⟨{ isWatched with registered, notDependent := ?_ }, id⟩
  rw [contains_eq_false]
  intro entry member same
  refine contains_eq_false.mp isWatched.notDependent entry ?_ same
  refine List.mem_filter.mpr ⟨member, decide_eq_true ?_⟩
  have first : ∀ other ∈ (FlatSet.ofList [requestId], (∅ : FlatSet Int)).1,
      other = requestId ∨ other ∈ (ofList [requestId], (∅ : FlatSet Int)).2 := by
    intro other member
    exact .inl (by simpa using member)
  have resent := dependentLoop_toResend inst.dependentRequests.entries
    (inst.dependentRequests.entries.length + 1) first entry.1
  intro removed
  rcases resent removed with isRemoved | isResent
  · exact distinct (same.symm.trans isRemoved)
  · exact notResent (same ▸ isResent)

theorem mem_delay {other : Int} {sendAt : Nat} {delayed : List (Int × Nat)}
    (member : other ∈ delayed.map Prod.fst) :
    other ∈ (delay requestId sendAt delayed).map Prod.fst := by
  induction delayed with
  | nil => cases member
  | cons head tail ih =>
    unfold delay
    split
    · exact member
    · split
      · exact mem_cons_of_mem requestId member
      · rcases mem_cons.mp member with rfl | later
        · exact mem_cons_self
        · exact mem_cons_of_mem head.1 (ih later)

theorem Invariant.takeDelayed (inv : Invariant msgIds (fun _ => False) inst) (now : Nat) :
    Invariant msgIds (· ∈ (inst.takeDelayed now).2) (inst.takeDelayed now).1 := by
  refine inv.of_same rfl (fun _ _ found => found) ?_
  intro request isWatched notTaken
  refine ⟨{ isWatched with notDelayed := ?_ }, id⟩
  intro delayed
  rw [← takeWhile_append_dropWhile (p := fun delayed : Int × Nat => decide (delayed.2 ≤ now))
    (l := inst.delayedRequests), map_append, mem_append] at delayed
  exact delayed.elim notTaken isWatched.notDelayed

theorem Invariant.processCallback (inv : Invariant msgIds (fun _ => False) inst)
    (requestId : Int) (outcome : Outcome) :
    Invariant msgIds (· ∈ (inst.processCallback requestId outcome).2)
      (inst.processCallback requestId outcome).1 := by
  unfold Instance.processCallback
  split
  · cases outcome with
    | finished =>
      refine Invariant.unregisterRequest ?_ requestId
      refine inv.of_same rfl (fun _ _ found => found) ?_
      intro request isWatched _
      exact ⟨{ isWatched with callback := (mem_erase.mp isWatched.callback).2 }, id⟩
    | delayed sendAt now =>
      refine Invariant.takeDelayed ?_ now
      refine inv.of_same rfl (fun _ _ found => found) ?_
      intro request isWatched _
      exact ⟨{ isWatched with
        notDelayed := fun delayed => isWatched.notDelayed (mem_delay delayed) }, id⟩
    | dependent after =>
      refine inv.of_same rfl (fun _ _ found => found) ?_
      intro request isWatched _
      refine ⟨{ isWatched with notDependent := ?_ }, id⟩
      have notDependent := isWatched.notDependent
      rw [Bool.eq_false_iff] at notDependent ⊢
      exact fun dependent => notDependent (contains_emplace.mpr (.inr dependent))
    | again =>
      refine inv.of_same rfl (fun _ _ found => found) ?_
      exact fun request isWatched _ => ⟨isWatched, id⟩
    | elsewhere =>
      refine inv.of_same rfl (fun _ _ found => found) ?_
      exact fun request isWatched _ => ⟨isWatched, id⟩
  · exact inv.unregisterRequest requestId

theorem Invariant.receive (source : IdSource msgIds)
    (inv : Invariant msgIds (fun _ => False) inst) (received : List Response) :
    Invariant msgIds (fun _ => False)
      { inst with session := { inst.session with haveReceivedMessages := received } } where
  sound := inv.sound.of_uses source le_rfl inv.sound.resending inv.sound.waits
    (fun _ _ uses => uses) fun _ service => service
  tracks := (inv.tracks.mono (fun _ _ known => known) (fun _ _ known => known)
    fun _ isWatched => ⟨⟨isWatched.1.registered, isWatched.1.needAck, isWatched.1.callback,
      isWatched.1.unanswered, isWatched.1.notDelayed, isWatched.1.notDependent⟩,
      isWatched.2⟩).of_same inv.sound rfl fun _ _ => rfl
  keys := inv.keys

theorem Invariant.tryToReceive (source : IdSource msgIds)
    (inv : Invariant msgIds (fun _ => False) inst) (outcome : Outcome) :
    Invariant msgIds (· ∈ (inst.tryToReceive outcome).2) (inst.tryToReceive outcome).1 := by
  unfold Instance.tryToReceive
  split
  · exact inv.of_same rfl (fun _ _ found => found) fun _ isWatched _ => ⟨isWatched, id⟩
  next response rest received =>
    have taken := inv.receive source rest
    simp only
    split
    · exact taken.of_same rfl (fun _ _ found => found) fun _ isWatched _ => ⟨isWatched, id⟩
    · exact taken.processCallback response.requestId outcome

theorem Invariant.unregisterCancelled (inv : Invariant msgIds (fun _ => False) inst)
    (requestId : Int) :
    Invariant msgIds (· ∈ (inst.unregisterCancelled requestId).2)
      (inst.unregisterCancelled requestId).1 := by
  refine Invariant.unregisterRequest ?_ requestId
  refine inv.of_same rfl (fun _ _ found => (find?_eq_some_of_erase found).2) ?_
  intro request isWatched _
  exact ⟨{ isWatched with registered := (find?_eq_some_of_erase isWatched.registered).2 }, id⟩

theorem unregisterCancelled_contains (inst : Instance) (requestId : Int) :
    (inst.unregisterCancelled requestId).1.requestMap.contains requestId = false := by
  rw [contains_eq_false]
  exact fun entry member => (mem_erase.mp member).2

theorem Invariant.cancelSent (source : IdSource msgIds)
    (inv : Invariant msgIds (fun _ => False) inst) {msgId : Nat} (identified : requestId ≠ 0)
    (own : msgId = 0 ∨ (inst.session.header requestId).msgId = msgId)
    (unregistered : inst.requestMap.contains requestId = false) :
    Invariant msgIds (fun _ => False)
      { inst with session := inst.session.cancel requestId msgId } where
  sound := (Fewer.cancel inst.session requestId msgId).sound source inv.sound
  tracks := by
    have cancelled := inv.tracks.cancel inv.sound identified own ?_
    · refine cancelled.mono (fun _ _ known => known) (fun _ _ known => known) ?_
      rintro request ⟨isWatched, notExcused⟩
      exact ⟨{ isWatched with }, notExcused⟩
    · rintro request ⟨isWatched, -⟩ rfl
      have member := find?_eq_some.mp isWatched.registered
      exact contains_eq_false.mp unregistered _ member rfl
  keys := inv.keys

theorem Invariant.eraseParser (inv : Invariant msgIds (fun _ => False) inst) (requestId : Int) :
    Invariant msgIds (fun _ => False)
      { inst with parserMap := inst.parserMap.erase requestId } := by
  refine inv.of_same rfl (fun _ _ found => found) ?_
  intro request isWatched _
  exact ⟨{ isWatched with callback := (mem_erase.mp isWatched.callback).2 }, id⟩

theorem Invariant.cancel (source : IdSource msgIds) (inv : Invariant msgIds (fun _ => False) inst)
    (noneSent : NoneSent (inst.unregisterCancelled requestId)) :
    Invariant msgIds (fun _ => False) (inst.cancel requestId) := by
  unfold Instance.cancel
  split
  · exact inv
  next identified =>
    let unregistered := (inst.unregisterCancelled requestId).1
    let toResend := (inst.unregisterCancelled requestId).2
    have forgotten : Invariant msgIds (· ∈ toResend) unregistered :=
      inv.unregisterCancelled requestId
    have resent : Invariant msgIds (fun _ => False) (unregistered.sendAgain toResend) :=
      forgotten.sendAgain source noneSent
    have absent := inst.unregisterCancelled_contains requestId
    obtain ⟨header, requestMap⟩ := sendAgain_header toResend
      (fun entry member => (forgotten.keys entry member).1) absent
    change Invariant msgIds _ { unregistered.sendAgain toResend with
      session := if inst.requestMap.contains requestId then
          (unregistered.sendAgain toResend).session.cancel requestId
            (if inst.requestMap.contains requestId then
              (inst.session.header requestId).msgId else 0)
        else (unregistered.sendAgain toResend).session
      parserMap := (unregistered.sendAgain toResend).parserMap.erase requestId }
    split
    · refine (resent.cancelSent source identified (.inr ?_)
        (requestMap ▸ absent)).eraseParser requestId
      rw [header]
      rfl
    · exact resent.eraseParser requestId

theorem Invariant.storeRequest (inv : Invariant msgIds (fun _ => False) inst)
    (hasHandler : Bool) (identified : 0 < request.requestId)
    (absent : inst.requestMap.contains request.requestId = false)
    (notWaiting : inst.session.toSend.contains request.requestId = false)
    (notSent : ∀ entry ∈ inst.session.haveSent.entries,
      entry.2.requestId ≠ request.requestId) :
    Invariant msgIds (fun other => other = request.requestId ∨ False)
      (inst.storeRequest request hasHandler) := by
  have fresh := contains_eq_false.mp absent
  have known : ∀ other, other.requestId ≠ request.requestId → inst.Known other →
      (inst.storeRequest request hasHandler).Known other := by
    intro other distinct isKnown registered found
    exact isKnown registered ((find?_emplace_of_ne fresh distinct).symm.trans found)
  refine ⟨inv.sound, inv.tracks.mono ?_ ?_ ?_, ?_⟩
  · intro entry member
    refine known entry.2 fun same => ?_
    refine contains_eq_false.mp notWaiting entry member ?_
    rw [← same, (inv.sound.waits entry member).1]
  · exact fun entry member => known entry.2 (notSent entry member)
  · rintro other ⟨isWatched, notExcused⟩
    have distinct : other.requestId ≠ request.requestId := fun same => notExcused (.inl same)
    refine ⟨{ isWatched with registered := ?_, callback := ?_ }, id⟩
    · exact (find?_emplace_of_ne fresh distinct).symm.trans isWatched.registered
    · have callback := isWatched.callback
      change other.requestId ∈ (if hasHandler then _ else _) at callback
      split at callback
      · exact (mem_insert.mp callback).resolve_left distinct
      · exact callback
  · intro entry member
    rcases (mem_emplace fresh).mp member with rfl | old
    · exact ⟨rfl, identified⟩
    · exact inv.keys entry old

theorem Invariant.traffic (source : IdSource msgIds) (inv : Invariant msgIds (fun _ => False) inst)
    {event : Traffic} (ofSession : event.ofSession = true) :
    Invariant msgIds (fun _ => False) (inst.handle msgIds (.traffic event)) := by
  let later := inst.handle msgIds (.traffic event)
  have enabled : event.enabled = true := by
    cases event with
    | sendPrepared request => cases ofSession
    | _ => rfl
  have watched : ∀ request, later.Watched request → inst.Watched request ∧
      request.requestId ∉ inst.session.answeredIds event := by
    intro request isWatched
    have unanswered := isWatched.unanswered
    change request.requestId ∉ inst.answered ++ inst.session.answeredIds event at unanswered
    rw [mem_append, not_or] at unanswered
    exact ⟨{ isWatched with unanswered := unanswered.1 }, unanswered.2⟩
  have tracks : Tracks inst.Known later.Watched inst.session.toSend.entries inst.session :=
    inv.tracks.mono (fun _ _ known => known) (fun _ _ known => known)
      fun request isWatched => ⟨(watched request isWatched).1, id⟩
  have callbacks : ∀ request, later.Watched request →
      inst.hasCallback request.requestId = true :=
    fun request isWatched => decide_eq_true isWatched.callback
  have handled := tracks.handle source inv.sound (fun _ isWatched => isWatched.needAck) callbacks
    ofSession fun request isWatched => (watched request isWatched).2
  exact ⟨inv.sound.handle source enabled, handled.mono (fun _ _ known => known)
    (fun _ _ known => known) fun _ isWatched => isWatched.1, inv.keys⟩

/-- Every step keeps the requests tracked, if none that is sent again is kept as
sent. -/
theorem Invariant.step (source : IdSource msgIds) {event : Event}
    (inv : Invariant msgIds (fun _ => False) inst) (sendsUnsent : inst.SendsUnsent event)
    (taken : Instance.step msgIds inst event = some later) :
    Invariant msgIds (fun _ => False) later := by
  unfold Instance.step at taken
  split at taken
  next enabled =>
    cases taken
    cases event with
    | sendRequest request hasHandler =>
      simp only [Instance.enabled, Bool.and_eq_true, decide_eq_true_eq, Bool.not_eq_true',
        all_eq_true] at enabled
      obtain ⟨⟨⟨identified, absent⟩, notWaiting⟩, notSent⟩ := enabled
      have stored := inv.storeRequest hasHandler identified absent notWaiting notSent
      refine stored.sendPrepared source ?_ notSent
      exact find?_emplace_self (contains_eq_false.mp absent)
    | cancel requestId => exact inv.cancel source sendsUnsent
    | tryToReceive outcome =>
      exact (inv.tryToReceive source outcome).sendAgain source sendsUnsent
    | checkDelayedRequests now => exact (inv.takeDelayed now).sendAgain source sendsUnsent
    | traffic event => exact inv.traffic source enabled
  · cases taken

/-- At the end of every run every watched request has one key, if no request was
sent again while it was kept as sent. -/
theorem tracked_once (source : IdSource msgIds) {events : List Event} {last : Instance}
    (ends : run (step msgIds) {} events = some last)
    (meets : RunMeets (step msgIds) SendsUnsent {} events) : last.TrackedOnce := by
  have inv : Invariant msgIds (fun _ => False) last := by
    refine run_invariant_of_meets ?_ Invariant.initial meets ends
    exact fun _ _ _ inv sendsUnsent taken => inv.step source sendsUnsent taken
  exact inv.trackedOnce

/-- Two requests are sent in a container and, after a bad salt, once more; one of them is
answered with an error, and sent again after a delay. -/
def sendsAgain : List Event :=
  [.sendRequest ⟨1, true⟩ true, .sendRequest ⟨2, true⟩ true,
    .traffic (.tryToSend SessionPrivate.requestsOnly), .traffic (.badServerSalt 12),
    .traffic (.tryToSend SessionPrivate.requestsOnly),
    .traffic (.rpcResult false false .success (.response []) 4 20), .tryToReceive (.delayed 2 1),
    .checkDelayedRequests 2, .traffic (.tryToSend SessionPrivate.requestsOnly)]

theorem tracked_once_first :
    ∃ last, run (step SessionPrivate.everyFourth) {} sendsAgain = some last ∧
      last.TrackedOnce := by
  have meets : RunMeets (step everyFourth) SendsUnsent {} sendsAgain := by decide +kernel
  obtain ⟨last, ends⟩ : ∃ last, run (step everyFourth) {} sendsAgain = some last :=
    Option.isSome_iff_exists.mp (by decide +kernel)
  exact ⟨last, ends, tracked_once idSource_everyFourth ends meets⟩

/-- Request `1` is sent with a handler and put in a packet. -/
def sendsFirst : List Event :=
  [.sendRequest ⟨1, true⟩ true, .traffic (.tryToSend SessionPrivate.requestsOnly)]

/-- The server finds the message wrong, and the request is sent again after a delay. -/
def protocolError : List Event :=
  sendsFirst ++ [.traffic (.badMsgNotification 4 34 5), .tryToReceive (.delayed 2 1),
    .checkDelayedRequests 2]

/-- The request waits again while it is kept as sent. -/
theorem not_tracked_after_protocolError :
    ∃ last, run (step SessionPrivate.everyFourth) {} protocolError = some last ∧
      last.Watched ⟨1, true⟩ ∧ last.keysOf 1 = 2 ∧ ¬ last.TrackedOnce := by
  refine ⟨_, rfl, ⟨rfl, rfl, by decide, by decide, by decide, rfl⟩, rfl, ?_⟩
  intro tracked
  have once := tracked.once ⟨1, true⟩ ⟨rfl, rfl, by decide, by decide, by decide, rfl⟩
  cases once

end TelegramDesktop.Instance
