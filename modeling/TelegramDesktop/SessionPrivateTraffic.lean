import TelegramDesktop.SessionPrivateSending
import TelegramDesktop.Runs

/-!
# Traffic of a session

Acking and resending go through containers to the requests in them.  What they
keep is what they keep of one request, and of the removal of ids that stand for
no request.
-/

namespace TelegramDesktop.SessionPrivate

open FlatMap SessionPrivate List

variable {session later : SessionPrivate}

/-- Ids of messages of the session itself, or of acked requests, are forgotten. -/
structure Forgets (session later : SessionPrivate) : Prop where
  fewer : Fewer later session
  same : SameRequests session later
  resendingIds : later.resendingIds = session.resendingIds
  messagesCounter : later.messagesCounter = session.messagesCounter

namespace Forgets

theorem container (session : SessionPrivate) (msgId : Nat) :
    Forgets session
      { session with sentContainers := session.sentContainers.erase msgId } where
  fewer := { Fewer.refl session with
    sentContainers := fun _ known => (contains_erase.mp known).2 }
  same := ⟨rfl, rfl, fun _ _ => rfl, rfl, rfl, rfl⟩
  resendingIds := rfl
  messagesCounter := rfl

theorem stateOrResend (session : SessionPrivate) (msgId : Nat) :
    Forgets session
      { session with
        stateAndResendRequests := session.stateAndResendRequests.erase msgId } where
  fewer := { Fewer.refl session with
    stateAndResendRequests := fun _ known => (contains_erase.mp known).2 }
  same := ⟨rfl, rfl, fun _ _ => rfl, rfl, rfl, rfl⟩
  resendingIds := rfl
  messagesCounter := rfl

theorem clearSpecialMsgId (session : SessionPrivate) (msgId : Nat) :
    Forgets session (session.clearSpecialMsgId msgId) := by
  unfold SessionPrivate.clearSpecialMsgId
  split
  · exact ⟨{ Fewer.refl session with pingMsgId := .inr rfl },
      ⟨rfl, rfl, fun _ _ => rfl, rfl, rfl, rfl⟩, rfl, rfl⟩
  · split
    · exact ⟨{ Fewer.refl session with bindMsgId := .inr rfl },
        ⟨rfl, rfl, fun _ _ => rfl, rfl, rfl, rfl⟩, rfl, rfl⟩
    · exact ⟨Fewer.refl session, SameRequests.refl session, rfl, rfl⟩

theorem trimAcked (session : SessionPrivate) : Forgets session session.trimAcked where
  fewer := { Fewer.refl session with
    ackedIds := by
      intro entry member
      change entry ∈ (session.ackedIds.trim _ _).entries at member
      rw [entries_trim] at member
      exact mem_of_mem_drop member }
  same := ⟨rfl, rfl, fun _ _ => rfl, rfl, rfl, rfl⟩
  resendingIds := rfl
  messagesCounter := rfl

end Forgets

/-- A sent request is acked. -/
def ackSent (entry : Nat × Request) (session : SessionPrivate) : SessionPrivate :=
  { session with
    haveSent := session.haveSent.erase entry.1
    ackedIds := session.ackedIds.emplace entry.1 entry.2.requestId }

/-- A request that is to be sent again is acked. -/
def ackResending (entry : Nat × Int) (request : Request) (session : SessionPrivate) :
    SessionPrivate :=
  { session with
    resendingIds := session.resendingIds.erase entry.1
    ackedIds := session.ackedIds.emplace entry.1 request.requestId
    toSend := session.toSend.erase entry.2 }

/-- What holds of the session is kept when a request is acked under an id with
which it may be. -/
structure KeptByAcks (may : Nat → Int → Prop) (Holds : SessionPrivate → Prop) : Prop where
  sent : ∀ session entry, Holds session → entry ∈ session.haveSent.entries →
    may entry.1 entry.2.requestId → Holds (session.ackSent entry)
  resending : ∀ session entry request, Holds session → entry ∈ session.resendingIds.entries →
    may entry.1 entry.2 → (entry.2, request) ∈ session.toSend.entries →
      Holds (session.ackResending entry request)
  notWaiting : ∀ session entry, Holds session → entry ∈ session.resendingIds.entries →
    may entry.1 entry.2 → session.toSend.contains entry.2 = false →
      Holds { session with resendingIds := session.resendingIds.erase entry.1 }
  forgets : ∀ session later, Holds session → Forgets session later → Holds later

namespace KeptByAcks

variable {may : Nat → Int → Prop} {Holds : SessionPrivate → Prop} {hasCallback : Int → Bool}
  {byResponse : Bool}

section

variable (kept : KeptByAcks may Holds) (holds : Holds session)
include kept holds

theorem ackOne {toAckMore : List Nat} {msgId : Nat}
    (allowed : ∀ requestId, byResponse = true ∨ hasCallback requestId = false →
      may msgId requestId) :
    Holds (ackOne hasCallback byResponse (session, toAckMore) msgId).1 := by
  have free : ∀ requestId, ¬ (!byResponse && hasCallback requestId) = true →
      may msgId requestId := by
    intro requestId notKept
    refine allowed requestId ?_
    simpa [imp_iff_or_not, or_comm] using notKept
  unfold SessionPrivate.ackOne
  simp only
  split
  · exact kept.forgets _ _ holds (Forgets.container session msgId)
  · split
    · exact kept.forgets _ _ holds (Forgets.stateOrResend session msgId)
    · split
      next request found =>
        split
        · exact holds
        next notKept =>
          exact kept.sent session (msgId, request) holds (find?_eq_some.mp found) (free _ notKept)
      · split
        · exact holds
        next requestId found =>
          split
          · exact holds
          next notKept =>
            have resending := find?_eq_some.mp found
            split
            next missing =>
              exact kept.notWaiting session (msgId, requestId) holds resending
                (free _ notKept) (by simp [FlatMap.contains, missing])
            next request waiting =>
              exact kept.resending session (msgId, requestId) request holds resending
                (free _ notKept) (find?_eq_some.mp waiting)

theorem ackAll {ids toAckMore : List Nat}
    (allowed : ∀ msgId ∈ ids, ∀ requestId, byResponse = true ∨ hasCallback requestId = false →
      may msgId requestId) :
    Holds (ids.foldl (SessionPrivate.ackOne hasCallback byResponse) (session, toAckMore)).1 := by
  induction ids generalizing session toAckMore with
  | nil => exact holds
  | cons msgId ids ih =>
    have one : Holds (SessionPrivate.ackOne hasCallback byResponse (session, toAckMore)
        msgId).1 := kept.ackOne holds (allowed msgId (by simp))
    exact ih one fun other member => allowed other (by simp [member])

theorem requestsAcked {ids : List Nat}
    (allowed : ∀ msgId requestId, byResponse = true ∧ msgId ∈ ids ∨
      hasCallback requestId = false → may msgId requestId) :
    Holds (session.requestsAcked hasCallback byResponse ids) := by
  unfold SessionPrivate.requestsAcked
  generalize session.sentContainers.size + 1 = depth
  induction depth generalizing session byResponse ids with
  | zero => exact holds
  | succ depth ih =>
    have acked : Holds (ids.foldl (SessionPrivate.ackOne hasCallback byResponse)
        (session, [])).1 :=
      kept.ackAll holds fun msgId member requestId free =>
        allowed msgId requestId (free.imp_left fun response => ⟨response, member⟩)
    unfold requestsAckedLoop
    simp only
    split
    · exact kept.forgets _ _ acked (Forgets.trimAcked _)
    · refine ih (kept.forgets _ _ acked (Forgets.trimAcked _)) ?_
      rintro msgId requestId (⟨never, -⟩ | free)
      · cases never
      · exact allowed msgId requestId (.inr free)

end

end KeptByAcks

/-- What holds of the session is kept when a request that was sent waits again. -/
structure KeptByResends (Holds : SessionPrivate → Prop) : Prop where
  request : ∀ session entry, Holds session → entry ∈ session.haveSent.entries →
    Holds (session.resendRequest entry)
  forgets : ∀ session later, Holds session → Forgets session later → Holds later

namespace KeptByResends

variable {Holds : SessionPrivate → Prop}

section

variable (kept : KeptByResends Holds)
include kept

theorem resendLoop (depth : Nat) {msgId : Nat} (holds : Holds session) :
    Holds (resendLoop depth session msgId) := by
  induction depth generalizing session msgId with
  | zero => exact holds
  | succ depth ih =>
    refine kept.forgets _ _ ?_ (Forgets.clearSpecialMsgId _ msgId)
    split
    next messages found =>
      exact foldlRecOn messages _ (kept.forgets _ _ holds (Forgets.container session msgId))
        fun before beforeHolds inner _ => ih beforeHolds
    · split
      · exact holds
      next request found =>
        exact kept.request session (msgId, request) holds (find?_eq_some.mp found)

theorem resend {msgId : Nat} (holds : Holds session) : Holds (session.resend msgId) :=
  kept.resendLoop _ holds

theorem resendIds {ids : List Nat} (holds : Holds session) :
    Holds (ids.foldl SessionPrivate.resend session) :=
  foldlRecOn ids _ holds fun _ beforeHolds _ _ => kept.resend beforeHolds

theorem resendEntries {entries : List (Nat × Request)}
    (distinct : entries.Pairwise fun first second => first.1 < second.1)
    (sent : ∀ entry ∈ entries, entry ∈ session.haveSent.entries) (holds : Holds session) :
    Holds (entries.foldl resendRequest session) := by
  induction entries generalizing session with
  | nil => exact holds
  | cons entry entries ih =>
    rw [pairwise_cons] at distinct
    refine ih distinct.2 ?_ (kept.request session entry holds (sent entry (by simp)))
    intro other member
    refine mem_erase.mpr ⟨sent other (by simp [member]), ?_⟩
    exact (distinct.1 other member).ne'

theorem resendAll (holds : Holds session) : Holds session.resendAll :=
  kept.resendEntries session.haveSent.increasing (fun _ member => member) holds

theorem clearOldContainers {old : Nat → Bool} (holds : Holds session) :
    Holds (session.clearOldContainers old) :=
  foldlRecOn _ _ holds fun before beforeHolds entry _ =>
    kept.resendIds (kept.forgets _ _ beforeHolds (Forgets.container before entry.1))

theorem handleMsgState {acked : List Nat} {state : Nat × Bool} (holds : Holds session) :
    Holds (handleMsgState (session, acked) state).1 := by
  unfold SessionPrivate.handleMsgState
  simp only
  split
  · split
    · exact holds
    · exact kept.resend holds
  · split
    · exact holds
    · exact holds

theorem handleMsgsStates {may : Nat → Int → Prop} (acks : KeptByAcks may Holds)
    {hasCallback : Int → Bool} {ids : List Nat} {received : List Bool} (holds : Holds session)
    (allowed : ∀ msgId requestId, hasCallback requestId = false → may msgId requestId) :
    Holds (session.handleMsgsStates hasCallback ids received) := by
  unfold SessionPrivate.handleMsgsStates
  split
  · exact holds
  · refine acks.requestsAcked ?_ ?_
    · exact foldlRecOn (motive := fun result : SessionPrivate × List Nat => Holds result.1)
        _ _ holds fun before beforeHolds state _ => kept.handleMsgState beforeHolds
    · rintro msgId requestId (⟨never, -⟩ | free)
      · cases never
      · exact allowed msgId requestId free

end

end KeptByResends

section Depth

variable (hasCallback : Int → Bool) (byResponse : Bool)

theorem ackOne_containers (session : SessionPrivate) (toAckMore : List Nat) (msgId : Nat) :
    (ackOne hasCallback byResponse (session, toAckMore) msgId).1.sentContainers.size <
        session.sentContainers.size ∨
      (ackOne hasCallback byResponse (session, toAckMore) msgId).1.sentContainers =
        session.sentContainers ∧
      (ackOne hasCallback byResponse (session, toAckMore) msgId).2 = toAckMore := by
  unfold ackOne
  simp only
  split
  next messages found =>
    exact .inl (FlatMap.size_erase_lt (by simp [FlatMap.contains, found]))
  · right
    split
    · exact ⟨rfl, rfl⟩
    · split
      · split <;> exact ⟨rfl, rfl⟩
      · split
        · exact ⟨rfl, rfl⟩
        · split
          · exact ⟨rfl, rfl⟩
          · split <;> exact ⟨rfl, rfl⟩

theorem ackAll_containers (session : SessionPrivate) (toAckMore ids : List Nat) :
    (ids.foldl (ackOne hasCallback byResponse) (session, toAckMore)).1.sentContainers.size <
        session.sentContainers.size ∨
      (ids.foldl (ackOne hasCallback byResponse) (session, toAckMore)).1.sentContainers =
        session.sentContainers ∧
      (ids.foldl (ackOne hasCallback byResponse) (session, toAckMore)).2 = toAckMore := by
  induction ids generalizing session toAckMore with
  | nil => exact .inr ⟨rfl, rfl⟩
  | cons msgId ids ih =>
    have one := ackOne_containers hasCallback byResponse session toAckMore msgId
    rw [foldl_cons]
    generalize ackOne hasCallback byResponse (session, toAckMore) msgId = acked at one ⊢
    have rest := ih acked.1 acked.2
    rcases rest with fewer | ⟨same, none⟩
    · rcases one with fewerBefore | ⟨sameBefore, -⟩
      · exact .inl (fewer.trans fewerBefore)
      · exact .inl (sameBefore ▸ fewer)
    · rcases one with fewerBefore | ⟨sameBefore, noneBefore⟩
      · exact .inl (same ▸ fewerBefore)
      · exact .inr ⟨same.trans sameBefore, none.trans noneBefore⟩

variable {hasCallback byResponse}

theorem requestsAckedLoop_depth {first second : Nat} {ids : List Nat}
    (firstEnough : session.sentContainers.size < first)
    (secondEnough : session.sentContainers.size < second) :
    requestsAckedLoop hasCallback first byResponse ids session =
      requestsAckedLoop hasCallback second byResponse ids session := by
  induction first generalizing second byResponse ids session with
  | zero => exact (Nat.not_lt_zero _ firstEnough).elim
  | succ first ih =>
    cases second with
    | zero => exact (Nat.not_lt_zero _ secondEnough).elim
    | succ second =>
      unfold requestsAckedLoop
      simp only
      split
      · rfl
      next more =>
        rcases ackAll_containers hasCallback byResponse session [] ids with fewer | ⟨-, none⟩
        · exact ih (fewer.trans_le (Nat.lt_succ_iff.mp firstEnough))
            (fewer.trans_le (Nat.lt_succ_iff.mp secondEnough))
        · rw [none] at more
          exact (more rfl).elim

/-- `requestsAcked` acks the messages of the containers it found, and fewer containers are
left for that. -/
theorem requestsAcked_eq (ids : List Nat) (session : SessionPrivate) :
    let (acked, toAckMore) := ids.foldl (ackOne hasCallback byResponse) (session, [])
    session.requestsAcked hasCallback byResponse ids =
        (if toAckMore.isEmpty then acked.trimAcked
        else acked.trimAcked.requestsAcked hasCallback false toAckMore) ∧
      (toAckMore ≠ [] →
        acked.trimAcked.sentContainers.size < session.sentContainers.size) := by
  have containers := ackAll_containers hasCallback byResponse session [] ids
  have ends : (ids.foldl (ackOne hasCallback byResponse) (session, [])).2 ≠ [] →
      (ids.foldl (ackOne hasCallback byResponse) (session, [])).1.sentContainers.size <
        session.sentContainers.size := by
    intro more
    rcases containers with fewer | ⟨-, none⟩
    · exact fewer
    · exact (more none).elim
  refine ⟨?_, ends⟩
  unfold requestsAcked
  rw [requestsAckedLoop]
  simp only
  split
  next => rfl
  next more =>
    exact requestsAckedLoop_depth (ends (mt List.isEmpty_iff.mpr more)) (Nat.lt_succ_self _)

theorem clearSpecialMsgId_containers (session : SessionPrivate) (msgId : Nat) :
    (session.clearSpecialMsgId msgId).sentContainers = session.sentContainers := by
  unfold clearSpecialMsgId
  split
  · rfl
  · split <;> rfl

theorem resendLoop_containers (depth : Nat) (session : SessionPrivate) (msgId : Nat) :
    (resendLoop depth session msgId).sentContainers.size ≤ session.sentContainers.size := by
  induction depth generalizing session msgId with
  | zero => exact le_rfl
  | succ depth ih =>
    unfold resendLoop
    rw [clearSpecialMsgId_containers]
    split
    next messages found =>
      refine foldlRecOn (motive := fun before : SessionPrivate =>
        before.sentContainers.size ≤ session.sentContainers.size) messages _
        size_erase_le ?_
      exact fun before few inner _ => (ih before inner).trans few
    · split <;> exact le_rfl

theorem resendLoop_depth {first second : Nat} (session : SessionPrivate) (msgId : Nat)
    (firstEnough : session.sentContainers.size < first)
    (secondEnough : session.sentContainers.size < second) :
    resendLoop first session msgId = resendLoop second session msgId := by
  induction first generalizing second session msgId with
  | zero => exact (Nat.not_lt_zero _ firstEnough).elim
  | succ first ih =>
    cases second with
    | zero => exact (Nat.not_lt_zero _ secondEnough).elim
    | succ second =>
      have inside : ∀ (messages : List Nat) (before : SessionPrivate),
          before.sentContainers.size < first → before.sentContainers.size < second →
          messages.foldl (resendLoop first) before =
            messages.foldl (resendLoop second) before := by
        intro messages
        induction messages with
        | nil => exact fun _ _ _ => rfl
        | cons inner messages ihInside =>
          intro before few fewOther
          have fewer := resendLoop_containers second before inner
          rw [foldl_cons, foldl_cons, ih before inner few fewOther]
          exact ihInside _ (fewer.trans_lt few) (fewer.trans_lt fewOther)
      unfold resendLoop
      split
      next messages found =>
        have fewer := size_erase_lt (show session.sentContainers.contains msgId = true by
            simp [FlatMap.contains, found])
        rw [inside messages _ (fewer.trans_le (Nat.lt_succ_iff.mp firstEnough))
          (fewer.trans_le (Nat.lt_succ_iff.mp secondEnough))]
      · rfl

theorem foldl_resendLoop {depth : Nat} (messages : List Nat) (session : SessionPrivate)
    (enough : session.sentContainers.size < depth) :
    messages.foldl (resendLoop depth) session = messages.foldl resend session := by
  induction messages generalizing session with
  | nil => rfl
  | cons inner messages ih =>
    have same : resendLoop depth session inner = session.resend inner :=
      resendLoop_depth session inner enough (Nat.lt_succ_self _)
    have fewer := resendLoop_containers depth session inner
    rw [foldl_cons, foldl_cons, same]
    rw [same] at fewer
    exact ih _ (fewer.trans_lt enough)

/-- `resend` goes on with the messages of the container it found, and fewer containers are
left for that; no container is added on the way. -/
theorem resend_eq (session : SessionPrivate) (msgId : Nat) :
    session.resend msgId =
        (match session.sentContainers.find? msgId with
        | some messages =>
          messages.foldl resend
            { session with sentContainers := session.sentContainers.erase msgId }
        | none =>
          match session.haveSent.find? msgId with
          | none => session
          | some request => session.resendRequest (msgId, request)).clearSpecialMsgId msgId ∧
      (session.sentContainers.contains msgId = true →
        (session.sentContainers.erase msgId).size < session.sentContainers.size) ∧
      (session.resend msgId).sentContainers.size ≤ session.sentContainers.size := by
  refine ⟨?_, size_erase_lt, resendLoop_containers _ session msgId⟩
  rw [resend, resendLoop]
  cases found : session.sentContainers.find? msgId with
  | none => rfl
  | some messages =>
    have fewer := size_erase_lt
      (show session.sentContainers.contains msgId = true by simp [FlatMap.contains, found])
    simp only
    rw [foldl_resendLoop messages _ fewer]

end Depth

section Sound

variable {msgIds : Nat → Nat}

theorem uses_ackSent {entry : Nat × Request} (member : entry ∈ session.haveSent.entries)
    {msgId : Nat} {requestId : Int} (now : (session.ackSent entry).Uses msgId requestId) :
    session.Uses msgId requestId := by
  rcases now with ⟨request, sent, rfl⟩ | resending | acked | header
  · exact uses_of_haveSent (mem_erase.mp sent).1
  · exact .inr (.inl resending)
  · rcases mem_of_mem_emplaceEntry acked with isNew | old
    · obtain ⟨rfl, rfl⟩ := Prod.mk.inj isNew
      exact uses_of_haveSent member
    · exact .inr (.inr (.inl old))
  · exact .inr (.inr (.inr header))

theorem uses_ackResending {entry : Nat × Int} {request : Request}
    (member : entry ∈ session.resendingIds.entries) (owner : request.requestId = entry.2)
    {msgId : Nat} {requestId : Int}
    (now : (session.ackResending entry request).Uses msgId requestId) :
    session.Uses msgId requestId := by
  rcases now with sent | resending | acked | header
  · exact .inl sent
  · exact uses_of_resendingIds (mem_erase.mp resending).1
  · rcases mem_of_mem_emplaceEntry acked with isNew | old
    · obtain ⟨rfl, rfl⟩ := Prod.mk.inj isNew
      exact owner ▸ uses_of_resendingIds member
    · exact .inr (.inr (.inl old))
  · exact .inr (.inr (.inr header))

@[simp] theorem resendRequest_msgId (entry : Nat × Request) (requestId : Int) :
    ((session.resendRequest entry).header requestId).msgId =
      (session.header requestId).msgId := by
  by_cases same : requestId = entry.2.requestId
  · rw [same]
    simp [resendRequest, setHeader]
  · simp [resendRequest, setHeader, same]

theorem uses_resendRequest {entry : Nat × Request} (member : entry ∈ session.haveSent.entries)
    {msgId : Nat} {requestId : Int} (now : (session.resendRequest entry).Uses msgId requestId) :
    session.Uses msgId requestId := by
  rcases now with ⟨request, sent, rfl⟩ | resending | acked | header
  · exact uses_of_haveSent (mem_erase.mp sent).1
  · rcases mem_of_mem_emplaceEntry resending with isNew | old
    · obtain ⟨rfl, rfl⟩ := Prod.mk.inj isNew
      exact uses_of_haveSent member
    · exact uses_of_resendingIds old
  · exact .inr (.inr (.inl acked))
  · rw [resendRequest_msgId] at header
    exact .inr (.inr (.inr header))

theorem Fewer.forgetResending (session : SessionPrivate) (msgId : Nat) :
    Fewer { session with resendingIds := session.resendingIds.erase msgId } session :=
  { Fewer.refl session with resendingIds := fun _ member => (mem_erase.mp member).1 }

theorem keptByAcks_sound (source : IdSource msgIds) :
    KeptByAcks (fun _ _ => True) (Sound msgIds) where
  sent session entry sound member _ :=
    sound.of_uses source le_rfl
      (fun msgId sent => sound.resending msgId (contains_erase.mp sent).2) sound.waits
      (fun _ _ => uses_ackSent member) fun _ now => now
  resending session entry request sound member _ waiting := by
    refine sound.of_uses source le_rfl ?_ ?_
      (fun _ _ => uses_ackResending member (sound.waits _ waiting).1) fun _ now => now
    · intro msgId sent
      rw [contains_eq_false]
      intro other otherMem
      exact contains_eq_false.mp (sound.resending msgId sent) other (mem_erase.mp otherMem).1
    · exact fun other otherMem => sound.waits other (mem_erase.mp otherMem).1
  notWaiting session entry sound _ _ _ := (Fewer.forgetResending session _).sound source sound
  forgets _ _ sound forgets := forgets.fewer.sound source sound

theorem keptByResends_sound (source : IdSource msgIds) : KeptByResends (Sound msgIds) where
  request session entry sound member := by
    have positive := (sound.used _ _ (uses_of_haveSent member)).2.2.1
    refine sound.of_uses source le_rfl ?_ ?_ (fun _ _ => uses_resendRequest member)
      fun _ now => now
    · intro msgId sent
      obtain ⟨distinct, old⟩ := contains_erase.mp sent
      have notResending := sound.resending msgId old
      rw [← Bool.not_eq_true] at notResending ⊢
      intro now
      rcases contains_emplace.mp now with isNew | known
      · exact distinct isNew
      · exact notResending known
    · intro other otherMem
      rcases mem_of_mem_emplaceEntry otherMem with rfl | old
      · exact ⟨rfl, positive⟩
      · exact sound.waits other old
  forgets _ _ sound forgets := forgets.fewer.sound source sound

end Sound

/-- What happens to a session, one thing at a time. -/
inductive Traffic
  | sendPrepared (request : Request)
  | cancel (requestId : Int) (msgId : Nat)
  | tryToSend (found : Attempt)
  | msgsAck (ids : List Nat)
  | rpcResult (badTime keyCreator : Bool) (bound : HandleResult) (result : RpcResult)
      (requestMsgId outerMsgId : Nat)
  | msgsStateInfo (reqMsgId : Nat) (received : List Bool)
  | msgsAllInfo (ids : List Nat) (received : List Bool)
  | badMsgNotification (resendId : Nat) (errorCode : Int) (outerMsgId : Nat)
  | badServerSalt (resendId : Nat)
  | newSessionCreated (firstMsgId outerMsgId : Nat)
  | clearOldContainers (old : Nat → Bool)
  | resendAll
  | changeSessionId
  | restart

def handle (msgIds : Nat → Nat) (hasCallback : Int → Bool) (session : SessionPrivate) :
    Traffic → SessionPrivate
  | .sendPrepared request => session.sendPrepared request
  | .cancel requestId msgId => session.cancel requestId msgId
  | .tryToSend found => (session.tryToSend msgIds found).2
  | .msgsAck ids => session.requestsAcked hasCallback false ids
  | .rpcResult badTime keyCreator bound result requestMsgId outerMsgId =>
    (session.handleRpcResult hasCallback badTime keyCreator bound result requestMsgId
      outerMsgId).2
  | .msgsStateInfo reqMsgId received => session.msgsStateInfo hasCallback reqMsgId received
  | .msgsAllInfo ids received => session.handleMsgsStates hasCallback ids received
  | .badMsgNotification resendId errorCode outerMsgId =>
    (session.badMsgNotification resendId errorCode outerMsgId).2
  | .badServerSalt resendId => session.badServerSalt resendId
  | .newSessionCreated firstMsgId outerMsgId => session.newSessionCreated firstMsgId outerMsgId
  | .clearOldContainers old => session.clearOldContainers old
  | .resendAll => session.resendAll
  | .changeSessionId => session.changeSessionId
  | .restart => session.restart

/-- Requests that are sent have an id of `GetNextRequestId`. -/
def Traffic.enabled : Traffic → Bool
  | .sendPrepared request => 0 < request.requestId
  | _ => true

/-- A step of a session, with the callbacks there are at that time. -/
def step (msgIds : Nat → Nat) (session : SessionPrivate)
    (event : (Int → Bool) × Traffic) : Option SessionPrivate :=
  if event.2.enabled then some (session.handle msgIds event.1 event.2) else none

section Sound

variable {msgIds : Nat → Nat}

theorem Sound.sendPrepared (source : IdSource msgIds) (sound : Sound msgIds session)
    {request : Request} (identified : 0 < request.requestId) :
    Sound msgIds (session.sendPrepared request) := by
  refine sound.of_uses source le_rfl sound.resending ?_ ?_ fun _ now => now
  · intro entry member
    rcases mem_of_mem_emplaceEntry member with rfl | old
    · exact ⟨rfl, identified⟩
    · exact sound.waits entry old
  · rintro msgId requestId (sent | resending | acked | ⟨known, assigned, header⟩)
    · exact .inl sent
    · exact .inr (.inl resending)
    · exact .inr (.inr (.inl acked))
    · refine .inr (.inr (.inr ⟨known, assigned, ?_⟩))
      rw [← header]
      by_cases same : requestId = request.requestId
      · refine (assigned ?_).elim
        rw [← header, same]
        simp [SessionPrivate.sendPrepared, SessionPrivate.setHeader]
      · simp [SessionPrivate.sendPrepared, SessionPrivate.setHeader, same]

theorem Fewer.cancel (session : SessionPrivate) (requestId : Int) (msgId : Nat) :
    Fewer (session.cancel requestId msgId) session := by
  unfold SessionPrivate.cancel
  split
  · split
    · exact Fewer.refl session
    · exact { Fewer.refl session with
        haveSent := fun _ member => (mem_erase.mp member).1 }
  · split
    · exact { Fewer.refl session with
        toSend := fun _ member => (mem_erase.mp member).1 }
    · exact { Fewer.refl session with
        haveSent := fun _ member => (mem_erase.mp member).1
        toSend := fun _ member => (mem_erase.mp member).1 }

theorem Fewer.forgetBind (session : SessionPrivate) :
    Fewer { session with bindMsgId := 0 } session :=
  { Fewer.refl session with bindMsgId := .inr rfl }

section

variable (source : IdSource msgIds) (sound : Sound msgIds session)
include source sound

theorem Sound.receive (received : List Response) :
    Sound msgIds { session with haveReceivedMessages := received } :=
  sound.of_uses source le_rfl sound.resending sound.waits (fun _ _ now => now) fun _ now => now

theorem Sound.handleRpcResult {hasCallback : Int → Bool} {badTime keyCreator : Bool}
    {bound : HandleResult} {result : RpcResult} {requestMsgId outerMsgId : Nat} :
    Sound msgIds (session.handleRpcResult hasCallback badTime keyCreator bound result
      requestMsgId outerMsgId).2 := by
  unfold SessionPrivate.handleRpcResult
  split
  · exact sound
  · split
    · exact sound
    · exact sound
    · have acked : Sound msgIds (session.requestsAcked hasCallback true [requestMsgId]) :=
        (keptByAcks_sound source).requestsAcked sound fun _ _ _ => trivial
      simp only
      split
      · exact (Fewer.forgetBind _).sound source acked
      · split
        · exact acked.receive source _
        · exact acked

theorem Sound.handle {hasCallback : Int → Bool} {event : Traffic} (enabled : event.enabled = true) :
    Sound msgIds (session.handle msgIds hasCallback event) := by
  have acks := keptByAcks_sound source
  have resends := keptByResends_sound source
  cases event with
  | sendPrepared request => exact sound.sendPrepared source (of_decide_eq_true enabled)
  | cancel requestId msgId => exact (Fewer.cancel session requestId msgId).sound source sound
  | tryToSend found => exact sound.tryToSend source found
  | msgsAck ids => exact acks.requestsAcked sound fun _ _ _ => trivial
  | rpcResult badTime keyCreator bound result requestMsgId outerMsgId =>
    exact sound.handleRpcResult source
  | msgsStateInfo reqMsgId received =>
    change Sound msgIds (session.msgsStateInfo hasCallback reqMsgId received)
    unfold msgsStateInfo
    split
    · exact sound
    · exact resends.handleMsgsStates acks
        (acks.requestsAcked sound fun _ _ _ => trivial) fun _ _ _ => trivial
  | msgsAllInfo ids received =>
    exact resends.handleMsgsStates acks sound fun _ _ _ => trivial
  | badMsgNotification resendId errorCode outerMsgId =>
    change Sound msgIds (session.badMsgNotification resendId errorCode outerMsgId).2
    unfold badMsgNotification
    simp only
    split
    · split
      · exact sound
      · split
        · exact resends.resend sound
        · exact sound
    · split
      · exact sound
      · exact sound.receive source _
  | badServerSalt resendId =>
    change Sound msgIds (session.badServerSalt resendId)
    unfold badServerSalt
    split
    · exact sound
    · exact resends.resend sound
  | newSessionCreated firstMsgId outerMsgId =>
    exact (resends.resendIds sound).receive source _
  | clearOldContainers old => exact resends.clearOldContainers sound
  | resendAll => exact resends.resendAll sound
  | changeSessionId =>
    exact sound.of_uses source le_rfl sound.resending sound.waits (fun _ _ now => now)
      fun _ now => now
  | restart =>
    exact Fewer.sound
      { Fewer.refl session with pingMsgId := .inr rfl, bindMsgId := .inr rfl } source sound

end

/-- Every run of the traffic ends in a sound session. -/
theorem Sound.run (source : IdSource msgIds) {events : List ((Int → Bool) × Traffic)}
    {last : SessionPrivate} (ends : TelegramDesktop.run (step msgIds) {} events = some last) :
    Sound msgIds last := by
  refine run_invariant ?_ Sound.initial ends
  intro state event next sound taken
  unfold step at taken
  split at taken
  next enabled =>
    cases taken
    exact sound.handle source enabled
  · cases taken

end Sound

end TelegramDesktop.SessionPrivate
