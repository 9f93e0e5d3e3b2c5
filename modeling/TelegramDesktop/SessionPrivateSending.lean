import TelegramDesktop.SessionPrivateIds

/-!
# Sending keeps the ids apart

A container is filled with ids below its own, which is fresh until the container is
closed.
-/

namespace TelegramDesktop.SessionPrivate

open SessionPrivate FlatMap

variable {msgIds : Nat → Nat} {session later : SessionPrivate}

theorem Sound.fresh_next (source : IdSource msgIds) (sound : Sound msgIds session) :
    session.Fresh (msgIds session.issued) where
  positive := source.positive _
  unused _ uses := (lt_irrefl _ (sound.used _ _ uses).2.1).elim
  notService service := (lt_irrefl _ (sound.service _ service)).elim

variable {msgId : Nat}

theorem Fresh.mtprotoMsgId (msgIds : Nat → Nat) (fresh : session.Fresh msgId) :
    (session.mtprotoMsgId msgIds).2.Fresh msgId :=
  fresh.of_subset (fun _ now => now) fun now => now

theorem Sound.mtprotoMsgId (source : IdSource msgIds) (sound : Sound msgIds session) :
    Sound msgIds (session.mtprotoMsgId msgIds).2 :=
  sound.of_uses source (Nat.le_succ _) sound.resending sound.waits (fun _ _ now => now)
    fun _ now => now

variable {requestId : Int}

theorem uses_setHeader {header : RequestHeader} :
    (session.setHeader 0 header).Uses msgId requestId ↔ session.Uses msgId requestId := by
  refine or_congr Iff.rfl (or_congr Iff.rfl (or_congr Iff.rfl (and_congr_right ?_)))
  intro identified
  simp [setHeader, identified]

theorem Sound.setHeader (source : IdSource msgIds) (sound : Sound msgIds session)
    (header : RequestHeader) : Sound msgIds (session.setHeader 0 header) :=
  sound.of_uses source le_rfl sound.resending sound.waits (fun _ _ => uses_setHeader.mp)
    fun _ now => now

theorem Fresh.setHeader (fresh : session.Fresh msgId) (header : RequestHeader) :
    (session.setHeader 0 header).Fresh msgId :=
  fresh.of_subset (fun _ => uses_setHeader.mp) fun now => now

theorem uses_numbered_service {needAck : Bool} {newId msgId : Nat}
    (uses : (session.numbered ⟨0, needAck⟩ newId).Uses msgId requestId) :
    session.Uses msgId requestId := by
  rcases uses_numbered uses with before | ⟨-, service, identified⟩
  · exact before
  · exact (identified service).elim

theorem Sound.numbered_service (source : IdSource msgIds) (sound : Sound msgIds session)
    (needAck : Bool) (newId : Nat) : Sound msgIds (session.numbered ⟨0, needAck⟩ newId) :=
  sound.of_uses source le_rfl sound.resending sound.waits (fun _ _ => uses_numbered_service)
    fun _ now => now

theorem Fresh.numbered_service (fresh : session.Fresh msgId) (needAck : Bool)
    (newId : Nat) : (session.numbered ⟨0, needAck⟩ newId).Fresh msgId :=
  fresh.of_subset (fun _ => uses_numbered_service) fun now => now

/-- Nothing happens to the requests, nor to what they wait for. -/
structure SameRequests (session later : SessionPrivate) : Prop where
  toSend : later.toSend = session.toSend
  haveSent : later.haveSent = session.haveSent
  header : ∀ requestId ≠ 0, later.header requestId = session.header requestId
  sessionId : later.sessionId = session.sessionId
  started : later.sessionMarkedAsStarted = session.sessionMarkedAsStarted
  haveReceivedMessages : later.haveReceivedMessages = session.haveReceivedMessages

namespace SameRequests

theorem refl (session : SessionPrivate) : SameRequests session session :=
  ⟨rfl, rfl, fun _ _ => rfl, rfl, rfl, rfl⟩

theorem trans {middle : SessionPrivate} (first : SameRequests session middle)
    (second : SameRequests middle later) : SameRequests session later where
  toSend := second.toSend.trans first.toSend
  haveSent := second.haveSent.trans first.haveSent
  header requestId identified :=
    (second.header requestId identified).trans (first.header requestId identified)
  sessionId := second.sessionId.trans first.sessionId
  started := second.started.trans first.started
  haveReceivedMessages := second.haveReceivedMessages.trans first.haveReceivedMessages

theorem setHeader (session : SessionPrivate) (header : RequestHeader) :
    SameRequests session (session.setHeader 0 header) :=
  ⟨rfl, rfl, fun _ identified => by simp [SessionPrivate.setHeader, identified], rfl, rfl, rfl⟩

theorem numbered (session : SessionPrivate) (needAck : Bool) (newId : Nat) :
    SameRequests session (session.numbered ⟨0, needAck⟩ newId) :=
  ⟨rfl, rfl, fun _ identified => numbered_header_of_ne identified, rfl, rfl, rfl⟩

theorem mtprotoMsgId (msgIds : Nat → Nat) (session : SessionPrivate) :
    SameRequests session (session.mtprotoMsgId msgIds).2 :=
  ⟨rfl, rfl, fun _ _ => rfl, rfl, rfl, rfl⟩

end SameRequests

/-- The id is remembered as that of a message of the session itself. -/
structure Remembers (msgId : Nat) (session later : SessionPrivate) : Prop where
  uses : ∀ other requestId, later.Uses other requestId → session.Uses other requestId
  service : ∀ other, later.IsService other → session.IsService other ∨ other = msgId
  same : SameRequests session later
  resendingIds : later.resendingIds = session.resendingIds
  issued : later.issued = session.issued
  messagesCounter : later.messagesCounter = session.messagesCounter

namespace Remembers

theorem refl (msgId : Nat) (session : SessionPrivate) : Remembers msgId session session :=
  ⟨fun _ _ now => now, fun _ => .inl, SameRequests.refl session, rfl, rfl, rfl⟩

theorem ping (msgId : Nat) (session : SessionPrivate) :
    Remembers msgId session { session with pingMsgId := msgId } := by
  refine ⟨fun _ _ now => now, ?_, ⟨rfl, rfl, fun _ _ => rfl, rfl, rfl, rfl⟩, rfl, rfl, rfl⟩
  rintro other (container | request | ⟨assigned, isPing | isBind⟩)
  · exact .inl (.inl container)
  · exact .inl (.inr (.inl request))
  · exact .inr isPing
  · exact .inl (.inr (.inr ⟨assigned, .inr isBind⟩))

theorem bind (msgId : Nat) (session : SessionPrivate) :
    Remembers msgId session { session with bindMsgId := msgId } := by
  refine ⟨fun _ _ now => now, ?_, ⟨rfl, rfl, fun _ _ => rfl, rfl, rfl, rfl⟩, rfl, rfl, rfl⟩
  rintro other (container | request | ⟨assigned, isPing | isBind⟩)
  · exact .inl (.inl container)
  · exact .inl (.inr (.inl request))
  · exact .inl (.inr (.inr ⟨assigned, .inl isPing⟩))
  · exact .inr isBind

theorem stateOrResend (msgId : Nat) (session : SessionPrivate) (ids : List Nat) :
    Remembers msgId session
      { session with
        stateAndResendRequests := session.stateAndResendRequests.emplace msgId ids } := by
  refine ⟨fun _ _ now => now, ?_, ⟨rfl, rfl, fun _ _ => rfl, rfl, rfl, rfl⟩, rfl, rfl, rfl⟩
  rintro other (container | request | special)
  · exact .inl (.inl container)
  · rcases contains_emplace.mp request with isNew | known
    · exact .inr isNew
    · exact .inl (.inr (.inl known))
  · exact .inl (.inr (.inr special))

theorem container (msgId : Nat) (session : SessionPrivate) (messages : List Nat) :
    Remembers msgId session
      { session with sentContainers := session.sentContainers.emplace msgId messages } := by
  refine ⟨fun _ _ now => now, ?_, ⟨rfl, rfl, fun _ _ => rfl, rfl, rfl, rfl⟩, rfl, rfl, rfl⟩
  rintro other (container | special)
  · rcases contains_emplace.mp container with isNew | known
    · exact .inr isNew
    · exact .inl (.inl known)
  · exact .inl (.inr special)

theorem alone (msgId : Nat) (session : SessionPrivate) (attempt : Attempt) (isBind : Bool) :
    Remembers msgId session (session.rememberService attempt isBind msgId) := by
  unfold rememberService
  split
  · exact bind msgId session
  · split
    · exact ping msgId session
    · split
      · exact refl msgId session
      · exact stateOrResend msgId session _

variable {msgId : Nat}

theorem sound (remembers : Remembers msgId session later) (source : IdSource msgIds)
    (sound : Sound msgIds session) (fresh : session.Fresh msgId)
    (below : msgId < msgIds session.issued) : Sound msgIds later := by
  refine sound.of_changes source remembers.issued.ge ?_ ?_
    (fun _ _ now => .inl (remembers.uses _ _ now))
    (fun _ first _ fresh now _ => (fresh.unused first (remembers.uses _ _ now)).elim)
    fun _ now => (remembers.service _ now).imp_right ?_
  · rw [remembers.same.haveSent, remembers.resendingIds]
    exact sound.resending
  · rw [remembers.same.toSend]
    exact sound.waits
  · rintro rfl
    exact ⟨fresh, remembers.issued ▸ below⟩

theorem fresh (remembers : Remembers msgId session later) {other : Nat}
    (fresh : session.Fresh other) (distinct : other ≠ msgId) : later.Fresh other where
  positive := fresh.positive
  unused requestId now := fresh.unused requestId (remembers.uses _ _ now)
  notService now := by
    rcases remembers.service other now with known | same
    · exact fresh.notService known
    · exact distinct same

end Remembers

/-- A container can be filled: its id is above all that is inside. -/
structure Packs (msgIds : Nat → Nat) (packing : Packing) : Prop where
  sound : Sound msgIds packing.session
  fresh : packing.session.Fresh packing.bigMsgId
  below : packing.bigMsgId < msgIds packing.session.issued

/-- A new message of the session itself is placed.  Its id is still fresh. -/
structure PlacedService (msgIds : Nat → Nat) (packing : Packing) (needAck : Bool)
    (later : Packing) : Prop where
  packs : Packs msgIds later
  fresh : later.session.Fresh packing.bigMsgId
  below : packing.bigMsgId < later.bigMsgId
  same : SameRequests packing.session later.session
  inner : later.inner = packing.inner ++
    [⟨packing.bigMsgId, packing.session.messagesCounter * 2 + needAck.toNat, needAck⟩]
  messagesCounter :
    later.session.messagesCounter = packing.session.messagesCounter + needAck.toNat

/-- What holds of the container is kept when a message of the session itself is
placed and remembered. -/
def KeptByServices (msgIds : Nat → Nat) (Holds : Packing → Prop) : Prop :=
  ∀ packing needAck later session, Packs msgIds packing → Holds packing →
    PlacedService msgIds packing needAck later →
      Remembers packing.bigMsgId later.session session → Holds { later with session := session }

theorem PlacedService.remember {packing later : Packing} {needAck : Bool}
    (placed : PlacedService msgIds packing needAck later) (source : IdSource msgIds)
    (remembers : Remembers packing.bigMsgId later.session session) :
    Packs msgIds { later with session := session } where
  sound := remembers.sound source placed.packs.sound placed.fresh
    (placed.below.trans placed.packs.below)
  fresh := remembers.fresh placed.packs.fresh placed.below.ne'
  below := remembers.issued ▸ placed.packs.below

theorem prepareToSend_service (packing : Packing) (forceNewMsgId needAck : Bool) :
    prepareToSend msgIds ⟨0, needAck⟩ packing.bigMsgId forceNewMsgId
        (packing.session.setHeader 0 {}) =
      (packing.bigMsgId,
        (packing.session.setHeader 0 {}).numbered ⟨0, needAck⟩ packing.bigMsgId) := by
  apply prepareToSend_new
  simp [setHeader]

variable {packing : Packing}

/-- What the messages of the session itself keep is kept by all before the requests. -/
theorem Packing.placeFirst_keeps (Holds : Packing → Prop) (attempt : Attempt)
    (bind forceNewMsgId : Bool)
    (ping : ∀ before, Holds before → Holds (before.placePing msgIds forceNewMsgId))
    (holds : Holds (if bind then packing.placeBind msgIds else packing)) :
    Holds (packing.placeFirst msgIds attempt bind forceNewMsgId) := by
  unfold Packing.placeFirst
  simp only
  split
  · exact ping _ holds
  · exact holds

/-- What the messages of the session itself keep is kept by all after the requests. -/
theorem Packing.placeLast_keeps (Holds : Packing → Prop) (attempt : Attempt)
    (forceNewMsgId : Bool)
    (stateOrResend : ∀ before ids, Holds before →
      Holds (before.placeStateOrResend msgIds forceNewMsgId ids))
    (plain : ∀ before, Holds before → Holds (before.placePlain msgIds forceNewMsgId))
    (holds : Holds packing) : Holds (packing.placeLast msgIds attempt forceNewMsgId) := by
  have maybePlain : ∀ (request : Bool) (before : Packing), Holds before →
      Holds (if request then before.placePlain msgIds forceNewMsgId else before) := by
    intro request before beforeHolds
    split
    · exact plain before beforeHolds
    · exact beforeHolds
  apply maybePlain
  apply maybePlain
  cases attempt.resendRequest with
  | none =>
    cases attempt.stateRequest with
    | none => exact holds
    | some ids => exact stateOrResend _ ids holds
  | some resent =>
    apply stateOrResend _ resent
    cases attempt.stateRequest with
    | none => exact holds
    | some ids => exact stateOrResend _ ids holds

namespace Packs

variable {packing : Packing}

theorem draw (source : IdSource msgIds) (sound : Sound msgIds session) (inner : List Message)
    (sentIds : List Nat) :
    Packs msgIds
      { session := (session.mtprotoMsgId msgIds).2
        bigMsgId := (session.mtprotoMsgId msgIds).1
        inner := inner
        sentIds := sentIds } where
  sound := sound.mtprotoMsgId source
  fresh := (sound.fresh_next source).mtprotoMsgId msgIds
  below := source.increasing (Nat.lt_succ_self _)

theorem start (source : IdSource msgIds) (sound : Sound msgIds session) :
    Packs msgIds (Packing.start msgIds session) :=
  draw source sound [] []

theorem placeService (source : IdSource msgIds) (packs : Packs msgIds packing)
    (forceNewMsgId needAck : Bool) :
    ∃ later, packing.placeService msgIds forceNewMsgId needAck = (packing.bigMsgId, later) ∧
      PlacedService msgIds packing needAck later := by
  have sound := (packs.sound.setHeader source {}).numbered_service source needAck
    packing.bigMsgId
  have fresh := (packs.fresh.setHeader {}).numbered_service needAck packing.bigMsgId
  have same := (SameRequests.setHeader packing.session {}).trans
    (SameRequests.numbered _ needAck packing.bigMsgId)
  have message : ((packing.session.setHeader 0 {}).numbered ⟨0, needAck⟩
      packing.bigMsgId).messageOf ⟨0, needAck⟩ =
        ⟨packing.bigMsgId, packing.session.messagesCounter * 2 + needAck.toNat, needAck⟩ := by
    rw [messageOf, numbered_msgId, numbered_number]
    rfl
  have counted : ((packing.session.setHeader 0 {}).numbered ⟨0, needAck⟩
      packing.bigMsgId).messagesCounter = packing.session.messagesCounter + needAck.toNat :=
    numbered_messagesCounter
  rw [Packing.placeService, Packing.place]
  simp only [prepareToSend_service packing, le_refl, if_true, message]
  exact ⟨_, rfl, {
    packs := draw source sound _ _
    fresh := fresh.mtprotoMsgId msgIds
    below := packs.below
    same := same.trans (SameRequests.mtprotoMsgId msgIds _)
    inner := rfl
    messagesCounter := counted }⟩

variable {Holds : Packing → Prop}

section

variable (source : IdSource msgIds) (packs : Packs msgIds packing)
include source packs

section

variable (kept : KeptByServices msgIds Holds) (holds : Holds packing) (forceNewMsgId : Bool)

include kept holds forceNewMsgId

theorem placePing :
    Packs msgIds (packing.placePing msgIds forceNewMsgId) ∧
      Holds (packing.placePing msgIds forceNewMsgId) := by
  obtain ⟨later, eq, placed⟩ := packs.placeService source forceNewMsgId true
  rw [Packing.placePing, eq]
  exact ⟨placed.remember source (Remembers.ping _ _),
    kept _ _ _ _ packs holds placed (Remembers.ping _ _)⟩

theorem placeStateOrResend (ids : List Nat) :
    Packs msgIds (packing.placeStateOrResend msgIds forceNewMsgId ids) ∧
      Holds (packing.placeStateOrResend msgIds forceNewMsgId ids) := by
  obtain ⟨later, eq, placed⟩ := packs.placeService source forceNewMsgId true
  rw [Packing.placeStateOrResend, eq]
  exact ⟨placed.remember source (Remembers.stateOrResend _ _ ids),
    kept _ _ _ _ packs holds placed (Remembers.stateOrResend _ _ ids)⟩

theorem placePlain :
    Packs msgIds (packing.placePlain msgIds forceNewMsgId) ∧
      Holds (packing.placePlain msgIds forceNewMsgId) := by
  obtain ⟨later, eq, placed⟩ := packs.placeService source forceNewMsgId false
  rw [Packing.placePlain, eq]
  exact ⟨placed.packs, kept _ _ _ _ packs holds placed (Remembers.refl _ _)⟩

end

theorem placeBind (fresh : packing.session.Fresh (packing.session.header 0).msgId)
    (below : (packing.session.header 0).msgId < packing.bigMsgId) :
    Packs msgIds (packing.placeBind msgIds) ∧
      SameRequests packing.session (packing.placeBind msgIds).session ∧
      (packing.placeBind msgIds).inner =
        packing.inner ++ [packing.session.messageOf ⟨0, true⟩] ∧
      (packing.placeBind msgIds).bigMsgId = packing.bigMsgId ∧
      (packing.placeBind msgIds).session.messagesCounter = packing.session.messagesCounter := by
  have assigned : (packing.session.header (⟨0, true⟩ : Request).requestId).msgId ≠ 0 :=
    fresh.positive.ne'
  have fewer : Fewer
      { packing.session with
        resendingIds := packing.session.resendingIds.erase (packing.session.header 0).msgId }
      packing.session :=
    { Fewer.refl packing.session with
      resendingIds := fun _ member => (mem_erase.mp member).1 }
  have remembers := Remembers.bind (packing.session.header 0).msgId
    { packing.session with
      resendingIds := packing.session.resendingIds.erase (packing.session.header 0).msgId }
  have place : packing.place msgIds false ⟨0, true⟩ =
      ((packing.session.header 0).msgId, { packing with
        session := { packing.session with
          resendingIds := packing.session.resendingIds.erase (packing.session.header 0).msgId }
        inner := packing.inner ++ [packing.session.messageOf ⟨0, true⟩] }) := by
    rw [Packing.place, prepareToSend_kept assigned rfl below.le]
    simp only [below.not_ge, if_false]
    rfl
  rw [Packing.placeBind, place]
  exact ⟨⟨remembers.sound source (fewer.sound source packs.sound) (fewer.fresh fresh)
    (below.trans packs.below), remembers.fresh (fewer.fresh packs.fresh) below.ne', packs.below⟩,
    ⟨rfl, rfl, fun _ _ => rfl, rfl, rfl, rfl⟩, rfl, rfl, rfl⟩

theorem placeFirst (kept : KeptByServices msgIds Holds) (attempt : Attempt)
    (bind forceNewMsgId : Bool)
    (binds : bind = true → packing.session.Fresh (packing.session.header 0).msgId ∧
      (packing.session.header 0).msgId < packing.bigMsgId)
    (bound : bind = true → Holds (packing.placeBind msgIds))
    (holds : bind = false → Holds packing) :
    Packs msgIds (packing.placeFirst msgIds attempt bind forceNewMsgId) ∧
      Holds (packing.placeFirst msgIds attempt bind forceNewMsgId) := by
  have first : Packs msgIds (if bind then packing.placeBind msgIds else packing) ∧
      Holds (if bind then packing.placeBind msgIds else packing) := by
    cases bind with
    | true => exact ⟨(packs.placeBind source (binds rfl).1 (binds rfl).2).1, bound rfl⟩
    | false => exact ⟨packs, holds rfl⟩
  exact Packing.placeFirst_keeps (fun packing => Packs msgIds packing ∧ Holds packing) attempt
    bind forceNewMsgId
    (fun _ before => before.1.placePing source kept before.2 forceNewMsgId) first

theorem placeLast (kept : KeptByServices msgIds Holds) (holds : Holds packing) (attempt : Attempt)
    (forceNewMsgId : Bool) :
    Packs msgIds (packing.placeLast msgIds attempt forceNewMsgId) ∧
      Holds (packing.placeLast msgIds attempt forceNewMsgId) :=
  Packing.placeLast_keeps (fun packing => Packs msgIds packing ∧ Holds packing) attempt
    forceNewMsgId
    (fun _ ids before => before.1.placeStateOrResend source kept before.2 forceNewMsgId ids)
    (fun _ before => before.1.placePlain source kept before.2 forceNewMsgId) ⟨packs, holds⟩

theorem close (forceNewMsgId : Bool) :
    ∃ later, packing.close msgIds forceNewMsgId =
        (.container ⟨packing.bigMsgId, packing.session.messagesCounter * 2, false⟩ packing.inner,
          later) ∧
      Sound msgIds later ∧ SameRequests packing.session later ∧
      later.issued = packing.session.issued ∧
      later.messagesCounter = packing.session.messagesCounter := by
  have sound := (packs.sound.setHeader source {}).numbered_service source false packing.bigMsgId
  have fresh := (packs.fresh.setHeader {}).numbered_service false packing.bigMsgId
  have same := (SameRequests.setHeader packing.session {}).trans
    (SameRequests.numbered _ false packing.bigMsgId)
  have remembers := Remembers.container packing.bigMsgId
    ((packing.session.setHeader 0 {}).numbered ⟨0, false⟩ packing.bigMsgId) packing.sentIds
  have counted : ((packing.session.setHeader 0 {}).numbered ⟨0, false⟩
      packing.bigMsgId).messagesCounter = packing.session.messagesCounter :=
    numbered_messagesCounter
  rw [Packing.close]
  exact ⟨_, rfl, remembers.sound source sound fresh packs.below, same.trans remembers.same, rfl,
    counted⟩

end

end Packs

variable {request : Request}

theorem uses_emplace_haveSent
    (owner : session.Uses msgId request.requestId) {other : Nat}
    (now : Uses
      { session with haveSent := session.haveSent.emplace msgId request } other requestId) :
    session.Uses other requestId := by
  rcases now with ⟨sent, member, rfl⟩ | rest
  · rcases mem_of_mem_emplaceEntry member with isNew | old
    · obtain ⟨rfl, rfl⟩ := Prod.mk.inj isNew
      exact owner
    · exact uses_of_haveSent old
  · exact .inr rest

theorem uses_emplace_ackedIds
    (owner : session.Uses msgId requestId) {other : Nat} {otherId : Int}
    (now : Uses
      { session with ackedIds := session.ackedIds.emplace msgId requestId } other otherId) :
    session.Uses other otherId := by
  rcases now with sent | resending | acked | header
  · exact .inl sent
  · exact .inr (.inl resending)
  · rcases mem_of_mem_emplaceEntry acked with isNew | old
    · obtain ⟨rfl, rfl⟩ := Prod.mk.inj isNew
      exact owner
    · exact uses_of_ackedIds old
  · exact .inr (.inr (.inr header))

theorem Sound.emplace_haveSent (source : IdSource msgIds) (sound : Sound msgIds session)
    (owner : session.Uses msgId request.requestId)
    (notResending : session.resendingIds.contains msgId = false) :
    Sound msgIds { session with haveSent := session.haveSent.emplace msgId request } := by
  refine sound.of_uses source le_rfl ?_ sound.waits (fun _ _ => uses_emplace_haveSent owner)
    fun _ now => now
  intro other sent
  rcases contains_emplace.mp sent with rfl | old
  · exact notResending
  · exact sound.resending other old

theorem Sound.emplace_ackedIds (source : IdSource msgIds) (sound : Sound msgIds session)
    (owner : session.Uses msgId requestId) :
    Sound msgIds { session with ackedIds := session.ackedIds.emplace msgId requestId } :=
  sound.of_uses source le_rfl sound.resending sound.waits
    (fun _ _ => uses_emplace_ackedIds owner) fun _ now => now

/-- A prepared request that is kept for its answer, or counted as acked. -/
def keep (msgId : Nat) (request : Request) (session : SessionPrivate) : SessionPrivate :=
  if request.needAck then
    { session with haveSent := session.haveSent.emplace msgId request }
  else { session with ackedIds := session.ackedIds.emplace msgId request.requestId }

theorem keep_haveSent :
    (session.keep msgId request).haveSent =
      if request.needAck then session.haveSent.emplace msgId request else session.haveSent := by
  unfold keep
  split <;> rfl

@[simp] theorem keep_header :
    (session.keep msgId request).header = session.header := by
  unfold keep
  split <;> rfl

@[simp] theorem keep_messagesCounter :
    (session.keep msgId request).messagesCounter = session.messagesCounter := by
  unfold keep
  split <;> rfl

@[simp] theorem keep_toSend :
    (session.keep msgId request).toSend = session.toSend := by
  unfold keep
  split <;> rfl

@[simp] theorem keep_sessionId :
    (session.keep msgId request).sessionId = session.sessionId := by
  unfold keep
  split <;> rfl

@[simp] theorem keep_started :
    (session.keep msgId request).sessionMarkedAsStarted = session.sessionMarkedAsStarted := by
  unfold keep
  split <;> rfl

@[simp] theorem keep_issued :
    (session.keep msgId request).issued = session.issued := by
  unfold keep
  split <;> rfl

@[simp] theorem keep_haveReceivedMessages :
    (session.keep msgId request).haveReceivedMessages = session.haveReceivedMessages := by
  unfold keep
  split <;> rfl

theorem Sound.keep (source : IdSource msgIds) (sound : Sound msgIds session)
    (owner : session.Uses msgId request.requestId)
    (notResending : session.resendingIds.contains msgId = false) :
    Sound msgIds (session.keep msgId request) := by
  unfold SessionPrivate.keep
  split
  · exact sound.emplace_haveSent source owner notResending
  · exact sound.emplace_ackedIds source owner

theorem Fresh.keep {msgId newId : Nat} (fresh : session.Fresh newId)
    (owner : session.Uses msgId request.requestId) :
    (session.keep msgId request).Fresh newId := by
  unfold SessionPrivate.keep
  split
  · exact fresh.of_subset (fun _ => uses_emplace_haveSent owner) fun now => now
  · exact fresh.of_subset (fun _ => uses_emplace_ackedIds owner) fun now => now

/-- A round of the loop over the requests places the prepared request and keeps
it. -/
structure PlacedRequest (msgIds : Nat → Nat) (forceNewMsgId : Bool) (request : Request)
    (packing : Packing) (result : Nat × SessionPrivate) (later : Packing) : Prop where
  prepared : Prepared msgIds request packing.bigMsgId forceNewMsgId packing.session result
  packs : Packs msgIds later
  inner : later.inner = packing.inner ++ [result.2.messageOf request]
  below : result.1 < later.bigMsgId
  grows : packing.bigMsgId ≤ later.bigMsgId
  header : later.session.header = result.2.header
  messagesCounter : later.session.messagesCounter = result.2.messagesCounter
  haveSent : later.session.haveSent =
    if request.needAck then result.2.haveSent.emplace result.1 request else result.2.haveSent
  toSend : later.session.toSend = packing.session.toSend
  sessionId : later.session.sessionId = packing.session.sessionId
  started : later.session.sessionMarkedAsStarted = packing.session.sessionMarkedAsStarted
  haveReceivedMessages :
    later.session.haveReceivedMessages = packing.session.haveReceivedMessages

variable {forceNewMsgId : Bool}

theorem placeRequest_eq {entry : Int × Request} (identified : entry.2.requestId ≠ 0)
    {placed : Packing} (place : packing.place msgIds forceNewMsgId entry.2 = (msgId, placed)) :
    ∃ sentIds, packing.placeRequest msgIds forceNewMsgId entry =
      { placed with session := placed.session.keep msgId entry.2, sentIds := sentIds } := by
  unfold Packing.placeRequest keep
  rw [place]
  simp only [identified, if_false]
  split
  · exact ⟨_, rfl⟩
  · exact ⟨_, rfl⟩

theorem Packs.placeRequest (source : IdSource msgIds) (packs : Packs msgIds packing)
    {entry : Int × Request} (identified : 0 < entry.2.requestId) :
    ∃ result, PlacedRequest msgIds forceNewMsgId entry.2 packing result
      (packing.placeRequest msgIds forceNewMsgId entry) := by
  have prepared : Prepared msgIds entry.2 packing.bigMsgId forceNewMsgId packing.session
      (prepareToSend msgIds entry.2 packing.bigMsgId forceNewMsgId packing.session) :=
    packs.sound.prepareToSend source identified packs.fresh packs.below
  generalize result_eq :
    prepareToSend msgIds entry.2 packing.bigMsgId forceNewMsgId packing.session = result
    at prepared
  refine ⟨result, ?_⟩
  have big : packing.bigMsgId < msgIds result.2.issued := prepared.issued ▸ packs.below
  rcases prepared.outcome with ⟨isNew, -⟩ | ⟨-, older, fresh, -⟩
  · -- the fresh id is taken and another one is drawn
    have place : packing.place msgIds forceNewMsgId entry.2 =
        (result.1, { packing with
          session := (result.2.mtprotoMsgId msgIds).2
          bigMsgId := (result.2.mtprotoMsgId msgIds).1
          inner := packing.inner ++ [result.2.messageOf entry.2] }) := by
      rw [Packing.place, result_eq]
      simp only [isNew, le_refl, if_true]
    obtain ⟨sentIds, eq⟩ := placeRequest_eq identified.ne' place
    rw [eq]
    have next := prepared.sound.fresh_next source
    have drawn : msgIds result.2.issued <
        msgIds ((result.2.mtprotoMsgId msgIds).2.keep result.1 entry.2).issued := by
      rw [keep_issued]
      exact source.increasing (Nat.lt_succ_self _)
    exact {
      prepared := prepared
      packs := ⟨(prepared.sound.mtprotoMsgId source).keep source prepared.uses
        prepared.notResending, (next.mtprotoMsgId msgIds).keep prepared.uses, drawn⟩
      inner := rfl
      below := isNew ▸ big
      grows := big.le
      header := keep_header
      messagesCounter := keep_messagesCounter
      haveSent := keep_haveSent
      toSend := keep_toSend.trans prepared.toSend
      sessionId := keep_sessionId.trans prepared.sessionId
      started := keep_started.trans prepared.started
      haveReceivedMessages :=
        keep_haveReceivedMessages.trans prepared.haveReceivedMessages }
  · have place : packing.place msgIds forceNewMsgId entry.2 =
        (result.1, { packing with
          session := result.2
          inner := packing.inner ++ [result.2.messageOf entry.2] }) := by
      rw [Packing.place, result_eq]
      simp only [older.not_ge, if_false]
    obtain ⟨sentIds, eq⟩ := placeRequest_eq identified.ne' place
    rw [eq]
    have kept : packing.bigMsgId < msgIds (result.2.keep result.1 entry.2).issued := by
      rw [keep_issued]
      exact big
    exact {
      prepared := prepared
      packs := ⟨prepared.sound.keep source prepared.uses prepared.notResending,
        fresh.keep prepared.uses, kept⟩
      inner := rfl
      below := older
      grows := le_rfl
      header := keep_header
      messagesCounter := keep_messagesCounter
      haveSent := keep_haveSent
      toSend := keep_toSend.trans prepared.toSend
      sessionId := keep_sessionId.trans prepared.sessionId
      started := keep_started.trans prepared.started
      haveReceivedMessages :=
        keep_haveReceivedMessages.trans prepared.haveReceivedMessages }

/-- What every round of the loop keeps, of the requests that are left and of the
container, holds after the loop. -/
theorem Packs.placeRequests (source : IdSource msgIds)
    (packs : Packs msgIds packing) {waiting : List (Int × Request)}
    (waits : ∀ entry ∈ waiting, entry.2.requestId = entry.1 ∧ 0 < entry.1)
    {Holds : List (Int × Request) → Packing → Prop}
    (kept : ∀ entry waiting packing result later, Packs msgIds packing →
      Holds (entry :: waiting) packing → 0 < entry.2.requestId →
        PlacedRequest msgIds forceNewMsgId entry.2 packing result later → Holds waiting later)
    (holds : Holds waiting packing) :
    Packs msgIds (waiting.foldl (Packing.placeRequest msgIds forceNewMsgId) packing) ∧
      Holds [] (waiting.foldl (Packing.placeRequest msgIds forceNewMsgId) packing) := by
  induction waiting generalizing packing with
  | nil => exact ⟨packs, holds⟩
  | cons entry waiting ih =>
    obtain ⟨sameId, positive⟩ := waits entry (by simp)
    have identified : 0 < entry.2.requestId := sameId ▸ positive
    obtain ⟨result, placed⟩ : ∃ result, PlacedRequest msgIds forceNewMsgId entry.2 packing
        result (packing.placeRequest msgIds forceNewMsgId entry) :=
      packs.placeRequest source identified
    exact ih placed.packs (fun other member => waits other (by simp [member]))
      (kept entry waiting packing result _ packs holds identified placed)

/-- The id of the bind request is fresh while no message has it. -/
def BindReady (msgIds : Nat → Nat) (bind : Bool) (session : SessionPrivate) : Prop :=
  bind = true → session.Fresh (session.header 0).msgId ∧
    (session.header 0).msgId < msgIds session.issued

theorem Fewer.clearToSend (session : SessionPrivate) :
    Fewer { session with toSend := ∅ } session :=
  { Fewer.refl session with toSend := fun _ member => by cases member }

theorem BindReady.fewer {bind : Bool} (binds : BindReady msgIds bind session)
    (fewer : Fewer later session) : BindReady msgIds bind later := by
  intro isBind
  obtain ⟨fresh, below⟩ := binds isBind
  rw [fewer.header, fewer.issued]
  exact ⟨fewer.fresh fresh, below⟩

theorem Fewer.takeToSend (sendAll : Bool) (session : SessionPrivate) :
    Fewer (session.takeToSend sendAll).2 session := by
  unfold SessionPrivate.takeToSend
  split
  · exact Fewer.clearToSend session
  · exact Fewer.refl session

theorem Sound.waits_takeToSend (sound : Sound msgIds session) (sendAll : Bool) :
    ∀ entry ∈ (session.takeToSend sendAll).1, entry.2.requestId = entry.1 ∧ 0 < entry.1 := by
  unfold takeToSend
  split
  · exact sound.waits
  · intro entry member
    cases member

variable {forceNewMsgId bind : Bool} {attempt : Attempt}

theorem Sound.sendContainer (source : IdSource msgIds) (sound : Sound msgIds session)
    (binds : BindReady msgIds bind session)
    (Holds : List (Int × Request) → Packing → Prop)
    (service : ∀ waiting, KeptByServices msgIds (Holds waiting))
    (request : ∀ entry waiting packing result later, Packs msgIds packing →
      Holds (entry :: waiting) packing → 0 < entry.2.requestId →
        PlacedRequest msgIds forceNewMsgId entry.2 packing result later → Holds waiting later)
    (bound : bind = true → Holds (session.takeToSend attempt.sendAll).1
      ((Packing.start msgIds (session.takeToSend attempt.sendAll).2).placeBind msgIds))
    (start : bind = false → Holds (session.takeToSend attempt.sendAll).1
      (Packing.start msgIds (session.takeToSend attempt.sendAll).2)) :
    ∃ packing later, Packs msgIds packing ∧ Holds [] packing ∧
      session.sendContainer msgIds attempt bind forceNewMsgId =
        (.container ⟨packing.bigMsgId, packing.session.messagesCounter * 2, false⟩ packing.inner,
          later) ∧
      Sound msgIds later ∧ SameRequests packing.session later ∧
      later.issued = packing.session.issued ∧
      later.messagesCounter = packing.session.messagesCounter := by
  have fewer := Fewer.takeToSend attempt.sendAll session
  have takenBinds := binds.fewer fewer
  have started := Packs.start source (fewer.sound source sound)
  obtain ⟨firstPacks, firstHolds⟩ := started.placeFirst source (service _) attempt bind
    forceNewMsgId
    (fun isBind => ⟨(takenBinds isBind).1.mtprotoMsgId msgIds, (takenBinds isBind).2⟩)
    bound start
  obtain ⟨placedPacks, placedHolds⟩ := firstPacks.placeRequests source
    (sound.waits_takeToSend attempt.sendAll) request firstHolds
  obtain ⟨lastPacks, lastHolds⟩ := placedPacks.placeLast source (service []) placedHolds attempt
    forceNewMsgId
  obtain ⟨later, eq, closed⟩ := lastPacks.close source forceNewMsgId
  exact ⟨_, later, lastPacks, lastHolds, eq, closed⟩

theorem sendSingleRequest_eq (identified : request.requestId ≠ 0)
    {result : Nat × SessionPrivate}
    (prepare : prepareToSend msgIds request (msgIds session.issued) forceNewMsgId
      { session with toSend := ∅, issued := session.issued + 1 } = result) :
    session.sendSingleRequest msgIds request forceNewMsgId =
      (.single (result.2.messageOf request), result.2.keep result.1 request) := by
  unfold sendSingleRequest keep
  simp only [mtprotoMsgId, prepare, identified, if_false]

section

variable (source : IdSource msgIds) (sound : Sound msgIds session)
include source sound

theorem Sound.prepareSingle (identified : 0 < request.requestId) (forceNewMsgId : Bool) :
    Prepared msgIds request (msgIds session.issued) forceNewMsgId
      { session with toSend := ∅, issued := session.issued + 1 }
      (SessionPrivate.prepareToSend msgIds request (msgIds session.issued) forceNewMsgId
        { session with toSend := ∅, issued := session.issued + 1 }) := by
  have cleared := (Fewer.clearToSend session).sound source sound
  exact (cleared.mtprotoMsgId source).prepareToSend source identified
    ((cleared.fresh_next source).mtprotoMsgId msgIds) (source.increasing (Nat.lt_succ_self _))

theorem Sound.sendSingleRequest (identified : 0 < request.requestId) :
    Sound msgIds (session.sendSingleRequest msgIds request forceNewMsgId).2 := by
  have prepared := sound.prepareSingle source identified forceNewMsgId
  rw [sendSingleRequest_eq identified.ne' rfl]
  exact prepared.sound.keep source prepared.uses prepared.notResending

theorem sendSingleService_new (attempt : Attempt) (forceNewMsgId : Bool) :
    ∃ needAck later,
      session.sendSingleService msgIds attempt false forceNewMsgId =
        (.single ⟨msgIds session.issued, session.messagesCounter * 2 + needAck.toNat, needAck⟩,
          later) ∧
      Sound msgIds later ∧ SameRequests session later ∧
      later.issued = session.issued + 1 ∧
      later.messagesCounter = session.messagesCounter + needAck.toNat := by
  generalize acks : (!(attempt.ackRequest || attempt.httpWait)) = needAck
  let drawn := (session.mtprotoMsgId msgIds).2
  let prepared := (drawn.setHeader 0 {}).numbered ⟨0, needAck⟩ (msgIds session.issued)
  have unassigned : ((drawn.setHeader 0 {}).header (⟨0, needAck⟩ : Request).requestId).msgId =
      0 := by simp [setHeader]
  have preparedSound : Sound msgIds prepared :=
    ((sound.mtprotoMsgId source).setHeader source {}).numbered_service source needAck _
  have fresh : prepared.Fresh (msgIds session.issued) :=
    (((sound.fresh_next source).mtprotoMsgId msgIds).setHeader {}).numbered_service needAck _
  have same : SameRequests session prepared :=
    ((SameRequests.mtprotoMsgId msgIds session).trans (SameRequests.setHeader drawn {})).trans
      (SameRequests.numbered _ needAck _)
  have message : prepared.messageOf ⟨0, needAck⟩ =
      ⟨msgIds session.issued, session.messagesCounter * 2 + needAck.toNat, needAck⟩ := by
    rw [messageOf, numbered_msgId, numbered_number]
    rfl
  have prepare : ∀ forced, prepareToSend msgIds ⟨0, needAck⟩ (msgIds session.issued) forced
      (drawn.setHeader 0 {}) = (msgIds session.issued, prepared) :=
    fun _ => prepareToSend_new unassigned
  have eq : session.sendSingleService msgIds attempt false forceNewMsgId =
      (.single (prepared.messageOf ⟨0, needAck⟩),
        prepared.rememberService attempt false (msgIds session.issued)) := by
    have prepareNow := prepare (forceNewMsgId && !false)
    unfold sendSingleService
    simp only [acks]
    exact congrArg (fun result : Nat × SessionPrivate =>
      (Packet.single (result.2.messageOf ⟨0, needAck⟩),
        result.2.rememberService attempt false result.1)) prepareNow
  have remembers := Remembers.alone (msgIds session.issued) prepared attempt false
  rw [message] at eq
  exact ⟨needAck, _, eq,
    remembers.sound source preparedSound fresh (source.increasing (Nat.lt_succ_self _)),
    same.trans remembers.same, remembers.issued,
    remembers.messagesCounter.trans numbered_messagesCounter⟩

theorem sendSingleService_bind (binds : BindReady msgIds true session) (attempt : Attempt)
    (forceNewMsgId : Bool) (alone : attempt.count true = 1) :
    ∃ later,
      session.sendSingleService msgIds attempt true forceNewMsgId =
        (.single (session.messageOf ⟨0, true⟩), later) ∧
      Sound msgIds later ∧ SameRequests session later ∧
      later.issued = session.issued + 1 ∧
      later.messagesCounter = session.messagesCounter := by
  obtain ⟨fresh, below⟩ := binds rfl
  have acks : (!(attempt.ackRequest || attempt.httpWait)) = true := by
    unfold Attempt.count at alone
    have noAck : attempt.ackRequest = false :=
      Bool.toNat_eq_zero.mp (by simp only [Bool.toNat_true] at alone; omega)
    have noWait : attempt.httpWait = false :=
      Bool.toNat_eq_zero.mp (by simp only [Bool.toNat_true] at alone; omega)
    rw [noAck, noWait]
    rfl
  let drawn := (session.mtprotoMsgId msgIds).2
  let kept := { drawn with
    resendingIds := drawn.resendingIds.erase (session.header 0).msgId }
  have fewer : Fewer kept drawn :=
    { Fewer.refl drawn with
      resendingIds := fun _ member => (mem_erase.mp member).1 }
  have prepare : prepareToSend msgIds ⟨0, true⟩ (msgIds session.issued)
      (forceNewMsgId && !true) drawn = ((session.header 0).msgId, kept) :=
    prepareToSend_kept fresh.positive.ne' (Bool.and_false _) below.le
  have eq : session.sendSingleService msgIds attempt true forceNewMsgId =
      (.single (session.messageOf ⟨0, true⟩),
        kept.rememberService attempt true (session.header 0).msgId) := by
    unfold sendSingleService
    simp only [acks]
    exact congrArg (fun result : Nat × SessionPrivate =>
      (Packet.single (result.2.messageOf ⟨0, true⟩),
        result.2.rememberService attempt true result.1)) prepare
  have keptSound := fewer.sound source (sound.mtprotoMsgId source)
  have keptFresh := fewer.fresh (fresh.mtprotoMsgId msgIds)
  have remembers := Remembers.alone (session.header 0).msgId kept attempt true
  have same : SameRequests session kept := ⟨rfl, rfl, fun _ _ => rfl, rfl, rfl, rfl⟩
  exact ⟨_, eq, remembers.sound source keptSound keptFresh
    (below.trans (source.increasing (Nat.lt_succ_self _))),
    same.trans remembers.same, remembers.issued, remembers.messagesCounter⟩

end

/-- The session before a packet is made, with the message that binds a key if there is one. -/
structure GotReady (msgIds : Nat → Nat) (attempt : Attempt) (bind : Bool)
    (session ready : SessionPrivate) : Prop where
  sound : Sound msgIds ready
  binds : BindReady msgIds bind ready
  bindMessage : bind = true → ready.messageOf ⟨0, true⟩ =
    ⟨msgIds session.issued, session.messagesCounter * 2 + 1, true⟩
  toSend : ready.toSend = session.toSend
  haveSent : ready.haveSent = session.haveSent
  header : ∀ requestId ≠ 0, ready.header requestId = session.header requestId
  sessionId : ready.sessionId = session.sessionId
  started : ready.sessionMarkedAsStarted = (session.sessionMarkedAsStarted || attempt.sendAll)
  haveReceivedMessages : ready.haveReceivedMessages = session.haveReceivedMessages
  issued : ready.issued = session.issued + bind.toNat
  messagesCounter : ready.messagesCounter = session.messagesCounter + bind.toNat

theorem Sound.counted (source : IdSource msgIds) (sound : Sound msgIds session)
    (marked : Bool) (counter : Nat) :
    Sound msgIds { session with sessionMarkedAsStarted := marked, messagesCounter := counter } :=
  sound.of_uses source le_rfl sound.resending sound.waits (fun _ _ now => now) fun _ now => now

theorem Sound.getReady (source : IdSource msgIds) (sound : Sound msgIds session)
    (attempt : Attempt) (bind : Bool) :
    GotReady msgIds attempt bind session (session.getReady msgIds attempt bind) := by
  have marked : (if attempt.sendAll then { session with sessionMarkedAsStarted := true }
      else session) =
      { session with
        sessionMarkedAsStarted := session.sessionMarkedAsStarted || attempt.sendAll } := by
    cases attempt.sendAll <;> simp
  rw [SessionPrivate.getReady, marked]
  cases bind with
  | false =>
    exact {
      sound := sound.counted source _ _
      binds := fun isBind => by cases isBind
      bindMessage := fun isBind => by cases isBind
      toSend := rfl
      haveSent := rfl
      header := fun _ _ => rfl
      sessionId := rfl
      started := rfl
      haveReceivedMessages := rfl
      issued := rfl
      messagesCounter := rfl }
  | true =>
    have drawn := (sound.mtprotoMsgId source).counted source
      (session.sessionMarkedAsStarted || attempt.sendAll) (session.messagesCounter + 1)
    have fresh : ({ session with
        sessionMarkedAsStarted := session.sessionMarkedAsStarted || attempt.sendAll
        messagesCounter := session.messagesCounter + 1
        issued := session.issued + 1 } : SessionPrivate).Fresh (msgIds session.issued) :=
      (sound.fresh_next source).of_subset (fun _ now => now) fun now => now
    exact {
      sound := drawn.setHeader source _
      binds := fun _ => ⟨fresh.setHeader _, source.increasing (Nat.lt_succ_self _)⟩
      bindMessage := fun _ => rfl
      toSend := rfl
      haveSent := rfl
      header := fun _ identified => by simp [prepareBind, SessionPrivate.setHeader,
        SessionPrivate.mtprotoMsgId, nextRequestSeqNumber, identified]
      sessionId := rfl
      started := rfl
      haveReceivedMessages := rfl
      issued := rfl
      messagesCounter := rfl }

theorem getReady_toSend (attempt : Attempt) (bind : Bool) :
    (session.getReady msgIds attempt bind).toSend = session.toSend := by
  unfold getReady
  cases attempt.sendAll <;> cases bind <;> rfl

/-- What `tryToSend` comes to: nothing, a message alone or a container. -/
theorem tryToSend_cases (msgIds : Nat → Nat) (found : Attempt) (session : SessionPrivate) :
    session.tryToSend msgIds found = (none, session) ∨
    ∃ attempt bind ready forceNewMsgId,
      attempt = found.whenConnected ∧ ready = session.getReady msgIds attempt bind ∧
      forceNewMsgId = (attempt.sendAll && !session.sessionMarkedAsStarted) ∧
      ((attempt.sendAll = true → session.toSend = ∅) ∧
        session.tryToSend msgIds found = (none, ready) ∨
      (∃ entry sent, attempt.sendAll = true ∧ session.toSend.entries = [entry] ∧
        ready.sendSingleRequest msgIds entry.2 forceNewMsgId = sent ∧
        session.tryToSend msgIds found = (some sent.1, sent.2)) ∨
      (∃ sent, (attempt.sendAll = true → session.toSend = ∅) ∧ attempt.count bind = 1 ∧
        ready.sendSingleService msgIds attempt bind forceNewMsgId = sent ∧
        session.tryToSend msgIds found = (some sent.1, sent.2)) ∨
      ∃ sent, ready.sendContainer msgIds attempt bind forceNewMsgId = sent ∧
        session.tryToSend msgIds found = (some sent.1, sent.2)) := by
  unfold tryToSend
  split
  · exact .inl rfl
  · right
    refine ⟨_, session.bindMsgId == 0 && found.whenConnected.keyCreator &&
      found.whenConnected.readyToBind, _, _, rfl, rfl, rfl, ?_⟩
    have noneWaits : (if found.whenConnected.sendAll then
          (session.getReady msgIds found.whenConnected (session.bindMsgId == 0 &&
            found.whenConnected.keyCreator && found.whenConnected.readyToBind)).toSend.entries
        else []) = [] → found.whenConnected.sendAll = true → session.toSend = ∅ := by
      intro none sendAll
      rw [if_pos sendAll, getReady_toSend] at none
      exact ext_entries none
    simp only
    split
    next none =>
      exact .inl ⟨noneWaits none, rfl⟩
    next entry _ waiting =>
      have sends : found.whenConnected.sendAll = true ∧ session.toSend.entries = [entry] := by
        split at waiting
        next sendAll =>
          exact ⟨sendAll, getReady_toSend found.whenConnected _ ▸ waiting⟩
        · cases waiting
      right
      split
      · exact .inr (.inr ⟨_, rfl, rfl⟩)
      · exact .inl ⟨entry, _, sends.1, sends.2, rfl, rfl⟩
    next alone none =>
      exact .inr (.inr (.inl ⟨_, noneWaits none, alone, rfl, rfl⟩))
    · exact .inr (.inr (.inr ⟨_, rfl, rfl⟩))

theorem Sound.tryToSend (source : IdSource msgIds) (sound : Sound msgIds session)
    (found : Attempt) : Sound msgIds (session.tryToSend msgIds found).2 := by
  rcases tryToSend_cases msgIds found session with
    eq | ⟨attempt, bind, ready, forceNewMsgId, -, readyEq, -, cases⟩
  · rw [eq]
    exact sound
  · have got := sound.getReady source attempt bind
    rw [← readyEq] at got
    rcases cases with ⟨-, eq⟩ | ⟨entry, sent, -, only, sentEq, eq⟩ | ⟨sent, -, alone, sentEq, eq⟩ |
      ⟨sent, sentEq, eq⟩
    · rw [eq]
      exact got.sound
    · rw [eq, ← sentEq]
      obtain ⟨sameId, positive⟩ := sound.waits entry (by simp [only])
      exact got.sound.sendSingleRequest source (sameId ▸ positive)
    · rw [eq, ← sentEq]
      cases bind with
      | true =>
        obtain ⟨later, serviceEq, laterSound, -⟩ :=
          sendSingleService_bind source got.sound got.binds attempt forceNewMsgId alone
        rw [serviceEq]
        exact laterSound
      | false =>
        obtain ⟨needAck, later, serviceEq, laterSound, -⟩ :=
          sendSingleService_new source got.sound attempt forceNewMsgId
        rw [serviceEq]
        exact laterSound
    · rw [eq, ← sentEq]
      obtain ⟨packing, later, -, -, containerEq, laterSound, -⟩ :=
        got.sound.sendContainer source got.binds (fun _ _ => True)
          (fun _ _ _ _ _ _ _ _ _ => trivial) (fun _ _ _ _ _ _ _ _ _ => trivial)
          (fun _ => trivial) (fun _ => trivial)
      rw [containerEq]
      exact laterSound

end TelegramDesktop.SessionPrivate
