import TelegramDesktop.SessionPrivate

/-!
# Message ids in use

Every id that a session has given out stands for one request, or for a service message,
and never for both.
-/

namespace TelegramDesktop

open FlatMap

/-- What is relied on of `base::unixtime::mtproto_msg_id()`. -/
structure IdSource (msgIds : Nat → Nat) : Prop where
  increasing : StrictMono msgIds
  positive : ∀ index, 0 < msgIds index

namespace SessionPrivate

/-- The id stands for the request in a map or in its header. -/
def Uses (session : SessionPrivate) (msgId : Nat) (requestId : Int) : Prop :=
  (∃ request, (msgId, request) ∈ session.haveSent.entries ∧ request.requestId = requestId) ∨
    (msgId, requestId) ∈ session.resendingIds.entries ∨
    (msgId, requestId) ∈ session.ackedIds.entries ∨
    requestId ≠ 0 ∧ msgId ≠ 0 ∧ (session.header requestId).msgId = msgId

/-- The id of a message that carries no request. -/
def IsService (session : SessionPrivate) (msgId : Nat) : Prop :=
  session.sentContainers.contains msgId = true ∨
    session.stateAndResendRequests.contains msgId = true ∨
    msgId ≠ 0 ∧ (msgId = session.pingMsgId ∨ msgId = session.bindMsgId)

/-- An id that nothing in the session uses yet. -/
structure Fresh (session : SessionPrivate) (msgId : Nat) : Prop where
  positive : 0 < msgId
  unused : ∀ requestId, ¬ session.Uses msgId requestId
  notService : ¬ session.IsService msgId

/-- Every id is used by one request, and all of them are below the next one. -/
structure Sound (msgIds : Nat → Nat) (session : SessionPrivate) : Prop where
  usedOnce : ∀ msgId first second, session.Uses msgId first → session.Uses msgId second →
    first = second
  used : ∀ msgId requestId, session.Uses msgId requestId →
    0 < msgId ∧ msgId < msgIds session.issued ∧ 0 < requestId ∧ ¬ session.IsService msgId
  service : ∀ msgId, session.IsService msgId → msgId < msgIds session.issued
  resending : ∀ msgId, session.haveSent.contains msgId = true →
    session.resendingIds.contains msgId = false
  waits : ∀ entry ∈ session.toSend.entries, entry.2.requestId = entry.1 ∧ 0 < entry.1

variable {session : SessionPrivate}

theorem uses_of_haveSent {entry : Nat × Request} (member : entry ∈ session.haveSent.entries) :
    session.Uses entry.1 entry.2.requestId :=
  .inl ⟨entry.2, member, rfl⟩

theorem uses_of_resendingIds {entry : Nat × Int}
    (member : entry ∈ session.resendingIds.entries) : session.Uses entry.1 entry.2 :=
  .inr (.inl member)

theorem uses_of_ackedIds {entry : Nat × Int}
    (member : entry ∈ session.ackedIds.entries) : session.Uses entry.1 entry.2 :=
  .inr (.inr (.inl member))

theorem uses_header {requestId : Int} (request : requestId ≠ 0)
    (assigned : (session.header requestId).msgId ≠ 0) :
    session.Uses (session.header requestId).msgId requestId :=
  .inr (.inr (.inr ⟨request, assigned, rfl⟩))

variable {msgId : Nat}

theorem Fresh.of_subset {session later : SessionPrivate} (fresh : session.Fresh msgId)
    (uses : ∀ requestId, later.Uses msgId requestId → session.Uses msgId requestId)
    (service : later.IsService msgId → session.IsService msgId) : later.Fresh msgId where
  positive := fresh.positive
  unused requestId now := fresh.unused requestId (uses requestId now)
  notService now := fresh.notService (service now)

theorem not_uses_empty {requestId : Int} :
    ¬ ({} : SessionPrivate).Uses msgId requestId := by
  rintro (⟨request, member, -⟩ | member | member | ⟨-, assigned, none⟩)
  · cases member
  · cases member
  · cases member
  · exact assigned none.symm

theorem not_isService_empty : ¬ ({} : SessionPrivate).IsService msgId := by
  rintro (known | known | ⟨assigned, ping | bind⟩)
  · cases known
  · cases known
  · exact assigned ping
  · exact assigned bind

namespace Sound

variable {msgIds : Nat → Nat} {session later : SessionPrivate}

theorem initial : Sound msgIds {} where
  usedOnce _ _ _ uses := (not_uses_empty uses).elim
  used _ _ uses := (not_uses_empty uses).elim
  service _ service := (not_isService_empty service).elim
  resending _ known := by cases known
  waits _ member := by cases member

section

variable (source : IdSource msgIds) (sound : Sound msgIds session)
  (issued : session.issued ≤ later.issued)
  (resending : ∀ msgId, later.haveSent.contains msgId = true →
    later.resendingIds.contains msgId = false)
  (waits : ∀ entry ∈ later.toSend.entries, entry.2.requestId = entry.1 ∧ 0 < entry.1)
include source sound issued resending waits

theorem of_changes
    (uses : ∀ msgId requestId, later.Uses msgId requestId → session.Uses msgId requestId ∨
      session.Fresh msgId ∧ msgId < msgIds later.issued ∧ 0 < requestId ∧
        ¬ later.IsService msgId)
    (once : ∀ msgId first second, session.Fresh msgId → later.Uses msgId first →
      later.Uses msgId second → first = second)
    (service : ∀ msgId, later.IsService msgId → session.IsService msgId ∨
      session.Fresh msgId ∧ msgId < msgIds later.issued) : Sound msgIds later := by
  have bound := source.increasing.monotone issued
  refine ⟨?_, ?_, ?_, resending, waits⟩
  · intro msgId first second firstUses secondUses
    rcases uses _ _ firstUses with oldFirst | ⟨fresh, -⟩
    · rcases uses _ _ secondUses with oldSecond | ⟨fresh, -⟩
      · exact sound.usedOnce msgId first second oldFirst oldSecond
      · exact (fresh.unused first oldFirst).elim
    · exact once msgId first second fresh firstUses secondUses
  · intro msgId requestId laterUses
    rcases uses _ _ laterUses with old | ⟨fresh, below, request, notService⟩
    · obtain ⟨positive, below, request, notService⟩ := sound.used _ _ old
      refine ⟨positive, below.trans_le bound, request, ?_⟩
      intro now
      rcases service _ now with known | ⟨fresh, -⟩
      · exact notService known
      · exact fresh.unused requestId old
    · exact ⟨fresh.positive, below, request, notService⟩
  · intro msgId now
    rcases service _ now with known | ⟨-, below⟩
    · exact (sound.service msgId known).trans_le bound
    · exact below

theorem of_uses
    (uses : ∀ msgId requestId, later.Uses msgId requestId → session.Uses msgId requestId)
    (service : ∀ msgId, later.IsService msgId → session.IsService msgId) :
    Sound msgIds later :=
  sound.of_changes source issued resending waits (fun _ _ now => .inl (uses _ _ now))
    (fun _ first _ fresh now _ => (fresh.unused first (uses _ _ now)).elim)
    fun _ now => .inl (service _ now)

theorem of_newUse {newId : Nat} {owner : Int} (fresh : session.Fresh newId)
    (below : newId < msgIds later.issued) (request : 0 < owner)
    (uses : ∀ msgId requestId, later.Uses msgId requestId →
      session.Uses msgId requestId ∨ msgId = newId ∧ requestId = owner)
    (service : ∀ msgId, later.IsService msgId → session.IsService msgId) :
    Sound msgIds later := by
  refine sound.of_changes source issued resending waits ?_ ?_ fun _ now => .inl (service _ now)
  · intro msgId requestId now
    refine (uses _ _ now).imp_right ?_
    rintro ⟨rfl, rfl⟩
    exact ⟨fresh, below, request, fun known => fresh.notService (service _ known)⟩
  · intro msgId first second unused firstUses secondUses
    rcases uses _ _ firstUses with old | ⟨-, firstOwner⟩
    · exact (unused.unused first old).elim
    · rcases uses _ _ secondUses with old | ⟨-, secondOwner⟩
      · exact (unused.unused second old).elim
      · rw [firstOwner, secondOwner]

end

end Sound

/-- Entries are removed, and nothing else happens to the ids. -/
structure Fewer (later session : SessionPrivate) : Prop where
  haveSent : ∀ entry ∈ later.haveSent.entries, entry ∈ session.haveSent.entries
  resendingIds : ∀ entry ∈ later.resendingIds.entries, entry ∈ session.resendingIds.entries
  ackedIds : ∀ entry ∈ later.ackedIds.entries, entry ∈ session.ackedIds.entries
  toSend : ∀ entry ∈ later.toSend.entries, entry ∈ session.toSend.entries
  header : later.header = session.header
  sentContainers : ∀ msgId, later.sentContainers.contains msgId = true →
    session.sentContainers.contains msgId = true
  stateAndResendRequests : ∀ msgId, later.stateAndResendRequests.contains msgId = true →
    session.stateAndResendRequests.contains msgId = true
  pingMsgId : later.pingMsgId = session.pingMsgId ∨ later.pingMsgId = 0
  bindMsgId : later.bindMsgId = session.bindMsgId ∨ later.bindMsgId = 0
  issued : later.issued = session.issued

namespace Fewer

variable {msgIds : Nat → Nat} {session later : SessionPrivate}

theorem refl (session : SessionPrivate) : Fewer session session where
  haveSent _ member := member
  resendingIds _ member := member
  ackedIds _ member := member
  toSend _ member := member
  header := rfl
  sentContainers _ known := known
  stateAndResendRequests _ known := known
  pingMsgId := .inl rfl
  bindMsgId := .inl rfl
  issued := rfl

section

variable (fewer : Fewer later session)
include fewer

theorem uses {requestId : Int} (now : later.Uses msgId requestId) :
    session.Uses msgId requestId := by
  rcases now with ⟨request, sent, rfl⟩ | resending | acked | ⟨identified, assigned, header⟩
  · exact uses_of_haveSent (fewer.haveSent _ sent)
  · exact uses_of_resendingIds (fewer.resendingIds _ resending)
  · exact uses_of_ackedIds (fewer.ackedIds _ acked)
  · rw [fewer.header] at header
    exact .inr (.inr (.inr ⟨identified, assigned, header⟩))

theorem isService (now : later.IsService msgId) : session.IsService msgId := by
  rcases now with container | request | ⟨assigned, ping | bind⟩
  · exact .inl (fewer.sentContainers _ container)
  · exact .inr (.inl (fewer.stateAndResendRequests _ request))
  · rcases fewer.pingMsgId with same | none
    · exact .inr (.inr ⟨assigned, .inl (ping.trans same)⟩)
    · exact (assigned (ping.trans none)).elim
  · rcases fewer.bindMsgId with same | none
    · exact .inr (.inr ⟨assigned, .inr (bind.trans same)⟩)
    · exact (assigned (bind.trans none)).elim

theorem fresh (fresh : session.Fresh msgId) : later.Fresh msgId :=
  fresh.of_subset (fun _ => fewer.uses) fewer.isService

theorem sound (source : IdSource msgIds) (sound : Sound msgIds session) : Sound msgIds later := by
  refine sound.of_uses source fewer.issued.ge ?_ ?_ (fun _ _ => fewer.uses)
    fun _ => fewer.isService
  · intro msgId sent
    obtain ⟨entry, member, rfl⟩ := contains_iff.mp sent
    have before := sound.resending _ (contains_of_mem (fewer.haveSent entry member))
    rw [contains_eq_false] at before ⊢
    exact fun other otherMem => before other (fewer.resendingIds other otherMem)
  · exact fun entry member => sound.waits entry (fewer.toSend entry member)

end

end Fewer

namespace Sound

variable {msgIds : Nat → Nat} {session later : SessionPrivate}

theorem sent_ne_zero (sound : Sound msgIds session) {entry : Nat × Request}
    (member : entry ∈ session.haveSent.entries) : entry.1 ≠ 0 :=
  (sound.used _ _ (uses_of_haveSent member)).1.ne'

end Sound

section Preparing

variable {msgIds : Nat → Nat} {session : SessionPrivate} {request : Request} {newId : Nat}
  {forceNewMsgId : Bool}

/-- The request with a new id and number. -/
def numbered (request : Request) (newId : Nat) (session : SessionPrivate) : SessionPrivate :=
  let header := session.header request.requestId
  let (number, session) := session.nextRequestSeqNumber request.needAck
  session.setHeader request.requestId { header with msgId := newId, number := number }

/-- The entry under its new message id. -/
def moved (oldId newId : Nat) (session : SessionPrivate) : SessionPrivate :=
  { session with
    resendingIds := session.resendingIds.erase oldId
    ackedIds := session.ackedIds.rekey oldId newId
    haveSent := session.haveSent.rekey oldId newId
    sentContainers := session.sentContainers.mapValues fun messages =>
      messages.map fun innerMsgId => if innerMsgId = oldId then newId else innerMsgId }

theorem prepareToSend_new (unassigned : (session.header request.requestId).msgId = 0) :
    prepareToSend msgIds request newId forceNewMsgId session =
      (newId, session.numbered request newId) := by
  simp [prepareToSend, unassigned, numbered]

theorem prepareToSend_kept (assigned : (session.header request.requestId).msgId ≠ 0)
    (notForced : forceNewMsgId = false)
    (inOrder : (session.header request.requestId).msgId ≤ newId) :
    prepareToSend msgIds request newId forceNewMsgId session =
      ((session.header request.requestId).msgId,
        { session with
          resendingIds :=
            session.resendingIds.erase (session.header request.requestId).msgId }) := by
  simp [prepareToSend, assigned, notForced, inOrder]

section

variable (fresh : session.Fresh newId)
include fresh

theorem Fresh.notResending : session.resendingIds.contains newId = false := by
  rw [contains_eq_false]
  rintro entry member rfl
  exact fresh.unused _ (uses_of_resendingIds member)

theorem Fresh.erase_notResending {erased : Nat} :
    (session.resendingIds.erase erased).contains newId = false := by
  rw [contains_eq_false]
  intro entry member
  exact contains_eq_false.mp fresh.notResending entry (mem_erase.mp member).1

theorem Fresh.notAcked : session.ackedIds.contains newId = false := by
  rw [contains_eq_false]
  rintro entry member rfl
  exact fresh.unused _ (uses_of_ackedIds member)

theorem Fresh.notSent : session.haveSent.contains newId = false := by
  rw [contains_eq_false]
  rintro entry member rfl
  exact fresh.unused _ (uses_of_haveSent member)

theorem Fresh.unusedMsgId {tries : Nat} {erased : Nat} :
    unusedMsgId msgIds tries newId
        { session with resendingIds := session.resendingIds.erase erased } =
      (newId, { session with resendingIds := session.resendingIds.erase erased }) := by
  cases tries with
  | zero => rfl
  | succ tries =>
    simp [SessionPrivate.unusedMsgId, fresh.erase_notResending, fresh.notAcked, fresh.notSent]

end

theorem prepareToSend_replaced (assigned : (session.header request.requestId).msgId ≠ 0)
    (identified : request.requestId ≠ 0) (fresh : session.Fresh newId)
    (replaces : forceNewMsgId = true ∨ newId < (session.header request.requestId).msgId) :
    prepareToSend msgIds request newId forceNewMsgId session =
      (newId, (session.moved (session.header request.requestId).msgId newId).numbered request
        newId) := by
  have distinct : (session.header request.requestId).msgId ≠ newId := by
    intro same
    refine fresh.unused request.requestId ?_
    rw [← same]
    exact uses_header identified assigned
  have erased : ((session.resendingIds.erase (session.header request.requestId).msgId).rekey
      (session.header request.requestId).msgId newId) =
      session.resendingIds.erase (session.header request.requestId).msgId := by
    apply rekey_of_not_contains
    rw [contains_eq_false]
    exact fun entry member => (mem_erase.mp member).2
  have forced : (forceNewMsgId || decide (newId < (session.header request.requestId).msgId)) =
      true := by simpa using replaces
  simp only [prepareToSend, assigned, ne_eq, not_false_eq_true, if_true, forced, replaceMsgId,
    distinct, if_false, fresh.unusedMsgId, erased, numbered, moved, nextRequestSeqNumber]

theorem uses_numbered {requestId : Int}
    (uses : (session.numbered request newId).Uses msgId requestId) :
    session.Uses msgId requestId ∨
      msgId = newId ∧ requestId = request.requestId ∧ requestId ≠ 0 := by
  rcases uses with sent | resending | acked | ⟨identified, assigned, header⟩
  · exact .inl (.inl sent)
  · exact .inl (.inr (.inl resending))
  · exact .inl (.inr (.inr (.inl acked)))
  · by_cases same : requestId = request.requestId
    · refine .inr ⟨?_, same, identified⟩
      rw [← header, same]
      simp [numbered, nextRequestSeqNumber, setHeader]
    · refine .inl (.inr (.inr (.inr ⟨identified, assigned, ?_⟩)))
      rw [← header]
      simp [numbered, nextRequestSeqNumber, setHeader, same]

theorem numbered_uses (identified : request.requestId ≠ 0) (positive : newId ≠ 0) :
    (session.numbered request newId).Uses newId request.requestId := by
  refine .inr (.inr (.inr ⟨identified, positive, ?_⟩))
  simp [numbered, nextRequestSeqNumber, setHeader]

variable {oldId : Nat}

theorem uses_moved {requestId : Int} (uses : (session.moved oldId newId).Uses msgId requestId) :
    session.Uses msgId requestId ∨ msgId = newId ∧ session.Uses oldId requestId := by
  rcases uses with ⟨sent, member, rfl⟩ | resending | acked | header
  · rcases mem_of_mem_rekey member with ⟨isNew, old⟩ | ⟨old, -⟩
    · exact .inr ⟨isNew, uses_of_haveSent old⟩
    · exact .inl (uses_of_haveSent old)
  · exact .inl (uses_of_resendingIds (mem_erase.mp resending).1)
  · rcases mem_of_mem_rekey acked with ⟨isNew, old⟩ | ⟨old, -⟩
    · exact .inr ⟨isNew, uses_of_ackedIds old⟩
    · exact .inl (uses_of_ackedIds old)
  · exact .inl (.inr (.inr (.inr header)))

theorem isService_moved :
    (session.moved oldId newId).IsService msgId ↔ session.IsService msgId := by
  unfold IsService
  rw [show (session.moved oldId newId).sentContainers = session.sentContainers.mapValues _
    from rfl, contains_mapValues]
  rfl

theorem moved_haveSent (missing : session.haveSent.contains oldId = false) :
    (session.moved oldId newId).haveSent = session.haveSent :=
  rekey_of_not_contains missing

theorem moved_held :
    ∀ entry ∈ (session.moved oldId newId).haveSent.entries,
      ∃ msgId, (msgId, entry.2) ∈ session.haveSent.entries := by
  intro entry member
  rcases mem_of_mem_rekey member with ⟨-, old⟩ | ⟨old, -⟩
  · exact ⟨oldId, old⟩
  · exact ⟨entry.1, old⟩

@[simp] theorem numbered_header_of_ne {other : Int} (distinct : other ≠ request.requestId) :
    (session.numbered request newId).header other = session.header other := by
  simp [numbered, nextRequestSeqNumber, setHeader, distinct]

@[simp] theorem numbered_msgId :
    ((session.numbered request newId).header request.requestId).msgId = newId := by
  simp [numbered, nextRequestSeqNumber, setHeader]

@[simp] theorem numbered_number :
    ((session.numbered request newId).header request.requestId).number =
      session.messagesCounter * 2 + request.needAck.toNat := by
  cases acked : request.needAck <;>
    simp [numbered, nextRequestSeqNumber, setHeader, acked]

@[simp] theorem numbered_messagesCounter :
    (session.numbered request newId).messagesCounter =
      session.messagesCounter + request.needAck.toNat := by
  cases acked : request.needAck <;>
    simp [numbered, nextRequestSeqNumber, setHeader, acked]

/-- A request is prepared with an id that is fresh: it gets this id and the next
number, or it keeps what it has. -/
structure Prepared (msgIds : Nat → Nat) (request : Request) (newId : Nat)
    (forceNewMsgId : Bool) (session : SessionPrivate) (result : Nat × SessionPrivate) :
    Prop where
  sound : Sound msgIds result.2
  uses : result.2.Uses result.1 request.requestId
  notResending : result.2.resendingIds.contains result.1 = false
  haveSent : session.haveSent.contains (session.header request.requestId).msgId = false →
    result.2.haveSent = session.haveSent
  held : ∀ entry ∈ result.2.haveSent.entries,
    ∃ msgId, (msgId, entry.2) ∈ session.haveSent.entries
  header : (result.2.header request.requestId).msgId = result.1
  header_of_ne : ∀ other ≠ request.requestId, result.2.header other = session.header other
  outcome :
    (result.1 = newId ∧
      (result.2.header request.requestId).number =
        session.messagesCounter * 2 + request.needAck.toNat ∧
      result.2.messagesCounter = session.messagesCounter + request.needAck.toNat) ∨
    (forceNewMsgId = false ∧ result.1 < newId ∧ result.2.Fresh newId ∧
      result.2.header = session.header ∧
      result.2.messagesCounter = session.messagesCounter)
  issued : result.2.issued = session.issued
  toSend : result.2.toSend = session.toSend
  sessionId : result.2.sessionId = session.sessionId
  started : result.2.sessionMarkedAsStarted = session.sessionMarkedAsStarted
  haveReceivedMessages : result.2.haveReceivedMessages = session.haveReceivedMessages

section

variable (source : IdSource msgIds) (sound : Sound msgIds session)
  (identified : 0 < request.requestId) (fresh : session.Fresh newId)
  (below : newId < msgIds session.issued)

include source sound identified fresh below

/-- Moving what is under the old id of a request to a fresh id and numbering the
request uses the fresh id for this request. -/
theorem Sound.replaced (assigned : (session.header request.requestId).msgId ≠ 0) :
    Sound msgIds
      ((session.moved (session.header request.requestId).msgId newId).numbered request
        newId) := by
  have owner := uses_header identified.ne' assigned
  refine sound.of_newUse source le_rfl ?_ sound.waits fresh below identified ?_
    fun _ now => isService_moved.mp now
  · intro msgId sent
    obtain ⟨entry, member, rfl⟩ := contains_iff.mp sent
    rw [contains_eq_false]
    intro other otherMem
    have resending := (mem_erase.mp otherMem).1
    rcases mem_of_mem_rekey member with ⟨isNew, -⟩ | ⟨old, -⟩
    · rw [isNew]
      exact contains_eq_false.mp fresh.notResending other resending
    · exact contains_eq_false.mp (sound.resending _ (contains_of_mem old)) other resending
  · intro msgId requestId uses
    rcases uses_numbered uses with before | ⟨isNew, isOwner, -⟩
    · refine (uses_moved before).imp_right ?_
      rintro ⟨isNew, old⟩
      exact ⟨isNew, sound.usedOnce _ _ _ old owner⟩
    · exact .inr ⟨isNew, isOwner⟩

theorem Sound.prepareToSend :
    Prepared msgIds request newId forceNewMsgId session
      (prepareToSend msgIds request newId forceNewMsgId session) := by
  have notZero := identified.ne'
  by_cases assigned : (session.header request.requestId).msgId = 0
  · rw [prepareToSend_new assigned]
    have numberedSound : Sound msgIds (session.numbered request newId) := by
      refine sound.of_newUse source le_rfl sound.resending sound.waits fresh below identified ?_
        fun _ now => now
      intro msgId requestId uses
      exact (uses_numbered uses).imp_right fun new => ⟨new.1, new.2.1⟩
    exact {
      sound := numberedSound
      uses := numbered_uses notZero fresh.positive.ne'
      notResending := fresh.notResending
      haveSent := fun _ => rfl
      held := fun entry member => ⟨entry.1, member⟩
      header := numbered_msgId
      header_of_ne := fun _ distinct => numbered_header_of_ne distinct
      outcome := .inl ⟨rfl, numbered_number, numbered_messagesCounter⟩
      issued := rfl
      toSend := rfl
      sessionId := rfl
      started := rfl
      haveReceivedMessages := rfl }
  · by_cases replaces :
        forceNewMsgId = true ∨ newId < (session.header request.requestId).msgId
    · rw [prepareToSend_replaced assigned notZero fresh replaces]
      exact {
        sound := sound.replaced source identified fresh below assigned
        uses := numbered_uses notZero fresh.positive.ne'
        notResending := fresh.erase_notResending
        haveSent := moved_haveSent
        held := moved_held
        header := numbered_msgId
        header_of_ne := fun _ distinct => numbered_header_of_ne distinct
        outcome := .inl ⟨rfl, numbered_number, numbered_messagesCounter⟩
        issued := rfl
        toSend := rfl
        sessionId := rfl
        started := rfl
        haveReceivedMessages := rfl }
    · obtain ⟨notForced, inOrder⟩ := not_or.mp replaces
      have notForced := Bool.not_eq_true _ ▸ notForced
      have inOrder := not_lt.mp inOrder
      rw [prepareToSend_kept assigned notForced inOrder]
      have uses := uses_header notZero assigned
      have below : (session.header request.requestId).msgId < newId := by
        refine lt_of_le_of_ne inOrder ?_
        intro same
        rw [same] at uses
        exact fresh.unused _ uses
      have fewer : Fewer
          { session with
            resendingIds :=
              session.resendingIds.erase (session.header request.requestId).msgId }
          session :=
        { Fewer.refl session with
          resendingIds := fun _ member => (mem_erase.mp member).1 }
      have erased : (session.resendingIds.erase (session.header request.requestId).msgId).contains
            (session.header request.requestId).msgId = false := by
        rw [contains_eq_false]
        exact fun other otherMem => (mem_erase.mp otherMem).2
      exact {
        sound := fewer.sound source sound
        uses := .inr (.inr (.inr ⟨notZero, assigned, rfl⟩))
        notResending := erased
        haveSent := fun _ => rfl
        held := fun entry member => ⟨entry.1, member⟩
        header := rfl
        header_of_ne := fun _ _ => rfl
        outcome := .inr ⟨notForced, below, fewer.fresh fresh, rfl, rfl⟩
        issued := rfl
        toSend := rfl
        sessionId := rfl
        started := rfl
        haveReceivedMessages := rfl }

end

end Preparing

end SessionPrivate

end TelegramDesktop
