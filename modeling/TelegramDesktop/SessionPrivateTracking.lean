import TelegramDesktop.SessionPrivateTraffic

/-!
# Requests that are tracked

A request that is watched waits to be sent or was sent, and the key that it was sent
under is the id in its header.
-/

namespace TelegramDesktop.SessionPrivate

open FlatMap SessionPrivate List

variable {msgIds : Nat → Nat} {session later : SessionPrivate} {known watched : Request → Prop}
  {waiting : List (Int × Request)}

/-- The watched requests are among those that wait and those that were sent, which
are all known. -/
structure Tracks (known watched : Request → Prop) (waiting : List (Int × Request))
    (session : SessionPrivate) : Prop where
  header : ∀ entry ∈ session.haveSent.entries,
    (session.header entry.2.requestId).msgId = entry.1
  apart : ∀ entry ∈ waiting, ∀ other ∈ session.haveSent.entries,
    entry.2.requestId ≠ other.2.requestId
  knownWaiting : ∀ entry ∈ waiting, known entry.2
  knownSent : ∀ entry ∈ session.haveSent.entries, known entry.2
  present : ∀ request, watched request → (request.requestId, request) ∈ waiting ∨
    ∃ msgId, (msgId, request) ∈ session.haveSent.entries

namespace Tracks

theorem eq_of_requestId (tracks : Tracks known watched waiting session)
    {first second : Nat × Request} (firstMem : first ∈ session.haveSent.entries)
    (secondMem : second ∈ session.haveSent.entries)
    (same : first.2.requestId = second.2.requestId) : first = second := by
  apply eq_of_key firstMem secondMem
  rw [← tracks.header first firstMem, ← tracks.header second secondMem, same]

theorem of_same (tracks : Tracks known watched waiting session) (sound : Sound msgIds session)
    (haveSent : later.haveSent = session.haveSent)
    (header : ∀ requestId ≠ 0, later.header requestId = session.header requestId) :
    Tracks known watched waiting later where
  header entry member := by
    rw [haveSent] at member
    have identified := (sound.used _ _ (uses_of_haveSent member)).2.2.1
    rw [header _ identified.ne']
    exact tracks.header entry member
  apart entry member other otherMem := by
    rw [haveSent] at otherMem
    exact tracks.apart entry member other otherMem
  knownWaiting := tracks.knownWaiting
  knownSent entry member := by
    rw [haveSent] at member
    exact tracks.knownSent entry member
  present request isWatched := by
    rw [haveSent]
    exact tracks.present request isWatched

theorem once (tracks : Tracks known watched session.toSend.entries session)
    (sound : Sound msgIds session) {request : Request} (isWatched : watched request) :
    (session.toSend.entries.countP fun entry => entry.2.requestId = request.requestId) +
      (session.haveSent.entries.countP fun entry => entry.2.requestId = request.requestId) =
        1 := by
  have waitingOnce : (session.toSend.entries.countP
      fun entry => entry.2.requestId = request.requestId) ≤ 1 := by
    refine countP_le_one ?_
    intro first firstMem second secondMem firstSame secondSame
    apply eq_of_key firstMem secondMem
    rw [← (sound.waits first firstMem).1, ← (sound.waits second secondMem).1,
      of_decide_eq_true firstSame, of_decide_eq_true secondSame]
  have sentOnce : (session.haveSent.entries.countP
      fun entry => entry.2.requestId = request.requestId) ≤ 1 := by
    refine countP_le_one ?_
    intro first firstMem second secondMem firstSame secondSame
    exact tracks.eq_of_requestId firstMem secondMem
      ((of_decide_eq_true firstSame).trans (of_decide_eq_true secondSame).symm)
  rcases tracks.present request isWatched with waits | ⟨msgId, sent⟩
  · have one : 0 < (session.toSend.entries.countP
        fun entry => entry.2.requestId = request.requestId) :=
      countP_pos_iff.mpr ⟨_, waits, by simp⟩
    have none : (session.haveSent.entries.countP
        fun entry => entry.2.requestId = request.requestId) = 0 := by
      rw [countP_eq_zero]
      intro other member same
      exact tracks.apart _ waits other member (of_decide_eq_true same).symm
    omega
  · have one : 0 < (session.haveSent.entries.countP
        fun entry => entry.2.requestId = request.requestId) :=
      countP_pos_iff.mpr ⟨_, sent, by simp⟩
    have none : (session.toSend.entries.countP
        fun entry => entry.2.requestId = request.requestId) = 0 := by
      rw [countP_eq_zero]
      intro other member same
      exact tracks.apart other member _ sent (of_decide_eq_true same)
    omega

end Tracks

section Sending

variable {entry : Int × Request} {forceNewMsgId : Bool} {newId : Nat}
  {result : Nat × SessionPrivate}

theorem Tracks.notSent (tracks : Tracks known watched (entry :: waiting) session)
    (sound : Sound msgIds session) (identified : 0 < entry.2.requestId) :
    session.haveSent.contains (session.header entry.2.requestId).msgId = false := by
  rw [contains_eq_false]
  intro other member same
  have assigned : (session.header entry.2.requestId).msgId ≠ 0 :=
    same ▸ sound.sent_ne_zero member
  have owner := sound.usedOnce _ _ _ (uses_of_haveSent member)
    (same.symm ▸ uses_header identified.ne' assigned)
  exact tracks.apart entry (by simp) other member owner.symm

theorem Tracks.place (tracks : Tracks known watched (entry :: waiting) session)
    (sound : Sound msgIds session)
    (distinct : ∀ other ∈ waiting, other.2.requestId ≠ entry.2.requestId)
    (acks : ∀ request, watched request → request.needAck = true)
    (identified : 0 < entry.2.requestId)
    (prepared : Prepared msgIds entry.2 newId forceNewMsgId session result)
    (header : later.header = result.2.header)
    (haveSent : later.haveSent =
      if entry.2.needAck then result.2.haveSent.emplace result.1 entry.2
      else result.2.haveSent) :
    Tracks known watched waiting later := by
  have before : result.2.haveSent = session.haveSent :=
    prepared.haveSent (tracks.notSent sound identified)
  have fresh : ∀ other ∈ result.2.haveSent.entries, other.1 ≠ result.1 := by
    intro other member same
    have owner := prepared.sound.usedOnce _ _ _ (uses_of_haveSent member)
      (same.symm ▸ prepared.uses)
    rw [before] at member
    exact tracks.apart entry (by simp) other member owner.symm
  have sent : ∀ other ∈ later.haveSent.entries,
      other = (result.1, entry.2) ∨ other ∈ session.haveSent.entries := by
    intro other member
    rw [haveSent] at member
    split at member
    · rw [← before]
      exact (mem_emplace fresh).mp member
    · exact .inr (before ▸ member)
  have kept : ∀ other ∈ session.haveSent.entries, other ∈ later.haveSent.entries := by
    intro other member
    rw [haveSent]
    split
    · exact (mem_emplace fresh).mpr (.inr (before ▸ member))
    · exact before ▸ member
  refine ⟨?_, ?_, ?_, ?_, ?_⟩
  · intro other member
    rw [header]
    rcases sent other member with rfl | old
    · exact prepared.header
    · rw [prepared.header_of_ne _ (tracks.apart entry (by simp) other old).symm]
      exact tracks.header other old
  · intro first firstMem second secondMem
    rcases sent second secondMem with rfl | old
    · exact distinct first firstMem
    · exact tracks.apart first (by simp [firstMem]) second old
  · exact fun other member => tracks.knownWaiting other (by simp [member])
  · intro other member
    rcases sent other member with rfl | old
    · exact tracks.knownWaiting entry (by simp)
    · exact tracks.knownSent other old
  · intro request isWatched
    rcases tracks.present request isWatched with waits | ⟨msgId, member⟩
    · rcases mem_cons.mp waits with isHead | later'
      · have same : entry.2 = request := (congrArg Prod.snd isHead).symm
        refine .inr ⟨result.1, ?_⟩
        rw [haveSent, if_pos (same ▸ acks request isWatched), ← same]
        exact (mem_emplace fresh).mpr (.inl rfl)
      · exact .inl later'
    · exact .inr ⟨msgId, kept _ member⟩

/-- What is tracked while a container is filled with the requests that are taken,
or with none while they go on waiting. -/
def PacksTracked (known watched : Request → Prop) (waiting : List (Int × Request))
    (packing : Packing) : Prop :=
  Tracks known watched (waiting ++ packing.session.toSend.entries) packing.session ∧
    (waiting ++ packing.session.toSend.entries).Pairwise
      (fun first second => first.1 < second.1) ∧
    ∀ entry ∈ waiting ++ packing.session.toSend.entries, entry.2.requestId = entry.1

theorem PacksTracked.of_same {packing : Packing}
    (tracked : PacksTracked known watched waiting packing) (sound : Sound msgIds packing.session)
    {next : Packing} (same : SameRequests packing.session next.session) :
    PacksTracked known watched waiting next := by
  unfold PacksTracked
  rw [same.toSend]
  exact ⟨tracked.1.of_same sound same.haveSent same.header, tracked.2⟩

theorem packsTracked_service : KeptByServices msgIds (PacksTracked known watched waiting) :=
  fun _ _ _ _ packs tracked placed remembers =>
    tracked.of_same packs.sound (placed.same.trans remembers.same)

theorem packsTracked_request (acks : ∀ request, watched request → request.needAck = true)
    {packing later : Packing} (packs : Packs msgIds packing)
    (tracked : PacksTracked known watched (entry :: waiting) packing)
    (identified : 0 < entry.2.requestId)
    (placed : PlacedRequest msgIds forceNewMsgId entry.2 packing result later) :
    PacksTracked known watched waiting later := by
  obtain ⟨tracks, increasing, keys⟩ := tracked
  rw [cons_append, pairwise_cons] at increasing
  have distinct : ∀ other ∈ waiting ++ packing.session.toSend.entries,
      other.2.requestId ≠ entry.2.requestId := by
    intro other member
    rw [keys other (mem_cons_of_mem entry member), keys entry (by simp)]
    exact (increasing.1 other member).ne'
  unfold PacksTracked
  rw [placed.toSend]
  exact ⟨tracks.place packs.sound distinct acks identified placed.prepared placed.header
    placed.haveSent, increasing.2,
    fun other member => keys other (mem_cons_of_mem entry member)⟩

theorem PacksTracked.start (tracks : Tracks known watched session.toSend.entries session)
    (sound : Sound msgIds session) (sendAll : Bool) :
    PacksTracked known watched (session.takeToSend sendAll).1
      (Packing.start msgIds (session.takeToSend sendAll).2) := by
  have keys : ∀ entry ∈ session.toSend.entries, entry.2.requestId = entry.1 :=
    fun entry member => (sound.waits entry member).1
  cases sendAll with
  | true =>
    have all : (session.takeToSend true).1 ++
        (Packing.start msgIds (session.takeToSend true).2).session.toSend.entries =
          session.toSend.entries := append_nil _
    unfold PacksTracked
    rw [all]
    exact ⟨tracks.of_same sound rfl fun _ _ => rfl, session.toSend.increasing, keys⟩
  | false =>
    exact ⟨tracks.of_same sound rfl fun _ _ => rfl, session.toSend.increasing, keys⟩

section

variable (source : IdSource msgIds) (sound : Sound msgIds session)
include source sound

section

variable (tracks : Tracks known watched session.toSend.entries session)
  (acks : ∀ request, watched request → request.needAck = true)

include tracks acks

theorem Tracks.sendContainer {attempt : Attempt} {bind : Bool}
    (binds : BindReady msgIds bind session) :
    Tracks known watched
      (session.sendContainer msgIds attempt bind forceNewMsgId).2.toSend.entries
      (session.sendContainer msgIds attempt bind forceNewMsgId).2 := by
  have fewer := Fewer.takeToSend attempt.sendAll session
  have started := Packs.start source (fewer.sound source sound)
  have takenBinds := binds.fewer fewer
  have begins : PacksTracked known watched (session.takeToSend attempt.sendAll).1
      (Packing.start msgIds (session.takeToSend attempt.sendAll).2) :=
    PacksTracked.start tracks sound attempt.sendAll
  obtain ⟨packing, later, packs, tracked, eq, -, same, -⟩ := sound.sendContainer source binds
    (PacksTracked known watched) (fun _ => packsTracked_service)
    (fun _ _ _ _ _ packs tracked identified placed =>
      packsTracked_request acks packs tracked identified placed)
    (fun isBind => begins.of_same started.sound
      (started.placeBind source ((takenBinds isBind).1.mtprotoMsgId msgIds)
        (takenBinds isBind).2).2.1)
    (fun _ => begins)
  rw [eq, same.toSend]
  exact tracked.1.of_same packs.sound same.haveSent same.header

theorem Tracks.sendSingleRequest (only : session.toSend.entries = [entry]) :
    Tracks known watched
      (session.sendSingleRequest msgIds entry.2 forceNewMsgId).2.toSend.entries
      (session.sendSingleRequest msgIds entry.2 forceNewMsgId).2 := by
  obtain ⟨sameId, positive⟩ := sound.waits entry (by simp [only])
  have identified : 0 < entry.2.requestId := sameId ▸ positive
  have prepared := sound.prepareSingle source identified forceNewMsgId
  rw [only] at tracks
  have cleared := ((Fewer.clearToSend session).sound source sound).mtprotoMsgId source
  have drawn : Tracks known watched [entry]
      { session with toSend := ∅, issued := session.issued + 1 } :=
    tracks.of_same sound rfl fun _ _ => rfl
  rw [sendSingleRequest_eq identified.ne' rfl, keep_toSend, prepared.toSend]
  exact drawn.place cleared (fun _ none => by cases none) acks identified prepared keep_header
    keep_haveSent

theorem Tracks.tryToSend (found : Attempt) :
    Tracks known watched (session.tryToSend msgIds found).2.toSend.entries
      (session.tryToSend msgIds found).2 := by
  rcases tryToSend_cases msgIds found session with
    eq | ⟨attempt, bind, ready, forceNewMsgId, -, readyEq, -, cases⟩
  · rw [eq]
    exact tracks
  · have got := sound.getReady source attempt bind
    rw [← readyEq] at got
    have readyTracks : Tracks known watched ready.toSend.entries ready := by
      rw [got.toSend]
      exact tracks.of_same sound got.haveSent got.header
    rcases cases with ⟨-, eq⟩ | ⟨entry, sent, -, only, sentEq, eq⟩ | ⟨sent, -, alone, sentEq, eq⟩ |
      ⟨sent, sentEq, eq⟩
    · rw [eq]
      exact readyTracks
    · rw [eq, ← sentEq]
      exact readyTracks.sendSingleRequest source got.sound acks (got.toSend ▸ only)
    · obtain ⟨later, laterEq, same⟩ : ∃ later, sent.2 = later ∧ SameRequests ready later := by
        cases bind with
        | true =>
          obtain ⟨later, serviceEq, -, same, -⟩ :=
            sendSingleService_bind source got.sound got.binds attempt forceNewMsgId alone
          exact ⟨later, by rw [← sentEq, serviceEq], same⟩
        | false =>
          obtain ⟨needAck, later, serviceEq, -, same, -⟩ :=
            sendSingleService_new source got.sound attempt forceNewMsgId
          exact ⟨later, by rw [← sentEq, serviceEq], same⟩
      rw [eq, laterEq, same.toSend]
      exact readyTracks.of_same got.sound same.haveSent same.header
    · rw [eq, ← sentEq]
      exact readyTracks.sendContainer source got.sound acks got.binds

end

end

end Sending

section Keeping

variable {settled : Nat → Prop}

/-- The request of the message is not answered yet. -/
def Pending (session : SessionPrivate) (msgId : Nat) (requestId : Int) : Prop :=
  (∃ request, (msgId, request) ∈ session.haveSent.entries ∧ request.requestId = requestId) ∨
    (msgId, requestId) ∈ session.resendingIds.entries

theorem Pending.uses {msgId : Nat} {requestId : Int} (pending : session.Pending msgId requestId) :
    session.Uses msgId requestId :=
  pending.imp_right .inl

/-- The watched requests are tracked, and no settled id stands for one of them. -/
structure Keeps (msgIds : Nat → Nat) (known watched : Request → Prop) (settled : Nat → Prop)
    (session : SessionPrivate) : Prop where
  sound : Sound msgIds session
  tracks : Tracks known watched session.toSend.entries session
  unused : ∀ msgId, settled msgId → ∀ request, watched request →
    ¬ session.Pending msgId request.requestId

/-- A request may be acked unless it is watched, but for an id that is settled. -/
def MayAck (watched : Request → Prop) (settled : Nat → Prop) (msgId : Nat) (requestId : Int) :
    Prop :=
  (∃ request, watched request ∧ request.requestId = requestId) → settled msgId

theorem Keeps.notWatched (keeps : Keeps msgIds known watched settled session) {msgId : Nat}
    {requestId : Int} (pending : session.Pending msgId requestId)
    (may : MayAck watched settled msgId requestId) {request : Request}
    (isWatched : watched request) : request.requestId ≠ requestId := by
  rintro rfl
  exact keeps.unused msgId (may ⟨request, isWatched, rfl⟩) request isWatched pending

theorem keptByAcks_keeps (source : IdSource msgIds) :
    KeptByAcks (MayAck watched settled) (Keeps msgIds known watched settled) where
  sent session entry keeps member may := by
    have pending : session.Pending entry.1 entry.2.requestId := .inl ⟨entry.2, member, rfl⟩
    have fewer : ∀ msgId requestId, (session.ackSent entry).Pending msgId requestId →
        session.Pending msgId requestId := by
      rintro msgId requestId (⟨request, sent, rfl⟩ | resending)
      · exact .inl ⟨request, (mem_erase.mp sent).1, rfl⟩
      · exact .inr resending
    refine ⟨(keptByAcks_sound source).sent session entry keeps.sound member trivial, ?_,
      fun msgId isSettled request isWatched now =>
        keeps.unused msgId isSettled request isWatched (fewer _ _ now)⟩
    have tracks := keeps.tracks
    refine ⟨?_, ?_, tracks.knownWaiting, ?_, ?_⟩
    · exact fun other otherMem => tracks.header other (mem_erase.mp otherMem).1
    · exact fun first firstMem other otherMem =>
        tracks.apart first firstMem other (mem_erase.mp otherMem).1
    · exact fun other otherMem => tracks.knownSent other (mem_erase.mp otherMem).1
    · intro request isWatched
      refine (tracks.present request isWatched).imp_right ?_
      rintro ⟨msgId, sent⟩
      refine ⟨msgId, mem_erase.mpr ⟨sent, ?_⟩⟩
      intro same
      refine keeps.notWatched pending may isWatched ?_
      exact congrArg (fun entry : Nat × Request => entry.2.requestId) (eq_of_key sent member same)
  resending session entry request keeps member may waiting := by
    have pending : session.Pending entry.1 entry.2 := .inr member
    have fewer : ∀ msgId requestId, (session.ackResending entry request).Pending msgId requestId →
        session.Pending msgId requestId := by
      rintro msgId requestId (sent | resending)
      · exact .inl sent
      · exact .inr (mem_erase.mp resending).1
    refine ⟨(keptByAcks_sound source).resending session entry request keeps.sound member trivial
      waiting, ?_, fun msgId isSettled other isWatched now =>
        keeps.unused msgId isSettled other isWatched (fewer _ _ now)⟩
    have tracks := keeps.tracks
    refine ⟨tracks.header, ?_, ?_, tracks.knownSent, ?_⟩
    · exact fun first firstMem => tracks.apart first (mem_erase.mp firstMem).1
    · exact fun first firstMem => tracks.knownWaiting first (mem_erase.mp firstMem).1
    · intro other isWatched
      refine (tracks.present other isWatched).imp_left ?_
      intro waits
      exact mem_erase.mpr ⟨waits, keeps.notWatched pending may isWatched⟩
  notWaiting session entry keeps _ _ _ := by
    have fewer := Fewer.forgetResending session entry.1
    exact ⟨fewer.sound source keeps.sound, keeps.tracks.of_same keeps.sound rfl fun _ _ => rfl,
      fun msgId isSettled request isWatched now =>
        keeps.unused msgId isSettled request isWatched
          (now.imp_right fun resending => (mem_erase.mp resending).1)⟩
  forgets session later keeps forgets := by
    refine ⟨forgets.fewer.sound source keeps.sound, ?_, ?_⟩
    · rw [forgets.same.toSend]
      exact keeps.tracks.of_same keeps.sound forgets.same.haveSent forgets.same.header
    · unfold Pending
      rw [forgets.same.haveSent, forgets.resendingIds]
      exact keeps.unused

theorem keptByResends_keeps (source : IdSource msgIds) :
    KeptByResends (Keeps msgIds known watched settled) where
  request session entry keeps member := by
    have tracks := keeps.tracks
    have moved : ∀ msgId requestId, (session.resendRequest entry).Pending msgId requestId →
        session.Pending msgId requestId := by
      rintro msgId requestId (⟨request, sent, rfl⟩ | resending)
      · exact .inl ⟨request, (mem_erase.mp sent).1, rfl⟩
      · rcases mem_of_mem_emplaceEntry resending with isNew | old
        · obtain ⟨rfl, rfl⟩ := Prod.mk.inj isNew
          exact .inl ⟨entry.2, member, rfl⟩
        · exact .inr old
    refine ⟨(keptByResends_sound source).request session entry keeps.sound member, ?_,
      fun msgId isSettled request isWatched now =>
        keeps.unused msgId isSettled request isWatched (moved _ _ now)⟩
    have fresh : ∀ other ∈ session.toSend.entries, other.1 ≠ entry.2.requestId := by
      intro other otherMem same
      refine tracks.apart other otherMem entry member ?_
      rw [(keeps.sound.waits other otherMem).1, same]
    have waits : ∀ other, other ∈ (session.resendRequest entry).toSend.entries ↔
        other = (entry.2.requestId, entry.2) ∨ other ∈ session.toSend.entries :=
      fun other => mem_emplace fresh
    refine ⟨?_, ?_, ?_, ?_, ?_⟩
    · intro other otherMem
      rw [resendRequest_msgId]
      exact tracks.header other (mem_erase.mp otherMem).1
    · intro first firstMem other otherMem
      obtain ⟨sent, distinct⟩ := mem_erase.mp otherMem
      rcases (waits first).mp firstMem with rfl | old
      · intro same
        exact distinct (congrArg Prod.fst (tracks.eq_of_requestId sent member same.symm))
      · exact tracks.apart first old other sent
    · intro first firstMem
      rcases (waits first).mp firstMem with rfl | old
      · exact tracks.knownSent entry member
      · exact tracks.knownWaiting first old
    · exact fun other otherMem => tracks.knownSent other (mem_erase.mp otherMem).1
    · intro request isWatched
      rcases tracks.present request isWatched with old | ⟨msgId, sent⟩
      · exact .inl ((waits _).mpr (.inr old))
      · by_cases same : msgId = entry.1
        · have isEntry := eq_of_key sent member same
          refine .inl ((waits _).mpr (.inl ?_))
          rw [← isEntry]
        · exact .inr ⟨msgId, mem_erase.mpr ⟨sent, same⟩⟩
  forgets := (keptByAcks_keeps source).forgets

end Keeping

/-- The message that an answer is for. -/
def answeredMessage (session : SessionPrivate) : Traffic → Option Nat
  | .rpcResult badTime _ _ (.response _) requestMsgId _ =>
    if badTime = true ∧ session.wasSent requestMsgId = 0 then none else some requestMsgId
  | _ => none

/-- The requests that an answer ends. -/
def answeredIds (session : SessionPrivate) (event : Traffic) : List Int :=
  match session.answeredMessage event with
  | none => []
  | some msgId =>
    (session.haveSent.find? msgId).toList.map Request.requestId ++
      (session.resendingIds.find? msgId).toList

theorem Pending.mem_answeredIds {event : Traffic} {msgId : Nat} {requestId : Int}
    (pending : session.Pending msgId requestId)
    (answered : session.answeredMessage event = some msgId) :
    requestId ∈ session.answeredIds event := by
  unfold answeredIds
  rw [answered]
  rcases pending with ⟨request, sent, rfl⟩ | resending
  · simp [find?_eq_some.mpr sent]
  · simp [find?_eq_some.mpr resending]

/-- What the session does by itself, and not for its instance. -/
def Traffic.ofSession : Traffic → Bool
  | .sendPrepared _ => false
  | .cancel _ _ => false
  | _ => true

section Handling

variable {hasCallback : Int → Bool}

theorem mayAck_of_hasCallback {settled : Nat → Prop}
    (callbacks : ∀ request, watched request → hasCallback request.requestId = true)
    {msgId : Nat} {requestId : Int} (free : hasCallback requestId = false) :
    MayAck watched settled msgId requestId := by
  rintro ⟨request, isWatched, rfl⟩
  rw [callbacks request isWatched] at free
  cases free

section

variable (source : IdSource msgIds) (sound : Sound msgIds session)
  (tracks : Tracks known watched session.toSend.entries session)

include source sound tracks

theorem Tracks.handleRpcResult
    (callbacks : ∀ request, watched request → hasCallback request.requestId = true)
    {badTime keyCreator : Bool} {bound : HandleResult} {result : RpcResult}
    {requestMsgId outerMsgId : Nat}
    (unanswered : ∀ request, watched request → request.requestId ∉ session.answeredIds
      (.rpcResult badTime keyCreator bound result requestMsgId outerMsgId)) :
    Tracks known watched
      (session.handleRpcResult hasCallback badTime keyCreator bound result requestMsgId
        outerMsgId).2.toSend.entries
      (session.handleRpcResult hasCallback badTime keyCreator bound result requestMsgId
        outerMsgId).2 := by
  unfold SessionPrivate.handleRpcResult
  split
  · exact tracks
  next inTime =>
    split
    · exact tracks
    · exact tracks
    next response =>
      have answered : session.answeredMessage (.rpcResult badTime keyCreator bound
          (.response response) requestMsgId outerMsgId) = some requestMsgId := if_neg inTime
      have keeps : Keeps msgIds known watched (· = requestMsgId) session := by
        refine ⟨sound, tracks, ?_⟩
        rintro msgId rfl request isWatched pending
        exact unanswered request isWatched (pending.mem_answeredIds answered)
      have acked : Keeps msgIds known watched (· = requestMsgId)
          (session.requestsAcked hasCallback true [requestMsgId]) := by
        refine (keptByAcks_keeps source).requestsAcked keeps ?_
        rintro msgId requestId (⟨-, member⟩ | free)
        · exact fun _ => mem_singleton.mp member
        · exact mayAck_of_hasCallback callbacks free
      simp only
      split
      · exact acked.tracks.of_same acked.sound rfl fun _ _ => rfl
      · split
        · exact acked.tracks.of_same acked.sound rfl fun _ _ => rfl
        · exact acked.tracks

/-- Whatever the session does, the watched requests are tracked while they are
not answered. -/
theorem Tracks.handle (acks : ∀ request, watched request → request.needAck = true)
    (callbacks : ∀ request, watched request → hasCallback request.requestId = true)
    {event : Traffic} (ofSession : event.ofSession = true)
    (unanswered : ∀ request, watched request → request.requestId ∉ session.answeredIds event) :
    Tracks known watched (session.handle msgIds hasCallback event).toSend.entries
      (session.handle msgIds hasCallback event) := by
  have keeps : Keeps msgIds known watched (fun _ => False) session :=
    ⟨sound, tracks, fun _ never => never.elim⟩
  have ackKept : ∀ settled, KeptByAcks (MayAck watched settled)
      (Keeps msgIds known watched settled) := fun _ => keptByAcks_keeps source
  have resends : ∀ settled, KeptByResends (Keeps msgIds known watched settled) :=
    fun _ => keptByResends_keeps source
  have free : ∀ (settled : Nat → Prop) (msgId : Nat) (requestId : Int),
      hasCallback requestId = false → MayAck watched settled msgId requestId :=
    fun _ _ _ => mayAck_of_hasCallback callbacks
  cases event with
  | sendPrepared request => cases ofSession
  | cancel requestId msgId => cases ofSession
  | tryToSend found => exact tracks.tryToSend source sound acks found
  | msgsAck ids =>
    refine ((ackKept _).requestsAcked keeps ?_).tracks
    rintro msgId requestId (⟨never, -⟩ | none)
    · cases never
    · exact free _ msgId requestId none
  | rpcResult badTime keyCreator bound result requestMsgId outerMsgId =>
    exact tracks.handleRpcResult source sound callbacks unanswered
  | msgsStateInfo reqMsgId received =>
    change Tracks known watched (session.msgsStateInfo hasCallback reqMsgId received).toSend.entries
      (session.msgsStateInfo hasCallback reqMsgId received)
    unfold msgsStateInfo
    split
    · exact tracks
    next ids found =>
      have service : session.IsService reqMsgId :=
        .inr (.inl (contains_of_mem (find?_eq_some.mp found)))
      have settledKeeps : Keeps msgIds known watched (· = reqMsgId) session := by
        refine ⟨sound, tracks, ?_⟩
        rintro msgId rfl request isWatched pending
        exact (sound.used _ _ pending.uses).2.2.2 service
      have acked : Keeps msgIds known watched (· = reqMsgId)
          (session.requestsAcked hasCallback true [reqMsgId]) := by
        refine (ackKept _).requestsAcked settledKeeps ?_
        rintro msgId requestId (⟨-, member⟩ | none)
        · exact fun _ => mem_singleton.mp member
        · exact free _ msgId requestId none
      exact ((resends _).handleMsgsStates (ackKept _) acked (free _)).tracks
  | msgsAllInfo ids received =>
    exact ((resends _).handleMsgsStates (ackKept _) keeps (free _)).tracks
  | badMsgNotification resendId errorCode outerMsgId =>
    change Tracks known watched
      (session.badMsgNotification resendId errorCode outerMsgId).2.toSend.entries
      (session.badMsgNotification resendId errorCode outerMsgId).2
    unfold badMsgNotification
    simp only
    split
    · split
      · exact tracks
      · split
        · exact ((resends _).resend keeps).tracks
        · exact tracks
    · split
      · exact tracks
      · exact tracks.of_same sound rfl fun _ _ => rfl
  | badServerSalt resendId =>
    change Tracks known watched (session.badServerSalt resendId).toSend.entries
      (session.badServerSalt resendId)
    unfold badServerSalt
    split
    · exact tracks
    · exact ((resends _).resend keeps).tracks
  | newSessionCreated firstMsgId outerMsgId =>
    have resent : ∀ ids : List Nat,
        Keeps msgIds known watched (fun _ => False) (ids.foldl resend session) :=
      fun _ => (resends _).resendIds keeps
    exact (resent _).tracks.of_same (resent _).sound rfl fun _ _ => rfl
  | clearOldContainers old => exact ((resends _).clearOldContainers keeps).tracks
  | resendAll => exact ((resends _).resendAll keeps).tracks
  | changeSessionId => exact tracks.of_same sound rfl fun _ _ => rfl
  | restart => exact tracks.of_same sound rfl fun _ _ => rfl

end

theorem Tracks.mono {knownNow watchedNow : Request → Prop}
    (tracks : Tracks known watched waiting session)
    (waitingKnown : ∀ entry ∈ waiting, known entry.2 → knownNow entry.2)
    (sentKnown : ∀ entry ∈ session.haveSent.entries, known entry.2 → knownNow entry.2)
    (fewer : ∀ request, watchedNow request → watched request) :
    Tracks knownNow watchedNow waiting session where
  header := tracks.header
  apart := tracks.apart
  knownWaiting entry member := waitingKnown entry member (tracks.knownWaiting entry member)
  knownSent entry member := sentKnown entry member (tracks.knownSent entry member)
  present request isWatched := tracks.present request (fewer request isWatched)

theorem Tracks.sendPrepared (tracks : Tracks known watched session.toSend.entries session)
    (sound : Sound msgIds session) {request : Request} (isKnown : known request)
    (unique : ∀ other, known other → other.requestId = request.requestId → other = request)
    (notSent : ∀ entry ∈ session.haveSent.entries, entry.2.requestId ≠ request.requestId) :
    Tracks known (fun other => watched other ∨ other = request)
      (session.sendPrepared request).toSend.entries (session.sendPrepared request) := by
  have waits : ∀ entry ∈ (session.sendPrepared request).toSend.entries,
      entry = (request.requestId, request) ∨ entry ∈ session.toSend.entries :=
    fun entry member => mem_of_mem_emplaceEntry member
  have kept : ∀ entry ∈ session.toSend.entries,
      entry ∈ (session.sendPrepared request).toSend.entries := by
    intro entry member
    change entry ∈ (session.toSend.emplace request.requestId request).entries
    cases taken : session.toSend.contains request.requestId with
    | true => rwa [emplace_of_contains taken]
    | false => exact (mem_emplace (contains_eq_false.mp taken)).mpr (.inr member)
  have placed : (request.requestId, request) ∈ (session.sendPrepared request).toSend.entries := by
    obtain ⟨entry, member, same⟩ := contains_iff.mp (contains_emplace.mpr (.inl rfl) :
        (session.toSend.emplace request.requestId request).contains request.requestId = true)
    rcases waits entry member with rfl | old
    · exact member
    · have owner := unique entry.2 (tracks.knownWaiting entry old)
        ((sound.waits entry old).1.trans same)
      have isEntry : entry = (request.requestId, request) := Prod.ext same owner
      rwa [isEntry] at member
  refine ⟨?_, ?_, ?_, tracks.knownSent, ?_⟩
  · intro entry member
    have distinct := notSent entry member
    simp only [SessionPrivate.sendPrepared, setHeader, distinct, if_false]
    exact tracks.header entry member
  · intro entry member other otherMem
    rcases waits entry member with rfl | old
    · exact (notSent other otherMem).symm
    · exact tracks.apart entry old other otherMem
  · intro entry member
    rcases waits entry member with rfl | old
    · exact isKnown
    · exact tracks.knownWaiting entry old
  · rintro other (isWatched | rfl)
    · exact (tracks.present other isWatched).imp_left (kept _)
    · exact .inl placed

theorem Tracks.cancel (tracks : Tracks known watched session.toSend.entries session)
    (sound : Sound msgIds session) {requestId : Int} {msgId : Nat} (identified : requestId ≠ 0)
    (own : msgId = 0 ∨ (session.header requestId).msgId = msgId)
    (notWatched : ∀ request, watched request → request.requestId ≠ requestId) :
    Tracks known watched (session.cancel requestId msgId).toSend.entries
      (session.cancel requestId msgId) := by
  have fewer := Fewer.cancel session requestId msgId
  have waits : ∀ entry ∈ session.toSend.entries, entry.1 ≠ requestId →
      entry ∈ (session.cancel requestId msgId).toSend.entries := by
    intro entry member distinct
    unfold SessionPrivate.cancel
    rw [if_neg identified]
    split <;> exact mem_erase.mpr ⟨member, distinct⟩
  have sent : ∀ entry ∈ session.haveSent.entries, entry.2.requestId ≠ requestId →
      entry ∈ (session.cancel requestId msgId).haveSent.entries := by
    intro entry member distinct
    unfold SessionPrivate.cancel
    rw [if_neg identified]
    split
    · exact member
    next assigned =>
      refine mem_erase.mpr ⟨member, ?_⟩
      intro same
      have owns := own.resolve_left assigned
      have uses := uses_header identified (owns.symm ▸ assigned)
      rw [owns, ← same] at uses
      exact distinct (sound.usedOnce _ _ _ (uses_of_haveSent member) uses)
  refine ⟨?_, ?_, ?_, ?_, ?_⟩
  · intro entry member
    rw [fewer.header]
    exact tracks.header entry (fewer.haveSent entry member)
  · exact fun entry member other otherMem =>
      tracks.apart entry (fewer.toSend entry member) other (fewer.haveSent other otherMem)
  · exact fun entry member => tracks.knownWaiting entry (fewer.toSend entry member)
  · exact fun entry member => tracks.knownSent entry (fewer.haveSent entry member)
  · intro request isWatched
    have distinct := notWatched request isWatched
    rcases tracks.present request isWatched with old | ⟨key, old⟩
    · exact .inl (waits _ old distinct)
    · exact .inr ⟨key, sent _ old distinct⟩

end Handling

end TelegramDesktop.SessionPrivate
