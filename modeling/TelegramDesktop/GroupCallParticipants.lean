import TelegramDesktop.DcIds
import TelegramDesktop.FlatMap
import TelegramDesktop.Runs

/-!
# Participants of a group call

The list of participants of `data/data_group_call.cpp` with the two tables that lead to
it: who speaks with an audio source, and until when those are shown speaking of whom it
is known that they are active. The events that are fired for others are not modelled.
-/

namespace TelegramDesktop

namespace GroupCallParticipants

/-- The video of a participant as the server sends it. -/
structure VideoData where
  paused : Bool := false
  endpoint : List UInt8 := []
  /-- The semantics of every group with its sources. -/
  sourceGroups : List (List UInt8 × List Int32) := []
  audioSource : Option Int32 := none
  deriving DecidableEq

/-- The parameters of one video. -/
structure VideoParams where
  endpointId : List UInt8 := []
  ssrcGroups : List (List UInt8 × List UInt32) := []
  additionalSsrc : UInt32 := 0
  paused : Bool := false
  deriving DecidableEq

/-- The parameters of both videos of a participant. -/
structure ParticipantVideoParams where
  camera : VideoParams
  screen : VideoParams
  deriving DecidableEq

namespace VideoParams

def empty (params : VideoParams) : Bool :=
  params.additionalSsrc = 0 && (params.endpointId.isEmpty || params.ssrcGroups.isEmpty)

def parseGroup (group : List UInt8 × List Int32) : List UInt8 × List UInt32 :=
  (group.1, group.2.map Int32.toUInt32)

/-- `ParseVideoParams` of one video -/
def parse : Option VideoData → VideoParams
  | none => {}
  | some data =>
    { paused := data.paused
      endpointId := data.endpoint
      additionalSsrc := (data.audioSource.getD 0).toUInt32
      ssrcGroups := data.sourceGroups.map parseGroup }

/-- `VideoParamsAreEqual` -/
def areEqual (was : VideoParams) : Option VideoData → Bool
  | none => was.empty
  | some data =>
    if data.paused ≠ was.paused ∨ (data.audioSource.getD 0).toUInt32 ≠ was.additionalSsrc then
      false
    else if data.endpoint ≠ was.endpointId then false
    else data.sourceGroups.map parseGroup = was.ssrcGroups

end VideoParams

/-- The second source of a participant, zero where there is none. -/
def getAdditionalAudioSsrc (params : Option ParticipantVideoParams) : UInt32 :=
  match params with
  | none => 0
  | some params => params.screen.additionalSsrc

/-- What was known of the videos is kept while they are the same. -/
def parseVideoParams (camera screen : Option VideoData)
    (existing : Option ParticipantVideoParams) : Option ParticipantVideoParams :=
  if camera.isNone && screen.isNone then none
  else if existing.any fun existing =>
      existing.camera.areEqual camera && existing.screen.areEqual screen then existing
  else some ⟨.parse camera, .parse screen⟩

/-- A participant as the server sends it. -/
structure ParticipantData (P : Type*) where
  peer : P
  left : Bool := false
  isMuted : Bool := false
  canSelfUnmute : Bool := false
  justJoined : Bool := false
  isMin : Bool := false
  mutedByYou : Bool := false
  volumeByAdmin : Bool := false
  videoJoined : Bool := false
  date : Int := 0
  activeDate : Option Int := none
  source : Int32 := 0
  volume : Option Int := none
  raiseHandRating : Option UInt64 := none
  video : Option VideoData := none
  presentation : Option VideoData := none
  deriving DecidableEq

/-- A participant of the call. -/
structure Participant (P : Type*) where
  peer : P
  videoParams : Option ParticipantVideoParams := none
  date : Int := 0
  lastActive : Int := 0
  raisedHandRating : UInt64 := 0
  ssrc : UInt32 := 0
  volume : Int := 0
  sounding : Bool := false
  speaking : Bool := false
  additionalSounding : Bool := false
  additionalSpeaking : Bool := false
  muted : Bool := false
  mutedByMe : Bool := false
  canSelfUnmute : Bool := false
  onlyMinLoaded : Bool := false
  videoJoined : Bool := false
  applyVolumeFromMin : Bool := true
  deriving DecidableEq

/-- When somebody was last heard. -/
structure LastSpokeTimes where
  anything : Int := 0
  voice : Int := 0
  deriving DecidableEq

/-- Where a list of participants comes from. -/
inductive ApplySliceSource
  | fullReloaded
  | sliceLoaded
  | unknownLoaded
  | updateReceived
  | updateConstructed
  deriving DecidableEq

def kDefaultVolume : Int := 10000

def kRequestPerPage : Nat := 50

def kSpeakingAfterActive : Int := 6000

def kActiveAfterJoined : Int := 1000

def kSoundStatusKeptFor : Int := 1500

variable {P : Type*}

/-- The participant as it is after what the server says, if it `was` one before. -/
def participantValue (data : ParticipantData P) (sliceSource : ApplySliceSource)
    (was : Option (Participant P)) : Participant P :=
  let canSelfUnmute := !data.isMuted || data.canSelfUnmute
  let localUpdate := decide (sliceSource = .updateConstructed)
  let existingVideoParams := was.bind (·.videoParams)
  { peer := data.peer
    videoParams := if localUpdate then existingVideoParams
      else parseVideoParams data.video data.presentation existingVideoParams
    date := data.date
    lastActive := data.activeDate.getD (was.elim 0 (·.lastActive))
    raisedHandRating := data.raiseHandRating.getD 0
    ssrc := data.source.toUInt32
    volume := match was with
      | some was =>
        if !was.applyVolumeFromMin && data.isMin then was.volume
        else data.volume.getD kDefaultVolume
      | none => data.volume.getD kDefaultVolume
    sounding := canSelfUnmute && was.any (·.sounding)
    speaking := canSelfUnmute && was.any (·.speaking)
    additionalSounding := canSelfUnmute && was.any (·.additionalSounding)
    additionalSpeaking := canSelfUnmute && was.any (·.additionalSpeaking)
    muted := data.isMuted
    mutedByMe := match was with
      | some was => if data.isMin then was.mutedByMe else data.mutedByYou
      | none => data.mutedByYou
    canSelfUnmute := canSelfUnmute
    onlyMinLoaded := data.isMin && was.all (·.onlyMinLoaded)
    videoJoined := data.videoJoined
    applyVolumeFromMin := match was with
      | some was => if data.isMin then was.applyVolumeFromMin else data.isMin || data.volumeByAdmin
      | none => data.isMin || data.volumeByAdmin }

variable [DecidableEq P]

/-- The participant of a peer. -/
def find (peer : P) (participants : List (Participant P)) : Option (Participant P) :=
  participants.find? fun participant => participant.peer = peer

/-- The participant of a peer is replaced. -/
def change (peer : P) (value : Participant P) : List (Participant P) → List (Participant P)
  | [] => []
  | participant :: rest =>
    if participant.peer = peer then value :: rest else participant :: change peer value rest

/-- The participant of a peer is taken out. -/
def remove (peer : P) (participants : List (Participant P)) : List (Participant P) :=
  participants.eraseP fun participant => participant.peer = peer

end GroupCallParticipants

open GroupCallParticipants

/-- The participants of a call, with the tables that lead to them. -/
structure GroupCallParticipants (P : Type*) [LinearOrder P] where
  participants : List (Participant P) := []
  participantPeerByAudioSsrc : FlatMap UInt32 P := ∅
  speakingByActiveFinishes : FlatMap P Int := ∅
  /-- The delay for which the timer was started, unless it went off. -/
  speakingByActiveFinishTimer : Option Int := none
  serverParticipantsCount : Int := 0
  allParticipantsLoaded : Bool := false
  listenersHidden : Bool := false
  fullCount : Int := 0
  unknownSpokenSsrcs : FlatMap UInt32 LastSpokeTimes := ∅
  unknownSpokenPeerIds : FlatMap P LastSpokeTimes := ∅
  /-- What was asked for by the request that is not answered yet. -/
  unknownRequest : Option (FlatMap UInt32 LastSpokeTimes × FlatMap P LastSpokeTimes) := none

namespace GroupCallParticipants

section Slices

variable {P : Type*} [LinearOrder P]

def findParticipant (peer : P) (call : GroupCallParticipants P) : Option (Participant P) :=
  find peer call.participants

/-- The entry of a source, whoever it leads to, is replaced by one of the peer. -/
def moveSsrc (was now : UInt32) (peer : P) (table : FlatMap UInt32 P) : FlatMap UInt32 P :=
  if was ≠ now then
    let erased := table.erase was
    if now ≠ 0 then erased.emplace now peer else erased
  else table

/-- A source that is not zero is added. -/
def addSsrc (ssrc : UInt32) (peer : P) (table : FlatMap UInt32 P) : FlatMap UInt32 P :=
  if ssrc ≠ 0 then table.emplace ssrc peer else table

/-- One round of the loop of `applyParticipantsSlice`. -/
def applyParticipant (sliceSource : ApplySliceSource) (call : GroupCallParticipants P)
    (data : ParticipantData P) : GroupCallParticipants P :=
  let peer := data.peer
  let was := call.findParticipant peer
  if data.left then
    let left := match was with
      | none => call
      | some was =>
        { call with
          participantPeerByAudioSsrc := (call.participantPeerByAudioSsrc.erase was.ssrc).erase
            (getAdditionalAudioSsrc was.videoParams)
          speakingByActiveFinishes := call.speakingByActiveFinishes.erase peer
          participants := remove peer call.participants }
    if 0 < left.serverParticipantsCount then
      { left with serverParticipantsCount := left.serverParticipantsCount - 1 }
    else left
  else
    let value := participantValue data sliceSource was
    let additional := getAdditionalAudioSsrc value.videoParams
    let placed := match was with
      | none =>
        { call with
          participantPeerByAudioSsrc := addSsrc additional peer
            (addSsrc value.ssrc peer call.participantPeerByAudioSsrc)
          participants := call.participants ++ [value] }
      | some was =>
        { call with
          participantPeerByAudioSsrc := moveSsrc (getAdditionalAudioSsrc was.videoParams)
            additional peer (moveSsrc was.ssrc value.ssrc peer call.participantPeerByAudioSsrc)
          participants := change peer value call.participants }
    if data.justJoined then
      { placed with serverParticipantsCount := placed.serverParticipantsCount + 1 }
    else placed

def computeParticipantsCount (call : GroupCallParticipants P) : GroupCallParticipants P :=
  { call with
    fullCount := if call.allParticipantsLoaded && !call.listenersHidden then
        call.participants.length
      else max (call.participants.length : Int) call.serverParticipantsCount }

def applyParticipantsSlice (list : List (ParticipantData P)) (sliceSource : ApplySliceSource)
    (call : GroupCallParticipants P) : GroupCallParticipants P :=
  let applied := list.foldl (applyParticipant sliceSource) call
  if sliceSource = .updateReceived then applied.computeParticipantsCount else applied

/-- The fields of a call that an update brings. -/
structure CallFields where
  participantsCount : Int
  listenersHidden : Bool

def applyCallFields (fields : CallFields) (call : GroupCallParticipants P) :
    GroupCallParticipants P :=
  { call with
    listenersHidden := fields.listenersHidden
    serverParticipantsCount := fields.participantsCount
    allParticipantsLoaded := fields.participantsCount = call.participants.length }

/-- A call that was discarded has no fields, and nothing is done here. -/
def processFullCallFields (participants : List (ParticipantData P))
    (fields : Option CallFields) (call : GroupCallParticipants P) : GroupCallParticipants P :=
  match fields with
  | none => call
  | some fields =>
    applyCallFields fields (applyParticipantsSlice participants .fullReloaded
      { call with
        participants := []
        speakingByActiveFinishes := ∅
        participantPeerByAudioSsrc := ∅
        allParticipantsLoaded := false })

/-- The answer to `requestParticipants`. -/
def participantsLoaded (list : List (ParticipantData P)) (count : Int)
    (call : GroupCallParticipants P) : GroupCallParticipants P :=
  let applied := applyParticipantsSlice list .sliceLoaded call
  computeParticipantsCount
    { applied with
      serverParticipantsCount := count
      allParticipantsLoaded := list.isEmpty || applied.allParticipantsLoaded }

end Slices

section Unknown

variable {P : Type*} [LinearOrder P]

/-- The last entries of a map, and the rest. -/
def takeBack {κ β : Type*} [LinearOrder κ] (count : Nat) (map : FlatMap κ β) :
    FlatMap κ β × FlatMap κ β :=
  (⟨map.entries.drop (map.size - count), map.increasing.drop⟩,
    ⟨map.entries.take (map.size - count), map.increasing.take⟩)

def requestUnknownParticipants (call : GroupCallParticipants P) : GroupCallParticipants P :=
  if call.unknownRequest.isSome
      || (call.unknownSpokenSsrcs.isEmpty && call.unknownSpokenPeerIds.isEmpty) then call
  else
    let ssrcs := if call.unknownSpokenSsrcs.size < kRequestPerPage then
        (call.unknownSpokenSsrcs, ∅)
      else takeBack kRequestPerPage call.unknownSpokenSsrcs
    let peerIds :=
      if call.unknownSpokenPeerIds.size + ssrcs.1.size < kRequestPerPage then
        (call.unknownSpokenPeerIds, ∅)
      else takeBack (kRequestPerPage - ssrcs.1.size) call.unknownSpokenPeerIds
    { call with
      unknownSpokenSsrcs := ssrcs.2
      unknownSpokenPeerIds := peerIds.2
      unknownRequest := some (ssrcs.1, peerIds.1) }

def resolveParticipants (ssrcs : List UInt32) (call : GroupCallParticipants P) :
    GroupCallParticipants P :=
  if ssrcs.isEmpty then call
  else requestUnknownParticipants
    { call with
      unknownSpokenSsrcs := ssrcs.foldl (fun unknown ssrc => unknown.emplace ssrc {})
        call.unknownSpokenSsrcs }

/-- Nothing is left where the participant of the source is missing, which is asserted. -/
def applyLastSpoke (ssrc : UInt32) (spoke : LastSpokeTimes) (now : Int)
    (call : GroupCallParticipants P) : Option (GroupCallParticipants P) :=
  match call.participantPeerByAudioSsrc.find? ssrc with
  | none =>
    some (requestUnknownParticipants
      { call with unknownSpokenSsrcs := call.unknownSpokenSsrcs.set ssrc spoke })
  | some peer =>
    match call.findParticipant peer with
    | none => none
    | some participant =>
      let sounding := decide (now ≤ spoke.anything + kSoundStatusKeptFor)
        && participant.canSelfUnmute
      let speaking := sounding && decide (now ≤ spoke.voice + kSoundStatusKeptFor)
      let useAdditional := decide (ssrc ≠ participant.ssrc)
      let nowSounding :=
        if useAdditional then participant.additionalSounding else participant.sounding
      let nowSpeaking :=
        if useAdditional then participant.additionalSpeaking else participant.speaking
      let value :=
        if nowSounding ≠ sounding ∨ nowSpeaking ≠ speaking then
          if useAdditional then
            { participant with additionalSounding := sounding, additionalSpeaking := speaking }
          else { participant with sounding := sounding, speaking := speaking }
        else participant
      some { call with
        speakingByActiveFinishes := call.speakingByActiveFinishes.erase participant.peer
        participants := change peer value call.participants }

/-- The moment of an update by two clocks, the first in milliseconds. -/
structure Clock where
  now : Int
  unixtime : Int

/-- A peer that is active is asked for unless it is known well enough. -/
def loadByUserId (participantPeerId : P) (active : LastSpokeTimes)
    (found : Option (Participant P)) (call : GroupCallParticipants P) :
    GroupCallParticipants P :=
  if found.all (·.onlyMinLoaded) then
    requestUnknownParticipants
      { call with
        unknownSpokenPeerIds := call.unknownSpokenPeerIds.set participantPeerId active }
  else call

/-- `inCall` tells whether the user has joined this call. -/
def applyActiveUpdate (inCall : Bool) (clock : Clock) (participantPeerId : P)
    (active : LastSpokeTimes) (participantPeerLoaded : Option P)
    (call : GroupCallParticipants P) : GroupCallParticipants P :=
  if inCall then call
  else
    let found := participantPeerLoaded.bind call.findParticipant
    let asked := loadByUserId participantPeerId active found call
    match found with
    | none => asked
    | some participant =>
      let elapsed := (clock.now - active.anything).tdiv 1000
      let lastActive := clock.unixtime - elapsed
      let finishes := active.anything + kSpeakingAfterActive
      if !participant.canSelfUnmute then asked
      else if lastActive ≤ participant.lastActive ∨ finishes ≤ clock.now then asked
      else
        { asked with
          speakingByActiveFinishes :=
            asked.speakingByActiveFinishes.set participant.peer finishes
          speakingByActiveFinishTimer :=
            match asked.speakingByActiveFinishTimer with
            | none => some (finishes - clock.now)
            | some delay => some delay
          participants := change participant.peer
            { participant with lastActive := lastActive, speaking := true, canSelfUnmute := true }
            asked.participants }

/-- One round of the second loop of `checkFinishSpeakingByActive`. -/
def stopSpeaking (call : GroupCallParticipants P) (peer : P) :
    Option (GroupCallParticipants P) :=
  match call.findParticipant peer with
  | none => none
  | some participant =>
    if participant.speaking then
      some { call with
        participants := change peer { participant with speaking := false } call.participants }
    else some call

/-- The timer has gone off.  A time of zero counts as none, as in the source. -/
def checkFinishSpeakingByActive (now : Int) (call : GroupCallParticipants P) :
    Option (GroupCallParticipants P) :=
  let stop := (call.speakingByActiveFinishes.entries.filter fun entry => entry.2 ≤ now).map Prod.fst
  let going := call.speakingByActiveFinishes.filter fun entry => !decide (entry.2 ≤ now)
  let nearest : Int := going.entries.foldl (fun nearest entry =>
    if nearest = 0 ∨ entry.2 < nearest then entry.2 else nearest) 0
  let stopped := stop.foldlM stopSpeaking
    { call with speakingByActiveFinishes := going, speakingByActiveFinishTimer := none }
  if nearest ≠ 0 then
    stopped.map fun call => { call with speakingByActiveFinishTimer := some (nearest - now) }
  else stopped

/-- What is unknown of peers is forgotten. -/
def setInCall (now : Int) (call : GroupCallParticipants P) : GroupCallParticipants P :=
  let cleared := { call with unknownSpokenPeerIds := ∅ }
  if call.speakingByActiveFinishes.isEmpty then cleared
  else
    let latest := now + kActiveAfterJoined
    { cleared with
      speakingByActiveFinishes :=
        call.speakingByActiveFinishes.mapValues fun finishes => min finishes latest
      speakingByActiveFinishTimer :=
        if call.speakingByActiveFinishes.entries.all fun entry => latest < entry.2 then
          some kActiveAfterJoined
        else call.speakingByActiveFinishTimer }

/-- A source that was asked for is told who spoke. -/
def resolveSsrc (now : Int) (call : GroupCallParticipants P)
    (entry : UInt32 × LastSpokeTimes) : Option (GroupCallParticipants P) :=
  let spoken :=
    if entry.2.voice ≠ 0 ∨ entry.2.anything ≠ 0 then applyLastSpoke entry.1 entry.2 now call
    else some call
  spoken.map fun call =>
    { call with unknownSpokenSsrcs := call.unknownSpokenSsrcs.erase entry.1 }

/-- A peer that was asked for is told to have spoken. -/
def resolvePeer (inCall : Bool) (clock : Clock) (peerLoaded : P → Bool)
    (call : GroupCallParticipants P) (entry : P × LastSpokeTimes) : GroupCallParticipants P :=
  let active :=
    if peerLoaded entry.1 && (call.findParticipant entry.1).isSome then
      applyActiveUpdate inCall clock entry.1 entry.2 (some entry.1) call
    else call
  { active with unknownSpokenPeerIds := active.unknownSpokenPeerIds.erase entry.1 }

def unknownLoaded (list : List (ParticipantData P)) (inCall : Bool) (clock : Clock)
    (peerLoaded : P → Bool) (call : GroupCallParticipants P) :
    Option (GroupCallParticipants P) :=
  match call.unknownRequest with
  | none => some call
  | some (ssrcs, peerIds) =>
    (ssrcs.entries.foldlM (resolveSsrc clock.now)
      { applyParticipantsSlice list .unknownLoaded call with unknownRequest := none }).map
      fun resolved =>
        requestUnknownParticipants
          (peerIds.entries.foldl (resolvePeer inCall clock peerLoaded) resolved)

def unknownFailed (call : GroupCallParticipants P) : GroupCallParticipants P :=
  match call.unknownRequest with
  | none => call
  | some (ssrcs, peerIds) =>
    requestUnknownParticipants
      { call with
        unknownRequest := none
        unknownSpokenSsrcs := ssrcs.entries.foldl (fun unknown entry => unknown.erase entry.1)
          call.unknownSpokenSsrcs
        unknownSpokenPeerIds := peerIds.entries.foldl (fun unknown entry => unknown.erase entry.1)
          call.unknownSpokenPeerIds }

/-- What changes the participants. -/
inductive Event (P : Type*)
  | slice (list : List (ParticipantData P)) (sliceSource : ApplySliceSource)
  | fullCall (participants : List (ParticipantData P)) (fields : Option CallFields)
  | loaded (list : List (ParticipantData P)) (count : Int)
  | updated (fields : CallFields)
  | lastSpoke (ssrc : UInt32) (spoke : LastSpokeTimes) (now : Int)
  | activeUpdate (inCall : Bool) (clock : Clock) (participantPeerId : P)
      (active : LastSpokeTimes) (participantPeerLoaded : Option P)
  | finishSpeaking (now : Int)
  | joined (now : Int)
  | resolve (ssrcs : List UInt32)
  | unknownLoaded (list : List (ParticipantData P)) (inCall : Bool) (clock : Clock)
      (peerLoaded : P → Bool)
  | unknownFailed

def step (call : GroupCallParticipants P) : Event P → Option (GroupCallParticipants P)
  | .slice list sliceSource => some (applyParticipantsSlice list sliceSource call)
  | .fullCall participants fields => some (processFullCallFields participants fields call)
  | .loaded list count => some (participantsLoaded list count call)
  | .updated fields => some (applyCallFields fields call).computeParticipantsCount
  | .lastSpoke ssrc spoke now => applyLastSpoke ssrc spoke now call
  | .activeUpdate inCall clock participantPeerId active participantPeerLoaded =>
    some (applyActiveUpdate inCall clock participantPeerId active participantPeerLoaded call)
  | .finishSpeaking now => checkFinishSpeakingByActive now call
  | .joined now => some (setInCall now call)
  | .resolve ssrcs => some (resolveParticipants ssrcs call)
  | .unknownLoaded list inCall clock peerLoaded => unknownLoaded list inCall clock peerLoaded call
  | .unknownFailed => some (unknownFailed call)

/-- A call that was opened. -/
def opened (rtmp : Bool) : GroupCallParticipants P := { listenersHidden := rtmp }

/-- Every entry of the tables leads to a participant it fits. -/
structure TablesFit (call : GroupCallParticipants P) : Prop where
  ssrcs : ∀ ssrc peer, (ssrc, peer) ∈ call.participantPeerByAudioSsrc.entries →
    ∃ participant ∈ call.participants, participant.peer = peer ∧
      (participant.ssrc = ssrc ∨ getAdditionalAudioSsrc participant.videoParams = ssrc)
  speaking : ∀ peer finishes, (peer, finishes) ∈ call.speakingByActiveFinishes.entries →
    ∃ participant ∈ call.participants, participant.peer = peer

end Unknown

end GroupCallParticipants

end TelegramDesktop
