import TelegramDesktop.FlatMapGroups
import TelegramDesktop.GroupCallParticipants

/-!
# The tables of a group call lead to its participants

An entry of a source may be lost when sources move between participants, but an entry that
is there belongs to the participant it leads to: when the source of a participant changes,
the old entry is erased whoever it led to, and a new one is added for this participant or
is not added at all.
-/

namespace TelegramDesktop.GroupCallParticipants

open GroupCallParticipants List FlatMap Option

section Find

variable {P : Type*} [DecidableEq P] {participants : List (Participant P)}
  {participant value : Participant P} {peer other : P}

theorem find_spec (found : find peer participants = some participant) :
    participant ∈ participants ∧ participant.peer = peer :=
  ⟨mem_of_find?_eq_some found, by simpa using find?_some found⟩

theorem find_change (named : value.peer = peer) :
    find other (change peer value participants) =
      if other = peer then (find peer participants).map fun _ => value
      else find other participants := by
  induction participants with
  | nil => simp [find, change]
  | cons first rest ih =>
    unfold change
    by_cases isFirst : first.peer = peer
    · rw [if_pos isFirst]
      by_cases same : other = peer
      · simp [find, same, named, isFirst]
      · simp [find, same, named, isFirst, Ne.symm same]
    · rw [if_neg isFirst]
      unfold find at ih ⊢
      by_cases same : other = peer
      · rw [if_pos same] at ih ⊢
        rw [find?_cons_of_neg (by simpa [same] using isFirst),
          find?_cons_of_neg (by simpa using isFirst), ih]
      · rw [if_neg same] at ih ⊢
        rw [find?_cons, find?_cons, ih]

theorem find_remove_of_ne (different : other ≠ peer) :
    find other (remove peer participants) = find other participants := by
  induction participants with
  | nil => rfl
  | cons first rest ih =>
    unfold remove find at ih ⊢
    by_cases isFirst : first.peer = peer
    · rw [eraseP_cons_of_pos (by simpa using isFirst),
        find?_cons_of_neg (by simpa [isFirst] using different.symm)]
    · rw [eraseP_cons_of_neg (by simpa using isFirst), find?_cons, find?_cons, ih]

theorem find_append (fresh : find value.peer participants = none) :
    find other (participants ++ [value]) =
      if other = value.peer then some value else find other participants := by
  unfold find at fresh ⊢
  rw [find?_append]
  by_cases same : other = value.peer
  · rw [if_pos same, same, fresh]
    simp
  · rw [if_neg same, find?_singleton, if_neg (by simpa using Ne.symm same), or_none]

end Find

section Sources

variable {P : Type*} {added erased ssrc : UInt32} {peer owner : P} {table : FlatMap UInt32 P}

theorem find?_emplaced (found : (table.emplace added peer).find? ssrc = some owner) :
    (ssrc = added ∧ owner = peer) ∨ table.find? ssrc = some owner := by
  rw [find?_emplace] at found
  by_cases same : ssrc = added
  · rw [if_pos same] at found
    cases known : table.find? added with
    | none =>
      rw [known] at found
      exact .inl ⟨same, (some.inj found).symm⟩
    | some other =>
      rw [known] at found
      rw [same, known]
      exact .inr found
  · rw [if_neg same] at found
    exact .inr found

theorem find?_erased (found : (table.erase erased).find? ssrc = some owner) :
    ssrc ≠ erased ∧ table.find? ssrc = some owner := by
  rw [find?_erase] at found
  split at found
  · cases found
  next different =>
    exact ⟨different, found⟩

end Sources

section Tables

variable {P : Type*} [LinearOrder P]

omit [LinearOrder P] in
theorem find?_addSsrc {added ssrc : UInt32} {peer owner : P} {table : FlatMap UInt32 P}
    (found : (addSsrc added peer table).find? ssrc = some owner) :
    (ssrc = added ∧ owner = peer) ∨ table.find? ssrc = some owner := by
  unfold addSsrc at found
  split at found
  · exact find?_emplaced found
  · exact .inr found

omit [LinearOrder P] in
theorem find?_moveSsrc {was now ssrc : UInt32} {peer owner : P} {table : FlatMap UInt32 P}
    (found : (moveSsrc was now peer table).find? ssrc = some owner) :
    (ssrc = now ∧ owner = peer) ∨ ((ssrc = was → was = now) ∧ table.find? ssrc = some owner) := by
  unfold moveSsrc at found
  by_cases moved : was ≠ now
  · rw [if_pos moved] at found
    have kept (old : (table.erase was).find? ssrc = some owner) :
        (ssrc = was → was = now) ∧ table.find? ssrc = some owner :=
      ⟨fun same => absurd same (find?_erased old).1, (find?_erased old).2⟩
    split at found
    · exact (find?_emplaced found).imp_right kept
    · exact .inr (kept found)
  · rw [if_neg moved] at found
    exact .inr ⟨fun _ => not_not.mp moved, found⟩

/-- One of the audio sources of a participant. -/
def HasSsrc (ssrc : UInt32) (participant : Participant P) : Prop :=
  participant.ssrc = ssrc ∨ getAdditionalAudioSsrc participant.videoParams = ssrc

/-- The tables lead to participants, and a source to one that has it. -/
structure Sound (call : GroupCallParticipants P) : Prop where
  owned : ∀ ssrc peer, call.participantPeerByAudioSsrc.find? ssrc = some peer →
    ∃ participant, call.findParticipant peer = some participant ∧ HasSsrc ssrc participant
  speaks : ∀ peer, call.speakingByActiveFinishes.contains peer = true →
    (call.findParticipant peer).isSome

variable {call next : GroupCallParticipants P} {peer : P} {participant value : Participant P}

theorem Sound.tablesFit (sound : Sound call) : TablesFit call := by
  constructor
  · intro ssrc peer member
    obtain ⟨participant, found, has⟩ := sound.owned ssrc peer (find?_of_mem member)
    exact ⟨participant, (find_spec found).1, (find_spec found).2, has⟩
  · intro peer finishes member
    obtain ⟨participant, found⟩ :=
      isSome_iff_exists.mp (sound.speaks peer (contains_of_mem member))
    exact ⟨participant, (find_spec found).1, (find_spec found).2⟩

/-- The participants and both tables stay as they are. -/
structure SameTables (call next : GroupCallParticipants P) : Prop where
  participants : next.participants = call.participants
  ssrcs : next.participantPeerByAudioSsrc = call.participantPeerByAudioSsrc
  speaking : next.speakingByActiveFinishes = call.speakingByActiveFinishes

theorem SameTables.found (same : SameTables call next) (peer : P) :
    next.findParticipant peer = call.findParticipant peer :=
  congrArg (find peer) same.participants

/-- Participants change, but neither in their sources nor in who they are. -/
structure KeepsSsrcs (call next : GroupCallParticipants P) : Prop where
  ssrcs : next.participantPeerByAudioSsrc = call.participantPeerByAudioSsrc
  found : ∀ peer participant, call.findParticipant peer = some participant →
    ∃ value, next.findParticipant peer = some value ∧ value.ssrc = participant.ssrc ∧
      value.videoParams = participant.videoParams

theorem SameTables.keepsSsrcs (same : SameTables call next) : KeepsSsrcs call next where
  ssrcs := same.ssrcs
  found peer participant found := ⟨participant, (same.found peer).trans found, rfl, rfl⟩

theorem KeepsSsrcs.isSome (keeps : KeepsSsrcs call next)
    (found : (call.findParticipant peer).isSome) : (next.findParticipant peer).isSome := by
  obtain ⟨participant, isThere⟩ := isSome_iff_exists.mp found
  obtain ⟨value, isValue, -⟩ := keeps.found peer participant isThere
  rw [isValue]
  rfl

theorem Sound.keeps (sound : Sound call) (keeps : KeepsSsrcs call next)
    (speaks : ∀ peer, next.speakingByActiveFinishes.contains peer = true →
      call.speakingByActiveFinishes.contains peer = true ∨ (call.findParticipant peer).isSome) :
    Sound next := by
  constructor
  · intro ssrc peer found
    rw [keeps.ssrcs] at found
    obtain ⟨participant, isThere, has⟩ := sound.owned ssrc peer found
    obtain ⟨value, isValue, ssrcSame, videoSame⟩ := keeps.found peer participant isThere
    refine ⟨value, isValue, ?_⟩
    rw [HasSsrc, ssrcSame, videoSame]
    exact has
  · intro peer isSpeaking
    exact keeps.isSome ((speaks peer isSpeaking).elim (sound.speaks peer) id)

theorem Sound.same (sound : Sound call) (same : SameTables call next) : Sound next :=
  sound.keeps same.keepsSsrcs fun peer isSpeaking => .inl (by rwa [same.speaking] at isSpeaking)

theorem keepsSsrcs_change (found : call.findParticipant peer = some participant)
    (named : value.peer = peer) (ssrcSame : value.ssrc = participant.ssrc)
    (videoSame : value.videoParams = participant.videoParams)
    (participants : next.participants = change peer value call.participants)
    (ssrcs : next.participantPeerByAudioSsrc = call.participantPeerByAudioSsrc) :
    KeepsSsrcs call next := by
  refine ⟨ssrcs, fun other known isThere => ?_⟩
  have changed : next.findParticipant other = if other = peer then
      (call.findParticipant peer).map fun _ => value else call.findParticipant other := by
    rw [findParticipant, participants, find_change named]
    rfl
  rw [changed]
  by_cases same : other = peer
  · rw [if_pos same, found]
    rw [same, found] at isThere
    cases isThere
    exact ⟨value, rfl, ssrcSame, videoSame⟩
  · rw [if_neg same]
    exact ⟨known, isThere, rfl, rfl⟩

theorem sound_opened (rtmp : Bool) : Sound (opened rtmp : GroupCallParticipants P) where
  owned _ _ found := by cases found
  speaks _ isSpeaking := by cases isSpeaking

/-- A participant goes, with its sources. -/
structure Leaves (call next : GroupCallParticipants P) (was : Participant P) : Prop where
  ssrcs : next.participantPeerByAudioSsrc =
    (call.participantPeerByAudioSsrc.erase was.ssrc).erase (getAdditionalAudioSsrc was.videoParams)
  speaking : next.speakingByActiveFinishes = call.speakingByActiveFinishes.erase was.peer
  participants : next.participants = remove was.peer call.participants

theorem Sound.leaves (sound : Sound call) (leaves : Leaves call next participant)
    (found : call.findParticipant participant.peer = some participant) : Sound next := by
  have kept : ∀ other, other ≠ participant.peer →
      next.findParticipant other = call.findParticipant other := fun other different => by
    rw [findParticipant, leaves.participants, find_remove_of_ne different]
    rfl
  constructor
  · intro ssrc owner isOwner
    rw [leaves.ssrcs] at isOwner
    obtain ⟨notAdditional, isOwner⟩ := find?_erased isOwner
    obtain ⟨notMain, isOwner⟩ := find?_erased isOwner
    obtain ⟨value, isValue, has⟩ := sound.owned ssrc owner isOwner
    -- an entry of the participant itself would have one of the two sources
    have different : owner ≠ participant.peer := by
      rintro rfl
      rw [found] at isValue
      cases isValue
      exact has.elim (fun main => notMain main.symm) fun additional => notAdditional additional.symm
    exact ⟨value, (kept owner different).trans isValue, has⟩
  · intro other isSpeaking
    rw [leaves.speaking, contains_erase] at isSpeaking
    rw [kept other isSpeaking.1]
    exact sound.speaks other isSpeaking.2

/-- A participant comes, with its sources. -/
structure Joins (call next : GroupCallParticipants P) (value : Participant P) : Prop where
  ssrcs : next.participantPeerByAudioSsrc =
    addSsrc (getAdditionalAudioSsrc value.videoParams) value.peer
      (addSsrc value.ssrc value.peer call.participantPeerByAudioSsrc)
  speaking : next.speakingByActiveFinishes = call.speakingByActiveFinishes
  participants : next.participants = call.participants ++ [value]

theorem Sound.joins (sound : Sound call) (joins : Joins call next value)
    (fresh : call.findParticipant value.peer = none) : Sound next := by
  have known : ∀ other, next.findParticipant other =
      if other = value.peer then some value else call.findParticipant other := fun other => by
    rw [findParticipant, joins.participants, find_append fresh]
    rfl
  constructor
  · intro ssrc owner isOwner
    rw [joins.ssrcs] at isOwner
    rw [known]
    rcases find?_addSsrc isOwner with ⟨rfl, rfl⟩ | isOwner
    · exact ⟨value, if_pos rfl, .inr rfl⟩
    rcases find?_addSsrc isOwner with ⟨rfl, rfl⟩ | isOwner
    · exact ⟨value, if_pos rfl, .inl rfl⟩
    obtain ⟨participant, isThere, has⟩ := sound.owned ssrc owner isOwner
    have different : owner ≠ value.peer := by
      rintro rfl
      rw [fresh] at isThere
      cases isThere
    exact ⟨participant, (if_neg different).trans isThere, has⟩
  · intro other isSpeaking
    rw [joins.speaking] at isSpeaking
    rw [known]
    split
    · rfl
    · exact sound.speaks other isSpeaking

/-- A participant changes, and its sources are moved. -/
structure Changes (call next : GroupCallParticipants P) (was value : Participant P) : Prop where
  ssrcs : next.participantPeerByAudioSsrc =
    moveSsrc (getAdditionalAudioSsrc was.videoParams) (getAdditionalAudioSsrc value.videoParams)
      value.peer (moveSsrc was.ssrc value.ssrc value.peer call.participantPeerByAudioSsrc)
  speaking : next.speakingByActiveFinishes = call.speakingByActiveFinishes
  participants : next.participants = change value.peer value call.participants

section

variable (sound : Sound call)
include sound

theorem Sound.changes (changes : Changes call next participant value)
    (found : call.findParticipant value.peer = some participant) : Sound next := by
  have known : ∀ other, next.findParticipant other =
      if other = value.peer then some value else call.findParticipant other := fun other => by
    rw [findParticipant, changes.participants, find_change rfl]
    change (if other = value.peer then (call.findParticipant value.peer).map _ else _) = _
    rw [found]
    rfl
  constructor
  · intro ssrc owner isOwner
    rw [changes.ssrcs] at isOwner
    rw [known]
    rcases find?_moveSsrc isOwner with ⟨rfl, rfl⟩ | ⟨additionalKept, isOwner⟩
    · exact ⟨value, if_pos rfl, .inr rfl⟩
    rcases find?_moveSsrc isOwner with ⟨rfl, rfl⟩ | ⟨mainKept, isOwner⟩
    · exact ⟨value, if_pos rfl, .inl rfl⟩
    obtain ⟨old, isOld, has⟩ := sound.owned ssrc owner isOwner
    by_cases same : owner = value.peer
    · -- what was not moved away is still a source of the participant
      rw [if_pos same]
      rw [same, found] at isOld
      cases isOld
      refine ⟨value, rfl, has.imp (fun main => ?_) fun additional => ?_⟩
      · exact (mainKept main.symm).symm.trans main
      · exact (additionalKept additional.symm).symm.trans additional
    · rw [if_neg same]
      exact ⟨old, isOld, has⟩
  · intro other isSpeaking
    rw [changes.speaking] at isSpeaking
    rw [known]
    split
    · rfl
    · exact sound.speaks other isSpeaking

theorem Sound.applyParticipant (sliceSource : ApplySliceSource) (data : ParticipantData P) :
    Sound (applyParticipant sliceSource call data) := by
  unfold GroupCallParticipants.applyParticipant
  dsimp only
  cases was : call.findParticipant data.peer with
  | none =>
    dsimp only
    split
    · split
      · exact sound.same ⟨rfl, rfl, rfl⟩
      · exact sound
    · have joined := fun next (joins : Joins call next
          (participantValue data sliceSource none)) => sound.joins joins was
      split
      · exact joined _ ⟨rfl, rfl, rfl⟩
      · exact joined _ ⟨rfl, rfl, rfl⟩
  | some participant =>
    have named : participant.peer = data.peer := (find_spec was).2
    dsimp only
    split
    · have left := fun next (leaves : Leaves call next participant) =>
        sound.leaves leaves (by rw [named, was])
      split
      · exact left _ ⟨rfl, by rw [named], by rw [named]⟩
      · exact left _ ⟨rfl, by rw [named], by rw [named]⟩
    · have changed := fun next (changes : Changes call next participant
          (participantValue data sliceSource (some participant))) => sound.changes changes was
      split
      · exact changed _ ⟨rfl, rfl, rfl⟩
      · exact changed _ ⟨rfl, rfl, rfl⟩

theorem Sound.applyParticipantsSlice (list : List (ParticipantData P))
    (sliceSource : ApplySliceSource) : Sound (applyParticipantsSlice list sliceSource call) := by
  have applied : Sound (list.foldl (GroupCallParticipants.applyParticipant sliceSource) call) := by
    induction list generalizing call with
    | nil => exact sound
    | cons data list ih => exact ih (sound.applyParticipant sliceSource data)
  unfold GroupCallParticipants.applyParticipantsSlice
  split
  · exact applied.same ⟨rfl, rfl, rfl⟩
  · exact applied

theorem Sound.processFullCallFields (participants : List (ParticipantData P))
    (fields : Option CallFields) : Sound (processFullCallFields participants fields call) := by
  cases fields with
  | none => exact sound
  | some fields =>
    have cleared : Sound { call with
        participants := []
        speakingByActiveFinishes := ∅
        participantPeerByAudioSsrc := ∅
        allParticipantsLoaded := false } :=
      ⟨fun _ _ found => (by cases found), fun _ isSpeaking => (by cases isSpeaking)⟩
    exact (cleared.applyParticipantsSlice participants .fullReloaded).same ⟨rfl, rfl, rfl⟩

theorem Sound.participantsLoaded (list : List (ParticipantData P)) (count : Int) :
    Sound (participantsLoaded list count call) :=
  (sound.applyParticipantsSlice list .sliceLoaded).same ⟨rfl, rfl, rfl⟩

end

theorem sameTables_request (call : GroupCallParticipants P) :
    SameTables call (requestUnknownParticipants call) := by
  unfold requestUnknownParticipants
  split
  · exact ⟨rfl, rfl, rfl⟩
  · exact ⟨rfl, rfl, rfl⟩

theorem sameTables_resolve (ssrcs : List UInt32) (call : GroupCallParticipants P) :
    SameTables call (resolveParticipants ssrcs call) := by
  unfold resolveParticipants
  split
  · exact ⟨rfl, rfl, rfl⟩
  · exact ⟨(sameTables_request _).participants, (sameTables_request _).ssrcs,
      (sameTables_request _).speaking⟩

theorem Sound.applyLastSpoke (sound : Sound call) (ssrc : UInt32) (spoke : LastSpokeTimes)
    (now : Int) : ∃ next, applyLastSpoke ssrc spoke now call = some next ∧ Sound next := by
  unfold GroupCallParticipants.applyLastSpoke
  cases owner : call.participantPeerByAudioSsrc.find? ssrc with
  | none =>
    have unknown : SameTables call { call with
        unknownSpokenSsrcs := call.unknownSpokenSsrcs.set ssrc spoke } := ⟨rfl, rfl, rfl⟩
    exact ⟨_, rfl, (sound.same unknown).same (sameTables_request _)⟩
  | some peer =>
    obtain ⟨participant, found, -⟩ := sound.owned ssrc peer owner
    have named : participant.peer = peer := (find_spec found).2
    dsimp only
    rw [found]
    refine ⟨_, rfl, sound.keeps (keepsSsrcs_change found ?_ ?_ ?_ rfl rfl) ?_⟩
    · split_ifs <;> exact named
    · split_ifs <;> rfl
    · split_ifs <;> rfl
    · intro other isSpeaking
      exact .inl (contains_erase.mp isSpeaking).2

theorem sameTables_load (participantPeerId : P) (active : LastSpokeTimes)
    (found : Option (Participant P)) (call : GroupCallParticipants P) :
    SameTables call (loadByUserId participantPeerId active found call) := by
  unfold loadByUserId
  split
  · exact ⟨(sameTables_request _).participants, (sameTables_request _).ssrcs,
      (sameTables_request _).speaking⟩
  · exact ⟨rfl, rfl, rfl⟩

theorem Sound.applyActiveUpdate (sound : Sound call) (inCall : Bool) (clock : Clock)
    (participantPeerId : P) (active : LastSpokeTimes) (participantPeerLoaded : Option P) :
    Sound (applyActiveUpdate inCall clock participantPeerId active participantPeerLoaded call) := by
  unfold GroupCallParticipants.applyActiveUpdate
  split
  · exact sound
  cases known : participantPeerLoaded.bind fun peer => call.findParticipant peer with
  | none => exact sound.same (sameTables_load _ _ _ _)
  | some participant =>
    obtain ⟨peer, -, found⟩ := bind_eq_some_iff.mp known
    have named : participant.peer = peer := (find_spec found).2
    have same := sameTables_load participantPeerId active (some participant) call
    have askedSound := sound.same same
    have askedFound := (same.found participant.peer).trans (named ▸ found)
    dsimp only
    split
    · exact askedSound
    split
    · exact askedSound
    refine askedSound.keeps (keepsSsrcs_change askedFound ?_ ?_ ?_ rfl rfl) ?_
    · rfl
    · rfl
    · rfl
    intro other isSpeaking
    rcases contains_set.mp isSpeaking with rfl | isSpeaking
    · exact .inr (by rw [askedFound]; rfl)
    · exact .inl isSpeaking

theorem stopSpeaking_spec (found : (call.findParticipant peer).isSome) :
    ∃ next, stopSpeaking call peer = some next ∧ KeepsSsrcs call next ∧
      next.speakingByActiveFinishes = call.speakingByActiveFinishes := by
  obtain ⟨participant, isThere⟩ := isSome_iff_exists.mp found
  have named : participant.peer = peer := (find_spec isThere).2
  unfold stopSpeaking
  rw [isThere]
  dsimp only
  split
  · refine ⟨_, rfl, keepsSsrcs_change isThere ?_ ?_ ?_ rfl rfl, rfl⟩
    · exact named
    · rfl
    · rfl
  · exact ⟨call, rfl, ⟨rfl, fun _ participant known => ⟨participant, known, rfl, rfl⟩⟩, rfl⟩

section

variable (sound : Sound call)

include sound

/-- The second loop of `checkFinishSpeakingByActive` finds every participant. -/
theorem Sound.stopAll {stop : List P} (found : ∀ peer ∈ stop, (call.findParticipant peer).isSome) :
    ∃ next, stop.foldlM stopSpeaking call = some next ∧ Sound next := by
  induction stop generalizing call with
  | nil => exact ⟨call, rfl, sound⟩
  | cons peer stop ih =>
    obtain ⟨stopped, isStopped, keeps, speaking⟩ :=
      stopSpeaking_spec (found peer mem_cons_self)
    have stoppedSound : Sound stopped := sound.keeps keeps fun other isSpeaking =>
      .inl (by rwa [speaking] at isSpeaking)
    obtain ⟨next, isNext, nextSound⟩ := ih stoppedSound fun other member =>
      keeps.isSome (found other (mem_cons_of_mem peer member))
    refine ⟨next, ?_, nextSound⟩
    rw [foldlM_cons, isStopped]
    exact isNext

theorem Sound.checkFinishSpeakingByActive (now : Int) :
    ∃ next, checkFinishSpeakingByActive now call = some next ∧ Sound next := by
  have goingSound : Sound { call with
      speakingByActiveFinishes :=
        call.speakingByActiveFinishes.filter fun entry => !decide (entry.2 ≤ now)
      speakingByActiveFinishTimer := none } := by
    refine ⟨sound.owned, fun peer isSpeaking => sound.speaks peer ?_⟩
    rw [FlatMap.contains_iff] at isSpeaking ⊢
    obtain ⟨entry, member, key⟩ := isSpeaking
    exact ⟨entry, (FlatMap.mem_filter.mp member).1, key⟩
  have found : ∀ peer ∈ (call.speakingByActiveFinishes.entries.filter fun entry =>
      entry.2 ≤ now).map Prod.fst, (call.findParticipant peer).isSome := fun peer member => by
    obtain ⟨entry, isEntry, rfl⟩ := mem_map.mp member
    exact sound.speaks entry.1 (FlatMap.contains_of_mem (List.mem_filter.mp isEntry).1)
  obtain ⟨stopped, isStopped, stoppedSound⟩ := goingSound.stopAll found
  unfold GroupCallParticipants.checkFinishSpeakingByActive
  dsimp only
  rw [isStopped]
  split
  · exact ⟨_, rfl, stoppedSound.same ⟨rfl, rfl, rfl⟩⟩
  · exact ⟨stopped, rfl, stoppedSound⟩

theorem Sound.setInCall (now : Int) : Sound (setInCall now call) := by
  unfold GroupCallParticipants.setInCall
  split
  · exact sound.same ⟨rfl, rfl, rfl⟩
  · refine ⟨sound.owned, fun peer isSpeaking => sound.speaks peer ?_⟩
    exact contains_mapValues.mp isSpeaking

theorem Sound.resolveSsrc (now : Int) (entry : UInt32 × LastSpokeTimes) :
    ∃ next, resolveSsrc now call entry = some next ∧ Sound next := by
  unfold GroupCallParticipants.resolveSsrc
  split
  · obtain ⟨spoken, isSpoken, spokenSound⟩ := sound.applyLastSpoke entry.1 entry.2 now
    rw [isSpoken]
    exact ⟨_, rfl, spokenSound.same ⟨rfl, rfl, rfl⟩⟩
  · exact ⟨_, rfl, sound.same ⟨rfl, rfl, rfl⟩⟩

theorem Sound.resolveSsrcs (now : Int) (entries : List (UInt32 × LastSpokeTimes)) :
    ∃ next, entries.foldlM (GroupCallParticipants.resolveSsrc now) call = some next ∧
      Sound next := by
  induction entries generalizing call with
  | nil => exact ⟨call, rfl, sound⟩
  | cons entry entries ih =>
    obtain ⟨resolved, isResolved, resolvedSound⟩ := sound.resolveSsrc now entry
    obtain ⟨next, isNext, nextSound⟩ := ih resolvedSound
    refine ⟨next, ?_, nextSound⟩
    rw [foldlM_cons, isResolved]
    exact isNext

theorem Sound.resolvePeers (inCall : Bool) (clock : Clock) (peerLoaded : P → Bool)
    (entries : List (P × LastSpokeTimes)) :
    Sound (entries.foldl (resolvePeer inCall clock peerLoaded) call) := by
  induction entries generalizing call with
  | nil => exact sound
  | cons entry entries ih =>
    refine ih ?_
    unfold resolvePeer
    split
    · exact (sound.applyActiveUpdate inCall clock entry.1 entry.2 (some entry.1)).same
        ⟨rfl, rfl, rfl⟩
    · exact sound.same ⟨rfl, rfl, rfl⟩

theorem Sound.unknownLoaded (list : List (ParticipantData P)) (inCall : Bool) (clock : Clock)
    (peerLoaded : P → Bool) :
    ∃ next, unknownLoaded list inCall clock peerLoaded call = some next ∧ Sound next := by
  unfold GroupCallParticipants.unknownLoaded
  cases call.unknownRequest with
  | none => exact ⟨call, rfl, sound⟩
  | some request =>
    have applied : Sound
        { GroupCallParticipants.applyParticipantsSlice list .unknownLoaded call with
        unknownRequest := none } :=
      (sound.applyParticipantsSlice list .unknownLoaded).same ⟨rfl, rfl, rfl⟩
    obtain ⟨resolved, isResolved, resolvedSound⟩ :=
      applied.resolveSsrcs clock.now request.1.entries
    dsimp only
    rw [isResolved]
    exact ⟨_, rfl, (resolvedSound.resolvePeers inCall clock peerLoaded request.2.entries).same
      (sameTables_request _)⟩

end

theorem sameTables_unknownFailed (call : GroupCallParticipants P) :
    SameTables call (unknownFailed call) := by
  unfold unknownFailed
  split
  · exact ⟨rfl, rfl, rfl⟩
  · exact ⟨(sameTables_request _).participants, (sameTables_request _).ssrcs,
      (sameTables_request _).speaking⟩

/-- Every event goes through and leaves sound tables. -/
theorem Sound.step (sound : Sound call) (event : Event P) :
    ∃ next, step call event = some next ∧ Sound next := by
  cases event with
  | slice list sliceSource => exact ⟨_, rfl, sound.applyParticipantsSlice list sliceSource⟩
  | fullCall participants fields => exact ⟨_, rfl, sound.processFullCallFields participants fields⟩
  | loaded list count => exact ⟨_, rfl, sound.participantsLoaded list count⟩
  | updated fields => exact ⟨_, rfl, sound.same ⟨rfl, rfl, rfl⟩⟩
  | lastSpoke ssrc spoke now => exact sound.applyLastSpoke ssrc spoke now
  | activeUpdate inCall clock participantPeerId active participantPeerLoaded =>
    exact ⟨_, rfl, sound.applyActiveUpdate inCall clock participantPeerId active
      participantPeerLoaded⟩
  | finishSpeaking now => exact sound.checkFinishSpeakingByActive now
  | joined now => exact ⟨_, rfl, sound.setInCall now⟩
  | resolve ssrcs => exact ⟨_, rfl, sound.same (sameTables_resolve ssrcs call)⟩
  | unknownLoaded list inCall clock peerLoaded =>
    exact sound.unknownLoaded list inCall clock peerLoaded
  | unknownFailed => exact ⟨_, rfl, sound.same (sameTables_unknownFailed call)⟩

theorem Sound.run (sound : Sound call) (events : List (Event P)) :
    ∃ last, run GroupCallParticipants.step call events = some last ∧ Sound last := by
  induction events generalizing call with
  | nil => exact ⟨call, rfl, sound⟩
  | cons event events ih =>
    obtain ⟨next, isNext, nextSound⟩ := sound.step event
    obtain ⟨last, isLast, lastSound⟩ := ih nextSound
    refine ⟨last, ?_, lastSound⟩
    rw [TelegramDesktop.run, isNext]
    exact isLast

/-- Whatever happens to a call, no assertion fails and its tables lead to participants. -/
theorem tables_never_dangle (rtmp : Bool) (events : List (Event P)) :
    ∃ last, run step (opened rtmp) events = some last ∧ TablesFit last := by
  obtain ⟨last, isLast, lastSound⟩ := (sound_opened rtmp).run events
  exact ⟨last, isLast, lastSound.tablesFit⟩

end Tables

end TelegramDesktop.GroupCallParticipants
