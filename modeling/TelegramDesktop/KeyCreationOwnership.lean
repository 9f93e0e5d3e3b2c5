import TelegramDesktop.KeyCreation

/-!
# Who holds the right to create an auth key

As long as each key that is not persistent is released while the persistent key is still
the one it was bound to, every raised flag of the data center is held by exactly one
live session, and no assertion fails.
-/

namespace TelegramDesktop

open Option Function

variable {type : CreatingKeyType}

namespace Dcenter

variable {Key : Type*} {dc : Dcenter Key} {index : Fin 2}

/-- No key is there that is being created. -/
def Unkeyed (dc : Dcenter Key) : Prop :=
  ∀ index, dc.creatingKeys index = true → dc.temporaryKeys index = none

theorem Unkeyed.isCreating (unkeyed : dc.Unkeyed) (up : dc.creatingKeys index = true) :
    dc.IsCreating index := ⟨up, unkeyed index up⟩

theorem startCreating_spec (unkeyed : dc.Unkeyed)
    (free : dc.temporaryKeys index = none) (indexEq : type.index? = some index) :
    FlagStep True dc.creatingKeys none (dc.startCreating index type).1.creatingKeys
        (dc.startCreating index type).2.index? ∧
      (dc.startCreating index type).1.Unkeyed := by
  unfold startCreating
  split
  case isTrue up =>
    constructor
    · exact .keep trivial
    · exact unkeyed
  case isFalse down =>
    rw [Bool.not_eq_true] at down
    constructor
    · rw [indexEq]
      exact .take trivial down
    · intro other up
      by_cases same : other = index
      · rw [same]
        exact free
      · simp only [update_of_ne same] at up
        exact unkeyed other up

theorem acquireKeyCreation_spec (unkeyed : dc.Unkeyed) (type : DcType) :
    FlagStep True dc.creatingKeys none (dc.acquireKeyCreation type).1.creatingKeys
        (dc.acquireKeyCreation type).2.index? ∧
      (dc.acquireKeyCreation type).1.Unkeyed := by
  unfold acquireKeyCreation
  extract_lets keyType
  split
  case isTrue => exact ⟨.keep trivial, unkeyed⟩
  case isFalse free =>
    rw [Bool.not_eq_true, isSome_eq_false_iff, isNone_iff_eq_none] at free
    split
    case isTrue media =>
      apply startCreating_spec unkeyed free
      rw [media.1]
      rfl
    case isFalse regular =>
      apply startCreating_spec unkeyed
      · by_cases media : keyType = .mediaCluster
        · simpa [media] using regular
        · cases keyEq : keyType
          · rw [← keyEq]
            exact free
          · exact absurd keyEq media
      · split <;> rfl

theorem acquireKeyCreation_cdn :
    (dc.acquireKeyCreation .cdn).2 = .none ∨
      (dc.acquireKeyCreation .cdn).2 = .temporaryRegular := by
  have regular : temporaryKeyTypeByDcType .cdn = .regular := rfl
  simp only [acquireKeyCreation, regular, startCreating]
  split
  · exact .inl rfl
  · split
    next media =>
      cases media.1
    · split
      · exact .inl rfl
      · exact .inr rfl

theorem Unkeyed.stopCreating {before : Dcenter Key} (unkeyed : before.Unkeyed)
    (creating : dc.creatingKeys = before.creatingKeys)
    (others : ∀ other, other ≠ index → dc.temporaryKeys other = before.temporaryKeys other) :
    (dc.stopCreating index).Unkeyed := by
  intro other up
  by_cases same : other = index
  · subst same
    simp [Dcenter.stopCreating] at up
  · simp only [Dcenter.stopCreating, update_of_ne same, creating] at up
    rw [Dcenter.stopCreating, others other same]
    exact unkeyed other up

/-- A key is released for good if it is persistent or bound to the persistent key. -/
theorem releaseKeyCreationOnDone_spec [DecidableEq Key]
    {temporaryKey : Option Key} (unkeyed : dc.Unkeyed) (some : temporaryKey.isSome)
    (used : Option Key) (indexEq : type.index? = .some index) (up : dc.creatingKeys index = true) :
    ∃ next released, dc.releaseKeyCreationOnDone type temporaryKey used =
        .some (next, released) ∧ next.Unkeyed ∧
      FlagStep (type = .persistent ∨ dc.persistentKey = used) dc.creatingKeys (.some index)
        next.creatingKeys none := by
  have creating : dc.IsCreating index ∧ temporaryKey.isSome := ⟨unkeyed.isCreating up, some⟩
  simp only [releaseKeyCreationOnDone, indexEq, if_pos creating]
  split
  case isTrue persistent =>
    refine ⟨_, _, rfl, ?_, .give (.inl persistent)⟩
    apply unkeyed.stopCreating
    · rfl
    · intro other different
      exact update_of_ne different _ _
  case isFalse temporary =>
    split
    case isTrue changed =>
      refine ⟨_, _, rfl, unkeyed, .forget ?_⟩
      rintro (persistent | same)
      · exact temporary persistent
      · exact changed same
    case isFalse same =>
      refine ⟨_, _, rfl, ?_, .give (.inr (not_not.mp same))⟩
      apply unkeyed.stopCreating
      · rfl
      · intro other different
        exact update_of_ne different _ _

theorem releaseKeyCreationOnFail_spec (unkeyed : dc.Unkeyed)
    (indexEq : type.index? = some index) (up : dc.creatingKeys index = true) :
    ∃ next, dc.releaseKeyCreationOnFail type = some next ∧ next.Unkeyed ∧
      FlagStep True dc.creatingKeys (some index) next.creatingKeys none := by
  simp only [releaseKeyCreationOnFail, indexEq, if_pos (unkeyed.isCreating up)]
  exact ⟨_, rfl, unkeyed.stopCreating rfl fun _ _ => rfl, .give trivial⟩

/-! The keys are only reset where they are destroyed. -/

variable [AuthKey Key]

theorem resetTemporaryKey_spec {keyId : UInt64} {next : Dcenter Key}
    (reset : dc.resetTemporaryKey keyId index = some next) (unkeyed : dc.Unkeyed) :
    next.creatingKeys = dc.creatingKeys ∧ next.Unkeyed := by
  unfold resetTemporaryKey at reset
  split at reset
  · cases reset
    refine ⟨rfl, fun other up => ?_⟩
    by_cases same : other = index
    · subst same
      exact update_self ..
    · exact (update_of_ne same ..).trans (unkeyed other up)
  · cases reset

theorem destroyTemporaryKey_spec (unkeyed : dc.Unkeyed) (keyId : UInt64) :
    (dc.destroyTemporaryKey keyId).1.creatingKeys = dc.creatingKeys ∧
      (dc.destroyTemporaryKey keyId).1.Unkeyed := by
  unfold destroyTemporaryKey
  split
  case h_1 reset resetEq =>
    cases firstEq : dc.resetTemporaryKey keyId 0 with
    | some first =>
      rw [firstEq] at resetEq
      cases resetEq
      exact resetTemporaryKey_spec firstEq unkeyed
    | none =>
      rw [firstEq] at resetEq
      exact resetTemporaryKey_spec resetEq unkeyed
  case h_2 => exact ⟨rfl, unkeyed⟩

theorem destroyConfirmedForgottenKey_spec (unkeyed : dc.Unkeyed) (keyId : UInt64) :
    (dc.destroyConfirmedForgottenKey keyId).1.creatingKeys = dc.creatingKeys ∧
      (dc.destroyConfirmedForgottenKey keyId).1.Unkeyed := by
  unfold destroyConfirmedForgottenKey
  split
  · exact ⟨rfl, fun _ _ => rfl⟩
  · exact ⟨rfl, unkeyed⟩

end Dcenter

/-- The session has the right to create a key exactly as long as its connection has a
creator.  After it is killed it may keep a right that it releases at its end. -/
structure Session.Consistent {Key : Type*} (session : Session Key) : Prop where
  created : session.isOwner →
    (session.keyCreator.isSome = true ↔ session.myKeyCreation ≠ .none)
  cdn : session.isOwner → session.keyCreator.isSome → session.realDcType = .cdn →
    session.myKeyCreation = .temporaryRegular
  stopped : session.isRunning = false → session.keyCreator = none

theorem CreatingKeyType.exists_index? (some : type ≠ .none) :
    ∃ index, type.index? = .some index := by
  cases type with
  | none => exact absurd rfl some
  | persistent => exact ⟨0, rfl⟩
  | temporaryRegular => exact ⟨0, rfl⟩
  | temporaryMediaCluster => exact ⟨1, rfl⟩

namespace DcSession

variable {Key : Type*} {session next : DcSession Key}

/-- The key type that the session creates. -/
def mine (session : DcSession Key) : Option (Fin 2) := session.myKeyCreation.index?

/-- The session changes the flags as one step may. -/
def Steps (lawful : Prop) (session next : DcSession Key) : Prop :=
  FlagStep lawful session.dc.creatingKeys session.mine next.dc.creatingKeys next.mine

/-- What a session needs of the data center to release its flag. -/
structure Ready (session : DcSession Key) : Prop where
  unkeyed : session.dc.Unkeyed
  raised : ∀ index, session.mine = some index → session.dc.creatingKeys index = true

/-- A step that succeeds and leaves the session and the data center consistent. -/
structure Succeeds (lawful : Prop) (session : DcSession Key)
    (result : Option (DcSession Key)) (next : DcSession Key) : Prop where
  result_eq : result = some next
  steps : Steps lawful session next
  consistent : next.Consistent
  unkeyed : next.dc.Unkeyed

theorem consistent_of_none (creator : session.keyCreator = none)
    (none : session.isOwner → session.myKeyCreation = .none) : session.Consistent where
  created isOwner := by simp [creator, none isOwner]
  cdn _ created := by simp [creator] at created
  stopped _ := creator

theorem Steps.of_eq (creating : next.dc.creatingKeys = session.dc.creatingKeys)
    (mineEq : next.myKeyCreation = session.myKeyCreation) : Steps True session next := by
  unfold Steps mine
  rw [creating, mineEq]
  exact .keep trivial

/-! What a session asks of the data center it shares. -/

theorem acquireKeyCreation_spec (unkeyed : session.dc.Unkeyed)
    (free : session.myKeyCreation = .none) (type : DcType) :
    ∃ dc acquired, session.acquireKeyCreation type =
        some ({ session with dc := dc, myKeyCreation := acquired }, acquired) ∧
      FlagStep True session.dc.creatingKeys none dc.creatingKeys acquired.index? ∧
      dc.Unkeyed ∧ (type = .cdn → acquired ≠ .none → acquired = .temporaryRegular) := by
  have spec := Dcenter.acquireKeyCreation_spec unkeyed type
  refine ⟨_, _, if_pos free, spec.1, spec.2, ?_⟩
  rintro rfl acquired
  exact Dcenter.acquireKeyCreation_cdn.resolve_left acquired

theorem releaseGenericKeyCreationOnDone_spec [DecidableEq Key] (session : DcSession Key)
    (ready : session.Ready) {temporaryKey : Option Key} (some : temporaryKey.isSome)
    (used : Option Key) (mine : session.myKeyCreation ≠ .none) :
    ∃ dc released, session.releaseGenericKeyCreationOnDone temporaryKey used =
        .some ({ session with dc := dc, myKeyCreation := .none }, released) ∧ dc.Unkeyed ∧
      FlagStep (session.myKeyCreation = .persistent ∨ session.dc.persistentKey = used)
        session.dc.creatingKeys session.mine dc.creatingKeys none := by
  obtain ⟨index, indexEq⟩ := CreatingKeyType.exists_index? mine
  obtain ⟨dc, released, doneEq, unkeyed, step⟩ :=
    Dcenter.releaseKeyCreationOnDone_spec ready.unkeyed some used indexEq
      (ready.raised index indexEq)
  refine ⟨dc, released, ?_, unkeyed, ?_⟩
  · rw [releaseGenericKeyCreationOnDone, doneEq]
    rfl
  · rw [DcSession.mine, indexEq]
    exact step

theorem releaseKeyCreationOnFail_spec (session : DcSession Key) (ready : session.Ready)
    (mine : session.myKeyCreation ≠ .none) :
    ∃ dc, session.releaseKeyCreationOnFail =
        some { session with dc := dc, myKeyCreation := .none } ∧ dc.Unkeyed ∧
      FlagStep True session.dc.creatingKeys session.mine dc.creatingKeys none := by
  obtain ⟨index, indexEq⟩ := CreatingKeyType.exists_index? mine
  obtain ⟨dc, failEq, unkeyed, step⟩ :=
    Dcenter.releaseKeyCreationOnFail_spec ready.unkeyed indexEq (ready.raised index indexEq)
  refine ⟨dc, ?_, unkeyed, ?_⟩
  · rw [releaseKeyCreationOnFail, if_pos mine, failEq]
    rfl
  · rw [DcSession.mine, indexEq]
    exact step

/-! What the connection does. -/

theorem connectionReleaseKeyCreationOnFail_spec (ready : session.Ready)
    (created : session.isOwner →
      (session.keyCreator.isSome = true ↔ session.myKeyCreation ≠ .none)) :
    ∃ next, session.connectionReleaseKeyCreationOnFail = some next ∧
      Steps True session next ∧ next.dc.Unkeyed ∧ next.keyCreator = none ∧
      (next.isOwner → next.myKeyCreation = .none) := by
  unfold connectionReleaseKeyCreationOnFail dataReleaseKeyCreationOnFail
  split
  case h_1 creator =>
    refine ⟨session, rfl, .of_eq rfl rfl, ready.unkeyed, creator, fun isOwner => ?_⟩
    simpa [creator] using created isOwner
  case h_2 key creator =>
    split
    case isTrue isOwner =>
      have right : session.myKeyCreation ≠ .none :=
        (created isOwner).mp (by simp [creator])
      obtain ⟨dc, failEq, unkeyed, step⟩ := releaseKeyCreationOnFail_spec
        { session with keyCreator := none } ⟨ready.unkeyed, ready.raised⟩ right
      exact ⟨_, failEq, step, unkeyed, rfl, fun _ => rfl⟩
    case isFalse killed =>
      exact ⟨_, rfl, .of_eq rfl rfl, ready.unkeyed, rfl, fun isOwner => absurd isOwner killed⟩

variable [AuthKey Key]

theorem destroyEncryptionKey_spec (unkeyed : session.dc.Unkeyed) :
    session.destroyEncryptionKey.toSession =
        { session.toSession with encryptionKey := none } ∧
      session.destroyEncryptionKey.dc.creatingKeys = session.dc.creatingKeys ∧
      session.destroyEncryptionKey.dc.Unkeyed := by
  unfold destroyEncryptionKey dataDestroyTemporaryKey
  split
  · exact ⟨rfl, rfl, unkeyed⟩
  · split
    · exact ⟨rfl, Dcenter.destroyTemporaryKey_spec unkeyed _⟩
    · exact ⟨rfl, rfl, unkeyed⟩

/-- Destroying the key that is applied comes after a step that leaves no creator. -/
theorem Steps.destroyEncryptionKey {lawful : Prop} (steps : Steps lawful session next)
    (unkeyed : next.dc.Unkeyed) (creator : next.keyCreator = none)
    (free : next.isOwner → next.myKeyCreation = .none) :
    Succeeds lawful session (some next.destroyEncryptionKey) next.destroyEncryptionKey := by
  obtain ⟨same, creating, unkeyedToo⟩ := destroyEncryptionKey_spec unkeyed
  have mine : next.destroyEncryptionKey.mine = next.mine := by
    rw [DcSession.mine, same]
    rfl
  refine ⟨rfl, ?_, ?_, unkeyedToo⟩
  · unfold Steps
    rw [creating, mine]
    exact steps
  · rw [same]
    have consistent : ({ next with encryptionKey := none } : DcSession Key).Consistent :=
      consistent_of_none creator free
    exact consistent

theorem connectionDestroyTemporaryKey_spec (session : DcSession Key) (ready : session.Ready)
    (created : session.isOwner →
      (session.keyCreator.isSome = true ↔ session.myKeyCreation ≠ .none)) :
    ∃ next, Succeeds True session session.connectionDestroyTemporaryKey next := by
  obtain ⟨released, releasedEq, steps, unkeyed, creator, free⟩ :=
    connectionReleaseKeyCreationOnFail_spec ready created
  unfold connectionDestroyTemporaryKey
  rw [releasedEq]
  exact ⟨_, steps.destroyEncryptionKey unkeyed creator free⟩

omit [AuthKey Key] in
theorem tryAcquireKeyCreation_spec (session : DcSession Key) (unkeyed : session.dc.Unkeyed)
    (consistent : session.Consistent) (running : session.isRunning = true) :
    ∃ next type, session.tryAcquireKeyCreation = some (next, type) ∧ Steps True session next ∧
      next.Consistent ∧ next.dc.Unkeyed := by
  unfold tryAcquireKeyCreation
  split
  case h_1 => exact ⟨_, _, rfl, .of_eq rfl rfl, consistent, unkeyed⟩
  case h_2 creator =>
    unfold dataAcquireKeyCreation
    by_cases isOwner : session.isOwner
    · rw [if_pos isOwner]
      have free : session.myKeyCreation = .none := by
        simpa [creator] using consistent.created isOwner
      have mine : session.mine = none := by rw [DcSession.mine, free, CreatingKeyType.index?]
      obtain ⟨dc, acquired, acquiredEq, step, unkeyedToo, cdn⟩ :=
        acquireKeyCreation_spec unkeyed free session.realDcType
      rw [acquiredEq]
      by_cases none : acquired = .none
      · refine ⟨_, _, congrArg some (if_pos none), ?_, ?_, unkeyedToo⟩
        · unfold Steps
          rw [mine]
          exact step
        · exact consistent_of_none creator fun _ => none
      · refine ⟨_, _, congrArg some (if_neg none), ?_, ?_, unkeyedToo⟩
        · unfold Steps
          rw [mine]
          exact step
        · constructor
          · exact fun _ => iff_of_true rfl none
          · exact fun _ _ isCdn => cdn isCdn none
          · exact fun stopped => absurd stopped (by simp [running])
    · rw [if_neg isOwner]
      exact ⟨session, session.realDcType, rfl, .of_eq rfl rfl, consistent, unkeyed⟩

theorem connectToServer_spec (ready : session.Ready) (consistent : session.Consistent)
    (running : session.isRunning = true) (dcType : DcType) :
    ∃ next, Succeeds True session (session.connectToServer dcType) next := by
  unfold connectToServer
  extract_lets changed
  split
  case isTrue =>
    obtain ⟨next, destroyed⟩ := connectionDestroyTemporaryKey_spec changed
      ⟨ready.unkeyed, ready.raised⟩ consistent.created
    exact ⟨next, destroyed.result_eq, destroyed.steps, destroyed.consistent, destroyed.unkeyed⟩
  case isFalse same =>
    have consistentToo : changed.Consistent := by
      constructor
      · exact consistent.created
      · intro isOwner created isCdn
        by_cases sameType : session.realDcType = dcType
        · exact consistent.cdn isOwner created (sameType.trans isCdn)
        · exact absurd ⟨sameType, created⟩ same
      · exact consistent.stopped
    obtain ⟨next, type, nextEq, steps, connected, unkeyed⟩ :=
      tryAcquireKeyCreation_spec changed ready.unkeyed consistentToo running
    refine ⟨{ next with currentDcType := type }, ?_, steps, ?_, unkeyed⟩
    · rw [nextEq]
      rfl
    · exact { connected with }

omit [AuthKey Key] in
theorem destroyConnection_spec (ready : session.Ready) (consistent : session.Consistent) :
    ∃ next, Succeeds True session session.destroyConnection next := by
  obtain ⟨released, releasedEq, steps, unkeyed, creator, free⟩ :=
    connectionReleaseKeyCreationOnFail_spec ready consistent.created
  refine ⟨{ released with isRunning := false, encryptionKey := none }, ?_, steps, ?_, unkeyed⟩
  · rw [destroyConnection, releasedEq]
    rfl
  · exact consistent_of_none creator free

end DcSession

/-- A key of a session that is not killed is released under the persistent key that it
is bound to, which a CDN has none of; a persistent key that is created replaces it. -/
def SessionEvent.BindsStill {Key : Type*} (session : DcSession Key) : SessionEvent Key → Prop
  | unboundReady (some _) =>
    session.isOwner → session.realDcType = .cdn → session.dc.persistentKey = none
  | handleBindResponse .success _ =>
    session.isOwner → ∀ creator ∈ session.keyCreator,
      session.myKeyCreation = .persistent ∨ session.dc.persistentKey = creator.binder
  | _ => True

namespace DcSession

variable {Key : Type*} {session next : DcSession Key}

theorem Succeeds.of_iff {lawful lawful' : Prop} {result : Option (DcSession Key)}
    (succeeds : Succeeds lawful session result next) (same : lawful ↔ lawful') :
    Succeeds lawful' session result next :=
  propext same ▸ succeeds

variable [AuthKey Key] [DecidableEq Key]

section

variable (ready : session.Ready) (consistent : session.Consistent)
include ready consistent

omit [AuthKey Key] in
theorem unboundReady_cdn (created : session.keyCreator.isSome) (isCdn : session.realDcType = .cdn)
    (temporaryKey : Key) (persistentKey : Option Key) :
    ∃ next, Succeeds (session.isOwner → session.dc.persistentKey = none) session
      (session.unboundReady (some (temporaryKey, persistentKey))) next := by
  have unboundEq : session.unboundReady (some (temporaryKey, persistentKey)) =
      ({ session with encryptionKey := some temporaryKey, keyCreator := none
        }.dataReleaseCdnKeyCreationOnDone (some temporaryKey)).map Prod.fst := if_pos isCdn
  rw [unboundEq, dataReleaseCdnKeyCreationOnDone]
  by_cases isOwner : session.isOwner
  · have mine : session.myKeyCreation = .temporaryRegular :=
      consistent.cdn isOwner created isCdn
    obtain ⟨dc, released, doneEq, unkeyed, step⟩ :=
      releaseGenericKeyCreationOnDone_spec
        { session with encryptionKey := some temporaryKey, keyCreator := none }
        ⟨ready.unkeyed, ready.raised⟩ (isSome_some (a := temporaryKey)) none
        (by simp [mine])
    have same : (session.myKeyCreation = .persistent ∨ session.dc.persistentKey = none) ↔
        (session.isOwner → session.dc.persistentKey = none) := by
      simp [mine, isOwner]
    rw [if_pos isOwner, releaseCdnKeyCreationOnDone, if_pos mine, doneEq]
    refine ⟨_, rfl, ?_, consistent_of_none rfl fun _ => rfl, unkeyed⟩
    rw [← same]
    exact step
  · rw [if_neg isOwner, iff_true_intro fun owner => absurd owner isOwner]
    refine ⟨_, rfl, .of_eq rfl rfl, ?_, ready.unkeyed⟩
    exact consistent_of_none rfl fun owner => absurd owner isOwner

omit [AuthKey Key] in
theorem unboundReady_spec (created : session.keyCreator.isSome)
    (result : Option (Key × Option Key)) :
    ∃ next, Succeeds ((SessionEvent.unboundReady result).BindsStill session) session
      (session.unboundReady result) next := by
  have failed : ∃ next, Succeeds True session session.connectionReleaseKeyCreationOnFail next := by
    obtain ⟨released, releasedEq, steps, unkeyed, creator, free⟩ :=
      connectionReleaseKeyCreationOnFail_spec ready consistent.created
    exact ⟨released, releasedEq, steps, consistent_of_none creator free, unkeyed⟩
  cases result with
  | none => exact failed
  | some keys =>
    obtain ⟨temporaryKey, persistentKey⟩ := keys
    by_cases isCdn : session.realDcType = .cdn
    · obtain ⟨next, succeeds⟩ :=
        unboundReady_cdn ready consistent created isCdn temporaryKey persistentKey
      exact ⟨next, succeeds.of_iff (by simp [SessionEvent.BindsStill, isCdn])⟩
    · have fair : True ↔
          (SessionEvent.unboundReady (some (temporaryKey, persistentKey))).BindsStill session :=
        iff_of_true trivial fun _ cdn => absurd cdn isCdn
      simp only [unboundReady, if_neg isCdn]
      cases (persistentKey <|> session.dataPersistentKey) with
      | none =>
        obtain ⟨next, succeeds⟩ := failed
        exact ⟨next, succeeds.of_iff fair⟩
      | some key =>
        have bound : Succeeds True session
            (some ((session.bind key).applyAuthKey (some temporaryKey)))
            ((session.bind key).applyAuthKey (some temporaryKey)) := by
          refine ⟨rfl, .of_eq rfl rfl, ⟨?_, ?_, ?_⟩, ready.unkeyed⟩
          · simpa [bind, applyAuthKey] using consistent.created
          · simpa [bind, applyAuthKey] using consistent.cdn
          · simpa [bind, applyAuthKey] using consistent.stopped
        exact ⟨_, bound.of_iff fair⟩

theorem handleBindResponse_success {creator : BoundKeyCreator Key}
    (created : session.keyCreator = some creator) (binder : creator.binder.isSome)
    (encrypted : session.encryptionKey.isSome) (oldEnough : Bool) :
    ∃ next, Succeeds (session.isOwner → session.myKeyCreation = .persistent ∨
        session.dc.persistentKey = creator.binder) session
      (session.handleBindResponse .success oldEnough) next := by
  simp only [handleBindResponse, created, dataReleaseKeyCreationOnDone]
  by_cases isOwner : session.isOwner
  · have right : session.myKeyCreation ≠ .none :=
      (consistent.created isOwner).mp (by simp [created])
    obtain ⟨dc, released, doneEq, unkeyed, step⟩ :=
      releaseGenericKeyCreationOnDone_spec { session with keyCreator := none }
        ⟨ready.unkeyed, ready.raised⟩ encrypted creator.binder right
    rw [if_pos isOwner, releaseKeyCreationOnDone, if_pos ⟨right, binder⟩, doneEq,
      bind_some, forall_prop_of_true isOwner]
    cases released with
    | true => exact ⟨_, rfl, step, consistent_of_none rfl fun _ => rfl, unkeyed⟩
    | false =>
      -- The creator is gone, so nothing releases the flag of a key that is rejected.
      have steps : Steps (session.myKeyCreation = .persistent ∨
          session.dc.persistentKey = creator.binder) session
            { session with dc := dc, myKeyCreation := .none, keyCreator := none } := step
      exact ⟨_, steps.destroyEncryptionKey unkeyed rfl fun _ => rfl⟩
  · rw [if_neg isOwner, iff_true_intro fun owner => absurd owner isOwner]
    have steps : Steps True session { session with keyCreator := none } := .of_eq rfl rfl
    exact ⟨_, steps.destroyEncryptionKey ready.unkeyed rfl fun owner => absurd owner isOwner⟩

theorem handleBindResponse_spec (encrypted : session.encryptionKey.isSome)
    (binders : ∀ creator ∈ session.keyCreator, creator.binder.isSome) (result : DcKeyBindState)
    (oldEnough : Bool) :
    ∃ next, Succeeds ((SessionEvent.handleBindResponse result oldEnough).BindsStill session)
      session (session.handleBindResponse result oldEnough) next := by
  have same : Succeeds True session (some session) session :=
    ⟨rfl, .of_eq rfl rfl, consistent, ready.unkeyed⟩
  cases created : session.keyCreator with
  | none =>
    refine ⟨session, ?_⟩
    simp only [handleBindResponse, created]
    apply same.of_iff
    cases result <;> simp [SessionEvent.BindsStill, created]
  | some creator =>
    cases result with
    | success =>
      obtain ⟨next, succeeds⟩ := handleBindResponse_success ready consistent created
        (binders creator created) encrypted oldEnough
      exact ⟨next, succeeds.of_iff (by simp [SessionEvent.BindsStill, created])⟩
    | failed =>
      refine ⟨session, ?_⟩
      simp only [handleBindResponse, created]
      exact same
    | definitelyDestroyed =>
      simp only [handleBindResponse, created]
      cases oldEnough with
      | true => exact connectionDestroyTemporaryKey_spec session ready consistent.created
      | false => exact ⟨session, same⟩

end

end DcSession

/-- Every step of a session succeeds, and is lawful exactly if its key binds still. -/
theorem SessionEvent.handle_spec {Key : Type*} [AuthKey Key] [DecidableEq Key]
    {session : DcSession Key} (ready : session.Ready) (consistent : session.Consistent)
    (event : SessionEvent Key) (occurs : event.Occurs session.toSession) :
    ∃ next, DcSession.Succeeds (event.BindsStill session) session (event.handle session)
      next := by
  cases event with
  | start dcType =>
    refine ⟨_, rfl, .of_eq rfl rfl, ?_, ready.unkeyed⟩
    apply DcSession.consistent_of_none rfl
    intro isOwner
    have creator : session.keyCreator = none := consistent.stopped occurs.1
    have free : session.myKeyCreation = .none := by
      simpa [creator] using consistent.created isOwner
    exact free
  | connectToServer dcType => exact DcSession.connectToServer_spec ready consistent occurs dcType
  | tryAcquireKeyCreation =>
    obtain ⟨next, type, nextEq, steps, connected, unkeyed⟩ :=
      DcSession.tryAcquireKeyCreation_spec session ready.unkeyed consistent occurs
    refine ⟨next, ?_, steps, connected, unkeyed⟩
    exact congrArg (Option.map Prod.fst) nextEq
  | checkAuthKey =>
    refine ⟨_, rfl, .of_eq rfl rfl, ?_, ready.unkeyed⟩
    exact { consistent with }
  | unboundReady result => exact DcSession.unboundReady_spec ready consistent occurs.2 result
  | handleBindResponse result oldEnough =>
    exact DcSession.handleBindResponse_spec ready consistent occurs.2.1 occurs.2.2 result oldEnough
  | destroyTemporaryKey =>
    exact DcSession.connectionDestroyTemporaryKey_spec session ready consistent.created
  | destroyConnection => exact DcSession.destroyConnection_spec ready consistent
  | kill =>
    refine ⟨_, rfl, .of_eq rfl rfl, ⟨?_, ?_, consistent.stopped⟩, ready.unkeyed⟩
    · intro isOwner
      cases isOwner
    · intro isOwner
      cases isOwner

namespace DcSession

variable {Key : Type*} {session : DcSession Key}

theorem destroySession_spec (ready : session.Ready) :
    ∃ dc, session.destroySession = some dc ∧ dc.Unkeyed ∧
      FlagStep True session.dc.creatingKeys session.mine dc.creatingKeys none := by
  unfold destroySession
  split
  case isTrue free =>
    refine ⟨_, rfl, ready.unkeyed, ?_⟩
    rw [mine, free, CreatingKeyType.index?]
    exact .keep trivial
  case isFalse right =>
    obtain ⟨dc, failEq, unkeyed, step⟩ := releaseKeyCreationOnFail_spec session ready right
    rw [failEq]
    exact ⟨dc, rfl, unkeyed, step⟩

end DcSession

namespace KeyCreation

variable {Id Key : Type*}

/-- The key type that a session of the dc creates. -/
def holder (state : KeyCreation Id Key) (id : Id) : Option (Fin 2) :=
  (state.sessions id).bind fun session => session.myKeyCreation.index?

/-- The sessions agree with the flags of the data center. -/
def Consistent (state : KeyCreation Id Key) : Prop :=
  ∀ id session, state.sessions id = some session → session.Consistent

variable {state : KeyCreation Id Key} {id : Id}

theorem ready_of_held (held : FlagsHeld state.dc.creatingKeys state.holder)
    (unkeyed : state.dc.Unkeyed) {session : Session Key}
    (live : state.sessions id = some session) : (session.withDc state.dc).Ready where
  unkeyed := unkeyed
  raised index mine := by
    have holds : state.holder id = some index := by
      rw [holder, live]
      exact mine
    exact held.raised_of_holder holds

variable [DecidableEq Id]

/-! A session is replaced, started or destroyed. -/

theorem holder_update (state : KeyCreation Id Key) (id : Id) (dc : Dcenter Key)
    (changed : Option (Session Key)) :
    holder { dc := dc, sessions := update state.sessions id changed } =
      update state.holder id
        (changed.bind fun session => session.myKeyCreation.index?) := by
  ext1 other
  unfold holder
  by_cases same : other = id
  · subst same
    simp
  · simp [same]

theorem Consistent.update (consistent : state.Consistent) {dc : Dcenter Key}
    {changed : Option (Session Key)} (kept : ∀ session ∈ changed, session.Consistent) :
    Consistent { dc := dc, sessions := update state.sessions id changed } := by
  intro other live liveEq
  by_cases same : other = id
  · subst same
    exact kept live (by simpa using liveEq)
  · exact consistent other live (by simpa [same] using liveEq)

/-- The right to create a key is neither leaked nor shared, and no assertion fails. -/
structure Owned [AuthKey Key] [DecidableEq Key] (state : KeyCreation Id Key) : Prop where
  held : FlagsHeld state.dc.creatingKeys state.holder
  unkeyed : state.dc.Unkeyed
  expected : ∀ event, state.Occurs event → (state.handle event).isSome

/-- What a session releases is bound to the persistent key of now. -/
def BindsStill (state : KeyCreation Id Key) : DcenterEvent Id Key → Prop
  | .session id event =>
    state.Occurs (.session id event) →
      ∀ session ∈ state.sessions id, event.BindsStill (session.withDc state.dc)
  | _ => True

variable [AuthKey Key] [DecidableEq Key]

/-- Every event succeeds, and keeps the flags held exactly if its key binds still. -/
theorem handle_spec (consistent : state.Consistent)
    (held : FlagsHeld state.dc.creatingKeys state.holder) (unkeyed : state.dc.Unkeyed)
    (event : DcenterEvent Id Key) (occurs : state.Occurs event) :
    ∃ next, state.handle event = some next ∧ next.Consistent ∧ next.dc.Unkeyed ∧
      (FlagsHeld next.dc.creatingKeys next.holder ↔ state.BindsStill event) := by
  cases event with
  | startSession id dcType =>
    have free : state.holder id = none := by
      rw [holder, isNone_iff_eq_none.mp occurs, bind_none]
    refine ⟨_, rfl, consistent.update ?_, unkeyed, iff_of_true ?_ trivial⟩
    · rintro session ⟨⟩
      constructor <;> simp
    · rw [holder_update]
      apply (held.step_iff ?_).mpr trivial
      rw [free]
      exact .keep trivial
  | destroySession id =>
    obtain ⟨session, live⟩ := isSome_iff_exists.mp occurs
    obtain ⟨dc, destroyed, unkeyedToo, step⟩ :=
      DcSession.destroySession_spec (ready_of_held held unkeyed live)
    refine ⟨{ dc := dc, sessions := update state.sessions id none }, ?_,
      consistent.update (by simp), unkeyedToo, iff_of_true ?_ trivial⟩
    · rw [handle, live, bind_some, destroyed, map_some]
    · rw [holder_update]
      apply (held.step_iff ?_).mpr trivial
      rw [holder, live]
      exact step
  | session id event =>
    obtain ⟨session, live⟩ := isSome_iff_exists.mp occurs.1
    obtain ⟨next, succeeds⟩ := event.handle_spec (ready_of_held held unkeyed live)
      (consistent id session live) (occurs.2 session live)
    refine ⟨state.setSession id next, ?_, consistent.update ?_, succeeds.unkeyed, ?_⟩
    · rw [handle, live, bind_some, succeeds.result_eq, map_some]
    · rintro changed ⟨⟩
      exact succeeds.consistent
    · have step : FlagStep (event.BindsStill (session.withDc state.dc))
          state.dc.creatingKeys (state.holder id) next.dc.creatingKeys next.mine := by
        rw [holder, live]
        exact succeeds.steps
      rw [setSession, holder_update]
      apply (held.step_iff step).trans
      simp [BindsStill, occurs, live]
  | destroyConfirmedForgottenKey keyId =>
    have destroyed := Dcenter.destroyConfirmedForgottenKey_spec unkeyed keyId
    refine ⟨_, rfl, consistent, destroyed.2, iff_of_true ?_ trivial⟩
    rw [destroyed.1]
    exact held

theorem owned_iff (consistent : state.Consistent) :
    state.Owned ↔ FlagsHeld state.dc.creatingKeys state.holder ∧ state.dc.Unkeyed := by
  constructor
  · exact fun owned => ⟨owned.held, owned.unkeyed⟩
  · rintro ⟨held, unkeyed⟩
    refine ⟨held, unkeyed, fun event occurs => ?_⟩
    obtain ⟨next, nextEq, -⟩ := handle_spec consistent held unkeyed event occurs
    rw [nextEq]
    rfl

/-- The state where no session is started and no key is created. -/
def init (persistentKey : Option Key) : KeyCreation Id Key where
  dc := { persistentKey := persistentKey }

omit [DecidableEq Id] [AuthKey Key] [DecidableEq Key] in
theorem init_consistent (persistentKey : Option Key) :
    (init persistentKey : KeyCreation Id Key).Consistent := by
  intro id session live
  cases live

theorem init_owned (persistentKey : Option Key) :
    (init persistentKey : KeyCreation Id Key).Owned := by
  rw [owned_iff (init_consistent persistentKey)]
  constructor
  · exact .of_forall_none (fun _ => rfl) fun _ => rfl
  · intro index up
    cases up

/-- In every state of a run each raised flag is held by exactly one session, and no
assertion fails, exactly if every key that is released binds still. -/
theorem owned_run_iff (persistentKey : Option Key) (events : List (DcenterEvent Id Key)) :
    RunKeeps step Owned (init persistentKey) events ↔
      RunMeets step BindsStill (init persistentKey) events := by
  have spec : ∀ (state : KeyCreation Id Key) event, state.Consistent → state.Owned →
      state.Occurs event → ∃ next, state.step event = some next ∧ next.Consistent ∧
        (next.Owned ↔ state.BindsStill event) := by
    intro state event consistent owned occurs
    obtain ⟨next, nextEq, consistentToo, unkeyed, exact⟩ :=
      handle_spec consistent owned.held owned.unkeyed event occurs
    refine ⟨next, (if_pos occurs).trans nextEq, consistentToo, ?_⟩
    rw [owned_iff consistentToo, ← exact]
    exact and_iff_left unkeyed
  have kept : ∀ (state : KeyCreation Id Key) event last, state.Consistent → state.Owned →
      state.step event = some last → last.Consistent := by
    intro state event last consistent owned taken
    by_cases occurs : state.Occurs event
    · obtain ⟨next, nextEq, consistentToo, -⟩ := spec state event consistent owned occurs
      rw [nextEq] at taken
      cases taken
      exact consistentToo
    · rw [step, if_neg occurs] at taken
      cases taken
  have exact : ∀ (state : KeyCreation Id Key) event, state.Consistent → state.Owned →
      ((∀ next, state.step event = some next → next.Owned) ↔ state.BindsStill event) := by
    intro state event consistent owned
    by_cases occurs : state.Occurs event
    · obtain ⟨next, nextEq, -, exact⟩ := spec state event consistent owned occurs
      rw [← exact, nextEq]
      simp
    · have none : state.step event = none := if_neg occurs
      rw [none]
      apply iff_of_true
      · rintro next ⟨⟩
      · cases event with
        | session id event => exact fun occursToo => absurd occursToo occurs
        | startSession id dcType => trivial
        | destroySession id => trivial
        | destroyConfirmedForgottenKey keyId => trivial
  exact runKeeps_iff_runMeets kept exact events (init_consistent persistentKey)
    (init_owned persistentKey)

/-- The key with the id that a number is. -/
instance : AuthKey UInt64 where
  keyId key := key

/-- The persistent key is forgotten between the request to bind a key and the answer:
the key is rejected, its session has no creator anymore, and the flag stays raised. -/
theorem rejected_key_keeps_flag :
    ∃ last, run step (init (some 5) : KeyCreation Unit UInt64)
      [.startSession () .regular, .session () (.connectToServer .regular),
        .session () (.unboundReady (some (7, none))), .destroyConfirmedForgottenKey 5,
        .session () (.handleBindResponse .success false)] = some last ∧
      last.dc.creatingKeys 0 = true ∧ ¬ ∃! id, last.holder id = some 0 := by
  refine ⟨_, rfl, ?_, ?_⟩
  · rfl
  · rintro ⟨id, holds, -⟩
    cases holds

end KeyCreation

end TelegramDesktop
