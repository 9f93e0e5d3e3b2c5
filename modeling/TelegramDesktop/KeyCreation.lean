import TelegramDesktop.FlagHolders
import TelegramDesktop.Runs

/-!
# The right to create an auth key

The sessions with one data center share its `Dcenter`, where one of them at a time
acquires the right to create a temporary key, as in `details/mtproto_dcenter.cpp`,
`session.cpp` and `session_private.cpp`.  A failed assertion is no result.
-/

namespace TelegramDesktop

/-- The kinds of data centers. -/
inductive DcType
  | regular
  | temporary
  | mediaCluster
  | cdn
  deriving DecidableEq

/-- The kinds of temporary keys. -/
inductive TemporaryKeyType
  | regular
  | mediaCluster
  deriving DecidableEq

/-- The key that a session creates, if it does. -/
inductive CreatingKeyType
  | none
  | persistent
  | temporaryRegular
  | temporaryMediaCluster
  deriving DecidableEq

/-- `IndexByType` -/
def TemporaryKeyType.index : TemporaryKeyType → Fin 2
  | regular => 0
  | mediaCluster => 1

/-- `IndexByType` -/
def CreatingKeyType.index? : CreatingKeyType → Option (Fin 2)
  | none => .none
  | persistent | temporaryRegular => some 0
  | temporaryMediaCluster => some 1

/-- Media clusters have temporary keys of their own. -/
def temporaryKeyTypeByDcType (type : DcType) : TemporaryKeyType :=
  if type = .mediaCluster then .mediaCluster else .regular

/-- An auth key with its id.  Two pointers are equal if they are to the same key. -/
class AuthKey (Key : Type*) where
  keyId : Key → UInt64

/-- The keys of a data center, and which of them are being created. -/
structure Dcenter (Key : Type*) where
  temporaryKeys : Fin 2 → Option Key := fun _ => none
  persistentKey : Option Key
  connectionInited : Bool := false
  creatingKeys : Fin 2 → Bool := fun _ => false

namespace Dcenter

variable {Key : Type*} [AuthKey Key] (dc : Dcenter Key)

def getTemporaryKey (type : TemporaryKeyType) : Option Key := dc.temporaryKeys type.index

/-- The temporary key is dropped when it has this id. -/
def resetTemporaryKey (keyId : UInt64) (index : Fin 2) : Option (Dcenter Key) :=
  if (dc.temporaryKeys index).any (AuthKey.keyId · = keyId) then
    some { dc with
      temporaryKeys := Function.update dc.temporaryKeys index none
      connectionInited := false }
  else none

def destroyTemporaryKey (keyId : UInt64) : Dcenter Key × Bool :=
  match dc.resetTemporaryKey keyId 0 <|> dc.resetTemporaryKey keyId 1 with
  | some reset => (reset, true)
  | none => (dc, false)

def destroyConfirmedForgottenKey (keyId : UInt64) : Dcenter Key × Bool :=
  if dc.persistentKey.any (AuthKey.keyId · = keyId) then
    ({ dc with
      temporaryKeys := fun _ => none
      persistentKey := none
      connectionInited := false }, true)
  else (dc, false)

/-- The creation of a key is begun, unless it goes on. -/
def startCreating (index : Fin 2) (type : CreatingKeyType) : Dcenter Key × CreatingKeyType :=
  if dc.creatingKeys index then (dc, .none)
  else ({ dc with creatingKeys := Function.update dc.creatingKeys index true }, type)

/-- The key to create, if one is missing that nobody creates. -/
def acquireKeyCreation (type : DcType) : Dcenter Key × CreatingKeyType :=
  let keyType := temporaryKeyTypeByDcType type
  if (dc.temporaryKeys keyType.index).isSome then (dc, .none)
  else if keyType = .mediaCluster ∧ (dc.temporaryKeys TemporaryKeyType.regular.index).isSome then
    dc.startCreating keyType.index .temporaryMediaCluster
  else
    dc.startCreating TemporaryKeyType.regular.index
      (if type ≠ .cdn ∧ dc.persistentKey.isNone then .persistent else .temporaryRegular)

/-- The creation mark of a key type is cleared. -/
def stopCreating (index : Fin 2) : Dcenter Key :=
  { dc with creatingKeys := Function.update dc.creatingKeys index false }

/-- A key is being created and not there yet. -/
def IsCreating (index : Fin 2) : Prop :=
  dc.creatingKeys index = true ∧ dc.temporaryKeys index = none

instance (index : Fin 2) : Decidable (dc.IsCreating index) :=
  have : Decidable (dc.temporaryKeys index = none) :=
    decidable_of_iff _ Option.isNone_iff_eq_none
  inferInstanceAs (Decidable (_ ∧ _))

def setTemporaryKey (index : Fin 2) (temporaryKey : Option Key) : Dcenter Key :=
  { dc with
    temporaryKeys := Function.update dc.temporaryKeys index temporaryKey
    connectionInited := false }

/-- A temporary key that is not bound to the persistent one of now is rejected. -/
def releaseKeyCreationOnDone [DecidableEq Key] (type : CreatingKeyType)
    (temporaryKey persistentKeyUsedForBind : Option Key) : Option (Dcenter Key × Bool) :=
  match type.index? with
  | none => none
  | some index =>
    if dc.IsCreating index ∧ temporaryKey.isSome then
      if type = .persistent then
        some ((({ dc with persistentKey := persistentKeyUsedForBind }).setTemporaryKey
          index temporaryKey).stopCreating index, true)
      else if dc.persistentKey ≠ persistentKeyUsedForBind then some (dc, false)
      else some ((dc.setTemporaryKey index temporaryKey).stopCreating index, true)
    else none

/-- The marks of a failed creation are cleared. -/
def releaseKeyCreationOnFail (type : CreatingKeyType) : Option (Dcenter Key) :=
  match type.index? with
  | none => none
  | some index => if dc.IsCreating index then some (dc.stopCreating index) else none

end Dcenter

/-- The binder is the persistent key that the temporary one is bound to. -/
structure BoundKeyCreator (Key : Type*) where
  persistentNeeded : Bool
  binder : Option Key := none

/-- How the binding of a temporary key ended. -/
inductive DcKeyBindState
  | success
  | failed
  | definitelyDestroyed
  deriving DecidableEq

/-- The parts of `Session`, `SessionData` and `SessionPrivate` that creating a key
takes.  A session that is killed is not the owner of its data anymore, and its
connection runs until it is deleted in its own thread. -/
structure Session (Key : Type*) where
  myKeyCreation : CreatingKeyType := .none
  isOwner : Bool := true
  isRunning : Bool := true
  realDcType : DcType
  currentDcType : DcType
  keyCreator : Option (BoundKeyCreator Key) := none
  encryptionKey : Option Key := none

/-- A session with the data center that it shares. -/
structure DcSession (Key : Type*) extends Session Key where
  dc : Dcenter Key

/-- The session over a dc. -/
def Session.withDc {Key : Type*} (session : Session Key) (dc : Dcenter Key) : DcSession Key :=
  { session with dc := dc }

namespace DcSession

variable {Key : Type*} [AuthKey Key] [DecidableEq Key] (session : DcSession Key)

/-! What the session does. -/

def acquireKeyCreation (type : DcType) : Option (DcSession Key × CreatingKeyType) :=
  if session.myKeyCreation = .none then
    let (dc, acquired) := session.dc.acquireKeyCreation type
    some ({ session with dc := dc, myKeyCreation := acquired }, acquired)
  else none

/-- The created keys are stored, if they are still wanted. -/
def releaseGenericKeyCreationOnDone (temporaryKey persistentKeyUsedForBind : Option Key) :
    Option (DcSession Key × Bool) :=
  (session.dc.releaseKeyCreationOnDone session.myKeyCreation temporaryKey
      persistentKeyUsedForBind).map
    fun (dc, result) => ({ session with dc := dc, myKeyCreation := .none }, result)

def releaseKeyCreationOnDone (temporaryKey persistentKeyUsedForBind : Option Key) :
    Option (DcSession Key × Bool) :=
  if session.myKeyCreation ≠ .none ∧ persistentKeyUsedForBind.isSome then
    session.releaseGenericKeyCreationOnDone temporaryKey persistentKeyUsedForBind
  else none

def releaseCdnKeyCreationOnDone (temporaryKey : Option Key) : Option (DcSession Key × Bool) :=
  if session.myKeyCreation = .temporaryRegular then
    session.releaseGenericKeyCreationOnDone temporaryKey none
  else none

def releaseKeyCreationOnFail : Option (DcSession Key) :=
  if session.myKeyCreation ≠ .none then
    (session.dc.releaseKeyCreationOnFail session.myKeyCreation).map
      fun dc => { session with dc := dc, myKeyCreation := .none }
  else none

def destroyTemporaryKey (keyId : UInt64) : DcSession Key :=
  { session with dc := (session.dc.destroyTemporaryKey keyId).1 }

/-! What the connection asks of the session: nothing happens if the session is not the
owner of its data anymore. -/

def dataAcquireKeyCreation (type : DcType) : Option (DcSession Key × CreatingKeyType) :=
  if session.isOwner then session.acquireKeyCreation type else some (session, .none)

def dataReleaseKeyCreationOnDone (temporaryKey persistentKeyUsedForBind : Option Key) :
    Option (DcSession Key × Bool) :=
  if session.isOwner then
    session.releaseKeyCreationOnDone temporaryKey persistentKeyUsedForBind
  else some (session, false)

def dataReleaseCdnKeyCreationOnDone (temporaryKey : Option Key) :
    Option (DcSession Key × Bool) :=
  if session.isOwner then session.releaseCdnKeyCreationOnDone temporaryKey
  else some (session, false)

def dataReleaseKeyCreationOnFail : Option (DcSession Key) :=
  if session.isOwner then session.releaseKeyCreationOnFail else some session

def dataDestroyTemporaryKey (keyId : UInt64) : DcSession Key :=
  if session.isOwner then session.destroyTemporaryKey keyId else session

def dataTemporaryKey (type : TemporaryKeyType) : Option Key :=
  if session.isOwner then session.dc.getTemporaryKey type else none

def dataPersistentKey : Option Key :=
  if session.isOwner then session.dc.persistentKey else none

/-! What the connection does.  Applying a key may restart the connection, which makes
it connect later, and may make it acquire: both are steps of their own. -/

def connectionReleaseKeyCreationOnFail : Option (DcSession Key) :=
  match session.keyCreator with
  | none => some session
  | some _ => { session with keyCreator := none }.dataReleaseKeyCreationOnFail

/-- The key that packets are encrypted with. -/
def applyAuthKey (encryptionKey : Option Key) : DcSession Key :=
  { session with encryptionKey := encryptionKey }

/-- `checkAuthKey` and `updateAuthKey` -/
def checkAuthKey : DcSession Key :=
  session.applyAuthKey
    (session.dataTemporaryKey (temporaryKeyTypeByDcType session.currentDcType))

def destroyEncryptionKey : DcSession Key :=
  match session.encryptionKey with
  | none => session.applyAuthKey none
  | some key => (session.dataDestroyTemporaryKey (AuthKey.keyId key)).applyAuthKey none

def connectionDestroyTemporaryKey : Option (DcSession Key) :=
  session.connectionReleaseKeyCreationOnFail.map destroyEncryptionKey

/-- A connection without a key asks for the creation. -/
def tryAcquireKeyCreation : Option (DcSession Key × DcType) :=
  match session.keyCreator with
  | some _ => some (session, session.currentDcType)
  | none =>
    (session.dataAcquireKeyCreation session.realDcType).map fun (next, acquired) =>
      if acquired = .none then (next, session.realDcType)
      else
        ({ next with keyCreator := some { persistentNeeded := acquired = .persistent } },
          if session.realDcType = .mediaCluster ∧ acquired ≠ .temporaryMediaCluster then
            .regular
          else session.realDcType)

/-- The type of the data center is read when the connection connects. -/
def connectToServer (dcType : DcType) : Option (DcSession Key) :=
  let changed : DcSession Key := { session with realDcType := dcType }
  if session.realDcType ≠ dcType ∧ session.keyCreator.isSome then
    changed.connectionDestroyTemporaryKey
  else
    changed.tryAcquireKeyCreation.map fun (next, currentDcType) =>
      { next with currentDcType := currentDcType }

def bind (persistentKey : Key) : DcSession Key :=
  { session with
    keyCreator := session.keyCreator.map
      fun creator => { creator with binder := some persistentKey } }

/-- The keys that are created are a temporary one and, if it is needed, a persistent
one; nothing stands for an error. -/
def unboundReady : Option (Key × Option Key) → Option (DcSession Key)
  | none => session.connectionReleaseKeyCreationOnFail
  | some (temporaryKey, persistentKey) =>
    if session.realDcType = .cdn then
      let applied := session.applyAuthKey (some temporaryKey)
      ({ applied with keyCreator := none }.dataReleaseCdnKeyCreationOnDone
        applied.encryptionKey).map Prod.fst
    else
      match persistentKey <|> session.dataPersistentKey with
      | none => session.connectionReleaseKeyCreationOnFail
      | some key =>
        some ((session.bind key).applyAuthKey (some temporaryKey))

/-- A persistent key that is destroyed on the server is forgotten if it is old enough. -/
def handleBindResponse (result : DcKeyBindState) (oldEnough : Bool) : Option (DcSession Key) :=
  match session.keyCreator with
  | none => some session
  | some creator =>
    match result with
    | .success =>
      ({ session with keyCreator := none }.dataReleaseKeyCreationOnDone
        session.encryptionKey creator.binder).bind fun (next, released) =>
          if released then some next else next.connectionDestroyTemporaryKey
    | .definitelyDestroyed =>
      if oldEnough then session.connectionDestroyTemporaryKey else some session
    | .failed => some session

/-- The connection gives up what it creates. -/
def destroyConnection : Option (DcSession Key) :=
  session.connectionReleaseKeyCreationOnFail.map fun released =>
    { released with isRunning := false, encryptionKey := none }

def start (dcType : DcType) : DcSession Key :=
  { session with
    isRunning := true
    realDcType := dcType
    currentDcType := dcType
    keyCreator := none
    encryptionKey := none }

def kill : DcSession Key := { session with isOwner := false }

/-- The session gives back what it holds of the dc. -/
def destroySession : Option (Dcenter Key) :=
  if session.myKeyCreation = .none then some session.dc
  else session.releaseKeyCreationOnFail.map DcSession.dc

end DcSession

/-- What happens to a session. -/
inductive SessionEvent (Key : Type*)
  | start (dcType : DcType)
  | connectToServer (dcType : DcType)
  | tryAcquireKeyCreation
  | checkAuthKey
  | unboundReady (result : Option (Key × Option Key))
  | handleBindResponse (result : DcKeyBindState) (oldEnough : Bool)
  | destroyTemporaryKey
  | destroyConnection
  | kill

namespace SessionEvent

variable {Key : Type*}

/-- A creator is asked for keys only as long as it exists, and an answer to a bind
request comes to one that has a key to bind, under the key that is applied. -/
def Occurs (session : Session Key) : SessionEvent Key → Prop
  | start _ => session.isRunning = false ∧ session.isOwner
  | unboundReady _ => session.isRunning ∧ session.keyCreator.isSome
  | handleBindResponse _ _ =>
    session.isRunning ∧ session.encryptionKey.isSome ∧
      ∀ creator ∈ session.keyCreator, creator.binder.isSome
  | kill => True
  | connectToServer _ | tryAcquireKeyCreation | checkAuthKey | destroyTemporaryKey
  | destroyConnection => session.isRunning

instance (session : Session Key) : ∀ event, Decidable (Occurs session event)
  | start _ => inferInstanceAs (Decidable (_ ∧ _))
  | unboundReady _ => inferInstanceAs (Decidable (_ ∧ _))
  | handleBindResponse _ _ => inferInstanceAs (Decidable (_ ∧ _ ∧ _))
  | kill => isTrue trivial
  | connectToServer _ | tryAcquireKeyCreation | checkAuthKey | destroyTemporaryKey
  | destroyConnection => inferInstanceAs (Decidable (_ = true))

variable [AuthKey Key] [DecidableEq Key]

def handle (session : DcSession Key) : SessionEvent Key → Option (DcSession Key)
  | start dcType => some (session.start dcType)
  | connectToServer dcType => session.connectToServer dcType
  | tryAcquireKeyCreation => session.tryAcquireKeyCreation.map Prod.fst
  | checkAuthKey => some session.checkAuthKey
  | unboundReady result => session.unboundReady result
  | handleBindResponse result oldEnough => session.handleBindResponse result oldEnough
  | destroyTemporaryKey => session.connectionDestroyTemporaryKey
  | destroyConnection => session.destroyConnection
  | kill => some session.kill

end SessionEvent

/-- What happens to the sessions and the data center. -/
inductive DcenterEvent (Id Key : Type*)
  | startSession (id : Id) (dcType : DcType)
  | destroySession (id : Id)
  | session (id : Id) (event : SessionEvent Key)
  | destroyConfirmedForgottenKey (keyId : UInt64)

/-- A data center and all its sessions. -/
structure KeyCreation (Id Key : Type*) where
  dc : Dcenter Key
  sessions : Id → Option (Session Key) := fun _ => none

namespace KeyCreation

variable {Id Key : Type*} [DecidableEq Id] [AuthKey Key] [DecidableEq Key]
  (state : KeyCreation Id Key)

def Occurs : DcenterEvent Id Key → Prop
  | .startSession id _ => (state.sessions id).isNone
  | .destroySession id => (state.sessions id).isSome
  | .session id event => (state.sessions id).isSome ∧
      ∀ session ∈ state.sessions id, event.Occurs session
  | .destroyConfirmedForgottenKey _ => True

instance : ∀ event, Decidable (state.Occurs event)
  | .startSession _ _ => inferInstanceAs (Decidable (_ = true))
  | .destroySession _ => inferInstanceAs (Decidable (_ = true))
  | .session _ _ => inferInstanceAs (Decidable (_ ∧ _))
  | .destroyConfirmedForgottenKey _ => isTrue trivial

/-- The session is written back, and its dc with it. -/
def setSession (id : Id) (session : DcSession Key) : KeyCreation Id Key where
  dc := session.dc
  sessions := Function.update state.sessions id (some session.toSession)

def handle : DcenterEvent Id Key → Option (KeyCreation Id Key)
  | .startSession id dcType =>
    some { state with
      sessions := Function.update state.sessions id
        (some { realDcType := dcType, currentDcType := dcType }) }
  | .destroySession id =>
    (state.sessions id).bind fun session =>
      (session.withDc state.dc).destroySession.map fun dc =>
        { dc := dc, sessions := Function.update state.sessions id none }
  | .session id event =>
    (state.sessions id).bind fun session =>
      (event.handle (session.withDc state.dc)).map (state.setSession id)
  | .destroyConfirmedForgottenKey keyId =>
    some { state with dc := (state.dc.destroyConfirmedForgottenKey keyId).1 }

def step (event : DcenterEvent Id Key) : Option (KeyCreation Id Key) :=
  if state.Occurs event then state.handle event else none

end KeyCreation

end TelegramDesktop
