import TelegramDesktop.GuestAuthorization

/-!
# Requests that wait for an import

Waiting requests are sent again at the end of a chain of two requests, and only the
first of them starts a chain.
-/

namespace TelegramDesktop

open GuestAuthorization FlatMap Option List

/-- The error makes a request be sent to its data center again. -/
def RpcError.repeats (error : RpcError) : Bool :=
  match error.type with
  | .migrate _ | .msgWait => false
  | .slowmodeWait seconds => error.code < 0 || 500 ≤ error.code || seconds < 3
  | .floodWait => true
  | .connectionNotInited | .connectionLayerInvalid => error.code ≠ 401
  | _ => error.code < 0 || 500 ≤ error.code

/-- The error makes a request be sent to another data center. -/
def RpcError.migrates (error : RpcError) : Bool :=
  match error.type with
  | .migrate dcId => dcId ≠ 0
  | _ => false

namespace GuestAuthorization

/-- The request exports or imports the authorization for the data center. -/
def Authorizes (auth : GuestAuthorization) (dcId : DcId) (requestId : Nat) : Prop :=
  auth.parserMap.find? requestId = some .authExport ∧
      (∃ shiftedDcId, auth.authExportRequests.find? requestId = some shiftedDcId ∧
        bareDcId shiftedDcId = dcId) ∨
    auth.parserMap.find? requestId = some .authImport ∧
      ∃ shiftedDcId, auth.requestsByDc.find? requestId = some shiftedDcId ∧
        bareDcId shiftedDcId = dcId

/-- Where requests wait, an export or an import is not answered yet, and all that
are registered when they leave the waiters are sent again. -/
structure Attended (auth : GuestAuthorization) : Prop where
  underWay : ∀ dcId, auth.waiters dcId ≠ [] →
    ∃ requestId ∈ auth.unanswered, auth.Authorizes dcId requestId
  noneForgotten : ∀ entry ∈ auth.left, entry.2 ≠ .forgotten

/-- The request is sent to a data center. -/
def Placed (auth : GuestAuthorization) (requestId : Nat) : Prop :=
  (auth.requestsByDc.find? requestId).getD 0 ≠ 0

/-- An export is answered by a result that can be read or sent again, also to
another main data center. -/
def ExportGoesOn (auth : GuestAuthorization) (requestId : Nat) : Answer → Prop
  | .result readable => readable = true
  | .error error =>
    auth.Placed requestId ∧ (error.repeats = true ∨ error.migrates = true)

/-- An import is answered by a result that can be read or sent again. -/
def ImportGoesOn (auth : GuestAuthorization) (requestId : Nat) : Answer → Prop
  | .result readable => readable = true
  | .error error => auth.Placed requestId ∧ error.repeats = true

/-- An answer leads to the next request of the transfer. -/
def GoesOn (auth : GuestAuthorization) : Event → Prop
  | .answer requestId answer =>
    (auth.parserMap.find? requestId = some .authExport →
      auth.ExportGoesOn requestId answer) ∧
    (auth.parserMap.find? requestId = some .authImport →
      auth.ImportGoesOn requestId answer)
  | _ => True

instance (auth : GuestAuthorization) (requestId : Nat) : Decidable (auth.Placed requestId) :=
  inferInstanceAs (Decidable (_ ≠ _))

instance (auth : GuestAuthorization) (requestId : Nat) :
    ∀ answer, Decidable (auth.ExportGoesOn requestId answer)
  | .result _ => inferInstanceAs (Decidable (_ = _))
  | .error _ => inferInstanceAs (Decidable (_ ∧ _))

instance (auth : GuestAuthorization) (requestId : Nat) :
    ∀ answer, Decidable (auth.ImportGoesOn requestId answer)
  | .result _ => inferInstanceAs (Decidable (_ = _))
  | .error _ => inferInstanceAs (Decidable (_ ∧ _))

instance (auth : GuestAuthorization) : ∀ event, Decidable (auth.GoesOn event)
  | .answer _ _ => inferInstanceAs (Decidable (_ ∧ _))
  | .send _ _ _ | .cancel _ | .setMainDcId _ => isTrue trivial

/-- The requests of a chain are registered and not answered, those that wait are
not requests of a chain, and new ids are larger than those in use.  The data
centers with waiting requests that are attended to have a chain. -/
structure Chained (auth : GuestAuthorization) (attended : DcId → Prop) : Prop where
  parsed_le : ∀ requestId, auth.parserMap.contains requestId = true →
    requestId ≤ auth.lastRequestId
  exported_le : ∀ requestId, auth.authExportRequests.contains requestId = true →
    requestId ≤ auth.lastRequestId
  waiting_le : ∀ dcId, ∀ requestId ∈ auth.waiters dcId, requestId ≤ auth.lastRequestId
  placed : ∀ requestId, auth.requestMap.contains requestId = true →
    auth.requestsByDc.contains requestId = true
  underWay : ∀ requestId, auth.owned requestId = false →
    requestId ∈ auth.unanswered ∧ auth.requestMap.contains requestId = true
  exports : ∀ requestId, auth.parserMap.find? requestId = some .authExport →
    ∃ shiftedDcId, auth.authExportRequests.find? requestId = some shiftedDcId ∧
      bareDcId shiftedDcId ≠ 0
  authorized : ∀ dcId, attended dcId → auth.waiters dcId ≠ [] →
    ∃ requestId, auth.Authorizes dcId requestId
  waiting_owned : ∀ dcId, ∀ requestId ∈ auth.waiters dcId, auth.owned requestId = true
  noneForgotten : ∀ entry ∈ auth.left, entry.2 ≠ .forgotten

variable {auth : GuestAuthorization}

theorem owned_eq_false {requestId : Nat} :
    auth.owned requestId = false ↔
      auth.parserMap.find? requestId = some .authExport ∨
        auth.parserMap.find? requestId = some .authImport := by
  unfold owned
  cases auth.parserMap.find? requestId with
  | none => simp
  | some handler => cases handler <;> simp

theorem Authorizes.not_owned {dcId : DcId} {requestId : Nat}
    (authorizes : auth.Authorizes dcId requestId) : auth.owned requestId = false :=
  owned_eq_false.mpr (authorizes.imp And.left And.left)

theorem Chained.attends (chained : auth.Chained fun _ => True) :
    auth.Attended where
  underWay dcId waits := by
    obtain ⟨requestId, authorizes⟩ := chained.authorized dcId trivial waits
    exact ⟨requestId, (chained.underWay requestId authorizes.not_owned).1, authorizes⟩
  noneForgotten := chained.noneForgotten

theorem chained_initial (attended : DcId → Prop) : Chained {} attended where
  parsed_le _ known := by cases known
  exported_le _ known := by cases known
  waiting_le _ _ member := by cases member
  placed _ known := by cases known
  underWay _ foreign := by cases foreign
  exports _ found := by cases found
  authorized _ _ waits := (waits rfl).elim
  waiting_owned _ _ member := by cases member
  noneForgotten _ member := by cases member

/-- States that differ in what does not concern the chains. -/
structure SameChains (before after : GuestAuthorization) : Prop where
  lastRequestId : after.lastRequestId = before.lastRequestId := by rfl
  parsed_le : ∀ requestId, after.parserMap.contains requestId = true →
    requestId ≤ before.lastRequestId
  exporting : ∀ requestId, after.parserMap.find? requestId = some .authExport ↔
    before.parserMap.find? requestId = some .authExport := by exact fun _ => Iff.rfl
  importing : ∀ requestId, after.parserMap.find? requestId = some .authImport ↔
    before.parserMap.find? requestId = some .authImport := by exact fun _ => Iff.rfl
  exports : after.authExportRequests = before.authExportRequests := by rfl
  waiters : ∀ dcId, after.waiters dcId = before.waiters dcId := by exact fun _ => rfl
  left : ∀ entry ∈ after.left, entry ∈ before.left ∨ entry.2 ≠ .forgotten := by
    exact fun _ => .inl
  placed : ∀ requestId, after.requestMap.contains requestId = true →
    after.requestsByDc.contains requestId = true
  underWay : ∀ requestId, before.owned requestId = false →
    requestId ∈ before.unanswered → before.requestMap.contains requestId = true →
    requestId ∈ after.unanswered ∧ after.requestMap.contains requestId = true := by
    exact fun _ _ sent registered => ⟨sent, registered⟩
  places : ∀ requestId, before.parserMap.find? requestId = some .authImport →
    after.requestsByDc.find? requestId = before.requestsByDc.find? requestId := by
    exact fun _ _ => rfl

theorem SameChains.owned {before after : GuestAuthorization} (same : SameChains before after)
    (requestId : Nat) : after.owned requestId = false ↔ before.owned requestId = false := by
  rw [owned_eq_false, owned_eq_false, same.exporting, same.importing]

theorem Chained.congr {before after : GuestAuthorization} {attended : DcId → Prop}
    (chained : before.Chained attended) (same : SameChains before after) :
    after.Chained attended := by
  constructor
  · rw [same.lastRequestId]
    exact same.parsed_le
  · rw [same.exports, same.lastRequestId]
    exact chained.exported_le
  · intro dcId
    rw [same.waiters, same.lastRequestId]
    exact chained.waiting_le dcId
  · exact same.placed
  · intro requestId foreign
    rw [same.owned] at foreign
    obtain ⟨sent, registered⟩ := chained.underWay requestId foreign
    exact same.underWay requestId foreign sent registered
  · intro requestId
    rw [same.exporting, same.exports]
    exact chained.exports requestId
  · intro dcId
    rw [same.waiters]
    intro isAttended waits
    obtain ⟨requestId, authorizes⟩ := chained.authorized dcId isAttended waits
    refine ⟨requestId, ?_⟩
    unfold Authorizes
    rw [same.exporting, same.importing, same.exports]
    rcases authorizes with exporting | ⟨importing, place⟩
    · exact .inl exporting
    · rw [same.places requestId importing]
      exact .inr ⟨importing, place⟩
  · intro dcId requestId
    rw [same.waiters]
    intro member
    rw [← Bool.not_eq_false, same.owned, Bool.not_eq_false]
    exact chained.waiting_owned dcId requestId member
  · intro entry member
    rcases same.left entry member with old | isNew
    · exact chained.noneForgotten entry old
    · exact isNew

section Owned

variable {auth : GuestAuthorization} {attended : DcId → Prop} {requestId : Nat}

theorem ne_of_owned (owned : auth.owned requestId = true) {other : Nat}
    (foreign : auth.owned other = false) : other ≠ requestId := by
  rintro rfl
  rw [owned] at foreign
  cases foreign

section

variable (chained : auth.Chained attended)
include chained

theorem Chained.unhandled (owned : auth.owned requestId = true) :
    Chained { auth with parserMap := auth.parserMap.erase requestId } attended := by
  have handlers : ∀ other handler, handler = .authExport ∨ handler = .authImport →
      ((auth.parserMap.erase requestId).find? other = some handler ↔
        auth.parserMap.find? other = some handler) := by
    intro other handler isForeign
    rw [find?_erase]
    split
    next same =>
      subst same
      constructor
      · intro absent
        cases absent
      · intro found
        have foreign : auth.owned other = false := by
          rw [owned_eq_false, found]
          rcases isForeign with rfl | rfl
          · exact .inl rfl
          · exact .inr rfl
        exact (ne_of_owned owned foreign rfl).elim
    · rfl
  exact chained.congr
    { parsed_le := fun other known => chained.parsed_le other (contains_erase.mp known).2
      exporting := fun other => handlers other _ (.inl rfl)
      importing := fun other => handlers other _ (.inr rfl)
      placed := chained.placed }

theorem Chained.answered (owned : auth.owned requestId = true) :
    Chained { auth with unanswered := auth.unanswered.erase requestId } attended :=
  chained.congr
    { parsed_le := chained.parsed_le
      placed := chained.placed
      underWay := fun other foreign sent registered =>
        ⟨(mem_erase_of_ne (ne_of_owned owned foreign)).mpr sent, registered⟩ }

theorem Chained.unregistered (owned : auth.owned requestId = true) :
    (auth.unregisterRequest requestId).Chained attended := by
  apply chained.congr
  refine { parsed_le := chained.parsed_le, placed := ?_, underWay := ?_, places := ?_ }
  · intro other known
    obtain ⟨distinct, registered⟩ := contains_erase.mp known
    exact contains_erase.mpr ⟨distinct, chained.placed other registered⟩
  · intro other foreign sent registered
    exact ⟨sent, contains_erase.mpr ⟨ne_of_owned owned foreign, registered⟩⟩
  · intro other importing
    have distinct := ne_of_owned owned (owned_eq_false.mpr (.inr importing))
    exact find?_erase.trans (if_neg distinct)

theorem Chained.sent (requestId : Nat) : (auth.sendPrepared requestId).Chained attended :=
  chained.congr
    { parsed_le := chained.parsed_le
      placed := chained.placed
      underWay := fun _ _ sent registered => ⟨mem_cons_of_mem _ sent, registered⟩ }

theorem Chained.moved (owned : auth.owned requestId = true) (shiftedDcId : Int32) :
    Chained { auth with requestsByDc := auth.requestsByDc.set requestId shiftedDcId }
      attended := by
  apply chained.congr
  refine { parsed_le := chained.parsed_le, placed := ?_, places := ?_ }
  · intro other known
    exact contains_set.mpr (.inr (chained.placed other known))
  · intro other importing
    have distinct := ne_of_owned owned (owned_eq_false.mpr (.inr importing))
    exact find?_set.trans (if_neg distinct)

theorem Chained.main (mainDcId : Option DcId) :
    Chained { auth with mainDcId := mainDcId } attended := { chained with }

theorem Chained.badGuest (requests : FlatSet Nat) :
    Chained { auth with badGuestDcRequests := requests } attended := { chained with }

theorem Chained.restored (known : requestId ≤ auth.lastRequestId)
    (absent : auth.parserMap.find? requestId = none) (takesDefault : Bool) :
    Chained { auth with parserMap := auth.parserMap.emplace requestId (.owner takesDefault) }
      attended := by
  have missing : auth.parserMap.contains requestId = false := by
    rw [FlatMap.contains, absent]
    rfl
  have handlers : ∀ other handler, handler = .authExport ∨ handler = .authImport →
      ((auth.parserMap.emplace requestId (.owner takesDefault)).find? other = some handler ↔
        auth.parserMap.find? other = some handler) := by
    intro other handler isForeign
    by_cases same : other = requestId
    · rw [same, find?_emplace_self (contains_eq_false.mp missing), absent]
      rcases isForeign with rfl | rfl <;> simp
    · rw [find?_emplace_of_ne (contains_eq_false.mp missing) same]
  apply chained.congr
  refine
    { parsed_le := fun other isKnown => ?_
      exporting := fun other => handlers other _ (.inl rfl)
      importing := fun other => handlers other _ (.inr rfl)
      placed := chained.placed }
  rcases contains_emplace.mp isKnown with rfl | old
  · exact known
  · exact chained.parsed_le other old

end

end Owned

section Sending

variable {auth : GuestAuthorization} {attended : DcId → Prop}

section

variable (chained : auth.Chained attended)
include chained

theorem Chained.fresh {requestId : Nat} (larger : auth.lastRequestId < requestId) :
    auth.parserMap.contains requestId = false := by
  rw [← Bool.not_eq_true]
  intro known
  exact absurd (chained.parsed_le requestId known) (not_le.mpr larger)

theorem find?_sendRequest (after : Bool) (handler : ResponseHandler)
    (mainDcId shiftedDcId : Int32) (requestId : Nat) :
    (auth.sendRequest after handler mainDcId shiftedDcId).parserMap.find? requestId =
      if requestId = auth.lastRequestId + 1 then some handler
      else auth.parserMap.find? requestId := by
  have missing := contains_eq_false.mp (chained.fresh (Nat.lt_succ_self _))
  by_cases same : requestId = auth.lastRequestId + 1
  · rw [if_pos same, same]
    exact find?_emplace_self missing
  · rw [if_neg same]
    exact find?_emplace_of_ne missing same

theorem Chained.foreign_le {requestId : Nat} (foreign : auth.owned requestId = false) :
    requestId ≤ auth.lastRequestId := by
  apply chained.parsed_le
  rw [FlatMap.contains, Option.isSome_iff_exists]
  rcases owned_eq_false.mp foreign with exporting | importing
  · exact ⟨_, exporting⟩
  · exact ⟨_, importing⟩

end

end Sending

section Chains

variable {auth : GuestAuthorization} {attended : DcId → Prop} {requestId : Nat}

theorem waiters_setWaiters (auth : GuestAuthorization) (dcId other : DcId) (ids : List Nat) :
    (auth.setWaiters dcId ids).waiters other =
      if other = dcId then ids else auth.waiters other := by
  unfold setWaiters waiters
  rw [find?_set]
  split <;> rfl

theorem Chained.joined (chained : auth.Chained attended) (owned : auth.owned requestId = true)
    (known : requestId ≤ auth.lastRequestId) {dcId : DcId}
    (authorizes : ∃ requestId, auth.Authorizes dcId requestId) :
    (auth.setWaiters dcId (auth.waiters dcId ++ [requestId])).Chained attended := by
  have members : ∀ other, ∀ waiting ∈
      (auth.setWaiters dcId (auth.waiters dcId ++ [requestId])).waiters other,
      waiting = requestId ∨ waiting ∈ auth.waiters other := by
    intro other waiting member
    rw [waiters_setWaiters] at member
    split at member
    next same =>
      rw [same]
      rcases mem_append.mp member with old | isNew
      · exact .inr old
      · exact .inl (mem_singleton.mp isNew)
    · exact .inr member
  refine { chained with waiting_le := ?_, authorized := ?_, waiting_owned := ?_ }
  · intro other waiting member
    rcases members other waiting member with rfl | old
    · exact known
    · exact chained.waiting_le other waiting old
  · intro other isAttended nonempty
    rw [waiters_setWaiters] at nonempty
    split at nonempty
    next same =>
      rw [same]
      exact authorizes
    · exact chained.authorized other isAttended nonempty
  · intro other waiting member
    rcases members other waiting member with rfl | old
    · exact owned
    · exact chained.waiting_owned other waiting old

theorem Chained.cleared {dcId : DcId} (chained : auth.Chained fun other => other ≠ dcId) :
    (auth.setWaiters dcId []).Chained fun _ => True := by
  have members : ∀ other, ∀ waiting ∈ (auth.setWaiters dcId []).waiters other,
      waiting ∈ auth.waiters other := by
    intro other waiting member
    rw [waiters_setWaiters] at member
    split at member
    · cases member
    · exact member
  refine
    { chained with
      waiting_le := fun other waiting member =>
        chained.waiting_le other waiting (members other waiting member)
      authorized := ?_
      waiting_owned := fun other waiting member =>
        chained.waiting_owned other waiting (members other waiting member) }
  intro other _ nonempty
  rw [waiters_setWaiters] at nonempty
  split at nonempty
  · exact (nonempty rfl).elim
  next distinct =>
    exact chained.authorized other distinct nonempty

theorem Chained.sendRequest (chained : auth.Chained attended) (after : Bool)
    (handler : ResponseHandler) (mainDcId shiftedDcId : Int32)
    (exportRequests : FlatMap Nat Int32) (now : DcId → Prop)
    (exported_le : ∀ requestId, exportRequests.contains requestId = true →
      requestId ≤ auth.lastRequestId + 1)
    (exportsKept : ∀ requestId, auth.parserMap.find? requestId = some .authExport →
      exportRequests.find? requestId = auth.authExportRequests.find? requestId)
    (exportsNew : handler = .authExport → ∃ shiftedDcId,
      exportRequests.find? (auth.lastRequestId + 1) = some shiftedDcId ∧
        bareDcId shiftedDcId ≠ 0)
    (attends : ∀ dcId, now dcId → attended dcId ∨ Authorizes
      { auth.sendRequest after handler mainDcId shiftedDcId with
        authExportRequests := exportRequests } dcId (auth.lastRequestId + 1)) :
    Chained { auth.sendRequest after handler mainDcId shiftedDcId with
      authExportRequests := exportRequests } now := by
  have handlers := find?_sendRequest chained after handler mainDcId shiftedDcId
  have older : ∀ other, other ≤ auth.lastRequestId →
      (auth.sendRequest after handler mainDcId shiftedDcId).parserMap.find? other =
        auth.parserMap.find? other := by
    intro other known
    rw [handlers, if_neg (by omega)]
  have olderOwned : ∀ other, other ≤ auth.lastRequestId →
      (auth.sendRequest after handler mainDcId shiftedDcId).owned other = auth.owned other := by
    intro other known
    unfold owned
    rw [older other known]
  have split : ∀ other, (auth.sendRequest after handler mainDcId shiftedDcId).owned other = false →
      other = auth.lastRequestId + 1 ∨ auth.owned other = false := by
    intro other foreign
    by_cases same : other = auth.lastRequestId + 1
    · exact .inl same
    · rw [owned_eq_false, handlers, if_neg same, ← owned_eq_false] at foreign
      exact .inr foreign
  constructor
  · intro other known
    rcases contains_emplace.mp known with rfl | known
    · exact le_refl _
    · exact Nat.le_succ_of_le (chained.parsed_le other known)
  · exact exported_le
  · intro waitsFor other member
    exact Nat.le_succ_of_le (chained.waiting_le waitsFor other member)
  · intro other known
    rcases contains_emplace.mp known with rfl | known
    · exact contains_set.mpr (.inl rfl)
    · exact contains_set.mpr (.inr (chained.placed other known))
  · intro other foreign
    rcases split other foreign with rfl | old
    · exact ⟨mem_cons_self, contains_emplace.mpr (.inl rfl)⟩
    · obtain ⟨sent, registered⟩ := chained.underWay other old
      exact ⟨mem_cons_of_mem _ sent, contains_emplace.mpr (.inr registered)⟩
  · intro other exporting
    by_cases same : other = auth.lastRequestId + 1
    · subst same
      rw [handlers, if_pos rfl] at exporting
      exact exportsNew (some.inj exporting)
    · rw [handlers, if_neg same] at exporting
      obtain ⟨shifted, found, bare⟩ := chained.exports other exporting
      exact ⟨shifted, (exportsKept other exporting).trans found, bare⟩
  · intro waitsFor isAttended waits
    rcases attends waitsFor isAttended with before | authorizes
    · obtain ⟨other, old⟩ := chained.authorized waitsFor before waits
      have known := chained.foreign_le old.not_owned
      have distinct : other ≠ auth.lastRequestId + 1 := by omega
      refine ⟨other, ?_⟩
      rcases old with ⟨exporting, shifted, found, bare⟩ | ⟨importing, shifted, found, bare⟩
      · exact .inl ⟨(older other known).trans exporting, shifted,
          (exportsKept other exporting).trans found, bare⟩
      · exact .inr ⟨(older other known).trans importing, shifted,
          (find?_set.trans (if_neg distinct)).trans found, bare⟩
    · exact ⟨auth.lastRequestId + 1, authorizes⟩
  · intro waitsFor other member
    exact (olderOwned other (chained.waiting_le waitsFor other member)).trans
      (chained.waiting_owned waitsFor other member)
  · exact chained.noneForgotten

theorem Chained.sendOwned (chained : auth.Chained attended) (after takesDefault : Bool)
    (mainDcId shiftedDcId : Int32) :
    (auth.sendRequest after (.owner takesDefault) mainDcId shiftedDcId).Chained attended :=
  chained.sendRequest after (.owner takesDefault) mainDcId shiftedDcId auth.authExportRequests
    attended (fun other known => Nat.le_succ_of_le (chained.exported_le other known))
    (fun _ _ => rfl) (fun isExport => by cases isExport) fun _ => .inl

theorem Chained.awaits (chained : auth.Chained fun _ => True)
    (owned : auth.owned requestId = true) (known : requestId ≤ auth.lastRequestId)
    (badGuestDc : Bool) (mainDcId dcWithShift : Int32) (other : bareDcId dcWithShift.abs ≠ 0) :
    (auth.awaitAuthorization requestId badGuestDc mainDcId dcWithShift).Chained fun _ => True := by
  have joins : ∀ exporting : GuestAuthorization, (exporting.Chained fun _ => True) →
      exporting.owned requestId = true → requestId ≤ exporting.lastRequestId →
      (∃ requestId, exporting.Authorizes (bareDcId dcWithShift.abs) requestId) →
      (exporting.setWaiters (bareDcId dcWithShift.abs)
        (exporting.waiters (bareDcId dcWithShift.abs) ++ [requestId])).Chained fun _ => True :=
    fun exporting isChained isOwned isKnown authorizes =>
      isChained.joined isOwned isKnown authorizes
  have finish : ∀ waiting : GuestAuthorization, (waiting.Chained fun _ => True) →
      (if badGuestDc then
          { waiting with badGuestDcRequests := waiting.badGuestDcRequests.insert requestId }
        else waiting).Chained fun _ => True := by
    intro waiting isChained
    split
    · exact isChained.badGuest _
    · exact isChained
  apply finish
  by_cases first : auth.waiters (bareDcId dcWithShift.abs) = []
  · rw [if_pos first]
    have missing : auth.authExportRequests.contains (auth.lastRequestId + 1) = false := by
      rw [← Bool.not_eq_true]
      intro isKnown
      have bounded := chained.exported_le _ isKnown
      omega
    have placed : (auth.authExportRequests.emplace (auth.lastRequestId + 1)
        dcWithShift.abs).find? (auth.lastRequestId + 1) = some dcWithShift.abs :=
      find?_emplace_self (contains_eq_false.mp missing)
    have handlers := find?_sendRequest chained false .authExport mainDcId 0
    have authorizes : Authorizes
        { auth.sendRequest false .authExport mainDcId 0 with
          authExportRequests :=
            auth.authExportRequests.emplace (auth.lastRequestId + 1) dcWithShift.abs }
        (bareDcId dcWithShift.abs) (auth.lastRequestId + 1) :=
      .inl ⟨(handlers _).trans (if_pos rfl), _, placed, rfl⟩
    have started := chained.sendRequest false .authExport mainDcId 0
      (auth.authExportRequests.emplace (auth.lastRequestId + 1) dcWithShift.abs) (fun _ => True)
      (fun id isKnown => by
        rcases contains_emplace.mp isKnown with rfl | old
        · exact le_refl _
        · exact Nat.le_succ_of_le (chained.exported_le id old))
      (fun id exporting => by
        have bounded := chained.foreign_le (owned_eq_false.mpr (.inl exporting))
        exact find?_emplace_of_ne (contains_eq_false.mp missing) (by omega))
      (fun _ => ⟨_, placed, other⟩) fun _ => .inl
    have stillOwned : (auth.sendRequest false .authExport mainDcId 0).owned requestId = true := by
      unfold GuestAuthorization.owned
      rw [handlers, if_neg (by omega)]
      exact owned
    exact joins _ started stillOwned (Nat.le_succ_of_le known) ⟨_, authorizes⟩
  · rw [if_neg first]
    exact joins auth chained owned known (chained.authorized _ trivial first)

end Chains

section Errors

variable {auth : GuestAuthorization} {requestId : Nat}

/-- The handler of the request is taken while its answer is handled. -/
structure Handling (auth : GuestAuthorization) (requestId : Nat) : Prop where
  chained : auth.Chained fun _ => True
  absent : auth.parserMap.find? requestId = none
  known : requestId ≤ auth.lastRequestId

section

variable (handling : auth.Handling requestId)
include handling

theorem Handling.owned : auth.owned requestId = true := by
  unfold GuestAuthorization.owned
  rw [handling.absent]

theorem Handling.sent : (auth.sendPrepared requestId).Handling requestId :=
  ⟨handling.chained.sent requestId, handling.absent, handling.known⟩

theorem Handling.main (mainDcId : DcId) : (auth.setMainDcId mainDcId).Handling requestId :=
  ⟨handling.chained.main mainDcId, handling.absent, handling.known⟩

theorem Handling.moved (shiftedDcId : Int32) :
    Handling { auth with requestsByDc := auth.requestsByDc.set requestId shiftedDcId }
      requestId :=
  ⟨handling.chained.moved handling.owned shiftedDcId, handling.absent, handling.known⟩

theorem Handling.migrate (newDcId : DcId) :
    (auth.migrate requestId newDcId).1.Handling requestId := by
  unfold GuestAuthorization.migrate
  dsimp only
  have main : ∀ condition : Prop, ∀ [Decidable condition],
      (if condition then auth.setMainDcId newDcId else auth).Handling requestId := by
    intro condition _
    split
    · exact handling.main newDcId
    · exact handling
  split
  · exact handling
  · split
    · exact ((main _).moved _).sent
    · exact main _

theorem Handling.resend : (auth.resend requestId).1.Handling requestId := by
  unfold GuestAuthorization.resend
  split
  · exact handling
  · exact handling.sent

theorem Handling.awaitOrFail (badGuestDc : Bool) :
    (auth.awaitOrFail requestId badGuestDc).1.Handling requestId := by
  unfold GuestAuthorization.awaitOrFail
  cases main : auth.mainDcId with
  | none => exact handling
  | some mainDcId =>
    dsimp only
    split
    · exact handling
    next guest =>
      have other : bareDcId ((auth.requestsByDc.find? requestId).getD 0).abs ≠ 0 := by
        intro same
        simp [same] at guest
      refine ⟨handling.chained.awaits handling.owned handling.known _ _ _ other, ?_, ?_⟩
      · unfold awaitAuthorization
        dsimp only
        have handlers := find?_sendRequest handling.chained false .authExport mainDcId 0 requestId
        have distinct : requestId ≠ auth.lastRequestId + 1 :=
          Nat.ne_of_lt (Nat.lt_succ_of_le handling.known)
        rw [if_neg distinct, handling.absent] at handlers
        split <;> split <;> first | exact handlers | exact handling.absent
      · unfold awaitAuthorization
        dsimp only
        have known := handling.known
        split <;> split <;> first | exact Nat.le_succ_of_le known | exact known

theorem Handling.notHandled (badGuestDc : Bool) :
    (auth.notHandled requestId badGuestDc).1.Handling requestId := by
  unfold GuestAuthorization.notHandled
  split
  · exact ⟨handling.chained.badGuest _, handling.absent, handling.known⟩
  · exact handling

theorem Handling.waitMessage : (auth.waitMessage requestId).1.Handling requestId := by
  unfold GuestAuthorization.waitMessage
  split
  · exact handling.resend
  · exact handling

theorem Handling.other (repeats awaits resends : Prop) [Decidable repeats] [Decidable awaits]
    [Decidable resends] (badGuestDc : Bool) :
    (if repeats then (auth.sendPrepared requestId, true)
      else if awaits then auth.awaitOrFail requestId badGuestDc
      else if resends then auth.resend requestId
      else auth.notHandled requestId badGuestDc).1.Handling requestId := by
  split
  · exact handling.sent
  · split
    · exact handling.awaitOrFail _
    · split
      · exact handling.resend
      · exact handling.notHandled _

theorem Handling.onErrorDefault (error : RpcError) :
    (auth.onErrorDefault requestId error).1.Handling requestId := by
  unfold GuestAuthorization.onErrorDefault
  cases error.type with
  | migrate dcId => exact handling.migrate dcId
  | msgWait => exact handling.waitMessage
  | _ => exact handling.other _ _ _ _

theorem Handling.restored (takesDefault : Bool) :
    Chained { auth with parserMap := auth.parserMap.emplace requestId (.owner takesDefault) }
      fun _ => True :=
  handling.chained.restored handling.known handling.absent takesDefault

theorem Handling.handleError (takesDefault : Bool) (error : RpcError) :
    (auth.handleError (.owner takesDefault) requestId error).Chained (fun _ => True) ∧
      (auth.handleError (.owner takesDefault) requestId error).owned requestId = true := by
  have asked : (if error.isDefaultHandledError then
      auth.onFail (.owner takesDefault) requestId error else (auth, false)).1 = auth := by
    split <;> rfl
  unfold GuestAuthorization.handleError rpcErrorOccured
  generalize (if error.isDefaultHandledError then
    auth.onFail (.owner takesDefault) requestId error else (auth, false)) = answer at asked
  obtain ⟨same, taken⟩ := answer
  subst asked
  have handled := handling.onErrorDefault error
  dsimp only
  cases taken with
  | true => exact ⟨handling.chained.unregistered handling.owned, handling.owned⟩
  | false =>
    cases done : (same.onErrorDefault requestId error).2 with
    | false =>
      exact ⟨handled.chained.unregistered handled.owned, handled.owned⟩
    | true =>
      simp only [Bool.false_eq_true, if_false, if_true]
      refine ⟨handled.restored takesDefault, ?_⟩
      have missing : (same.onErrorDefault requestId error).1.parserMap.contains requestId =
          false := by
        rw [FlatMap.contains, handled.absent]
        rfl
      unfold GuestAuthorization.owned
      rw [find?_emplace_self (contains_eq_false.mp missing)]

end

end Errors

section Answers

variable {auth : GuestAuthorization} {attended : DcId → Prop} {requestId : Nat}

/-- The request has no handler any more. -/
def withoutHandler (auth : GuestAuthorization) (requestId : Nat) : GuestAuthorization :=
  { auth with
    unanswered := auth.unanswered.erase requestId
    parserMap := auth.parserMap.erase requestId }

theorem absent_withoutHandler (auth : GuestAuthorization) (requestId : Nat) :
    (auth.withoutHandler requestId).parserMap.find? requestId = none := by
  unfold withoutHandler
  rw [find?_erase, if_pos rfl]

theorem Chained.ended (chained : auth.Chained fun _ => True) {dcId : DcId}
    (only : ∀ other, auth.Authorizes other requestId → other = dcId) :
    (auth.withoutHandler requestId).Chained fun other => other ≠ dcId := by
  have handlers : ∀ other, (auth.withoutHandler requestId).parserMap.find? other =
      if other = requestId then none else auth.parserMap.find? other :=
    fun other => find?_erase
  have foreign : ∀ other, (auth.withoutHandler requestId).owned other = false →
      other ≠ requestId ∧ auth.owned other = false := by
    intro other isForeign
    by_cases same : other = requestId
    · rw [owned_eq_false, handlers, if_pos same] at isForeign
      rcases isForeign with absent | absent <;> cases absent
    · rw [owned_eq_false, handlers, if_neg same, ← owned_eq_false] at isForeign
      exact ⟨same, isForeign⟩
  refine
    { chained with
      parsed_le := fun other known => chained.parsed_le other (contains_erase.mp known).2
      underWay := ?_
      exports := ?_
      authorized := ?_
      waiting_owned := ?_ }
  · intro other isForeign
    obtain ⟨distinct, old⟩ := foreign other isForeign
    obtain ⟨sent, registered⟩ := chained.underWay other old
    exact ⟨(mem_erase_of_ne distinct).mpr sent, registered⟩
  · intro other exporting
    rw [handlers] at exporting
    split at exporting
    · cases exporting
    · exact chained.exports other exporting
  · intro other isAttended waits
    obtain ⟨authorizing, authorizes⟩ := chained.authorized other trivial waits
    have distinct : authorizing ≠ requestId := by
      rintro rfl
      exact isAttended (only other authorizes)
    refine ⟨authorizing, ?_⟩
    unfold Authorizes
    rw [handlers, if_neg distinct]
    exact authorizes
  · intro waitsFor other member
    rw [← Bool.not_eq_false]
    intro isForeign
    have owned := chained.waiting_owned waitsFor other member
    rw [(foreign other isForeign).2] at owned
    cases owned

theorem Chained.logged (chained : auth.Chained attended) {entry : Nat × Fate}
    (remembered : entry.2 ≠ .forgotten) :
    Chained { auth with left := auth.left ++ [entry] } attended := by
  refine { chained with noneForgotten := ?_ }
  intro other member
  rcases mem_append.mp member with old | isNew
  · exact chained.noneForgotten other old
  · rw [mem_singleton.mp isNew]
    exact remembered

theorem Chained.resendWaiter (chained : auth.Chained attended)
    (owned : auth.owned requestId = true) (newdc : DcId) :
    (auth.resendWaiter newdc requestId).Chained attended ∧
      (auth.resendWaiter newdc requestId).parserMap = auth.parserMap := by
  unfold GuestAuthorization.resendWaiter
  cases registered : auth.requestMap.contains requestId with
  | false =>
    refine ⟨chained.logged ?_, rfl⟩
    intro forgotten
    cases forgotten
  | true =>
    obtain ⟨before, found⟩ := isSome_iff_exists.mp (chained.placed requestId registered)
    simp only [Bool.true_eq_false, if_false, found]
    generalize (if before < 0 then -newdc else shiftDcId newdc (getDcIdShift before)) =
      shiftedDcId
    have moved := chained.moved owned shiftedDcId
    have resent : (requestId, Fate.resent shiftedDcId).2 ≠ .forgotten := by
      intro forgotten
      cases forgotten
    by_cases main : shiftedDcId < 0
    · simp only [main, if_true]
      exact ⟨((moved.main (some newdc)).sent requestId).logged resent, rfl⟩
    · simp only [main, if_false]
      exact ⟨(moved.sent requestId).logged resent, rfl⟩

theorem Chained.resendWaiters (chained : auth.Chained attended) {waiting : List Nat}
    (owned : ∀ requestId ∈ waiting, auth.owned requestId = true) (newdc : DcId) :
    (waiting.foldl (fun auth => auth.resendWaiter newdc) auth).Chained attended ∧
      (waiting.foldl (fun auth => auth.resendWaiter newdc) auth).parserMap = auth.parserMap := by
  induction waiting generalizing auth with
  | nil => exact ⟨chained, rfl⟩
  | cons head waiting ih =>
    obtain ⟨next, handlers⟩ := chained.resendWaiter (owned head (by simp)) newdc
    have nextOwned : ∀ requestId ∈ waiting,
        (auth.resendWaiter newdc head).owned requestId = true := by
      intro requestId member
      unfold GuestAuthorization.owned
      rw [handlers]
      exact owned requestId (by simp [member])
    obtain ⟨last, lastHandlers⟩ := ih next nextOwned
    exact ⟨last, lastHandlers.trans handlers⟩

theorem Chained.importDone (chained : auth.Chained fun _ => True)
    (importing : auth.parserMap.find? requestId = some .authImport) :
    (((auth.withoutHandler requestId).importDone requestId).unregisterRequest
      requestId).Chained fun _ => True := by
  have registered := (chained.underWay requestId (owned_eq_false.mpr (.inr importing))).2
  obtain ⟨shiftedDcId, found⟩ :=
    isSome_iff_exists.mp (chained.placed requestId registered)
  have only : ∀ other, auth.Authorizes other requestId → other = bareDcId shiftedDcId := by
    rintro other (⟨exporting, -⟩ | ⟨-, shifted, place, rfl⟩)
    · rw [importing] at exporting
      cases exporting
    · rw [found] at place
      cases place
      rfl
  have ended := chained.ended only
  have stillFound : (auth.withoutHandler requestId).requestsByDc.find? requestId =
      some shiftedDcId := found
  have absent := absent_withoutHandler auth requestId
  have owned : ∀ next : GuestAuthorization,
      next.parserMap = (auth.withoutHandler requestId).parserMap →
      next.owned requestId = true := by
    intro next handlers
    unfold owned
    rw [handlers, absent]
  unfold GuestAuthorization.importDone
  rw [stillFound]
  dsimp only
  by_cases none : (auth.withoutHandler requestId).waiters (bareDcId shiftedDcId) = []
  · rw [if_pos none]
    have everywhere : (auth.withoutHandler requestId).Chained fun _ => True := by
      refine { ended with authorized := ?_ }
      intro other _ waits
      apply ended.authorized other _ waits
      rintro rfl
      exact waits none
    exact everywhere.unregistered (owned _ rfl)
  · rw [if_neg none]
    obtain ⟨resent, handlers⟩ := ended.resendWaiters
      (ended.waiting_owned (bareDcId shiftedDcId)) (bareDcId shiftedDcId)
    exact resent.cleared.unregistered (owned _ handlers)

theorem Chained.exportDone (chained : auth.Chained fun _ => True)
    (exporting : auth.parserMap.find? requestId = some .authExport) :
    (((auth.withoutHandler requestId).exportDone requestId).unregisterRequest
      requestId).Chained fun _ => True := by
  obtain ⟨shiftedDcId, found, bare⟩ := chained.exports requestId exporting
  have only : ∀ other, auth.Authorizes other requestId → other = bareDcId shiftedDcId := by
    rintro other (⟨-, shifted, place, rfl⟩ | ⟨importing, -⟩)
    · rw [found] at place
      cases place
      rfl
    · rw [exporting] at importing
      cases importing
  have ended := chained.ended only
  have absent := absent_withoutHandler auth requestId
  have stillFound : (auth.withoutHandler requestId).authExportRequests.find? requestId =
      some shiftedDcId := found
  have shifted : shiftedDcId ≠ 0 := by
    rintro rfl
    exact bare bareDcId_zero
  have handlers := find?_sendRequest ended false .authImport
    ((auth.withoutHandler requestId).mainDcId.getD 0) shiftedDcId
  have known := chained.foreign_le (owned_eq_false.mpr (.inl exporting))
  have signed : (if shiftedDcId = 0 then
        -sessionDcId ((auth.withoutHandler requestId).mainDcId.getD 0) shiftedDcId
      else sessionDcId ((auth.withoutHandler requestId).mainDcId.getD 0) shiftedDcId) =
      shiftedDcId := by
    rw [if_neg shifted, sessionDcId, if_neg shifted, if_neg bare]
  have started := ended.sendRequest false .authImport
    ((auth.withoutHandler requestId).mainDcId.getD 0) shiftedDcId
    ((auth.withoutHandler requestId).authExportRequests.erase requestId) (fun _ => True)
    (fun other isKnown => Nat.le_succ_of_le (ended.exported_le other (contains_erase.mp isKnown).2))
    (fun other isExporting => by
      have distinct : other ≠ requestId := by
        rintro rfl
        rw [absent] at isExporting
        cases isExporting
      exact find?_erase.trans (if_neg distinct))
    (fun isExport => by cases isExport)
    fun other _ => (ne_or_eq other (bareDcId shiftedDcId)).imp_right fun same =>
      .inr ⟨(handlers _).trans (if_pos rfl), shiftedDcId,
        find?_set_self.trans (congrArg some signed), same.symm⟩
  have owned : (auth.withoutHandler requestId).sendRequest false .authImport
      ((auth.withoutHandler requestId).mainDcId.getD 0) shiftedDcId |>.owned requestId := by
    have distinct : requestId ≠ (auth.withoutHandler requestId).lastRequestId + 1 :=
      Nat.ne_of_lt (Nat.lt_succ_of_le known)
    unfold owned
    rw [handlers, if_neg distinct, absent]
  unfold GuestAuthorization.exportDone
  rw [stillFound]
  exact started.unregistered owned

theorem Chained.retried (chained : auth.Chained fun _ => True) {handler : ResponseHandler}
    (found : auth.parserMap.find? requestId = some handler) (mainDcId : Option DcId)
    (places : FlatMap Nat Int32)
    (placed : ∀ other, auth.requestsByDc.contains other = true → places.contains other = true)
    (kept : ∀ other, auth.parserMap.find? other = some .authImport →
      places.find? other = auth.requestsByDc.find? other) :
    Chained { auth.withoutHandler requestId with
      mainDcId := mainDcId
      requestsByDc := places
      unanswered := requestId :: (auth.withoutHandler requestId).unanswered
      parserMap := (auth.withoutHandler requestId).parserMap.emplace requestId handler }
      fun _ => True := by
  have missing : (auth.withoutHandler requestId).parserMap.contains requestId = false := by
    rw [FlatMap.contains, absent_withoutHandler]
    rfl
  have handlers : ∀ other,
      ((auth.withoutHandler requestId).parserMap.emplace requestId handler).find? other =
        auth.parserMap.find? other := by
    intro other
    by_cases same : other = requestId
    · rw [same, found]
      exact find?_emplace_self (contains_eq_false.mp missing)
    · rw [find?_emplace_of_ne (contains_eq_false.mp missing) same]
      exact find?_erase.trans (if_neg same)
  apply chained.congr
  refine
    { parsed_le := fun other known => chained.parsed_le other ?_
      exporting := fun other => by rw [handlers]
      importing := fun other => by rw [handlers]
      placed := fun other known => placed other (chained.placed other known)
      underWay := fun other _ sent registered => ⟨?_, registered⟩
      places := kept }
  · rwa [FlatMap.contains, handlers] at known
  · by_cases same : other = requestId
    · rw [same]
      exact mem_cons_self
    · exact mem_cons_of_mem _ ((mem_erase_of_ne same).mpr sent)

variable {error : RpcError}

theorem onErrorDefault_repeats (repeats : error.repeats = true)
    (registered : auth.requestMap.contains requestId = true) (placed : auth.Placed requestId) :
    auth.onErrorDefault requestId error = (auth.sendPrepared requestId, true) := by
  have again : auth.resend requestId = (auth.sendPrepared requestId, true) := by
    unfold resend
    rw [if_neg]
    simp only [registered, Bool.true_eq_false, decide_false, Bool.false_or, decide_eq_true_eq]
    exact placed
  obtain ⟨code, type⟩ := error
  unfold onErrorDefault RpcError.isShortSlowmodeWait
  unfold RpcError.repeats at repeats
  cases type with
  | migrate dcId => cases repeats
  | msgWait => cases repeats
  | slowmodeWait seconds => simp_all
  | floodWait => simp
  | connectionNotInited =>
    have authorized : code ≠ 401 := by simpa using repeats
    simp only [authorized, again]
    simp
  | connectionLayerInvalid =>
    have authorized : code ≠ 401 := by simpa using repeats
    simp only [authorized, again]
    simp
  | fileIdInvalid => simp_all
  | authKeyPermEmpty => simp_all
  | connectionLangCodeInvalid => simp_all
  | other => simp_all

theorem onErrorDefault_migrates (migrates : error.migrates = true)
    (registered : auth.requestMap.contains requestId = true) (placed : auth.Placed requestId) :
    ∃ mainDcId shiftedDcId, auth.onErrorDefault requestId error =
      ({ auth with
        mainDcId := mainDcId
        requestsByDc := auth.requestsByDc.set requestId shiftedDcId
        unanswered := requestId :: auth.unanswered }, true) := by
  obtain ⟨code, type⟩ := error
  cases type with
  | migrate dcId =>
    have somewhere : dcId ≠ 0 := of_decide_eq_true migrates
    unfold onErrorDefault
    unfold Placed at placed
    simp only [migrate, placed, somewhere, registered, decide_false, Bool.or_false,
      Bool.false_eq_true, if_false, if_true]
    split
    · exact ⟨_, _, rfl⟩
    · exact ⟨_, _, rfl⟩
  | _ => cases migrates

/-- What `onErrorDefault` handles leaves the handler in place. -/
theorem handleError_foreign {handler : ResponseHandler}
    (isForeign : handler = .authExport ∨ handler = .authImport)
    {next : GuestAuthorization} (handled : auth.onErrorDefault requestId error = (next, true)) :
    auth.handleError handler requestId error =
      { next with parserMap := next.parserMap.emplace requestId handler } := by
  have asked : (if error.isDefaultHandledError then auth.onFail handler requestId error
      else (auth, false)) = (auth, false) := by
    split
    next isDefault =>
      rcases isForeign with rfl | rfl
      · rw [onFail, exportFail, if_pos isDefault]
      · rw [onFail, importFail, isDefault]
        rfl
    · rfl
  unfold handleError rpcErrorOccured
  rw [asked]
  simp only [handled, Bool.false_eq_true, if_false, if_true]

end Answers

section Runs

variable {auth : GuestAuthorization}

theorem Chained.answerForeign (chained : auth.Chained fun _ => True) {requestId : Nat}
    {answer : Answer} (goesOn : auth.GoesOn (.answer requestId answer))
    (foreign : auth.owned requestId = false) :
    Chained ({ auth with unanswered := auth.unanswered.erase requestId }.processCallback
      requestId answer) fun _ => True := by
  have registered := (chained.underWay requestId foreign).2
  have repeated : ∀ handler, auth.parserMap.find? requestId = some handler →
      handler = .authExport ∨ handler = .authImport → ∀ error, error.repeats = true →
      auth.Placed requestId →
      ((auth.withoutHandler requestId).handleError handler requestId error).Chained
        fun _ => True := by
    intro handler found isForeign error repeats placed
    have handled := @onErrorDefault_repeats (auth.withoutHandler requestId) requestId error
      repeats registered placed
    rw [handleError_foreign isForeign handled]
    exact chained.retried found _ _ (fun _ => id) (fun _ _ => rfl)
  unfold processCallback
  rcases owned_eq_false.mp foreign with exporting | importing
  · have condition := goesOn.1 exporting
    simp only [exporting]
    cases answer with
    | result readable =>
      have isReadable : readable = true := condition
      rw [isReadable]
      exact chained.exportDone exporting
    | error error =>
      obtain ⟨placed, repeats | migrates⟩ := condition
      · exact repeated _ exporting (.inl rfl) error repeats placed
      · obtain ⟨mainDcId, shiftedDcId, handled⟩ := @onErrorDefault_migrates
          (auth.withoutHandler requestId) requestId error migrates registered placed
        change Chained ((auth.withoutHandler requestId).handleError .authExport requestId error) _
        rw [handleError_foreign (.inl rfl) handled]
        refine chained.retried exporting _ _ ?_ ?_
        · exact fun other known => contains_set.mpr (.inr known)
        · intro other importing
          have distinct : other ≠ requestId := by
            rintro rfl
            rw [exporting] at importing
            cases importing
          exact find?_set.trans (if_neg distinct)
  · have condition := goesOn.2 importing
    simp only [importing]
    cases answer with
    | result readable =>
      have isReadable : readable = true := condition
      rw [isReadable]
      exact chained.importDone importing
    | error error =>
      exact repeated _ importing (.inr rfl) error condition.2 condition.1

theorem Chained.answerOwned (chained : auth.Chained fun _ => True) {requestId : Nat}
    (answer : Answer) (owned : auth.owned requestId = true) :
    Chained ({ auth with unanswered := auth.unanswered.erase requestId }.processCallback
      requestId answer) fun _ => True := by
  have answered := chained.answered owned
  unfold processCallback
  cases found : auth.parserMap.find? requestId with
  | none =>
    exact answered.unregistered owned
  | some handler =>
    obtain ⟨takesDefault, rfl⟩ : ∃ takesDefault, handler = .owner takesDefault := by
      unfold GuestAuthorization.owned at owned
      rw [found] at owned
      cases handler with
      | owner takesDefault => exact ⟨takesDefault, rfl⟩
      | authExport => cases owned
      | authImport => cases owned
    have handling : (auth.withoutHandler requestId).Handling requestId := by
      refine ⟨answered.unhandled owned, absent_withoutHandler auth requestId, ?_⟩
      apply chained.parsed_le
      rw [FlatMap.contains, found]
      rfl
    cases answer with
    | error error => exact (handling.handleError takesDefault error).1
    | result readable =>
      cases readable with
      | true => exact handling.chained.unregistered handling.owned
      | false =>
        obtain ⟨failed, stillOwned⟩ := handling.handleError takesDefault .parseFailed
        exact failed.unregistered stillOwned

/-- While the import goes on, who waits is attended. -/
theorem Chained.step (chained : auth.Chained fun _ => True) {event : Event}
    {next : GuestAuthorization} (goesOn : auth.GoesOn event)
    (taken : auth.step event = some next) : next.Chained fun _ => True := by
  cases event with
  | send shiftedDcId after takesDefault =>
    obtain ⟨mainDcId, -, rfl⟩ := map_eq_some_iff.mp taken
    exact chained.sendOwned after takesDefault mainDcId shiftedDcId
  | cancel requestId =>
    replace taken : (if auth.owned requestId then some (auth.cancel requestId) else none) =
        some next := taken
    split at taken
    next owned =>
      cases taken
      exact (chained.unregistered owned).unhandled owned
    · cases taken
  | setMainDcId dcId =>
    cases taken
    exact chained.main (some dcId)
  | answer requestId answer =>
    replace taken : (if requestId ∈ auth.unanswered then
        some ({ auth with unanswered := auth.unanswered.erase requestId }.processCallback
          requestId answer) else none) = some next := taken
    split at taken
    · cases taken
      cases owned : auth.owned requestId with
      | true => exact chained.answerOwned answer owned
      | false => exact chained.answerForeign goesOn owned
    · cases taken

/-- In a run in which no export and no import ends with an error, the waiting
requests of every data center have one under way, and all are sent again. -/
theorem attended_of_goingOn {events : List Event} {last : GuestAuthorization}
    (goesOn : RunMeets GuestAuthorization.step GoesOn {} events)
    (ends : run GuestAuthorization.step {} events = some last) : last.Attended := by
  have kept : ∀ state event next, Chained state (fun _ => True) → GoesOn state event →
      step state event = some next → Chained next fun _ => True :=
    fun _ _ _ chained condition taken => chained.step condition taken
  exact (run_invariant_of_meets kept (chained_initial _) goesOn ends).attends

/-- A request waits for data center 4 until its authorization is exported, on the
second try, and imported. -/
theorem attended_of_goingOn_imported :
    ∃ last, run GuestAuthorization.step {}
        [.send 4 false false, .answer 1 (.error { code := 401 }),
          .answer 2 (.error { code := 500 }), .answer 2 (.result true),
          .answer 3 (.result true)] = some last ∧
      last.left = [(1, .resent 4)] ∧ last.Attended := by
  obtain ⟨last, ends⟩ := isSome_iff_exists.mp
    (show (run step {}
      [.send 4 false false, .answer 1 (.error { code := 401 }),
        .answer 2 (.error { code := 500 }), .answer 2 (.result true),
        .answer 3 (.result true)]).isSome = true by decide)
  have resent : (run step {}
      [.send 4 false false, .answer 1 (.error { code := 401 }),
        .answer 2 (.error { code := 500 }), .answer 2 (.result true),
        .answer 3 (.result true)]).map left = some [(1, .resent 4)] := by decide
  rw [ends] at resent
  exact ⟨last, ends, some.inj resent, attended_of_goingOn (by decide) ends⟩

/-- The import fails, and the request waits with nothing under way. -/
theorem waits_after_importFail :
    ∃ last, run GuestAuthorization.step {}
        [.send 4 false false, .answer 1 (.error { code := 401 }), .answer 2 (.result true),
          .answer 3 (.error { code := 400 })] = some last ∧ ¬last.Attended := by
  obtain ⟨last, ends⟩ := isSome_iff_exists.mp
    (show (run step {}
      [.send 4 false false, .answer 1 (.error { code := 401 }), .answer 2 (.result true),
        .answer 3 (.error { code := 400 })]).isSome = true by decide)
  have blocked : (run step {}
      [.send 4 false false, .answer 1 (.error { code := 401 }), .answer 2 (.result true),
        .answer 3 (.error { code := 400 })]).map (fun auth => (auth.waiters 4, auth.unanswered)) =
      some ([1], []) := by decide
  rw [ends, map_some, some.injEq, Prod.mk.injEq] at blocked
  refine ⟨last, ends, ?_⟩
  intro attended
  obtain ⟨requestId, unanswered, -⟩ := attended.underWay 4 (by rw [blocked.1]; simp)
  rw [blocked.2] at unanswered
  cases unanswered

end Runs

end GuestAuthorization

end TelegramDesktop
