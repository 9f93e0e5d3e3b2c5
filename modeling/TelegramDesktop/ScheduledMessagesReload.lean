import TelegramDesktop.ScheduledMessages

/-!
# Reloading the scheduled messages

Items that were sent have the ids that the server knows them by, and local ones have ids
of the client, whatever happened before.
-/

namespace TelegramDesktop.ScheduledMessages

open List ScheduledMessages Option HistoryItem Function

/-- The addresses are distinct, and the sent items are those that have ids of the server. -/
structure Valid (list : MessageList) (next : Nat) : Prop where
  distinct : (list.items.map HistoryItem.address).Nodup
  below : ∀ item ∈ list.items, item.address < next
  sent : ∀ item ∈ list.items, item.isSent = true →
    ∃ id : Int32, 0 < id.toInt ∧ item.id = localMessageId id.toInt ∧
      list.itemById id.toInt = some item.address
  unsent : ∀ item ∈ list.items, item.isSent = false → isClientMsgId item.id = true
  once : ∀ item ∈ list.items, item.isSending = true → item.hasFailed = false
  known : ∀ id address, list.itemById id = some address →
    ∃ item ∈ list.items, item.address = address ∧ item.isSent = true ∧ item.id = localMessageId id

variable {list : MessageList} {next : Nat} {item : HistoryItem} {message : Message}

theorem valid_empty (next : Nat) : Valid {} next := by
  constructor
  · exact nodup_nil
  all_goals simp

theorem Valid.mono (valid : Valid list next) {later : Nat} (le : next ≤ later) :
    Valid list later :=
  { valid with below := fun item member => lt_of_lt_of_le (valid.below item member) le }

theorem Valid.eq_of_address (valid : Valid list next) {other : HistoryItem}
    (member : item ∈ list.items) (otherMember : other ∈ list.items)
    (same : item.address = other.address) : item = other :=
  inj_on_of_nodup_map valid.distinct member otherMember same

theorem Valid.find_eq (valid : Valid list next) (member : item ∈ list.items) :
    list.find item.address = some item := by
  obtain ⟨before, found, after, split, has, fresh⟩ :=
    exists_first_withKey (mem_map.mpr ⟨item, member, rfl⟩ :
      item.address ∈ list.items.map address)
  have foundMember : found ∈ list.items := by simp [split]
  obtain rfl := valid.eq_of_address foundMember member has
  have notBefore : ∀ other ∈ before, ¬other.address = found.address := fun other earlier same =>
    fresh (mem_map.mpr ⟨other, earlier, same⟩)
  rw [MessageList.find, split, find?_append, find?_eq_none.mpr (by simpa using notBefore)]
  simp

theorem mem_of_find {address : Nat} (found : list.find address = some item) :
    item ∈ list.items ∧ item.address = address :=
  ⟨mem_of_find?_eq_some found, by simpa using find?_some found⟩

theorem localMessageId_pos {id : Int} (positive : 0 < id) : 0 < localMessageId id := by
  simp only [localMessageId, serverMaxMsgId]
  omega

theorem not_isClientMsgId {id : Int} (positive : 0 < id) : isClientMsgId id = false := by
  have notBelow : ¬id < endClientMsgId := by
    simp only [endClientMsgId]
    omega
  simp [isClientMsgId, notBelow]

theorem localMessageId_inj {first second : Int} :
    localMessageId first = localMessageId second ↔ first = second := by
  simp only [localMessageId, serverMaxMsgId]
  omega

theorem Valid.lookupId (valid : Valid list next) (member : item ∈ list.items)
    (sent : item.isSent = true) :
    ∃ id, lookupId item = some id ∧ list.itemById id = some item.address ∧
      item.id = localMessageId id := by
  obtain ⟨id, positive, isId, known⟩ := valid.sent item member sent
  refine ⟨id.toInt, ?_, known, isId⟩
  have below := id.toInt_lt
  rw [ScheduledMessages.lookupId, isId, if_pos]
  · simp only [localMessageId, serverMaxMsgId, some.injEq]
    omega
  · refine ⟨sent, ?_, ?_⟩
    · simp only [localMessageId, serverMaxMsgId]
      omega
    · simp only [localMessageId, serverMaxMsgId, scheduledMsgIdsRange]
      omega

theorem Valid.of_perm (valid : Valid list next) {items : List HistoryItem}
    (perm : items.Perm list.items) : Valid { list with items := items } next := by
  constructor
  · exact (perm.map address).nodup_iff.mpr valid.distinct
  · intro item member
    exact valid.below item (perm.mem_iff.mp member)
  · intro item member
    exact valid.sent item (perm.mem_iff.mp member)
  · intro item member
    exact valid.unsent item (perm.mem_iff.mp member)
  · intro item member
    exact valid.once item (perm.mem_iff.mp member)
  · intro id address known
    obtain ⟨item, member, rest⟩ := valid.known id address known
    exact ⟨item, perm.mem_iff.mpr member, rest⟩

theorem Valid.sort (valid : Valid list next) : Valid list.sort next :=
  valid.of_perm (perm_insertionSort _ _)

theorem mem_sort : item ∈ list.sort.items ↔ item ∈ list.items :=
  (perm_insertionSort _ _).mem_iff

variable {changed : HistoryItem → HistoryItem}

theorem mem_change {address : Nat} {found : HistoryItem}
    (member : found ∈ (list.change address changed).items) :
    ∃ item ∈ list.items, (item.address = address ∧ found = changed item) ∨
      (item.address ≠ address ∧ found = item) := by
  simp only [MessageList.change, List.mem_map] at member
  obtain ⟨item, member, rfl⟩ := member
  refine ⟨item, member, ?_⟩
  split_ifs with same
  · exact .inl ⟨same, rfl⟩
  · exact .inr ⟨same, rfl⟩

theorem mem_change_of_ne {address : Nat}
    (member : item ∈ list.items) (other : item.address ≠ address) :
    item ∈ (list.change address changed).items := by
  simp only [MessageList.change, List.mem_map]
  exact ⟨item, member, by simp [other]⟩

theorem mem_change_self (member : item ∈ list.items) :
    changed item ∈ (list.change item.address changed).items := by
  simp only [MessageList.change, List.mem_map]
  exact ⟨item, member, by simp⟩

/-- A change that leaves the id of an item, and whether it was sent. -/
structure Harmless (list : MessageList) (place : Nat) (changed : HistoryItem → HistoryItem) :
    Prop where
  sameAddress : ∀ item, (changed item).address = item.address
  sameId : ∀ item, (changed item).id = item.id
  sameSent : ∀ item ∈ list.items, item.address = place → (changed item).isSent = item.isSent
  once : ∀ item ∈ list.items, item.address = place → (changed item).isSending = true →
    (changed item).hasFailed = false

theorem Harmless.exists_item {place : Nat} {found : HistoryItem}
    (harmless : Harmless list place changed) (member : found ∈ (list.change place changed).items) :
    ∃ item ∈ list.items, found.address = item.address ∧ found.id = item.id ∧
      found.isSent = item.isSent := by
  obtain ⟨item, origin, ⟨same, rfl⟩ | ⟨-, rfl⟩⟩ := mem_change member
  · exact ⟨item, origin, harmless.sameAddress item, harmless.sameId item,
      harmless.sameSent item origin same⟩
  · exact ⟨found, origin, rfl, rfl, rfl⟩

theorem map_address_change {address : Nat} (keeps : ∀ item, (changed item).address = item.address) :
    (list.change address changed).items.map HistoryItem.address =
      list.items.map HistoryItem.address := by
  simp only [MessageList.change, List.map_map]
  apply map_congr_left
  intro item _
  simp only [comp_apply]
  split_ifs
  · exact keeps item
  · rfl

theorem Valid.change (valid : Valid list next) {place : Nat}
    (harmless : Harmless list place changed) :
    Valid (list.change place changed) next := by
  constructor
  · rw [map_address_change harmless.sameAddress]
    exact valid.distinct
  · intro found member
    obtain ⟨item, member, sameAddress, -, -⟩ := harmless.exists_item member
    rw [sameAddress]
    exact valid.below item member
  · intro found member
    obtain ⟨item, member, sameAddress, sameId, sameSent⟩ := harmless.exists_item member
    rw [sameAddress, sameId, sameSent]
    exact valid.sent item member
  · intro found member
    obtain ⟨item, member, -, sameId, sameSent⟩ := harmless.exists_item member
    rw [sameId, sameSent]
    exact valid.unsent item member
  · intro found member
    obtain ⟨item, origin, ⟨same, rfl⟩ | ⟨-, rfl⟩⟩ := mem_change member
    · exact harmless.once item origin same
    · exact valid.once found origin
  · intro id address known
    obtain ⟨item, member, isAddress, sent, isId⟩ := valid.known id address known
    by_cases same : item.address = place
    · subst same
      refine ⟨changed item, mem_change_self member, ?_, ?_, ?_⟩
      · rw [harmless.sameAddress, isAddress]
      · rw [harmless.sameSent item member rfl, sent]
      · rw [harmless.sameId, isId]
    · exact ⟨item, mem_change_of_ne member same, isAddress, sent, isId⟩

theorem Valid.updateDate (valid : Valid list next) (address : Nat) (message : Message) :
    Valid (list.updateDate address message) next := by
  cases message with
  | messageEmpty id => exact valid
  | messageService id samePeer date => exact valid
  | message id samePeer date =>
    apply valid.change
    exact ⟨fun _ => rfl, fun _ => rfl, fun _ _ _ => rfl,
      fun item member _ => valid.once item member⟩

/-- What becomes of a list and of the address of the message when it is appended. -/
structure Appends (list : MessageList) (next : Nat) (message : Message) (last : MessageList)
    (received : List Nat) : Prop where
  valid : Valid last (next + 1)
  kept : ∀ item ∈ list.items, item.isSent = false → item ∈ last.items
  known : ∀ id address, list.itemById id = some address → last.itemById id = some address
  sent : ∀ address ∈ received, ∃ item ∈ last.items, item.address = address ∧ item.isSent = true
  absent : ∀ item ∈ last.items, item.address ∉ received →
    item ∈ list.items ∧ list.itemById message.id ≠ some item.address

section

variable (valid : Valid list next)
include valid

theorem Valid.find_localMessageId {id : Int} (positive : 0 < id)
    (unknown : list.itemById id = none) :
    (list.items.find? fun item => item.id = localMessageId id) = none := by
  rw [find?_eq_none]
  intro item member same
  rw [decide_eq_true_eq] at same
  by_cases sent : item.isSent = true
  · obtain ⟨other, -, isId, known⟩ := valid.sent item member sent
    rw [isId, localMessageId_inj] at same
    rw [same, unknown] at known
    cases known
  · have client := valid.unsent item member (by simpa using sent)
    rw [same, not_isClientMsgId (localMessageId_pos positive)] at client
    cases client

theorem appends_existing {existing : Nat} (known : list.itemById message.id = some existing) :
    Appends list next message (list.updateDate existing message) [existing] := by
  obtain ⟨owner, ownerMember, isAddress, sent, -⟩ := valid.known _ _ known
  have changes : ∀ item ∈ list.items, item.address ≠ existing →
      item ∈ (list.updateDate existing message).items := by
    intro item member other
    cases message with
    | messageEmpty id => exact member
    | messageService id samePeer date => exact member
    | message id samePeer date => exact mem_change_of_ne member other
  have unchanged : ∀ item ∈ (list.updateDate existing message).items, item.address ≠ existing →
      item ∈ list.items := by
    intro item member other
    cases message with
    | messageEmpty id => exact member
    | messageService id samePeer date => exact member
    | message id samePeer date =>
      obtain ⟨before, origin, ⟨same, rfl⟩ | ⟨-, rfl⟩⟩ := mem_change member
      · exact absurd same other
      · exact origin
  have same : (list.updateDate existing message).itemById = list.itemById := by
    cases message <;> rfl
  have valid' := (valid.updateDate existing message).mono (Nat.le_succ next)
  refine ⟨valid', ?_, ?_, ?_, ?_⟩
  · intro item member unsent
    apply changes item member
    rintro rfl
    rw [valid.eq_of_address member ownerMember isAddress.symm, sent] at unsent
    cases unsent
  · rw [same]
    exact fun _ _ => id
  · intro address isReceived
    rw [mem_singleton] at isReceived
    subst isReceived
    rw [← same] at known
    obtain ⟨item, member, isAddress, sent, -⟩ := valid'.known _ _ known
    exact ⟨item, member, isAddress, sent⟩
  · intro item member notReceived
    rw [mem_singleton] at notReceived
    refine ⟨unchanged item member notReceived, fun other => notReceived ?_⟩
    rw [known, some.injEq] at other
    exact other.symm

theorem appends_nothing (unknown : list.itemById message.id = none) :
    Appends list next message list [] := by
  refine ⟨valid.mono (Nat.le_succ next), fun _ member _ => member, fun _ _ => id, ?_, ?_⟩
  · intro address absent
    cases absent
  · intro item member _
    refine ⟨member, ?_⟩
    rw [unknown]
    exact some_ne_none _ |>.symm

theorem appends_new (unknown : list.itemById message.id = none) (positive : 0 < message.id)
    (date : Int) :
    Appends list next message
      { items := list.items ++
          [{ address := next, id := localMessageId message.id, date := date }]
        itemById := update list.itemById message.id (some next) } [next] := by
  have old : ∀ item ∈ list.items, item.address ≠ next := fun item member =>
    ne_of_lt (valid.below item member)
  have later : ∀ id address, list.itemById id = some address →
      update list.itemById message.id (some next) id = some address := by
    intro id address known
    rw [update_of_ne, known]
    rintro rfl
    rw [unknown] at known
    cases known
  obtain ⟨wire, isWire⟩ : ∃ wire : Int32, message.id = wire.toInt := by
    cases message <;> exact ⟨_, rfl⟩
  refine ⟨⟨?_, ?_, ?_, ?_, ?_, ?_⟩, ?_, later, ?_, ?_⟩
  · rw [map_append, nodup_append]
    refine ⟨valid.distinct, by simp, ?_⟩
    simpa using old
  · intro item member
    rcases mem_append.mp member with before | new
    · exact Nat.lt_succ_of_lt (valid.below item before)
    · rw [mem_singleton.mp new]
      exact Nat.lt_succ_self next
  · intro item member sent
    rcases mem_append.mp member with before | new
    · obtain ⟨id, idPositive, isId, known⟩ := valid.sent item before sent
      exact ⟨id, idPositive, isId, later _ _ known⟩
    · rw [mem_singleton.mp new]
      refine ⟨wire, isWire ▸ positive, congrArg localMessageId isWire, ?_⟩
      rw [← isWire]
      exact update_self _ _ _
  · intro item member unsent
    rcases mem_append.mp member with before | new
    · exact valid.unsent item before unsent
    · rw [mem_singleton.mp new] at unsent
      cases unsent
  · intro item member sending
    rcases mem_append.mp member with before | new
    · exact valid.once item before sending
    · rw [mem_singleton.mp new]
  · intro id address known
    change update list.itemById message.id (some next) id = some address at known
    by_cases same : id = message.id
    · subst same
      rw [update_self, some.injEq] at known
      exact ⟨_, mem_append_right _ (mem_singleton_self _), known, rfl, rfl⟩
    · rw [update_of_ne same] at known
      obtain ⟨item, member, rest⟩ := valid.known id address known
      exact ⟨item, mem_append_left _ member, rest⟩
  · exact fun item member _ => mem_append_left _ member
  · intro address isReceived
    rw [mem_singleton] at isReceived
    exact ⟨_, mem_append_right _ (mem_singleton_self _), isReceived.symm, rfl⟩
  · intro item member notReceived
    rw [mem_singleton] at notReceived
    rcases mem_append.mp member with before | new
    · refine ⟨before, ?_⟩
      rw [unknown]
      exact (some_ne_none _).symm
    · rw [mem_singleton.mp new] at notReceived
      exact absurd rfl notReceived

theorem Valid.append (message : Message) :
    Appends list next message (list.append message next).1 (list.append message next).2.toList := by
  unfold MessageList.append
  split
  next existing known =>
    exact appends_existing valid known
  next unknown =>
    split
    · exact appends_nothing valid unknown
    next isServer =>
      have positive : 0 < message.id := by
        simp only [isServerMsgId, Bool.not_eq_false, Bool.and_eq_true,
          decide_eq_true_eq] at isServer
        exact isServer.1
      rw [MessageList.addNewMessage, valid.find_localMessageId positive unknown]
      by_cases samePeer : message.samePeer = true
      · rw [if_pos samePeer]
        exact appends_new valid unknown positive message.date
      · rw [if_neg samePeer]
        exact appends_nothing valid unknown

end

/-- What becomes of a list and of the addresses of the messages when they are appended. -/
structure AppendsAll (list : MessageList) (next : Nat) (messages : List Message)
    (last : MessageList) (received : List Nat) : Prop where
  valid : Valid last (next + messages.length)
  kept : ∀ item ∈ list.items, item.isSent = false → item ∈ last.items
  known : ∀ id address, list.itemById id = some address → last.itemById id = some address
  sent : ∀ address ∈ received, ∃ item ∈ last.items, item.address = address ∧ item.isSent = true
  absent : ∀ item ∈ last.items, item.address ∉ received →
    item ∈ list.items ∧ ∀ message ∈ messages, list.itemById message.id ≠ some item.address

theorem Valid.appendAll (messages : List Message) (valid : Valid list next) :
    AppendsAll list next messages (list.appendAll messages next).1
      (list.appendAll messages next).2 := by
  induction messages generalizing list next with
  | nil =>
    refine ⟨valid, fun _ member _ => member, fun _ _ => id, fun address absent => ?_,
      fun item member _ => ?_⟩
    · cases absent
    · exact ⟨member, fun message absent => False.elim (not_mem_nil absent)⟩
  | cons message messages ih =>
    have first := valid.append message
    have rest := ih first.valid
    unfold MessageList.appendAll
    refine ⟨?_, ?_, ?_, ?_, ?_⟩
    · rw [length_cons, ← Nat.add_assoc, Nat.add_right_comm]
      exact rest.valid
    · exact fun item member unsent => rest.kept item (first.kept item member unsent) unsent
    · exact fun id address known => rest.known id address (first.known id address known)
    · intro address isReceived
      rcases mem_append.mp isReceived with now | later
      · obtain ⟨item, member, rfl, sent⟩ := first.sent address now
        obtain ⟨id, -, -, known⟩ := first.valid.sent item member sent
        obtain ⟨found, foundMember, isAddress, foundSent, -⟩ :=
          rest.valid.known _ _ (rest.known _ _ known)
        exact ⟨found, foundMember, isAddress, foundSent⟩
      · exact rest.sent address later
    · intro item member notReceived
      rw [mem_append, not_or] at notReceived
      obtain ⟨member, notLater⟩ := rest.absent item member notReceived.2
      obtain ⟨member, notNow⟩ := first.absent item member notReceived.1
      refine ⟨member, fun other among => ?_⟩
      rcases mem_cons.mp among with rfl | among
      · exact notNow
      · exact fun known => notLater other among (first.known _ _ known)

variable {messages : ScheduledMessages}

/-- The list is valid, if there is one. -/
def Sound (messages : ScheduledMessages) : Prop :=
  Valid (messages.list.getD {}) messages.nextAddress

/-- Exactly these items were destroyed. -/
structure Destroys (messages : ScheduledMessages) (gone : List HistoryItem)
    (last : ScheduledMessages) : Prop where
  sound : Sound last
  mem_items : ∀ item, item ∈ last.items ↔ item ∈ messages.items ∧ item ∉ gone
  destroyed : last.destroyed = messages.destroyed ++ gone

theorem Valid.erase (valid : Valid list next) {itemById : Int → Option Nat}
    (known : ∀ id address, itemById id = some address ↔
      list.itemById id = some address ∧ address ≠ item.address) :
    Valid { items := eraseByKey address item.address list.items
            itemById := itemById } next := by
  have mem : ∀ other, other ∈ eraseByKey address item.address list.items ↔
      other ∈ list.items ∧ other.address ≠ item.address := fun _ =>
    mem_eraseByKey_iff valid.distinct
  constructor
  · exact nodup_eraseByKey _ valid.distinct
  · exact fun other isLeft => valid.below other ((mem other).mp isLeft).1
  · intro other isLeft sent
    obtain ⟨otherMember, different⟩ := (mem other).mp isLeft
    obtain ⟨id, positive, isId, isKnown⟩ := valid.sent other otherMember sent
    exact ⟨id, positive, isId, (known _ _).mpr ⟨isKnown, different⟩⟩
  · exact fun other isLeft => valid.unsent other ((mem other).mp isLeft).1
  · exact fun other isLeft => valid.once other ((mem other).mp isLeft).1
  · intro id address isKnown
    obtain ⟨wasKnown, different⟩ := (known _ _).mp isKnown
    obtain ⟨other, otherMember, rfl, rest⟩ := valid.known id address wasKnown
    exact ⟨other, (mem other).mpr ⟨otherMember, different⟩, rfl, rest⟩

theorem Valid.known_update_iff (valid : Valid list next) (member : item ∈ list.items) {id : Int}
    (isKnown : list.itemById id = some item.address) (isId : item.id = localMessageId id)
    (other : Int) (address : Nat) :
    update list.itemById id none other = some address ↔
      list.itemById other = some address ∧ address ≠ item.address := by
  by_cases same : other = id
  · subst same
    rw [update_self, isKnown, some.injEq]
    refine iff_of_false (some_ne_none _).symm fun both => both.2 both.1.symm
  · rw [update_of_ne same]
    refine (and_iff_left_of_imp fun known isAddress => same ?_).symm
    obtain ⟨found, foundMember, foundAddress, -, foundId⟩ := valid.known _ _ known
    obtain rfl := valid.eq_of_address foundMember member (foundAddress.trans isAddress)
    rwa [foundId, localMessageId_inj] at isId

theorem Valid.known_unsent_iff (valid : Valid list next) (member : item ∈ list.items)
    (unsent : item.isSent = false) (id : Int) (address : Nat) :
    list.itemById id = some address ↔ list.itemById id = some address ∧ address ≠ item.address := by
  refine (and_iff_left_of_imp fun known isAddress => ?_).symm
  obtain ⟨found, foundMember, foundAddress, sent, -⟩ := valid.known _ _ known
  obtain rfl := valid.eq_of_address foundMember member (foundAddress.trans isAddress)
  rw [unsent] at sent
  cases sent

theorem Sound.remove (sound : Sound messages) (member : item ∈ messages.items) :
    ∃ last, messages.remove item = some last ∧ Sound last ∧
      (∀ other, other ∈ last.items ↔ other ∈ messages.items ∧ other ≠ item) ∧
      last.destroyed = messages.destroyed := by
  cases isList : messages.list with
  | none =>
    rw [items, isList] at member
    cases member
  | some list =>
    have valid : Valid list messages.nextAddress := by
      simpa [Sound, isList] using sound
    replace member : item ∈ list.items := by
      simpa [items, isList] using member
    have isFound := valid.find_eq member
    obtain ⟨itemById, isRemoved, known⟩ : ∃ itemById,
        messages.remove item = some { messages with
          list := if eraseByKey address item.address list.items = [] then none
            else some { items := eraseByKey address item.address list.items
                        itemById := itemById }
          updates := messages.updates + 1 } ∧
        ∀ id address, itemById id = some address ↔
          list.itemById id = some address ∧ address ≠ item.address := by
      by_cases sent : item.isSent = true
      · obtain ⟨id, lookedUp, isKnown, isId⟩ := valid.lookupId member sent
        refine ⟨_, ?_, valid.known_update_iff member isKnown isId⟩
        simp [ScheduledMessages.remove, isList, sent, lookedUp, isFound]
      · rw [Bool.not_eq_true] at sent
        refine ⟨_, ?_, valid.known_unsent_iff member sent⟩
        simp [ScheduledMessages.remove, isList, sent, isFound]
    have erased := valid.erase known
    have mem : ∀ other, other ∈ eraseByKey address item.address list.items ↔
        other ∈ list.items ∧ other ≠ item := by
      intro other
      rw [mem_eraseByKey_iff valid.distinct]
      refine and_congr_right fun otherMember => not_congr ⟨fun same => ?_, congrArg _⟩
      exact valid.eq_of_address otherMember member same
    refine ⟨_, isRemoved, ?_, ?_, rfl⟩
    · split_ifs with empty
      · exact valid_empty _
      · exact erased
    · intro other
      have isItems : messages.items = list.items := by
        rw [items, isList]
        rfl
      rw [isItems, ← mem]
      split_ifs with empty
      · rw [empty]
        rfl
      · rfl

theorem Sound.destroy (sound : Sound messages) (member : item ∈ messages.items) :
    ∃ last, messages.destroy item = some last ∧ Destroys messages [item] last := by
  have counted : Sound { messages with destroyed := messages.destroyed ++ [item] } := sound
  obtain ⟨last, removed, lastSound, mem, destroyed⟩ := counted.remove member
  refine ⟨last, removed, lastSound, fun other => ?_, destroyed⟩
  rw [mem, mem_singleton]
  rfl

section

variable {gone : List HistoryItem} (sound : Sound messages)
  (members : ∀ item ∈ gone, item ∈ messages.items) (distinct : gone.Nodup)

include sound members distinct

theorem Sound.destroyAll :
    ∃ last, destroyAll gone messages = some last ∧ Destroys messages gone last := by
  induction gone generalizing messages with
  | nil => exact ⟨messages, rfl, sound, by simp, by simp⟩
  | cons item gone ih =>
    rw [nodup_cons] at distinct
    obtain ⟨first, destroyed, step⟩ := sound.destroy (members item (mem_cons_self))
    have left : ∀ other ∈ gone, other ∈ first.items := by
      intro other isGone
      rw [step.mem_items, mem_singleton]
      refine ⟨members other (mem_cons_of_mem _ isGone), ?_⟩
      rintro rfl
      exact distinct.1 isGone
    obtain ⟨last, rest, steps⟩ := ih step.sound left distinct.2
    refine ⟨last, ?_, steps.sound, fun other => ?_, ?_⟩
    · rw [destroyAll, destroyed, bind_some, rest]
    · rw [steps.mem_items, step.mem_items, mem_singleton, mem_cons, not_or, and_assoc]
    · rw [steps.destroyed, step.destroyed, append_assoc]
      rfl

theorem Sound.updated (added : List Nat) :
    ∃ last, messages.updated added gone = some last ∧ Destroys messages gone last := by
  obtain ⟨last, destroyed, steps⟩ := sound.destroyAll members distinct
  unfold ScheduledMessages.updated
  rw [destroyed, map_some]
  refine ⟨_, rfl, ?_, ?_, steps.destroyed⟩
  · have sound := steps.sound
    unfold Sound at sound ⊢
    cases isList : last.list with
    | none => exact valid_empty _
    | some list =>
      rw [isList] at sound
      exact Valid.sort sound
  · intro item
    rw [← steps.mem_items]
    unfold items
    cases isList : last.list with
    | none => rfl
    | some list => exact mem_sort

end

section

variable (sound : Sound messages)
include sound

theorem Sound.nodup_items : messages.items.Nodup :=
  Nodup.of_map _ sound.distinct

theorem Sound.clearNotSending :
    ∃ last, messages.clearNotSending = some last ∧
      Destroys messages (messages.items.filter fun item => item.isSent) last := by
  have distinct := sound.nodup_items.filter fun item => item.isSent
  unfold ScheduledMessages.clearNotSending
  cases isList : messages.list with
  | none =>
    have noItems : messages.items = [] := by
      rw [items, isList]
      rfl
    exact ⟨messages, rfl, sound, by simp [noItems], by simp [noItems]⟩
  | some list =>
    have isItems : messages.items = list.items := by
      rw [items, isList]
      rfl
    dsimp only
    rw [← isItems, distinct.dedup]
    exact sound.updated (fun item member => mem_of_mem_filter member) distinct []

theorem Sound.parse_messages (now : Int) (message : Message) (rest : List Message) :
    ∃ last, messages.parse now (.messages (message :: rest)) = some last ∧ Sound last ∧
      ∃ gone, last.destroyed = messages.destroyed ++ gone ∧
        (∀ item ∈ gone, item ∈ messages.items ∧ item.isSending = false ∧
          ¬messages.IsReceived item (message :: rest)) ∧
        ∀ item ∈ messages.items, item.isSent = false →
          (item ∈ last.items ↔ item.isSending = true) := by
  have appended := Valid.appendAll (message :: rest) sound
  unfold parse
  dsimp only
  generalize (messages.list.getD {}).appendAll (message :: rest) messages.nextAddress = result
    at appended
  obtain ⟨list, received⟩ := result
  have distinct : (list.items.filter fun item =>
      !item.isSending && !received.contains item.address).Nodup :=
    (Nodup.of_map _ appended.valid.distinct).filter _
  rw [distinct.dedup]
  have answered : Sound { messages with
      request := some { requestId := 0, lastReceived := now }
      clearTimerIsActive := true
      list := some list
      nextAddress := messages.nextAddress + (message :: rest).length } := appended.valid
  obtain ⟨last, isLast, steps⟩ :=
    answered.updated (fun item member => mem_of_mem_filter member) distinct received
  refine ⟨last, isLast, steps.sound, _, steps.destroyed, ?_, ?_⟩
  · intro item isGone
    rw [mem_filter] at isGone
    obtain ⟨member, notSending⟩ := isGone
    simp only [Bool.and_eq_true, Bool.not_eq_true', contains_eq_mem,
      decide_eq_false_iff_not] at notSending
    obtain ⟨wasMember, absent⟩ := appended.absent item member notSending.2
    refine ⟨wasMember, notSending.1, fun isReceived => ?_⟩
    obtain ⟨other, among, isKnown⟩ := isReceived
    exact absent other among isKnown
  · intro item member unsent
    have kept := appended.kept item member unsent
    have notReceived : item.address ∉ received := by
      intro isReceived
      obtain ⟨found, foundMember, isAddress, sent⟩ := appended.sent _ isReceived
      obtain rfl := appended.valid.eq_of_address foundMember kept isAddress
      rw [unsent] at sent
      cases sent
    rw [steps.mem_items, mem_filter]
    simp [items, kept, notReceived]

theorem Sound.keepsUnsent_nothing (now : Int) {received : Messages} (nothing : received.list = []) :
    ParseKeepsUnsent messages now received := by
  cases received with
  | messagesNotModified =>
    exact ⟨_, rfl, ⟨[], (append_nil _).symm, by simp⟩, fun _ member _ => member⟩
  | messages list =>
    obtain rfl : list = [] := nothing
    have answered : Sound { messages with
        request := some { requestId := 0, lastReceived := now }
        clearTimerIsActive := true } := sound
    obtain ⟨last, isLast, steps⟩ := answered.clearNotSending
    refine ⟨last, isLast, ⟨_, steps.destroyed, ?_⟩, ?_⟩
    · intro item isGone
      rw [mem_filter] at isGone
      refine ⟨isGone.1, isGone.2, fun isReceived => ?_⟩
      obtain ⟨message, absent, -⟩ := isReceived
      cases absent
    · intro item member unsent
      rw [steps.mem_items, mem_filter]
      exact ⟨member, by simp [unsent]⟩

theorem Sound.keepsUnsent_something (now : Int) (message : Message) (rest : List Message) :
    ParseKeepsUnsent messages now (.messages (message :: rest)) ↔
      ∀ item ∈ messages.items, item.hasFailed = false := by
  obtain ⟨last, isLast, -, gone, destroyed, isGone, stays⟩ :=
    sound.parse_messages now message rest
  constructor
  · rintro ⟨next, isNext, keeps⟩ item member
    rw [isLast, some.injEq] at isNext
    subst isNext
    by_contra failed
    have unsent : item.isSent = false := by
      simpa [isSent] using fun _ => by simpa using failed
    have sending := (stays item member unsent).mp (keeps.survive item member unsent)
    exact failed (sound.once item member sending)
  · intro noneFailed
    refine ⟨last, isLast, ⟨gone, destroyed, fun item itemGone => ?_⟩, fun item member unsent => ?_⟩
    · obtain ⟨member, notSending, absent⟩ := isGone item itemGone
      refine ⟨member, ?_, absent⟩
      simp [isSent, notSending, noneFailed item member]
    · rw [stays item member unsent]
      simpa [isSent, noneFailed item member] using unsent

end

theorem Valid.push (valid : Valid list next) (isNew : item.address = next)
    (client : isClientMsgId item.id = true) (unsent : item.isSent = false)
    (once : item.isSending = true → item.hasFailed = false) :
    Valid { list with items := list.items ++ [item] } (next + 1) := by
  have old : ∀ other ∈ list.items, other.address ≠ next := fun other member =>
    ne_of_lt (valid.below other member)
  constructor
  · rw [map_append, nodup_append]
    refine ⟨valid.distinct, by simp, ?_⟩
    simpa [isNew] using old
  · intro other member
    rcases mem_append.mp member with before | new
    · exact Nat.lt_succ_of_lt (valid.below other before)
    · rw [mem_singleton.mp new, isNew]
      exact Nat.lt_succ_self next
  · intro other member sent
    rcases mem_append.mp member with before | new
    · exact valid.sent other before sent
    · rw [mem_singleton.mp new, unsent] at sent
      cases sent
  · intro other member otherUnsent
    rcases mem_append.mp member with before | new
    · exact valid.unsent other before otherUnsent
    · rwa [mem_singleton.mp new]
  · intro other member
    rcases mem_append.mp member with before | new
    · exact valid.once other before
    · rwa [mem_singleton.mp new]
  · intro id address known
    obtain ⟨other, member, rest⟩ := valid.known id address known
    exact ⟨other, mem_append_left _ member, rest⟩

theorem Valid.setRealId (valid : Valid list next) (member : item ∈ list.items)
    (sending : item.isSending = true) {id : Int32} (positive : 0 < id.toInt)
    (unknown : list.itemById id.toInt = none) :
    Valid { list.change item.address fun item =>
              { item with id := localMessageId id.toInt, isSending := false } with
            itemById := Function.update list.itemById id.toInt (some item.address) } next := by
  have notFailed := valid.once item member sending
  have unsent : item.isSent = false := by simp [isSent, sending]
  have others : ∀ other ∈ list.items, other.address = item.address → other = item :=
    fun other otherMember same => valid.eq_of_address otherMember member same
  constructor
  · refine Eq.mpr (congrArg List.Nodup (map_address_change ?_)) valid.distinct
    exact fun _ => rfl
  · intro found isFound
    obtain ⟨other, origin, ⟨-, rfl⟩ | ⟨-, rfl⟩⟩ := mem_change isFound
    · exact valid.below other origin
    · exact valid.below found origin
  · intro found isFound sent
    obtain ⟨other, origin, ⟨same, rfl⟩ | ⟨-, rfl⟩⟩ := mem_change isFound
    · obtain rfl := others other origin same
      exact ⟨id, positive, rfl, update_self _ _ _⟩
    · obtain ⟨known, knownPositive, isId, isKnown⟩ := valid.sent found origin sent
      refine ⟨known, knownPositive, isId, ?_⟩
      rw [← isKnown]
      apply update_of_ne
      intro same
      rw [same, unknown] at isKnown
      cases isKnown
  · intro found isFound foundUnsent
    obtain ⟨other, origin, ⟨same, rfl⟩ | ⟨-, rfl⟩⟩ := mem_change isFound
    · obtain rfl := others other origin same
      simp [isSent, notFailed] at foundUnsent
    · exact valid.unsent found origin foundUnsent
  · intro found isFound foundSending
    obtain ⟨other, origin, ⟨same, rfl⟩ | ⟨-, rfl⟩⟩ := mem_change isFound
    · cases foundSending
    · exact valid.once found origin foundSending
  · intro other address isKnown
    change update list.itemById id.toInt (some item.address) other =
      some address at isKnown
    by_cases same : other = id.toInt
    · subst same
      rw [update_self, some.injEq] at isKnown
      exact ⟨_, mem_change_self member, isKnown, by simp [isSent, notFailed], rfl⟩
    · rw [update_of_ne same] at isKnown
      obtain ⟨found, origin, isAddress, sent, isId⟩ := valid.known other address isKnown
      refine ⟨found, mem_change_of_ne origin ?_, isAddress, sent, isId⟩
      intro sameAddress
      rw [others found origin sameAddress, unsent] at sent
      cases sent

theorem Sound.valid (sound : Sound messages) (isList : messages.list = some list) :
    Valid list messages.nextAddress := by
  simpa [Sound, isList] using sound

theorem Sound.of_find {address : Nat}
    (found : (messages.list.bind (MessageList.find · address)) = some item) :
    ∃ list, messages.list = some list ∧ item ∈ list.items ∧ item ∈ messages.items := by
  obtain ⟨list, isList, found⟩ := bind_eq_some_iff.mp found
  refine ⟨list, isList, (mem_of_find found).1, ?_⟩
  rw [items, isList]
  exact (mem_of_find found).1

variable {last : ScheduledMessages}

section

variable (sound : Sound messages)
include sound

theorem Sound.destroy_sound (member : item ∈ messages.items)
    (taken : messages.destroy item = some last) : Sound last := by
  obtain ⟨other, destroyed, steps⟩ := sound.destroy member
  rw [destroyed, some.injEq] at taken
  exact taken ▸ steps.sound

theorem Sound.appendSending {id date : Int} (taken : messages.appendSending id date = some last) :
    Sound last := by
  unfold ScheduledMessages.appendSending at taken
  split at taken
  · cases taken
  next client =>
    cases taken
    exact (Valid.push sound rfl (by simpa using client) rfl fun _ => rfl).sort

theorem Sound.sendFailed (isList : messages.list = some list) (member : item ∈ list.items)
    (taken : messages.sendFailed item = some last) : Sound last := by
  have valid := sound.valid isList
  unfold ScheduledMessages.sendFailed at taken
  split at taken
  · cases taken
  next sending =>
    rw [not_or, Bool.not_eq_false] at sending
    cases taken
    rw [isList]
    apply valid.change
    refine ⟨fun _ => rfl, fun _ => rfl, fun other otherMember same => ?_, fun _ _ _ sending => ?_⟩
    · obtain rfl := valid.eq_of_address otherMember member same
      simp [isSent, sending.1]
    · cases sending

theorem Sound.applyMessageId (isList : messages.list = some list) (member : item ∈ list.items)
    {id : Int32} (taken : messages.applyMessageId id.toInt item = some last) : Sound last := by
  unfold ScheduledMessages.applyMessageId at taken
  rw [isList, bind_some] at taken
  split at taken
  · refine sound.destroy_sound ?_ taken
    rw [items, isList]
    exact member
  next unknown =>
    split at taken
    · cases taken
    next local' =>
      rw [not_or, not_isSome_iff_eq_none, Bool.not_eq_false] at unknown
      rw [not_or, not_or, Bool.not_eq_false] at local'
      cases taken
      have positive : 0 < id.toInt := by
        have isServer := unknown.2
        simp only [isServerMsgId, Bool.and_eq_true, decide_eq_true_eq] at isServer
        exact isServer.1
      exact (sound.valid isList).setRealId member local'.2.1 positive unknown.1

theorem Sound.applyNew (message : Message) : Sound (messages.applyNew message) := by
  unfold ScheduledMessages.applyNew
  split
  · exact (Valid.append sound message).valid.sort
  · exact sound

theorem Sound.deleteAll {ids : List Int32} (taken : deleteAll ids messages = some last) :
    Sound last := by
  induction ids generalizing messages with
  | nil =>
    cases taken
    exact sound
  | cons id ids ih =>
    unfold deleteAll at taken
    split at taken
    · cases taken
      exact sound
    next list isList =>
      split at taken
      · exact ih sound taken
      · obtain ⟨item, found, taken⟩ := bind_eq_some_iff.mp taken
        obtain ⟨next, destroyed, rest⟩ := bind_eq_some_iff.mp taken
        refine ih (sound.destroy_sound ?_ destroyed) rest
        rw [items, isList]
        exact (mem_of_find found).1

theorem Sound.parse {now : Int} {received : Messages}
    (taken : messages.parse now received = some last) : Sound last := by
  cases received with
  | messagesNotModified =>
    cases taken
    exact sound
  | messages list =>
    cases list with
    | nil =>
      have answered : Sound { messages with
          request := some { requestId := 0, lastReceived := now }
          clearTimerIsActive := true } := sound
      obtain ⟨other, cleared, steps⟩ := answered.clearNotSending
      have same := cleared.symm.trans taken
      rw [some.injEq] at same
      exact same ▸ steps.sound
    | cons message rest =>
      obtain ⟨other, parsed, otherSound, -⟩ := sound.parse_messages now message rest
      rw [parsed, some.injEq] at taken
      exact taken ▸ otherSound

/-- Every event that goes through leaves a sound list. -/
theorem Sound.step {event : Event} (taken : messages.step event = some last) : Sound last := by
  cases event with
  | appendSending id date => exact sound.appendSending taken
  | sendFailed address =>
    obtain ⟨item, found, taken⟩ := bind_eq_some_iff.mp taken
    obtain ⟨list, isList, member, -⟩ := Sound.of_find found
    exact sound.sendFailed isList member taken
  | applyMessageId id address =>
    obtain ⟨item, found, taken⟩ := bind_eq_some_iff.mp taken
    obtain ⟨list, isList, member, -⟩ := Sound.of_find found
    exact sound.applyMessageId isList member taken
  | applyNew message =>
    cases taken
    exact sound.applyNew message
  | applyDelete ids =>
    change messages.applyDelete ids = some last at taken
    unfold applyDelete at taken
    split at taken
    · cases taken
      exact sound
    · obtain ⟨next, deleted, rfl⟩ := map_eq_some_iff.mp taken
      have next := sound.deleteAll deleted
      exact next
  | destroy address =>
    obtain ⟨item, found, taken⟩ := bind_eq_some_iff.mp taken
    obtain ⟨list, -, -, member⟩ := Sound.of_find found
    exact sound.destroy_sound member taken
  | parse now received => exact sound.parse taken

end

theorem sound_of_run {events : List Event} (reached : run step {} events = some messages) :
    Sound messages :=
  run_invariant (fun _ _ _ sound taken => Sound.step sound taken)
    (show Sound {} from valid_empty 0) reached

/-- In every state that is reached, a reload keeps what was not sent if and only if it
receives nothing, or nothing has failed. -/
theorem parse_keepsUnsent_iff {events : List Event}
    (reached : run step {} events = some messages) (now : Int) (received : Messages) :
    ParseKeepsUnsent messages now received ↔
      received.list = [] ∨ ∀ item ∈ messages.items, item.hasFailed = false := by
  have sound := sound_of_run reached
  cases received with
  | messagesNotModified =>
    exact iff_of_true (sound.keepsUnsent_nothing now rfl) (Or.inl rfl)
  | messages list =>
    cases list with
    | nil => exact iff_of_true (sound.keepsUnsent_nothing now rfl) (Or.inl rfl)
    | cons message rest =>
      rw [sound.keepsUnsent_something now message rest]
      exact (or_iff_right (cons_ne_nil message rest)).symm

/-- One message is being sent, another one has failed, and a third one is received. -/
theorem parse_keepsUnsent_iff_nothing :
    ∃ messages, run step {} [.appendSending startClientMsgId 10,
        .appendSending (startClientMsgId + 1) 15, .sendFailed 0] = some messages ∧
      (ParseKeepsUnsent messages 0 (.messages [.message 7 true 20]) ↔
        (Messages.messages [.message 7 true 20]).list = [] ∨
          ∀ item ∈ messages.items, item.hasFailed = false) := by
  obtain ⟨messages, reached⟩ := isSome_iff_exists.mp (show (run step {}
    [.appendSending startClientMsgId 10, .appendSending (startClientMsgId + 1) 15,
      .sendFailed 0]).isSome = true by decide)
  exact ⟨messages, reached, parse_keepsUnsent_iff reached 0 (.messages [.message 7 true 20])⟩

/-- A message that has failed is destroyed when another one is received. -/
theorem not_keepsUnsent_failed :
    ¬∀ (events : List Event) (messages : ScheduledMessages) (now : Int) (received : Messages),
      run step {} events = some messages → ParseKeepsUnsent messages now received := by
  intro all
  have failed : ((run step {} [.appendSending startClientMsgId 10, .sendFailed 0]).map
      fun messages => messages.items.map hasFailed) = some [true] := by decide
  obtain ⟨messages, reached, isFailed⟩ := map_eq_some_iff.mp failed
  have sound := sound_of_run reached
  have keeps := all _ messages 0 (.messages [.message 7 true 20]) reached
  rw [sound.keepsUnsent_something] at keeps
  obtain ⟨item, isItems, hasFailed⟩ := map_eq_singleton_iff.mp isFailed
  rw [keeps item (by simp [isItems])] at hasFailed
  cases hasFailed

end TelegramDesktop.ScheduledMessages
