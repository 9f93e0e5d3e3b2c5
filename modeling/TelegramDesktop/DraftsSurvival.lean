import TelegramDesktop.Drafts

/-!
# Drafts after a restart

The writer leaves 64 bits of each message id and the reader takes 32.  So the first
draft is read with the halves of its id as message id and preview state, and each
later one from a place that is four bytes off.
-/

namespace TelegramDesktop.Drafts

open List FlatMap Option DataStream Account

variable {Tags : Type*}

theorem deserializePeerId_serialize (id : PeerId) :
    deserializePeerId (serializePeerId id) = id.value := by
  obtain ⟨value, unreserved⟩ := id
  have modern : ¬(value ||| reservedBit) &&& reservedBit = 0 := by
    intro legacy
    have bit := congrArg (fun bits : UInt64 => bits.toBitVec.getLsbD 55) legacy
    simp [reservedBit] at bit
  unfold deserializePeerId serializePeerId
  rw [if_pos (by simp [modern])]
  apply UInt64.toBitVec_inj.mp
  apply BitVec.eq_of_getLsbD_eq
  intro index inside
  have bits := congrArg (fun bits : UInt64 => bits.toBitVec.getLsbD index) unreserved
  simp only [UInt64.toBitVec_and, BitVec.getLsbD_and, UInt64.toBitVec_or, UInt64.toBitVec_not,
    BitVec.getLsbD_or, BitVec.getLsbD_not, inside] at bits ⊢
  cases bit : value.toBitVec[index] <;> simp_all [← BitVec.getLsbD_eq_getElem]

theorem readDraftRecords_eq (codec : TagsCodec Tags) (count : Nat) (map : HistoryDrafts Tags)
    (stream : DataStream) :
    readDraftRecords codec false count map stream =
      ((readTimes (readDraftRecord false) count stream).1.foldl
          (addRecord codec) map,
        (readTimes (readDraftRecord false) count stream).2) := by
  induction count generalizing map stream with
  | zero => rfl
  | succ count ih =>
    rw [readDraftRecords, readTimes]
    dsimp only
    rw [ih, foldl_cons]

variable {map : HistoryDrafts Tags} {codec : TagsCodec Tags}

theorem find?_foldl_addRecord {records : List DraftRecord} {key : DraftKey} :
    (records.foldl (addRecord codec) map).find? key =
      (map.find? key).or
        (if key.IsRead then
          (records.find? fun record => record.draftKey = key).map fun record => record.draft codec
        else none) := by
  induction records generalizing map with
  | nil => simp
  | cons record records ih =>
    rw [foldl_cons, ih, addRecord]
    by_cases same : record.draftKey = key
    · rw [find?_cons_of_pos (by simp [same])]
      by_cases read : key.IsRead
      · rw [if_pos (same ▸ read), find?_emplace, if_pos same.symm, same]
        cases map.find? key <;> simp [read]
      · rw [if_neg (same ▸ read), if_neg read, if_neg read]
    · rw [find?_cons_of_neg (by simp [same])]
      split
      · rw [find?_emplace, if_neg (Ne.symm same)]
      · rfl

theorem find?_setCursor {key other : DraftKey} {cursor : MessageCursor} :
    (setCursor key cursor map).find? other =
      if other = key then (map.find? other).map fun draft => { draft with cursor := cursor }
      else map.find? other := by
  unfold setCursor
  cases found : map.find? key with
  | none =>
    dsimp only
    split
    next same =>
      rw [same, found]
      rfl
    · rfl
  | some draft =>
    rw [find?_set]
    split
    next same =>
      rw [same, found]
      rfl
    · rfl

/-- The draft that is listed under a key. -/
def draftOf (drafts : List (DraftKey × Draft Tags)) (key : DraftKey) : Option (Draft Tags) :=
  (drafts.find? fun entry => entry.1 = key).map Prod.snd

/-- Each draft gets its cursor. -/
def setCursors (drafts : List (DraftKey × Draft Tags)) (map : HistoryDrafts Tags) :
    HistoryDrafts Tags :=
  drafts.foldl (fun map entry => Account.setCursor entry.1 entry.2.cursor map) map

theorem readCursor_write (entry : DraftKey × Draft Tags) (rest : Bytes) (ok : Bool) :
    readCursorKey multiDraftCursorsTag
        ⟨writeCursor entry ++ rest, ok⟩ =
      (entry.1, ⟨writeInt32 entry.2.cursor.position ++ (writeInt32 entry.2.cursor.anchor ++
        (writeInt32 entry.2.cursor.scroll ++ rest)), ok⟩) := by
  unfold readCursorKey writeCursor
  simp only [append_assoc, if_true, exact_int64.read_write]
  rfl

theorem readCursors_write (drafts : List (DraftKey × Draft Tags)) (map : HistoryDrafts Tags)
    (ok : Bool) :
    readCursors multiDraftCursorsTag drafts.length map
        ⟨drafts.flatMap writeCursor, ok⟩ = setCursors drafts map := by
  induction drafts generalizing map with
  | nil => rfl
  | cons entry drafts ih =>
    rw [length_cons, readCursors, flatMap_cons, readCursor_write]
    simp only [readCursor, exact_int32.read_write]
    rw [ih]
    rfl

variable {drafts : List (DraftKey × Draft Tags)}

theorem find?_setCursors
    (distinct : drafts.Pairwise fun first second => first.1 ≠ second.1) {key : DraftKey} :
    (setCursors drafts map).find? key =
      (map.find? key).map fun draft =>
        { draft with cursor := ((draftOf drafts key).map Draft.cursor).getD draft.cursor } := by
  induction drafts generalizing map with
  | nil =>
    rw [setCursors, foldl_nil]
    cases map.find? key <;> rfl
  | cons entry drafts ih =>
    rw [pairwise_cons] at distinct
    have rest := @ih (setCursor entry.1 entry.2.cursor map) distinct.2
    unfold setCursors at rest ⊢
    rw [foldl_cons, rest, find?_setCursor, draftOf, draftOf]
    by_cases same : key = entry.1
    · have others : drafts.find? (fun other => other.1 = key) = none := by
        rw [find?_eq_none]
        intro other member
        have different := distinct.1 other member
        simp only [decide_eq_true_eq, same]
        exact Ne.symm different
      rw [if_pos same, others, List.find?_cons_of_pos (by simp [same]), Option.map_map]
      rfl
    · rw [if_neg same, find?_cons_of_neg (by simp [Ne.symm same])]

/-- Both files of a peer hold exactly these drafts. -/
structure HasFiles (codec : TagsCodec Tags) (account : Account Tags) (peerId : PeerId)
    (drafts : List (DraftKey × Draft Tags)) : Prop where
  draftsFile : ∃ key, account.draftsMap.find? peerId = some key ∧
    account.files key = some ⟨Account.appVersion,
      Account.writeHeader Account.multiDraftTag peerId drafts.length ++
        drafts.flatMap (Account.writeDraft codec)⟩
  cursorsFile : ∃ key, account.draftCursorsMap.find? peerId = some key ∧
    account.files key = some ⟨Account.appVersion,
      Account.writeHeader Account.multiDraftCursorsTag peerId drafts.length ++
        drafts.flatMap Account.writeCursor⟩

section Files

variable {codec : TagsCodec Tags} {account : Account Tags} {peerId : PeerId}
  {drafts : List (DraftKey × Draft Tags)}

theorem count_few (nonempty : drafts ≠ []) (few : drafts.length ≤ 1000) (peerId : PeerId) :
    (UInt32.ofNat drafts.length).toNat = drafts.length ∧
      ¬(UInt32.ofNat drafts.length = 0 ∨ UInt32.ofNat drafts.length > 1000 ∨
        deserializePeerId (serializePeerId peerId) ≠ peerId.value) := by
  have positive := length_pos_iff.mpr nonempty
  obtain ⟨value, -⟩ := @size_small drafts.length (by omega)
  refine ⟨value, ?_⟩
  rintro (zero | above | other)
  · rw [zero] at value
    have none : (0 : UInt32).toNat = 0 := rfl
    omega
  · have more := UInt32.lt_iff_toNat_lt.mp above
    have limit : (1000 : UInt32).toNat = 1000 := rfl
    omega
  · exact other (deserializePeerId_serialize peerId)

theorem readDraftCursors_files (files : HasFiles codec account peerId drafts)
    (nonempty : drafts ≠ []) (few : drafts.length ≤ 1000) (map : HistoryDrafts Tags) :
    account.readDraftCursors peerId map = (account, setCursors drafts map) := by
  obtain ⟨key, found, file⟩ := files.cursorsFile
  obtain ⟨value, checks⟩ := count_few nonempty few peerId
  unfold readDraftCursors
  rw [found]
  dsimp only
  rw [file]
  simp only [writeHeader, append_assoc, exact_uint64.read_write, exact_uint32.read_write]
  rw [if_neg (by decide), if_neg checks, value, readCursors_write]

/-- What the reader makes of the written records. -/
def readRecords (codec : TagsCodec Tags) (drafts : List (DraftKey × Draft Tags)) :
    List Account.DraftRecord × DataStream :=
  readTimes (Account.readDraftRecord false) drafts.length
    { rest := drafts.flatMap (Account.writeDraft codec) }

/-- The drafts of records with the cursors that were written. -/
def ownDrafts (codec : TagsCodec Tags) (drafts : List (DraftKey × Draft Tags))
    (records : List Account.DraftRecord) : HistoryDrafts Tags :=
  setCursors drafts (records.foldl (Account.addRecord codec) ∅)

theorem readDrafts_files (files : HasFiles codec account peerId drafts)
    (notRead : account.draftsNotReadMap.contains peerId = true) (nonempty : drafts ≠ [])
    (few : drafts.length ≤ 1000) :
    (account.readDrafts codec peerId).2 =
      if (readRecords codec drafts).2.ok then
        some (ownDrafts codec drafts (readRecords codec drafts).1)
      else none := by
  obtain ⟨key, found, file⟩ := files.draftsFile
  obtain ⟨value, checks⟩ := count_few nonempty few peerId
  have kept : HasFiles codec
      { account with draftsNotReadMap := account.draftsNotReadMap.erase peerId } peerId drafts :=
    ⟨files.draftsFile, files.cursorsFile⟩
  have modern : decide (multiDraftTag = multiDraftTagOld) = false := by decide
  unfold readDrafts
  dsimp only
  rw [notRead, found]
  dsimp only
  rw [file]
  simp only [writeHeader, append_assoc, exact_uint64.read_write, exact_uint32.read_write]
  rw [if_neg (by decide), if_neg (by decide), if_neg checks, value, modern, readDraftRecords_eq]
  have all : readTimes (readDraftRecord false) drafts.length
      { rest := drafts.flatMap (writeDraft codec) } = readRecords codec drafts := rfl
  rw [all, readDraftCursors_files kept nonempty few]
  cases (readRecords codec drafts).2.ok <;> rfl

end Files

namespace Account

/-- No file has both drafts and cursors. -/
def Separate (account : Account Tags) : Prop :=
  ∀ peerId other key, account.draftsMap.find? peerId = some key →
    account.draftCursorsMap.find? other ≠ some key

/-- A generated key is new. -/
def Unused (account : Account Tags) (key : FileKey) : Prop :=
  ∀ peerId, account.draftsMap.find? peerId ≠ some key ∧
    account.draftCursorsMap.find? peerId ≠ some key

variable [DecidableEq Tags] {codec : TagsCodec Tags} {account : Account Tags}
  {supportMode : Bool} {generated : FileKey} {history : History Tags}

omit [DecidableEq Tags] in
theorem Separate.clearDrafts (separate : account.Separate) (peerId : PeerId) :
    (account.clearDrafts peerId).Separate := by
  unfold Account.clearDrafts
  split
  · exact separate
  · intro other third key found
    rw [find?_erase] at found
    split at found
    · cases found
    · exact separate other third key found

theorem Separate.writeDrafts (separate : account.Separate) (unused : account.Unused generated) :
    (account.writeDrafts codec supportMode generated history).Separate := by
  unfold Account.writeDrafts
  dsimp only
  split
  · exact separate.clearDrafts history.peer
  · intro peerId other key found cursors
    rw [find?_emplace] at found
    split at found
    · cases known : account.draftsMap.find? history.peer with
      | none =>
        rw [known] at found
        cases found
        exact (unused other).2 cursors
      | some old =>
        rw [known] at found
        cases found
        exact separate _ other old known cursors
    · exact separate peerId other key found cursors

theorem enumerated_writeDrafts :
    (account.writeDrafts codec supportMode generated history).enumerated supportMode history =
      account.enumerated supportMode history := by
  have sources : (account.writeDrafts codec supportMode generated history).draftSources =
      account.draftSources := by
    unfold writeDrafts clearDrafts
    dsimp only
    split
    · split <;> rfl
    · rfl
  unfold enumerated
  rw [sources]

theorem hasFiles_written {draftsKey cursorsKey : FileKey} (separate : account.Separate)
    (draftsUnused : account.Unused draftsKey)
    (cursorsUnused : (account.writeDrafts codec supportMode draftsKey history).Unused cursorsKey)
    (nonempty : account.enumerated supportMode history ≠ []) :
    HasFiles codec ((account.writeDrafts codec supportMode draftsKey history).writeDraftCursors
      supportMode cursorsKey history) history.peer (account.enumerated supportMode history) := by
  have between : (account.writeDrafts codec supportMode draftsKey history).Separate :=
    separate.writeDrafts draftsUnused
  have same := @enumerated_writeDrafts _ _ codec account supportMode draftsKey history
  have first : ∃ key,
      (account.writeDrafts codec supportMode draftsKey history).draftsMap.find? history.peer =
        some key ∧
      (account.writeDrafts codec supportMode draftsKey history).files key =
        some ⟨appVersion, writeHeader multiDraftTag history.peer
          (account.enumerated supportMode history).length ++
          (account.enumerated supportMode history).flatMap (writeDraft codec)⟩ := by
    refine ⟨(account.draftsMap.find? history.peer).getD draftsKey, ?_⟩
    unfold writeDrafts
    dsimp only
    rw [if_neg nonempty]
    constructor
    · rw [find?_emplace, if_pos rfl]
      cases account.draftsMap.find? history.peer <;> rfl
    · rw [writeEncrypted]
      exact if_pos rfl
  obtain ⟨key, found, file⟩ := first
  generalize account.writeDrafts codec supportMode draftsKey history = written at *
  rw [← same] at nonempty file ⊢
  unfold writeDraftCursors
  dsimp only
  rw [if_neg nonempty]
  refine ⟨⟨key, found, ?_⟩, ⟨(written.draftCursorsMap.find? history.peer).getD cursorsKey, ?_, ?_⟩⟩
  · have other : key ≠ (written.draftCursorsMap.find? history.peer).getD cursorsKey := by
      intro shared
      cases known : written.draftCursorsMap.find? history.peer with
      | none =>
        rw [known, getD_none] at shared
        exact (cursorsUnused history.peer).1 (shared ▸ found)
      | some old =>
        rw [known, getD_some] at shared
        exact between history.peer history.peer key found (shared ▸ known)
    rw [writeEncrypted]
    exact (if_neg other).trans file
  · rw [find?_emplace, if_pos rfl]
    cases written.draftCursorsMap.find? history.peer <;> rfl
  · rw [writeEncrypted]
    exact if_pos rfl

theorem written_empty {draftsKey cursorsKey : FileKey}
    (empty : account.enumerated supportMode history = []) :
    ((account.writeDrafts codec supportMode draftsKey history).writeDraftCursors supportMode
      cursorsKey history).draftsMap.contains history.peer = false := by
  have first : (account.writeDrafts codec supportMode draftsKey history).draftsMap.contains
      history.peer = false := by
    unfold writeDrafts clearDrafts
    dsimp only
    rw [if_pos empty]
    split
    next missing =>
      rw [FlatMap.contains, missing]
      rfl
    · rw [FlatMap.contains, FlatMap.find?_erase, if_pos rfl]
      rfl
  rw [← @enumerated_writeDrafts _ _ codec account supportMode draftsKey history] at empty
  unfold writeDraftCursors clearDraftCursors
  rw [if_pos empty]
  split
  · exact first
  · exact first

omit [DecidableEq Tags] in
theorem contains_start {peerId : PeerId} :
    account.start.draftsNotReadMap.contains peerId = account.draftsMap.contains peerId := by
  rw [Bool.eq_iff_iff, start, contains_emplaceAll]
  rw [@FlatMap.contains_iff _ _ _ account.draftsMap]
  constructor
  · rintro (none | ⟨entry, member, same⟩)
    · exact absurd none (by rw [contains_empty]; exact Bool.false_ne_true)
    · obtain ⟨source, sourceMember, rfl⟩ := mem_map.mp member
      exact ⟨source, sourceMember, same⟩
  · rintro ⟨entry, member, same⟩
    exact .inr ⟨(entry.1, true), mem_map.mpr ⟨entry, member, rfl⟩, same⟩

end Account

/-- What of a draft is compared after a restart. -/
def Draft.saved (draft : Draft Tags) :
    List UInt16 × Tags × Int64 × PreviewState × MessageCursor :=
  (draft.textWithTags.text.units, draft.textWithTags.tags, draft.msgId, draft.previewState,
    draft.cursor)

/-- The drafts of a history are exactly those that were enumerated. -/
def Restores (drafts : List (DraftKey × Draft Tags)) (map : HistoryDrafts Tags) : Prop :=
  ∀ key, (map.find? key).map Draft.saved = (draftOf drafts key).map Draft.saved

/-- The map with a draft of the old place. -/
def taking (left : Option (Draft Tags)) (map : HistoryDrafts Tags) : HistoryDrafts Tags :=
  match left with
  | none => map
  | some draft => if map.contains .Local then map else map.set .Local draft

/-- The history after the drafts are read by an application that was started again. -/
def restored (codec : TagsCodec Tags) (account : Account Tags) (peerId : PeerId)
    (migrateFrom : Option PeerId) : History Tags :=
  (account.start.readDraftsWithCursors codec { peer := peerId }
    (migrateFrom.map fun source => { peer := source })).2.1

/-- The local draft that the history it migrated from leaves to a history. -/
def leftDraft (codec : TagsCodec Tags) (account : Account Tags) (peerId : PeerId)
    (migrateFrom : Option PeerId) : Option (Draft Tags) :=
  migrateFrom.bind fun source =>
    (({ peer := source } : History Tags).readOwnDrafts codec
      (account.start.readDrafts codec peerId).1).2.clearLocalEditDraft.takenDraft

theorem takeLocalDraft_drafts (history source : History Tags) :
    (history.takeLocalDraft source).1.drafts = taking source.takenDraft history.drafts := by
  unfold History.takeLocalDraft History.takenDraft taking
  cases source.drafts.find? .Local with
  | none => rfl
  | some draft =>
    dsimp only
    cases draft.textWithTags.text.isEmpty with
    | true => rfl
    | false =>
      cases known : history.drafts.contains .Local with
      | true => simp
      | false => simp

theorem restored_drafts (codec : TagsCodec Tags) (account : Account Tags) (peerId : PeerId)
    (migrateFrom : Option PeerId) :
    (restored codec account peerId migrateFrom).drafts =
      taking (leftDraft codec account peerId migrateFrom)
        ((account.start.readDrafts codec peerId).2.getD ∅) := by
  have own : (({ peer := peerId } : History Tags).readOwnDrafts codec account.start).1 =
      (account.start.readDrafts codec peerId).1 ∧
      (({ peer := peerId } : History Tags).readOwnDrafts codec account.start).2.drafts =
        (account.start.readDrafts codec peerId).2.getD ∅ := by
    unfold History.readOwnDrafts
    dsimp only
    cases (account.start.readDrafts codec peerId).2 with
    | none => exact ⟨rfl, rfl⟩
    | some map => exact ⟨rfl, rfl⟩
  unfold restored leftDraft readDraftsWithCursors
  cases migrateFrom with
  | none => exact own.2
  | some source =>
    dsimp only [map_some, bind_some]
    rw [takeLocalDraft_drafts, own.1, own.2]

theorem find?_ownDrafts {records : List DraftRecord}
    (distinct : drafts.Pairwise fun first second => first.1 ≠ second.1) {key : DraftKey} :
    (ownDrafts codec drafts records).find? key =
      (if key.IsRead then
        (records.find? fun record => record.draftKey = key).map fun record => record.draft codec
      else none).map fun draft =>
        { draft with cursor := ((draftOf drafts key).map Draft.cursor).getD draft.cursor } := by
  rw [ownDrafts, find?_setCursors distinct, find?_foldl_addRecord]
  rfl

variable {left : Option (Draft Tags)}

theorem find?_taking {key : DraftKey} :
    (taking left map).find? key =
      if key = .Local then (map.find? key).or left else map.find? key := by
  unfold taking
  cases left with
  | none => simp
  | some draft =>
    dsimp only
    cases known : map.find? .Local with
    | none =>
      rw [if_neg (by rw [FlatMap.contains, known]; exact Bool.false_ne_true), FlatMap.find?_set]
      split
      next same =>
        rw [same, known]
        rfl
      · rfl
    | some own =>
      rw [if_pos (by rw [FlatMap.contains, known]; rfl)]
      split
      next same =>
        rw [same, known]
        rfl
      · rfl

/-- The record a draft is read as when it is the first one. -/
def recordOf (codec : TagsCodec Tags) (entry : DraftKey × Draft Tags) : Account.DraftRecord where
  key := entry.1.serialize
  text := entry.2.textWithTags.text
  tagsSerialized := codec.serializeTags entry.2.textWithTags.tags
  messageId := upper entry.2.msgId
  uncheckedPreviewState := lower entry.2.msgId

theorem readRecords_single (codec : TagsCodec Tags) (entry : DraftKey × Draft Tags) :
    (readRecords codec [entry]).1 = [recordOf codec entry] ∧
      (readRecords codec [entry]).2.ok = true := by
  have read : readDraftRecord false { rest := writeDraft codec entry } =
      (recordOf codec entry, { rest := writeInt32 entry.2.previewState.toInt32 }) := by
    simp only [readDraftRecord, readKey, recordOf, writeDraft, writeInt64_halves entry.2.msgId,
      append_assoc, Bool.false_eq_true, if_false, exact_int64.read_write, exact_qString.read_write,
      exact_qByteArray.read_write, exact_int32.read_write]
  have all : [entry].flatMap (writeDraft codec) = writeDraft codec entry := flatMap_singleton _ _
  simp only [readRecords, all, length_singleton, readTimes, read, and_self]

/-- A draft as it is read back. -/
def storedOf (codec : TagsCodec Tags) (entry : DraftKey × Draft Tags) : Draft Tags :=
  { (recordOf codec entry).draft codec with cursor := entry.2.cursor }

variable {entry : DraftKey × Draft Tags}

theorem saved_storedOf
    (accepted : codec.deserializeTags (codec.serializeTags entry.2.textWithTags.tags)
      entry.2.textWithTags.text.units.length = entry.2.textWithTags.tags) :
    (storedOf codec entry).saved = entry.2.saved ↔
      (entry.2.msgId = 0 ∨ entry.2.msgId = -1) ∧ entry.2.previewState = .Allowed := by
  have signs : PreviewState.ofUnchecked (lower 0) = .Allowed ∧
      PreviewState.ofUnchecked (lower (-1)) = .Allowed := by decide
  unfold Draft.saved storedOf
  simp only [DraftRecord.draft, recordOf, accepted, Prod.mk.injEq, true_and, and_true,
    toInt64_upper]
  constructor
  · rintro ⟨id, state⟩
    refine ⟨id, ?_⟩
    rcases id with zero | minusOne
    · rw [zero, signs.1] at state
      exact state.symm
    · rw [minusOne, signs.2] at state
      exact state.symm
  · rintro ⟨id, state⟩
    refine ⟨id, ?_⟩
    rcases id with zero | minusOne
    · rw [zero, signs.1, state]
    · rw [minusOne, signs.2, state]

theorem draftOf_single (entry : DraftKey × Draft Tags) (key : DraftKey) :
    draftOf [entry] key = if entry.1 = key then some entry.2 else none := by
  unfold draftOf
  by_cases same : entry.1 = key
  · rw [find?_cons_of_pos (by simp [same]), if_pos same]
    rfl
  · rw [find?_cons_of_neg (by simp [same]), if_neg same]
    rfl

theorem find?_ownDrafts_single {key : DraftKey} :
    (ownDrafts codec [entry] [recordOf codec entry]).find? key =
      if entry.1 = key ∧ key.IsRead then some (storedOf codec entry) else none := by
  have recordKey : (recordOf codec entry).draftKey = entry.1 := rfl
  rw [find?_ownDrafts (pairwise_singleton _ _), draftOf_single]
  by_cases same : entry.1 = key
  · subst same
    rw [find?_cons_of_pos (by simp [recordKey]), if_pos rfl]
    by_cases read : entry.1.IsRead
    · rw [if_pos read, if_pos ⟨rfl, read⟩]
      rfl
    · rw [if_neg read, if_neg fun both : _ ∧ _ => read both.2]
      rfl
  · rw [find?_cons_of_neg (by simp [recordKey, same]), find?_nil, map_none,
      ite_self, map_none, if_neg fun both : _ ∧ _ => same both.1]

/-- The drafts that the reader does not spoil: at most one, in a thread that is read,
with the same halves of its message id as those of zero, or of minus one, and the default
preview state.  The history it migrated from leaves no local draft beside it. -/
def Survive (drafts : List (DraftKey × Draft Tags)) (left : Option (Draft Tags)) : Prop :=
  match drafts with
  | [] => left = none
  | [(key, draft)] =>
    key.IsRead ∧ (draft.msgId = 0 ∨ draft.msgId = -1) ∧ draft.previewState = .Allowed ∧
      (left = none ∨ key = .Local)
  | _ => False

theorem restores_empty :
    Restores [] (taking left (∅ : HistoryDrafts Tags)) ↔ left = none := by
  constructor
  · intro restores
    have localDraft := restores .Local
    rw [find?_taking, if_pos rfl] at localDraft
    cases left with
    | none => rfl
    | some draft => cases localDraft
  · rintro rfl key
    rfl

theorem restores_single
    (accepted : codec.deserializeTags (codec.serializeTags entry.2.textWithTags.tags)
      entry.2.textWithTags.text.units.length = entry.2.textWithTags.tags) :
    Restores [entry] (taking left (ownDrafts codec [entry] [recordOf codec entry])) ↔
      Survive [entry] left := by
  have saved := saved_storedOf accepted
  constructor
  · intro restores
    have here := restores entry.1
    have own := @find?_ownDrafts_single _ codec entry entry.1
    rw [find?_taking, draftOf_single, if_pos rfl, own] at here
    have read : entry.1.IsRead := by
      by_contra unread
      have other : entry.1 ≠ .Local := by
        intro isLocal
        rw [isLocal] at unread
        exact unread (by decide)
      rw [if_neg other, if_neg fun both : _ ∧ _ => unread both.2] at here
      cases here
    have stored : (storedOf codec entry).saved = entry.2.saved := by
      simp only [read, and_self, if_true] at here
      split at here <;> exact some_inj.mp here
    obtain ⟨id, state⟩ := saved.mp stored
    refine ⟨read, id, state, ?_⟩
    by_contra taken
    rw [not_or] at taken
    have localDraft := restores .Local
    rw [find?_taking, if_pos rfl, find?_ownDrafts_single, draftOf_single,
      if_neg fun both : _ ∧ _ => taken.2 both.1, if_neg taken.2] at localDraft
    cases left with
    | none => exact taken.1 rfl
    | some draft => cases localDraft
  · rintro ⟨read, id, state, free⟩ key
    have stored := saved.mpr ⟨id, state⟩
    rw [find?_taking, find?_ownDrafts_single, draftOf_single]
    by_cases same : entry.1 = key
    · subst same
      have own : (if entry.1 = entry.1 ∧ entry.1.IsRead then some (storedOf codec entry)
          else none) = some (storedOf codec entry) := if_pos ⟨rfl, read⟩
      rw [own, if_pos rfl]
      split <;> exact congrArg some stored
    · rw [if_neg fun both : _ ∧ _ => same both.1, if_neg same]
      split
      next isLocal =>
        rcases free with none | keyLocal
        · rw [none]
          rfl
        · exact absurd (keyLocal.trans isLocal.symm) same
      · rfl

/-- Drafts that the reader does not spoil are restored, and no others where at most one
draft was written. -/
theorem restored_of_survive [DecidableEq Tags] (codec : TagsCodec Tags) (account : Account Tags)
    (supportMode : Bool) (history : History Tags) (migrateFrom : Option PeerId)
    (draftsKey cursorsKey : FileKey) (separate : account.Separate)
    (draftsUnused : account.Unused draftsKey)
    (cursorsUnused : (account.writeDrafts codec supportMode draftsKey history).Unused cursorsKey)
    (accepted : ∀ entry ∈ account.enumerated supportMode history,
      codec.deserializeTags (codec.serializeTags entry.2.textWithTags.tags)
        entry.2.textWithTags.text.units.length = entry.2.textWithTags.tags) :
    let written := (account.writeDrafts codec supportMode draftsKey history).writeDraftCursors
      supportMode cursorsKey history
    let drafts := account.enumerated supportMode history
    (Survive drafts (leftDraft codec written history.peer migrateFrom) →
      Restores drafts (restored codec written history.peer migrateFrom).drafts) ∧
    (drafts.length ≤ 1 →
      Restores drafts (restored codec written history.peer migrateFrom).drafts →
        Survive drafts (leftDraft codec written history.peer migrateFrom)) := by
  intro written drafts
  rw [restored_drafts]
  generalize leftDraft codec written history.peer migrateFrom = left
  by_cases nonempty : account.enumerated supportMode history = []
  · have missing : written.start.draftsNotReadMap.contains history.peer = false :=
      contains_start.trans (written_empty nonempty)
    have unread : (written.start.readDrafts codec history.peer).2 = none := by
      unfold readDrafts
      rw [missing]
      rfl
    have none : drafts = [] := nonempty
    rw [unread, none]
    exact ⟨restores_empty.mpr, fun _ => restores_empty.mp⟩
  · have files : HasFiles codec written history.peer drafts :=
      hasFiles_written separate draftsUnused cursorsUnused nonempty
    have started : HasFiles codec written.start history.peer drafts :=
      ⟨files.draftsFile, files.cursorsFile⟩
    obtain ⟨key, found, -⟩ := files.draftsFile
    have notRead : written.start.draftsNotReadMap.contains history.peer = true := by
      rw [contains_start, FlatMap.contains, found]
      rfl
    have reads := readDrafts_files started notRead nonempty
    clear files started
    change drafts ≠ [] at nonempty
    change ∀ entry ∈ drafts, _ at accepted
    clear_value drafts
    rcases drafts with - | ⟨first, - | ⟨second, rest⟩⟩
    · exact absurd rfl nonempty
    · obtain ⟨records, readOk⟩ := readRecords_single codec first
      rw [reads (by simp), readOk, records]
      have single := @restores_single _ codec left first (accepted first (by simp))
      exact ⟨single.mpr, fun _ => single.mp⟩
    · exact ⟨False.elim, fun several => absurd several (by simp)⟩

/-- A codec without tags. -/
def noTags : TagsCodec Unit where
  serializeTags _ := .null
  deserializeTags _ _ := ()

/-- The local draft `a` in reply to a message. -/
def replyHistory (msgId : Int64) : History Unit where
  peer := { value := 1 }
  drafts := (∅ : HistoryDrafts Unit).emplace .Local {
    textWithTags := ⟨{ units := [97], small := by decide }, ()⟩
    msgId := msgId
    cursor := { position := 1, anchor := 1 }
    previewState := .Allowed }

theorem restored_of_survive_plain :
    Restores (({} : Account Unit).enumerated false (replyHistory 0))
      (restored noTags ((({} : Account Unit).writeDrafts noTags false 1
        (replyHistory 0)).writeDraftCursors false 2 (replyHistory 0))
        { value := 1 } none).drafts := by
  have drafts : ({} : Account Unit).enumerated false (replyHistory 0) =
      (replyHistory 0).drafts.entries := rfl
  have separate : ({} : Account Unit).Separate := fun _ _ _ found => by cases found
  have unused : ({} : Account Unit).Unused 1 := fun _ => ⟨nofun, nofun⟩
  have next : (({} : Account Unit).writeDrafts noTags false 1 (replyHistory 0)).Unused 2 := by
    intro peerId
    have keys : (({} : Account Unit).writeDrafts noTags false 1 (replyHistory 0)).draftsMap =
        (∅ : FlatMap PeerId FileKey).emplace { value := 1 } 1 := rfl
    rw [keys, find?_emplace]
    refine ⟨?_, nofun⟩
    split
    · exact fun same => absurd (some_inj.mp same) (by decide)
    · nofun
  refine (restored_of_survive noTags {} false (replyHistory 0) none 1 2 separate unused next
    fun _ _ => rfl).1 ?_
  rw [drafts]
  exact ⟨by decide, .inl rfl, rfl, .inl rfl⟩

/-- A draft that replies to a message comes back without it. -/
theorem reply_loses_message :
    ¬Restores (({} : Account Unit).enumerated false (replyHistory 5))
      (restored noTags ((({} : Account Unit).writeDrafts noTags false 1
        (replyHistory 5)).writeDraftCursors false 2 (replyHistory 5))
        { value := 1 } none).drafts := by
  intro restores
  have here := restores .Local
  revert here
  decide +kernel

end TelegramDesktop.Drafts
