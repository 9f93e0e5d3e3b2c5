import TelegramDesktop.ImageLocationRoundTrip
import TelegramDesktop.StickerSets

/-!
# Reading the files of sticker sets

A record of a set that is loaded is read up to its end, unless its thumbnail is a legacy
one.
-/

namespace TelegramDesktop

open DataStream List Option Int32

namespace StickersSet

variable {codec : TextCodec} {δ : Type*} {documents : StickerDocuments δ} {streamAppVersion : Nat}

section

variable {size : Nat} (small : size < 2 ^ 31)
include small

theorem toInt_ofNat : (ofNat size).toInt = size :=
  toInt_size small

theorem toNatClampNeg_ofNat : (ofNat size).toNatClampNeg = size := by
  rw [toNatClampNeg, toInt_ofNat small, Int.toNat_natCast]

theorem not_ofNat_neg : ¬ofNat size < 0 := by
  rw [lt_iff_toInt_lt, toInt_ofNat small, toInt_zero]
  omega

theorem ofNat_pos (positive : 0 < size) : ofNat size > 0 := by
  rw [gt_iff_lt, lt_iff_toInt_lt, toInt_ofNat small, toInt_zero]
  omega

end

theorem readInt32_size (size : Nat) (rest : Bytes) (ok : Bool) :
    readInt32 ⟨writeSize size ++ rest, ok⟩ = (ofNat size, ⟨rest, ok⟩) :=
  readInt32_writeSize size rest ok

theorem readDates_write (set : StickersSet codec δ) (asserted : set.datesAsserted = true)
    (rest : Bytes) :
    readDates (ofNat set.stickers.length) ⟨set.writeDates ++ rest, true⟩ =
      some (set.dates, ⟨rest, true⟩) := by
  unfold readDates writeDates
  rw [append_assoc, readInt32_size]
  dsimp only
  cases isDates : set.dates with
  | nil =>
    rw [length_nil, if_neg (by decide)]
    rfl
  | cons date dates =>
    rw [datesAsserted, isDates, isEmpty_cons, Bool.false_or, decide_eq_true_eq] at asserted
    have small : (date :: dates).length < 2 ^ 31 := asserted ▸ set.stickers_small
    rw [if_pos (ofNat_pos small (by simp)), asserted, if_neg (by simp), ← asserted,
      toNatClampNeg_ofNat small, readTimes_write exact_int32]

theorem readPack_write (pack : QString × List δ) (small : pack.2.length < 2 ^ 31) (rest : Bytes) :
    readPack ⟨writePack documents pack ++ rest, true⟩ =
      ((pack.1, pack.2.map documents.id), ⟨rest, true⟩) := by
  have ids : (pack.2.flatMap fun sticker => writeUInt64 (documents.id sticker)) =
      (pack.2.map documents.id).flatMap writeUInt64 := by
    rw [flatMap_map]
  have times := readTimes_write exact_uint64 (pack.2.map documents.id) rest true
  rw [length_map] at times
  unfold readPack writePack
  rw [ids]
  simp only [append_assoc, exact_qString.read_write, readInt32_size,
    toNatClampNeg_ofNat small, times]

theorem readPacks_write {packs : List (QString × List δ)}
    (small : ∀ pack ∈ packs, pack.2.length < 2 ^ 31) (rest : Bytes) :
    readTimes readPack packs.length ⟨packs.flatMap (writePack documents) ++ rest, true⟩ =
      (packs.map fun pack => (pack.1, pack.2.map documents.id), ⟨rest, true⟩) := by
  induction packs with
  | nil => rfl
  | cons pack packs ih =>
    rw [forall_mem_cons] at small
    rw [length_cons, readTimes, flatMap_cons, append_assoc, readPack_write pack small.1, ih small.2]
    rfl

theorem readEmoji_write (set : StickersSet codec δ) (rest : Bytes) :
    readEmoji ⟨set.writeEmoji documents ++ rest, true⟩ =
      some (set.emoji.map fun pack => (pack.1, pack.2.map documents.id), ⟨rest, true⟩) := by
  unfold readEmoji writeEmoji
  rw [append_assoc, readInt32_size]
  simp only [Bool.not_true, Bool.false_or, decide_eq_true_eq,
    if_neg (not_ofNat_neg set.emoji_small), toNatClampNeg_ofNat set.emoji_small,
    readPacks_write set.packs_small]

theorem readStickers_write (back : documents.ReadBack) (info : StickerSetInfo)
    (stickers : List δ) (rest : Bytes) :
    ∃ read, readStickers documents info stickers.length
      ⟨stickers.flatMap documents.writeToStream ++ rest, true⟩ = some (read, ⟨rest, true⟩) := by
  induction stickers with
  | nil => exact ⟨[], rfl⟩
  | cons sticker stickers ih =>
    obtain ⟨read, isRead⟩ := ih
    have first := back sticker info (stickers.flatMap documents.writeToStream ++ rest)
    rw [length_cons, flatMap_cons, append_assoc, readStickers]
    simp only [first, if_true, isRead, map_some]
    exact ⟨_, rfl⟩

def hasLegacyThumbnail (set : StickersSet codec δ) : Bool :=
  set.thumbnailLocation.file.valid && isLegacy set.thumbnailLocation

theorem legacy_received (location : ImageLocation) :
    ((location.received codec).file.valid && isLegacy (location.received codec)) =
      (location.file.valid && isLegacy location) := by
  obtain ⟨file, width, height⟩ := location
  cases file with
  | plainUrl url => simp [isLegacy, ImageLocation.received, DownloadLocation.received]
  | storage | web | geoPoint | audioAlbumThumb | inMemory => rfl

theorem readInfo_write (streamAppVersion : Nat) (set : StickersSet codec δ) (count : Int32) :
    ∃ bytes, set.writeInfo count = some bytes ∧ bytes ≠ [] ∧ ∀ rest,
      (set.hasLegacyThumbnail = true →
        readInfo (δ := δ) codec streamAppVersion kStickersSerializeVersion ⟨bytes ++ rest, true⟩ =
          none) ∧
      (set.hasLegacyThumbnail = false → ∃ read : ReadSet δ, read.scnt = count ∧
        readInfo codec streamAppVersion kStickersSerializeVersion ⟨bytes ++ rest, true⟩ =
          some (read, ⟨rest, true⟩)) := by
  obtain ⟨thumbnail, written, isRead⟩ :=
    ImageLocation.readImageLocation_write set.thumbnail_known set.thumbnail_small
  have version : kStickersSerializeVersion > 2 := by decide
  refine ⟨_, by rw [writeInfo, written]; rfl, ?_, fun rest => ?_⟩
  · exact append_ne_nil_of_left_ne_nil (ne_nil_of_length_pos (by simp)) _
  · unfold readInfo
    simp only [append_assoc, exact_uint64.read_write, exact_qString.read_write,
      readInt32_write, if_pos version, isRead, Bool.not_true, Bool.false_or, legacy_received]
    constructor
    · intro legacy
      exact if_pos legacy
    · intro modern
      exact ⟨_, rfl, if_neg (Bool.eq_false_iff.mp modern)⟩

theorem readStickerSet_write (streamAppVersion : Nat) (back : documents.ReadBack)
    {set : StickersSet codec δ} (loaded : set.has .notLoaded = false) {record : Bytes}
    (written : set.writeStickerSet documents = some record) (nonempty : record ≠ [])
    (rest : Bytes) :
    (set.hasLegacyThumbnail = true →
      readStickerSet codec documents streamAppVersion kStickersSerializeVersion
        ⟨record ++ rest, true⟩ = none) ∧
    (set.hasLegacyThumbnail = false → ∃ read,
      readStickerSet codec documents streamAppVersion kStickersSerializeVersion
        ⟨record ++ rest, true⟩ = some (read, ⟨rest, true⟩)) := by
  obtain ⟨info, isInfo, -, readInfo⟩ := readInfo_write streamAppVersion set
    (ofNat set.stickers.length)
  rw [writeStickerSet, loaded, if_neg Bool.false_ne_true] at written
  split at written
  · cases written
    exact absurd rfl nonempty
  · split at written
    · cases written
    next asserted =>
      rw [Bool.not_eq_true', Bool.not_eq_false] at asserted
      rw [isInfo] at written
      cases written
      simp only [append_assoc]
      obtain ⟨legacy, modern⟩ := readInfo (set.stickers.flatMap documents.writeToStream ++
        (set.writeDates ++ (set.writeEmoji documents ++ rest)))
      constructor
      · intro isLegacy
        rw [readStickerSet, legacy isLegacy]
        rfl
      · intro isModern
        obtain ⟨read, scnt, isRead⟩ := modern isModern
        obtain ⟨stickers, isStickers⟩ := readStickers_write back
          ⟨read.id, read.accessHash, read.shortName⟩ set.stickers
          (set.writeDates ++ (set.writeEmoji documents ++ rest))
        rw [readStickerSet, isRead]
        simp only [bind_some, scnt, if_neg (not_ofNat_neg set.stickers_small),
          toNatClampNeg_ofNat set.stickers_small, isStickers, readDates_write set asserted,
          readEmoji_write set, map_some]
        exact ⟨_, rfl⟩

theorem writeStickerSet_ne_nil {set : StickersSet codec δ} {record : Bytes}
    (stickers : set.stickers.isEmpty = false)
    (written : set.writeStickerSet documents = some record) : record ≠ [] := by
  unfold writeStickerSet at written
  split at written
  · obtain ⟨info, isInfo, nonempty, -⟩ := readInfo_write 0 set (-set.count)
    rw [isInfo] at written
    cases written
    exact nonempty
  · rw [stickers, if_neg Bool.false_ne_true] at written
    split at written
    · cases written
    · obtain ⟨info, isInfo, nonempty, -⟩ := readInfo_write 0 set (ofNat set.stickers.length)
      rw [isInfo] at written
      cases written
      exact append_ne_nil_of_left_ne_nil nonempty _

section Files

variable {checkSet : StickersSet codec δ → StickerSetCheckResult}
  {sets : List (StickersSet codec δ)}

/-- The sets that the check lets through. -/
def passed (checkSet : StickersSet codec δ → StickerSetCheckResult)
    (sets : List (StickersSet codec δ)) : List (StickersSet codec δ) :=
  sets.filter fun set => checkSet set = .write

theorem countSets_eq {setsCount : Nat} (counted : countSets checkSet sets = some setsCount) :
    setsCount = ((passed checkSet sets).filter fun set => !set.has .notLoaded).length := by
  induction sets generalizing setsCount with
  | nil =>
    cases counted
    rfl
  | cons set sets ih =>
    rw [countSets] at counted
    cases isChecked : checkSet set with
    | abort =>
      rw [isChecked] at counted
      cases counted
    | skip =>
      rw [isChecked] at counted
      rw [ih counted, passed, passed, filter_cons_of_neg (by simp [isChecked])]
    | write =>
      rw [isChecked] at counted
      have goes : passed checkSet (set :: sets) = set :: passed checkSet sets :=
        filter_cons_of_pos (by simp [isChecked])
      rw [goes]
      dsimp only at counted
      split at counted
      next notLoaded =>
        rw [filter_cons_of_neg (by simp [notLoaded])]
        exact ih counted
      next loaded =>
        split at counted
        · cases counted
        · obtain ⟨others, countedOthers, rfl⟩ := map_eq_some_iff.mp counted
          rw [filter_cons_of_pos (by simp [loaded]), length_cons, ← ih countedOthers]

variable {records : List Bytes}

theorem writeSets_eq (written : writeSets documents checkSet sets = some records) :
    Forall₂ (fun set record => set.writeStickerSet documents = some record)
      (passed checkSet sets) records := by
  induction sets generalizing records with
  | nil =>
    cases written
    exact Forall₂.nil
  | cons set sets ih =>
    rw [writeSets] at written
    cases isChecked : checkSet set with
    | abort =>
      rw [isChecked] at written
      cases written
    | skip =>
      rw [isChecked] at written
      rw [passed, filter_cons_of_neg (by simp [isChecked])]
      exact ih written
    | write =>
      rw [isChecked] at written
      obtain ⟨record, isRecord, rest⟩ := bind_eq_some_iff.mp written
      obtain ⟨others, writtenOthers, rfl⟩ := map_eq_some_iff.mp rest
      rw [passed, filter_cons_of_pos (by simp [isChecked])]
      exact Forall₂.cons isRecord (ih writtenOthers)

theorem records_ne_nil
    (written : Forall₂ (fun set record => set.writeStickerSet documents = some record)
      sets records)
    (stickers : ∀ set ∈ sets, set.stickers.isEmpty = false) : ∀ record ∈ records, record ≠ [] := by
  induction written with
  | nil => simp
  | cons isRecord _ ih =>
    rw [forall_mem_cons] at stickers
    rw [forall_mem_cons]
    exact ⟨writeStickerSet_ne_nil stickers.1 isRecord, ih stickers.2⟩

/-- The records of sets that are loaded are read up to their end, unless a thumbnail is a legacy
one. -/
theorem readSets_write (streamAppVersion : Nat) (back : documents.ReadBack)
    (written : Forall₂ (fun set record => set.writeStickerSet documents = some record)
      sets records)
    (loaded : ∀ set ∈ sets, set.has .notLoaded = false) (nonempty : ∀ record ∈ records, record ≠ [])
    (rest : Bytes) :
    (∃ read, readSets codec documents streamAppVersion kStickersSerializeVersion records.length
        ⟨records.flatten ++ rest, true⟩ = some (read, ⟨rest, true⟩)) ↔
      ∀ set ∈ sets, set.hasLegacyThumbnail = false := by
  induction written with
  | nil => exact iff_of_true ⟨[], rfl⟩ (by simp)
  | @cons set record sets records isRecord _ ih =>
    rw [forall_mem_cons] at loaded nonempty
    specialize ih loaded.2 nonempty.2
    obtain ⟨legacy, modern⟩ := readStickerSet_write streamAppVersion back
      loaded.1 isRecord nonempty.1 (records.flatten ++ rest)
    rw [forall_mem_cons, ← ih, length_cons, readSets, flatten_cons, append_assoc]
    cases hasLegacy : set.hasLegacyThumbnail with
    | true =>
      rw [legacy hasLegacy]
      simp
    | false =>
      obtain ⟨read, isRead⟩ := modern hasLegacy
      rw [isRead]
      simp only [bind_some, true_and]
      constructor
      · rintro ⟨all, isAll⟩
        obtain ⟨⟨others, stream⟩, isOthers, same⟩ := map_eq_some_iff.mp isAll
        cases same
        exact ⟨others, isOthers⟩
      · rintro ⟨others, isOthers⟩
        exact ⟨read :: others, by rw [isOthers]; rfl⟩

theorem readIds_write (ids : List UInt64) (rest : Bytes) :
    readIds ids.length ⟨ids.flatMap writeUInt64 ++ rest, true⟩ = some (ids, ⟨rest, true⟩) := by
  induction ids with
  | nil => rfl
  | cons id ids ih =>
    rw [length_cons, readIds, flatMap_cons, append_assoc, exact_uint64.read_write]
    dsimp only
    rw [if_pos rfl, ih]
    rfl

theorem length_readIds {count : Nat} {stream : DataStream} {ids : List UInt64} {left : DataStream}
    (read : readIds count stream = some (ids, left)) : ids.length = count := by
  induction count generalizing stream ids with
  | zero =>
    cases read
    rfl
  | succ count ih =>
    rw [readIds] at read
    dsimp only at read
    split at read
    · obtain ⟨⟨others, stream⟩, isOthers, same⟩ := map_eq_some_iff.mp read
      cases same
      rw [length_cons, ih isOthers]
    · cases read

theorem readOrder_write (order : List UInt64) (left : DataStream) :
    readOrder ⟨writeOrder order, true⟩ = some (order, left) ↔
      order.length ≤ 1000 ∧ left = ⟨[], true⟩ := by
  have small : ∀ count : UInt32, count > 1000 ↔ 1000 < count.toNat :=
    fun count => UInt32.lt_iff_toNat_lt
  unfold readOrder writeOrder writeSize
  rw [readUInt32_write]
  simp only [Bool.not_true, Bool.false_or, decide_eq_true_eq, small]
  constructor
  · intro read
    obtain ⟨isSmall, isIds⟩ := ite_none_left_eq_some.mp read
    have count := length_readIds isIds
    have fits : (UInt32.ofNat order.length).toNat = order.length := count.symm
    have isLeft := readIds_write order []
    rw [fits] at isIds isSmall
    rw [append_nil, isIds] at isLeft
    cases isLeft
    exact ⟨by omega, rfl⟩
  · rintro ⟨isSmall, rfl⟩
    have fits : (UInt32.ofNat order.length).toNat = order.length :=
      (size_small (by omega)).1
    have isLeft := readIds_write order []
    rw [append_nil] at isLeft
    rw [fits, if_neg (by omega), isLeft]

theorem readStickerSets_write {setsCount : Nat} (few : setsCount ≤ 1000) (readsOrder : Bool)
    (rest : Bytes) :
    readStickerSets codec documents streamAppVersion readsOrder (writeHeader setsCount ++ rest) =
      (readSets codec documents streamAppVersion kStickersSerializeVersion setsCount
        ⟨rest, true⟩).bind fun (sets, stream) =>
          (if readsOrder then readOrder stream else some ([], stream)).bind fun (order, stream) =>
            if stream.ok then some (sets, order) else none := by
  have small : setsCount < 2 ^ 31 := by omega
  have inside : ¬ofNat setsCount > kMaxSavedStickerSetsCount := by
    rw [gt_iff_lt, lt_iff_toInt_lt, toInt_ofNat small]
    have limit : kMaxSavedStickerSetsCount.toInt = 1000 := by decide
    omega
  unfold readStickerSets writeHeader
  simp only [append_assoc, readUInt32_write, readInt32_write, readInt32_size, ne_eq,
    not_true_eq_false, decide_false, Bool.and_false, Bool.or_false, Bool.false_eq_true, if_false,
    Bool.not_true, not_ofNat_neg small, inside, toNatClampNeg_ofNat small]

end Files

end StickersSet

namespace Stickers

open StickersSet

variable {codec : TextCodec} {δ : Type*} {documents : StickerDocuments δ} {streamAppVersion : Nat}
  {stickers : Stickers codec δ} {file : StickersFile}

theorem stickers_of_write {set : StickersSet codec δ} (goes : checkSet file set = .write) :
    set.stickers.isEmpty = false := by
  cases isEmpty : set.stickers.isEmpty with
  | false => rfl
  | true =>
    cases file <;>
      simp only [checkSet, checkInstalledStickers, checkFeaturedStickers, checkFeaturedCustomEmoji,
        checkInstalledCustomEmoji, checkRecentStickers, checkFavedStickers, checkRecentMasks,
        checkOnly, checkArchivedStickers, checkArchivedMasks, checkInstalledMasks, checkLoaded,
        isEmpty, Bool.or_true, if_true, reduceCtorEq] at goes <;>
      split_ifs at goes

/-- The sets of the file are loaded and their thumbnails have versions, and the order is not
too long where it is read. -/
def Readable (stickers : Stickers codec δ) (file : StickersFile) : Prop :=
  (∀ set ∈ stickers.values, checkSet file set = .write →
    set.has .notLoaded = false ∧ set.hasLegacyThumbnail = false) ∧
  (readsOrder file = true → (stickers.order file).length ≤ 1000)

theorem write_eq_some {bytes : Bytes} (written : stickers.write documents file = some bytes) :
    ∃ setsCount records, countSets (checkSet file) stickers.values = some setsCount ∧
      writeSets documents (checkSet file) stickers.values = some records ∧
      bytes = writeHeader setsCount ++ (records.flatten ++ writeOrder (stickers.order file)) := by
  obtain ⟨-, counted⟩ := ite_none_left_eq_some.mp written
  obtain ⟨setsCount, isCount, notNone⟩ := bind_eq_some_iff.mp counted
  obtain ⟨-, recorded⟩ := ite_none_left_eq_some.mp notNone
  obtain ⟨records, isRecords, rfl⟩ := map_eq_some_iff.mp recorded
  exact ⟨setsCount, records, isCount, isRecords, rfl⟩

/-- A file is consistent if and only if it has no set that is not counted or cannot be read. -/
theorem selfConsistent_iff (back : documents.ReadBack) (few : stickers.sets.size ≤ 1000)
    {bytes : Bytes} (written : stickers.write documents file = some bytes) :
    SelfConsistent documents streamAppVersion stickers file bytes ↔ stickers.Readable file := by
  obtain ⟨setsCount, records, isCount, isRecords, rfl⟩ := write_eq_some written
  have passing : ∀ set, set ∈ passed (checkSet file) stickers.values ↔
      set ∈ stickers.values ∧ checkSet file set = .write := by
    simp [passed]
  have nonempty := records_ne_nil (writeSets_eq isRecords) fun set isPassed =>
    stickers_of_write ((passing set).mp isPassed).2
  have onlyRecords : records.filter (· ≠ []) = records :=
    filter_eq_self.mpr fun record member => decide_eq_true (nonempty record member)
  have each := writeSets_eq isRecords
  have count := countSets_eq isCount
  have counts : setsCount ≤ 1000 := by
    have length : stickers.values.length ≤ 1000 := by
      rw [values, length_map]
      exact few
    have fewer : (passed (checkSet file) stickers.values).length ≤ stickers.values.length :=
      length_filter_le _ _
    have loading : setsCount ≤ (passed (checkSet file) stickers.values).length :=
      count ▸ length_filter_le _ _
    omega
  have allLoaded : setsCount = records.length ↔
      ∀ set ∈ passed (checkSet file) stickers.values, set.has .notLoaded = false := by
    rw [count, ← each.length_eq, length_filter_eq_length_iff]
    simp
  constructor
  · rintro ⟨otherCount, otherRecords, read, -, sameCount, sameRecords, counted, isRead, isFile⟩
    rw [isCount] at sameCount
    rw [isRecords] at sameRecords
    cases sameCount
    cases sameRecords
    rw [onlyRecords] at counted
    have loaded := allLoaded.mp counted
    rw [counted] at isRead
    have modern := (readSets_write streamAppVersion back each loaded nonempty _).mp ⟨read, isRead⟩
    refine ⟨fun set member goes => ?_, fun isOrder => ?_⟩
    · have isPassed := (passing set).mpr ⟨member, goes⟩
      exact ⟨loaded set isPassed, modern set isPassed⟩
    · rw [readStickerSets_write counts, counted, isRead, isOrder, bind_some] at isFile
      obtain ⟨⟨order, left⟩, ordered, same⟩ := bind_eq_some_iff.mp isFile
      cases (ite_none_right_eq_some.mp same).2
      exact ((readOrder_write _ left).mp ordered).1
  · rintro ⟨sets, isShort⟩
    have loaded : ∀ set ∈ passed (checkSet file) stickers.values, set.has .notLoaded = false :=
      fun set isPassed => (sets set ((passing set).mp isPassed).1 ((passing set).mp isPassed).2).1
    have counted := allLoaded.mpr loaded
    obtain ⟨read, isRead⟩ := (readSets_write streamAppVersion back each
      loaded nonempty (writeOrder (stickers.order file))).mpr fun set isPassed =>
        (sets set ((passing set).mp isPassed).1 ((passing set).mp isPassed).2).2
    rw [← counted] at isRead
    refine ⟨setsCount, records, read, rfl, isCount, isRecords, ?_, isRead, ?_⟩
    · rw [onlyRecords, counted]
    · rw [readStickerSets_write counts, isRead]
      cases isOrder : readsOrder file with
      | true =>
        have ordered := (readOrder_write (stickers.order file) _).mpr ⟨isShort isOrder, rfl⟩
        simp [ordered]
      | false =>
        have noOrder : stickers.order file = [] := by
          cases file <;> first | rfl | cases isOrder
        simp [noOrder]

def idDocuments : StickerDocuments UInt64 where
  id := id
  writeToStream := writeUInt64
  readStickerFromStream _ stream := (some stream.readUInt64.1, stream.readUInt64.2)

theorem idDocuments_readBack : idDocuments.ReadBack := by
  intro document info rest
  simp only [idDocuments, exact_uint64.read_write]

def noThumbnail : ImageLocation := { file := .storage default }

theorem noThumbnail_known : noThumbnail.file.valid = true ∨ noThumbnail = {} := .inr rfl

/-- An archived set with one sticker. -/
def archivedSet (flags : Int32) : Stickers DownloadLocation.asciiCodec UInt64 where
  sets := FlatMap.emplace 7
    { id := 7
      flags := flags
      stickers := [5]
      thumbnailLocation := noThumbnail
      thumbnail_known := noThumbnail_known } ∅
  archivedSetsOrder := [7]

theorem selfConsistent_iff_archived :
    ∃ bytes, (archivedSet 2).write idDocuments .archivedStickers = some bytes ∧
      (SelfConsistent idDocuments 3000000 (archivedSet 2) .archivedStickers bytes ↔
        (archivedSet 2).Readable .archivedStickers) := by
  obtain ⟨bytes, written⟩ := isSome_iff_exists.mp
    (show ((archivedSet 2).write idDocuments .archivedStickers).isSome = true by decide)
  exact ⟨bytes, written, selfConsistent_iff idDocuments_readBack (by decide) written⟩

/-- An archived set has to be loaded again, and its record is not counted. -/
theorem not_selfConsistent_notLoaded :
    ∃ bytes, (archivedSet 18).write idDocuments .archivedStickers = some bytes ∧
      ¬SelfConsistent idDocuments 3000000 (archivedSet 18) .archivedStickers bytes := by
  obtain ⟨bytes, written⟩ := isSome_iff_exists.mp
    (show ((archivedSet 18).write idDocuments .archivedStickers).isSome = true by decide)
  refine ⟨bytes, written, ?_⟩
  rintro ⟨setsCount, records, -, -, isCount, isRecords, counted, -⟩
  have count : countSets (checkSet .archivedStickers) (archivedSet 18).values = some 0 := by decide
  have one : (writeSets idDocuments (checkSet .archivedStickers) (archivedSet 18).values).map
      (fun records => (records.filter (· ≠ [])).length) = some 1 := by decide
  rw [count] at isCount
  cases isCount
  rw [isRecords, map_some, ← counted] at one
  cases one

end Stickers

end TelegramDesktop
