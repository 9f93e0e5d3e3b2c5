import Mathlib.Data.List.MinMax
import Mathlib.Order.Nat
import TelegramDesktop.EmojiKeywords
import TelegramDesktop.DataStreamValues

/-!
# Emoji keywords as an index

A query of a language pack finds what a scan of all its keys finds, and the local
cache gives back the data that it was written from.
-/

namespace TelegramDesktop.EmojiKeywords

open List FlatMap DataStream

variable {Emoji : Type*} (library : Library Emoji)

def writeText (text : QText) : Bytes :=
  let units := text.map UInt16.ofFin
  writeSize (2 * units.length) ++ units.flatMap writeUInt16

def readText (stream : DataStream) : QText × DataStream :=
  (stream.readQString.1.units.map UInt16.toFin, stream.readQString.2)

/-- A key with its emoji. -/
def writeKey (pair : QText × List (LangPackEmoji Emoji)) : Bytes :=
  writeText pair.1 ++ writeSize pair.2.length ++ pair.2.flatMap fun entry => writeText entry.text

/-- What is written to the cache file, if it is written at all. -/
def writeLocalCache (data : LangPackData Emoji) : Option Bytes :=
  if data.version = 0 ∧ data.emoji.isEmpty then none
  else
    some (writeInt32 (Int32.ofInt data.version) ++ writeSize data.emoji.size ++
      data.emoji.entries.flatMap writeKey)

/-- The emoji of a key; none may be unknown. -/
def readList : Nat → DataStream → Option (List (LangPackEmoji Emoji) × DataStream)
  | 0, stream => some ([], stream)
  | size + 1, stream =>
    let (text, stream) := readText stream
    if !stream.ok then none
    else
      (findEntry library text).bind fun entry =>
        (readList size stream).map fun (list, stream) => (entry :: list, stream)

/-- The keys, with the length of the longest one. -/
def readKeys : Nat → LangPackData Emoji → DataStream → Option (LangPackData Emoji)
  | 0, result, _ => some result
  | count + 1, result, stream =>
    let (key, stream) := readText stream
    let (size, stream) := stream.readInt32
    if size < 0 ∨ !stream.ok then none
    else
      (readList library size.toInt.toNat stream).bind fun (list, stream) =>
        readKeys count
          { result with
            emoji := result.emoji.set key ((result.emoji.find? key).getD [] ++ list)
            maxKeyLength := max result.maxKeyLength key.length } stream

/-- `none` is a file that does not open. -/
def readLocalCache (file : Option Bytes) : LangPackData Emoji :=
  (file.bind fun bytes =>
    let (version, stream) := readInt32 ⟨bytes, true⟩
    let (count, stream) := stream.readInt32
    if version < 0 ∨ count < 0 ∨ !stream.ok then none
    else
      (readKeys library count.toInt.toNat {} stream).map fun result =>
        { result with version := version.toInt }).getD {}

section Scans

theorem prefix_of_between {normalized key later : QText} (reached : ¬key < normalized)
    (below : key < later) (starts : normalized <+: later) : normalized <+: key := by
  induction normalized generalizing key later with
  | nil => exact nil_prefix
  | cons first normalized ih =>
    obtain ⟨rest, rfl⟩ := starts
    cases key with
    | nil => exact absurd (nil_lt_cons first normalized) reached
    | cons head key =>
      rw [cons_append, cons_lt_cons_iff] at below
      rw [cons_lt_cons_iff, not_or] at reached
      obtain ⟨rfl, within⟩ := below.resolve_left reached.1
      refine (prefix_cons_inj head).mpr (ih ?_ within (prefix_append normalized rest))
      exact fun less => reached.2 ⟨rfl, less⟩

variable {β : Type*}

/-- What is matched is found from the first key that is not below on, without a gap. -/
theorem takeWhile_dropWhile {entries : List (QText × β)} {normalized : QText}
    {matched : QText × β → Bool}
    (increasing : entries.Pairwise fun first second => first.1 < second.1)
    (above : ∀ pair, matched pair = true → ¬pair.1 < normalized)
    (between : ∀ pair later, ¬pair.1 < normalized → pair.1 < later.1 → matched later = true →
      matched pair = true) :
    (entries.dropWhile fun pair => pair.1 < normalized).takeWhile matched =
      entries.filter matched := by
  induction entries with
  | nil => rfl
  | cons head entries ih =>
    rw [pairwise_cons] at increasing
    have rest := ih increasing.2
    by_cases less : head.1 < normalized
    · rw [dropWhile_cons_of_pos (by simpa using less),
        filter_cons_of_neg fun found => above head found less, rest]
    · have all : (entries.dropWhile fun pair => pair.1 < normalized) = entries := by
        cases entries with
        | nil => rfl
        | cons next entries =>
          have later := (not_lt.mp less).trans_lt (increasing.1 next mem_cons_self)
          exact dropWhile_cons_of_neg (by simpa using later.le)
      rw [all] at rest
      rw [dropWhile_cons_of_neg (by simpa using less)]
      by_cases found : matched head = true
      · rw [takeWhile_cons_of_pos found, filter_cons_of_pos found, rest]
      · rw [takeWhile_cons_of_neg found, filter_cons_of_neg found]
        refine (filter_eq_nil_iff.mpr fun pair member later => found ?_).symm
        exact between head pair less (increasing.1 pair member) later

end Scans

section Queries

variable [DecidableEq Emoji]

/-- The emoji of the keys one after another.  An emoji of an earlier key is dropped from the
later ones. -/
def scan : List (QText × List (LangPackEmoji Emoji)) → List (Result Emoji)
  | [] => []
  | (key, list) :: rest =>
    (list.map fun entry => ⟨entry.emoji, key, entry.text⟩) ++
      (scan rest).filter fun found => found.emoji ∉ list.map LangPackEmoji.emoji

namespace LangPackData

/-- The answer of a scan of all keys. -/
def fullScan (data : LangPackData Emoji) (id normalized : QText) (exactly : Bool) :
    List (Result Emoji) :=
  scan (data.emoji.entries.filter fun pair =>
    if exactly then pair.1 = normalized ∧ ¬skipExactKeyword library id normalized
    else normalized.isPrefixOf pair.1)

end LangPackData

theorem foldl_appendFoundEmoji (pairs : List (QText × List (LangPackEmoji Emoji)))
    (result : List (Result Emoji)) :
    pairs.foldl (fun result pair => appendFoundEmoji result pair.1 pair.2) result =
      insertMissing result (scan pairs) := by
  induction pairs generalizing result with
  | nil => exact (append_nil result).symm
  | cons pair pairs ih =>
    rw [foldl_cons, ih, scan, appendFoundEmoji]
    simp only [insertMissing, filter_append, map_append, append_assoc,
      filter_filter, append_cancel_left_eq]
    apply filter_congr
    intro found _
    rw [← Bool.decide_and, decide_eq_decide, mem_append, not_or]
    refine and_congr_right fun missing => not_congr ?_
    simp only [mem_map, mem_filter, decide_eq_true_eq]
    constructor
    · rintro ⟨_, ⟨⟨entry, member, rfl⟩, _⟩, same⟩
      exact ⟨entry, member, same⟩
    · rintro ⟨entry, member, same⟩
      refine ⟨_, ⟨⟨entry, member, rfl⟩, ?_⟩, same⟩
      rintro ⟨other, old, equal⟩
      exact missing (mem_map.mpr ⟨other, old, equal.trans same⟩)

namespace LangPackData

variable {library}

/-- The greatest length of a key, 0 without keys -/
structure Longest (data : LangPackData Emoji) : Prop where
  le : ∀ pair ∈ data.emoji.entries, pair.1.length ≤ data.maxKeyLength
  none : data.emoji.entries = [] → data.maxKeyLength = 0
  reached : data.emoji.entries ≠ [] →
    ∃ pair ∈ data.emoji.entries, pair.1.length = data.maxKeyLength

omit [DecidableEq Emoji] in
theorem chosen_eq {data : LangPackData Emoji} (longest : data.Longest) (id normalized : QText)
    (exactly : Bool) :
    data.chosen library id normalized exactly = data.emoji.entries.filter fun pair =>
      if exactly then pair.1 = normalized ∧ ¬skipExactKeyword library id normalized
      else normalized.isPrefixOf pair.1 := by
  rw [chosen]
  split
  next nothing =>
    refine (filter_eq_nil_iff.mpr fun pair member => ?_).symm
    rcases nothing with long | none | ⟨rfl, skipped⟩
    · have short := (longest.le pair member).trans_lt long
      cases exactly with
      | true =>
        have distinct : pair.1 ≠ normalized := fun same => short.ne (congrArg length same)
        simp [distinct]
      | false =>
        rw [if_neg Bool.false_ne_true, isPrefixOf_iff_prefix]
        exact fun starts => not_lt.mpr starts.length_le short
    · rw [List.isEmpty_iff.mp none] at member
      exact absurd member not_mem_nil
    · simp [skipped]
  next some =>
    cases exactly with
    | true =>
      have taken : ¬skipExactKeyword library id normalized = true :=
        fun skipped => some (.inr (.inr ⟨rfl, skipped⟩))
      simp only [taken, if_true, and_true, Bool.not_eq_true]
      apply takeWhile_dropWhile data.emoji.increasing
      · exact fun pair same => (of_decide_eq_true same).not_lt
      · exact fun pair later reached less same =>
          absurd (lt_of_lt_of_eq less (of_decide_eq_true same)) reached
    | false =>
      apply takeWhile_dropWhile data.emoji.increasing
      · exact fun pair starts => List.not_lt.mpr ( isPrefixOf_iff_prefix.mp starts).le
      · intro pair later reached less starts
        exact isPrefixOf_iff_prefix.mpr
          (prefix_of_between reached less ( isPrefixOf_iff_prefix.mp starts))

theorem query_eq {data : LangPackData Emoji} (longest : data.Longest) (id normalized : QText)
    (exactly : Bool) :
    data.query library id normalized exactly = data.fullScan library id normalized exactly := by
  rw [query, chosen_eq longest, foldl_appendFoundEmoji, fullScan, insertMissing]
  simp

end LangPackData

end Queries

section Caches

variable {library}

/-- What the counts of the cache and a `QString` can hold -/
structure LangPackData.Storable (data : LangPackData Emoji) : Prop where
  keys : data.emoji.size < 2 ^ 31
  lists : ∀ pair ∈ data.emoji.entries, pair.2.length < 2 ^ 31
  texts : ∀ pair ∈ data.emoji.entries, pair.1.length < 2 ^ 31 ∧
    ∀ entry ∈ pair.2, entry.text.length < 2 ^ 31

/-- Each stored entry is what its text gives. -/
def LangPackData.Found (library : Library Emoji) (data : LangPackData Emoji) : Prop :=
  ∀ pair ∈ data.emoji.entries, ∀ entry ∈ pair.2, findEntry library entry.text = some entry

/-- What holds of the data after any differences. -/
structure LangPackData.Built (library : Library Emoji) (data : LangPackData Emoji) : Prop where
  version : ∃ version : Int32, data.version = version.toInt
  found : data.Found library
  greatest : data.maxKeyLength =
    (data.emoji.entries.map fun pair => pair.1.length).foldr max 0

theorem readText_write {text : QText} (small : text.length < 2 ^ 31) (rest : Bytes) (ok : Bool) :
    readText ⟨writeText text ++ rest, ok⟩ = (text, ⟨rest, ok⟩) := by
  have read := exact_qString.read_write
    { units := text.map UInt16.ofFin
      null_empty := fun null => absurd null Bool.false_ne_true
      small := by rwa [length_map] } rest ok
  rw [writeQString, if_neg Bool.false_ne_true] at read
  rw [readText, writeText, read, map_map]
  exact Prod.ext (map_id text) rfl

theorem size_not_neg {size : Nat} (small : size < 2 ^ 31) :
    ¬(UInt32.ofNat size).toInt32 < 0 ∧ (UInt32.ofNat size).toInt32.toInt.toNat = size := by
  rw [Int32.lt_iff_toInt_lt, toInt_size small]
  exact ⟨Int.not_lt.mpr (Int.natCast_nonneg size), Int.toNat_natCast size⟩

theorem readList_write {list : List (LangPackEmoji Emoji)} (rest : Bytes)
    (texts : ∀ entry ∈ list, entry.text.length < 2 ^ 31)
    (found : ∀ entry ∈ list, findEntry library entry.text = some entry) :
    readList library list.length ⟨list.flatMap (fun entry => writeText entry.text) ++ rest, true⟩ =
      some (list, ⟨rest, true⟩) := by
  induction list with
  | nil => rfl
  | cons entry list ih =>
    rw [forall_mem_cons] at texts found
    rw [length_cons, readList, flatMap_cons, append_assoc, readText_write texts.1]
    simp only [Bool.not_true, Bool.false_eq_true, if_false, found.1, Option.bind_some,
      ih texts.2 found.2, Option.map_some]

theorem readKeys_write {pairs : List (QText × List (LangPackEmoji Emoji))}
    (lists : ∀ pair ∈ pairs, pair.2.length < 2 ^ 31)
    (texts : ∀ pair ∈ pairs, pair.1.length < 2 ^ 31 ∧
      ∀ entry ∈ pair.2, entry.text.length < 2 ^ 31)
    (found : ∀ pair ∈ pairs, ∀ entry ∈ pair.2, findEntry library entry.text = some entry)
    (increasing : pairs.Pairwise fun first second => first.1 < second.1)
    (result : LangPackData Emoji) (after : ∀ old ∈ result.emoji.entries, ∀ pair ∈ pairs,
      old.1 < pair.1) :
    ∃ read, readKeys library pairs.length result ⟨pairs.flatMap writeKey, true⟩ = some read ∧
      (∀ entry, entry ∈ read.emoji.entries ↔ entry ∈ result.emoji.entries ∨ entry ∈ pairs) ∧
      read.maxKeyLength =
        max result.maxKeyLength ((pairs.map fun pair => pair.1.length).foldr max 0) := by
  induction pairs generalizing result with
  | nil => exact ⟨result, rfl, fun entry => by simp, (max_eq_left (Nat.zero_le _)).symm⟩
  | cons pair pairs ih =>
    rw [forall_mem_cons] at lists texts found
    rw [pairwise_cons] at increasing
    have new : ∀ old ∈ result.emoji.entries, old.1 ≠ pair.1 :=
      fun old member => (after old member pair mem_cons_self).ne
    have missing : result.emoji.find? pair.1 = none := by
      rw [Option.eq_none_iff_forall_ne_some]
      exact fun list known => new _ (find?_eq_some.mp known) rfl
    obtain ⟨positive, size⟩ := size_not_neg lists.1
    obtain ⟨read, reads, entries, longest⟩ := ih lists.2 texts.2 found.2 increasing.2
      { result with
        emoji := result.emoji.set pair.1 pair.2
        maxKeyLength := max result.maxKeyLength pair.1.length } (by
      intro old member later inLater
      rcases mem_set.mp member with rfl | ⟨member, -⟩
      · exact increasing.1 later inLater
      · exact after old member later (mem_cons_of_mem pair inLater))
    refine ⟨read, ?_, fun entry => ?_, ?_⟩
    · rw [length_cons, readKeys, flatMap_cons, writeKey, append_assoc,
        append_assoc, readText_write texts.1.1]
      simp only [readInt32_writeSize, positive, size, Bool.not_true, Bool.false_eq_true, or_self,
        if_false, readList_write _ texts.1.2 found.1, Option.bind_some, missing, Option.getD_none,
        nil_append, reads]
    · rw [entries, FlatMap.mem_set, and_iff_left_of_imp (new entry), List.mem_cons, or_assoc,
        or_left_comm]
    · rw [longest, map_cons, foldr_cons, max_assoc]

variable {data : LangPackData Emoji}

theorem readLocalCache_write (built : data.Built library)
    (storable : data.Storable) (version : 0 < data.version) :
    readLocalCache library (writeLocalCache data) = data := by
  obtain ⟨read, reads, entries, greatest⟩ := readKeys_write storable.lists storable.texts
    built.found data.emoji.increasing {} (by simp)
  obtain ⟨positive, size⟩ := size_not_neg storable.keys
  obtain ⟨number, same⟩ := built.version
  have later : ¬number < 0 := by
    rw [Int32.lt_iff_toInt_lt, ← same]
    exact version.not_gt
  rw [writeLocalCache, if_neg (fun none => version.ne' none.1), readLocalCache, same,
    Int32.ofInt_toInt, Option.bind_some, append_assoc]
  simp only [readInt32_write, readInt32_writeSize, later, positive, size, Bool.not_true,
    Bool.false_eq_true, or_self, if_false]
  rw [FlatMap.size, reads, Option.map_some, Option.getD_some]
  have emoji : read.emoji = data.emoji := ext_mem fun entry => by
    rw [entries]
    exact or_iff_right not_mem_nil
  rw [emoji, greatest, ← same, max_eq_right (Nat.zero_le _), ← built.greatest]

theorem findEntry_text {text : QText} {entry : LangPackEmoji Emoji}
    (found : findEntry library text = some entry) : entry.text = text := by
  obtain ⟨_, -, rfl⟩ := Option.map_eq_some_iff.mp found
  rfl

theorem found_applyKeyword (keyword : EmojiKeyword)
    (found : data.Found library) : (applyKeyword library data keyword).Found library := by
  intro pair member entry inside
  cases keyword with
  | keyword keyword emoticons =>
    rw [applyKeyword] at member
    split at member
    · exact found pair member entry inside
    · rcases mem_set.mp member with rfl | ⟨old, -⟩
      · rcases mem_append.mp inside with before | new
        · cases known : data.emoji.find? (normalizeKey library keyword) with
          | none =>
            rw [known] at before
            cases before
          | some list =>
            rw [known] at before
            exact found _ (find?_eq_some.mp known) entry before
        · obtain ⟨text, -, named⟩ := mem_filterMap.mp new
          rw [findEntry_text named]
          exact named
      · exact found pair old entry inside
  | deleted keyword emoticons =>
    rw [applyKeyword] at member
    split at member
    · exact found pair member entry inside
    · split at member
      · exact found pair member entry inside
      next list known =>
        dsimp only at member
        split at member
        · exact found pair (mem_erase.mp member).1 entry inside
        · rcases mem_set.mp member with rfl | ⟨old, -⟩
          · exact found _ (find?_eq_some.mp known) entry (mem_filter.mp inside).1
          · exact found pair old entry inside

theorem version_applyKeyword (data : LangPackData Emoji) (keyword : EmojiKeyword) :
    (applyKeyword library data keyword).version = data.version := by
  unfold applyKeyword
  dsimp only
  split
  · split <;> rfl
  · split
    · rfl
    · split <;> rfl

theorem LangPackData.Built.applyDifference
    (built : data.Built library) (keywords : List EmojiKeyword) (version : Int32) :
    (applyDifference library data keywords version.toInt).Built library := by
  have applied : ∀ data : LangPackData Emoji, data.version = version.toInt →
      data.Found library →
      (keywords.foldl (applyKeyword library) data).version = version.toInt ∧
        (keywords.foldl (applyKeyword library) data).Found library := by
    induction keywords with
    | nil => exact fun data same found => ⟨same, found⟩
    | cons keyword keywords ih =>
      exact fun data same found => ih _ ((version_applyKeyword data keyword).trans same)
        (found_applyKeyword keyword found)
  obtain ⟨same, found⟩ := applied { data with version := version.toInt } rfl built.found
  exact ⟨⟨version, same⟩, found, rfl⟩

theorem built_build (differences : List (List EmojiKeyword × Int32)) :
    (build library (differences.map fun difference =>
      (difference.1, difference.2.toInt))).Built library := by
  have start : ({} : LangPackData Emoji).Built library :=
    ⟨⟨0, rfl⟩, fun pair member => absurd member not_mem_nil, rfl⟩
  rw [build, foldl_map]
  induction differences using reverseRecOn with
  | nil => exact start
  | append_singleton differences difference ih =>
    rw [foldl_append]
    exact ih.applyDifference difference.1 difference.2

theorem LangPackData.Built.longest (built : data.Built library) :
    data.Longest := by
  have maximum : data.emoji.entries ≠ [] →
      data.maxKeyLength ∈ data.emoji.entries.map (fun pair => pair.1.length) ∧
        ∀ length ∈ data.emoji.entries.map (fun pair => pair.1.length),
          length ≤ data.maxKeyLength := by
    intro some
    rw [← maximum_eq_coe_iff, built.greatest]
    exact (@List.foldr_max_of_ne_nil Nat _ _ _ (mt map_eq_nil_iff.mp some)).symm
  constructor
  · intro pair member
    exact (maximum (ne_nil_of_mem member)).2 _ (mem_map_of_mem member)
  · intro none
    rw [built.greatest, none]
    rfl
  · exact fun some => mem_map.mp (maximum some).1

end Caches

/-- The keys answer as a scan of them all would, and so they do after the cache was read, if the
counts of the cache can hold them. -/
theorem index_answers [DecidableEq Emoji] (differences : List (List EmojiKeyword × Int32)) :
    let data := build library (differences.map fun difference =>
      (difference.1, difference.2.toInt))
    data.Longest ∧
      (∀ id normalized exactly, data.query library id normalized exactly =
        data.fullScan library id normalized exactly) ∧
      (data.Storable → 0 < data.version →
        readLocalCache library (writeLocalCache data) = data) := by
  have built := @built_build _ library differences
  exact ⟨built.longest, LangPackData.query_eq built.longest, readLocalCache_write built⟩

theorem index_answers_restored :
    let differences : List (List EmojiKeyword × Int32) :=
      [([.keyword [0x61] [[0x2764], [0x2665]], .keyword [0x61, 0x62] [[0x2764]]], .ofNat 1),
        ([.deleted [0x61] [[0x2665]]], .ofNat 2)]
    let data := build plain (differences.map fun difference =>
      (difference.1, difference.2.toInt))
    data.emoji.size = 2 ∧ data.version = 2 ∧
      (∀ id normalized exactly, data.query plain id normalized exactly =
        data.fullScan plain id normalized exactly) ∧
      readLocalCache plain (writeLocalCache data) = data := by
  intro differences data
  obtain ⟨-, answers, restores⟩ := index_answers plain differences
  have storable : data.Storable := ⟨by decide, by decide, by decide⟩
  exact ⟨rfl, rfl, answers, restores storable (by decide)⟩

/-- A count beyond an `int` is not read back. -/
theorem not_restored_large : ¬∀ differences : List (List EmojiKeyword × Int32),
    let data := build plain (differences.map fun difference =>
      (difference.1, difference.2.toInt))
    0 < data.version → readLocalCache plain (writeLocalCache data) = data := by
  intro restored
  obtain ⟨emoticons, size⟩ : ∃ emoticons : List QText, emoticons.length = 2 ^ 31 :=
    ⟨replicate _ [], length_replicate⟩
  have all : findEntry plain = fun text => some ⟨(), text⟩ := by
    funext text
    simp [findEntry, findExact, plain]
  have many : (emoticons.filterMap (findEntry plain)).length = 2 ^ 31 := by
    rw [all, filterMap_eq_map', length_map, size]
  have again := restored [([.keyword [0x61] emoticons], 1)] one_pos
  have written : writeLocalCache (build plain [([.keyword [0x61] emoticons], 1)]) =
      some (writeInt32 1 ++ writeSize 1 ++ ((writeText [0x61] ++
        writeSize (emoticons.filterMap (findEntry plain)).length ++
          (emoticons.filterMap (findEntry plain)).flatMap fun entry =>
            writeText entry.text) ++ [])) :=
    rfl
  have small : [(0x61 : Fin 65536)].length < 2 ^ 31 := by decide
  have negative : (UInt32.ofNat (2 ^ 31)).toInt32 < 0 := by decide
  have lost : (readLocalCache plain (writeLocalCache (build plain
      [([.keyword [0x61] emoticons], 1)]))).version = 0 := by
    have one : ¬(UInt32.ofNat 1).toInt32 < 0 ∧ (UInt32.ofNat 1).toInt32.toInt.toNat = 1 :=
      size_not_neg (by decide)
    rw [written, many, readLocalCache, Option.bind_some]
    simp only [append_assoc, readInt32_write, readInt32_writeSize, one.1, one.2, readKeys,
      readText_write small, negative, true_or, if_true]
    rfl
  exact absurd ((congrArg LangPackData.version again).symm.trans lost) Int.one_ne_zero

end TelegramDesktop.EmojiKeywords
