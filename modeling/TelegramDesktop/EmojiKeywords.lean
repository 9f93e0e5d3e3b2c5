import Mathlib.Data.List.Induction
import Mathlib.Data.List.Lex
import Mathlib.Order.Fin.Basic
import Mathlib.Data.List.Nodup
import TelegramDesktop.FlatMap

/-!
# Emoji keywords

The data of language packs and its queries, as in `chat_helpers/emoji_keywords.cpp`.
Suggestions are collected list by list, and an emoji that an earlier list had is left out.
-/

namespace TelegramDesktop.EmojiKeywords

open List

/-- A string of UTF-16 units -/
abbrev QText := List (Fin 65536)

section Packs

variable (Emoji : Type*)

/-- An emoji, with the text that is written for it. -/
structure LangPackEmoji where
  emoji : Emoji
  text : QText

/-- The keywords of one language. -/
structure LangPackData where
  version : Int := 0
  maxKeyLength : Nat := 0
  emoji : FlatMap QText (List (LangPackEmoji Emoji)) := ∅

/-- An emoji that was found, with the keyword and what is inserted. -/
structure Result where
  emoji : Emoji
  label : QText
  replacement : QText

/-- What `Suggestion` of the generated list holds. -/
structure Suggestion where
  emoji : QText
  label : QText
  replacement : QText

/-- A keyword of a difference: its emoji are added or deleted. -/
inductive EmojiKeyword
  | keyword (keyword : QText) (emoticons : List QText)
  | deleted (keyword : QText) (emoticons : List QText)

/-- The emoji library, and the letters of strings.  `find` gives the length it has used. -/
structure Library where
  find : QText → Option (Emoji × Nat)
  kPostfix : Fin 65536
  suggestions : QText → List Suggestion
  toLower : QText → QText
  trimmed : QText → QText
  isLetter : Fin 65536 → Bool

end Packs

variable {Emoji : Type*} (library : Library Emoji)

def mustAddPostfix (text : QText) : Bool := text ∈ [[0x2122], [0xA9], [0xAE]]

def skipExactKeyword (language word : QText) : Bool :=
  if word.length = 1 ∧ word.all (fun ch => !library.isLetter ch) then true
  else if word = [0x31, 0x30] then true
  else if language ≠ [0x65, 0x6E] then false
  else if word.length = 1 ∧ word ≠ [0x24] ∧ word ≠ [8364] then true
  else
    word.length = 2 ∧
      word ∉ [[0x75, 0x73], [0x75, 0x6B], [0x68, 0x69], [0x6F, 0x6B]]

def findExact (text : QText) : Option Emoji :=
  (library.find text).bind fun (emoji, length) => if length < text.length then none else some emoji

def normalizeKey (key : QText) : QText := library.trimmed (library.toLower key)

/-- The emoji of a text, whose postfix may be missing. -/
def findEntry (text : QText) : Option (LangPackEmoji Emoji) :=
  (findExact library (if mustAddPostfix text then text ++ [library.kPostfix] else text)).map
    (⟨·, text⟩)

/-- One keyword of a difference. -/
def applyKeyword (data : LangPackData Emoji) : EmojiKeyword → LangPackData Emoji
  | .keyword keyword emoticons =>
    let word := normalizeKey library keyword
    if word = [] then data
    else
      { data with
        emoji := data.emoji.set word
          ((data.emoji.find? word).getD [] ++ emoticons.filterMap (findEntry library)) }
  | .deleted keyword emoticons =>
    let word := normalizeKey library keyword
    if word = [] then data
    else
      match data.emoji.find? word with
      | none => data
      | some list =>
        let left := list.filter fun entry => entry.text ∉ emoticons
        { data with
          emoji := if left.isEmpty then data.emoji.erase word else data.emoji.set word left }

def applyDifference (data : LangPackData Emoji) (keywords : List EmojiKeyword) (version : Int) :
    LangPackData Emoji :=
  let applied := keywords.foldl (applyKeyword library) { data with version := version }
  { applied with
    maxKeyLength := (applied.emoji.entries.map fun pair => pair.1.length).foldr max 0 }

section Queries

variable [DecidableEq Emoji]

/-- What is inserted behind the results is filtered by those that were there before. -/
def insertMissing (result more : List (Result Emoji)) : List (Result Emoji) :=
  result ++ more.filter fun entry => entry.emoji ∉ result.map Result.emoji

def appendFoundEmoji (result : List (Result Emoji)) (label : QText)
    (list : List (LangPackEmoji Emoji)) : List (Result Emoji) :=
  insertMissing result (list.map fun entry => ⟨entry.emoji, label, entry.text⟩)

def badSuggestionChar (ch : Fin 65536) : Bool :=
  (ch < 0x61 ∨ 0x7A < ch) ∧ (ch < 0x41 ∨ 0x5A < ch) ∧ (ch < 0x30 ∨ 0x39 < ch) ∧ ch ≠ 0x5F ∧
    ch ≠ 0x2D ∧ ch ≠ 0x2B

/-- The suggestions of `AppendLegacySuggestions` that have an emoji -/
def legacySuggestions (query : QText) : List (Result Emoji) :=
  if query.any badSuggestionChar then []
  else
    (library.suggestions query).filterMap fun suggestion =>
      (library.find suggestion.emoji).map fun (emoji, _) =>
        ⟨emoji, suggestion.label, suggestion.replacement⟩

namespace LangPackData

/-- The keys that answer, with their emoji. -/
def chosen (data : LangPackData Emoji) (id normalized : QText) (exactly : Bool) :
    List (QText × List (LangPackEmoji Emoji)) :=
  if data.maxKeyLength < normalized.length ∨ data.emoji.entries.isEmpty ∨
      exactly ∧ skipExactKeyword library id normalized then []
  else
    (data.emoji.entries.dropWhile fun pair => pair.1 < normalized).takeWhile fun pair =>
      if exactly then pair.1 = normalized else normalized.isPrefixOf pair.1

def query (data : LangPackData Emoji) (id normalized : QText) (exactly : Bool) :
    List (Result Emoji) :=
  (data.chosen library id normalized exactly).foldl
    (fun result pair => appendFoundEmoji result pair.1 pair.2) []

end LangPackData

/-- `packs` are the language packs by their ids. -/
def query (packs : List (QText × LangPackData Emoji)) (query : QText) (exactly : Bool) :
    List (Result Emoji) :=
  let normalized := library.toLower query
  if normalized = [] then []
  else
    let found := packs.foldl
      (fun result pack => insertMissing result (pack.2.query library pack.1 normalized exactly)) []
    if exactly then found else insertMissing found (legacySuggestions library query)

/-- The emoji of all the lists that a query goes through, in their order. -/
def visited (packs : List (QText × LangPackData Emoji)) (query : QText) (exactly : Bool) :
    List (List Emoji) :=
  if library.toLower query = [] then []
  else
    packs.flatMap (fun pack =>
      (pack.2.chosen library pack.1 (library.toLower query) exactly).map fun pair =>
        pair.2.map LangPackEmoji.emoji) ++
      if exactly then [] else [(legacySuggestions library query).map Result.emoji]

/-- An emoji that is in no earlier list is in a list at most once. -/
def FirstOnce (lists : List (List Emoji)) : Prop :=
  ∀ before list after, lists = before ++ list :: after →
    ∀ emoji, (∀ earlier ∈ before, emoji ∉ earlier) → list.count emoji ≤ 1

/-- Emoji in their order, each one once. -/
def collect (result : List Emoji) (lists : List (List Emoji)) : List Emoji :=
  lists.foldl (fun result list => result ++ list.filter (· ∉ result)) result

theorem collect_append (result : List Emoji) (lists more : List (List Emoji)) :
    collect result (lists ++ more) = collect (collect result lists) more := foldl_append

theorem collect_concat (result : List Emoji) (lists : List (List Emoji)) (list : List Emoji) :
    collect result (lists ++ [list]) =
      collect result lists ++ list.filter (· ∉ collect result lists) :=
  collect_append result lists [list]

theorem mem_collect {result : List Emoji} {lists : List (List Emoji)} {emoji : Emoji} :
    emoji ∈ collect result lists ↔ emoji ∈ result ∨ ∃ list ∈ lists, emoji ∈ list := by
  induction lists using reverseRecOn with
  | nil => simp [collect]
  | append_singleton lists list ih =>
    rw [collect_concat, mem_append, mem_filter, decide_eq_true_iff]
    by_cases old : emoji ∈ collect result lists
    · simp only [old, true_or, true_iff]
      rcases ih.mp old with first | ⟨earlier, member, found⟩
      · exact .inl first
      · exact .inr ⟨earlier, mem_append_left _ member, found⟩
    · have new := mt ih.mpr old
      simp only [not_or, not_exists, not_and] at new
      simp only [old, false_or, not_false_eq_true, and_true, new.1, mem_append, mem_singleton]
      constructor
      · exact fun found => ⟨list, .inr rfl, found⟩
      · rintro ⟨other, member | rfl, found⟩
        · exact absurd found (new.2 other member)
        · exact found

theorem insert_collect (result : List Emoji) (lists : List (List Emoji)) :
    result ++ (collect [] lists).filter (· ∉ result) = collect result lists := by
  induction lists using reverseRecOn with
  | nil => simp [collect]
  | append_singleton lists list ih =>
    rw [collect_concat, collect_concat, filter_append, ← append_assoc, ih, filter_filter]
    congr 1
    apply filter_congr
    intro emoji _
    rw [← Bool.decide_and, decide_eq_decide, mem_collect, mem_collect]
    simp

theorem firstOnce_concat (lists : List (List Emoji)) (list : List Emoji) :
    FirstOnce (lists ++ [list]) ↔ FirstOnce lists ∧
      ∀ emoji, (∀ earlier ∈ lists, emoji ∉ earlier) → list.count emoji ≤ 1 := by
  constructor
  · intro once
    refine ⟨fun before other after split => ?_, once lists list [] rfl⟩
    exact once before other (after ++ [list]) (by rw [split, append_assoc, cons_append])
  · rintro ⟨once, last⟩ before other after split
    rcases eq_nil_or_concat after with rfl | ⟨rest, final, rfl⟩
    · obtain ⟨rfl, same⟩ := append_inj' split rfl
      cases same
      exact last
    · rw [concat_eq_append, ← cons_append, ← append_assoc] at split
      exact once before other rest (append_inj' split rfl).1

theorem nodup_filter_iff {list : List Emoji} {keeps : Emoji → Bool} :
    (list.filter keeps).Nodup ↔ ∀ emoji, keeps emoji = true → list.count emoji ≤ 1 := by
  rw [nodup_iff_count_le_one]
  refine forall_congr' fun emoji => ?_
  cases kept : keeps emoji with
  | true => rw [count_filter kept, imp_iff_right rfl]
  | false =>
    rw [count_eq_zero_of_not_mem fun member => by simp [kept] at member]
    exact iff_of_true zero_le_one fun absurd => by cases absurd

theorem nodup_collect_iff (lists : List (List Emoji)) :
    (collect [] lists).Nodup ↔ FirstOnce lists := by
  induction lists using reverseRecOn with
  | nil =>
    refine iff_of_true nodup_nil fun before list after split => ?_
    exact absurd split.symm (by simp)
  | append_singleton lists list ih =>
    have apart : Disjoint (collect [] lists) (list.filter (· ∉ collect [] lists)) :=
      fun emoji old new => of_decide_eq_true (mem_filter.mp new).2 old
    rw [collect_concat, nodup_append', and_iff_left apart, ih, firstOnce_concat, nodup_filter_iff]
    refine and_congr_right fun _ => forall_congr' fun emoji => imp_congr_left ?_
    rw [decide_eq_true_iff, mem_collect]
    simp

theorem map_insertMissing (result more : List (Result Emoji)) :
    (insertMissing result more).map Result.emoji = result.map Result.emoji ++
      (more.map Result.emoji).filter (· ∉ result.map Result.emoji) := by
  rw [insertMissing, map_append, filter_map]
  rfl

namespace LangPackData

theorem map_query (data : LangPackData Emoji) (id normalized : QText) (exactly : Bool) :
    (data.query library id normalized exactly).map Result.emoji =
      collect [] ((data.chosen library id normalized exactly).map fun pair =>
        pair.2.map LangPackEmoji.emoji) := by
  rw [query]
  generalize data.chosen library id normalized exactly = chosen
  induction chosen using reverseRecOn with
  | nil => rfl
  | append_singleton chosen pair ih =>
    rw [foldl_append, map_append, map_singleton, collect_concat, ← ih]
    rw [foldl_cons, foldl_nil, appendFoundEmoji, map_insertMissing, map_map]
    rfl

end LangPackData

theorem map_query (packs : List (QText × LangPackData Emoji)) (text : QText) (exactly : Bool) :
    (query library packs text exactly).map Result.emoji =
      collect [] (visited library packs text exactly) := by
  rw [query, visited]
  split
  · rfl
  · have found : (packs.foldl (fun result pack =>
        insertMissing result (pack.2.query library pack.1 (library.toLower text) exactly))
          []).map Result.emoji = collect [] (packs.flatMap fun pack =>
        (pack.2.chosen library pack.1 (library.toLower text) exactly).map fun pair =>
          pair.2.map LangPackEmoji.emoji) := by
      induction packs using reverseRecOn with
      | nil => rfl
      | append_singleton packs pack ih =>
        rw [foldl_append, flatMap_append, collect_append, ← ih, foldl_cons, foldl_nil,
          map_insertMissing, LangPackData.map_query, flatMap_singleton, insert_collect]
    cases exactly with
    | true =>
      rw [if_pos rfl, if_pos rfl, append_nil]
      exact found
    | false =>
      rw [if_neg Bool.false_ne_true, if_neg Bool.false_ne_true, collect_concat, map_insertMissing,
        found]

/-- The data of a pack after differences, each of them with its version. -/
def build (differences : List (List EmojiKeyword × Int)) : LangPackData Emoji :=
  differences.foldl (fun data difference => applyDifference library data difference.1 difference.2)
    {}

/-- No emoji is repeated exactly if the first of the visited lists that has it has it once. -/
theorem query_nodup_iff (packs : List (QText × List (List EmojiKeyword × Int))) (text : QText)
    (exactly : Bool) :
    ((query library (packs.map fun pack => (pack.1, build library pack.2)) text exactly).map
      Result.emoji).Nodup ↔
      FirstOnce (visited library (packs.map fun pack => (pack.1, build library pack.2)) text
        exactly) := by
  rw [map_query, nodup_collect_iff]

end Queries

/-- Every text is an emoji. -/
def plain : Library Unit :=
  ⟨fun text => some ((), text.length), 0xFE0F, fun _ => [], id, id, fun _ => true⟩

/-- A keyword that is added twice is found twice. -/
theorem not_query_nodup_again : ¬((query plain
    [([], build plain [([.keyword [0x61] [[0x2764]], .keyword [0x61] [[0x2764]]], 1)])] [0x61]
    false).map Result.emoji).Nodup := by
  decide

end TelegramDesktop.EmojiKeywords
