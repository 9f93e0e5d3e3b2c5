import TelegramDesktop.DialogsList
import TelegramDesktop.FlatSet

/-!
# Letter index of a chats list

Besides the list of all its rows an indexed list has one list for each letter that names
begin with, as in `dialogs/dialogs_indexed_list.cpp`.
-/

namespace TelegramDesktop

open Dialogs (SortMode Row Entries)

/-- A list of chats with one list for every first letter. -/
structure DialogsIndexedList (K C : Type*) [LinearOrder K] [LinearOrder C] where
  sortMode : SortMode
  list : DialogsList K := { sortMode }
  index : FlatMap C (DialogsList K) := ∅

namespace DialogsIndexedList

variable {K C D N : Type*} [LinearOrder K] [LinearOrder C]

/-- `chatListFirstLetters` of the entries. -/
abbrev Letters (K C : Type*) [LinearOrder C] := K → FlatSet C

/-- A change of the list of one letter, which is made where there is none. -/
def changeLetter (sortMode : SortMode) (change : DialogsList K → DialogsList K)
    (index : FlatMap C (DialogsList K)) (ch : C) : FlatMap C (DialogsList K) :=
  index.set ch (change ((index.find? ch).getD { sortMode }))

/-- Only a list that exists is changed. -/
def changeFound (change : DialogsList K → DialogsList K) (index : FlatMap C (DialogsList K))
    (ch : C) : FlatMap C (DialogsList K) :=
  match index.find? ch with
  | some list => index.set ch (change list)
  | none => index

variable (indexed : DialogsIndexedList K C) (entries : Entries K D N) (firstLetters : Letters K C)

/-- `addToEnd` -/
def addToEnd [LinearOrder D] (key : K) : DialogsIndexedList K C :=
  match indexed.list.getRow key with
  | some _ => indexed
  | none =>
    { indexed with
      list := (indexed.list.addToEnd entries key).1
      index := (firstLetters key).keys.foldl
        (changeLetter indexed.sortMode fun list => (list.addToEnd entries key).1)
        indexed.index }

/-- `addByName` -/
def addByName [LinearOrder D] [LinearOrder N] (key : K) : DialogsIndexedList K C :=
  match indexed.list.getRow key with
  | some _ => indexed
  | none =>
    { indexed with
      list := (indexed.list.addByName entries key).1
      index := (firstLetters key).keys.foldl
        (changeLetter indexed.sortMode fun list => (list.addByName entries key).1)
        indexed.index }

/-- The letters that were lost and those that are new, with the index once the lists of the
others were passed to `kept`. -/
def compareLetters (kept : FlatMap C (DialogsList K) → C → FlatMap C (DialogsList K))
    (letters oldLetters : FlatSet C) (index : FlatMap C (DialogsList K)) :
    FlatSet C × FlatSet C × FlatMap C (DialogsList K) :=
  letters.keys.foldl
    (fun (toRemove, toAdd, index) ch =>
      if ch ∈ toRemove then (toRemove.erase ch, toAdd, kept index ch)
      else (toRemove, toAdd.insert ch, index))
    (oldLetters, ∅, index)

/-- The lists of letters when those of a name have changed. -/
def adjustLetters (kept : FlatMap C (DialogsList K) → C → FlatMap C (DialogsList K))
    (add : DialogsList K → DialogsList K) (key : K) (letters oldLetters : FlatSet C) :
    FlatMap C (DialogsList K) :=
  let (toRemove, toAdd, index) := compareLetters kept letters oldLetters indexed.index
  toAdd.keys.foldl (changeLetter indexed.sortMode add)
    (toRemove.keys.foldl (changeFound fun list => (list.del key).1) index)

/-- `adjustByName` -/
def adjustByName [LinearOrder D] [LinearOrder N] (key : K) (oldLetters : FlatSet C) :
    DialogsIndexedList K C :=
  match indexed.list.adjustByName entries key with
  | (_, none) => indexed
  | (list, some _) =>
    { indexed with
      list
      index := indexed.adjustLetters (changeFound fun list => (list.adjustByName entries key).1)
        (fun list => (list.addByName entries key).1) key (firstLetters key) oldLetters }

/-- `adjustNames` -/
def adjustNames [LinearOrder D] (key : K) (oldLetters : FlatSet C) : DialogsIndexedList K C :=
  match indexed.list.getRow key with
  | none => indexed
  | some _ =>
    { indexed with
      index := indexed.adjustLetters (fun index _ => index)
        (fun list => (list.addToEnd entries key).1) key (firstLetters key) oldLetters }

/-- `peerNameChanged` -/
def peerNameChanged [LinearOrder D] [LinearOrder N] (key : K) (oldLetters : FlatSet C) :
    DialogsIndexedList K C :=
  if indexed.sortMode = .name then indexed.adjustByName entries firstLetters key oldLetters
  else indexed.adjustNames entries firstLetters key oldLetters

/-- `del` -/
def del (key : K) : DialogsIndexedList K C :=
  match indexed.list.del key with
  | (list, true) =>
    { indexed with
      list
      index := (firstLetters key).keys.foldl (changeFound fun list => (list.del key).1)
        indexed.index }
  | (_, false) => indexed

/-- `clear`: the list of all rows stays as it is. -/
def clear : DialogsIndexedList K C := { indexed with index := ∅ }

/-- The keys that are listed under a letter. -/
def letterKeys (ch : C) : List K :=
  (indexed.index.find? ch).elim [] fun list => list.rows.map Row.key

/-- The loop of `filtered` that looks for the shortest of the lists of the letters. -/
def minimal (index : FlatMap C (DialogsList K)) :
    List (List C) → Option (DialogsList K) → Option (DialogsList K)
  | [], result => result
  | [] :: words, result => minimal index words result
  | (ch :: _) :: words, result =>
    match index.find? ch with
    | none => none
    | some found =>
      if found.rows = [] then none
      else minimal index words (if result.any (·.rows.length ≤ found.rows.length) then result
        else some found)

/-- `filtered`, by the `chatListNameWords` of the entries -/
def filtered (nameWords : K → List (List C)) (words : List (List C)) : List (Row K) :=
  let rows :=
    if indexed.list.rows = [] then [] else (minimal indexed.index words none).elim [] (·.rows)
  rows.filter fun row =>
    words.all fun word => (nameWords row.key).any fun name => word.isPrefixOf name

end DialogsIndexedList

end TelegramDesktop
