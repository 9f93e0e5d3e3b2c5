import TelegramDesktop.ChatFilters
import Mathlib.Data.Finset.Sort
import Mathlib.Data.List.Flatten

/-!
# Loading the chats that a folder names

A folder may always show a chat of which it is not known yet whether it lies in the
archive.
-/

namespace TelegramDesktop.ChatFolders

open List

def kLoadExceptionsAfter : Nat := 100

def kLoadExceptionsPerRequest : Nat := 100

/-- What `loadNextExceptions` reads and writes of the folders -/
structure ExceptionsLoader where
  /-- `_list` -/
  list : List ChatFilter
  /-- `_exceptionsToLoad` -/
  exceptionsToLoad : List FilterId
  /-- `_exceptionsLoadRequestId`, zero where no request is in flight -/
  exceptionsLoadRequestId : Nat

namespace ExceptionsLoader

/-- The part of `applyChange` that lets the folder wait: its other chats have changed. -/
def queueExceptions (queue : List FilterId) (filter updated : ChatFilter) : List FilterId :=
  if filter.always ≠ updated.always ∧ updated.always.Nonempty then queue ++ [filter.id] else queue

section Loading

variable (world : World) (list : List ChatFilter)

/-- The chats of the folder with this id whose place is not known, in the order of its set -/
def exceptions (id : FilterId) : List History :=
  match list.find? fun filter => filter.id = id with
  | none => []
  | some filter =>
    (filter.always.sort (· ≤ ·)).filter fun history => !(world.data history).folderKnown

/-- The chats go straight into `inputs`; what is returned beside them is the local `result`,
which only reserves its memory. -/
def collectExceptions (inputs : List History) (id : FilterId) : List History × List History :=
  (inputs ++ exceptions world list id, [])

/-- The loop over the queue: what stays in it, and `inputs` -/
def collectQueue (inputs : List History) :
    List FilterId → Option (List FilterId × List History)
  | [] => some ([], inputs)
  | id :: queue =>
    let collected := collectExceptions world list inputs id
    if kLoadExceptionsPerRequest < collected.1.length + collected.2.length then
      -- `Assert(!inputs.isEmpty())`, and the id has not been taken off yet
      if collected.1.isEmpty then none else some (id :: queue, collected.1)
    else collectQueue (collected.1 ++ collected.2) queue

end Loading

/-- What a call returns, what it leaves, and the chats it asks for if it sends a request. -/
structure Loading where
  returned : Bool
  loader : ExceptionsLoader
  request : Option (List History)

variable (world : World) (fullSize requestId : Nat) (chatsListLoaded : Bool)
  (loader : ExceptionsLoader)

/-- `requestId` is the id that the request gets if one is sent. -/
def loadNextExceptions : Option Loading :=
  if loader.exceptionsLoadRequestId ≠ 0 then some ⟨true, loader, none⟩
  else if !chatsListLoaded ∧ fullSize < kLoadExceptionsAfter then some ⟨false, loader, none⟩
  else
    (collectQueue world loader.list [] loader.exceptionsToLoad).map fun collected =>
      let left := { loader with exceptionsToLoad := collected.1 }
      if collected.2.isEmpty then ⟨false, left, none⟩
      else ⟨true, { left with exceptionsLoadRequestId := requestId }, some collected.2⟩

/-- The request asks for the chats of whole folders from the front of the queue, for as many
as fit into it. -/
structure LoadsWhole (queue rest : List FilterId) (request : List History) : Prop where
  bounded : request.length ≤ kLoadExceptionsPerRequest
  whole : ∃ taken, queue = taken ++ rest ∧ request = taken.flatMap (exceptions world loader.list)
  full : ∀ id ∈ rest,
    kLoadExceptionsPerRequest < request.length + (exceptions world loader.list id).length

section Requests

variable {world : World} {fullSize requestId : Nat} {chatsListLoaded : Bool}
  {loader : ExceptionsLoader} {list : List ChatFilter}

/-- What has been collected may be asked for while it fits, and otherwise the loop stops with
more than fits. -/
theorem collectQueue_spec {queue rest : List FilterId} {inputs request : List History}
    (fits : inputs.length ≤ kLoadExceptionsPerRequest)
    (collected : collectQueue world list inputs queue = some (rest, request)) :
    if (inputs ++ queue.flatMap (exceptions world list)).length ≤ kLoadExceptionsPerRequest then
      rest = [] ∧ request = inputs ++ queue.flatMap (exceptions world list)
    else kLoadExceptionsPerRequest < request.length := by
  induction queue generalizing inputs with
  | nil =>
    cases collected
    rw [flatMap_nil, append_nil, if_pos fits]
    exact ⟨rfl, rfl⟩
  | cons id queue ih =>
    rw [flatMap_cons, ← append_assoc]
    unfold collectQueue collectExceptions at collected
    simp only [length_nil, add_zero, append_nil] at collected
    by_cases more : kLoadExceptionsPerRequest < (inputs ++ exceptions world list id).length
    · rw [if_pos more, Option.ite_none_left_eq_some] at collected
      cases collected.2
      rw [if_neg]
      · exact more
      · rw [length_append]
        omega
    · rw [if_neg more] at collected
      exact ih (Nat.le_of_not_lt more) collected

theorem isSome_collectQueue (world : World) (list : List ChatFilter) (inputs : List History)
    (queue : List FilterId) : (collectQueue world list inputs queue).isSome := by
  induction queue generalizing inputs with
  | nil => rfl
  | cons id queue ih =>
    unfold collectQueue collectExceptions
    simp only [length_nil, add_zero, append_nil]
    split
    next more =>
      have asks : (inputs ++ exceptions world list id).isEmpty = false := by
        rw [isEmpty_eq_false_iff, ← length_pos_iff]
        omega
      rw [asks]
      rfl
    next => exact ih _

theorem loadNextExceptions_eq_some {loading : Loading} {request : List History}
    (called : loadNextExceptions world fullSize requestId chatsListLoaded loader = some loading)
    (sent : loading.request = some request) :
    collectQueue world loader.list [] loader.exceptionsToLoad =
      some (loading.loader.exceptionsToLoad, request) := by
  unfold loadNextExceptions at called
  split at called
  · cases called
    cases sent
  split at called
  · cases called
    cases sent
  obtain ⟨collected, taken, rfl⟩ := Option.map_eq_some_iff.mp called
  rw [taken]
  split at sent
  · cases sent
  next asks =>
    cases sent
    rw [if_neg asks]

/-- A request is as it should be exactly if the chats of all the folders in the queue fit
into it together. -/
theorem loadsWhole_iff (world : World) (fullSize requestId : Nat) (chatsListLoaded : Bool)
    (loader : ExceptionsLoader) (loading : Loading) (request : List History)
    (called : loadNextExceptions world fullSize requestId chatsListLoaded loader = some loading)
    (sent : loading.request = some request) :
    LoadsWhole world loader loader.exceptionsToLoad loading.loader.exceptionsToLoad request ↔
      (loader.exceptionsToLoad.flatMap (exceptions world loader.list)).length ≤
        kLoadExceptionsPerRequest := by
  have collected := collectQueue_spec (Nat.zero_le _) (loadNextExceptions_eq_some called sent)
  rw [nil_append] at collected
  constructor
  · intro loads
    by_contra more
    rw [if_neg more] at collected
    exact absurd loads.bounded (Nat.not_le_of_lt collected)
  · intro fits
    rw [if_pos fits] at collected
    obtain ⟨emptied, rfl⟩ := collected
    rw [emptied]
    refine ⟨fits, ⟨loader.exceptionsToLoad, (append_nil _).symm, rfl⟩, ?_⟩
    intro id stays
    cases stays

/-- A group of which it is not known whether it is archived. -/
def unknownData : HistoryData := ⟨.chat, false, false, false, false, 0, false, false⟩

def unknownWorld : World := ⟨fun _ => unknownData, [], List.nodup_nil, fun _ => 100⟩

/-- A folder that always shows the first chats, as many as `count` -/
def folderOf (id : FilterId) (count : Nat) : ChatFilter :=
  { ChatFilter.withoutRules id with always := Finset.range count }

/-- Two folders wait for as many chats each. -/
def twoWait (first second : Nat) : ExceptionsLoader where
  list := [folderOf 2 first, folderOf 3 second]
  exceptionsToLoad :=
    queueExceptions (queueExceptions [] (ChatFilter.withoutRules 2) (folderOf 2 first))
      (ChatFilter.withoutRules 3) (folderOf 3 second)
  exceptionsLoadRequestId := 0

theorem twoWait_queue {first second : Nat} (hasFirst : 0 < first) (hasSecond : 0 < second) :
    (twoWait first second).exceptionsToLoad = [2, 3] := by
  have changed {count : Nat} (some : 0 < count) : (∅ : Finset History) ≠ Finset.range count := by
    apply Ne.symm
    simp [some.ne']
  simp [twoWait, queueExceptions, folderOf, ChatFilter.withoutRules, changed hasFirst,
    changed hasSecond, hasFirst.ne', hasSecond.ne']

theorem exceptions_folderOf (id : FilterId) (count : Nat)
    (found : list.find? (fun filter => decide (filter.id = id)) = some (folderOf id count)) :
    exceptions unknownWorld list id = List.range count := by
  rw [exceptions, found]
  simp [folderOf, unknownWorld, unknownData, Finset.sort_range]

/-- One request asks for the chats of both folders. -/
theorem loadsWhole_iff_one_folder :
    LoadsWhole unknownWorld (twoWait 1 2) [2, 3] [] [0, 0, 1] ↔
      ([2, 3].flatMap (exceptions unknownWorld (twoWait 1 2).list)).length ≤
        kLoadExceptionsPerRequest := by
  have queue := twoWait_queue Nat.one_pos Nat.two_pos
  have first : exceptions unknownWorld (twoWait 1 2).list 2 = [0] := exceptions_folderOf 2 1 rfl
  have second : exceptions unknownWorld (twoWait 1 2).list 3 = [0, 1] :=
    exceptions_folderOf 3 2 rfl
  have called : loadNextExceptions unknownWorld 0 1 true (twoWait 1 2) =
      some ⟨true, { twoWait 1 2 with exceptionsToLoad := [], exceptionsLoadRequestId := 1 },
        some [0, 0, 1]⟩ := by
    simp [loadNextExceptions, queue, collectQueue, collectExceptions, first, second,
      kLoadExceptionsPerRequest]
    rfl
  rw [← queue]
  exact loadsWhole_iff unknownWorld 0 1 true (twoWait 1 2) _ [0, 0, 1] called rfl

/-- The request asks for all the chats of the second folder, which stays in the queue. -/
theorem not_loadsWhole_two_folders :
    ¬∀ (world : World) (fullSize requestId : Nat) (chatsListLoaded : Bool)
      (loader : ExceptionsLoader) (loading : Loading) (request : List History),
      (∀ filter ∈ loader.list,
        (filter.always.filter fun history => !(world.data history).folderKnown).card ≤
          kLoadExceptionsPerRequest) →
      loadNextExceptions world fullSize requestId chatsListLoaded loader = some loading →
      loading.request = some request →
      LoadsWhole world loader loader.exceptionsToLoad loading.loader.exceptionsToLoad request := by
  intro claim
  have few : ∀ filter ∈ (twoWait 60 60).list,
      (filter.always.filter fun history => !(unknownWorld.data history).folderKnown).card ≤
        kLoadExceptionsPerRequest := by
    intro filter member
    simp only [twoWait, mem_cons, not_mem_nil, or_false] at member
    rcases member with rfl | rfl <;>
      simp [folderOf, unknownWorld, unknownData, kLoadExceptionsPerRequest]
  have queue : (twoWait 60 60).exceptionsToLoad = [2, 3] := twoWait_queue (by decide) (by decide)
  obtain ⟨⟨rest, request⟩, collected⟩ := Option.isSome_iff_exists.mp
    (isSome_collectQueue unknownWorld (twoWait 60 60).list [] (twoWait 60 60).exceptionsToLoad)
  have long : kLoadExceptionsPerRequest < request.length := by
    have spec := collectQueue_spec (Nat.zero_le _) collected
    rw [if_neg] at spec
    · exact spec
    · rw [queue]
      simp only [flatMap_cons, flatMap_nil, length_append, length_nil]
      rw [exceptions_folderOf 2 60 rfl, exceptions_folderOf 3 60 rfl, length_range]
      decide
  have called : loadNextExceptions unknownWorld 0 1 true (twoWait 60 60) =
      some ⟨true, { twoWait 60 60 with exceptionsToLoad := rest, exceptionsLoadRequestId := 1 },
        some request⟩ := by
    have asked : request ≠ [] := by
      rw [← length_pos_iff]
      omega
    unfold loadNextExceptions
    rw [collected]
    simp [twoWait, asked]
  exact absurd (claim _ _ _ _ _ _ _ few called rfl).bounded (Nat.not_le_of_lt long)

end Requests

end ExceptionsLoader

end TelegramDesktop.ChatFolders
