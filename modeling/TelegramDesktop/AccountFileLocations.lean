import TelegramDesktop.Runs
import Mathlib.Data.List.TakeWhile

/-!
# Recorded file locations

The places of downloaded files are kept by media keys, with the key that each file name
was recorded for and the keys that stand for others, as in `storage/storage_account.cpp`.
A location may be recorded and not be found again at once: a name that has the location
already is left where it is, also when its key has a later location, has none any more,
or is not the one that is asked next.
-/

namespace TelegramDesktop

abbrev MediaKey := UInt64 × UInt64

namespace AccountFileLocations

/-- `name` is where the file is now, which a bookmark may tell. -/
structure FileLocation where
  fname : String := ""
  name : String := fname
  modified : Int := 0
  size : Int := 0
  deriving DecidableEq

def kInMediaCacheLocation : String := "*media_cache*"

namespace FileLocation

variable (location other : FileLocation)

def inMediaCache : Bool := location.fname = kInMediaCacheLocation

def same : Bool :=
  location.name = other.name ∧ location.modified = other.modified ∧ location.size = other.size

end FileLocation

end AccountFileLocations

open AccountFileLocations in
/-- The locations of a key begin with the one that was inserted last. -/
structure AccountFileLocations where
  fileLocations : MediaKey → List FileLocation := fun _ => []
  fileLocationPairs : String → Option (MediaKey × FileLocation) := fun _ => none
  fileLocationAliases : MediaKey → Option MediaKey := fun _ => none
  locationsChanged : Bool := false

namespace AccountFileLocations

variable (check : FileLocation → Bool) (account : AccountFileLocations)

/-- The key that an old one is an alias of. -/
def modernKey (location : MediaKey) : MediaKey :=
  (account.fileLocationAliases location).getD location

/-- Whether the file is in the cache, or is there as it was when it was written. -/
def isValid (location : FileLocation) : Bool := location.inMediaCache || check location

/-- `_fileLocations.insert`, with the pair of its name. -/
def insert (location : MediaKey) (loc : FileLocation) : AccountFileLocations :=
  { account with
    fileLocations := Function.update account.fileLocations location
      (loc :: account.fileLocations location)
    locationsChanged := true }

/-- The location that a name had for another key is erased. -/
def erasePair (location : MediaKey) (fname : String) : AccountFileLocations :=
  match account.fileLocationPairs fname with
  | none => account
  | some (first, second) =>
    if first = location then account
    else
      { account with
        fileLocations := Function.update account.fileLocations first
          ((account.fileLocations first).eraseP fun other => other.same second)
        fileLocationPairs := Function.update account.fileLocationPairs fname none }

/-- The key that the name of a file is paired with, where it is this file. -/
def recordedFor (loc : FileLocation) : Option MediaKey :=
  (account.fileLocationPairs loc.fname).bind fun pair =>
    if pair.2.same loc then some pair.1 else none

def writeFileLocation (location : MediaKey) (loc : FileLocation) : AccountFileLocations :=
  if loc.fname = "" then account
  else if loc.inMediaCache = false then
    let location := account.modernKey location
    match account.recordedFor loc with
    | some first =>
      if first = location then account
      else
        { account with
          fileLocationAliases :=
            Function.update account.fileLocationAliases location (some first)
          locationsChanged := true }
    | none =>
      let erased := account.erasePair location loc.fname
      { erased with
        fileLocationPairs :=
          Function.update erased.fileLocationPairs loc.fname (some (location, loc))
      }.insert location loc
  else
    let left := (account.fileLocations location).dropWhile fun other => !isValid check other
    let dropped :=
      { account with fileLocations := Function.update account.fileLocations location left }
    if left = [] then dropped.insert location loc else dropped

def removeFileLocation (location : MediaKey) : AccountFileLocations :=
  if account.fileLocations location = [] then account
  else
    { account with
      fileLocations := Function.update account.fileLocations location []
      locationsChanged := true }

/-- The locations that are not valid any more are erased, with what is kept by their names. -/
def readFileLocation (location : MediaKey) : FileLocation × AccountFileLocations :=
  let location := account.modernKey location
  let listed := account.fileLocations location
  let erased := listed.takeWhile fun other => !isValid check other
  let left := listed.dropWhile fun other => !isValid check other
  (left.head?.getD {},
    { account with
      fileLocations := Function.update account.fileLocations location left
      fileLocationPairs := fun fname =>
        if fname ∈ erased.map FileLocation.fname then none else account.fileLocationPairs fname
      locationsChanged := account.locationsChanged || !erased.isEmpty })

/-- What is asked of the file locations of an account. -/
inductive Event
  | writeFileLocation (location : MediaKey) (loc : FileLocation)
  | removeFileLocation (location : MediaKey)
  | readFileLocation (location : MediaKey)

def step (account : AccountFileLocations) : Event → Option AccountFileLocations
  | .writeFileLocation location loc => some (account.writeFileLocation check location loc)
  | .removeFileLocation location => some (account.removeFileLocation location)
  | .readFileLocation location => some (account.readFileLocation check location).2

/-- A location is found for the key right after it was recorded for it. -/
def IsLookedUp (location : MediaKey) (loc : FileLocation) : Prop :=
  (((account.writeFileLocation check location loc).readFileLocation check location).1.same loc) =
    true

/-- The key that a lookup reads when the location was recorded for another one already: a
key that was no alias becomes one. -/
def aliasedKey (location first : MediaKey) : MediaKey :=
  if account.modernKey location = location then first else account.modernKey location

/-- The first valid location of a key. -/
def lookedUp (location : MediaKey) : FileLocation :=
  ((account.fileLocations location).find? (isValid check)).getD {}

/-- The name does not have the location, or the location is the first valid one of the key
that a lookup reads. -/
def IsFresh (location : MediaKey) (loc : FileLocation) : Prop :=
  ∀ first, account.recordedFor loc = some first →
    ((account.lookedUp check (account.aliasedKey location first)).same loc) = true

section Lookup

variable {check} {location : MediaKey} {loc : FileLocation}

theorem readFileLocation_fst (location : MediaKey) :
    (account.readFileLocation check location).1 =
      account.lookedUp check (account.modernKey location) := by
  rw [lookedUp, List.find?_eq_head?_dropWhile_not]
  rfl

theorem same_self (loc : FileLocation) : loc.same loc = true := by simp [FileLocation.same]

theorem erasePair_aliases (fname : String) :
    (account.erasePair location fname).fileLocationAliases = account.fileLocationAliases := by
  unfold erasePair
  split
  · rfl
  · split_ifs <;> rfl

section

variable (named : loc.fname ≠ "") (notCached : loc.inMediaCache = false)
include named notCached

theorem isLookedUp_of_new (checked : check loc = true) (isNew : account.recordedFor loc = none) :
    account.IsLookedUp check location loc := by
  have sameKey : (account.writeFileLocation check location loc).modernKey location =
      account.modernKey location := by
    simp only [writeFileLocation, if_neg named, notCached, isNew, insert, modernKey,
      erasePair_aliases, if_true]
  have isFirst : (account.writeFileLocation check location loc).lookedUp check
      (account.modernKey location) = loc := by
    simp [writeFileLocation, named, notCached, isNew, insert, lookedUp, isValid, checked]
  rw [IsLookedUp, readFileLocation_fst, sameKey, isFirst]
  exact same_self loc

/-- A location that its name has already is looked up where it is, or where the key stands
for. -/
theorem isLookedUp_iff_of_recorded {first : MediaKey}
    (recorded : account.recordedFor loc = some first) :
    account.IsLookedUp check location loc ↔
      ((account.lookedUp check (account.aliasedKey location first)).same loc) = true := by
  have isKey : (account.writeFileLocation check location loc).modernKey location =
      account.aliasedKey location first := by
    simp only [writeFileLocation, if_neg named, notCached, recorded, if_true]
    by_cases same : first = account.modernKey location
    · rw [if_pos same, aliasedKey, ← same]
      split_ifs <;> rfl
    · rw [if_neg same, aliasedKey]
      change (Function.update account.fileLocationAliases (account.modernKey location) (some first)
        location).getD location = _
      by_cases isAlias : account.modernKey location = location
      · rw [if_pos isAlias, isAlias, Function.update_self]
        rfl
      · rw [if_neg isAlias, Function.update_of_ne (Ne.symm isAlias)]
        rfl
  have sameLocations : (account.writeFileLocation check location loc).fileLocations =
      account.fileLocations := by
    simp only [writeFileLocation, if_neg named, notCached, recorded, if_true]
    split_ifs <;> rfl
  rw [IsLookedUp, readFileLocation_fst, isKey, lookedUp, lookedUp, sameLocations]

theorem isLookedUp_iff (checked : check loc = true) :
    account.IsLookedUp check location loc ↔ account.IsFresh check location loc := by
  cases recorded : account.recordedFor loc with
  | none =>
    refine iff_of_true (account.isLookedUp_of_new named notCached checked recorded) ?_
    intro first other
    rw [recorded] at other
    cases other
  | some first =>
    rw [account.isLookedUp_iff_of_recorded named notCached recorded, IsFresh, recorded]
    simp

end

end Lookup

/-- A location that is written is looked up under its key. -/
def FindsWritten (account : AccountFileLocations) : Event → Prop
  | .writeFileLocation location loc =>
    loc.fname ≠ "" → loc.inMediaCache = false → check loc = true →
      account.IsLookedUp check location loc
  | _ => True

/-- A location is written where the maps hold nothing stale of it. -/
def WritesFresh (account : AccountFileLocations) : Event → Prop
  | .writeFileLocation location loc =>
    loc.fname ≠ "" → loc.inMediaCache = false → check loc = true →
      account.IsFresh check location loc
  | _ => True

/-- In a run all that is recorded is found at once if and only if every name that is written
does not have its location yet, or has it where the lookup finds it first. -/
theorem findsWritten_iff (start : AccountFileLocations) (events : List Event) :
    RunMeets (step check) (FindsWritten check) start events ↔
      RunMeets (step check) (WritesFresh check) start events := by
  apply runMeets_congr
  intro account event
  cases event with
  | writeFileLocation location loc =>
    refine imp_congr_right fun named => imp_congr_right fun notCached =>
      imp_congr_right fun checked => ?_
    exact account.isLookedUp_iff named notCached checked
  | removeFileLocation location => exact Iff.rfl
  | readFileLocation location => exact Iff.rfl

/-- A location that is recorded again is not found before the one that was recorded after it. -/
theorem not_findsWritten_again :
    ¬∀ (check : FileLocation → Bool) (events : List Event), (∀ loc, check loc = true) →
      RunMeets (step check) (FindsWritten check) {} events := by
  intro all
  let first : FileLocation := { fname := "first" }
  let second : FileLocation := { fname := "second" }
  have finds := (all (fun _ => true)
    ([.writeFileLocation (1, 1) first, .writeFileLocation (1, 1) second] ++
      .writeFileLocation (1, 1) first :: []) fun _ => rfl).at_event rfl
  have found := finds (by decide) (by decide) rfl
  revert found
  unfold IsLookedUp
  decide

end AccountFileLocations

end TelegramDesktop
