import TelegramDesktop.DownloadManagerList

/-!
# Counters of unresolved entries

The entries of a list that have no object yet are its first `resolveNeeded` ones.
-/

namespace TelegramDesktop.Downloads

open Option List

namespace Listing

/-- Resolving goes from the end of the listing, and all behind the point it has come to is
resolved. -/
structure Counted (listing : Listing) : Prop where
  sent : listing.resolveSentTotal ≤ listing.resolveNeeded
  needed : listing.resolveNeeded ≤ listing.downloaded.length
  resolved : ∀ i entry, listing.resolveNeeded ≤ i → listing.downloaded[i]? = some entry →
    entry.object.isSome = true

/-- The last of those that are still to be resolved. -/
def lastUnresolved (listing : Listing) (count : Nat) : List DownloadedId :=
  (listing.downloaded.take listing.resolveNeeded).drop (listing.resolveNeeded - count)

/-- The entries that `resolve` examines next. -/
def batch (listing : Listing) : List DownloadedId := listing.lastUnresolved maxResolvePerAttempt

theorem getElem?_lastUnresolved {listing : Listing} {count i : Nat} :
    (listing.lastUnresolved count)[i]? =
      if listing.resolveNeeded - count + i < listing.resolveNeeded then
        listing.downloaded[listing.resolveNeeded - count + i]?
      else none := by
  rw [lastUnresolved, getElem?_drop, getElem?_take]

theorem mem_batch {listing : Listing} {entry : DownloadedId} :
    entry ∈ listing.batch ↔ ∃ j, listing.resolveNeeded - maxResolvePerAttempt ≤ j ∧
      j < listing.resolveNeeded ∧ listing.downloaded[j]? = some entry := by
  rw [batch, mem_iff_getElem?]
  constructor
  · rintro ⟨i, found⟩
    rw [getElem?_lastUnresolved] at found
    split at found
    · exact ⟨_, by omega, by omega, found⟩
    · cases found
  · rintro ⟨j, above, below, found⟩
    refine ⟨j - (listing.resolveNeeded - maxResolvePerAttempt), ?_⟩
    rw [getElem?_lastUnresolved, if_pos (by omega), ← found]
    congr 1
    omega

/-- What is still to be resolved has no object. -/
def Unresolved (listing : Listing) : Prop :=
  ∀ i entry, i < listing.resolveNeeded → listing.downloaded[i]? = some entry → entry.object = none

theorem Unresolved.needed_le {listing : Listing} {i : Nat} {entry : DownloadedId}
    {object : DownloadObject} (unresolved : listing.Unresolved)
    (found : listing.downloaded[i]? = some entry) (has : entry.object = some object) :
    listing.resolveNeeded ≤ i := by
  by_contra below
  have none := unresolved i entry (by omega) found
  rw [has] at none
  cases none

end Listing

theorem lt_length_of_getElem? {α : Type*} {list : List α} {i : Nat} {value : α}
    (found : list[i]? = some value) : i < list.length :=
  (List.getElem?_eq_some_iff.mp found).1

namespace DownloadManager

/-- A property of the listings of all sessions. -/
def AllListings (Holds : Listing → Prop) (manager : DownloadManager) : Prop :=
  ∀ session listing, manager.listing session = some listing → Holds listing

section AllListings

variable {Holds : Listing → Prop} {before after : DownloadManager} {session : Session}
  {listing next : Listing}

theorem AllListings.same (all : AllListings Holds before) (same : SameListings before after) :
    AllListings Holds after := by
  intro session listing found
  rw [same.listing] at found
  exact all session listing found

theorem AllListings.relisted (all : AllListings Holds before)
    (relisted : Relisted before after session listing next) (holds : Holds next) :
    AllListings Holds after := by
  intro other found here
  by_cases same : other = session
  · rw [same, relisted.now] at here
    cases here
    exact holds
  · rw [relisted.others other same] at here
    exact all other found here

end AllListings

/-- The counters fit the lists, and only what they count has no object. -/
def Sound (manager : DownloadManager) : Prop :=
  AllListings (fun listing => listing.Counted ∧ listing.Unresolved) manager

variable {allowed : Prop} {before after : DownloadManager}

theorem Effect.sound (effect : Effect allowed before after)
    (sound : before.Sound) : after.Sound := by
  cases effect with
  | same same => exact AllListings.same sound same
  | @append session listing entry object relisted accepted has shaped own fresh loaded generated
      made =>
    obtain ⟨counted, unresolved⟩ := sound session listing relisted.was
    have inside := counted.needed
    refine AllListings.relisted sound relisted ⟨⟨counted.sent, ?_, ?_⟩, ?_⟩
    · dsimp only
      rw [length_append]
      omega
    · intro i other above found
      rw [getElem?_append] at found
      split at found
      · exact counted.resolved i other above found
      · obtain ⟨-, rfl⟩ : i - listing.downloaded.length = 0 ∧ entry = other := by
          cases first : i - listing.downloaded.length with
          | zero =>
            rw [first] at found
            exact ⟨rfl, some.inj found⟩
          | succ k =>
            rw [first] at found
            cases found
        rw [has]
        rfl
    · intro i other below found
      dsimp only at below found
      rw [getElem?_append_left (by omega)] at found
      exact unresolved i other below found
  | @erase session listing entry object i relisted found has loaded generated made =>
    obtain ⟨counted, unresolved⟩ := sound session listing relisted.was
    have above := unresolved.needed_le found has
    have inside := lt_length_of_getElem? found
    refine AllListings.relisted sound relisted ⟨⟨counted.sent, ?_, ?_⟩, ?_⟩
    · dsimp only
      rw [length_eraseIdx_of_lt inside]
      omega
    · intro j other past there
      rw [getElem?_eraseIdx] at there
      split at there
      · exact counted.resolved j other past there
      · exact counted.resolved (j + 1) other (by omega) there
    · intro j other below there
      dsimp only at below there
      rw [getElem?_eraseIdx, if_pos (by omega)] at there
      exact unresolved j other below there
  | @renew session listing entry object i relisted found has loaded generated made =>
    obtain ⟨counted, unresolved⟩ := sound session listing relisted.was
    have above := unresolved.needed_le found has
    have inside := lt_length_of_getElem? found
    refine AllListings.relisted sound relisted ⟨⟨counted.sent, ?_, ?_⟩, ?_⟩
    · rw [length_set]
      exact counted.needed
    · intro j other past there
      rw [getElem?_set] at there
      split at there
      · cases there
        rfl
      · exact counted.resolved j other past there
    · intro j other below there
      dsimp only at below there
      rw [getElem?_set, if_neg (by omega)] at there
      exact unresolved j other below there

theorem Effects.sound (effects : Effects allowed before after)
    (sound : before.Sound) : after.Sound := by
  induction effects with
  | refl => exact sound
  | tail _ effect ih => exact effect.sound ih

/-- The message that still has what was downloaded. -/
def keptMessage (world : World) (session : Session) (entry : DownloadedId) : Option Item :=
  (world.message session entry.itemId).filter fun item => isKept entry (world.media item)

/-- What one round of `resolveRequestsFinished` does. -/
inductive Finishes (world : World) (allowed : Prop) (session : Session)
    (before after : DownloadManager) : Prop
  | drop {listing : Listing} {entry : DownloadedId} (positive : listing.resolveNeeded ≠ 0)
      (found : listing.downloaded[listing.resolveNeeded - 1]? = some entry)
      (deleted : entry.path.isEmpty = true)
      (relisted : Relisted before after session listing
        { listing with
          downloaded := listing.downloaded.eraseIdx (listing.resolveNeeded - 1)
          resolveNeeded := listing.resolveNeeded - 1
          resolveSentTotal := listing.resolveSentTotal - 1 })
      (loaded : after.loaded = before.loaded) (generated : after.generated = before.generated)
      (made : after.made = before.made)
  | resolve {listing : Listing} {entry : DownloadedId} {object : DownloadObject}
      (positive : listing.resolveNeeded ≠ 0)
      (found : listing.downloaded[listing.resolveNeeded - 1]? = some entry)
      (kept : entry.path.isEmpty = false)
      (relisted : Relisted before after session listing
        { listing with
          downloaded :=
            listing.downloaded.set (listing.resolveNeeded - 1) { entry with object := some object }
          resolveNeeded := listing.resolveNeeded - 1
          resolveSentTotal := listing.resolveSentTotal - 1 })
      (own : object.item.session = session) (shaped : object.Shaped)
      (origin : keptMessage world session entry = some object.item ∨
        before.hasItem object.item = false)
      (fresh : allowed ∨ object.item ∉ before.loaded ∧ after.hasItem object.item = true)
      (loaded : after.loaded = insert object.item before.loaded)
      (made : before.made ≤ after.made)

variable {world : World} {manager next : DownloadManager} {session : Session}

theorem resolveEntry_cases {entry resolved : DownloadedId}
    (taken : manager.resolveEntry world session entry = some (resolved, next)) :
    ∃ object, resolved = { entry with object := some object } ∧ object.item.session = session ∧
      object.Shaped ∧ next.loaded = insert object.item manager.loaded ∧
      next.sessions = manager.sessions ∧
      (keptMessage world session entry = some object.item ∧ next.made = manager.made ∨
        keptMessage world session entry = none ∧ object.item = ⟨session, manager.made, true⟩ ∧
          next.made = manager.made + 1) := by
  unfold resolveEntry at taken
  dsimp only at taken
  split at taken
  next kept =>
    obtain ⟨item, message, result⟩ := map_eq_some_iff.mp taken
    cases result
    rw [message] at kept
    refine ⟨_, rfl, world.message_session session _ item message, ?_, rfl, rfl, .inl ⟨?_, rfl⟩⟩
    · unfold isKept at kept
      split at kept
      · exact .inl (message ▸ of_decide_eq_true kept ▸ rfl)
      · exact .inr (message ▸ of_decide_eq_true kept ▸ rfl)
    · rw [keptMessage, message]
      exact if_pos kept
  next lost =>
    unfold generateEntry at taken
    split at taken
    · cases taken
      refine ⟨_, rfl, rfl, .inl rfl, rfl, rfl, .inr ⟨?_, rfl, rfl⟩⟩
      rw [keptMessage]
      cases message : world.message session entry.itemId with
      | none => rfl
      | some item =>
        rw [message] at lost
        exact if_neg lost
    · cases taken

theorem finishOne_finishes
    (known : allowed ∨ ∀ item ∈ manager.loaded, manager.hasItem item = true)
    (fresh : ∀ listing entry item, manager.listing session = some listing →
      listing.downloaded[listing.resolveNeeded - 1]? = some entry → entry.path.isEmpty = false →
        keptMessage world session entry = some item →
          allowed ∨ item ∉ manager.loaded ∧ manager.hasItem item = true)
    (finished : manager.finishOne world session = some next) :
    Finishes world allowed session manager next := by
  obtain ⟨data, found, taken⟩ := bind_eq_some_iff.mp finished
  split at taken
  · cases taken
  next positive =>
    obtain ⟨entry, present, rest⟩ := bind_eq_some_iff.mp taken
    split at rest
    next deleted =>
      cases rest
      exact .drop positive present deleted (.setData found rfl) rfl rfl rfl
    next nonempty =>
      have kept : entry.path.isEmpty = false := Bool.eq_false_iff.mpr nonempty
      obtain ⟨⟨resolved, middle⟩, result, rfl⟩ := map_eq_some_iff.mp rest
      obtain ⟨object, rfl, own, shaped, loaded, sessions, ways⟩ := resolveEntry_cases result
      refine .resolve positive present kept (.setData found sessions) own shaped ?_ ?_ loaded ?_
      · rcases ways with ⟨message, -⟩ | ⟨-, item, -⟩
        · exact .inl message
        · exact .inr (by simp [hasItem, item])
      · rcases ways with ⟨message, made⟩ | ⟨-, item, made⟩
        · rcases fresh _ entry object.item (listing_of_sessionData found) present kept message with
            all | ⟨unlisted, has⟩
          · exact .inl all
          · refine .inr ⟨unlisted, ?_⟩
            have same : ∀ data, (middle.setData session data).made = manager.made := fun _ => made
            rw [hasItem, same]
            exact has
        · rcases known with all | known
          · exact .inl all
          · refine .inr ⟨?_, ?_⟩
            · intro listed
              have has := known object.item listed
              rw [item] at has
              simp [hasItem] at has
            · have more : ∀ data, (middle.setData session data).made = manager.made + 1 :=
                fun _ => made
              rw [item, hasItem, more]
              simp
      · rcases ways with ⟨-, made⟩ | ⟨-, -, made⟩
        · exact made.ge
        · exact (Nat.le_succ _).trans made.ge

theorem Finishes.sound
    (finishes : Finishes world allowed session before after) (sound : before.Sound) :
    after.Sound := by
  cases finishes with
  | @drop listing entry positive found deleted relisted loaded generated made =>
    obtain ⟨counted, unresolved⟩ := sound session listing relisted.was
    have sent := counted.sent
    have inside := lt_length_of_getElem? found
    refine AllListings.relisted sound relisted ⟨⟨?_, ?_, ?_⟩, ?_⟩
    · dsimp only
      omega
    · dsimp only
      rw [length_eraseIdx_of_lt inside]
      omega
    · intro j other past there
      dsimp only at past there
      rw [getElem?_eraseIdx, if_neg (by omega)] at there
      exact counted.resolved (j + 1) other (by omega) there
    · intro j other below there
      dsimp only at below there
      rw [getElem?_eraseIdx, if_pos below] at there
      exact unresolved j other (by omega) there
  | @resolve listing entry object positive found kept relisted own shaped origin fresh loaded
      made =>
    obtain ⟨counted, unresolved⟩ := sound session listing relisted.was
    have sent := counted.sent
    have inside := lt_length_of_getElem? found
    refine AllListings.relisted sound relisted ⟨⟨?_, ?_, ?_⟩, ?_⟩
    · dsimp only
      omega
    · dsimp only
      rw [length_set]
      omega
    · intro j other past there
      dsimp only at past there
      rw [getElem?_set] at there
      split at there
      · cases there
        rfl
      · exact counted.resolved j other (by omega) there
    · intro j other below there
      dsimp only at below there
      rw [getElem?_set, if_neg (by omega)] at there
      exact unresolved j other (by omega) there

variable {listing : Listing}

theorem Sound.finishOne (world : World) (sound : manager.Sound)
    (found : manager.listing session = some listing) (sent : listing.resolveSentTotal ≠ 0) :
    ∃ next, manager.finishOne world session = some next := by
  obtain ⟨data, here, rfl⟩ := sessionData_of_listing found
  obtain ⟨counted, unresolved⟩ := sound session _ found
  have some := counted.sent
  have inside := counted.needed
  have positive : data.resolveNeeded ≠ 0 := by omega
  obtain ⟨entry, present⟩ : ∃ entry, data.downloaded[data.resolveNeeded - 1]? = Option.some entry :=
    ⟨_, List.getElem?_eq_getElem (by omega)⟩
  have none := unresolved _ entry (by omega) present
  unfold DownloadManager.finishOne
  rw [here, bind_some, if_neg positive]
  dsimp only
  rw [present, bind_some]
  split
  · exact ⟨_, rfl⟩
  · unfold resolveEntry
    dsimp only
    split
    next kept =>
      cases message : world.message session entry.itemId with
      | none =>
        rw [message] at kept
        unfold isKept at kept
        split at kept <;> exact absurd (of_decide_eq_true kept) nofun
      | some item => exact ⟨_, rfl⟩
    · unfold generateEntry
      rw [none]
      exact ⟨_, rfl⟩

theorem Finishes.counters (finishes : Finishes world allowed session before after)
    (found : before.listing session = some listing) :
    ∃ next, after.listing session = some next ∧
      next.resolveSentTotal = listing.resolveSentTotal - 1 ∧
      next.resolveNeeded = listing.resolveNeeded - 1 ∧
      next.resolveSentRequests = listing.resolveSentRequests := by
  cases finishes with
  | drop positive there deleted relisted loaded generated made =>
    rw [relisted.was] at found
    cases found
    exact ⟨_, relisted.now, rfl, rfl, rfl⟩
  | resolve positive there kept relisted own shaped origin fresh loaded made =>
    rw [relisted.was] at found
    cases found
    exact ⟨_, relisted.now, rfl, rfl, rfl⟩

/-- A property that every round keeps, whatever is resolved, holds after all of them. -/
theorem finishLoop_keeps {Holds : DownloadManager → Prop}
    (kept : ∀ before after, Holds before → Finishes world True session before after → Holds after)
    {count : Nat} (holds : Holds manager)
    (finished : finishLoop world session count manager = some next) : Holds next := by
  induction count generalizing manager with
  | zero =>
    cases finished
    exact holds
  | succ count ih =>
    obtain ⟨middle, first, rest⟩ := bind_eq_some_iff.mp finished
    have finishes : Finishes world True session manager middle :=
      finishOne_finishes (.inl trivial) (fun _ _ _ _ _ _ _ => .inl trivial) first
    exact ih (kept manager middle holds finishes) rest

theorem Sound.finishLoop (world : World) {count : Nat} (sound : manager.Sound)
    (found : manager.listing session = some listing) (sent : count ≤ listing.resolveSentTotal) :
    ∃ next, finishLoop world session count manager = some next := by
  induction count generalizing manager listing with
  | zero => exact ⟨manager, rfl⟩
  | succ count ih =>
    obtain ⟨middle, first⟩ := sound.finishOne world found (by omega)
    have finishes : Finishes world True session manager middle :=
      finishOne_finishes (.inl trivial) (fun _ _ _ _ _ _ _ => .inl trivial) first
    obtain ⟨next, there, fewer, -⟩ := finishes.counters found
    obtain ⟨last, rest⟩ := ih (finishes.sound sound) there (by omega)
    refine ⟨last, ?_⟩
    rw [DownloadManager.finishLoop, first]
    exact rest

/-- A download whose message is deleted is marked by an empty path. -/
def marked (world : World) (entry : DownloadedId) : DownloadedId :=
  if isDeleted world entry then { entry with path := .null } else entry

/-- The message is asked for. -/
def asks (world : World) (session : Session) (entry : DownloadedId) : Bool :=
  !isDeleted world entry && isAskedFor world session entry

theorem marked_object (entry : DownloadedId) : (marked world entry).object = entry.object := by
  unfold marked
  split <;> rfl

theorem prepare_size {entry : DownloadedId} {prepared : FlatMap Nat Prepared} :
    (prepare world session entry prepared).size ≠ 0 := FlatMap.size_set_pos

/-- The batch are the entries below an index, as many as may be resolved at once. -/
theorem resolveLoop_spec {i sentTotal : Nat} {downloaded : List DownloadedId}
    {prepared : FlatMap Nat Prepared} (inside : i ≤ downloaded.length)
    (below : sentTotal < maxResolvePerAttempt) :
    ∃ after requests, resolveLoop world session i downloaded sentTotal prepared =
        some (after, sentTotal + min i (maxResolvePerAttempt - sentTotal), requests) ∧
      (∀ j, after[j]? = if i - (maxResolvePerAttempt - sentTotal) ≤ j ∧ j < i then
        (downloaded[j]?).map (marked world)
        else downloaded[j]?) ∧
      (requests.size = 0 ↔ prepared.size = 0 ∧ ∀ j entry,
        i - (maxResolvePerAttempt - sentTotal) ≤ j ∧ j < i → downloaded[j]? = some entry →
          asks world session entry = false) := by
  induction i generalizing sentTotal downloaded prepared with
  | zero =>
    refine ⟨downloaded, prepared, ?_, ?_, ?_⟩
    · rw [resolveLoop, Nat.zero_min, Nat.add_zero]
    · intro j
      rw [if_neg (by omega)]
    · constructor
      · exact fun none => ⟨none, fun j entry within => absurd within.2 (by omega)⟩
      · exact And.left
  | succ i ih =>
    obtain ⟨entry, present⟩ : ∃ entry, downloaded[i]? = some entry :=
      ⟨_, getElem?_eq_getElem (by omega)⟩
    obtain ⟨listed, listedIs⟩ : ∃ listed, listed = downloaded.set i (marked world entry) :=
      ⟨_, rfl⟩
    obtain ⟨asked, askedIs⟩ : ∃ asked, asked =
        if asks world session entry then prepare world session entry prepared else prepared :=
      ⟨_, rfl⟩
    have one : resolveLoop world session (i + 1) downloaded sentTotal prepared =
        if maxResolvePerAttempt ≤ sentTotal + 1 then some (listed, sentTotal + 1, asked)
        else resolveLoop world session i listed (sentTotal + 1) asked := by
      have same : (if isDeleted world entry then
          downloaded.set i { entry with path := .null } else downloaded) = listed := by
        rw [listedIs, marked]
        split
        · rfl
        · obtain ⟨here, rfl⟩ := List.getElem?_eq_some_iff.mp present
          exact (set_getElem_self here).symm
      rw [resolveLoop, present]
      dsimp only
      rw [same, askedIs]
      rfl
    have at' : ∀ j, listed[j]? = if j = i then (downloaded[j]?).map (marked world)
        else downloaded[j]? := by
      intro j
      rw [listedIs, getElem?_set]
      by_cases here : i = j
      · rw [if_pos here, if_pos here.symm, if_pos (by omega), ← here, present]
        rfl
      · rw [if_neg here, if_neg (Ne.symm here)]
    have none : asked.size = 0 ↔ prepared.size = 0 ∧ asks world session entry = false := by
      rw [askedIs]
      cases asks world session entry with
      | false => simp
      | true => simp [prepare_size]
    rw [one]
    by_cases full : maxResolvePerAttempt ≤ sentTotal + 1
    · have last : maxResolvePerAttempt - sentTotal = 1 := by omega
      rw [if_pos full, last]
      refine ⟨listed, asked, ?_, ?_, ?_⟩
      · rw [min_eq_right (by omega)]
      · intro j
        rw [at']
        exact if_congr (by omega) rfl rfl
      · rw [none]
        refine and_congr_right fun _ => ⟨?_, ?_⟩
        · intro silent j other within there
          obtain rfl : j = i := by omega
          rw [present] at there
          cases there
          exact silent
        · exact fun silent => silent i entry (by omega) present
    · have shorter : maxResolvePerAttempt - sentTotal =
          maxResolvePerAttempt - (sentTotal + 1) + 1 := by omega
      have length : listed.length = downloaded.length := by rw [listedIs, length_set]
      obtain ⟨after, requests, result, entries, silent⟩ :=
        @ih (sentTotal + 1) listed asked (by omega) (by omega)
      rw [if_neg full, shorter]
      refine ⟨after, requests, ?_, ?_, ?_⟩
      · rw [result, Nat.add_min_add_right, Nat.add_assoc, Nat.add_comm 1]
      · intro j
        rw [entries, at']
        by_cases here : j = i
        · rw [if_pos here, if_neg (by omega), if_pos (by omega)]
        · rw [if_neg here]
          exact if_congr (by omega) rfl rfl
      · rw [silent, none, and_assoc]
        refine and_congr_right fun _ => ⟨?_, ?_⟩
        · rintro ⟨first, rest⟩ j other within there
          by_cases here : j = i
          · rw [here, present] at there
            cases there
            exact first
          · refine rest j other (by omega) ?_
            rw [at', if_neg here]
            exact there
        · intro all
          refine ⟨all i entry (by omega) present, fun j other within there => ?_⟩
          rw [at', if_neg (by omega)] at there
          exact all j other (by omega) there

/-- What `resolve` does before it looks for answers. -/
structure Starts (world : World) (session : Session) (listing started : Listing)
    (before after : DownloadManager) : Prop where
  relisted : Relisted before after session listing started
  below : listing.resolveSentTotal < listing.resolveNeeded
  few : listing.resolveSentTotal < maxResolvePerAttempt
  inside : listing.resolveNeeded - listing.resolveSentTotal ≤ listing.downloaded.length
  needed : started.resolveNeeded = listing.resolveNeeded
  sent : started.resolveSentTotal = listing.resolveSentTotal +
    min (listing.resolveNeeded - listing.resolveSentTotal)
      (maxResolvePerAttempt - listing.resolveSentTotal)
  entries : ∀ j, started.downloaded[j]? =
    if listing.resolveNeeded - listing.resolveSentTotal -
          (maxResolvePerAttempt - listing.resolveSentTotal) ≤ j ∧
        j < listing.resolveNeeded - listing.resolveSentTotal then
      (listing.downloaded[j]?).map (marked world)
    else listing.downloaded[j]?
  silent : started.resolveSentRequests = 0 ↔ listing.resolveSentRequests = 0 ∧
    ∀ j entry, listing.resolveNeeded - listing.resolveSentTotal -
          (maxResolvePerAttempt - listing.resolveSentTotal) ≤ j ∧
        j < listing.resolveNeeded - listing.resolveSentTotal →
      listing.downloaded[j]? = some entry → asks world session entry = false
  loaded : after.loaded = before.loaded
  generated : after.generated = before.generated
  made : after.made = before.made

theorem checkFullResolveDone_same : SameListings manager manager.checkFullResolveDone := by
  unfold checkFullResolveDone
  split <;> exact ⟨fun _ => rfl, rfl, rfl, rfl⟩

theorem resolve_start (world : World) {data : SessionData}
    (found : manager.sessionData session = some data)
    (below : data.resolveSentTotal < data.resolveNeeded)
    (few : data.resolveSentTotal < maxResolvePerAttempt)
    (inside : data.resolveNeeded - data.resolveSentTotal ≤ data.downloaded.length) :
    ∃ started middle, Starts world session data.toListing started manager middle ∧
      manager.resolve world session =
        (middle.checkRequests world session).map checkFullResolveDone := by
  obtain ⟨after, requests, result, entries, silent⟩ :=
    @resolveLoop_spec world session _ _ _ ∅ inside few
  have starts : ¬(data.resolveNeeded ≤ data.resolveSentTotal ∨
      maxResolvePerAttempt ≤ data.resolveSentTotal) := by omega
  have relisted : Relisted manager (manager.setData session { data with
      downloaded := after
      resolveSentTotal := data.resolveSentTotal + min (data.resolveNeeded - data.resolveSentTotal)
          (maxResolvePerAttempt - data.resolveSentTotal)
      resolveSentRequests := data.resolveSentRequests + requests.size }) session data.toListing _ :=
    .setData found rfl
  refine ⟨_, _, ⟨relisted, below, few, inside, rfl, rfl, entries, ?_, rfl, rfl, rfl⟩, ?_⟩
  · rw [Nat.add_eq_zero_iff, silent]
    exact and_congr_right fun _ => ⟨And.right, fun all => ⟨rfl, all⟩⟩
  · unfold resolve
    rw [found, bind_some, if_neg starts]
    rw [if_neg (by omega), result]
    rfl

theorem resolve_cases (resolved : manager.resolve world session = some next) :
    (SameListings manager next ∧ ∀ listing, manager.listing session = some listing →
      listing.resolveNeeded ≤ listing.resolveSentTotal ∨
        maxResolvePerAttempt ≤ listing.resolveSentTotal) ∨ ∃ listing started middle last,
      Starts world session listing started manager middle ∧
        middle.checkRequests world session = some last ∧ SameListings last next := by
  have whole := resolved
  obtain ⟨data, found, taken⟩ := bind_eq_some_iff.mp resolved
  split at taken
  next done =>
    cases taken
    refine .inl ⟨checkFullResolveDone_same, fun listing here => ?_⟩
    rw [listing_of_sessionData found] at here
    cases here
    exact done
  · dsimp only at taken
    split at taken
    · cases taken
    · obtain ⟨started, middle, start, result⟩ := resolve_start world found
        (by omega) (by omega) (by omega)
      rw [result] at whole
      obtain ⟨last, checked, rfl⟩ := map_eq_some_iff.mp whole
      exact .inr ⟨_, started, middle, last, start, checked, checkFullResolveDone_same⟩

theorem requestFinished_cases (finished : manager.requestFinished world session = some next) :
    ∃ listing middle, listing.resolveSentRequests ≠ 0 ∧
      Relisted manager middle session listing
        { listing with resolveSentRequests := listing.resolveSentRequests - 1 } ∧
      middle.loaded = manager.loaded ∧ middle.made = manager.made ∧
      middle.checkRequests world session = some next := by
  obtain ⟨data, found, taken⟩ := bind_eq_some_iff.mp finished
  split at taken
  · cases taken
  next waits =>
    have relisted : Relisted manager (manager.setData session { data with
        resolveSentRequests := data.resolveSentRequests - 1 }) session data.toListing _ :=
      .setData found rfl
    exact ⟨data.toListing, _, waits, relisted, rfl, rfl, taken⟩

theorem checkRequests_keeps {Holds : DownloadManager → Prop}
    (kept : ∀ before after, Holds before → Finishes world True session before after → Holds after)
    (holds : Holds manager) (checked : manager.checkRequests world session = some next) :
    Holds next := by
  obtain ⟨data, found, taken⟩ := bind_eq_some_iff.mp checked
  split at taken
  · obtain ⟨again, -, rest⟩ := bind_eq_some_iff.mp taken
    exact finishLoop_keeps kept holds rest
  · cases taken
    exact holds

theorem Sound.checkRequests (world : World) (sound : manager.Sound)
    (found : manager.listing session = some listing) :
    ∃ next, manager.checkRequests world session = some next := by
  obtain ⟨data, here, rfl⟩ := sessionData_of_listing found
  unfold DownloadManager.checkRequests resolveRequestsFinished
  rw [here, bind_some, bind_some]
  split
  · exact sound.finishLoop world found le_rfl
  · exact ⟨manager, rfl⟩

theorem Starts.sound {listing started : Listing}
    (starts : Starts world session listing started before after) (sound : before.Sound) :
    after.Sound := by
  obtain ⟨counted, unresolved⟩ := sound session listing starts.relisted.was
  have below := starts.below
  have sent := starts.sent
  have needed := starts.needed
  have objects : ∀ {j : Nat} {entry : DownloadedId}, started.downloaded[j]? = some entry →
      ∃ old, listing.downloaded[j]? = some old ∧ old.object = entry.object := by
    intro j entry found
    rw [starts.entries] at found
    split at found
    · obtain ⟨old, was, rfl⟩ := map_eq_some_iff.mp found
      exact ⟨old, was, (marked_object old).symm⟩
    · exact ⟨entry, found, rfl⟩
  have length : listing.downloaded.length ≤ started.downloaded.length := by
    by_contra shorter
    have none : started.downloaded[started.downloaded.length]? = none :=
      getElem?_eq_none le_rfl
    have there := getElem?_eq_getElem (not_le.mp shorter)
    rw [starts.entries, there] at none
    split at none <;> cases none
  refine AllListings.relisted sound starts.relisted ⟨⟨?_, ?_, ?_⟩, ?_⟩
  · omega
  · have inside := counted.needed
    omega
  · intro j entry above found
    obtain ⟨old, was, same⟩ := objects found
    rw [← same]
    exact counted.resolved j old (by omega) was
  · intro j entry before found
    obtain ⟨old, was, same⟩ := objects found
    rw [← same]
    exact unresolved j old (by omega) was

theorem resolve_sound (resolved : manager.resolve world session = some next)
    (sound : manager.Sound) : next.Sound := by
  rcases resolve_cases resolved with ⟨same, -⟩ |
    ⟨listing, started, middle, last, starts, checked, same⟩
  · exact AllListings.same sound same
  · have kept := checkRequests_keeps (fun _ _ sound finishes => Finishes.sound finishes sound)
      (starts.sound sound) checked
    exact AllListings.same kept same

theorem requestFinished_middle {middle : DownloadManager}
    (relisted : Relisted manager middle session listing
      { listing with resolveSentRequests := listing.resolveSentRequests - 1 })
    (sound : manager.Sound) : middle.Sound := by
  obtain ⟨counted, unresolved⟩ := sound session listing relisted.was
  exact AllListings.relisted sound relisted
    ⟨{ counted with }, unresolved⟩

theorem requestFinished_sound (finished : manager.requestFinished world session = some next)
    (sound : manager.Sound) : next.Sound := by
  obtain ⟨listing, middle, -, relisted, -, -, checked⟩ := requestFinished_cases finished
  exact checkRequests_keeps (fun _ _ sound finishes => Finishes.sound finishes sound)
    (requestFinished_middle relisted sound) checked

theorem Sound.resolve (world : World) (sound : manager.Sound)
    (found : manager.listing session = some listing) :
    ∃ next, manager.resolve world session = some next := by
  obtain ⟨data, here, rfl⟩ := sessionData_of_listing found
  obtain ⟨counted, -⟩ := sound session _ found
  have inside := counted.needed
  by_cases done : data.resolveNeeded ≤ data.resolveSentTotal ∨
      maxResolvePerAttempt ≤ data.resolveSentTotal
  · refine ⟨manager.checkFullResolveDone, ?_⟩
    unfold DownloadManager.resolve
    rw [here, bind_some, if_pos done]
  · obtain ⟨started, middle, start, result⟩ := resolve_start world here (by omega)
      (by omega) (by omega)
    obtain ⟨last, checked⟩ := (start.sound sound).checkRequests world start.relisted.now
    refine ⟨last.checkFullResolveDone, ?_⟩
    rw [result, checked]
    rfl

theorem Sound.requestFinished (world : World) (sound : manager.Sound)
    (found : manager.listing session = some listing) (waits : listing.resolveSentRequests ≠ 0) :
    ∃ next, manager.requestFinished world session = some next := by
  obtain ⟨data, here, rfl⟩ := sessionData_of_listing found
  unfold DownloadManager.requestFinished
  rw [here, bind_some, if_neg waits]
  have relisted : Relisted manager (manager.setData session { data with
      resolveSentRequests := data.resolveSentRequests - 1 }) session data.toListing _ :=
    .setData here rfl
  exact (requestFinished_middle relisted sound).checkRequests world relisted.now

theorem AllListings.of_subset {Holds : Listing → Prop}
    (all : AllListings Holds before)
    (subset : ∀ session listing, after.listing session = some listing →
      before.listing session = some listing) : AllListings Holds after :=
  fun session listing found => all session listing (subset session listing found)

theorem trackSession_sound {bytes : Bytes} (fresh : manager.isTracked session = false)
    (sound : manager.Sound) : (manager.trackSession session bytes).Sound := by
  intro other listing found
  rw [listing_trackSession fresh] at found
  split at found
  · cases found
    refine ⟨⟨Nat.zero_le _, le_rfl, fun i entry above there => ?_⟩, fun i entry _ there => ?_⟩
    · exact absurd (lt_length_of_getElem? there) (not_lt.mpr above)
    · exact ((deserialize_accepted bytes).2 entry (mem_of_getElem? there)).2
  · exact sound other listing found

theorem untrack_sound (untracked : manager.untrack session = some next)
    (sound : manager.Sound) : next.Sound := by
  refine AllListings.of_subset sound fun other listing found => ?_
  rw [listing_untrack untracked] at found
  split at found
  · cases found
  · exact found

/-- What no step but `deleteAll` breaks. -/
theorem step_sound {event : Event} (taken : manager.step event = some next)
    (other : event.action ≠ .deleteAll) (sound : manager.Sound) : next.Sound := by
  rcases step_cases taken with effects | ⟨session, bytes, -, fresh, rfl⟩ | ⟨session, -, resolved⟩ |
    ⟨session, -, finished⟩ | ⟨all, -⟩ | ⟨session, -, untracked⟩
  · exact effects.sound sound
  · exact trackSession_sound fresh sound
  · exact resolve_sound resolved sound
  · exact requestFinished_sound finished sound
  · exact absurd all other
  · exact untrack_sound untracked sound

/-- The counters fit the lists, and no iterator that resolving makes leaves its list. -/
structure InRange (manager : DownloadManager) : Prop where
  counted : AllListings Listing.Counted manager
  resolves : ∀ world session, manager.isTracked session = true →
    (manager.resolve world session).isSome = true
  finishes : ∀ world session listing, manager.listing session = some listing →
    listing.resolveSentRequests ≠ 0 → (manager.requestFinished world session).isSome = true

theorem Sound.inRange (sound : manager.Sound) : manager.InRange where
  counted session listing found := (sound session listing found).1
  resolves world session tracked := by
    obtain ⟨data, found⟩ := isSome_iff_exists.mp tracked
    obtain ⟨next, resolved⟩ := sound.resolve world (listing_of_sessionData found)
    rw [resolved]
    rfl
  finishes world session listing found waits := by
    obtain ⟨next, finished⟩ := sound.requestFinished world found waits
    rw [finished]
    rfl

/-- Nothing is left to resolve. -/
def NothingUnresolved (manager : DownloadManager) : Prop :=
  AllListings (fun listing => listing.resolveNeeded = 0) manager

/-- All the lists are taken only when their entries have been resolved. -/
def DeletesResolved (manager : DownloadManager) (event : Event) : Prop :=
  event.action = .deleteAll → manager.NothingUnresolved

theorem deleteAll_unresolved : AllListings Listing.Unresolved manager.deleteAll := by
  intro session listing found i entry below there
  rw [listing_deleteAll] at found
  obtain ⟨before, -, rfl⟩ := map_eq_some_iff.mp found
  cases there

theorem deleteAll_counted_iff (counted : AllListings Listing.Counted manager) :
    AllListings Listing.Counted manager.deleteAll ↔ manager.NothingUnresolved := by
  constructor
  · intro after session listing found
    have taken : manager.deleteAll.listing session = some { listing with downloaded := [] } := by
      rw [listing_deleteAll, found]
      rfl
    exact Nat.le_zero.mp (after session _ taken).needed
  · intro resolved session listing found
    rw [listing_deleteAll] at found
    obtain ⟨before, was, rfl⟩ := map_eq_some_iff.mp found
    refine ⟨(counted session before was).sent, (resolved session before was).le, ?_⟩
    intro i entry above there
    cases there

/-- Saved downloads are resolved within their lists in the runs that take all the lists
only when every entry has been resolved, and in no other run. -/
theorem inRange_iff (events : List Event) :
    RunKeeps step InRange {} events ↔ RunMeets step DeletesResolved {} events := by
  have start : Sound {} := fun session listing found => by cases found
  have unresolved : AllListings Listing.Unresolved {} := fun session listing found =>
    (start session listing found).2
  refine runKeeps_iff_runMeets ?_ ?_ events unresolved start.inRange
  · intro manager event next unresolved good taken
    by_cases all : event.action = .deleteAll
    · rcases event with ⟨world, action⟩
      cases all
      cases taken
      exact deleteAll_unresolved
    · have sound : manager.Sound := fun session listing found =>
        ⟨good.counted session listing found, unresolved session listing found⟩
      exact fun session listing found => (step_sound taken all sound session listing found).2
  · intro manager event unresolved good
    have sound : manager.Sound := fun session listing found =>
      ⟨good.counted session listing found, unresolved session listing found⟩
    by_cases all : event.action = .deleteAll
    · rcases event with ⟨world, action⟩
      cases all
      have taken : manager.step ⟨world, .deleteAll⟩ = some manager.deleteAll := rfl
      constructor
      · intro after _
        exact (deleteAll_counted_iff good.counted).mp (after _ taken).counted
      · intro resolved next result
        rw [taken] at result
        cases result
        have counted := (deleteAll_counted_iff good.counted).mpr (resolved rfl)
        have both : manager.deleteAll.Sound := fun session listing found =>
          ⟨counted session listing found, deleteAll_unresolved session listing found⟩
        exact both.inRange
    · refine iff_of_true ?_ (fun same => absurd same all)
      exact fun next taken => (step_sound taken all sound).inRange

/-- A world without messages, where every file with a name has one byte. -/
def lonelyWorld : World where
  message _ _ := none
  message_session := nofun
  fullId _ := ⟨0, 0⟩
  peerAccessHash _ := 0
  media _ := none
  userPeerId _ := 1
  fileSize path := if path.isEmpty then none else some 1
  fileSize_empty _ empty := if_pos empty
  filepath _ _ := .null
  loadingFilePath _ _ := .null
  isLoading _ _ := false
  documentSize _ _ := 0
  loadOffset _ _ := 0
  randomDocument _ := 0

def letterPath (letter : UInt16) : QString where
  units := [letter]
  null_empty null := absurd null Bool.false_ne_true
  small := by simp

/-- An entry of a file that is named by one letter, for a message of a user. -/
def savedEntry (letter : UInt16) : DownloadedId where
  download := ⟨5, .document⟩
  started := 0
  path := letterPath letter
  size := 1
  itemId := ⟨2, 7⟩
  peerAccessHash := 0

/-- All the lists are taken while an entry waits to be resolved. -/
theorem deleteAll_keeps_counters :
    (run step {} [⟨lonelyWorld, .trackSession 0 (serializator { downloaded := [savedEntry 97] })⟩,
        ⟨lonelyWorld, .deleteAll⟩]).map (fun manager =>
      ((manager.listing 0).map fun listing =>
          (listing.resolveSentTotal, listing.resolveNeeded, listing.downloaded.length),
        (manager.resolve lonelyWorld 0).isNone)) = some (some (0, 1, 0), true) := by
  decide

end DownloadManager

end TelegramDesktop.Downloads
