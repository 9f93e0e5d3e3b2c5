import TelegramDesktop.DownloadManagerResolving

/-!
# The list of downloaded files after a restart

A file that is missing is only marked while its batch waits for answers, and a list
with such an entry cannot be read again.  The whole list survives in the runs where
a batch with a missing file asks for no message.
-/

namespace TelegramDesktop.Downloads

open List Option Listing

namespace Listing

/-- What is written now gives back every entry whose file was not found deleted. -/
def Restores (listing : Listing) : Prop :=
  deserialize (serializator listing) =
    (listing.downloaded.filter fun entry => !entry.path.isEmpty).map DownloadedId.saved

/-- The sizes are those that are read back. -/
def Sized (listing : Listing) : Prop :=
  ∀ entry ∈ listing.downloaded, 0 < entry.size ∧ entry.size ≤ maxFileSize

/-- No download is marked as unknown by an empty path. -/
def Unmarked (listing : Listing) : Prop :=
  ∀ entry ∈ listing.downloaded, entry.path.isEmpty = false

/-- A batch is examined as far as it goes at once, and requests are made for it only. -/
structure Paced (listing : Listing) : Prop where
  whole : listing.resolveSentTotal = 0 ∨ maxResolvePerAttempt ≤ listing.resolveSentTotal ∨
    listing.resolveNeeded ≤ listing.resolveSentTotal
  waits : listing.resolveSentTotal = 0 → listing.resolveSentRequests = 0

theorem Unmarked.restores {listing : Listing} (unmarked : listing.Unmarked) (sized : listing.Sized)
    (few : listing.downloaded.length ≤ maxCount) : listing.Restores := by
  unfold Restores
  rw [deserialize_serializator sized few, if_neg]
  · congr 1
    refine (filter_eq_self.mpr fun entry member => ?_).symm
    rw [unmarked entry member]
    rfl
  · rintro ⟨entry, member, marked⟩
    rw [unmarked entry member] at marked
    cases marked

theorem not_restores {listing : Listing} (sized : listing.Sized)
    (few : listing.downloaded.length ≤ maxCount) {marked kept : DownloadedId}
    (listed : marked ∈ listing.downloaded) (deleted : marked.path.isEmpty = true)
    (other : kept ∈ listing.downloaded) (present : kept.path.isEmpty = false) :
    ¬listing.Restores := by
  unfold Restores
  rw [deserialize_serializator sized few, if_pos ⟨marked, listed, deleted⟩]
  intro none
  have still : kept.saved ∈
      (listing.downloaded.filter fun entry => !entry.path.isEmpty).map DownloadedId.saved :=
    mem_map_of_mem (mem_filter.mpr ⟨other, by rw [present]; rfl⟩)
  rw [← none] at still
  cases still

end Listing

namespace DownloadManager

variable {world : World} {manager next : DownloadManager} {session : Session} {allowed : Prop}
  {before after : DownloadManager} {Keeps : DownloadedId → Prop}

theorem Effect.entries (effect : Effect allowed before after)
    (accepted : ∀ entry, entry.Accepted → Keeps entry)
    (renewed : ∀ entry object, Keeps entry → Keeps { entry with object := object })
    (all : AllListings (fun listing => ∀ entry ∈ listing.downloaded, Keeps entry) before) :
    AllListings (fun listing => ∀ entry ∈ listing.downloaded, Keeps entry) after := by
  cases effect with
  | same same => exact AllListings.same all same
  | @append session listing entry object relisted acceptable has shaped own fresh loaded generated
      made =>
    refine AllListings.relisted all relisted fun other member => ?_
    rcases mem_append.mp member with old | new
    · exact all session listing relisted.was other old
    · rw [mem_singleton.mp new]
      exact accepted entry acceptable
  | @erase session listing entry object i relisted found has loaded generated made =>
    refine AllListings.relisted all relisted fun other member => ?_
    exact all session listing relisted.was other (mem_of_mem_eraseIdx member)
  | @renew session listing entry object i relisted found has loaded generated made =>
    refine AllListings.relisted all relisted fun other member => ?_
    rcases mem_or_eq_of_mem_set member with old | rfl
    · exact all session listing relisted.was other old
    · exact renewed entry _ (all session listing relisted.was entry (mem_of_getElem? found))

theorem Finishes.entries (finishes : Finishes world allowed session before after)
    (renewed : ∀ entry object, Keeps entry → Keeps { entry with object := object })
    (all : AllListings (fun listing => ∀ entry ∈ listing.downloaded, Keeps entry) before) :
    AllListings (fun listing => ∀ entry ∈ listing.downloaded, Keeps entry) after := by
  cases finishes with
  | @drop listing entry positive found deleted relisted loaded generated made =>
    refine AllListings.relisted all relisted fun other member => ?_
    exact all session listing relisted.was other (mem_of_mem_eraseIdx member)
  | @resolve listing entry object positive found kept relisted own shaped origin fresh loaded
      made =>
    refine AllListings.relisted all relisted fun other member => ?_
    rcases mem_or_eq_of_mem_set member with old | rfl
    · exact all session listing relisted.was other old
    · exact renewed entry _ (all session listing relisted.was entry (mem_of_getElem? found))

variable {event : Event}

/-- What is kept of an entry when it gets an object, or its path is taken, is kept by steps. -/
theorem step_entries
    (accepted : ∀ entry, entry.Accepted → Keeps entry)
    (renewed : ∀ entry object, Keeps entry → Keeps { entry with object := object })
    (unmarked : ∀ session, event.action = .resolve session →
      ∀ entry, Keeps entry → Keeps (marked event.world entry))
    (all : AllListings (fun listing => ∀ entry ∈ listing.downloaded, Keeps entry) manager)
    (taken : manager.step event = some next) :
    AllListings (fun listing => ∀ entry ∈ listing.downloaded, Keeps entry) next := by
  have rounds : ∀ {session middle last},
      AllListings (fun listing => ∀ entry ∈ listing.downloaded, Keeps entry) middle →
        middle.checkRequests event.world session = some last →
          AllListings (fun listing => ∀ entry ∈ listing.downloaded, Keeps entry) last :=
    fun holds checked => checkRequests_keeps
      (fun _ _ holds finishes => finishes.entries renewed holds) holds checked
  rcases step_cases taken with effects | ⟨session, bytes, -, fresh, rfl⟩ |
    ⟨session, resolves, resolved⟩ | ⟨session, -, finished⟩ | ⟨-, rfl⟩ | ⟨session, -, untracked⟩
  · clear taken unmarked rounds
    induction effects with
    | refl => exact all
    | tail _ effect ih => exact effect.entries accepted renewed ih
  · intro other listing found
    rw [listing_trackSession fresh] at found
    split at found
    · cases found
      exact fun entry member => accepted entry ((deserialize_accepted bytes).2 entry member).1
    · exact all other listing found
  · rcases resolve_cases resolved with ⟨same, -⟩ |
      ⟨listing, started, middle, last, starts, checked, same⟩
    · exact AllListings.same all same
    · have middleHolds : AllListings (fun listing => ∀ entry ∈ listing.downloaded, Keeps entry)
          middle := by
        refine AllListings.relisted all starts.relisted fun entry member => ?_
        obtain ⟨j, found⟩ := mem_iff_getElem?.mp member
        rw [starts.entries] at found
        have old := all session listing starts.relisted.was
        split at found
        · obtain ⟨was, there, rfl⟩ := map_eq_some_iff.mp found
          exact unmarked session resolves was (old was (mem_of_getElem? there))
        · exact old entry (mem_of_getElem? found)
      exact AllListings.same (rounds middleHolds checked) same
  · obtain ⟨listing, middle, -, relisted, -, -, checked⟩ := requestFinished_cases finished
    exact rounds (AllListings.relisted all relisted (all session listing relisted.was)) checked
  · intro session listing found
    rw [listing_deleteAll] at found
    obtain ⟨before, -, rfl⟩ := map_eq_some_iff.mp found
    exact nofun
  · refine AllListings.of_subset all fun other listing found => ?_
    rw [listing_untrack untracked] at found
    split at found
    · cases found
    · exact found

theorem step_sized (sized : AllListings Sized manager)
    (taken : manager.step event = some next) : AllListings Sized next := by
  refine step_entries (fun entry accepted => ⟨accepted.positive, accepted.small⟩)
    (fun _ _ holds => holds) (fun _ _ entry holds => ?_) sized taken
  unfold marked
  split
  · exact holds
  · exact holds

theorem Finishes.others {other : Session}
    (finishes : Finishes world allowed session before after) (different : other ≠ session) :
    after.listing other = before.listing other := by
  cases finishes with
  | drop positive found deleted relisted loaded generated made =>
    exact relisted.others other different
  | resolve positive found kept relisted own shaped origin fresh loaded made =>
    exact relisted.others other different

section

variable {listing : Listing} (found : manager.listing session = some listing)
include found

theorem finishLoop_counters {count : Nat}
    (finished : finishLoop world session count manager = some next) :
    (∃ after, next.listing session = some after ∧
      after.resolveSentTotal = listing.resolveSentTotal - count ∧
      after.resolveSentRequests = listing.resolveSentRequests) ∧
    ∀ other, other ≠ session → next.listing other = manager.listing other := by
  induction count generalizing manager listing with
  | zero =>
    cases finished
    exact ⟨⟨listing, found, rfl, rfl⟩, fun _ _ => rfl⟩
  | succ count ih =>
    obtain ⟨middle, first, rest⟩ := bind_eq_some_iff.mp finished
    have finishes : Finishes world True session manager middle :=
      finishOne_finishes (.inl trivial) (fun _ _ _ _ _ _ _ => .inl trivial) first
    obtain ⟨there, here, sent, -, requests⟩ := finishes.counters found
    obtain ⟨⟨after, last, fewer, same⟩, others⟩ := ih here rest
    refine ⟨⟨after, last, ?_, same.trans requests⟩, fun other different => ?_⟩
    · omega
    · exact (others other different).trans (finishes.others different)

theorem checkRequests_cases (checked : manager.checkRequests world session = some next) :
    listing.resolveSentRequests ≠ 0 ∧ next = manager ∨
      listing.resolveSentRequests = 0 ∧
        finishLoop world session listing.resolveSentTotal manager = some next := by
  obtain ⟨data, here, rfl⟩ := sessionData_of_listing found
  unfold checkRequests resolveRequestsFinished at checked
  rw [here, bind_some, bind_some] at checked
  split at checked
  next none =>
    exact .inr ⟨none, checked⟩
  next some =>
    cases checked
    exact .inl ⟨some, rfl⟩

theorem checkRequests_paced (waits : listing.resolveSentRequests ≠ 0 → listing.Paced)
    (others : ∀ other found, other ≠ session → manager.listing other = some found → found.Paced)
    (checked : manager.checkRequests world session = some next) :
    AllListings Paced next := by
  intro other now here
  rcases checkRequests_cases found checked with ⟨some, rfl⟩ | ⟨none, finished⟩
  · by_cases same : other = session
    · rw [same, found] at here
      cases here
      exact waits some
    · exact others other now same here
  · obtain ⟨⟨after, last, sent, requests⟩, same⟩ := finishLoop_counters found finished
    by_cases this : other = session
    · rw [this, last] at here
      cases here
      exact ⟨.inl (by omega), fun _ => requests.trans none⟩
    · rw [same other this] at here
      exact others other now this here

end

theorem step_paced (paced : AllListings Paced manager)
    (taken : manager.step event = some next) : AllListings Paced next := by
  rcases step_cases taken with effects | ⟨session, bytes, -, fresh, rfl⟩ | ⟨session, -, resolved⟩ |
    ⟨session, -, finished⟩ | ⟨-, rfl⟩ | ⟨session, -, untracked⟩
  · clear taken
    induction effects with
    | refl => exact paced
    | tail _ effect ih =>
      cases effect with
      | same same => exact AllListings.same ih same
      | append relisted _ _ _ _ _ _ _ _ | erase relisted _ _ _ _ _ | renew relisted _ _ _ _ _ =>
        have old := ih _ _ relisted.was
        exact AllListings.relisted ih relisted ⟨old.whole, old.waits⟩
  · intro other listing found
    rw [listing_trackSession fresh] at found
    split at found
    · cases found
      exact ⟨.inl rfl, fun _ => rfl⟩
    · exact paced other listing found
  · rcases resolve_cases resolved with ⟨same, -⟩ |
      ⟨listing, started, middle, last, starts, checked, same⟩
    · exact AllListings.same paced same
    · refine AllListings.same (checkRequests_paced starts.relisted.now (fun _ => ?_) ?_ checked)
        same
      · have old := paced session listing starts.relisted.was
        have below := starts.below
        have few := starts.few
        have sent := starts.sent
        have needed := starts.needed
        refine ⟨by omega, fun zero => ?_⟩
        omega
      · intro other found different here
        rw [starts.relisted.others other different] at here
        exact paced other found here
  · obtain ⟨listing, middle, waits, relisted, -, -, checked⟩ := requestFinished_cases finished
    have old := paced session listing relisted.was
    refine checkRequests_paced relisted.now (fun _ => ⟨old.whole, fun zero => ?_⟩) ?_ checked
    · exact absurd (old.waits zero) waits
    · intro other found different here
      rw [relisted.others other different] at here
      exact paced other found here
  · intro session listing found
    rw [listing_deleteAll] at found
    obtain ⟨before, was, rfl⟩ := map_eq_some_iff.mp found
    exact ⟨(paced session before was).whole, (paced session before was).waits⟩
  · refine AllListings.of_subset paced fun other listing found => ?_
    rw [listing_untrack untracked] at found
    split at found
    · cases found
    · exact found

/-- Every marked entry is among the last ones that wait for their round. -/
def MarkedWithin (count : Nat) (listing : Listing) : Prop :=
  ∀ j entry, listing.downloaded[j]? = some entry → entry.path.isEmpty = true →
    listing.resolveNeeded - count ≤ j ∧ j < listing.resolveNeeded

theorem finishLoop_unmarked {count : Nat} {listing : Listing}
    (found : manager.listing session = some listing) (within : MarkedWithin count listing)
    (finished : finishLoop world session count manager = some next) :
    ∃ after, next.listing session = some after ∧ after.Unmarked := by
  induction count generalizing manager listing with
  | zero =>
    cases finished
    refine ⟨listing, found, fun entry member => ?_⟩
    obtain ⟨j, there⟩ := mem_iff_getElem?.mp member
    cases marked : entry.path.isEmpty with
    | false => rfl
    | true =>
      have bounds := within j entry there marked
      omega
  | succ count ih =>
    obtain ⟨middle, first, rest⟩ := bind_eq_some_iff.mp finished
    have finishes : Finishes world True session manager middle :=
      finishOne_finishes (.inl trivial) (fun _ _ _ _ _ _ _ => .inl trivial) first
    cases finishes with
    | @drop before entry positive there deleted relisted loaded generated made =>
      rw [relisted.was] at found
      cases found
      refine ih relisted.now (fun j other here marked => ?_) rest
      dsimp only at here ⊢
      rw [getElem?_eraseIdx] at here
      split at here
      · have bounds := within j other here marked
        omega
      · have bounds := within (j + 1) other here marked
        omega
    | @resolve before entry object positive there kept relisted own shaped origin fresh loaded
        made =>
      rw [relisted.was] at found
      cases found
      refine ih relisted.now (fun j other here marked => ?_) rest
      dsimp only at here ⊢
      rw [getElem?_set] at here
      split at here
      · split at here
        · cases here
          rw [kept] at marked
          cases marked
        · cases here
      · have bounds := within j other here marked
        omega

/-- No entry of a batch is found deleted while a message is asked for. -/
def Together (world : World) (session : Session) (listing : Listing) : Prop :=
  listing.resolveSentTotal ≠ 0 ∨ (∀ entry ∈ listing.batch, isDeleted world entry = false) ∨
    ∀ entry ∈ listing.batch, asks world session entry = false

theorem isDeleted_of_isEmpty {entry : DownloadedId} (empty : entry.path.isEmpty = true) :
    isDeleted world entry = true := by
  unfold isDeleted
  rw [world.fileSize_empty entry.path empty]
  rfl

theorem marked_isEmpty (entry : DownloadedId) :
    (marked world entry).path.isEmpty = isDeleted world entry := by
  unfold marked
  cases deleted : isDeleted world entry with
  | true =>
    rw [if_pos rfl]
    rfl
  | false =>
    rw [if_neg Bool.false_ne_true]
    cases empty : entry.path.isEmpty with
    | false => rfl
    | true =>
      rw [isDeleted_of_isEmpty empty] at deleted
      cases deleted

/-- Where no entry is marked, a batch leaves none marked, or it marks one that waits
for an answer while another entry is there. -/
theorem resolve_marks {listing : Listing} (found : manager.listing session = some listing)
    (unmarked : AllListings Unmarked manager) (paced : listing.Paced)
    (resolved : manager.resolve world session = some next) :
    (Together world session listing → AllListings Unmarked next) ∧
      (¬Together world session listing → ∃ after marked kept,
        next.listing session = some after ∧ marked ∈ after.downloaded ∧
          marked.path.isEmpty = true ∧ kept ∈ after.downloaded ∧ kept.path.isEmpty = false) := by
  rcases resolve_cases resolved with ⟨same, early⟩ |
    ⟨was, started, middle, last, starts, checked, same⟩
  · refine ⟨fun _ => AllListings.same unmarked same, fun apart => ?_⟩
    obtain ⟨first, some⟩ : listing.resolveSentTotal = 0 ∧ ∃ entry, entry ∈ listing.batch := by
      unfold Together at apart
      push Not at apart
      exact ⟨apart.1, apart.2.1.imp fun entry listed => listed.1⟩
    obtain ⟨entry, listed⟩ := some
    obtain ⟨j, above, below, -⟩ := mem_batch.mp listed
    have done := early listing found
    omega
  · obtain rfl : was = listing := some.inj (starts.relisted.was.symm.trans found)
    have first : was.resolveSentTotal = 0 := by
      have whole := paced.whole
      have below := starts.below
      have few := starts.few
      omega
    have silent := starts.silent
    have entries := starts.entries
    have sent := starts.sent
    have needed := starts.needed
    simp only [first, Nat.sub_zero, Nat.zero_add] at silent entries sent
    have others : ∀ other now, other ≠ session → middle.listing other = some now →
        now.Unmarked := by
      intro other now different here
      rw [starts.relisted.others other different] at here
      exact unmarked other now here
    rcases checkRequests_cases starts.relisted.now checked with ⟨asked, rfl⟩ | ⟨none, finished⟩
    · have loud : ¬∀ entry ∈ was.batch, asks world session entry = false := by
        intro quiet
        refine asked (silent.mpr ⟨paced.waits first, fun j entry within there => ?_⟩)
        exact quiet entry (mem_batch.mpr ⟨j, within.1, within.2, there⟩)
      constructor
      · rintro (late | present | quiet)
        · exact absurd first late
        · refine AllListings.same (fun other now here => ?_) same
          by_cases this : other = session
          · rw [this, starts.relisted.now] at here
            cases here
            intro entry member
            obtain ⟨j, there⟩ := mem_iff_getElem?.mp member
            rw [entries] at there
            split at there
            next within =>
              obtain ⟨old, listed, rfl⟩ := map_eq_some_iff.mp there
              rw [marked_isEmpty]
              exact present old (mem_batch.mpr ⟨j, within.1, within.2, listed⟩)
            · exact unmarked session was found entry (mem_of_getElem? there)
          · exact others other now this here
        · exact absurd quiet loud
      · intro apart
        unfold Together at apart
        push Not at apart
        obtain ⟨-, ⟨gone, goneListed, deleted⟩, kept, keptListed, asksFor⟩ := apart
        have present : isDeleted world kept = false := by
          have both := Bool.eq_true_of_not_eq_false asksFor
          exact Bool.not_eq_true' _ ▸ (Bool.and_eq_true_iff.mp both).1
        have listed : ∀ entry ∈ was.batch, marked world entry ∈ started.downloaded := by
          intro entry member
          obtain ⟨j, above, below, there⟩ := mem_batch.mp member
          refine mem_of_getElem? (i := j) ?_
          rw [entries, if_pos ⟨above, below⟩, there]
          rfl
        refine ⟨started, _, _, ?_, listed gone goneListed, ?_, listed kept keptListed, ?_⟩
        · rw [same.listing]
          exact starts.relisted.now
        · rw [marked_isEmpty]
          exact Bool.eq_true_of_not_eq_false deleted
        · rw [marked_isEmpty]
          exact present
    · have quiet : ∀ entry ∈ was.batch, asks world session entry = false := by
        intro entry listed
        obtain ⟨j, above, below, there⟩ := mem_batch.mp listed
        exact (silent.mp none).2 j entry ⟨above, below⟩ there
      refine ⟨fun _ => ?_, fun apart => absurd (.inr (.inr quiet)) apart⟩
      have within : MarkedWithin started.resolveSentTotal started := by
        intro j entry there marked
        rw [entries] at there
        split at there
        · rw [needed, sent]
          omega
        · have old := unmarked session was found entry (mem_of_getElem? there)
          rw [marked] at old
          cases old
      obtain ⟨after, now, clean⟩ := finishLoop_unmarked starts.relisted.now within finished
      have rest := (finishLoop_counters starts.relisted.now finished).2
      refine AllListings.same (fun other there here => ?_) same
      by_cases this : other = session
      · rw [this, now] at here
        cases here
        exact clean
      · rw [rest other this] at here
        exact others other there this here

/-- There are no more downloads than are read back. -/
def isFew (manager : DownloadManager) : Bool :=
  manager.sessions.entries.all fun entry => entry.2.downloaded.length ≤ maxCount

/-- A step after which no list has too many entries to be read. -/
def fewStep (manager : DownloadManager) (event : Event) : Option DownloadManager :=
  (manager.step event).filter isFew

theorem few_of_isFew (few : manager.isFew = true) :
    AllListings (fun listing => listing.downloaded.length ≤ maxCount) manager := by
  intro session listing found
  obtain ⟨data, here, rfl⟩ := sessionData_of_listing found
  have member := FlatMap.find?_eq_some.mp here
  exact of_decide_eq_true (all_eq_true.mp few _ member)

/-- Where a batch is resolved, it does not both have a missing or changed file and ask
for a message. -/
def ResolvesTogether (manager : DownloadManager) (event : Event) : Prop :=
  ∀ session listing, event.action = .resolve session → (manager.fewStep event).isSome = true →
    manager.listing session = some listing → Together event.world session listing

theorem step_unmarked (unmarked : AllListings Unmarked manager)
    (other : ∀ session, event.action ≠ .resolve session)
    (taken : manager.step event = some next) : AllListings Unmarked next :=
  step_entries (fun _ accepted => accepted.path) (fun _ _ holds => holds)
    (fun session same => absurd same (other session)) unmarked taken

theorem AllListings.restores (unmarked : AllListings Unmarked manager)
    (sized : AllListings Sized manager)
    (few : AllListings (fun listing => listing.downloaded.length ≤ maxCount) manager) :
    AllListings Restores manager :=
  fun session listing found =>
    (unmarked session listing found).restores (sized session listing found)
      (few session listing found)

theorem isPossible_of_step (taken : manager.step event = some next) :
    manager.isPossible event = true ∧ manager.perform event = some next := by
  unfold step at taken
  split at taken
  · exact ⟨‹_›, taken⟩
  · cases taken

/-- From lists without marks a step leads to such lists if it resolves together, and to
a list that cannot be read otherwise. -/
theorem step_restores (unmarked : AllListings Unmarked manager) (sized : AllListings Sized manager)
    (paced : AllListings Paced manager) (taken : manager.fewStep event = some next) :
    (manager.ResolvesTogether event → AllListings Unmarked next) ∧
      (¬manager.ResolvesTogether event → ¬AllListings Restores next) := by
  obtain ⟨stepped, few⟩ := filter_eq_some_iff.mp taken
  obtain ⟨possible, performed⟩ := isPossible_of_step stepped
  by_cases resolves : ∃ session, event.action = .resolve session
  · obtain ⟨session, here⟩ := resolves
    have resolved : manager.resolve event.world session = some next := by
      unfold perform at performed
      rw [here] at performed
      exact performed
    have tracked : manager.isTracked session = true := by
      unfold isPossible at possible
      rw [here] at possible
      exact (Bool.and_eq_true_iff.mp possible).1
    obtain ⟨data, known⟩ := isSome_iff_exists.mp tracked
    have found := listing_of_sessionData known
    obtain ⟨clean, marks⟩ := resolve_marks found unmarked (paced session _ found) resolved
    have takes : (manager.fewStep event).isSome = true := by
      rw [taken]
      rfl
    refine ⟨fun together => clean (together session _ here takes found), fun apart => ?_⟩
    have loses : ¬Together event.world session data.toListing := by
      intro together
      refine apart fun other listing same _ there => ?_
      rw [here] at same
      cases same
      rw [found] at there
      cases there
      exact together
    obtain ⟨after, gone, kept, now, goneListed, deleted, keptListed, present⟩ := marks loses
    intro restores
    exact not_restores (step_sized sized stepped session after now)
      (few_of_isFew few session after now) goneListed deleted keptListed present
      (restores session after now)
  · have other : ∀ session, event.action ≠ .resolve session :=
      fun session same => resolves ⟨session, same⟩
    refine ⟨fun _ => step_unmarked unmarked other stepped, fun apart => ?_⟩
    exact absurd (fun session _ same => absurd same (other session)) apart

/-- Where all the lists can be read, no entry of them is marked. -/
structure ReadsUnmarked (manager : DownloadManager) : Prop where
  unmarked : AllListings Listing.Restores manager → AllListings Listing.Unmarked manager
  sized : AllListings Listing.Sized manager
  paced : AllListings Listing.Paced manager

/-- The lists that were written survive a restart all along the runs in which every
batch resolves together, and along no other. -/
theorem restores_iff (events : List Event) :
    RunKeeps fewStep (AllListings Listing.Restores) {} events ↔
      RunMeets fewStep ResolvesTogether {} events := by
  have nothing : ∀ {Holds : Listing → Prop}, AllListings Holds {} :=
    fun session listing found => by cases found
  have start : ReadsUnmarked {} := ⟨fun _ => nothing, nothing, nothing⟩
  refine runKeeps_iff_runMeets ?_ ?_ events start nothing
  · rintro manager event next ⟨unmarked, sized, paced⟩ good taken
    obtain ⟨stepped, -⟩ := filter_eq_some_iff.mp taken
    obtain ⟨clean, loses⟩ := step_restores (unmarked good) sized paced taken
    refine ⟨fun restores => ?_, step_sized sized stepped, step_paced paced stepped⟩
    by_contra marked
    exact loses (fun together => marked (clean together)) restores
  · rintro manager event ⟨unmarked, sized, paced⟩ good
    constructor
    · intro after
      by_contra apart
      obtain ⟨next, taken⟩ : ∃ next, manager.fewStep event = some next := by
        unfold ResolvesTogether at apart
        push Not at apart
        obtain ⟨session, listing, -, takes, -⟩ := apart
        exact isSome_iff_exists.mp takes
      exact (step_restores (unmarked good) sized paced taken).2 apart (after next taken)
    · intro together next taken
      obtain ⟨stepped, few⟩ := filter_eq_some_iff.mp taken
      obtain ⟨clean, -⟩ := step_restores (unmarked good) sized paced taken
      exact (clean together).restores (step_sized sized stepped) (few_of_isFew few)

/-- The file of the first entry is missing, and the message of the second is asked for. -/
theorem marked_entry_loses_list :
    (run fewStep {} [
        ⟨lonelyWorld, .trackSession 0
          (serializator { downloaded := [{ savedEntry 97 with size := 2 }, savedEntry 98] })⟩,
        ⟨lonelyWorld, .resolve 0⟩]).bind (fun manager => (manager.listing 0).map fun listing =>
      (listing.downloaded.map fun entry => entry.path.units,
        (deserialize (serializator listing)).map fun entry => entry.path.units)) =
      some ([[], [98]], []) := by
  decide +kernel

end DownloadManager

end TelegramDesktop.Downloads
