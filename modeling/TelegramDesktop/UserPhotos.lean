import TelegramDesktop.ByteStrings
import TelegramDesktop.Runs
import Mathlib.Data.List.Nodup
import Mathlib.Order.MinMax

/-!
# Photos of a user

The photos of a user that are loaded and how many there are in all, as in
`storage/storage_user_photos.cpp`.  The count is an `int`: where it is counted past the
largest one, it wraps around.
-/

namespace TelegramDesktop

open List Option

abbrev PhotoId := UInt64

/-- `UserPhotos::List` -/
structure UserPhotosList where
  count : Option Int := none
  photoIds : List PhotoId := []
  deriving DecidableEq

/-- The photos around one of them. -/
structure UserPhotosQuery where
  photoId : PhotoId
  limitBefore : Nat
  limitAfter : Nat

/-- The photos that answer a query, and what is known around them. -/
structure UserPhotosResult where
  count : Option Int := none
  skippedBefore : Option Int := none
  skippedAfter : Int := 0
  photoIds : List PhotoId := []
  deriving DecidableEq

namespace UserPhotosList

variable (photos : UserPhotosList) (photoId : PhotoId)

/-- A new photo is counted and put first. -/
def addNew : UserPhotosList :=
  if photoId ∈ photos.photoIds then photos
  else
    { count := photos.count.map fun count => toInt32 (count + 1)
      photoIds := photos.photoIds ++ [photoId] }

/-- One round of the loop of `addSlice`. -/
def pushFront (photoIds : List PhotoId) (photoId : PhotoId) : List PhotoId :=
  if photoId ∈ photoIds then photoIds else photoId :: photoIds

/-- The count is compared as a `size_t`. -/
def addSlice (more : List PhotoId) (count : Int) : UserPhotosList :=
  let photoIds := more.foldl pushFront photos.photoIds
  if count % 2 ^ 64 < photoIds.length ∨ more = [] then
    { count := some (toInt32 photoIds.length), photoIds }
  else { count := some count, photoIds }

/-- A photo is removed and no longer counted. -/
def removeOne : UserPhotosList :=
  let position := photos.photoIds.idxOf photoId
  if position = photos.photoIds.length then { photos with count := none }
  else
    { count := photos.count.map fun count => toInt32 (count - 1)
      photoIds := photos.photoIds.eraseIdx position }

/-- This photo and all after it are removed. -/
def removeAfter : UserPhotosList :=
  let position := photos.photoIds.idxOf photoId
  if position = photos.photoIds.length then { count := none, photoIds := [] }
  else
    { count := photos.count.map fun count => toInt32 (count - (photos.photoIds.length - position))
      photoIds := photos.photoIds.take position }

/-- What is put to the consumer.  What is computed for `skippedBefore` from the count is
overwritten. -/
def query (query : UserPhotosQuery) : Option UserPhotosResult :=
  let position := photos.photoIds.idxOf query.photoId
  if position ≠ photos.photoIds.length then
    let haveBefore := position
    let haveEqualOrAfter := photos.photoIds.length - position
    let before := min haveBefore query.limitBefore
    let equalOrAfter := min haveEqualOrAfter (query.limitAfter + 1)
    let skippedInIds : Int := haveBefore - before
    let result : UserPhotosResult :=
      { count := photos.count
        photoIds := segment photos.photoIds (position - before) (position + equalOrAfter)
        skippedBefore := photos.count.map (· + (-photos.photoIds.length + skippedInIds)) }
    some { result with
      skippedBefore := some (haveBefore - before : Int)
      skippedAfter := haveEqualOrAfter - equalOrAfter }
  else if photos.count.isSome then some { count := photos.count }
  else none

/-- The count that `addSlice` is given is an `int` that is not negative. -/
inductive Operation
  | addNew (photoId : PhotoId)
  | addSlice (photoIds : List PhotoId) (count : Fin (2 ^ 31))
  | removeOne (photoId : PhotoId)
  | removeAfter (photoId : PhotoId)

def step : Operation → Option UserPhotosList
  | .addNew photoId => some (photos.addNew photoId)
  | .addSlice photoIds count => some (photos.addSlice photoIds count.val)
  | .removeOne photoId => some (photos.removeOne photoId)
  | .removeAfter photoId => some (photos.removeAfter photoId)

/-- The operations after which an `int` still counts the photos. -/
def Operation.Fits : Operation → Prop
  | .addNew photoId => photoId ∈ photos.photoIds ∨ photos.count ≠ some (2 ^ 31 - 1)
  | .addSlice photoIds _ => (photoIds.foldl pushFront photos.photoIds).length < 2 ^ 31
  | .removeOne _ => True
  | .removeAfter _ => True

instance decidableFits : ∀ operation : Operation, Decidable (operation.Fits photos)
  | .addNew _ => inferInstanceAs (Decidable (_ ∨ _))
  | .addSlice _ _ => inferInstanceAs (Decidable (_ < _))
  | .removeOne _ => isTrue trivial
  | .removeAfter _ => isTrue trivial

/-- No photo is loaded twice, and no more photos are loaded than there are. -/
structure Counts : Prop where
  distinct : photos.photoIds.Nodup
  counted : ∀ count, photos.count = some count → photos.photoIds.length ≤ count

/-- A known count can go up by one. -/
def FitsInt : Prop :=
  ∀ count, photos.count = some count → count < 2 ^ 31

variable {photos}

theorem toInt32_lt (value : Int) : toInt32 value < 2 ^ 31 := by
  have below : toInt32 value < (2 ^ 32 + 1) / 2 := Int.bmod_lt (by decide)
  omega

theorem step_fitsInt {operation : Operation} {next : UserPhotosList} (fits : photos.FitsInt)
    (taken : photos.step operation = some next) : next.FitsInt := by
  have wraps : ∀ {change : Int → Int} {count},
      photos.count.map (fun count => toInt32 (change count)) = some count → count < 2 ^ 31 := by
    intro change count known
    obtain ⟨before, -, rfl⟩ := map_eq_some_iff.mp known
    exact toInt32_lt _
  intro count known
  cases operation with
  | addNew photoId =>
    cases taken
    unfold addNew at known
    split at known
    · exact fits count known
    · exact wraps known
  | addSlice photoIds given =>
    cases taken
    unfold addSlice at known
    dsimp only at known
    split at known
    · rw [← some.inj known]
      exact toInt32_lt _
    · rw [← some.inj known]
      exact_mod_cast given.isLt
  | removeOne photoId =>
    cases taken
    unfold removeOne at known
    dsimp only at known
    split at known
    · cases known
    · exact wraps known
  | removeAfter photoId =>
    cases taken
    unfold removeAfter at known
    dsimp only at known
    split at known
    · cases known
    · exact wraps known

theorem Counts.addNew_iff (fits : photos.FitsInt) (counts : photos.Counts) :
    (photos.addNew photoId).Counts ↔
      photoId ∈ photos.photoIds ∨ photos.count ≠ some (2 ^ 31 - 1) := by
  unfold UserPhotosList.addNew
  by_cases known : photoId ∈ photos.photoIds
  · rw [if_pos known]
    exact iff_of_true counts (.inl known)
  · rw [if_neg known, or_iff_right known]
    constructor
    · intro next full
      have wrapped : photos.count.map (fun count => toInt32 (count + 1)) = some (-2 ^ 31) := by
        rw [full]
        rfl
      have counted := next.counted _ wrapped
      simp at counted
      omega
    · intro notFull
      refine ⟨?_, ?_⟩
      · rw [nodup_append]
        refine ⟨counts.distinct, nodup_singleton photoId, ?_⟩
        intro first firstMem second secondMem same
        rw [mem_singleton.mp secondMem] at same
        exact known (same ▸ firstMem)
      · intro count isCount
        obtain ⟨before, wasKnown, rfl⟩ := map_eq_some_iff.mp isCount
        have least := counts.counted before wasKnown
        have below := fits before wasKnown
        have notLast : before ≠ 2 ^ 31 - 1 := fun last => notFull (last ▸ wasKnown)
        rw [toInt32_eq_self (by omega) (by omega), length_append, length_singleton]
        push_cast
        omega

theorem nodup_foldl_pushFront (more : List PhotoId) {photoIds : List PhotoId}
    (distinct : photoIds.Nodup) : (more.foldl pushFront photoIds).Nodup := by
  induction more generalizing photoIds with
  | nil => exact distinct
  | cons photoId more ih =>
    apply ih
    unfold pushFront
    split
    · exact distinct
    next unknown =>
      exact nodup_cons.mpr ⟨unknown, distinct⟩

theorem Counts.addSlice_iff (counts : photos.Counts) (more : List PhotoId)
    (count : Fin (2 ^ 31)) :
    (photos.addSlice more count.val).Counts ↔
      (more.foldl pushFront photos.photoIds).length < 2 ^ 31 := by
  have distinct := nodup_foldl_pushFront more counts.distinct
  have small := count.isLt
  unfold UserPhotosList.addSlice
  dsimp only
  generalize more.foldl pushFront photos.photoIds = photoIds at distinct
  by_cases few : (count.val : Int) % 2 ^ 64 < photoIds.length ∨ more = []
  · rw [if_pos few]
    constructor
    · intro next
      have counted := next.counted _ rfl
      have below := toInt32_lt photoIds.length
      dsimp only at counted
      omega
    · intro fits
      refine ⟨distinct, ?_⟩
      intro total known
      rw [← some.inj known, toInt32_eq_self (by omega) (by omega)]
  · rw [if_neg few]
    rw [not_or, not_lt] at few
    refine iff_of_true ⟨distinct, ?_⟩ (by omega)
    intro total known
    rw [← some.inj known]
    dsimp only
    omega

theorem Counts.removeOne (fits : photos.FitsInt) (counts : photos.Counts) :
    (photos.removeOne photoId).Counts := by
  unfold UserPhotosList.removeOne
  dsimp only
  by_cases found : photos.photoIds.idxOf photoId = photos.photoIds.length
  · rw [if_pos found]
    exact ⟨counts.distinct, nofun⟩
  · rw [if_neg found]
    have below : photos.photoIds.idxOf photoId < photos.photoIds.length :=
      lt_of_le_of_ne idxOf_le_length found
    refine ⟨counts.distinct.sublist (eraseIdx_sublist _ _), ?_⟩
    intro total known
    obtain ⟨before, wasKnown, rfl⟩ := map_eq_some_iff.mp known
    have least := counts.counted before wasKnown
    have most := fits before wasKnown
    rw [length_eraseIdx_of_lt below, toInt32_eq_self (by omega) (by omega)]
    omega

theorem Counts.removeAfter (fits : photos.FitsInt) (counts : photos.Counts) :
    (photos.removeAfter photoId).Counts := by
  unfold UserPhotosList.removeAfter
  dsimp only
  by_cases found : photos.photoIds.idxOf photoId = photos.photoIds.length
  · rw [if_pos found]
    exact ⟨nodup_nil, nofun⟩
  · rw [if_neg found]
    refine ⟨counts.distinct.sublist (take_sublist _ _), ?_⟩
    intro total known
    obtain ⟨before, wasKnown, rfl⟩ := map_eq_some_iff.mp known
    have least := counts.counted before wasKnown
    have most := fits before wasKnown
    have position : photos.photoIds.idxOf photoId ≤ photos.photoIds.length :=
      idxOf_le_length
    rw [length_take, min_eq_left position, toInt32_eq_self (by omega) (by omega)]
    omega

/-- One operation keeps the counts exactly if they still fit an `int`. -/
theorem step_counts_iff (fits : photos.FitsInt) (counts : photos.Counts) (operation : Operation) :
    (∀ next, photos.step operation = some next → next.Counts) ↔ operation.Fits photos := by
  cases operation with
  | addNew photoId => simpa [step, Operation.Fits] using counts.addNew_iff photoId fits
  | addSlice photoIds count => simpa [step, Operation.Fits] using counts.addSlice_iff photoIds count
  | removeOne photoId => simpa [step, Operation.Fits] using counts.removeOne photoId fits
  | removeAfter photoId => simpa [step, Operation.Fits] using counts.removeAfter photoId fits

variable {query : UserPhotosQuery} {result : UserPhotosResult}

theorem query_loaded (answered : photos.query query = some result) (shown : result.photoIds ≠ []) :
    ∃ skippedBefore, result.skippedBefore = some skippedBefore ∧
      skippedBefore + result.photoIds.length + result.skippedAfter =
        photos.photoIds.length := by
  have position : photos.photoIds.idxOf query.photoId ≤ photos.photoIds.length :=
    idxOf_le_length
  unfold UserPhotosList.query at answered
  dsimp only at answered
  split at answered
  · cases answered
    refine ⟨_, rfl, ?_⟩
    dsimp only
    rw [length_segment (by omega)]
    omega
  · split at answered
    · cases answered
      exact absurd rfl shown
    · cases answered

/-- The parts of the result add up to the total. -/
def AccountsFor (result : UserPhotosResult) (total : Int) : Prop :=
  ∃ skippedBefore, result.skippedBefore = some skippedBefore ∧
    skippedBefore + result.photoIds.length + result.skippedAfter = total

theorem accountsFor_iff {total : Int} (answered : photos.query query = some result)
    (shown : result.photoIds ≠ []) :
    AccountsFor result total ↔ total = photos.photoIds.length := by
  obtain ⟨skippedBefore, skipped, loaded⟩ := query_loaded answered shown
  constructor
  · rintro ⟨other, otherSkipped, all⟩
    rw [skipped, some.injEq] at otherSkipped
    omega
  · rintro rfl
    exact ⟨skippedBefore, skipped, loaded⟩

/-- In all states of a run the photos are distinct and not more than the known count,
exactly if an `int` counts them after every step.  An answer then accounts for all photos
exactly if all of them are loaded. -/
theorem answers_account_iff_loaded (operations : List Operation) :
    (RunKeeps step Counts ({} : UserPhotosList) operations ↔
      RunMeets step (fun photos operation => operation.Fits photos) ({} : UserPhotosList)
        operations) ∧
    ∀ photos, run step ({} : UserPhotosList) operations = some photos → photos.Counts →
      ∀ query result total, photos.query query = some result → result.photoIds ≠ [] →
        photos.count = some total →
          (AccountsFor result total ↔ total = photos.photoIds.length) := by
  refine ⟨runKeeps_iff_runMeets (fun _ _ _ fits _ taken => step_fitsInt fits taken)
    (fun _ operation fits counts => step_counts_iff fits counts operation) operations nofun
    ⟨nodup_nil, nofun⟩, ?_⟩
  intro photos _ _ query result total answered shown _
  exact accountsFor_iff answered shown

theorem answers_account_iff_loaded_both :
    AccountsFor
      { count := some 3, skippedBefore := some 1, skippedAfter := 0, photoIds := [2, 3] } 3 := by
  have all := answers_account_iff_loaded [.addSlice [2, 1] 2, .addNew 3]
  have reaches : run step ({} : UserPhotosList) [.addSlice [2, 1] 2, .addNew 3] =
      some ⟨some 3, [1, 2, 3]⟩ := by decide +kernel
  have counts := (all.1.mpr (by decide +kernel)).at_end reaches
  exact (all.2 _ reaches counts ⟨2, 0, 1⟩ _ 3 (by decide) (by decide) rfl).mpr (by decide)

/-- Five photos exist and one of them is loaded: no photo counts as skipped. -/
theorem unloaded_photos_not_skipped :
    ∃ photos result, run step ({} : UserPhotosList) [.addSlice [1] 5] = some photos ∧
      photos.count = some 5 ∧ photos.query ⟨1, 10, 10⟩ = some result ∧
      result.photoIds ≠ [] ∧ ¬AccountsFor result 5 := by
  refine ⟨⟨some 5, [1]⟩, ⟨some 5, some 0, 0, [1]⟩, by decide, rfl, by decide, by decide, ?_⟩
  rintro ⟨skippedBefore, skipped, all⟩
  cases skipped
  exact absurd all (by decide)

end UserPhotosList

end TelegramDesktop
