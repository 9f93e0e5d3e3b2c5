import TelegramDesktop.StreamedFileDownloader
import TelegramDesktop.FileLoaderCache
import Mathlib.Algebra.Order.BigOperators.Group.Finset

/-!
# A streamed download assembles the file

What was written holds the saved parts at their offsets and ends with the last of them,
whatever order they are saved in, and the bytes that are counted as skipped are those of
the parts before it that are not saved yet.
-/

namespace TelegramDesktop.StreamedFileDownloader

open StreamedFileDownloader List Option Finset

variable {file content : Bytes} {loader next : StreamedFileDownloader} {saved : Nat → Bool}

variable {index : Nat}

theorem lt_partsNumber_iff {size : Nat} :
    index < partsNumber size ↔ index * kPartSize < size := by
  simp only [partsNumber, kPartSize]
  omega

theorem length_part (file : Bytes) (offset : Nat) :
    (part file offset).length = min kPartSize (file.length - offset) := by
  simp [part, segment]

theorem getElem?_segment (content : Bytes) (start till index : Nat) :
    (segment content start till)[index]? =
      if index < till - start then content[start + index]? else none := by
  rw [segment, getElem?_take, getElem?_drop]

theorem sum_length_part (file : Bytes) (count : Nat) :
    ∑ index ∈ range count, (part file (index * kPartSize)).length =
      min (count * kPartSize) file.length := by
  induction count with
  | zero => simp
  | succ count ih =>
    rw [Finset.sum_range_succ, ih, length_part, Nat.succ_mul]
    omega

theorem sum_length_parts (file : Bytes) :
    ∑ index ∈ range (partsNumber file.length), (part file (index * kPartSize)).length =
      file.length := by
  have whole : ¬partsNumber file.length < partsNumber file.length := lt_irrefl _
  rw [lt_partsNumber_iff] at whole
  rw [sum_length_part]
  omega

theorem filter_update_saved {parts : Finset Nat} (inside : index ∈ parts) :
    (parts.filter fun other => Function.update saved index true other = true) =
      insert index (parts.filter fun other => saved other = true) := by
  ext other
  by_cases same : other = index
  · simp [same, inside]
  · simp [same]

theorem filter_update_unsaved {parts : Finset Nat} (index : Nat) :
    (parts.filter fun other => Function.update saved index true other = false) =
      (parts.filter fun other => saved other = false).erase index := by
  ext other
  by_cases same : other = index
  · simp [same]
  · simp [same]

theorem filter_unsaved_add {count : Nat} (start : Nat)
    (passed : ∀ index < count, saved (start + index) = true) :
    ((Finset.range (start + count)).filter fun index => saved index = false) =
      (Finset.range start).filter fun index => saved index = false := by
  induction count with
  | zero => rfl
  | succ count ih =>
    have last := passed count (Nat.lt_succ_self count)
    rw [Nat.add_succ, range_add_one, filter_insert, if_neg (by simp [last])]
    exact ih fun index below => passed index (Nat.lt_succ_of_lt below)

theorem card_unsaved_succ (unsaved : saved index = false) :
    ((Finset.range (index + 1)).filter fun other => saved other = false).card =
      ((Finset.range index).filter fun other => saved other = false).card + 1 := by
  rw [range_add_one, filter_insert, if_pos unsaved, card_insert_of_notMem (by simp)]

/-- What was written holds the saved parts and ends with one of them, and what is not
skipped has the size of the saved parts. -/
structure Contains (file content : Bytes) (saved : Nat → Bool) (skipped : Int) : Prop where
  bytes : ∀ index, saved index = true → ∀ place, index * kPartSize ≤ place →
    place < index * kPartSize + kPartSize → content[place]? = file[place]?
  ends : content = [] ∨
    ∃ index, saved index = true ∧ index * kPartSize < file.length ∧
      content.length = min (index * kPartSize + kPartSize) file.length
  size : (content.length : Int) - skipped =
    ((∑ index ∈ (Finset.range (partsNumber file.length)).filter fun index => saved index = true,
      (part file (index * kPartSize)).length : Nat) : Int)

theorem contains_nil (file : Bytes) : Contains file [] (fun _ => false) 0 := by
  constructor
  · simp
  · simp
  · simp

variable {skipped : Int}

section

variable (contains : Contains file content saved skipped)
include contains

theorem Contains.length_le : content.length ≤ file.length := by
  rcases contains.ends with rfl | ⟨index, -, -, length⟩
  · simp
  · omega

/-- A part that is not saved is before the end with all its bytes, or not before the end. -/
theorem Contains.whole_of_lt (unsaved : saved index = false)
    (before : index * kPartSize < content.length) :
    index * kPartSize + kPartSize ≤ content.length := by
  rcases contains.ends with rfl | ⟨last, isSaved, inside, length⟩
  · simp at before
  · have different : index ≠ last := by
      rintro rfl
      simp [unsaved] at isSaved
    simp only [kPartSize] at *
    omega

theorem Contains.save (unsaved : saved index = false) (inside : index * kPartSize < file.length) :
    Contains file (overwrite content (index * kPartSize) (part file (index * kPartSize)))
      (Function.update saved index true)
      (skippedAfter content.length (index * kPartSize) (part file (index * kPartSize)).length
        skipped) := by
  have size := length_part file (index * kPartSize)
  have some : part file (index * kPartSize) ≠ [] := by
    apply ne_nil_of_length_pos
    rw [size]
    simp only [kPartSize] at *
    omega
  have written : (overwrite content (index * kPartSize) (part file (index * kPartSize))).length =
      max content.length (index * kPartSize + (part file (index * kPartSize)).length) :=
    length_overwrite some
  have whole := contains.whole_of_lt unsaved
  have shorter := contains.length_le
  constructor
  · intro other isSaved place first last
    by_cases same : other = index
    · subst same
      by_cases past : file.length ≤ place
      · rw [getElem?_eq_none past, getElem?_eq_none (by omega)]
      · rw [getElem?_overwrite_inside first (by omega), part, getElem?_segment,
          if_pos (by omega), Nat.add_sub_cancel' first]
    · have present : content[place]? = file[place]? := by
        apply contains.bytes other _ place first last
        simpa [same] using isSaved
      by_cases past : content.length ≤ place
      · have ends : file.length ≤ place := by
          rw [getElem?_eq_none past] at present
          simpa using present.symm
        rw [getElem?_eq_none ends, getElem?_eq_none (by omega)]
      · rw [getElem?_overwrite_outside (by omega), present]
        simp only [kPartSize] at *
        omega
  · right
    by_cases before : index * kPartSize < content.length
    · rcases contains.ends with rfl | ⟨last, isSaved, lastInside, length⟩
      · simp at before
      · refine ⟨last, ?_, lastInside, ?_⟩
        · by_cases same : last = index
          · simp [same]
          · simp [same, isSaved]
        · omega
    · refine ⟨index, by simp, inside, ?_⟩
      omega
  · have member : index ∈ Finset.range (partsNumber file.length) := by
      simpa [lt_partsNumber_iff] using inside
    rw [filter_update_saved member, sum_insert (by simp [unsaved]), written]
    have before := contains.size
    unfold skippedAfter
    split_ifs with within beyond
    · omega
    · omega
    · omega

theorem Contains.eq_file (all : ∀ index < partsNumber file.length, saved index = true) :
    content = file := by
  apply ext_getElem?
  intro place
  by_cases past : file.length ≤ place
  · rw [getElem?_eq_none past, getElem?_eq_none (contains.length_le.trans past)]
  · have inside : place / kPartSize < partsNumber file.length := by
      rw [lt_partsNumber_iff]
      simp only [kPartSize] at *
      omega
    apply contains.bytes _ (all _ inside) place
    · simp only [kPartSize]
      omega
    · simp only [kPartSize]
      omega

theorem Contains.skipped_eq (all : ∀ index < partsNumber file.length, saved index = true) :
    skipped = 0 := by
  have size := contains.size
  rw [contains.eq_file all, filter_true_of_mem (by simpa using all), sum_length_parts] at size
  omega

theorem Contains.segment_eq (isSaved : saved index = true) :
    segment content (index * kPartSize) (index * kPartSize + kPartSize) =
      part file (index * kPartSize) := by
  apply ext_getElem?
  intro place
  rw [part, getElem?_segment, getElem?_segment]
  split_ifs with inside
  · exact contains.bytes index isSaved _ (Nat.le_add_right _ _) (by omega)
  · rfl

end

/-- What is stored is the file, as far as its parts are saved. -/
structure Stored (file : Bytes) (loader : StreamedFileDownloader) : Prop where
  fullSize : loader.fullSize = file.length
  partsCount : loader.partsCount = partsNumber file.length
  length : loader.partIsSaved.length = partsNumber file.length
  partsSaved : loader.partsSaved =
    ((Finset.range (partsNumber file.length)).filter fun index => loader.isSaved index = true).card
  opened : loader.fileIsOpen = (loader.toFileOnly && !loader.finished)
  memory : loader.toFileOnly = true → loader.data = []
  contains : Contains file loader.result loader.isSaved loader.skippedBytes

/-- The parts that were requested and are not saved are counted. -/
structure Requests (loader : StreamedFileDownloader) : Prop where
  next : loader.nextPartIndex ≤ loader.partIsSaved.length
  requested : loader.partsRequested =
    ((Finset.range loader.nextPartIndex).filter fun index => loader.isSaved index = false).card
  few : loader.partsRequested ≤ kRequestPartsCount

/-- The loader is finished once all parts are saved, and then the whole file is there. -/
structure Finalized (file : Bytes) (loader : StreamedFileDownloader) : Prop where
  finished : loader.finished = true ↔ loader.allSaved
  finalized : loader.finalized = if loader.finished then 1 else 0
  copied : loader.finished = true → loader.hasFilename = true → loader.file = loader.result

/-- All that holds of the loader in every state. -/
structure Kept (file : Bytes) (loader : StreamedFileDownloader) : Prop where
  stored : Stored file loader
  requests : Requests loader
  finalized : Finalized file loader

theorem Stored.isSaved_eq (stored : Stored file loader) (inside : index < partsNumber file.length) :
    loader.partIsSaved[index]? = some (loader.isSaved index) := by
  rw [← stored.length] at inside
  simp [isSaved, inside]

theorem Stored.allSaved_iff (stored : Stored file loader) :
    loader.allSaved ↔ (loader.partsSaved : Int) = loader.partsCount := by
  have card := card_filter_eq_iff (s := range (partsNumber file.length))
    (p := fun index => loader.isSaved index = true)
  rw [card_range] at card
  rw [stored.partsCount, stored.partsSaved, Int.natCast_inj, card, allSaved, stored.fullSize]
  simp

/-- The same parts are saved. -/
structure SameParts (loader next : StreamedFileDownloader) : Prop where
  fullSize : next.fullSize = loader.fullSize
  hasFilename : next.hasFilename = loader.hasFilename
  toCache : next.toCache = loader.toCache
  partsCount : next.partsCount = loader.partsCount
  partIsSaved : next.partIsSaved = loader.partIsSaved
  partsSaved : next.partsSaved = loader.partsSaved
  fileIsOpen : next.fileIsOpen = loader.fileIsOpen
  finished : next.finished = loader.finished
  finalized : next.finalized = loader.finalized

/-- The same parts are saved, with the same bytes. -/
structure SameStored (loader next : StreamedFileDownloader) : Prop extends
    SameParts loader next where
  file : next.file = loader.file
  data : next.data = loader.data
  skippedBytes : next.skippedBytes = loader.skippedBytes

/-- The same parts are requested. -/
structure SameRequests (loader next : StreamedFileDownloader) : Prop where
  nextPartIndex : next.nextPartIndex = loader.nextPartIndex
  partsRequested : next.partsRequested = loader.partsRequested

namespace SameParts

variable (same : SameParts loader next)

include same

theorem isSaved : next.isSaved = loader.isSaved := by
  funext index
  rw [StreamedFileDownloader.isSaved, StreamedFileDownloader.isSaved, same.partIsSaved]

theorem allSaved : next.allSaved ↔ loader.allSaved := by
  rw [StreamedFileDownloader.allSaved, StreamedFileDownloader.allSaved, same.fullSize, same.isSaved]

theorem toFileOnly : next.toFileOnly = loader.toFileOnly := by
  rw [StreamedFileDownloader.toFileOnly, StreamedFileDownloader.toFileOnly, same.hasFilename,
    same.toCache]

theorem requests (sameRequests : SameRequests loader next) (requests : Requests loader) :
    Requests next := by
  constructor
  · rw [sameRequests.nextPartIndex, same.partIsSaved]
    exact requests.next
  · rw [sameRequests.partsRequested, sameRequests.nextPartIndex, same.isSaved]
    exact requests.requested
  · rw [sameRequests.partsRequested]
    exact requests.few

end SameParts

namespace SameStored

variable (same : SameStored loader next)

include same

theorem result : next.result = loader.result := by
  rw [StreamedFileDownloader.result, StreamedFileDownloader.result, same.toFileOnly, same.file,
    same.data]

theorem stored (stored : Stored file loader) : Stored file next := by
  constructor
  · rw [same.fullSize, stored.fullSize]
  · rw [same.partsCount, stored.partsCount]
  · rw [same.partIsSaved, stored.length]
  · rw [same.partsSaved, same.isSaved, stored.partsSaved]
  · rw [same.fileIsOpen, same.toFileOnly, same.finished, stored.opened]
  · rw [same.toFileOnly, same.data]
    exact stored.memory
  · rw [same.result, same.isSaved, same.skippedBytes]
    exact stored.contains

theorem finalizedSame (finalized : Finalized file loader) : Finalized file next := by
  constructor
  · rw [same.finished, same.allSaved, finalized.finished]
  · rw [same.finished, same.finalized, finalized.finalized]
  · rw [same.finished, same.hasFilename, same.file, same.result]
    exact finalized.copied

end SameStored

theorem sameStored_refl (loader : StreamedFileDownloader) : SameStored loader loader :=
  ⟨⟨rfl, rfl, rfl, rfl, rfl, rfl, rfl, rfl, rfl⟩, rfl, rfl, rfl⟩

theorem Requests.requestPart (requests : Requests loader)
    (count : loader.partsCount = loader.partIsSaved.length)
    (few : loader.partsRequested < kRequestPartsCount) (asked : loader.requestPart = some next) :
    Requests next ∧ SameStored loader next := by
  unfold StreamedFileDownloader.requestPart loadForDownloader at asked
  generalize found : (loader.partIsSaved.drop loader.nextPartIndex).findIdx (· = false) = passed
    at asked
  have le : passed ≤ (loader.partIsSaved.drop loader.nextPartIndex).length := by
    rw [← found]
    exact findIdx_le_length
  rw [length_drop] at le
  have inside := requests.next
  have passedSaved : ∀ index < passed, loader.isSaved (loader.nextPartIndex + index) = true := by
    intro index below
    have notFound := not_of_lt_findIdx (found.symm ▸ below)
    have present : loader.nextPartIndex + index < loader.partIsSaved.length := by omega
    simpa [isSaved, getElem?_eq_getElem present] using notFound
  have skipped := filter_unsaved_add loader.nextPartIndex passedSaved
  dsimp only at asked
  split at asked
  · cases asked
    refine ⟨⟨?_, ?_, requests.few⟩, ⟨⟨rfl, rfl, rfl, rfl, rfl, rfl, rfl, rfl, rfl⟩, rfl, rfl, rfl⟩⟩
    · change loader.nextPartIndex + passed ≤ loader.partIsSaved.length
      omega
    · exact requests.requested.trans (congrArg (fun parts => (card parts : Int)) skipped.symm)
  · split at asked
    · cases asked
    · cases asked
      have below : loader.nextPartIndex + passed < loader.partIsSaved.length := by omega
      have unsaved : loader.isSaved (loader.nextPartIndex + passed) = false := by
        have within : (loader.partIsSaved.drop loader.nextPartIndex).findIdx (· = false) <
            (loader.partIsSaved.drop loader.nextPartIndex).length := by
          rw [found, length_drop]
          omega
        have isFirst := findIdx_getElem (w := within)
        simp only [found, getElem_drop, decide_eq_true_eq] at isFirst
        simpa [isSaved, getElem?_eq_getElem below] using isFirst
      refine ⟨⟨below, ?_, ?_⟩, ⟨⟨rfl, rfl, rfl, rfl, rfl, rfl, rfl, rfl, rfl⟩, rfl, rfl, rfl⟩⟩
      · change loader.partsRequested + 1 =
          ((Finset.filter (fun index => loader.isSaved index = false)
            (range (loader.nextPartIndex + passed + 1))).card : Int)
        rw [card_unsaved_succ unsaved, skipped, requests.requested]
        rfl
      · change loader.partsRequested + 1 ≤ kRequestPartsCount
        omega

theorem Kept.requestPartsLoop {fuel : Nat} (kept : Kept file loader)
    (asked : requestPartsLoop fuel loader = some next) : Kept file next := by
  induction fuel generalizing loader with
  | zero =>
    cases asked
    exact kept
  | succ fuel ih =>
    unfold requestPartsLoop at asked
    split at asked
    next goes =>
      obtain ⟨requested, first, rest⟩ := bind_eq_some_iff.mp asked
      have count : loader.partsCount = loader.partIsSaved.length := by
        rw [kept.stored.partsCount, kept.stored.length]
      obtain ⟨requests, same⟩ := kept.requests.requestPart count goes.2.2 first
      exact ih ⟨same.stored kept.stored, requests, same.finalizedSame kept.finalized⟩ rest
    · cases asked
      exact kept

theorem Kept.requestParts (kept : Kept file loader) (asked : loader.requestParts = some next) :
    Kept file next :=
  kept.requestPartsLoop asked

theorem isSaved_countSaved (inside : index < loader.partIsSaved.length) :
    (loader.countSaved index).isSaved = Function.update loader.isSaved index true := by
  funext other
  by_cases same : other = index
  · subst same
    simp [isSaved, countSaved, inside]
  · simp [isSaved, countSaved, same, getElem?_set_ne (Ne.symm same)]

theorem Stored.partsSaved_countSaved (stored : Stored file loader)
    (inside : index < partsNumber file.length) (unsaved : loader.isSaved index = false) :
    (loader.countSaved index).partsSaved =
      ((Finset.range (partsNumber file.length)).filter fun other =>
        (loader.countSaved index).isSaved other = true).card := by
  rw [isSaved_countSaved (stored.length.symm ▸ inside), filter_update_saved (mem_range.mpr inside),
    card_insert_of_notMem (by simp [unsaved]), ← stored.partsSaved]
  rfl

theorem Requests.countSaved (requests : Requests loader)
    (inside : index < loader.partIsSaved.length) (unsaved : loader.isSaved index = false) :
    Requests (loader.countSaved index) := by
  have few := requests.few
  have requested := requests.requested
  constructor
  · simpa [StreamedFileDownloader.countSaved] using requests.next
  · rw [isSaved_countSaved inside]
    simp only [StreamedFileDownloader.countSaved]
    rw [filter_update_unsaved]
    split_ifs with passed
    · have member : index ∈ (Finset.range loader.nextPartIndex).filter fun other =>
          loader.isSaved other = false := by
        simp [passed, unsaved]
      have positive := card_pos.mpr ⟨index, member⟩
      rw [card_erase_of_mem member, requested]
      omega
    · rw [erase_eq_of_notMem (by simp [passed]), requested]
  · simp only [StreamedFileDownloader.countSaved]
    split_ifs
    · omega
    · exact few

/-- What is written goes to the file that is open or to memory. -/
structure WritesTo (loader : StreamedFileDownloader) (offset : Nat) (buffer : Bytes)
    (next : StreamedFileDownloader) : Prop where
  parts : SameParts loader next
  requests : SameRequests loader next
  result : next.result = overwrite loader.result offset buffer
  memory : loader.toFileOnly = true → next.data = loader.data
  skippedBytes : next.skippedBytes =
    skippedAfter loader.result.length offset buffer.length loader.skippedBytes

theorem writesTo_writeResultPart (opened : loader.fileIsOpen = loader.toFileOnly) (offset : Nat)
    {buffer : Bytes} (some : buffer ≠ []) :
    WritesTo loader offset buffer (loader.writeResultPart offset buffer) := by
  unfold writeResultPart
  rw [if_neg some]
  cases toFile : loader.toFileOnly
  · rw [if_neg (by simp [opened, toFile])]
    refine ⟨⟨rfl, rfl, rfl, rfl, rfl, rfl, rfl, rfl, rfl⟩, ⟨rfl, rfl⟩, ?_, ?_, ?_⟩
    · rw [result, result, toFile]
      change (if loader.toFileOnly then _ else _) = _
      rw [toFile]
      rfl
    · intro toFile'
      cases toFile.symm.trans toFile'
    · rw [result, toFile]
      rfl
  · rw [if_pos (by simp [opened, toFile])]
    refine ⟨⟨rfl, rfl, rfl, rfl, rfl, rfl, rfl, rfl, rfl⟩, ⟨rfl, rfl⟩, ?_, fun _ => rfl, ?_⟩
    · rw [result, result, toFile]
      change (if loader.toFileOnly then _ else _) = _
      rw [toFile]
      rfl
    · rw [result, toFile]
      rfl

theorem Stored.save (stored : Stored file loader)
    (inside : index < partsNumber file.length) (unsaved : loader.isSaved index = false)
    (writes : WritesTo (loader.countSaved index) (index * kPartSize)
      (part file (index * kPartSize)) next) : Stored file next := by
  have isSaved := isSaved_countSaved (stored.length.symm ▸ inside)
  have same := writes.parts
  have toFileOnly : next.toFileOnly = loader.toFileOnly := same.toFileOnly
  constructor
  · exact same.fullSize.trans stored.fullSize
  · exact same.partsCount.trans stored.partsCount
  · rw [same.partIsSaved]
    exact length_set.trans stored.length
  · rw [same.partsSaved, same.isSaved]
    exact stored.partsSaved_countSaved inside unsaved
  · rw [same.fileIsOpen, toFileOnly, same.finished]
    exact stored.opened
  · intro toFile
    rw [toFileOnly] at toFile
    exact (writes.memory toFile).trans (stored.memory toFile)
  · rw [writes.result, same.isSaved, isSaved, writes.skippedBytes]
    exact stored.contains.save unsaved (lt_partsNumber_iff.mp inside)

theorem Stored.finalizeResult (stored : Stored file loader) (requests : Requests loader)
    (first : loader.finalized = 0) (all : loader.allSaved) :
    Kept file loader.finalizeResult := by
  unfold StreamedFileDownloader.finalizeResult
  split_ifs with asWell
  · have toMemory : loader.toFileOnly = false := by simp [toFileOnly, asWell]
    have contains := stored.contains
    rw [result, toMemory, if_neg Bool.false_ne_true] at contains
    have result : (if loader.toFileOnly then loader.data else loader.data) = loader.data := by simp
    refine ⟨{ stored with opened := ?_, contains := ?_ }, { requests with }, ?_, ?_, ?_⟩
    · simp [fileIsOpen]
    · change Contains file (if loader.toFileOnly then loader.data else loader.data) _ _
      rw [result]
      exact contains
    · exact iff_of_true rfl all
    · change loader.finalized + 1 = 1
      rw [first]
    · intro _ _
      exact result.symm
  · refine ⟨{ stored with opened := ?_ }, { requests with }, ?_, ?_, ?_⟩
    · simp [fileIsOpen]
    · exact iff_of_true rfl all
    · change loader.finalized + 1 = 1
      rw [first]
    · intro _ named
      change loader.hasFilename = true at named
      have toFile : loader.toFileOnly = true := by
        cases setting : loader.toCache
        · simp [toFileOnly, named, setting]
        · exact absurd ⟨named, setting⟩ asWell
      change loader.file = if loader.toFileOnly then loader.file else loader.data
      rw [if_pos toFile]

theorem Kept.writesTo_countSaved (kept : Kept file loader) (going : loader.finished = false)
    (inside : index < partsNumber file.length) :
    WritesTo (loader.countSaved index) (index * kPartSize) (part file (index * kPartSize))
      ((loader.countSaved index).writeResultPart (index * kPartSize)
        (part file (index * kPartSize))) := by
  apply writesTo_writeResultPart
  · change loader.fileIsOpen = loader.toFileOnly
    simpa [going] using kept.stored.opened
  · apply ne_nil_of_length_pos
    rw [length_part]
    rw [lt_partsNumber_iff] at inside
    simp only [kPartSize] at *
    omega

variable {offset : Nat}

theorem sameStored_doneForDownloader (acked : loader.doneForDownloader offset = some next) :
    SameStored loader next ∧ SameRequests loader next := by
  unfold doneForDownloader at acked
  split at acked
  · cases acked
  · cases acked
    exact ⟨⟨⟨rfl, rfl, rfl, rfl, rfl, rfl, rfl, rfl, rfl⟩, rfl, rfl, rfl⟩, ⟨rfl, rfl⟩⟩

theorem Kept.savePart (kept : Kept file loader)
    (done : loader.savePart offset (part file offset) = some next) : Kept file next := by
  unfold StreamedFileDownloader.savePart at done
  split at done
  · cases done
  next expected =>
    rw [not_not, kept.stored.fullSize] at expected
    split at done
    · cases done
      exact kept
    next going =>
      rw [Bool.not_eq_true] at going
      obtain ⟨saved, isSaved, done⟩ := bind_eq_some_iff.mp done
      have atIndex : offset / kPartSize * kPartSize = offset := by
        simp only [kPartSize] at *
        omega
      have inside : offset / kPartSize < partsNumber file.length := by
        rw [lt_partsNumber_iff, atIndex]
        exact expected.1
      rw [kept.stored.isSaved_eq inside, some.injEq] at isSaved
      split at done
      · cases done
        exact kept
      next unsaved =>
        rw [Bool.not_eq_true, ← isSaved] at unsaved
        obtain ⟨acked, isAcked, done⟩ := bind_eq_some_iff.mp done
        have writes := kept.writesTo_countSaved going inside
        rw [atIndex] at writes
        have same := sameStored_doneForDownloader isAcked
        have stored := same.1.stored (kept.stored.save inside unsaved (atIndex.symm ▸ writes))
        have requests := same.1.requests same.2 (writes.parts.requests writes.requests
            (kept.requests.countSaved (kept.stored.length.symm ▸ inside) unsaved))
        have goes : acked.finished = false :=
          same.1.finished.trans (writes.parts.finished.trans going)
        have notFinalized : acked.finalized = 0 := by
          have none := kept.finalized.finalized
          rw [going, if_neg Bool.false_ne_true] at none
          exact same.1.finalized.trans (writes.parts.finalized.trans none)
        split at done
        next all =>
          cases done
          exact stored.finalizeResult requests notFinalized (stored.allSaved_iff.mpr all)
        next notAll =>
          refine Kept.requestParts ⟨stored, requests, ?_, ?_, ?_⟩ done
          · exact iff_of_false (by simp [goes]) fun all => notAll (stored.allSaved_iff.mp all)
          · simp [goes, notFinalized]
          · simp [goes]

theorem sameStored_readLoadedPartBack (loader : StreamedFileDownloader) (offset size : Nat) :
    SameStored loader (loader.readLoadedPartBack offset size).2 ∧
      SameRequests loader (loader.readLoadedPartBack offset size).2 := by
  unfold readLoadedPartBack
  split
  · split
    next opened =>
      exact ⟨⟨⟨rfl, rfl, rfl, rfl, rfl, rfl, by simp [fileIsOpen, opened], rfl, rfl⟩,
        rfl, rfl, rfl⟩, ⟨rfl, rfl⟩⟩
    · exact ⟨sameStored_refl loader, ⟨rfl, rfl⟩⟩
  · exact ⟨sameStored_refl loader, ⟨rfl, rfl⟩⟩

theorem Kept.readLoadedPart (kept : Kept file loader) {read : Bytes}
    (done : loader.readLoadedPart offset = some (read, next)) : Kept file next := by
  unfold StreamedFileDownloader.readLoadedPart at done
  split at done
  · obtain ⟨saved, -, isRead⟩ := map_eq_some_iff.mp done
    split at isRead
    · obtain ⟨same, sameRequests⟩ := sameStored_readLoadedPartBack loader offset kPartSize
      rw [isRead] at same sameRequests
      exact ⟨same.stored kept.stored, same.requests sameRequests kept.requests,
        same.finalizedSame kept.finalized⟩
    · cases isRead
      exact kept
  · cases done

/-- What is read back of a whole part, from the file that is open or from memory. -/
theorem Stored.readLoadedPartBack (stored : Stored file loader)
    (isOpen : loader.toFileOnly = true → loader.finished = false)
    (whole : offset + kPartSize ≤ file.length)
    (isPart : segment loader.result offset (offset + kPartSize) = part file offset) :
    (loader.readLoadedPartBack offset kPartSize).1 = part file offset := by
  have length : (part file offset).length = kPartSize := by
    rw [length_part]
    omega
  unfold StreamedFileDownloader.readLoadedPartBack
  rw [result] at isPart
  cases toFile : loader.toFileOnly
  · have closed : loader.fileIsOpen = false := by simpa [toFile] using stored.opened
    rw [toFile, if_neg Bool.false_ne_true] at isPart
    have inside : offset + kPartSize ≤ loader.data.length := by
      rw [← isPart, segment, length_take, length_drop] at length
      simp only [kPartSize] at *
      omega
    rw [if_neg (by simp [closed])]
    rw [if_pos inside, isPart]
  · have opened : loader.fileIsOpen = true := by
      simpa [toFile, isOpen toFile] using stored.opened
    rw [toFile, if_pos rfl] at isPart
    have same : (if loader.openMode = some .writeOnly then
        { loader with openMode := some .readWrite } else loader).file = loader.file := by
      split_ifs <;> rfl
    rw [if_pos opened]
    dsimp only
    rw [same, isPart, if_pos length]

theorem Kept.readsBack (kept : Kept file loader)
    (isOpen : loader.toFileOnly = true → loader.finished = false)
    (inside : offset < file.length) (aligned : offset % kPartSize = 0)
    (whole : loader.isSaved (offset / kPartSize) = true → offset + kPartSize ≤ file.length) :
    ReadsBack file loader offset := by
  have atIndex : offset / kPartSize * kPartSize = offset := by
    simp only [kPartSize] at *
    omega
  have below : offset / kPartSize < partsNumber file.length := by
    rw [lt_partsNumber_iff, atIndex]
    exact inside
  have stored := kept.stored
  unfold ReadsBack StreamedFileDownloader.readLoadedPart
  rw [if_pos ⟨stored.fullSize.symm ▸ inside, aligned⟩, stored.isSaved_eq below, map_some,
    map_some, some.injEq]
  split
  next isSaved =>
    have isPart := stored.contains.segment_eq isSaved
    rw [atIndex] at isPart
    exact stored.readLoadedPartBack isOpen (whole isSaved) isPart
  · rfl

/-- What is saved stays a part of the file. -/
theorem Kept.step (kept : Kept file loader) {event : Event}
    (taken : step file loader event = some next) : Kept file next := by
  cases event with
  | requestParts => exact kept.requestParts taken
  | savePart offset => exact kept.savePart taken
  | readLoadedPart offset =>
    obtain ⟨⟨read, after⟩, done, rfl⟩ := map_eq_some_iff.mp taken
    exact kept.readLoadedPart done

/-- The loader before its first part. -/
structure Fresh (file : Bytes) (loader : StreamedFileDownloader) : Prop where
  fullSize : loader.fullSize = file.length
  partsCount : loader.partsCount = partsNumber file.length
  partIsSaved : loader.partIsSaved = List.replicate (partsNumber file.length) false
  opened : loader.fileIsOpen = loader.toFileOnly
  empty : loader.file = [] ∧ loader.data = []
  counts : loader.skippedBytes = 0 ∧ loader.nextPartIndex = 0 ∧ loader.partsRequested = 0 ∧
    loader.partsSaved = 0 ∧ loader.finalized = 0
  going : loader.finished = false

theorem fresh_start (small : partsNumber file.length < 2 ^ 31) {hasFilename : Bool}
    {toCache : LoadToCacheSetting}
    (starts : start file.length hasFilename toCache = some loader) : Fresh file loader := by
  have count : toInt32 (partsNumber file.length) = partsNumber file.length :=
    toInt32_eq_self (Int.natCast_nonneg _) (by omega)
  unfold start at starts
  dsimp only at starts
  rw [count, Int.toNat_natCast] at starts
  split at starts
  · cases starts
  · rw [some.injEq] at starts
    subst starts
    unfold checkForOpen
    split_ifs with notOpened
    · refine ⟨rfl, rfl, rfl, ?_, ⟨rfl, rfl⟩, ⟨rfl, rfl, rfl, rfl, rfl⟩, rfl⟩
      rcases notOpened with named | setting | opened
      · rw [toFileOnly, named]
        rfl
      · simp [toFileOnly, fileIsOpen, setting]
      · cases opened
    · refine ⟨rfl, rfl, rfl, ?_, ⟨rfl, rfl⟩, ⟨rfl, rfl, rfl, rfl, rfl⟩, rfl⟩
      simpa [toFileOnly, fileIsOpen, not_or] using notOpened

theorem Fresh.kept (fresh : Fresh file loader) (some : file ≠ []) : Kept file loader := by
  obtain ⟨skipped, nextPartIndex, requested, partsSaved, finalized⟩ := fresh.counts
  have positive : 0 < partsNumber file.length := by
    rw [lt_partsNumber_iff, Nat.zero_mul]
    exact length_pos_of_ne_nil some
  have isSaved : loader.isSaved = fun _ => false := by
    funext index
    by_cases below : index < partsNumber file.length
    · simp [isSaved, fresh.partIsSaved, below]
    · simp [isSaved, fresh.partIsSaved, below]
  have notAll : ¬loader.allSaved := by
    intro all
    have first := all 0 (fresh.fullSize.symm ▸ positive)
    rw [isSaved] at first
    cases first
  have result : loader.result = [] := by
    simp [result, fresh.empty.1, fresh.empty.2]
  refine ⟨⟨fresh.fullSize, fresh.partsCount, ?_, ?_, ?_, fun _ => fresh.empty.2, ?_⟩,
    ⟨?_, ?_, ?_⟩, ?_, ?_, ?_⟩
  · simp [fresh.partIsSaved]
  · simp [partsSaved, isSaved]
  · simp [fresh.opened, fresh.going]
  · rw [result, isSaved, skipped]
    exact contains_nil file
  · simp [nextPartIndex]
  · simp [nextPartIndex, requested]
  · simp [requested]
  · exact iff_of_false (by simp [fresh.going]) notAll
  · simp [finalized, fresh.going]
  · simp [fresh.going]

section

variable (kept : Kept file loader)
include kept

theorem Kept.result_eq (all : loader.allSaved) : loader.result = file := by
  rw [allSaved, kept.stored.fullSize] at all
  exact kept.stored.contains.eq_file all

theorem Kept.accounted : Accounted file loader := by
  have requests := kept.requests
  have finalized := kept.finalized
  refine ⟨requests.requested, requests.few, ⟨fun all => ?_, fun notAll => ?_⟩, fun all => ⟨?_, ?_⟩⟩
  · rw [finalized.finalized, if_pos (finalized.finished.mpr all)]
  · rw [finalized.finalized, if_neg fun finished => notAll (finalized.finished.mp finished)]
  · exact kept.result_eq all
  · intro named
    rw [finalized.copied (finalized.finished.mpr all) named]
    exact kept.result_eq all

theorem Kept.countsSaved (isOpen : loader.toFileOnly = true → loader.finished = false) :
    CountsSaved file loader := by
  have stored := kept.stored
  have size := stored.contains.size
  rw [sum_filter] at size
  unfold CountsSaved savedSize
  rw [← size, currentOffset, result]
  cases toFile : loader.toFileOnly
  · have closed : loader.fileIsOpen = false := by simpa [toFile] using stored.opened
    simp [closed]
  · have opened : loader.fileIsOpen = true := by
      simpa [toFile, isOpen toFile] using stored.opened
    simp [opened]

theorem Kept.closed (toFile : loader.toFileOnly = true) (finished : loader.finished = true) :
    loader.currentOffset = 0 ∧
      ∀ offset < file.length, offset % kPartSize = 0 →
        (loader.readLoadedPart offset).map Prod.fst = some [] := by
  have stored := kept.stored
  have closed : loader.fileIsOpen = false := by simpa [toFile, finished] using stored.opened
  have none := stored.memory toFile
  have all := kept.finalized.finished.mp finished
  rw [allSaved, stored.fullSize] at all
  constructor
  · have skipped := stored.contains.skipped_eq all
    simp [currentOffset, closed, none, skipped]
  · intro offset inside aligned
    have below : offset / kPartSize < partsNumber file.length := by
      rw [lt_partsNumber_iff]
      simp only [kPartSize] at *
      omega
    rw [StreamedFileDownloader.readLoadedPart, if_pos ⟨stored.fullSize.symm ▸ inside, aligned⟩,
      stored.isSaved_eq below, all _ below]
    simp [readLoadedPartBack, closed, none, kPartSize]

end

/-- In every state of every download the requests and the saved parts are accounted for,
and what was downloaded can be read until it is closed. -/
theorem assembled_of_download (some : file ≠ []) (small : partsNumber file.length < 2 ^ 31)
    {hasFilename : Bool} {toCache : LoadToCacheSetting} {events : List Event}
    (ends : download file hasFilename toCache events = .some loader) :
    AssembledUntilClosed file loader := by
  obtain ⟨first, starts, ends⟩ := bind_eq_some_iff.mp ends
  have kept : Kept file loader :=
    run_invariant (fun _ _ _ kept taken => Kept.step kept taken)
      ((fresh_start small starts).kept some) ends
  exact ⟨kept.accounted, kept.countsSaved, fun isOpen _ inside aligned whole =>
    kept.readsBack isOpen inside aligned whole, kept.closed⟩

/-- A file of two parts, the second one of a single byte -/
def twoParts : Bytes := replicate 131073 7

/-- The second part is saved and read back before the first one comes. -/
theorem assembled_of_download_one :
    ∃ loader, download twoParts true .toCacheAsWell
        [.requestParts, .savePart 131072, .readLoadedPart 131072, .savePart 0] = some loader ∧
      loader.finished = true ∧ AssembledUntilClosed twoParts loader := by
  have size : twoParts.length = 131073 := length_replicate
  have parts : part twoParts 0 = replicate 131072 7 ∧ part twoParts 131072 = [7] := by
    rw [part, part, segment, segment, twoParts, drop_replicate, drop_replicate, take_replicate,
      take_replicate]
    exact ⟨rfl, rfl⟩
  have finishes : (download twoParts true .toCacheAsWell
      [.requestParts, .savePart 131072, .readLoadedPart 131072, .savePart 0]).map
        (·.finished) = some true := by
    simp only [download, size, run, step, parts]
    decide +kernel
  obtain ⟨loader, ends, finished⟩ := map_eq_some_iff.mp finishes
  have some : twoParts ≠ [] := ne_nil_of_length_pos (by rw [size]; decide)
  have small : partsNumber twoParts.length < 2 ^ 31 := by
    rw [size]
    decide
  exact ⟨loader, ends, finished, assembled_of_download some small ends⟩

/-- One part is all of them if their number becomes one as an `int`. -/
theorem savePart_of_one (size : Nat) (one : toInt32 (partsNumber size) = 1) (inside : 0 < size)
    {bytes : Bytes} (some : bytes ≠ []) :
    ∃ loader, ((start size true .toCacheAsWell).bind fun loader => loader.savePart 0 bytes) =
      .some loader ∧ loader.fullSize = size ∧ loader.isSaved 1 = false ∧ loader.finalized = 1 := by
  let first : StreamedFileDownloader :=
    { fullSize := size, hasFilename := true, toCache := .toCacheAsWell, partsCount := 1,
      partIsSaved := [false] }
  have starts : start size true .toCacheAsWell = .some first := by
    rw [start, one]
    rfl
  let acked : StreamedFileDownloader :=
    { first.countSaved 0 with
      data := overwrite [] 0 bytes
      skippedBytes := skippedAfter 0 0 bytes.length 0
      offsetAcks := [0] }
  have written :
      ((first.countSaved 0).writeResultPart 0 bytes).doneForDownloader 0 = .some acked := by
    rw [writeResultPart, if_neg some]
    rfl
  refine ⟨acked.finalizeResult, ?_, rfl, rfl, rfl⟩
  have unsaved : first.partIsSaved[0 / kPartSize]? = .some false := rfl
  rw [starts, bind_some, savePart, if_neg (not_not.mpr ⟨inside, rfl⟩), if_neg Bool.false_ne_true]
  dsimp only
  rw [unsaved, bind_some, if_neg Bool.false_ne_true, Nat.zero_div, written]
  rfl

/-- A file of one byte is closed when it was saved and nothing is left to read, its only part
is not read back from memory, and a file of `2 ^ 49 + 2 ^ 17` bytes, whose number of parts is
one as an `int`, is finished with its first part. -/
theorem not_assembled_download :
    (∃ loader, download [7] true .toFileOnly [.savePart 0] = some loader ∧
      ¬CountsSaved [7] loader) ∧
    (∃ loader, download [7] false .toCacheAsWell [.savePart 0] = some loader ∧
      ¬ReadsBack [7] loader 0) ∧
    ∃ loader, download (List.replicate (2 ^ 49 + 2 ^ 17) 0) true .toCacheAsWell [.savePart 0] =
      some loader ∧ ¬Accounted (List.replicate (2 ^ 49 + 2 ^ 17) 0) loader := by
  refine ⟨?_, ?_, ?_⟩
  · have sizes : ((download [7] true .toFileOnly [.savePart 0]).map fun loader =>
        (loader.currentOffset, loader.savedSize [7])) = some (0, 1) := by decide
    obtain ⟨loader, ends, counts⟩ := map_eq_some_iff.mp sizes
    refine ⟨loader, ends, fun same => ?_⟩
    rw [Prod.mk.injEq] at counts
    rw [CountsSaved, counts.1, counts.2] at same
    cases same
  · have read : ((download [7] false .toCacheAsWell [.savePart 0]).map fun loader =>
        ((loader.readLoadedPart 0).map Prod.fst, loader.isSaved 0)) = some (some [], true) := by
      decide
    obtain ⟨loader, ends, isRead⟩ := map_eq_some_iff.mp read
    refine ⟨loader, ends, fun same => ?_⟩
    rw [Prod.mk.injEq] at isRead
    rw [ReadsBack, isRead.1, Nat.zero_div, isRead.2] at same
    cases same
  · have some : part (replicate (2 ^ 49 + 2 ^ 17) 0) 0 ≠ [] := by
      apply ne_nil_of_length_pos
      rw [length_part, length_replicate]
      decide
    obtain ⟨loader, ends, fullSize, unsaved, finalized⟩ :=
      savePart_of_one (2 ^ 49 + 2 ^ 17) (by decide) (by decide) some
    obtain ⟨first, starts, saved⟩ := bind_eq_some_iff.mp ends
    refine ⟨loader, ?_, fun accounted => ?_⟩
    · rw [download, length_replicate, starts, bind_some, run, step, saved]
      rfl
    · have notAll : ¬loader.allSaved := by
        intro all
        have second := all 1 (by rw [fullSize]; decide)
        rw [unsaved] at second
        cases second
      have := accounted.finalized.2 notAll
      rw [finalized] at this
      cases this

end TelegramDesktop.StreamedFileDownloader
