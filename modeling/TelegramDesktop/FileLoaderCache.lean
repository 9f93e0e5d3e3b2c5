import TelegramDesktop.FileLoader

/-!
# Files read back from the cache

A loader whose requests are answered by the bytes of a file ends with these bytes,
whatever order the answers come in.
-/

namespace TelegramDesktop

open List FileLoader Option

section Overwrite

variable {data buffer : Bytes} {offset index : Nat}

theorem overwrite_nil (buffer : Bytes) : overwrite [] 0 buffer = buffer := by
  unfold overwrite
  split
  case isTrue none => exact none.symm
  case isFalse => simp

theorem length_overwrite (some : buffer ≠ []) :
    (overwrite data offset buffer).length = max data.length (offset + buffer.length) := by
  rw [overwrite, if_neg some]
  simp only [length_append, length_take, length_drop, length_replicate]
  omega

theorem getElem?_overwrite_inside (first : offset ≤ index) (last : index < offset + buffer.length) :
    (overwrite data offset buffer)[index]? = buffer[index - offset]? := by
  have some : buffer ≠ [] := by
    rintro rfl
    exact absurd last (by simpa using first)
  have resized : (data ++ replicate (offset - data.length) 0).length ≥ offset := by
    rw [length_append, length_replicate]
    omega
  rw [overwrite, if_neg some]
  simp only [append_assoc]
  rw [getElem?_append_right (by rw [length_take]; omega), length_take,
    min_eq_left resized, getElem?_append_left (by omega)]

theorem getElem?_overwrite_outside (inside : index < data.length)
    (outside : index < offset ∨ offset + buffer.length ≤ index) :
    (overwrite data offset buffer)[index]? = data[index]? := by
  by_cases none : buffer = []
  · rw [overwrite, if_pos none]
  have resized : (data ++ replicate (offset - data.length) 0).length ≥ offset := by
    rw [length_append, length_replicate]
    omega
  rw [overwrite, if_neg none]
  simp only [append_assoc]
  rcases outside with before | after
  · rw [getElem?_append_left (by rw [length_take]; omega), getElem?_take_of_lt before,
      getElem?_append_left inside]
  · rw [getElem?_append_right (by rw [length_take]; omega), length_take, min_eq_left resized,
      getElem?_append_right (by omega), getElem?_drop, getElem?_append_left (by omega)]
    congr 1
    omega

end Overwrite

namespace FileLoader

/-- The offset of the part that a byte lies in. -/
def partOffset (index : Nat) : Nat := index / kDownloadPartSize * kDownloadPartSize

/-- The end of the parts that a load of this size asks for. -/
def partsEnd (loadSize : Nat) : Nat :=
  (loadSize + (kDownloadPartSize - 1)) / kDownloadPartSize * kDownloadPartSize

/-- The parts from an offset on are answered with the content. -/
structure Answers (file content : Bytes) (start : Nat) : Prop where
  length : content.length = file.length
  same : ∀ offset, start ≤ offset →
    segment file offset (offset + kDownloadPartSize) =
      segment content offset (offset + kDownloadPartSize)

/-- A loader on its way: what is not requested anymore is written. -/
structure Loading (content : Bytes) (start loadSize : Nat) (loader : FileLoader) : Prop where
  fullSize : loader.fullSize = content.length
  loadSize_le : loadSize ≤ content.length
  loadSize_eq : loader.loadSize = loadSize ∨
    loader.isWebFile ∧ loader.loadSize = content.length
  queued : ¬loader.finished → loader.isQueued
  aligned : loader.nextRequestOffset % kDownloadPartSize = 0
  start_le : start ≤ loader.nextRequestOffset
  sent : ∀ offset ∈ loader.sentRequests, offset % kDownloadPartSize = 0 ∧ start ≤ offset ∧
    offset < loader.nextRequestOffset ∧ (offset < content.length ∨ content = [] ∧ offset = 0)
  nodup : loader.sentRequests.Nodup
  length_le : loader.data.length ≤ min loader.nextRequestOffset content.length
  written : ∀ index < loader.nextRequestOffset, index < content.length →
    partOffset index ∉ loader.sentRequests → loader.data[index]? = content[index]?
  last : loader.lastComplete → content.length ≤ loader.nextRequestOffset
  reach : ¬loader.isWebFile → content ≠ [] → loader.nextRequestOffset ≤ partsEnd loadSize
  waiting : ¬loader.finished → loader.sentRequests = [] → ¬loader.lastComplete ∧
    (content ≠ [] → loader.nextRequestOffset < loader.loadSize) ∧
    (content = [] → loader.nextRequestOffset = 0)
  done : loader.finished → loader.sentRequests = [] ∧
    (content.length ≤ loader.nextRequestOffset ∨
      ¬loader.isWebFile ∧ loadSize ≤ loader.nextRequestOffset)

section Loading

variable {file content : Bytes} {start loadSize : Nat} {loader next : FileLoader} {offset : Nat}

theorem mem_part (index : Nat) (aligned : offset % kDownloadPartSize = 0) :
    partOffset index = offset ↔ offset ≤ index ∧ index < offset + kDownloadPartSize := by
  unfold partOffset
  simp only [kDownloadPartSize] at aligned ⊢
  omega

theorem not_finished_of_ready (ready : loader.readyToRequest) : ¬loader.finished := by
  simp only [readyToRequest, Bool.and_eq_true, Bool.not_eq_true'] at ready
  simp [ready.1.1.1]

theorem Loading.offset_of_ready (loading : Loading content start loadSize loader)
    (ready : loader.readyToRequest) :
    loader.nextRequestOffset < content.length ∧ loader.nextRequestOffset < loader.loadSize ∨
      content = [] ∧ loader.nextRequestOffset = 0 := by
  have running := not_finished_of_ready ready
  simp only [readyToRequest, Bool.and_eq_true, Bool.or_eq_true, decide_eq_true_eq,
    Bool.not_eq_true'] at ready
  obtain ⟨⟨-, single⟩, room⟩ := ready
  by_cases none : content = []
  · right
    have zero : loader.fullSize = 0 := by rw [loading.fullSize, none, length_nil]
    have idle : loader.sentRequests = [] := by
      simpa [haveSentRequests] using single.resolve_left (not_not.mpr zero)
    exact ⟨none, (loading.waiting running idle).2.2 none⟩
  · left
    have some : loader.fullSize ≠ 0 := by
      rw [loading.fullSize]
      exact fun zero => none (length_eq_zero_iff.mp zero)
    have below := room.resolve_left some
    refine ⟨?_, below⟩
    rcases loading.loadSize_eq with same | ⟨-, whole⟩
    · have := loading.loadSize_le
      omega
    · omega

theorem Loading.takeNextRequestOffset (loading : Loading content start loadSize loader)
    (ready : loader.readyToRequest) :
    Loading content start loadSize loader.takeNextRequestOffset := by
  have running := not_finished_of_ready ready
  have room := loading.offset_of_ready ready
  have aligned := loading.aligned
  constructor
  case fullSize => exact loading.fullSize
  case loadSize_le => exact loading.loadSize_le
  case loadSize_eq => exact loading.loadSize_eq
  case queued => exact loading.queued
  case aligned =>
    simp only [FileLoader.takeNextRequestOffset, kDownloadPartSize] at aligned ⊢
    omega
  case start_le => exact Nat.le_add_right_of_le loading.start_le
  case sent =>
    intro offset member
    rcases List.mem_cons.mp member with rfl | earlier
    · refine ⟨aligned, loading.start_le, Nat.lt_add_of_pos_right (by decide), ?_⟩
      exact room.imp_left fun room => room.1
    · obtain ⟨offsetAligned, after, before, inside⟩ := loading.sent offset earlier
      exact ⟨offsetAligned, after, Nat.lt_add_right _ before, inside⟩
  case nodup =>
    refine List.nodup_cons.mpr ⟨fun earlier => ?_, loading.nodup⟩
    exact lt_irrefl _ (loading.sent _ earlier).2.2.1
  case length_le =>
    have := loading.length_le
    simp only [FileLoader.takeNextRequestOffset]
    omega
  case written =>
    intro index before inside unsent
    obtain ⟨notThis, unsent⟩ := not_or.mp (mt List.mem_cons.mpr unsent)
    apply loading.written index _ inside unsent
    by_contra late
    apply notThis
    exact (mem_part _ aligned).mpr ⟨Nat.le_of_not_lt late, before⟩
  case last =>
    intro complete
    exact Nat.le_add_right_of_le (loading.last complete)
  case reach =>
    intro notWeb some
    obtain ⟨-, below⟩ := room.resolve_right fun none => some none.1
    have loadSizeEq : loader.loadSize = loadSize :=
      loading.loadSize_eq.resolve_right fun web => notWeb web.1
    rw [loadSizeEq] at below
    simp only [FileLoader.takeNextRequestOffset, partsEnd, kDownloadPartSize] at aligned ⊢
    omega
  case waiting =>
    intro _ idle
    cases idle
  case done => exact fun finished => absurd finished running

/-! An answer is written where it was requested. -/

theorem length_part (content : Bytes) (offset : Nat) :
    (segment content offset (offset + kDownloadPartSize)).length =
      min kDownloadPartSize (content.length - offset) := by
  rw [segment, length_take, length_drop, Nat.add_sub_cancel_left]

theorem getElem?_part {offset index : Nat} (first : offset ≤ index)
    (last : index < offset + kDownloadPartSize) :
    (segment content offset (offset + kDownloadPartSize))[index - offset]? =
      content[index]? := by
  rw [segment, Nat.add_sub_cancel_left, getElem?_take_of_lt (by omega),
    getElem?_drop, Nat.add_sub_cancel' first]

theorem Loading.written_overwrite (loading : Loading content start loadSize loader)
    (member : offset ∈ loader.sentRequests) {index : Nat}
    (before : index < loader.nextRequestOffset) (inside : index < content.length)
    (unsent : partOffset index ∉ loader.sentRequests.erase offset) :
    (overwrite loader.data offset
        (segment content offset (offset + kDownloadPartSize)))[index]? = content[index]? := by
  have aligned := (loading.sent offset member).1
  by_cases here : partOffset index = offset
  · obtain ⟨first, last⟩ := (mem_part _ aligned).mp here
    rw [getElem?_overwrite_inside first (by rw [length_part]; omega)]
    exact getElem?_part first last
  · have unsentToo : partOffset index ∉ loader.sentRequests := by
      intro earlier
      exact unsent ((mem_erase_of_ne here).mpr earlier)
    have same := loading.written index before inside unsentToo
    have present : index < loader.data.length := by
      by_contra absent
      rw [getElem?_eq_none (Nat.le_of_not_lt absent), getElem?_eq_getElem inside] at same
      cases same
    have outside := mt (mem_part index aligned).mpr here
    rw [getElem?_overwrite_outside present, same]
    rw [length_part]
    omega

theorem Loading.length_overwrite_le (loading : Loading content start loadSize loader)
    (member : offset ∈ loader.sentRequests) :
    (overwrite loader.data offset
        (segment content offset (offset + kDownloadPartSize))).length ≤
      min loader.nextRequestOffset content.length := by
  have lengthLe := loading.length_le
  by_cases none : segment content offset (offset + kDownloadPartSize) = []
  · rw [overwrite, if_pos none]
    exact lengthLe
  · obtain ⟨offsetAligned, -, before, inside⟩ := loading.sent offset member
    have aligned := loading.aligned
    rw [length_overwrite none, length_part]
    rcases inside with inside | ⟨rfl, rfl⟩
    · simp only [kDownloadPartSize] at offsetAligned aligned ⊢
      omega
    · simp [segment] at none

/-- A loader that has all the parts it asked for, and needs no more. -/
def IsComplete (loader : FileLoader) : Prop :=
  loader.haveSentRequests = false ∧
    (loader.lastComplete ∨ (loader.fullSize ≠ 0 ∧ loader.loadSize ≤ loader.nextRequestOffset))

/-- What one part changes in a loader. -/
structure Fed (loader : FileLoader) (offset : Nat) (bytes : Bytes) (next : FileLoader) :
    Prop where
  data : next.data = overwrite loader.data offset bytes
  loadSize : next.loadSize = loader.loadSize
  fullSize : next.fullSize = loader.fullSize
  isWebFile : next.isWebFile = loader.isWebFile
  nextRequestOffset : next.nextRequestOffset = loader.nextRequestOffset
  sentRequests : next.sentRequests = loader.sentRequests
  lastComplete : next.lastComplete ↔
    loader.lastComplete ∨ bytes = [] ∨ bytes.length % 1024 ≠ 0
  finished : next.finished ↔ loader.finished ∨ next.IsComplete
  isQueued : ¬next.finished → next.isQueued = loader.isQueued

theorem feedPart_spec (loader : FileLoader) (offset : Nat) (bytes : Bytes) :
    Fed loader offset bytes (loader.feedPart offset bytes) := by
  unfold feedPart
  extract_lets written fed
  have same : fed = { loader with
      data := overwrite loader.data offset bytes
      lastComplete := loader.lastComplete || decide (bytes = [] ∨ bytes.length % 1024 ≠ 0) } := by
    unfold fed written
    split
    case isTrue short => simp [writeResultPart, short]
    case isFalse whole => simp [writeResultPart, whole]
  split
  case isTrue complete =>
    constructor
    case finished => exact iff_of_true rfl (.inr complete)
    case isQueued => exact fun running => absurd rfl running
    case lastComplete => simp [finalizeResult, same]
    all_goals simp [finalizeResult, same]
  case isFalse incomplete =>
    constructor
    case finished =>
      have running : ¬fed.IsComplete := incomplete
      simp only [running, or_false]
      rw [same]
    case lastComplete => simp [same]
    all_goals simp [same]

theorem feedPart_of_incomplete {bytes : Bytes}
    (whole : ¬(bytes = [] ∨ bytes.length % 1024 ≠ 0)) (incomplete : ¬loader.IsComplete) :
    loader.feedPart offset bytes = { loader with data := overwrite loader.data offset bytes } := by
  unfold feedPart
  extract_lets written fed
  have fedEq : fed = written := if_neg whole
  rw [fedEq, if_neg]
  · rfl
  · exact incomplete

theorem partLoaded_keeps (loader : FileLoader) (file : Bytes) (offset : Nat) :
    (loader.partLoaded file offset).sentRequests = loader.sentRequests.erase offset ∧
      (loader.partLoaded file offset).nextRequestOffset = loader.nextRequestOffset ∧
      (loader.partLoaded file offset).isWebFile = loader.isWebFile := by
  unfold partLoaded
  extract_lets received sized
  have fed := feedPart_spec sized offset (segment file offset (offset + kDownloadPartSize))
  rw [fed.sentRequests, fed.nextRequestOffset, fed.isWebFile]
  unfold sized
  split
  · exact ⟨rfl, rfl, rfl⟩
  · exact ⟨rfl, rfl, rfl⟩

theorem step_isWebFile {event : Event} (taken : loader.step file event = some next) :
    next.isWebFile = loader.isWebFile := by
  cases event with
  | request =>
    simp only [step, ite_none_right_eq_some, some.injEq] at taken
    obtain ⟨-, rfl⟩ := taken
    rfl
  | answer offset =>
    simp only [step, ite_none_right_eq_some, some.injEq] at taken
    obtain ⟨-, rfl⟩ := taken
    exact (partLoaded_keeps loader file offset).2.2

theorem length_le_of_short {offset bound : Nat} (aligned : offset % kDownloadPartSize = 0)
    (boundAligned : bound % kDownloadPartSize = 0) (before : offset < bound)
    (short : segment content offset (offset + kDownloadPartSize) = [] ∨
      (segment content offset (offset + kDownloadPartSize)).length % 1024 ≠ 0) :
    content.length ≤ bound := by
  have length := length_part content offset
  simp only [kDownloadPartSize] at aligned boundAligned length short
  rcases short with none | odd
  · rw [none, length_nil] at length
    omega
  · rw [length] at odd
    omega

theorem Loading.partLoaded (answers : Answers file content start)
    (loading : Loading content start loadSize loader) (member : offset ∈ loader.sentRequests) :
    Loading content start loadSize (loader.partLoaded file offset) := by
  obtain ⟨offsetAligned, after, before, inside⟩ := loading.sent offset member
  have running : ¬loader.finished := by
    intro finished
    rw [(loading.done finished).1] at member
    cases member
  unfold FileLoader.partLoaded
  extract_lets received sized
  rw [answers.same offset after]
  have sizedEq : sized = { loader with
      sentRequests := loader.sentRequests.erase offset
      loadSize := if loader.isWebFile then content.length else loader.loadSize } := by
    have web : received.isWebFile = loader.isWebFile := rfl
    unfold sized
    rw [web]
    split
    case isTrue isWeb =>
      rw [setWebFileSizeHook, ← answers.length, ← loading.fullSize]
    case isFalse => rfl
  have fed := feedPart_spec sized offset (segment content offset (offset + kDownloadPartSize))
  generalize sized.feedPart offset (segment content offset (offset + kDownloadPartSize)) = next
    at fed ⊢
  have sent : next.sentRequests = loader.sentRequests.erase offset := by
    rw [fed.sentRequests, sizedEq]
  have data : next.data = overwrite loader.data offset
      (segment content offset (offset + kDownloadPartSize)) := by rw [fed.data, sizedEq]
  have requested : next.nextRequestOffset = loader.nextRequestOffset := by
    rw [fed.nextRequestOffset, sizedEq]
  have web : next.isWebFile = loader.isWebFile := by rw [fed.isWebFile, sizedEq]
  have fullSize : next.fullSize = content.length := by
    rw [fed.fullSize, sizedEq]
    exact loading.fullSize
  have loadSizeEq : next.loadSize = if loader.isWebFile then content.length
      else loader.loadSize := by rw [fed.loadSize, sizedEq]
  have last : next.lastComplete → content.length ≤ next.nextRequestOffset := by
    intro complete
    rw [requested]
    rcases fed.lastComplete.mp complete with earlier | short
    · rw [sizedEq] at earlier
      exact loading.last earlier
    · exact length_le_of_short offsetAligned loading.aligned before short
  have finished : next.finished ↔ next.IsComplete := by
    rw [fed.finished, sizedEq]
    simp [running]
  constructor
  case fullSize => exact fullSize
  case loadSize_le => exact loading.loadSize_le
  case loadSize_eq =>
    rw [loadSizeEq, web]
    by_cases isWeb : loader.isWebFile
    · exact .inr ⟨isWeb, if_pos isWeb⟩
    · rw [if_neg isWeb]
      exact .inl (loading.loadSize_eq.resolve_right fun both => isWeb both.1)
  case queued =>
    intro runs
    rw [fed.isQueued runs, sizedEq]
    exact loading.queued running
  case aligned =>
    rw [requested]
    exact loading.aligned
  case start_le =>
    rw [requested]
    exact loading.start_le
  case sent =>
    intro other otherMember
    rw [requested]
    rw [sent] at otherMember
    exact loading.sent other (mem_of_mem_erase otherMember)
  case nodup =>
    rw [sent]
    exact loading.nodup.erase offset
  case length_le =>
    rw [data, requested]
    exact loading.length_overwrite_le member
  case written =>
    intro index early indexInside unsent
    rw [requested] at early
    rw [sent] at unsent
    rw [data]
    exact loading.written_overwrite member early indexInside unsent
  case last => exact last
  case reach =>
    intro notWeb some
    rw [requested]
    rw [web] at notWeb
    exact loading.reach notWeb some
  case waiting =>
    intro runs idle
    have incomplete := mt finished.mpr runs
    have idleToo : next.haveSentRequests = false := by rw [haveSentRequests, idle]; rfl
    simp only [IsComplete, idleToo, true_and, not_or] at incomplete
    refine ⟨incomplete.1, fun some => ?_, fun none => ?_⟩
    · have size : next.fullSize ≠ 0 := by
        rw [fullSize]
        exact fun zero => some (length_eq_zero_iff.mp zero)
      exact Nat.lt_of_not_le fun reached => incomplete.2 ⟨size, reached⟩
    · apply absurd (fed.lastComplete.mpr (.inr (.inl _))) incomplete.1
      rw [none]
      simp [segment]
  case done =>
    intro ends
    obtain ⟨idle, complete⟩ := finished.mp ends
    refine ⟨by simpa [haveSentRequests] using idle, ?_⟩
    rcases complete with complete | ⟨-, reached⟩
    · exact .inl (last complete)
    · rw [loadSizeEq] at reached
      by_cases isWeb : loader.isWebFile
      · rw [if_pos isWeb] at reached
        exact .inl reached
      · rw [if_neg isWeb, loading.loadSize_eq.resolve_right fun both => isWeb both.1] at reached
        rw [web]
        exact .inr ⟨isWeb, reached⟩

/-- Every answer of the server lets the loader go on. -/
theorem Loading.step (answers : Answers file content start)
    (loading : Loading content start loadSize loader) {event : Event}
    (taken : loader.step file event = some next) : Loading content start loadSize next := by
  cases event with
  | request =>
    simp only [FileLoader.step, Option.ite_none_right_eq_some, Option.some.injEq] at taken
    obtain ⟨⟨-, ready⟩, rfl⟩ := taken
    exact loading.takeNextRequestOffset ready
  | answer offset =>
    simp only [FileLoader.step, Option.ite_none_right_eq_some, Option.some.injEq] at taken
    obtain ⟨member, rfl⟩ := taken
    exact loading.partLoaded answers member

/-- What is loaded in the end: whole parts, and all of a web file. -/
def loadedContent (content : Bytes) (isWebFile : Bool) (loadSize : Nat) : Bytes :=
  if isWebFile then content else content.take (partsEnd loadSize)

section

variable (loading : Loading content start loadSize loader)
include loading

theorem Loading.data_eq_take (idle : loader.sentRequests = []) :
    loader.data = content.take loader.nextRequestOffset := by
  have lengthLe := loading.length_le
  apply ext_getElem?
  intro index
  by_cases both : index < loader.nextRequestOffset ∧ index < content.length
  · rw [getElem?_take_of_lt both.1]
    exact loading.written index both.1 both.2 (by simp [idle])
  · rw [getElem?_eq_none (by omega), getElem?_eq_none (by rw [length_take]; omega)]

theorem Loading.data_of_finished (finished : loader.finished) :
    loader.data = loadedContent content loader.isWebFile loadSize := by
  obtain ⟨idle, enough⟩ := loading.done finished
  rw [loading.data_eq_take idle, loadedContent]
  by_cases none : content = []
  · simp [none]
  by_cases isWeb : loader.isWebFile
  · have whole := enough.resolve_right fun both => both.1 isWeb
    rw [if_pos isWeb, take_of_length_le whole]
  · have reach := loading.reach isWeb none
    rw [if_neg isWeb]
    rcases enough with whole | ⟨-, reached⟩
    · rw [take_of_length_le whole, take_of_length_le (le_trans whole reach)]
    · have aligned := loading.aligned
      congr 1
      simp only [partsEnd, kDownloadPartSize] at reach aligned ⊢
      omega

/-- A loader that is not finished can go on. -/
theorem Loading.exists_step (running : ¬loader.finished) :
    ∃ event, (loader.step file event).isSome := by
  cases sentEq : loader.sentRequests with
  | nil =>
    obtain ⟨incomplete, some, none⟩ := loading.waiting running sentEq
    refine ⟨.request, ?_⟩
    have ready : loader.readyToRequest := by
      by_cases empty : content = []
      · simp [readyToRequest, haveSentRequests, sentEq, incomplete, running,
          loading.fullSize, empty]
      · simp [readyToRequest, haveSentRequests, sentEq, incomplete, running,
          loading.fullSize, empty, some empty]
    simp [FileLoader.step, ready, loading.queued running]
  | cons offset rest =>
    refine ⟨.answer offset, ?_⟩
    simp [FileLoader.step, sentEq]

end

/-- The requests that are left to send, twice, and those that are left to answer. -/
def remaining (content : Bytes) (loader : FileLoader) : Nat :=
  2 * ((content.length + kDownloadPartSize - loader.nextRequestOffset) / kDownloadPartSize) +
    loader.sentRequests.length

theorem Loading.remaining_lt (loading : Loading content start loadSize loader) {event : Event}
    (taken : loader.step file event = some next) :
    next.remaining content < loader.remaining content := by
  cases event with
  | request =>
    simp only [FileLoader.step, Option.ite_none_right_eq_some, Option.some.injEq] at taken
    obtain ⟨⟨-, ready⟩, rfl⟩ := taken
    have room := loading.offset_of_ready ready
    simp only [remaining, FileLoader.takeNextRequestOffset, List.length_cons, kDownloadPartSize]
    rcases room with room | ⟨none, zero⟩
    · omega
    · rw [none, zero, List.length_nil]
      omega
  | answer offset =>
    simp only [FileLoader.step, Option.ite_none_right_eq_some, Option.some.injEq] at taken
    obtain ⟨member, rfl⟩ := taken
    obtain ⟨sent, requested, -⟩ := partLoaded_keeps loader file offset
    have fewer := List.length_erase_of_mem member
    have some := List.length_pos_of_mem member
    rw [remaining, remaining, sent, requested]
    omega

theorem Loading.exists_finished (answers : Answers file content start)
    (loading : Loading content start loadSize loader) :
    ∃ events last, run (FileLoader.step file) loader events = some last ∧ last.finished := by
  induction bound : loader.remaining content using Nat.strongRecOn generalizing loader with
  | _ left ih =>
    by_cases finished : loader.finished
    · exact ⟨[], loader, rfl, finished⟩
    · obtain ⟨event, taken⟩ : ∃ event, (loader.step file event).isSome :=
        loading.exists_step finished
      obtain ⟨next, nextEq⟩ := isSome_iff_exists.mp taken
      have fewer := loading.remaining_lt nextEq
      rw [bound] at fewer
      obtain ⟨events, last, runs, ends⟩ := ih _ fewer (loading.step answers nextEq) rfl
      refine ⟨event :: events, last, ?_, ends⟩
      rw [run, nextEq]
      exact runs

theorem Loading.alwaysFinishes_iff (answers : Answers file content start)
    (loading : Loading content start loadSize loader) (property : Bytes → Prop) :
    loader.AlwaysFinishes file (fun last => property last.data) ↔
      property (loadedContent content loader.isWebFile loadSize) := by
  have reached : ∀ events last, run (FileLoader.step file) loader events = some last →
      Loading content start loadSize last ∧ last.isWebFile = loader.isWebFile := by
    intro events last runs
    have kept : ∀ state event next,
        Loading content start loadSize state ∧ state.isWebFile = loader.isWebFile →
          FileLoader.step file state event = some next →
            Loading content start loadSize next ∧ next.isWebFile = loader.isWebFile := by
      rintro state event next ⟨stateLoading, web⟩ taken
      exact ⟨stateLoading.step answers taken, (step_isWebFile taken).trans web⟩
    exact run_invariant kept ⟨loading, rfl⟩ runs
  constructor
  · rintro ⟨bound, finishes⟩
    obtain ⟨events, last, runs, finished⟩ := loading.exists_finished answers
    have ends := (finishes events last runs).2.1 finished
    obtain ⟨lastLoading, web⟩ := reached events last runs
    rw [← web, ← lastLoading.data_of_finished finished]
    exact ends
  · intro holds
    refine ⟨loader.remaining content, fun events last runs => ⟨?_, ?_, ?_⟩⟩
    · have kept : ∀ state event next, Loading content start loadSize state →
          FileLoader.step file state event = some next → Loading content start loadSize next :=
        fun _ _ _ state taken => state.step answers taken
      have falls : ∀ state event next, Loading content start loadSize state →
          FileLoader.step file state event = some next →
            remaining content next < remaining content state :=
        fun _ _ _ state taken => state.remaining_lt taken
      exact Nat.le_trans (Nat.le_add_right ..) (length_add_measure_le kept falls loading runs)
    · intro finished
      obtain ⟨lastLoading, web⟩ := reached events last runs
      rw [lastLoading.data_of_finished finished, web]
      exact holds
    · intro running
      exact (reached events last runs).1.exists_step running

end Loading

section Starts

variable {file value : Bytes} {loader : FileLoader}

theorem alwaysFinishes_finished_iff (finished : loader.finished)
    (idle : loader.sentRequests = []) (property : FileLoader → Prop) :
    loader.AlwaysFinishes file property ↔ property loader := by
  have stays : ∀ events last, run (step file) loader events = some last →
      events = [] ∧ last = loader := by
    intro events last runs
    cases events with
    | nil =>
      cases runs
      exact ⟨rfl, rfl⟩
    | cons event events =>
      have none : loader.step file event = none := by
        cases event with
        | request => simp [step, readyToRequest, finished]
        | answer offset => simp [step, idle]
      rw [run, none] at runs
      cases runs
  constructor
  · rintro ⟨bound, finishes⟩
    exact (finishes [] loader rfl).2.1 finished
  · intro holds
    refine ⟨0, fun events last runs => ?_⟩
    obtain ⟨rfl, rfl⟩ := stays events last runs
    exact ⟨le_refl _, fun _ => holds, fun running => absurd finished running⟩

/-- What a loader that starts with a cached value takes for the file. -/
def mixedContent (file value : Bytes) : Bytes :=
  (value.drop kPrefix).take (usedSize value) ++ file.drop (usedSize value)

theorem usedSize_le (value : Bytes) : usedSize value ≤ value.length - kPrefix :=
  Nat.div_mul_le_self ..

theorem length_used (value : Bytes) :
    ((value.drop kPrefix).take (usedSize value)).length = usedSize value := by
  rw [length_take, length_drop]
  exact min_eq_left (usedSize_le value)

theorem answers_mixedContent (file : Bytes) (inside : usedSize value ≤ file.length) :
    Answers file (mixedContent file value) (usedSize value) where
  length := by
    rw [mixedContent, length_append, length_used, length_drop]
    omega
  same offset after := by
    have rest : (mixedContent file value).drop offset = file.drop offset := by
      rw [mixedContent, drop_append, drop_eq_nil_of_le (by rw [length_used]; exact after),
        length_used, nil_append, drop_drop, Nat.add_sub_cancel' after]
    rw [segment, segment, rest]

theorem le_partsEnd (loadSize : Nat) : loadSize ≤ partsEnd loadSize := by
  simp only [partsEnd, kDownloadPartSize]
  omega

theorem loading_of_given (content given : Bytes) {loadSize : Nat} (isWebFile : Bool)
    (below : loadSize ≤ content.length) (isPrefix : given <+: content)
    (aligned : given.length % kDownloadPartSize = 0)
    (some : content = [] ∨ given.length < loadSize) :
    Loading content given.length loadSize
      { loadSize := loadSize, fullSize := content.length, isWebFile := isWebFile,
        localStatus := .notFound, data := given, isQueued := true,
        nextRequestOffset := given.length } := by
  have inside : given.length ≤ content.length := isPrefix.length_le
  constructor
  case fullSize => rfl
  case loadSize_le => exact below
  case loadSize_eq => exact .inl rfl
  case queued => exact fun _ => rfl
  case aligned => exact aligned
  case start_le => exact le_refl _
  case sent =>
    intro offset member
    cases member
  case nodup => exact nodup_nil
  case length_le => exact Nat.le_min.mpr ⟨Nat.le_refl _, inside⟩
  case written =>
    intro index before _ _
    obtain ⟨rest, rfl⟩ := isPrefix
    exact (getElem?_append_left before).symm
  case last =>
    intro complete
    cases complete
  case reach =>
    intro _ nonempty
    have started := some.resolve_left nonempty
    exact le_trans (le_of_lt started) (le_partsEnd loadSize)
  case waiting =>
    refine fun _ _ => ⟨Bool.false_ne_true, fun nonempty => some.resolve_left nonempty, ?_⟩
    rintro rfl
    exact Nat.le_zero.mp inside
  case done =>
    intro finished
    cases finished

theorem startLoadingWithPartial_eq {loadSize fullSize : Nat} (isWebFile : Bool)
    (marked : value.length < loadSize + kPrefix) :
    ({ loadSize := loadSize, fullSize := fullSize, isWebFile := isWebFile,
        localStatus := .notFound } : FileLoader).startLoadingWithPartial value =
      { loadSize := loadSize, fullSize := fullSize, isWebFile := isWebFile,
        localStatus := .notFound, data := (value.drop kPrefix).take (usedSize value),
        isQueued := true, nextRequestOffset := usedSize value } := by
  have used : usedSize value < loadSize ∨ usedSize value = 0 := by
    have := usedSize_le value
    omega
  have length := length_used value
  simp only [startLoadingWithPartial]
  split
  case isTrue some =>
    have below := used.resolve_right (ne_of_gt some)
    have nonempty : (value.drop kPrefix).take (usedSize value) ≠ [] := by
      rw [← length_pos_iff, length]
      exact some
    have whole : ((value.drop kPrefix).take (usedSize value)).length % 1024 = 0 := by
      rw [length]
      simp only [usedSize, kDownloadPartSize]
      omega
    have short : ¬((value.drop kPrefix).take (usedSize value) = [] ∨
        ((value.drop kPrefix).take (usedSize value)).length % 1024 ≠ 0) :=
      not_or.mpr ⟨nonempty, not_not.mpr whole⟩
    rw [feedPart_of_incomplete short, startLoading, overwrite_nil]
    rintro ⟨-, complete | ⟨-, enough⟩⟩
    · cases complete
    · exact Nat.not_le_of_lt below enough
  case isFalse none =>
    have zero : usedSize value = 0 := by omega
    simp [startLoading, zero]

end Starts

/-- A value in the cache, of a loader that has loaded the file or the start of it. -/
structure Stored (file : Bytes) (first : FileLoader) (value : Bytes) : Prop where
  value_eq : first.cachedValue = some value
  isPrefix : first.data <+: file
  fullSize : first.fullSize = file.length ∨ first.fullSize = 0 ∧ first.data = file

/-- What a later loader ends with is the start of the file, as long as its load size, and
all of it if it was all loaded before. -/
def ReadsBack (file : Bytes) (first : FileLoader) (loadSize : Nat) (data : Bytes) : Prop :=
  data <+: file ∧ loadSize ≤ data.length ∧ (first.data = file → data = file)

/-- What was loaded is not a whole file that starts with the mark; or the later loader
needs nearly all of the file, asks for all of it, and the whole parts that it takes from
the cache are the same eight bytes further on. -/
def SurvivesCache (file : Bytes) (first : FileLoader) (isWebFile : Bool) (loadSize : Nat) :
    Prop :=
  ¬(first.data = file ∧ partialPrefix <+: file) ∨
    (file.length < loadSize + kPrefix ∧ (isWebFile ∨ file.length ≤ partsEnd loadSize) ∧
      (file.drop kPrefix).take (usedSize file) = file.take (usedSize file))

section ReadsBack

variable {file value : Bytes} {first : FileLoader} {isWebFile : Bool} {loadSize fullSize : Nat}

theorem Stored.value_cases (stored : Stored file first value) :
    first.data = file ∧ value = file ∨
      first.data ≠ file ∧ value = partialPrefix ++ first.data := by
  have valueEq := stored.value_eq
  simp only [cachedValue, ite_none_right_eq_some, some.injEq] at valueEq
  obtain ⟨-, rfl⟩ := valueEq
  have length := stored.isPrefix.length_le
  rcases stored.fullSize with known | ⟨unknown, whole⟩
  · by_cases whole : first.data.length = file.length
    · have same := stored.isPrefix.eq_of_length whole
      exact .inl ⟨same, by rw [if_pos (.inr (by rw [whole, known])), same]⟩
    · right
      refine ⟨fun same => whole (by rw [same]), if_neg ?_⟩
      rw [known]
      rintro (zero | same)
      · omega
      · exact whole same
  · exact .inl ⟨whole, by rw [if_pos (.inl unknown), whole]⟩

theorem alwaysFinishes_partial_iff (below : loadSize ≤ file.length)
    (marked : value.length < loadSize + kPrefix) (long : kPrefix ≤ value.length)
    (property : Bytes → Prop) :
    (({ loadSize := loadSize, fullSize := file.length, isWebFile := isWebFile,
        localStatus := .notFound } : FileLoader).startLoadingWithPartial value).AlwaysFinishes
          file (fun last => property last.data) ↔
      property (loadedContent (mixedContent file value) isWebFile loadSize) := by
  have used := usedSize_le value
  have length := length_used value
  have inside : usedSize value ≤ file.length := by
    omega
  have answers := answers_mixedContent file inside
  rw [startLoadingWithPartial_eq isWebFile marked, ← answers.length]
  have aligned : usedSize value % kDownloadPartSize = 0 := Nat.mul_mod_left ..
  have belowToo : loadSize ≤ (mixedContent file value).length := by
    rw [answers.length]
    exact below
  have loading := loading_of_given (mixedContent file value)
    ((value.drop kPrefix).take (usedSize value)) isWebFile belowToo (prefix_append ..)
    (by rw [length]; exact aligned) (.inr (by rw [length]; omega))
  rw [length] at loading
  exact loading.alwaysFinishes_iff answers property

theorem mixedContent_eq_iff (file value : Bytes) :
    mixedContent file value = file ↔
      (value.drop kPrefix).take (usedSize value) = file.take (usedSize value) := by
  constructor
  · intro same
    have := congrArg (take (usedSize value)) same
    rwa [mixedContent, take_left' (length_used value)] at this
  · intro same
    rw [mixedContent, same, take_append_drop]

theorem loadedContent_eq_iff {content : Bytes} (length : content.length = file.length) :
    loadedContent content isWebFile loadSize = file ↔
      (isWebFile ∨ file.length ≤ partsEnd loadSize) ∧ content = file := by
  unfold loadedContent
  split
  case isTrue isWeb => simp [isWeb]
  case isFalse notWeb =>
    constructor
    · intro same
      have lengths := congrArg List.length same
      rw [length_take] at lengths
      have reached : file.length ≤ partsEnd loadSize := by omega
      rw [take_of_length_le (by omega)] at same
      exact ⟨.inr reached, same⟩
    · rintro ⟨reached, rfl⟩
      exact take_of_length_le (reached.resolve_left notWeb)

theorem readsBack_whole_iff (whole : first.data = file) (below : loadSize ≤ file.length)
    {data : Bytes} : ReadsBack file first loadSize data ↔ data = file := by
  constructor
  · exact fun readsBack => readsBack.2.2 whole
  · rintro rfl
    exact ⟨prefix_rfl, below, fun _ => rfl⟩

theorem readsBack_loadedContent (notWhole : first.data ≠ file) (below : loadSize ≤ file.length) :
    ReadsBack file first loadSize (loadedContent file isWebFile loadSize) := by
  refine ⟨?_, ?_, fun whole => absurd whole notWhole⟩
  · unfold loadedContent
    split
    · exact prefix_rfl
    · exact take_prefix ..
  · unfold loadedContent
    split
    · exact below
    · rw [length_take]
      exact Nat.le_min.mpr ⟨le_partsEnd loadSize, below⟩

theorem readsBack_whole (whole : first.data = file) (below : loadSize ≤ fullSize)
    (sizes : fullSize = file.length ∨ fullSize = 0) :
    (({ loadSize := loadSize, fullSize := fullSize, isWebFile := isWebFile } :
        FileLoader).localLoaded file).AlwaysFinishes file
          (fun last => ReadsBack file first loadSize last.data) ↔
      SurvivesCache file first isWebFile loadSize := by
  have small : loadSize ≤ file.length := by
    omega
  unfold localLoaded
  split
  case isTrue none =>
    subst none
    have size : fullSize = 0 := by simpa using sizes
    subst size
    have loading := loading_of_given [] [] isWebFile small prefix_rfl rfl (.inl rfl)
    refine (loading.alwaysFinishes_iff ⟨rfl, fun _ _ => rfl⟩ _).trans (iff_of_true ?_ ?_)
    · rw [readsBack_whole_iff whole small]
      simp [loadedContent]
    · refine .inl fun both => ?_
      have := both.2.length_le
      simp [partialPrefix] at this
  case isFalse some =>
    split
    case isTrue marked =>
      obtain ⟨isMarked, short⟩ := marked
      have short : file.length < loadSize + kPrefix := short
      have long : kPrefix ≤ file.length := isMarked.length_le
      have size : fullSize = file.length := by
        omega
      subst size
      have inside : usedSize file ≤ file.length :=
        Nat.le_trans (usedSize_le file) (Nat.sub_le ..)
      rw [alwaysFinishes_partial_iff small short long, readsBack_whole_iff whole small,
        loadedContent_eq_iff (answers_mixedContent file inside).length, mixedContent_eq_iff]
      constructor
      · exact fun same => .inr ⟨short, same⟩
      · rintro (unmarked | ⟨-, same⟩)
        · exact absurd ⟨whole, isMarked⟩ unmarked
        · exact same
    case isFalse unmarked =>
      rw [alwaysFinishes_finished_iff rfl rfl]
      change ReadsBack file first loadSize (if partialPrefix <+: file then file.drop kPrefix
        else file) ↔ _
      rw [readsBack_whole_iff whole small]
      split
      case isTrue isMarked =>
        have long : kPrefix ≤ file.length := isMarked.length_le
        apply iff_of_false
        · intro same
          have lengths := congrArg length same
          rw [length_drop] at lengths
          simp only [kPrefix] at long lengths
          omega
        · rintro (other | ⟨short, -⟩)
          · exact other ⟨whole, isMarked⟩
          · exact unmarked ⟨isMarked, short⟩
      case isFalse other => exact iff_of_true rfl (.inl fun both => other both.2)

/-- A loader with the size of the file, or with an unknown size, that reads from the
cache what another one has put there, reads it back exactly if it survives the cache. -/
theorem readsBack_iff (stored : Stored file first value) (below : loadSize ≤ fullSize)
    (sizes : fullSize = file.length ∨ fullSize = 0) :
    (({ loadSize := loadSize, fullSize := fullSize, isWebFile := isWebFile } :
        FileLoader).localLoaded value).AlwaysFinishes file
          (fun last => ReadsBack file first loadSize last.data) ↔
      SurvivesCache file first isWebFile loadSize := by
  rcases stored.value_cases with ⟨whole, rfl⟩ | ⟨notWhole, rfl⟩
  · exact readsBack_whole whole below sizes
  have small : loadSize ≤ file.length := by
    omega
  have isMarked : partialPrefix <+: partialPrefix ++ first.data := prefix_append ..
  have some : partialPrefix ++ first.data ≠ [] := by simp [partialPrefix]
  have rest : (partialPrefix ++ first.data).drop kPrefix = first.data := drop_left' rfl
  have length : (partialPrefix ++ first.data).length = kPrefix + first.data.length :=
    length_append
  have survives : SurvivesCache file first isWebFile loadSize :=
    .inl fun both => notWhole both.1
  refine iff_of_true ?_ survives
  unfold localLoaded
  rw [if_neg some]
  split
  case isTrue marked =>
    have short : (partialPrefix ++ first.data).length < loadSize + kPrefix := marked.2
    have size : fullSize = file.length := by
      rw [length] at short
      omega
    subst size
    rw [alwaysFinishes_partial_iff small short (by rw [length]; exact Nat.le_add_right ..)]
    have own : mixedContent file (partialPrefix ++ first.data) = file := by
      rw [mixedContent_eq_iff, rest]
      have used := usedSize_le (partialPrefix ++ first.data)
      rw [length] at used
      obtain ⟨more, fileEq⟩ := stored.isPrefix
      rw [← fileEq, take_append_of_le_length (by omega)]
    rw [own]
    exact readsBack_loadedContent notWhole small
  case isFalse unmarked =>
    rw [rest, alwaysFinishes_finished_iff rfl rfl]
    refine ⟨stored.isPrefix, ?_, fun whole => absurd whole notWhole⟩
    have enough : ¬(partialPrefix ++ first.data).length < loadSize + kPrefix :=
      fun short => unmarked ⟨isMarked, short⟩
    rw [length] at enough
    change loadSize ≤ first.data.length
    omega

/-- The start of a file is read back by a loader that needs less of it. -/
theorem readsBack_iff_partial :
    Stored [1, 2, 3] { loadSize := 2, fullSize := 3, localStatus := .notFound, data := [1, 2] }
        (partialPrefix ++ [1, 2]) ∧
      (({ loadSize := 1, fullSize := 3 } : FileLoader).localLoaded
        (partialPrefix ++ [1, 2])).AlwaysFinishes [1, 2, 3]
          (fun last => ReadsBack [1, 2, 3]
            { loadSize := 2, fullSize := 3, localStatus := .notFound, data := [1, 2] } 1
              last.data) := by
  have stored : Stored [1, 2, 3]
      { loadSize := 2, fullSize := 3, localStatus := .notFound, data := [1, 2] }
        (partialPrefix ++ [1, 2]) := ⟨by decide, by decide, .inl rfl⟩
  refine ⟨stored, (readsBack_iff stored (by decide) (.inl rfl)).mpr ?_⟩
  exact .inl fun both => absurd both.1 (by decide)

/-- A whole file that is the mark and one byte more: a loader that needs one byte of it
ends with the last one. -/
theorem whole_file_loses_mark :
    Stored (partialPrefix ++ [1])
        { loadSize := 9, fullSize := 9, localStatus := .notFound, data := partialPrefix ++ [1] }
        (partialPrefix ++ [1]) ∧
      (({ loadSize := 1, fullSize := 9 } : FileLoader).localLoaded
        (partialPrefix ++ [1])).finished ∧
      (({ loadSize := 1, fullSize := 9 } : FileLoader).localLoaded
        (partialPrefix ++ [1])).data = [1] ∧
      ¬([1] : Bytes) <+: partialPrefix ++ [1] := by
  exact ⟨⟨by decide, by decide, .inl rfl⟩, by decide, by decide, by decide⟩

end ReadsBack

end FileLoader

end TelegramDesktop
