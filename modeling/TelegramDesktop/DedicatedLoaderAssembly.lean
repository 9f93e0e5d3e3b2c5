import TelegramDesktop.DedicatedLoader
import TelegramDesktop.KeyedLists

/-!
# The chunks of an update are written in order

The requests that are kept begin where the output ends and follow one another, so the
chunks are written in order whatever the order of the answers.  This takes the offsets
and the total size to be what they are as an `int`; a file that is too large for that
is never reported as ready, or too early.
-/

namespace TelegramDesktop.DedicatedLoader

open List Option

variable {file : Bytes} {loader next : DedicatedLoader} {base : Nat} {requests : List Request}

theorem kChunkSize_pos : 0 < kChunkSize := by decide

variable {offset : Nat}

theorem part_ne_nil (inside : offset < file.length) : part file offset ≠ [] := by
  have size : 0 < (part file offset).length := by
    rw [part, segment, length_take, length_drop]
    have := kChunkSize_pos
    omega
  exact ne_nil_of_length_pos size

theorem take_append_part (base : Nat) :
    file.take base ++ part file base = file.take (base + kChunkSize) := by
  rw [part, segment, Nat.add_sub_cancel_left, take_add]

/-- The output reaches up to a position, and its size is known. -/
structure Written (file : Bytes) (base : Nat) (loader : DedicatedLoader) : Prop where
  size : loader.size = file.length
  totalSize : loader.totalSize = file.length
  output : loader.output = file.take base
  alreadySize : loader.alreadySize = loader.output.length
  isOpen : loader.isOpen = decide (base < file.length)
  ready : loader.ready = if base < file.length then 0 else 1

theorem Written.writeChunk (written : Written file base loader) (some : file ≠ [])
    (inside : base < file.length) (totalSize : Int) :
    Written file (base + kChunkSize) (loader.writeChunk (part file base) totalSize) := by
  have isOpen : loader.isOpen = true := by
    rw [written.isOpen]
    exact decide_eq_true inside
  have notReady : loader.ready = 0 := by
    rw [written.ready, if_pos inside]
  have nonzero : loader.totalSize ≠ 0 := by
    rw [written.totalSize]
    exact_mod_cast (length_pos_of_ne_nil some).ne'
  have output : loader.output ++ part file base = file.take (base + kChunkSize) := by
    rw [written.output, take_append_part]
  have already : loader.alreadySize + (part file base).length =
      (file.take (base + kChunkSize)).length := by
    rw [← output, length_append, written.alreadySize]
  have length := length_take (l := file) (i := base + kChunkSize)
  unfold DedicatedLoader.writeChunk
  rw [if_neg (by simp [isOpen]), if_neg nonzero, written.totalSize]
  dsimp only
  rw [already]
  split
  · have notInside : ¬base + kChunkSize < file.length := by omega
    refine ⟨written.size, rfl, output, ?_, ?_, ?_⟩
    · exact congrArg List.length output.symm
    · exact (decide_eq_false notInside).symm
    · rw [notReady, if_neg notInside]
  · have stillInside : base + kChunkSize < file.length := by omega
    refine ⟨written.size, rfl, output, ?_, ?_, ?_⟩
    · exact congrArg List.length output.symm
    · exact isOpen.trans (decide_eq_true stillInside).symm
    · exact notReady.trans (if_pos stillInside).symm

/-- The requests follow one another from a position on, and those that were received have
the bytes of their parts. -/
structure Queued (file : Bytes) (base : Nat) (requests : List Request) : Prop where
  offsets : requests.map Request.offset = List.range' base requests.length kChunkSize
  inside : ∀ request ∈ requests, request.offset < file.length
  bytes : ∀ request ∈ requests, request.bytes = [] ∨ request.bytes = part file request.offset

theorem Queued.head {front : Request} (queued : Queued file base (front :: requests)) :
    front.offset = base ∧ Queued file (base + kChunkSize) requests := by
  have offsets := queued.offsets
  rw [map_cons, length_cons, range'_succ, cons.injEq] at offsets
  exact ⟨offsets.1, offsets.2, fun request member => queued.inside request (by simp [member]),
    fun request member => queued.bytes request (by simp [member])⟩

theorem Queued.distinct (queued : Queued file base requests) :
    (requests.map Request.offset).Nodup := by
  rw [queued.offsets]
  exact nodup_range' _ kChunkSize_pos

/-- The offsets whose chunks have not come. -/
def unanswered (requests : List Request) : List Nat :=
  (requests.filter fun request => request.bytes = []).map Request.offset

/-- What is left when the received parts at the front are written. -/
structure WrittenFront (file : Bytes) (base : Nat) (requests : List Request)
    (loader next : DedicatedLoader) (reached : Nat) : Prop where
  written : Written file reached next
  queued : Queued file reached next.requests
  suffix : next.requests <:+ requests
  ends : reached + next.requests.length * kChunkSize = base + requests.length * kChunkSize
  front : ∀ request ∈ next.requests.head?, request.bytes = []
  unanswered : unanswered next.requests = unanswered requests
  offset : next.offset = loader.offset
  awaited : next.awaited = loader.awaited
  requested : next.requested = loader.requested

/-- The loader asks for the same parts and waits for the same answers. -/
structure SameQueue (loader next : DedicatedLoader) : Prop where
  size : next.size = loader.size
  requests : next.requests = loader.requests
  offset : next.offset = loader.offset
  awaited : next.awaited = loader.awaited
  requested : next.requested = loader.requested

theorem sameQueue_writeChunk (loader : DedicatedLoader) (data : Bytes) (totalSize : Int) :
    SameQueue loader (loader.writeChunk data totalSize) := by
  unfold writeChunk
  split
  · exact ⟨rfl, rfl, rfl, rfl, rfl⟩
  · dsimp only
    generalize (if loader.totalSize = 0 then totalSize else loader.totalSize) = total
    split <;> exact ⟨rfl, rfl, rfl, rfl, rfl⟩

theorem exists_writeReceived (some : file ≠ []) (written : Written file base loader)
    (queued : Queued file base requests) :
    ∃ reached, WrittenFront file base requests loader (writeReceived requests loader) reached := by
  induction requests generalizing base loader with
  | nil =>
    refine ⟨base, ?_, ?_, suffix_refl _, rfl, ?_, rfl, rfl, rfl, rfl⟩
    · exact { written with }
    · exact queued
    · simp [writeReceived]
  | cons front requests ih =>
    unfold writeReceived
    split
    next received =>
      obtain ⟨isBase, rest⟩ := queued.head
      have isPart : front.bytes = part file base :=
        isBase ▸ (queued.bytes front (by simp)).resolve_left received
      have inside : base < file.length := isBase ▸ queued.inside front (by simp)
      rw [isPart]
      obtain ⟨reached, later⟩ :=
        ih (written.writeChunk some inside (toInt32 loader.size)) rest
      have same := sameQueue_writeChunk loader (part file base) (toInt32 loader.size)
      refine ⟨reached, later.written, later.queued, ?_, ?_, later.front, ?_,
        later.offset.trans same.offset, later.awaited.trans same.awaited,
        later.requested.trans same.requested⟩
      · exact later.suffix.trans (suffix_cons front requests)
      · rw [later.ends, length_cons, Nat.succ_mul]
        omega
      · rw [later.unanswered, unanswered, unanswered, filter_cons_of_neg (by simpa using received)]
    next notReceived =>
      refine ⟨base, ?_, queued, suffix_refl _, rfl, ?_, rfl, rfl, rfl, rfl⟩
      · exact { written with }
      · simpa using notReceived

/-- The state of a loader between the events, with the position that its output reaches. -/
structure Sound (file : Bytes) (base : Nat) (loader : DedicatedLoader) : Prop where
  written : Written file base loader
  queued : Queued file base loader.requests
  front : ∀ request ∈ loader.requests.head?, request.bytes = []
  awaited : loader.awaited = unanswered loader.requests
  offset : loader.offset = base + loader.requests.length * kChunkSize
  once : loader.requested.Nodup
  below : ∀ offset ∈ loader.requested, offset < loader.offset

theorem Sound.sendRequest (sound : Sound file base loader) :
    Sound file base loader.sendRequest ∧
      (base < file.length → loader.sendRequest.requests ≠ []) := by
  unfold DedicatedLoader.sendRequest
  split
  next nothing =>
    refine ⟨sound, fun inside none => ?_⟩
    rw [none, sound.written.size, sound.offset, none] at nothing
    simp [kRequestsCount] at nothing
    omega
  next asks =>
    rw [not_or, not_le, not_le, sound.written.size] at asks
    have written := sound.written
    refine ⟨⟨?_, ?_, ?_, ?_, ?_, ?_, ?_⟩, fun _ => by simp⟩
    · exact { written with }
    · refine ⟨?_, fun request member => ?_, fun request member => ?_⟩
      · rw [map_append, sound.queued.offsets, length_append, length_singleton,
          range'_concat, sound.offset, mul_comm kChunkSize]
        rfl
      · rcases mem_append.mp member with old | new
        · exact sound.queued.inside request old
        · rw [mem_singleton.mp new]
          exact asks.2
      · rcases mem_append.mp member with old | new
        · exact sound.queued.bytes request old
        · rw [mem_singleton.mp new]
          exact .inl rfl
    · intro request isHead
      cases requests : loader.requests with
      | nil =>
        rw [requests] at isHead
        obtain rfl : _ = request := by simpa using isHead
        rfl
      | cons front rest =>
        rw [requests] at isHead
        exact sound.front request (by rw [requests]; simpa using isHead)
    · rw [sound.awaited, unanswered, unanswered, filter_append, map_append]
      rfl
    · dsimp only
      rw [length_append, length_singleton, Nat.succ_mul, sound.offset]
      omega
    · refine sound.once.append (nodup_singleton _) ?_
      simpa using fun member => lt_irrefl _ (sound.below _ member)
    · intro offset member
      have := kChunkSize_pos
      rcases mem_append.mp member with old | new
      · exact (sound.below offset old).trans (Nat.lt_add_of_pos_right this)
      · rw [mem_singleton.mp new]
        exact Nat.lt_add_of_pos_right this

theorem Sound.exists_request (sound : Sound file base loader) (awaited : offset ∈ loader.awaited) :
    ∃ before request after, loader.requests = before ++ request :: after ∧
      request.offset = offset ∧ offset ∉ before.map Request.offset ∧ request.bytes = [] ∧
      request.offset < file.length := by
  rw [sound.awaited, unanswered, List.mem_map] at awaited
  obtain ⟨request, member, isOffset⟩ := awaited
  obtain ⟨member, notReceived⟩ := mem_filter.mp member
  obtain ⟨before, found, after, split, has, fresh⟩ :=
    exists_first_withKey (mem_map.mpr ⟨request, member, isOffset⟩)
  have same : request = found := by
    refine inj_on_of_nodup_map sound.queued.distinct member ?_ (isOffset.trans has.symm)
    rw [split]
    simp
  subst same
  exact ⟨before, request, after, split, has, fresh, of_decide_eq_true notReceived,
    sound.queued.inside request member⟩

theorem modify_split {α : Type*} (change : α → α) (before after : List α) (found : α) :
    (before ++ found :: after).modify before.length change = before ++ change found :: after := by
  induction before with
  | nil => rfl
  | cons head before ih => exact congrArg (head :: ·) ih

theorem unanswered_answer {before after : List Request} {request : Request} {bytes : Bytes}
    (notReceived : request.bytes = []) (received : bytes ≠ [])
    (fresh : request.offset ∉ before.map Request.offset) :
    unanswered (before ++ { request with bytes := bytes } :: after) =
      (unanswered (before ++ request :: after)).erase request.offset := by
  have absent : request.offset ∉ unanswered before := by
    intro member
    obtain ⟨other, otherMem, same⟩ := mem_map.mp member
    exact fresh (mem_map.mpr ⟨other, (mem_filter.mp otherMem).1, same⟩)
  unfold unanswered at absent ⊢
  rw [filter_append, filter_append, filter_cons_of_neg (by simpa using received),
    filter_cons_of_pos (by simpa using notReceived), map_append, map_append,
    map_cons, erase_append_right _ absent, erase_cons_head]

theorem Queued.answer {before after : List Request} {request : Request}
    (queued : Queued file base (before ++ request :: after)) :
    Queued file base
      (before ++ { request with bytes := part file request.offset } :: after) := by
  refine ⟨?_, fun other member => ?_, fun other member => ?_⟩
  · have offsets := queued.offsets
    simpa using offsets
  · rcases mem_append.mp member with earlier | later
    · exact queued.inside other (mem_append_left _ earlier)
    · rcases mem_cons.mp later with rfl | later
      · exact queued.inside request (by simp)
      · exact queued.inside other (by simp [later])
  · rcases mem_append.mp member with earlier | later
    · exact queued.bytes other (mem_append_left _ earlier)
    · rcases mem_cons.mp later with rfl | later
      · exact .inr rfl
      · exact queued.bytes other (by simp [later])

theorem Sound.of_writtenFront {loader : DedicatedLoader} {reached : Nat}
    (written : WrittenFront file base requests loader next reached)
    (awaited : loader.awaited = unanswered requests)
    (offset : loader.offset = base + requests.length * kChunkSize)
    (once : loader.requested.Nodup) (below : ∀ offset ∈ loader.requested, offset < loader.offset) :
    Sound file reached next where
  written := written.written
  queued := written.queued
  front := written.front
  awaited := by rw [written.awaited, awaited, written.unanswered]
  offset := by rw [written.offset, offset, written.ends]
  once := written.requested ▸ once
  below := by
    rw [written.requested, written.offset]
    exact below

theorem Sound.answer (sound : Sound file base loader) (some : file ≠ [])
    (small : file.length < 2 ^ 31) (awaited : offset ∈ loader.awaited) :
    ∃ next reached, loader.handle file (.answer offset) = .some next ∧ Sound file reached next ∧
      (reached < file.length → next.requests ≠ []) := by
  obtain ⟨before, request, after, split, rfl, fresh, notReceived, inside⟩ :=
    sound.exists_request awaited
  have isOffset : toInt32 request.offset = request.offset :=
    toInt32_eq_self (Int.natCast_nonneg _) (by omega)
  have found : loader.requests.findIdx?
      (fun other => decide ((other.offset : Int) = request.offset)) = .some before.length := by
    simp only [Int.natCast_inj, split]
    exact findIdx?_split rfl fresh
  have modified : loader.requests.modify before.length
      (fun other => { other with bytes := part file request.offset }) =
        before ++ { request with bytes := part file request.offset } :: after := by
    rw [split, modify_split]
  have queued := sound.queued
  rw [split] at queued
  let answered : DedicatedLoader :=
    { loader with awaited := loader.awaited.erase request.offset }
  have written : Written file base answered :=
    { sound.written with }
  obtain ⟨reached, front⟩ := exists_writeReceived some written queued.answer
  have rest : Sound file reached _ := Sound.of_writtenFront front (by
      change loader.awaited.erase request.offset = _
      rw [sound.awaited, split, unanswered_answer notReceived (part_ne_nil inside) fresh])
    (by
      rw [sound.offset, split, length_append, length_append, length_cons, length_cons])
    sound.once sound.below
  obtain ⟨sent, busy⟩ := rest.sendRequest
  refine ⟨_, reached, ?_, sent, busy⟩
  unfold handle gotPart
  dsimp only
  rw [if_neg (by rw [split]; simp), if_neg (part_ne_nil inside), isOffset, found,
    map_some, modified]

/-- A sound loader that asks for something as long as the output is not the file. -/
structure Busy (file : Bytes) (loader : DedicatedLoader) : Prop where
  sound : ∃ base, Sound file base loader
  busy : loader.output ≠ file → loader.requests ≠ []

theorem Sound.busy (sound : Sound file base loader)
    (busy : base < file.length → loader.requests ≠ []) : Busy file loader := by
  refine ⟨⟨base, sound⟩, fun unfinished => busy ?_⟩
  by_contra reached
  refine unfinished ?_
  rw [sound.written.output]
  exact take_of_length_le (Nat.le_of_not_lt reached)

theorem Busy.handle (busy : Busy file loader) (some : file ≠ []) (small : file.length < 2 ^ 31)
    {event : Event} (enabled : loader.enabled event = true) :
    ∃ next, loader.handle file event = .some next ∧ Busy file next := by
  obtain ⟨base, sound⟩ := busy.sound
  cases event with
  | answer offset =>
    obtain ⟨next, reached, handled, sound, rest⟩ :=
      sound.answer some small (of_decide_eq_true enabled)
    exact ⟨next, handled, sound.busy rest⟩
  | sendRequest =>
    have called : Sound file base { loader with delayed := loader.delayed - 1 } :=
      { sound with written := { sound.written with } }
    obtain ⟨sent, rest⟩ := called.sendRequest
    exact ⟨_, rfl, sent.busy rest⟩

theorem Busy.inOrder (busy : Busy file loader) (some : file ≠ []) (small : file.length < 2 ^ 31) :
    InOrder file loader := by
  obtain ⟨base, sound⟩ := busy.sound
  have isFile : loader.output = file ↔ file.length ≤ base := by
    rw [sound.written.output]
    constructor
    · intro whole
      rw [← whole, length_take]
      exact min_le_left _ _
    · exact take_of_length_le
  refine ⟨?_, sound.once, ?_, fun event enabled => ?_, fun none => ?_⟩
  · rw [sound.written.output]
    exact take_prefix _ _
  · rw [sound.written.ready]
    by_cases inside : base < file.length
    · rw [if_pos inside, if_neg (by rw [isFile]; omega)]
    · rw [if_neg inside, if_pos (isFile.mpr (Nat.le_of_not_lt inside))]
  · obtain ⟨next, handled, -⟩ := busy.handle some small enabled
    rw [handled]
    rfl
  · by_contra unfinished
    cases requests : loader.requests with
    | nil => exact busy.busy unfinished requests
    | cons front rest =>
      have notReceived := sound.front front (by rw [requests]; rfl)
      rw [sound.awaited, requests, unanswered,
        filter_cons_of_pos (by simpa using notReceived)] at none
      cases none

/-- What is kept of an output fits an `int`. -/
theorem length_validateOutput (existing : Option Bytes) :
    (validateOutput existing).length ≤ kMaxFileSize := by
  unfold validateOutput
  cases existing with
  | none => exact Nat.zero_le _
  | some content =>
    dsimp only
    split
    · exact Nat.zero_le _
    · rw [length_take]
      omega

variable {existing : Option Bytes}

theorem busy_start (some : file ≠ []) (small : file.length < 2 ^ 31)
    (isPrefix : validateOutput existing <+: file) :
    Busy file (start file.length existing) := by
  have total : toInt32 file.length = file.length :=
    toInt32_eq_self (Int.natCast_nonneg _) (by omega)
  have output := prefix_iff_eq_take.mp isPrefix
  have positive := length_pos_of_ne_nil some
  let first : DedicatedLoader :=
    { size := file.length
      output := validateOutput existing
      alreadySize := (validateOutput existing).length
      offset := (validateOutput existing).length }
  have written : Written file (validateOutput existing).length
      (first.writeChunk [] (toInt32 file.length)) := by
    unfold writeChunk
    rw [if_neg (by simp), total]
    dsimp only [first]
    rw [if_pos rfl, append_nil, length_nil, add_zero]
    split
    · have notInside : ¬(validateOutput existing).length < file.length := by omega
      exact ⟨rfl, rfl, output, rfl, (decide_eq_false notInside).symm, (if_neg notInside).symm⟩
    · have inside : (validateOutput existing).length < file.length := by omega
      exact ⟨rfl, rfl, output, rfl, (decide_eq_true inside).symm, (if_pos inside).symm⟩
  have same := sameQueue_writeChunk first [] (toInt32 file.length)
  have none : (first.writeChunk [] (toInt32 file.length)).requests = [] := same.requests
  have sound : Sound file (validateOutput existing).length
      (first.writeChunk [] (toInt32 file.length)) := by
    refine ⟨written, ?_, ?_, ?_, ?_, ?_, ?_⟩
    · rw [none]
      exact ⟨rfl, fun _ => False.elim ∘ not_mem_nil, fun _ => False.elim ∘ not_mem_nil⟩
    · rw [none]
      intro request absent
      cases absent
    · rw [none, same.awaited]
      rfl
    · rw [none, same.offset]
      simp [first]
    · rw [same.requested]
      exact nodup_nil
    · rw [same.requested]
      intro offset absent
      cases absent
  obtain ⟨sent, busy⟩ := sound.sendRequest
  exact sent.busy busy

/-- Every run assembles a file whose size is an `int`. -/
theorem assembles_of_small (some : file ≠ []) (small : file.length < 2 ^ 31)
    (isPrefix : validateOutput existing <+: file) :
    Assembles file existing := by
  intro events loader ends
  refine Busy.inOrder ?_ some small
  refine run_invariant (fun state event next busy taken => ?_) (busy_start some small isPrefix) ends
  unfold step at taken
  split at taken
  next enabled =>
    obtain ⟨other, handled, busy⟩ := busy.handle some small enabled
    rw [handled] at taken
    cases taken
    exact busy
  · cases taken

/-- Such a size becomes an `int` that is not positive, or much smaller. -/
theorem toInt32_of_large {size : Nat} (large : 2 ^ 31 ≤ size) :
    toInt32 size ≤ 0 ∨ toInt32 size + 2 ^ 32 ≤ size := by
  unfold toInt32
  rw [Int.bmod_def]
  split <;> omega

/-- What is reported depends on the total size as an `int`. -/
structure Counted (total : Int) (loader : DedicatedLoader) : Prop where
  totalSize : loader.totalSize = total
  alreadySize : loader.alreadySize = loader.output.length
  ready : 0 < loader.ready ↔ 0 < total ∧ total ≤ loader.output.length

theorem Counted.writeChunk {total : Int} (counted : Counted total loader) (data : Bytes) :
    Counted total (loader.writeChunk data total) ∧
      (loader.writeChunk data total).output.length ≤ loader.output.length + data.length := by
  have same : (if loader.totalSize = 0 then total else loader.totalSize) = total := by
    rw [counted.totalSize]
    split <;> rfl
  have already : loader.alreadySize + data.length = (loader.output ++ data).length := by
    rw [length_append, counted.alreadySize]
  have longer : loader.output.length ≤ (loader.output ++ data).length := by
    rw [length_append]
    exact Nat.le_add_right _ _
  unfold DedicatedLoader.writeChunk
  split
  · exact ⟨{ counted with }, Nat.le_add_right _ _⟩
  · dsimp only
    rw [same, already]
    split
    next reached =>
      exact ⟨⟨rfl, rfl, iff_of_true (Nat.succ_pos _) reached⟩, length_append.le⟩
    next notReached =>
      refine ⟨⟨rfl, rfl, iff_of_false ?_ notReached⟩, length_append.le⟩
      rw [counted.ready]
      intro reached
      exact notReached ⟨reached.1, reached.2.trans (by exact_mod_cast longer)⟩

/-- A loader with few requests, each with at most one chunk. -/
structure Limited (total : Int) (loader : DedicatedLoader) : Prop where
  counted : Counted total loader
  size : toInt32 loader.size = total
  few : loader.requests.length ≤ kRequestsCount
  chunks : ∀ request ∈ loader.requests, request.bytes.length ≤ kChunkSize

/-- The answers that can still come, at most: two for what was not requested yet. -/
def leftToAnswer (loader : DedicatedLoader) : Nat :=
  loader.awaited.length + 2 * (loader.size - loader.offset)

variable {total : Int}

theorem Limited.sendRequest (limited : Limited total loader) :
    Limited total loader.sendRequest ∧ loader.sendRequest.output = loader.output ∧
      leftToAnswer loader.sendRequest ≤ leftToAnswer loader := by
  unfold DedicatedLoader.sendRequest
  split
  · exact ⟨limited, rfl, le_rfl⟩
  next asks =>
    rw [not_or, not_le, not_le] at asks
    have := kChunkSize_pos
    refine ⟨{ limited with counted := { limited.counted with }, few := ?_, chunks := ?_ }, rfl, ?_⟩
    · rw [length_append]
      exact asks.1
    · intro request member
      rcases mem_append.mp member with old | new
      · exact limited.chunks request old
      · rw [mem_singleton.mp new]
        exact Nat.zero_le _
    · unfold leftToAnswer
      dsimp only
      rw [length_append, length_singleton]
      omega

theorem Counted.writeReceived (counted : Counted total loader) (size : toInt32 loader.size = total)
    (chunks : ∀ request ∈ requests, request.bytes.length ≤ kChunkSize) :
    Counted total (writeReceived requests loader) ∧
      (writeReceived requests loader).size = loader.size ∧
      (writeReceived requests loader).requests <:+ requests ∧
      leftToAnswer (writeReceived requests loader) = leftToAnswer loader ∧
      (writeReceived requests loader).output.length ≤
        loader.output.length + requests.length * kChunkSize := by
  induction requests generalizing loader with
  | nil =>
    exact ⟨{ counted with }, rfl, suffix_refl _, rfl, Nat.le_add_right _ _⟩
  | cons front requests ih =>
    unfold DedicatedLoader.writeReceived
    split
    · obtain ⟨written, longer⟩ := counted.writeChunk front.bytes
      have same := sameQueue_writeChunk loader front.bytes total
      rw [size]
      obtain ⟨rest, sizeRest, suffix, left, length⟩ := ih written (by rw [same.size, size])
        fun request member => chunks request (by simp [member])
      refine ⟨rest, sizeRest.trans same.size, suffix.trans (suffix_cons _ _), ?_, ?_⟩
      · rw [left, leftToAnswer, leftToAnswer, same.awaited, same.size, same.offset]
      · have one := chunks front (by simp)
        rw [length_cons, Nat.succ_mul]
        omega
    · exact ⟨{ counted with }, rfl, suffix_refl _, rfl, Nat.le_add_right _ _⟩

theorem length_part_le (file : Bytes) (offset : Nat) : (part file offset).length ≤ kChunkSize := by
  rw [part, segment, length_take]
  omega

theorem Limited.answer (limited : Limited total loader) (awaited : offset ∈ loader.awaited)
    (handled : loader.handle file (.answer offset) = some next) :
    Limited total next ∧ leftToAnswer next < leftToAnswer loader ∧
      next.output.length ≤ loader.output.length + kRequestsCount * kChunkSize := by
  have fewer := length_erase_of_mem awaited
  have positive := length_pos_of_mem awaited
  unfold handle gotPart at handled
  dsimp only at handled
  split at handled
  · cases handled
  · split at handled
    · cases handled
      refine ⟨{ limited with counted := { limited.counted with } }, ?_, Nat.le_add_right _ _⟩
      unfold leftToAnswer
      dsimp only
      omega
    · obtain ⟨i, -, made⟩ := map_eq_some_iff.mp handled
      have chunks : ∀ request ∈ loader.requests.modify i
          (fun request => { request with bytes := part file offset }),
          request.bytes.length ≤ kChunkSize := by
        intro request member
        obtain ⟨index, found⟩ := mem_iff_getElem?.mp member
        rw [getElem?_modify] at found
        obtain ⟨before, was, rfl⟩ := map_eq_some_iff.mp found
        split
        · exact length_part_le file offset
        · exact limited.chunks before (mem_of_getElem? was)
      have counted : Counted total
          { loader with awaited := loader.awaited.erase offset } :=
        { limited.counted with }
      obtain ⟨written, size, suffix, left, length⟩ :=
        counted.writeReceived limited.size chunks
      rw [length_modify] at length
      have few := suffix.length_le
      rw [length_modify] at few
      have rest : Limited total (writeReceived (loader.requests.modify i
          (fun request => { request with bytes := part file offset }))
          { loader with awaited := loader.awaited.erase offset }) :=
        ⟨written, (congrArg (fun size : Nat => toInt32 size) size).trans limited.size,
          few.trans limited.few, fun request member => chunks request (suffix.subset member)⟩
      obtain ⟨sent, output, leftSent⟩ := rest.sendRequest
      rw [made] at sent output leftSent
      refine ⟨sent, ?_, ?_⟩
      · have erased : leftToAnswer { loader with awaited := loader.awaited.erase offset } <
            leftToAnswer loader := by
          unfold leftToAnswer
          dsimp only
          omega
        omega
      · rw [output]
        have := Nat.mul_le_mul_right kChunkSize limited.few
        exact length.trans (Nat.add_le_add_left this _)

theorem counted_writeChunk_nil (loader : DedicatedLoader) (totalSize : loader.totalSize = 0)
    (alreadySize : loader.alreadySize = loader.output.length) (notReady : loader.ready = 0)
    (total : Int) :
    Counted total (loader.writeChunk [] total) ∧
      (loader.writeChunk [] total).output = loader.output := by
  unfold DedicatedLoader.writeChunk
  rw [if_neg (by simp), if_pos totalSize, append_nil, length_nil, add_zero]
  dsimp only
  rw [alreadySize, notReady]
  split
  next reached =>
    exact ⟨⟨rfl, rfl, iff_of_true Nat.one_pos reached⟩, rfl⟩
  next notReached =>
    exact ⟨⟨rfl, rfl, iff_of_false (lt_irrefl 0) notReached⟩, rfl⟩

theorem Limited.start (size : Nat) (existing : Option Bytes) :
    Limited (toInt32 size) (start size existing) ∧
      (start size existing).output.length ≤ kMaxFileSize := by
  let first : DedicatedLoader :=
    { size := size
      output := validateOutput existing
      alreadySize := (validateOutput existing).length
      offset := (validateOutput existing).length }
  have same := sameQueue_writeChunk first [] (toInt32 size)
  have written := counted_writeChunk_nil first rfl rfl rfl (toInt32 size)
  have limited : Limited (toInt32 size) (first.writeChunk [] (toInt32 size)) := by
    refine ⟨written.1, by rw [same.size], ?_, ?_⟩
    · rw [same.requests]
      exact Nat.zero_le _
    · rw [same.requests]
      intro request absent
      cases absent
  obtain ⟨sent, output, -⟩ := limited.sendRequest
  refine ⟨sent, ?_⟩
  change (first.writeChunk [] (toInt32 size)).sendRequest.output.length ≤ kMaxFileSize
  rw [output, written.2]
  exact length_validateOutput existing

/-- An output that is not the file is shorter than the total size as an `int`. -/
theorem Limited.short (limited : Limited total loader) (inOrder : InOrder file loader)
    (unfinished : loader.output ≠ file) : 0 < total → (loader.output.length : Int) < total := by
  intro positive
  have notReady : ¬0 < loader.ready := by
    rw [inOrder.ready, if_neg unfinished]
    exact lt_irrefl 0
  rw [limited.counted.ready] at notReady
  omega

theorem not_assembles_from (large : 2 ^ 31 ≤ file.length)
    (assembles : Assembles file existing) (isTotal : toInt32 file.length = total) :
    ∀ (left : Nat) (loader : DedicatedLoader) (events : List Event),
      leftToAnswer loader = left → Limited total loader →
      run (step file) (start file.length existing) events = some loader →
      loader.output ≠ file → False := by
  intro left
  induction left using Nat.strong_induction_on with
  | _ left ih =>
    intro loader events isLeft limited reached unfinished
    have inOrder := assembles events loader reached
    have short := limited.short inOrder unfinished
    obtain ⟨offset, awaited⟩ : ∃ offset, offset ∈ loader.awaited :=
      exists_mem_of_ne_nil _ fun none => unfinished (inOrder.complete none)
    have enabled : loader.enabled (.answer offset) = true := decide_eq_true awaited
    obtain ⟨next, handled⟩ := isSome_iff_exists.mp (inOrder.answered _ enabled)
    obtain ⟨limitedNext, fewer, longer⟩ := limited.answer awaited handled
    have ends : run (step file) (start file.length existing) (events ++ [.answer offset]) =
        some next := by
      rw [run_append, reached, bind_some, run, step, if_pos enabled, handled]
      rfl
    refine ih (leftToAnswer next) (isLeft ▸ fewer) next _ rfl limitedNext ends ?_
    intro whole
    -- Two chunks do not take the output from below the `int` to the end of the file.
    have readyNext : 0 < next.ready := by
      rw [(assembles _ next ends).ready, if_pos whole]
      exact Nat.one_pos
    obtain ⟨positive, -⟩ := limitedNext.counted.ready.mp readyNext
    have far := toInt32_of_large large
    rw [whole] at longer
    rw [isTotal] at far
    simp only [kRequestsCount, kChunkSize] at longer
    omega

theorem not_assembles_of_large (large : 2 ^ 31 ≤ file.length) (existing : Option Bytes) :
    ¬Assembles file existing := by
  intro assembles
  obtain ⟨limited, length⟩ := Limited.start file.length existing
  refine not_assembles_from large assembles rfl _ (start file.length existing) [] rfl limited rfl
    fun whole => ?_
  rw [whole] at length
  simp only [kMaxFileSize] at length
  omega

/-- The file is assembled in order if and only if its size is an `int`. -/
theorem assembles_iff (some : file ≠ []) {existing : Option Bytes}
    (isPrefix : validateOutput existing <+: file) :
    Assembles file existing ↔ file.length < 2 ^ 31 := by
  constructor
  · intro assembles
    by_contra large
    exact not_assembles_of_large (Nat.le_of_not_lt large) existing assembles
  · intro small
    exact assembles_of_small some small isPrefix

theorem validateOutput_isPrefix (content : Bytes) : validateOutput (some content) <+: content := by
  unfold validateOutput
  dsimp only
  split
  · exact nil_prefix
  · exact take_prefix ..

/-- A file of three chunks, of which the output holds one and a part of the second one -/
theorem assembles_iff_two :
    Assembles (replicate 200000 7 ++ replicate 100000 8) (some (replicate 200000 7)) ↔
      (replicate 200000 7 ++ replicate 100000 8 : Bytes).length < 2 ^ 31 := by
  have filled : (replicate 200000 7 : Bytes) ≠ [] :=
    ne_nil_of_length_pos (by rw [length_replicate]; decide)
  exact assembles_iff (append_ne_nil_of_left_ne_nil filled _)
    ((validateOutput_isPrefix _).trans (prefix_append ..))

/-- A file of `2 ^ 31` bytes is not assembled. -/
theorem not_assembles_large_zeros :
    ¬∀ (file : Bytes) (existing : Option Bytes), file ≠ [] → validateOutput existing <+: file →
      Assembles file existing := by
  intro all
  have length : (replicate (2 ^ 31) 0 : Bytes).length = 2 ^ 31 := length_replicate
  refine not_assembles_of_large length.ge none (all _ none ?_ nil_prefix)
  exact ne_nil_of_length_pos (by rw [length]; decide)

end TelegramDesktop.DedicatedLoader
