import TelegramDesktop.UploaderTraffic

/-!
# Runs of the uploader

In every state of a run the counters are exact and all requests are those of the current
file.
-/

namespace TelegramDesktop.Uploads

open FlatMap List Option

open Downloads (FullMsgId)

/-- What is on record of the file that was queued last for a message -/
structure Account where
  file : Option File := none
  sent : List (Place × Bytes) := []
  waiting : List RequestId := []

/-- What a happening adds to the account of an upload. -/
def Account.after (msgId : FullMsgId) (account : Account) : Happening → Account
  | .queued id file => if id = msgId then { file := some file } else account
  | .sent id place bytes _ requestId _ =>
    if id = msgId then
      { account with
        sent := account.sent ++ [(place, bytes)]
        waiting := requestId :: account.waiting }
    else account
  | .confirmed requestId =>
    { account with waiting := account.waiting.filter fun other => other ≠ requestId }
  | .cancelled _ | .photoProgress _ | .documentProgress _ | .secureProgress .. | .failed ..
  | .ready .. => account

/-- What happened to one upload. -/
def accountOf (log : List Happening) (msgId : FullMsgId) : Account :=
  log.foldl (Account.after msgId) {}

/-- What was sent is what belongs at the place. -/
def Place.Fits : Place → Bytes → Prop
  | .piece _ bytes, sent => sent = bytes
  | .document _ (some content), sent => sent = content
  | .document _ none, _ => True

/-- The places of all parts of a file. -/
def File.places (file : File) : List Place :=
  file.parts.parts.entries.map (fun part => .piece part.1 part.2) ++
    (List.range' file.docSentParts (file.docPartsCount - file.docSentParts).toNat).map
      fun number => .document number (file.documentContent number)

/-- Every part of the queued file was sent once, in order, and has been confirmed. -/
structure Account.Finished (account : Account) : Prop where
  all : ∃ file, account.file = some file ∧ account.sent.map Prod.fst = file.places
  fits : ∀ part ∈ account.sent, part.1.Fits part.2
  confirmed : account.waiting = []

/-- A file is told to be ready only when all of it is there. -/
def Complete (log : List Happening) : Prop :=
  ∀ before msgId ready after, log = before ++ .ready msgId ready :: after →
    (accountOf before msgId).Finished

def Happening.isQuiet : Happening → Bool
  | .cancelled _ | .photoProgress _ | .documentProgress _ | .secureProgress .. | .failed .. => true
  | .queued .. | .sent .. | .confirmed _ | .ready .. => false

variable {log : List Happening} {msgId : FullMsgId} {requestId : RequestId}

theorem accountOf_append (log : List Happening) (happening : Happening) (msgId : FullMsgId) :
    accountOf (log ++ [happening]) msgId = (accountOf log msgId).after msgId happening := by
  unfold accountOf
  rw [foldl_append]
  rfl

theorem Complete.append {happening : Happening} (complete : Complete log)
    (last : ∀ msgId ready, happening = .ready msgId ready → (accountOf log msgId).Finished) :
    Complete (log ++ [happening]) := by
  intro before msgId ready after split
  rcases eq_nil_or_concat after with rfl | ⟨rest, other, rfl⟩
  · obtain ⟨rfl, same⟩ := append_inj' split rfl
    exact last msgId ready (singleton_inj.mp same)
  · rw [concat_eq_append, ← cons_append, ← append_assoc] at split
    exact complete before msgId ready rest (append_inj' split rfl).1

theorem append_quiet {happenings : List Happening} (complete : Complete log)
    (quiet : ∀ happening ∈ happenings, happening.isQuiet = true) :
    Complete (log ++ happenings) ∧ accountOf (log ++ happenings) = accountOf log := by
  induction happenings generalizing log with
  | nil => simpa using complete
  | cons happening happenings ih =>
    have first := quiet happening mem_cons_self
    have next : Complete (log ++ [happening]) := by
      apply complete.append
      rintro msgId ready rfl
      cases first
    have same : accountOf (log ++ [happening]) = accountOf log := by
      funext msgId
      rw [accountOf_append]
      cases happening with
      | queued | sent | confirmed | ready => cases first
      | _ => rfl
    obtain ⟨rest, all⟩ := ih next fun other member => quiet other (mem_cons_of_mem _ member)
    rw [append_cons]
    exact ⟨rest, all.trans same⟩

namespace Traffic

theorem quiet_cancellations (traffic : Traffic) :
    ∀ happening ∈ traffic.cancellations, happening.isQuiet = true := by
  intro happening member
  simp only [cancellations, List.mem_append, List.mem_map] at member
  obtain ⟨request, -, rfl⟩ | ⟨request, -, rfl⟩ := member <;> rfl

end Traffic

namespace File

theorem docPartSize_setDocSize (file : File) (size : Int) :
    (file.setDocSize size).docPartSize ≤ documentUploadPartSize4 := by
  have partSize (file : File) (size : Nat) : (file.setPartSize size).docPartSize = size := rfl
  unfold setDocSize
  split
  · rw [partSize]
    decide
  split
  · rw [partSize]
    decide
  split
  · rw [partSize]
    decide
  split
  · rw [partSize]
    decide
  · rw [partSize]

theorem docPartSize_ofSource (source : Source) :
    (ofSource source).docPartSize ≤ documentUploadPartSize4 := by
  unfold ofSource
  split
  · exact docPartSize_setDocSize _ _
  · exact Nat.zero_le _

theorem places_piece {file : File} {part : Nat × Bytes} {rest : List (Nat × Bytes)}
    (pieces : file.parts.parts.entries = part :: rest)
    (small : ∀ part ∈ file.parts.parts.eraseFirst.entries, part.2.length ≤ photoUploadPartSize) :
    file.places = .piece part.1 part.2 ::
      { file with parts := ⟨file.parts.parts.eraseFirst, small⟩ }.places := by
  unfold places
  rw [pieces, entries_eraseFirst, pieces, tail_cons, map_cons, cons_append]
  rfl

theorem places_document {file read : File} (pieces : file.parts.parts.entries = [])
    (left : ¬(file.docSentParts : Int) ≥ file.docPartsCount) (source : read.source = file.source)
    (parts : read.parts = file.parts) (count : read.docPartsCount = file.docPartsCount)
    (size : read.docPartSize = file.docPartSize) :
    file.places = .document file.docSentParts (file.documentContent file.docSentParts) ::
      { read with docSentParts := file.docSentParts + 1 }.places := by
  have more : (file.docPartsCount - file.docSentParts).toNat =
      (file.docPartsCount - (file.docSentParts + 1 : Nat)).toNat + 1 := by
    omega
  have contents : { read with docSentParts := file.docSentParts + 1 }.documentContent =
      file.documentContent := by
    funext number
    unfold documentContent
    rw [source, size]
  unfold places
  rw [contents]
  rw [parts, count, pieces, more, range'_succ]
  rfl

theorem places_eq_nil {file : File} (pieces : file.parts.parts.entries = [])
    (all : (file.docSentParts : Int) ≥ file.docPartsCount) : file.places = [] := by
  unfold places
  rw [pieces, Int.toNat_eq_zero.mpr (by omega)]
  rfl

/-- Reading a part changes what was read and hashed, and the part is that of the content. -/
theorem readPart_spec {world : World} {file read : File} {toSend : Bytes}
    (taken : file.readPart world = some (toSend, read)) :
    toSend.length ≤ file.docPartSize ∧
      (Place.document file.docSentParts (file.documentContent file.docSentParts)).Fits toSend ∧
      read.source = file.source ∧ read.parts = file.parts ∧
      read.docPartsCount = file.docPartsCount ∧ read.docPartSize = file.docPartSize := by
  obtain ⟨part, sized⟩ := filter_eq_some_iff.mp taken
  have short : toSend.length ≤ file.docPartSize := by
    simp only [Bool.not_eq_true', decide_eq_false_iff_not, not_or] at sized
    omega
  cases content : file.documentContent file.docSentParts with
  | some bytes =>
    rw [content] at part
    cases part
    exact ⟨short, rfl, rfl, rfl, rfl, rfl⟩
  | none =>
    rw [content] at part
    obtain ⟨position, -, same⟩ := map_eq_some_iff.mp part
    cases same
    exact ⟨short, trivial, rfl, rfl, rfl, rfl⟩

end File

/-- What was sent of a queued file and what is left of it are the file. -/
structure Account.Follows (account : Account) (file : File) : Prop where
  small : file.docPartSize ≤ documentUploadPartSize4
  left : ∃ start, account.file = some start ∧
    account.sent.map Prod.fst ++ file.places = start.places
  fits : ∀ part ∈ account.sent, part.1.Fits part.2

namespace Uploader

variable {world : World} {uploader next : Uploader} {file : File} {dc : Dc}

def currentPartSize (uploader : Uploader) : Nat :=
  ((uploader.queue.find? uploader.uploadingId).map File.docPartSize).getD 0

/-- The counters are exact, and what was told of each file follows its state. -/
structure Sound (uploader : Uploader) : Prop where
  traffic : uploader.toTraffic.Exact uploader.currentPartSize
  room : uploader.sentSize.toNat ≤ maxUploadFileParallelSize + documentUploadPartSize4
  set : ∀ entry ∈ uploader.queue.entries, isSet entry.1 = true
  current : isSet uploader.uploadingId = true →
    uploader.queue.contains uploader.uploadingId = true
  busy : ∀ requestId, uploader.dcMap.contains requestId = true →
    isSet uploader.uploadingId = true
  files : ∀ entry ∈ uploader.queue.entries, (accountOf uploader.log entry.1).Follows entry.2
  waiting : ∀ entry ∈ uploader.queue.entries, ∀ requestId,
    requestId ∈ (accountOf uploader.log entry.1).waiting ↔
      entry.1 = uploader.uploadingId ∧ uploader.dcMap.contains requestId = true
  complete : Complete uploader.log

theorem sound_initial : Sound {} where
  traffic := Traffic.exact_initial _
  room := Nat.zero_le _
  set _ member := absurd member not_mem_nil
  current set := absurd set Bool.false_ne_true
  busy _ known := absurd known Bool.false_ne_true
  files _ member := absurd member not_mem_nil
  waiting _ member := absurd member not_mem_nil
  complete := by
    intro before msgId ready after split
    simp at split

theorem currentPartSize_of_find? (found : uploader.queue.find? uploader.uploadingId = some file) :
    uploader.currentPartSize = file.docPartSize := by
  unfold currentPartSize
  rw [found]
  rfl

section

variable (sound : uploader.Sound)
include sound

theorem Sound.find?_current (set : isSet uploader.uploadingId = true) :
    ∃ file, uploader.queue.find? uploader.uploadingId = some file :=
  isSome_iff_exists.mp (sound.current set)

theorem Sound.emptied {happenings : List Happening} {queue : FlatMap FullMsgId File}
    {msgId : FullMsgId}
    (less : ∀ entry ∈ queue.entries,
      entry ∈ uploader.queue.entries ∧ entry.1 ≠ uploader.uploadingId)
    (quiet : ∀ happening ∈ happenings, happening.isQuiet = true) (unset : isSet msgId = false)
    (stopSessionsTimer : Bool) :
    Sound
      { uploader with
        toTraffic := {}
        queue
        uploadingId := msgId
        stopSessionsTimer
        log := uploader.log ++ happenings } := by
  obtain ⟨complete, same⟩ := append_quiet sound.complete quiet
  refine ⟨Traffic.exact_initial _, Nat.zero_le _,
    fun entry member => sound.set entry (less entry member).1,
    fun set => absurd set (ne_true_of_eq_false unset),
    fun _ known => absurd known Bool.false_ne_true, fun entry member => ?_,
    fun entry member requestId => ?_, complete⟩
  · rw [same]
    exact sound.files entry (less entry member).1
  · obtain ⟨old, other⟩ := less entry member
    rw [same, sound.waiting entry old]
    exact iff_of_false (fun both => other both.1) (fun both => Bool.false_ne_true both.2)

theorem Sound.dropCurrent : uploader.dropCurrent.Sound := by
  have emptied (failures : List Happening)
      (quiet : ∀ happening ∈ failures, happening.isQuiet = true) :=
    sound.emptied (fun entry member => mem_erase.mp member)
      (fun happening member => (mem_append.mp member).elim (quiet happening)
        (uploader.quiet_cancellations happening))
      (rfl : isSet noMsgId = false) uploader.stopSessionsTimer
  simp only [← append_assoc] at emptied
  refine emptied _ ?_
  intro happening failed
  split at failed
  · rw [mem_singleton.mp failed]
    rfl
  · cases failed

theorem Sound.reportReady (found : uploader.queue.find? uploader.uploadingId = some file)
    (sent : file.places = []) (pieces : uploader.requestsSent.isEmpty = true)
    (documents : uploader.docRequestsSent.isEmpty = true) :
    (uploader.reportReady world file).Sound := by
  have member := find?_eq_some.mp found
  have idle : ∀ requestId, uploader.dcMap.contains requestId = false := by
    intro requestId
    rw [← Bool.not_eq_true, sound.traffic.dcMap, FlatMap.isEmpty_iff.mp pieces,
      FlatMap.isEmpty_iff.mp documents]
    simp
  have same : accountOf (uploader.log ++
      [.ready uploader.uploadingId (file.ready world)]) = accountOf uploader.log := by
    funext msgId
    rw [accountOf_append]
    rfl
  refine ⟨sound.traffic.of_idle idle, sound.room,
    fun entry inside => sound.set entry (mem_erase.mp inside).1,
    fun set => absurd set Bool.false_ne_true,
    fun requestId known => absurd known (ne_true_of_eq_false (idle requestId)),
    fun entry inside => ?_, fun entry inside requestId => ?_, sound.complete.append ?_⟩
  · dsimp only [Uploader.reportReady]
    rw [same]
    exact sound.files entry (mem_erase.mp inside).1
  · obtain ⟨old, other⟩ := mem_erase.mp inside
    dsimp only [Uploader.reportReady]
    rw [same, sound.waiting entry old]
    exact iff_of_false (fun both => other both.1)
      (fun both => ne_true_of_eq_false (idle requestId) both.2)
  · intro msgId ready own
    obtain ⟨rfl, -⟩ := Happening.ready.inj own
    have follows := sound.files _ member
    obtain ⟨start, loaded, whole⟩ := follows.left
    refine ⟨⟨start, loaded, ?_⟩, follows.fits, ?_⟩
    · rw [← whole, sent, append_nil]
    · apply eq_nil_iff_forall_not_mem.mpr
      intro requestId waits
      exact ne_true_of_eq_false (idle requestId) ((sound.waiting _ member requestId).mp waits).2

theorem Sound.sendPart {traffic : Traffic} {later : File} {place : Place} {bytes : Bytes}
    {request : Request} {requestId : RequestId} (set : isSet uploader.uploadingId = true)
    (found : uploader.queue.find? uploader.uploadingId = some file)
    (exact : traffic.Exact file.docPartSize)
    (room : traffic.sentSize.toNat ≤ maxUploadFileParallelSize + documentUploadPartSize4)
    (keys : traffic.dcMap = uploader.dcMap.emplace requestId dc)
    (size : later.docPartSize = file.docPartSize) (places : file.places = place :: later.places)
    (fits : place.Fits bytes) :
    (uploader.sendPart traffic later
      (.sent uploader.uploadingId place bytes request requestId dc)).Sound := by
  have member := find?_eq_some.mp found
  have account : ∀ msgId, accountOf (uploader.log ++
      [.sent uploader.uploadingId place bytes request requestId dc]) msgId =
      if uploader.uploadingId = msgId then
        { accountOf uploader.log msgId with
          sent := (accountOf uploader.log msgId).sent ++ [(place, bytes)]
          waiting := requestId :: (accountOf uploader.log msgId).waiting }
      else accountOf uploader.log msgId := fun msgId => accountOf_append _ _ msgId
  refine ⟨?_, room, fun entry inside => ?_, fun _ => contains_set.mpr (.inl rfl),
    fun _ _ => set, fun entry inside => ?_, fun entry inside key => ?_, sound.complete.append ?_⟩
  · rw [show currentPartSize _ = later.docPartSize from
      currentPartSize_of_find? find?_set_self, size]
    exact exact
  · rcases mem_set.mp inside with rfl | ⟨old, -⟩
    · exact set
    · exact sound.set entry old
  · dsimp only [Uploader.sendPart]
    rw [account]
    rcases mem_set.mp inside with rfl | ⟨old, other⟩
    · have follows := sound.files _ member
      obtain ⟨start, loaded, whole⟩ := follows.left
      rw [if_pos rfl]
      refine ⟨size ▸ follows.small, ⟨start, loaded, ?_⟩, fun part sent => ?_⟩
      · rw [map_append, append_assoc, ← whole, places]
        rfl
      · rcases mem_append.mp sent with before | now
        · exact follows.fits part before
        · rw [mem_singleton.mp now]
          exact fits
    · rw [if_neg (Ne.symm other)]
      exact sound.files entry old
  · dsimp only [Uploader.sendPart]
    rw [account, keys, contains_emplace]
    rcases mem_set.mp inside with rfl | ⟨old, other⟩
    · rw [if_pos rfl, mem_cons, sound.waiting _ member]
      simp
    · rw [if_neg (Ne.symm other), sound.waiting entry old]
      exact iff_of_false (fun both => other both.1) (fun both => other both.1)
  · intro msgId ready own
    cases own

end

theorem find?_of_current {msgId : FullMsgId} (current : uploader.current = some (msgId, file)) :
    uploader.queue.find? msgId = some file := by
  unfold Uploader.current at current
  split at current
  next found =>
    cases current
    split at found
    · exact found
    · cases found
  next => exact find?_eq_some.mpr (mem_of_head? current)

theorem Sound.select {msgId : FullMsgId} (sound : uploader.Sound)
    (current : uploader.current = some (msgId, file)) (stopSessionsTimer : Bool) :
    Sound { uploader with uploadingId := msgId, stopSessionsTimer } := by
  have found := find?_of_current current
  cases set : isSet uploader.uploadingId with
  | true =>
    obtain ⟨file, known⟩ := sound.find?_current set
    unfold Uploader.current at current
    rw [if_pos set, known] at current
    cases current
    exact { sound with }
  | false =>
    have idle : ∀ requestId, uploader.dcMap.contains requestId = false := by
      intro requestId
      apply Bool.eq_false_of_not_eq_true
      intro known
      rw [sound.busy requestId known] at set
      cases set
    refine ⟨sound.traffic.of_idle idle, sound.room, sound.set, fun _ => ?_, fun requestId known =>
      absurd known (ne_true_of_eq_false (idle requestId)), sound.files,
      fun entry member requestId => ?_, sound.complete⟩
    · exact contains_of_mem (find?_eq_some.mp found)
    · rw [sound.waiting entry member]
      exact iff_of_false (fun both => ne_true_of_eq_false (idle requestId) both.2)
        (fun both => ne_true_of_eq_false (idle requestId) both.2)

/-- What `sendNext` does is sound. -/
def Sending.Sound : Sending → Prop
  | .stop next => next.Sound
  | .again next => next.Sound

theorem room_sendPiece (below : uploader.sentSize.toNat < maxUploadFileParallelSize) {size : Nat}
    (small : size ≤ documentUploadPartSize4) :
    uploader.sentSize.toNat + size < 2 ^ 32 ∧
      (uploader.sentSize + UInt32.ofNat size).toNat ≤
        maxUploadFileParallelSize + documentUploadPartSize4 := by
  have bounds : maxUploadFileParallelSize = 1048576 ∧ documentUploadPartSize4 = 524288 :=
    ⟨rfl, rfl⟩
  have room : uploader.sentSize.toNat + size < 2 ^ 32 := by omega
  refine ⟨room, ?_⟩
  rw [Traffic.toNat_add room]
  omega

theorem Sound.sendFile (sound : uploader.Sound) (set : isSet uploader.uploadingId = true)
    (found : uploader.queue.find? uploader.uploadingId = some file)
    (below : uploader.sentSize.toNat < maxUploadFileParallelSize) :
    (uploader.sendFile world file).Sound := by
  have exact := sound.traffic
  rw [currentPartSize_of_find? found] at exact
  have fresh := world.fresh uploader.inFlight
  unfold Uploader.sendFile
  split
  next part rest pieces =>
    have small := file.parts.small part (by rw [pieces]; exact mem_cons_self)
    obtain ⟨room, within⟩ := room_sendPiece below
      (small.trans (Nat.le_of_ble_eq_true rfl : photoUploadPartSize ≤ documentUploadPartSize4))
    exact sound.sendPart set found (exact.sendPiece fresh room) within rfl rfl
      (File.places_piece pieces _) rfl
  next pieces =>
    split
    next all =>
      split
      next none => exact sound.reportReady found (File.places_eq_nil pieces all) none.1 none.2
      next => exact sound
    next left =>
      split
      next => exact sound.dropCurrent
      next toSend read taken =>
        obtain ⟨-, fits, source, parts, count, size⟩ := File.readPart_spec taken
        have small := (sound.files _ (find?_eq_some.mp found)).small
        obtain ⟨room, within⟩ := room_sendPiece below small
        exact sound.sendPart set found (exact.sendDocument fresh room) within rfl size
          (File.places_document pieces left source parts count size) fits

theorem Sound.trySend (sound : uploader.Sound) : (uploader.trySend world).Sound := by
  unfold Uploader.trySend
  split
  next => exact sound
  next ready =>
    rw [not_or, not_le] at ready
    split
    next => exact { sound with }
    next msgId file current =>
      have found := find?_of_current current
      have set := sound.set _ (find?_eq_some.mp found)
      exact (sound.select current false).sendFile set found ready.1

/-- The queue gets shorter each time that `sendNext` begins anew. -/
theorem size_of_again (again : uploader.trySend world = .again next) :
    next.queue.size < uploader.queue.size := by
  unfold Uploader.trySend at again
  split at again
  · cases again
  split at again
  · cases again
  next msgId file current =>
    have known := contains_of_mem (find?_eq_some.mp (find?_of_current current))
    unfold Uploader.sendFile at again
    split at again
    · cases again
    split at again
    · split at again
      · cases again
        exact size_erase_lt known
      · cases again
    · split at again
      · cases again
        exact size_erase_lt known
      · cases again

theorem sendNextOf_congr {first second : Nat} (enough : uploader.queue.size < first)
    (also : uploader.queue.size < second) :
    sendNextOf world first uploader = sendNextOf world second uploader := by
  induction first generalizing uploader second with
  | zero => cases enough
  | succ first ih =>
    cases second with
    | zero => cases also
    | succ second =>
      rw [sendNextOf, sendNextOf]
      cases tried : uploader.trySend world with
      | stop next => rfl
      | again next =>
        have less := size_of_again tried
        exact ih (by omega) (by omega)

/-- `sendNext` goes on for as long as it begins anew. -/
theorem sendNext_eq (world : World) (uploader : Uploader) :
    uploader.sendNext world =
      match uploader.trySend world with
      | .stop next => next
      | .again next => next.sendNext world := by
  rw [Uploader.sendNext, sendNextOf]
  cases tried : uploader.trySend world with
  | stop next => rfl
  | again next => exact sendNextOf_congr (size_of_again tried) (Nat.lt_succ_self _)

theorem Sound.sendNext (sound : uploader.Sound) : (uploader.sendNext world).Sound := by
  unfold Uploader.sendNext
  generalize uploader.queue.size + 1 = size
  induction size generalizing uploader with
  | zero => exact sound
  | succ size ih =>
    have tried : (uploader.trySend world).Sound := sound.trySend
    rw [sendNextOf]
    split
    next next stopped =>
      rw [stopped] at tried
      exact tried
    next next again =>
      rw [again] at tried
      exact ih tried

section

variable (sound : uploader.Sound)
include sound

theorem Sound.currentFailed : (uploader.currentFailed world).Sound :=
  sound.dropCurrent.sendNext

theorem Sound.enqueue {msgId : FullMsgId} {source : Source} (set : isSet msgId = true) :
    (uploader.enqueue world msgId source).Sound := by
  apply Sound.sendNext
  cases known : uploader.queue.contains msgId with
  | true =>
    rw [emplace_of_contains known, if_pos rfl]
    exact sound
  | false =>
    have fresh := contains_eq_false.mp known
    have other : uploader.uploadingId ≠ msgId ∨ isSet uploader.uploadingId = false := by
      cases current : isSet uploader.uploadingId with
      | true =>
        left
        rintro rfl
        rw [sound.current current] at known
        cases known
      | false => exact .inr rfl
    have apart : uploader.uploadingId ≠ msgId :=
      other.elim id fun unset same => ne_true_of_eq_false unset (same ▸ set)
    have account : ∀ id, accountOf (uploader.log ++ [.queued msgId (.ofSource source)]) id =
        if msgId = id then { file := some (.ofSource source) } else accountOf uploader.log id :=
      fun id => accountOf_append _ _ id
    rw [if_neg Bool.false_ne_true]
    refine ⟨?_, sound.room, fun entry inside => ?_, fun current => ?_, sound.busy,
      fun entry inside => ?_, fun entry inside requestId => ?_, sound.complete.append ?_⟩
    · unfold currentPartSize
      rw [find?_emplace_of_ne fresh apart]
      exact sound.traffic
    · rcases (mem_emplace fresh).mp inside with rfl | old
      · exact set
      · exact sound.set entry old
    · exact contains_emplace.mpr (.inr (sound.current current))
    · rw [account]
      rcases (mem_emplace fresh).mp inside with rfl | old
      · rw [if_pos rfl]
        exact ⟨File.docPartSize_ofSource source, ⟨_, rfl, rfl⟩,
          fun _ sent => absurd sent not_mem_nil⟩
      · rw [if_neg (Ne.symm (fresh entry old))]
        exact sound.files entry old
    · rw [account]
      rcases (mem_emplace fresh).mp inside with rfl | old
      · rw [if_pos rfl]
        exact iff_of_false not_mem_nil fun both => apart both.1.symm
      · rw [if_neg (Ne.symm (fresh entry old))]
        exact sound.waiting entry old requestId
    · intro id ready own
      cases own

theorem Sound.cancel {msgId : FullMsgId} : (uploader.cancel world msgId).Sound := by
  unfold Uploader.cancel
  split
  next => exact sound.currentFailed
  next other =>
    have same : (uploader.queue.erase msgId).find? uploader.uploadingId =
        uploader.queue.find? uploader.uploadingId := by
      rw [find?_erase, if_neg other]
    refine ⟨?_, sound.room, fun entry inside => sound.set entry (mem_erase.mp inside).1,
      fun set => contains_erase.mpr ⟨other, sound.current set⟩, sound.busy,
      fun entry inside => sound.files entry (mem_erase.mp inside).1,
      fun entry inside => sound.waiting entry (mem_erase.mp inside).1, sound.complete⟩
    unfold currentPartSize
    rw [same]
    exact sound.traffic

theorem Sound.paused (msgId : FullMsgId) :
    Sound { uploader with pausedId := msgId } := { sound with }

theorem Sound.failQueue (idle : isSet uploader.uploadingId = false) : uploader.failQueue.Sound := by
  have quiet : ∀ happening ∈ uploader.queue.entries.map (fun entry =>
      Happening.failed entry.1 entry.2.type) ++ uploader.cancellations,
      happening.isQuiet = true := by
    intro happening member
    rcases mem_append.mp member with failed | cancelled
    · obtain ⟨entry, -, rfl⟩ := mem_map.mp failed
      rfl
    · exact uploader.quiet_cancellations happening cancelled
  have none : ∀ entry ∈ (∅ : FlatMap FullMsgId File).entries,
      entry ∈ uploader.queue.entries ∧ entry.1 ≠ uploader.uploadingId :=
    fun _ member => absurd member not_mem_nil
  have emptied := sound.emptied none quiet idle false
  rw [← append_assoc] at emptied
  exact emptied

end

theorem currentFailed_of_paused (paused : isSet uploader.pausedId = true) :
    uploader.currentFailed world = uploader.dropCurrent := by
  have stopped : uploader.dropCurrent.trySend world = .stop uploader.dropCurrent :=
    if_pos (.inr paused)
  rw [Uploader.currentFailed, sendNext_eq, stopped]

theorem Sound.unpause (sound : uploader.Sound) : (uploader.unpause world).Sound :=
  (sound.paused noMsgId).sendNext

theorem Sound.cancelAll (sound : uploader.Sound) : (uploader.cancelAll world).Sound := by
  have drop : ∀ msgId, isSet msgId = true → (({ uploader with
      pausedId := msgId }.currentFailed world).failQueue.unpause world).Sound := by
    intro msgId set
    rw [currentFailed_of_paused set]
    exact ((sound.paused msgId).dropCurrent.failQueue rfl).unpause
  unfold Uploader.cancelAll
  split
  next =>
    split
    next set => exact drop _ set
    next => exact sound
  next single _ _ =>
    split
    next set =>
      split
      next => exact drop _ set
      next idle =>
        exact ((sound.paused single.1).failQueue (Bool.eq_false_of_not_eq_true idle)).unpause
    next => exact sound

theorem progress_spec (msgId : FullMsgId) (file : File) (size : Nat) :
    ∃ later happening, progress msgId file size = some (later, happening) ∧
      later.places = file.places ∧ later.docPartSize = file.docPartSize ∧
      happening.isQuiet = true := by
  unfold progress
  cases type : file.type with
  | photo => exact ⟨_, _, rfl, rfl, rfl, rfl⟩
  | file | themeFile | audio => exact ⟨_, _, rfl, rfl, rfl, rfl⟩
  | secure =>
    cases source : file.source with
    | media media =>
      rw [File.type, source] at type
      exact absurd type media.notSecure
    | file result =>
      refine ⟨_, _, rfl, ?_, rfl, rfl⟩
      rw [← source]
      rfl

theorem Sound.confirmPart (sound : uploader.Sound)
    (known : uploader.dcMap.find? requestId = some dc) :
    ∃ next, uploader.confirmPart requestId dc = some next ∧ next.Sound := by
  have set := sound.busy requestId (Traffic.contains_of_find? known)
  obtain ⟨file, found⟩ := sound.find?_current set
  have member := find?_eq_some.mp found
  have exact := sound.traffic
  rw [currentPartSize_of_find? found] at exact
  obtain ⟨later, happening, progressed, places, size, quiet⟩ :=
    progress_spec uploader.uploadingId file (uploader.confirm requestId dc file.docPartSize).2
  have account : ∀ msgId, accountOf (uploader.log ++ [.confirmed requestId]) msgId =
      { accountOf uploader.log msgId with
        waiting := (accountOf uploader.log msgId).waiting.filter fun other =>
          other ≠ requestId } := fun msgId => accountOf_append _ _ msgId
  have confirmed : Complete (uploader.log ++ [.confirmed requestId]) := by
    apply sound.complete.append
    intro msgId ready own
    cases own
  obtain ⟨complete, same⟩ := append_quiet confirmed fun other inside =>
    (mem_singleton.mp inside) ▸ quiet
  rw [append_assoc] at complete same
  unfold Uploader.confirmPart
  rw [found, bind_some, progressed, map_some]
  refine ⟨_, rfl, ?_, (exact.sentSize_confirm_le known).trans sound.room, fun entry inside => ?_,
    fun _ => contains_set.mpr (.inl rfl), fun _ _ => set, fun entry inside => ?_,
    fun entry inside key => ?_, complete⟩
  · rw [show currentPartSize _ = later.docPartSize from
      currentPartSize_of_find? find?_set_self, size]
    exact exact.confirm known
  · rcases mem_set.mp inside with rfl | ⟨old, -⟩
    · exact set
    · exact sound.set entry old
  · rw [show uploader.log ++ [.confirmed requestId, happening] =
      uploader.log ++ ([.confirmed requestId] ++ [happening]) from rfl, same, account]
    rcases mem_set.mp inside with rfl | ⟨old, -⟩
    · have follows := sound.files _ member
      exact ⟨size ▸ follows.small, places ▸ follows.left, follows.fits⟩
    · have follows := sound.files entry old
      exact { follows with }
  · rw [show uploader.log ++ [.confirmed requestId, happening] =
      uploader.log ++ ([.confirmed requestId] ++ [happening]) from rfl, same, account,
      Traffic.dcMap_confirm, contains_erase]
    obtain ⟨old, there, same⟩ : ∃ old ∈ uploader.queue.entries, old.1 = entry.1 := by
      rcases mem_set.mp inside with rfl | ⟨old, -⟩
      · exact ⟨_, member, rfl⟩
      · exact ⟨entry, old, rfl⟩
    rw [mem_filter, ← same, sound.waiting old there, decide_eq_true_eq, and_assoc]
    exact and_congr_right fun _ => and_comm

theorem Sound.partLoaded {result : Bool} (sound : uploader.Sound) :
    ∃ next, uploader.partLoaded world result requestId = some next ∧ next.Sound := by
  unfold Uploader.partLoaded
  split
  next waits =>
    split
    next =>
      split
      next => exact ⟨_, rfl, sound.currentFailed⟩
      next dc known =>
        obtain ⟨next, confirmed, sound⟩ := sound.confirmPart known
        rw [confirmed]
        exact ⟨_, rfl, sound.sendNext⟩
    next => exact ⟨_, rfl, sound.currentFailed⟩
  next => exact ⟨_, rfl, sound.sendNext⟩

/-- Every event keeps the account of the uploads. -/
theorem Sound.step {event : Event} (sound : uploader.Sound)
    (taken : uploader.step event = some next) : next.Sound := by
  obtain ⟨world, action⟩ := event
  cases action with
  | upload msgId set file =>
    cases taken
    exact sound.enqueue set
  | uploadMedia msgId set media =>
    cases taken
    exact sound.enqueue set
  | cancel msgId =>
    cases taken
    exact sound.cancel
  | cancelAll =>
    cases taken
    exact sound.cancelAll
  | pause msgId =>
    cases taken
    exact sound.paused msgId
  | unpause =>
    cases taken
    exact sound.unpause
  | nextTimer =>
    obtain ⟨-, same⟩ := ite_none_right_eq_some.mp taken
    cases same
    exact Sound.sendNext { sound with }
  | stopSessionsTimer =>
    obtain ⟨-, same⟩ := ite_none_right_eq_some.mp taken
    cases same
    exact { sound with }
  | partLoaded result requestId =>
    obtain ⟨later, loaded, laterSound⟩ :
        ∃ later, uploader.partLoaded world result requestId = some later ∧ later.Sound :=
      sound.partLoaded
    cases loaded.symm.trans taken
    exact laterSound
  | partFailed requestId =>
    cases taken
    unfold Uploader.partFailed
    split
    · exact sound.currentFailed.sendNext
    · exact sound.sendNext

/-- The counters are exact, the requests that wait for an answer are those of the file that is
being uploaded, which is in the queue, no answer finds it missing, and the files that were
reported were finished. -/
structure Exact (uploader : Uploader) : Prop where
  traffic : uploader.toTraffic.Exact uploader.currentPartSize
  current : ∀ requestId, uploader.dcMap.contains requestId = true →
    uploader.queue.contains uploader.uploadingId = true ∧
      requestId ∈ (accountOf uploader.log uploader.uploadingId).waiting
  loads : ∀ world result requestId, (uploader.partLoaded world result requestId).isSome = true
  complete : Complete uploader.log

theorem Sound.exact (sound : uploader.Sound) : uploader.Exact where
  traffic := sound.traffic
  current requestId known := by
    have set := sound.busy requestId known
    obtain ⟨file, found⟩ := sound.find?_current set
    exact ⟨sound.current set, (sound.waiting _ (find?_eq_some.mp found) requestId).mpr ⟨rfl, known⟩⟩
  loads world result requestId := by
    obtain ⟨next, loaded, -⟩ := sound.partLoaded
    exact isSome_iff_exists.mpr ⟨next, loaded⟩
  complete := sound.complete

/-- Every state of every run is exact. -/
theorem exact_of_run (events : List Event) : RunKeeps step Exact {} events :=
  (runKeeps_invariant (fun _ _ _ sound taken => Sound.step sound taken) events sound_initial).mono
    fun _ sound => sound.exact

end Uploader

end TelegramDesktop.Uploads
