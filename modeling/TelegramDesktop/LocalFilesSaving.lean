import TelegramDesktop.LocalFilesRoundTrip

/-!
# Saving a file over an older version

A save that is interrupted leaves the older version or the new one, unless the older
one is kept under the legacy name that is written in place.
-/

namespace TelegramDesktop

open StoredFiles List Function Option

variable {Key : Type*} {crypto : LocalCrypto Key} {files : StoredFiles}

/-- The data of a file's content. -/
def contentData (crypto : LocalCrypto Key) (content : Bytes) : Option Bytes :=
  (readContent crypto content).map FileReadDescriptor.data

theorem contentData_nil (crypto : LocalCrypto Key) : contentData crypto [] = none := rfl

namespace StoredFiles

/-- The data that is read back. -/
def readData (crypto : LocalCrypto Key) (files : StoredFiles) : Option Bytes :=
  (files.readFile crypto).map fun read => read.1.data

theorem readData_eq (crypto : LocalCrypto Key) (files : StoredFiles) :
    files.readData crypto = files.toTry.findSome? fun name =>
      (files name).bind fun file => contentData crypto file.content := by
  unfold readData readFile
  rw [Option.map_map, map_findSome?]
  congr 1
  funext name
  simp only [readOne, contentData, Function.comp_apply, Option.map_map]
  cases files name with
  | none => rfl
  | some file => cases readContent crypto file.content <;> rfl

theorem readData_safe (file : StoredFile) (safe : files .safe = some file) :
    files.readData crypto = contentData crypto file.content := by
  rw [readData_eq, toTry, safe]
  simp [safe]

theorem readData_simple (file : StoredFile) (safe : files .safe = none)
    (simple : files .simple = some file) (backup : files .backup = none) :
    files.readData crypto = contentData crypto file.content := by
  rw [readData_eq, toTry, safe, simple, backup]
  simp [simple]

theorem readData_legacy {file older : StoredFile} (safe : files .safe = none)
    (simple : files .simple = some file) (backup : files .backup = some older) :
    files.readData crypto =
      if file.lastModified < older.lastModified then
        contentData crypto older.content <|> contentData crypto file.content
      else contentData crypto file.content <|> contentData crypto older.content := by
  rw [readData_eq, toTry, safe, simple, backup]
  have two : ∀ (first second : Postfix) (read : Postfix → Option Bytes),
      [first, second].findSome? read = (read first <|> read second) := by
    intro first second read
    simp only [findSome?]
    cases read first <;> cases read second <;> rfl
  by_cases before : file.lastModified < older.lastModified
  · simp [before, two, simple, backup]
  · simp [before, two, simple, backup]

end StoredFiles

def partlyWritten (files : StoredFiles) (content : Bytes) (clock : Nat → Nat) (written : Nat) :
    StoredFiles :=
  Function.update files .simple
    (some { content := content.take written, lastModified := clock written })

theorem applyAll_append (files : StoredFiles) (first second : List FileStep) :
    files.applyAll (first ++ second) = (files.applyAll first).applyAll second :=
  foldl_append

theorem applyAll_appendSteps (files : StoredFiles) (content : Bytes) (clock : Nat → Nat)
    {written : Nat}
    (atMost : written ≤ content.length) :
    (partlyWritten files content clock 0).applyAll
        ((appendSteps .simple clock content).take written) =
      partlyWritten files content clock written := by
  induction written with
  | zero => rfl
  | succ written ih =>
    have inside : written < content.length := atMost
    have insideToo : written < (appendSteps .simple clock content).length := by
      rw [appendSteps, length_mapIdx]
      exact inside
    rw [take_succ_eq_append_getElem insideToo, applyAll_append, ih (le_of_lt inside)]
    simp only [appendSteps, getElem_mapIdx, applyAll, foldl_cons, foldl_nil, FileStep.apply,
      partlyWritten, update_self, map_some, update_idem, ← take_succ_eq_append_getElem inside]

/-- What a save that is interrupted after some steps leaves. -/
def WriteEntry.interrupted (entry : WriteEntry) (files : StoredFiles) (outcome : WriteOutcome)
    (clock : Nat → Nat) (steps : Nat) : StoredFiles :=
  files.applyAll ((entry.writeNow outcome clock).take steps)

section Interrupted

variable {entry : WriteEntry} {outcome : WriteOutcome} {clock : Nat → Nat}

theorem interrupted_committed (entry : WriteEntry) (files : StoredFiles) (clock : Nat → Nat)
    (committed : outcome.saveOpens ∧ outcome.saveCommits) (steps : Nat) :
    (entry.interrupted files outcome clock (steps + 1)) .safe =
      some { content := entry.content, lastModified := clock 0 } := by
  unfold WriteEntry.interrupted WriteEntry.writeNow
  rw [if_pos committed]
  rcases steps with _ | _ | steps <;> simp [applyAll, FileStep.apply, remove]

section

variable (uncommitted : ¬(outcome.saveOpens ∧ outcome.saveCommits))
include uncommitted

theorem interrupted_unopened (unopened : ¬outcome.plainOpens) (steps : Nat) :
    entry.interrupted files outcome clock steps = files := by
  unfold WriteEntry.interrupted WriteEntry.writeNow
  rw [if_neg uncommitted, if_neg unopened, take_nil]
  rfl

theorem interrupted_partly (opened : outcome.plainOpens) {written : Nat}
    (atMost : written ≤ entry.content.length) :
    entry.interrupted files outcome clock (written + 1) =
      partlyWritten files entry.content clock written := by
  unfold WriteEntry.interrupted WriteEntry.writeNow
  rw [if_neg uncommitted, if_pos opened, cons_append, take_succ_cons,
    take_append_of_le_length (by simpa [appendSteps] using atMost)]
  exact applyAll_appendSteps files entry.content clock atMost

theorem interrupted_written (opened : outcome.plainOpens) (steps : Nat) :
    entry.interrupted files outcome clock (entry.content.length + 1 + steps) =
      (partlyWritten files entry.content clock entry.content.length).applyAll
        ([.remove .backup, if outcome.renames then .renameWithOverwrite .simple .safe
          else .remove .safe].take steps) := by
  have length : (appendSteps .simple clock entry.content).length = entry.content.length :=
    length_mapIdx
  unfold WriteEntry.interrupted WriteEntry.writeNow
  rw [if_neg uncommitted, if_pos opened, Nat.add_right_comm, cons_append,
    take_succ_cons, take_append, take_of_length_le (by omega), length,
    Nat.add_sub_cancel_left, ← cons_append, applyAll_append]
  congr 1
  have whole := applyAll_appendSteps files entry.content clock (Nat.le_refl _)
  rw [← length, take_length, length] at whole
  exact whole

end

end Interrupted

section Versions

variable {entry : WriteEntry} {outcome : WriteOutcome} {old : Bytes}

/-- The old content or the new one is read. -/
def IsVersion (old new : Bytes) (read : Option Bytes) : Prop := read = some old ∨ read = some new

/-- The save goes through the safe file or writes nothing, or the older version is not
under the name that is written in place, and no part of the new file passes as another
one. -/
def WriteEntry.SavesSafely (crypto : LocalCrypto Key) (entry : WriteEntry)
    (files : StoredFiles) (outcome : WriteOutcome) (old : Bytes) : Prop :=
  (outcome.saveOpens ∧ outcome.saveCommits) ∨ ¬outcome.plainOpens ∨ (files .safe).isSome ∨
    ((∃ backup, files .backup = some backup ∧
        IsVersion old entry.data (contentData crypto backup.content)) ∧
      ∀ written, contentData crypto (entry.content.take written) ≠ none →
        IsVersion old entry.data (contentData crypto (entry.content.take written)))

/-- While the plain file is written, the safe file or the backup still has a version. -/
theorem isVersion_partly (clock : Nat → Nat) (written : Nat)
    (safe : ∀ file, files .safe = some file → contentData crypto file.content = some old)
    (backup : files .safe = none →
      ∃ file, files .backup = some file ∧
        IsVersion old entry.data (contentData crypto file.content))
    (part : files .safe = none → contentData crypto (entry.content.take written) ≠ none →
      IsVersion old entry.data (contentData crypto (entry.content.take written))) :
    IsVersion old entry.data
      ((partlyWritten files entry.content clock written).readData crypto) := by
  cases safeEq : files .safe with
  | some file =>
    left
    rw [readData_safe _ (by simpa [partlyWritten] using safeEq)]
    exact safe file safeEq
  | none =>
    obtain ⟨file, backupEq, version⟩ := backup safeEq
    unfold partlyWritten
    rw [readData_legacy (by simpa using safeEq) (update_self ..) (by simpa using backupEq)]
    have readable : contentData crypto file.content ≠ none := by
      rcases version with version | version <;> simp [version]
    obtain ⟨data, dataEq⟩ := ne_none_iff_exists'.mp readable
    split
    · rw [dataEq] at version ⊢
      exact version
    · cases partEq : contentData crypto (entry.content.take written) with
      | none =>
        rw [dataEq] at version ⊢
        exact version
      | some read =>
        rw [partEq] at part
        exact part safeEq (by simp)

/-- After the plain file is written, the safe name has the older version or is given up
for the new one. -/
theorem isVersion_written (valid : contentData crypto entry.content = some entry.data)
    (clock : Nat → Nat) (steps : Nat)
    (safe : ∀ file, files .safe = some file → contentData crypto file.content = some old) :
    IsVersion old entry.data
      (((partlyWritten files entry.content clock entry.content.length).applyAll
        ([.remove .backup, if outcome.renames then .renameWithOverwrite .simple .safe
          else .remove .safe].take (steps + 1))).readData crypto) := by
  rw [take_succ_cons]
  rcases steps with _ | steps
  · cases safeEq : files .safe with
    | some file =>
      left
      rw [readData_safe file]
      · exact safe file safeEq
      · simpa [applyAll, FileStep.apply, remove, partlyWritten] using safeEq
    | none =>
      right
      rw [readData_simple ⟨entry.content, clock entry.content.length⟩]
      · exact valid
      all_goals simp [applyAll, FileStep.apply, remove, partlyWritten, safeEq]
  · right
    rw [take_succ_cons, take_nil]
    by_cases renames : outcome.renames
    · rw [readData_safe ⟨entry.content, clock entry.content.length⟩]
      · exact valid
      · simp [applyAll, FileStep.apply, remove, partlyWritten, renames]
    · rw [readData_simple ⟨entry.content, clock entry.content.length⟩]
      · exact valid
      all_goals simp [applyAll, FileStep.apply, remove, partlyWritten, renames]

theorem isVersion_interrupted (valid : contentData crypto entry.content = some entry.data)
    (reads : files.readData crypto = some old)
    (safely : entry.SavesSafely crypto files outcome old) (clock : Nat → Nat) (steps : Nat) :
    IsVersion old entry.data
      ((entry.interrupted files outcome clock steps).readData crypto) := by
  rcases steps with _ | steps
  · exact .inl reads
  by_cases committed : outcome.saveOpens ∧ outcome.saveCommits
  · right
    rw [readData_safe _ (interrupted_committed entry files clock committed steps)]
    exact valid
  by_cases opened : outcome.plainOpens
  case neg =>
    rw [interrupted_unopened committed opened]
    exact .inl reads
  have safe : ∀ file, files .safe = some file → contentData crypto file.content = some old := by
    intro file safeEq
    rw [← readData_safe _ safeEq]
    exact reads
  have legacy := (safely.resolve_left committed).resolve_left (not_not.mpr opened)
  by_cases partly : steps ≤ entry.content.length
  · rw [interrupted_partly committed opened partly]
    apply isVersion_partly clock steps safe
    · intro safeEq
      exact (legacy.resolve_left (by simp [safeEq])).1
    · intro safeEq
      exact (legacy.resolve_left (by simp [safeEq])).2 steps
  · obtain ⟨more, rfl⟩ := Nat.exists_eq_add_of_lt (Nat.lt_of_not_le partly)
    have split : entry.content.length + more + 1 + 1 = entry.content.length + 1 + (more + 1) := by
      omega
    rw [split, interrupted_written committed opened]
    exact isVersion_written valid clock more safe

theorem savesSafely_of_interrupted
    (kept : ∀ clock steps, IsVersion old entry.data
      ((entry.interrupted files outcome clock steps).readData crypto)) :
    entry.SavesSafely crypto files outcome old := by
  by_contra exposed
  simp only [WriteEntry.SavesSafely, not_or, not_not] at exposed
  obtain ⟨uncommitted, opened, unsaved, unkept⟩ := exposed
  have safeEq : files .safe = none := by simpa using unsaved
  have partly : ∀ clock written, written ≤ entry.content.length → IsVersion old entry.data
      ((partlyWritten files entry.content clock written).readData crypto) := by
    intro clock written atMost
    rw [← interrupted_partly uncommitted opened atMost]
    exact kept clock _
  apply unkept
  cases backupEq : files .backup with
  | none =>
    -- Nothing is left when the file is opened.
    have opening := partly (fun _ => 0) 0 (Nat.zero_le _)
    unfold partlyWritten at opening
    rw [readData_simple _ (by simpa using safeEq) (update_self ..)
      (by simpa using backupEq), take_zero, contentData_nil] at opening
    rcases opening with version | version <;> cases version
  | some file =>
    -- A plain file that is not older than the backup is tried first.
    have tried : ∀ written, written ≤ entry.content.length → IsVersion old entry.data
        (contentData crypto (entry.content.take written) <|>
          contentData crypto file.content) := by
      intro written atMost
      have version := partly (fun _ => file.lastModified) written atMost
      unfold partlyWritten at version
      rw [readData_legacy (by simpa using safeEq) (update_self ..)
        (by simpa using backupEq), if_neg (lt_irrefl _)] at version
      exact version
    constructor
    · refine ⟨file, rfl, ?_⟩
      have version := tried 0 (Nat.zero_le _)
      rw [take_zero, contentData_nil] at version
      exact version
    · intro written readable
      have atMost : entry.content.take written =
          entry.content.take (min written entry.content.length) := by
        rw [← take_eq_take_min]
      rw [atMost] at readable ⊢
      have version := tried (min written entry.content.length) (min_le_right ..)
      obtain ⟨data, dataEq⟩ := ne_none_iff_exists'.mp readable
      rw [dataEq] at version ⊢
      exact version

/-- Every interruption of a save leaves the older version or the new one, exactly if the
save is safe. -/
theorem interrupted_iff {Key : Type*} {crypto : LocalCrypto Key} {files : StoredFiles}
    {old : Bytes} (reads : files.readData crypto = some old) (calls : List (WriteCall Key))
    (small : (WriteCall.stream crypto calls).length < 2 ^ 31) (outcome : WriteOutcome) :
    (∀ clock steps, IsVersion old (WriteCall.stream crypto calls)
      ((((WriteCall.applyAll crypto calls).finish crypto).interrupted files outcome clock
        steps).readData crypto)) ↔
    ((WriteCall.applyAll crypto calls).finish crypto).SavesSafely crypto files outcome old := by
  have data : ((WriteCall.applyAll crypto calls).finish crypto).data =
      WriteCall.stream crypto calls := (WriteCall.applyAll_spec crypto calls).2
  have valid : contentData crypto ((WriteCall.applyAll crypto calls).finish crypto).content =
      some ((WriteCall.applyAll crypto calls).finish crypto).data := by
    rw [contentData, readContent_finish calls small, data]
    rfl
  rw [← data]
  constructor
  · exact savesSafely_of_interrupted
  · exact isVersion_interrupted valid reads

/-- A file with one byte array, under a cipher that leaves its data alone. -/
def oneByteArray (data : Option Bytes) : WriteEntry :=
  (WriteCall.applyAll (default : LocalCrypto Unit) [.writeData data]).finish
    (default : LocalCrypto Unit)

/-- One file and no other. -/
def StoredFiles.only (name : Postfix) (content : Bytes) : StoredFiles :=
  Function.update (fun _ => none) name (some { content := content, lastModified := 0 })

/-- The older version is under the safe name, and the plain file is written. -/
theorem interrupted_iff_safe :
    (StoredFiles.only .safe (oneByteArray (some [1])).content).readData
        (default : LocalCrypto Unit) = some [0, 0, 0, 1, 1] ∧
      ∀ clock steps, IsVersion [0, 0, 0, 1, 1]
        (WriteCall.stream (default : LocalCrypto Unit) [.writeData none])
        (((oneByteArray none).interrupted
          (StoredFiles.only .safe (oneByteArray (some [1])).content) ⟨true, false, true, false⟩
            clock steps).readData (default : LocalCrypto Unit)) := by
  have reads : (only .safe (oneByteArray (some [1])).content).readData
      (default : LocalCrypto Unit) = some [0, 0, 0, 1, 1] := by decide +kernel
  refine ⟨reads, (interrupted_iff reads [.writeData none] (by decide) _).mpr ?_⟩
  exact .inr (.inr (.inl rfl))

/-- The only version is under the legacy name `0`, the save file is not committed, and
the save is interrupted after the plain file is opened. -/
theorem interrupted_loses_legacy :
    (StoredFiles.only .simple (oneByteArray (some [1])).content).readData
        (default : LocalCrypto Unit) = some [0, 0, 0, 1, 1] ∧
      ((oneByteArray none).interrupted
        (StoredFiles.only .simple (oneByteArray (some [1])).content) ⟨true, false, true, true⟩
          id 1).readData (default : LocalCrypto Unit) = none := by
  decide +kernel

end Versions

theorem readFile_single {name : Postfix} {file : StoredFile} (tried : files.toTry = [name])
    (stored : files name = some file) :
    (files.readFile crypto).map Prod.fst = readContent crypto file.content := by
  unfold readFile readOne
  rw [tried, findSome?_singleton, stored, bind_some]
  cases readContent crypto file.content <;> rfl

theorem applyAll_writeNow (files : StoredFiles) (entry : WriteEntry) {outcome : WriteOutcome}
    (writes : (outcome.saveOpens ∧ outcome.saveCommits) ∨ outcome.plainOpens) (clock : Nat → Nat) :
    ∃ name file, (files.applyAll (entry.writeNow outcome clock)).toTry = [name] ∧
      (files.applyAll (entry.writeNow outcome clock)) name = some file ∧
      file.content = entry.content := by
  have all : entry.interrupted files outcome clock (entry.writeNow outcome clock).length =
      files.applyAll (entry.writeNow outcome clock) := by
    rw [WriteEntry.interrupted, take_length]
  rw [← all]
  by_cases committed : outcome.saveOpens ∧ outcome.saveCommits
  · have length : (entry.writeNow outcome clock).length = 2 + 1 := by
      rw [WriteEntry.writeNow, if_pos committed]
      rfl
    rw [length]
    have safe := interrupted_committed entry files clock committed 2
    refine ⟨.safe, _, ?_, safe, rfl⟩
    rw [toTry, safe]
    rfl
  · have opened : outcome.plainOpens := writes.resolve_left committed
    have length : (entry.writeNow outcome clock).length = entry.content.length + 1 + 2 := by
      rw [WriteEntry.writeNow, if_neg committed, if_pos opened]
      simp [appendSteps]
    rw [length, interrupted_written committed opened]
    by_cases renames : outcome.renames
    · refine ⟨.safe, ⟨entry.content, clock entry.content.length⟩, ?_, ?_, rfl⟩
      all_goals simp [toTry, applyAll, FileStep.apply, remove, partlyWritten, renames]
    · refine ⟨.simple, ⟨entry.content, clock entry.content.length⟩, ?_, ?_, rfl⟩
      all_goals simp [toTry, applyAll, FileStep.apply, remove, partlyWritten, renames]

/-- What is written to a file that is saved is read from it, what is encrypted is
decrypted, and the length of what is accepted lies in the last 16 bytes of its block. -/
theorem localFiles_roundTrip {Key : Type*} (crypto : LocalCrypto Key) :
    (∀ calls, (WriteCall.stream crypto calls).length < 2 ^ 31 →
      ∀ files outcome clock, (outcome.saveOpens ∧ outcome.saveCommits) ∨ outcome.plainOpens →
        ((StoredFiles.applyAll files (((WriteCall.applyAll crypto calls).finish crypto).writeNow
          outcome clock)).readFile crypto).map Prod.fst =
            some { version := appVersion, data := WriteCall.stream crypto calls }) ∧
      (∀ key random payload, payload.length < 2 ^ 31 →
        ∃ result, crypto.decryptLocal key (crypto.prepareEncrypted key random
          (LocalCrypto.encryptedDescriptor payload)) = some result ∧
            result.pos = 4 ∧ result.rest = payload) ∧
      ∀ key encrypted result, crypto.decryptLocal key encrypted = some result →
        ∃ dataLen, dataLen = ofLittleEndian ((crypto.decryptedBlock key encrypted).take 4) ∧
          (crypto.decryptedBlock key encrypted).length - 16 < dataLen ∧
          dataLen ≤ (crypto.decryptedBlock key encrypted).length ∧ 4 ≤ dataLen ∧
          result = { data := (crypto.decryptedBlock key encrypted).take dataLen, pos := 4 } := by
  refine ⟨?_, ?_, ?_⟩
  · intro calls small files outcome clock writes
    obtain ⟨name, file, tried, stored, content⟩ := applyAll_writeNow files
      ((WriteCall.applyAll crypto calls).finish crypto) writes clock
    rw [readFile_single tried stored, content]
    exact readContent_finish calls small
  · intro key random payload small
    refine ⟨_, LocalCrypto.decryptLocal_prepareEncrypted key random small, rfl, ?_⟩
    exact drop_left' (length_memory32 _)
  · intro key encrypted result accepted
    exact LocalCrypto.length_of_decryptLocal accepted

end TelegramDesktop
