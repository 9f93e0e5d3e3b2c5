import TelegramDesktop.DownloadManagerEffects

/-!
# The list of downloaded files on disk

What is read is the list that was written if every entry of it has a path.  One
entry without a path is enough for nothing to be read.
-/

namespace TelegramDesktop.Downloads

open List Option DataStream

namespace DownloadedId

/-- What is read back of a finished download. -/
def saved (entry : DownloadedId) : DownloadedId := { entry with object := none }

end DownloadedId

theorem readRecord_write (record : DownloadedRecord) (rest : Bytes) (ok : Bool) :
    readRecord ⟨writeRecord record ++ rest, ok⟩ = (record, ⟨rest, ok⟩) := by
  unfold readRecord writeRecord
  simp only [append_assoc, exact_uint64.read_write, exact_int32.read_write,
    exact_int64.read_write, exact_uint32.read_write, exact_qString.read_write]

theorem ofInt32_toInt32 (type : DownloadType) :
    DownloadType.ofInt32 type.toInt32 = some type := by
  cases type <;> rfl

theorem accepted?_accepted {record : DownloadedRecord} {entry : DownloadedId}
    (read : record.accepted? = some entry) : entry.Accepted ∧ entry.object = none := by
  unfold DownloadedRecord.accepted? at read
  split at read
  · cases read
  next checks =>
    obtain ⟨type, -, rfl⟩ := map_eq_some_iff.mp read
    obtain ⟨path, size, small⟩ : record.path.isEmpty = false ∧ record.size ≠ 0 ∧
        record.size.toNat ≤ maxFileSize := by
      simpa only [not_or, Bool.not_eq_true, not_lt] using checks
    refine ⟨⟨path, Nat.pos_of_ne_zero fun zero => size ?_, small⟩, rfl⟩
    exact UInt32.toNat_inj.mp zero

theorem accepted?_record {entry : DownloadedId} (positive : 0 < entry.size)
    (small : entry.size ≤ maxFileSize) :
    entry.record.accepted? = if entry.path.isEmpty then none else some entry.saved := by
  have bound : maxFileSize < 2 ^ 32 := by decide
  have size : (UInt32.ofNat entry.size).toNat = entry.size := by
    rw [UInt32.toNat_ofNat']
    exact Nat.mod_eq_of_lt (by omega)
  have nonzero : UInt32.ofNat entry.size ≠ 0 := by
    intro zero
    rw [zero] at size
    exact absurd size positive.ne
  unfold DownloadedRecord.accepted? DownloadedId.record
  rw [size, ofInt32_toInt32]
  cases empty : entry.path.isEmpty with
  | true => rw [if_pos (.inl rfl), if_pos rfl]
  | false =>
    rw [if_neg, if_neg Bool.false_ne_true]
    · rfl
    · rintro (path | zero | large)
      · exact absurd path Bool.false_ne_true
      · exact nonzero zero
      · omega

theorem readEntries_accepted {count : Nat} {stream : DataStream} {entries : List DownloadedId}
    (read : readEntries count stream = some entries) :
    entries.length = count ∧ ∀ entry ∈ entries, entry.Accepted ∧ entry.object = none := by
  induction count generalizing stream entries with
  | zero =>
    cases read
    exact ⟨rfl, nofun⟩
  | succ count ih =>
    unfold readEntries at read
    split at read
    · obtain ⟨entry, first, rest⟩ := bind_eq_some_iff.mp read
      obtain ⟨entries, more, rfl⟩ := map_eq_some_iff.mp rest
      obtain ⟨length, accepted⟩ := ih more
      refine ⟨by rw [length_cons, length], ?_⟩
      exact forall_mem_cons.mpr ⟨accepted?_accepted first, accepted⟩
    · cases read

theorem deserialize_accepted (serialized : Bytes) :
    (deserialize serialized).length ≤ maxCount ∧
      ∀ entry ∈ deserialize serialized, entry.Accepted ∧ entry.object = none := by
  unfold deserialize
  split
  · exact ⟨Nat.zero_le _, nofun⟩
  · dsimp only
    split
    · exact ⟨Nat.zero_le _, nofun⟩
    · cases read : readEntries (readInt32 ⟨serialized, true⟩).1.toInt.toNat
          (readInt32 ⟨serialized, true⟩).2 with
      | none => exact ⟨Nat.zero_le _, nofun⟩
      | some entries =>
        obtain ⟨length, accepted⟩ := readEntries_accepted read
        refine ⟨?_, accepted⟩
        rw [getD_some, length]
        omega

theorem readEntries_write {entries : List DownloadedId} (rest : Bytes)
    (sized : ∀ entry ∈ entries, 0 < entry.size ∧ entry.size ≤ maxFileSize) :
    readEntries entries.length
        ⟨(entries.flatMap fun entry => writeRecord entry.record) ++ rest, true⟩ =
      if ∃ entry ∈ entries, entry.path.isEmpty then none
      else some (entries.map DownloadedId.saved) := by
  induction entries with
  | nil => simp [readEntries]
  | cons entry entries ih =>
    obtain ⟨⟨positive, small⟩, others⟩ := forall_mem_cons.mp sized
    rw [length_cons, readEntries, flatMap_cons, append_assoc, readRecord_write, if_pos rfl]
    rw [ih others, accepted?_record positive small]
    cases empty : entry.path.isEmpty with
    | true => simp [empty]
    | false =>
      rw [if_neg Bool.false_ne_true]
      by_cases marked : ∃ other ∈ entries, other.path.isEmpty = true
      · rw [if_pos marked, if_pos]
        · rfl
        · obtain ⟨other, member, deleted⟩ := marked
          exact ⟨other, mem_cons_of_mem _ member, deleted⟩
      · rw [if_neg marked, if_neg]
        · rfl
        · rintro ⟨other, member, deleted⟩
          rcases mem_cons.mp member with rfl | later
          · rw [empty] at deleted
            cases deleted
          · exact marked ⟨other, later, deleted⟩

theorem deserialize_serializator {listing : Listing}
    (sized : ∀ entry ∈ listing.downloaded, 0 < entry.size ∧ entry.size ≤ maxFileSize)
    (few : listing.downloaded.length ≤ maxCount) :
    deserialize (serializator listing) =
      if ∃ entry ∈ listing.downloaded, entry.path.isEmpty then []
      else listing.downloaded.map DownloadedId.saved := by
  have bound : maxCount < 2 ^ 31 := by decide
  have count : (UInt32.ofNat listing.downloaded.length).toInt32.toInt =
      listing.downloaded.length := toInt_size (by omega)
  have nonempty : (serializator listing).isEmpty = false := by
    unfold serializator
    rw [isEmpty_eq_false_iff, ne_eq, append_eq_nil_iff, not_and]
    intro none
    have length := length_writeSize listing.downloaded.length
    rw [none] at length
    cases length
  unfold deserialize
  rw [nonempty, if_neg Bool.false_ne_true]
  unfold serializator
  rw [readInt32_writeSize]
  dsimp only
  have written := readEntries_write [] sized
  rw [append_nil] at written
  rw [count, Int.toNat_natCast, written]
  by_cases none : listing.downloaded = []
  · rw [none]
    split <;> rfl
  · have positive := length_pos_iff.mpr none
    rw [if_neg]
    · split <;> rfl
    · rintro (bad | few' | many)
      · cases bad
      · have small := Int32.le_iff_toInt_le.mp few'
        rw [count] at small
        have zero : (0 : Int32).toInt = 0 := rfl
        omega
      · omega

/-- What was read from any bytes is saved as it is. -/
theorem deserialize_saved_again (serialized : Bytes) :
    deserialize (serializator { downloaded := deserialize serialized }) =
      deserialize serialized := by
  obtain ⟨few, accepted⟩ := deserialize_accepted serialized
  have sized : ∀ entry ∈ deserialize serialized, 0 < entry.size ∧ entry.size ≤ maxFileSize :=
    fun entry member => ⟨(accepted entry member).1.positive, (accepted entry member).1.small⟩
  rw [deserialize_serializator sized few, if_neg]
  · have saved : ∀ entry ∈ deserialize serialized, entry.saved = entry := by
      intro entry member
      rw [DownloadedId.saved, ← (accepted entry member).2]
    exact (map_congr_left saved).trans (List.map_id' _)
  · rintro ⟨entry, member, empty⟩
    rw [(accepted entry member).1.path] at empty
    cases empty

end TelegramDesktop.Downloads
