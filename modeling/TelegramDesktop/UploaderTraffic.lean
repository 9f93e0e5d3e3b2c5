import TelegramDesktop.Uploader

/-!
# The counters of uploads

What the counters say is being sent is what the requests that wait for an answer send, in
all and over each session.
-/

namespace TelegramDesktop.Uploads

open FlatMap Function

namespace Traffic

variable {traffic : Traffic} {partSize : Nat} {requestId : RequestId} {dc : Dc}

/-- What the requests send together, with parts of this size of the document -/
def sending (traffic : Traffic) (partSize : Nat) : Nat :=
  traffic.requestsSent.total (fun _ bytes => bytes.length) +
    traffic.docRequestsSent.size * partSize

/-- The bytes in flight over a session. -/
def sendingOver (traffic : Traffic) (partSize : Nat) (dc : Dc) : Nat :=
  traffic.requestsSent.total (fun requestId bytes =>
      if traffic.dcMap.find? requestId = some dc then bytes.length else 0) +
    traffic.docRequestsSent.total fun requestId _ =>
      if traffic.dcMap.find? requestId = some dc then partSize else 0

/-- The counters say what is being sent, over all and over each data center. -/
structure Exact (traffic : Traffic) (partSize : Nat) : Prop where
  sentSize : traffic.sentSize.toNat = traffic.sending partSize
  sentSizes : ∀ dc, (traffic.sentSizes dc).toNat = traffic.sendingOver partSize dc
  dcMap : ∀ requestId, traffic.dcMap.contains requestId = true ↔
    traffic.requestsSent.contains requestId = true ∨
      traffic.docRequestsSent.contains requestId = true
  apart : ∀ requestId, traffic.requestsSent.contains requestId = true →
    traffic.docRequestsSent.contains requestId = false

theorem exact_initial (partSize : Nat) : Exact {} partSize where
  sentSize := by
    simp [sending, size]
  sentSizes dc := by
    simp [sendingOver]
  dcMap requestId := by
    simp
  apart requestId sent := by
    simp at sent

theorem sendingOver_le (traffic : Traffic) (partSize : Nat) (dc : Dc) :
    traffic.sendingOver partSize dc ≤ traffic.sending partSize := by
  unfold sendingOver sending
  rw [← total_const]
  apply Nat.add_le_add
  · apply total_le_total
    intro requestId bytes
    split <;> omega
  · apply total_le_total
    intro requestId number
    split <;> omega

theorem mem_inFlight : requestId ∈ traffic.inFlight ↔
    traffic.requestsSent.contains requestId = true ∨
      traffic.docRequestsSent.contains requestId = true := by
  simp [inFlight, contains_iff]

variable {size : Nat}

theorem toNat_add {count : UInt32} (room : count.toNat + size < 2 ^ 32) :
    (count + UInt32.ofNat size).toNat = count.toNat + size := by
  rw [UInt32.toNat_add, UInt32.toNat_ofNat', Nat.mod_eq_of_lt (by omega : size < 2 ^ 32),
    Nat.mod_eq_of_lt room]

theorem toNat_sub {count : UInt32} (enough : size ≤ count.toNat) :
    (count - UInt32.ofNat size).toNat = count.toNat - size := by
  have small := count.toNat_lt
  have same : (UInt32.ofNat size).toNat = size := by
    rw [UInt32.toNat_ofNat', Nat.mod_eq_of_lt (by omega)]
  rw [UInt32.toNat_sub_of_le _ _ (by rw [UInt32.le_iff_toNat_le, same]; exact enough), same]

section

variable {before after : Traffic} (exact : before.Exact partSize)
  (sentSize : after.sentSize = before.sentSize) (sentSizes : after.sentSizes = before.sentSizes)
  (dcMap : ∀ requestId, after.dcMap.contains requestId = true ↔
    after.requestsSent.contains requestId = true ∨
      after.docRequestsSent.contains requestId = true)
  (apart : ∀ requestId, after.requestsSent.contains requestId = true →
    after.docRequestsSent.contains requestId = false)

include exact sentSize sentSizes dcMap apart

theorem Exact.addSize (room : before.sentSize.toNat + size < 2 ^ 32)
    (sending : after.sending partSize = before.sending partSize + size)
    (session : ∀ other, after.sendingOver partSize other =
      before.sendingOver partSize other + if other = dc then size else 0) :
    (after.addSize dc size).Exact partSize where
  sentSize := by
    change (after.sentSize + UInt32.ofNat size).toNat = after.sending partSize
    rw [sentSize, toNat_add room, sending, exact.sentSize]
  sentSizes other := by
    change (update after.sentSizes dc
      (after.sentSizes dc + UInt32.ofNat size) other).toNat = after.sendingOver partSize other
    rw [session, ← exact.sentSizes, sentSizes, update_apply]
    split
    next same =>
      rw [same]
      apply toNat_add
      have below := before.sendingOver_le partSize dc
      rw [← exact.sentSizes, ← exact.sentSize] at below
      omega
    next => rfl
  dcMap := dcMap
  apart := apart

theorem Exact.subSize (sending : before.sending partSize = after.sending partSize + size)
    (session : ∀ other, before.sendingOver partSize other =
      after.sendingOver partSize other + if other = dc then size else 0) :
    (after.subSize dc size).Exact partSize where
  sentSize := by
    change (after.sentSize - UInt32.ofNat size).toNat = after.sending partSize
    have counted := exact.sentSize
    rw [sentSize, toNat_sub (by omega)]
    omega
  sentSizes other := by
    change (update after.sentSizes dc
      (after.sentSizes dc - UInt32.ofNat size) other).toNat = after.sendingOver partSize other
    have counted := exact.sentSizes other
    have taken := session other
    rw [sentSizes, update_apply]
    split
    next same =>
      rw [if_pos same] at taken
      rw [← same, toNat_sub (by omega)]
      omega
    next different =>
      rw [if_neg different] at taken
      omega
  dcMap := dcMap
  apart := apart

end

theorem contains_of_find? {map : FlatMap RequestId Dc} (found : map.find? requestId = some dc) :
    map.contains requestId = true := by
  rw [contains, found]
  rfl

theorem Exact.fresh (exact : traffic.Exact partSize) (fresh : requestId ∉ traffic.inFlight) :
    traffic.requestsSent.contains requestId = false ∧
      traffic.docRequestsSent.contains requestId = false ∧
      traffic.dcMap.find? requestId = none := by
  rw [mem_inFlight, not_or] at fresh
  have unknown := mt (exact.dcMap requestId).mp (not_or.mpr fresh)
  exact ⟨Bool.eq_false_of_not_eq_true fresh.1, Bool.eq_false_of_not_eq_true fresh.2,
    Option.not_isSome_iff_eq_none.mp unknown⟩

variable {sessions : FlatMap RequestId Dc}

theorem total_other {γ : Type} {map : FlatMap RequestId γ} {other : Dc} (weight : γ → Nat)
    (absent : map.contains requestId = false) {later : FlatMap RequestId Dc}
    (same : ∀ key ≠ requestId, later.find? key = sessions.find? key) :
    (map.total fun key value => if later.find? key = some other then weight value else 0) =
    map.total fun key value => if sessions.find? key = some other then weight value else 0 := by
  apply total_congr
  intro key value found
  rw [same key]
  rintro rfl
  rw [contains, found] at absent
  cases absent

theorem find?_emplace_other (unknown : sessions.find? requestId = none) (dc : Dc) :
    ∀ key ≠ requestId, (sessions.emplace requestId dc).find? key = sessions.find? key := by
  intro key different
  rw [emplace_eq_set unknown, find?_set, if_neg different]

theorem find?_emplaced {other : Dc} (unknown : sessions.find? requestId = none) :
    (sessions.emplace requestId dc).find? requestId = some other ↔ other = dc := by
  rw [emplace_eq_set unknown, find?_set_self, Option.some.injEq, eq_comm]

theorem Exact.sendPiece {bytes : Bytes} (exact : traffic.Exact partSize)
    (fresh : requestId ∉ traffic.inFlight) (room : traffic.sentSize.toNat + bytes.length < 2 ^ 32) :
    (traffic.sendPiece requestId dc bytes).Exact partSize := by
  obtain ⟨noPiece, noDocument, unknown⟩ := exact.fresh fresh
  refine exact.addSize rfl rfl ?_ ?_ room ?_ ?_
  · intro key
    rw [contains_emplace, contains_emplace, exact.dcMap]
    exact (or_assoc).symm
  · intro key
    rw [contains_emplace]
    rintro (rfl | known)
    · exact noDocument
    · exact exact.apart key known
  · unfold sending
    dsimp only
    rw [total_emplace _ noPiece]
    omega
  · intro other
    unfold sendingOver
    have same := find?_emplace_other unknown dc
    rw [total_emplace _ noPiece, total_other (fun bytes : Bytes => bytes.length) noPiece same,
      total_other (fun _ => partSize) noDocument same, if_congr (find?_emplaced unknown) rfl rfl]
    omega

theorem Exact.sendDocument {number : Nat} (exact : traffic.Exact partSize)
    (fresh : requestId ∉ traffic.inFlight) (room : traffic.sentSize.toNat + partSize < 2 ^ 32) :
    (traffic.sendDocument requestId dc number partSize).Exact partSize := by
  obtain ⟨noPiece, noDocument, unknown⟩ := exact.fresh fresh
  refine exact.addSize rfl rfl ?_ ?_ room ?_ ?_
  · intro key
    rw [contains_emplace, contains_emplace, exact.dcMap]
    exact or_left_comm
  · intro key known
    rw [← Bool.not_eq_true, contains_emplace, not_or]
    refine ⟨?_, ne_true_of_eq_false (exact.apart key known)⟩
    rintro rfl
    rw [noPiece] at known
    cases known
  · unfold sending
    dsimp only
    rw [← total_const, ← total_const, total_emplace _ noDocument]
    omega
  · intro other
    unfold sendingOver
    have same := find?_emplace_other unknown dc
    rw [total_emplace _ noDocument, total_other (fun bytes : Bytes => bytes.length) noPiece same,
      total_other (fun _ => partSize) noDocument same, if_congr (find?_emplaced unknown) rfl rfl]
    omega

theorem contains_erase_self {γ : Type} {map : FlatMap RequestId γ} :
    (map.erase requestId).contains requestId = false := by
  rw [← Bool.not_eq_true, contains_erase]
  exact fun known => known.1 rfl

theorem dcMap_confirm (traffic : Traffic) (requestId : RequestId) (dc : Dc) (partSize : Nat) :
    (traffic.confirm requestId dc partSize).1.dcMap = traffic.dcMap.erase requestId := by
  unfold Traffic.confirm
  split <;> rfl

theorem Exact.confirm (exact : traffic.Exact partSize)
    (found : traffic.dcMap.find? requestId = some dc) :
    (traffic.confirm requestId dc partSize).1.Exact partSize := by
  have session : ∀ other, traffic.dcMap.find? requestId = some other ↔ other = dc := by
    intro other
    rw [found, Option.some.injEq, eq_comm]
  have same : ∀ key ≠ requestId,
      (traffic.dcMap.erase requestId).find? key = traffic.dcMap.find? key :=
    fun key different => find?_erase.trans (if_neg different)
  unfold Traffic.confirm
  cases piece : traffic.requestsSent.find? requestId with
  | some bytes =>
    have known : traffic.requestsSent.contains requestId = true := by
      rw [contains, piece]
      rfl
    have noDocument := exact.apart requestId known
    refine exact.subSize rfl rfl ?_ ?_ ?_ ?_
    · intro key
      rw [contains_erase, contains_erase, exact.dcMap]
      constructor
      · rintro ⟨different, known | known⟩
        · exact .inl ⟨different, known⟩
        · exact .inr known
      · rintro (⟨different, known⟩ | other)
        · exact ⟨different, .inl known⟩
        · refine ⟨?_, .inr other⟩
          rintro rfl
          rw [noDocument] at other
          cases other
    · intro key
      rw [contains_erase]
      rintro ⟨-, known⟩
      exact exact.apart key known
    · unfold sending
      dsimp only
      rw [total_erase _ piece]
      omega
    · intro other
      unfold sendingOver
      rw [total_erase _ piece,
        total_other (fun bytes : Bytes => bytes.length) contains_erase_self same,
        total_other (fun _ => partSize) noDocument same, if_congr (session other) rfl rfl]
      omega
  | none =>
    have noPiece : traffic.requestsSent.contains requestId = false := by
      rw [contains, piece]
      rfl
    obtain ⟨number, document⟩ :
        ∃ number, traffic.docRequestsSent.find? requestId = some number := by
      rcases (exact.dcMap requestId).mp (contains_of_find? found) with known | known
      · rw [noPiece] at known
        cases known
      · exact Option.isSome_iff_exists.mp known
    refine exact.subSize rfl rfl ?_ ?_ ?_ ?_
    · intro key
      rw [contains_erase, contains_erase, exact.dcMap]
      constructor
      · rintro ⟨different, known | known⟩
        · exact .inl known
        · exact .inr ⟨different, known⟩
      · rintro (known | ⟨different, known⟩)
        · refine ⟨?_, .inl known⟩
          rintro rfl
          rw [noPiece] at known
          cases known
        · exact ⟨different, .inr known⟩
    · intro key known
      rw [← Bool.not_eq_true, contains_erase]
      rintro ⟨-, document⟩
      rw [exact.apart key known] at document
      cases document
    · unfold sending
      dsimp only
      rw [← total_const, ← total_const, total_erase _ document]
      omega
    · intro other
      unfold sendingOver
      rw [total_erase _ document, total_other (fun bytes : Bytes => bytes.length) noPiece same,
        total_other (fun _ => partSize) contains_erase_self same, if_congr (session other) rfl rfl]
      omega

theorem Exact.sentSize_confirm_le (exact : traffic.Exact partSize)
    (found : traffic.dcMap.find? requestId = some dc) :
    (traffic.confirm requestId dc partSize).1.sentSize.toNat ≤ traffic.sentSize.toNat := by
  rw [(exact.confirm found).sentSize, exact.sentSize]
  unfold Traffic.confirm
  cases piece : traffic.requestsSent.find? requestId with
  | some bytes =>
    apply Nat.add_le_add_right
    rw [total_erase _ piece]
    exact Nat.le_add_left _ _
  | none =>
    apply Nat.add_le_add_left
    exact Nat.mul_le_mul_right _ size_erase_le

theorem Exact.of_idle {other : Nat} (exact : traffic.Exact partSize)
    (idle : ∀ requestId, traffic.dcMap.contains requestId = false) : traffic.Exact other := by
  have none : traffic.docRequestsSent = ∅ := by
    apply ext_find?
    intro requestId
    apply Option.not_isSome_iff_eq_none.mp
    intro known
    have sent := (exact.dcMap requestId).mpr (.inr known)
    rw [idle] at sent
    cases sent
  refine ⟨?_, fun dc => ?_, exact.dcMap, exact.apart⟩
  · rw [exact.sentSize, sending, sending, none]
    simp [size]
  · rw [exact.sentSizes, sendingOver, sendingOver, none]
    simp

end Traffic

end TelegramDesktop.Uploads
