import TelegramDesktop.DcOptionsSerialization
import Mathlib.Data.List.Perm.Subperm

/-!
# Lists of options from the server

A list from the server replaces the stored options or is added to them.
-/

namespace TelegramDesktop.DcOptions

open List Option Int32

/-- What tells addresses of a data center apart. -/
def address (endpoint : Endpoint) : Bytes × Int32 := (endpoint.ip, endpoint.port)

theorem sameAddress_iff {first second : Endpoint} :
    sameAddress first second = true ↔ address first = address second := by
  rw [sameAddress, Bool.and_eq_true, decide_eq_true_eq, decide_eq_true_eq, address, address,
    Prod.mk.injEq]

/-- The addresses of a data center, none where it is missing. -/
def stored (data : Data) (dcId : DcId) : List Endpoint := (data.find? dcId).getD []

def ofDc (endpoints : List Endpoint) (dcId : DcId) : List Endpoint :=
  endpoints.filter fun endpoint => endpoint.id = dcId

/-- A list of endpoints of one data center, whatever these are. -/
structure Placed (dcId : DcId) (list : List Endpoint) : Prop where
  filled : list ≠ []
  own : ∀ endpoint ∈ list, endpoint.id = dcId
  distinct : (list.map address).Nodup

/-- The addresses of every data center are its own. -/
def AllPlaced (data : Data) : Prop :=
  ∀ dcId list, data.find? dcId = some list → Placed dcId list

theorem mem_addEndpoint {list : List Endpoint} {endpoint other : Endpoint}
    (member : other ∈ addEndpoint list endpoint) : other ∈ list ∨ other = endpoint := by
  unfold addEndpoint at member
  split at member
  · exact .inl member
  · rcases mem_append.mp member with old | isNew
    · exact .inl old
    · exact .inr (mem_singleton.mp isNew)

theorem addEndpoint_distinct {list : List Endpoint} (endpoint : Endpoint)
    (distinct : (list.map address).Nodup) :
    ((addEndpoint list endpoint).map address).Nodup := by
  unfold addEndpoint
  split
  · exact distinct
  next fresh =>
    rw [map_append, map_singleton, nodup_append]
    refine ⟨distinct, pairwise_singleton _ _, ?_⟩
    rintro known isKnown added isAdded same
    obtain ⟨other, member, isAddress⟩ := mem_map.mp isKnown
    rw [mem_singleton] at isAdded
    exact fresh (any_eq_true.mpr
      ⟨other, member, sameAddress_iff.mpr (by rw [isAddress, same, isAdded])⟩)

theorem addEndpoint_ne_nil (list : List Endpoint) (endpoint : Endpoint) :
    addEndpoint list endpoint ≠ [] := by
  unfold addEndpoint
  split
  next known =>
    rintro rfl
    cases known
  · exact append_ne_nil_of_right_ne_nil _ (cons_ne_nil _ _)

theorem allPlaced_empty : AllPlaced ∅ := by
  intro dcId list found
  cases found

theorem AllPlaced.applyOneOption {data : Data} (placed : AllPlaced data)
    (endpoint : Endpoint) : AllPlaced (applyOneOption data endpoint).1 := by
  rw [applyOneOption_data]
  apply FlatMap.forall_amend placed
  have before : (∀ other ∈ stored data endpoint.id, other.id = endpoint.id) ∧
      ((stored data endpoint.id).map address).Nodup := by
    unfold stored
    cases found : data.find? endpoint.id with
    | none => exact ⟨fun other member => absurd member not_mem_nil, nodup_nil⟩
    | some list => exact ⟨(placed _ _ found).own, (placed _ _ found).distinct⟩
  refine ⟨addEndpoint_ne_nil _ _, fun other member => ?_, addEndpoint_distinct _ before.2⟩
  rcases mem_addEndpoint member with old | rfl
  · exact before.1 other old
  · rfl

theorem AllPlaced.applyAll {data : Data} (placed : AllPlaced data)
    (endpoints : List Endpoint) : AllPlaced (applyAll data endpoints) := by
  induction endpoints generalizing data with
  | nil => exact placed
  | cons endpoint endpoints ih => exact ih (placed.applyOneOption endpoint)

theorem find?_applyAll (data : Data) (endpoints : List Endpoint) (dcId : DcId) :
    (applyAll data endpoints).find? dcId =
      if ofDc endpoints dcId = [] then data.find? dcId
      else some ((ofDc endpoints dcId).foldl addEndpoint (stored data dcId)) := by
  rw [applyAll_eq]
  induction endpoints generalizing data with
  | nil => rfl
  | cons endpoint endpoints ih =>
    rw [map_cons, foldl_cons, ih]
    unfold ofDc stored
    rw [FlatMap.find?_amend, labelledEndpoint]
    by_cases same : endpoint.id = dcId
    · have head : (endpoint :: endpoints).filter (fun other => other.id = dcId) =
          endpoint :: endpoints.filter fun other => other.id = dcId :=
        filter_cons_of_pos (decide_eq_true same)
      rw [head, if_pos same.symm, if_neg (cons_ne_nil _ _), foldl_cons, same, getD_some]
      split
      next none =>
        rw [none]
        rfl
      · rfl
    · have head : (endpoint :: endpoints).filter (fun other => other.id = dcId) =
          endpoints.filter fun other => other.id = dcId :=
        filter_cons_of_neg (by simpa using same)
      rw [head, if_neg (Ne.symm same)]

theorem stored_applyAll (data : Data) (endpoints : List Endpoint) (dcId : DcId) :
    stored (applyAll data endpoints) dcId =
      (ofDc endpoints dcId).foldl addEndpoint (stored data dcId) := by
  unfold stored
  rw [find?_applyAll]
  split
  next none =>
    rw [none]
    rfl
  · rfl

/-- Endpoints are only added, and afterwards there is one at the address of each. -/
theorem foldl_addEndpoint_spec (list added : List Endpoint) :
    (∃ rest, added.foldl addEndpoint list = list ++ rest) ∧
      ∀ endpoint ∈ added, ∃ other ∈ added.foldl addEndpoint list,
        address other = address endpoint := by
  induction added generalizing list with
  | nil => exact ⟨⟨[], (append_nil _).symm⟩, fun _ member => absurd member not_mem_nil⟩
  | cons endpoint added ih =>
    obtain ⟨⟨rest, whole⟩, others⟩ := ih (addEndpoint list endpoint)
    rw [foldl_cons]
    have step : (∃ new, addEndpoint list endpoint = list ++ new) ∧
        ∃ other ∈ addEndpoint list endpoint, address other = address endpoint := by
      unfold addEndpoint
      split
      next known =>
        obtain ⟨other, member, same⟩ := any_eq_true.mp known
        exact ⟨⟨[], (append_nil _).symm⟩, other, member, sameAddress_iff.mp same⟩
      · exact ⟨⟨_, rfl⟩, endpoint, mem_append_right _ (mem_singleton_self _), rfl⟩
    obtain ⟨⟨new, isNew⟩, other, isOther, same⟩ := step
    refine ⟨⟨new ++ rest, ?_⟩, ?_⟩
    · rw [whole, isNew, append_assoc]
    · intro wanted member
      rcases mem_cons.mp member with rfl | later
      · exact ⟨other, by rw [whole]; exact mem_append_left _ isOther, same⟩
      · exact others wanted later

/-- The endpoints under an id among entries in the order of their ids. -/
def endpointsAt (entries : List (DcId × List Endpoint)) (dcId : DcId) : Option (List Endpoint) :=
  (entries.find? fun entry => entry.1 = dcId).map Prod.snd

/-- Both are missing, or they have the same addresses. -/
def Alike : Option (List Endpoint) → Option (List Endpoint) → Prop
  | none, none => True
  | some m, some n => sameAddresses m n = true
  | _, _ => False

/-- The data centers by their increasing ids. -/
abbrev Ordered (entries : List (DcId × List Endpoint)) : Prop :=
  entries.Pairwise fun first second => first.1 < second.1

theorem endpointsAt_cons (entry : DcId × List Endpoint) (entries : List (DcId × List Endpoint))
    (dcId : DcId) : endpointsAt (entry :: entries) dcId =
      if entry.1 = dcId then some entry.2 else endpointsAt entries dcId := by
  unfold endpointsAt
  rw [find?_cons]
  by_cases same : entry.1 = dcId
  · rw [decide_eq_true same, if_pos same]
    rfl
  · rw [decide_eq_false same, if_neg same]

theorem endpointsAt_eq_none {entries : List (DcId × List Endpoint)} {dcId : DcId}
    (above : ∀ entry ∈ entries, dcId < entry.1) : endpointsAt entries dcId = none := by
  unfold endpointsAt
  rw [map_eq_none_iff, find?_eq_none]
  intro entry member
  rw [decide_eq_true_eq]
  exact ne_of_gt (above entry member)

/-- A result for two sequences: there is none if only one of them has the mark for the end
as an id, else it has the ids whose endpoints are not alike. -/
structure IsDifference (as bs : List (DcId × List Endpoint)) (result : Option (List DcId)) :
    Prop where
  mark : result.isSome = true ↔
    (endpointsAt as Int32.maxValue).isSome = (endpointsAt bs Int32.maxValue).isSome
  ids : ∀ difference, result = some difference →
    ∀ dcId, dcId ∈ difference ↔ ¬ Alike (endpointsAt as dcId) (endpointsAt bs dcId)

section Difference

variable {as bs restA restB : List (DcId × List Endpoint)} {result : Option (List DcId)}
  {dcId : DcId}

/-- Both lists lose one data center, where they agree on whether the marker is there. -/
structure Passes (as bs restA restB : List (DcId × List Endpoint)) (dcId : DcId) : Prop where
  others : ∀ other, other ≠ dcId →
    endpointsAt as other = endpointsAt restA other ∧ endpointsAt bs other = endpointsAt restB other
  noneA : endpointsAt restA dcId = none
  noneB : endpointsAt restB dcId = none
  mark : dcId = Int32.maxValue →
    (endpointsAt as dcId).isSome = (endpointsAt bs dcId).isSome

theorem Passes.mark_iff (passes : Passes as bs restA restB dcId) :
    (endpointsAt as maxValue).isSome = (endpointsAt bs maxValue).isSome ↔
      (endpointsAt restA maxValue).isSome = (endpointsAt restB maxValue).isSome := by
  by_cases isMark : dcId = maxValue
  · have both := passes.mark isMark
    have noneA := passes.noneA
    have noneB := passes.noneB
    rw [isMark] at both noneA noneB
    rw [noneA, noneB]
    exact iff_of_true both rfl
  · obtain ⟨sameA, sameB⟩ := passes.others _ (Ne.symm isMark)
    rw [sameA, sameB]

theorem IsDifference.skip (rest : IsDifference restA restB result)
    (passes : Passes as bs restA restB dcId)
    (alike : Alike (endpointsAt as dcId) (endpointsAt bs dcId)) : IsDifference as bs result := by
  refine ⟨rest.mark.trans passes.mark_iff.symm, fun difference found other => ?_⟩
  rw [rest.ids difference found other]
  by_cases same : other = dcId
  · rw [same, passes.noneA, passes.noneB]
    exact iff_of_false (fun notAlike => notAlike trivial) (fun notAlike => notAlike alike)
  · rw [(passes.others other same).1, (passes.others other same).2]

theorem IsDifference.report (rest : IsDifference restA restB result)
    (passes : Passes as bs restA restB dcId)
    (notAlike : ¬ Alike (endpointsAt as dcId) (endpointsAt bs dcId)) :
    IsDifference as bs (result.map (dcId :: ·)) := by
  refine ⟨?_, fun difference found other => ?_⟩
  · rw [isSome_map]
    exact rest.mark.trans passes.mark_iff.symm
  · obtain ⟨later, isLater, rfl⟩ := map_eq_some_iff.mp found
    rw [mem_cons, rest.ids later isLater other]
    by_cases same : other = dcId
    · rw [same]
      exact iff_of_true (.inl rfl) notAlike
    · rw [(passes.others other same).1, (passes.others other same).2, or_iff_right same]

/-- No result where one side has the mark for the end as an id and the other has ended. -/
theorem isDifference_none
    (apart : (endpointsAt as maxValue).isSome ≠ (endpointsAt bs maxValue).isSome) :
    IsDifference as bs none :=
  ⟨iff_of_false Bool.false_ne_true apart, fun _ found => by cases found⟩

end Difference

variable {as bs : List (DcId × List Endpoint)}

theorem passes_left {a : DcId × List Endpoint}
    (ordered : Ordered (a :: as)) (below : a.1 < maxValue)
    (above : ∀ entry ∈ bs, a.1 < entry.1) : Passes (a :: as) bs as bs a.1 where
  others other different := by
    rw [endpointsAt_cons, if_neg (Ne.symm different)]
    exact ⟨rfl, rfl⟩
  noneA := endpointsAt_eq_none (pairwise_cons.mp ordered).1
  noneB := endpointsAt_eq_none above
  mark isMark := absurd isMark (ne_of_lt below)

theorem passes_right {b : DcId × List Endpoint}
    (ordered : Ordered (b :: bs)) (below : b.1 < maxValue)
    (above : ∀ entry ∈ as, b.1 < entry.1) : Passes as (b :: bs) as bs b.1 where
  others other different := by
    rw [endpointsAt_cons, if_neg (Ne.symm different)]
    exact ⟨rfl, rfl⟩
  noneA := endpointsAt_eq_none above
  noneB := endpointsAt_eq_none (pairwise_cons.mp ordered).1
  mark isMark := absurd isMark (ne_of_lt below)

theorem passes_both {a b : DcId × List Endpoint}
    (orderedA : Ordered (a :: as)) (orderedB : Ordered (b :: bs)) (same : a.1 = b.1) :
    Passes (a :: as) (b :: bs) as bs a.1 where
  others other different := by
    rw [endpointsAt_cons, endpointsAt_cons, ← same, if_neg (Ne.symm different),
      if_neg (Ne.symm different)]
    exact ⟨rfl, rfl⟩
  noneA := endpointsAt_eq_none (pairwise_cons.mp orderedA).1
  noneB := by
    rw [same]
    exact endpointsAt_eq_none (pairwise_cons.mp orderedB).1
  mark _ := by
    rw [endpointsAt_cons, endpointsAt_cons, if_pos rfl, if_pos same.symm]
    rfl

theorem le_mark (dcId : DcId) : dcId ≤ maxValue :=
  le_iff_toInt_le.mpr dcId.toInt_le

theorem isDifference_countOptionsDifference (as bs : List (DcId × List Endpoint))
    (orderedA : Ordered as) (orderedB : Ordered bs) :
    IsDifference as bs (countOptionsDifference as bs) := by
  have tail {entry : DcId × List Endpoint} {entries : List (DcId × List Endpoint)}
      (ordered : Ordered (entry :: entries)) : Ordered entries :=
    (pairwise_cons.mp ordered).2
  have after {entry other : DcId × List Endpoint} {entries : List (DcId × List Endpoint)}
      (ordered : Ordered (other :: entries)) (below : entry.1 < other.1) :
      ∀ later ∈ other :: entries, entry.1 < later.1 := by
    intro later member
    rcases mem_cons.mp member with rfl | isLater
    · exact below
    · exact lt_trans below ((pairwise_cons.mp ordered).1 later isLater)
  induction as, bs using countOptionsDifference.induct with
  | case1 =>
    unfold countOptionsDifference
    exact ⟨iff_of_true rfl rfl, fun difference found dcId => by
      cases found
      exact iff_of_false not_mem_nil fun notAlike => notAlike trivial⟩
  | case2 a as below ih =>
    unfold countOptionsDifference
    rw [if_pos below]
    apply (ih (tail orderedA) orderedB).report (passes_left orderedA below (by simp))
    rw [endpointsAt_cons, if_pos rfl]
    exact id
  | case3 a as notBelow =>
    unfold countOptionsDifference
    rw [if_neg notBelow]
    apply isDifference_none
    rw [endpointsAt_cons, if_pos (le_antisymm (le_mark _) (not_lt.mp notBelow))]
    exact Bool.noConfusion
  | case4 b bs below ih =>
    unfold countOptionsDifference
    rw [if_pos below]
    apply (ih orderedA (tail orderedB)).report (passes_right orderedB below (by simp))
    rw [endpointsAt_cons, if_pos rfl]
    exact id
  | case5 b bs notBelow =>
    unfold countOptionsDifference
    rw [if_neg notBelow]
    apply isDifference_none
    rw [endpointsAt_cons, if_pos (le_antisymm (le_mark _) (not_lt.mp notBelow))]
    exact Bool.noConfusion
  | case6 a as b bs below ih =>
    unfold countOptionsDifference
    rw [if_pos below]
    have above := after orderedB below
    apply (ih (tail orderedA) orderedB).report
      (passes_left orderedA (lt_of_lt_of_le below (le_mark _)) above)
    rw [endpointsAt_cons, if_pos rfl, endpointsAt_eq_none above]
    exact id
  | case7 a as b bs notBelow below ih =>
    unfold countOptionsDifference
    rw [if_neg notBelow, if_pos below]
    have above := after orderedA below
    apply (ih orderedA (tail orderedB)).report
      (passes_right orderedB (lt_of_lt_of_le below (le_mark _)) above)
    rw [endpointsAt_cons b, if_pos rfl, endpointsAt_eq_none above]
    exact id
  | case8 a as b bs notBelow notAbove same ih =>
    have sameId : a.1 = b.1 := le_antisymm (le_of_not_gt notAbove) (le_of_not_gt notBelow)
    unfold countOptionsDifference
    rw [if_neg notBelow, if_neg notAbove, if_pos same]
    apply (ih (tail orderedA) (tail orderedB)).skip (passes_both orderedA orderedB sameId)
    rw [endpointsAt_cons, endpointsAt_cons, if_pos rfl, if_pos sameId.symm]
    exact same
  | case9 a as b bs notBelow notAbove different ih =>
    have sameId : a.1 = b.1 := le_antisymm (le_of_not_gt notAbove) (le_of_not_gt notBelow)
    unfold countOptionsDifference
    rw [if_neg notBelow, if_neg notAbove, if_neg different]
    apply (ih (tail orderedA) (tail orderedB)).report (passes_both orderedA orderedB sameId)
    rw [endpointsAt_cons, endpointsAt_cons, if_pos rfl, if_pos sameId.symm]
    exact different

/-- Lists with distinct addresses are taken for equal if they have the same ones. -/
theorem sameAddresses_iff {m n : List Endpoint} (distinctM : (m.map address).Nodup)
    (distinctN : (n.map address).Nodup) :
    sameAddresses m n = true ↔ ∀ place, place ∈ m.map address ↔ place ∈ n.map address := by
  have found : (m.all fun endpoint => n.any fun other => sameAddress other endpoint) = true ↔
      m.map address ⊆ n.map address := by
    rw [List.all_eq_true]
    constructor
    · intro all place member
      obtain ⟨endpoint, endpointMem, rfl⟩ := mem_map.mp member
      obtain ⟨other, otherMem, same⟩ := any_eq_true.mp (all endpoint endpointMem)
      exact mem_map.mpr ⟨other, otherMem, sameAddress_iff.mp same⟩
    · intro inside endpoint member
      obtain ⟨other, otherMem, same⟩ := mem_map.mp (inside (mem_map_of_mem member))
      exact any_eq_true.mpr ⟨other, otherMem, sameAddress_iff.mpr same⟩
  rw [sameAddresses, Bool.and_eq_true, decide_eq_true_eq, found]
  constructor
  · rintro ⟨length, inside⟩ place
    have sizes : (n.map address).length ≤ (m.map address).length := by
      rw [length_map, length_map]
      exact Nat.le_of_eq length.symm
    exact ((distinctM.subperm inside).perm_of_length_le sizes).mem_iff
  · intro same
    have perm := (perm_ext_iff_of_nodup distinctM distinctN).mpr same
    have length := perm.length_eq
    rw [length_map, length_map] at length
    exact ⟨length, fun place member => (same place).mp member⟩

theorem alike_iff {first second : Data} (placedFirst : AllPlaced first)
    (placedSecond : AllPlaced second) (dcId : DcId) :
    Alike (first.find? dcId) (second.find? dcId) ↔
      ∀ place, place ∈ (stored first dcId).map address ↔
        place ∈ (stored second dcId).map address := by
  have filled {list : List Endpoint} (placed : Placed dcId list) :
      ∃ place, place ∈ list.map address := by
    obtain ⟨endpoint, rest, rfl⟩ := exists_cons_of_ne_nil placed.filled
    exact ⟨address endpoint, mem_cons_self⟩
  unfold stored
  cases foundFirst : first.find? dcId with
  | none =>
    cases foundSecond : second.find? dcId with
    | none => exact iff_of_true trivial fun place => Iff.rfl
    | some n =>
      obtain ⟨place, member⟩ := filled (placedSecond dcId n foundSecond)
      exact iff_of_false id fun same => not_mem_nil ((same place).mpr member)
  | some m =>
    cases foundSecond : second.find? dcId with
    | none =>
      obtain ⟨place, member⟩ := filled (placedFirst dcId m foundFirst)
      exact iff_of_false id fun same => not_mem_nil ((same place).mp member)
    | some n =>
      exact sameAddresses_iff (placedFirst dcId m foundFirst).distinct
        (placedSecond dcId n foundSecond).distinct

section Lists

variable {Key : Type*} (options : DcOptions Key) (list : List MTPDcOption)

/-- The addresses in a list of the server. -/
def listed : List Endpoint := list.filterMap MTPDcOption.endpoint?

/-- The ids that `processFromList` announces through `changed`. -/
def announced (overwrite : Bool) : Option (List DcId) :=
  if list.isEmpty || options.immutable then some []
  else
    countOptionsDifference options.data.entries
      (applyAll (if overwrite then ∅ else options.data)
        (list.filterMap MTPDcOption.endpoint?)).entries

/-- No address is listed twice for a data center. -/
def DistinctAddresses : Prop :=
  (listed list).Pairwise fun first second =>
    ¬(first.id = second.id ∧ address first = address second)

/-- The endpoints of a data center, as a set, are others afterwards. -/
def ChangedAt (next : DcOptions Key) (dcId : DcId) : Prop :=
  ∃ endpoint, ¬(endpoint ∈ stored options.data dcId ↔ endpoint ∈ stored next.data dcId)

/-- A list takes effect: set, it leaves exactly its endpoints, added, it leaves one at each
of its addresses, and either way the data centers that have changed are announced. -/
structure TakesEffect : Prop where
  set : ∃ next, options.setFromList list = some next ∧
    ∀ dcId endpoint, endpoint ∈ stored next.data dcId ↔
      endpoint ∈ listed list ∧ endpoint.id = dcId
  add : ∃ next, options.addFromList list = some next ∧
    ∀ endpoint ∈ listed list, ∃ other ∈ stored next.data endpoint.id,
      address other = address endpoint
  changed : ∀ overwrite, ∃ next ids, options.processFromList list overwrite = some next ∧
    options.announced list overwrite = some ids ∧
      ∀ dcId, options.ChangedAt next dcId → dcId ∈ ids

/-- What the comparison with the stored endpoints can tell: a data center that has the
listed addresses already has the listed flags and secrets as well, and the largest id is
stored if and only if it is listed. -/
structure Told : Prop where
  mark : stored options.data Int32.maxValue = [] ↔ ofDc (listed list) Int32.maxValue = []
  same : ∀ dcId,
    (∀ place, place ∈ (stored options.data dcId).map address ↔
      place ∈ (ofDc (listed list) dcId).map address) →
    ∀ first ∈ stored options.data dcId, ∀ second ∈ ofDc (listed list) dcId,
      address first = address second → first = second

/-- Options that were constructed and changed by any calls. -/
inductive Constructed : DcOptions Key → Prop
  | construct (environment : Environment) : Constructed (construct environment)
  | constructFromBuiltIn {options : DcOptions Key} (before : Constructed options) :
      Constructed options.constructFromBuiltIn
  | constructFromSerialized (rsa : RSAPublicKey Key) {options : DcOptions Key}
      (before : Constructed options) (serialized : Bytes) :
      Constructed (options.constructFromSerialized rsa serialized).1
  | constructAddOne {options : DcOptions Key} (before : Constructed options) (id : Int32)
      (flags : UInt32) (ip : Bytes) (port : Int32) (secret : Bytes) :
      Constructed (options.constructAddOne id flags ip port secret)
  | processFromList {options next : DcOptions Key} (before : Constructed options)
      (list : List MTPDcOption) (overwrite : Bool)
      (done : options.processFromList list overwrite = some next) : Constructed next
  | addFromOther {options other : DcOptions Key} (before : Constructed options)
      (otherBefore : Constructed other) : Constructed (options.addFromOther other)
  | setCDNConfig (rsa : RSAPublicKey Key) {options : DcOptions Key}
      (before : Constructed options) (config : List CdnPublicKey) :
      Constructed (options.setCDNConfig rsa config)

variable {options list}

theorem placed_readEndpoints (version : Int) (count : Nat) (stream : DataStream) {data : Data}
    (placed : AllPlaced data) : AllPlaced (readEndpoints version count stream data).1 := by
  induction count generalizing stream data with
  | zero => exact placed
  | succ count ih =>
    unfold readEndpoints
    split
    · exact placed
    · exact ih _ (placed.applyOneOption _)

/-- The options that are read are at their places. -/
theorem constructFromSerialized_spec (rsa : RSAPublicKey Key) (options : DcOptions Key)
    (serialized : Bytes) (placed : AllPlaced options.data) :
    AllPlaced (options.constructFromSerialized rsa serialized).1.data ∧
      (options.constructFromSerialized rsa serialized).1.immutable = options.immutable := by
  unfold constructFromSerialized
  generalize DataStream.readInt32 ⟨serialized, true⟩ = first
  obtain ⟨minusVersion, stream⟩ := first
  dsimp only
  generalize (if minusVersion < 0 then -minusVersion.toInt else 0) = version
  generalize (if 0 < version then stream.readInt32 else (minusVersion, stream)) = second
  obtain ⟨count, stream⟩ := second
  split
  · exact ⟨placed, rfl⟩
  · have readPlaced := placed_readEndpoints version count.toUInt32.toNat stream allPlaced_empty
    generalize readEndpoints version count.toUInt32.toNat stream ∅ = read at readPlaced ⊢
    obtain ⟨data, none | stream⟩ := read
    · exact ⟨readPlaced, rfl⟩
    · dsimp only
      split
      · split
        · exact ⟨readPlaced, rfl⟩
        · exact ⟨readPlaced, rfl⟩
      · exact ⟨readPlaced, rfl⟩

theorem processFromList_spec {overwrite : Bool} {next : DcOptions Key}
    (placed : AllPlaced options.data) (done : options.processFromList list overwrite = some next) :
    AllPlaced next.data ∧ next.immutable = options.immutable := by
  unfold processFromList at done
  split at done
  · cases done
    exact ⟨placed, rfl⟩
  · obtain ⟨difference, -, rfl⟩ := map_eq_some_iff.mp done
    split
    · exact ⟨placed, rfl⟩
    · refine ⟨AllPlaced.applyAll ?_ _, rfl⟩
      split
      · exact allPlaced_empty
      · exact placed

theorem Constructed.placed (constructed : Constructed options) :
    AllPlaced options.data ∧ options.immutable = false := by
  induction constructed with
  | construct environment => exact ⟨allPlaced_empty.applyAll _, rfl⟩
  | constructFromBuiltIn _ ih => exact ⟨allPlaced_empty.applyAll _, ih.2⟩
  | constructFromSerialized rsa _ serialized ih =>
    obtain ⟨placed, own⟩ := constructFromSerialized_spec rsa _ serialized ih.1
    exact ⟨placed, own.trans ih.2⟩
  | constructAddOne _ id flags ip port secret ih => exact ⟨ih.1.applyOneOption _, ih.2⟩
  | processFromList _ list overwrite done ih =>
    obtain ⟨placed, own⟩ := processFromList_spec ih.1 done
    exact ⟨placed, own.trans ih.2⟩
  | addFromOther _ _ ih otherIH =>
    unfold DcOptions.addFromOther
    split
    · exact ih
    · exact ⟨ih.1.applyAll _, ih.2⟩
  | setCDNConfig rsa _ config ih => exact ih

theorem stored_distinct {data : Data} (placed : AllPlaced data) (dcId : DcId) :
    ((stored data dcId).map address).Nodup := by
  unfold stored
  cases found : data.find? dcId with
  | none => exact nodup_nil
  | some list => exact (placed dcId list found).distinct

theorem isSome_find? {data : Data} (placed : AllPlaced data) (dcId : DcId) :
    (data.find? dcId).isSome = true ↔ stored data dcId ≠ [] := by
  unfold stored
  cases found : data.find? dcId with
  | none => exact iff_of_false Bool.false_ne_true fun filled => filled rfl
  | some list => exact iff_of_true rfl (placed dcId list found).filled

theorem mem_ofDc {endpoints : List Endpoint} {dcId : DcId} {endpoint : Endpoint} :
    endpoint ∈ ofDc endpoints dcId ↔ endpoint ∈ endpoints ∧ endpoint.id = dcId := by
  rw [ofDc, mem_filter, decide_eq_true_eq]

theorem stored_set (distinct : DistinctAddresses list) (dcId : DcId) :
    stored (applyAll ∅ (listed list)) dcId = ofDc (listed list) dcId := by
  have apart : (ofDc (listed list) dcId).Pairwise fun first second =>
      sameAddress first second = false := by
    refine (Pairwise.filter _ distinct).imp_of_mem fun first second differ => ?_
    rw [← Bool.not_eq_true, sameAddress_iff]
    exact fun same => differ ⟨(mem_ofDc.mp first).2.trans (mem_ofDc.mp second).2.symm, same⟩
  rw [stored_applyAll]
  exact @foldl_addEndpoint [] _ apart

/-- The addresses after an update. -/
def listedData (options : DcOptions Key) (list : List MTPDcOption) (overwrite : Bool) : Data :=
  applyAll (if overwrite then ∅ else options.data) (listed list)

theorem stored_listedData_set (distinct : DistinctAddresses list) (dcId : DcId) :
    stored (listedData options list true) dcId = ofDc (listed list) dcId :=
  stored_set distinct dcId

theorem stored_listedData_add (options : DcOptions Key) (list : List MTPDcOption) (dcId : DcId) :
    (∃ rest, stored (listedData options list false) dcId = stored options.data dcId ++ rest) ∧
      ∀ endpoint ∈ ofDc (listed list) dcId,
        ∃ other ∈ stored (listedData options list false) dcId,
          address other = address endpoint := by
  have data : stored (listedData options list false) dcId =
      (ofDc (listed list) dcId).foldl addEndpoint (stored options.data dcId) :=
    stored_applyAll options.data (listed list) dcId
  rw [data]
  exact foldl_addEndpoint_spec _ _

/-- Where the addresses stay, so do the endpoints, if flags and secrets are told. -/
theorem Told.mem_iff (told : Told options list) {dcId : DcId}
    (same : ∀ place, place ∈ (stored options.data dcId).map address ↔
      place ∈ (ofDc (listed list) dcId).map address) (endpoint : Endpoint) :
    endpoint ∈ stored options.data dcId ↔ endpoint ∈ ofDc (listed list) dcId := by
  constructor
  · intro member
    obtain ⟨other, otherMem, place⟩ :=
      mem_map.mp ((same _).mp (mem_map_of_mem member))
    rw [told.same dcId same endpoint member other otherMem place.symm]
    exact otherMem
  · intro member
    obtain ⟨other, otherMem, place⟩ :=
      mem_map.mp ((same _).mpr (mem_map_of_mem member))
    rw [← told.same dcId same other otherMem endpoint member place]
    exact otherMem

section Effect

variable (constructed : Constructed options)
include constructed

theorem allPlaced_listedData (list : List MTPDcOption) (overwrite : Bool) :
    AllPlaced (listedData options list overwrite) := by
  refine AllPlaced.applyAll ?_ _
  split
  · exact allPlaced_empty
  · exact constructed.placed.1

theorem isDifference_announced (overwrite : Bool) (nonempty : list ≠ []) :
    IsDifference options.data.entries (listedData options list overwrite).entries
        (options.announced list overwrite) ∧
      options.processFromList list overwrite =
        (options.announced list overwrite).map fun difference =>
          if difference.isEmpty then options
          else { options with data := listedData options list overwrite } := by
  have proceeds : ¬(list.isEmpty || options.immutable) = true := by
    rw [constructed.placed.2, Bool.or_false, List.isEmpty_iff]
    exact nonempty
  unfold processFromList announced
  rw [if_neg proceeds, if_neg proceeds]
  exact ⟨isDifference_countOptionsDifference _ _ options.data.increasing
    (listedData options list overwrite).increasing, rfl⟩

section

variable (nonempty : list ≠ [])
include nonempty

variable {overwrite : Bool}

theorem mem_announced_iff {ids : List DcId}
    (isAnnounced : options.announced list overwrite = some ids) (dcId : DcId) :
    dcId ∈ ids ↔ ¬ ∀ place, place ∈ (stored options.data dcId).map address ↔
      place ∈ (stored (listedData options list overwrite) dcId).map address := by
  obtain ⟨difference, _⟩ := isDifference_announced constructed overwrite nonempty
  rw [difference.ids ids isAnnounced dcId]
  exact not_congr (alike_iff constructed.placed.1 (allPlaced_listedData constructed _ overwrite)
    dcId)

theorem announced_isSome_iff :
    (options.announced list overwrite).isSome = true ↔
      (stored options.data maxValue = [] ↔
        stored (listedData options list overwrite) maxValue = []) := by
  obtain ⟨difference, _⟩ := isDifference_announced constructed overwrite nonempty
  have before := isSome_find? constructed.placed.1 maxValue
  have after := isSome_find? (allPlaced_listedData constructed list overwrite) maxValue
  rw [difference.mark, Bool.eq_iff_iff]
  exact (iff_congr before after).trans not_iff_not

/-- What is stored after a list, and that it is announced, told by the addresses. -/
theorem processFromList_some
    (mark : stored options.data maxValue = [] ↔
      stored (listedData options list overwrite) maxValue = []) :
    ∃ next ids, options.processFromList list overwrite = some next ∧
      options.announced list overwrite = some ids ∧
      (next.data = listedData options list overwrite ∨ ids = [] ∧ next = options) := by
  obtain ⟨_, processed⟩ := isDifference_announced constructed overwrite nonempty
  obtain ⟨ids, isAnnounced⟩ :=
    isSome_iff_exists.mp ((announced_isSome_iff constructed nonempty).mpr mark)
  rw [isAnnounced, map_some] at processed
  refine ⟨_, ids, processed, isAnnounced, ?_⟩
  cases ids with
  | nil => exact .inr ⟨rfl, rfl⟩
  | cons first rest => exact .inl rfl

theorem TakesEffect.of_told (distinct : DistinctAddresses list) (told : Told options list) :
    TakesEffect options list := by
  have setMark : stored options.data maxValue = [] ↔
      stored (listedData options list true) maxValue = [] := by
    rw [stored_listedData_set distinct]
    exact told.mark
  have addMark : stored options.data maxValue = [] ↔
      stored (listedData options list false) maxValue = [] := by
    have data : stored (listedData options list false) maxValue =
        (ofDc (listed list) maxValue).foldl addEndpoint
          (stored options.data maxValue) :=
      stored_applyAll options.data (listed list) maxValue
    obtain ⟨⟨rest, whole⟩, _⟩ := stored_listedData_add options list maxValue
    constructor
    · intro none
      rw [data, none, told.mark.mp none]
      rfl
    · intro none
      rw [whole] at none
      exact (append_eq_nil_iff.mp none).1
  obtain ⟨setNext, setIds, isSet, setAnnounced, setData⟩ :=
    processFromList_some constructed nonempty setMark
  obtain ⟨addNext, addIds, isAdded, addAnnounced, addData⟩ :=
    processFromList_some constructed nonempty addMark
  have setIff := mem_announced_iff constructed nonempty setAnnounced
  have addIff := mem_announced_iff constructed nonempty addAnnounced
  simp only [stored_listedData_set distinct] at setIff
  refine ⟨⟨setNext, isSet, ?_⟩, ⟨addNext, isAdded, ?_⟩, ?_⟩
  · intro dcId endpoint
    rw [← mem_ofDc]
    rcases setData with isData | ⟨rfl, rfl⟩
    · rw [isData, stored_listedData_set distinct]
    · exact told.mem_iff (not_not.mp fun differ =>
        not_mem_nil ((setIff dcId).mpr differ)) endpoint
  · intro endpoint member
    obtain ⟨_, present⟩ := stored_listedData_add options list endpoint.id
    obtain ⟨other, otherMem, same⟩ := present endpoint (mem_ofDc.mpr ⟨member, rfl⟩)
    rcases addData with isData | ⟨rfl, rfl⟩
    · rw [isData]
      exact ⟨other, otherMem, same⟩
    · have alike := not_not.mp fun differ => not_mem_nil ((addIff endpoint.id).mpr differ)
      obtain ⟨known, knownMem, place⟩ :=
        mem_map.mp ((alike _).mpr (mem_map_of_mem otherMem))
      exact ⟨known, knownMem, place.trans same⟩
  · rintro (_ | _)
    · refine ⟨addNext, addIds, isAdded, addAnnounced, fun dcId changed => ?_⟩
      rw [addIff]
      intro alike
      obtain ⟨endpoint, differ⟩ := changed
      apply differ
      rcases addData with isData | ⟨_, rfl⟩
      · obtain ⟨⟨rest, whole⟩, _⟩ := stored_listedData_add options list dcId
        have nodup := stored_distinct (allPlaced_listedData constructed list false) dcId
        rw [whole, map_append] at nodup alike
        rw [isData, whole, mem_append]
        refine ⟨.inl, fun member => member.elim id fun isNew => ?_⟩
        -- a new endpoint would have the address of a stored one
        have known := (alike (address endpoint)).mpr (mem_append_right _ (mem_map_of_mem isNew))
        exact absurd rfl ((nodup_append.mp nodup).2.2 _ known _ (mem_map_of_mem isNew))
      · exact Iff.rfl
    · refine ⟨setNext, setIds, isSet, setAnnounced, fun dcId changed => ?_⟩
      rw [setIff]
      intro alike
      obtain ⟨endpoint, differ⟩ := changed
      apply differ
      rcases setData with isData | ⟨_, rfl⟩
      · rw [isData, stored_listedData_set distinct]
        exact told.mem_iff alike endpoint
      · exact Iff.rfl

theorem TakesEffect.told (distinct : DistinctAddresses list) (effect : TakesEffect options list) :
    Told options list := by
  obtain ⟨next, ids, isNext, isAnnounced, announces⟩ := effect.changed true
  obtain ⟨setNext, isSet, exactly⟩ := effect.set
  have sameNext : setNext = next := some_inj.mp (isSet.symm.trans isNext)
  subst sameNext
  have mark := (announced_isSome_iff constructed nonempty).mp (isSome_of_eq_some isAnnounced)
  rw [stored_listedData_set distinct] at mark
  refine ⟨mark, fun dcId same first firstMem second secondMem place => ?_⟩
  have notAnnounced : dcId ∉ ids := by
    rw [mem_announced_iff constructed nonempty isAnnounced, stored_listedData_set distinct]
    exact not_not.mpr same
  have kept : first ∈ stored setNext.data dcId := by
    by_contra dropped
    exact notAnnounced (announces dcId ⟨first, fun unchanged => dropped (unchanged.mp firstMem)⟩)
  obtain ⟨isListed, isOwn⟩ := (exactly dcId first).mp kept
  obtain ⟨otherListed, otherOwn⟩ := mem_ofDc.mp secondMem
  have symmetric : Std.Symm fun first second : Endpoint =>
      ¬(first.id = second.id ∧ address first = address second) :=
    ⟨fun _ _ apart same => apart ⟨same.1.symm, same.2.symm⟩⟩
  by_contra differ
  exact Pairwise.forall distinct isListed otherListed differ ⟨isOwn.trans otherOwn.symm, place⟩

end

end Effect

/-- A list takes effect exactly where the comparison with what is stored can tell it. -/
theorem takesEffect_iff (constructed : Constructed options) (nonempty : list ≠ [])
    (distinct : DistinctAddresses list) : TakesEffect options list ↔ Told options list :=
  ⟨TakesEffect.told constructed nonempty distinct,
    TakesEffect.of_told constructed nonempty distinct⟩

end Lists

def oneEndpoint : DcOptions (Bytes × Bytes) :=
  ((construct .production).constructFromSerialized numbersOnly [0, 0, 0, 0]).1.constructAddOne
    1 0 [49] 443 []

def withNewSecret : List MTPDcOption :=
  [.dcOption ⟨0, 1, [49], 443, some (List.replicate 16 7)⟩]

theorem oneEndpoint_constructed : Constructed oneEndpoint :=
  .constructAddOne (.constructFromSerialized numbersOnly (.construct _) _) _ _ _ _ _

theorem takesEffect_iff_newSecret :
    TakesEffect oneEndpoint withNewSecret ↔ Told oneEndpoint withNewSecret :=
  takesEffect_iff oneEndpoint_constructed (cons_ne_nil _ _) (pairwise_singleton _ _)

/-- A new secret for a known address is not stored. -/
theorem new_secret_is_dropped :
    ¬ ∀ (options : DcOptions (Bytes × Bytes)) (list : List MTPDcOption), Constructed options →
      list ≠ [] → DistinctAddresses list → TakesEffect options list := by
  intro always
  have filled : withNewSecret ≠ [] := cons_ne_nil _ _
  have distinct : DistinctAddresses withNewSecret := pairwise_singleton _ _
  have told := (always _ _ oneEndpoint_constructed filled distinct).told
    oneEndpoint_constructed filled distinct
  have isStored : stored oneEndpoint.data 1 = [⟨1, 0, [49], 443, []⟩] := rfl
  have isListed : ofDc (listed withNewSecret) 1 =
      [⟨1, 0, [49], 443, replicate 16 7⟩] := rfl
  have same : (⟨1, 0, [49], 443, []⟩ : Endpoint) = ⟨1, 0, [49], 443, replicate 16 7⟩ := by
    refine told.same 1 ?_ _ ?_ _ ?_ rfl
    · rw [isStored, isListed]
      exact fun place => Iff.rfl
    · rw [isStored]
      exact mem_singleton_self _
    · rw [isListed]
      exact mem_singleton_self _
  exact absurd same (by decide)

end TelegramDesktop.DcOptions
