import TelegramDesktop.MessageReactionsAgreement

/-!
# Runs of local and server changes of reactions

The server lists reactions with or without the own marks.  Counts, own marks and recent
peers agree in every run where a list without own marks does not contradict the marks
that are kept.
-/

namespace TelegramDesktop.MessageReactions

open List FlatMap

variable {Peer : Type*} [DecidableEq Peer]

section Lists

variable {ignoreChosen : Bool} {sorting : Sorting} {counts : List ReactionCount}
  {list : List MessageReaction} {one : MessageReaction} {id : ReactionId}

/-- The reaction that a count of the server makes. -/
def listed (ignoreChosen : Bool) (list : List MessageReaction) (count : ReactionCount) :
    MessageReaction :=
  ⟨count.id, count.count, nowMy ignoreChosen (list.find? (·.id = count.id)) count⟩

theorem find?_placeByKey_of_ne (distinct : (list.map (·.id)).Nodup) (differs : one.id ≠ id) :
    (placeByKey (·.id) one list).find? (·.id = id) = list.find? (·.id = id) := by
  rw [find?_eq_getLast?_withKey id (nodup_placeByKey one distinct),
    withKey_placeByKey_of_ne differs, find?_eq_getLast?_withKey id distinct]

variable (ignoreChosen) in
/-- What is listed takes the place of what was known, and the rest is still there. -/
theorem foldl_applyCount (distinct : (counts.map (·.id)).Nodup) (changing : Changing)
    (ids : (changing.list.map (·.id)).Nodup) :
    ((counts.foldl (Changing.applyCount ignoreChosen) changing).list.map (·.id)).Nodup ∧
    (∀ one, one ∈ (counts.foldl (Changing.applyCount ignoreChosen) changing).list ↔
      (∃ count ∈ counts, one = listed ignoreChosen changing.list count) ∨
        (one ∈ changing.list ∧ one.id ∉ counts.map (·.id))) ∧
    ∀ id, id ∈ (counts.foldl (Changing.applyCount ignoreChosen) changing).existing ↔
      id ∈ changing.existing ∨ id ∈ counts.map (·.id) := by
  induction counts generalizing changing with
  | nil => simp [ids]
  | cons count counts ih =>
    rw [map_cons, nodup_cons] at distinct
    obtain ⟨nodup, entries, existing⟩ := ih distinct.2 (changing.applyCount ignoreChosen count)
      (nodup_placeByKey _ ids)
    rw [foldl_cons]
    refine ⟨nodup, fun one => ?_, fun id => ?_⟩
    · have same : ∀ other ∈ counts,
          listed ignoreChosen (changing.applyCount ignoreChosen count).list other =
            listed ignoreChosen changing.list other := by
        intro other member
        have differs : count.id ≠ other.id := fun equal =>
          distinct.1 (equal ▸ mem_map_of_mem member)
        unfold listed
        congr 2
        exact find?_placeByKey_of_ne ids differs
      have placed : one ∈ (changing.applyCount ignoreChosen count).list ↔
          one = listed ignoreChosen changing.list count ∨
            (one ∈ changing.list ∧ one.id ≠ count.id) :=
        mem_placeByKey_iff ids
      have later : (∃ other ∈ counts,
          one = listed ignoreChosen (changing.applyCount ignoreChosen count).list other) ↔
            ∃ other ∈ counts, one = listed ignoreChosen changing.list other := by
        refine exists_congr fun other => and_congr_right fun member => ?_
        rw [same other member]
      have fresh : one = listed ignoreChosen changing.list count →
          one.id ∉ counts.map (·.id) := by
        rintro rfl
        exact distinct.1
      rw [entries, later, placed, or_and_right, and_iff_left_of_imp fresh, and_assoc]
      simp only [mem_cons, map_cons, not_or, exists_eq_or_imp]
      rw [or_left_comm, or_assoc]
    · rw [existing, Changing.applyCount, FlatSet.mem_insert, map_cons, mem_cons]
      tauto

variable (ignoreChosen sorting) in
theorem sort_spec (changing : Changing) :
    (changing.sort ignoreChosen sorting).list.Perm changing.list ∧
      (changing.sort ignoreChosen sorting).existing = changing.existing := by
  unfold Changing.sort
  split_ifs
  · exact ⟨Perm.refl _, rfl⟩
  · exact ⟨Perm.refl _, rfl⟩
  · exact ⟨sorting.perm _ _, rfl⟩

theorem mem_eraseMissing (changing : Changing) (ids : (changing.list.map (·.id)).Nodup)
    (there : ∀ id ∈ changing.existing, id ∈ changing.list.map (·.id)) :
    one ∈ changing.eraseMissing.list ↔ one ∈ changing.list ∧ one.id ∈ changing.existing := by
  unfold Changing.eraseMissing
  split_ifs with same
  · refine (and_iff_left_of_imp fun member => ?_).symm
    have subset : changing.existing.toFinset ⊆ (changing.list.map (·.id)).toFinset := by
      intro id member
      rw [mem_toFinset]
      exact there id (FlatSet.mem_toFinset.mp member)
    have card : (changing.list.map (·.id)).toFinset.card ≤ changing.existing.toFinset.card := by
      rw [toFinset_card_of_nodup ids, length_map, same, FlatSet.size_eq_card]
    rw [← FlatSet.mem_toFinset, Finset.eq_of_subset_of_card_le subset card, mem_toFinset]
    exact mem_map_of_mem member
  · simp

theorem eraseMissing_sublist (changing : Changing) :
    changing.eraseMissing.list.Sublist changing.list := by
  unfold Changing.eraseMissing
  split_ifs
  · exact Sublist.refl _
  · exact filter_sublist

omit [DecidableEq Peer] in
variable (ignoreChosen sorting) in
theorem changeList_spec {state : MessageReactions Peer} (distinct : (counts.map (·.id)).Nodup)
    (ids : (state.list.map (·.id)).Nodup) :
    ((changeList ignoreChosen sorting counts state).list.map (·.id)).Nodup ∧
    ∀ one, one ∈ (changeList ignoreChosen sorting counts state).list ↔
      ∃ count ∈ counts, one = listed ignoreChosen state.list count := by
  obtain ⟨nodup, entries, existing⟩ :=
    foldl_applyCount ignoreChosen distinct { list := state.list } ids
  obtain ⟨perm, sameExisting⟩ := sort_spec ignoreChosen sorting
    (counts.foldl (Changing.applyCount ignoreChosen) { list := state.list })
  have isListed : ∀ id, id ∈ (counts.foldl (Changing.applyCount ignoreChosen)
      { list := state.list }).existing ↔ id ∈ counts.map (·.id) := by
    intro id
    rw [existing]
    exact or_iff_right (FlatSet.notMem_empty id)
  have sortedIds := (perm.map (·.id)).nodup_iff.mpr nodup
  unfold changeList
  refine ⟨sortedIds.sublist ((eraseMissing_sublist _).map _), fun one => ?_⟩
  rw [mem_eraseMissing _ sortedIds, perm.mem_iff, entries, sameExisting, isListed]
  · constructor
    · rintro ⟨found | ⟨-, missing⟩, there⟩
      · exact found
      · exact absurd there missing
    · rintro ⟨count, member, rfl⟩
      exact ⟨.inl ⟨count, member, rfl⟩, mem_map_of_mem member⟩
  · intro id there
    rw [sameExisting, isListed] at there
    obtain ⟨count, member, rfl⟩ := mem_map.mp there
    refine mem_map.mpr ⟨listed ignoreChosen state.list count, ?_, rfl⟩
    rw [perm.mem_iff, entries]
    exact .inl ⟨count, member, rfl⟩

end Lists

/-- The peers reported for a reaction. -/
def peersOf (recent : List (PeerReaction Peer)) (id : ReactionId) : List (RecentReaction Peer) :=
  (withKey PeerReaction.id id recent).map (·.recent)

omit [DecidableEq Peer] in
theorem pushRecent_take (count : Int) (peers : List (RecentReaction Peer))
    (one : RecentReaction Peer) :
    pushRecent count (peers.take count.toNat) one = (peers ++ [one]).take count.toNat := by
  unfold pushRecent
  rw [length_take]
  split_ifs with room
  · rw [take_of_length_le (by omega), take_of_length_le]
    rw [length_append, length_singleton]
    omega
  · rw [take_append_of_le_length (by omega)]

omit [DecidableEq Peer] in
/-- The recent peers of every reaction in the list come in their order, as many as it counts. -/
theorem find?_parseRecent (list : List MessageReaction) (recent : List (PeerReaction Peer))
    (id : ReactionId) :
    (recent.foldl (parseRecent list) ∅).find? id =
      if peersOf recent id = [] then none
      else (list.find? (·.id = id)).map fun one => (peersOf recent id).take one.count.toNat := by
  induction recent using reverseRecOn with
  | nil => rfl
  | append_singleton recent reaction ih =>
    rw [foldl_append, foldl_cons, foldl_nil, parseRecent]
    by_cases same : reaction.id = id
    · subst same
      have more : peersOf (recent ++ [reaction]) reaction.id =
          peersOf recent reaction.id ++ [reaction.recent] := by
        rw [peersOf, withKey_append, withKey_cons_self, map_append]
        rfl
      rw [more, if_neg (by simp)]
      cases found : list.find? fun one => one.id = reaction.id with
      | none => simp [ih, found]
      | some one =>
        rw [find?_amend, if_pos rfl, ih, found, Option.map_some, Option.map_some, ← pushRecent_take]
        split_ifs with none
        · simp [none]
        · rfl
    · have rest : peersOf (recent ++ [reaction]) id = peersOf recent id := by
        rw [peersOf, withKey_append, withKey_cons_of_ne same]
        simp [withKey, peersOf]
      rw [rest, ← ih]
      cases list.find? fun one => one.id = reaction.id with
      | none => rfl
      | some one => rw [find?_amend, if_neg (Ne.symm same)]

/-- A server list at a moment when the peers in `holders` have each reaction.  Without the
own marks it is a `min` one. -/
structure Report (user : Peer) where
  list : List ReactionCount
  recent : List (PeerReaction Peer)
  min : Bool
  holders : ReactionId → Finset Peer
  distinct : (list.map (·.id)).Nodup
  positive : ∀ count ∈ list, 0 < count.count
  counted : ∀ count ∈ list, count.count = (holders count.id).card
  marked : min = false →
    ∀ count ∈ list, (count.chosenOrder.isSome = true ↔ user ∈ holders count.id)
  held : ∀ one ∈ recent, one.recent.peer ∈ holders one.id
  once : (recent.map fun one => (one.id, one.recent.peer)).Nodup

section Reports

variable {user : Peer} {state next : MessageReactions Peer}

omit [DecidableEq Peer] in
theorem Report.nodup_peersOf (report : Report user) (id : ReactionId) :
    ((peersOf report.recent id).map (·.peer)).Nodup := by
  have pairs : ((withKey PeerReaction.id id report.recent).map fun one =>
      (one.id, one.recent.peer)).Nodup :=
    report.once.sublist ((filter_sublist).map _)
  rw [peersOf, map_map]
  apply Nodup.of_map fun peer => (id, peer)
  rw [map_map]
  convert pairs using 1
  apply map_congr_left
  intro one member
  rw [(mem_withKey.mp member).2]
  rfl

omit [DecidableEq Peer] in
theorem Report.mem_holders (report : Report user) {id : ReactionId} {one : RecentReaction Peer}
    (member : one ∈ peersOf report.recent id) : one.peer ∈ report.holders id := by
  obtain ⟨reaction, there, rfl⟩ := mem_map.mp member
  obtain ⟨there, same⟩ := mem_withKey.mp there
  rw [← same]
  exact report.held reaction there

theorem Report.length_le (report : Report user) {id : ReactionId}
    {peers : List (RecentReaction Peer)} (sublist : peers.Sublist (peersOf report.recent id))
    (holders : Finset Peer) (held : ∀ one ∈ peers, one.peer ∈ holders) :
    peers.length ≤ holders.card := by
  have nodup : (peers.map (·.peer)).Nodup := (report.nodup_peersOf id).sublist (sublist.map _)
  rw [← length_map (·.peer), ← toFinset_card_of_nodup nodup]
  apply Finset.card_le_card
  intro peer member
  obtain ⟨one, there, rfl⟩ := mem_map.mp (mem_toFinset.mp member)
  exact held one there

variable {count : ReactionCount}

theorem Report.length_peersOf_le (report : Report user) (member : count ∈ report.list) :
    ((peersOf report.recent count.id).length : Int) ≤ count.count := by
  rw [report.counted count member]
  exact Int.ofNat_le.mpr (report.length_le (Sublist.refl _) _ fun one there =>
    report.mem_holders there)

theorem Report.length_others_lt (report : Report user)
    (member : count ∈ report.list) (own : user ∈ report.holders count.id) :
    ((others user (peersOf report.recent count.id)).length : Int) < count.count := by
  rw [report.counted count member]
  have fewer : (others user (peersOf report.recent count.id)).length ≤
      ((report.holders count.id).erase user).card := by
    apply report.length_le (filter_sublist)
    intro one there
    obtain ⟨there, differs⟩ := mem_filter.mp there
    exact Finset.mem_erase.mpr ⟨of_decide_eq_true differs, report.mem_holders there⟩
  exact Int.ofNat_lt.mpr (fewer.trans_lt (Finset.card_erase_lt_of_mem own))

/-- The state after a report: its reactions and the peers that it names. -/
structure Applied (user : Peer) (report : Report user) (state next : MessageReactions Peer) :
    Prop where
  distinct : (next.list.map (·.id)).Nodup
  entries : ∀ one, one ∈ next.list ↔
    ∃ count ∈ report.list, one = listed report.min state.list count
  recent : ∀ count ∈ report.list, next.recent.find? count.id =
    if peersOf report.recent count.id = [] then none else some (peersOf report.recent count.id)
  known : ∀ id, next.recent.contains id = true → id ∈ next.list.map (·.id)

theorem Report.applied (report : Report user) (sorting : Sorting)
    (ids : (state.list.map (·.id)).Nodup)
    (free : state.sending = false) :
    Applied user report state (state.change report.min sorting report.list report.recent).1 := by
  obtain ⟨nodup, entries⟩ := changeList_spec report.min sorting report.distinct ids
  rw [change, free, if_neg Bool.false_ne_true]
  refine ⟨nodup, entries, ?_, ?_⟩
  · intro count member
    have found : (changeList report.min sorting report.list state).list.find?
        (·.id = count.id) = some (listed report.min state.list count) :=
      (find?_id_eq_some nodup).mpr ⟨(entries _).mpr ⟨count, member, rfl⟩, rfl⟩
    have few := report.length_peersOf_le member
    rw [find?_parseRecent, found, Option.map_some]
    congr 2
    apply take_of_length_le
    simp only [listed]
    omega
  · intro id known
    rw [FlatMap.contains, find?_parseRecent] at known
    by_contra missing
    rw [find?_id_eq_none.mpr missing, Option.map_none, ite_self] at known
    cases known

variable {report : Report user}

omit [DecidableEq Peer] in
theorem Applied.find?_recent (applied : Applied user report state next)
    (member : count ∈ report.list) {peers : List (RecentReaction Peer)} :
    next.recent.find? count.id = some peers ↔
      peersOf report.recent count.id ≠ [] ∧ peers = peersOf report.recent count.id := by
  rw [applied.recent count member]
  split_ifs with none
  · simp [none]
  · simp [none, eq_comm]

theorem Applied.consistent (applied : Applied user report state next) :
    Consistent next := by
  refine ⟨applied.distinct, fun one member => ?_, applied.known⟩
  obtain ⟨count, there, rfl⟩ := (applied.entries one).mp member
  refine ⟨report.positive count there, fun peers found => ?_, fun peers found => ?_⟩
  · obtain ⟨some, rfl⟩ := (applied.find?_recent there).mp found
    exact some
  · obtain ⟨-, rfl⟩ := (applied.find?_recent there).mp found
    exact report.length_peersOf_le there

/-- The recent peers of a list without own marks do not contradict the marks that are kept:
the user is not one of them where there is no mark, and where there is one they leave a
place for the user. -/
def Agrees (user : Peer) (list : List MessageReaction) (report : Report user) : Prop :=
  ∀ count ∈ report.list,
    ((list.find? (·.id = count.id)).any (·.my) = false →
      hasSelf user (peersOf report.recent count.id) = false) ∧
    ((list.find? (·.id = count.id)).any (·.my) = true →
      ((others user (peersOf report.recent count.id)).length : Int) < count.count)

instance (user : Peer) (list : List MessageReaction) (report : Report user) :
    Decidable (Agrees user list report) :=
  inferInstanceAs (Decidable (∀ count ∈ report.list, _))

theorem Applied.marked_iff (applied : Applied user report state next)
    (there : count ∈ report.list) :
    Marked user next.recent (listed report.min state.list count) ↔
      (nowMy report.min (state.list.find? (·.id = count.id)) count = false →
        hasSelf user (peersOf report.recent count.id) = false) ∧
      (nowMy report.min (state.list.find? (·.id = count.id)) count = true →
        ((others user (peersOf report.recent count.id)).length : Int) < count.count) := by
  constructor
  · rintro ⟨notMine, mine⟩
    by_cases none : peersOf report.recent count.id = []
    · have positive := report.positive count there
      rw [none]
      exact ⟨fun _ => rfl, fun _ => positive⟩
    · have found := (applied.find?_recent there).mpr ⟨none, rfl⟩
      exact ⟨fun own => notMine own _ found, fun own => mine own _ found⟩
  · rintro ⟨notMine, mine⟩
    constructor
    · intro own peers found
      obtain ⟨-, rfl⟩ := (applied.find?_recent there).mp found
      exact notMine own
    · intro own peers found
      obtain ⟨-, rfl⟩ := (applied.find?_recent there).mp found
      exact mine own

theorem Applied.settled_iff (applied : Applied user report state next) :
    Settled user next ↔ (report.min = true → Agrees user state.list report) := by
  constructor
  · intro settled min count there
    have marked := settled.marked _ ((applied.entries _).mpr ⟨count, there, rfl⟩)
    rw [applied.marked_iff there, nowMy, if_pos min] at marked
    exact marked
  · intro agrees
    refine ⟨applied.consistent, fun one member => ?_⟩
    obtain ⟨count, there, rfl⟩ := (applied.entries one).mp member
    rw [applied.marked_iff there, nowMy]
    split_ifs with min
    · exact agrees min count there
    · have marked := report.marked (Bool.eq_false_of_not_eq_true min) count there
      constructor
      · intro own
        rw [← Bool.not_eq_true, marked] at own
        rw [hasSelf, any_eq_false]
        intro one member same
        exact own (of_decide_eq_true same ▸ report.mem_holders member)
      · intro own
        exact report.length_others_lt there (marked.mp own)

theorem settled_of_remove (consistent : Consistent state)
    (removable : ∀ id, ∃ next, state.remove user id = some next ∧ Consistent next) :
    Settled user state := by
  refine ⟨consistent, fun one member => ?_⟩
  obtain ⟨next, removed, after⟩ := removable one.id
  rw [remove, (find?_id_eq_some consistent.distinct).mpr ⟨member, rfl⟩] at removed
  dsimp only at removed
  constructor
  · intro own peers found
    rw [if_neg (by simp [own])] at removed
    split_ifs at removed with named
    rw [found, Option.any_some] at named
    exact Bool.eq_false_of_not_eq_true named
  · intro own peers found
    rw [if_pos own] at removed
    obtain ⟨left, withdrawn, rfl⟩ := Option.map_eq_some_iff.mp removed
    have positive := (consistent.counted one member).positive
    by_cases none : others user peers = []
    · rw [none, length_nil]
      omega
    · rw [withdraw, found] at withdrawn
      dsimp only at withdrawn
      rw [if_neg none] at withdrawn
      split_ifs at withdrawn with last
      cases withdrawn
      have lowered := after.counted { one with my := false, count := one.count - 1 } ?_
      · have few := lowered.within (others user peers) (find?_set_self)
        dsimp only at few
        omega
      · rw [if_neg last, mem_placeByKey_iff consistent.distinct]
        exact .inl rfl

end Reports

/-- What the user and the server do to the reactions. -/
inductive Event (user : Peer)
  | add (id : ReactionId) (myLimit : Int) (viewable : Bool)
  | remove (id : ReactionId)
  | change (report : Report user)
  | answered

variable (user : Peer) (sorting : Sorting)

def step (state : MessageReactions Peer) : Event user → Option (MessageReactions Peer)
  | .add id myLimit viewable => state.add user myLimit viewable id
  | .remove id => state.remove user id
  | .change report => some (state.change report.min sorting report.list report.recent).1
  | .answered => some { state with sending := false }

/-- No more reactions than allowed are mine after one is added. -/
def WithinLimit (next : MessageReactions Peer) : Event user → Prop
  | .add _ myLimit _ => (next.chosen.length : Int) ≤ myLimit
  | _ => True

/-- The event leads to a consistent state in which the user keeps to the limit. -/
def Safe (state : MessageReactions Peer) (event : Event user) : Prop :=
  ∃ next, step user sorting state event = some next ∧ Consistent next ∧
    WithinLimit user next event

/-- The step is safe, and so is removing any reaction after it. -/
def SafeToRemove (state : MessageReactions Peer) (event : Event user) : Prop :=
  Safe user sorting state event ∧ ∀ next, step user sorting state event = some next →
    ∀ id, Safe user sorting next (.remove id)

/-- A list without own marks that is applied agrees with the marks that are kept, and a
reaction is added where the limit allows one, or if it is mine already, the limit is kept. -/
def Allowed (state : MessageReactions Peer) : Event user → Prop
  | .add id myLimit _ =>
    id.empty = false ∧ (id ∈ state.chosen → (state.chosen.length : Int) ≤ myLimit) ∧
      (id ∉ state.chosen → 1 ≤ myLimit)
  | .remove _ => True
  | .change report =>
    state.sending = false → report.min = true → Agrees user state.list report
  | .answered => True

variable {user} {state next : MessageReactions Peer} {event : Event user}

/-- An allowed event is possible and stays within the limit. -/
theorem Settled.step (settled : Settled user state) (allowed : Allowed user state event) :
    ∃ next, MessageReactions.step user sorting state event = some next ∧ Settled user next ∧
      WithinLimit user next event := by
  cases event with
  | add id myLimit viewable =>
    obtain ⟨filled, chosen, fresh⟩ := allowed
    obtain ⟨next, added, settledNext, same, few⟩ := settled.add filled myLimit viewable
    refine ⟨next, added, settledNext, ?_⟩
    by_cases there : id ∈ state.chosen
    · rw [same there]
      exact chosen there
    · exact (few there).2 (fresh there)
  | remove id =>
    obtain ⟨next, removed, settledNext⟩ := settled.remove id
    exact ⟨next, removed, settledNext, trivial⟩
  | change report =>
    refine ⟨_, rfl, ?_, trivial⟩
    cases sending : state.sending with
    | true =>
      rw [change, sending, if_pos rfl]
      exact settled
    | false =>
      exact (report.applied sorting settled.distinct sending).settled_iff.mpr (allowed sending)
  | answered => exact ⟨_, rfl, ⟨⟨settled.1.1, settled.1.2, settled.1.3⟩, settled.2⟩, trivial⟩

theorem Settled.safe_remove (settled : Settled user state) (id : ReactionId) :
    Safe user sorting state (.remove id) := by
  obtain ⟨next, removed, settledNext⟩ := settled.remove id
  exact ⟨next, removed, settledNext.1, trivial⟩

/-- The steps that are allowed are those that are safe, also for a reaction that is removed
next. -/
theorem Settled.safeToRemove_iff (settled : Settled user state) :
    SafeToRemove user sorting state event ↔ Allowed user state event := by
  constructor
  · rintro ⟨⟨next, taken, consistent, within⟩, removable⟩
    cases event with
    | add id myLimit viewable =>
      have filled : id.empty = false := by
        rw [← Bool.not_eq_true]
        intro empty
        rw [MessageReactions.step, MessageReactions.add, if_pos empty] at taken
        cases taken
      obtain ⟨added, isNext, -, same, few⟩ := settled.add filled myLimit viewable
      obtain rfl := Option.some.inj (isNext.symm.trans taken)
      refine ⟨filled, fun there => ?_, fun fresh => ?_⟩
      · exact same there ▸ within
      · have some := (few fresh).1
        simp only [WithinLimit] at within
        omega
    | remove id => trivial
    | change report =>
      intro sending
      cases taken
      have applied := report.applied sorting settled.distinct sending
      apply applied.settled_iff.mp
      apply settled_of_remove consistent
      intro id
      obtain ⟨after, removed, consistentAfter, -⟩ := removable _ rfl id
      exact ⟨after, removed, consistentAfter⟩
    | answered => trivial
  · intro allowed
    obtain ⟨next, taken, settledNext, within⟩ := settled.step sorting allowed
    refine ⟨⟨next, taken, settledNext.1, within⟩, fun after isAfter id => ?_⟩
    obtain rfl := Option.some.inj (taken.symm.trans isAfter)
    exact settledNext.safe_remove sorting id

/-- Counts, own marks and recent peers agree, and no assertion fails, in the runs where
every step is allowed. -/
theorem safeToRemove_iff_allowed (events : List (Event user)) :
    RunMeets (step user sorting) (SafeToRemove user sorting) {} events ↔
      RunMeets (step user sorting) (Allowed user) {} events := by
  have start : Settled user ({} : MessageReactions Peer) := by
    refine ⟨⟨nodup_nil, ?_, ?_⟩, ?_⟩
    · intro one member
      cases member
    · intro id known
      cases known
    · intro one member
      cases member
  have kept : ∀ state event next, Settled user state → Allowed user state event →
      step user sorting state event = some next → Settled user next := by
    intro state event next settled allowed taken
    obtain ⟨after, isAfter, settledAfter, -⟩ := settled.step sorting allowed
    obtain rfl := Option.some.inj (isAfter.symm.trans taken)
    exact settledAfter
  constructor
  · apply RunMeets.of_invariant _ (fun state event settled => (settled.safeToRemove_iff sorting).mp)
      start
    intro state event next settled safe taken
    exact kept state event next settled ((settled.safeToRemove_iff sorting).mp safe) taken
  · exact RunMeets.of_invariant kept
      (fun state event settled => (settled.safeToRemove_iff sorting).mpr) start

def Sorting.insertion : Sorting where
  sort proj list := list.insertionSort fun first second => proj first ≤ proj second
  perm _ _ := List.perm_insertionSort _ _
  ordered proj list := by
    have total : Std.Total fun first second => proj first ≤ proj second :=
      ⟨fun first second => le_total (proj first) (proj second)⟩
    have trans : IsTrans MessageReaction fun first second => proj first ≤ proj second :=
      ⟨fun _ _ _ => le_trans⟩
    exact List.pairwise_insertionSort _ list

def takenOver : Report 1 where
  list := [⟨.custom 5, none, 1⟩]
  recent := [⟨.custom 5, ⟨2, false, false⟩⟩]
  min := true
  holders _ := {2}
  distinct := by decide
  positive := by decide
  counted := by decide
  marked := by decide
  held := by decide
  once := by decide

/-- An own mark that a list without marks keeps: the reaction of the other peer is removed
with it, and an assertion fails. -/
theorem not_safe_takenOver :
    ¬∀ events, RunMeets (step 1 Sorting.insertion) (Safe 1 Sorting.insertion) {} events := by
  intro safe
  have last := (safe ([.add (.custom 5) 1 true, .answered, .change takenOver] ++
    [.remove (.custom 5)])).at_event rfl
  obtain ⟨next, removed, -⟩ := last
  cases removed

end TelegramDesktop.MessageReactions
