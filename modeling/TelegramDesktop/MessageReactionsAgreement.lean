import TelegramDesktop.MessageReactions

/-!
# Agreement of the reactions of a message

Counts, own marks and recent peers are three views of the same reactions.  Where they
agree, own marks are added and removed without a failing assertion, and they still agree.
-/

namespace TelegramDesktop.MessageReactions

open List FlatMap Option

variable {Peer : Type*} [DecidableEq Peer] (user : Peer)

/-- Recent peers of the reaction are some, and not more than it counts. -/
structure Counted (recent : Recent Peer) (one : MessageReaction) : Prop where
  positive : 1 ≤ one.count
  filled : ∀ peers, recent.find? one.id = some peers → peers ≠ []
  within : ∀ peers, recent.find? one.id = some peers → (peers.length : Int) ≤ one.count

/-- Every reaction is listed once, and the peers that are known count no more than it says. -/
structure Consistent (state : MessageReactions Peer) : Prop where
  distinct : (state.list.map (·.id)).Nodup
  counted : ∀ one ∈ state.list, Counted state.recent one
  known : ∀ id, state.recent.contains id = true → id ∈ state.list.map (·.id)

/-- The user is a recent peer of own reactions only, and the others fit in the count
without the user. -/
structure Marked (recent : Recent Peer) (one : MessageReaction) : Prop where
  notMine : one.my = false → ∀ peers, recent.find? one.id = some peers →
    hasSelf user peers = false
  mine : one.my = true → ∀ peers, recent.find? one.id = some peers →
    ((others user peers).length : Int) < one.count

/-- The user is among the recent peers of a reaction exactly if it is marked as their own. -/
structure Settled (state : MessageReactions Peer) : Prop extends Consistent state where
  marked : ∀ one ∈ state.list, Marked user state.recent one

section Agreement

variable {user} {recent left : Recent Peer} {one : MessageReaction} {id : ReactionId}
  {peers : List (RecentReaction Peer)} {list : List MessageReaction}
  {state : MessageReactions Peer}

@[simp] theorem hasSelf_others : hasSelf user (others user peers) = false := by
  simp [hasSelf, others]

variable (user peers) in
theorem length_others_le : (others user peers).length ≤ peers.length :=
  length_filter_le _ _

omit [DecidableEq Peer] in
theorem Counted.congr (counted : Counted recent one)
    (same : left.find? one.id = recent.find? one.id) : Counted left one where
  positive := counted.positive
  filled peers found := counted.filled peers (same ▸ found)
  within peers found := counted.within peers (same ▸ found)

theorem Marked.congr (marked : Marked user recent one)
    (same : left.find? one.id = recent.find? one.id) : Marked user left one where
  notMine own peers found := marked.notMine own peers (same ▸ found)
  mine own peers found := marked.mine own peers (same ▸ found)

/-- A reaction loses its own mark: what is left of it agrees, and so does everything else. -/
theorem exists_withdraw (marked : Marked user recent one) (mine : one.my = true) :
    ∃ left, withdraw user one recent = some left ∧
      (∀ id, id ≠ one.id → left.find? id = recent.find? id) ∧
      ∀ peers, left.find? one.id = some peers →
        peers ≠ [] ∧ (peers.length : Int) ≤ one.count - 1 ∧ hasSelf user peers = false := by
  unfold withdraw
  cases found : recent.find? one.id with
  | none =>
    refine ⟨recent, rfl, fun _ _ => rfl, fun peers known => ?_⟩
    rw [found] at known
    cases known
  | some peers =>
    have few := marked.mine mine peers found
    dsimp only
    split_ifs with alone last
    · refine ⟨_, rfl, fun id other => ?_, fun peers known => ?_⟩
      · rw [find?_erase, if_neg other]
      · rw [find?_erase, if_pos rfl] at known
        cases known
    · have some : (others user peers).length ≠ 0 := fun none =>
        alone (length_eq_zero_iff.mp none)
      omega
    · refine ⟨_, rfl, fun id other => ?_, fun peers known => ?_⟩
      · rw [find?_set, if_neg other]
      · rw [find?_set, if_pos rfl] at known
        cases known
        exact ⟨alone, by omega, hasSelf_others⟩

theorem left_fits (counted : Counted recent one) (more : one.count - 1 ≠ 0)
    (kept : ∀ peers, left.find? one.id = some peers →
      peers ≠ [] ∧ (peers.length : Int) ≤ one.count - 1 ∧ hasSelf user peers = false) :
    Counted left { one with my := false, count := one.count - 1 } ∧
      Marked user left { one with my := false, count := one.count - 1 } := by
  have positive := counted.positive
  constructor
  · constructor
    · dsimp only
      omega
    · exact fun peers found => (kept peers found).1
    · exact fun peers found => (kept peers found).2.1
  · constructor
    · exact fun _ peers found => (kept peers found).2.2
    · intro mine
      cases mine

theorem left_eq_none (last : one.count - 1 = 0)
    (kept : ∀ peers, left.find? one.id = some peers →
      peers ≠ [] ∧ (peers.length : Int) ≤ one.count - 1 ∧ hasSelf user peers = false) :
    left.contains one.id = false := by
  cases found : left.find? one.id with
  | none => rw [FlatMap.contains, found, Option.isSome_none]
  | some peers =>
    obtain ⟨filled, few, -⟩ := kept peers found
    have none : peers.length = 0 := by omega
    exact absurd (length_eq_zero_iff.mp none) filled

theorem find?_id_eq_some (distinct : (list.map (·.id)).Nodup) :
    list.find? (fun one => one.id = id) = some one ↔ one ∈ list ∧ one.id = id := by
  constructor
  · intro found
    exact ⟨mem_of_find?_eq_some found, by simpa using find?_some found⟩
  · rintro ⟨member, rfl⟩
    cases found : list.find? fun other => other.id = one.id with
    | none =>
      rw [find?_eq_none] at found
      exact absurd (decide_eq_true rfl) (found one member)
    | some other =>
      have same : other.id = one.id := by simpa using find?_some found
      rw [inj_on_of_nodup_map distinct (mem_of_find?_eq_some found) member same]

theorem find?_id_eq_none :
    list.find? (fun one => one.id = id) = none ↔ id ∉ list.map (·.id) := by
  simp [find?_eq_none]

theorem Settled.update (settled : Settled user state) (id : ReactionId) {sending : Bool}
    (distinct : (list.map (·.id)).Nodup)
    (entries : ∀ one ∈ list,
      (one ∈ state.list ∧ one.id ≠ id) ∨ (Counted left one ∧ Marked user left one))
    (elsewhere : ∀ one ∈ state.list, one.id ≠ id → one.id ∈ list.map (·.id))
    (same : ∀ other, other ≠ id → left.find? other = state.recent.find? other)
    (known : left.contains id = true → id ∈ list.map (·.id)) :
    Settled user ⟨list, left, sending⟩ := by
  refine ⟨⟨distinct, ?_, ?_⟩, ?_⟩
  · intro one member
    rcases entries one member with ⟨kept, other⟩ | changed
    · exact (settled.counted one kept).congr (same one.id other)
    · exact changed.1
  · intro other there
    by_cases here : other = id
    · subst here
      exact known there
    · rw [FlatMap.contains, same other here] at there
      obtain ⟨one, member, rfl⟩ := mem_map.mp (settled.known other there)
      exact elsewhere one member here
  · intro one member
    rcases entries one member with ⟨kept, other⟩ | changed
    · exact (settled.marked one kept).congr (same one.id other)
    · exact changed.2

/-- What the list has in the place of a reaction that loses its own mark. -/
def lowered (one : MessageReaction) : List MessageReaction :=
  if one.count - 1 = 0 then [] else [{ one with my := false, count := one.count - 1 }]

theorem mem_lowered {other : MessageReaction} (member : other ∈ lowered one) :
    one.count - 1 ≠ 0 ∧ other = { one with my := false, count := one.count - 1 } := by
  unfold lowered at member
  split_ifs at member with last
  · cases member
  · exact ⟨last, mem_singleton.mp member⟩

theorem Settled.exists_withdraw {before after : List MessageReaction} {sending : Bool}
    (settled : Settled user ⟨before ++ one :: after, recent, sending⟩) (mine : one.my = true)
    (nowSending : Bool) :
    ∃ left, withdraw user one recent = some left ∧
      Settled user ⟨before ++ (lowered one ++ after), left, nowSending⟩ := by
  have member : one ∈ before ++ one :: after := by simp
  obtain ⟨left, withdrawn, same, kept⟩ :=
    MessageReactions.exists_withdraw (settled.marked one member) mine
  refine ⟨left, withdrawn, ?_⟩
  have ids : ((before ++ one :: after).map (·.id)).Nodup := settled.distinct
  rw [map_append, map_cons, nodup_middle, nodup_cons, ← map_append] at ids
  have differs : ∀ other ∈ before ++ after, other.id ≠ one.id := fun other there equal =>
    ids.1 (equal ▸ mem_map_of_mem there)
  have remains : ∀ other, other ∈ before ++ (lowered one ++ after) ↔
      other ∈ lowered one ∨ other ∈ before ++ after := by
    intro other
    simp only [mem_append]
    tauto
  apply settled.update one.id
  · unfold lowered
    split_ifs
    · simpa using ids.2
    · simpa using settled.distinct
  · intro other there
    rcases (remains other).mp there with changed | there
    · obtain ⟨more, rfl⟩ := mem_lowered changed
      exact .inr (left_fits (settled.counted one member) more kept)
    · refine .inl ⟨?_, differs other there⟩
      simp only [mem_append, mem_cons] at there ⊢
      tauto
  · intro other there notOne
    apply List.mem_map_of_mem
    rw [remains]
    simp only [mem_append, mem_cons] at there ⊢
    tauto
  · exact same
  · intro known
    have more : one.count - 1 ≠ 0 := by
      intro last
      rw [left_eq_none last kept] at known
      cases known
    refine mem_map.mpr ⟨{ one with my := false, count := one.count - 1 }, ?_, rfl⟩
    rw [remains, lowered, if_neg more]
    exact .inl (mem_singleton.mpr rfl)

theorem Settled.remove (settled : Settled user state) (id : ReactionId) :
    ∃ next, state.remove user id = some next ∧ Settled user next := by
  unfold MessageReactions.remove
  cases found : state.list.find? fun one => one.id = id with
  | none =>
    have unknown : state.recent.contains id = false := by
      rw [← Bool.not_eq_true]
      exact fun known => find?_id_eq_none.mp found (settled.known id known)
    exact ⟨state, by rw [unknown]; rfl, settled⟩
  | some one =>
    obtain ⟨member, rfl⟩ := (find?_id_eq_some settled.distinct).mp found
    dsimp only
    cases mine : one.my with
    | false =>
      have absent : (state.recent.find? one.id).any (hasSelf user) = false := by
        cases known : state.recent.find? one.id with
        | none => rfl
        | some peers => exact (settled.marked one member).notMine mine peers known
      exact ⟨state, by rw [absent]; rfl, settled⟩
    | true =>
      obtain ⟨list, recent, sending⟩ := state
      obtain ⟨before, after, rfl⟩ := append_of_mem member
      obtain ⟨left, withdrawn, settledLeft⟩ := settled.exists_withdraw mine true
      have ids : ((before ++ one :: after).map (·.id)).Nodup := settled.distinct
      rw [map_append, map_cons, nodup_middle, nodup_cons, mem_append, not_or] at ids
      rw [if_pos rfl, withdrawn, map_some]
      refine ⟨_, rfl, ?_⟩
      have placed : placeByKey (·.id) { one with my := false, count := one.count - 1 }
          (before ++ one :: after) =
            before ++ { one with my := false, count := one.count - 1 } :: after :=
        placeByKey_split rfl ids.1.1
      rw [eraseByKey_split rfl ids.1.1, placed]
      unfold lowered at settledLeft
      split_ifs at settledLeft ⊢
      · exact settledLeft
      · exact settledLeft

theorem removeMine_cons (myLimit my : Int) :
    removeMine user myLimit my (one :: list) recent =
      if one.my && (my == myLimit || my + 1 == myLimit) then
        (withdraw user one recent).bind fun recent =>
          (removeMine user myLimit myLimit list recent).map fun after =>
            (lowered one ++ after.1, after.2)
      else
        (removeMine user myLimit (if one.my then my + 1 else my) list recent).map fun after =>
          (one :: after.1, after.2) := by
  rw [removeMine]
  unfold lowered
  split_ifs <;> rfl

/-- The loop that makes place for a new reaction keeps the agreement.  The reactions before
the place of the loop are `done`. -/
theorem exists_removeMine (myLimit my : Int) (done : List MessageReaction) {sending : Bool}
    (settled : Settled user ⟨done ++ list, recent, sending⟩) :
    ∃ after, removeMine user myLimit my list recent = some after ∧
      Settled user ⟨done ++ after.1, after.2, sending⟩ := by
  induction list generalizing my recent done with
  | nil => exact ⟨_, rfl, settled⟩
  | cons one list ih =>
    rw [removeMine_cons]
    by_cases removing : (one.my && (my == myLimit || my + 1 == myLimit)) = true
    · rw [if_pos removing]
      obtain ⟨mine, -⟩ := Bool.and_eq_true_iff.mp removing
      obtain ⟨left, withdrawn, settledLeft⟩ := settled.exists_withdraw mine sending
      rw [← append_assoc] at settledLeft
      obtain ⟨after, removed, settledAfter⟩ := ih myLimit _ settledLeft
      rw [withdrawn, bind_some, removed, map_some]
      rw [append_assoc] at settledAfter
      exact ⟨_, rfl, settledAfter⟩
    · rw [if_neg removing]
      rw [append_cons] at settled
      obtain ⟨after, removed, settledAfter⟩ := ih (if one.my then my + 1 else my) _ settled
      rw [removed, map_some]
      rw [← append_cons] at settledAfter
      exact ⟨_, rfl, settledAfter⟩

theorem countP_removeMine {myLimit my : Int} {after : List MessageReaction × Recent Peer}
    (below : my < myLimit ∨ my = myLimit)
    (removed : removeMine user myLimit my list recent = some after) :
    (my = myLimit → after.1.countP (·.my) = 0) ∧
      (my < myLimit → my + after.1.countP (·.my) < myLimit) := by
  induction list generalizing my recent after with
  | nil =>
    cases removed
    simp
  | cons one list ih =>
    have noMine : (lowered one).countP (·.my) = 0 := by
      rw [countP_eq_zero]
      intro other there
      rw [(mem_lowered there).2]
      exact Bool.false_ne_true
    rw [removeMine_cons] at removed
    split_ifs at removed with removing own
    · obtain ⟨left, -, removed⟩ := bind_eq_some_iff.mp removed
      obtain ⟨rest, later, rfl⟩ := map_eq_some_iff.mp removed
      have none := (ih (.inr rfl) later).1 rfl
      rw [countP_append, noMine, none]
      omega
    · obtain ⟨rest, later, rfl⟩ := map_eq_some_iff.mp removed
      simp only [own, Bool.true_and, Bool.or_eq_true, beq_iff_eq, not_or] at removing
      have few := (ih (by omega) later).2 (by omega)
      have more : (one :: rest.1).countP (·.my) = rest.1.countP (·.my) + 1 := by simp [own]
      dsimp only
      omega
    · obtain ⟨rest, later, rfl⟩ := map_eq_some_iff.mp removed
      have few := ih below later
      have same : (one :: rest.1).countP (·.my) = rest.1.countP (·.my) := by simp [own]
      rwa [← same] at few

omit [DecidableEq Peer] in
theorem length_chosen : state.chosen.length = state.list.countP (·.my) := by
  rw [chosen, length_map, countP_eq_length_filter]

/-- The recent reactions after one's own is added. -/
def recentAfterAdd (user : Peer) (viewable : Bool) (id : ReactionId) (recent : Recent Peer) :
    Recent Peer :=
  if viewable then recent.set id (⟨user, false, false⟩ :: (recent.find? id).getD []) else recent

omit [DecidableEq Peer] in
theorem find?_recentAfterAdd {viewable : Bool} {other : ReactionId} (differs : other ≠ id) :
    (recentAfterAdd user viewable id recent).find? other = recent.find? other := by
  unfold recentAfterAdd
  split
  · rw [find?_set, if_neg differs]
  · rfl

theorem fits_recentAfterAdd {viewable : Bool} {count : Int} (positive : 0 ≤ count)
    (filled : ∀ peers, recent.find? id = some peers → peers ≠ [])
    (within : ∀ peers, recent.find? id = some peers → (peers.length : Int) ≤ count) :
    Counted (recentAfterAdd user viewable id recent) ⟨id, count + 1, true⟩ ∧
      Marked user (recentAfterAdd user viewable id recent) ⟨id, count + 1, true⟩ := by
  have shape : ∀ peers, (recentAfterAdd user viewable id recent).find? id = some peers →
      peers ≠ [] ∧ (peers.length : Int) ≤ count + 1 ∧
        ((others user peers).length : Int) ≤ count := by
    intro peers found
    unfold recentAfterAdd at found
    split at found
    · rw [find?_set, if_pos rfl] at found
      cases found
      have old : (((recent.find? id).getD []).length : Int) ≤ count := by
        cases known : recent.find? id with
        | none => simpa using positive
        | some peers => exact within peers known
      have less := length_others_le user ((recent.find? id).getD [])
      refine ⟨cons_ne_nil _ _, ?_, ?_⟩
      · rw [length_cons]
        omega
      · rw [others, filter_cons_of_neg (by simp), ← others]
        omega
    · have less := length_others_le user peers
      have few := within peers found
      exact ⟨filled peers found, by omega, by omega⟩
  constructor
  · constructor
    · dsimp only
      omega
    · exact fun peers found => (shape peers found).1
    · exact fun peers found => (shape peers found).2.1
  · constructor
    · intro mine
      cases mine
    · intro _ peers found
      have few := (shape peers found).2.2
      dsimp only
      omega

theorem mem_pushMine (distinct : (list.map (·.id)).Nodup) (member : one ∈ list)
    {other : MessageReaction} :
    other ∈ pushMine one.id list ↔ (other ∈ list ∧ other.id ≠ one.id) ∨
      other = { one with my := true, count := one.count + 1 } := by
  rw [pushMine, (find?_id_eq_some distinct).mpr ⟨member, rfl⟩]
  simp only [mem_append, mem_eraseByKey_iff distinct, mem_singleton]

theorem pushMine_new (absent : id ∉ list.map (·.id)) :
    pushMine id list = list ++ [⟨id, 1, true⟩] := by
  rw [pushMine, find?_id_eq_none.mpr absent]

theorem nodup_pushMine (distinct : (list.map (·.id)).Nodup) :
    ((pushMine id list).map (·.id)).Nodup := by
  by_cases present : id ∈ list.map (·.id)
  · obtain ⟨one, member, rfl⟩ := mem_map.mp present
    rw [pushMine, (find?_id_eq_some distinct).mpr ⟨member, rfl⟩]
    rw [map_append, map_singleton, ← concat_eq_append]
    apply (nodup_eraseByKey one.id distinct).concat
    intro there
    obtain ⟨other, remains, equal⟩ := mem_map.mp there
    exact ((mem_eraseByKey_iff distinct).mp remains).2 equal
  · rw [pushMine_new present, map_append, map_singleton, ← concat_eq_append]
    exact distinct.concat present

theorem mem_ids_pushMine (distinct : (list.map (·.id)).Nodup) {other : ReactionId} :
    other ∈ (pushMine id list).map (·.id) ↔ other = id ∨ other ∈ list.map (·.id) := by
  by_cases present : id ∈ list.map (·.id)
  · obtain ⟨one, member, rfl⟩ := mem_map.mp present
    simp only [List.mem_map, mem_pushMine distinct member]
    constructor
    · rintro ⟨found, ⟨there, -⟩ | rfl, rfl⟩
      · exact .inr ⟨found, there, rfl⟩
      · exact .inl rfl
    · rintro (rfl | ⟨found, there, rfl⟩)
      · exact ⟨_, .inr rfl, rfl⟩
      · by_cases same : found.id = one.id
        · exact ⟨_, .inr rfl, same.symm⟩
        · exact ⟨found, .inl ⟨there, same⟩, rfl⟩
  · rw [pushMine_new present]
    simp [or_comm]

theorem countP_pushMine (list : List MessageReaction) (id : ReactionId) :
    1 ≤ (pushMine id list).countP (·.my) ∧
      (pushMine id list).countP (·.my) ≤ list.countP (·.my) + 1 := by
  unfold pushMine
  cases list.find? fun one => one.id = id with
  | none => simp
  | some one =>
    have fewer := Sublist.countP_le (p := fun one : MessageReaction => one.my)
      (eraseP_sublist (p := fun one => decide (one.id = id)) (l := list))
    simp only [countP_append, countP_singleton, eraseByKey, if_true]
    omega

theorem Settled.pushMine (settled : Settled user state) (viewable sending : Bool) :
    Settled user ⟨pushMine id state.list, recentAfterAdd user viewable id state.recent,
      sending⟩ := by
  have distinct := settled.distinct
  have known : state.recent.contains id = true → id ∈ state.list.map (·.id) := settled.known id
  apply settled.update id (nodup_pushMine distinct)
  · intro other there
    by_cases present : id ∈ state.list.map (·.id)
    · obtain ⟨one, member, rfl⟩ := mem_map.mp present
      rcases (mem_pushMine distinct member).mp there with kept | rfl
      · exact .inl kept
      · have counted := settled.counted one member
        have positive := counted.positive
        exact .inr (fits_recentAfterAdd (by omega) counted.filled counted.within)
    · rw [pushMine_new present, mem_append, mem_singleton] at there
      rcases there with there | rfl
      · exact .inl ⟨there, fun same => present (mem_map.mpr ⟨other, there, same⟩)⟩
      · right
        have none : ∀ peers, state.recent.find? id ≠ some peers := fun peers found =>
          present (known (by rw [FlatMap.contains, found]; rfl))
        exact fits_recentAfterAdd le_rfl (fun peers found => absurd found (none peers))
          fun peers found => absurd found (none peers)
  · exact fun one there _ => (mem_ids_pushMine distinct).mpr (.inr (mem_map_of_mem there))
  · exact fun other differs => find?_recentAfterAdd differs
  · exact fun _ => (mem_ids_pushMine distinct).mpr (.inl rfl)

theorem Settled.add (settled : Settled user state) (filled : id.empty = false) (myLimit : Int)
    (viewable : Bool) :
    ∃ next, state.add user myLimit viewable id = some next ∧ Settled user next ∧
      (id ∈ state.chosen → next = state) ∧
      (id ∉ state.chosen → 1 ≤ next.chosen.length ∧
        (1 ≤ myLimit → (next.chosen.length : Int) ≤ myLimit)) := by
  unfold MessageReactions.add
  rw [if_neg (by simp [filled])]
  by_cases chosen : id ∈ state.chosen
  · rw [if_pos chosen]
    exact ⟨state, rfl, settled, fun _ => rfl, fun absent => absurd chosen absent⟩
  · rw [if_neg chosen]
    obtain ⟨after, removed, settledAfter⟩ := exists_removeMine myLimit 0 [] settled
    rw [removed, map_some]
    refine ⟨_, rfl, Settled.pushMine settledAfter viewable true, fun there => absurd there chosen,
      fun _ => ?_⟩
    obtain ⟨some, few⟩ := countP_pushMine after.1 id
    rw [length_chosen]
    refine ⟨some, fun positive => ?_⟩
    have below := (countP_removeMine (.inl (by omega)) removed).2 (by omega)
    dsimp only
    omega

end Agreement

end TelegramDesktop.MessageReactions
