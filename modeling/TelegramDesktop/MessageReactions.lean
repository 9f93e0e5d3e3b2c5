import TelegramDesktop.FlatMapGroups
import TelegramDesktop.FlatSet
import TelegramDesktop.KeyedLists
import TelegramDesktop.Runs
import Mathlib.Algebra.Group.Int.Defs
import Mathlib.Data.List.Lex
import Mathlib.Data.Sum.Order

/-!
# Reactions of a message

The reactions of one message with their counts, own marks and recent peers, as they are
changed by the user and by the lists that the server sends, as in
`data/data_message_reactions.cpp`.
-/

namespace TelegramDesktop

/-- An emoji as a text, or the document of a custom one. -/
inductive ReactionId
  | emoji (text : List Nat)
  | custom (document : Nat)
  deriving DecidableEq

namespace ReactionId

def empty : ReactionId → Bool
  | emoji text => text.isEmpty
  | custom _ => false

def data : ReactionId → List Nat ⊕ₗ Nat
  | emoji text => Sum.inlₗ text
  | custom document => Sum.inrₗ document

theorem data_injective : Function.Injective data := by
  intro first second same
  cases first <;> cases second <;> cases same <;> rfl

instance : LinearOrder ReactionId := LinearOrder.lift' data data_injective

end ReactionId

/-- A reaction, its count, and whether it is the user's own. -/
structure MessageReaction where
  id : ReactionId
  count : Int := 0
  my : Bool := false
  deriving DecidableEq

/-- A peer who reacted lately. -/
structure RecentReaction (Peer : Type*) where
  peer : Peer
  unread : Bool := false
  big : Bool := false
  deriving DecidableEq

/-- `sending` tells whether a request with the own reactions waits for its answer. -/
structure MessageReactions (Peer : Type*) where
  list : List MessageReaction := []
  recent : FlatMap ReactionId (List (RecentReaction Peer)) := ∅
  sending : Bool := false

namespace MessageReactions

variable {Peer : Type*} [DecidableEq Peer] (self : Peer)

abbrev Recent (Peer : Type*) := FlatMap ReactionId (List (RecentReaction Peer))

/-- The recent reactions of others. -/
def others (peers : List (RecentReaction Peer)) : List (RecentReaction Peer) :=
  peers.filter fun one => one.peer ≠ self

/-- Is one of the reactions one's own? -/
def hasSelf (peers : List (RecentReaction Peer)) : Bool := peers.any fun one => one.peer = self

/-- The user is erased from the recent peers of a reaction that loses the own mark.  If
others are left, the reaction may not be removed. -/
def withdraw (one : MessageReaction) (recent : Recent Peer) : Option (Recent Peer) :=
  match recent.find? one.id with
  | none => some recent
  | some peers =>
    if others self peers = [] then some (recent.erase one.id)
    else if one.count - 1 = 0 then none
    else some (recent.set one.id (others self peers))

/-- The loop of `remove_if` in `add`, with `my` own reactions so far. -/
def removeMine (myLimit : Int) :
    Int → List MessageReaction → Recent Peer → Option (List MessageReaction × Recent Peer)
  | _, [], recent => some ([], recent)
  | my, one :: rest, recent =>
    if one.my && (my == myLimit || my + 1 == myLimit) then
      (withdraw self one recent).bind fun recent =>
        (removeMine myLimit myLimit rest recent).map fun left =>
          if one.count - 1 = 0 then left
          else ({ one with my := false, count := one.count - 1 } :: left.1, left.2)
    else
      (removeMine myLimit (if one.my then my + 1 else my) rest recent).map fun left =>
        (one :: left.1, left.2)

/-- One's own reaction is counted and marked. -/
def pushMine (id : ReactionId) (list : List MessageReaction) : List MessageReaction :=
  match list.find? (·.id = id) with
  | some one => eraseByKey (·.id) id list ++ [{ one with my := true, count := one.count + 1 }]
  | none => list ++ [⟨id, 1, true⟩]

/-- The reactions one has chosen. -/
def chosen (state : MessageReactions Peer) : List ReactionId :=
  (state.list.filter (·.my)).map (·.id)

/-- `viewable` is `canViewReactions() || peer->isUser()`. -/
def add (myLimit : Int) (viewable : Bool) (id : ReactionId) (state : MessageReactions Peer) :
    Option (MessageReactions Peer) :=
  if id.empty then none
  else if id ∈ state.chosen then some state
  else
    (removeMine self myLimit 0 state.list state.recent).map fun left =>
      { list := pushMine id left.1
        recent :=
          if viewable then left.2.set id (⟨self, false, false⟩ :: (left.2.find? id).getD [])
          else left.2
        sending := true }

/-- One's own reaction is taken back. -/
def remove (id : ReactionId) (state : MessageReactions Peer) : Option (MessageReactions Peer) :=
  match state.list.find? (·.id = id) with
  | none => if state.recent.contains id then none else some state
  | some one =>
    if one.my then
      (withdraw self one state.recent).map fun recent =>
        { list :=
            if one.count - 1 = 0 then eraseByKey (·.id) id state.list
            else placeByKey (·.id) { one with my := false, count := one.count - 1 } state.list
          recent := recent
          sending := true }
    else if (state.recent.find? id).any (hasSelf self) then none
    else some state

/-- A reaction as the server counts it. -/
structure ReactionCount where
  id : ReactionId
  chosenOrder : Option Int := none
  count : Int
  deriving DecidableEq

/-- A recent reaction as the server sends it. -/
structure PeerReaction (Peer : Type*) where
  id : ReactionId
  recent : RecentReaction Peer
  deriving DecidableEq

/-- What `change` has done while it goes through the counts. -/
structure Changing where
  list : List MessageReaction
  changed : Bool := false
  existing : FlatSet ReactionId := ∅
  order : FlatMap ReactionId Int := ∅

variable (ignoreChosen : Bool)

def nowMy (was : Option MessageReaction) (count : ReactionCount) : Bool :=
  if ignoreChosen then was.any (·.my) else count.chosenOrder.isSome

/-- A reaction is changed at its place, or a new one comes last. -/
def Changing.applyCount (changing : Changing) (count : ReactionCount) : Changing :=
  let was := changing.list.find? (·.id = count.id)
  let now : MessageReaction := ⟨count.id, count.count, nowMy ignoreChosen was count⟩
  { list := placeByKey (·.id) now changing.list
    changed := changing.changed || was != some now
    existing := changing.existing.insert count.id
    order :=
      match count.chosenOrder with
      | some place => if ignoreChosen then changing.order else changing.order.set count.id place
      | none => changing.order }

/-- Sorting by a projection, with any order of what has the same one. -/
structure Sorting where
  sort : (MessageReaction → Int) → List MessageReaction → List MessageReaction
  perm : ∀ proj list, (sort proj list).Perm list
  ordered : ∀ proj list, (sort proj list).Pairwise fun first second => proj first ≤ proj second

def intMin : Int := -2 ^ 31

/-- Where a reaction is sorted: its chosen order, the others first. -/
def proj (order : FlatMap ReactionId Int) (reaction : MessageReaction) : Int :=
  if reaction.my then (order.find? reaction.id).getD 0 else intMin

/-- Are one's own reactions already in order? -/
def correctOrder (order : FlatMap ReactionId Int) : Int → List MessageReaction → Bool
  | _, [] => true
  | previousOrder, reaction :: rest =>
    previousOrder ≤ proj order reaction && correctOrder order (proj order reaction) rest

variable (sorting : Sorting)

/-- The list is sorted when the chosen order is not kept. -/
def Changing.sort (changing : Changing) : Changing :=
  if ignoreChosen || changing.order.isEmpty then changing
  else if correctOrder changing.order intMin changing.list then changing
  else
    { changing with
      changed := true
      list := sorting.sort (proj changing.order) changing.list }

/-- What the server no longer lists is erased. -/
def Changing.eraseMissing (changing : Changing) : Changing :=
  if changing.list.length = changing.existing.size then changing
  else
    { changing with
      changed := true
      list := changing.list.filter (·.id ∈ changing.existing) }

/-- One more recent peer, unless there are as many as the reaction counts. -/
def pushRecent (count : Int) (peers : List (RecentReaction Peer)) (one : RecentReaction Peer) :
    List (RecentReaction Peer) :=
  if (peers.length : Int) < count then peers ++ [one] else peers

def parseRecent (list : List MessageReaction) (parsed : Recent Peer)
    (reaction : PeerReaction Peer) : Recent Peer :=
  match list.find? (·.id = reaction.id) with
  | some one => parsed.amend [] (pushRecent one.count) (reaction.id, reaction.recent)
  | none => parsed

/-- All counts of the server are applied. -/
def changeList (list : List ReactionCount) (state : MessageReactions Peer) : Changing :=
  ((list.foldl (Changing.applyCount ignoreChosen) { list := state.list }).sort
    ignoreChosen sorting).eraseMissing

/-- The reactions after the server list, and whether they have changed. -/
def change (list : List ReactionCount) (recent : List (PeerReaction Peer))
    (state : MessageReactions Peer) : MessageReactions Peer × Bool :=
  if state.sending then (state, false)
  else
    let changing := changeList ignoreChosen sorting list state
    let parsed := recent.foldl (parseRecent changing.list) ∅
    ({ state with list := changing.list, recent := parsed },
      changing.changed || state.recent.entries != parsed.entries)

end MessageReactions

end TelegramDesktop
