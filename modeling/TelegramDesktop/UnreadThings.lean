import TelegramDesktop.FlatSet
import TelegramDesktop.Runs

/-!
# Unread mentions and reactions of a history

The counters of `history/history_unread_things.cpp`, and the set of ids that they count on
the server.  Both kinds share one storage, which is made when it is needed and dropped when
both counters are zero.
-/

namespace TelegramDesktop.HistoryUnreadThings

open FlatSet Option

/-- Whether a message is new or was there before. -/
inductive AddType
  | new
  | existing
  deriving DecidableEq

/-- `Type` of the source -/
inductive Kind
  | mentions
  | reactions
  deriving DecidableEq

def Kind.other : Kind → Kind
  | mentions => reactions
  | reactions => mentions

/-- `List` of the source -/
@[ext] structure Things where
  count : Option Int := none
  messages : FlatSet Int := ∅
  deriving DecidableEq

def Things.loadedCount (list : Things) : Int := list.messages.size

/-- The unread things of both kinds. -/
structure All where
  mentions : Things := {}
  reactions : Things := {}
  deriving DecidableEq

namespace All

def list (all : All) : Kind → Things
  | .mentions => all.mentions
  | .reactions => all.reactions

def update (all : All) (kind : Kind) (list : Things) : All :=
  match kind with
  | .mentions => { all with mentions := list }
  | .reactions => { all with reactions := list }

@[simp] theorem list_update (all : All) (kind : Kind) (list : Things) :
    (all.update kind list).list kind = list := by
  cases kind <;> rfl

@[simp] theorem list_update_other (all : All) (kind : Kind) (list : Things) :
    (all.update kind list).list kind.other = all.list kind.other := by
  cases kind <;> rfl

def create (known : Bool) : All :=
  if known then { mentions := { count := some 0 }, reactions := { count := some 0 } } else {}

theorem list_create (known : Bool) (kind : Kind) :
    (create known).list kind = { count := if known then some 0 else none } := by
  cases known <;> cases kind <;> rfl

end All

/-- The part of a history that the proxies are made of; a broadcast is a channel that is no
megagroup. -/
structure History where
  isBroadcast : Bool := false
  unreadThings : Option All := none
  unreadThingsKnown : Bool := false
  deriving DecidableEq

/-- A message of an answer. -/
structure Item where
  id : Int
  /-- `isUnreadMention` or `hasUnreadReaction` of the added message -/
  isUnread : Bool

/-- An answer of the server. -/
inductive Slice
  | messagesNotModified
  | messages (messages : List Item)
  | messagesSlice (count : Int) (messages : List Item)
  | channelMessages (count : Int) (messages : List Item)

namespace Slice

def fullCount : Slice → Int
  | .messagesNotModified => 0
  | .messages items => items.length
  | .messagesSlice count _ => count
  | .channelMessages count _ => count

def items : Slice → List Item
  | .messagesNotModified => []
  | .messages items => items
  | .messagesSlice _ items => items
  | .channelMessages _ items => items

/-- The unread ones of a slice. -/
def unread (slice : Slice) : List Int := (slice.items.filter (·.isUnread)).map Item.id

end Slice

namespace History

variable (history : History) (kind : Kind)

def list? : Option Things := history.unreadThings.map (·.list kind)

def loadedCount : Int := (history.list? kind).elim 0 Things.loadedCount

def count (notKnownValue : Int) : Int :=
  match history.list? kind with
  | some list => list.count.getD notKnownValue
  | none => if history.unreadThingsKnown then 0 else notKnownValue

/-- Is something known to be unread? -/
def has : Bool := (history.list? kind).any fun list => 0 < list.count.getD (-1)

/-- The list of one kind is changed. -/
def modify (change : Things → Things) : History :=
  { history with
    unreadThings := history.unreadThings.map fun all => all.update kind (change (all.list kind)) }

/-- The storage, made where there is none -/
def data : All := history.unreadThings.getD (.create history.unreadThingsKnown)

def createData : History := { history with unreadThings := some history.data }

/-- The count the server gives. -/
def setCount (count : Int) : History :=
  if history.unreadThings = none ∧ count = 0 then { history with unreadThingsKnown := true }
  else
    let list := history.data.list kind
    let counted := max list.loadedCount count
    { history with
      unreadThings :=
        if counted = 0 ∧ (history.data.list kind.other).count.getD (-1) = 0 then none
        else some (history.data.update kind { list with count := some counted })
      unreadThingsKnown := true }

def insert (msgId : Int) : History :=
  history.modify kind fun list => { list with messages := list.messages.insert msgId }

/-- A message with an unread thing. -/
def add (msgId : Int) (type : AddType) : History × Bool :=
  if history.isBroadcast then (history, false)
  else
    let list := (history.createData.list? kind).getD {}
    let count := list.count.getD (-1)
    if 0 ≤ count ∧ count ≤ list.loadedCount then
      if type = .new ∨ msgId ∉ list.messages then
        ((history.createData.insert kind msgId).setCount kind (count + 1), true)
      else (history.createData, false)
    else if 0 < list.loadedCount ∧ type ≠ .new then (history.createData.insert kind msgId, true)
    else (history.createData, false)

/-- The message is no longer unread. -/
def erase (msgId : Int) : History :=
  match history.list? kind with
  | none => history
  | some list =>
    let erased :=
      history.modify kind fun list => { list with messages := list.messages.erase msgId }
    if 0 < list.count.getD (-1) then erased.setCount kind (list.count.getD (-1) - 1) else erased

def clearMessages : History := history.modify kind fun list => { list with messages := ∅ }

/-- Everything is read. -/
def clear : History :=
  if history.unreadThings = none ∨ history.count kind (-1) = 0 then history
  else (history.clearMessages kind).setCount kind 0

/-- `addSlice` before the counter is set -/
def filled (slice : Slice) (alreadyLoaded : Int) : History :=
  let cleared := if alreadyLoaded = 0 then history.clearMessages kind else history
  let ready := if slice.items = [] then cleared else cleared.createData
  ready.modify kind fun list => { list with messages := list.messages.merge slice.unread }

/-- A slice of unread messages is loaded. -/
def addSlice (slice : Slice) (alreadyLoaded : Int) : History :=
  let filled := history.filled kind slice alreadyLoaded
  -- The proxy read its list before the storage was made.
  let loaded := if history.unreadThings = none then 0 else filled.loadedCount kind
  filled.setCount kind (if slice.unread = [] then loaded else slice.fullCount)

end History

/-- A history, and the unread ids that the server has for it. -/
structure State where
  history : History
  unread : Finset Int

/-- What changes the unread things of one kind. -/
inductive Event
  | new (msgId : Int)
  | existing (msgId : Int)
  | read (msgId : Int)
  | slice (slice : Slice) (alreadyLoaded : Int)
  | clear

def step (kind : Kind) (state : State) : Event → Option State
  | .new msgId =>
    if ∀ other ∈ state.unread, other < msgId then
      some ⟨(state.history.add kind msgId .new).1, insert msgId state.unread⟩
    else none
  | .existing msgId =>
    if msgId ∈ state.unread then
      some ⟨(state.history.add kind msgId .existing).1, state.unread⟩
    else none
  | .read msgId =>
    if msgId ∈ state.unread then
      some ⟨state.history.erase kind msgId, state.unread.erase msgId⟩
    else none
  | .slice slice alreadyLoaded =>
    if slice.fullCount = state.unread.card ∧ ∀ item ∈ slice.items, item.id ∈ state.unread then
      some ⟨state.history.addSlice kind slice alreadyLoaded, state.unread⟩
    else none
  | .clear => some ⟨state.history.clear kind, ∅⟩

/-- What is shown for a kind. -/
def History.view (history : History) (kind : Kind) : Things :=
  (history.list? kind).getD { count := if history.unreadThingsKnown then some 0 else none }

/-- What is shown of one kind follows what is unread; the other kind stays. -/
structure Follows (kind : Kind) (other : Things) (state : State) : Prop where
  count : ∀ notKnownValue, state.history.count kind notKnownValue = state.unread.card
  loaded : ∀ msgId ∈ (state.history.view kind).messages, msgId ∈ state.unread
  loadedCount : ∀ notKnownValue,
    state.history.loadedCount kind ≤ state.history.count kind notKnownValue
  has : state.history.has kind = true ↔ state.unread ≠ ∅
  other : state.history.view kind.other = other

/-- A list that is counted as empty has no message. -/
def Things.Tidy (list : Things) : Prop := list.count = some 0 → list.messages = ∅

/-- The count is known and right, and loaded are some of the ids; of the other kind only a
list without a message is counted as empty. -/
structure Starts (kind : Kind) (other : Things) (state : State) : Prop where
  count : ∀ notKnownValue, state.history.count kind notKnownValue = state.unread.card
  loaded : ∀ msgId ∈ (state.history.view kind).messages, msgId ∈ state.unread
  otherView : state.history.view kind.other = other
  tidy : other.count = some 0 → other.messages = ∅

/-- A new id comes only where all the others are loaded, and a slice has an unread message or
leaves all of them loaded. -/
def Complete (kind : Kind) (state : State) : Event → Prop
  | .new msgId => (∀ other ∈ state.unread, other < msgId) →
      state.history.isBroadcast = false ∧ state.history.loadedCount kind = state.unread.card
  | .slice slice alreadyLoaded =>
    slice.fullCount = state.unread.card → (∀ item ∈ slice.items, item.id ∈ state.unread) →
      slice.unread ≠ [] ∨ state.unread = ∅ ∨
        alreadyLoaded ≠ 0 ∧ state.history.loadedCount kind = state.unread.card
  | _ => True

namespace History

variable {history : History} {kind : Kind}

theorem count_eq (notKnownValue : Int) :
    history.count kind notKnownValue = (history.view kind).count.getD notKnownValue := by
  unfold count view
  cases history.list? kind with
  | none => cases history.unreadThingsKnown <;> rfl
  | some list => rfl

theorem loadedCount_eq : history.loadedCount kind = (history.view kind).loadedCount := by
  unfold loadedCount view
  cases history.list? kind <;> rfl

theorem has_eq : history.has kind = decide (0 < (history.view kind).count.getD (-1)) := by
  unfold has view
  cases history.list? kind with
  | none => cases history.unreadThingsKnown <;> rfl
  | some list => rfl

theorem view_of_some {all : All} (stored : history.unreadThings = some all) (kind : Kind) :
    history.view kind = all.list kind := by
  rw [view, list?, stored]
  rfl

theorem view_eq (kind : Kind) : history.view kind = history.data.list kind := by
  rw [view, list?, data]
  cases history.unreadThings with
  | none => exact (All.list_create _ _).symm
  | some all => rfl

theorem view_createData (kind : Kind) : history.createData.view kind = history.view kind := by
  rw [view_of_some (rfl : history.createData.unreadThings = _), view_eq]

/-- The things of one kind are replaced. -/
structure Replaced (history : History) (kind : Kind) (list : Things) (next : History) : Prop where
  view : next.view kind = list
  other : next.view kind.other = history.view kind.other
  broadcast : next.isBroadcast = history.isBroadcast

theorem Replaced.trans {middle next : History} {first last : Things}
    (before : history.Replaced kind first middle) (after : middle.Replaced kind last next) :
    history.Replaced kind last next :=
  ⟨after.view, after.other.trans before.other, after.broadcast.trans before.broadcast⟩

theorem replaced_createData : history.Replaced kind (history.view kind) history.createData :=
  ⟨view_createData kind, view_createData kind.other, rfl⟩

theorem replaced_modify (history : History) (kind : Kind) (change : Things → Things)
    (stored : history.unreadThings = none → change (history.view kind) = history.view kind) :
    history.Replaced kind (change (history.view kind)) (history.modify kind change) := by
  cases things : history.unreadThings with
  | none =>
    have same : history.modify kind change = history := by
      obtain ⟨broadcast, _, known⟩ := history
      cases things
      rfl
    rw [stored things, same]
    exact ⟨rfl, rfl, rfl⟩
  | some all =>
    have modified : (history.modify kind change).unreadThings =
        some (all.update kind (change (all.list kind))) := by
      rw [modify, things]
      rfl
    refine ⟨?_, ?_, rfl⟩
    · rw [view_of_some modified, view_of_some things, All.list_update]
    · rw [view_of_some modified, view_of_some things, All.list_update_other]

theorem replaced_insert (msgId : Int) :
    history.Replaced kind
      { history.view kind with messages := (history.view kind).messages.insert msgId }
      (history.createData.insert kind msgId) := by
  have changed := history.createData.replaced_modify kind
    (fun list => { list with messages := list.messages.insert msgId }) (by intro none; cases none)
  rw [view_createData] at changed
  exact replaced_createData.trans changed

theorem list_createData : (history.createData.list? kind).getD {} = history.view kind := by
  rw [← view_createData]
  rfl

theorem messages_of_none (none : history.unreadThings = none) :
    (history.view kind).messages = ∅ := by
  rw [view, list?, none]
  rfl

theorem view_of_dropped {list : Things} (known : history.unreadThingsKnown = true)
    (dropped : history.unreadThings = none) (zero : list.count = some 0)
    (tidy : list.messages = ∅) (kind : Kind) : history.view kind = list := by
  rw [view, list?, dropped]
  exact Things.ext (by rw [zero, known]; rfl) tidy.symm

/-- The counter is never less than the number of loaded messages. -/
theorem replaced_setCount (history : History) (kind : Kind) (count : Int)
    (known : (history.view kind).count ≠ none)
    (tidy : (history.view kind.other).count = some 0 →
      (history.view kind.other).messages = ∅) :
    history.Replaced kind
      ⟨some (max (history.view kind).loadedCount count), (history.view kind).messages⟩
      (history.setCount kind count) := by
  rw [setCount]
  split
  next none =>
    have marked : history.unreadThingsKnown = true := by
      rw [view, list?, none.1] at known
      by_contra unknown
      exact known (if_neg unknown)
    have same : ({ history with unreadThingsKnown := true } : History) = history := by
      rw [← marked]
    have empty : history.view kind = { count := some 0 } :=
      view_of_dropped marked none.1 rfl rfl kind
    rw [same, none.2, empty]
    exact ⟨empty, rfl, rfl⟩
  · rw [view_eq kind.other] at tidy
    rw [view_eq kind]
    dsimp only
    split
    next drops =>
      have unloaded : (history.data.list kind).messages = ∅ := by
        apply size_eq_zero.mp
        have bound := le_max_left (history.data.list kind).loadedCount count
        rw [drops.1, Things.loadedCount] at bound
        omega
      have otherZero : (history.data.list kind.other).count = some 0 := by
        cases otherCount : (history.data.list kind.other).count with
        | none => rw [otherCount] at drops; exact absurd drops.2 (by decide)
        | some value => rw [otherCount] at drops; exact congrArg some drops.2
      rw [drops.1, unloaded]
      exact ⟨rfl, (view_of_dropped rfl rfl otherZero (tidy otherZero) kind.other).trans
        (view_eq kind.other).symm, rfl⟩
    · exact ⟨All.list_update .., (All.list_update_other ..).trans (view_eq kind.other).symm, rfl⟩

theorem replaced_filled (history : History) (kind : Kind) (slice : Slice) (alreadyLoaded : Int) :
    history.Replaced kind
      ⟨(history.view kind).count,
        (if alreadyLoaded = 0 then ∅ else (history.view kind).messages).merge slice.unread⟩
      (history.filled kind slice alreadyLoaded) := by
  have cleared : history.Replaced kind
      ⟨(history.view kind).count, if alreadyLoaded = 0 then ∅ else (history.view kind).messages⟩
      (if alreadyLoaded = 0 then history.clearMessages kind else history) := by
    split
    · exact history.replaced_modify kind (fun list => { list with messages := ∅ })
        fun none => Things.ext rfl (messages_of_none none).symm
    · exact ⟨rfl, rfl, rfl⟩
  rw [filled]
  generalize (if alreadyLoaded = 0 then history.clearMessages kind else history) = middle,
    (if alreadyLoaded = 0 then ∅ else (history.view kind).messages) = messages at cleared ⊢
  split
  next none =>
    have merged := middle.replaced_modify kind
      (fun list => { list with messages := list.messages.merge slice.unread })
      fun _ => by rw [Slice.unread, none]; rfl
    rw [cleared.view] at merged
    exact cleared.trans merged
  · have merged := middle.createData.replaced_modify kind
      (fun list => { list with messages := list.messages.merge slice.unread })
      (by intro none; cases none)
    have ready : middle.Replaced kind (middle.view kind) middle.createData := replaced_createData
    rw [view_createData, cleared.view] at merged
    rw [cleared.view] at ready
    exact (cleared.trans ready).trans merged

/-- The calls of a proxy of one kind, with any arguments. -/
inductive Call
  | setCount (count : Int)
  | add (msgId : Int) (type : AddType)
  | erase (msgId : Int)
  | clear
  | addSlice (slice : Slice) (alreadyLoaded : Int)

def call (history : History) (kind : Kind) : Call → History
  | .setCount count => history.setCount kind count
  | .add msgId type => (history.add kind msgId type).1
  | .erase msgId => history.erase kind msgId
  | .clear => history.clear kind
  | .addSlice slice alreadyLoaded => history.addSlice kind slice alreadyLoaded

/-- The states that the calls make of a new history. -/
inductive Reached : History → Prop
  | made (isBroadcast : Bool) : Reached { isBroadcast }
  | call {history : History} (reached : Reached history) (kind : Kind) (call : Call) :
      Reached (history.call kind call)

theorem kind_eq_or (kind other : Kind) : other = kind ∨ other = kind.other := by
  cases kind <;> cases other <;> simp [Kind.other]

theorem tidy_of_replaced {list : Things} {next : History}
    (replaced : history.Replaced kind list next) (tidy : list.Tidy)
    (otherTidy : (history.view kind.other).Tidy) (other : Kind) : (next.view other).Tidy := by
  rcases kind_eq_or kind other with rfl | rfl
  · rw [replaced.view]
    exact tidy
  · rw [replaced.other]
    exact otherTidy

/-- Whatever was loaded of the kind, setting its counter leaves it tidy. -/
theorem tidy_setCount (count : Int) (otherTidy : (history.view kind.other).Tidy) (other : Kind) :
    ((history.setCount kind count).view other).Tidy := by
  have dropped {next : History} (none : next.unreadThings = none) : (next.view other).Tidy :=
    fun _ => messages_of_none none
  rw [setCount]
  split
  next none => exact dropped none.1
  next =>
    dsimp only
    split
    · exact dropped rfl
    · rcases kind_eq_or kind other with rfl | rfl
      · rw [view_of_some rfl, All.list_update]
        intro zero
        apply size_eq_zero.mp
        change (history.data.list other).messages.size = 0
        have bound := le_max_left (history.data.list other).loadedCount count
        rw [some.inj zero, Things.loadedCount] at bound
        omega
      · rw [view_of_some rfl, All.list_update_other, ← view_eq]
        exact otherTidy

theorem tidy_add (tidy : ∀ kind, (history.view kind).Tidy) (kind : Kind) (msgId : Int)
    (type : AddType) (other : Kind) : ((history.add kind msgId type).1.view other).Tidy := by
  have inserted : history.Replaced kind _ _ := replaced_insert msgId
  have created : ∀ other, (history.createData.view other).Tidy := fun other => by
    rw [view_createData]
    exact tidy other
  rw [add]
  split
  · exact tidy other
  · dsimp only
    rw [list_createData]
    split
    · split
      · exact tidy_setCount _ (inserted.other ▸ tidy _) other
      · exact created other
    next part =>
      split
      next loads =>
        refine tidy_of_replaced inserted (fun zero => ?_) (tidy _) other
        rw [show (history.view kind).count = some 0 from zero] at part
        exact absurd ⟨le_rfl, loads.1.le⟩ part
      · exact created other

theorem tidy_erase (tidy : ∀ kind, (history.view kind).Tidy) (kind : Kind) (msgId : Int)
    (other : Kind) : ((history.erase kind msgId).view other).Tidy := by
  rw [erase]
  split
  · exact tidy other
  next list isList =>
    have stored : history.unreadThings ≠ none := by
      intro none
      rw [list?, none] at isList
      cases isList
    have erased := history.replaced_modify kind
      (fun list => { list with messages := list.messages.erase msgId })
      fun none => absurd none stored
    dsimp only
    split
    · exact tidy_setCount _ (erased.other ▸ tidy _) other
    · refine tidy_of_replaced erased (fun zero => ?_) (tidy _) other
      change (history.view kind).messages.erase msgId = ∅
      rw [tidy kind zero]
      rfl

theorem tidy_clear (tidy : ∀ kind, (history.view kind).Tidy) (kind other : Kind) :
    ((history.clear kind).view other).Tidy := by
  rw [clear]
  split
  · exact tidy other
  · have cleared := history.replaced_modify kind (fun list => { list with messages := ∅ })
      fun none => Things.ext rfl (messages_of_none none).symm
    exact tidy_setCount _ (cleared.other ▸ tidy _) other

theorem tidy_call (tidy : ∀ kind, (history.view kind).Tidy) (kind : Kind) (call : Call)
    (other : Kind) : ((history.call kind call).view other).Tidy := by
  cases call with
  | setCount count => exact tidy_setCount count (tidy _) other
  | add msgId type => exact tidy_add tidy kind msgId type other
  | erase msgId => exact tidy_erase tidy kind msgId other
  | clear => exact tidy_clear tidy kind other
  | addSlice slice alreadyLoaded =>
    exact tidy_setCount _ ((history.replaced_filled kind slice alreadyLoaded).other ▸ tidy _) other

theorem Reached.tidy (reached : history.Reached) (kind : Kind) : (history.view kind).Tidy := by
  induction reached generalizing kind with
  | made isBroadcast => exact fun _ => messages_of_none rfl
  | call reached changed call ih => exact tidy_call ih changed call kind

/-- In a state that the calls can make, only the kind at hand has to be right. -/
theorem Reached.starts {unread : Finset Int} (reached : history.Reached)
    (count : (history.view kind).count = some (unread.card : Int))
    (loaded : ∀ msgId ∈ (history.view kind).messages, msgId ∈ unread) :
    Starts kind (history.view kind.other) ⟨history, unread⟩ where
  count notKnownValue := by
    rw [count_eq, count]
    rfl
  loaded := loaded
  otherView := rfl
  tidy := reached.tidy kind.other

end History

section Steps

variable {history : History} {kind : Kind} {other : Things} {unread : Finset Int}

section

variable {state : State} (starts : Starts kind other state)

include starts

theorem Starts.known :
    (state.history.view kind).count = some (state.unread.card : Int) := by
  have zero := starts.count 0
  have one := starts.count 1
  rw [History.count_eq] at zero one
  cases counted : (state.history.view kind).count with
  | none =>
    rw [counted] at zero one
    exact absurd (zero.trans one.symm) (by decide)
  | some value =>
    rw [counted] at zero
    exact congrArg some zero

theorem Starts.loadedCount_le :
    (state.history.view kind).loadedCount ≤ state.unread.card := by
  rw [Things.loadedCount, size_eq_card]
  exact_mod_cast Finset.card_le_card fun msgId member =>
    starts.loaded msgId (mem_toFinset.mp member)

theorem Starts.follows :
    Follows kind other state := by
  refine ⟨starts.count, starts.loaded, fun notKnownValue => ?_, ?_, starts.otherView⟩
  · rw [starts.count, History.loadedCount_eq]
    exact starts.loadedCount_le
  · rw [History.has_eq, starts.known, decide_eq_true_iff, getD_some, Int.natCast_pos,
      Finset.card_pos, Finset.nonempty_iff_ne_empty]

end

/-- What reads as a list with the number of the ids and with some of them is right. -/
theorem starts_of_replaced {next : History} {messages : FlatSet Int} {count : Int}
    (replaced : history.Replaced kind ⟨some count, messages⟩ next) (counted : count = unread.card)
    (loaded : ∀ msgId ∈ messages, msgId ∈ unread) (otherView : history.view kind.other = other)
    (tidy : other.count = some 0 → other.messages = ∅) :
    Starts kind other ⟨next, unread⟩ := by
  refine ⟨fun notKnownValue => ?_, ?_, replaced.other.trans otherView, tidy⟩
  · rw [History.count_eq, replaced.view]
    exact counted
  · rw [replaced.view]
    exact loaded

theorem starts_of_setCount {middle : History} {list : Things}
    (replaced : history.Replaced kind list middle) (known : list.count ≠ none)
    (loaded : ∀ msgId ∈ list.messages, msgId ∈ unread) (otherView : history.view kind.other = other)
    (tidy : other.count = some 0 → other.messages = ∅) :
    Starts kind other ⟨middle.setCount kind unread.card, unread⟩ := by
  have less : list.loadedCount ≤ unread.card := by
    rw [Things.loadedCount, size_eq_card]
    exact_mod_cast Finset.card_le_card fun msgId member =>
      loaded msgId (mem_toFinset.mp member)
  have counted := middle.replaced_setCount kind unread.card
    (by rw [replaced.view]; exact known) (by rw [replaced.other, otherView]; exact tidy)
  rw [replaced.view] at counted
  exact starts_of_replaced (replaced.trans counted) (max_eq_right less) loaded otherView tidy

variable (starts : Starts kind other ⟨history, unread⟩)
include starts

theorem Starts.unchanged {next : History}
    (replaced : history.Replaced kind (history.view kind) next) :
    Starts kind other ⟨next, unread⟩ :=
  starts_of_replaced (by rw [← starts.known]; exact replaced) rfl starts.loaded starts.otherView
    starts.tidy

variable {msgId : Int}

theorem Starts.mem_of_all_loaded
    (all : (unread.card : Int) ≤ (history.view kind).loadedCount) (member : msgId ∈ unread) :
    msgId ∈ (history.view kind).messages := by
  have same : (history.view kind).messages.toFinset = unread := by
    refine Finset.eq_of_subset_of_card_le
      (fun other loaded => starts.loaded other (mem_toFinset.mp loaded)) ?_
    rw [Things.loadedCount, size_eq_card] at all
    exact_mod_cast all
  rw [← same] at member
  exact mem_toFinset.mp member

theorem Starts.new (group : history.isBroadcast = false)
    (all : history.loadedCount kind = unread.card) (fresh : msgId ∉ unread) :
    Starts kind other ⟨(history.add kind msgId .new).1, insert msgId unread⟩ := by
  have known := starts.known
  rw [History.loadedCount_eq] at all
  rw [History.add, if_neg (by rw [group]; decide)]
  dsimp only
  rw [History.list_createData, known, getD_some, if_pos ⟨Int.natCast_nonneg _, all.ge⟩,
    if_pos (.inl rfl)]
  have more : ((insert msgId unread).card : Int) = unread.card + 1 := by
    rw [Finset.card_insert_of_notMem fresh]
    rfl
  rw [← more]
  refine starts_of_setCount (History.replaced_insert msgId) (by rw [known]; exact some_ne_none _) ?_
    starts.otherView starts.tidy
  intro other member
  rcases mem_insert.mp member with same | old
  · exact Finset.mem_insert.mpr (.inl same)
  · exact Finset.mem_insert_of_mem (starts.loaded other old)

theorem Starts.not_new
    (missed : ¬(history.isBroadcast = false ∧ history.loadedCount kind = unread.card)) :
    (history.add kind msgId .new).1.count kind 0 = unread.card := by
  have known := starts.known
  have less := starts.loadedCount_le
  rw [History.loadedCount_eq] at missed
  rw [History.add]
  split
  · exact starts.count 0
  next group =>
    dsimp only
    have part : ¬(unread.card : Int) ≤ (history.view kind).loadedCount := by
      intro all
      exact missed ⟨Bool.eq_false_iff.mpr group, le_antisymm less all⟩
    rw [History.list_createData, known, getD_some, if_neg fun both => part both.2,
      if_neg fun both => both.2 rfl, History.count_eq, History.view_createData, known]
    rfl

theorem Starts.existing (member : msgId ∈ unread) :
    Starts kind other ⟨(history.add kind msgId .existing).1, unread⟩ := by
  have known := starts.known
  rw [History.add]
  split
  · exact starts
  · dsimp only
    rw [History.list_createData, known, getD_some]
    split
    next all =>
      rw [if_neg]
      · exact starts.unchanged History.replaced_createData
      · rintro (new | absent)
        · cases new
        · exact absent (starts.mem_of_all_loaded all.2 member)
    · split
      · refine starts_of_replaced (by rw [← known]; exact History.replaced_insert msgId) rfl ?_
          starts.otherView starts.tidy
        intro other inserted
        rcases mem_insert.mp inserted with rfl | old
        · exact member
        · exact starts.loaded other old
      · exact starts.unchanged History.replaced_createData

theorem Starts.stored (nonempty : unread.card ≠ 0) :
    ∃ all, history.unreadThings = some all := by
  have known := starts.known
  cases things : history.unreadThings with
  | some all => exact ⟨all, rfl⟩
  | none =>
    rw [History.view, History.list?, things] at known
    cases flag : history.unreadThingsKnown with
    | true =>
      rw [flag] at known
      exact absurd (Int.natCast_eq_zero.mp (some.inj known).symm) nonempty
    | false =>
      rw [flag] at known
      cases known

theorem Starts.read (member : msgId ∈ unread) :
    Starts kind other ⟨history.erase kind msgId, unread.erase msgId⟩ := by
  have known := starts.known
  have positive : 0 < unread.card := Finset.card_pos.mpr ⟨msgId, member⟩
  obtain ⟨all, stored⟩ := starts.stored positive.ne'
  have list : history.list? kind = some (history.view kind) := by
    rw [History.view_of_some stored, History.list?, stored]
    rfl
  have fewer : ((unread.erase msgId).card : Int) = unread.card - 1 := by
    rw [Finset.card_erase_of_mem member]
    omega
  rw [History.erase, list]
  dsimp only
  rw [known, getD_some, if_pos (by exact_mod_cast positive), ← fewer]
  refine starts_of_setCount (history.replaced_modify kind _ fun none => ?_)
    (by rw [known]; exact some_ne_none _) ?_
    starts.otherView starts.tidy
  · rw [stored] at none
    cases none
  · intro other erased
    obtain ⟨different, old⟩ := mem_erase.mp erased
    exact Finset.mem_erase.mpr ⟨different, starts.loaded other old⟩

theorem Starts.clear : Starts kind other ⟨history.clear kind, ∅⟩ := by
  have known := starts.known
  rw [History.clear]
  split
  next none =>
    have zero : unread.card = 0 := by
      rcases none with none | zero
      · by_contra nonempty
        obtain ⟨all, stored⟩ := starts.stored nonempty
        rw [stored] at none
        cases none
      · exact Int.natCast_eq_zero.mp ((starts.count (-1)).symm.trans zero)
    rw [← Finset.card_eq_zero.mp zero]
    exact starts
  next some =>
    have cleared := history.replaced_modify kind (fun list => { list with messages := ∅ })
      fun none => absurd (.inl none) some
    have emptied : Starts kind other
        ⟨(history.clearMessages kind).setCount kind (∅ : Finset Int).card, ∅⟩ :=
      starts_of_setCount cleared (by rw [known]; exact some_ne_none _)
        (fun msgId member => absurd member (notMem_empty msgId)) starts.otherView
        starts.tidy
    exact emptied

theorem Starts.loaded_filled {slice : Slice} (alreadyLoaded : Int)
    (inside : ∀ item ∈ slice.items, item.id ∈ unread) :
    ∀ msgId ∈ (if alreadyLoaded = 0 then ∅ else (history.view kind).messages).merge slice.unread,
      msgId ∈ unread := by
  intro msgId member
  rcases mem_merge.mp member with old | received
  · split at old
    · exact absurd old (notMem_empty msgId)
    · exact starts.loaded msgId old
  · obtain ⟨item, found, rfl⟩ := List.mem_map.mp received
    exact inside item (List.mem_filter.mp found).1

variable {alreadyLoaded : Int}

omit starts in
theorem addSlice_of_nil {slice : Slice} (nil : slice.unread = []) :
    history.addSlice kind slice alreadyLoaded = (history.filled kind slice alreadyLoaded).setCount
      kind (if alreadyLoaded = 0 then 0 else history.loadedCount kind) := by
  have filled := history.replaced_filled kind slice alreadyLoaded
  rw [History.addSlice, if_pos nil, History.loadedCount_eq, History.loadedCount_eq, filled.view,
    nil]
  congr 1
  split
  next none =>
    rw [Things.loadedCount, History.messages_of_none none]
    exact (ite_self _).symm
  · split <;> rfl

theorem Starts.slice {slice : Slice} (counted : slice.fullCount = unread.card)
    (inside : ∀ item ∈ slice.items, item.id ∈ unread)
    (complete : Complete kind ⟨history, unread⟩ (.slice slice alreadyLoaded)) :
    Starts kind other ⟨history.addSlice kind slice alreadyLoaded, unread⟩ := by
  have filled := history.replaced_filled kind slice alreadyLoaded
  have known := starts.known
  have right : history.addSlice kind slice alreadyLoaded =
      (history.filled kind slice alreadyLoaded).setCount kind unread.card := by
    rcases eq_or_ne slice.unread [] with nil | some
    · rw [addSlice_of_nil nil]
      have less := starts.loadedCount_le
      rw [← History.loadedCount_eq] at less
      congr 1
      rcases complete counted inside with some | none | ⟨already, all⟩
      · exact absurd nil some
      · dsimp only at none less
        rw [none, Finset.card_empty] at less ⊢
        split
        · rfl
        · exact le_antisymm less (by rw [History.loadedCount_eq]; exact Int.natCast_nonneg _)
      · rw [if_neg already]
        exact all
    · rw [History.addSlice, ← counted]
      exact congrArg _ (if_neg some)
  rw [right]
  exact starts_of_setCount filled (by dsimp only at known ⊢; rw [known]; exact some_ne_none _)
    (starts.loaded_filled alreadyLoaded inside) starts.otherView starts.tidy

theorem Starts.not_slice {slice : Slice}
    (right : (history.addSlice kind slice alreadyLoaded).count kind 0 = unread.card) :
    Complete kind ⟨history, unread⟩ (.slice slice alreadyLoaded) := by
  intro _ _
  rcases eq_or_ne slice.unread [] with nil | some
  · have filled := history.replaced_filled kind slice alreadyLoaded
    have known := starts.known
    have tidy := starts.tidy
    rw [← starts.otherView] at tidy
    have set := (history.filled kind slice alreadyLoaded).replaced_setCount kind
      (if alreadyLoaded = 0 then 0 else history.loadedCount kind)
      (by rw [filled.view]; dsimp only at known ⊢; rw [known]; exact some_ne_none _)
      (by rw [filled.other]; exact tidy)
    rw [addSlice_of_nil nil, History.count_eq, set.view, filled.view, nil] at right
    refine .inr ?_
    rw [History.loadedCount_eq] at right ⊢
    split at right
    · exact .inl (Finset.card_eq_zero.mp (Int.natCast_eq_zero.mp right.symm))
    next already =>
      exact .inr ⟨already, (max_self _).symm.trans right⟩
  · exact .inl some

end Steps

variable {kind : Kind} {other : Things} {state : State}

/-- One step is followed exactly if it is complete. -/
theorem Starts.step_iff (starts : Starts kind other state) (event : Event) :
    (∀ next, step kind state event = some next → Follows kind other next) ↔
      Complete kind state event := by
  obtain ⟨history, unread⟩ := state
  cases event with
  | new msgId =>
    simp only [step, Complete]
    split
    next greatest =>
      have fresh : msgId ∉ unread := fun member => lt_irrefl msgId (greatest msgId member)
      constructor
      · intro follows _
        by_contra missed
        have count := (follows _ rfl).count 0
        rw [starts.not_new missed, Finset.card_insert_of_notMem fresh] at count
        omega
      · rintro complete next ⟨rfl⟩
        exact (starts.new (complete greatest).1 (complete greatest).2 fresh).follows
    next greatest =>
      exact iff_of_true (fun next taken => by cases taken) fun all => absurd all greatest
  | existing msgId =>
    refine iff_of_true (fun next taken => ?_) trivial
    obtain ⟨member, taken⟩ := ite_none_right_eq_some.mp taken
    cases taken
    exact (starts.existing member).follows
  | read msgId =>
    refine iff_of_true (fun next taken => ?_) trivial
    obtain ⟨member, taken⟩ := ite_none_right_eq_some.mp taken
    cases taken
    exact (starts.read member).follows
  | slice slice alreadyLoaded =>
    constructor
    · intro follows counted inside
      have right := (follows _ (if_pos ⟨counted, inside⟩)).count 0
      exact starts.not_slice right counted inside
    · intro complete next taken
      obtain ⟨⟨counted, inside⟩, taken⟩ := ite_none_right_eq_some.mp taken
      cases taken
      exact (starts.slice counted inside complete).follows
  | clear =>
    refine iff_of_true (fun next taken => ?_) trivial
    cases taken
    exact starts.clear.follows

theorem Follows.starts (follows : Follows kind other state)
    (tidy : other.count = some 0 → other.messages = ∅) : Starts kind other state :=
  ⟨follows.count, follows.loaded, follows.other, tidy⟩

/-- The counters follow the server in every state of a run exactly if all of its steps are
complete. -/
theorem follows_iff_complete (starts : Starts kind other state) (events : List Event) :
    RunKeeps (step kind) (Follows kind other) state events ↔
      RunMeets (step kind) (Complete kind) state events :=
  runKeeps_iff_runMeets (fun _ _ _ tidy _ _ => tidy)
    (fun _ event tidy follows => (follows.starts tidy).step_iff event) events starts.tidy
    starts.follows

/-- Two mentions and no reaction are counted, and nothing is loaded. -/
def mentioned : State :=
  ⟨{ unreadThings := some { mentions := { count := some 2 }, reactions := { count := some 0 } }
     unreadThingsKnown := true }, {1, 2}⟩

theorem mentioned_reached : mentioned.history.Reached :=
  ((History.Reached.made false).call .mentions (.setCount 2)).call .reactions (.setCount 0)

theorem mentioned_starts : Starts .mentions { count := some 0 } mentioned :=
  mentioned_reached.starts rfl fun msgId member => absurd member (notMem_empty msgId)

/-- One mention is loaded with a slice and the other one when it is seen, a third one comes when
both are there, and all of them are read. -/
def mentionedEvents : List Event :=
  [.slice (.messagesSlice 2 [⟨2, true⟩]) 0, .existing 1, .new 3, .read 2, .read 1, .clear]

theorem follows_iff_complete_mentioned :
    Starts .mentions { count := some 0 } mentioned ∧
      (run (step .mentions) mentioned mentionedEvents).isSome ∧
      (RunKeeps (step .mentions) (Follows .mentions { count := some 0 }) mentioned
          mentionedEvents ↔
        RunMeets (step .mentions) (Complete .mentions) mentioned mentionedEvents) :=
  ⟨mentioned_starts, by decide, follows_iff_complete mentioned_starts mentionedEvents⟩

/-- A state in which one new mention is not followed. -/
theorem not_follows_mentioned : ¬ ∀ kind other state events, Starts kind other state →
    RunKeeps (step kind) (Follows kind other) state events := by
  intro follows
  have third := (follows .mentions _ _ [.new 3] mentioned_starts).2 _ rfl
  exact absurd (third.count 0) (by decide)

end TelegramDesktop.HistoryUnreadThings
