import TelegramDesktop.EmojiKeywords
import TelegramDesktop.Runs

/-!
# Refreshing emoji keywords

The states of a language pack in `chat_helpers/emoji_keywords.cpp`, with its requests and
with the differences that are applied on another thread.
-/

namespace TelegramDesktop.EmojiKeywords

namespace LangPack

def kRefreshEach : Int := 60 * 60 * 1000

/-- What a language pack is doing. -/
inductive State
  | readingCache
  | pendingRequest
  | requested
  | refreshed
  deriving DecidableEq

end LangPack

/-- A pack, the api of its delegate and what is under way: requests without an answer, the
reading of the cache and the applied differences, each with the guard of its callback.  Only
the newest guard lets a callback through. -/
structure LangPack (Emoji : Type*) where
  id : QText
  state : LangPack.State := .readingCache
  data : LangPackData Emoji := {}
  lastRefreshTime : Int := 0
  requestId : Nat := 0
  guard : Nat := 0
  api : Bool
  requests : Nat := 0
  unanswered : List Nat := []
  reading : Bool := true
  applying : List (Nat × LangPackData Emoji) := []

/-- An answer of the server. -/
structure Difference where
  langCode : QText
  keywords : List EmojiKeyword
  version : Int

namespace LangPack

variable {Emoji : Type*} (library : Library Emoji) (pack : LangPack Emoji)

def refresh (now : Int) : LangPack Emoji :=
  if pack.state ≠ .refreshed then pack
  else if 0 < pack.lastRefreshTime ∧ now - pack.lastRefreshTime < kRefreshEach then pack
  else if pack.api = false then { pack with state := .pendingRequest }
  else
    { pack with
      state := .requested
      requestId := pack.requests + 1
      requests := pack.requests + 1
      unanswered := pack.unanswered ++ [pack.requests + 1] }

def applyDifference (result : Difference) : LangPack Emoji :=
  if result.langCode ≠ pack.id then
    { pack with data := { pack.data with version := 0 }, state := .refreshed }
  else if result.keywords.isEmpty ∧ result.version ≤ pack.data.version then
    { pack with state := .refreshed }
  else
    { pack with
      guard := pack.guard + 1
      applying := pack.applying ++ [(pack.guard + 1,
        EmojiKeywords.applyDifference library pack.data result.keywords result.version)] }

def applyData (data : LangPackData Emoji) : LangPack Emoji :=
  { pack with data := data, state := .refreshed }

def apiChanged (now : Int) : LangPack Emoji :=
  if pack.state = .requested ∧ pack.api = false then
    { pack with requestId := 0, state := .refreshed }.refresh now
  else if pack.state ≠ .pendingRequest then pack
  else { pack with state := .refreshed }.refresh now

/-- The request was answered. -/
def answered (id : Nat) (now : Int) : LangPack Emoji :=
  { pack with requestId := 0, lastRefreshTime := now, unanswered := pack.unanswered.erase id }

/-- What a language pack is told. -/
inductive Event (Emoji : Type*)
  | cacheRead (data : LangPackData Emoji) (now : Int)
  | refresh (now : Int)
  | apiChanged (api : Bool) (now : Int)
  | done (id : Nat) (result : Difference) (now : Int)
  | fail (id : Nat) (now : Int)
  | applied (guard : Nat)

def step : Event Emoji → Option (LangPack Emoji)
  | .cacheRead data now =>
    if pack.reading = false then none
    else if pack.guard = 0 then some (({ pack with reading := false }.applyData data).refresh now)
    else some { pack with reading := false }
  | .refresh now => some (pack.refresh now)
  | .apiChanged api now => some ({ pack with api := api }.apiChanged now)
  | .done id result now =>
    if id ∈ pack.unanswered then some ((pack.answered id now).applyDifference library result)
    else none
  | .fail id now => if id ∈ pack.unanswered then some (pack.answered id now) else none
  | .applied guard =>
    match pack.applying.find? fun task => task.1 = guard with
    | none => none
    | some task =>
      let left := { pack with applying := pack.applying.filter fun task => task.1 ≠ guard }
      if guard = pack.guard then some (left.applyData task.2) else some left

/-- A request is unanswered, or a received difference is still being applied. -/
def Busy : Prop := pack.unanswered ≠ [] ∨ ∃ task ∈ pack.applying, task.1 = pack.guard

/-- A pack that waits is busy, and with nothing under way it asks again in time. -/
structure NotStuck : Prop where
  busy : pack.state = .requested → pack.Busy
  asks : ∀ now, ¬pack.Busy → pack.reading = false → pack.api = true →
    kRefreshEach ≤ now - pack.lastRefreshTime →
      (pack.refresh now).unanswered = pack.unanswered ++ [pack.requests + 1]

/-- What is reading its cache has not asked yet, and only without an api a request is
pending. -/
structure Begun : Prop where
  reading : pack.state = .readingCache →
    pack.reading = true ∧ pack.guard = 0 ∧ pack.unanswered = []
  pending : pack.state = .pendingRequest → pack.api = false

/-- A request fails only where the pack waits for something else too. -/
def Spared : Event Emoji → Prop
  | .fail id _ => id ∈ pack.unanswered → pack.state = .requested →
      pack.unanswered.erase id ≠ [] ∨ ∃ task ∈ pack.applying, task.1 = pack.guard
  | _ => True

variable {library} {pack}

theorem refresh_cases (now : Int) :
    pack.refresh now = pack ∨
      pack.state = .refreshed ∧ pack.api = false ∧
        pack.refresh now = { pack with state := .pendingRequest } ∨
      pack.state = .refreshed ∧ pack.refresh now = { pack with
        state := .requested
        requestId := pack.requests + 1
        requests := pack.requests + 1
        unanswered := pack.unanswered ++ [pack.requests + 1] } := by
  unfold refresh
  split
  · exact .inl rfl
  next done =>
    split
    · exact .inl rfl
    · split
      next api =>
        exact .inr (.inl ⟨not_ne_iff.mp done, api, rfl⟩)
      · exact .inr (.inr ⟨not_ne_iff.mp done, rfl⟩)

theorem notStuck_iff (begun : pack.Begun) :
    pack.NotStuck ↔ (pack.state = .requested → pack.Busy) := by
  refine ⟨NotStuck.busy, fun busy => ⟨busy, fun now idle read api elapsed => ?_⟩⟩
  have done : pack.state = .refreshed := by
    cases state : pack.state with
    | readingCache => rw [(begun.reading state).1] at read; cases read
    | pendingRequest => rw [begun.pending state] at api; cases api
    | requested => exact absurd (busy state) idle
    | refreshed => rfl
  rw [refresh, if_neg (not_not.mpr done), if_neg fun recent => not_lt.mpr elapsed recent.2,
    if_neg (by rw [api]; decide)]

theorem begun_of_asked {pack : LangPack Emoji}
    (asked : pack.state = .refreshed ∨ pack.state = .requested) : pack.Begun := by
  constructor <;> intro other <;> rw [other] at asked <;> cases asked <;> contradiction

theorem Begun.refresh (begun : pack.Begun) (now : Int) : (pack.refresh now).Begun := by
  rcases pack.refresh_cases now with same | ⟨-, api, same⟩ | ⟨-, same⟩
  · rwa [same]
  · rw [same]
    exact ⟨fun reading => (by cases reading), fun _ => api⟩
  · rw [same]
    exact begun_of_asked (.inr rfl)

theorem busy_refresh (busy : pack.state = .requested → pack.Busy) (now : Int)
    (waits : (pack.refresh now).state = .requested) : (pack.refresh now).Busy := by
  rcases pack.refresh_cases now with same | ⟨-, api, same⟩ | ⟨-, same⟩
  · rw [same] at waits ⊢
    exact busy waits
  · rw [same] at waits
    cases waits
  · rw [same]
    exact .inl (by simp)

theorem apiChanged_cases (now : Int) :
    pack.apiChanged now = pack ∧ (pack.state = .pendingRequest → False) ∧
        (pack.state = .requested → pack.api = true) ∨
      ∃ asking : LangPack Emoji,
        asking.state = .refreshed ∧ pack.apiChanged now = asking.refresh now := by
  unfold apiChanged
  split
  · exact .inr ⟨_, rfl, rfl⟩
  next there =>
    split
    next other =>
      exact .inl ⟨rfl, other, fun requested => by simpa [requested] using there⟩
    · exact .inr ⟨_, rfl, rfl⟩

theorem applyDifference_cases (result : Difference) :
    (pack.applyDifference library result).state = .refreshed ∨
      (pack.applyDifference library result).state = pack.state ∧
        (pack.applyDifference library result).api = pack.api ∧
        (pack.applyDifference library result).Busy := by
  unfold applyDifference
  split
  · exact .inl rfl
  · split
    · exact .inl rfl
    · exact .inr ⟨rfl, rfl, .inr ⟨_, List.mem_append_right _ (List.mem_singleton_self _), rfl⟩⟩

/-- A step keeps a pack busy while it waits, except for a failure that leaves it nothing. -/
theorem step_busy {event : Event Emoji} {next : LangPack Emoji} (begun : pack.Begun)
    (busy : pack.state = .requested → pack.Busy) (taken : pack.step library event = some next) :
    next.Begun ∧ ((next.state = .requested → next.Busy) ↔ pack.Spared event) := by
  cases event with
  | cacheRead data now =>
    rw [step] at taken
    split at taken
    · cases taken
    · split at taken
      · cases taken
        exact ⟨(begun_of_asked (.inl rfl)).refresh now,
          iff_of_true (busy_refresh (fun waits => (by cases waits)) now) trivial⟩
      next guard =>
        cases taken
        refine ⟨⟨fun reading => absurd (begun.reading reading).2.1 guard, begun.pending⟩, ?_⟩
        exact iff_of_true busy trivial
  | refresh now =>
    cases taken
    exact ⟨begun.refresh now, iff_of_true (busy_refresh busy now) trivial⟩
  | apiChanged api now =>
    cases taken
    rcases @apiChanged_cases _ { pack with api := api } now with
      ⟨same, other, -⟩ | ⟨asking, done, same⟩
    · rw [same]
      exact ⟨⟨begun.reading, fun pending => (other pending).elim⟩, iff_of_true busy trivial⟩
    · rw [same]
      exact ⟨(begun_of_asked (.inl done)).refresh now,
        iff_of_true (busy_refresh (fun waits => (by rw [done] at waits; cases waits)) now) trivial⟩
  | done id result now =>
    rw [step, Option.ite_none_right_eq_some] at taken
    obtain ⟨member, taken⟩ := taken
    cases taken
    rcases @applyDifference_cases _ library (pack.answered id now) result with
      done | ⟨same, api, waits⟩
    · exact ⟨begun_of_asked (.inl done),
        iff_of_true (fun waits => (by rw [done] at waits; cases waits)) trivial⟩
    · refine ⟨⟨fun reading => ?_, fun pending => ?_⟩, iff_of_true (fun _ => waits) trivial⟩
      · rw [same] at reading
        have none := (begun.reading reading).2.2
        rw [none] at member
        cases member
      · rw [same] at pending
        exact api.trans (begun.pending pending)
  | fail id now =>
    rw [step, Option.ite_none_right_eq_some] at taken
    obtain ⟨member, taken⟩ := taken
    cases taken
    refine ⟨⟨fun reading => ?_, begun.pending⟩, ?_⟩
    · have none := (begun.reading reading).2.2
      rw [none] at member
      cases member
    · exact ⟨fun busy _ waits => busy waits, fun spared waits => spared member waits⟩
  | applied guard =>
    rw [step] at taken
    split at taken
    · cases taken
    · split at taken
      · cases taken
        exact ⟨begun_of_asked (.inl rfl), iff_of_true (fun waits => (by cases waits)) trivial⟩
      next older =>
        cases taken
        refine ⟨⟨begun.reading, begun.pending⟩, iff_of_true (fun waits => ?_) trivial⟩
        rcases busy waits with some | ⟨task, member, valid⟩
        · exact .inl some
        · refine .inr ⟨task, List.mem_filter.mpr ⟨member, ?_⟩, valid⟩
          rw [valid]
          exact decide_eq_true fun same => older same.symm

/-- A pack is never stuck in a run exactly if each failure finds it waiting for something
else. -/
theorem notStuck_iff_spared (id : QText) (api : Bool) (events : List (Event Emoji)) :
    RunKeeps (step library) NotStuck { id := id, api := api } events ↔
      RunMeets (step library) Spared { id := id, api := api } events := by
  have start : Begun ({ id := id, api := api } : LangPack Emoji) :=
    ⟨fun _ => ⟨rfl, rfl, rfl⟩, fun pending => (by cases pending)⟩
  refine runKeeps_iff_runMeets (fun pack event next begun good taken =>
    (step_busy begun good.busy taken).1) (fun pack event begun good => ?_) events start
    ((notStuck_iff start).mpr fun waits => (by cases waits))
  constructor
  · intro kept
    cases taken : pack.step library event with
    | some next =>
      have both := step_busy begun good.busy taken
      exact both.2.mp ((notStuck_iff both.1).mp (kept next taken))
    | none =>
      cases event with
      | fail id now =>
        intro member
        rw [step, if_pos member] at taken
        cases taken
      | _ => trivial
  · intro spared next taken
    have both := step_busy begun good.busy taken
    exact (notStuck_iff both.1).mpr (both.2.mpr spared)

/-- A failed request leaves the pack busy with nothing. -/
theorem not_notStuck_failed : ¬RunKeeps (step plain) NotStuck { id := [], api := true }
    [.cacheRead {} 1, .fail 1 2] := by
  intro kept
  have failed := ((kept.2 _ rfl).2 _ rfl).busy rfl
  rcases failed with some | ⟨task, member, -⟩
  · exact some rfl
  · cases member

end LangPack

end TelegramDesktop.EmojiKeywords
