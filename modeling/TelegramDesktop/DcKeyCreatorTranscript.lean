import TelegramDesktop.DcKeyCreator

/-!
# Transcripts of the key exchange

An answer that is not accepted ends the exchange.  So when a creator reports keys, the
answers it has handled are those of one complete exchange for each key and nothing else.
-/

namespace TelegramDesktop.KeyExchange

open List Option DcKeyCreator

variable (primitives : Primitives)

/-- The first answer of an attempt, with these nonces. -/
def AcceptsResPQ (event : Event) (nonce serverNonce : Nonce) (newNonce : NewNonce) : Prop :=
  event.newNonce = newNonce ∧ ∃ data, event.answer = .reqPQ data ∧ data.nonce = nonce ∧
    data.serverNonce = serverNonce

/-- The prime and the first power of the inner data are good. -/
def AcceptsDHParams (event : Event) (nonce serverNonce : Nonce) (newNonce : NewNonce)
    (inner : ServerDHInnerData) : Prop :=
  ∃ encrypted, event.answer = .reqDHParams (.ok nonce serverNonce encrypted) ∧
    Attempt.decryptInner primitives newNonce serverNonce encrypted = some inner ∧
    inner.nonce = nonce ∧ inner.serverNonce = serverNonce ∧
    DhUtils.isPrimeAndGood primitives.toBigNumbers inner.dhPrime inner.g = true ∧
    DhUtils.isGoodModExpFirst (DhUtils.bigNum inner.gA) (DhUtils.bigNum inner.dhPrime) = true

/-- The last answer of an attempt, of this kind and with this hash. -/
def AcceptsGen (event : Event) (kind : DHGen) (nonce serverNonce newNonceHash : Nonce) : Prop :=
  event.answer = .setClientDHParams ⟨kind, nonce, serverNonce, newNonceHash⟩

/-- The key that is computed with the power that is random when an answer is handled. -/
def KeyOf (event : Event) (inner : ServerDHInnerData) (key : Bytes) : Prop :=
  ∃ gB, DhUtils.createModExp primitives.toBigNumbers inner.g inner.dhPrime event.powers = some gB ∧
    key = fillData (DhUtils.createAuthKey primitives.toBigNumbers inner.gA gB.randomPower
      inner.dhPrime)

/-- What `dh_gen_ok` proves to know about a key. -/
def newNonceHash1 (newNonce : NewNonce) (key : Bytes) : Nonce :=
  Attempt.nonceDigest primitives (memoryOf newNonce ++ [1] ++
    memoryOf (ofMemory 64 ((primitives.sha1 key).take 8)))

/-- The answers of an attempt from `resPQ` to the last one with which a key was
computed. -/
structure Opening (nonce serverNonce : Nonce) (newNonce : NewNonce) (inner : ServerDHInnerData)
    (retries : List Event) (handled : List Event) (key : Bytes) : Prop where
  accepted : ∃ resPQ dhParams, handled = resPQ :: dhParams :: retries ∧
    AcceptsResPQ resPQ nonce serverNonce newNonce ∧
    AcceptsDHParams primitives dhParams nonce serverNonce newNonce inner
  retried : ∀ retry ∈ retries, ∃ hash, AcceptsGen retry .retry nonce serverNonce hash
  few : retries.length ≤ 4
  key : ∃ last, handled.getLast? = some last ∧ KeyOf primitives last inner key

/-- A complete exchange with a nonce: `resPQ`, `server_DH_params_ok`, at most four
`dh_gen_retry` and `dh_gen_ok`. -/
def Exchange (nonce : Nonce) (handled : List Event) (key : Bytes) : Prop :=
  ∃ opening retries genOk serverNonce newNonce inner,
    handled = opening ++ [genOk] ∧
    Opening primitives nonce serverNonce newNonce inner retries opening key ∧
    AcceptsGen genOk .ok nonce serverNonce (newNonceHash1 primitives newNonce key)

/-- What was handled by an attempt that waits for an answer. -/
def Progress (nonce : Nonce) (attempt : Attempt) (handled : List Event) : Prop :=
  attempt.nonce = nonce ∧
    match attempt.stage with
    | .WaitingPQ => handled = []
    | .WaitingDH => ∃ resPQ, handled = [resPQ] ∧
        AcceptsResPQ resPQ nonce attempt.serverNonce attempt.newNonce
    | .WaitingDone => ∃ inner retries,
        Opening primitives nonce attempt.serverNonce attempt.newNonce inner retries handled
          attempt.authKey ∧
        attempt.retries = retries.length + 1 ∧ attempt.g = inner.g ∧
        attempt.dhPrime = inner.dhPrime ∧ attempt.gA = inner.gA ∧
        attempt.authKeyAuxHash = ofMemory 64 ((primitives.sha1 attempt.authKey).take 8)
    | .None | .Ready => False

variable {primitives} {event : Event} {attempt next : Attempt} {request : Request}
  {nonce : Nonce} {handled : List Event}

theorem dhClientParamsSend_sends
    (sends : attempt.dhClientParamsSend primitives event = .sends next request) :
    next.stage = .WaitingDone ∧ next.retries = attempt.retries + 1 ∧ attempt.retries ≤ 4 ∧
      next.nonce = attempt.nonce ∧ next.serverNonce = attempt.serverNonce ∧
      next.newNonce = attempt.newNonce ∧ next.g = attempt.g ∧ next.dhPrime = attempt.dhPrime ∧
      next.gA = attempt.gA ∧
      next.authKeyAuxHash = ofMemory 64 ((primitives.sha1 next.authKey).take 8) ∧
      DhUtils.isGoodModExpFirst (DhUtils.bigNum attempt.gA) (DhUtils.bigNum attempt.dhPrime) =
        true ∧
      ∃ gB, DhUtils.createModExp primitives.toBigNumbers attempt.g attempt.dhPrime
          event.powers = some gB ∧
        next.authKey = fillData (DhUtils.createAuthKey primitives.toBigNumbers attempt.gA
          gB.randomPower attempt.dhPrime) := by
  unfold Attempt.dhClientParamsSend at sends
  dsimp only at sends
  split at sends
  · cases sends
  · split at sends
    · cases sends
    next gB found =>
      split at sends
      · cases sends
      · split at sends
        · cases sends
        next key =>
          cases sends
          exact ⟨rfl, rfl, by omega, rfl, rfl, rfl, rfl, rfl, rfl, rfl,
            DhUtils.isGoodModExpFirst_of_createAuthKey key, gB, found, rfl⟩

theorem dhClientParamsSend_ready :
    attempt.dhClientParamsSend primitives event ≠ .ready next := by
  unfold Attempt.dhClientParamsSend
  dsimp only
  split
  · nofun
  · split
    · nofun
    · split
      · nofun
      · split <;> nofun

theorem answered_failed (idle : attempt.stage = .None ∨ attempt.stage = .Ready) :
    ∃ error, answered primitives event attempt = .failed error := by
  have notPQ : attempt.stage ≠ .WaitingPQ := by rcases idle with none | ready <;> simp [*]
  have notDH : attempt.stage ≠ .WaitingDH := by rcases idle with none | ready <;> simp [*]
  have notDone : attempt.stage ≠ .WaitingDone := by rcases idle with none | ready <;> simp [*]
  unfold answered
  cases event.answer with
  | reqPQ data => exact ⟨.Other, if_pos notPQ⟩
  | reqDHParams data => exact ⟨.Other, if_pos notDH⟩
  | setClientDHParams data => exact ⟨.Other, if_pos notDone⟩
  | unknown => exact ⟨.Other, rfl⟩

theorem Progress.pqAnswered {data : ResPQ} (progress : Progress primitives nonce attempt handled)
    (answer : event.answer = .reqPQ data) (own : data.nonce = nonce)
    (sends : attempt.pqAnswered primitives event data = .sends next request) :
    Progress primitives nonce next (handled ++ [event]) := by
  unfold Attempt.pqAnswered at sends
  split at sends
  · cases sends
  next waiting =>
    have stage : attempt.stage = .WaitingPQ := by simpa using waiting
    obtain ⟨same, none⟩ := progress
    rw [stage] at none
    dsimp only at none sends
    split at sends
    · cases sends
    · split at sends
      · cases sends
      · split at sends
        · cases sends
        · cases sends
          exact ⟨same, event, by rw [none]; rfl, rfl, data, answer, own, rfl⟩

theorem pqAnswered_ready {data : ResPQ} :
    attempt.pqAnswered primitives event data ≠ .ready next := by
  unfold Attempt.pqAnswered
  split
  · nofun
  · split
    · nofun
    · dsimp only
      split
      · nofun
      · split <;> nofun

theorem dhParamsAnswered_cases {data : ServerDHParams} :
    (∃ error, attempt.dhParamsAnswered primitives event data = .failed error) ∨
      attempt.stage = .WaitingDH ∧ ∃ dataNonce encrypted inner opened,
        data = .ok dataNonce attempt.serverNonce encrypted ∧
        Attempt.decryptInner primitives attempt.newNonce attempt.serverNonce encrypted =
          some inner ∧
        inner.nonce = attempt.nonce ∧ inner.serverNonce = attempt.serverNonce ∧
        DhUtils.isPrimeAndGood primitives.toBigNumbers inner.dhPrime inner.g = true ∧
        attempt.dhParamsAnswered primitives event data =
          Attempt.dhClientParamsSend primitives event opened ∧
        opened.nonce = attempt.nonce ∧ opened.serverNonce = attempt.serverNonce ∧
        opened.newNonce = attempt.newNonce ∧ opened.g = inner.g ∧
        opened.dhPrime = inner.dhPrime ∧ opened.gA = inner.gA ∧ opened.retries = 0 := by
  unfold Attempt.dhParamsAnswered
  split
  · exact .inl ⟨_, rfl⟩
  next waiting =>
    have stage : attempt.stage = .WaitingDH := by simpa using waiting
    cases data with
    | fail => exact .inl ⟨_, rfl⟩
    | ok dataNonce serverNonce encrypted =>
      dsimp only
      unfold Attempt.dhParamsOk
      split
      · exact .inl ⟨_, rfl⟩
      next same =>
        have sameNonce : serverNonce = attempt.serverNonce := by simpa using same
        subst sameNonce
        split
        · exact .inl ⟨_, rfl⟩
        next inner decrypted =>
          split
          · exact .inl ⟨_, rfl⟩
          next nonce =>
            split
            · exact .inl ⟨_, rfl⟩
            next serverNonce =>
              split
              · exact .inl ⟨_, rfl⟩
              next good =>
                refine .inr ⟨stage, dataNonce, encrypted, inner, _, rfl, decrypted,
                  by simpa using nonce, by simpa using serverNonce, by simpa using good, rfl,
                  rfl, rfl, rfl, rfl, rfl, rfl, rfl⟩

theorem Progress.dhParamsAnswered {data : ServerDHParams}
    (progress : Progress primitives nonce attempt handled)
    (answer : event.answer = .reqDHParams data) (own : ServerDHParams.nonce data = nonce)
    (sends : attempt.dhParamsAnswered primitives event data = .sends next request) :
    Progress primitives nonce next (handled ++ [event]) := by
  rcases @dhParamsAnswered_cases primitives event attempt data with ⟨error, failed⟩ |
    ⟨stage, dataNonce, encrypted, inner, opened, rfl, decrypted, innerNonce, innerServerNonce, good,
      goesOn, sameNonce, sameServerNonce, sameNewNonce, g, dhPrime, gA, noRetries⟩
  · rw [failed] at sends
    cases sends
  · rw [goesOn] at sends
    obtain ⟨nextStage, retries, -, nextNonce, nextServerNonce, nextNewNonce, nextG, nextPrime,
      nextGA, aux, first, gB, found, key⟩ := dhClientParamsSend_sends sends
    obtain ⟨same, opening⟩ := progress
    rw [stage] at opening
    obtain ⟨resPQ, rfl, accepted⟩ := opening
    have dataOwn : dataNonce = nonce := own
    refine ⟨nextNonce.trans (sameNonce.trans same), ?_⟩
    rw [nextStage]
    refine ⟨inner, [], ⟨⟨resPQ, event, rfl, ?_, ?_⟩, nofun, by decide, event, rfl, gB, ?_, ?_⟩,
      ?_, nextG.trans g, nextPrime.trans dhPrime, nextGA.trans gA, aux⟩
    · rw [nextServerNonce, nextNewNonce, sameServerNonce, sameNewNonce]
      exact accepted
    · rw [nextServerNonce, nextNewNonce, sameServerNonce, sameNewNonce]
      rw [gA, dhPrime] at first
      refine ⟨encrypted, ?_, decrypted, innerNonce.trans same, innerServerNonce, good, first⟩
      rw [answer, dataOwn]
    · rw [← g, ← dhPrime]
      exact found
    · rw [← gA, ← dhPrime]
      exact key
    · rw [retries, noRetries]
      rfl

theorem dhParamsAnswered_ready {data : ServerDHParams} :
    attempt.dhParamsAnswered primitives event data ≠ .ready next := by
  rcases @dhParamsAnswered_cases primitives event attempt data with ⟨error, failed⟩ |
    ⟨-, -, -, -, opened, -, -, -, -, -, goesOn, -⟩
  · rw [failed]
    nofun
  · rw [goesOn]
    exact dhClientParamsSend_ready

variable {data : SetClientDHParamsAnswer}

theorem dhClientParamsAnswered_cases :
    (∃ error, attempt.dhClientParamsAnswered primitives event data = .failed error) ∨
      attempt.stage = .WaitingDone ∧ data.nonce = attempt.nonce ∧
        data.serverNonce = attempt.serverNonce ∧
        data.newNonceHash =
          Attempt.nonceDigest primitives (attempt.newNonceBuf (Attempt.checkByte data.kind)) ∧
        (data.kind = .ok ∧ attempt.dhClientParamsAnswered primitives event data =
            .ready { attempt with
              doneSalt := attempt.newNonce.setWidth 64 ^^^ attempt.serverNonce.setWidth 64
              stage := .Ready } ∨
          data.kind = .retry ∧ attempt.dhClientParamsAnswered primitives event data =
            Attempt.dhClientParamsSend primitives event
              { attempt with retryId := attempt.authKeyAuxHash }) := by
  unfold Attempt.dhClientParamsAnswered
  split
  · exact .inl ⟨_, rfl⟩
  next waiting =>
    split
    · exact .inl ⟨_, rfl⟩
    next nonce =>
      split
      · exact .inl ⟨_, rfl⟩
      next serverNonce =>
        split
        · exact .inl ⟨_, rfl⟩
        next hash =>
          cases kind : data.kind with
          | fail => exact .inl ⟨_, rfl⟩
          | ok =>
            rw [kind] at hash
            exact .inr ⟨by simpa using waiting, by simpa using nonce, by simpa using serverNonce,
              by simpa using hash, .inl ⟨rfl, rfl⟩⟩
          | retry =>
            rw [kind] at hash
            exact .inr ⟨by simpa using waiting, by simpa using nonce, by simpa using serverNonce,
              by simpa using hash, .inr ⟨rfl, rfl⟩⟩

section

variable (progress : Progress primitives nonce attempt handled)

include progress

theorem Progress.retried (answer : event.answer = .setClientDHParams data)
    (sends : attempt.dhClientParamsAnswered primitives event data = .sends next request) :
    Progress primitives nonce next (handled ++ [event]) := by
  rcases @dhClientParamsAnswered_cases primitives event attempt data with ⟨error, failed⟩ |
    ⟨stage, dataNonce, dataServerNonce, -, ⟨-, ready⟩ | ⟨retry, again⟩⟩
  · rw [failed] at sends
    cases sends
  · rw [ready] at sends
    cases sends
  · rw [again] at sends
    obtain ⟨nextStage, retries, few, nextNonce, nextServerNonce, nextNewNonce, nextG, nextPrime,
      nextGA, aux, -, gB, found, key⟩ := dhClientParamsSend_sends sends
    obtain ⟨same, waiting⟩ := progress
    rw [stage] at waiting
    obtain ⟨inner, earlier, opening, count, g, dhPrime, gA, -⟩ := waiting
    obtain ⟨resPQ, dhParams, rfl, pq, dh⟩ := opening.accepted
    refine ⟨nextNonce.trans same, ?_⟩
    rw [nextStage]
    refine ⟨inner, earlier ++ [event], ⟨⟨resPQ, dhParams, rfl, ?_, ?_⟩, ?_, ?_, event, ?_, gB, ?_,
      ?_⟩,
      ?_, nextG.trans g, nextPrime.trans dhPrime, nextGA.trans gA, aux⟩
    · rw [nextServerNonce, nextNewNonce]
      exact pq
    · rw [nextServerNonce, nextNewNonce]
      exact dh
    · intro other member
      rw [nextServerNonce]
      rcases mem_append.mp member with old | new
      · exact opening.retried other old
      · rw [mem_singleton.mp new]
        refine ⟨data.newNonceHash, ?_⟩
        rw [AcceptsGen, answer, ← same, ← dataNonce, ← retry]
        exact congrArg _ (by rw [← dataServerNonce])
    · have below : attempt.retries ≤ 4 := few
      rw [length_append, length_singleton]
      omega
    · have all : resPQ :: dhParams :: earlier ++ [event] =
          (resPQ :: dhParams :: earlier) ++ [event] := rfl
      rw [all, getLast?_append, getLast?_singleton]
      rfl
    · rw [← g, ← dhPrime]
      exact found
    · rw [← gA, ← dhPrime]
      exact key
    · have more : next.retries = attempt.retries + 1 := retries
      rw [length_append, length_singleton, more, count]

theorem Progress.ready (answer : event.answer = .setClientDHParams data)
    (ready : attempt.dhClientParamsAnswered primitives event data = .ready next) :
    next.stage = .Ready ∧ Exchange primitives nonce (handled ++ [event]) next.authKey := by
  rcases @dhClientParamsAnswered_cases primitives event attempt data with ⟨error, failed⟩ |
    ⟨stage, dataNonce, dataServerNonce, hash, ⟨ok, isReady⟩ | ⟨-, again⟩⟩
  · rw [failed] at ready
    cases ready
  · rw [isReady] at ready
    cases ready
    obtain ⟨same, waiting⟩ := progress
    rw [stage] at waiting
    obtain ⟨inner, earlier, opening, -, -, -, -, aux⟩ := waiting
    refine ⟨rfl, handled, earlier, event, attempt.serverNonce, attempt.newNonce, inner, rfl,
      opening, ?_⟩
    rw [Attempt.newNonceBuf, ok, aux] at hash
    rw [AcceptsGen, answer, newNonceHash1, ← same, ← dataNonce, ← ok]
    refine congrArg _ ?_
    rw [← dataServerNonce]
    exact congrArg (SetClientDHParamsAnswer.mk data.kind data.nonce data.serverNonce) hash
  · rw [again] at ready
    exact absurd ready dhClientParamsSend_ready

theorem Progress.answered_sends (own : nonceOf event.answer = some nonce)
    (sends : answered primitives event attempt = .sends next request) :
    Progress primitives nonce next (handled ++ [event]) := by
  unfold answered at sends
  cases answer : event.answer with
  | reqPQ data =>
    rw [answer] at sends own
    exact progress.pqAnswered answer (some_inj.mp own) sends
  | reqDHParams data =>
    rw [answer] at sends own
    exact progress.dhParamsAnswered answer (some_inj.mp own) sends
  | setClientDHParams data =>
    rw [answer] at sends
    exact progress.retried answer sends
  | unknown =>
    rw [answer] at sends
    cases sends

theorem Progress.answered_ready (ready : answered primitives event attempt = .ready next) :
    next.stage = .Ready ∧ Exchange primitives nonce (handled ++ [event]) next.authKey := by
  unfold answered at ready
  cases answer : event.answer with
  | reqPQ data =>
    rw [answer] at ready
    exact absurd ready pqAnswered_ready
  | reqDHParams data =>
    rw [answer] at ready
    exact absurd ready dhParamsAnswered_ready
  | setClientDHParams data =>
    rw [answer] at ready
    exact progress.ready answer ready
  | unknown =>
    rw [answer] at ready
    cases ready

end

theorem progress_pqSend (attempt : Attempt) (expiresIn : Int32) (nonce : Nonce) :
    Progress primitives nonce (attempt.pqSend expiresIn nonce) [] :=
  ⟨rfl, rfl⟩

/-- The keys of the result come from exchanges that were carried through in a row. -/
def Consistent (primitives : Primitives) (request : DcKeyRequest) (nonce : Nonce)
    (handled : List Event) (result : DcKeyResult) : Prop :=
  if request.persistentNeeded then
    ∃ first last second key, handled = first ++ second ∧ first.getLast? = some last ∧
      result.persistentKey = some key ∧ Exchange primitives nonce first key ∧
      Exchange primitives last.nonce second result.temporaryKey
  else result.persistentKey = none ∧ Exchange primitives nonce handled result.temporaryKey

/-- Where a creator that receives answers is. -/
inductive Phase (primitives : Primitives) (nonce : Nonce) (creator : DcKeyCreator)
    (handled : List Event) : Prop
  | persistent (needed : creator.request.persistentNeeded = true)
      (idle : creator.temporary = {})
      (progress : Progress primitives nonce creator.persistent handled)
  | alone (notNeeded : creator.request.persistentNeeded = false)
      (idle : creator.persistent = {})
      (progress : Progress primitives nonce creator.temporary handled)
  | temporary (first second : List Event) (last : Event)
      (needed : creator.request.persistentNeeded = true)
      (parts : handled = first ++ second) (ended : first.getLast? = some last)
      (ready : creator.persistent.stage = .Ready)
      (exchange : Exchange primitives nonce first creator.persistent.authKey)
      (progress : Progress primitives last.nonce creator.temporary second)

/-- The state of the creator follows from the answers that came, and what it reported agrees
with them. -/
structure Follows (primitives : Primitives) (request : DcKeyRequest) (nonce : Nonce)
    (creator : DcKeyCreator) (came : List Event) : Prop where
  asked : creator.request = request
  phase : creator.receiving = true →
    creator.reports = [] ∧ Phase primitives nonce creator came
  reported : creator.receiving = false →
    ∃ report handled, creator.reports = [report] ∧ handled <+: came ∧
      ∀ result, report = .done result → Consistent primitives request nonce handled result

theorem follows_start (request : DcKeyRequest) (nonce : Nonce) :
    Follows primitives request nonce (start request nonce) [] := by
  unfold start
  cases needed : request.persistentNeeded with
  | true =>
    refine ⟨rfl, fun _ => ⟨rfl, ?_⟩, nofun⟩
    exact .persistent needed rfl (progress_pqSend _ _ _)
  | false =>
    refine ⟨rfl, fun _ => ⟨rfl, ?_⟩, nofun⟩
    exact .alone needed rfl (progress_pqSend _ _ _)

section Creator

variable {creator after : DcKeyCreator} {came : List Event} {keys : DcKeyRequest}

theorem Follows.failed (follows : Follows primitives keys nonce creator came)
    (none : creator.reports = []) (error : DcKeyError) (event : Event) :
    Follows primitives keys nonce (creator.failed error) (came ++ [event]) := by
  refine ⟨follows.asked, nofun, fun _ => ⟨.failed error, came, ?_, prefix_append _ _, nofun⟩⟩
  rw [DcKeyCreator.failed, none]
  rfl

theorem Follows.done (same : creator.request = keys)
    (none : creator.reports = []) (busy : creator.temporary.stage ≠ .None)
    (consistent : Consistent primitives keys nonce came creator.result) (event : Event) :
    Follows primitives keys nonce (creator.done event.nonce) came := by
  unfold DcKeyCreator.done
  rw [if_neg busy]
  refine ⟨same, nofun, fun _ => ⟨.done creator.result, came, ?_, prefix_rfl, ?_⟩⟩
  · rw [none]
    rfl
  · rintro result ⟨⟩
    exact consistent

section

variable (follows : Follows primitives keys nonce creator came) (none : creator.reports = [])
include follows none

theorem Follows.idle {which : Which}
    (idle : (creator.attempt which).stage = .None ∨ (creator.attempt which).stage = .Ready)
    (stepped : creator.follow event which
      (answered primitives event (creator.attempt which)) = some after) :
    Follows primitives keys nonce after (came ++ [event]) := by
  obtain ⟨error, failed⟩ := @answered_failed primitives event _ idle
  rw [failed] at stepped
  cases stepped
  exact follows.failed none error event

/-- The attempt for a persistent key goes on or ends, and then the other one starts. -/
theorem Follows.persistent (receiving : creator.receiving = true)
    (needed : creator.request.persistentNeeded = true) (idle : creator.temporary = {})
    (progress : Progress primitives nonce creator.persistent came)
    (own : nonceOf event.answer = some nonce)
    (stepped : creator.follow event .persistent
      (answered primitives event creator.persistent) = some after) :
    Follows primitives keys nonce after (came ++ [event]) := by
  cases outcome : answered primitives event creator.persistent with
  | sends next request =>
    rw [outcome] at stepped
    cases stepped
    refine ⟨follows.asked, fun _ => ⟨none, ?_⟩, fun stopped => ?_⟩
    · exact .persistent needed idle (progress.answered_sends own outcome)
    · exact absurd (receiving.symm.trans stopped) (by decide)
  | ready next =>
    rw [outcome] at stepped
    cases stepped
    obtain ⟨ready, exchange⟩ := progress.answered_ready outcome
    have started : (creator.setAttempt next .persistent).temporary.stage = .None := by
      rw [setAttempt, idle]
    unfold DcKeyCreator.done
    rw [if_pos started]
    refine ⟨follows.asked, fun _ => ⟨none, ?_⟩, fun stopped => ?_⟩
    · exact .temporary (came ++ [event]) [] event needed (append_nil _).symm (by simp) ready
        exchange (progress_pqSend _ _ _)
    · exact absurd (receiving.symm.trans stopped) (by decide)
  | failed error =>
    rw [outcome] at stepped
    cases stepped
    exact follows.failed none error event
  | computing =>
    rw [outcome] at stepped
    cases stepped

/-- The attempt for a temporary key goes on or ends, and then its key is reported. -/
theorem Follows.temporary (receiving : creator.receiving = true) {own : Nonce}
    {handled : List Event} (progress : Progress primitives own creator.temporary handled)
    (ownNonce : nonceOf event.answer = some own)
    (goesOn : ∀ next request, Progress primitives own next (handled ++ [event]) →
      Phase primitives nonce
        { creator with temporary := next, sent := creator.sent ++ [request] } (came ++ [event]))
    (ends : ∀ next : Attempt, Exchange primitives own (handled ++ [event]) next.authKey →
      Consistent primitives keys nonce (came ++ [event])
        { creator with temporary := next : DcKeyCreator }.result)
    (stepped : creator.follow event .temporary
      (answered primitives event creator.temporary) = some after) :
    Follows primitives keys nonce after (came ++ [event]) := by
  cases outcome : answered primitives event creator.temporary with
  | sends next request =>
    rw [outcome] at stepped
    cases stepped
    refine ⟨follows.asked, fun _ => ⟨none, ?_⟩, fun stopped => ?_⟩
    · exact goesOn next request (progress.answered_sends ownNonce outcome)
    · exact absurd (receiving.symm.trans stopped) (by decide)
  | ready next =>
    rw [outcome] at stepped
    cases stepped
    obtain ⟨ready, exchange⟩ := progress.answered_ready outcome
    have busy : (creator.setAttempt next .temporary).temporary.stage ≠ .None := by
      rw [setAttempt, ready]
      decide
    have same : (creator.setAttempt next .temporary).request = keys := follows.asked
    exact Follows.done same none busy (ends next exchange) event
  | failed error =>
    rw [outcome] at stepped
    cases stepped
    exact follows.failed none error event
  | computing =>
    rw [outcome] at stepped
    cases stepped

end

theorem attemptByNonce_nonce {which : Which} {own : Nonce}
    (found : creator.attemptByNonce own = some which) : (creator.attempt which).nonce = own := by
  unfold attemptByNonce at found
  split at found
  · cases found
    assumption
  · split at found
    · cases found
      assumption
    · cases found

/-- The transcript goes on with what came. -/
theorem Follows.step (follows : Follows primitives keys nonce creator came)
    (stepped : creator.step primitives event = some after) :
    Follows primitives keys nonce after (came ++ [event]) := by
  unfold DcKeyCreator.step at stepped
  split at stepped
  next receiving =>
    obtain ⟨none, phase⟩ := follows.phase receiving
    unfold handleAnswer at stepped
    split at stepped
    next which found =>
      obtain ⟨own, isOwn, attempt⟩ := bind_eq_some_iff.mp found
      have same := attemptByNonce_nonce attempt
      cases phase with
      | persistent needed idle progress =>
        cases which with
        | temporary =>
          refine follows.idle none (.inl ?_) stepped
          rw [DcKeyCreator.attempt, idle]
        | persistent =>
          have ownNonce : own = nonce := same.symm.trans progress.1
          exact follows.persistent none receiving needed idle progress (ownNonce ▸ isOwn) stepped
      | alone notNeeded idle progress =>
        cases which with
        | temporary =>
          have ownNonce : own = nonce := same.symm.trans progress.1
          refine follows.temporary none receiving progress (ownNonce ▸ isOwn) ?_ ?_ stepped
          · intro next request goesOn
            exact .alone notNeeded idle goesOn
          · intro next exchange
            rw [Consistent, ← follows.asked, notNeeded]
            refine ⟨?_, ?_⟩
            · rw [result, if_neg (by rw [idle]; decide)]
            · rw [result, if_neg (by rw [idle]; decide)]
              exact exchange
        | persistent =>
          refine follows.idle none (.inl ?_) stepped
          rw [DcKeyCreator.attempt, idle]
      | temporary first second last needed parts ended ready exchanged progress =>
        cases which with
        | temporary =>
          have ownNonce : own = last.nonce := same.symm.trans progress.1
          have more : came ++ [event] = first ++ (second ++ [event]) := by
            rw [parts, append_assoc]
          refine follows.temporary none receiving progress (ownNonce ▸ isOwn) ?_ ?_ stepped
          · intro next request goesOn
            exact .temporary first (second ++ [event]) last needed more ended ready exchanged goesOn
          · intro next exchange
            rw [Consistent, ← follows.asked, needed]
            refine ⟨first, last, second ++ [event], creator.persistent.authKey, more, ended,
              ?_, exchanged, ?_⟩
            · rw [result, if_pos ready]
            · rw [result, if_pos ready]
              exact exchange
        | persistent =>
          have isReady : (creator.attempt .persistent).stage = .None ∨
              (creator.attempt .persistent).stage = .Ready := .inr ready
          exact follows.idle none isReady stepped
    · cases stepped
      exact follows.failed none .Other event
  next stopped =>
    cases stepped
    have notReceiving : creator.receiving = false := by simpa using stopped
    obtain ⟨report, handled, reports, begins, consistent⟩ := follows.reported notReceiving
    refine ⟨follows.asked, fun receiving => absurd receiving stopped, fun _ => ?_⟩
    exact ⟨report, handled, reports, begins.trans (prefix_append _ _), consistent⟩

theorem Follows.run {events : List Event} (follows : Follows primitives keys nonce creator came)
    (ran : creator.run primitives events = some after) :
    Follows primitives keys nonce after (came ++ events) := by
  induction events generalizing creator came with
  | nil =>
    cases ran
    rwa [append_nil]
  | cons event events ih =>
    obtain ⟨next, stepped, rest⟩ := bind_eq_some_iff.mp ran
    have followed := ih (follows.step stepped) rest
    rwa [append_assoc] at followed

end Creator

/-- Keys are reported once, and only after the exchanges they stand for. -/
theorem reports_consistent (primitives : Primitives) (request : DcKeyRequest) (nonce : Nonce)
    (events : List Event) (creator : DcKeyCreator)
    (ran : (DcKeyCreator.start request nonce).run primitives events = some creator) :
    creator.reports.length ≤ 1 ∧
      ∀ result, .done result ∈ creator.reports →
        ∃ handled, handled <+: events ∧ Consistent primitives request nonce handled result := by
  have follows := (follows_start request nonce).run ran
  rw [nil_append] at follows
  cases receiving : creator.receiving with
  | true =>
    have none := (follows.phase receiving).1
    rw [none]
    exact ⟨Nat.zero_le _, nofun⟩
  | false =>
    obtain ⟨report, handled, reports, begins, consistent⟩ := follows.reported receiving
    rw [reports]
    refine ⟨Nat.le_refl _, fun result member => ?_⟩
    exact ⟨handled, begins, consistent result (mem_singleton.mp member).symm⟩

/-- Primitives that encrypt nothing. -/
def plainPrimitives : Primitives where
  RSAKey := Unit
  isPrime _ := true
  modExp _ _ _ := 2 ^ 2000
  sha1 _ := List.replicate 20 0
  aesIgeDecrypt encrypted _ _ := encrypted
  readServerDHInnerData _ := some (⟨1, 2, 3, DhUtils.goodPrime, DhUtils.getBytes (2 ^ 2000)⟩, 4)
  getDcRSAKey _ := some ()
  fingerprint _ := 0
  factorizePQ _ := ([1], [1])
  encryptPQInnerRSA _ _ _ := [1]
  encryptClientDHInner _ _ _ _ := [1]

def plainEvent (answer : Answer) : Event := ⟨answer, 0, 0, [[1]], 0⟩

/-- An exchange that is carried through. -/
def plainEvents : List Event := [
  plainEvent (.reqPQ ⟨1, 2, [1], []⟩),
  plainEvent (.reqDHParams (.ok 1 2 (List.replicate 24 0))),
  plainEvent (.setClientDHParams ⟨.ok, 1, 2, 0⟩)]

/-- The keys were reported. -/
def isDone (creator : Option DcKeyCreator) : Bool :=
  match creator.map DcKeyCreator.reports with
  | some [.done _] => true
  | _ => false

theorem reports_consistent_plain :
    ∃ creator result, (DcKeyCreator.start ⟨1, false⟩ 1).run plainPrimitives plainEvents =
        some creator ∧ creator.reports = [.done result] ∧
      ∃ handled, handled <+: plainEvents ∧
        Consistent plainPrimitives ⟨1, false⟩ 1 handled result := by
  have done : isDone ((start ⟨1, false⟩ 1).run plainPrimitives plainEvents) =
      true := by decide +kernel
  cases ran : (start ⟨1, false⟩ 1).run plainPrimitives plainEvents with
  | none =>
    rw [ran] at done
    cases done
  | some creator =>
    rw [ran] at done
    obtain ⟨-, consistent⟩ := reports_consistent _ _ _ _ _ ran
    match reports : creator.reports with
    | [] | [.failed _] | _ :: _ :: _ => simp [isDone, reports] at done
    | [.done result] =>
      exact ⟨creator, result, rfl, reports, consistent result (by simp [reports])⟩

end TelegramDesktop.KeyExchange
