import TelegramDesktop.StorageDomain
import TelegramDesktop.Runs

/-!
# Accounts that come and go

What happens to the accounts of a started domain: they are added and activated, they log
in and out, and those without a session are removed.
-/

namespace TelegramDesktop.Accounts

namespace Domain

variable (owner : Domain)

/-- The first index from the given one on that is not taken, among so many and the one
after them. -/
def freeIndex (taken : List Int32) : Nat → Int32 → Int32
  | 0, index => index
  | left + 1, index => if index ∈ taken then freeIndex taken left (index + 1) else index

/-- The new account has no session.  No write is scheduled. -/
def add : Option Domain :=
  if owner.accounts = [] ∨ kPremiumMaxAccounts.toNatClampNeg ≤ owner.accounts.length then none
  else if owner.storage.localKey.isNone then none
  else
    let index := freeIndex owner.indices owner.accounts.length 0
    some { owner with accounts := owner.accounts ++ [{ index, sessionId := 0 }] }

def activateAuthedAccount : Option Domain :=
  if owner.accounts = [] then none
  else if owner.activeSessionExists then some owner
  else
    match owner.accounts.find? (·.sessionExists) with
    | some account => owner.activate account.index
    | none => some owner

/-- The account gets another session. -/
def setSession (index : Int32) (sessionId : Nat) : Domain :=
  { owner with accounts := owner.accounts.map fun account =>
      if account.index = index then { account with sessionId } else account }

/-- A session is created in an account without one.  No other account has it. -/
def CanLogIn (index : Int32) (sessionId : Nat) : Prop :=
  index ∈ owner.indices ∧ owner.sessionExists index = false ∧ sessionId ≠ 0 ∧
    ∀ account ∈ owner.accounts, account.sessionId ≠ sessionId

instance (index : Int32) (sessionId : Nat) : Decidable (owner.CanLogIn index sessionId) :=
  inferInstanceAs (Decidable (_ ∧ _ ∧ _ ∧ _))

/-- An account without a session gets a new one. -/
def login (index : Int32) (sessionId : Nat) : Option Domain :=
  if owner.CanLogIn index sessionId then some (owner.setSession index sessionId) else none

/-- The session is destroyed, and `removeRedundantAccounts` is queued. -/
def logout (index : Int32) : Option Domain :=
  if owner.sessionExists index then
    let next := owner.setSession index 0
    if owner.active = some index then next.activateAuthedAccount else some next
  else none

def removeRedundantAccounts (crypto : Crypto) (salt : Salt) : Option Domain :=
  owner.activateAuthedAccount.bind fun next =>
    let remaining := next.accounts.filter fun account =>
      next.active = some account.index ∨ account.sessionExists
    (removePasscodeIfEmpty { next with accounts := remaining } crypto salt).map
      fun (after, removed) =>
        if !removed ∧ after.accounts.length ≠ owner.accounts.length then
          after.scheduleWriteAccounts
        else after

/-- The scheduled write of the accounts. -/
def writeScheduled (crypto : Crypto) : Option Domain :=
  if owner.writeAccountsScheduled then
    Storage.writeAccounts crypto { owner with writeAccountsScheduled := false }
  else none

end Domain

/-- The domain while it runs, with the passcode that unlocks it. -/
structure Life where
  domain : Domain
  passcode : Bytes
  deriving DecidableEq

/-- A domain without a passcode is started with an empty one. -/
def Domain.life (domain : Domain) (passcode : Bytes) : Life where
  domain := domain
  passcode := if domain.storage.hasLocalPasscode then passcode else []

/-- What can happen to a started domain.  A new passcode and one that is removed come with
their salts. -/
inductive Event
  | add
  | activate (index : Int32)
  | login (index : Int32) (sessionId : Nat)
  | logout (index : Int32)
  | removeRedundantAccounts (salt : Salt)
  | setPasscode (passcode : Bytes) (salt : Salt)
  | writeAccounts
  deriving DecidableEq

namespace Life

variable (crypto : Crypto) (life : Life)

def step : Event → Option Life
  | .add => life.domain.add.map fun domain => { life with domain }
  | .activate index => (life.domain.activate index).map fun domain => { life with domain }
  | .login index sessionId =>
    (life.domain.login index sessionId).map fun domain => { life with domain }
  | .logout index => (life.domain.logout index).map fun domain => { life with domain }
  | .removeRedundantAccounts salt =>
    (life.domain.removeRedundantAccounts crypto salt).map fun domain =>
      domain.life life.passcode
  | .setPasscode passcode salt =>
    (Storage.setPasscode crypto passcode life.domain salt).map fun domain =>
      { domain, passcode }
  | .writeAccounts => (life.domain.writeScheduled crypto).map fun domain => { life with domain }

end Life

end TelegramDesktop.Accounts
