import PaymentSystem.System.Schedule

/-! What a commit does to amounts and versions: balances move by exactly the amount
and versions by one, whatever the two roundings on the way. -/
namespace PaymentSystem
open Numerics (Decimal Numeric)
open Interleaving (Program Reach)

def Changed (before after : Tables) (id : UUID) (amount : Int) : Prop :=
  ∃ old ∈ before.wallets, ∃ new ∈ after.wallets, old.id = id ∧ new.id = id ∧
    new.balance.units = old.balance.units + amount ∧ new.version = old.version + 1

def Unchanged (before after : Tables) (ids : List UUID) : Prop :=
  before.users = after.users ∧ ∀ wallet ∈ before.wallets, wallet.id ∉ ids → wallet ∈ after.wallets

structure ToppedUp (before after : Tables) (wallet : Wallet) (userId : UUID) (amount : Amount) : Prop where
  here : wallet ∈ before.wallets
  owner : wallet.userId = userId
  credit : Changed before after wallet.id amount.cents
  rest : Unchanged before after [wallet.id]
  transactions : after.transactions = before.transactions

structure Transferred (before after : Tables) (sender receiver : Wallet) (row : Transaction) (userId : UUID)
    (request : PaymentRequest) : Prop where
  senderHere : sender ∈ before.wallets
  senderOwner : sender.userId = userId
  receiverHere : receiver ∈ before.wallets
  receiverOwner : receiver.userId = request.receiverId
  debit : Changed before after sender.id (-request.amount.cents)
  credit : Changed before after receiver.id request.amount.cents
  rest : Unchanged before after [sender.id,receiver.id]
  transactions : after.transactions = before.transactions ++ [row]
  records : row.Records sender receiver request

section
variable {calls : List Call} {t : Tables} {pid : Nat} {writes : List Write}

theorem Entry.toppedUp {userId : UUID} {amount : Amount} {redisClient : Bool} (h : Entry calls t pid writes)
    (call : calls[pid]? = some (.topUp userId amount redisClient)) :
    ∃ wallet, ToppedUp t (t.applyAll writes) wallet userId amount := by
  cases h with
  | register call' => cases Option.some.inj (call.symm.trans call')
  | send call' => cases Option.some.inj (call.symm.trans call')
  | @topUp userId' amount' redisClient' wallet stored call' here owner credit =>
    cases Option.some.inj (call.symm.trans call')
    refine ⟨wallet,here,owner,⟨wallet,here,_,Tables.updateWalletSelf here rfl,rfl,rfl,credit,rfl⟩,⟨rfl,?_⟩,rfl⟩
    intro other inside apart
    exact Tables.updateWalletOther inside (by simpa using apart)

theorem Entry.transferred {userId : UUID} {request : PaymentRequest} {redisClient : Bool}
    (h : Entry calls t pid writes) (call : calls[pid]? = some (.sendMoney userId request redisClient)) :
    ∃ sender receiver row, Transferred t (t.applyAll writes) sender receiver row userId request := by
  cases h with
  | register call' => cases Option.some.inj (call.symm.trans call')
  | topUp call' => cases Option.some.inj (call.symm.trans call')
  | @send userId' request' redisClient' sender receiver debited credited row call' senderHere senderOwner
      receiverHere receiverOwner different covered debit credit records =>
    cases Option.some.inj (call.symm.trans call')
    have debitedHere := @Tables.updateWalletSelf _ _ debited (sender.version + 1) _ senderHere rfl
    have receiverStill := @Tables.updateWalletOther _ _ debited (sender.version + 1) _ receiverHere
      (Ne.symm different)
    refine ⟨sender,receiver,row,senderHere,senderOwner,receiverHere,receiverOwner,?_,?_,⟨rfl,?_⟩,rfl,records⟩
    · refine ⟨sender,senderHere,_,Tables.updateWalletOther debitedHere different,rfl,rfl,?_,rfl⟩
      simp only [debit]
      omega
    · exact ⟨receiver,receiverHere,_,Tables.updateWalletSelf receiverStill rfl,rfl,rfl,credit,rfl⟩
    · intro other inside apart
      simp only [List.mem_cons,List.not_mem_nil,or_false,not_or] at apart
      exact Tables.updateWalletOther (Tables.updateWalletOther inside apart.1) apart.2

theorem creditStored (wallet : Wallet) (amount : Amount) (nonneg : 0 ≤ wallet.balance.units) :
    match (wallet.balance.toDecimal.add amount.value).bind (Numeric.ofDecimal 18 2) with
    | some stored => stored.units = wallet.balance.units + amount.cents
    | none => 10 ^ 18 ≤ wallet.balance.units + amount.cents := by
  cases added : wallet.balance.toDecimal.add amount.value with
  | none =>
    rw [Option.bind_none]
    exact creditOverflow nonneg added
  | some d =>
    rw [Option.bind_some]
    split
    · rename_i stored fits
      exact creditFits nonneg added fits
    · rename_i unfit
      exact creditLarge nonneg added unfit

theorem debitStored (wallet : Wallet) (amount : Amount) (covered : amount.cents ≤ wallet.balance.units) :
    ∃ stored, (wallet.balance.toDecimal.sub amount.value).bind (Numeric.ofDecimal 18 2) = some stored ∧
      stored.units = wallet.balance.units - amount.cents := by
  have positive := amount.positive
  have range := wallet.balance.fits
  obtain ⟨d,subtracted,units⟩ := Decimal.inContextExact (wallet.balance.toDecimalUnits.difference amount.inCents)
    (by rw [Decimal.precision]; omega)
  exact ⟨_,(congrArg (Option.bind · _) subtracted).trans (Numeric.ofDecimalSome units (by omega)),rfl⟩

end

theorem moneyExact [Pydantic] {c : State} (reachable : Reachable c) :
    (∀ i commit, c.shared.wal[i]? = some commit →
      (∀ userId amount redisClient, c.shared.calls[commit.pid]? = some (.topUp userId amount redisClient) →
        ∃ wallet, ToppedUp (tablesAt c.shared.wal i) (tablesAt c.shared.wal (i + 1)) wallet userId amount) ∧
      (∀ userId request redisClient,
        c.shared.calls[commit.pid]? = some (.sendMoney userId request redisClient) →
        ∃ sender receiver row, Transferred (tablesAt c.shared.wal i) (tablesAt c.shared.wal (i + 1)) sender
          receiver row userId request)) ∧
      (∀ pid outcome, c.outcome pid = some outcome → ¬ CommittedBy pid c.shared →
        (∀ userId amount redisClient, c.shared.calls[pid]? = some (.topUp userId amount redisClient) →
          ∃ e, outcome = .error e) ∧
        (∀ userId request redisClient, c.shared.calls[pid]? = some (.sendMoney userId request redisClient) →
          (∃ e, outcome = .error e) ∨ ∃ x ∈ c.shared.tables.transactions,
            x.idempotencyKey = request.idempotencyKey ∧
              outcome = .ok (.payment (TransactionResponse.modelValidate x)))) ∧
      (∀ e c', machine.next c e = some c' → c'.shared.wal = c.shared.wal →
        c'.shared.tables = c.shared.tables) ∧
      (∀ wallet ∈ c.shared.tables.wallets, ∀ amount : Amount,
        match (wallet.balance.toDecimal.add amount.value).bind (Numeric.ofDecimal 18 2) with
        | some stored => stored.units = wallet.balance.units + amount.cents
        | none => 10 ^ 18 ≤ wallet.balance.units + amount.cents) ∧
      ∀ wallet ∈ c.shared.tables.wallets, ∀ amount : Amount, amount.cents ≤ wallet.balance.units →
        ∃ stored, (wallet.balance.toDecimal.sub amount.value).bind (Numeric.ofDecimal 18 2) = some stored ∧
          stored.units = wallet.balance.units - amount.cents := by
  have intact := reachableIntact reachable
  refine ⟨?_,?_,?_,fun wallet here amount => creditStored wallet amount (intact.nonneg here),
    fun wallet _ amount => debitStored wallet amount⟩
  · intro i commit here
    have entry := intact.legal.entryAt here
    rw [tablesAtSucc here]
    exact ⟨fun _ _ _ call => entry.toppedUp call,fun _ _ _ call => entry.transferred call⟩
  · intro pid outcome done uncommitted
    obtain ⟨call,concluded⟩ := (reachableReport reachable done).concluded
    have answered := concluded.answered
    constructor
    · intro userId amount redisClient called
      cases Option.some.inj (concluded.called.symm.trans called)
      cases outcome with
      | error e => exact ⟨e,rfl⟩
      | ok response =>
        cases response with
        | wallet wallet => exact absurd answered.1 uncommitted
        | _ => exact absurd answered id
    · intro userId request redisClient called
      cases Option.some.inj (concluded.called.symm.trans called)
      cases outcome with
      | error e => exact .inl ⟨e,rfl⟩
      | ok response =>
        cases response with
        | payment t =>
          obtain ⟨x,here,key,rfl⟩ := answered
          exact .inr ⟨x,here,key,rfl⟩
        | _ => exact absurd answered id
  · intro e c' step same
    rw [(reachableIntact (.next reachable trivial step)).replayed,intact.replayed,same]

open JsonMode in
theorem moneyExactRent : ∃ sender receiver row,
    Transferred (tablesAt (stateAfter rentTwice).shared.wal 3) (tablesAt (stateAfter rentTwice).shared.wal 4)
      sender receiver row 102 rent := by
  obtain ⟨commit,here,own⟩ : ∃ commit, (stateAfter rentTwice).shared.wal[3]? = some commit ∧ commit.pid = 3 := by
    have found : ((stateAfter rentTwice).shared.wal[3]?.map Commit.pid) = some 3 := by decide +kernel
    exact Option.map_eq_some_iff.mp found
  have called : (stateAfter rentTwice).shared.calls[3]? = some (.sendMoney 102 rent false) := by decide +kernel
  exact ((moneyExact (stateReachable rentTwice (by decide +kernel))).1 3 commit here).2 102 rent false
    (own ▸ called)

end PaymentSystem
