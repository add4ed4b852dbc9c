import PaymentSystem.System.Traces
import PaymentSystem.Guarantees.Progress
import PaymentSystem.Base.Completion
import Mathlib.Algebra.Order.BigOperators.Group.Finset

/-! Every request ends. It makes no more calls than its kind of request can make, retries
included, whatever is replied to it; so requests that are run one call at a time, in any
order and with any failures, are all over once those calls are used up. -/
namespace PaymentSystem
open Numerics (Decimal)
open Interleaving (Task Program Machine Event Reach Leads Traces Rationed Spending Tireless)
open Interleaving.Task (Takes takesPure takesThrow takesRead takesChange takesAwait takesMore takesThen takesCatch Lasts
  takesLasts lastsThen lastsReturn lastsChange)

def Call.budget : Call → Nat
  | .register _ => 7
  | .topUp _ _ _ => 19
  | .sendMoney _ _ _ => 36
  | .getWallet _ _ => 4
  | .getBalanceFast _ _ => 4
  | .getTransactionHistory _ _ _ _ => 4
  | .getTransaction _ _ => 3

abbrev Clean (l : Session) : Prop := l.dirty = []

abbrev Costs {α : Type} (n : Nat) (t : Py α) : Prop := Takes Clean n t

section
variable {α β : Type}

theorem costsAwait (op : Op) : Costs 1 (await op) := takesAwait op

theorem costsExecute (op : Op) : Costs 1 (execute op) := by
  intro bound l trace clean room
  unfold Interleaving.Task.Ends
  rw [executeClean clean]
  exact costsAwait op bound l trace clean room

theorem costsCommit : Costs 1 commit := by
  intro bound l trace clean room
  unfold Interleaving.Task.Ends
  rw [commitClean clean]
  exact costsAwait .commit bound l trace clean room

theorem costsRollback : Costs 1 rollback :=
  takesThen (costsAwait .rollback) (fun _ => takesChange (fun _ _ => rfl))

theorem costsOne (rows : List α) : Costs 0 (scalarOneOrNone rows) := by
  unfold scalarOneOrNone
  split
  · exact takesPure _
  · exact takesPure _
  · exact takesThrow _

theorem costsObjects (rows : List Wallet) : Costs 0 (objects rows) :=
  takesThen (takesChange (fun l clean => (mergesClean rows l).trans clean)) (fun _ => takesPure _)

theorem takesAttributes {fit : Session → Prop} (ref : WalletRef) : Takes fit 0 ref.attributes := by
  refine takesThen (b := 0) takesRead ?_
  intro session
  split
  · exact takesPure _
  · exact takesThrow _

theorem costsId (ref : WalletRef) : Costs 0 ref.id := takesThen (takesAttributes ref) (fun _ => takesPure _)

theorem costsBalance (ref : WalletRef) : Costs 0 ref.balance := takesThen (takesAttributes ref) (fun _ => takesPure _)

theorem costsVersion (ref : WalletRef) : Costs 0 ref.version := takesThen (takesAttributes ref) (fun _ => takesPure _)

theorem costsArithmetic (d : Option Decimal) : Costs 0 (arithmetic d) := by
  unfold arithmetic
  split
  · exact takesPure _
  · exact takesThrow _

/-! The repositories. -/

theorem costsGetByUserId (userId : UUID) : Costs 1 (WalletRepository.getByUserId userId) :=
  takesThen (costsExecute _) (fun _ => takesThen (costsObjects _) (fun _ => costsOne _))

theorem costsGetByIdForUpdate (id : UUID) : Costs 1 (WalletRepository.getByIdForUpdate id) :=
  takesThen (costsExecute _) (fun _ => takesThen (costsObjects _) (fun _ => costsOne _))

theorem costsUpdateBalance (id : UUID) (balance : Decimal) (version : Int) :
    Costs 1 (WalletRepository.updateBalance id balance version) := by
  refine takesThen (costsExecute _) (fun _ => takesThen (b := 0) (takesChange ?_) (fun _ => takesPure _))
  intro l clean
  exact (synchronizeClean l _ _ _ _).trans clean

theorem costsGetByKey (key : String) : Costs 1 (TransactionRepository.getByIdempotencyKey key) :=
  takesThen (costsExecute _) (fun _ => costsOne _)

theorem costsGetById (id : UUID) : Costs 1 (TransactionRepository.getById id) :=
  takesThen (costsExecute _) (fun _ => costsOne _)

theorem costsGetByWalletId (id : UUID) (page pageSize : Nat) :
    Costs 2 (TransactionRepository.getByWalletId id page pageSize) :=
  takesThen (costsExecute _) (fun _ => takesThen (b := 0) (costsExecute _) (fun _ => takesPure _))

theorem costsRefresh (op : Op) {f : op.Val → Py α} (rest : ∀ rows, Costs 0 (f rows)) : Costs 1 (do f (← execute op)) :=
  takesThen (costsExecute op) rest

theorem costsRefreshUser (user : User) : Costs 1 (refreshUser user) := by
  refine costsRefresh (.selectUserById user.id) ?_
  intro rows
  split
  · exact takesPure _
  · exact takesThrow _

theorem costsRefreshTransaction (transaction : Transaction) : Costs 1 (refreshTransaction transaction) := by
  refine costsRefresh (.selectTransactionById transaction.id) ?_
  intro rows
  split
  · exact takesPure _
  · exact takesThrow _

theorem costsRefreshWallet (ref : WalletRef) : Costs 1 (refreshWallet ref) := by
  refine costsRefresh (.selectWalletById ref.key) ?_
  intro rows
  split
  · exact takesChange (fun _ clean => clean)
  · exact takesThrow _

/-! The caches. -/

theorem costsSwallowed {n : Nat} {t : Py α} (a : α) (cost : Costs n t) : Costs n (tryCatch t (fun _ => pure a)) :=
  takesCatch (b := 0) cost (fun _ => takesPure a)

theorem costsGetBalance (id : UUID) : Costs 1 (CacheManager.getBalance id) := by
  refine costsSwallowed none (takesThen (b := 0) (costsAwait _) ?_)
  intro cached
  split
  · split
    · exact takesPure _
    · exact takesThrow _
  · exact takesPure _

theorem costsSetBalance (id : UUID) (balance : Decimal) : Costs 1 (CacheManager.setBalance id balance) :=
  costsSwallowed () (costsAwait (.redisSetex _ _ _))

theorem costsCheckKey (key : String) (redisClient : Bool) : Costs 1 (IdempotencyService.checkKey key redisClient) := by
  unfold IdempotencyService.checkKey
  split
  · exact takesMore (takesPure none) (Nat.zero_le 1)
  · split
    · refine costsSwallowed none (takesThen (b := 0) (costsAwait _) ?_)
      intro cached
      split
      · split
        · exact takesPure _
        · split
          · exact takesPure _
          · exact takesThrow _
      · exact takesPure _
    · exact takesMore (takesPure none) (Nat.zero_le 1)

theorem costsStoreKey [Pydantic] (key : String) (document : JsonText.Json) (statusCode : Int) (redisClient : Bool) :
    Costs 1 (IdempotencyService.storeKey key document statusCode redisClient) := by
  unfold IdempotencyService.storeKey
  split
  · exact costsSwallowed () (costsAwait (.redisSetex _ _ _))
  · exact takesMore (takesPure ()) (Nat.zero_le 1)

/-! The services. -/

theorem costsRegister (data : UserCreate) : Costs 6 (UserService.register data) := by
  refine takesThen (b := 5) (takesThen (costsExecute _) (fun _ => costsOne _)) ?_
  intro existing
  split
  · exact takesMore (takesThrow _) (Nat.zero_le 5)
  · refine takesThen (b := 4) (costsAwait _) (fun passwordHash => ?_)
    refine takesThen (b := 3) (costsExecute _) (fun user => ?_)
    refine takesThen (b := 2) (costsExecute _) (fun _ => ?_)
    exact takesThen (b := 1) costsCommit (fun _ => takesThen (costsRefreshUser user) (fun _ => takesPure _))

theorem takesModelValidate {fit : Session → Prop} (wallet : WalletRef) :
    Takes fit 0 (WalletResponse.modelValidate wallet) :=
  takesThen (takesAttributes wallet) (fun _ => takesPure _)

theorem costsInvalidate (wallet : WalletRef) (redisClient : Bool) :
    Costs 2 (WalletService.invalidateAfterCommit wallet redisClient) := by
  unfold WalletService.invalidateAfterCommit
  split
  · refine takesThen (b := 2) (costsId wallet) (fun id => ?_)
    refine takesThen (b := 1) (costsSwallowed () (costsAwait (.redisDelete _))) (fun _ => ?_)
    exact takesThen (costsId wallet) (fun _ => costsSwallowed () (costsAwait (.redisDelete _)))
  · exact takesMore (takesPure ()) (Nat.zero_le 2)

theorem costsTopUpOnce (userId : UUID) (amount : Decimal) (redisClient : Bool) :
    Costs 6 (WalletService.topUpOnce userId amount redisClient) := by
  refine takesThen (b := 5) (costsGetByUserId userId) ?_
  intro found
  split
  · exact takesMore (takesThrow _) (Nat.zero_le 5)
  · rename_i wallet
    refine takesThen (b := 5) (costsBalance wallet) (fun balance => ?_)
    refine takesThen (b := 5) (costsArithmetic _) (fun newBalance => ?_)
    refine takesThen (b := 5) (costsId wallet) (fun walletId => ?_)
    refine takesThen (b := 5) (costsVersion wallet) (fun version => ?_)
    refine takesThen (b := 4) (costsUpdateBalance _ _ _) (fun updated => ?_)
    split
    · refine takesThen (b := 3) costsCommit (fun _ => ?_)
      refine takesThen (b := 1) (costsInvalidate wallet redisClient) (fun _ => ?_)
      exact takesThen (b := 0) (costsRefreshWallet wallet) (fun _ =>
        takesThen (takesModelValidate wallet) (fun _ => takesPure _))
    · exact takesMore (takesThen costsRollback (fun _ => takesPure _)) (by omega : 1 + 0 ≤ 4)

theorem costsTopUpAttempts (userId : UUID) (amount : Decimal) (redisClient : Bool) (left : Nat) :
    Costs (6 * left) (WalletService.topUpAttempts userId amount redisClient left) := by
  induction left with
  | zero => exact takesThrow _
  | succ left ih =>
    refine takesMore (takesThen (costsTopUpOnce userId amount redisClient) ?_) (by omega : 6 + 6 * left ≤ _)
    intro done
    split
    · exact takesMore (takesPure _) (Nat.zero_le _)
    · exact ih

theorem lastsGetWallet (userId : UUID) (redisClient : Bool) :
    Lasts Clean 3 (WalletService.getWallet userId redisClient) := by
  refine lastsThen (b := 2) (costsGetByUserId userId) ?_
  intro found
  split
  · exact takesLasts (takesThrow _) (Nat.zero_le 2)
  · rename_i wallet
    split
    · refine lastsThen (b := 2) (costsId wallet) (fun walletId => ?_)
      refine lastsThen (b := 1) (costsGetBalance walletId) ?_
      intro cached
      split
      · exact lastsChange (takesLasts (takesModelValidate wallet) (Nat.zero_le 1))
      · refine lastsThen (b := 1) (costsBalance wallet) (fun balance => ?_)
        exact takesLasts (takesThen (costsSetBalance walletId balance) (fun _ => takesModelValidate wallet)) (Nat.le_refl 1)
    · exact takesLasts (takesModelValidate wallet) (Nat.zero_le 2)

theorem costsGetBalanceFast (userId : UUID) (redisClient : Bool) :
    Costs 3 (WalletService.getBalanceFast userId redisClient) := by
  refine takesThen (b := 2) (costsGetByUserId userId) ?_
  intro found
  split
  · exact takesMore (takesThrow _) (Nat.zero_le 2)
  · rename_i wallet
    split
    · refine takesThen (b := 2) (costsId wallet) (fun walletId => ?_)
      refine takesThen (b := 1) (costsGetBalance walletId) ?_
      intro cached
      split
      · exact takesMore (takesPure _) (Nat.zero_le 1)
      · refine takesThen (b := 1) (costsBalance wallet) (fun balance => ?_)
        exact takesThen (costsSetBalance walletId balance) (fun _ => takesPure _)
    · exact takesMore (costsBalance wallet) (Nat.zero_le 2)

theorem costsHistory (userId : UUID) (page pageSize : Nat) (status : Option String) :
    Costs 3 (PaymentApi.getTransactionHistory userId page pageSize status) := by
  refine takesThen (b := 2) (costsGetByUserId userId) ?_
  intro found
  split
  · exact takesMore (takesPure _) (Nat.zero_le 2)
  · rename_i wallet
    refine takesThen (b := 2) (costsId wallet) (fun walletId => ?_)
    exact takesThen (costsGetByWalletId walletId page pageSize) (fun _ => takesPure _)

theorem costsGetTransaction (userId transactionId : UUID) : Costs 2 (PaymentApi.getTransaction userId transactionId) := by
  refine takesThen (b := 1) (costsGetByUserId userId) ?_
  intro found
  split
  · exact takesMore (takesThrow _) (Nat.zero_le 1)
  · rename_i wallet
    refine takesThen (b := 0) (costsGetById transactionId) ?_
    intro existing
    split
    · exact takesThrow _
    · refine takesThen (b := 0) (costsId wallet) (fun walletId => ?_)
      split
      · exact takesThrow _
      · exact takesPure _

theorem costsAdjustBalance (wallet : WalletRef) (change : Decimal → Option Decimal) :
    Costs 1 (PaymentService.adjustBalance wallet change) := by
  refine takesThen (b := 1) (costsId wallet) (fun id => ?_)
  refine takesThen (b := 1) (costsBalance wallet) (fun balance => ?_)
  refine takesThen (b := 1) (costsArithmetic _) (fun newBalance => ?_)
  refine takesThen (b := 1) (costsVersion wallet) (fun version => ?_)
  refine takesThen (b := 0) (costsUpdateBalance id newBalance version) (fun ok => ?_)
  split
  · exact takesThrow _
  · exact takesPure _

theorem costsRecordTransfer (sender receiver : WalletRef) (amount : Decimal) (currency key : String)
    (description : Option String) :
    Costs 3 (PaymentService.recordTransfer sender receiver amount currency key description) := by
  refine takesThen (b := 3) (costsId sender) (fun senderId => ?_)
  refine takesThen (b := 3) (costsId receiver) (fun receiverId => ?_)
  refine takesThen (b := 2) (costsExecute _) (fun transaction => ?_)
  refine takesThen (b := 1) costsCommit (fun _ => ?_)
  exact takesThen (costsRefreshTransaction transaction) (fun _ => takesPure _)

theorem costsMoveLocked (sender receiver : WalletRef) (amount : Decimal) (currency key : String)
    (description : Option String) :
    Costs 5 (PaymentService.moveLocked sender receiver amount currency key description) := by
  refine takesThen (b := 5) (costsBalance sender) (fun balance => ?_)
  split
  · exact takesMore (takesThrow _) (Nat.zero_le 5)
  · refine takesThen (b := 4) (costsAdjustBalance sender _) (fun _ => ?_)
    exact takesThen (costsAdjustBalance receiver _) (fun _ => costsRecordTransfer _ _ _ _ _ _)

theorem costsExecuteTransfer (senderId receiverId : UUID) (amount : Decimal) (currency key : String)
    (description : Option String) :
    Costs 7 (PaymentService.executeTransfer senderId receiverId amount currency key description) := by
  refine takesThen (b := 6) (costsGetByIdForUpdate _) (fun first => ?_)
  refine takesThen (b := 5) (costsGetByIdForUpdate _) (fun second => ?_)
  split
  · refine takesThen (b := 5) (costsId _) (fun firstId => ?_)
    split
    · exact costsMoveLocked _ _ _ _ _ _
    · exact costsMoveLocked _ _ _ _ _ _
  · exact takesMore (takesThrow _) (Nat.zero_le 5)

theorem costsOnIntegrityError (request : PaymentRequest) : Costs 2 (PaymentService.onIntegrityError request) := by
  refine takesThen (b := 1) costsRollback (fun _ => ?_)
  refine takesThen (b := 0) (costsGetByKey request.idempotencyKey) ?_
  intro existing
  split
  · exact takesPure _
  · exact takesThrow _

section Payment
variable [Pydantic]

theorem costsAfterCommit (sender receiver : WalletRef) (request : PaymentRequest) (result : TransactionResponse)
    (redisClient : Bool) : Costs 2 (PaymentService.afterCommit sender receiver request result redisClient) := by
  unfold PaymentService.afterCommit
  split
  · refine takesThen (b := 1) (costsStoreKey _ _ _ _) (fun _ => ?_)
    refine takesThen (b := 1) (costsId sender) (fun senderId => ?_)
    refine takesThen (b := 1) (costsId receiver) (fun receiverId => ?_)
    exact costsAwait _
  · exact takesMore (takesPure ()) (Nat.zero_le 2)

theorem costsAttemptTransfer (sender receiver : WalletRef) (request : PaymentRequest) (redisClient : Bool) :
    Costs 9 (PaymentService.attemptTransfer sender receiver request redisClient) := by
  refine takesThen (b := 9) (costsId sender) (fun senderId => ?_)
  refine takesThen (b := 9) (costsId receiver) (fun receiverId => ?_)
  refine takesThen (b := 2) (costsExecuteTransfer _ _ _ _ _ _) (fun result => ?_)
  exact takesThen (costsAfterCommit sender receiver request result redisClient) (fun _ => takesPure _)

theorem costsTransferAttempts (sender receiver : WalletRef) (request : PaymentRequest) (redisClient : Bool)
    (left : Nat) : Costs (10 * left + 1) (PaymentService.transferAttempts sender receiver request redisClient left) := by
  induction left with
  | zero => exact takesMore (takesThrow _) (Nat.zero_le 1)
  | succ left ih =>
    refine takesMore (takesCatch (b := 10 * left + 2) (costsAttemptTransfer sender receiver request redisClient) ?_)
      (by omega)
    intro e
    split
    · exact takesMore (costsOnIntegrityError request) (by omega)
    · refine takesMore (takesThen (b := 10 * left + 1) costsRollback (fun _ => ?_)) (by omega)
      split
      · exact takesMore (takesThrow _) (Nat.zero_le _)
      · exact ih
    · exact takesMore (takesThen (b := 0) costsRollback (fun _ => takesThrow _)) (by omega)

theorem costsValidateAndTransfer (userId : UUID) (request : PaymentRequest) (redisClient : Bool) :
    Costs 33 (PaymentService.validateAndTransfer userId request redisClient) := by
  refine takesThen (b := 32) (costsGetByUserId userId) ?_
  intro foundSender
  split
  · exact takesMore (takesThrow _) (Nat.zero_le 32)
  · rename_i sender
    refine takesThen (b := 31) (costsGetByUserId request.receiverId) ?_
    intro foundReceiver
    split
    · exact takesMore (takesThrow _) (Nat.zero_le 31)
    · rename_i receiver
      refine takesThen (b := 31) (costsId sender) (fun senderId => ?_)
      refine takesThen (b := 31) (costsId receiver) (fun receiverId => ?_)
      split
      · exact takesMore (takesThrow _) (Nat.zero_le 31)
      · exact costsTransferAttempts sender receiver request redisClient PaymentService.maxRetryAttempts

theorem takesReplay {fit : Session → Prop} (cached : JsonText.Json) : Takes fit 0 (PaymentService.replay cached) := by
  unfold PaymentService.replay
  split
  · exact takesThrow _
  · split
    · exact takesPure _
    · exact takesThrow _

theorem costsSendMoney (userId : UUID) (request : PaymentRequest) (redisClient : Bool) :
    Costs 35 (PaymentService.sendMoney userId request redisClient) := by
  refine takesThen (b := 34) (costsCheckKey request.idempotencyKey redisClient) ?_
  intro cached
  split
  · exact takesMore (takesReplay _) (Nat.zero_le 34)
  · refine takesThen (b := 33) (costsGetByKey request.idempotencyKey) ?_
    intro existing
    split
    · exact takesMore (takesPure _) (Nat.zero_le 33)
    · exact costsValidateAndTransfer userId request redisClient

end Payment
end

section
variable [Pydantic] {c c' : State}

theorem lastsService (call : Call) : ∃ n, n + 1 = call.budget ∧ Lasts Clean n call.service := by
  cases call with
  | register data => exact ⟨6,rfl,takesLasts (takesThen (costsRegister data) (fun _ => takesPure _)) (Nat.le_refl 6)⟩
  | topUp userId amount redisClient =>
    exact ⟨18,rfl,takesLasts (takesThen (costsTopUpAttempts userId amount.value redisClient 3) (fun _ => takesPure _))
      (Nat.le_refl 18)⟩
  | sendMoney userId request redisClient =>
    exact ⟨35,rfl,takesLasts (takesThen (costsSendMoney userId request redisClient) (fun _ => takesPure _))
      (Nat.le_refl 35)⟩
  | getWallet userId redisClient => exact ⟨3,rfl,lastsReturn (lastsGetWallet userId redisClient)⟩
  | getBalanceFast userId redisClient =>
    exact ⟨3,rfl,takesLasts (takesThen (costsGetBalanceFast userId redisClient) (fun _ => takesPure _)) (Nat.le_refl 3)⟩
  | getTransactionHistory userId page pageSize status =>
    exact ⟨3,rfl,takesLasts (takesThen (costsHistory userId page pageSize status) (fun _ => takesPure _))
      (Nat.le_refl 3)⟩
  | getTransaction userId transactionId =>
    exact ⟨2,rfl,takesLasts (takesThen (costsGetTransaction userId transactionId) (fun _ => takesPure _))
      (Nat.le_refl 2)⟩

theorem programRationed (call : Call) :
    Traces (fun _ => True) (Rationed call.budget) (fun _ _ => True) call.program [] := by
  obtain ⟨n,same,lasts⟩ := lastsService call
  refine Interleaving.safeBind (lasts call.budget Session.new [] rfl ?_) trivial ?_
  · rw [List.length_nil]
    omega
  · rintro out trace _ short
    refine Interleaving.tracesCall ?_ (fun _ _ => trivial)
    simp only [List.length_nil] at short
    simp only [Rationed]
    omega

theorem talksWithin (reachable : Reachable c) {pid : Nat} {call : Call} (called : c.shared.calls[pid]? = some call) :
    (c.shared.talks pid).length ≤ call.budget := by
  obtain ⟨q,leads,_⟩ := reachLeads reachable called
  exact Interleaving.leadsWithin leads (programRationed call) (fun _ _ => trivial)

def State.remaining (c : State) (pid : Nat) : Nat :=
  match c.awaits pid, c.shared.calls[pid]? with
  | some _, some call => call.budget - (c.shared.talks pid).length
  | _, _ => 0

def State.left (c : State) : Nat := ∑ pid ∈ Finset.range c.shared.calls.length, c.remaining pid

theorem leftFalls (reachable : Reachable c) {pid : Nat} {choice : Choice}
    (step : machine.next c (.step pid choice) = some c') : c'.left < c.left := by
  have reachable' : Reachable c' := .next reachable trivial step
  obtain ⟨op,next,r,s',here,attempted,rfl⟩ := nextStep step
  have started : pid < c.shared.calls.length := (reachableDue reachable here).2.2
  have called : c.shared.calls[pid]? = some c.shared.calls[pid] := List.getElem?_eq_getElem started
  have log : (c.shared.called pid op choice.fault r s').log =
    c.shared.log ++ [.called pid op choice.fault r c.shared.wal.length] := rfl
  have own : (c.shared.called pid op choice.fault r s').talks pid = c.shared.talks pid ++ [⟨op,r⟩] := by
    have talk : (Record.called pid op choice.fault r c.shared.wal.length).talk pid = some ⟨op,r⟩ := if_pos rfl
    rw [talksAppend log,talk]
    rfl
  have within := talksWithin reachable' called
  simp only [own,List.length_append,List.length_singleton] at within
  have falls : State.remaining ⟨c.shared.called pid op choice.fault r s',c.running.set pid (next r)⟩ pid <
      c.remaining pid := by
    have before : c.remaining pid = c.shared.calls[pid].budget - (c.shared.talks pid).length := by
      simp only [State.remaining,callAwaits here,called]
    rw [before]
    simp only [State.remaining]
    split
    · rename_i call _ called'
      cases Option.some.inj (called.symm.trans called')
      simp only [own,List.length_append,List.length_singleton]
      omega
    · omega
  have others : ∀ other, other ≠ pid →
      State.remaining ⟨c.shared.called pid op choice.fault r s',c.running.set pid (next r)⟩ other =
        c.remaining other := by
    intro other apart
    have talk : (Record.called pid op choice.fault r c.shared.wal.length).talk other = none :=
      if_neg (Ne.symm apart)
    have same : (c.shared.called pid op choice.fault r s').talks other = c.shared.talks other := by
      rw [talksAppend log,talk,Option.toList_none,List.append_nil]
    simp only [State.remaining,State.awaits,List.getElem?_set_ne (Ne.symm apart),same]
    rfl
  apply Finset.sum_lt_sum
  · intro other _
    by_cases apart : other = pid
    · rw [apart]
      exact falls.le
    · exact (others other apart).le
  · exact ⟨pid,Finset.mem_range.mpr started,falls⟩

theorem spending : Spending machine Reachable State.left where
  kept := fun _ _ _ _ reachable step => .next reachable trivial step
  spends := fun _ _ _ _ reachable step => leftFalls reachable step

theorem freeGoes {pid : Nat} (running : pid ∈ c.unfinished) (free : ∀ other, ¬ c.Waits pid other) (choice : Choice) :
    ∃ c', machine.next c (.step pid choice) = some c' := by
  obtain ⟨op,next,here⟩ := running
  cases attempted : attempt pid c.shared.stores op choice with
  | some out =>
    exact ⟨_,by simp only [Machine.next,here,machine,World.exec,attempted,Option.map_some]; rfl⟩
  | none =>
    obtain ⟨r,wanted,held⟩ := attemptBlocks attempted
    obtain ⟨holder,same,apart⟩ := Database.heldHolder held
    refine absurd ⟨r,?_,same,Ne.symm apart⟩ (free holder)
    simp only [State.lockTable,State.waitsFor,here]
    exact Option.filter_eq_some_iff.mpr ⟨wanted,held⟩

theorem someGoes (reachable : Reachable c) (unfinished : ¬ c.over) :
    ∃ pid, ∀ choice, ∃ c', machine.next c (.step pid choice) = some c' := by
  have nonempty : c.unfinished.Nonempty := by
    by_contra none
    refine unfinished (fun pid op next here => none ⟨pid,op,next,here⟩)
  have finite : c.unfinished.Finite := by
    refine (Set.finite_lt_nat c.running.length).subset ?_
    rintro pid ⟨op,next,here⟩
    exact (List.getElem?_eq_some_iff.mp here).1
  have inside : ∀ i ∈ c.unfinished, ∀ j, c.Waits i j → j ∈ c.unfinished := by
    rintro i _ j ⟨r,_,held,_⟩
    exact holderRuns reachable held
  obtain ⟨pid,running,free⟩ := LockOrder.someFree (reachableAscending reachable) finite nonempty inside
  exact ⟨pid,freeGoes running free⟩

theorem tirelessPick : ∃ pick : State → Nat × Choice, Tireless machine Reachable pick ∧ ∀ c, (pick c).2 = calm 0 := by
  classical
  have chosen : ∀ c : State, ∃ pid, Reachable c → ¬ c.over → ∃ c', machine.next c (.step pid (calm 0)) = some c' := by
    intro c
    by_cases due : Reachable c ∧ ¬ c.over
    · obtain ⟨pid,goes⟩ := someGoes due.1 due.2
      exact ⟨pid,fun _ _ => goes (calm 0)⟩
    · exact ⟨0,fun reachable unfinished => absurd ⟨reachable,unfinished⟩ due⟩
  choose pick goes using chosen
  exact ⟨fun c => (pick c,calm 0),goes,fun _ => rfl⟩

end

theorem requestsEnd [Pydantic] {c : State} (reachable : Reachable c) :
    (∀ pid call, c.shared.calls[pid]? = some call → (c.shared.talks pid).length ≤ call.budget) ∧
      (∀ pick : State → Nat × Choice, Tireless machine Reachable pick → (machine.drive pick c.left c).over) ∧
      ∃ pick : State → Nat × Choice, Tireless machine Reachable pick ∧ ∀ c, (pick c).2 = calm 0 :=
  ⟨fun _ _ called => talksWithin reachable called,
    fun _ tireless => Interleaving.drivesOut spending tireless reachable (Nat.le_refl _),tirelessPick⟩

open JsonMode in
theorem requestsEndCrossing : (stateAfter crossing).waitsFor 4 = some (.wallet 103) ∧
    ∃ pick : State → Nat × Choice, (machine.drive pick (stateAfter crossing).left (stateAfter crossing)).over := by
  obtain ⟨_,ends,pick,tireless,_⟩ := requestsEnd (stateReachable crossing (by decide +kernel))
  exact ⟨by decide +kernel,pick,ends pick tireless⟩

end PaymentSystem
