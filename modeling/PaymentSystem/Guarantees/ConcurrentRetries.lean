import PaymentSystem.Guarantees.LockedReads
import PaymentSystem.Guarantees.Collisions

/-! The same payment, requested many times at once. One request commits it; the others
return it too unless its commit catches one of them between its lookup of the key and
its locks, with rows that are no longer committed or with too little money left. -/
namespace PaymentSystem
open Numerics (Decimal)
open Interleaving (Program Reach)

/-- Only requests for this payment arrive and run. No call of them fails, none is stopped,
and generated ids are new; entries may expire. -/
def Retried (first : Nat) (userId : UUID) (request : PaymentRequest) (c : State) : Happening → Prop
  | .start call => ∃ redisClient, call = .sendMoney userId request redisClient
  | .step pid choice => first ≤ pid ∧ choice.fault = .none ∧ FreshIds c (.step pid choice)
  | .stop _ => False
  | .drift _ => True

def Repayable (userId : UUID) (request : PaymentRequest) (t : Tables) : Prop :=
  ∀ row ∈ t.wallets, (row.userId = userId → request.amount.cents ≤ row.balance.units) ∧
    (row.userId = request.receiverId → row.balance.units + request.amount.cents < 10 ^ 18) ∧
    (row.userId = userId ∨ row.userId = request.receiverId →
      (Database.integerFits row.version && Database.integerFits (row.version + 1)) = true)

/-- When one commits, no other that has looked the key up in vain has read a wallet yet,
and if there is such a one the wallets allow the payment once more. -/
def Agreeing (first : Nat) (userId : UUID) (request : PaymentRequest) (c : State) : Happening → Prop
  | .step pid _ => c.awaits pid = some .commit → ∀ other, first ≤ other → other ≠ pid →
      (∃ rec ∈ c.shared.log, rec.pid = other ∧ rec.misses request.idempotencyKey) →
      (∀ rec ∈ c.shared.log, rec.pid = other → ∀ row, ¬ rec.shows row) ∧
        Repayable userId request (c.shared.tables.applyAll (c.shared.db.pending pid))
  | _ => True

structure MadeOver (userId : UUID) (request : PaymentRequest) (t t' : Tables) (x : Transaction) : Prop where
  sender : ∃ row ∈ t.wallets, row.userId = userId
  receiver : ∃ row ∈ t.wallets, row.userId = request.receiverId
  different : request.receiverId ≠ userId
  unused : ∀ y ∈ t.transactions, y.idempotencyKey ≠ request.idempotencyKey
  here : x ∈ t'.transactions
  key : x.idempotencyKey = request.idempotencyKey
  fits : (Database.textFits request.idempotencyKey && request.description.all Database.textFits) = true

theorem Entry.madeOver {calls : List Call} {t : Tables} {pid : Nat} {writes : List Write} {userId : UUID}
    {request : PaymentRequest} {redisClient : Bool} (entry : Entry calls t pid writes) (keyed : t.Keyed)
    (call : calls[pid]? = some (.sendMoney userId request redisClient)) :
    ∃ x, .insertTransaction x ∈ writes ∧ MadeOver userId request t (t.applyAll writes) x := by
  cases entry with
  | register call' => cases Option.some.inj (call.symm.trans call')
  | topUp call' => cases Option.some.inj (call.symm.trans call')
  | @send _ _ _ sender receiver debited credited x call' senderHere senderOwner receiverHere receiverOwner different
      covered debit credit records freshId freshKey fits =>
    cases Option.some.inj (call.symm.trans call')
    refine ⟨x,by simp,⟨sender,senderHere,senderOwner⟩,⟨receiver,receiverHere,receiverOwner⟩,?_,?_,
      List.mem_append_right _ (List.mem_singleton_self _),records.key,?_⟩
    · intro same
      exact different (congrArg Wallet.id (Tables.uniqueBy keyed.owners senderHere receiverHere
        (senderOwner.trans (same.symm.trans receiverOwner.symm))))
    · intro y hy same
      rw [Tables.takenKey.mpr ⟨y,hy,same.trans records.key.symm⟩] at freshKey
      contradiction
    · rw [← records.key,← records.description]
      exact fits

section
variable [Pydantic] {c₀ c : State} {userId : UUID} {request : PaymentRequest}
  (reachable : Reachable c₀) (run : Reach machine (Retried c₀.running.length userId request) c₀ c)
include reachable run

theorem retriedCalls {pid : Nat} {call : Call} (inside : c₀.running.length ≤ pid)
    (called : c.shared.calls[pid]? = some call) : ∃ redisClient, call = .sendMoney userId request redisClient := by
  induction run with
  | refl =>
    rw [(heldReachable reachable).counted] at inside
    rw [List.getElem?_eq_none inside] at called
    contradiction
  | @next c c' e before ok step ih =>
    cases e with
    | start job =>
      cases Option.some.inj step
      change (c.shared.calls ++ [job])[pid]? = some call at called
      rw [List.getElem?_append] at called
      split at called
      · exact ih called
      · rw [List.getElem?_singleton] at called
        split at called
        · cases called
          exact ok
        · contradiction
    | step other choice =>
      obtain ⟨op,next,r,s',_,_,rfl⟩ := nextStep step
      exact ih called
    | stop other => exact absurd ok id
    | drift key =>
      cases Option.some.inj step
      exact ih called

theorem retriedRecords {rec : Record} (here : rec ∈ c.shared.log) (inside : c₀.running.length ≤ rec.pid) :
    rec.failed = false ∧ ¬ rec.collides ∧ c₀.shared.wal.length ≤ rec.commits := by
  have held := heldReachable reachable
  have foreign : rec ∉ c₀.shared.log := fun old =>
    (held.inv.unstarted rec.pid (held.counted ▸ inside)).2.2 rec old rfl
  have known : rec.failed = false ∧ ¬ rec.collides := by
    refine (reachLog (P := fun rec => rec.failed = false ∧ ¬ rec.collides) run ?_ rec here).resolve_left foreign
    intro c e rec _ ok logged
    cases logged with
    | @step pid choice op next r s' running attempted =>
      refine ⟨?_,Logged.uncollided (.step running attempted) ok.2.2⟩
      simp [Record.failed,ok.2.1]
    | stop => exact absurd ok id
  obtain ⟨more,log,late⟩ := (reachGrows run).log
  rw [log] at here
  exact ⟨known.1,known.2,late rec ((List.mem_append.mp here).resolve_left foreign)⟩

theorem retriedCommit {i : Nat} {commit : Commit} (late : c₀.shared.wal.length ≤ i)
    (found : c.shared.wal[i]? = some commit) : c₀.running.length ≤ commit.pid ∧ ∃ x,
      .insertTransaction x ∈ commit.writes ∧
      MadeOver userId request (tablesAt c.shared.wal i) (tablesAt c.shared.wal (i + 1)) x := by
  have legal := (reachableIntact (reachableLater reachable run)).legal
  obtain ⟨c₁,c₂,choice,made⟩ := reachCommit run late found
  obtain ⟨call,called⟩ := (legal.entryAt found).called
  obtain ⟨redisClient,rfl⟩ := retriedCalls reachable run made.met.1 called
  rw [tablesAtSucc found]
  exact ⟨made.met.1,(legal.entryAt found).madeOver (legal.upTo i).keyed called⟩

theorem retriedOnce {i : Nat} {commit : Commit} (late : c₀.shared.wal.length ≤ i)
    (found : c.shared.wal[i]? = some commit) : i = c₀.shared.wal.length ∧ c.shared.wal.length = i + 1 := by
  have legal := (reachableIntact (reachableLater reachable run)).legal
  have apart : ∀ j k, c₀.shared.wal.length ≤ j → j < k → k < c.shared.wal.length → False := by
    intro j k first order inside
    obtain ⟨_,x,_,early⟩ := retriedCommit reachable run first
      (List.getElem?_eq_getElem (order.trans inside))
    obtain ⟨_,_,_,again⟩ := retriedCommit reachable run (first.trans order.le) (List.getElem?_eq_getElem inside)
    exact again.unused x ((legal.evolvesBetween order).transactions.subset early.here) early.key
  have inside := (List.getElem?_eq_some_iff.mp found).1
  constructor
  · by_contra other
    exact apart _ i (Nat.le_refl _) (by omega) inside
  · by_contra other
    exact apart i (i + 1) late (Nat.lt_succ_self i) (by omega)

end

def Agreed (first : Nat) (userId : UUID) (request : PaymentRequest) (c : State) (e : Happening) : Prop :=
  Retried first userId request c e ∧ Agreeing first userId request c e

section
variable [Pydantic] {c₀ c : State} {userId : UUID} {request : PaymentRequest} {i pid : Nat} {commit : Commit}
  (reachable : Reachable c₀) (run : Reach machine (Agreed c₀.running.length userId request) c₀ c)
  (late : c₀.shared.wal.length ≤ i) (found : c.shared.wal[i]? = some commit)
include reachable run late found

theorem agreedLate (inside : c₀.running.length ≤ pid) (other : pid ≠ commit.pid)
    (missed : Missed pid request.idempotencyKey c.shared) :
    Repayable userId request (tablesAt c.shared.wal (i + 1)) ∧
      ∀ row n, ReadAt pid c.shared row n → n = i + 1 := by
  have retried := run.weaken (fun _ _ ok => ok.1)
  obtain ⟨_,x,_,paid⟩ := retriedCommit reachable retried late found
  obtain ⟨_,count⟩ := retriedOnce reachable retried late found
  obtain ⟨c₁,c₂,choice,made⟩ := reachCommit run late found
  have early : ∀ rec ∈ c.shared.log, rec.pid = pid → rec.commits ≤ i → rec ∈ c₁.shared.log := by
    intro rec here own before
    obtain ⟨more,log,after⟩ := (reachGrows made.after).log
    rw [log] at here
    rcases List.mem_append.mp here with here | here
    · rcases nextRecord made.step here with old | logged
      · exact old
      · cases logged
        exact absurd own.symm other
    · have := after rec here
      rw [made.wal,List.length_append,List.length_singleton,made.count] at this
      omega
  obtain ⟨rec,here,own,misses,within,none⟩ := missed
  have before : rec.commits ≤ i := by
    by_contra above
    have last : rec.commits = i + 1 := by omega
    rw [last] at none
    have seen : x ∈ (tablesAt c.shared.wal (i + 1)).transactionsByKey request.idempotencyKey :=
      List.mem_filter.mpr ⟨paid.here,by simp [paid.key]⟩
    rw [none] at seen
    contradiction
  obtain ⟨unread,again⟩ := made.met.2 made.awaits pid inside other ⟨rec,early rec here own before,own,misses⟩
  have rows : tablesAt c.shared.wal i = c₁.shared.tables := by
    have grows := (nextGrows made.step).trans (reachGrows made.after)
    rw [← made.count,grows.tablesAt (Nat.le_refl _),(reachableIntact (reachableLater reachable made.before)).now]
  constructor
  · rw [tablesAtSucc found,rows,made.writes]
    exact again
  · intro row n read
    obtain ⟨seen,there,mine,showing,rfl⟩ := read.record
    by_contra apart
    have := read.within
    exact unread seen (early seen there mine (by omega)) mine row showing

theorem agreedReturns (inside : c₀.running.length ≤ pid) {e : Exn} :
    c.outcome pid ≠ some (.error e) := by
  intro done
  have retried := run.weaken (fun _ _ ok => ok.1)
  have reachable' := reachableLater reachable run
  obtain ⟨_,x,_,paid⟩ := retriedCommit reachable retried late found
  obtain ⟨start,count⟩ := retriedOnce reachable retried late found
  obtain ⟨call,concluded⟩ := (reachableReport reachable' done).concluded
  obtain ⟨redisClient,rfl⟩ := retriedCalls reachable retried inside concluded.called
  have unfailed : ¬ Failed pid c.shared := by
    rintro ⟨rec,here,own,failed⟩
    rw [(retriedRecords reachable retried here (own ▸ inside)).1] at failed
    contradiction
  have other : pid ≠ commit.pid := by
    rintro rfl
    obtain ⟨rec,here,own,spoils⟩ := concluded.spoiled e rfl ⟨commit,List.mem_of_getElem? found,rfl⟩
    exact unfailed ⟨rec,here,own,spoilsFailed spoils⟩
  have refused : Refused pid userId request c.shared e := concluded.answered
  cases refused with
  | failed _ failure => exact unfailed failure
  | text unfit =>
    rw [paid.fits] at unfit
    contradiction
  | later missed blame =>
    obtain ⟨again,reads⟩ := agreedLate reachable run late found inside other missed
    cases blame with
    | failed _ failure => exact unfailed failure
    | text unfit =>
      rw [paid.fits] at unfit
      contradiction
    | @missing x n party none =>
      obtain ⟨rec,here,own,rfl⟩ := none.record
      have after := (retriedRecords reachable retried here (own ▸ inside)).2.2
      have owned : ∃ row ∈ (tablesAt c.shared.wal i).wallets, row.userId = x := by
        rcases party with rfl | rfl
        · exact paid.sender
        · exact paid.receiver
      obtain ⟨row,there,owner⟩ := owned
      obtain ⟨last,present,becomes⟩ := ((reachableIntact reachable').legal.evolvesBetween (start ▸ after)).wallets
        row there
      have seen : last ∈ (tablesAt c.shared.wal rec.commits).walletsByUserId x :=
        List.mem_filter.mpr ⟨present,by simp [becomes.userId.symm.trans owner]⟩
      rw [none.none] at seen
      contradiction
    | self same => exact paid.different same
    | @insufficient row _ n _ read owner short =>
      have covered := (again row (reads row n read ▸ read.row)).1 owner
      omega
    | @conflict _ row n m _ read _ after within gone =>
      have last : m = n := by
        have := reads row n read
        omega
      exact gone (last ▸ read.row)
    | @overflow row n read party large =>
      obtain ⟨_,credit,versions⟩ := again row (reads row n read ▸ read.row)
      rcases large with unfit | ⟨owner,large⟩
      · rw [versions party] at unfit
        contradiction
      · have := credit owner
        omega
    | @collision _ rec _ here own collides =>
      exact (retriedRecords reachable retried here (own ▸ inside)).2.1 collides

end

theorem retriesAgree [Pydantic] {c₀ c : State} {userId : UUID} {request : PaymentRequest} {winner : Nat}
    (reachable : Reachable c₀) (run : Reach machine (Agreed c₀.running.length userId request) c₀ c)
    (inside : c₀.running.length ≤ winner) (committed : CommittedBy winner c.shared) :
    ∃ x ∈ c.shared.tables.transactions, x.idempotencyKey = request.idempotencyKey ∧
      (∃ commit ∈ c.shared.wal, commit.pid = winner ∧ .insertTransaction x ∈ commit.writes) ∧
      ∀ (pid : Nat) (outcome : Outcome), c₀.running.length ≤ pid → c.outcome pid = some outcome →
        outcome = .ok (.payment (TransactionResponse.modelValidate x)) := by
  obtain ⟨commit,here,rfl⟩ := committed
  have held := heldReachable reachable
  have reachable' := reachableLater reachable run
  have intact := reachableIntact reachable'
  have retried := run.weaken (fun _ _ ok => ok.1)
  obtain ⟨i,found⟩ := List.getElem?_of_mem here
  have late : c₀.shared.wal.length ≤ i := by
    by_contra early
    have old := prefixOld (reachGrows run).wal (not_le.mp early) found
    have started := held.inv.legal.started commit (List.mem_of_getElem? old)
    rw [held.counted] at inside
    omega
  obtain ⟨_,x,inserted,paid⟩ := retriedCommit reachable retried late found
  have present : x ∈ c.shared.tables.transactions := by
    rw [← intact.now,(retriedOnce reachable retried late found).2]
    exact paid.here
  refine ⟨x,present,paid.key,⟨commit,here,rfl,inserted⟩,?_⟩
  intro pid outcome mine done
  cases outcome with
  | error e => exact absurd done (agreedReturns reachable run late found mine)
  | ok response =>
    obtain ⟨call,concluded⟩ := (reachableReport reachable' done).concluded
    obtain ⟨redisClient,rfl⟩ := retriedCalls reachable retried mine concluded.called
    have answered := concluded.answered
    cases response with
    | payment t =>
      obtain ⟨y,there,key,rfl⟩ := answered
      rw [Tables.uniqueBy intact.keyed.keys there present (key.trans paid.key.symm)]
    | _ => exact absurd answered id

/-! Both kinds of runs. -/

def retriedTest (first : Nat) (userId : UUID) (request : PaymentRequest) (c : State) : Happening → Bool
  | .start call => decide (call = .sendMoney userId request true) || decide (call = .sendMoney userId request false)
  | .step pid choice => decide (first ≤ pid) && decide (choice.fault = .none) && freshIds c (.step pid choice)
  | .stop _ => false
  | .drift _ => true

theorem retriedSure [Pydantic] {first : Nat} {userId : UUID} {request : PaymentRequest} (c : State) (e : Happening)
    (h : retriedTest first userId request c e = true) : Retried first userId request c e := by
  cases e with
  | start call =>
    simp only [retriedTest,Bool.or_eq_true,decide_eq_true_eq] at h
    exact h.elim (fun same => ⟨_,same⟩) (fun same => ⟨_,same⟩)
  | step pid choice =>
    simp only [retriedTest,Bool.and_eq_true,decide_eq_true_eq] at h
    exact ⟨h.1.1,h.1.2,freshIdsSure c _ h.2⟩
  | stop pid => contradiction
  | drift key => trivial

def agreedTest (first : Nat) (userId : UUID) (request : PaymentRequest) (c : State) (e : Happening) : Bool :=
  retriedTest first userId request c e && (match e with
    | .step pid _ => decide (c.awaits pid ≠ some .commit) ||
        (c.shared.log.all (fun rec => decide (rec.pid < first ∨ rec.pid = pid) || rec.shown.isEmpty) &&
          (c.shared.tables.applyAll (c.shared.db.pending pid)).wallets.all (fun row =>
            decide (row.userId = userId → request.amount.cents ≤ row.balance.units) &&
            decide (row.userId = request.receiverId → row.balance.units + request.amount.cents < 10 ^ 18) &&
            (Database.integerFits row.version && Database.integerFits (row.version + 1))))
    | _ => true)

theorem agreedSure [Pydantic] {first : Nat} {userId : UUID} {request : PaymentRequest} (c : State) (e : Happening)
    (h : agreedTest first userId request c e = true) : Agreed first userId request c e := by
  obtain ⟨retried,agreeing⟩ := Bool.and_eq_true_iff.mp h
  refine ⟨retriedSure c e retried,?_⟩
  cases e with
  | step pid choice =>
    intro awaits other inside apart _
    simp only [awaits,ne_eq,not_true_eq_false,decide_false,Bool.false_or,Bool.and_eq_true] at agreeing
    obtain ⟨unread,again⟩ := agreeing
    constructor
    · intro rec here own row showing
      have silent := List.all_eq_true.mp unread rec here
      rw [decide_eq_false (by omega),Bool.false_or,List.isEmpty_iff] at silent
      have shown := showing.shown
      rw [silent] at shown
      contradiction
    · intro row here
      have known := List.all_eq_true.mp again row here
      simp only [Bool.and_eq_true,decide_eq_true_eq] at known
      exact ⟨known.1.1,known.1.2,fun _ => Bool.and_eq_true_iff.mpr known.2⟩
  | _ => trivial

section
open JsonMode

def rentShared : Run opened.last where
  events := .start (.sendMoney 102 rent false) :: (serve (.sendMoney 102 rent false) 4 1 500 ++
    (steps 3 11 400 ++ steps 4 10 510))
  possible := by decide +kernel

theorem retriesAgreeRent : ∃ x ∈ rentShared.last.shared.tables.transactions, x.idempotencyKey = "rent" ∧
    rentShared.last.outcome 3 = some (.ok (.payment (TransactionResponse.modelValidate x))) ∧
    rentShared.last.outcome 4 = some (.ok (.payment (TransactionResponse.modelValidate x))) := by
  have three : opened.last.running.length = 3 := by decide +kernel
  have run : Reach machine (Agreed opened.last.running.length 102 rent) opened.last rentShared.last := by
    rw [three]
    exact rentShared.meeting agreedSure (by decide +kernel)
  have committed : rentShared.last.shared.wal.map Commit.pid = [0,1,2,3] := by decide +kernel
  have paid : CommittedBy 3 rentShared.last.shared := List.mem_map.mp (committed ▸ by simp)
  obtain ⟨x,here,key,_,returned⟩ := retriesAgree opened.reaches run three.le paid
  have ended : ∀ pid ∈ [3,4], (rentShared.last.outcome pid).isSome := by decide +kernel
  refine ⟨x,here,key,?_,?_⟩
  · obtain ⟨outcome,done⟩ := Option.isSome_iff_exists.mp (ended 3 (by simp))
    rw [done,returned 3 outcome three.le done]
  · obtain ⟨outcome,done⟩ := Option.isSome_iff_exists.mp (ended 4 (by simp))
    rw [done,returned 4 outcome (three.le.trans (by decide)) done]

def rentCaught : Run opened.last where
  events := .start (.sendMoney 102 rent false) :: (steps 3 3 400 ++
    (serve (.sendMoney 102 rent false) 4 11 500 ++ steps 3 6 410))
  possible := by decide +kernel

theorem retriesDisagree : ¬ ∀ (c₀ c : State) (userId : UUID) (request : PaymentRequest) (winner : Nat), Reachable c₀ →
    Reach machine (Retried c₀.running.length userId request) c₀ c → c₀.running.length ≤ winner →
    CommittedBy winner c.shared → ∀ (pid : Nat) (outcome : Outcome), c₀.running.length ≤ pid →
      c.outcome pid = some outcome → ∃ response, outcome = .ok response := by
  intro always
  have three : opened.last.running.length = 3 := by decide +kernel
  have run : Reach machine (Retried opened.last.running.length 102 rent) opened.last rentCaught.last := by
    rw [three]
    exact rentCaught.meeting retriedSure (by decide +kernel)
  have committed : rentCaught.last.shared.wal.map Commit.pid = [0,1,2,4] := by decide +kernel
  have paid : CommittedBy 4 rentCaught.last.shared := List.mem_map.mp (committed ▸ by simp)
  obtain ⟨response,raised⟩ := always _ _ 102 rent 4 opened.reaches run (three.le.trans (by decide)) paid 3
    (.error .missingGreenlet) three.le (by decide +kernel)
  cases raised

end

end PaymentSystem
