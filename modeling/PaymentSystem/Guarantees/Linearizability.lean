import PaymentSystem.System.Bank
import PaymentSystem.Behaviour.Lookups

/-! Linearizability. In every interleaving, with failures and stops at any step, there is
one order of the operations in which the bank could have done them one at a time, each
with the answer it got, ending with the committed rows; an operation that was over
before another arrived comes first in it. -/
namespace PaymentSystem
open Numerics (Decimal)
open Interleaving (Reach)
open Linearization (Operation)

section
variable [Pydantic] {c c₀ : State} {meets : State → Happening → Prop} {pid : Nat} {call : Call} {outcome : Outcome}

/-! What is over stays so. -/

theorem outcomeStays (later : Reach machine meets c₀ c) (done : c₀.outcome pid = some outcome) :
    c.outcome pid = some outcome := by
  have ended : c.running[pid]? = some (.done outcome) := by
    induction later with
    | refl => exact outcomeDone done
    | @next c₁ c₂ e before ok step ih =>
      cases e with
      | start job =>
        cases Option.some.inj step
        change (c₁.running ++ [job.program])[pid]? = _
        rw [List.getElem?_append_left (List.getElem?_eq_some_iff.mp ih).1]
        exact ih
      | step other choice =>
        obtain ⟨op,next,r,s',running,_,rfl⟩ := nextStep step
        have apart : other ≠ pid := by
          rintro rfl
          rw [running] at ih
          cases ih
        rw [List.getElem?_set_ne apart]
        exact ih
      | stop other =>
        obtain ⟨⟨op,next,running⟩,rfl⟩ := nextStop step
        have apart : other ≠ pid := by
          rintro rfl
          rw [running] at ih
          cases ih
        rw [List.getElem?_set_ne apart]
        exact ih
      | drift key =>
        cases Option.some.inj step
        exact ih
  rw [State.outcome,ended]
  rfl

omit [Pydantic] in
theorem overAwaits (done : c.outcome pid = some outcome) (op : Op) : c.awaits pid ≠ some op := by
  intro awaits
  obtain ⟨next,running⟩ := awaitsCall awaits
  rw [outcomeDone done] at running
  cases running

theorem overRecords (later : Reach machine meets c₀ c) (done : c₀.outcome pid = some outcome) {rec : Record}
    (here : rec ∈ c.shared.log) (own : rec.pid = pid) : rec ∈ c₀.shared.log := by
  refine (reachLog (P := fun rec => rec.pid ≠ pid) later ?_ rec here).resolve_right (fun other => other own)
  rintro c₁ e rec before _ logged rfl
  have ended := outcomeDone (outcomeStays before done)
  cases logged with
  | step running =>
    have running' := ended.symm.trans running
    cases running'
  | stop running =>
    have running' := ended.symm.trans running
    cases running'

theorem overEarly (reachable₀ : Reachable c₀) (later : Reach machine meets c₀ c) (done : c₀.outcome pid = some outcome)
    {rec : Record} (here : rec ∈ c.shared.log) (own : rec.pid = pid) : rec.commits ≤ c₀.shared.wal.length :=
  (reachableIntact reachable₀).counted rec (overRecords later done here own)

theorem unarrivedLate (reachable₀ : Reachable c₀) (later : Reach machine meets c₀ c)
    (unarrived : c₀.shared.calls.length ≤ pid) {rec : Record} (here : rec ∈ c.shared.log) (own : rec.pid = pid) :
    c₀.shared.wal.length ≤ rec.commits := by
  obtain ⟨more,log,after⟩ := (reachGrows later).log
  rw [log] at here
  rcases List.mem_append.mp here with here | here
  · exact absurd own (((reachableIntact reachable₀).unstarted _ unarrived).2.2 rec here)
  · exact after rec here

theorem overCommits (later : Reach machine meets c₀ c) (done : c₀.outcome pid = some outcome) {i : Nat} {commit : Commit}
    (found : c.shared.wal[i]? = some commit) (own : commit.pid = pid) : i < c₀.shared.wal.length := by
  by_contra late
  obtain ⟨c₁,c₂,choice,made⟩ := reachCommit later (not_lt.mp late) found
  exact overAwaits (outcomeStays made.before done) _ (own ▸ made.awaits)

structure JustEnded (c₁ c : State) (pid : Nat) (outcome : Outcome) : Prop where
  reachable : Reachable c₁
  later : Reach machine (fun _ _ => True) c₁ c
  done : c₁.outcome pid = some outcome
  record : ∃ rec ∈ c₁.shared.log, rec.pid = pid ∧ rec.commits = c₁.shared.wal.length

theorem reachEnded (reachable : Reachable c) (done : c.outcome pid = some outcome)
    (once : ∀ commit ∈ c.shared.wal, commit.pid ≠ pid) : ∃ c₁, JustEnded c₁ c pid outcome := by
  induction reachable with
  | refl => simp [State.outcome,initial] at done
  | @next c c' e before ok step ih =>
    rcases nextOutcome step done with old | ⟨choice,rfl⟩ | ⟨rfl,_⟩
    · obtain ⟨c₁,ended⟩ := ih old (fun commit here => once commit ((nextGrows step).wal.subset here))
      exact ⟨c₁,{ended with later := .next ended.later trivial step}⟩
    · have wal : c'.shared.wal = c.shared.wal := by
        rcases nextWal step with same | ⟨other,choice',next,same,_,_,more⟩
        · exact same
        · cases same
          exact absurd rfl (once _ (more ▸ List.mem_append_right _ (List.mem_singleton_self _)))
      refine ⟨c',.next before trivial step,.refl,done,?_⟩
      obtain ⟨op,next,r,s',_,_,rfl⟩ := nextStep step
      exact ⟨_,calledLast,rfl,by rw [wal]; rfl⟩
    · refine ⟨c',.next before trivial step,.refl,done,?_⟩
      obtain ⟨_,rfl⟩ := nextStop step
      exact ⟨_,List.mem_append_right _ (List.mem_singleton_self _),rfl,rfl⟩

theorem untouchedUncommitted (reachable : Reachable c) (untouched : Untouched (c.shared.talks pid)) :
    ∀ commit ∈ c.shared.wal, commit.pid ≠ pid := by
  rintro commit here rfl
  obtain ⟨i,inside,found⟩ := List.getElem_of_mem here
  obtain ⟨c₁,c₂,choice,made⟩ := reachCommit reachable (Nat.zero_le _) (List.getElem?_eq_some_iff.mpr ⟨inside,found⟩)
  obtain ⟨op,next,r,s',running,_,same⟩ := nextStep made.step
  have commits : op = .commit := Option.some.inj ((callAwaits running).symm.trans made.awaits)
  subst commits
  have logged : .called commit.pid .commit choice.fault r c₁.shared.wal.length ∈ c₂.shared.log := by
    rw [same]
    exact calledLast
  have talk : (⟨.commit,r⟩ : Talk) ∈ c.shared.talks commit.pid :=
    talksOfMem ((reachGrows made.after).member logged) (if_pos rfl)
  have stores := untouched _ talk
  contradiction

/-! The answers. -/

omit [Pydantic] in
theorem replyRefuses {e : Exn} {reply : Bank.Reply} (replied : call.reply (.error e) = some reply) :
    e.refuses = true := by
  unfold Call.reply at replied
  split at replied <;> first | contradiction | rfl | skip
  all_goals rename_i same; cases same
  all_goals rfl

theorem ownerId {w : World} (intact : Intact w) {a b : Wallet} {n m : Nat}
    (here : a ∈ (tablesAt w.wal n).wallets) (here' : b ∈ (tablesAt w.wal m).wallets) (same : a.userId = b.userId) :
    a.id = b.id := by
  obtain ⟨a',inside,becomes⟩ := (intact.evolved n).wallets a here
  obtain ⟨b',inside',becomes'⟩ := (intact.evolved m).wallets b here'
  have owners : a'.userId = b'.userId := becomes.userId.symm.trans (same.trans becomes'.userId)
  cases Tables.uniqueBy intact.keyed.owners inside inside' owners
  exact becomes.id.trans becomes'.id.symm

omit [Pydantic] in
theorem replyAsked {reply : Bank.Reply} (replied : call.reply outcome = some reply) :
    ∃ request, call.request = some request := by
  unfold Call.reply at replied
  split at replied <;> first | contradiction | exact ⟨_,rfl⟩

theorem committedReply (reachable : Reachable c) (called : c.shared.calls[pid]? = some call)
    (done : c.outcome pid = some outcome) {reply : Bank.Reply} (replied : call.reply outcome = some reply) {i : Nat}
    {commit : Commit} (found : c.shared.wal[i]? = some commit) (own : commit.pid = pid) : commit.reply = some reply := by
  have here : commit ∈ c.shared.wal := List.mem_of_getElem? found
  cases outcome with
  | error e =>
    have once := untouchedUncommitted reachable (refusedUntouched reachable called done (replyRefuses replied))
    exact absurd own (once commit here)
  | ok value =>
    have intact := reachableIntact reachable
    have entry := intact.legal.entryAt found
    have after := intact.evolved (i + 1)
    rw [tablesAtSucc found] at after
    have looks := reachableLooksUp reachable called done
    obtain ⟨call',concluded⟩ := (reachableReport reachable done).concluded
    cases Option.some.inj (called.symm.trans concluded.called)
    have answered := concluded.answered
    obtain ⟨committer,writes⟩ := commit
    cases own
    change Entry _ _ committer writes at entry
    cases entry with
    | @register data user wallet call email =>
      cases Option.some.inj (called.symm.trans call)
      cases value <;> simp only [Call.reply] at replied <;> try contradiction
      obtain ⟨x,inside,same,rfl⟩ := looks
      have stored : user ∈ c.shared.tables.users :=
        after.users.subset (List.mem_append_right _ (List.mem_singleton_self _))
      cases Tables.uniqueBy intact.paired.emails inside stored (same.trans email.symm)
      exact replied
    | @topUp userId amount redisClient wallet stored call present owner =>
      cases Option.some.inj (called.symm.trans call)
      cases value <;> simp only [Call.reply] at replied <;> try contradiction
      obtain ⟨_,row,n,read,own,same,_⟩ := answered
      rw [← replied,same,ownerId intact read.row present (own.trans owner.symm)]
      rfl
    | @send userId request redisClient sender receiver debited credited row call _ _ _ _ _ _ _ _ records =>
      cases Option.some.inj (called.symm.trans call)
      cases value <;> simp only [Call.reply] at replied <;> try contradiction
      obtain ⟨x,inside,key,rfl⟩ := answered
      have stored : row ∈ c.shared.tables.transactions :=
        after.transactions.subset (List.mem_append_right _ (List.mem_singleton_self _))
      cases Tables.uniqueBy intact.keyed.keys inside stored (key.trans records.key.symm)
      exact replied

def Placed (pid : Nat) (w : World) (request : Bank.Request) (reply : Bank.Reply) : Prop :=
  ∃ rec ∈ w.log, rec.pid = pid ∧
    Bank.Does (tablesAt w.wal rec.commits).bank request reply (tablesAt w.wal rec.commits).bank

variable {request : Bank.Request} {reply : Bank.Reply}

omit [Pydantic] in
theorem Walletless.placed {w : World} {user : UUID} {n : Nat} (none : Walletless pid w user n)
    (party : user ∈ request.users) : Placed pid w request .noAccount := by
  obtain ⟨rec,here,own,rfl⟩ := none.record
  exact ⟨rec,here,own,.noAccount party (accountNone none.none)⟩

theorem soundAt {w : World} (intact : Intact w) (n : Nat) : (tablesAt w.wal n).Sound := (intact.legal.upTo n).sound

theorem ReadAt.bank {w : World} {row : Wallet} {n : Nat} (read : ReadAt pid w row n) (intact : Intact w) :
    (tablesAt w.wal n).bank.account row.userId = some row.id ∧
      row.balance.toDecimal.Units 2 ((tablesAt w.wal n).bank.funds row.id) := by
  refine ⟨(soundAt intact n).account read.row,?_⟩
  rw [(soundAt intact n).funds read.row]
  exact row.balance.toDecimalUnits

theorem ReadAt.bankNow {w : World} {row : Wallet} {n : Nat} (read : ReadAt pid w row n) (intact : Intact w) :
    w.tables.bank.account row.userId = some row.id := by
  obtain ⟨last,here,becomes⟩ := (intact.evolved n).wallets row read.row
  have sound : w.tables.Sound := intact.replayed ▸ intact.legal.sound
  rw [becomes.userId,becomes.id]
  exact sound.account here

theorem JustEnded.placed {c₁ : State} (ended : JustEnded c₁ c pid outcome)
    (does : Bank.Does c₁.shared.tables.bank request reply c₁.shared.tables.bank) : Placed pid c.shared request reply := by
  have grows := reachGrows ended.later
  obtain ⟨rec,here,own,last⟩ := ended.record
  refine ⟨rec,grows.member here,own,?_⟩
  rw [last,grows.tablesAt (Nat.le_refl _),(reachableIntact ended.reachable).now]
  exact does

theorem JustEnded.answered {c₁ : State} (ended : JustEnded c₁ c pid outcome)
    (called : c.shared.calls[pid]? = some call) :
    c₁.shared.calls[pid]? = some call ∧ Answered pid c₁.shared call outcome ∧ LooksUp pid c₁.shared call outcome := by
  obtain ⟨call',concluded⟩ := (reachableReport ended.reachable ended.done).concluded
  cases Option.some.inj (called.symm.trans ((reachGrows ended.later).call concluded.called))
  exact ⟨concluded.called,concluded.answered,reachableLooksUp ended.reachable concluded.called ended.done⟩

theorem placedRegister {data : UserCreate} (reachable : Reachable c)
    (called : c.shared.calls[pid]? = some (.register data)) (done : c.outcome pid = some outcome)
    (once : ∀ commit ∈ c.shared.wal, commit.pid ≠ pid) (replied : Call.reply (.register data) outcome = some reply) :
    Placed pid c.shared (.join data.email data.fullName) reply := by
  cases outcome with
  | ok value =>
    obtain ⟨commit,here,own⟩ : CommittedBy pid c.shared := effectedOk reachable called done
    exact absurd own (once commit here)
  | error e =>
    cases e <;> simp only [Call.reply] at replied <;> try contradiction
    cases replied
    obtain ⟨rec,here,own,taken⟩ := knownSeen reachable called done
    refine ⟨rec,here,own,.known ?_⟩
    intro none
    simp only [Tables.bank,Option.map_eq_none_iff,List.head?_eq_none_iff] at none
    exact taken none

theorem placedTopUp {userId : UUID} {amount : Amount} {redisClient : Bool} (reachable : Reachable c)
    (called : c.shared.calls[pid]? = some (.topUp userId amount redisClient)) (done : c.outcome pid = some outcome)
    (once : ∀ commit ∈ c.shared.wal, commit.pid ≠ pid)
    (replied : Call.reply (.topUp userId amount redisClient) outcome = some reply) :
    Placed pid c.shared (.deposit userId amount.cents) reply := by
  cases outcome with
  | ok value =>
    obtain ⟨commit,here,own⟩ : CommittedBy pid c.shared := effectedOk reachable called done
    exact absurd own (once commit here)
  | error e =>
    obtain ⟨call,concluded⟩ := (reachableReport reachable done).concluded
    cases Option.some.inj (called.symm.trans concluded.called)
    have unpaid : Unpaid pid c.shared userId amount e := concluded.answered
    cases e <;> simp only [Call.reply] at replied <;> try contradiction
    cases replied
    cases unpaid with
    | failed kind => contradiction
    | missing none => exact none.placed (List.mem_singleton_self _)
    | overflow kind => simp at kind

omit [Pydantic] in
theorem Refused.blamed {w : World} {userId : UUID} {order : PaymentRequest} {e : Exn}
    (refused : Refused pid userId order w e) (sound : e.ofFailure = false) (fits : e ≠ .dataError) :
    Blame pid w userId order e := by
  cases refused with
  | failed kind => rw [sound] at kind; contradiction
  | text => exact absurd rfl fits
  | later missed blame => exact blame

theorem placedSend {userId : UUID} {order : PaymentRequest} {redisClient : Bool} (reachable : Reachable c)
    (called : c.shared.calls[pid]? = some (.sendMoney userId order redisClient)) (done : c.outcome pid = some outcome)
    (once : ∀ commit ∈ c.shared.wal, commit.pid ≠ pid)
    (replied : Call.reply (.sendMoney userId order redisClient) outcome = some reply) :
    Placed pid c.shared (.pay userId order) reply := by
  cases outcome with
  | ok value =>
    cases value <;> simp only [Call.reply] at replied <;> try contradiction
    cases replied
    obtain ⟨c₁,ended⟩ := reachEnded reachable done once
    obtain ⟨x,here,key,rfl⟩ : Paid order _ c₁.shared := (ended.answered called).2.1
    have intact := reachableIntact ended.reachable
    have sound : c₁.shared.tables.Sound := intact.replayed ▸ intact.legal.sound
    exact ended.placed (.again (key ▸ sound.payment here))
  | error e =>
    have report := reachableReport reachable done
    have intact := reachableIntact reachable
    obtain ⟨call,concluded⟩ := report.concluded
    cases Option.some.inj (called.symm.trans concluded.called)
    have refused : Refused pid userId order c.shared e := concluded.answered
    cases e with
    | walletNotFound =>
      cases replied
      cases refused.blamed rfl (by simp) with
      | failed kind => contradiction
      | missing party none =>
        refine none.placed ?_
        rcases party with rfl | rfl <;> simp [Bank.Request.users]
      | conflict kind => simp at kind
      | collision kind => simp at kind
    | selfTransfer =>
      cases replied
      obtain ⟨rec,here,own,_⟩ := report.closed
      cases refused.blamed rfl (by simp) with
      | failed kind => contradiction
      | self same => exact ⟨rec,here,own,.same same.symm⟩
      | conflict kind => simp at kind
      | collision kind => simp at kind
    | insufficientBalance available required =>
      cases replied
      cases refused.blamed rfl (by simp) with
      | failed kind => contradiction
      | conflict kind => simp at kind
      | collision kind => simp at kind
      | @insufficient row other n m read owner less =>
        obtain ⟨rec,here,own,_,rfl⟩ := read.record
        obtain ⟨holds,inCents⟩ := read.bank intact
        refine ⟨rec,here,own,.short (owner ▸ holds) ?_ inCents⟩
        rw [(soundAt intact rec.commits).funds read.row]
        exact less
    | _ => simp [Call.reply] at replied

theorem placedWallet {userId : UUID} (reachable : Reachable c)
    (called : c.shared.calls[pid]? = some (.getWallet userId false)) (done : c.outcome pid = some outcome)
    (replied : Call.reply (.getWallet userId false) outcome = some reply) :
    Placed pid c.shared (.account userId) reply := by
  have looks := reachableLooksUp reachable called done
  cases outcome with
  | ok value =>
    cases value <;> simp only [Call.reply] at replied <;> try contradiction
    cases replied
    obtain ⟨row,n,⟨read,rfl⟩,id,balance⟩ := looks
    obtain ⟨rec,here,own,_,rfl⟩ := read.record
    obtain ⟨holds,inCents⟩ := read.bank (reachableIntact reachable)
    refine ⟨rec,here,own,?_⟩
    rw [id,balance]
    exact .account holds inCents
  | error e =>
    cases e <;> simp only [Call.reply] at replied <;> try contradiction
    cases replied
    obtain ⟨n,none⟩ := looks
    exact none.placed (List.mem_singleton_self _)

theorem placedBalance {userId : UUID} (reachable : Reachable c)
    (called : c.shared.calls[pid]? = some (.getBalanceFast userId false)) (done : c.outcome pid = some outcome)
    (replied : Call.reply (.getBalanceFast userId false) outcome = some reply) :
    Placed pid c.shared (.balance userId) reply := by
  have looks := reachableLooksUp reachable called done
  cases outcome with
  | ok value =>
    cases value <;> simp only [Call.reply] at replied <;> try contradiction
    cases replied
    obtain ⟨row,n,⟨read,rfl⟩,rfl⟩ := looks
    obtain ⟨rec,here,own,_,rfl⟩ := read.record
    obtain ⟨holds,inCents⟩ := read.bank (reachableIntact reachable)
    exact ⟨rec,here,own,.balance holds inCents⟩
  | error e =>
    cases e <;> simp only [Call.reply] at replied <;> try contradiction
    cases replied
    obtain ⟨n,none⟩ := looks
    exact none.placed (List.mem_singleton_self _)

theorem JustEnded.holds {c₁ : State} (ended : JustEnded c₁ c pid outcome) {userId : UUID} {row : Wallet} {n : Nat}
    (own : OwnRow pid c₁.shared userId row n) {x : Transaction} (here : x ∈ c₁.shared.tables.transactions) :
    c₁.shared.tables.bank.account userId = some row.id ∧
      c₁.shared.tables.bank.payment x.idempotencyKey = some (TransactionResponse.modelValidate x) := by
  have intact := reachableIntact ended.reachable
  have sound : c₁.shared.tables.Sound := intact.replayed ▸ intact.legal.sound
  exact ⟨own.owner ▸ own.read.bankNow intact,sound.payment here⟩

theorem placedFind {userId id : UUID} (reachable : Reachable c)
    (called : c.shared.calls[pid]? = some (.getTransaction userId id)) (done : c.outcome pid = some outcome)
    (once : ∀ commit ∈ c.shared.wal, commit.pid ≠ pid)
    (replied : Call.reply (.getTransaction userId id) outcome = some reply) :
    Placed pid c.shared (.find userId id) reply := by
  obtain ⟨c₁,ended⟩ := reachEnded reachable done once
  obtain ⟨called₁,_,looks⟩ := ended.answered called
  cases outcome with
  | ok value =>
    cases value <;> simp only [Call.reply] at replied <;> try contradiction
    cases replied
    obtain ⟨row,n,own,x,here,rfl,rfl,party⟩ := looks
    obtain ⟨holds,made⟩ := ended.holds own here
    refine ended.placed (.found holds made rfl ?_)
    simpa [Tables.party,TransactionResponse.modelValidate] using party
  | error e =>
    cases e with
    | http status detail =>
      rcases looks with ⟨rfl,rfl,n,none⟩ | ⟨rfl,rfl,n,none⟩ | ⟨rfl,row,n,own,x,here,rfl,party⟩
      · simp only [Call.reply,Option.some.injEq] at replied
        cases replied
        exact (none.grows (reachGrows ended.later)).placed (List.mem_singleton_self _)
      · simp only [Call.reply,Option.some.injEq] at replied
        cases replied
        obtain ⟨rec,inside,own,rfl⟩ := none.record
        have grows := reachGrows ended.later
        refine ⟨rec,grows.member inside,own,.notFound ?_⟩
        rw [grows.tablesAt none.within]
        rintro key payment made rfl
        obtain ⟨x,here,_,rfl⟩ := paymentMem made
        have found : x ∈ (tablesAt c₁.shared.wal rec.commits).transactionsById x.id :=
          Tables.transactionsByIdMem.mpr ⟨here,rfl⟩
        rw [show x.id = (TransactionResponse.modelValidate x).id from rfl,none.none] at found
        contradiction
      · simp only [Call.reply,Option.some.injEq] at replied
        cases replied
        obtain ⟨holds,made⟩ := ended.holds own here
        refine ended.placed (.notParty holds made rfl ?_)
        simpa [Tables.party,TransactionResponse.modelValidate] using party
    | _ => simp [Call.reply] at replied

theorem answerPlaced (reachable : Reachable c) (called : c.shared.calls[pid]? = some call)
    (done : c.outcome pid = some outcome) (once : ∀ commit ∈ c.shared.wal, commit.pid ≠ pid)
    (asked : call.request = some request) (replied : call.reply outcome = some reply) :
    Placed pid c.shared request reply := by
  cases call with
  | register data => cases asked; exact placedRegister reachable called done once replied
  | topUp userId amount redisClient => cases asked; exact placedTopUp reachable called done once replied
  | sendMoney userId order redisClient => cases asked; exact placedSend reachable called done once replied
  | getWallet userId redisClient =>
    cases redisClient <;> cases asked
    exact placedWallet reachable called done replied
  | getBalanceFast userId redisClient =>
    cases redisClient <;> cases asked
    exact placedBalance reachable called done replied
  | getTransactionHistory => contradiction
  | getTransaction userId id => cases asked; exact placedFind reachable called done once replied

end
/-! The order. -/

abbrev Doing := Operation Nat Bank.Request Bank.Reply

def World.change (w : World) (n : Nat) : Option Doing := do
  let commit ← w.wal[n]?
  let call ← w.calls[commit.pid]?
  let request ← call.request
  let reply ← commit.reply
  return ⟨commit.pid,request,reply⟩

structure Looked [Pydantic] (c : State) (n : Nat) (x : Doing) : Prop where
  answered : ∃ call outcome, c.shared.calls[x.id]? = some call ∧ call.request = some x.request ∧
    c.outcome x.id = some outcome ∧ call.reply outcome = some x.reply
  once : ∀ commit ∈ c.shared.wal, commit.pid ≠ x.id
  record : ∃ rec ∈ c.shared.log, rec.pid = x.id ∧ rec.commits = n
  does : Bank.Does (tablesAt c.shared.wal n).bank x.request x.reply (tablesAt c.shared.wal n).bank

open Classical in
noncomputable def State.lookAt [Pydantic] (c : State) (pid : Nat) : Option (Nat × Doing) :=
  if known : ∃ found : Nat × Doing, Looked c found.1 found.2 ∧ found.2.id = pid then some known.choose else none

noncomputable def State.look [Pydantic] (c : State) (n pid : Nat) : Option Doing :=
  ((c.lookAt pid).filter (fun found => found.1 == n)).map Prod.snd

/-- The commits in turn, the answers without a commit between them, by their requests'
arrival where they are of the same number of commits. -/
noncomputable def State.order [Pydantic] (c : State) : List Doing :=
  Linearization.order ((c.shared.wal.length + 1) * (c.shared.calls.length + 1))
    (Linearization.inRounds c.shared.calls.length c.look c.shared.change)

section
variable [Pydantic] {c c₀ : State} {n pid : Nat} {x y : Doing}

theorem lookSome (found : c.look n pid = some x) : Looked c n x ∧ x.id = pid ∧ c.lookAt pid = some (n,x) := by
  simp only [State.look,Option.map_eq_some_iff,Option.filter_eq_some_iff,beq_iff_eq] at found
  obtain ⟨⟨m,y⟩,⟨here,same⟩,last⟩ := found
  cases same
  cases last
  have chosen := here
  simp only [State.lookAt] at chosen
  split at chosen
  · rename_i known
    have spec := known.choose_spec
    rw [Option.some.inj chosen] at spec
    exact ⟨spec.1,spec.2,here⟩
  · contradiction

theorem lookedLook (looked : Looked c n x) : ∃ m y, c.look m x.id = some y := by
  have known : ∃ found : Nat × Doing, Looked c found.1 found.2 ∧ found.2.id = x.id := ⟨(n,x),looked,rfl⟩
  refine ⟨known.choose.1,known.choose.2,?_⟩
  have place : c.lookAt x.id = some known.choose := dif_pos known
  simp only [State.look,place]
  simp

omit [Pydantic] in
theorem changeSome (found : c.shared.change n = some x) : ∃ commit, c.shared.wal[n]? = some commit ∧
    commit.pid = x.id ∧ commit.reply = some x.reply ∧
    ∃ call, c.shared.calls[x.id]? = some call ∧ call.request = some x.request := by
  simp only [World.change,bind,Option.bind_eq_some_iff,pure] at found
  obtain ⟨commit,here,call,called,request,asked,reply,replied,same⟩ := found
  cases same
  exact ⟨commit,here,rfl,replied,call,called,asked⟩

theorem changeOf (intact : Intact c.shared) {commit : Commit} (here : c.shared.wal[n]? = some commit) :
    ∃ x, c.shared.change n = some x ∧ x.id = commit.pid ∧ commit.reply = some x.reply ∧
      Bank.Does (tablesAt c.shared.wal n).bank x.request x.reply (tablesAt c.shared.wal (n + 1)).bank := by
  obtain ⟨call,request,reply,called,asked,replied,does⟩ := (intact.legal.entryAt here).does (soundAt intact n)
  refine ⟨⟨commit.pid,request,reply⟩,?_,rfl,replied,?_⟩
  · have replied' : commit.reply = some reply := replied
    simp only [World.change,here,bind,Option.bind_some,called,asked,replied',pure]
  · rw [tablesAtSucc here]
    exact does

theorem rounds (reachable : Reachable c) : Linearization.Rounds bank (c.shared.wal.length + 1) c.shared.calls.length
    (fun n => (tablesAt c.shared.wal n).bank) c.look c.shared.change where
  first := bankEmpty
  looks := fun _ _ _ _ found => (lookSome found).1.does
  takes := by
    intro n x _ found
    obtain ⟨commit,here,_⟩ := changeSome found
    obtain ⟨y,same,_,_,does⟩ := changeOf (reachableIntact reachable) here
    cases Option.some.inj (found.symm.trans same)
    exact does
  idle := by
    intro n _ silent
    cases here : c.shared.wal[n]? with
    | none =>
      have past : c.shared.wal.length ≤ n := List.getElem?_eq_none_iff.mp here
      rw [tablesAt,tablesAt,List.take_of_length_le past,List.take_of_length_le (by omega)]
    | some commit =>
      obtain ⟨x,found,_⟩ := changeOf (reachableIntact reachable) here
      rw [silent] at found
      contradiction

/-! Who comes where. -/

inductive Stands (c : State) (x : Doing) : Nat → Nat → Prop where
  | look {round : Nat} (found : c.look round x.id = some x) (started : x.id < c.shared.calls.length)
      (within : round ≤ c.shared.wal.length) : Stands c x round x.id
  | change {round : Nat} (found : c.shared.change round = some x) (within : round < c.shared.wal.length) :
      Stands c x round c.shared.calls.length

theorem Stands.places {p : Nat} (stands : Stands c x n p) : n < c.shared.wal.length + 1 ∧ p ≤ c.shared.calls.length ∧
    Linearization.inRounds c.shared.calls.length c.look c.shared.change
      (Linearization.place c.shared.calls.length n p) = some x := by
  cases stands with
  | look found started within =>
    exact ⟨by omega,Nat.le_of_lt started,(Linearization.inRoundsRead started).trans found⟩
  | change found within => exact ⟨by omega,Nat.le_refl _,Linearization.inRoundsChange.trans found⟩

theorem standsOf {i : Nat} (intact : Intact c.shared)
    (here : Linearization.inRounds c.shared.calls.length c.look c.shared.change i = some x) :
    ∃ n p, Stands c x n p ∧ i = Linearization.place c.shared.calls.length n p := by
  rcases Linearization.inRoundsCases here with ⟨n,p,started,rfl,found⟩ | ⟨n,rfl,found⟩
  · obtain ⟨looked,rfl,_⟩ := lookSome found
    obtain ⟨rec,inside,_,rfl⟩ := looked.record
    exact ⟨_,_,.look found started (intact.counted rec inside),rfl⟩
  · obtain ⟨commit,here,_⟩ := changeSome found
    exact ⟨n,_,.change found (List.getElem?_eq_some_iff.mp here).1,rfl⟩

theorem orderStands (intact : Intact c.shared) : x ∈ c.order ↔ ∃ n p, Stands c x n p := by
  rw [State.order,Linearization.orderMem]
  constructor
  · rintro ⟨i,_,here⟩
    obtain ⟨n,p,stands,_⟩ := standsOf intact here
    exact ⟨n,p,stands⟩
  · rintro ⟨n,p,stands⟩
    obtain ⟨round,within,found⟩ := stands.places
    exact ⟨_,Linearization.placeWithin round within,found⟩

theorem standsOnce {n' p p' : Nat} (intact : Intact c.shared) (stands : Stands c x n p) (stands' : Stands c y n' p')
    (same : x.id = y.id) : n = n' ∧ p = p' := by
  cases stands with
  | look found =>
    obtain ⟨looked,_,place⟩ := lookSome found
    cases stands' with
    | look found' =>
      obtain ⟨_,_,at'⟩ := lookSome found'
      rw [same] at place
      cases Option.some.inj (place.symm.trans at')
      exact ⟨rfl,rfl⟩
    | change found' =>
      obtain ⟨commit,here,own,_⟩ := changeSome found'
      exact absurd (own.trans same.symm) (looked.once commit (List.mem_of_getElem? here))
  | change found =>
    obtain ⟨commit,here,own,_⟩ := changeSome found
    cases stands' with
    | look found' =>
      exact absurd (own.trans same) ((lookSome found').1.once commit (List.mem_of_getElem? here))
    | change found' =>
      obtain ⟨commit',here',own',_⟩ := changeSome found'
      refine ⟨?_,rfl⟩
      have pids : (c.shared.wal.map Commit.pid)[n]? = (c.shared.wal.map Commit.pid)[n']? := by
        rw [List.getElem?_map,List.getElem?_map,here,here']
        exact congrArg some (own.trans (same.trans own'.symm))
      have inside : n < (c.shared.wal.map Commit.pid).length := by
        rw [List.length_map]
        exact (List.getElem?_eq_some_iff.mp here).1
      exact (List.getElem?_inj inside intact.legal.once).mp pids

theorem standsEarly {p : Nat} {outcome : Outcome} (reachable₀ : Reachable c₀)
    (later : Reach machine (fun _ _ => True) c₀ c) (done : c₀.outcome x.id = some outcome) (stands : Stands c x n p) :
    n ≤ c₀.shared.wal.length ∧ (p = c.shared.calls.length → n < c₀.shared.wal.length) := by
  cases stands with
  | look found started =>
    obtain ⟨rec,here,own,rfl⟩ := (lookSome found).1.record
    exact ⟨overEarly reachable₀ later done here own,fun last => by omega⟩
  | change found =>
    obtain ⟨commit,here,own,_⟩ := changeSome found
    have earlier := overCommits later done here own
    exact ⟨Nat.le_of_lt earlier,fun _ => earlier⟩

theorem standsLate {p : Nat} (reachable₀ : Reachable c₀) (later : Reach machine (fun _ _ => True) c₀ c)
    (unarrived : c₀.shared.calls.length ≤ x.id) (stands : Stands c x n p) : c₀.shared.wal.length ≤ n := by
  have intact₀ := reachableIntact reachable₀
  have grows := reachGrows later
  cases stands with
  | look found =>
    obtain ⟨rec,here,own,rfl⟩ := (lookSome found).1.record
    exact unarrivedLate reachable₀ later unarrived here own
  | change found =>
    obtain ⟨commit,here,own,_⟩ := changeSome found
    by_contra early
    have old : commit ∈ c₀.shared.wal := List.mem_of_getElem? (prefixOld grows.wal (not_le.mp early) here)
    have started := intact₀.legal.started commit old
    omega

theorem standsBefore {m p q : Nat} {outcome : Outcome} (reachable₀ : Reachable c₀)
    (later : Reach machine (fun _ _ => True) c₀ c) (done : c₀.outcome x.id = some outcome)
    (unarrived : c₀.shared.calls.length ≤ y.id) (stands : Stands c x n p) (stands' : Stands c y m q) :
    n < m ∨ (n = m ∧ p < q) := by
  obtain ⟨early,last⟩ := standsEarly reachable₀ later done stands
  have late := standsLate reachable₀ later unarrived stands'
  have arrived : x.id < c₀.shared.calls.length :=
    (heldReachable reachable₀).counted ▸ (List.getElem?_eq_some_iff.mp (outcomeDone done)).1
  cases stands with
  | change => exact .inl (by have := last rfl; omega)
  | look _ started =>
    have apart : x.id < q := by
      cases stands' with
      | look => omega
      | change => exact started
    omega

end

structure Linearizes [Pydantic] (c : State) (order : List Doing) : Prop where
  runs : bank.Runs (order.map (fun x => (x.request,x.reply))) c.shared.tables.bank
  once : (order.map Operation.id).Nodup
  asked : ∀ x ∈ order, ∃ call, c.shared.calls[x.id]? = some call ∧ call.request = some x.request ∧
    (CommittedBy x.id c.shared ∨ ∃ outcome, c.outcome x.id = some outcome ∧ call.reply outcome = some x.reply)
  answered : ∀ pid call outcome reply, c.shared.calls[pid]? = some call → c.outcome pid = some outcome →
    call.reply outcome = some reply → ∃ x ∈ order, x.id = pid ∧ x.reply = reply
  committed : ∀ commit ∈ c.shared.wal, ∃ x ∈ order, x.id = commit.pid
  inTime : ∀ c₀ outcome, Reachable c₀ → Reach machine (fun _ _ => True) c₀ c → ∀ x ∈ order, ∀ y ∈ order,
    c₀.outcome x.id = some outcome → c₀.shared.calls.length ≤ y.id → [x,y].Sublist order

section
variable [Pydantic] {c : State} {pid : Nat}

theorem answeredStands (reachable : Reachable c) {call : Call} {outcome : Outcome} {reply : Bank.Reply}
    (called : c.shared.calls[pid]? = some call) (done : c.outcome pid = some outcome)
    (replied : call.reply outcome = some reply) : ∃ x ∈ c.order, x.id = pid ∧ x.reply = reply := by
  have intact := reachableIntact reachable
  by_cases committed : CommittedBy pid c.shared
  · obtain ⟨commit,here,own⟩ := committed
    obtain ⟨n,inside,found⟩ := List.getElem_of_mem here
    have place : c.shared.wal[n]? = some commit := List.getElem?_eq_some_iff.mpr ⟨inside,found⟩
    obtain ⟨x,change,same,replied',_⟩ := changeOf intact place
    have answer := committedReply reachable called done replied place own
    exact ⟨x,(orderStands intact).mpr ⟨n,_,.change change inside⟩,same.trans own,
      Option.some.inj (replied'.symm.trans answer)⟩
  · have once : ∀ commit ∈ c.shared.wal, commit.pid ≠ pid := fun commit here own => committed ⟨commit,here,own⟩
    obtain ⟨request,asked⟩ := replyAsked replied
    obtain ⟨rec,here,own,does⟩ := answerPlaced reachable called done once asked replied
    have looked : Looked c rec.commits ⟨pid,request,reply⟩ :=
      ⟨⟨call,outcome,called,asked,done,replied⟩,once,⟨rec,here,own,rfl⟩,does⟩
    obtain ⟨m,y,found⟩ := lookedLook looked
    obtain ⟨looked',same,_⟩ := lookSome found
    have same : y.id = pid := same
    refine ⟨y,(orderStands intact).mpr ⟨m,_,.look (same ▸ found) ?_ ?_⟩,same,?_⟩
    · rw [same]
      exact (List.getElem?_eq_some_iff.mp called).1
    · obtain ⟨rec',here',_,rfl⟩ := looked'.record
      exact intact.counted rec' here'
    · obtain ⟨call',outcome',called',_,done',replied'⟩ := looked'.answered
      rw [same] at called' done'
      cases Option.some.inj (called.symm.trans called')
      cases Option.some.inj (done.symm.trans done')
      exact Option.some.inj (replied'.symm.trans replied)

end
theorem linearizable [Pydantic] {c : State} (reachable : Reachable c) : ∃ order, Linearizes c order := by
  have intact := reachableIntact reachable
  refine ⟨c.order,?_,?_,?_,?_,?_,?_⟩
  · have ran := (rounds reachable).points.runs
    rw [Nat.mul_div_cancel _ (Nat.succ_pos c.shared.calls.length),
      show tablesAt c.shared.wal (c.shared.wal.length + 1) = c.shared.tables by
        rw [tablesAt,List.take_of_length_le (by omega),intact.replayed]] at ran
    exact ran
  · apply Linearization.orderNodup
    intro i j x y here here' same
    obtain ⟨n,p,stands,rfl⟩ := standsOf intact here
    obtain ⟨m,q,stands',rfl⟩ := standsOf intact here'
    obtain ⟨rfl,rfl⟩ := standsOnce intact stands stands' same
    rfl
  · intro x here
    obtain ⟨n,p,stands⟩ := (orderStands intact).mp here
    cases stands with
    | look found =>
      obtain ⟨call,outcome,called,asked,done,replied⟩ := (lookSome found).1.answered
      exact ⟨call,called,asked,.inr ⟨outcome,done,replied⟩⟩
    | change found =>
      obtain ⟨commit,inside,own,_,call,called,asked⟩ := changeSome found
      exact ⟨call,called,asked,.inl ⟨commit,List.mem_of_getElem? inside,own⟩⟩
  · intro pid call outcome reply called done replied
    exact answeredStands reachable called done replied
  · intro commit here
    obtain ⟨n,inside,found⟩ := List.getElem_of_mem here
    obtain ⟨x,change,same,_⟩ := changeOf intact (List.getElem?_eq_some_iff.mpr ⟨inside,found⟩)
    exact ⟨x,(orderStands intact).mpr ⟨n,_,.change change inside⟩,same⟩
  · intro c₀ outcome reachable₀ later x here y here' done unarrived
    obtain ⟨n,p,stands⟩ := (orderStands intact).mp here
    obtain ⟨m,q,stands'⟩ := (orderStands intact).mp here'
    obtain ⟨_,within,found⟩ := stands.places
    obtain ⟨round',within',found'⟩ := stands'.places
    exact Linearization.orderBefore
      (Linearization.placeBefore within (standsBefore reachable₀ later done unarrived stands stands'))
      (Linearization.placeWithin round' within') found found'

open JsonMode in
theorem linearizableRent : ∃ order, Linearizes (stateAfter rentTwice) order :=
  linearizable (stateReachable rentTwice (by decide +kernel))

end PaymentSystem
