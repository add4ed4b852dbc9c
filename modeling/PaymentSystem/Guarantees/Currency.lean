import PaymentSystem.Guarantees.Reconciliation

/-! Currencies. A wallet has one and a payment names one, and the service compares
them nowhere: the ledger is right about them as long as no payment in a foreign
currency gets as far as its INSERT. -/
namespace PaymentSystem
open Bookkeeping (Posting Book)
open Interleaving (Program Reach)

def PaymentRequest.Native (request : PaymentRequest) (userId : UUID) (t : Tables) : Prop :=
  ∀ wallet ∈ t.wallets, wallet.userId = userId ∨ wallet.userId = request.receiverId →
    wallet.currency = request.currency

def NativeInsert (c : State) (e : Happening) : Prop :=
  ∀ pid choice new next, e = .step pid choice → c.running[pid]? = some (.call (.insertTransaction new) next) →
    ∀ userId request redisClient, c.shared.calls[pid]? = some (.sendMoney userId request redisClient) →
      request.Native userId c.shared.tables

def Tables.within (t : Tables) (currency : String) : Tables :=
  {t with transactions := t.transactions.filter (fun x => x.currency == currency)}

section
variable {t : Tables} {row : Transaction}

theorem Tables.transactionsApplyAll {writes : List Write} (here : row ∈ (t.applyAll writes).transactions) :
    row ∈ t.transactions ∨ .insertTransaction row ∈ writes := by
  induction writes generalizing t with
  | nil => exact .inl here
  | cons write rest ih =>
    rcases ih here with here | here
    · cases write with
      | insertTransaction added =>
        rcases List.mem_append.mp here with here | here
        · exact .inl here
        · exact .inr (List.mem_singleton.mp here ▸ List.mem_cons_self ..)
      | _ => exact .inl here
    · exact .inr (List.mem_cons_of_mem _ here)

theorem Legal.currencies {calls wal} (h : Legal calls wal) :
    ∀ wallet ∈ (replay wal).wallets, wallet.currency = "USD" := by
  refine h.invariant (P := fun t => ∀ wallet ∈ t.wallets, wallet.currency = "USD")
    (fun wallet here => by simp [Tables.empty] at here) ?_
  intro t pid writes known entry
  have update : ∀ t : Tables, (∀ wallet ∈ t.wallets, wallet.currency = "USD") → ∀ id balance version,
      ∀ wallet ∈ (t.updateWallet id balance version).wallets, wallet.currency = "USD" := by
    intro t known id balance version wallet here
    rcases Tables.updateWalletMem here with ⟨here,_⟩ | ⟨old,inside,_,rfl⟩
    · exact known wallet here
    · exact known old inside
  cases entry with
  | @register data user wallet call email fullName freshUser freshEmail freshWallet freshOwner owner balance
      currency version =>
    intro other here
    rcases List.mem_append.mp here with here | here
    · exact known other here
    · rw [List.mem_singleton.mp here,currency]
  | topUp call here owner credit => exact update _ known _ _ _
  | send => exact update _ (update _ known _ _ _) _ _ _

theorem Entry.labelled {calls : List Call} {pid : Nat} {writes : List Write} {userId : UUID}
    {request : PaymentRequest} {redisClient : Bool} (h : Entry calls t pid writes)
    (call : calls[pid]? = some (.sendMoney userId request redisClient)) :
    ∃ x ∈ (t.applyAll writes).transactions, x.currency = request.currency := by
  cases h with
  | register call' => cases Option.some.inj (call.symm.trans call')
  | topUp call' => cases Option.some.inj (call.symm.trans call')
  | send call' _ _ _ _ _ _ _ _ records =>
    cases Option.some.inj (call.symm.trans call')
    exact ⟨_,List.mem_append_right _ (List.mem_singleton_self _),records.currency⟩

end

section
variable [Pydantic] {c : State}

theorem nextStaged {c' : State} {e : Happening} {pid : Nat} {row : Transaction} (h : machine.next c e = some c')
    (here : .insertTransaction row ∈ c'.shared.db.pending pid) :
    .insertTransaction row ∈ c.shared.db.pending pid ∨
      ∃ choice new next id amount now, e = .step pid choice ∧
        c.running[pid]? = some (.call (.insertTransaction new) next) ∧ row = new.row id amount now := by
  have released : ∀ other, .insertTransaction row ∈ (c.shared.db.release other).pending pid →
      .insertTransaction row ∈ c.shared.db.pending pid := by
    intro other here
    by_cases same : pid = other
    · rw [same,Database.releasePending] at here
      contradiction
    · rwa [Database.releasePendingOther same] at here
  cases e with
  | start job => cases Option.some.inj h; exact .inl here
  | step other choice =>
    obtain ⟨op,next,r,s',running,attempted,rfl⟩ := nextStep h
    change .insertTransaction row ∈ s'.db.pending pid at here
    cases attemptEffect attempted with
    | staged sql free made =>
      by_cases same : pid = other
      · subst same
        rw [Database.stagePending] at here
        rcases List.mem_append.mp here with here | here
        · exact .inl here
        · obtain ⟨new,id,amount,now,rfl,known⟩ := made row (List.mem_singleton.mp here).symm
          exact .inr ⟨choice,new,next,id,amount,now,rfl,running,known⟩
      · rw [Database.stagePendingOther same] at here
        exact .inl here
    | committed isCommit =>
      change _ ∈ (c.shared.db.commit other).pending pid at here
      rw [Database.commitPending] at here
      exact .inl (released other here)
    | released ends => exact .inl (released other here)
    | _ => exact .inl here
  | stop other =>
    obtain ⟨_,rfl⟩ := nextStop h
    exact .inl (released other here)
  | drift key => cases Option.some.inj h; exact .inl here

theorem nativeRows (run : Reach machine NativeInsert initial c) :
    (∀ pid row, .insertTransaction row ∈ c.shared.db.pending pid → row.currency = "USD") ∧
      ∀ row ∈ c.shared.tables.transactions, row.currency = "USD" := by
  induction run with
  | refl =>
    exact ⟨fun pid row here => by simp [initial,World.empty,Database.empty] at here,
      fun row here => by simp [initial,World.empty,Database.empty,Tables.empty] at here⟩
  | @next c c' e before ok step ih =>
    have reachable : Reachable c := before.weaken (fun _ _ _ => trivial)
    have intact := reachableIntact reachable
    constructor
    · intro pid row here
      rcases nextStaged step here with here | ⟨choice,new,next,id,amount,now,rfl,running,rfl⟩
      · exact ih.1 pid row here
      · obtain ⟨_,⟨userId,request,redisClient,sender,receiver,recordable⟩,_⟩ := reachableDue reachable running
        have native := ok pid choice new next rfl running userId request redisClient recordable.call
        have named : new.currency = request.currency := by rw [recordable.row]
        have usd := intact.legal.currencies sender (intact.replayed ▸ recordable.senderHere)
        exact named.trans ((native sender recordable.senderHere (.inl recordable.senderOwner)).symm.trans usd)
    · intro row here
      have intact' := reachableIntact (Reach.next reachable trivial step)
      rw [intact'.replayed] at here
      rcases nextWal step with same | ⟨pid,_,_,_,_,_,more⟩
      · rw [same,← intact.replayed] at here
        exact ih.2 row here
      · rw [more,replaySnoc,← intact.replayed] at here
        rcases Tables.transactionsApplyAll here with here | here
        · exact ih.2 row here
        · exact ih.1 pid row here

end

theorem currencyKept [Pydantic] {c : State} (run : Reach machine NativeInsert initial c) :
    (∀ x ∈ c.shared.tables.transactions, ∀ wallet ∈ c.shared.tables.wallets,
      wallet.id = x.senderWalletId ∨ wallet.id = x.receiverWalletId → wallet.currency = x.currency) ∧
      (∀ currency, ∀ wallet ∈ c.shared.tables.wallets, wallet.currency = currency →
        wallet.balance.units = c.shared.toppedUp wallet.id +
          (c.shared.tables.within currency).received wallet.id - (c.shared.tables.within currency).sent wallet.id) ∧
      ∀ commit ∈ c.shared.wal, ∀ userId request redisClient,
        c.shared.calls[commit.pid]? = some (.sendMoney userId request redisClient) →
        request.Native userId c.shared.tables := by
  have reachable : Reachable c := run.weaken (fun _ _ _ => trivial)
  have intact := reachableIntact reachable
  have rows := (nativeRows run).2
  have wallets : ∀ wallet ∈ c.shared.tables.wallets, wallet.currency = "USD" := by
    rw [intact.replayed]
    exact intact.legal.currencies
  refine ⟨?_,?_,?_⟩
  · intro x here wallet inside _
    rw [wallets wallet inside,rows x here]
  · rintro currency wallet here rfl
    have whole : c.shared.tables.within wallet.currency = c.shared.tables := by
      have all : c.shared.tables.transactions.filter (fun x => x.currency == wallet.currency) =
          c.shared.tables.transactions :=
        List.filter_eq_self.mpr (fun x hx => by rw [rows x hx,wallets wallet here]; exact beq_self_eq_true _)
      rw [Tables.within,all]
    obtain ⟨toppedUp,received,sent,_⟩ := intact.legal.posts wallet.id
    have balance := intact.legal.refines.balance wallet (intact.replayed ▸ here)
    rw [Book.balanceSplit,← toppedUp,← received,← sent,← intact.replayed] at balance
    rw [whole]
    exact balance
  · intro commit here userId request redisClient called wallet inside _
    obtain ⟨i,found⟩ := List.getElem?_of_mem here
    obtain ⟨x,recorded,named⟩ := (intact.legal.entryAt found).labelled called
    rw [← tablesAtSucc found] at recorded
    rw [wallets wallet inside,← named,rows x ((intact.evolved (i + 1)).transactions.subset recorded)]

def nativeInsert (c : State) : Happening → Bool
  | .step pid _ => (match c.running[pid]?, c.shared.calls[pid]? with
      | some (.call (.insertTransaction _) _), some (.sendMoney userId request _) =>
          c.shared.tables.wallets.all (fun wallet => !(wallet.userId == userId ||
            wallet.userId == request.receiverId) || wallet.currency == request.currency)
      | _, _ => true)
  | _ => true

theorem nativeInsertSure [Pydantic] (c : State) (e : Happening) (h : nativeInsert c e = true) :
    NativeInsert c e := by
  rintro pid choice new next rfl running userId request redisClient called wallet here party
  simp only [nativeInsert,running,called,List.all_eq_true] at h
  have native := h wallet here
  simp only [Bool.or_eq_true,Bool.not_eq_true',Bool.or_eq_false_iff,beq_eq_false_iff_ne,beq_iff_eq] at native
  rcases native with other | same
  · exact absurd party (not_or.mpr other)
  · exact same

open JsonMode in
theorem currencyKeptRent : ∃ x ∈ (stateAfter rentTwice).shared.tables.transactions,
    ∀ wallet ∈ (stateAfter rentTwice).shared.tables.wallets,
      wallet.id = x.senderWalletId ∨ wallet.id = x.receiverWalletId → wallet.currency = x.currency := by
  have run : Reach machine NativeInsert initial (stateAfter rentTwice) :=
    stateMeets rentTwice nativeInsertSure (by decide +kernel) (by decide +kernel)
  obtain ⟨x,here⟩ := List.exists_mem_of_ne_nil (stateAfter rentTwice).shared.tables.transactions
    (by decide +kernel)
  exact ⟨x,here,(currencyKept run).1 x here⟩

def euros : PaymentRequest := {rent with currency := "EUR", currencyPattern := by simp [isUpper]}

section
open JsonMode

def eurosOnce : Run initial := ⟨opening ++ serve (.sendMoney 102 euros false) 3 11 400,by decide +kernel⟩

theorem eurosFromDollars : ¬ ∀ c : State, Reachable c → ∀ x ∈ c.shared.tables.transactions,
    ∀ wallet ∈ c.shared.tables.wallets,
      wallet.id = x.senderWalletId ∨ wallet.id = x.receiverWalletId → wallet.currency = x.currency := by
  intro always
  have broken : ¬ ∀ x ∈ eurosOnce.last.shared.tables.transactions, ∀ wallet ∈ eurosOnce.last.shared.tables.wallets,
      wallet.id = x.senderWalletId ∨ wallet.id = x.receiverWalletId → wallet.currency = x.currency := by
    decide +kernel
  exact broken (always _ eurosOnce.reaches)

end

end PaymentSystem
