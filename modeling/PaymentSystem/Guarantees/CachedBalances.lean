import PaymentSystem.System.Schedule

/-! The balance cache. Whatever fails, expires or comes late, what is cached or shown
as the balance of a wallet is a balance that wallet had after some commit. -/
namespace PaymentSystem
open Numerics (Decimal)
open Interleaving (Program Reach)

theorem balanceInjective {a b : UUID} (h : CacheKeys.balance a = CacheKeys.balance b) : a = b := by
  have same := JsonMode.readUUIDStr a
  rw [stringAppendCancel h,JsonMode.readUUIDStr] at same
  exact (Option.some.inj same).symm

def Had (w : World) (id : UUID) (balance : Decimal) : Prop :=
  ∃ n ≤ w.wal.length, ∃ row ∈ (tablesAt w.wal n).wallets, row.id = id ∧ balance = row.balance.toDecimal

structure Genuine (w : World) : Prop where
  entries : ∀ id text, w.redis (CacheKeys.balance id) = some text → ∃ balance, Had w id balance ∧ text = balance.str
  hits : ∀ rec ∈ w.log, ∀ id balance, rec.hits id balance → Had w id balance

section
variable {w w' : World} {pid : Nat} {id : UUID} {balance : Decimal}

theorem Had.grows (h : Had w id balance) (grows : Grows w w') : Had w' id balance := by
  obtain ⟨n,within,row,here,known⟩ := h
  exact ⟨n,within.trans grows.wal.length_le,row,by rw [grows.tablesAt within]; exact here,known⟩

theorem ReadAt.had {row : Wallet} {n : Nat} (h : ReadAt pid w row n) : Had w row.id row.balance.toDecimal :=
  ⟨n,h.within,row,h.row,rfl,rfl⟩

theorem Reported.had {userId : UUID} (h : Reported pid userId id balance w) (genuine : Genuine w) :
    Had w id balance := by
  obtain ⟨row,n,read,_,rfl,rfl | ⟨rec,here,_,hits⟩⟩ := h
  · exact read.had
  · exact genuine.hits rec here row.id balance hits

end

section
variable [Pydantic] {c c' : State} {e : Happening} {id : UUID}

theorem nextEntry {text : String} (reachable : Reachable c) (h : machine.next c e = some c')
    (here : c'.shared.redis (CacheKeys.balance id) = some text) :
    c.shared.redis (CacheKeys.balance id) = some text ∨ ∃ pid choice ttl row n, e = .step pid choice ∧
      c.awaits pid = some (.redisSetex (CacheKeys.balance id) ttl text) ∧ ReadAt pid c.shared row n ∧
      row.id = id ∧ text = row.balance.toDecimal.str := by
  cases e with
  | start job => cases Option.some.inj h; exact .inl here
  | step pid choice =>
    obtain ⟨op,next,r,s',running,attempted,rfl⟩ := nextStep h
    change s'.redis (CacheKeys.balance id) = some text at here
    cases attemptEffect attempted with
    | @cached key ttl value isSetex =>
      subst isSetex
      obtain ⟨_,due,_⟩ := reachableDue reachable running
      change Function.update c.shared.redis key (some value) _ = some text at here
      by_cases same : CacheKeys.balance id = key
      · rw [same,Function.update_self] at here
        cases here
        rcases due with ⟨x,_,rfl,_⟩ | ⟨row,n,read,named,rfl⟩
        · exact absurd same (balanceNotIdempotency id _)
        · have awaits := callAwaits running
          rw [← same] at awaits
          exact .inr ⟨pid,choice,ttl,row,n,rfl,awaits,read,(balanceInjective (same.trans named)).symm,rfl⟩
      · rw [Function.update_of_ne same] at here
        exact .inl here
    | @dropped keys isDelete =>
      change (if CacheKeys.balance id ∈ keys then none else c.shared.redis _) = some text at here
      split at here
      · contradiction
      · exact .inl here
    | _ => exact .inl here
  | stop pid =>
    obtain ⟨_,rfl⟩ := nextStop h
    exact .inl here
  | drift key =>
    cases Option.some.inj h
    change Function.update c.shared.redis key none _ = some text at here
    by_cases same : CacheKeys.balance id = key
    · rw [same,Function.update_self] at here
      contradiction
    · rw [Function.update_of_ne same] at here
      exact .inl here

omit [Pydantic] in
theorem Logged.hit {rec : Record} {balance : Decimal} (h : Logged c e rec) (hits : rec.hits id balance) :
    ∃ text, c.shared.redis (CacheKeys.balance id) = some text ∧ Decimal.ofString text = some balance := by
  cases h with
  | stop => exact hits.elim
  | @step pid choice op next r s' running attempted =>
    cases op with
    | redisGet key =>
      rcases attemptCases attempted with ⟨fault,ran⟩ | ⟨fault,rfl⟩
      · cases ran
        rw [fault] at hits
        cases found : c.shared.stores.redis key with
        | none =>
          rw [found] at hits
          exact hits.elim
        | some text =>
          rw [found] at hits
          exact ⟨text,hits.1 ▸ found,hits.2⟩
      · generalize choice.fault = raised at hits
        cases raised <;> exact hits.elim
    | _ => exact hits.elim

theorem genuineReachable (reachable : Reachable c) : Genuine c.shared := by
  induction reachable with
  | refl =>
    exact ⟨fun id text here => by simp [initial,World.empty] at here,
      fun rec here => by simp [initial,World.empty] at here⟩
  | @next c c' e before _ step ih =>
    have grows := nextGrows step
    constructor
    · intro id text here
      rcases nextEntry before step here with here | ⟨pid,choice,ttl,row,n,_,_,read,rfl,stored⟩
      · obtain ⟨balance,had,stored⟩ := ih.entries id text here
        exact ⟨balance,had.grows grows,stored⟩
      · exact ⟨_,read.had.grows grows,stored⟩
    · intro rec here id balance hits
      rcases nextRecord step here with here | logged
      · exact (ih.hits rec here id balance hits).grows grows
      · obtain ⟨text,entry,parsed⟩ := logged.hit hits
        obtain ⟨balance',had,rfl⟩ := ih.entries id text entry
        cases Option.some.inj ((Decimal.ofStringStr balance').symm.trans parsed)
        exact had.grows grows

end

theorem noPhantomBalance [Pydantic] {c : State} (reachable : Reachable c) :
    (∀ id text, c.shared.redis (CacheKeys.balance id) = some text →
      ∃ balance, Had c.shared id balance ∧ text = balance.str ∧ Decimal.ofString text = some balance) ∧
      (∀ pid wallet, c.outcome pid = some (.ok (.wallet wallet)) → Had c.shared wallet.id wallet.balance) ∧
      (∀ pid balance userId redisClient, c.outcome pid = some (.ok (.balance balance)) →
        c.shared.calls[pid]? = some (.getBalanceFast userId redisClient) →
        ∃ wallet ∈ c.shared.tables.wallets, wallet.userId = userId ∧ Had c.shared wallet.id balance) ∧
      ∀ pid available required, c.outcome pid = some (.error (.insufficientBalance available required)) →
        ∀ userId request redisClient, c.shared.calls[pid]? = some (.sendMoney userId request redisClient) →
          ∃ wallet ∈ c.shared.tables.wallets, wallet.userId = userId ∧ ∃ balance,
            Had c.shared wallet.id balance ∧ available = balance.str := by
  have intact := reachableIntact reachable
  have genuine := genuineReachable reachable
  refine ⟨?_,?_,?_,?_⟩
  · intro id text here
    obtain ⟨balance,had,rfl⟩ := genuine.entries id text here
    exact ⟨balance,had,rfl,Decimal.ofStringStr balance⟩
  · intro pid wallet done
    obtain ⟨call,concluded⟩ := (reachableReport reachable done).concluded
    have answered := concluded.answered
    cases call with
    | topUp => exact answered.2.had genuine
    | getWallet => exact Reported.had answered genuine
    | _ => exact absurd answered id
  · intro pid balance userId redisClient done called
    obtain ⟨call,concluded⟩ := (reachableReport reachable done).concluded
    cases Option.some.inj (called.symm.trans concluded.called)
    obtain ⟨id,reported⟩ := concluded.answered
    have had := reported.had genuine
    obtain ⟨row,n,read,owner,rfl,_⟩ := reported
    obtain ⟨last,here,becomes⟩ := (intact.evolved n).wallets row read.row
    exact ⟨last,here,becomes.userId.symm.trans owner,becomes.id ▸ had⟩
  · intro pid available required done userId request redisClient called
    obtain ⟨call,concluded⟩ := (reachableReport reachable done).concluded
    cases Option.some.inj (called.symm.trans concluded.called)
    have refused : Refused pid userId request c.shared (.insufficientBalance available required) :=
      concluded.answered
    cases refused with
    | failed kind => cases kind
    | later missed blame =>
      cases blame with
      | @insufficient row other n m read owner =>
        obtain ⟨last,here,becomes⟩ := (intact.evolved n).wallets row read.row
        exact ⟨last,here,becomes.userId.symm.trans owner,_,becomes.id ▸ read.had,rfl⟩
      | failed kind => cases kind
      | conflict kind => simp at kind
      | collision kind => simp at kind

section
open JsonMode

def balanceTwice : Run initial where
  events := opening ++ (serve (.getBalanceFast 102 true) 3 4 400 ++ serve (.getBalanceFast 102 true) 4 3 500)
  possible := by decide +kernel

theorem noPhantomBalanceTwice : ∃ wallet ∈ balanceTwice.last.shared.tables.wallets,
    wallet.userId = 102 ∧ Had balanceTwice.last.shared wallet.id ⟨10000,-2⟩ :=
  (noPhantomBalance balanceTwice.reaches).2.2.1 4 ⟨10000,-2⟩ 102 true (by decide +kernel) (by decide +kernel)

end

end PaymentSystem
