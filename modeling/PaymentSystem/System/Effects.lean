import PaymentSystem.Model.Statement
import PaymentSystem.Model.Tables

/-! What one awaited call can do to the two stores, whatever the world decides.
Every proof about steps splits on these eight effects and not on the calls. -/
namespace PaymentSystem
open Numerics (Decimal Numeric)
open Database (NewTransaction)

namespace Database
variable {db db' : Database} {pid other : Nat} {r : Resource}

def Free (db : Database) (pid : Nat) (r : Resource) : Prop := ∀ holder, db.locks r = some holder → holder = pid

theorem freeOfHeld (h : db.heldByOther pid r = false) : db.Free pid r := by
  intro holder here
  simpa [heldByOther,here] using h

theorem heldOfFree (h : db.Free pid r) : db.heldByOther pid r = false := by
  simp only [heldByOther]
  split
  · rfl
  · rename_i holder here
    simp [h holder here]

@[simp] theorem acquirePending {rs : List Resource} : (db.acquire pid rs).pending = db.pending := rfl
@[simp] theorem releaseTables : (db.release pid).tables = db.tables := rfl

theorem stagePending {write : Write} : (db.stage pid write).pending pid = db.pending pid ++ [write] :=
  Function.update_self ..

theorem stagePendingOther {write : Write} (h : other ≠ pid) :
    (db.stage pid write).pending other = db.pending other :=
  Function.update_of_ne h ..

theorem releasePending : (db.release pid).pending pid = [] := Function.update_self ..

theorem releasePendingOther (h : other ≠ pid) : (db.release pid).pending other = db.pending other :=
  Function.update_of_ne h ..

theorem releaseLocks : (db.release pid).locks r ≠ some pid := by
  simp only [release]
  split <;> simp_all

theorem releaseLocksOther (h : other ≠ pid) : (db.release pid).locks r = some other ↔ db.locks r = some other := by
  simp only [release]
  split
  · rename_i here
    simp [here,Ne.symm h]
  · rfl

theorem acquireLocks {rs : List Resource} :
    (db.acquire pid rs).locks r = some pid ↔ r ∈ rs ∨ db.locks r = some pid := by
  simp only [acquire]
  split <;> simp_all

theorem acquireLocksOther {rs : List Resource} (free : ∀ r ∈ rs, db.Free pid r) (h : other ≠ pid) :
    (db.acquire pid rs).locks r = some other ↔ db.locks r = some other := by
  simp only [acquire]
  split
  · rename_i inside
    constructor
    · intro same
      exact absurd (Option.some.inj same).symm h
    · intro here
      exact absurd (free r inside other here) h
  · rfl

theorem commitTables : (db.commit pid).tables = db.view pid := by
  simp only [commit]
  split
  · rename_i none
    simp [view,none,Tables.applyAll]
  · rfl

theorem commitWal : (db.commit pid).wal =
    if db.pending pid = [] then db.wal else db.wal ++ [⟨pid,db.pending pid⟩] := by
  simp only [commit]
  split <;> rfl

theorem commitPending : (db.commit pid).pending = (db.release pid).pending := by
  simp only [commit]
  split <;> rfl

theorem commitLocks : (db.commit pid).locks = (db.release pid).locks := by
  simp only [commit]
  split <;> rfl

theorem viewNothing (h : db.pending pid = []) : db.view pid = db.tables := by
  simp [view,h,Tables.applyAll]

/-! What each statement can return. -/

theorem selectForUpdateCases {id : UUID} {rows} (h : db.selectForUpdate pid id = some (rows,db')) :
    rows = (db.view pid).walletsById id ∧
      ((rows = [] ∧ db' = db) ∨ (db.Free pid (.wallet id) ∧ db' = db.acquire pid [.wallet id])) := by
  simp only [selectForUpdate] at h
  split at h
  · rename_i none
    cases h
    exact ⟨none.symm,.inl ⟨rfl,rfl⟩⟩
  · split at h
    · contradiction
    · rename_i held
      cases h
      exact ⟨rfl,.inr ⟨freeOfHeld (by simpa using held),rfl⟩⟩

theorem updateWalletCases {id : UUID} {expected version : Int} {balance : Decimal} {result}
    (h : db.updateWallet pid id expected balance version = some (result,db')) :
    (db' = db ∧ ((result = .error .dataError ∧ (Numeric.ofDecimal 18 2 balance = none ∨
        (integerFits expected && integerFits version) = false)) ∨
      (result = .ok 0 ∧ ((db.view pid).walletsById id).filter (fun w => w.version == expected) = []) ∨
      (result = .error (.integrityError .balanceNonNegative) ∧
        ∃ stored, Numeric.ofDecimal 18 2 balance = some stored ∧ stored.units < 0))) ∨
    ∃ stored, result = .ok 1 ∧ Numeric.ofDecimal 18 2 balance = some stored ∧ 0 ≤ stored.units ∧
      (integerFits expected && integerFits version) = true ∧
      ((db.view pid).walletsById id).filter (fun w => w.version == expected) ≠ [] ∧
      db.Free pid (.wallet id) ∧ db' = db.stage pid (.updateWallet id stored version) := by
  simp only [updateWallet] at h
  split at h
  · rename_i none
    cases h
    exact .inl ⟨rfl,.inl ⟨rfl,.inl none⟩⟩
  · rename_i stored some
    split at h
    · rename_i large
      cases h
      exact .inl ⟨rfl,.inl ⟨rfl,.inr (Bool.not_eq_true' _ ▸ large)⟩⟩
    · rename_i fitting
      simp only [Bool.not_eq_true',Bool.not_eq_false] at fitting
      split at h
      · rename_i unmatched
        cases h
        exact .inl ⟨rfl,.inr (.inl ⟨rfl,unmatched⟩)⟩
      · rename_i matched
        split at h
        · contradiction
        · rename_i held
          split at h
          · rename_i negative
            cases h
            exact .inl ⟨rfl,.inr (.inr ⟨rfl,stored,some,negative⟩)⟩
          · rename_i nonneg
            cases h
            exact .inr ⟨stored,rfl,some,by omega,fitting,matched,freeOfHeld (by simpa using held),rfl⟩

theorem flushWalletCases {id : UUID} {balance : Decimal} {result}
    (h : db.flushWallet pid id balance = some (result,db')) : db' = db ∨
      ∃ stored version, db.Free pid (.wallet id) ∧ db' = db.stage pid (.updateWallet id stored version) := by
  simp only [flushWallet] at h
  split at h
  · cases h
    exact .inl rfl
  · split at h
    · cases h
      exact .inl rfl
    · split at h
      · contradiction
      · rename_i held
        split at h <;> cases h
        · exact .inl rfl
        · exact .inr ⟨_,_,freeOfHeld (by simpa using held),rfl⟩

theorem uniqueCheckPassed {primaryKey unique : Resource} {onPrimaryKey onUnique : Constraint}
    (h : db.uniqueCheck pid primaryKey unique onPrimaryKey onUnique = some none) :
    db.Free pid primaryKey ∧ (db.view pid).taken primaryKey = false ∧
      db.Free pid unique ∧ (db.view pid).taken unique = false := by
  simp only [uniqueCheck] at h
  split at h
  · cases h
  · rename_i first
    split at h
    · contradiction
    · rename_i second
      split at h
      · cases h
      · rename_i third
        simp only [Bool.or_eq_true,not_or,Bool.not_eq_true] at first second third
        exact ⟨freeOfHeld first.1,first.2,freeOfHeld second,third⟩

theorem uniqueCheckViolated {primaryKey unique : Resource} {onPrimaryKey onUnique violated : Constraint}
    (h : db.uniqueCheck pid primaryKey unique onPrimaryKey onUnique = some (some violated)) :
    violated = onPrimaryKey ∨ (violated = onUnique ∧ (db.view pid).taken unique = true) := by
  simp only [uniqueCheck] at h
  split at h
  · cases h
    exact .inl rfl
  · split at h
    · contradiction
    · split at h
      · rename_i taken
        cases h
        exact .inr ⟨rfl,taken⟩
      · cases h

theorem insertUserCases {row : User} {result} (h : db.insertUser pid row = some (result,db')) :
    (db' = db ∧ ∃ e, result = .error e ∧ e ≠ .integrityError .balanceNonNegative) ∨
      (result = .ok row ∧ db' = db.stage pid (.insertUser row) ∧
        (∀ r ∈ (Write.insertUser row).resources, db.Free pid r ∧ (db.view pid).taken r = false)) := by
  simp only [insertUser] at h
  split at h
  · cases h
    exact .inl ⟨rfl,_,rfl,by simp⟩
  · split at h
    · contradiction
    · rename_i found
      cases h
      refine .inl ⟨rfl,_,rfl,?_⟩
      rcases uniqueCheckViolated found with rfl | ⟨rfl,_⟩ <;> simp
    · rename_i passed
      cases h
      obtain ⟨free,fresh,free',fresh'⟩ := uniqueCheckPassed passed
      refine .inr ⟨rfl,rfl,?_⟩
      simp only [Write.resources,List.mem_cons,List.not_mem_nil,or_false]
      rintro r (rfl | rfl)
      · exact ⟨free,fresh⟩
      · exact ⟨free',fresh'⟩

theorem insertWalletCases {row : Wallet} {result} (h : db.insertWallet pid row = some (result,db')) :
    (db' = db ∧ ∃ e, result = .error e ∧ (e = .integrityError .balanceNonNegative → row.balance.units < 0)) ∨
      (result = .ok row ∧ db' = db.stage pid (.insertWallet row) ∧
        (∀ r ∈ (Write.insertWallet row).resources, db.Free pid r ∧ (db.view pid).taken r = false)) := by
  simp only [insertWallet] at h
  split at h
  · rename_i negative
    cases h
    exact .inl ⟨rfl,_,rfl,fun _ => negative⟩
  · split at h
    · contradiction
    · rename_i found
      cases h
      refine .inl ⟨rfl,_,rfl,?_⟩
      rcases uniqueCheckViolated found with rfl | ⟨rfl,_⟩ <;> simp
    · rename_i passed
      split at h <;> cases h
      · exact .inl ⟨rfl,_,rfl,by simp⟩
      · obtain ⟨free,fresh,free',fresh'⟩ := uniqueCheckPassed passed
        refine .inr ⟨rfl,rfl,?_⟩
        simp only [Write.resources,List.mem_cons,List.not_mem_nil,or_false]
        rintro r (rfl | rfl)
        · exact ⟨free,fresh⟩
        · exact ⟨free',fresh'⟩

def NewTransaction.row (new : NewTransaction) (id : UUID) (amount : Money) (now : DateTime) : Transaction :=
  ⟨id,new.senderWalletId,new.receiverWalletId,amount,new.currency,new.status,new.idempotencyKey,
    new.description,now⟩

theorem insertTransactionCases {new : NewTransaction} {id : UUID} {now : DateTime} {result}
    (h : db.insertTransaction pid new id now = some (result,db')) :
    (db' = db ∧ ((result = .error .dataError ∧ (Numeric.ofDecimal 18 2 new.amount = none ∨
        (textFits new.idempotencyKey && new.description.all textFits) = false)) ∨
      (result = .error (.integrityError .amountPositive) ∧
        ∃ amount, Numeric.ofDecimal 18 2 new.amount = some amount ∧ amount.units ≤ 0) ∨
      (result = .error (.integrityError .differentWallets) ∧ new.senderWalletId = new.receiverWalletId) ∨
      result = .error (.integrityError .transactionsPrimaryKey) ∨
      (result = .error (.integrityError .transactionsIdempotencyKey) ∧
        (db.view pid).taken (.idempotencyKey new.idempotencyKey) = true) ∨
      (result = .error (.integrityError .senderForeignKey) ∧
        (db.view pid).taken (.wallet new.senderWalletId) = false) ∨
      (result = .error (.integrityError .receiverForeignKey) ∧
        (db.view pid).taken (.wallet new.receiverWalletId) = false))) ∨
    ∃ amount, Numeric.ofDecimal 18 2 new.amount = some amount ∧ result = .ok (new.row id amount now) ∧
      (textFits new.idempotencyKey && new.description.all textFits) = true ∧
      db' = db.stage pid (.insertTransaction (new.row id amount now)) ∧
      (∀ r ∈ (Write.insertTransaction (new.row id amount now)).resources,
        db.Free pid r ∧ (db.view pid).taken r = false) := by
  simp only [insertTransaction] at h
  split at h
  · rename_i none
    cases h
    exact .inl ⟨rfl,.inl ⟨rfl,.inl none⟩⟩
  · rename_i amount some
    split at h
    · rename_i unfit
      cases h
      exact .inl ⟨rfl,.inl ⟨rfl,.inr (Bool.not_eq_true' _ ▸ unfit)⟩⟩
    · rename_i fit
      simp only [Bool.not_eq_true',Bool.not_eq_false] at fit
      split at h
      · rename_i positive
        cases h
        exact .inl ⟨rfl,.inr (.inl ⟨rfl,amount,some,positive⟩)⟩
      · split at h
        · rename_i self
          cases h
          exact .inl ⟨rfl,.inr (.inr (.inl ⟨rfl,self⟩))⟩
        · split at h
          · contradiction
          · rename_i violated found
            cases h
            rcases uniqueCheckViolated found with rfl | ⟨rfl,taken⟩
            · exact .inl ⟨rfl,.inr (.inr (.inr (.inl rfl)))⟩
            · exact .inl ⟨rfl,.inr (.inr (.inr (.inr (.inl ⟨rfl,taken⟩))))⟩
          · rename_i passed
            split at h
            · rename_i missing
              cases h
              exact .inl ⟨rfl,.inr (.inr (.inr (.inr (.inr (.inl ⟨rfl,by simpa using missing⟩)))))⟩
            · split at h <;> cases h
              · rename_i missing
                exact .inl ⟨rfl,.inr (.inr (.inr (.inr (.inr (.inr ⟨rfl,by simpa using missing⟩)))))⟩
              · obtain ⟨free,fresh,free',fresh'⟩ := uniqueCheckPassed passed
                refine .inr ⟨amount,some,rfl,fit,rfl,?_⟩
                simp only [Write.resources,List.mem_cons,List.not_mem_nil,or_false]
                rintro r (rfl | rfl)
                · exact ⟨free,fresh⟩
                · exact ⟨free',fresh'⟩

end Database

inductive Effect (pid : Nat) (s : Stores) (op : Op) : Stores → Prop where
  | same : Effect pid s op s
  | locked {id} (isSelect : op = .selectWalletForUpdate id) (free : s.db.Free pid (.wallet id)) :
      Effect pid s op {s with db := s.db.acquire pid [.wallet id]}
  | staged {write} (sql : op.isRedis = false) (free : ∀ r ∈ write.resources, s.db.Free pid r)
      (made : ∀ row, write = .insertTransaction row → ∃ new id amount now, op = .insertTransaction new ∧
        row = NewTransaction.row new id amount now) :
      Effect pid s op {s with db := s.db.stage pid write}
  | committed (isCommit : op = .commit) : Effect pid s op {s with db := s.db.commit pid}
  | released (ends : op = .rollback ∨ op = .close) : Effect pid s op {s with db := s.db.release pid}
  | cached {key ttl value} (isSetex : op = .redisSetex key ttl value) :
      Effect pid s op {s with redis := Function.update s.redis key (some value)}
  | dropped {keys} (isDelete : op = .redisDelete keys) :
      Effect pid s op {s with redis := fun key => if key ∈ keys then none else s.redis key}

variable {pid : Nat} {s s' : Stores} {op : Op} {choice : Choice} {r : Res op}

theorem writesSome {α : Type} {out : Option (Except Exn α × Database)} {result : Except Exn α}
    (h : writes s out = some (result,s')) : ∃ db', out = some (result,db') ∧ s' = {s with db := db'} := by
  obtain ⟨⟨result',db'⟩,ran,same⟩ := Option.map_eq_some_iff.mp h
  cases same
  exact ⟨db',ran,rfl⟩

theorem performEffect (h : perform pid s choice op = some (r,s')) : Effect pid s op s' := by
  cases op with
  | selectWalletForUpdate id =>
    obtain ⟨db',ran,rfl⟩ := writesSome h
    obtain ⟨⟨rows,db''⟩,selected,same⟩ := Option.map_eq_some_iff.mp ran
    cases same
    rcases (Database.selectForUpdateCases selected).2 with ⟨_,rfl⟩ | ⟨free,rfl⟩
    · exact .same
    · exact .locked rfl free
  | selectTransactionByKey | selectTransactionsOf | hashPassword =>
    obtain ⟨rfl,_⟩ := checkedCases h
    exact .same
  | updateWallet id expected balance version =>
    obtain ⟨db',ran,rfl⟩ := writesSome h
    rcases Database.updateWalletCases ran with ⟨rfl,_⟩ | ⟨stored,_,_,_,_,_,free,rfl⟩
    · exact .same
    · exact .staged rfl (by simpa [Write.resources] using free) (by simp)
  | flushWallet id balance =>
    obtain ⟨db',ran,rfl⟩ := writesSome h
    rcases Database.flushWalletCases ran with rfl | ⟨stored,version,free,rfl⟩
    · exact .same
    · exact .staged rfl (by simpa [Write.resources] using free) (by simp)
  | insertUser email passwordHash fullName =>
    obtain ⟨db',ran,rfl⟩ := writesSome h
    rcases Database.insertUserCases ran with ⟨rfl,_⟩ | ⟨_,rfl,fresh⟩
    · exact .same
    · exact .staged rfl (fun r hr => (fresh r hr).1) (by simp)
  | insertWallet userId =>
    obtain ⟨db',ran,rfl⟩ := writesSome h
    rcases Database.insertWalletCases ran with ⟨rfl,_⟩ | ⟨_,rfl,fresh⟩
    · exact .same
    · exact .staged rfl (fun r hr => (fresh r hr).1) (by simp)
  | insertTransaction new =>
    obtain ⟨db',ran,rfl⟩ := writesSome h
    rcases Database.insertTransactionCases ran with ⟨rfl,_⟩ | ⟨amount,_,_,_,rfl,fresh⟩
    · exact .same
    · exact .staged rfl (fun r hr => (fresh r hr).1) (fun row same => ⟨_,_,_,_,rfl,(Write.insertTransaction.inj same).symm⟩)
  | commit => cases h; exact .committed rfl
  | rollback => cases h; exact .released (.inl rfl)
  | close => cases h; exact .released (.inr rfl)
  | redisSetex key ttl value => cases h; exact .cached rfl
  | redisDelete keys => cases h; exact .dropped rfl
  | _ => cases h; exact .same

theorem attemptCases (h : attempt pid s op choice = some (r,s')) :
    (choice.fault = .none ∧ perform pid s choice op = some (r,s')) ∨
      (choice.fault ≠ .none ∧ r = .error op.failure) := by
  simp only [attempt] at h
  split at h
  · rename_i fault
    exact .inl ⟨fault,h⟩
  · rename_i fault
    cases h
    exact .inr ⟨by rw [fault]; decide,rfl⟩
  · rename_i fault
    obtain ⟨out,_,same⟩ := Option.map_eq_some_iff.mp h
    cases same
    exact .inr ⟨by rw [fault]; decide,rfl⟩

theorem attemptEffect (h : attempt pid s op choice = some (r,s')) : Effect pid s op s' := by
  simp only [attempt] at h
  split at h
  · exact performEffect h
  · cases h
    cases op with
    | close => exact .released (.inr rfl)
    | _ => exact .same
  · obtain ⟨⟨r',s''⟩,ran,same⟩ := Option.map_eq_some_iff.mp h
    cases same
    exact performEffect ran

theorem closeReleases {r : Res .close} (h : attempt pid s .close choice = some (r,s')) :
    s'.db = s.db.release pid := by
  simp only [attempt] at h
  split at h <;> cases h <;> rfl

end PaymentSystem
