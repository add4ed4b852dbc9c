import PaymentSystem.System.Schedule

/-! Reconciliation. Whatever interleaves and fails, each wallet is what its committed
top-ups and payments make it, its version counts its changes, and the wallets
together hold what was topped up. -/
namespace PaymentSystem
open Bookkeeping (Posting Book)
open Interleaving (Program)

def topUpOf (calls : List Call) (id : UUID) (c : Commit) : Int :=
  match calls[c.pid]?, c.writes with
  | some (.topUp _ amount _), [.updateWallet moved _ _] => if moved = id then amount.cents else 0
  | _, _ => 0

def World.toppedUp (w : World) (id : UUID) : Int := (w.wal.map (topUpOf w.calls id)).sum

def Tables.received (t : Tables) (id : UUID) : Int :=
  ((t.transactions.filter (fun x => x.receiverWalletId == id)).map (fun x => x.amount.units)).sum

def Tables.sent (t : Tables) (id : UUID) : Int :=
  ((t.transactions.filter (fun x => x.senderWalletId == id)).map (fun x => x.amount.units)).sum

def Write.moves (id : UUID) : Write → Bool
  | .updateWallet moved _ _ => decide (moved = id)
  | _ => false

def World.balanceChanges (w : World) (id : UUID) : Nat := (w.wal.flatMap Commit.writes).countP (Write.moves id)

section
variable {calls : List Call} {wal : List Commit} {t : Tables} {pid : Nat} {writes : List Write}

theorem Entry.posts (entry : Entry calls t pid writes) (id : UUID) :
    topUpOf calls id ⟨pid,writes⟩ = ((posting calls ⟨pid,writes⟩).toList.map (Posting.deposited id)).sum ∧
      (t.applyAll writes).received id = t.received id +
        ((posting calls ⟨pid,writes⟩).toList.map (Posting.received id)).sum ∧
      (t.applyAll writes).sent id = t.sent id + ((posting calls ⟨pid,writes⟩).toList.map (Posting.sent id)).sum ∧
      writes.countP (Write.moves id) = (posting calls ⟨pid,writes⟩).toList.countP (Posting.touches id) := by
  cases entry with
  | register call =>
    simp [topUpOf,posting,call,Tables.received,Tables.sent,Tables.applyAll,Tables.apply,Write.moves]
  | topUp call =>
    simp [topUpOf,posting,call,Posting.deposited,Tables.received,Tables.sent,Tables.applyAll,Tables.apply,Write.moves,
      Posting.received,Posting.sent,Posting.touches]
  | @send userId request redisClient sender receiver debited credited row call senderHere senderOwner
      receiverHere receiverOwner different covered debit credit records =>
    have rows : (t.applyAll [.updateWallet sender.id debited (sender.version + 1),
        .updateWallet receiver.id credited (receiver.version + 1),.insertTransaction row]).transactions =
        t.transactions ++ [row] := rfl
    refine ⟨by simp [topUpOf,posting,call,Posting.deposited],?_,?_,?_⟩
    · simp only [Tables.received,rows,List.filter_append,List.map_append,List.sum_append,posting,call,
        Option.toList_some,List.map_singleton,List.sum_singleton,Posting.received,List.filter_cons,List.filter_nil,
        beq_iff_eq]
      by_cases receives : row.receiverWalletId = id <;> simp [receives]
    · simp only [Tables.sent,rows,List.filter_append,List.map_append,List.sum_append,posting,call,
        Option.toList_some,List.map_singleton,List.sum_singleton,Posting.sent,List.filter_cons,List.filter_nil,beq_iff_eq]
      by_cases sends : row.senderWalletId = id <;> simp [sends]
    · have once : ¬ (sender.id = id ∧ receiver.id = id) := fun both => different (both.1.trans both.2.symm)
      simp only [posting,call,records.sender,records.receiver,Option.toList_some,List.countP_cons,List.countP_nil,
        Write.moves,Posting.touches]
      by_cases sends : sender.id = id <;> by_cases receives : receiver.id = id <;> simp_all

theorem Legal.posts (h : Legal calls wal) (id : UUID) :
    (wal.map (topUpOf calls id)).sum = Book.deposits (book calls wal) id ∧
      (replay wal).received id = Book.receipts (book calls wal) id ∧
      (replay wal).sent id = Book.payments (book calls wal) id ∧
      (wal.flatMap Commit.writes).countP (Write.moves id) = Book.changes (book calls wal) id := by
  induction h with
  | nil => exact ⟨rfl,rfl,rfl,rfl⟩
  | commit before entry once ih =>
    obtain ⟨toppedUp,received,sent,changes⟩ := entry.posts id
    simp only [Book.deposits,Book.receipts,Book.payments,Book.changes] at ih ⊢
    rw [replaySnoc,bookSnoc,received,sent,ih.2.1,ih.2.2.1]
    simp only [List.flatMap_append,List.flatMap_singleton,List.countP_append,ih.2.2.2,changes,List.map_append,
      List.sum_append,List.map_singleton,List.sum_singleton,ih.1,toppedUp,and_self]

end

theorem checkNeverFires [Pydantic] {pid : Nat} {w : World} {op : Op} {choice : Choice} {s' : Stores}
    (due : Due pid w op) :
    attempt pid w.stores op choice ≠ some (.error (.integrityError .balanceNonNegative),s') := by
  intro attempted
  rcases attemptCases attempted with ⟨_,ran⟩ | ⟨_,failure⟩
  · cases op with
    | selectTransactionByKey | selectTransactionsOf | hashPassword => cases (checkedError ran).1
    | selectWalletForUpdate id =>
      obtain ⟨db',wrote,_⟩ := writesSome ran
      obtain ⟨_,_,same⟩ := Option.map_eq_some_iff.mp wrote
      cases same
    | updateWallet id expected balance version =>
      obtain ⟨db',updated,_⟩ := writesSome ran
      rcases Database.updateWalletCases updated with ⟨_,large | none | negative⟩ | ⟨_,ok,_⟩
      · cases large.1
      · cases none.1
      · obtain ⟨_,stored,fits,below⟩ := negative
        exact absurd (due.1 stored fits) (by omega)
      · cases ok
    | flushWallet id balance => exact due
    | insertUser email passwordHash fullName =>
      obtain ⟨db',inserted,_⟩ := writesSome ran
      rcases Database.insertUserCases inserted with ⟨_,e,same,other⟩ | ⟨ok,_⟩
      · exact other (Except.error.inj same).symm
      · cases ok
    | insertWallet userId =>
      obtain ⟨db',inserted,_⟩ := writesSome ran
      rcases Database.insertWalletCases inserted with ⟨_,e,same,negative⟩ | ⟨ok,_⟩
      · exact absurd (negative (Except.error.inj same).symm) (lt_irrefl (0 : Int))
      · cases ok
    | insertTransaction new =>
      obtain ⟨db',inserted,_⟩ := writesSome ran
      rcases Database.insertTransactionCases inserted with ⟨_,why⟩ | ⟨_,_,ok,_⟩
      · rcases why with ⟨h,_⟩ | ⟨h,_⟩ | ⟨h,_⟩ | h | ⟨h,_⟩ | ⟨h,_⟩ | ⟨h,_⟩ <;> cases h
      · cases ok
    | _ => cases ran
  · cases op <;> cases failure

theorem walletReconciles [Pydantic] {c : State} (reachable : Reachable c) :
    (∀ wallet ∈ c.shared.tables.wallets,
      wallet.balance.units = c.shared.toppedUp wallet.id + c.shared.tables.received wallet.id -
          c.shared.tables.sent wallet.id ∧
        wallet.version = 1 + c.shared.balanceChanges wallet.id ∧ 0 ≤ wallet.balance.units) ∧
      ∀ pid op next choice s', c.running[pid]? = some (.call op next) →
        attempt pid c.shared.stores op choice ≠ some (.error (.integrityError .balanceNonNegative),s') := by
  have intact := reachableIntact reachable
  constructor
  · intro wallet here
    have refined := intact.legal.refines
    obtain ⟨toppedUp,received,sent,changes⟩ := intact.legal.posts wallet.id
    rw [intact.replayed] at here ⊢
    have balance := refined.balance wallet here
    rw [Book.balanceSplit,← toppedUp,← received,← sent] at balance
    refine ⟨balance,?_,intact.legal.balanceNonneg here⟩
    rw [World.balanceChanges,changes]
    exact refined.version wallet here
  · intro pid op next choice s' here
    exact checkNeverFires (reachableDue reachable here).2.1

open JsonMode in
theorem walletReconcilesRent :
    (stateAfter (opening ++ serve (.sendMoney 102 rent true) 3 14 400)).shared.tables.wallets.map
        (fun wallet => (wallet.id,wallet.balance.units,wallet.version)) = [(103,7000,3),(203,3000,2)] ∧
      ∀ wallet ∈ (stateAfter (opening ++ serve (.sendMoney 102 rent true) 3 14 400)).shared.tables.wallets,
        0 ≤ wallet.balance.units :=
  ⟨by decide +kernel,fun wallet here =>
    ((walletReconciles (stateReachable (opening ++ serve (.sendMoney 102 rent true) 3 14 400) (by decide +kernel))).1
      wallet here).2.2⟩

theorem moneyConserved [Pydantic] {c : State} (reachable : Reachable c) :
    (c.shared.tables.wallets.map (fun wallet => wallet.balance.units)).sum =
      Book.inflow (book c.shared.calls c.shared.wal) := by
  have intact := reachableIntact reachable
  have refined := intact.legal.refines
  rw [← Book.balancesTotal intact.legal.keyed.walletIds refined.within,intact.replayed,List.map_map]
  congr 1
  exact List.map_congr_left (fun wallet here => refined.balance wallet here)

end PaymentSystem
