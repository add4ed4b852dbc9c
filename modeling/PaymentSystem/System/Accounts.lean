import PaymentSystem.System.Ledger

/-! The ledger as books. The purpose of the wallets is double-entry bookkeeping:
top-ups are deposits, payments are transfers. The committed rows refine the book of
the committed history, account by account and change by change. -/
namespace PaymentSystem
open Bookkeeping (Posting Book)

def posting (calls : List Call) (c : Commit) : Option (Posting UUID Int) :=
  match calls[c.pid]?, c.writes with
  | some (.topUp _ amount _), [.updateWallet id _ _] => some (.deposit id amount.cents)
  | some (.sendMoney _ _ _), [_,_,.insertTransaction row] =>
      some (.transfer row.senderWalletId row.receiverWalletId row.amount.units)
  | _, _ => none

def book (calls : List Call) (wal : List Commit) : Book UUID Int := wal.filterMap (posting calls)

theorem bookSnoc (calls : List Call) (wal : List Commit) (c : Commit) :
    book calls (wal ++ [c]) = book calls wal ++ (posting calls c).toList := by
  simp only [book,List.filterMap_append]
  cases h : posting calls c <;> simp [h]

structure Refines (t : Tables) (b : Book UUID Int) : Prop where
  balance : ∀ w ∈ t.wallets, w.balance.units = b.balance w.id
  version : ∀ w ∈ t.wallets, w.version = 1 + b.changes w.id
  within : ∀ p ∈ b, p.Within (t.wallets.map Wallet.id)
  covered : b.Covered

theorem withinMono {accounts accounts' : List UUID} {p : Posting UUID Int} (h : p.Within accounts)
    (more : ∀ a ∈ accounts, a ∈ accounts') : p.Within accounts' := by
  cases p with
  | deposit account amount => exact more _ h
  | transfer sender receiver amount => exact ⟨more _ h.1,more _ h.2⟩

theorem untouched {b : Book UUID Int} {a : UUID} {accounts : List UUID}
    (within : ∀ p ∈ b, p.Within accounts) (outside : a ∉ accounts) :
    b.balance a = 0 ∧ b.changes a = 0 := by
  have calm : ∀ p ∈ b, p.touches a = false := by
    intro p hp
    have inside := within p hp
    cases p with
    | deposit account amount =>
      have other : account ≠ a := fun same => outside (same ▸ inside)
      simp [Posting.touches,other]
    | transfer sender receiver amount =>
      have other : sender ≠ a := fun same => outside (same ▸ inside.1)
      have other' : receiver ≠ a := fun same => outside (same ▸ inside.2)
      simp [Posting.touches,other,other']
  constructor
  · apply List.sum_eq_zero
    intro x hx
    obtain ⟨p,hp,rfl⟩ := List.mem_map.mp hx
    exact Book.balanceUntouched (calm p hp)
  · simp only [Book.changes,List.countP_eq_zero]
    intro p hp touched
    rw [calm p hp] at touched
    contradiction

def Tables.Posts (t : Tables) (p : Posting UUID Int) (w' : Wallet) : Prop :=
  ∃ w ∈ t.wallets, w'.id = w.id ∧ w'.balance.units = w.balance.units + p.change w.id ∧
    w'.version = w.version + if p.touches w.id then 1 else 0

theorem Refines.posted {t t' : Tables} {b : Book UUID Int} {p : Posting UUID Int} (h : Refines t b)
    (inside : p.Within (t.wallets.map Wallet.id)) (ids : t'.wallets.map Wallet.id = t.wallets.map Wallet.id)
    (rows : ∀ w ∈ t'.wallets, t.Posts p w) (covered : Book.Covered (b ++ [p])) : Refines t' (b ++ [p]) where
  balance := by
    intro w here
    obtain ⟨old,hold,same,moved,_⟩ := rows w here
    rw [Book.balanceSnoc,same,moved,h.balance old hold]
  version := by
    intro w here
    obtain ⟨old,hold,same,_,counted⟩ := rows w here
    rw [Book.changesSnoc,same,counted,h.version old hold]
    split <;> push_cast <;> ring
  within := by
    intro q here
    rw [ids]
    rcases List.mem_append.mp here with here | here
    · exact h.within q here
    · exact List.mem_singleton.mp here ▸ inside
  covered := covered

theorem Refines.opened {t t' : Tables} {b : Book UUID Int} {wallet : Wallet} (h : Refines t b)
    (fresh : wallet.id ∉ t.wallets.map Wallet.id) (wallets : t'.wallets = t.wallets ++ [wallet])
    (balance : wallet.balance.units = 0) (version : wallet.version = 1) : Refines t' b := by
  obtain ⟨zero,zero'⟩ := untouched h.within fresh
  have member : ∀ w ∈ t'.wallets, w ∈ t.wallets ∨ w = wallet := fun w here =>
    (List.mem_append.mp (wallets ▸ here)).imp id List.mem_singleton.mp
  refine ⟨?_,?_,?_,h.covered⟩
  · intro w here
    rcases member w here with old | rfl
    · exact h.balance w old
    · rw [balance,zero]
  · intro w here
    rcases member w here with old | rfl
    · exact h.version w old
    · rw [version,zero']
      rfl
  · intro p here
    refine withinMono (h.within p here) (fun a inside => ?_)
    rw [wallets,List.map_append]
    exact List.mem_append_left _ inside

section
variable {t : Tables} {wallet sender receiver w : Wallet} {stored debited credited : Money} {amount : Int}

theorem depositPosts (keyed : t.Keyed) (here : wallet ∈ t.wallets)
    (credit : stored.units = wallet.balance.units + amount)
    (h : w ∈ (t.updateWallet wallet.id stored (wallet.version + 1)).wallets) :
    t.Posts (.deposit wallet.id amount) w := by
  rcases Tables.updateWalletMem h with ⟨hw,other⟩ | ⟨old,hold,this,rfl⟩
  · refine ⟨w,hw,rfl,?_,?_⟩
    · simp [Posting.change,Posting.deposited,Posting.received,Posting.sent,Ne.symm other]
    · simp [Posting.touches,Ne.symm other]
  · have same : old = wallet := Tables.uniqueBy keyed.walletIds hold here this
    subst same
    refine ⟨old,hold,rfl,?_,?_⟩
    · simp [Posting.change,Posting.deposited,Posting.received,Posting.sent,credit]
    · simp [Posting.touches]

theorem transferPosts (keyed : t.Keyed) (senderHere : sender ∈ t.wallets) (receiverHere : receiver ∈ t.wallets)
    (different : sender.id ≠ receiver.id) (debit : debited.units = sender.balance.units - amount)
    (credit : credited.units = receiver.balance.units + amount)
    (h : w ∈ ((t.updateWallet sender.id debited (sender.version + 1)).updateWallet receiver.id credited
      (receiver.version + 1)).wallets) : t.Posts (.transfer sender.id receiver.id amount) w := by
  rcases Tables.updateWalletMem h with ⟨hw,other⟩ | ⟨old,hold,this,rfl⟩
  · rcases Tables.updateWalletMem hw with ⟨hw,other'⟩ | ⟨old,hold,this,rfl⟩
    · refine ⟨w,hw,rfl,?_,?_⟩
      · simp [Posting.change,Posting.deposited,Posting.received,Posting.sent,Ne.symm other,Ne.symm other']
      · simp [Posting.touches,Ne.symm other,Ne.symm other']
    · have same : old = sender := Tables.uniqueBy keyed.walletIds hold senderHere this
      subst same
      refine ⟨old,hold,rfl,?_,?_⟩
      · simp [Posting.change,Posting.deposited,Posting.received,Posting.sent,debit,Ne.symm different]
        ring
      · simp [Posting.touches]
  · -- the second update is of another row than the first, so it finds the row as it was
    have hold' : old ∈ t.wallets := by
      rcases Tables.updateWalletMem hold with ⟨hold,_⟩ | ⟨_,_,that,rfl⟩
      · exact hold
      · exact absurd (that.symm.trans this) different
    have same : old = receiver := Tables.uniqueBy keyed.walletIds hold' receiverHere this
    subst same
    refine ⟨old,hold',rfl,?_,?_⟩
    · simp [Posting.change,Posting.deposited,Posting.received,Posting.sent,credit,different]
    · simp [Posting.touches]

end

theorem Entry.refines {calls t pid writes b} (entry : Entry calls t pid writes) (keyed : t.Keyed)
    (h : Refines t b) : Refines (t.applyAll writes) (b ++ (posting calls ⟨pid,writes⟩).toList) := by
  cases entry with
  | @register data user wallet call email fullName freshUser freshEmail freshWallet freshOwner owner balance
      currency version =>
    have none : posting calls ⟨pid,[.insertUser user,.insertWallet wallet]⟩ = none := by
      simp [posting,call]
    have newId : wallet.id ∉ t.wallets.map Wallet.id := fun inside => by
      rw [Tables.takenWallet.mpr inside] at freshWallet
      contradiction
    rw [none,Option.toList_none,List.append_nil]
    exact h.opened newId rfl balance version
  | @topUp userId amount redisClient wallet stored call here owner credit =>
    have posted : posting calls ⟨pid,[.updateWallet wallet.id stored (wallet.version + 1)]⟩ =
        some (.deposit wallet.id amount.cents) := by
      simp [posting,call]
    rw [posted,Option.toList_some]
    exact h.posted (List.mem_map_of_mem here) Tables.updateWalletIds (fun _ => depositPosts keyed here credit)
      (.deposit h.covered amount.positive.le)
  | @send userId request redisClient sender receiver debited credited row call senderHere senderOwner
      receiverHere receiverOwner different covered debit credit records freshId freshKey fits senderFits
      receiverFits =>
    have posted : posting calls ⟨pid,[.updateWallet sender.id debited (sender.version + 1),
        .updateWallet receiver.id credited (receiver.version + 1),.insertTransaction row]⟩ =
        some (.transfer sender.id receiver.id request.amount.cents) := by
      simp [posting,call,records.sender,records.receiver,records.amount]
    have enough : request.amount.cents ≤ b.balance sender.id := h.balance sender senderHere ▸ covered
    rw [posted,Option.toList_some]
    exact h.posted ⟨List.mem_map_of_mem senderHere,List.mem_map_of_mem receiverHere⟩
      (Tables.updateWalletIds.trans Tables.updateWalletIds)
      (fun _ => transferPosts keyed senderHere receiverHere different debit credit)
      (.transfer h.covered request.amount.positive.le enough)

theorem Legal.refines {calls wal} (h : Legal calls wal) : Refines (replay wal) (book calls wal) := by
  induction h with
  | nil => exact ⟨by simp [replay,Tables.empty],by simp [replay,Tables.empty],by simp [book],.nil⟩
  | commit before entry once ih =>
    rw [replaySnoc,bookSnoc]
    exact entry.refines before.keyed ih

theorem Legal.balanceNonneg {calls wal} (h : Legal calls wal) {w : Wallet} (here : w ∈ (replay wal).wallets) :
    0 ≤ w.balance.units := by
  rw [h.refines.balance w here]
  exact Book.balanceNonneg h.refines.covered w.id

end PaymentSystem
