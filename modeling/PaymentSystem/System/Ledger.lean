import PaymentSystem.System.Machine
import PaymentSystem.Model.Tables
import PaymentSystem.Base.Bookkeeping

/-! The committed history. Each committed transaction is the whole effect of one
call, exact against the rows it was committed over, and no call commits twice;
what follows for the tables is proved of such histories alone. -/
namespace PaymentSystem
open Bookkeeping (Posting Book)

def replay (wal : List Commit) : Tables := wal.foldl (fun t c => t.applyAll c.writes) Tables.empty

def tablesAt (wal : List Commit) (n : Nat) : Tables := replay (wal.take n)

@[simp] theorem replaySnoc (wal : List Commit) (c : Commit) :
    replay (wal ++ [c]) = (replay wal).applyAll c.writes := by
  simp only [replay,List.foldl_append,List.foldl_cons,List.foldl_nil]

theorem tablesAtLength (wal : List Commit) : tablesAt wal wal.length = replay wal := by
  rw [tablesAt,List.take_length]

theorem tablesAtAppend {wal more : List Commit} {n : Nat} (h : n ≤ wal.length) :
    tablesAt (wal ++ more) n = tablesAt wal n := by
  rw [tablesAt,List.take_append_of_le_length h,tablesAt]

theorem prefixGet {α : Type} {xs ys : List α} {i : Nat} {x : α} (h : xs <+: ys) (here : xs[i]? = some x) :
    ys[i]? = some x := by
  obtain ⟨rest,rfl⟩ := h
  rw [List.getElem?_append_left (List.getElem?_eq_some_iff.mp here).1,here]

theorem prefixOld {α : Type} {xs ys : List α} {i : Nat} {x : α} (h : xs <+: ys) (inside : i < xs.length)
    (here : ys[i]? = some x) : xs[i]? = some x := by
  obtain ⟨rest,rfl⟩ := h
  rw [← List.getElem?_append_left inside,here]

structure Transaction.Records (x : Transaction) (sender receiver : Wallet) (request : PaymentRequest) :
    Prop where
  sender : x.senderWalletId = sender.id
  receiver : x.receiverWalletId = receiver.id
  amount : x.amount.units = request.amount.cents
  currency : x.currency = request.currency
  status : x.status = .completed
  key : x.idempotencyKey = request.idempotencyKey
  description : x.description = request.description

inductive Entry (calls : List Call) (t : Tables) (pid : Nat) : List Write → Prop where
  | register {data} {user : User} {wallet : Wallet}
      (call : calls[pid]? = some (.register data))
      (email : user.email = data.email) (fullName : user.fullName = data.fullName)
      (freshUser : t.taken (.user user.id) = false) (freshEmail : t.taken (.email user.email) = false)
      (freshWallet : t.taken (.wallet wallet.id) = false)
      (freshOwner : t.taken (.walletOwner wallet.userId) = false)
      (owner : wallet.userId = user.id) (balance : wallet.balance.units = 0)
      (currency : wallet.currency = "USD") (version : wallet.version = 1) :
      Entry calls t pid [.insertUser user,.insertWallet wallet]
  | topUp {userId amount redisClient} {wallet : Wallet} {stored : Money}
      (call : calls[pid]? = some (.topUp userId amount redisClient))
      (here : wallet ∈ t.wallets) (owner : wallet.userId = userId)
      (credit : stored.units = wallet.balance.units + amount.cents) :
      Entry calls t pid [.updateWallet wallet.id stored (wallet.version + 1)]
  | send {userId request redisClient} {sender receiver : Wallet} {debited credited : Money}
      {row : Transaction}
      (call : calls[pid]? = some (.sendMoney userId request redisClient))
      (senderHere : sender ∈ t.wallets) (senderOwner : sender.userId = userId)
      (receiverHere : receiver ∈ t.wallets) (receiverOwner : receiver.userId = request.receiverId)
      (different : sender.id ≠ receiver.id)
      (covered : request.amount.cents ≤ sender.balance.units)
      (debit : debited.units = sender.balance.units - request.amount.cents)
      (credit : credited.units = receiver.balance.units + request.amount.cents)
      (records : row.Records sender receiver request)
      (freshId : t.taken (.transaction row.id) = false)
      (freshKey : t.taken (.idempotencyKey row.idempotencyKey) = false)
      (fits : (Database.textFits row.idempotencyKey && row.description.all Database.textFits) = true)
      (senderFits : (Database.integerFits sender.version && Database.integerFits (sender.version + 1)) = true)
      (receiverFits : (Database.integerFits receiver.version &&
        Database.integerFits (receiver.version + 1)) = true) :
      Entry calls t pid [.updateWallet sender.id debited (sender.version + 1),
        .updateWallet receiver.id credited (receiver.version + 1),.insertTransaction row]

theorem Entry.nonempty {calls t pid writes} (h : Entry calls t pid writes) : writes ≠ [] := by
  cases h <;> simp

theorem Entry.later {calls calls' t pid writes} (h : Entry calls t pid writes) (more : calls <+: calls') :
    Entry calls' t pid writes := by
  have keep : ∀ {call}, calls[pid]? = some call → calls'[pid]? = some call := prefixGet more
  cases h with
  | register call email fullName freshUser freshEmail freshWallet freshOwner owner balance currency version =>
    exact .register (keep call) email fullName freshUser freshEmail freshWallet freshOwner owner balance currency
      version
  | topUp call here owner credit => exact .topUp (keep call) here owner credit
  | send call senderHere senderOwner receiverHere receiverOwner different covered debit credit records
      freshId freshKey fits senderFits receiverFits =>
    exact .send (keep call) senderHere senderOwner receiverHere receiverOwner different covered debit credit
      records freshId freshKey fits senderFits receiverFits

inductive Legal (calls : List Call) : List Commit → Prop where
  | nil : Legal calls []
  | commit {wal pid writes} (before : Legal calls wal) (entry : Entry calls (replay wal) pid writes)
      (once : ∀ c ∈ wal, c.pid ≠ pid) : Legal calls (wal ++ [⟨pid,writes⟩])

theorem Legal.later {calls calls' wal} (h : Legal calls wal) (more : calls <+: calls') :
    Legal calls' wal := by
  induction h with
  | nil => exact .nil
  | commit before entry once ih => exact .commit ih (entry.later more) once

theorem Legal.before {calls wal more} (h : Legal calls (wal ++ more)) : Legal calls wal := by
  generalize whole : wal ++ more = all at h
  induction h generalizing more with
  | nil => rw [(List.append_eq_nil_iff.mp whole).1]; exact .nil
  | @commit earlier pid writes before entry once ih =>
    rcases List.eq_nil_or_concat more with rfl | ⟨most,last,rfl⟩
    · rw [List.append_nil] at whole
      exact whole ▸ .commit before entry once
    · rw [List.concat_eq_append,← List.append_assoc] at whole
      exact ih (List.append_inj' whole rfl).1

theorem Legal.last {calls wal pid writes} (h : Legal calls (wal ++ [⟨pid,writes⟩])) :
    Entry calls (replay wal) pid writes ∧ ∀ c ∈ wal, c.pid ≠ pid := by
  generalize whole : wal ++ [⟨pid,writes⟩] = all at h
  cases h with
  | nil => simp at whole
  | commit _ entry once =>
    obtain ⟨rfl,last⟩ := List.append_inj' whole rfl
    cases last
    exact ⟨entry,once⟩

theorem Legal.upTo {calls wal} (h : Legal calls wal) (n : Nat) : Legal calls (wal.take n) :=
  @Legal.before _ _ (wal.drop n) ((List.take_append_drop n wal).symm ▸ h)

theorem tablesAtSucc {wal : List Commit} {i : Nat} {c : Commit} (here : wal[i]? = some c) :
    tablesAt wal (i + 1) = (tablesAt wal i).applyAll c.writes := by
  rw [tablesAt,List.take_add_one,here,Option.toList_some,replaySnoc,tablesAt]

theorem Legal.entryAt {calls wal i c} (h : Legal calls wal) (here : wal[i]? = some c) :
    Entry calls (tablesAt wal i) c.pid c.writes := by
  have upTo := h.upTo (i + 1)
  rw [List.take_add_one,here,Option.toList_some] at upTo
  exact upTo.last.1

theorem Legal.invariant {calls wal} {P : Tables → Prop} (h : Legal calls wal) (empty : P Tables.empty)
    (step : ∀ t pid writes, P t → Entry calls t pid writes → P (t.applyAll writes)) : P (replay wal) := by
  induction h with
  | nil => exact empty
  | commit before entry once ih =>
    rw [replaySnoc]
    exact step _ _ _ ih entry

theorem Legal.once {calls wal} (h : Legal calls wal) : (wal.map Commit.pid).Nodup := by
  induction h with
  | nil => exact List.nodup_nil
  | @commit wal pid writes before entry once ih =>
    rw [List.map_append,List.map_singleton,List.nodup_append]
    refine ⟨ih,List.nodup_singleton _,?_⟩
    intro a ha b hb same
    obtain ⟨c,hc,rfl⟩ := List.mem_map.mp ha
    exact once c hc (same.trans (List.mem_singleton.mp hb))

theorem Legal.entry {calls wal c} (h : Legal calls wal) (here : c ∈ wal) :
    ∃ earlier rest, wal = earlier ++ c :: rest ∧ Entry calls (replay earlier) c.pid c.writes := by
  induction h with
  | nil => simp at here
  | @commit wal pid writes before entry once ih =>
    rcases List.mem_append.mp here with here | here
    · obtain ⟨earlier,rest,rfl,entry'⟩ := ih here
      exact ⟨earlier,rest ++ [⟨pid,writes⟩],by simp,entry'⟩
    · cases List.mem_singleton.mp here
      exact ⟨wal,[],rfl,entry⟩

theorem Entry.called {calls t pid writes} (h : Entry calls t pid writes) :
    ∃ call, calls[pid]? = some call := by
  cases h with
  | register call => exact ⟨_,call⟩
  | topUp call => exact ⟨_,call⟩
  | send call => exact ⟨_,call⟩

theorem Legal.started {calls wal} (h : Legal calls wal) : ∀ c ∈ wal, c.pid < calls.length := by
  intro c here
  obtain ⟨_,_,_,entry⟩ := h.entry here
  obtain ⟨call,found⟩ := entry.called
  exact (List.getElem?_eq_some_iff.mp found).1

/-! Each key names one row. -/

theorem keyedEmpty : Tables.empty.Keyed := by
  refine ⟨List.nodup_nil,List.nodup_nil,List.nodup_nil,List.nodup_nil,?_,?_⟩ <;>
    intro x hx <;> simp [Tables.empty] at hx

theorem nodupSnoc {α β : Type} {f : α → β} {rows : List α} {a : α} (nodup : (rows.map f).Nodup)
    (fresh : ∀ b ∈ rows, f b ≠ f a) : ((rows ++ [a]).map f).Nodup := by
  rw [List.map_append,List.map_singleton,List.nodup_append]
  refine ⟨nodup,List.nodup_singleton _,?_⟩
  intro x hx y hy same
  obtain ⟨b,hb,rfl⟩ := List.mem_map.mp hx
  exact fresh b hb (same.trans (List.mem_singleton.mp hy))

theorem Entry.keyed {calls t pid writes} (h : Entry calls t pid writes) (keyed : t.Keyed) :
    (t.applyAll writes).Keyed := by
  cases h with
  | @register data user wallet call email fullName freshUser freshEmail freshWallet freshOwner owner balance
      currency version =>
    have newId : wallet.id ∉ t.wallets.map Wallet.id := fun h => by
      rw [Tables.takenWallet.mpr h] at freshWallet
      contradiction
    have newOwner : wallet.userId ∉ t.wallets.map Wallet.userId := fun h => by
      rw [Tables.takenOwner.mpr h] at freshOwner
      contradiction
    have keep : ∀ {id}, id ∈ t.wallets.map Wallet.id → id ∈ (t.wallets ++ [wallet]).map Wallet.id := by
      intro id h
      rw [List.map_append]
      exact List.mem_append_left _ h
    exact {
      walletIds := nodupSnoc keyed.walletIds (fun w hw same => newId (List.mem_map.mpr ⟨w,hw,same⟩))
      owners := nodupSnoc keyed.owners (fun w hw same => newOwner (List.mem_map.mpr ⟨w,hw,same⟩))
      transactionIds := keyed.transactionIds
      keys := keyed.keys
      parties := fun x hx => ⟨keep (keyed.parties x hx).1,keep (keyed.parties x hx).2⟩
      keysFit := keyed.keysFit }
  | topUp call here owner credit => exact keyed.update _ _ _
  | @send userId request redisClient sender receiver debited credited row call senderHere senderOwner
      receiverHere receiverOwner different covered debit credit records freshId freshKey fits senderFits
      receiverFits =>
    have moved := (keyed.update sender.id debited (sender.version + 1)).update receiver.id credited
      (receiver.version + 1)
    have ids : ((t.updateWallet sender.id debited (sender.version + 1)).updateWallet receiver.id credited
        (receiver.version + 1)).wallets.map Wallet.id = t.wallets.map Wallet.id :=
      Tables.updateWalletIds.trans Tables.updateWalletIds
    have newId : ∀ x ∈ t.transactions, x.id ≠ row.id := fun x hx same => by
      rw [Tables.takenTransaction.mpr ⟨x,hx,same⟩] at freshId
      contradiction
    have newKey : ∀ x ∈ t.transactions, x.idempotencyKey ≠ row.idempotencyKey := fun x hx same => by
      rw [Tables.takenKey.mpr ⟨x,hx,same⟩] at freshKey
      contradiction
    refine {
      walletIds := moved.walletIds
      owners := moved.owners
      transactionIds := nodupSnoc keyed.transactionIds newId
      keys := nodupSnoc keyed.keys newKey
      parties := ?_
      keysFit := ?_ }
    · intro x hx
      rcases List.mem_append.mp hx with hx | hx
      · exact moved.parties x hx
      · cases List.mem_singleton.mp hx
        rw [records.sender,records.receiver]
        have same : (t.applyAll [.updateWallet sender.id debited (sender.version + 1),
            .updateWallet receiver.id credited (receiver.version + 1),
            .insertTransaction row]).wallets.map Wallet.id = t.wallets.map Wallet.id := ids
        rw [same]
        exact ⟨List.mem_map_of_mem senderHere,List.mem_map_of_mem receiverHere⟩
    · intro x hx
      rcases List.mem_append.mp hx with hx | hx
      · exact keyed.keysFit x hx
      · cases List.mem_singleton.mp hx
        exact (Bool.and_eq_true_iff.mp fits).1

theorem Legal.keyed {calls wal} (h : Legal calls wal) : (replay wal).Keyed :=
  h.invariant keyedEmpty (fun _ _ _ keyed entry => entry.keyed keyed)

/-! Users and their wallets. -/

structure Tables.Paired (t : Tables) : Prop where
  owners : t.wallets.map Wallet.userId = t.users.map User.id
  userIds : (t.users.map User.id).Nodup
  emails : (t.users.map User.email).Nodup
  apart : ∀ x ∈ t.transactions, x.senderWalletId ≠ x.receiverWalletId

theorem pairedEmpty : Tables.empty.Paired :=
  ⟨rfl,List.nodup_nil,List.nodup_nil,by simp [Tables.empty]⟩

theorem Entry.paired {calls t pid writes} (h : Entry calls t pid writes) (paired : t.Paired) :
    (t.applyAll writes).Paired := by
  cases h with
  | @register data user wallet call email fullName freshUser freshEmail freshWallet freshOwner owner balance
      currency version =>
    refine ⟨?_,nodupSnoc paired.userIds ?_,nodupSnoc paired.emails ?_,paired.apart⟩
    · change (t.wallets ++ [wallet]).map Wallet.userId = (t.users ++ [user]).map User.id
      rw [List.map_append,List.map_append,paired.owners,List.map_singleton,List.map_singleton,owner]
    · intro u hu same
      rw [Tables.takenUser.mpr ⟨u,hu,same⟩] at freshUser
      contradiction
    · intro u hu same
      rw [Tables.takenEmail.mpr ⟨u,hu,same⟩] at freshEmail
      contradiction
  | topUp call here owner credit =>
    exact ⟨Tables.updateWalletOwners.trans paired.owners,paired.userIds,paired.emails,paired.apart⟩
  | @send userId request redisClient sender receiver debited credited row call senderHere senderOwner
      receiverHere receiverOwner different covered debit credit records =>
    refine ⟨(Tables.updateWalletOwners.trans Tables.updateWalletOwners).trans paired.owners,paired.userIds,
      paired.emails,?_⟩
    intro x hx
    rcases List.mem_append.mp hx with hx | hx
    · exact paired.apart x hx
    · rw [List.mem_singleton.mp hx,records.sender,records.receiver]
      exact different

theorem Legal.paired {calls wal} (h : Legal calls wal) : (replay wal).Paired :=
  h.invariant pairedEmpty (fun _ _ _ paired entry => entry.paired paired)

/-! Rows only evolve. -/

theorem updateEvolves {t : Tables} (keyed : t.Keyed) {wallet : Wallet} (here : wallet ∈ t.wallets)
    (stored : Money) : t.Evolves (t.updateWallet wallet.id stored (wallet.version + 1)) := by
  refine ⟨?_,List.prefix_refl _,List.prefix_refl _⟩
  intro w hw
  by_cases this : w.id = wallet.id
  · have same : w = wallet := Tables.uniqueBy keyed.walletIds hw here this
    refine ⟨_,Tables.updateWalletSelf hw this,.inr ⟨rfl,rfl,rfl,rfl,?_⟩⟩
    simp only [same]
    omega
  · exact ⟨w,Tables.updateWalletOther hw this,.inl rfl⟩

theorem Entry.evolves {calls t pid writes} (h : Entry calls t pid writes) (keyed : t.Keyed) :
    t.Evolves (t.applyAll writes) := by
  cases h with
  | @register data user wallet =>
    exact ⟨fun w hw => ⟨w,List.mem_append_left _ hw,.inl rfl⟩,List.prefix_append ..,List.prefix_refl _⟩
  | topUp call here owner credit => exact updateEvolves keyed here _
  | @send userId request redisClient sender receiver debited credited row call senderHere senderOwner
      receiverHere receiverOwner different =>
    have first : t.Evolves (t.updateWallet sender.id debited (sender.version + 1)) :=
      updateEvolves keyed senderHere debited
    have second := updateEvolves (keyed.update sender.id debited (sender.version + 1))
      (Tables.updateWalletOther receiverHere (Ne.symm different)) credited
    refine (first.trans second).trans ⟨fun w hw => ⟨w,hw,.inl rfl⟩,List.prefix_refl _,List.prefix_append ..⟩

theorem Legal.evolves {calls wal more} (h : Legal calls (wal ++ more)) :
    (replay wal).Evolves (replay (wal ++ more)) := by
  induction more using List.reverseRecOn with
  | nil => rw [List.append_nil]; exact .refl _
  | append_singleton rest c ih =>
    rw [← List.append_assoc] at h ⊢
    have before := h.before
    rw [replaySnoc]
    exact (ih before).trans (h.last.1.evolves before.keyed)

theorem Legal.evolvesAt {calls wal} (h : Legal calls wal) (n : Nat) :
    (tablesAt wal n).Evolves (replay wal) := by
  have split := List.take_append_drop n wal
  have evolved := @Legal.evolves _ (wal.take n) (wal.drop n) (split.symm ▸ h)
  rwa [split] at evolved

theorem Legal.evolvesBetween {calls wal} (h : Legal calls wal) {n m : Nat} (order : n ≤ m) :
    (tablesAt wal n).Evolves (tablesAt wal m) := by
  have evolved := (h.upTo m).evolvesAt n
  rwa [tablesAt,List.take_take,min_eq_left order] at evolved

theorem Legal.origin {calls wal x} (h : Legal calls wal) (here : x ∈ (replay wal).transactions) :
    ∃ c ∈ wal, ∃ userId request redisClient, calls[c.pid]? = some (.sendMoney userId request redisClient) ∧
      ∃ sender ∈ (replay wal).wallets, ∃ receiver ∈ (replay wal).wallets, sender.userId = userId ∧
        receiver.userId = request.receiverId ∧ x.Records sender receiver request := by
  induction h with
  | nil => contradiction
  | @commit wal pid writes before entry once ih =>
    have evolves := entry.evolves before.keyed
    rw [replaySnoc] at here ⊢
    by_cases old : x ∈ (replay wal).transactions
    · obtain ⟨c,hc,userId,request,redisClient,call,sender,hs,receiver,hr,owner,owner',records⟩ := ih old
      obtain ⟨sender',hs',becomes⟩ := evolves.wallets sender hs
      obtain ⟨receiver',hr',becomes'⟩ := evolves.wallets receiver hr
      exact ⟨c,List.mem_append_left _ hc,userId,request,redisClient,call,sender',hs',receiver',hr',
        becomes.userId ▸ owner,becomes'.userId ▸ owner',
        {records with sender := records.sender.trans becomes.id, receiver := records.receiver.trans becomes'.id}⟩
    · cases entry with
      | register => exact absurd here old
      | topUp => exact absurd here old
      | @send userId request redisClient sender receiver debited credited row call senderHere senderOwner
          receiverHere receiverOwner different covered debit credit records =>
        rcases List.mem_append.mp here with here | here
        · exact absurd here old
        · cases List.mem_singleton.mp here
          obtain ⟨sender',hs',becomes⟩ := evolves.wallets sender senderHere
          obtain ⟨receiver',hr',becomes'⟩ := evolves.wallets receiver receiverHere
          exact ⟨_,List.mem_append_right _ (List.mem_singleton_self _),userId,request,redisClient,call,
            sender',hs',receiver',hr',becomes.userId ▸ senderOwner,becomes'.userId ▸ receiverOwner,
            {records with sender := records.sender.trans becomes.id, receiver := records.receiver.trans becomes'.id}⟩

end PaymentSystem
