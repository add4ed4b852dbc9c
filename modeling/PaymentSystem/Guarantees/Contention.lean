import PaymentSystem.Guarantees.Amounts
import Mathlib.Algebra.BigOperators.Group.Finset.Basic
import Mathlib.Algebra.Order.BigOperators.Group.Finset

/-! Contention of top-ups. A version conflict is always the commit of another request,
one for each failed attempt, so that as many top-ups as there are attempts never
exhaust them among themselves. -/
namespace PaymentSystem
open Numerics (Decimal)
open Interleaving (Program Reach)

def Overtaken (pid : Nat) (w : World) (row : Wallet) (n m : Nat) : Prop :=
  ∃ i commit, n ≤ i ∧ i < m ∧ w.wal[i]? = some commit ∧ commit.pid ≠ pid ∧ commit.moves row.id = true

/-! Which commits change a row. -/

section
variable {calls : List Call} {wal : List Commit} {t : Tables} {row : Wallet}

theorem Tables.walletUnmoved {writes : List Write} {pid : Nat} (here : row ∈ t.wallets)
    (unmoved : Commit.moves row.id ⟨pid,writes⟩ = false) : row ∈ (t.applyAll writes).wallets := by
  induction writes generalizing t with
  | nil => exact here
  | cons write rest ih =>
    simp only [Commit.moves,List.any_cons,Bool.or_eq_false_iff] at unmoved ih
    refine ih ?_ unmoved.2
    cases write with
    | insertUser user => exact here
    | insertWallet wallet => exact List.mem_append_left _ here
    | insertTransaction x => exact here
    | updateWallet id balance version =>
      have other : row.id ≠ id := fun same => by simp [same] at unmoved
      exact Tables.updateWalletOther here other

theorem rowMoved {n m : Nat} (order : n ≤ m) (within : m ≤ wal.length) (here : row ∈ (tablesAt wal n).wallets)
    (gone : row ∉ (tablesAt wal m).wallets) :
    ∃ i commit, n ≤ i ∧ i < m ∧ wal[i]? = some commit ∧ commit.moves row.id = true := by
  induction order with
  | refl => exact absurd here gone
  | @step m order ih =>
    by_cases still : row ∈ (tablesAt wal m).wallets
    · have found : wal[m]? = some wal[m] := List.getElem?_eq_getElem within
      refine ⟨m,wal[m],order,Nat.lt_succ_self m,found,?_⟩
      by_contra unmoved
      rw [tablesAtSucc found] at gone
      exact gone (Tables.walletUnmoved still (Bool.eq_false_iff.mpr unmoved))
    · obtain ⟨i,commit,after,before,moved⟩ := ih (Nat.le_of_succ_le within) still
      exact ⟨i,commit,after,Nat.lt_succ_of_lt before,moved⟩

theorem Entry.mover {pid : Nat} {writes : List Write} (entry : Entry calls t pid writes) (keyed : t.Keyed)
    (here : row ∈ t.wallets) (moves : Commit.moves row.id ⟨pid,writes⟩ = true) :
    (∃ amount redisClient, calls[pid]? = some (.topUp row.userId amount redisClient)) ∨
      ∃ userId request redisClient, calls[pid]? = some (.sendMoney userId request redisClient) ∧
        (userId = row.userId ∨ request.receiverId = row.userId) := by
  have owned : ∀ wallet ∈ t.wallets, wallet.id = row.id → wallet.userId = row.userId :=
    fun wallet inside same => by rw [Tables.uniqueBy keyed.walletIds inside here same]
  cases entry with
  | register call => simp [Commit.moves] at moves
  | topUp call inside owner =>
    have same := owned _ inside (by simpa [Commit.moves] using moves)
    exact .inl ⟨_,_,(owner.symm.trans same) ▸ call⟩
  | send call senderHere senderOwner receiverHere receiverOwner =>
    simp only [Commit.moves,List.any_cons,List.any_nil,Bool.or_false,Bool.or_eq_true,decide_eq_true_eq] at moves
    refine .inr ⟨_,_,_,call,?_⟩
    rcases moves with same | same
    · exact .inl (senderOwner.symm.trans (owned _ senderHere same))
    · exact .inr (receiverOwner.symm.trans (owned _ receiverHere same))

theorem Entry.topUpMoves {pid : Nat} {writes : List Write} {userId : UUID} {amount : Amount} {redisClient : Bool}
    (entry : Entry calls t pid writes) (call : calls[pid]? = some (.topUp userId amount redisClient)) :
    ∃ wallet ∈ t.wallets, wallet.userId = userId ∧ Commit.moves wallet.id ⟨pid,writes⟩ = true := by
  cases entry with
  | register call' => cases Option.some.inj (call.symm.trans call')
  | send call' => cases Option.some.inj (call.symm.trans call')
  | topUp call' here owner =>
    cases Option.some.inj (call.symm.trans call')
    exact ⟨_,here,owner,by simp [Commit.moves]⟩

end

structure Stale (w : World) (rec : Record) (userId : UUID) (row : Wallet) (n : Nat) : Prop where
  read : ReadAt rec.pid w row n
  owner : row.userId = userId
  update : rec.mismatches row
  order : n ≤ rec.commits
  within : rec.commits ≤ w.wal.length
  gone : row ∉ (tablesAt w.wal rec.commits).wallets
  once : ∀ commit ∈ w.wal.take rec.commits, commit.pid ≠ rec.pid

section
variable {w w' : World} {rec : Record} {userId : UUID} {row : Wallet} {n : Nat}

theorem Record.mismatches.same {read : Wallet} (h : rec.mismatches row) (id : read.id = row.id)
    (version : read.version = row.version) : rec.mismatches read := by
  unfold Record.mismatches at h ⊢
  split at h
  · exact ⟨h.1.trans id.symm,h.2.1.trans version.symm,h.2.2⟩
  · contradiction

theorem Stale.grows (h : Stale w rec userId row n) (grows : Grows w w') : Stale w' rec userId row n where
  read := h.read.grows grows
  owner := h.owner
  update := h.update
  order := h.order
  within := h.within.trans grows.wal.length_le
  gone := by
    rw [grows.tablesAt h.within]
    exact h.gone
  once := by
    obtain ⟨more,same⟩ := grows.wal
    rw [← same,List.take_append_of_le_length h.within]
    exact h.once

theorem Stale.overtaken (h : Stale w rec userId row n) : Overtaken rec.pid w row n rec.commits := by
  obtain ⟨i,commit,after,before,found,moves⟩ := rowMoved h.order h.within h.read.row h.gone
  refine ⟨i,commit,after,before,found,h.once commit ?_,moves⟩
  exact List.mem_of_getElem? ((List.getElem?_take_of_lt before).trans found)

end

theorem Logged.mismatch {c : State} {e : Happening} {rec : Record} {row : Wallet} (h : Logged c e rec)
    (mismatches : rec.mismatches row) : ∃ pid balance version next, rec.pid = pid ∧
      rec.commits = c.shared.wal.length ∧
      c.running[pid]? = some (.call (.updateWallet row.id row.version balance version) next) ∧
      ((c.shared.db.view pid).walletsById row.id).filter (fun x => x.version == row.version) = [] := by
  cases h with
  | stop => exact mismatches.elim
  | @step pid choice op next r s' running attempted =>
    cases op with
    | updateWallet id expected balance version =>
      rcases attemptCases attempted with ⟨fault,ran⟩ | ⟨fault,rfl⟩
      · rw [fault] at mismatches
        obtain ⟨db',updated,_⟩ := writesSome ran
        rcases Database.updateWalletCases updated with ⟨_,⟨rfl,_⟩ | ⟨rfl,none⟩ | ⟨rfl,_⟩⟩ | ⟨_,rfl,_⟩
        · exact mismatches.elim
        · obtain ⟨rfl,rfl,_⟩ := mismatches
          exact ⟨pid,balance,version,next,rfl,rfl,running,none⟩
        · exact mismatches.elim
        · exact absurd mismatches.2.2 (by decide)
      · generalize choice.fault = raised at mismatches
        cases raised <;> exact mismatches.elim
    | _ => exact mismatches.elim

section
variable [Pydantic] {c : State} {pid : Nat} {userId : UUID} {amount : Amount} {redisClient : Bool}

theorem staleReachable (reachable : Reachable c) {rec : Record} (here : rec ∈ c.shared.log) {row : Wallet}
    (mismatches : rec.mismatches row)
    (called : c.shared.calls[rec.pid]? = some (.topUp userId amount redisClient)) :
    ∃ read n, Stale c.shared rec userId read n ∧ read.id = row.id ∧ read.version = row.version := by
  refine reachRecords (Q := fun w rec call => rec.mismatches row → call = .topUp userId amount redisClient →
    ∃ read n, Stale w rec userId read n ∧ read.id = row.id ∧ read.version = row.version) ?_ ?_
    reachable rec here _ called mismatches rfl
  · intro w w' rec call _ _ grows known mismatches same
    obtain ⟨read,n,stale,known⟩ := known mismatches same
    exact ⟨read,n,stale.grows grows,known⟩
  · rintro c c' e rec call before _ step logged called mismatches rfl
    obtain ⟨pid,balance,version,next,rfl,commits,running,none⟩ := logged.mismatch mismatches
    have reachable : Reachable c := before
    have intact := reachableIntact reachable
    obtain ⟨pending,once,read,n,seen,owner,same,versions⟩ := (reachableDue reachable running).2.1.2.2 _ _ _ called
    have grows := nextGrows step
    refine ⟨read,n,Stale.grows ?_ grows,same,versions⟩
    refine ⟨seen,owner,mismatches.same same versions,commits ▸ seen.within,commits.le,?_,?_⟩
    · rw [commits,intact.now]
      intro here
      rw [Database.viewNothing pending,← same,← versions] at none
      exact rowGone here none
    · rw [commits,List.take_length]
      exact once

theorem Conflicts.attempts {k m : Nat} (h : Conflicts pid c.shared userId k m) (reachable : Reachable c)
    (called : c.shared.calls[pid]? = some (.topUp userId amount redisClient)) :
    ∃ attempts : List (Nat × Nat), attempts.length = k ∧ attempts.Pairwise (fun a b => a.2 ≤ b.1) ∧
      ∀ a ∈ attempts, (k ≠ 0 → a.2 ≤ m) ∧ ∃ row, ReadAt pid c.shared row a.1 ∧ row.userId = userId ∧
        (∃ rec ∈ c.shared.log, rec.pid = pid ∧ rec.mismatches row ∧ rec.commits = a.2) ∧
        Overtaken pid c.shared row a.1 a.2 := by
  induction h with
  | none => exact ⟨[],rfl,.nil,by simp⟩
  | @more k m n m' row before order read owner after within gone update ih =>
    obtain ⟨attempts,count,ordered,each⟩ := ih
    obtain ⟨rec,here,rfl,mismatches,rfl⟩ := update
    obtain ⟨stored,n',stale,_⟩ := staleReachable reachable here mismatches called
    have overtaken : Overtaken rec.pid c.shared row n rec.commits := by
      obtain ⟨i,commit,late,early,found,moves⟩ := rowMoved after within read.row gone
      exact ⟨i,commit,late,early,found,
        stale.once commit (List.mem_of_getElem? ((List.getElem?_take_of_lt early).trans found)),moves⟩
    have bounded : ∀ a ∈ attempts, a.2 ≤ n := by
      intro a ha
      have nonzero : k ≠ 0 := by
        rintro rfl
        rw [List.length_eq_zero_iff.mp count] at ha
        contradiction
      exact ((each a ha).1 nonzero).trans order
    refine ⟨attempts ++ [(n,rec.commits)],by simp [count],?_,?_⟩
    · rw [List.pairwise_append]
      refine ⟨ordered,List.pairwise_singleton ..,?_⟩
      intro a ha b hb
      rw [List.mem_singleton.mp hb]
      exact bounded a ha
    · intro a ha
      rcases List.mem_append.mp ha with ha | ha
      · exact ⟨fun _ => (bounded a ha).trans after,(each a ha).2⟩
      · rw [List.mem_singleton.mp ha]
        exact ⟨fun _ => Nat.le_refl _,row,read,owner,⟨rec,here,rfl,mismatches,rfl⟩,overtaken⟩

end

/-! Charging the failed attempts to distinct requests. -/

section
variable {w : World} {pid : Nat} {id : UUID}

theorem Legal.onceAt {calls : List Call} {wal : List Commit} {i j : Nat} {a b : Commit} (h : Legal calls wal)
    (first : wal[i]? = some a) (second : wal[j]? = some b) (same : a.pid = b.pid) : i = j := by
  have inside : i < (wal.map Commit.pid).length := by
    rw [List.length_map]
    exact (List.getElem?_eq_some_iff.mp first).1
  refine (List.getElem?_inj inside h.once).mp ?_
  rw [List.getElem?_map,List.getElem?_map,first,second,Option.map_some,Option.map_some,same]

theorem distinctMovers {attempts : List (Nat × Nat)} (legal : Legal w.calls w.wal)
    (ordered : attempts.Pairwise (fun a b => a.2 ≤ b.1))
    (each : ∀ a ∈ attempts, ∃ row, row.id = id ∧ Overtaken pid w row a.1 a.2) :
    ∃ others : List Nat, others.length = attempts.length ∧ others.Nodup ∧ ∀ other ∈ others, other ≠ pid ∧
      ∃ a ∈ attempts, ∃ i commit, a.1 ≤ i ∧ w.wal[i]? = some commit ∧ commit.pid = other ∧
        commit.moves id = true := by
  induction attempts with
  | nil => exact ⟨[],rfl,.nil,by simp⟩
  | cons first rest ih =>
    obtain ⟨before,ordered⟩ := List.pairwise_cons.mp ordered
    obtain ⟨others,count,distinct,known⟩ := ih ordered (fun a ha => each a (List.mem_cons_of_mem _ ha))
    obtain ⟨row,rfl,i,commit,late,early,found,foreign,moves⟩ := each first (List.mem_cons_self ..)
    refine ⟨commit.pid :: others,by simp [count],List.nodup_cons.mpr ⟨?_,distinct⟩,?_⟩
    · intro again
      obtain ⟨_,a,ha,j,commit',after,found',same,_⟩ := known _ again
      have := legal.onceAt found found' same.symm
      have := before a ha
      omega
    · intro other ho
      rcases List.mem_cons.mp ho with rfl | ho
      · exact ⟨foreign,first,List.mem_cons_self ..,i,commit,late,found,rfl,moves⟩
      · obtain ⟨apart,a,ha,known⟩ := known other ho
        exact ⟨apart,a,List.mem_cons_of_mem _ ha,known⟩

end

/-! What top-ups alone make of a balance. -/

def World.amountOf (w : World) (pid : Nat) : Int :=
  match w.calls[pid]? with
  | some (.topUp _ amount _) => amount.cents
  | _ => 0

def World.movers (w : World) (id : UUID) (first last : Nat) : List Nat :=
  (((w.wal.take last).drop first).filter (Commit.moves id)).map Commit.pid

section
variable {w : World} {wallet : Wallet} {first last : Nat}

theorem amountNonneg (w : World) (pid : Nat) : 0 ≤ w.amountOf pid := by
  unfold World.amountOf
  split
  · rename_i amount _ _
    exact amount.positive.le
  · exact le_refl 0

theorem moversSucc {commit : Commit} (order : first ≤ last) (found : w.wal[last]? = some commit) (id : UUID) :
    w.movers id first (last + 1) =
      w.movers id first last ++ (if commit.moves id then [commit.pid] else []) := by
  have inside : first ≤ (w.wal.take last).length := by
    have := (List.getElem?_eq_some_iff.mp found).1
    rw [List.length_take]
    omega
  rw [World.movers,List.take_add_one,found,Option.toList_some,List.drop_append_of_le_length inside,
    List.filter_append,List.map_append,World.movers]
  congr 1
  by_cases moves : commit.moves id = true <;> simp [moves]

theorem moversMem {id : UUID} {pid : Nat} : pid ∈ w.movers id first last ↔
    ∃ i commit, first ≤ i ∧ i < last ∧ w.wal[i]? = some commit ∧ commit.pid = pid ∧ commit.moves id = true := by
  rw [World.movers,List.mem_map]
  constructor
  · rintro ⟨commit,inside,rfl⟩
    obtain ⟨inside,moves⟩ := List.mem_filter.mp inside
    obtain ⟨i,found⟩ := List.getElem?_of_mem inside
    rw [List.getElem?_drop,List.getElem?_take] at found
    split at found
    · rename_i early
      exact ⟨first + i,commit,Nat.le_add_right ..,early,found,rfl,moves⟩
    · contradiction
  · rintro ⟨i,commit,late,early,found,rfl,moves⟩
    have inside : ((w.wal.take last).drop first)[i - first]? = some commit := by
      rw [List.getElem?_drop,Nat.add_sub_cancel' late,List.getElem?_take_of_lt early,found]
    exact ⟨commit,List.mem_filter.mpr ⟨List.mem_of_getElem? inside,moves⟩,rfl⟩

theorem moversNodup (legal : Legal w.calls w.wal) (id : UUID) : (w.movers id first last).Nodup := by
  have part : List.Sublist (((w.wal.take last).drop first).filter (Commit.moves id)) w.wal :=
    (List.filter_sublist ..).trans ((List.drop_sublist ..).trans (List.take_sublist ..))
  exact legal.once.sublist (part.map Commit.pid)

theorem topUpsAdd (legal : Legal w.calls w.wal) (order : first ≤ last) (within : last ≤ w.wal.length)
    (here : wallet ∈ (tablesAt w.wal first).wallets)
    (topUps : ∀ pid ∈ w.movers wallet.id first last, ∃ amount redisClient,
      w.calls[pid]? = some (.topUp wallet.userId amount redisClient)) :
    ∃ row ∈ (tablesAt w.wal last).wallets, row.id = wallet.id ∧ row.userId = wallet.userId ∧
      row.balance.units = wallet.balance.units + ((w.movers wallet.id first last).map w.amountOf).sum ∧
      row.version = wallet.version + (w.movers wallet.id first last).length := by
  induction order with
  | refl =>
    have none : w.movers wallet.id first first = [] := by simp [World.movers]
    exact ⟨wallet,here,rfl,rfl,by simp [none],by simp [none]⟩
  | @step last order ih =>
    have found : w.wal[last]? = some w.wal[last] := List.getElem?_eq_getElem within
    have split := moversSucc order found wallet.id
    obtain ⟨row,inside,key,owner,balance,version⟩ := ih (Nat.le_of_succ_le within)
      (fun pid hp => topUps pid (by rw [split]; exact List.mem_append_left _ hp))
    rw [tablesAtSucc found]
    by_cases moves : w.wal[last].moves wallet.id = true
    · rw [if_pos moves] at split
      obtain ⟨amount,redisClient,call⟩ := topUps w.wal[last].pid (by rw [split]; simp)
      have entry := legal.entryAt found
      obtain ⟨changed,topped⟩ := entry.toppedUp call
      have keyed : (tablesAt w.wal last).Keyed := (legal.upTo last).keyed
      have same : changed = row := Tables.uniqueBy keyed.owners topped.here inside (topped.owner.trans owner.symm)
      subst same
      obtain ⟨old,hold,new,hnew,oldKey,newKey,credited,counted⟩ := topped.credit
      have same : old = changed := Tables.uniqueBy keyed.walletIds hold inside oldKey
      subst same
      obtain ⟨next,hnext,becomes⟩ := (entry.evolves keyed).wallets old inside
      have same : next = new := Tables.uniqueBy (entry.keyed keyed).walletIds hnext hnew
        (becomes.id.symm.trans newKey.symm)
      subst same
      refine ⟨next,hnew,newKey.trans key,becomes.userId.symm.trans owner,?_,?_⟩
      · rw [credited,balance,split]
        simp [World.amountOf,call]
        omega
      · rw [counted,version,split]
        simp
        omega
    · rw [if_neg moves,List.append_nil] at split
      rw [split]
      exact ⟨row,Tables.walletUnmoved inside (key ▸ Bool.eq_false_iff.mpr moves),key,owner,balance,version⟩

end

/-! Top-ups of one wallet at the same time. -/

theorem sumWithin {f : Nat → Int} (nonneg : ∀ n, 0 ≤ f n) {l : List Nat} (distinct : l.Nodup) {s : Finset Nat}
    (within : ∀ n ∈ l, n ∈ s) : (l.map f).sum ≤ s.sum f ∧ l.length ≤ s.card := by
  have inside : l.toFinset ⊆ s := fun n hn => within n (List.mem_toFinset.mp hn)
  rw [← List.sum_toFinset f distinct,← List.toFinset_card_of_nodup distinct]
  exact ⟨Finset.sum_le_sum_of_subset_of_nonneg inside (fun n _ _ => nonneg n),Finset.card_le_card inside⟩

/-- From one state to another, these top-ups of the wallet arrive, nothing fails in
them, and nothing else changes the wallet. -/
structure TopUpsOnly (c₀ c : State) (wallet : Wallet) (batch : Finset Nat) : Prop where
  here : wallet ∈ c₀.shared.tables.wallets
  later : ∀ pid ∈ batch, c₀.shared.calls.length ≤ pid
  topUps : ∀ pid ∈ batch, ∃ amount redisClient,
    c.shared.calls[pid]? = some (.topUp wallet.userId amount redisClient)
  alone : ∀ commit ∈ c.shared.wal.drop c₀.shared.wal.length, commit.moves wallet.id = true → commit.pid ∈ batch
  unfailing : ∀ rec ∈ c.shared.log, rec.pid ∈ batch → rec.failed = false

theorem spoilsFailed {rec : Record} (h : rec.spoils = true) : rec.failed = true := by
  cases rec with
  | stopped pid commits => rfl
  | called pid op fault result commits =>
    simp only [Record.spoils,Bool.or_eq_true,Bool.and_eq_true,decide_eq_true_eq] at h
    rcases h with ⟨raised,_⟩ | ⟨_,rfl⟩
    · exact decide_eq_true raised
    · rfl

def Fits (w : World) (wallet : Wallet) (batch : Finset Nat) : Prop :=
  wallet.balance.units + batch.sum w.amountOf < 10 ^ 18 ∧ wallet.version + batch.card ≤ 2147483647

theorem TopUpsOnly.mine {c₀ c : State} {wallet : Wallet} {batch : Finset Nat} (h : TopUpsOnly c₀ c wallet batch)
    {i : Nat} {commit : Commit} (late : c₀.shared.wal.length ≤ i)
    (found : c.shared.wal[i]? = some commit) (moves : commit.moves wallet.id = true) : commit.pid ∈ batch := by
  refine h.alone commit (List.mem_of_getElem? (i := i - c₀.shared.wal.length) ?_) moves
  rw [List.getElem?_drop,Nat.add_sub_cancel' late,found]

theorem TopUpsOnly.moversInside {c₀ c : State} {wallet : Wallet} {batch : Finset Nat}
    (h : TopUpsOnly c₀ c wallet batch) {last : Nat} :
    ∀ pid ∈ c.shared.movers wallet.id c₀.shared.wal.length last, pid ∈ batch := by
  intro pid mover
  obtain ⟨i,commit,late,_,found,rfl,moves⟩ := moversMem.mp mover
  exact h.mine late found moves

section
variable [Pydantic] {c₀ c : State} {wallet : Wallet} {batch : Finset Nat} {pid : Nat}

section
variable (h : TopUpsOnly c₀ c wallet batch) (reachable : Reachable c₀)
  (later : Reach machine (fun _ _ => True) c₀ c)
include h reachable later

theorem TopUpsOnly.start : wallet ∈ (tablesAt c.shared.wal c₀.shared.wal.length).wallets := by
  rw [(reachGrows later).tablesAt (Nat.le_refl _),(reachableIntact reachable).now]
  exact h.here

theorem TopUpsOnly.late {rec : Record} (here : rec ∈ c.shared.log) (inside : rec.pid ∈ batch) :
    c₀.shared.wal.length ≤ rec.commits := by
  obtain ⟨more,log,after⟩ := (reachGrows later).log
  rw [log] at here
  rcases List.mem_append.mp here with here | here
  · exact absurd rfl (((reachableIntact reachable).unstarted rec.pid (h.later rec.pid inside)).2.2 rec here)
  · exact after rec here

theorem TopUpsOnly.readLate {row : Wallet} {n : Nat} (inside : pid ∈ batch) (read : ReadAt pid c.shared row n) :
    c₀.shared.wal.length ≤ n := by
  obtain ⟨rec,here,rfl,_,rfl⟩ := read.record
  exact h.late reachable later here inside

theorem TopUpsOnly.sameId {row : Wallet} {n : Nat} (there : row ∈ (tablesAt c.shared.wal n).wallets)
    (owner : row.userId = wallet.userId) : row.id = wallet.id := by
  have intact := reachableIntact (reachableLater reachable later)
  obtain ⟨last,hlast,becomes⟩ := (intact.evolved n).wallets row there
  obtain ⟨last',hlast',becomes'⟩ := (intact.evolved _).wallets wallet (h.start reachable later)
  have same : last = last' := Tables.uniqueBy intact.keyed.owners hlast hlast'
    (becomes.userId.symm.trans (owner.trans becomes'.userId))
  rw [becomes.id,same,becomes'.id]

theorem TopUpsOnly.rowAt {row : Wallet} {n : Nat} (late : c₀.shared.wal.length ≤ n)
    (within : n ≤ c.shared.wal.length) (here : row ∈ (tablesAt c.shared.wal n).wallets)
    (key : row.id = wallet.id) : row.balance.units = wallet.balance.units +
        ((c.shared.movers wallet.id c₀.shared.wal.length n).map c.shared.amountOf).sum ∧
      row.version = wallet.version + (c.shared.movers wallet.id c₀.shared.wal.length n).length := by
  have legal := (reachableIntact (reachableLater reachable later)).legal
  obtain ⟨found,inside,key',_,balance,version⟩ := topUpsAdd legal late within (h.start reachable later)
    (fun pid mover => h.topUps pid (h.moversInside pid mover))
  have same : row = found := Tables.uniqueBy (legal.upTo n).keyed.walletIds here inside (key.trans key'.symm)
  subst same
  exact ⟨balance,version⟩

theorem TopUpsOnly.unexhausted (few : batch.card ≤ WalletService.maxTopupRetries) (inside : pid ∈ batch) {m : Nat} :
    ¬ Conflicts pid c.shared wallet.userId 3 m := by
  intro conflicts
  have reachable' := reachableLater reachable later
  obtain ⟨amount,redisClient,called⟩ := h.topUps pid inside
  obtain ⟨attempts,count,ordered,each⟩ := conflicts.attempts reachable' called
  have overtaken : ∀ a ∈ attempts, ∃ row, row.id = wallet.id ∧ Overtaken pid c.shared row a.1 a.2 := by
    intro a ha
    obtain ⟨_,row,read,owner,_,overtaken⟩ := each a ha
    exact ⟨row,h.sameId reachable later read.row owner,overtaken⟩
  obtain ⟨others,count',distinct,known⟩ := distinctMovers (reachableIntact reachable').legal ordered overtaken
  have more : (pid :: others).length ≤ batch.card := by
    refine (sumWithin (f := fun _ => 0) (fun _ => le_refl 0) ?_ ?_).2
    · exact List.nodup_cons.mpr ⟨fun again => (known pid again).1 rfl,distinct⟩
    · intro other ho
      rcases List.mem_cons.mp ho with rfl | ho
      · exact inside
      · obtain ⟨_,a,ha,i,commit,after,found,rfl,moves⟩ := known other ho
        obtain ⟨_,row,read,_⟩ := each a ha
        exact h.mine ((h.readLate reachable later inside read).trans after) found moves
  rw [List.length_cons,count',count] at more
  exact absurd (more.trans few) (by decide)

theorem TopUpsOnly.succeeds (few : batch.card ≤ WalletService.maxTopupRetries) (fits : Fits c.shared wallet batch)
    (inside : pid ∈ batch) {outcome : Outcome} (done : c.outcome pid = some outcome) :
    (∃ response, outcome = .ok response) ∧ CommittedBy pid c.shared := by
  have reachable' := reachableLater reachable later
  have intact := reachableIntact reachable'
  obtain ⟨amount,redisClient,called⟩ := h.topUps pid inside
  obtain ⟨call,concluded⟩ := (reachableReport reachable' done).concluded
  cases Option.some.inj (called.symm.trans concluded.called)
  have healthy : ¬ Failed pid c.shared := by
    rintro ⟨rec,here,own,failed⟩
    rw [h.unfailing rec here (own ▸ inside)] at failed
    contradiction
  cases outcome with
  | ok response =>
    have answered := concluded.answered
    cases response with
    | wallet wallet => exact ⟨⟨_,rfl⟩,answered.1⟩
    | _ => exact absurd answered id
  | error e =>
    have uncommitted : ¬ CommittedBy pid c.shared := by
      intro committed
      obtain ⟨rec,here,own,spoils⟩ := concluded.spoiled e rfl committed
      exact healthy ⟨rec,here,own,spoilsFailed spoils⟩
    have unpaid : Unpaid pid c.shared wallet.userId amount e := concluded.answered
    exfalso
    cases unpaid with
    | failed _ failure => exact healthy failure
    | @missing n none =>
      obtain ⟨rec,here,rfl,rfl⟩ := none.record
      obtain ⟨row,there,_,owner,_⟩ := topUpsAdd intact.legal (h.late reachable later here inside) none.within
        (h.start reachable later) (fun pid mover => h.topUps pid (h.moversInside pid mover))
      have found : row ∈ (tablesAt c.shared.wal rec.commits).walletsByUserId wallet.userId :=
        List.mem_filter.mpr ⟨there,by simp [owner]⟩
      rw [none.none] at found
      contradiction
    | @overflow _ row n kind read owner large =>
      have late := h.readLate reachable later inside read
      have key := h.sameId reachable later read.row owner
      obtain ⟨balance,version⟩ := h.rowAt reachable later late read.within read.row key
      have apart : pid ∉ c.shared.movers wallet.id c₀.shared.wal.length n := by
        intro mover
        obtain ⟨i,commit,_,_,found,own,_⟩ := moversMem.mp mover
        exact uncommitted ⟨commit,List.mem_of_getElem? found,own⟩
      obtain ⟨sum,count⟩ := sumWithin (amountNonneg c.shared)
        (List.nodup_cons.mpr ⟨apart,moversNodup intact.legal wallet.id⟩) (s := batch) (by
          intro other ho
          rcases List.mem_cons.mp ho with rfl | ho
          · exact inside
          · exact h.moversInside other ho)
      have own : c.shared.amountOf pid = amount.cents := by simp only [World.amountOf,called]
      have counted := (intact.legal.upTo n).refines.version row read.row
      obtain ⟨money,versions⟩ := fits
      rw [List.map_cons,List.sum_cons,own] at sum
      rw [List.length_cons] at count
      rcases large with unfit | large
      · simp only [Database.integerFits,Bool.and_eq_false_iff,decide_eq_false_iff_not] at unfit
        omega
      · omega
    | conflicts all => exact h.unexhausted reachable later few inside all

theorem TopUpsOnly.applied (few : batch.card ≤ WalletService.maxTopupRetries) (fits : Fits c.shared wallet batch)
    (ended : ∀ pid ∈ batch, (c.outcome pid).isSome) : ∃ row ∈ c.shared.tables.wallets, row.id = wallet.id ∧
      row.balance.units = wallet.balance.units + batch.sum c.shared.amountOf ∧
      row.version = wallet.version + batch.card := by
  have intact := reachableIntact (reachableLater reachable later)
  have distinct := @moversNodup _ c₀.shared.wal.length c.shared.wal.length intact.legal wallet.id
  have all : (c.shared.movers wallet.id c₀.shared.wal.length c.shared.wal.length).toFinset = batch := by
    ext pid
    rw [List.mem_toFinset]
    refine ⟨h.moversInside pid,?_⟩
    intro inside
    obtain ⟨outcome,done⟩ := Option.isSome_iff_exists.mp (ended pid inside)
    obtain ⟨_,commit,here,rfl⟩ := h.succeeds reachable later few fits inside done
    obtain ⟨i,found⟩ := List.getElem?_of_mem here
    obtain ⟨amount,redisClient,called⟩ := h.topUps commit.pid inside
    obtain ⟨changed,there,owner,moves⟩ := (intact.legal.entryAt found).topUpMoves called
    have late : c₀.shared.wal.length ≤ i := by
      by_contra early
      have old : c₀.shared.wal[i]? = some commit := by
        obtain ⟨more,same⟩ := (reachGrows later).wal
        rw [← same,List.getElem?_append_left (not_le.mp early)] at found
        exact found
      have := (reachableIntact reachable).legal.started commit (List.mem_of_getElem? old)
      have := h.later commit.pid inside
      omega
    exact moversMem.mpr ⟨i,commit,late,(List.getElem?_eq_some_iff.mp found).1,found,rfl,
      h.sameId reachable later there owner ▸ moves⟩
  obtain ⟨row,there,key,_,balance,version⟩ := topUpsAdd intact.legal (reachGrows later).wal.length_le (Nat.le_refl _)
    (h.start reachable later) (fun pid mover => h.topUps pid (h.moversInside pid mover))
  rw [← List.sum_toFinset _ distinct,all] at balance
  rw [← List.toFinset_card_of_nodup distinct,all] at version
  exact ⟨row,intact.now ▸ there,key,balance,version⟩

end
end

/-- In every run: each attempt of a top-up that exhausted them was overtaken by the commit
of another request, one after the other; each single attempt that fails was overtaken by
a top-up of the wallet or a payment with it; and top-ups of a wallet that are alone on
it, no more of them than one has attempts, never exhaust them, and all succeed if
their sum fits. -/
theorem conflictsCharged [Pydantic] {c₀ c : State} (reachable : Reachable c₀)
    (later : Reach machine (fun _ _ => True) c₀ c) :
    (∀ pid userId amount redisClient, c.shared.calls[pid]? = some (.topUp userId amount redisClient) →
      c.outcome pid = some (.error .optimisticLock) → ∃ attempts : List (Nat × Nat),
        attempts.length = WalletService.maxTopupRetries ∧ attempts.Pairwise (fun a b => a.2 ≤ b.1) ∧
        ∀ a ∈ attempts, ∃ row, ReadAt pid c.shared row a.1 ∧ row.userId = userId ∧
          (∃ rec ∈ c.shared.log, rec.pid = pid ∧ rec.mismatches row ∧ rec.commits = a.2) ∧
          Overtaken pid c.shared row a.1 a.2) ∧
      (∀ rec ∈ c.shared.log, ∀ row, rec.mismatches row → ∀ userId amount redisClient,
        c.shared.calls[rec.pid]? = some (.topUp userId amount redisClient) →
        ∃ read n i commit, ReadAt rec.pid c.shared read n ∧ rec.mismatches read ∧ n ≤ i ∧ i < rec.commits ∧
          c.shared.wal[i]? = some commit ∧ commit.pid ≠ rec.pid ∧ commit.moves read.id = true ∧
          ((∃ amount redisClient, c.shared.calls[commit.pid]? = some (.topUp userId amount redisClient)) ∨
            ∃ sender request redisClient, c.shared.calls[commit.pid]? = some (.sendMoney sender request redisClient) ∧
              (sender = userId ∨ request.receiverId = userId))) ∧
      ∀ wallet batch, TopUpsOnly c₀ c wallet batch → batch.card ≤ WalletService.maxTopupRetries →
        (∀ pid ∈ batch, c.outcome pid ≠ some (.error .optimisticLock)) ∧
        (Fits c.shared wallet batch →
          (∀ pid ∈ batch, ∀ outcome, c.outcome pid = some outcome → ∃ response, outcome = .ok response) ∧
          ((∀ pid ∈ batch, (c.outcome pid).isSome) → ∃ row ∈ c.shared.tables.wallets, row.id = wallet.id ∧
            row.balance.units = wallet.balance.units + batch.sum c.shared.amountOf ∧
            row.version = wallet.version + batch.card)) := by
  have reachable' := reachableLater reachable later
  have intact := reachableIntact reachable'
  have exhausted : ∀ pid userId amount redisClient,
      c.shared.calls[pid]? = some (.topUp userId amount redisClient) →
      c.outcome pid = some (.error .optimisticLock) → ∃ m, Conflicts pid c.shared userId 3 m := by
    intro pid userId amount redisClient called done
    obtain ⟨call,concluded⟩ := (reachableReport reachable' done).concluded
    cases Option.some.inj (called.symm.trans concluded.called)
    have unpaid : Unpaid pid c.shared userId amount .optimisticLock := concluded.answered
    cases unpaid with
    | failed kind => cases kind
    | overflow kind => simp at kind
    | conflicts all => exact ⟨_,all⟩
  refine ⟨?_,?_,?_⟩
  · intro pid userId amount redisClient called done
    obtain ⟨m,all⟩ := exhausted pid userId amount redisClient called done
    obtain ⟨attempts,count,ordered,each⟩ := all.attempts reachable' called
    exact ⟨attempts,count,ordered,fun a ha => (each a ha).2⟩
  · intro rec here row mismatches userId amount redisClient called
    obtain ⟨read,n,stale,_⟩ := staleReachable reachable' here mismatches called
    obtain ⟨i,commit,late,early,found,foreign,moves⟩ := stale.overtaken
    obtain ⟨before,there,becomes⟩ := (intact.legal.evolvesBetween late).wallets read stale.read.row
    have owner : before.userId = userId := becomes.userId.symm.trans stale.owner
    have mover := (intact.legal.entryAt found).mover (intact.legal.upTo i).keyed there (becomes.id ▸ moves)
    rw [owner] at mover
    exact ⟨read,n,i,commit,stale.read,stale.update,late,early,found,foreign,moves,mover⟩
  · intro wallet batch h few
    refine ⟨?_,fun fits => ⟨?_,h.applied reachable later few fits⟩⟩
    · intro pid inside done
      obtain ⟨amount,redisClient,called⟩ := h.topUps pid inside
      obtain ⟨m,all⟩ := exhausted pid wallet.userId amount redisClient called done
      exact h.unexhausted reachable later few inside all
    · intro pid inside outcome done
      exact (h.succeeds reachable later few fits inside done).1

def secondWallet : Wallet := ⟨203,202,0,"USD",1,⟨2024,1,1,0,0,0,0⟩⟩

def topUpSecond (amount : Amount) : Call := .topUp 202 amount false

section
open JsonMode

def opened : Run initial := ⟨opening,by decide +kernel⟩

def topUpsAtOnce : Run opened.last where
  events := .start (topUpSecond tenDollars) :: (steps 3 1 400 ++
    (serve (topUpSecond fiveDollars) 4 5 500 ++ steps 3 7 410))
  possible := by decide +kernel

theorem conflictsChargedAtOnce : ∃ row ∈ topUpsAtOnce.last.shared.tables.wallets,
    row.id = 203 ∧ row.balance.units = 1500 := by
  have first : topUpsAtOnce.last.shared.calls[3]? = some (.topUp 202 tenDollars false) := by
    decide +kernel
  have second : topUpsAtOnce.last.shared.calls[4]? = some (.topUp 202 fiveDollars false) := by
    decide +kernel
  have only : TopUpsOnly opened.last topUpsAtOnce.last secondWallet {3,4} := {
    here := by decide +kernel
    later := by decide +kernel
    topUps := by
      intro pid inside
      rcases Finset.mem_insert.mp inside with rfl | inside
      · exact ⟨_,_,first⟩
      · cases Finset.mem_singleton.mp inside
        exact ⟨_,_,second⟩
    alone := by decide +kernel
    unfailing := by decide +kernel }
  have charged := (conflictsCharged opened.reaches topUpsAtOnce.reaches).2.2 _ _ only (by decide)
  obtain ⟨row,here,id,balance,_⟩ := (charged.2 (by unfold Fits; decide +kernel)).2 (by decide +kernel)
  refine ⟨row,here,id,balance.trans ?_⟩
  decide +kernel

def topUpTooMuch : Run opened.last := ⟨serve (topUpSecond (.ofCents (10 ^ 18) (by decide))) 3 3 400,by decide +kernel⟩

theorem topUpOutOfRange : ¬ ∀ (c₀ c : State) (wallet : Wallet) (batch : Finset Nat), Reachable c₀ →
    Reach machine (fun _ _ => True) c₀ c → TopUpsOnly c₀ c wallet batch →
    batch.card ≤ WalletService.maxTopupRetries → ∀ pid ∈ batch, ∀ outcome, c.outcome pid = some outcome →
      ∃ response, outcome = .ok response := by
  intro always
  have called : topUpTooMuch.last.shared.calls[3]? = some (.topUp 202 (.ofCents (10 ^ 18) (by decide)) false) := by
    decide +kernel
  have only : TopUpsOnly opened.last topUpTooMuch.last secondWallet {3} := {
    here := by decide +kernel
    later := by decide +kernel
    topUps := by
      intro pid inside
      cases Finset.mem_singleton.mp inside
      exact ⟨_,_,called⟩
    alone := by decide +kernel
    unfailing := by decide +kernel }
  obtain ⟨response,raised⟩ := always _ _ _ _ opened.reaches topUpTooMuch.reaches only (by decide) 3
    (by decide) (.error .dataError) (by decide +kernel)
  cases raised

end

end PaymentSystem
