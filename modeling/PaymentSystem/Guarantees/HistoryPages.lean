import PaymentSystem.Base.Paging
import PaymentSystem.System.Schedule

/-! The transaction history of a fixed ledger, page by page. The query orders by
created_at alone, so rows of one instant can change places between two pages; and it
knows no status, whatever status is asked for. -/
namespace PaymentSystem
open Interleaving (Program Task)
open Paging (pages Falling OnOnePage)

structure Ledger where
  tables : Tables
  keyed : tables.Keyed

namespace Ledger

def stores (ledger : Ledger) : Stores := ⟨⟨ledger.tables,[],fun _ => [],fun _ => none⟩,fun _ => none⟩

def history (ledger : Ledger) (walletId : UUID) : List Transaction :=
  ledger.tables.transactions.filter (fun x => decide (x.senderWalletId = walletId ∨ x.receiverWalletId = walletId))

def filtered (ledger : Ledger) (userId : UUID) (status : Option String) : List Transaction :=
  ledger.tables.transactions.filter (fun x => decide (∃ wallet ∈ ledger.tables.wallets, wallet.userId = userId ∧
    (x.senderWalletId = wallet.id ∨ x.receiverWalletId = wallet.id)) && status.all (fun s => x.status.value == s))

end Ledger

def newness (x : Transaction) : Nat := x.createdAt.rank

def answering (order : List Transaction) (s : Stores) (op : Op) : Option (Res op × Stores) :=
  perform 0 s {calm 0 with order := order} op

def Ledger.pageOf (ledger : Ledger) (walletId : UUID) (pageSize : Nat) (orders : Nat → List Transaction)
    (page : Nat) : Option (List Transaction × Nat) :=
  ((TransactionRepository.getByWalletId walletId page pageSize Session.new).alone (answering (orders page))
    ledger.stores).bind (fun out => out.1.1.toOption)

def lastPage (total pageSize : Nat) : Nat := (total + pageSize - 1) / pageSize

def listed (answer : Nat → Option (List Transaction × Nat)) (count : Nat) : List Transaction :=
  (List.range count).flatMap (fun i => ((answer (i + 1)).map Prod.fst).getD [])

structure Partitioned (answer : Nat → Option (List Transaction × Nat)) (history : List Transaction)
    (pageSize asked : Nat) : Prop where
  totals : ∀ page, 1 ≤ page → page ≤ asked → ∃ rows, answer page = some (rows,history.length)
  once : (listed answer (lastPage history.length pageSize)).Perm history
  newest : (listed answer (lastPage history.length pageSize)).Pairwise (fun x y => newness y ≤ newness x)
  later : ∀ page, lastPage history.length pageSize < page → page ≤ asked → answer page = some ([],history.length)

/-- The OFFSET and the LIMIT of the query are numbers it can have. -/
def pageFits (page pageSize : Nat) : Bool := Database.bigintFits ((page - 1) * pageSize) && Database.bigintFits pageSize

section
variable {ledger : Ledger} {walletId : UUID} {pageSize : Nat} {rows order : List Transaction}

theorem newestFirstFalling : Falling newness rows (Database.newestFirst rows order) := by
  unfold Database.newestFirst
  split
  · rename_i allowed
    exact ⟨allowed.1,allowed.2⟩
  · have total : Std.Total (fun x y : Transaction => newness y ≤ newness x) := ⟨fun x y => Nat.le_total ..⟩
    have transitive : IsTrans Transaction (fun x y => newness y ≤ newness x) :=
      ⟨fun x y z before after => Nat.le_trans after before⟩
    exact ⟨List.perm_insertionSort ..,List.pairwise_insertionSort (fun x y : Transaction => newness y ≤ newness x) rows⟩

theorem newestFirstSelf (falling : Falling newness rows order) : Database.newestFirst rows order = order :=
  if_pos ⟨falling.perm,falling.falls⟩

theorem historyOf : ledger.history walletId = ledger.tables.transactionsOf walletId := by
  refine List.filter_congr ?_
  intro x _
  rw [Bool.eq_iff_iff]
  simp [Tables.party]

theorem pageQuery {l : Session} {page : Nat} (clean : l.dirty = []) :
    (TransactionRepository.getByWalletId walletId page pageSize l).alone (answering order) ledger.stores =
      some ((if pageFits page pageSize then
        .ok (((Database.newestFirst (ledger.tables.transactionsOf walletId) order).drop ((page - 1) * pageSize)).take
          pageSize,(ledger.tables.transactionsOf walletId).length) else .error .dataError,l),ledger.stores) := by
  have counted : answering order ledger.stores (.countTransactionsOf walletId) =
      some (.ok (ledger.tables.transactionsOf walletId).length,ledger.stores) := rfl
  refine (Task.aloneThen (aloneExecute clean counted)).trans ?_
  cases fits : pageFits page pageSize with
  | true =>
    have got : answering order ledger.stores (.selectTransactionsOf walletId ((page - 1) * pageSize) pageSize) =
        some (.ok (((Database.newestFirst (ledger.tables.transactionsOf walletId) order).drop
          ((page - 1) * pageSize)).take pageSize),ledger.stores) := if_pos fits
    exact (Task.aloneThen (aloneExecute clean got)).trans rfl
  | false =>
    have got : answering order ledger.stores (.selectTransactionsOf walletId ((page - 1) * pageSize) pageSize) =
        some (.error .dataError,ledger.stores) := if_neg (ne_true_of_eq_false fits)
    exact Task.aloneRaised (aloneExecute clean got)

theorem pageAnswer {orders : Nat → List Transaction} {i : Nat} (fits : pageFits (i + 1) pageSize = true) :
    ledger.pageOf walletId pageSize orders (i + 1) =
      some (Paging.page (Database.newestFirst (ledger.history walletId) (orders (i + 1))) pageSize i,
        (ledger.history walletId).length) := by
  rw [historyOf,Ledger.pageOf,pageQuery rfl,fits,Option.bind_some]
  rfl

theorem pageRefused {orders : Nat → List Transaction} {page : Nat} (misfit : pageFits page pageSize = false) :
    ledger.pageOf walletId pageSize orders page = none := by
  rw [Ledger.pageOf,pageQuery rfl,misfit,Option.bind_some]
  rfl

theorem listedPages {orders : Nat → List Transaction} {count : Nat}
    (fits : ∀ page, 1 ≤ page → page ≤ count → pageFits page pageSize = true) :
    listed (ledger.pageOf walletId pageSize orders) count =
      pages (fun i => Database.newestFirst (ledger.history walletId) (orders (i + 1))) pageSize count := by
  refine List.flatMap_congr ?_
  intro i here
  rw [pageAnswer (fits _ (Nat.succ_pos i) (List.mem_range.mp here))]
  rfl

theorem enoughPages (positive : 1 ≤ pageSize) (total : Nat) : total ≤ lastPage total pageSize * pageSize := by
  have rest := Nat.mod_lt (total + pageSize - 1) positive
  have parts := Nat.div_add_mod (total + pageSize - 1) pageSize
  rw [lastPage,Nat.mul_comm]
  omega

theorem historyDistinct : (ledger.history walletId).Nodup :=
  (List.Nodup.of_map _ ledger.keyed.transactionIds).filter _

theorem allowedOrders (orders : Nat → List Transaction) (i : Nat) :
    Falling newness rows (Database.newestFirst rows (orders (i + 1))) :=
  newestFirstFalling

end

theorem historyPartitioned (ledger : Ledger) (walletId : UUID) {pageSize asked : Nat} (positive : 1 ≤ pageSize)
    (all : lastPage (ledger.history walletId).length pageSize ≤ asked) :
    (∀ orders, Partitioned (ledger.pageOf walletId pageSize orders) (ledger.history walletId) pageSize asked) ↔
      OnOnePage newness (ledger.history walletId) pageSize ∧
        ∀ page, 1 ≤ page → page ≤ asked → pageFits page pageSize = true := by
  have enough := enoughPages positive (ledger.history walletId).length
  have falling : Falling newness (ledger.history walletId) (Database.newestFirst (ledger.history walletId) []) :=
    newestFirstFalling
  have once := Paging.pagesOnce falling historyDistinct positive enough
  constructor
  · intro partitioned
    have fits : ∀ page, 1 ≤ page → page ≤ asked → pageFits page pageSize = true := by
      intro page first last
      obtain ⟨rows,answered⟩ := (partitioned (fun _ => [])).totals page first last
      by_contra misfit
      rw [pageRefused (eq_false_of_ne_true misfit)] at answered
      contradiction
    refine ⟨once.mp ?_,fits⟩
    intro orders falls
    have permuted := (partitioned (fun page => orders (page - 1))).once
    rw [listedPages (fun page first last => fits page first (last.trans all))] at permuted
    simpa only [Nat.add_sub_cancel,newestFirstSelf (falls _)] using permuted
  · rintro ⟨onOne,fits⟩ orders
    have listing := @listedPages ledger walletId pageSize orders _ (fun page first last => fits page first (last.trans all))
    refine ⟨?_,?_,?_,?_⟩
    · intro page first last
      obtain ⟨i,rfl⟩ := Nat.exists_eq_add_of_le' first
      exact ⟨_,pageAnswer (fits _ first last)⟩
    · rw [listing]
      exact once.mpr onOne _ (allowedOrders orders)
    · rw [listing]
      exact Paging.pagesFall (allowedOrders orders) _
    -- the last page is not full or has nothing behind it
    · intro page beyond last
      obtain ⟨i,rfl⟩ := Nat.exists_eq_add_of_le' (Nat.zero_lt_of_lt beyond)
      have past : (ledger.history walletId).length ≤ i * pageSize :=
        Nat.le_trans enough (Nat.mul_le_mul_right _ (Nat.le_of_lt_succ beyond))
      rw [pageAnswer (fits _ (Nat.succ_pos i) last),Paging.page,List.drop_eq_nil_of_le,List.take_nil]
      rw [newestFirstFalling.perm.length_eq]
      exact past

def twoWallets : List Wallet :=
  [⟨11,1,⟨10000,by decide⟩,"USD",1,⟨2024,1,1,0,0,0,0⟩⟩,⟨12,2,⟨10000,by decide⟩,"USD",1,⟨2024,1,1,0,0,0,0⟩⟩]

def payment (id : UUID) (key : String) (status : TransactionStatus) (second : Fin 60) : Transaction :=
  ⟨id,11,12,⟨100,by decide⟩,"USD",status,key,none,⟨2024,1,1,0,0,second,0⟩⟩

def threePayments : Ledger where
  tables := ⟨[],twoWallets,[payment 21 "a" .completed 1,payment 22 "b" .completed 2,payment 23 "c" .completed 2]⟩
  keyed := ⟨by decide,by decide,by decide,by decide,by decide,by decide⟩

theorem historyPartitionedThree : OnOnePage newness (threePayments.history 11) 2 ∧
    Partitioned (threePayments.pageOf 11 2 (fun _ => [])) (threePayments.history 11) 2 3 := by
  have fits : ∀ page, 1 ≤ page → page ≤ 3 → pageFits page 2 = true := by
    intro page first last
    obtain rfl | rfl | rfl : page = 1 ∨ page = 2 ∨ page = 3 := by omega
    all_goals decide
  have onOne : OnOnePage newness (threePayments.history 11) 2 := by decide +kernel
  exact ⟨onOne,(historyPartitioned threePayments 11 (by decide) (by decide +kernel)).mpr ⟨onOne,fits⟩ (fun _ => [])⟩

def changingOrders (page : Nat) : List Transaction :=
  if page = 1 then [payment 22 "b" .completed 2,payment 23 "c" .completed 2,payment 21 "a" .completed 1]
  else [payment 23 "c" .completed 2,payment 22 "b" .completed 2,payment 21 "a" .completed 1]

theorem listedTwice : ¬ ∀ (ledger : Ledger) (walletId : UUID) (pageSize asked : Nat), 1 ≤ pageSize →
    lastPage (ledger.history walletId).length pageSize ≤ asked → ∀ orders,
    Partitioned (ledger.pageOf walletId pageSize orders) (ledger.history walletId) pageSize asked := by
  intro always
  have once := (always threePayments 11 1 3 (by decide) (by decide +kernel) changingOrders).once
  have twice : listed (threePayments.pageOf 11 1 changingOrders) (lastPage (threePayments.history 11).length 1) =
      [payment 22 "b" .completed 2,payment 22 "b" .completed 2,payment 21 "a" .completed 1] := by
    decide +kernel
  rw [twice] at once
  have distinct := once.nodup_iff.mpr historyDistinct
  simp at distinct

/-! The filter. -/

structure Filtered (ledger : Ledger) (userId : UUID) (page pageSize : Nat) (status : Option String)
    (response : TransactionListResponse) : Prop where
  slice : ∃ order, Falling newness (ledger.filtered userId status) order ∧
    response.transactions = ((order.drop ((page - 1) * pageSize)).take pageSize).map TransactionResponse.modelValidate
  total : response.total = (ledger.filtered userId status).length

section
variable {ledger : Ledger} {userId : UUID} {page pageSize : Nat} {status : Option String}

theorem lookupNothing {order : List Transaction} (nothing : ledger.tables.walletsByUserId userId = []) :
    (WalletRepository.getByUserId userId Session.new).alone (answering order) ledger.stores =
      some ((.ok none,Session.new),ledger.stores) := by
  have got : answering order ledger.stores (.selectWalletByUserId userId) = some (.ok [],ledger.stores) :=
    congrArg (fun rows => some (Except.ok rows,ledger.stores)) nothing
  exact (Task.aloneThen (aloneExecute rfl got)).trans rfl

theorem lookupWallet {order : List Transaction} {wallet : Wallet}
    (one : ledger.tables.walletsByUserId userId = [wallet]) :
    (WalletRepository.getByUserId userId Session.new).alone (answering order) ledger.stores =
      some ((.ok (some ⟨wallet.id⟩),Session.new.merge wallet),ledger.stores) := by
  have got : answering order ledger.stores (.selectWalletByUserId userId) = some (.ok [wallet],ledger.stores) :=
    congrArg (fun rows => some (Except.ok rows,ledger.stores)) one
  exact (Task.aloneThen (aloneExecute rfl got)).trans rfl

theorem filteredNothing (nothing : ledger.tables.walletsByUserId userId = []) (status : Option String) :
    ledger.filtered userId status = [] := by
  refine List.filter_eq_nil_iff.mpr ?_
  intro x _ wanted
  simp only [Bool.and_eq_true,decide_eq_true_eq] at wanted
  obtain ⟨⟨wallet,here,owner,_⟩,_⟩ := wanted
  have found := Tables.walletsByUserIdMem.mpr ⟨here,owner⟩
  rw [nothing] at found
  contradiction

theorem filteredWallet {wallet : Wallet} (one : ledger.tables.walletsByUserId userId = [wallet]) :
    ledger.filtered userId none = ledger.tables.transactionsOf wallet.id := by
  have only : ∀ other, other ∈ ledger.tables.wallets ∧ other.userId = userId ↔ other = wallet := by
    intro other
    rw [← Tables.walletsByUserIdMem,one,List.mem_singleton]
  refine List.filter_congr ?_
  intro x _
  rw [Bool.eq_iff_iff]
  simp only [Option.all_none,Bool.and_true,decide_eq_true_eq,Tables.party,Bool.or_eq_true,beq_iff_eq]
  constructor
  · rintro ⟨other,here,owner,party⟩
    rw [(only other).mp ⟨here,owner⟩] at party
    exact party
  · intro party
    obtain ⟨here,owner⟩ := (only wallet).mpr rfl
    exact ⟨wallet,here,owner,party⟩

def unfiltered (ledger : Ledger) (userId : UUID) (page pageSize : Nat) (order : List Transaction) : TransactionListResponse :=
  ⟨(((Database.newestFirst (ledger.filtered userId none) order).drop ((page - 1) * pageSize)).take pageSize).map
    TransactionResponse.modelValidate,(ledger.filtered userId none).length,page,pageSize⟩

theorem serviceNothing {order : List Transaction} (nothing : ledger.tables.walletsByUserId userId = []) :
    (PaymentApi.getTransactionHistory userId page pageSize status Session.new).alone (answering order) ledger.stores =
      some ((.ok (unfiltered ledger userId page pageSize order),Session.new),ledger.stores) := by
  have nobody : Database.newestFirst [] order = [] :=
    (show (Database.newestFirst [] order).Perm [] from newestFirstFalling.perm).eq_nil
  refine (Task.aloneThen (lookupNothing nothing)).trans ?_
  simp only [unfiltered,filteredNothing nothing,nobody,List.drop_nil,List.take_nil,List.map_nil]
  rfl

theorem serviceWallet {order : List Transaction} {wallet : Wallet}
    (one : ledger.tables.walletsByUserId userId = [wallet]) :
    (PaymentApi.getTransactionHistory userId page pageSize status Session.new).alone (answering order) ledger.stores =
      some ((if pageFits page pageSize then .ok (unfiltered ledger userId page pageSize order) else .error .dataError,
        Session.new.merge wallet),ledger.stores) := by
  have loaded : (WalletRef.id ⟨wallet.id⟩ (Session.new.merge wallet)).alone (answering order) ledger.stores =
      some ((.ok wallet.id,Session.new.merge wallet),ledger.stores) := by
    rw [idLoaded (newMerge wallet)]
    rfl
  have queried := @pageQuery ledger wallet.id pageSize order (Session.new.merge wallet) page (mergeClean _ _)
  refine (Task.aloneThen (lookupWallet one)).trans ((Task.aloneThen loaded).trans ?_)
  cases fits : pageFits page pageSize with
  | true =>
    rw [fits,if_pos rfl] at queried
    rw [if_pos rfl,unfiltered,filteredWallet one]
    exact (Task.aloneThen queried).trans rfl
  | false =>
    rw [fits,if_neg Bool.false_ne_true] at queried
    rw [if_neg Bool.false_ne_true]
    exact Task.aloneRaised queried

def Ledger.reaches (ledger : Ledger) (userId : UUID) (page pageSize : Nat) : Bool :=
  (ledger.tables.walletsByUserId userId).isEmpty || pageFits page pageSize

theorem historyResponse [Pydantic] (order : List Transaction) :
    ∃ s, (Call.program (.getTransactionHistory userId page pageSize status)).alone (answering order) ledger.stores =
      some (if ledger.reaches userId page pageSize then .ok (.history (unfiltered ledger userId page pageSize order))
        else .error .dataError,s) := by
  rw [Call.program,Program.aloneBind]
  rcases ledger.keyed.ownerLookup userId with nothing | ⟨wallet,_,_,one⟩
  · rw [Call.service,Task.aloneThen (serviceNothing nothing),Ledger.reaches,nothing]
    exact ⟨_,rfl⟩
  · rw [Ledger.reaches,one,List.isEmpty_cons,Bool.false_or]
    have served := @serviceWallet ledger userId page pageSize status order wallet one
    cases fits : pageFits page pageSize with
    | true =>
      rw [fits,if_pos rfl] at served
      rw [Call.service,Task.aloneThen served]
      exact ⟨_,rfl⟩
    | false =>
      rw [fits,if_neg Bool.false_ne_true] at served
      rw [Call.service,Task.aloneRaised served]
      exact ⟨_,rfl⟩

end

theorem historyFiltered [Pydantic] (ledger : Ledger) (userId : UUID) (page pageSize : Nat) (status : Option String) :
    (∀ order, ∃ response s, (Call.program (.getTransactionHistory userId page pageSize status)).alone (answering order)
      ledger.stores = some (.ok (.history response),s) ∧ Filtered ledger userId page pageSize status response) ↔
      (∀ x ∈ ledger.filtered userId none, ∀ s, status = some s → x.status.value = s) ∧
        ledger.reaches userId page pageSize = true := by
  have part : ledger.filtered userId status =
      (ledger.filtered userId none).filter (fun x => status.all (fun s => x.status.value == s)) := by
    simp only [Ledger.filtered,List.filter_filter,Option.all_none,Bool.and_true]
    refine List.filter_congr ?_
    intro x _
    rw [Bool.and_comm]
  have answered := @historyResponse ledger userId page pageSize status _
  constructor
  · intro always
    obtain ⟨response,s',ran,_,total⟩ := always []
    obtain ⟨s'',ran'⟩ := answered []
    rw [ran'] at ran
    cases reached : ledger.reaches userId page pageSize with
    | false =>
      rw [reached] at ran
      cases ran
    | true =>
      rw [reached] at ran
      cases ran
      refine ⟨?_,rfl⟩
      intro x here s asked
      rw [part] at total
      have all := List.length_filter_eq_length_iff.mp total.symm x here
      simpa [asked] using all
  · rintro ⟨all,reached⟩ order
    have whole : ledger.filtered userId status = ledger.filtered userId none := by
      rw [part]
      refine List.filter_eq_self.mpr ?_
      intro x here
      cases asked : status with
      | none => rfl
      | some s => simpa using all x here s asked
    obtain ⟨s,ran⟩ := answered order
    rw [reached,if_pos rfl] at ran
    exact ⟨_,s,ran,⟨⟨_,whole ▸ newestFirstFalling,rfl⟩,by rw [whole]; rfl⟩⟩

open JsonMode in
theorem failedAsked : ¬ ∀ (ledger : Ledger) (userId : UUID) (page pageSize : Nat) (status : Option String) (order),
    ∃ response s, (Call.program (.getTransactionHistory userId page pageSize status)).alone (answering order)
      ledger.stores = some (.ok (.history response),s) ∧ Filtered ledger userId page pageSize status response := by
  intro always
  obtain ⟨response,s,ran,_,total⟩ := always threePayments 1 1 20 (some "FAILED") []
  obtain ⟨s',ran'⟩ := @historyResponse threePayments 1 1 20 (some "FAILED") _ []
  have reached : threePayments.reaches 1 1 20 = true := by decide +kernel
  rw [ran',reached] at ran
  cases ran
  have three : (threePayments.filtered 1 none).length = 3 := by decide +kernel
  have nothing : (threePayments.filtered 1 (some "FAILED")).length = 0 := by decide +kernel
  rw [nothing] at total
  exact absurd (three.symm.trans total) (by decide)

end PaymentSystem
