import PaymentSystem.Guarantees.HistoryPages
import PaymentSystem.Guarantees.Linearizability

/-! The transaction history in a running system. The total is of the commits up to one
point of the request, the page of those up to a later one; and a client that reads page
after page while others pay misses nothing that was there before. -/
namespace PaymentSystem
open Interleaving (Reach)
open Interleaving.Task (Ends endsThen endsLocal)
open Paging (Falling)

def Tables.historyOf (t : Tables) (userId : UUID) : List Transaction :=
  t.transactions.filter (fun x => decide (∃ wallet ∈ t.wallets, wallet.userId = userId ∧ Tables.party wallet.id x = true))

def SteppedAt (pid : Nat) (w : World) (n : Nat) : Prop := ∃ rec ∈ w.log, rec.pid = pid ∧ rec.commits = n

def Sliced (t : Tables) (userId : UUID) (page pageSize : Nat) (shown : List TransactionResponse) : Prop :=
  ∃ order, Falling newness (t.historyOf userId) order ∧
    shown = (Paging.page order pageSize (page - 1)).map TransactionResponse.modelValidate

structure Snapshot (pid : Nat) (w : World) (userId : UUID) (page pageSize : Nat) (response : TransactionListResponse)
    (n m : Nat) : Prop where
  echoed : response.page = page ∧ response.pageSize = pageSize
  ordered : n ≤ m
  within : m ≤ w.wal.length
  counted : SteppedAt pid w n
  listed : SteppedAt pid w m
  total : response.total = ((tablesAt w.wal n).historyOf userId).length
  slice : Sliced (tablesAt w.wal m) userId page pageSize response.transactions

def Snapshots (pid : Nat) (w : World) : Call → Outcome → Prop
  | .getTransactionHistory userId page pageSize _, .ok (.history response) =>
      ∃ n m, Snapshot pid w userId page pageSize response n m
  | _, _ => True

def Pages (pid : Nat) (userId : UUID) (page pageSize : Nat) :
    Except Exn TransactionListResponse → Session → World → Prop
  | .ok response,_,w => ∃ n m, Snapshot pid w userId page pageSize response n m
  | .error _,_,_ => True

section
variable {pid : Nat} {w w' : World} {t t' : Tables} {userId : UUID} {page pageSize n m : Nat}
  {response : TransactionListResponse}

theorem SteppedAt.grows (h : SteppedAt pid w n) (grows : Grows w w') : SteppedAt pid w' n := by
  obtain ⟨rec,here,known⟩ := h
  exact ⟨rec,grows.member here,known⟩

theorem Snapshot.grows (h : Snapshot pid w userId page pageSize response n m) (grows : Grows w w') :
    Snapshot pid w' userId page pageSize response n m where
  echoed := h.echoed
  ordered := h.ordered
  within := h.within.trans grows.wal.length_le
  counted := h.counted.grows grows
  listed := h.listed.grows grows
  total := by rw [grows.tablesAt (h.ordered.trans h.within)]; exact h.total
  slice := by rw [grows.tablesAt h.within]; exact h.slice

theorem historyNobody (nobody : t.walletsByUserId userId = []) : t.historyOf userId = [] := by
  refine List.filter_eq_nil_iff.mpr ?_
  intro x _ wanted
  obtain ⟨wallet,here,owner,_⟩ := of_decide_eq_true wanted
  have found := Tables.walletsByUserIdMem.mpr ⟨here,owner⟩
  rw [nobody] at found
  contradiction

theorem historyOwner (keyed : t.Keyed) {wallet : Wallet} (here : wallet ∈ t.wallets) (owner : wallet.userId = userId) :
    t.historyOf userId = t.transactionsOf wallet.id := by
  refine List.filter_congr ?_
  intro x _
  rw [Bool.eq_iff_iff,decide_eq_true_eq]
  constructor
  · rintro ⟨other,inside,owned,party⟩
    cases Tables.uniqueBy keyed.owners inside here (owned.trans owner.symm)
    exact party
  · intro party
    exact ⟨wallet,here,owner,party⟩

theorem historyGrows (evolves : t.Evolves t') : (t.historyOf userId).Sublist (t'.historyOf userId) := by
  refine (List.Sublist.trans ?_ (evolves.transactions.sublist.filter _))
  refine List.monotone_filter_right _ ?_
  intro x wanted
  obtain ⟨wallet,here,owner,party⟩ := of_decide_eq_true wanted
  obtain ⟨later,inside,becomes⟩ := evolves.wallets wallet here
  exact decide_eq_true ⟨later,inside,becomes.userId ▸ owner,becomes.id ▸ party⟩

theorem historyNodup (keyed : t.Keyed) : (t.historyOf userId).Nodup :=
  (List.Nodup.of_map _ keyed.transactionIds).filter _

end

section
variable [Pydantic] {pid : Nat} {w : World} {userId : UUID} {page pageSize : Nat} {status : Option String}

theorem keyedAt (intact : Intact w) (n : Nat) : (tablesAt w.wal n).Keyed := (intact.legal.upTo n).keyed

theorem OwnRow.history {row : Wallet} {n m : Nat} (own : OwnRow pid w userId row n) (intact : Intact w) (later : n ≤ m) :
    (tablesAt w.wal m).historyOf userId = (tablesAt w.wal m).transactionsOf row.id := by
  obtain ⟨last,here,becomes⟩ := (intact.legal.evolvesBetween later).wallets row own.read.row
  rw [historyOwner (keyedAt intact m) here (becomes.userId.symm.trans own.owner),becomes.id]

theorem endsPages (intact : Intact w)
    (working : Working pid (.getTransactionHistory userId page pageSize status) [] [] w) :
    Ends machine outline pid (PaymentApi.getTransactionHistory userId page pageSize status) Session.new w
      (Pages pid userId page pageSize) := by
  apply endsThen intact
  refine endsGetByUserId intact working rfl userId (fun _ _ _ _ _ => trivial) ?_ ?_
  · intro w₁ n _ intact₁ _ none
    have nothing := historyNobody none.none
    refine ⟨n,n,⟨rfl,rfl⟩,Nat.le_refl _,none.within,none.record,none.record,?_,[],?_,?_⟩
    · rw [nothing]
      rfl
    · rw [nothing]
      exact ⟨List.Perm.refl _,List.Pairwise.nil⟩
    · simp [Paging.page]
  · intro w₁ row k grows₁ intact₁ working₁ read _ owner
    have own : OwnRow pid w₁ userId row k := ⟨read,owner⟩
    refine endsLocal (idLoaded (newMerge row)) ?_
    apply endsThen intact₁
    apply endsThen intact₁
    refine endsExecute rfl ?_
    refine endsSelect rfl rfl (fun _ pending _ => ⟨fun _ => pending,isNot rfl⟩) working₁ (fun _ _ _ _ _ => trivial) ?_
    intro w₂ choice₂ r₂ s₂ later₂ intact₂ working₂ ran₂ intact₂'
    cases ran₂
    have working₃ : Working pid (.getTransactionHistory userId page pageSize status) [] []
        (w₂.called pid (.countTransactionsOf row.attributes.id) .none
          (.ok ((w₂.stores.db.view pid).transactionsOf row.attributes.id).length) w₂.stores) :=
      working₂.calledSame rfl rfl
    have counted : SteppedAt pid (w₂.called pid (.countTransactionsOf row.attributes.id) .none
        (.ok ((w₂.stores.db.view pid).transactionsOf row.attributes.id).length) w₂.stores) w₂.wal.length :=
      ⟨_,calledLast,rfl,rfl⟩
    apply endsThen intact₂'
    refine endsExecute rfl ?_
    refine endsSelect rfl rfl (fun _ pending _ => ⟨fun _ => pending,isNot rfl⟩) working₃ (fun _ _ _ _ _ => trivial) ?_
    intro w₃ choice₃ r₃ s₃ later₃ intact₃ working₃' ran₃ intact₃'
    obtain ⟨rfl,⟨_,rfl⟩ | ⟨_,rfl⟩⟩ := checkedCases ran₃
    swap
    · trivial
    have grows₂ : Grows w₂ w₃ := Grows.trans (calledGrows (List.prefix_refl _)) later₃.grows
    have own₃ : OwnRow pid w₃ userId row k := own.grows (later₂.grows.trans grows₂)
    have now₂ : tablesAt w₃.wal w₂.wal.length = w₂.tables := by
      rw [grows₂.tablesAt (Nat.le_refl _),intact₂.now]
    have first : k ≤ w₂.wal.length := read.within.trans later₂.grows.wal.length_le
    refine ⟨w₂.wal.length,w₃.wal.length,⟨rfl,rfl⟩,grows₂.wal.length_le,Nat.le_refl _,
      (counted.grows later₃.grows).grows (calledGrows (List.prefix_refl _)),⟨_,calledLast,rfl,rfl⟩,?_,?_⟩
    · change ((w₂.db.view pid).transactionsOf row.id).length = ((tablesAt w₃.wal w₂.wal.length).historyOf userId).length
      rw [Database.viewNothing working₂.pending,own₃.history intact₃ first,now₂]
    · refine ⟨Database.newestFirst (w₃.tables.transactionsOf row.id) choice₃.order,?_,?_⟩
      · change Falling newness ((tablesAt w₃.wal w₃.wal.length).historyOf userId) _
        rw [own₃.history intact₃ (first.trans grows₂.wal.length_le),intact₃.now]
        exact newestFirstFalling
      · have seen : w₃.db.view pid = w₃.tables := Database.viewNothing working₃'.pending
        rw [← seen]
        rfl

theorem concludableSnapshots : Concludable (fun pid w call outcome => Snapshots pid w call outcome) where
  stays := by
    intro pid w w' call outcome _ _ grows _ known
    unfold Snapshots at known ⊢
    split at known
    · obtain ⟨n,m,shot⟩ := known
      exact ⟨n,m,shot.grows grows⟩
    · trivial
  stopped := by
    intro pid w call _
    cases call <;> trivial
  service := by
    intro pid w call intact working
    cases call with
    | getTransactionHistory userId page pageSize status =>
      exact Interleaving.Task.endsBind (endsPages intact working) intact (fun _ _ _ _ known => known)
        (fun _ _ _ _ _ => trivial)
    | _ => exact Interleaving.Task.endsMono (endsService intact working) intact (fun r _ w _ _ => trivial)

end

/-- A client that asks for the pages in turn, each when it has the one before, up to
one that is not full. -/
structure ReadsPages [Pydantic] (c : State) (userId : UUID) (pageSize last : Nat) (asks : Nat → Nat)
    (responses : Nat → TransactionListResponse) : Prop where
  asked : ∀ i ≤ last, ∃ status,
    c.shared.calls[asks i]? = some (.getTransactionHistory userId (i + 1) pageSize status)
  answered : ∀ i ≤ last, c.outcome (asks i) = some (.ok (.history (responses i)))
  turns : ∀ i < last, ∃ c₁, Reachable c₁ ∧ Reach machine (fun _ _ => True) c₁ c ∧
    c₁.outcome (asks i) = some (.ok (.history (responses i))) ∧ c₁.shared.calls.length ≤ asks (i + 1)
  short : (responses last).transactions.length < pageSize

/-! The first user reads a history of one payment a page, and pays again after the first page. -/

def askPage (page : Nat) : Call := .getTransactionHistory 102 page 1 none

def nextDay (call : Call) (pid count seed : Nat) : List Happening :=
  .start call :: (List.range count).map (fun i => .step pid {calm (seed + i) with now := ⟨2024,1,2,0,0,0,0⟩})

def paidAgain : PaymentRequest := .to 202 rent.amount "again" (by decide)

section
open JsonMode

def beforePages : Run initial := ⟨opening ++ serve (.sendMoney 102 rent false) 3 11 400,by decide +kernel⟩

def firstPage : Run beforePages.last := ⟨serve (askPage 1) 4 4 500,by decide +kernel⟩

def secondPage : Run firstPage.last :=
  ⟨nextDay (.sendMoney 102 paidAgain false) 5 11 600 ++ serve (askPage 2) 6 4 700,by decide +kernel⟩

def thirdPage : Run secondPage.last := ⟨serve (askPage 3) 7 4 800,by decide +kernel⟩

end

def rentRow : Transaction := ⟨407,103,203,⟨3000,by decide⟩,"USD",.completed,"rent",none,⟨2024,1,1,0,0,0,0⟩⟩

def rentPages : Nat → TransactionListResponse
  | 0 => ⟨[TransactionResponse.modelValidate rentRow],1,1,1⟩
  | 1 => ⟨[TransactionResponse.modelValidate rentRow],2,2,1⟩
  | page => ⟨[],2,page + 1,1⟩

def rentAsks : Nat → Nat
  | 0 => 4
  | page => page + 5

open JsonMode in
theorem rentReads : ReadsPages thirdPage.last 102 1 2 rentAsks rentPages where
  asked := by
    intro i within
    refine ⟨none,?_⟩
    obtain rfl | rfl | rfl : i = 0 ∨ i = 1 ∨ i = 2 := by omega
    all_goals decide +kernel
  answered := by
    intro i within
    obtain rfl | rfl | rfl : i = 0 ∨ i = 1 ∨ i = 2 := by omega
    all_goals decide +kernel
  turns := by
    intro i before
    have first : Reachable firstPage.last := beforePages.reaches.trans firstPage.reaches
    have second : Reachable secondPage.last := first.trans secondPage.reaches
    obtain rfl | rfl : i = 0 ∨ i = 1 := by omega
    · exact ⟨firstPage.last,first,secondPage.reaches.trans thirdPage.reaches,by decide +kernel,by decide +kernel⟩
    · exact ⟨secondPage.last,second,thirdPage.reaches,by decide +kernel,by decide +kernel⟩
  short := by decide

theorem historySnapshot [Pydantic] {c : State} (reachable : Reachable c) {pid : Nat} {userId : UUID} {page pageSize : Nat}
    {status : Option String} {response : TransactionListResponse}
    (called : c.shared.calls[pid]? = some (.getTransactionHistory userId page pageSize status))
    (done : c.outcome pid = some (.ok (.history response))) :
    ∃ n m, Snapshot pid c.shared userId page pageSize response n m ∧
      (response.transactions.map TransactionResponse.id).Nodup ∧
      response.transactions.Pairwise (fun s t => t.createdAt.rank ≤ s.createdAt.rank) ∧
      response.total ≤ ((tablesAt c.shared.wal m).historyOf userId).length ∧
      (((tablesAt c.shared.wal m).historyOf userId).length = ((tablesAt c.shared.wal n).historyOf userId).length →
        (tablesAt c.shared.wal m).historyOf userId = (tablesAt c.shared.wal n).historyOf userId) := by
  have intact := reachableIntact reachable
  obtain ⟨n,m,shot⟩ : ∃ n m, Snapshot pid c.shared userId page pageSize response n m :=
    concludableSnapshots.reachable reachable called done
  have part : ((tablesAt c.shared.wal n).historyOf userId).Sublist ((tablesAt c.shared.wal m).historyOf userId) :=
    historyGrows (intact.legal.evolvesBetween shot.ordered)
  obtain ⟨order,falling,shown⟩ := shot.slice
  have slice : (Paging.page order pageSize (page - 1)).Sublist order :=
    (List.take_sublist ..).trans (List.drop_sublist ..)
  refine ⟨n,m,shot,?_,?_,?_,?_⟩
  · have ids : ((tablesAt c.shared.wal m).historyOf userId).map Transaction.id |>.Nodup :=
      (keyedAt intact m).transactionIds.sublist (List.filter_sublist.map _)
    have ids' : (order.map Transaction.id).Nodup := ((falling.perm.map _).nodup_iff).mpr ids
    rw [shown,List.map_map]
    exact ids'.sublist (slice.map _)
  · rw [shown]
    exact List.pairwise_map.mpr (falling.falls.sublist slice)
  · rw [shot.total]
    exact part.length_le
  · intro same
    exact (part.eq_of_length same.symm).symm

open JsonMode in
theorem historySnapshotRent : ∃ n m, Snapshot 7 thirdPage.last.shared 102 3 1 (rentPages 2) n m := by
  have reachable : Reachable thirdPage.last :=
    ((beforePages.reaches.trans firstPage.reaches).trans secondPage.reaches).trans thirdPage.reaches
  obtain ⟨n,m,shot,_⟩ := historySnapshot reachable
    (by decide +kernel : thirdPage.last.shared.calls[7]? = some (.getTransactionHistory 102 3 1 none))
    (by decide +kernel : thirdPage.last.outcome 7 = some (.ok (.history (rentPages 2))))
  exact ⟨n,m,shot⟩

section
variable [Pydantic] {c c₀ : State} {userId : UUID} {pageSize last : Nat} {asks : Nat → Nat}
  {responses : Nat → TransactionListResponse}

theorem readsSnapshots (reachable : Reachable c) (reads : ReadsPages c userId pageSize last asks responses) :
    ∃ counts : Nat → Nat, (∀ i < last, counts i ≤ counts (i + 1)) ∧ ∀ i ≤ last, SteppedAt (asks i) c.shared (counts i) ∧
      counts i ≤ c.shared.wal.length ∧
      Sliced (tablesAt c.shared.wal (counts i)) userId (i + 1) pageSize (responses i).transactions := by
  have shots : ∀ i, ∃ m, i ≤ last → SteppedAt (asks i) c.shared m ∧ m ≤ c.shared.wal.length ∧
      Sliced (tablesAt c.shared.wal m) userId (i + 1) pageSize (responses i).transactions := by
    intro i
    by_cases within : i ≤ last
    · obtain ⟨status,called⟩ := reads.asked i within
      obtain ⟨n,m,shot⟩ : ∃ n m, Snapshot (asks i) c.shared userId (i + 1) pageSize (responses i) n m :=
        concludableSnapshots.reachable reachable called (reads.answered i within)
      exact ⟨m,fun _ => ⟨shot.listed,shot.within,shot.slice⟩⟩
    · exact ⟨0,fun inside => absurd inside within⟩
  choose counts known using shots
  refine ⟨counts,?_,known⟩
  intro i before
  obtain ⟨c₁,reachable₁,later,done,unarrived⟩ := reads.turns i before
  obtain ⟨rec,here,own,early⟩ := (known i (Nat.le_of_lt before)).1
  obtain ⟨rec',here',own',late⟩ := (known (i + 1) before).1
  have first := overEarly reachable₁ later done here own
  have second := unarrivedLate reachable₁ later unarrived here' own'
  omega

end

theorem pagesMissNothing [Pydantic] {c c₀ : State} {userId : UUID} {pageSize last : Nat} {asks : Nat → Nat}
    {responses : Nat → TransactionListResponse} {x : Transaction} (reachable : Reachable c)
    (reads : ReadsPages c userId pageSize last asks responses) (reachable₀ : Reachable c₀)
    (later : Reach machine (fun _ _ => True) c₀ c) (unasked : c₀.shared.calls.length ≤ asks 0)
    (here : x ∈ c₀.shared.tables.historyOf userId)
    (alone : ∀ y ∈ c.shared.tables.historyOf userId, newness y = newness x → y = x) :
    (∃ i ≤ last, TransactionResponse.modelValidate x ∈ (responses i).transactions) ∧
      ∀ i j, i < j → j ≤ last → TransactionResponse.modelValidate x ∈ (responses i).transactions →
        TransactionResponse.modelValidate x ∈ (responses j).transactions →
        ∃ y ∈ c.shared.tables.historyOf userId, newness x < newness y ∧
          (∀ c₁, Reachable c₁ → Reach machine (fun _ _ => True) c₁ c → c₁.shared.calls.length ≤ asks i →
            y ∉ c₁.shared.tables.historyOf userId) ∧
          ∀ c₁ outcome, Reachable c₁ → Reach machine (fun _ _ => True) c₁ c → c₁.outcome (asks j) = some outcome →
            y ∈ c₁.shared.tables.historyOf userId := by
  have intact := reachableIntact reachable
  obtain ⟨counts,rising,known⟩ := readsSnapshots reachable reads
  have grows : ∀ n m, n ≤ m → ((tablesAt c.shared.wal n).historyOf userId).Sublist
      ((tablesAt c.shared.wal m).historyOf userId) := fun n m order => historyGrows (intact.legal.evolvesBetween order)
  have state : ∀ c₁, Reachable c₁ → Reach machine (fun _ _ => True) c₁ c →
      c₁.shared.tables = tablesAt c.shared.wal c₁.shared.wal.length := by
    intro c₁ reachable₁ later₁
    rw [(reachGrows later₁).tablesAt (Nat.le_refl _),(reachableIntact reachable₁).now]
  have orders : ∀ i, ∃ order, i ≤ last → Falling newness ((tablesAt c.shared.wal (counts i)).historyOf userId) order ∧
      (responses i).transactions = (Paging.page order pageSize i).map TransactionResponse.modelValidate := by
    intro i
    by_cases within : i ≤ last
    · obtain ⟨order,falling,shown⟩ := (known i within).2.2
      exact ⟨order,fun _ => ⟨falling,shown⟩⟩
    · exact ⟨[],fun inside => absurd inside within⟩
  choose order cut using orders
  have whole : ∀ i ≤ last, ((tablesAt c.shared.wal (counts i)).historyOf userId).Sublist
      (c.shared.tables.historyOf userId) := by
    intro i within
    rw [← intact.now]
    exact grows _ _ (known i within).2.1
  have distinct : ((tablesAt c.shared.wal (counts last)).historyOf userId).Nodup := historyNodup (keyedAt intact (counts last))
  have alone' : ∀ y ∈ (tablesAt c.shared.wal (counts last)).historyOf userId, newness y = newness x → y = x :=
    fun y inside => alone y ((whole last (Nat.le_refl _)).subset inside)
  have more : ∀ i < last, ((tablesAt c.shared.wal (counts i)).historyOf userId).Sublist
      ((tablesAt c.shared.wal (counts (i + 1))).historyOf userId) := fun i before => grows _ _ (rising i before)
  have falling := fun i within => (cut i within).1
  have start : x ∈ (tablesAt c.shared.wal (counts 0)).historyOf userId := by
    obtain ⟨rec,inside,own,first⟩ := (known 0 (Nat.zero_le _)).1
    rw [state c₀ reachable₀ later] at here
    exact (grows _ _ (first ▸ unarrivedLate reachable₀ later unasked inside own)).subset here
  have final : x ∈ c.shared.tables.historyOf userId := (whole 0 (Nat.zero_le _)).subset start
  refine ⟨?_,?_⟩
  · have short := reads.short
    rw [(cut last (Nat.le_refl _)).2,List.length_map] at short
    obtain ⟨i,within,inside⟩ := Paging.growingPages falling more distinct alone' start short
    exact ⟨i,within,(cut i within).2 ▸ List.mem_map_of_mem inside⟩
  · intro i j earlier within first again
    have onPage : ∀ k ≤ last, TransactionResponse.modelValidate x ∈ (responses k).transactions →
        x ∈ Paging.page (order k) pageSize k := by
      intro k inside onPage
      rw [(cut k inside).2] at onPage
      obtain ⟨y,on,same⟩ := List.mem_map.mp onPage
      have here' := (whole k inside).subset ((falling k inside).perm.mem_iff.mp (List.mem_of_mem_drop (List.mem_of_mem_take on)))
      cases Tables.uniqueBy intact.keyed.transactionIds (List.mem_of_mem_filter here') (List.mem_of_mem_filter final)
        (congrArg TransactionResponse.id same)
      exact on
    have risen := Paging.repeatedPages falling more distinct alone' earlier within (onPage i (by omega) first)
      (onPage j within again)
    -- it has moved to a later page, so there is more above it than before
    obtain ⟨y,inside,newer,new⟩ := Paging.newAbove (historyNodup (keyedAt intact (counts j))) risen
    refine ⟨y,(whole j within).subset inside,newer,?_,?_⟩
    · intro c₁ reachable₁ later₁ unarrived old
      obtain ⟨rec,there,own,late⟩ := (known i (by omega)).1
      rw [state c₁ reachable₁ later₁] at old
      exact new ((grows _ _ (late ▸ unarrivedLate reachable₁ later₁ unarrived there own)).subset old)
    · intro c₁ outcome reachable₁ later₁ done
      obtain ⟨rec,there,own,early⟩ := (known j within).1
      rw [state c₁ reachable₁ later₁]
      exact (grows _ _ (early ▸ overEarly reachable₁ later₁ done there own)).subset inside

open JsonMode in
theorem pagesMissNothingRent : (∃ i ≤ 2, TransactionResponse.modelValidate rentRow ∈ (rentPages i).transactions) ∧
    ∃ y ∈ thirdPage.last.shared.tables.historyOf 102, newness rentRow < newness y := by
  have later := (firstPage.reaches.trans secondPage.reaches).trans thirdPage.reaches
  obtain ⟨onPage,twice⟩ := pagesMissNothing (beforePages.reaches.trans later) rentReads beforePages.reaches later
    (by decide +kernel) (by decide +kernel : rentRow ∈ beforePages.last.shared.tables.historyOf 102) (by decide +kernel)
  obtain ⟨y,here,newer,_⟩ := twice 0 1 (by decide) (by decide) (by decide) (by decide)
  exact ⟨onPage,y,here,newer⟩

end PaymentSystem
