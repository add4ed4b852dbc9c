import PaymentSystem.System.Invariant
import PaymentSystem.System.Accounts

/-! What a request in flight knows, before its commit and after it, and the rules
for its awaited calls. A call before the commit that fails leaves the request
uncommitted; one that is carried out is described by its statement alone. -/
namespace PaymentSystem
open Numerics (Decimal Numeric)
open Interleaving (Task)
open Interleaving.Task (Ends endsThen)

theorem isNot {kind : Bool} {p : Prop} (h : kind = false) : kind = true → p := by
  intro is
  rw [h] at is
  contradiction

structure Uncommitted (pid : Nat) (call : Call) (w : World) : Prop where
  call : w.calls[pid]? = some call
  once : ∀ c ∈ w.wal, c.pid ≠ pid
  early : ∀ rec ∈ w.log, rec.pid = pid → rec.early = true

structure Working (pid : Nat) (call : Call) (held : List Resource) (writes : List Write) (w : World) : Prop
    extends Uncommitted pid call w where
  pending : w.db.pending pid = writes
  locks : ∀ r, w.db.locks r = some pid ↔ r ∈ held

def Settled (pid : Nat) (w : World) : Prop :=
  (∀ c ∈ w.wal, c.pid = pid → ∀ id, c.moves id = true → Invalidated pid id w) ∨ Broken pid w

def Deleted (pid : Nat) (ids : List UUID) (w : World) : Prop :=
  (∀ id ∈ ids, Invalidated pid id w) ∨ Broken pid w

def Wrecked (pid : Nat) (w : World) : Prop := Settled pid w ∧ (CommittedBy pid w → Spoiled pid w)

def Refreshed (pid : Nat) (w : World) : Prop :=
  ∀ rec ∈ w.log, rec.pid = pid → rec.isRefresh = true → rec.failed = false

structure Committed (pid : Nat) (call : Call) (ids : List UUID) (w : World) : Prop where
  call : w.calls[pid]? = some call
  pending : w.db.pending pid = []
  commit : CommittedBy pid w
  moves : ∀ c ∈ w.wal, c.pid = pid → ∀ id, c.moves id = true → id ∈ ids
  refreshed : Refreshed pid w

section
variable {pid : Nat} {call : Call} {w w' : World} {l : Session} {held : List Resource} {writes : List Write}
  {ids : List UUID}

theorem startedOf {w : World} (h : w.calls[pid]? = some call) : pid < w.calls.length :=
  (List.getElem?_eq_some_iff.mp h).1

theorem Uncommitted.later (h : Uncommitted pid call w) (later : Later pid w w') : Uncommitted pid call w' where
  call := later.grows.call h.call
  once := fun c hc own => h.once c (later.commits c hc own) own
  early := fun rec here own => h.early rec (later.records rec here own) own

theorem Working.later (h : Working pid call held writes w) (later : Later pid w w') :
    Working pid call held writes w' where
  toUncommitted := h.toUncommitted.later later
  pending := later.pending.trans h.pending
  locks := fun r => (later.locks r).trans (h.locks r)

theorem Settled.later (h : Settled pid w) (later : Later pid w w') : Settled pid w' := by
  rcases h with deleted | broken
  · refine .inl ?_
    intro c hc own id moves
    exact (deleted c (later.commits c hc own) own id moves).grows later.grows
  · exact .inr (broken.grows later.grows)

theorem Wrecked.later (h : Wrecked pid w) (later : Later pid w w') : Wrecked pid w' := by
  refine ⟨h.1.later later,?_⟩
  rintro ⟨c,hc,own⟩
  exact (h.2 ⟨c,later.commits c hc own,own⟩).grows later.grows

theorem Refreshed.later (h : Refreshed pid w) (later : Later pid w w') : Refreshed pid w' :=
  fun rec here own => h rec (later.records rec here own) own

theorem Committed.later (h : Committed pid call ids w) (later : Later pid w w') :
    Committed pid call ids w' where
  call := later.grows.call h.call
  pending := later.pending.trans h.pending
  commit := h.commit.grows later.grows
  moves := fun c hc own => h.moves c (later.commits c hc own) own
  refreshed := h.refreshed.later later

theorem Deleted.grows (h : Deleted pid ids w) (grows : Grows w w') : Deleted pid ids w' :=
  h.imp (fun deleted id inside => (deleted id inside).grows grows) (·.grows grows)

theorem Committed.settled (h : Committed pid call ids w) (deleted : Deleted pid ids w) : Settled pid w :=
  deleted.imp (fun all c hc own id moves => all id (h.moves c hc own id moves)) id

theorem lockedRow {row : Wallet} (later : Later pid w w') (held : w.db.locks (.wallet row.id) = some pid)
    (here : row ∈ w.tables.wallets) : row ∈ w'.tables.wallets := by
  have found : row ∈ w'.tables.walletsById row.id := by
    rw [later.wallets _ held]
    exact Tables.walletsByIdMem.mpr ⟨here,rfl⟩
  exact (Tables.walletsByIdMem.mp found).1

theorem wreckedOf (once : ∀ c ∈ w.wal, c.pid ≠ pid) : Wrecked pid w := by
  refine ⟨.inl ?_,?_⟩
  · intro c hc own
    exact absurd own (once c hc)
  · rintro ⟨c,hc,own⟩
    exact absurd own (once c hc)

theorem Uncommitted.wrecked (h : Uncommitted pid call w) : Wrecked pid w := wreckedOf h.once

theorem Uncommitted.refreshed (h : Uncommitted pid call w) : Refreshed pid w := by
  intro rec here own refresh
  have early := h.early rec here own
  cases rec with
  | stopped p n => simp [Record.early] at early
  | called p op fault result n =>
    simp only [Record.early,Record.isRefresh] at early refresh
    cases op <;> simp_all [Op.early,Op.isRefresh]

/-! One recorded call. -/

variable {op : Op} {fault : Fault} {r : Res op} {s' : Stores}

theorem calledGrows (wal : w.wal <+: s'.db.wal) : Grows w (w.called pid op fault r s') :=
  growsRecord rfl wal rfl rfl

theorem calledLast : Record.called pid op fault r w.wal.length ∈ (w.called pid op fault r s').log :=
  List.mem_append_right _ (List.mem_singleton_self _)

theorem calledMem {rec : Record} (h : rec ∈ (w.called pid op fault r s').log) :
    rec ∈ w.log ∨ rec = .called pid op fault r w.wal.length := by
  rcases List.mem_append.mp h with h | h
  · exact .inl h
  · exact .inr (List.mem_singleton.mp h)

theorem Uncommitted.called (h : Uncommitted pid call w) (early : op.early = true)
    (wal : s'.db.wal = w.wal) : Uncommitted pid call (w.called pid op fault r s') where
  call := h.call
  once := by
    intro c hc
    exact h.once c (wal ▸ hc)
  early := by
    intro rec here own
    rcases calledMem here with here | rfl
    · exact h.early rec here own
    · exact early

theorem calledFailed (raised : fault ≠ .none) : Failed pid (w.called pid op fault r s') :=
  ⟨_,calledLast,rfl,by simpa [Record.failed] using raised⟩

theorem Locked.called {row : Wallet} (h : Locked pid w row w.wal.length) (wal : s'.db.wal = w.wal) :
    Locked pid (w.called pid op fault r s') row (w.called pid op fault r s').wal.length := by
  have grown : Locked pid (w.called pid op fault r s') row w.wal.length := h.grows (calledGrows (by rw [wal]))
  rw [show (w.called pid op fault r s').wal = w.wal from wal]
  exact grown

theorem settledByFailure {rec : Record} (log : w'.log = w.log ++ [rec]) (wal : w'.wal = w.wal)
    (calls : w'.calls = w.calls) (own : rec.pid = pid) (commits : rec.commits = w.wal.length)
    (failed : rec.failed = true) : Settled pid w' := by
  have grows : Grows w w' := growsRecord calls (by rw [wal]) log commits
  by_cases deleted : ∀ c ∈ w.wal, c.pid = pid → ∀ id, c.moves id = true → Invalidated pid id w
  · refine .inl ?_
    intro c hc mine id moves
    exact (deleted c (wal ▸ hc) mine id moves).grows grows
  · simp only [not_forall] at deleted
    obtain ⟨c,hc,mine,id,moves,kept⟩ := deleted
    obtain ⟨i,inside,here⟩ := List.getElem_of_mem hc
    refine .inr ⟨w.log,rec,[],log,own,failed,.inr (.inr ⟨i,c,id,?_,?_,mine,moves,?_⟩)⟩
    · rw [wal]
      exact List.getElem?_eq_some_iff.mpr ⟨inside,here⟩
    · rw [commits]
      exact inside
    · intro r hr first
      cases deletes : r.invalidates id with
      | false => rfl
      | true => exact absurd ⟨r,hr,first,deletes⟩ kept

theorem calledSettled (wal : s'.db.wal = w.wal) (raised : fault ≠ .none) :
    Settled pid (w.called pid op fault r s') :=
  settledByFailure rfl wal rfl rfl rfl (by simpa [Record.failed] using raised)

theorem calledSpoiled (raised : fault ≠ .none) (kind : op.isRefresh = true ∨ op.isRedis = true) :
    Spoiled pid (w.called pid op fault r s') := by
  refine ⟨_,calledLast,rfl,?_⟩
  simp [Record.spoils,raised,kind]

theorem effectWal {s s' : Stores} (effect : Effect pid s op s') (notCommit : op ≠ .commit) :
    s'.db.wal = s.db.wal := by
  cases effect with
  | committed isCommit => exact absurd isCommit notCommit
  | _ => rfl

theorem effectRedis {s s' : Stores} (effect : Effect pid s op s') (redis : op.isRedis = true) :
    s'.db = s.db := by
  cases effect with
  | locked isSelect => subst isSelect; simp [Op.isRedis] at redis
  | staged sql => rw [sql] at redis; contradiction
  | committed isCommit => subst isCommit; simp [Op.isRedis] at redis
  | released ends => rcases ends with rfl | rfl <;> simp [Op.isRedis] at redis
  | _ => rfl

theorem Working.calledSame (h : Working pid call held writes w) (early : op.early = true)
    (db : s'.db = w.db) : Working pid call held writes (w.called pid op fault r s') where
  toUncommitted := h.toUncommitted.called early (by rw [db])
  pending := by
    change s'.db.pending pid = writes
    rw [db]
    exact h.pending
  locks := by
    intro r
    change s'.db.locks r = some pid ↔ r ∈ held
    rw [db]
    exact h.locks r

theorem Working.staged (h : Working pid call held writes w) (early : op.early = true) (write : Write)
    (db : s'.db = w.db.stage pid write) :
    Working pid call (write.resources ++ held) (writes ++ [write]) (w.called pid op fault r s') where
  toUncommitted := h.toUncommitted.called early (by rw [db]; rfl)
  pending := by
    change s'.db.pending pid = _
    rw [db,Database.stagePending,h.pending]
  locks := by
    intro r
    change s'.db.locks r = some pid ↔ _
    rw [db]
    change (w.db.acquire pid write.resources).locks r = some pid ↔ _
    rw [Database.acquireLocks,h.locks r,List.mem_append]

theorem Working.ordered (h : Working pid call held writes w)
    (above : ∀ r, op.wants = some r → r ∈ held ∨ ∀ below ∈ held, below.rank < r.rank) :
    Ordered pid w op := by
  intro r wanted
  rcases above r wanted with inside | above
  · exact .inl ((h.locks r).mpr inside)
  · exact .inr (fun below mine => above below ((h.locks below).mp mine))

/-! The session's own operations. -/

theorem flushClean (clean : l.dirty = []) : flush l = .done (.ok (),l) := by
  cases l
  simp only at clean
  subst clean
  rfl

theorem executeClean (clean : l.dirty = []) (op : Op) : execute op l = await op l := by
  change (flush l).bind _ = _
  rw [flushClean clean]
  rfl

theorem aloneExecute {S : Type} {exec : S → (op : Op) → Option (Res op × S)} {s s' : S} {op : Op} {r : Res op}
    (clean : l.dirty = []) (h : exec s op = some (r,s')) : (execute op l).alone exec s = some ((r,l),s') := by
  rw [executeClean clean]
  exact Task.aloneAwait h

theorem commitClean (clean : l.dirty = []) : commit l = await .commit l := by
  change (flush l).bind _ = _
  rw [flushClean clean]
  rfl

theorem attributesLoaded {ref : WalletRef} {a : WalletAttributes}
    (h : l.identityMap ref.key = some (.loaded a)) : ref.attributes l = .done (.ok a,l) := by
  simp only [WalletRef.attributes,Task.bindAndThen,Task.andThen,Task.read,Interleaving.Program.doneBind,h]
  rfl

theorem attributesMissing {ref : WalletRef} (h : ∀ a, l.identityMap ref.key ≠ some (.loaded a)) :
    ref.attributes l = .done (.error .missingGreenlet,l) := by
  simp only [WalletRef.attributes,Task.bindAndThen,Task.andThen,Task.read,Interleaving.Program.doneBind]
  rfl

theorem idLoaded {ref : WalletRef} {a : WalletAttributes} (h : l.identityMap ref.key = some (.loaded a)) :
    ref.id l = .done (.ok a.id,l) := by
  change (ref.attributes l).bind _ = _
  rw [attributesLoaded h]
  rfl

theorem idMissing {ref : WalletRef} (h : ∀ a, l.identityMap ref.key ≠ some (.loaded a)) :
    ref.id l = .done (.error .missingGreenlet,l) := by
  change (ref.attributes l).bind _ = _
  rw [attributesMissing h]
  rfl

theorem balanceLoaded {ref : WalletRef} {a : WalletAttributes}
    (h : l.identityMap ref.key = some (.loaded a)) : ref.balance l = .done (.ok a.balance,l) := by
  change (ref.attributes l).bind _ = _
  rw [attributesLoaded h]
  rfl

theorem balanceMissing {ref : WalletRef} (h : ∀ a, l.identityMap ref.key ≠ some (.loaded a)) :
    ref.balance l = .done (.error .missingGreenlet,l) := by
  change (ref.attributes l).bind _ = _
  rw [attributesMissing h]
  rfl

theorem versionLoaded {ref : WalletRef} {a : WalletAttributes}
    (h : l.identityMap ref.key = some (.loaded a)) : ref.version l = .done (.ok a.version,l) := by
  change (ref.attributes l).bind _ = _
  rw [attributesLoaded h]
  rfl

theorem arithmeticSome {d : Option Decimal} {x : Decimal} (h : d = some x) :
    arithmetic d l = .done (.ok x,l) := by
  rw [h]
  rfl

theorem arithmeticNone {d : Option Decimal} (h : d = none) :
    arithmetic d l = .done (.error .decimalOverflow,l) := by
  rw [h]
  rfl

/-! Loading rows. -/

theorem loadSelf (l : Session) (row : Wallet) :
    (l.load row).identityMap row.id = some (.loaded row.attributes) :=
  Function.update_self ..

theorem mergeSelf (l : Session) (row : Wallet) :
    ∃ a, (l.merge row).identityMap row.id = some (.loaded a) := by
  simp only [Session.merge]
  split
  · rename_i a here
    exact ⟨a,here⟩
  · exact ⟨row.attributes,Function.update_self ..⟩

theorem freshMerge {row : Wallet} (fresh : ∀ a, l.identityMap row.id ≠ some (.loaded a)) :
    (l.merge row).identityMap row.id = some (.loaded row.attributes) := by
  unfold Session.merge
  split
  · rename_i a here
    exact absurd here (fresh a)
  · exact Function.update_self ..

theorem newMerge (row : Wallet) : (Session.new.merge row).identityMap row.id = some (.loaded row.attributes) :=
  freshMerge (by simp [Session.new])

theorem mergeLoaded {id : UUID} {a : WalletAttributes} (row : Wallet)
    (h : l.identityMap id = some (.loaded a)) : (l.merge row).identityMap id = some (.loaded a) := by
  simp only [Session.merge]
  split
  · exact h
  · rename_i fresh
    have other : id ≠ row.id := by
      rintro rfl
      exact fresh a h
    simp only [Session.load,Session.setLoaded]
    rw [Function.update_of_ne other]
    exact h

theorem mergeClean (l : Session) (row : Wallet) : (l.merge row).dirty = l.dirty := by
  simp only [Session.merge]
  split <;> rfl

theorem mergesClean (rows : List Wallet) (l : Session) : (rows.foldl Session.merge l).dirty = l.dirty := by
  induction rows generalizing l with
  | nil => rfl
  | cons row rest ih => exact (ih (l.merge row)).trans (mergeClean l row)

theorem synchronizeClean (l : Session) (id : UUID) (expected : Int) (balance : Decimal) (version : Int) :
    (l.synchronize id expected balance version).dirty = l.dirty := by
  simp only [Session.synchronize]
  split
  · split <;> rfl
  · rfl

theorem synchronizeLoaded {id other : UUID} {a : WalletAttributes} (expected : Int) (balance : Decimal)
    (version : Int) (h : l.identityMap other = some (.loaded a)) :
    ∃ a', (l.synchronize id expected balance version).identityMap other = some (.loaded a') ∧ a'.id = a.id ∧
      (other ≠ id → a' = a) := by
  simp only [Session.synchronize]
  split
  · rename_i b here
    split
    · by_cases same : other = id
      · subst same
        cases (Option.some.inj (here.symm.trans h))
        exact ⟨_,Function.update_self ..,rfl,fun apart => absurd rfl apart⟩
      · refine ⟨a,?_,rfl,fun _ => rfl⟩
        simp only [Session.setLoaded]
        rw [Function.update_of_ne same]
        exact h
    · exact ⟨a,h,rfl,fun _ => rfl⟩
  · exact ⟨a,h,rfl,fun _ => rfl⟩

theorem expiredMissing (id : UUID) (a : WalletAttributes) :
    l.expireAll.identityMap id ≠ some (.loaded a) := by
  intro here
  simp only [Session.expireAll] at here
  cases known : l.identityMap id <;> simp [known] at here

theorem rowGone {row : Wallet} {t : Tables} (here : row ∈ t.wallets)
    (unmatched : (t.walletsById row.id).filter (fun x => x.version == row.version) = []) : False := by
  have found : row ∈ (t.walletsById row.id).filter (fun x => x.version == row.version) :=
    List.mem_filter.mpr ⟨Tables.walletsByIdMem.mpr ⟨here,rfl⟩,by simp⟩
  rw [unmatched] at found
  contradiction

theorem Recordable.cases {new : Database.NewTransaction} {userId : UUID} {request : PaymentRequest}
    {redisClient : Bool} {sender receiver : Wallet} {id : UUID} {now : DateTime} {result} {db' : Database}
    (h : Recordable pid w new userId request redisClient sender receiver)
    (inserted : w.db.insertTransaction pid new id now = some (result,db')) :
    (db' = w.db ∧ ((result = .error .dataError ∧ (Database.textFits request.idempotencyKey &&
        request.description.all Database.textFits) = false) ∨
      result = .error (.integrityError .transactionsPrimaryKey) ∨
      (result = .error (.integrityError .transactionsIdempotencyKey) ∧
        ∃ x ∈ w.tables.transactions, x.idempotencyKey = request.idempotencyKey))) ∨
    ∃ amount, amount.units = request.amount.cents ∧ result = .ok (new.row id amount now) ∧
      (Database.textFits request.idempotencyKey && request.description.all Database.textFits) = true ∧
      db' = w.db.stage pid (.insertTransaction (new.row id amount now)) ∧
      ∀ r ∈ (Write.insertTransaction (new.row id amount now)).resources, w.tables.taken r = false := by
  have positive := request.amount.positive
  have fits : request.amount.cents.natAbs < 10 ^ 18 := by
    have covered := h.covered
    have := sender.balance.fits
    omega
  have stored : Numeric.ofDecimal 18 2 new.amount = some ⟨request.amount.cents,fits⟩ := by
    rw [h.row]
    exact Numeric.ofDecimalSome request.amount.inCents fits
  have known : ∀ wallet ∈ w.tables.wallets, (w.db.view pid).taken (.wallet wallet.id) = true := by
    intro wallet here
    rw [h.untaken]
    exact Tables.takenWallet.mpr (List.mem_map_of_mem here)
  rcases Database.insertTransactionCases inserted with ⟨rfl,why⟩ | ⟨amount,converted,rfl,text,rfl,fresh⟩
  · refine .inl ⟨rfl,?_⟩
    rcases why with ⟨rfl,none | text⟩ | ⟨rfl,amount,converted,small⟩ | ⟨rfl,same⟩ | rfl | ⟨rfl,taken⟩ |
      ⟨rfl,missing⟩ | ⟨rfl,missing⟩
    · rw [none] at stored
      contradiction
    · rw [h.row] at text
      exact .inl ⟨rfl,text⟩
    · cases Option.some.inj (stored.symm.trans converted)
      exact absurd positive (not_lt_of_ge small)
    · rw [h.row] at same
      exact absurd same h.different
    · exact .inr (.inl rfl)
    · rw [h.untaken,h.row] at taken
      exact .inr (.inr ⟨rfl,Tables.takenKey.mp taken⟩)
    · rw [h.row,known sender h.senderHere] at missing
      contradiction
    · rw [h.row,known receiver h.receiverHere] at missing
      contradiction
  · cases Option.some.inj (stored.symm.trans converted)
    rw [h.row] at text
    exact .inr ⟨_,rfl,rfl,text,rfl,fun r hr => h.untaken r ▸ (fresh r hr).2⟩

/-! Rules for calls. -/

variable [Pydantic]

theorem ReadAt.now {row : Wallet} (intact : Intact w) (here : row ∈ w.tables.wallets)
    (wal : s'.db.wal = w.wal) (shows : (Record.called pid op fault r w.wal.length).shows row) :
    ReadAt pid (w.called pid op fault r s') row w.wal.length where
  record := ⟨_,calledLast,rfl,shows,rfl⟩
  within := by
    change w.wal.length ≤ s'.db.wal.length
    rw [wal]
  row := by
    change row ∈ (tablesAt s'.db.wal _).wallets
    rw [wal,intact.now]
    exact here

theorem readStill {row current : Wallet} {n : Nat} (intact : Intact w) (read : ReadAt pid w row n)
    (here : current ∈ w.tables.wallets) (key : current.id = row.id) (version : current.version = row.version) :
    current = row := by
  obtain ⟨last,hlast,becomes⟩ := (intact.evolved n).wallets row read.row
  have same : last = current := Tables.uniqueBy intact.keyed.walletIds hlast here (becomes.id.symm.trans key.symm)
  subst same
  exact (becomes.eq version).symm

theorem conflictGone {w₁ w₂ : World} {row : Wallet} (intact : Intact w₁) (same : w₂.db = w₁.db)
    (unmatched : (w₁.tables.walletsById row.id).filter (fun x => x.version == row.version) = []) :
    row ∉ (tablesAt w₂.wal w₂.wal.length).wallets := by
  have now : tablesAt w₂.wal w₂.wal.length = w₁.tables := by
    simp only [World.wal,World.db] at same ⊢
    rw [same]
    exact intact.now
  rw [now]
  exact fun here => rowGone here unmatched

theorem readMatched {row : Wallet} {n : Nat} (intact : Intact w) (read : ReadAt pid w row n)
    (matched : (w.tables.walletsById row.id).filter (fun x => x.version == row.version) ≠ []) :
    row ∈ w.tables.wallets := by
  obtain ⟨current,found⟩ := List.exists_mem_of_ne_nil _ matched
  obtain ⟨found,version⟩ := List.mem_filter.mp found
  obtain ⟨here,key⟩ := Tables.walletsByIdMem.mp found
  exact readStill intact read here key (eq_of_beq version) ▸ here

theorem readOwner {row current : Wallet} {n : Nat} (intact : Intact w) (read : ReadAt pid w row n)
    (here : current ∈ w.tables.wallets) (key : current.id = row.id) : current.userId = row.userId := by
  obtain ⟨last,hlast,becomes⟩ := (intact.evolved n).wallets row read.row
  have same : last = current := Tables.uniqueBy intact.keyed.walletIds hlast here (becomes.id.symm.trans key.symm)
  subst same
  exact becomes.userId.symm

theorem walletStays {row : Wallet} (intact : Intact w) (intact' : Intact w') (grows : Grows w w')
    (here : row ∈ w.tables.wallets) : row.id ∈ w'.tables.wallets.map Wallet.id := by
  obtain ⟨last,hlast,becomes⟩ := (intact.evolves intact' grows).wallets row here
  exact List.mem_map.mpr ⟨last,hlast,becomes.id.symm⟩

theorem Intact.nonneg {row : Wallet} (intact : Intact w) (here : row ∈ w.tables.wallets) :
    0 ≤ row.balance.units :=
  intact.legal.balanceNonneg (intact.replayed ▸ here)

theorem readNonneg {row : Wallet} {n : Nat} (intact : Intact w) (read : ReadAt pid w row n) :
    0 ≤ row.balance.units :=
  (intact.legal.upTo n).balanceNonneg read.row

theorem Locked.later {row : Wallet} (h : Locked pid w row w.wal.length) (intact : Intact w) (intact' : Intact w')
    (later : Later pid w w') (held : w.db.locks (.wallet row.id) = some pid) :
    Locked pid w' row w'.wal.length := by
  obtain ⟨before,rec,after,log,own,locks,seen,earlier,same⟩ := h.record
  obtain ⟨more,log',_⟩ := later.grows.log
  refine ⟨⟨before,rec,after ++ more,by rw [log',log]; simp,own,locks,seen,
    earlier.trans later.grows.wal.length_le,?_⟩,Nat.le_refl _⟩
  rw [intact'.now,later.wallets _ held,later.grows.tablesAt earlier,← same,intact.now]

theorem endsCall {goal : Res op → Session → World → Prop}
    (h : ∀ w₁, Later pid w w₁ → Intact w₁ → outline.Pre pid w₁ op ∧
      ∀ choice r s', attempt pid w₁.stores op choice = some (r,s') →
        Intact (w₁.called pid op choice.fault r s') →
        goal r l (w₁.called pid op choice.fault r s')) :
    Ends machine outline pid (await op) l w goal := by
  apply Task.endsAwait
  intro w₁ later intact
  obtain ⟨pre,done⟩ := h w₁ later intact
  refine ⟨pre,?_⟩
  intro choice r w₂ _ ran intact'
  obtain ⟨s',attempted,rfl⟩ := execCases ran
  exact done choice r s' attempted intact'

omit [Pydantic] in
theorem execGrows {w' : World} {choice : Choice} (h : World.exec pid w op choice = some (r,w')) :
    Grows w w' := by
  obtain ⟨s',ran,rfl⟩ := execCases h
  refine calledGrows ?_
  cases attemptEffect ran with
  | committed isCommit =>
    rw [Database.commitWal]
    split
    · exact List.prefix_refl _
    · exact List.prefix_append ..
  | _ => exact List.prefix_refl _

theorem endsGrowing {α : Type} {t : Py α} {goal : Except Exn α → Session → World → Prop} {fact : World → Prop}
    (keeps : ∀ a b, Grows a b → fact a → fact b) (h : Ends machine outline pid t l w goal) (here : fact w) :
    Ends machine outline pid t l w (fun r l w => goal r l w ∧ fact w) :=
  Interleaving.safeFrame (fun a b later => keeps a b (Later.grows later))
    (fun a _ _ _ b ran => keeps a b (execGrows ran)) h here

theorem endsEarly {goal : Res op → Session → World → Prop} (early : op.early = true)
    (working : Working pid call held writes w)
    (above : ∀ r, op.wants = some r → r ∈ held ∨ ∀ below ∈ held, below.rank < r.rank)
    (due : ∀ w₁, Later pid w w₁ → Intact w₁ → Working pid call held writes w₁ → Due pid w₁ op)
    (raised : ∀ w₂, Grows w w₂ → Intact w₂ → Uncommitted pid call w₂ → Failed pid w₂ →
      (op.isRedis = true → Working pid call held writes w₂) → goal (.error op.failure) l w₂)
    (performed : ∀ w₁ choice r s', Later pid w w₁ → Intact w₁ → Working pid call held writes w₁ →
      perform pid w₁.stores choice op = some (r,s') → Intact (w₁.called pid op .none r s') →
      goal r l (w₁.called pid op .none r s')) :
    Ends machine outline pid (await op) l w goal := by
  have notCommit : op ≠ .commit := by
    rintro rfl
    simp [Op.early] at early
  apply endsCall
  intro w₁ later intact
  have working₁ := working.later later
  refine ⟨⟨working₁.ordered above,due w₁ later intact working₁,startedOf working₁.call⟩,?_⟩
  intro choice r s' attempted intact'
  have effect := attemptEffect attempted
  have wal := effectWal effect notCommit
  rcases attemptCases attempted with ⟨fault,ran⟩ | ⟨fault,rfl⟩
  · rw [fault] at intact' ⊢
    exact performed w₁ choice r s' later intact working₁ ran intact'
  · refine raised _ (later.grows.trans (calledGrows (by rw [wal]))) intact'
      (working₁.toUncommitted.called early wal) (calledFailed fault) ?_
    intro redis
    exact working₁.calledSame early (effectRedis effect redis)

theorem endsExecute {o : Interleaving.Outline Op World Choice} {goal : Res op → Session → World → Prop}
    (clean : l.dirty = []) (h : Ends machine o pid (await op) l w goal) :
    Ends machine o pid (execute op) l w goal := by
  unfold Ends
  rw [executeClean clean]
  exact h

theorem endsRollback {goal : Except Exn Unit → Session → World → Prop} (intact : Intact w)
    (uncommitted : Uncommitted pid call w)
    (raised : ∀ w₂, Grows w w₂ → Intact w₂ → Uncommitted pid call w₂ → Failed pid w₂ →
      goal (.error .operationalError) l w₂)
    (done : ∀ w₂, Grows w w₂ → Intact w₂ → Working pid call [] [] w₂ → goal (.ok ()) l.expireAll w₂) :
    Ends machine outline pid rollback l w goal := by
  apply endsThen intact
  apply endsCall
  intro w₁ later intact₁
  have uncommitted₁ := uncommitted.later later
  refine ⟨⟨?_,⟨isNot rfl,isNot rfl⟩,startedOf uncommitted₁.call⟩,?_⟩
  · intro r wanted
    simp [Op.wants] at wanted
  · intro choice r s' attempted intact'
    have wal := effectWal (attemptEffect attempted) (by decide)
    have grows : Grows w (w₁.called pid .rollback choice.fault r s') :=
      later.grows.trans (calledGrows (by rw [wal]))
    rcases attemptCases attempted with ⟨fault,ran⟩ | ⟨fault,rfl⟩
    · cases ran
      refine done _ grows intact' ⟨uncommitted₁.called rfl rfl,Database.releasePending,?_⟩
      intro r
      change (w₁.db.release pid).locks r = some pid ↔ r ∈ []
      simp [Database.releaseLocks]
    · exact raised _ grows intact' (uncommitted₁.called rfl wal) (calledFailed fault)

end
end PaymentSystem
