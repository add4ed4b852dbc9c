import PaymentSystem.System.Ledger

/-! What a history tells about one request: what it read and when, whether it has
committed, which cache entries it has deleted, what failed under it, and why a
payment was refused. All of it stays true as the history grows. -/
namespace PaymentSystem
open Numerics (Decimal)

def Op.isRefresh : Op → Bool
  | .selectUserById _ => true
  | .selectWalletById _ => true
  | .selectTransactionById _ => true
  | _ => false

def Op.selects : Op → Bool
  | .selectUserByEmail _ => true
  | .selectUserById _ => true
  | .selectWalletByUserId _ => true
  | .selectWalletById _ => true
  | .selectWalletForUpdate _ => true
  | .selectTransactionByKey _ => true
  | .selectTransactionById _ => true
  | .countTransactionsOf _ => true
  | .selectTransactionsOf _ _ _ => true
  | _ => false

def Op.early : Op → Bool
  | .commit => false
  | .close => false
  | .redisDelete _ => false
  | .flushWallet _ _ => false
  | op => !op.isRefresh

def Exn.ofFailure : Exn → Bool
  | .operationalError => true
  | .redisError => true
  | .cancelled => true
  | _ => false

def Commit.moves (id : UUID) (c : Commit) : Bool :=
  c.writes.any (fun write => match write with
    | .updateWallet moved _ _ => decide (moved = id)
    | _ => false)

namespace Record

def failed : Record → Bool
  | .called _ _ fault _ _ => decide (fault ≠ .none)
  | .stopped _ _ => true

def early : Record → Bool
  | .called _ op _ _ _ => op.early
  | .stopped _ _ => false

def ends : Record → Bool
  | .called _ op _ _ _ => decide (op = .close)
  | .stopped _ _ => true

def isRefresh : Record → Bool
  | .called _ op _ _ _ => op.isRefresh
  | .stopped _ _ => false

def halfCommitted : Record → Bool
  | .called _ op fault _ _ => decide (op = .commit ∧ fault = .raisesAfter)
  | .stopped _ _ => false

def redisFailed : Record → Bool
  | .called _ op fault _ _ => op.isRedis && decide (fault ≠ .none)
  | .stopped _ _ => false

def spoils : Record → Bool
  | .called _ op fault _ _ => (decide (fault ≠ .none) && (op.isRefresh || op.isRedis)) ||
      decide (op = .commit ∧ fault = .raisesAfter)
  | .stopped _ _ => true

def invalidates (id : UUID) : Record → Bool
  | .called _ (.redisDelete keys) .none _ _ => decide (CacheKeys.balance id ∈ keys)
  | _ => false

def shows (row : Wallet) : Record → Prop
  | .called _ (.selectWalletByUserId _) .none (.ok rows) _ => Membership.mem (γ := List Wallet) rows row
  | .called _ (.selectWalletById _) .none (.ok rows) _ => Membership.mem (γ := List Wallet) rows row
  | .called _ (.selectWalletForUpdate _) .none (.ok rows) _ => Membership.mem (γ := List Wallet) rows row
  | _ => False

def locks (id : UUID) : Record → Prop
  | .called _ (.selectWalletForUpdate locked) .none (.ok _) _ => locked = id
  | _ => False

def mismatches (row : Wallet) : Record → Prop
  | .called _ (.updateWallet id expectedVersion _ _) .none (.ok count) _ =>
      id = row.id ∧ expectedVersion = row.version ∧ (show Nat from count) = 0
  | _ => False

def misses (key : String) : Record → Prop
  | .called _ (.selectTransactionByKey sought) .none (.ok rows) _ =>
      sought = key ∧ (show List Transaction from rows) = []
  | _ => False

def hits (id : UUID) (balance : Decimal) : Record → Prop
  | .called _ (.redisGet key) .none (.ok (some text)) _ =>
      key = CacheKeys.balance id ∧ Decimal.ofString text = some balance
  | _ => False

def collides : Record → Prop
  | .called _ (.insertTransaction _) .none (.error e) _ => e = .integrityError .transactionsPrimaryKey
  | _ => False

end Record

structure Grows (w w' : World) : Prop where
  calls : w.calls <+: w'.calls
  wal : w.wal <+: w'.wal
  log : ∃ more, w'.log = w.log ++ more ∧ ∀ rec ∈ more, w.wal.length ≤ rec.commits

namespace Grows
variable {a b c : World}

theorem refl (w : World) : Grows w w := ⟨List.prefix_refl _,List.prefix_refl _,[],by simp,by simp⟩

theorem trans (h : Grows a b) (h' : Grows b c) : Grows a c := by
  obtain ⟨more,log,later⟩ := h.log
  obtain ⟨more',log',later'⟩ := h'.log
  refine ⟨h.calls.trans h'.calls,h.wal.trans h'.wal,more ++ more',by rw [log',log,List.append_assoc],?_⟩
  intro rec here
  rcases List.mem_append.mp here with here | here
  · exact later rec here
  · exact h.wal.length_le.trans (later' rec here)

theorem member (h : Grows a b) {rec : Record} (here : rec ∈ a.log) : rec ∈ b.log := by
  obtain ⟨more,log,_⟩ := h.log
  rw [log]
  exact List.mem_append_left _ here

theorem call (h : Grows a b) {pid : Nat} {call : Call} (here : a.calls[pid]? = some call) :
    b.calls[pid]? = some call :=
  prefixGet h.calls here

theorem commit (h : Grows a b) {i : Nat} {c : Commit} (here : a.wal[i]? = some c) : b.wal[i]? = some c :=
  prefixGet h.wal here

theorem tablesAt (h : Grows a b) {n : Nat} (within : n ≤ a.wal.length) :
    PaymentSystem.tablesAt b.wal n = PaymentSystem.tablesAt a.wal n := by
  obtain ⟨more,same⟩ := h.wal
  rw [← same,tablesAtAppend within]

end Grows

def CommittedBy (pid : Nat) (w : World) : Prop := ∃ c ∈ w.wal, c.pid = pid

def Failed (pid : Nat) (w : World) : Prop := ∃ rec ∈ w.log, rec.pid = pid ∧ rec.failed = true

def Spoiled (pid : Nat) (w : World) : Prop := ∃ rec ∈ w.log, rec.pid = pid ∧ rec.spoils = true

def Invalidated (pid : Nat) (id : UUID) (w : World) : Prop :=
  ∃ rec ∈ w.log, rec.pid = pid ∧ rec.invalidates id = true

def Broken (pid : Nat) (w : World) : Prop :=
  ∃ before rec after, w.log = before ++ rec :: after ∧ rec.pid = pid ∧ rec.failed = true ∧
    (rec.redisFailed = true ∨ rec.halfCommitted = true ∨
      ∃ i c id, w.wal[i]? = some c ∧ i < rec.commits ∧ c.pid = pid ∧ c.moves id = true ∧
        ∀ r ∈ before, r.pid = pid → r.invalidates id = false)

structure ReadAt (pid : Nat) (w : World) (row : Wallet) (n : Nat) : Prop where
  record : ∃ rec ∈ w.log, rec.pid = pid ∧ rec.shows row ∧ rec.commits = n
  within : n ≤ w.wal.length
  row : row ∈ (tablesAt w.wal n).wallets

def Missed (pid : Nat) (key : String) (w : World) : Prop :=
  ∃ rec ∈ w.log, rec.pid = pid ∧ rec.misses key ∧ rec.commits ≤ w.wal.length ∧
    (tablesAt w.wal rec.commits).transactionsByKey key = []

structure Locked (pid : Nat) (w : World) (row : Wallet) (n : Nat) : Prop where
  record : ∃ before rec after, w.log = before ++ rec :: after ∧ rec.pid = pid ∧ rec.locks row.id ∧
    (∃ seen ∈ before, seen.pid = pid ∧ seen.shows row) ∧ rec.commits ≤ n ∧
    (tablesAt w.wal n).walletsById row.id = (tablesAt w.wal rec.commits).walletsById row.id
  within : n ≤ w.wal.length

def Reported (pid : Nat) (userId : UUID) (id : UUID) (balance : Decimal) (w : World) : Prop :=
  ∃ row n, ReadAt pid w row n ∧ row.userId = userId ∧ id = row.id ∧
    (balance = row.balance.toDecimal ∨ ∃ rec ∈ w.log, rec.pid = pid ∧ rec.hits row.id balance)

structure Walletless (pid : Nat) (w : World) (userId : UUID) (n : Nat) : Prop where
  record : ∃ rec ∈ w.log, rec.pid = pid ∧ rec.commits = n
  within : n ≤ w.wal.length
  none : (tablesAt w.wal n).walletsByUserId userId = []

inductive Blame (pid : Nat) (w : World) (userId : UUID) (request : PaymentRequest) : Exn → Prop where
  | failed {e} (kind : e.ofFailure = true) (failure : Failed pid w) : Blame pid w userId request e
  | text (unfit : (Database.textFits request.idempotencyKey &&
      request.description.all Database.textFits) = false) : Blame pid w userId request .dataError
  | missing {x n} (party : x = userId ∨ x = request.receiverId) (none : Walletless pid w x n) :
      Blame pid w userId request .walletNotFound
  | self (same : request.receiverId = userId) : Blame pid w userId request .selfTransfer
  | insufficient {row other n m} (read : ReadAt pid w row n) (owner : row.userId = userId)
      (short : row.balance.units < request.amount.cents) (locked : Locked pid w row m)
      (locked' : Locked pid w other m) (owner' : other.userId = request.receiverId) :
      Blame pid w userId request (.insufficientBalance row.balance.toDecimal.str request.amount.value.str)
  | conflict {e row n m} (kind : e = .optimisticLock ∨ e = .missingGreenlet) (read : ReadAt pid w row n)
      (party : row.userId = userId ∨ row.userId = request.receiverId)
      (after : n ≤ m) (within : m ≤ w.wal.length) (gone : row ∉ (tablesAt w.wal m).wallets)
      (update : ∃ rec ∈ w.log, rec.pid = pid ∧ rec.mismatches row ∧ rec.commits = m)
      (running : ∀ rec ∈ w.log, rec.pid = pid → rec.ends = true → m ≤ rec.commits) :
      Blame pid w userId request e
  | overflow {row n} (read : ReadAt pid w row n)
      (party : row.userId = userId ∨ row.userId = request.receiverId)
      (large : (Database.integerFits row.version && Database.integerFits (row.version + 1)) = false ∨
        (row.userId = request.receiverId ∧ 10 ^ 18 ≤ row.balance.units + request.amount.cents)) :
      Blame pid w userId request .dataError
  | collision {e rec} (kind : e = .integrityError .transactionsPrimaryKey ∨ e = .duplicateTransaction)
      (here : rec ∈ w.log) (own : rec.pid = pid) (collides : rec.collides) : Blame pid w userId request e

inductive Refused (pid : Nat) (userId : UUID) (request : PaymentRequest) (w : World) : Exn → Prop where
  | failed {e} (kind : e.ofFailure = true) (failure : Failed pid w) : Refused pid userId request w e
  | text (unfit : (Database.textFits request.idempotencyKey &&
      request.description.all Database.textFits) = false) : Refused pid userId request w .dataError
  | later {e} (missed : Missed pid request.idempotencyKey w) (blame : Blame pid w userId request e) :
      Refused pid userId request w e

/-- So many attempts of a top-up found the row changed that they had read, one after
the other, the last of them after m commits. -/
inductive Conflicts (pid : Nat) (w : World) (userId : UUID) : Nat → Nat → Prop where
  | none {m} : Conflicts pid w userId 0 m
  | more {k m n m' row} (before : Conflicts pid w userId k m) (order : m ≤ n) (read : ReadAt pid w row n)
      (owner : row.userId = userId) (after : n ≤ m') (within : m' ≤ w.wal.length)
      (gone : row ∉ (tablesAt w.wal m').wallets)
      (update : ∃ rec ∈ w.log, rec.pid = pid ∧ rec.mismatches row ∧ rec.commits = m') :
      Conflicts pid w userId (k + 1) m'

inductive Unpaid (pid : Nat) (w : World) (userId : UUID) (amount : Amount) : Exn → Prop where
  | failed {e} (kind : e.ofFailure = true) (failure : Failed pid w) : Unpaid pid w userId amount e
  | missing {n} (none : Walletless pid w userId n) : Unpaid pid w userId amount .walletNotFound
  | overflow {e row n} (kind : e = .dataError ∨ e = .decimalOverflow) (read : ReadAt pid w row n)
      (owner : row.userId = userId)
      (large : (Database.integerFits row.version && Database.integerFits (row.version + 1)) = false ∨
        10 ^ 18 ≤ row.balance.units + amount.cents) : Unpaid pid w userId amount e
  | conflicts {m} (all : Conflicts pid w userId 3 m) : Unpaid pid w userId amount .optimisticLock

section
variable {pid : Nat} {w w' : World}

theorem CommittedBy.grows (h : CommittedBy pid w) (grows : Grows w w') : CommittedBy pid w' := by
  obtain ⟨c,here,own⟩ := h
  exact ⟨c,grows.wal.subset here,own⟩

theorem Failed.grows (h : Failed pid w) (grows : Grows w w') : Failed pid w' := by
  obtain ⟨rec,here,failed⟩ := h
  exact ⟨rec,grows.member here,failed⟩

theorem Spoiled.grows (h : Spoiled pid w) (grows : Grows w w') : Spoiled pid w' := by
  obtain ⟨rec,here,spoils⟩ := h
  exact ⟨rec,grows.member here,spoils⟩

theorem Invalidated.grows {id : UUID} (h : Invalidated pid id w) (grows : Grows w w') :
    Invalidated pid id w' := by
  obtain ⟨rec,here,deletes⟩ := h
  exact ⟨rec,grows.member here,deletes⟩

theorem Broken.grows (h : Broken pid w) (grows : Grows w w') : Broken pid w' := by
  obtain ⟨before,rec,after,log,own,failed,why⟩ := h
  obtain ⟨more,log',_⟩ := grows.log
  refine ⟨before,rec,after ++ more,by rw [log',log]; simp,own,failed,?_⟩
  rcases why with redis | half | ⟨i,c,id,here,earlier,who,moves,kept⟩
  · exact .inl redis
  · exact .inr (.inl half)
  · exact .inr (.inr ⟨i,c,id,grows.commit here,earlier,who,moves,kept⟩)

theorem ReadAt.grows {row : Wallet} {n : Nat} (h : ReadAt pid w row n) (grows : Grows w w') :
    ReadAt pid w' row n := by
  obtain ⟨rec,here,known⟩ := h.record
  exact ⟨⟨rec,grows.member here,known⟩,h.within.trans grows.wal.length_le,
    by rw [grows.tablesAt h.within]; exact h.row⟩

theorem Missed.grows {key : String} (h : Missed pid key w) (grows : Grows w w') : Missed pid key w' := by
  obtain ⟨rec,here,own,misses,within,none⟩ := h
  exact ⟨rec,grows.member here,own,misses,within.trans grows.wal.length_le,
    by rw [grows.tablesAt within]; exact none⟩

theorem Locked.grows {row : Wallet} {n : Nat} (h : Locked pid w row n) (grows : Grows w w') :
    Locked pid w' row n := by
  obtain ⟨before,rec,after,log,own,locks,seen,earlier,same⟩ := h.record
  obtain ⟨more,log',_⟩ := grows.log
  refine ⟨⟨before,rec,after ++ more,by rw [log',log]; simp,own,locks,seen,earlier,?_⟩,
    h.within.trans grows.wal.length_le⟩
  rw [grows.tablesAt h.within,grows.tablesAt (earlier.trans h.within)]
  exact same

theorem Reported.grows {userId id : UUID} {balance : Decimal} (h : Reported pid userId id balance w)
    (grows : Grows w w') : Reported pid userId id balance w' := by
  obtain ⟨row,n,read,owner,same,source⟩ := h
  refine ⟨row,n,read.grows grows,owner,same,source.imp (fun same => same) ?_⟩
  rintro ⟨rec,here,known⟩
  exact ⟨rec,grows.member here,known⟩

theorem Walletless.grows {userId : UUID} {n : Nat} (h : Walletless pid w userId n) (grows : Grows w w') :
    Walletless pid w' userId n := by
  obtain ⟨rec,here,known⟩ := h.record
  exact ⟨⟨rec,grows.member here,known⟩,h.within.trans grows.wal.length_le,
    by rw [grows.tablesAt h.within]; exact h.none⟩

theorem Blame.grows {userId : UUID} {request : PaymentRequest} {e : Exn} (h : Blame pid w userId request e)
    (grows : Grows w w') : Blame pid w' userId request e := by
  cases h with
  | failed kind failure => exact .failed kind (failure.grows grows)
  | text unfit => exact .text unfit
  | missing party none => exact .missing party (none.grows grows)
  | self same => exact .self same
  | insufficient read owner short locked locked' owner' =>
    exact .insufficient (read.grows grows) owner short (locked.grows grows) (locked'.grows grows) owner'
  | @conflict e row n m kind read party after within gone update running =>
    obtain ⟨last,there,known⟩ := update
    refine .conflict kind (read.grows grows) party after (within.trans grows.wal.length_le)
      (by rw [grows.tablesAt within]; exact gone) ⟨last,grows.member there,known⟩ ?_
    intro rec here own ended
    obtain ⟨more,log,later⟩ := grows.log
    rw [log] at here
    rcases List.mem_append.mp here with here | here
    · exact running rec here own ended
    · exact within.trans (later rec here)
  | overflow read party large => exact .overflow (read.grows grows) party large
  | collision kind here own collides => exact .collision kind (grows.member here) own collides

theorem Blame.expired {userId : UUID} {request : PaymentRequest} (h : Blame pid w userId request .optimisticLock) :
    Blame pid w userId request .missingGreenlet := by
  cases h with
  | failed kind => contradiction
  | conflict _ read party after within gone update running =>
    exact .conflict (.inr rfl) read party after within gone update running
  | collision kind => simp at kind

theorem Blame.duplicate {userId : UUID} {request : PaymentRequest} {c : Constraint}
    (h : Blame pid w userId request (.integrityError c)) : Blame pid w userId request .duplicateTransaction := by
  cases h with
  | failed kind => contradiction
  | conflict kind => simp at kind
  | collision _ here own collides => exact .collision (.inr rfl) here own collides

theorem Refused.grows {userId : UUID} {request : PaymentRequest} {e : Exn} (h : Refused pid userId request w e)
    (grows : Grows w w') : Refused pid userId request w' e := by
  cases h with
  | failed kind failure => exact .failed kind (failure.grows grows)
  | text unfit => exact .text unfit
  | later missed blame => exact .later (missed.grows grows) (blame.grows grows)

theorem Conflicts.grows {userId : UUID} {k m : Nat} (h : Conflicts pid w userId k m) (grows : Grows w w') :
    Conflicts pid w' userId k m := by
  induction h with
  | none => exact .none
  | more before order read owner after within gone update ih =>
    obtain ⟨rec,here,known⟩ := update
    exact .more ih order (read.grows grows) owner after (within.trans grows.wal.length_le)
      (by rw [grows.tablesAt within]; exact gone) ⟨rec,grows.member here,known⟩

theorem Unpaid.grows {userId : UUID} {amount : Amount} {e : Exn} (h : Unpaid pid w userId amount e)
    (grows : Grows w w') : Unpaid pid w' userId amount e := by
  cases h with
  | failed kind failure => exact .failed kind (failure.grows grows)
  | missing none => exact .missing (none.grows grows)
  | overflow kind read owner large => exact .overflow kind (read.grows grows) owner large
  | conflicts all => exact .conflicts (all.grows grows)

end

def Adjusts (userId : UUID) (request : PaymentRequest) (row : Wallet) (balance : Decimal) : Prop :=
  (row.userId = userId ∧ row.balance.toDecimal.sub request.amount.value = some balance) ∨
    (row.userId = request.receiverId ∧ row.balance.toDecimal.add request.amount.value = some balance)

structure Adjusting (pid : Nat) (w : World) (userId : UUID) (request : PaymentRequest) (id : UUID)
    (expectedVersion : Int) (balance : Decimal) (row : Wallet) : Prop where
  locked : Locked pid w row w.wal.length
  key : row.id = id
  version : row.version = expectedVersion
  adjusts : Adjusts userId request row balance
  held : w.db.locks (.wallet row.id) = some pid
  other : ∃ other, other ≠ row.id ∧ w.db.locks (.wallet other) = some pid
  unwritten : (w.db.view pid).walletsById row.id = w.tables.walletsById row.id

structure Recordable (pid : Nat) (w : World) (new : Database.NewTransaction) (userId : UUID)
    (request : PaymentRequest) (redisClient : Bool) (sender receiver : Wallet) : Prop where
  call : w.calls[pid]? = some (.sendMoney userId request redisClient)
  senderHere : sender ∈ w.tables.wallets
  senderOwner : sender.userId = userId
  receiverHere : receiver ∈ w.tables.wallets
  receiverOwner : receiver.userId = request.receiverId
  different : sender.id ≠ receiver.id
  covered : request.amount.cents ≤ sender.balance.units
  row : new = ⟨sender.id,receiver.id,request.amount.value,request.currency,.completed,request.idempotencyKey,
    request.description⟩
  untaken : ∀ r, (w.db.view pid).taken r = w.tables.taken r

/-- What the other requests leave alone: the locks and the uncommitted writes of
this one, the wallets it has locked, and the use of the keys it has locked. -/
structure Later (pid : Nat) (w w' : World) : Prop where
  grows : Grows w w'
  commits : ∀ c ∈ w'.wal, c.pid = pid → c ∈ w.wal
  records : ∀ rec ∈ w'.log, rec.pid = pid → rec ∈ w.log
  pending : w'.db.pending pid = w.db.pending pid
  locks : ∀ r, w'.db.locks r = some pid ↔ w.db.locks r = some pid
  wallets : ∀ id, w.db.locks (.wallet id) = some pid → w'.tables.walletsById id = w.tables.walletsById id
  taken : ∀ r, w.db.locks r = some pid → w'.tables.taken r = w.tables.taken r

theorem Later.refl (pid : Nat) (w : World) : Later pid w w :=
  ⟨.refl w,fun _ h _ => h,fun _ h _ => h,rfl,fun _ => Iff.rfl,fun _ _ => rfl,fun _ _ => rfl⟩

theorem Later.trans {pid : Nat} {a b c : World} (h : Later pid a b) (h' : Later pid b c) : Later pid a c where
  grows := h.grows.trans h'.grows
  commits := fun x hx own => h.commits x (h'.commits x hx own) own
  records := fun x hx own => h.records x (h'.records x hx own) own
  pending := h'.pending.trans h.pending
  locks := fun r => (h'.locks r).trans (h.locks r)
  wallets := fun id held => (h'.wallets id ((h.locks _).mpr held)).trans (h.wallets id held)
  taken := fun r held => (h'.taken r ((h.locks _).mpr held)).trans (h.taken r held)

end PaymentSystem
