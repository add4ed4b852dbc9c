import PaymentSystem.System.Effects
import PaymentSystem.System.History

/-! The invariant of all runs, and the condition on each call under which every
step keeps it: writes are locked by who made them, the committed rows are a legal
history, and an idempotency entry is the response of a committed payment. -/
namespace PaymentSystem
open Numerics (Decimal Numeric)
open Interleaving (Outline)

/-! Keys of the two caches. -/

theorem stringAppendCancel {a b c : String} (h : a ++ b = a ++ c) : b = c := by
  have lists : a.toList ++ b.toList = a.toList ++ c.toList := by
    rw [← String.toList_append,← String.toList_append,h]
  exact String.toList_inj.mp (List.append_cancel_left lists)

theorem idempotencyInjective {a b : String} (h : CacheKeys.idempotency a = CacheKeys.idempotency b) : a = b :=
  stringAppendCancel h

theorem firstChars {a b c d : String} (h : a ++ b = c ++ d) : (a.toList ++ b.toList).head? =
    (c.toList ++ d.toList).head? := by
  rw [← String.toList_append,← String.toList_append,h]

theorem inlineBalance (id : UUID) : PaymentService.balanceKey id = CacheKeys.balance id := rfl

theorem inlineIdempotency (key : String) : IdempotencyService.cacheKey key = CacheKeys.idempotency key := rfl

theorem balanceNotIdempotency (id : UUID) (key : String) :
    CacheKeys.balance id ≠ CacheKeys.idempotency key := by
  intro h
  have first := firstChars h
  simp at first

section
variable {w : World} {pid : Nat}

def World.called (w : World) (pid : Nat) (op : Op) (fault : Fault) (result : Res op) (stores : Stores) : World :=
  {w with stores := stores, log := w.log ++ [.called pid op fault result w.wal.length]}

theorem execCases {op : Op} {choice : Choice} {r : Res op} {w' : World}
    (h : World.exec pid w op choice = some (r,w')) :
    ∃ s', attempt pid w.stores op choice = some (r,s') ∧ w' = w.called pid op choice.fault r s' := by
  obtain ⟨out,ran,same⟩ := Option.map_eq_some_iff.mp h
  cases same
  exact ⟨out.2,ran,rfl⟩

theorem growsRecord {w' : World} {rec : Record} (calls : w'.calls = w.calls) (wal : w.wal <+: w'.wal)
    (log : w'.log = w.log ++ [rec]) (commits : rec.commits = w.wal.length) : Grows w w' := by
  refine ⟨calls ▸ List.prefix_refl _,wal,[rec],log,?_⟩
  intro rec' here
  rw [List.mem_singleton.mp here,commits]

theorem keepStaged {db db' : Database} {pid : Nat}
    (staged : ∀ p, ∀ write ∈ db.pending p, ∀ r ∈ write.resources, db.locks r = some p)
    (own : ∀ write ∈ db'.pending pid, ∀ r ∈ write.resources, db'.locks r = some pid)
    (others : ∀ p, p ≠ pid → db'.pending p = db.pending p ∧ ∀ r, db'.locks r = some p ↔ db.locks r = some p) :
    ∀ p, ∀ write ∈ db'.pending p, ∀ r ∈ write.resources, db'.locks r = some p := by
  intro p write here r hr
  by_cases same : p = pid
  · subst same
    exact own write here r hr
  · obtain ⟨pending,locks⟩ := others p same
    rw [pending] at here
    exact (locks r).mpr (staged p write here r hr)

theorem quietOthers {p : Nat} {db : Database} : p ≠ pid → db.pending p = db.pending p ∧
    ∀ r, db.locks r = some p ↔ db.locks r = some p := fun _ => ⟨rfl,fun _ => Iff.rfl⟩

theorem releasedOthers {p : Nat} {db : Database} (apart : p ≠ pid) :
    (db.release pid).pending p = db.pending p ∧
      ∀ r, (db.release pid).locks r = some p ↔ db.locks r = some p :=
  ⟨Database.releasePendingOther apart,fun _ => Database.releaseLocksOther apart⟩

structure Stepped (pid : Nat) (w w' : World) (rec : Record) : Prop where
  calls : w'.calls = w.calls
  log : w'.log = w.log ++ [rec]
  own : rec.pid = pid
  commits : rec.commits = w.wal.length
  started : pid < w.calls.length
  wal : w.wal <+: w'.wal
  deletes : ∀ id, rec.invalidates id = true → CommittedBy pid w
  refreshes : rec.isRefresh = true →
    CommittedBy pid w ∨ ∃ userId id, w.calls[pid]? = some (.getTransaction userId id)

theorem Stepped.grows {w' : World} {rec : Record} (h : Stepped pid w w' rec) : Grows w w' :=
  growsRecord h.calls h.wal h.log h.commits

theorem Stepped.later {w' : World} {rec : Record} (h : Stepped pid w w' rec) {other : Nat} (apart : other ≠ pid)
    (commits : ∀ c ∈ w'.wal, c.pid = other → c ∈ w.wal)
    (pending : w'.db.pending other = w.db.pending other)
    (locks : ∀ r, w'.db.locks r = some other ↔ w.db.locks r = some other)
    (wallets : ∀ id, w.db.locks (.wallet id) = some other → w'.tables.walletsById id = w.tables.walletsById id)
    (taken : ∀ r, w.db.locks r = some other → w'.tables.taken r = w.tables.taken r) : Later other w w' where
  grows := h.grows
  commits := commits
  records := by
    intro rec' here own
    rw [h.log] at here
    rcases List.mem_append.mp here with here | here
    · exact here
    · rw [List.mem_singleton.mp here,h.own] at own
      exact absurd own (Ne.symm apart)
  pending := pending
  locks := locks
  wallets := wallets
  taken := taken

end

section
variable [Pydantic]

def replyText (x : Transaction) : String :=
  IdempotencyService.storedText (TransactionResponse.modelValidate x).modelDump 201

structure Intact (w : World) : Prop where
  staged : ∀ pid, ∀ write ∈ w.db.pending pid, ∀ r ∈ write.resources, w.db.locks r = some pid
  legal : Legal w.calls w.wal
  replayed : w.tables = replay w.wal
  replies : ∀ key text, w.redis (CacheKeys.idempotency key) = some text →
    ∃ x ∈ w.tables.transactions, x.idempotencyKey = key ∧ text = replyText x
  unstarted : ∀ pid, w.calls.length ≤ pid → w.db.pending pid = [] ∧ (∀ r, w.db.locks r ≠ some pid) ∧
    ∀ rec ∈ w.log, rec.pid ≠ pid
  deletes : ∀ rec ∈ w.log, ∀ id, rec.invalidates id = true → CommittedBy rec.pid w
  refreshes : ∀ rec ∈ w.log, rec.isRefresh = true →
    CommittedBy rec.pid w ∨ ∃ userId id, w.calls[rec.pid]? = some (.getTransaction userId id)
  counted : ∀ rec ∈ w.log, rec.commits ≤ w.wal.length

theorem Intact.keyed {w : World} (h : Intact w) : w.tables.Keyed := h.replayed ▸ h.legal.keyed

theorem Intact.paired {w : World} (h : Intact w) : w.tables.Paired := h.replayed ▸ h.legal.paired

theorem Intact.evolved {w : World} (h : Intact w) (n : Nat) : (tablesAt w.wal n).Evolves w.tables :=
  h.replayed ▸ h.legal.evolvesAt n

theorem Intact.now {w : World} (h : Intact w) : tablesAt w.wal w.wal.length = w.tables := by
  rw [tablesAtLength,h.replayed]

theorem Intact.evolves {w w' : World} (h : Intact w) (h' : Intact w') (grows : Grows w w') :
    w.tables.Evolves w'.tables := by
  obtain ⟨more,same⟩ := grows.wal
  rw [h.replayed,h'.replayed,← same]
  exact Legal.evolves (same ▸ h'.legal)

/-- Wallets are locked in the order of their ids, before keys and after emails. -/
def Resource.rank : Resource → Nat
  | .user _ => 0
  | .email _ => 0
  | .walletOwner _ => 1
  | .wallet id => 2 + id.val
  | .transaction _ => 2 + 2 ^ 128
  | .idempotencyKey _ => 2 + 2 ^ 128

def Op.wants : Op → Option Resource
  | .selectWalletForUpdate id => some (.wallet id)
  | .updateWallet id _ _ _ => some (.wallet id)
  | .flushWallet id _ => some (.wallet id)
  | .insertUser email _ _ => some (.email email)
  | .insertWallet userId => some (.walletOwner userId)
  | .insertTransaction new => some (.idempotencyKey new.idempotencyKey)
  | _ => none

def Ordered (pid : Nat) (w : World) (op : Op) : Prop :=
  ∀ r, op.wants = some r → w.db.locks r = some pid ∨
    ∀ held, w.db.locks held = some pid → held.rank < r.rank

def Due (pid : Nat) (w : World) : Op → Prop
  | .commit => Entry w.calls w.tables pid (w.db.pending pid) ∧ ∀ c ∈ w.wal, c.pid ≠ pid
  | .updateWallet id expectedVersion balance _ =>
      (∀ stored, Numeric.ofDecimal 18 2 balance = some stored → 0 ≤ stored.units) ∧
      (∀ userId request redisClient, w.calls[pid]? = some (.sendMoney userId request redisClient) →
        ∃ row, Adjusting pid w userId request id expectedVersion balance row) ∧
      ∀ userId amount redisClient, w.calls[pid]? = some (.topUp userId amount redisClient) →
        w.db.pending pid = [] ∧ (∀ c ∈ w.wal, c.pid ≠ pid) ∧
          ∃ row n, ReadAt pid w row n ∧ row.userId = userId ∧ row.id = id ∧ row.version = expectedVersion
  | .flushWallet _ _ => False
  | .insertUser _ _ _ => ∃ data, w.calls[pid]? = some (.register data)
  | .insertWallet _ => ∃ data, w.calls[pid]? = some (.register data)
  | .insertTransaction new => ∃ userId request redisClient sender receiver,
      Recordable pid w new userId request redisClient sender receiver
  | .selectTransactionByKey key => w.db.pending pid = [] ∧ ∃ userId request redisClient,
      w.calls[pid]? = some (.sendMoney userId request redisClient) ∧ request.idempotencyKey = key
  | .redisSetex key _ value =>
      (∃ x ∈ w.tables.transactions, key = CacheKeys.idempotency x.idempotencyKey ∧ value = replyText x) ∨
        ∃ row n, ReadAt pid w row n ∧ key = CacheKeys.balance row.id ∧ value = row.balance.toDecimal.str
  | .redisDelete keys => CommittedBy pid w ∧
      ∀ key ∈ keys, ∃ id, key = CacheKeys.balance id ∨ key = CacheKeys.walletInfo id
  | op => (op.selects = true → w.db.pending pid = []) ∧ (op.isRefresh = true →
      CommittedBy pid w ∨ ∃ userId id, w.calls[pid]? = some (.getTransaction userId id))

def outline : Outline Op World Choice where
  Inv := Intact
  Rely := Later
  Allowed := fun _ _ _ _ => True
  Pre := fun pid w op => Ordered pid w op ∧ Due pid w op ∧ pid < w.calls.length

/-! Every step keeps the invariant and leaves the other requests alone. -/

variable {w : World} {pid : Nat}

theorem Stepped.intact {w' : World} {rec : Record} (h : Stepped pid w w' rec) (intact : Intact w)
    (staged : ∀ p, ∀ write ∈ w'.db.pending p, ∀ r ∈ write.resources, w'.db.locks r = some p)
    (legal : Legal w'.calls w'.wal) (replayed : w'.tables = replay w'.wal)
    (replies : ∀ key text, w'.redis (CacheKeys.idempotency key) = some text →
      ∃ x ∈ w'.tables.transactions, x.idempotencyKey = key ∧ text = replyText x)
    (others : ∀ p, p ≠ pid → w'.db.pending p = w.db.pending p ∧
      ∀ r, w'.db.locks r = some p ↔ w.db.locks r = some p) : Intact w' where
  staged := staged
  legal := legal
  replayed := replayed
  replies := replies
  unstarted := by
    intro p hp
    rw [h.calls] at hp
    have apart : p ≠ pid := by have := h.started; omega
    obtain ⟨pending,locks,records⟩ := intact.unstarted p hp
    refine ⟨(others p apart).1.trans pending,fun r here => locks r (((others p apart).2 r).mp here),?_⟩
    intro rec' here
    rw [h.log] at here
    rcases List.mem_append.mp here with here | here
    · exact records rec' here
    · rw [List.mem_singleton.mp here,h.own]
      exact Ne.symm apart
  deletes := by
    intro rec' here id deletes
    rw [h.log] at here
    rcases List.mem_append.mp here with here | here
    · exact (intact.deletes rec' here id deletes).grows h.grows
    · rw [List.mem_singleton.mp here] at deletes ⊢
      exact h.own ▸ (h.deletes id deletes).grows h.grows
  refreshes := by
    intro rec' here refresh
    rw [h.log] at here
    rw [h.calls]
    rcases List.mem_append.mp here with here | here
    · exact (intact.refreshes rec' here refresh).imp (·.grows h.grows) id
    · rw [List.mem_singleton.mp here] at refresh ⊢
      rw [h.own]
      exact (h.refreshes refresh).imp (·.grows h.grows) id
  counted := by
    intro rec' here
    rw [h.log] at here
    rcases List.mem_append.mp here with here | here
    · exact (intact.counted rec' here).trans h.wal.length_le
    · rw [List.mem_singleton.mp here,h.commits]
      exact h.wal.length_le

theorem Stepped.quiet {w' : World} {rec : Record} (h : Stepped pid w w' rec) (intact : Intact w)
    (wal : w'.wal = w.wal) (tables : w'.tables = w.tables)
    (own : ∀ write ∈ w'.db.pending pid, ∀ r ∈ write.resources, w'.db.locks r = some pid)
    (replies : ∀ key text, w'.redis (CacheKeys.idempotency key) = some text →
      ∃ x ∈ w.tables.transactions, x.idempotencyKey = key ∧ text = replyText x)
    (others : ∀ p, p ≠ pid → w'.db.pending p = w.db.pending p ∧
      ∀ r, w'.db.locks r = some p ↔ w.db.locks r = some p) :
    Intact w' ∧ w'.calls.length = w.calls.length ∧ ∀ other, other ≠ pid → Later other w w' := by
  refine ⟨h.intact intact (keepStaged intact.staged own others) (by rw [h.calls,wal]; exact intact.legal)
    (by rw [tables,wal,intact.replayed]) (by rw [tables]; exact replies) others,by rw [h.calls],?_⟩
  intro other apart
  obtain ⟨pending,locks⟩ := others other apart
  exact h.later apart (fun c hc _ => wal ▸ hc) pending locks (fun _ _ => by rw [tables])
    (fun _ _ => by rw [tables])

theorem Stepped.committed {w' : World} {rec : Record} (h : Stepped pid w w' rec) (intact : Intact w)
    (db : w'.db = w.db.commit pid) (redis : w'.redis = w.redis)
    (due : Entry w.calls w.tables pid (w.db.pending pid)) (once : ∀ c ∈ w.wal, c.pid ≠ pid) :
    Intact w' ∧ w'.calls.length = w.calls.length ∧ ∀ other, other ≠ pid → Later other w w' := by
  have tables : w'.tables = w.tables.applyAll (w.db.pending pid) := by
    simp only [World.tables,World.db] at db ⊢
    rw [db,Database.commitTables]
    rfl
  have wal : w'.wal = w.wal ++ [⟨pid,w.db.pending pid⟩] := by
    simp only [World.wal,World.db] at db ⊢
    rw [db,Database.commitWal,if_neg due.nonempty]
  have others : ∀ p, p ≠ pid → w'.db.pending p = w.db.pending p ∧
      ∀ r, w'.db.locks r = some p ↔ w.db.locks r = some p := by
    intro p apart
    rw [db,Database.commitPending,Database.commitLocks]
    exact releasedOthers apart
  have own : ∀ write ∈ w'.db.pending pid, ∀ r ∈ write.resources, w'.db.locks r = some pid := by
    intro write here
    rw [db,Database.commitPending,Database.releasePending] at here
    contradiction
  have foreign : ∀ other, other ≠ pid → ∀ r, w.db.locks r = some other →
      ∀ write ∈ w.db.pending pid, r ∉ write.resources := by
    intro other apart r held write here hr
    rw [intact.staged pid write here r hr] at held
    exact apart (Option.some.inj held).symm
  refine ⟨h.intact intact (keepStaged intact.staged own others) ?_ ?_ ?_ others,by rw [h.calls],?_⟩
  · rw [h.calls,wal]
    exact .commit intact.legal (intact.replayed ▸ due) once
  · rw [tables,wal,replaySnoc,intact.replayed]
  · intro key text here
    rw [redis] at here
    obtain ⟨x,hx,known⟩ := intact.replies key text here
    rw [tables]
    exact ⟨x,(due.evolves intact.keyed).transactions.subset hx,known⟩
  · intro other apart
    obtain ⟨pending,locks⟩ := others other apart
    refine h.later apart ?_ pending locks ?_ ?_
    · intro c hc own
      rw [wal] at hc
      rcases List.mem_append.mp hc with hc | hc
      · exact hc
      · rw [List.mem_singleton.mp hc] at own
        exact absurd own.symm apart
    · intro id held
      rw [tables]
      exact Tables.walletsByIdApplyAll (foreign other apart _ held)
    · intro r held
      rw [tables]
      exact Tables.takenApplyAll (foreign other apart r held)

theorem calledStepped {op : Op} {fault : Fault} {r : Res op} {s' : Stores} (started : pid < w.calls.length)
    (due : Due pid w op) (wal : w.wal <+: s'.db.wal) :
    Stepped pid w (w.called pid op fault r s') (.called pid op fault r w.wal.length) where
  calls := rfl
  log := rfl
  own := rfl
  commits := rfl
  started := started
  wal := wal
  deletes := by
    intro id deletes
    cases op with
    | redisDelete keys => exact due.1
    | _ => simp [Record.invalidates] at deletes
  refreshes := by
    intro refresh
    cases op with
    | selectUserById id => exact due.2 refresh
    | selectWalletById id => exact due.2 refresh
    | selectTransactionById id => exact due.2 refresh
    | _ => simp [Record.isRefresh,Op.isRefresh] at refresh

theorem execKeeps {op : Op} {choice : Choice} {r : Res op} {w' : World} (intact : Intact w)
    (pre : outline.Pre pid w op) (h : World.exec pid w op choice = some (r,w')) :
    Intact w' ∧ w'.calls.length = w.calls.length ∧ ∀ other, other ≠ pid → Later other w w' := by
  obtain ⟨s',ran,rfl⟩ := execCases h
  obtain ⟨_,due,started⟩ := pre
  have stepped : ∀ s'', w.wal <+: s''.db.wal →
      Stepped pid w (w.called pid op choice.fault r s'') (.called pid op choice.fault r w.wal.length) :=
    fun s'' wal => calledStepped started due wal
  cases attemptEffect ran with
  | same =>
    exact (stepped _ (List.prefix_refl _)).quiet intact rfl rfl (intact.staged pid) intact.replies
      (fun p apart => quietOthers apart)
  | @locked id _ free =>
    have alone : ∀ r ∈ [Resource.wallet id], w.db.Free pid r := by simpa using free
    refine (stepped {w.stores with db := w.db.acquire pid [.wallet id]} (List.prefix_refl _)).quiet intact rfl rfl
      ?_ intact.replies (fun p apart => ⟨rfl,fun r => Database.acquireLocksOther alone apart⟩)
    intro write here r hr
    exact Database.acquireLocks.mpr (.inr (intact.staged pid write here r hr))
  | @staged write _ free =>
    refine (stepped {w.stores with db := w.db.stage pid write} (List.prefix_refl _)).quiet intact rfl rfl
      ?_ intact.replies (fun p apart => ⟨Database.stagePendingOther apart,
        fun r => Database.acquireLocksOther free apart⟩)
    intro write' here r hr
    apply Database.acquireLocks.mpr
    change write' ∈ (w.db.stage pid write).pending pid at here
    rw [Database.stagePending] at here
    rcases List.mem_append.mp here with here | here
    · exact .inr (intact.staged pid write' here r hr)
    · exact .inl (List.mem_singleton.mp here ▸ hr)
  -- the call was due, so the writes are an entry over the committed rows
  | committed isCommit =>
    subst isCommit
    obtain ⟨entry,once⟩ := due
    have calm := stepped {w.stores with db := w.db.commit pid} (by
      change w.wal <+: (w.db.commit pid).wal
      rw [Database.commitWal,if_neg entry.nonempty]
      exact List.prefix_append ..)
    exact calm.committed intact rfl rfl entry once
  | released ends =>
    refine (stepped {w.stores with db := w.db.release pid} (List.prefix_refl _)).quiet intact rfl rfl ?_
      intact.replies (fun p apart => releasedOthers apart)
    intro write here
    change write ∈ (w.db.release pid).pending pid at here
    rw [Database.releasePending] at here
    contradiction
  | @cached key ttl value isSetex =>
    subst isSetex
    refine (stepped {w.stores with redis := Function.update w.redis key (some value)}
      (List.prefix_refl _)).quiet intact rfl rfl (intact.staged pid) ?_
      (fun p apart => quietOthers apart)
    intro key' text here
    change Function.update w.redis key (some value) (CacheKeys.idempotency key') = some text at here
    by_cases same : CacheKeys.idempotency key' = key
    · rw [same,Function.update_self] at here
      cases here
      -- it stores a reply, or a balance under a key of the other kind
      rcases due with ⟨x,hx,rfl,rfl⟩ | ⟨row,n,_,rfl,_⟩
      · exact ⟨x,hx,(idempotencyInjective same).symm,rfl⟩
      · exact absurd same.symm (balanceNotIdempotency row.id key')
    · rw [Function.update_of_ne same] at here
      exact intact.replies key' text here
  | @dropped keys isDelete =>
    refine (stepped {w.stores with redis := fun key => if key ∈ keys then none else w.redis key}
      (List.prefix_refl _)).quiet intact rfl rfl (intact.staged pid) ?_
      (fun p apart => quietOthers apart)
    intro key text here
    change (if CacheKeys.idempotency key ∈ keys then none else w.redis _) = some text at here
    split at here
    · contradiction
    · exact intact.replies key text here

theorem stopKeeps (intact : Intact w) (started : pid < w.calls.length) :
    Intact (w.stop pid) ∧ (w.stop pid).calls.length = w.calls.length ∧
      ∀ other, other ≠ pid → Later other w (w.stop pid) := by
  have stepped : Stepped pid w (w.stop pid) (.stopped pid w.wal.length) := {
    calls := rfl
    log := rfl
    own := rfl
    commits := rfl
    started := started
    wal := List.prefix_refl _
    deletes := by intro id deletes; simp [Record.invalidates] at deletes
    refreshes := by intro refresh; simp [Record.isRefresh] at refresh }
  refine stepped.quiet intact rfl rfl ?_ intact.replies (fun p apart => releasedOthers apart)
  intro write here
  change write ∈ (w.db.release pid).pending pid at here
  rw [Database.releasePending] at here
  contradiction

theorem evictKeeps (intact : Intact w) (key : String) :
    Intact (w.evict key) ∧ ∀ other, Later other w (w.evict key) := by
  constructor
  · refine {intact with replies := ?_}
    intro key' text here
    change Function.update w.redis key none (CacheKeys.idempotency key') = some text at here
    by_cases same : CacheKeys.idempotency key' = key
    · rw [same,Function.update_self] at here
      contradiction
    · rw [Function.update_of_ne same] at here
      exact intact.replies key' text here
  · intro other
    exact {
      grows := ⟨List.prefix_refl _,List.prefix_refl _,[],(List.append_nil _).symm,by simp⟩
      commits := fun _ h _ => h
      records := fun _ h _ => h
      pending := rfl
      locks := fun _ => Iff.rfl
      wallets := fun _ _ => rfl
      taken := fun _ _ => rfl }

theorem startKeeps (intact : Intact w) (call : Call) :
    Intact (w.start call) ∧ ∀ other, Later other w (w.start call) := by
  have grows : Grows w (w.start call) :=
    ⟨List.prefix_append ..,List.prefix_refl _,[],(List.append_nil _).symm,by simp⟩
  constructor
  · exact {
      staged := intact.staged
      legal := intact.legal.later grows.calls
      replayed := intact.replayed
      replies := intact.replies
      unstarted := by
        intro p hp
        have longer : w.calls.length ≤ p := by
          have : (w.calls ++ [call]).length ≤ p := hp
          simp only [List.length_append,List.length_singleton] at this
          omega
        exact intact.unstarted p longer
      deletes := fun rec here id deletes => (intact.deletes rec here id deletes).grows grows
      refreshes := by
        intro rec here refresh
        rcases intact.refreshes rec here refresh with committed | ⟨userId,id,called⟩
        · exact .inl (committed.grows grows)
        · exact .inr ⟨userId,id,grows.call called⟩
      counted := intact.counted }
  · intro other
    exact {
      grows := grows
      commits := fun _ h _ => h
      records := fun _ h _ => h
      pending := rfl
      locks := fun _ => Iff.rfl
      wallets := fun _ _ => rfl
      taken := fun _ _ => rfl }

theorem intactEmpty : Intact World.empty where
  staged := by intro pid write here; simp [World.empty,Database.empty] at here
  legal := .nil
  replayed := rfl
  replies := by intro key text here; simp [World.empty] at here
  unstarted := fun pid _ => ⟨rfl,fun r => by simp [World.empty,Database.empty],by simp [World.empty]⟩
  deletes := by intro rec here; simp [World.empty] at here
  refreshes := by intro rec here; simp [World.empty] at here
  counted := by intro rec here; simp [World.empty] at here

end
end PaymentSystem
