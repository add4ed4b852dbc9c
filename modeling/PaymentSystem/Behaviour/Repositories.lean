import PaymentSystem.System.Request

/-! The repositories and the caches before a commit, each as a rule: what is left to
show is what follows in each way the method can end. -/
namespace PaymentSystem
open Numerics (Decimal Numeric)
open Interleaving (Task)
open Interleaving.Task (Ends endsThen endsCatch endsLocal endsRaised endsPure endsThrow endsMono)

theorem objectsNil (l : Session) : objects [] l = .done (.ok [],l) := rfl

theorem objectsSingle (l : Session) (row : Wallet) : objects [row] l = .done (.ok [⟨row.id⟩],l.merge row) := rfl

variable [Pydantic] {pid : Nat} {call : Call} {w : World} {l : Session} {held : List Resource}
  {writes : List Write}

abbrev Raises (pid : Nat) (call : Call) (w : World) (l : Session) {α : Type}
    (goal : Except Exn α → Session → World → Prop) (e : Exn) : Prop :=
  ∀ w₂, Grows w w₂ → Intact w₂ → Uncommitted pid call w₂ → Failed pid w₂ → goal (.error e) l w₂

theorem endsSelect {op : Op} {goal : Res op → Session → World → Prop} (early : op.early = true)
    (free : op.wants = none) (due : ∀ w₁, w₁.db.pending pid = [] → w₁.calls[pid]? = some call → Due pid w₁ op)
    (working : Working pid call held [] w)
    (raised : Raises pid call w l goal op.failure)
    (performed : ∀ w₁ choice r s', Later pid w w₁ → Intact w₁ → Working pid call held [] w₁ →
      perform pid w₁.stores choice op = some (r,s') → Intact (w₁.called pid op .none r s') →
      goal r l (w₁.called pid op .none r s')) :
    Ends machine outline pid (await op) l w goal :=
  endsEarly early working (fun r wanted => by rw [free] at wanted; contradiction)
    (fun w₁ _ _ working₁ => due w₁ working₁.pending working₁.call)
    (fun w₂ grows intact uncommitted failed _ => raised w₂ grows intact uncommitted failed) performed

theorem endsGetByUserId {goal : Except Exn (Option WalletRef) → Session → World → Prop} (intact : Intact w)
    (working : Working pid call [] [] w) (clean : l.dirty = []) (userId : UUID)
    (raised : Raises pid call w l goal .operationalError)
    (missing : ∀ w₂ n, Grows w w₂ → Intact w₂ → Working pid call [] [] w₂ → Walletless pid w₂ userId n →
      goal (.ok none) l w₂)
    (found : ∀ w₂ row n, Grows w w₂ → Intact w₂ → Working pid call [] [] w₂ → ReadAt pid w₂ row n →
      w.wal.length ≤ n → row.userId = userId → goal (.ok (some ⟨row.id⟩)) (l.merge row) w₂) :
    Ends machine outline pid (WalletRepository.getByUserId userId) l w goal := by
  apply endsThen intact
  apply endsExecute clean
  refine endsSelect rfl rfl (fun _ pending _ => ⟨fun _ => pending,isNot rfl⟩) working raised ?_
  intro w₁ choice r s' later intact₁ working₁ ran intact'
  cases ran
  have grows : Grows w (w₁.called pid (.selectWalletByUserId userId) .none
      (.ok ((w₁.db.view pid).walletsByUserId userId)) w₁.stores) :=
    later.grows.trans (calledGrows (List.prefix_refl _))
  have seen : (w₁.db.view pid).walletsByUserId userId = w₁.tables.walletsByUserId userId := by
    rw [Database.viewNothing working₁.pending]
  rw [show w₁.stores.db.view pid = w₁.db.view pid from rfl,seen] at intact' ⊢
  rw [seen] at grows
  rcases intact₁.keyed.ownerLookup userId with none | ⟨row,here,owner,one⟩
  · rw [none] at intact' grows ⊢
    refine endsLocal (objectsNil l) (missing _ w₁.wal.length grows intact' (working₁.calledSame rfl rfl)
      ⟨⟨_,calledLast,rfl,rfl⟩,Nat.le_refl _,?_⟩)
    change (tablesAt w₁.wal w₁.wal.length).walletsByUserId userId = []
    rw [intact₁.now,none]
  · rw [one] at intact' grows ⊢
    refine endsLocal (objectsSingle l row) (found _ row w₁.wal.length grows intact'
      (working₁.calledSame rfl rfl) (ReadAt.now intact₁ here rfl ?_) later.grows.wal.length_le owner)
    exact List.mem_singleton_self row

theorem endsGetByIdForUpdate {goal : Except Exn (Option WalletRef) → Session → World → Prop}
    (intact : Intact w) (working : Working pid call held [] w) (clean : l.dirty = []) {row : Wallet} {n : Nat}
    {a : WalletAttributes} (loaded : l.identityMap row.id = some (.loaded a)) (read : ReadAt pid w row n)
    (above : ∀ below ∈ held, below.rank < (Resource.wallet row.id).rank)
    (raised : Raises pid call w l goal .operationalError)
    (locked : ∀ w₂, Grows w w₂ → Intact w₂ → Working pid call (.wallet row.id :: held) [] w₂ →
      Locked pid w₂ row w₂.wal.length →
      (∀ other, Locked pid w other w.wal.length → .wallet other.id ∈ held →
        Locked pid w₂ other w₂.wal.length) → goal (.ok (some ⟨row.id⟩)) l w₂) :
    Ends machine outline pid (WalletRepository.getByIdForUpdate row.id) l w goal := by
  apply endsThen intact
  apply endsExecute clean
  refine endsEarly rfl working ?_ (fun _ _ _ working₁ => ⟨fun _ => working₁.pending,isNot rfl⟩)
    (fun w₂ grows intact uncommitted failed _ => raised w₂ grows intact uncommitted failed) ?_
  · intro r wanted
    cases Option.some.inj wanted
    exact .inr above
  · intro w₁ choice r s' later intact₁ working₁ ran intact'
    obtain ⟨db',wrote,rfl⟩ := writesSome ran
    obtain ⟨⟨rows,db''⟩,selected,same⟩ := Option.map_eq_some_iff.mp wrote
    cases same
    obtain ⟨rowsEq,effect⟩ := Database.selectForUpdateCases selected
    rw [Database.viewNothing working₁.pending] at rowsEq
    obtain ⟨current,here,becomes⟩ := (intact₁.evolved n).wallets row (read.grows later.grows).row
    have one : rows = [current] := by
      rw [rowsEq,becomes.id]
      exact intact₁.keyed.byId here
    rcases effect with ⟨none,_⟩ | ⟨free,rfl⟩
    · rw [none] at one
      contradiction
    · subst one
      have same : l.merge current = l := by
        simp only [Session.merge,← becomes.id,loaded]
      refine endsLocal (objectsSingle l current) ?_
      rw [same,← becomes.id]
      refine locked _ (later.grows.trans (calledGrows (List.prefix_refl _))) intact' ?_ ?_ ?_
      · refine ⟨working₁.toUncommitted.called rfl rfl,working₁.pending,?_⟩
        intro r
        change (w₁.db.acquire pid [.wallet row.id]).locks r = some pid ↔ _
        rw [Database.acquireLocks,working₁.locks r]
        simp
      · obtain ⟨seen,inside,own,shows,_⟩ := (read.grows later.grows).record
        exact ⟨⟨w₁.log,_,[],rfl,rfl,rfl,⟨seen,inside,own,shows⟩,Nat.le_refl _,rfl⟩,Nat.le_refl _⟩
      · intro other locked held
        exact (locked.later intact intact₁ later ((working.locks _).mpr held)).called rfl

theorem endsUpdateBalance {goal : Except Exn Bool → Session → World → Prop} (intact : Intact w)
    (working : Working pid call held writes w) (clean : l.dirty = []) {id : UUID} {balance : Decimal}
    {expected : Int}
    (above : .wallet id ∈ held ∨ ∀ below ∈ held, below.rank < (Resource.wallet id).rank)
    (due : ∀ w₁, Later pid w w₁ → Intact w₁ → Working pid call held writes w₁ →
      Due pid w₁ (.updateWallet id expected balance (expected + 1)))
    (raised : Raises pid call w l goal .operationalError)
    (unfit : ∀ w₂, Grows w w₂ → Intact w₂ → Working pid call held writes w₂ →
      Numeric.ofDecimal 18 2 balance = none ∨
        (Database.integerFits expected && Database.integerFits (expected + 1)) = false →
      goal (.error .dataError) l w₂)
    (unmatched : ∀ w₁ w₂, Later pid w w₁ → Intact w₁ → Working pid call held writes w₁ →
      ((w₁.db.view pid).walletsById id).filter (fun x => x.version == expected) = [] →
      Grows w w₂ → Intact w₂ → Working pid call held writes w₂ → w₂.db = w₁.db →
      (∀ row : Wallet, row.id = id → row.version = expected →
        ∃ rec ∈ w₂.log, rec.pid = pid ∧ rec.mismatches row ∧ rec.commits = w₂.wal.length) →
      goal (.ok false) (l.synchronize id expected balance (expected + 1)) w₂)
    (staged : ∀ w₁ w₂ stored, Later pid w w₁ → Intact w₁ → Working pid call held writes w₁ →
      ((w₁.db.view pid).walletsById id).filter (fun x => x.version == expected) ≠ [] →
      Numeric.ofDecimal 18 2 balance = some stored →
      (Database.integerFits expected && Database.integerFits (expected + 1)) = true → Grows w₁ w₂ → Intact w₂ →
      Working pid call (.wallet id :: held) (writes ++ [.updateWallet id stored (expected + 1)]) w₂ →
      w₂.tables = w₁.tables → w₂.wal = w₁.wal →
      goal (.ok true) (l.synchronize id expected balance (expected + 1)) w₂) :
    Ends machine outline pid (WalletRepository.updateBalance id balance expected) l w goal := by
  apply endsThen intact
  apply endsExecute clean
  refine endsEarly rfl working ?_ due
    (fun w₂ grows intact uncommitted failed _ => raised w₂ grows intact uncommitted failed) ?_
  · intro r wanted
    cases Option.some.inj wanted
    exact above
  · intro w₁ choice r s' later intact₁ working₁ ran intact'
    obtain ⟨db',updated,rfl⟩ := writesSome ran
    rcases Database.updateWalletCases updated with ⟨rfl,why⟩ | ⟨stored,rfl,fits,_,fitting,matched,free,rfl⟩
    · have grows : Grows w (w₁.called pid (.updateWallet id expected balance (expected + 1)) .none r w₁.stores) :=
        later.grows.trans (calledGrows (List.prefix_refl _))
      have working₂ : Working pid call held writes
          (w₁.called pid (.updateWallet id expected balance (expected + 1)) .none r w₁.stores) :=
        working₁.calledSame rfl rfl
      rcases why with ⟨rfl,large⟩ | ⟨rfl,none⟩ | ⟨rfl,stored,fits,negative⟩
      · exact unfit _ grows intact' working₂ large
      · exact endsLocal rfl (unmatched w₁ _ later intact₁ working₁ none grows intact' working₂ rfl
          (fun row id version => ⟨_,calledLast,rfl,⟨id.symm,version.symm,rfl⟩,rfl⟩))
      · exact absurd ((due w₁ later intact₁ working₁).1 stored fits) (by omega)
    · exact endsLocal rfl (staged w₁ _ stored later intact₁ working₁ matched fits fitting
        (calledGrows (List.prefix_refl _)) intact'
        (working₁.staged rfl (.updateWallet id stored (expected + 1)) rfl) rfl rfl)

theorem endsInsertTransaction {goal : Except Exn Transaction → Session → World → Prop}
    {new : Database.NewTransaction} {userId : UUID} {request : PaymentRequest} {redisClient : Bool}
    {sender receiver : Wallet} (working : Working pid call held writes w) (clean : l.dirty = [])
    (due : ∀ w₁, Later pid w w₁ → Intact w₁ → Working pid call held writes w₁ →
      Recordable pid w₁ new userId request redisClient sender receiver)
    (above : ∀ below ∈ held, below.rank < (Resource.idempotencyKey new.idempotencyKey).rank)
    (raised : Raises pid call w l goal .operationalError)
    (unfit : ∀ w₂, Grows w w₂ → Intact w₂ → Working pid call held writes w₂ →
      (Database.textFits request.idempotencyKey && request.description.all Database.textFits) = false →
      goal (.error .dataError) l w₂)
    (collision : ∀ w₂, Grows w w₂ → Intact w₂ → Working pid call held writes w₂ →
      (∃ rec ∈ w₂.log, rec.pid = pid ∧ rec.collides) →
      goal (.error (.integrityError .transactionsPrimaryKey)) l w₂)
    (duplicate : ∀ w₂ x, Grows w w₂ → Intact w₂ → Working pid call held writes w₂ →
      x ∈ w₂.tables.transactions → x.idempotencyKey = request.idempotencyKey →
      goal (.error (.integrityError .transactionsIdempotencyKey)) l w₂)
    (staged : ∀ w₁ w₂ id amount now, Later pid w w₁ → Intact w₁ → amount.units = request.amount.cents →
      (Database.textFits request.idempotencyKey && request.description.all Database.textFits) = true →
      (∀ r ∈ (Write.insertTransaction (new.row id amount now)).resources, w₁.tables.taken r = false) →
      Grows w w₂ → Intact w₂ →
      Working pid call ((Write.insertTransaction (new.row id amount now)).resources ++ held)
        (writes ++ [.insertTransaction (new.row id amount now)]) w₂ → w₂.tables = w₁.tables →
      goal (.ok (new.row id amount now)) l w₂) :
    Ends machine outline pid (TransactionRepository.create new) l w goal := by
  apply endsExecute clean
  refine endsEarly rfl working ?_
    (fun w₁ later₁ intact₁ working₁ => ⟨_,_,_,_,_,due w₁ later₁ intact₁ working₁⟩)
    (fun w₂ grows intact uncommitted failed _ => raised w₂ grows intact uncommitted failed) ?_
  · intro r wanted
    cases Option.some.inj wanted
    exact .inr above
  · intro w₁ choice r s' later intact₁ working₁ ran intact'
    obtain ⟨db',inserted,rfl⟩ := writesSome ran
    have grows : ∀ s₂, s₂.db.wal = w₁.wal → Grows w (w₁.called pid (.insertTransaction new) .none r s₂) :=
      fun s₂ wal => later.grows.trans (calledGrows (by rw [wal]))
    rcases (due w₁ later intact₁ working₁).cases inserted with ⟨rfl,why⟩ | ⟨amount,units,rfl,text,rfl,fresh⟩
    · have working₂ : Working pid call held writes
          (w₁.called pid (.insertTransaction new) .none r w₁.stores) := working₁.calledSame rfl rfl
      rcases why with ⟨rfl,text⟩ | rfl | ⟨rfl,x,here,key⟩
      · exact unfit _ (grows _ rfl) intact' working₂ text
      · exact collision _ (grows _ rfl) intact' working₂ ⟨_,calledLast,rfl,rfl⟩
      · exact duplicate _ x (grows _ rfl) intact' working₂ here key
    · exact staged w₁ _ choice.uuid amount choice.now later intact₁ units text fresh (grows _ rfl) intact'
        (working₁.staged rfl (.insertTransaction (new.row choice.uuid amount choice.now)) rfl) rfl

theorem endsGetByIdempotencyKey {goal : Except Exn (Option Transaction) → Session → World → Prop}
    {userId : UUID} {request : PaymentRequest} {redisClient : Bool} {key : String}
    (sends : call = .sendMoney userId request redisClient) (named : request.idempotencyKey = key)
    (intact : Intact w) (working : Working pid call [] [] w) (clean : l.dirty = [])
    (raised : Raises pid call w l goal .operationalError)
    (unfit : ∀ w₂, Grows w w₂ → Intact w₂ → Working pid call [] [] w₂ → Database.textFits key = false →
      goal (.error .dataError) l w₂)
    (missing : ∀ w₂, Grows w w₂ → Intact w₂ → Working pid call [] [] w₂ → Database.textFits key = true →
      w₂.tables.transactionsByKey key = [] → Missed pid key w₂ → goal (.ok none) l w₂)
    (found : ∀ w₂ x, Grows w w₂ → Intact w₂ → Working pid call [] [] w₂ → x ∈ w₂.tables.transactions →
      x.idempotencyKey = key → goal (.ok (some x)) l w₂) :
    Ends machine outline pid (TransactionRepository.getByIdempotencyKey key) l w goal := by
  apply endsThen intact
  apply endsExecute clean
  refine endsSelect rfl rfl (fun w₁ pending known => ⟨pending,userId,request,redisClient,sends ▸ known,named⟩) working raised ?_
  intro w₁ choice r s' later intact₁ working₁ ran intact'
  obtain ⟨rfl,⟨fits,rfl⟩ | ⟨misfit,rfl⟩⟩ := checkedCases ran
  · have grows : ∀ r, Grows w (w₁.called pid (.selectTransactionByKey key) .none r w₁.stores) :=
      fun r => later.grows.trans (calledGrows (List.prefix_refl _))
    have working₂ : ∀ r, Working pid call [] []
        (w₁.called pid (.selectTransactionByKey key) .none r w₁.stores) :=
      fun r => working₁.calledSame rfl rfl
    have seen : (w₁.stores.db.view pid).transactionsByKey key = w₁.tables.transactionsByKey key := by
      rw [Database.viewNothing working₁.pending]
    rw [seen] at intact' ⊢
    rcases intact₁.keyed.keyLookup key with none | ⟨x,here,same,one⟩
    · rw [none] at intact' ⊢
      refine missing _ (grows _) intact' (working₂ _) fits none ⟨_,calledLast,rfl,⟨rfl,rfl⟩,Nat.le_refl _,?_⟩
      change (tablesAt w₁.wal w₁.wal.length).transactionsByKey key = []
      rw [intact₁.now,none]
    · rw [one] at intact' ⊢
      exact found _ x (grows _) intact' (working₂ _) here same
  · exact unfit _ (later.grows.trans (calledGrows (List.prefix_refl _))) intact' (working₁.calledSame rfl rfl) misfit

/-! Caches. -/

theorem endsGetBalance {goal : Except Exn (Option Decimal) → Session → World → Prop} (intact : Intact w)
    (working : Working pid call held writes w) (id : UUID)
    (missed : ∀ w₂, Grows w w₂ → Intact w₂ → Working pid call held writes w₂ → goal (.ok none) l w₂)
    (hit : ∀ w₂ balance, Grows w w₂ → Intact w₂ → Working pid call held writes w₂ →
      (∃ rec ∈ w₂.log, rec.pid = pid ∧ rec.hits id balance) → goal (.ok (some balance)) l w₂) :
    Ends machine outline pid (CacheManager.getBalance id) l w goal := by
  apply endsCatch intact
  apply endsThen intact
  refine endsEarly rfl working (by intro r wanted; simp [Op.wants] at wanted)
    (fun _ _ _ _ => ⟨isNot rfl,isNot rfl⟩)
    (fun w₂ grows intact _ _ working => missed w₂ grows intact (working rfl)) ?_
  intro w₁ choice r s' later intact₁ working₁ ran intact'
  cases ran
  have grows : ∀ r, Grows w (w₁.called pid (.redisGet (CacheKeys.balance id)) .none r w₁.stores) :=
    fun r => later.grows.trans (calledGrows (List.prefix_refl _))
  have working₂ : ∀ r, Working pid call held writes
      (w₁.called pid (.redisGet (CacheKeys.balance id)) .none r w₁.stores) :=
    fun r => working₁.calledSame rfl rfl
  cases cached : w₁.stores.redis (CacheKeys.balance id) with
  | none =>
    rw [cached] at intact'
    simp only
    exact missed _ (grows _) intact' (working₂ _)
  | some text =>
    rw [cached] at intact'
    simp only
    cases decoded : Decimal.ofString text with
    | none => exact missed _ (grows _) intact' (working₂ _)
    | some balance =>
      exact hit _ balance (grows _) intact' (working₂ _) ⟨_,calledLast,rfl,rfl,decoded⟩

theorem endsSetBalance {goal : Except Exn Unit → Session → World → Prop} (intact : Intact w)
    (working : Working pid call held writes w) {row : Wallet} {n : Nat} (read : ReadAt pid w row n)
    (done : ∀ w₂, Grows w w₂ → Intact w₂ → Working pid call held writes w₂ → goal (.ok ()) l w₂) :
    Ends machine outline pid (CacheManager.setBalance row.id row.balance.toDecimal) l w goal := by
  apply endsCatch intact
  refine endsEarly rfl working (by intro r wanted; simp [Op.wants] at wanted) ?_
    (fun w₂ grows intact _ _ working => done w₂ grows intact (working rfl)) ?_
  · intro w₁ later intact₁ working₁
    exact .inr ⟨row,n,read.grows later.grows,rfl,rfl⟩
  · intro w₁ choice r s' later intact₁ working₁ ran intact'
    cases ran
    exact done _ (later.grows.trans (calledGrows (List.prefix_refl _))) intact'
      (working₁.calledSame rfl rfl)

end PaymentSystem
