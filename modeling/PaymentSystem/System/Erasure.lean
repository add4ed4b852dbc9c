import PaymentSystem.Base.Erasure
import PaymentSystem.Behaviour.Attempts
import PaymentSystem.System.Traces

/-! The stores without one connection that stores nothing. It leaves locks of rows that
are there anyway and updates of its own that nobody sees; no call of another connection
is answered otherwise without it. -/
namespace PaymentSystem
open Numerics (Decimal Numeric)
open Interleaving (lowered raised Event)
open Database (NewTransaction)

namespace Database

def without (pid : Nat) (db : Database) : Database where
  tables := db.tables
  wal := db.wal.map (fun c => {c with pid := lowered pid c.pid})
  pending := fun number => db.pending (raised pid number)
  locks := fun r => (db.locks r).bind (fun holder => if holder = pid then none else some (lowered pid holder))

theorem lockReleased {pid other : Nat} (apart : other ≠ pid) (lock : Option Nat) :
    (if lock = some other then none else lock).bind
        (fun holder => if holder = pid then none else some (lowered pid holder)) =
      if lock.bind (fun holder => if holder = pid then none else some (lowered pid holder)) =
          some (lowered pid other) then none
      else lock.bind (fun holder => if holder = pid then none else some (lowered pid holder)) := by
  cases lock with
  | none => rfl
  | some holder =>
    by_cases own : holder = pid
    · simp only [own,Option.some.injEq,if_neg (Ne.symm apart),Option.bind_some,if_true,reduceCtorEq,if_false]
    · by_cases same : holder = other
      · simp only [same,if_true,Option.bind_none,Option.bind_some,if_neg apart]
      · have differs : lowered pid holder ≠ lowered pid other := fun h =>
          same (Interleaving.loweredInjective own apart h)
        simp only [Option.some.injEq,if_neg same,Option.bind_some,if_neg own,if_neg differs]

structure Faint (pid : Nat) (db : Database) : Prop where
  locks : ∀ r, db.locks r = some pid → ∃ id, r = .wallet id ∧ db.tables.taken r = true
  pending : ∀ write ∈ db.pending pid, ∃ id balance version, write = .updateWallet id balance version

variable {db db' : Database} {pid other : Nat} {r : Resource} {rs : List Resource}

theorem viewWithout (apart : other ≠ pid) : (db.without pid).view (lowered pid other) = db.view other := by
  simp only [view,without,Interleaving.raisedLowered apart]

theorem freeWithout (apart : other ≠ pid) (free : db.Free other r) :
    (db.without pid).Free (lowered pid other) r := by
  intro holder here
  obtain ⟨holder',held,same⟩ := Option.bind_eq_some_iff.mp here
  rw [free holder' held,if_neg apart] at same
  exact (Option.some.inj same).symm

theorem notHeldWithout (apart : other ≠ pid) (h : db.heldByOther other r = false) :
    (db.without pid).heldByOther (lowered pid other) r = false :=
  heldOfFree (freeWithout apart (freeOfHeld h))

theorem heldWithout (apart : other ≠ pid) (foreign : db.locks r ≠ some pid) (h : db.heldByOther other r = true) :
    (db.without pid).heldByOther (lowered pid other) r = true := by
  simp only [heldByOther] at h
  split at h
  · contradiction
  · rename_i holder here
    have alien : holder ≠ pid := fun same => foreign (same ▸ here)
    have differs : lowered pid holder ≠ lowered pid other := fun same =>
      of_decide_eq_true h (Interleaving.loweredInjective alien apart same)
    simp only [heldByOther,without,here,Option.bind_some,if_neg alien,decide_eq_true differs]

theorem acquireWithout (apart : other ≠ pid) :
    (db.acquire other rs).without pid = (db.without pid).acquire (lowered pid other) rs := by
  simp only [acquire,without,Database.mk.injEq,true_and]
  funext r
  split
  · simp only [Option.bind_some,if_neg apart]
  · rfl

theorem pendingWithout (apart : other ≠ pid) {writes : List Write} :
    (fun number => Function.update db.pending other writes (raised pid number)) =
      Function.update (db.without pid).pending (lowered pid other) writes := by
  funext number
  by_cases here : number = lowered pid other
  · subst here
    rw [Interleaving.raisedLowered apart,Function.update_self,Function.update_self]
  · have elsewhere : raised pid number ≠ other := by
      rintro rfl
      exact here Interleaving.loweredRaised.symm
    rw [Function.update_of_ne elsewhere,Function.update_of_ne here]
    rfl

theorem pendingErased {writes : List Write} :
    (fun number => Function.update db.pending pid writes (raised pid number)) = (db.without pid).pending := by
  funext number
  rw [Function.update_of_ne Interleaving.raisedApart]
  rfl

theorem stageWithout (apart : other ≠ pid) {write : Write} :
    (db.stage other write).without pid = (db.without pid).stage (lowered pid other) write := by
  have locks := congrArg Database.locks (@acquireWithout db pid other write.resources apart)
  have own : (db.without pid).pending (lowered pid other) = db.pending other :=
    congrArg db.pending (Interleaving.raisedLowered apart)
  simp only [stage,acquirePending,own]
  rw [without,Database.mk.injEq]
  exact ⟨rfl,rfl,pendingWithout apart,locks⟩

theorem releaseWithout (apart : other ≠ pid) :
    (db.release other).without pid = (db.without pid).release (lowered pid other) := by
  rw [without,release,Database.mk.injEq]
  refine ⟨rfl,rfl,pendingWithout apart,?_⟩
  funext r
  exact lockReleased apart (db.locks r)

theorem commitWithout (apart : other ≠ pid) :
    (db.commit other).without pid = (db.without pid).commit (lowered pid other) := by
  have own : (db.without pid).pending (lowered pid other) = db.pending other :=
    congrArg db.pending (Interleaving.raisedLowered apart)
  simp only [commit,own,viewWithout apart]
  split
  · exact releaseWithout apart
  · rw [releaseWithout apart]
    simp only [without,List.map_append,List.map_singleton]

theorem acquireErased (free : ∀ r ∈ rs, db.Free pid r) : (db.acquire pid rs).without pid = db.without pid := by
  simp only [acquire,without,Database.mk.injEq,true_and]
  funext r
  split
  · rename_i inside
    cases here : db.locks r with
    | none => simp
    | some holder => simp [free r inside holder here]
  · rfl

theorem stageErased {write : Write} (free : ∀ r ∈ write.resources, db.Free pid r) :
    (db.stage pid write).without pid = db.without pid := by
  have locks := congrArg Database.locks (acquireErased free)
  simp only [stage,acquirePending]
  rw [without,without,Database.mk.injEq]
  exact ⟨rfl,rfl,pendingErased,locks⟩

theorem releaseErased : (db.release pid).without pid = db.without pid := by
  rw [without,without,Database.mk.injEq]
  refine ⟨rfl,rfl,pendingErased,?_⟩
  funext r
  simp only [release]
  split
  · rename_i here
    simp [here]
  · rfl

theorem selectForUpdateWithout (apart : other ≠ pid) {id : UUID} {rows : List Wallet}
    (h : db.selectForUpdate other id = some (rows,db')) :
    (db.without pid).selectForUpdate (lowered pid other) id = some (rows,db'.without pid) := by
  simp only [selectForUpdate,viewWithout apart] at h ⊢
  split at h
  · rename_i none
    cases h
    rw [if_pos none]
  · rename_i found
    split at h
    · contradiction
    · rename_i free
      cases h
      rw [if_neg found,notHeldWithout apart (Bool.not_eq_true _ ▸ free),acquireWithout apart]
      rfl

theorem updateWalletWithout (apart : other ≠ pid) {id : UUID} {expected version : Int} {balance : Decimal}
    {result : Except Exn Nat} (h : db.updateWallet other id expected balance version = some (result,db')) :
    (db.without pid).updateWallet (lowered pid other) id expected balance version =
      some (result,db'.without pid) := by
  simp only [updateWallet,viewWithout apart] at h ⊢
  split at h
  · cases h
    rfl
  · split at h
    · rename_i large
      cases h
      rw [if_pos large]
    · rename_i fitting
      rw [if_neg fitting]
      split at h
      · rename_i unmatched
        cases h
        rw [if_pos unmatched]
      · rename_i matched
        rw [if_neg matched]
        split at h
        · contradiction
        · rename_i free
          rw [notHeldWithout apart (Bool.not_eq_true _ ▸ free)]
          split at h
          · rename_i negative
            cases h
            simp only [Bool.false_eq_true,if_false,if_pos negative]
          · rename_i nonneg
            cases h
            simp only [Bool.false_eq_true,if_false,if_neg nonneg,stageWithout apart]

theorem flushWalletWithout (apart : other ≠ pid) {id : UUID} {balance : Decimal} {result : Except Exn Unit}
    (h : db.flushWallet other id balance = some (result,db')) :
    (db.without pid).flushWallet (lowered pid other) id balance = some (result,db'.without pid) := by
  simp only [flushWallet,viewWithout apart] at h ⊢
  split at h
  · cases h
    rfl
  · split at h
    · cases h
      rfl
    · split at h
      · contradiction
      · rename_i free
        rw [notHeldWithout apart (Bool.not_eq_true _ ▸ free)]
        split at h
        · rename_i negative
          cases h
          simp only [Bool.false_eq_true,if_false,if_pos negative]
        · rename_i nonneg
          cases h
          simp only [Bool.false_eq_true,if_false,if_neg nonneg,stageWithout apart]

theorem uniqueCheckWithout (apart : other ≠ pid) (faint : Faint pid db) {primaryKey unique : Resource}
    {onPrimaryKey onUnique : Constraint} {violated : Option Constraint}
    (h : db.uniqueCheck other primaryKey unique onPrimaryKey onUnique = some violated) :
    (db.without pid).uniqueCheck (lowered pid other) primaryKey unique onPrimaryKey onUnique = some violated := by
  simp only [uniqueCheck,viewWithout apart] at h ⊢
  by_cases used : (db.view other).taken primaryKey = true
  · simp only [used,Bool.or_true,if_true] at h ⊢
    exact h
  · rw [Bool.not_eq_true] at used
    simp only [used,Bool.or_false] at h ⊢
    by_cases held : db.heldByOther other primaryKey = true
    · have foreign : db.locks primaryKey ≠ some pid := by
        intro own
        obtain ⟨_,_,taken⟩ := faint.locks primaryKey own
        rw [view,Tables.takenStays taken] at used
        contradiction
      rw [if_pos held] at h
      rw [heldWithout apart foreign held,if_pos rfl]
      exact h
    · rw [if_neg held] at h
      rw [notHeldWithout apart (Bool.not_eq_true _ ▸ held)]
      split at h
      · contradiction
      · rename_i free
        rw [notHeldWithout apart (Bool.not_eq_true _ ▸ free)]
        exact h

theorem insertUserWithout (apart : other ≠ pid) (faint : Faint pid db) {row : User} {result : Except Exn User}
    (h : db.insertUser other row = some (result,db')) :
    (db.without pid).insertUser (lowered pid other) row = some (result,db'.without pid) := by
  simp only [insertUser] at h ⊢
  split at h
  · rename_i unfit
    cases h
    rw [if_pos unfit]
  · rename_i fit
    rw [if_neg fit]
    split at h
    · contradiction
    · rename_i violated found
      cases h
      simp only [uniqueCheckWithout apart faint found]
    · rename_i passed
      cases h
      simp only [uniqueCheckWithout apart faint passed,stageWithout apart]

theorem insertWalletWithout (apart : other ≠ pid) (faint : Faint pid db) {row : Wallet}
    {result : Except Exn Wallet} (h : db.insertWallet other row = some (result,db')) :
    (db.without pid).insertWallet (lowered pid other) row = some (result,db'.without pid) := by
  simp only [insertWallet,viewWithout apart] at h ⊢
  split at h
  · rename_i negative
    cases h
    rw [if_pos negative]
  · rename_i nonneg
    rw [if_neg nonneg]
    split at h
    · contradiction
    · rename_i violated found
      cases h
      simp only [uniqueCheckWithout apart faint found]
    · rename_i passed
      simp only [uniqueCheckWithout apart faint passed]
      split at h
      · rename_i missing
        cases h
        rw [if_pos missing]
      · rename_i there
        cases h
        rw [if_neg there,stageWithout apart]

theorem insertTransactionWithout (apart : other ≠ pid) (faint : Faint pid db) {new : NewTransaction} {id : UUID}
    {now : DateTime} {result : Except Exn Transaction}
    (h : db.insertTransaction other new id now = some (result,db')) :
    (db.without pid).insertTransaction (lowered pid other) new id now = some (result,db'.without pid) := by
  simp only [insertTransaction,viewWithout apart] at h ⊢
  split at h
  · cases h
    rfl
  · split at h
    · rename_i unfit
      cases h
      rw [if_pos unfit]
    · rename_i fit
      rw [if_neg fit]
      split at h
      · rename_i tooLittle
        cases h
        rw [if_pos tooLittle]
      · rename_i positive
        rw [if_neg positive]
        split at h
        · rename_i self
          cases h
          rw [if_pos self]
        · rename_i differ
          rw [if_neg differ]
          split at h
          · contradiction
          · rename_i violated found
            cases h
            simp only [uniqueCheckWithout apart faint found]
          · rename_i passed
            simp only [uniqueCheckWithout apart faint passed]
            split at h
            · rename_i missing
              cases h
              rw [if_pos missing]
            · rename_i sender
              rw [if_neg sender]
              split at h
              · rename_i missing
                cases h
                rw [if_pos missing]
              · rename_i receiver
                cases h
                rw [if_neg receiver,stageWithout apart]

theorem Faint.released (faint : Faint pid db) (apart : other ≠ pid) : Faint pid (db.release other) where
  locks := fun r here => faint.locks r ((releaseLocksOther apart.symm).mp here)
  pending := by
    rw [releasePendingOther apart.symm]
    exact faint.pending

theorem faintReleased : Faint pid (db.release pid) where
  locks := fun _ here => absurd here releaseLocks
  pending := by
    rw [releasePending]
    exact fun _ none => by contradiction

end Database

def Stores.without (pid : Nat) (s : Stores) : Stores := {s with db := s.db.without pid}

section
variable {pid other : Nat} {s s' : Stores} {op : Op} {choice : Choice} {r : Res op}

theorem checkedWithout {α : Type} {fits : Bool} {e : Exn} {value : α} {result : Except Exn α}
    (h : checked fits e value s = some (result,s')) : checked fits e value (s.without pid) = some (result,s'.without pid) := by
  cases fits <;> cases h <;> rfl

theorem performWithout (apart : other ≠ pid) (faint : Database.Faint pid s.db)
    (h : perform other s choice op = some (r,s')) :
    perform (lowered pid other) (s.without pid) choice op = some (r,s'.without pid) := by
  have view : (s.without pid).db.view (lowered pid other) = s.db.view other := Database.viewWithout apart
  cases op with
  | selectWalletForUpdate id =>
    obtain ⟨db',ran,rfl⟩ := writesSome h
    obtain ⟨⟨rows,db''⟩,selected,same⟩ := Option.map_eq_some_iff.mp ran
    cases same
    have there : (s.without pid).db.selectForUpdate (lowered pid other) id = some (rows,db''.without pid) :=
      Database.selectForUpdateWithout apart selected
    simp only [perform,there]
    rfl
  | selectTransactionByKey | selectTransactionsOf | hashPassword =>
    simp only [perform,view] at h ⊢
    exact checkedWithout h
  | updateWallet id expected balance version =>
    obtain ⟨db',ran,rfl⟩ := writesSome h
    have there : (s.without pid).db.updateWallet (lowered pid other) id expected balance version =
        some (_,db'.without pid) := Database.updateWalletWithout apart ran
    simp only [perform,there]
    rfl
  | flushWallet id balance =>
    obtain ⟨db',ran,rfl⟩ := writesSome h
    have there : (s.without pid).db.flushWallet (lowered pid other) id balance = some (_,db'.without pid) :=
      Database.flushWalletWithout apart ran
    simp only [perform,there]
    rfl
  | insertUser email passwordHash fullName =>
    obtain ⟨db',ran,rfl⟩ := writesSome h
    have there : (s.without pid).db.insertUser (lowered pid other)
        ⟨choice.uuid,email,passwordHash,fullName,true,choice.now⟩ = some (_,db'.without pid) :=
      Database.insertUserWithout apart faint ran
    simp only [perform,there]
    rfl
  | insertWallet userId =>
    obtain ⟨db',ran,rfl⟩ := writesSome h
    have there : (s.without pid).db.insertWallet (lowered pid other)
        ⟨choice.uuid,userId,⟨0,by decide⟩,"USD",1,choice.now⟩ = some (_,db'.without pid) :=
      Database.insertWalletWithout apart faint ran
    simp only [perform,there]
    rfl
  | insertTransaction new =>
    obtain ⟨db',ran,rfl⟩ := writesSome h
    have there : (s.without pid).db.insertTransaction (lowered pid other) new choice.uuid choice.now =
        some (_,db'.without pid) := Database.insertTransactionWithout apart faint ran
    simp only [perform,there]
    rfl
  | commit =>
    cases h
    simp only [perform,Stores.without,Database.commitWithout apart]
  | rollback =>
    cases h
    simp only [perform,Stores.without,Database.releaseWithout apart]
  | close =>
    cases h
    simp only [perform,Stores.without,Database.releaseWithout apart]
  | redisGet key => cases h; rfl
  | redisSetex key ttl value => cases h; rfl
  | redisDelete keys => cases h; rfl
  | _ =>
    cases h
    simp only [perform,view]
    rfl

theorem attemptWithout (apart : other ≠ pid) (faint : Database.Faint pid s.db)
    (h : attempt other s op choice = some (r,s')) :
    attempt (lowered pid other) (s.without pid) op choice = some (r,s'.without pid) := by
  simp only [attempt] at h ⊢
  split at h
  · rename_i fault
    exact performWithout apart faint h
  · rename_i fault
    cases h
    cases op with
    | close => simp only [unperformed,Stores.without,Database.releaseWithout apart]
    | _ => rfl
  · rename_i fault
    obtain ⟨⟨r',s''⟩,ran,same⟩ := Option.map_eq_some_iff.mp h
    cases same
    rw [performWithout apart faint ran]
    rfl

theorem faintOther (apart : other ≠ pid) (faint : Database.Faint pid s.db)
    (h : attempt other s op choice = some (r,s')) : Database.Faint pid s'.db := by
  have acquired : ∀ rs, Database.Faint pid (s.db.acquire other rs) := fun rs => {
    locks := by
      intro r here
      simp only [Database.acquire] at here
      split at here
      · exact absurd (Option.some.inj here) apart
      · exact faint.locks r here
    pending := faint.pending }
  cases attemptEffect h with
  | same => exact faint
  | locked _ _ => exact acquired _
  | @staged write _ _ _ =>
    refine ⟨(acquired write.resources).locks,?_⟩
    rw [Database.stagePendingOther apart.symm]
    exact faint.pending
  | committed _ =>
    refine ⟨?_,?_⟩
    · intro r here
      rw [Database.commitLocks,Database.releaseLocksOther apart.symm] at here
      obtain ⟨id,rfl,taken⟩ := faint.locks r here
      rw [Database.commitTables]
      exact ⟨id,rfl,Tables.takenStays taken⟩
    · rw [Database.commitPending,Database.releasePendingOther apart.symm]
      exact faint.pending
  | released _ => exact faint.released apart
  | cached _ => exact faint
  | dropped _ => exact faint

theorem faintTaken (faint : Database.Faint pid s.db) (x : Resource) :
    (s.db.view pid).taken x = s.db.tables.taken x := by
  have updates := faint.pending
  rw [Database.view]
  generalize s.db.tables = t
  generalize s.db.pending pid = pending at updates
  induction pending generalizing t with
  | nil => rfl
  | cons write rest ih =>
    obtain ⟨id,balance,version,rfl⟩ := updates write (List.mem_cons_self ..)
    have later := ih (t.updateWallet id balance version) (fun w here => updates w (List.mem_cons_of_mem _ here))
    exact later.trans (Tables.takenUpdate x)

theorem takenFound {t : Tables} {id : UUID} (h : t.walletsById id ≠ []) : t.taken (.wallet id) = true := by
  obtain ⟨w,here⟩ := List.exists_mem_of_ne_nil _ h
  obtain ⟨there,same⟩ := Tables.walletsByIdMem.mp here
  exact Tables.takenWallet.mpr (List.mem_map.mpr ⟨w,there,same⟩)

theorem performRevocable (revocable : op.revocable = true) (h : perform pid s choice op = some (r,s')) :
    s' = s ∨ s' = {s with db := s.db.release pid} ∨
    ∃ id, s.db.Free pid (.wallet id) ∧ (s.db.view pid).taken (.wallet id) = true ∧
      (s' = {s with db := s.db.acquire pid [.wallet id]} ∨
        ∃ balance version, s' = {s with db := s.db.stage pid (.updateWallet id balance version)}) := by
  cases op with
  | commit => contradiction
  | insertUser email passwordHash fullName => contradiction
  | insertWallet userId => contradiction
  | insertTransaction new => contradiction
  | flushWallet id balance => contradiction
  | redisSetex key ttl value => contradiction
  | redisDelete keys => contradiction
  | selectWalletForUpdate id =>
    obtain ⟨db',ran,rfl⟩ := writesSome h
    obtain ⟨⟨rows,db''⟩,selected,same⟩ := Option.map_eq_some_iff.mp ran
    cases same
    simp only [Database.selectForUpdate] at selected
    split at selected
    · cases selected
      exact .inl rfl
    · rename_i found
      split at selected
      · contradiction
      · rename_i free
        cases selected
        exact .inr (.inr ⟨id,Database.freeOfHeld (Bool.not_eq_true _ ▸ free),takenFound found,.inl rfl⟩)
  | selectTransactionByKey | selectTransactionsOf | hashPassword =>
    obtain ⟨rfl,_⟩ := checkedCases h
    exact .inl rfl
  | updateWallet id expected balance version =>
    obtain ⟨db',ran,rfl⟩ := writesSome h
    rcases Database.updateWalletCases ran with ⟨rfl,_⟩ | ⟨stored,_,_,_,_,matched,free,rfl⟩
    · exact .inl rfl
    · have found : (s.db.view pid).walletsById id ≠ [] := fun none => matched (by rw [none]; rfl)
      exact .inr (.inr ⟨id,free,takenFound found,.inr ⟨stored,version,rfl⟩⟩)
  | rollback =>
    cases h
    exact .inr (.inl rfl)
  | close =>
    cases h
    exact .inr (.inl rfl)
  | _ =>
    cases h
    exact .inl rfl

theorem attemptRevocable (revocable : op.revocable = true) (h : attempt pid s op choice = some (r,s')) :
    s' = s ∨ s' = {s with db := s.db.release pid} ∨
    ∃ id, s.db.Free pid (.wallet id) ∧ (s.db.view pid).taken (.wallet id) = true ∧
      (s' = {s with db := s.db.acquire pid [.wallet id]} ∨
        ∃ balance version, s' = {s with db := s.db.stage pid (.updateWallet id balance version)}) := by
  simp only [attempt] at h
  split at h
  · exact performRevocable revocable h
  · cases h
    cases op with
    | close => exact .inr (.inl rfl)
    | _ => exact .inl rfl
  · obtain ⟨⟨r',s''⟩,ran,same⟩ := Option.map_eq_some_iff.mp h
    cases same
    exact performRevocable revocable ran

theorem faintOwn (faint : Database.Faint pid s.db) (revocable : op.revocable = true)
    (h : attempt pid s op choice = some (r,s')) : Database.Faint pid s'.db ∧ s'.without pid = s.without pid := by
  rcases attemptRevocable revocable h with rfl | rfl | ⟨id,free,taken,effect⟩
  · exact ⟨faint,rfl⟩
  · exact ⟨Database.faintReleased,congrArg (fun db => {s with db := db}) Database.releaseErased⟩
  · have only : ∀ x ∈ [Resource.wallet id], s.db.Free pid x := List.forall_mem_singleton.mpr free
    have locks : ∀ x, (s.db.acquire pid [.wallet id]).locks x = some pid →
        ∃ id, x = .wallet id ∧ s.db.tables.taken x = true := by
      intro x here
      rcases Database.acquireLocks.mp here with inside | held
      · rw [List.mem_singleton.mp inside,← faintTaken faint]
        exact ⟨id,rfl,taken⟩
      · exact faint.locks x held
    rcases effect with rfl | ⟨balance,version,rfl⟩
    · exact ⟨⟨locks,faint.pending⟩,congrArg (fun db => {s with db := db}) (Database.acquireErased only)⟩
    · have erased : (s.db.stage pid (.updateWallet id balance version)).without pid = s.db.without pid :=
        Database.stageErased only
      refine ⟨⟨locks,?_⟩,congrArg (fun db => {s with db := db}) erased⟩
      rw [Database.stagePending]
      intro write here
      rcases List.mem_append.mp here with here | here
      · exact faint.pending write here
      · exact ⟨id,balance,version,List.mem_singleton.mp here⟩

end

/-! The whole system without a request. -/

def Record.without (pid : Nat) : Record → Record
  | .called other op fault r commits => .called (lowered pid other) op fault r commits
  | .stopped other commits => .stopped (lowered pid other) commits

def World.without (pid : Nat) (w : World) : World where
  calls := w.calls.eraseIdx pid
  stores := w.stores.without pid
  log := (w.log.filter (fun rec => decide (rec.pid ≠ pid))).map (Record.without pid)

def World.Quiet (pid : Nat) (w : World) : Prop :=
  ∀ rec ∈ w.log, rec.pid = pid → ∀ other op fault r commits, rec = .called other op fault r commits →
    op.revocable = true

theorem walWithout {pid : Nat} {w : World} : (w.without pid).wal.length = w.wal.length := List.length_map ..

theorem recordErased {pid : Nat} {log : List Record} {rec : Record} (own : rec.pid = pid) :
    ((log ++ [rec]).filter (fun rec => decide (rec.pid ≠ pid))).map (Record.without pid) =
      (log.filter (fun rec => decide (rec.pid ≠ pid))).map (Record.without pid) := by
  rw [List.filter_append,List.filter_cons_of_neg (by simp [own]),List.filter_nil,List.append_nil]

theorem recordWithout {pid : Nat} (log : List Record) {rec : Record} (apart : rec.pid ≠ pid) :
    ((log ++ [rec]).filter (fun rec => decide (rec.pid ≠ pid))).map (Record.without pid) =
      (log.filter (fun rec => decide (rec.pid ≠ pid))).map (Record.without pid) ++ [rec.without pid] := by
  rw [List.filter_append,List.filter_cons_of_pos (by simp [apart]),List.filter_nil,List.map_append,
    List.map_singleton]

section
variable [Pydantic] {pid : Nat}

theorem erasable : Interleaving.Erasable machine pid (fun w => w.calls.length) (World.without pid)
    (fun w => Database.Faint pid w.db) (World.Quiet pid) where
  quiet := by
    intro c e c' step quiet rec here
    refine quiet rec ?_
    rcases nextLog step with same | ⟨last,_,more⟩
    · rw [same]
      exact here
    · rw [more]
      exact List.mem_append_left _ here
  own := by
    intro w op choice r w' faint ran quiet
    obtain ⟨s',attempted,rfl⟩ := execCases ran
    have revocable : op.revocable = true :=
      quiet _ (List.mem_append_right _ (List.mem_singleton_self _)) rfl _ _ _ _ _ rfl
    obtain ⟨faint',erased⟩ := faintOwn faint revocable attempted
    refine ⟨faint',rfl,?_⟩
    rw [World.without,World.without,World.mk.injEq]
    exact ⟨rfl,erased,recordErased rfl⟩
  other := by
    intro other w op choice r w' apart faint ran
    obtain ⟨s',attempted,rfl⟩ := execCases ran
    refine ⟨faintOther apart faint attempted,rfl,?_⟩
    have there := attemptWithout apart faint attempted
    change World.exec _ _ _ _ = _
    rw [World.exec,show (w.without pid).stores = w.stores.without pid from rfl,there,Option.map_some]
    refine congrArg (fun x => some (r,x)) (World.mk.injEq .. ▸ ⟨rfl,rfl,?_⟩)
    rw [walWithout]
    exact (recordWithout w.log (show (Record.called other op choice.fault r w.wal.length).pid ≠ pid from apart)).symm
  start := by
    intro w job faint
    refine ⟨faint,List.length_append,?_⟩
    change World.without pid (w.start job) = _
    by_cases last : w.calls.length = pid
    · rw [if_pos last,World.without,World.without,World.mk.injEq]
      exact ⟨Interleaving.eraseLast last,rfl,rfl⟩
    · rw [if_neg last,World.without,World.mk.injEq]
      exact ⟨Interleaving.eraseEarlier last,rfl,rfl⟩
  stopOwn := by
    intro w faint
    refine ⟨Database.faintReleased,rfl,?_⟩
    change World.without pid (w.stop pid) = _
    rw [World.without,World.without,World.mk.injEq]
    exact ⟨rfl,congrArg (fun db => {w.stores with db := db}) Database.releaseErased,recordErased rfl⟩
  stopOther := by
    intro other w apart faint
    refine ⟨faint.released apart,rfl,?_⟩
    change World.without pid (w.stop other) = World.stop (lowered pid other) (w.without pid)
    rw [World.without,World.stop,World.mk.injEq]
    refine ⟨rfl,congrArg (fun db => {w.stores with db := db}) (Database.releaseWithout apart),?_⟩
    change _ = _ ++ [Record.stopped (lowered pid other) (w.without pid).wal.length]
    rw [walWithout]
    exact recordWithout w.log (show (Record.stopped other w.wal.length).pid ≠ pid from apart)
  drift := by
    intro key w w' faint drifted
    cases Option.some.inj drifted
    exact ⟨faint,rfl,rfl⟩

end
end PaymentSystem
