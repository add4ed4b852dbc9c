import PaymentSystem.Guarantees.CacheHealing
import PaymentSystem.Guarantees.Contention

/-! Coherence of the balance cache. An entry lags behind the committed rows only by
writes whose requests still have to delete it, unless a slow read stores its row after
a whole write, or a failure keeps a request from its DELETE. -/
namespace PaymentSystem
open Numerics (Decimal)
open Interleaving (Program Reach)

def Connected (c : State) : Happening → Prop
  | .start call => call.redisClient = true ∨ ∃ userId, call.readsBalance userId
  | .step pid choice => ∀ op, c.awaits pid = some op → op.isRedis = true → choice.fault = .none
  | _ => True

def Owes (pid : Nat) (w : World) : Prop :=
  ∃ commit ∈ w.wal, commit.pid = pid ∧ ∃ id, commit.moves id = true ∧ ¬ Invalidated pid id w

/-- Since the request read the wallet a change of it was committed, and by now whoever
committed it has deleted the entry. -/
def Outrun (pid : Nat) (id : UUID) (w : World) : Prop :=
  ∃ rec ∈ w.log, rec.pid = pid ∧ (∃ row, rec.shows row ∧ row.id = id) ∧ ∃ i commit, rec.commits ≤ i ∧
    w.wal[i]? = some commit ∧ commit.moves id = true ∧ Invalidated commit.pid id w

/-- No request is kept from its DELETE by a failure, and no read that was outrun stores
what it has read. -/
def Prompt (c : State) : Happening → Prop
  | .step pid choice => (choice.fault ≠ .none → ¬ Owes pid c.shared) ∧
      (choice.fault = .raisesAfter → c.awaits pid ≠ some .commit) ∧
      ∀ id ttl text, c.awaits pid = some (.redisSetex (CacheKeys.balance id) ttl text) → ¬ Outrun pid id c.shared
  | .stop pid => ¬ Owes pid c.shared
  | _ => True

def Orderly (c : State) (e : Happening) : Prop := Connected c e ∧ Prompt c e

def Lag (w : World) : Prop :=
  ∀ id text, w.redis (CacheKeys.balance id) = some text → ∃ m ≤ w.wal.length,
    ∃ row ∈ (tablesAt w.wal m).wallets, row.id = id ∧ text = row.balance.toDecimal.str ∧
      ∀ i commit, m ≤ i → w.wal[i]? = some commit → commit.moves id = true → ¬ Invalidated commit.pid id w

section
variable [Pydantic] {c c' : State} {e : Happening}

theorem deletedAbsent {rec : Record} {id : UUID} (h : Logged c e rec) (step : machine.next c e = some c')
    (deletes : rec.invalidates id = true) : c'.shared.redis (CacheKeys.balance id) = none := by
  cases h with
  | stop => simp [Record.invalidates] at deletes
  | @step pid choice op next r s' running attempted =>
    obtain ⟨op',next',r',stores,running',attempted',rfl⟩ := nextStep step
    cases Option.some.inj (running.symm.trans running')
    cases op with
    | redisDelete keys =>
      have fault : choice.fault = .none := by
        cases known : choice.fault <;> simp [Record.invalidates,known] at deletes ⊢
      have inside : CacheKeys.balance id ∈ keys := by
        simpa [Record.invalidates,fault] using deletes
      simp only [attempt,fault,perform] at attempted'
      cases attempted'
      exact if_pos inside
    | _ => simp [Record.invalidates] at deletes

omit [Pydantic] in
theorem storedInvalidates {pid : Nat} {choice : Choice} {key : String} {ttl : Nat} {text : String} {id : UUID}
    {rec : Record} (h : Logged c (.step pid choice) rec) (awaits : c.awaits pid = some (.redisSetex key ttl text)) :
    rec.invalidates id = false := by
  cases h with
  | @step _ _ op next r s' running attempted =>
    cases Option.some.inj ((callAwaits running).symm.trans awaits)
    rfl

theorem lagReachable (run : Reach machine Orderly initial c) : Lag c.shared := by
  induction run with
  | refl => intro id text here; simp [initial,World.empty] at here
  | @next c c' e before ok step ih =>
    have reachable : Reachable c := before.weaken (fun _ _ _ => trivial)
    have intact := reachableIntact reachable
    have intact' := reachableIntact (.next reachable trivial step)
    have grows := nextGrows step
    intro id text here
    rcases nextEntry reachable step here with old | ⟨pid,choice,ttl,row,n,rfl,awaits,read,key,stored⟩
    · obtain ⟨m,within,row,there,key,stored,kept⟩ := ih id text old
      refine ⟨m,within.trans grows.wal.length_le,row,by rw [grows.tablesAt within]; exact there,key,stored,?_⟩
      rintro i commit late found moves ⟨rec,logged,own,deletes⟩
      have known : rec ∈ c.shared.log := by
        rcases nextRecord step logged with known | now
        · exact known
        · rw [deletedAbsent now step deletes] at here
          contradiction
      obtain ⟨earlier,inside,who⟩ := intact.deletes rec known id deletes
      obtain ⟨j,place⟩ := List.getElem?_of_mem inside
      have same : i = j := intact'.legal.onceAt found (grows.commit place) (own.symm.trans who.symm)
      subst same
      cases Option.some.inj (found.symm.trans (grows.commit place))
      exact kept i commit late place moves ⟨rec,known,own,deletes⟩
    · have wal : c'.shared.wal = c.shared.wal := by
        rcases nextWal step with same | ⟨_,_,_,same,running,_⟩
        · exact same
        · cases same
          cases Option.some.inj ((callAwaits running).symm.trans awaits)
      refine ⟨n,wal ▸ read.within,row,by rw [wal]; exact read.row,key,stored,?_⟩
      rintro i commit late found moves ⟨rec,logged,own,deletes⟩
      have known : rec ∈ c.shared.log := by
        rcases nextRecord step logged with known | now
        · exact known
        · rw [storedInvalidates now awaits] at deletes
          contradiction
      obtain ⟨seen,there,mine,showing,rfl⟩ := read.record
      exact ok.2.2.2 id ttl text awaits ⟨seen,there,mine,⟨row,showing,key⟩,i,commit,late,wal ▸ found,moves,
        rec,known,own,deletes⟩

/-! A request that is over owes nothing. -/

omit [Pydantic] in
theorem Entry.writer {calls : List Call} {t : Tables} {pid : Nat} {writes : List Write} {call : Call}
    (entry : Entry calls t pid writes) (called : calls[pid]? = some call) : ∀ userId, ¬ call.readsBalance userId := by
  intro userId reads
  cases entry with
  | register call' => cases Option.some.inj (called.symm.trans call'); exact reads
  | topUp call' => cases Option.some.inj (called.symm.trans call'); exact reads
  | send call' => cases Option.some.inj (called.symm.trans call'); exact reads

theorem connectedCalls (run : Reach machine Orderly initial c) :
    ∀ call ∈ c.shared.calls, call.redisClient = true ∨ ∃ userId, call.readsBalance userId := by
  induction run with
  | refl => intro call here; simp [initial,World.empty] at here
  | @next c c' e before ok step ih =>
    intro call here
    cases e with
    | start job =>
      cases Option.some.inj step
      rcases List.mem_append.mp here with here | here
      · exact ih call here
      · rw [List.mem_singleton.mp here]
        exact ok.1
    | step other choice =>
      obtain ⟨op,next,r,s',_,_,rfl⟩ := nextStep step
      exact ih call here
    | stop other =>
      obtain ⟨_,rfl⟩ := nextStop step
      exact ih call here
    | drift key =>
      cases Option.some.inj step
      exact ih call here

theorem orderlyUnbroken (run : Reach machine Orderly initial c) {pid : Nat} : ¬ Broken pid c.shared := by
  rintro ⟨before,rec,after,split,own,failed,why⟩
  have here : rec ∈ c.shared.log := split ▸ List.mem_append_right _ (List.mem_cons_self ..)
  have intact := reachableIntact (run.weaken (fun _ _ _ => trivial))
  have started : rec.pid < c.shared.calls.length := by
    by_contra late
    exact (intact.unstarted rec.pid (not_lt.mp late)).2.2 rec here rfl
  have kept := reachPlaced (Q := fun w before rec _ => rec.commits ≤ w.wal.length ∧ (rec.failed = true →
      rec.redisFailed = false ∧ rec.halfCommitted = false ∧ ∀ i commit id, w.wal[i]? = some commit →
        i < rec.commits → commit.pid = rec.pid → commit.moves id = true →
        ∃ r ∈ before, r.pid = rec.pid ∧ r.invalidates id = true)) ?_ ?_ run before rec after split _
      (List.getElem?_eq_getElem started)
  · obtain ⟨redis,half,deletes⟩ := kept.2 failed
    rcases why with again | again | ⟨i,commit,id,found,earlier,who,moves,none⟩
    · rw [redis] at again
      contradiction
    · rw [half] at again
      contradiction
    · obtain ⟨r,inside,mine,invalidates⟩ := deletes i commit id found earlier (who.trans own.symm) moves
      rw [none r inside (mine.trans own)] at invalidates
      contradiction
  · rintro w w' before rec call _ _ grows ⟨within,known⟩
    refine ⟨within.trans grows.wal.length_le,fun failed => ?_⟩
    obtain ⟨redis,half,deletes⟩ := known failed
    refine ⟨redis,half,?_⟩
    intro i commit id found earlier
    exact deletes i commit id (prefixOld grows.wal (earlier.trans_le within) found) earlier
  -- the step lemma: a failure is allowed where nothing is owed
  · intro c c' e rec call before ok step logged _
    have grows := nextGrows step
    have pays : ∀ pid, ¬ Owes pid c.shared → ∀ i commit id, c'.shared.wal[i]? = some commit →
        i < c.shared.wal.length → commit.pid = pid → commit.moves id = true →
        ∃ r ∈ c.shared.log, r.pid = pid ∧ r.invalidates id = true := by
      intro pid clear i commit id found earlier who moves
      by_contra kept
      exact clear ⟨commit,List.mem_of_getElem? (prefixOld grows.wal earlier found),who,id,moves,kept⟩
    cases logged with
    | @step pid choice op next r s' running attempted =>
      obtain ⟨connected,clear,whole,_⟩ := ok
      refine ⟨grows.wal.length_le,fun failed => ?_⟩
      have raised : choice.fault ≠ .none := by simpa [Record.failed] using failed
      refine ⟨?_,?_,pays pid (clear raised)⟩
      · cases redis : op.isRedis with
        | false => simp [Record.redisFailed,redis]
        | true => exact absurd (connected op (callAwaits running) redis) raised
      · by_contra half
        simp only [Record.halfCommitted,Bool.not_eq_false,decide_eq_true_eq] at half
        exact whole half.2 (half.1 ▸ callAwaits running)
    | @stop pid op next running => exact ⟨grows.wal.length_le,fun _ => ⟨rfl,rfl,pays pid ok.2⟩⟩

theorem overInvalidated (run : Reach machine Orderly initial c) {commit : Commit} {id : UUID}
    (here : commit ∈ c.shared.wal) (ended : (c.outcome commit.pid).isSome) (moves : commit.moves id = true) :
    Invalidated commit.pid id c.shared := by
  have reachable : Reachable c := run.weaken (fun _ _ _ => trivial)
  obtain ⟨outcome,done⟩ := Option.isSome_iff_exists.mp ended
  obtain ⟨call,concluded⟩ := (reachableReport reachable done).concluded
  obtain ⟨i,found⟩ := List.getElem?_of_mem here
  have writer := ((reachableIntact reachable).legal.entryAt found).writer concluded.called
  have client : call.redisClient = true := by
    rcases connectedCalls run call (List.mem_of_getElem? concluded.called) with client | ⟨userId,reads⟩
    · exact client
    · exact absurd reads (writer userId)
  rcases concluded.settled client with deleted | broken
  · exact deleted commit here rfl id moves
  · exact absurd broken (orderlyUnbroken run)

theorem begins (c : State) (call : Call) : machine.next c (.start call) = some (c.begin call) := rfl

theorem coherentQuiet (run : Reach machine Orderly initial c) (ended : ∀ p ∈ c.running, p.finished ≠ none)
    (id : UUID) : c.shared.BalanceCoherent id := by
  intro row here key text entry
  have held := heldReachable (run.weaken (fun _ _ _ => trivial))
  obtain ⟨m,within,read,there,key',rfl,kept⟩ := lagReachable run id text entry
  have still : read ∈ c.shared.tables.wallets := by
    by_contra gone
    rw [← held.inv.now] at gone
    obtain ⟨i,commit,late,_,found,moves⟩ := rowMoved within (Nat.le_refl _) there gone
    have committed := List.mem_of_getElem? found
    have inside : commit.pid < c.running.length := held.counted ▸ held.inv.legal.started commit committed
    have done : (c.outcome commit.pid).isSome := by
      rw [State.outcome,List.getElem?_eq_getElem inside]
      exact Option.isSome_iff_ne_none.mpr (ended _ (List.getElem_mem inside))
    exact kept i commit late found (key' ▸ moves) (overInvalidated run committed done (key' ▸ moves))
  cases Tables.uniqueBy held.inv.keyed.walletIds still here (key'.trans key.symm)
  exact Decimal.ofStringStr _

/-! Reads that begin after a write is over. -/

section
variable {call : Call} {userId : UUID} {commit : Commit} {k : Nat}

def Since (k : Nat) (commit : Commit) (w : World) (id : UUID) (balance : Decimal) : Prop :=
  ∃ n ≤ w.wal.length, ∃ row ∈ (tablesAt w.wal n).wallets, row.id = id ∧ balance = row.balance.toDecimal ∧
    (commit.moves id = true → k < n)

omit [Pydantic] in
theorem Since.grows {w w' : World} {id : UUID} {balance : Decimal} (h : Since k commit w id balance)
    (grows : Grows w w') : Since k commit w' id balance := by
  obtain ⟨n,within,row,here,known⟩ := h
  exact ⟨n,within.trans grows.wal.length_le,row,by rw [grows.tablesAt within]; exact here,known⟩

theorem hitSince (run : Reach machine Orderly initial c) (begun : Orderly c (.start call))
    (found : c.shared.wal[k]? = some commit) (ended : (c.outcome commit.pid).isSome)
    (later : Reach machine Orderly (c.begin call) c') :
    ∀ rec ∈ c'.shared.log, rec.pid = c.running.length → ∀ id balance, rec.hits id balance →
      Since k commit c'.shared id balance := by
  have held := heldReachable (run.weaken (fun _ _ _ => trivial))
  have started : Reach machine Orderly initial (c.begin call) := .next run begun rfl
  induction later with
  | refl =>
    intro rec here own
    exact absurd own ((held.inv.unstarted _ held.counted.ge).2.2 rec here)
  | @next c₁ c₂ e before ok step ih =>
    have grows := nextGrows step
    intro rec here own id balance hits
    rcases nextRecord step here with here | logged
    · exact (ih rec here own id balance hits).grows grows
    · obtain ⟨text,entry,parsed⟩ := logged.hit hits
      obtain ⟨m,within,row,there,key,rfl,kept⟩ := lagReachable (started.trans before) id text entry
      refine Since.grows ⟨m,within,row,there,key,?_,?_⟩ grows
      · exact Option.some.inj (parsed.symm.trans (Decimal.ofStringStr _))
      · intro moves
        by_contra late
        have between : Grows c.shared c₁.shared := (nextGrows (begins c call)).trans (reachGrows before)
        exact kept k commit (Nat.le_of_not_lt late) (between.commit found) moves
          ((overInvalidated run (List.mem_of_getElem? found) ended moves).grows between)

theorem reportedSince (run : Reach machine Orderly initial c) (begun : Orderly c (.start call))
    (found : c.shared.wal[k]? = some commit) (ended : (c.outcome commit.pid).isSome)
    (later : Reach machine Orderly (c.begin call) c') {id : UUID} {balance : Decimal}
    (reported : Reported c.running.length userId id balance c'.shared) : Since k commit c'.shared id balance := by
  obtain ⟨row,n,read,_,rfl,rfl | ⟨rec,here,own,hits⟩⟩ := reported
  · refine ⟨n,read.within,row,read.row,rfl,rfl,fun _ => ?_⟩
    obtain ⟨rec,here,own,_,rfl⟩ := read.record
    have held := heldReachable (run.weaken (fun _ _ _ => trivial))
    obtain ⟨more,log,late⟩ := ((nextGrows (begins c call)).trans (reachGrows later)).log
    rw [log] at here
    rcases List.mem_append.mp here with here | here
    · exact absurd own ((held.inv.unstarted _ held.counted.ge).2.2 rec here)
    · exact (List.getElem?_eq_some_iff.mp found).1.trans_le (late rec here)
  · exact hitSince run begun found ended later rec here own row.id balance hits

end

def ShownSince (k : Nat) (commit : Commit) (userId : UUID) (response : Response) (w : World) : Prop :=
  ∃ wallet ∈ w.tables.wallets, wallet.userId = userId ∧ ∃ balance, response.balance? = some balance ∧
    Since k commit w wallet.id balance

end

theorem cacheCoherent [Pydantic] {c : State} (run : Reach machine Orderly initial c) :
    ((∀ p ∈ c.running, p.finished ≠ none) → ∀ id, c.shared.BalanceCoherent id) ∧
      ∀ (k : Nat) (commit : Commit) (userId : UUID) (call : Call) (c' : State) (response : Response),
        c.shared.wal[k]? = some commit → (c.outcome commit.pid).isSome → call.readsBalance userId →
        Reach machine Orderly (c.begin call) c' → c'.outcome c.running.length = some (.ok response) →
        ShownSince k commit userId response c'.shared := by
  refine ⟨coherentQuiet run,?_⟩
  intro k commit userId call c' response found ended reads later done
  have begun : Orderly c (.start call) := ⟨.inr ⟨userId,reads⟩,trivial⟩
  have reachable : Reachable c := run.weaken (fun _ _ _ => trivial)
  have reachable' : Reachable c' := ((run.next begun (begins c call)).trans later).weaken (fun _ _ _ => trivial)
  have called : c'.shared.calls[c.running.length]? = some call := by
    refine (reachGrows later).call ?_
    change (c.shared.calls ++ [call])[_]? = _
    rw [(heldReachable reachable).counted]
    exact List.getElem?_concat_length
  obtain ⟨call',concluded⟩ := (reachableReport reachable' done).concluded
  cases Option.some.inj (called.symm.trans concluded.called)
  have answered := concluded.answered
  have shown : ∃ id balance, response.balance? = some balance ∧
      Reported c.running.length userId id balance c'.shared := by
    cases call with
    | getWallet owner redisClient =>
      cases (show owner = userId from reads)
      cases response with
      | wallet shown => exact ⟨shown.id,shown.balance,rfl,answered⟩
      | _ => exact absurd answered id
    | getBalanceFast owner redisClient =>
      cases (show owner = userId from reads)
      cases response with
      | balance shown =>
        obtain ⟨id,reported⟩ := answered
        exact ⟨id,shown,rfl,reported⟩
      | _ => exact absurd answered id
    | _ => exact absurd reads id
  obtain ⟨id,balance,shown,reported⟩ := shown
  have since := reportedSince run begun found ended later reported
  obtain ⟨row,n,read,owner,rfl,_⟩ := reported
  obtain ⟨last,here,becomes⟩ := ((reachableIntact reachable').evolved n).wallets row read.row
  exact ⟨last,here,becomes.userId.symm.trans owner,balance,shown,becomes.id ▸ since⟩

section
open JsonMode

def orderlyTest (c : State) : Happening → Bool
  | .start call => call.redisClient
  | .step pid choice => decide (choice.fault = .none) && ((c.awaits pid).all (fun op => match op with
      | .redisSetex _ _ _ => c.shared.log.all (fun rec => decide (rec.pid = pid → rec.commits = c.shared.wal.length))
      | _ => true))
  | .stop _ => false
  | .drift _ => true

theorem orderlySure (c : State) (e : Happening) (h : orderlyTest c e = true) : Orderly c e := by
  cases e with
  | start call => exact ⟨.inl h,trivial⟩
  | step pid choice =>
    simp only [orderlyTest,Bool.and_eq_true,decide_eq_true_eq] at h
    obtain ⟨faultless,fresh⟩ := h
    refine ⟨fun _ _ _ => faultless,fun fails => absurd faultless fails,fun raised => ?_,?_⟩
    · rw [faultless] at raised
      contradiction
    · rintro id ttl text awaits ⟨rec,here,own,_,i,commit,late,found,_⟩
      rw [awaits] at fresh
      have commits := decide_eq_true_eq.mp (List.all_eq_true.mp fresh rec here) own
      rw [List.getElem?_eq_none (commits ▸ late)] at found
      contradiction
  | stop pid => contradiction
  | drift key => exact ⟨trivial,trivial⟩

def cachedThenRaised : Run initial where
  events := opening ++ (serve (.getBalanceFast 102 true) 3 4 400 ++ serve (.topUp 102 fiveDollars true) 4 7 500)
  possible := by decide +kernel

def readAfter : Run (cachedThenRaised.last.begin (.getBalanceFast 102 true)) := ⟨steps 5 4 600,by decide +kernel⟩

theorem cacheCoherentRaised : cachedThenRaised.last.shared.BalanceCoherent 103 ∧
    ∃ commit, commit.pid = 4 ∧ ShownSince 3 commit 102 (.balance ⟨10500,-2⟩) readAfter.last.shared := by
  have run : Reach machine Orderly initial cachedThenRaised.last :=
    cachedThenRaised.meeting orderlySure (by decide +kernel)
  have ended : cachedThenRaised.last.running.all (fun p => p.finished.isSome) = true := by decide +kernel
  have five : cachedThenRaised.last.running.length = 5 := by decide +kernel
  have last : (cachedThenRaised.last.shared.wal[3]?.map Commit.pid) = some 4 := by decide +kernel
  obtain ⟨commit,found,four⟩ := Option.map_eq_some_iff.mp last
  have coherent := cacheCoherent run
  refine ⟨coherent.1 (fun p here => Option.isSome_iff_ne_none.mp (List.all_eq_true.mp ended p here)) 103,
    commit,four,?_⟩
  refine coherent.2 3 commit 102 (.getBalanceFast 102 true) _ _ found ?_ (Eq.refl (102 : UUID))
    (readAfter.meeting orderlySure (by decide +kernel)) ?_
  · rw [four]
    decide +kernel
  · rw [five]
    decide +kernel

end

def Flawless : State → Happening → Prop
  | _,.start call => call.redisClient = true
  | _,.step _ choice => choice.fault = .none
  | _,.stop _ => False
  | _,.drift _ => True

section
open JsonMode

def flawlessTest : State → Happening → Bool
  | _,.start call => call.redisClient
  | _,.step _ choice => decide (choice.fault = .none)
  | _,.stop _ => false
  | _,.drift _ => true

theorem flawlessSure (c : State) (e : Happening) (h : flawlessTest c e = true) : Flawless c e := by
  cases e with
  | start call => exact h
  | step pid choice =>
    simp only [flawlessTest,decide_eq_true_eq] at h
    exact h
  | stop pid => contradiction
  | drift key => trivial

def slowRead : Run initial where
  events := opening ++ (.start (.getBalanceFast 102 true) :: (steps 3 2 400 ++
    (serve (.topUp 102 fiveDollars true) 4 7 500 ++ steps 3 2 410)))
  possible := by decide +kernel

theorem staleAfterSlowRead : ¬ ∀ c : State, Reach machine Flawless initial c →
    (∀ p ∈ c.running, p.finished ≠ none) → ∀ id, c.shared.BalanceCoherent id := by
  intro always
  have reached : Reach machine Flawless initial slowRead.last := slowRead.meeting flawlessSure (by decide +kernel)
  have ended : slowRead.last.running.all (fun p => p.finished.isSome) = true := by decide +kernel
  have here : toppedUp ∈ slowRead.last.shared.tables.wallets := by decide +kernel
  have entry : slowRead.last.shared.redis (CacheKeys.balance 103) = some "100.00" := by decide +kernel
  have coherent := always _ reached
    (fun p inside => Option.isSome_iff_ne_none.mp (List.all_eq_true.mp ended p inside)) 103
  have parsed := coherent toppedUp here rfl "100.00" entry
  exact absurd parsed (by decide +kernel)

end

end PaymentSystem
