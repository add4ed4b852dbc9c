import PaymentSystem.System.Staging
import PaymentSystem.System.Schedule

/-! No update is lost. A request computes balances from rows that it read before it had
locked them, and the locking SELECT does not refresh these. What it commits replaces
exactly the rows that it read, and between that read and the commit they stood. -/
namespace PaymentSystem
open Interleaving (Program)
open Numerics (Decimal)

theorem Wallet.Becomes.antisymm {a b : Wallet} (h : a.Becomes b) (h' : b.Becomes a) : a = b := by
  rcases h with same | ⟨_,_,_,_,more⟩
  · exact same
  · rcases h' with same | ⟨_,_,_,_,more'⟩
    · exact same.symm
    · omega

theorem Legal.stands {calls : List Call} {wal : List Commit} (legal : Legal calls wal) {row : Wallet} {n k m : Nat}
    (first : row ∈ (tablesAt wal n).wallets) (last : row ∈ (tablesAt wal m).wallets) (after : n ≤ k) (before : k ≤ m) :
    row ∈ (tablesAt wal k).wallets := by
  obtain ⟨middle,here,becomes⟩ := (legal.evolvesBetween after).wallets row first
  obtain ⟨final,there,becomes'⟩ := (legal.evolvesBetween before).wallets middle here
  have same : final = row :=
    Tables.uniqueBy (legal.upTo m).keyed.walletIds there last (becomes.id.trans becomes'.id).symm
  rw [same] at becomes'
  rw [becomes.antisymm becomes']
  exact here

/-! The rows a request is shown. -/

section
variable [Pydantic] {c c' : State} {pid : Nat} {e : Happening}

theorem shownCommitted (reachable : Reachable c) {rec : Record} (here : rec ∈ c.shared.log) {row : Wallet}
    (shows : rec.shows row) :
    rec.commits ≤ c.shared.wal.length ∧ row ∈ (tablesAt c.shared.wal rec.commits).wallets := by
  have started : rec.pid < c.shared.calls.length := by
    by_contra late
    exact ((reachableIntact reachable).unstarted rec.pid (not_lt.mp late)).2.2 rec here rfl
  refine reachRecords (Q := fun w rec _ => rec.shows row → rec.commits ≤ w.wal.length ∧
    row ∈ (tablesAt w.wal rec.commits).wallets) ?_ ?_ reachable rec here _ (List.getElem?_eq_getElem started) shows
  · intro w w' rec _ _ _ grows known shows
    obtain ⟨within,seen⟩ := known shows
    exact ⟨within.trans grows.wal.length_le,by rw [grows.tablesAt within]; exact seen⟩
  · intro c c' e rec _ before _ step logged _ shows
    have intact := reachableIntact before
    have grows := nextGrows step
    have commits : rec.commits = c.shared.wal.length := by cases logged <;> rfl
    rw [commits,grows.tablesAt (Nat.le_refl _),intact.now]
    refine ⟨grows.wal.length_le,?_⟩
    cases logged with
    | stop => contradiction
    | @step pid choice op next r s' running ran =>
      have due := (reachableDue before running).2.1
      have committed : c.shared.db.pending pid = [] → ∀ {keep : Wallet → Bool},
          row ∈ (c.shared.db.view pid).wallets.filter keep → row ∈ c.shared.tables.wallets := by
        intro none keep inside
        rw [Database.viewNothing none] at inside
        exact (List.mem_filter.mp inside).1
      rcases attemptCases ran with ⟨fault,performed⟩ | ⟨fault,rfl⟩
      · rw [fault] at shows
        cases op with
        | selectWalletByUserId userId =>
          cases performed
          exact committed (due.1 rfl) shows
        | selectWalletById id =>
          cases performed
          exact committed (due.1 rfl) shows
        | selectWalletForUpdate id =>
          obtain ⟨db',selected,_⟩ := writesSome performed
          obtain ⟨⟨rows,_⟩,found,same⟩ := Option.map_eq_some_iff.mp selected
          cases same
          rw [(Database.selectForUpdateCases found).1] at shows
          exact committed (due.1 rfl) shows
        | _ => contradiction
      · generalize choice.fault = raised at shows fault
        cases raised with
        | none => contradiction
        | _ => cases op <;> contradiction

theorem committedPending {choice : Choice} (step : machine.next c (.step pid choice) = some c')
    (grown : c'.shared.wal ≠ c.shared.wal) : c'.shared.db.pending pid = [] := by
  obtain ⟨op,next,r,s',_,attempted,rfl⟩ := nextStep step
  by_cases commits : op = .commit
  · subst commits
    cases attemptEffect attempted with
    | committed _ =>
      change (c.shared.db.commit pid).pending pid = []
      rw [Database.commitPending,Database.releasePending]
    | _ => exact absurd rfl grown
  · exact absurd (effectWal (attemptEffect attempted) commits) grown

theorem stepLater (reachable : Reachable c) {choice : Choice} (step : machine.next c (.step pid choice) = some c')
    {other : Nat} (apart : other ≠ pid) : Later other c.shared c'.shared := by
  obtain ⟨op,next,r,s',here,attempted,rfl⟩ := nextStep step
  have ran : World.exec pid c.shared op choice = some (r,c.shared.called pid op choice.fault r s') := by
    simp only [World.exec,attempted]
    rfl
  exact (sound.exec pid c.shared op choice r _ (reachableIntact reachable) (reachableDue reachable here) trivial ran).2.2
    other apart

end

/-! What a request updates it has read. -/

def Informed (pid : Nat) (w : World) (id : UUID) (m : Nat) : Prop :=
  ∃ row n, ReadAt pid w row n ∧ row.id = id ∧ n ≤ m ∧ row ∈ (tablesAt w.wal m).wallets

def Call.moves : Call → Bool
  | .topUp _ _ _ => true
  | .sendMoney _ _ _ => true
  | _ => false

structure Informs (w : World) : Prop where
  pending : ∀ pid id stored version, Write.updateWallet id stored version ∈ w.db.pending pid →
    ∀ call, w.calls[pid]? = some call → call.moves = true → Informed pid w id w.wal.length
  committed : ∀ i commit id stored version, w.wal[i]? = some commit → Write.updateWallet id stored version ∈ commit.writes →
    ∀ call, w.calls[commit.pid]? = some call → call.moves = true → Informed commit.pid w id i

theorem Informed.grows {pid : Nat} {w w' : World} {id : UUID} {m : Nat} (h : Informed pid w id m) (grows : Grows w w')
    (within : m ≤ w.wal.length) : Informed pid w' id m := by
  obtain ⟨row,n,read,key,early,here⟩ := h
  exact ⟨row,n,read.grows grows,key,early,by rw [grows.tablesAt within]; exact here⟩

section
variable [Pydantic] {c c' : State} {pid : Nat} {e : Happening}

theorem expectedStands {w : World} (intact : Intact w) {row : Wallet} {n : Nat} (read : ReadAt pid w row n)
    (found : (w.tables.walletsById row.id).filter (fun x => x.version == row.version) ≠ []) : row ∈ w.tables.wallets := by
  obtain ⟨x,here⟩ := List.exists_mem_of_ne_nil _ found
  obtain ⟨inside,version⟩ := List.mem_filter.mp here
  obtain ⟨inside,key⟩ := Tables.walletsByIdMem.mp inside
  obtain ⟨last,there,becomes⟩ := (intact.evolved n).wallets row read.row
  cases Tables.uniqueBy intact.keyed.walletIds there inside (becomes.id.symm.trans key.symm)
  rw [becomes.eq (by simpa using version)]
  exact there

theorem updatesInformed (reachable : Reachable c) {id : UUID} {expected version : Int} {balance : Decimal}
    {next : Res (.updateWallet id expected balance version) → Program Op Res Outcome}
    (running : c.running[pid]? = some (.call (.updateWallet id expected balance version) next))
    (found : ((c.shared.db.view pid).walletsById id).filter (fun w => w.version == expected) ≠ []) {call : Call}
    (called : c.shared.calls[pid]? = some call) (moves : call.moves = true) :
    Informed pid c.shared id c.shared.wal.length := by
  have intact := reachableIntact reachable
  obtain ⟨_,sends,topsUp⟩ := (reachableDue reachable running).2.1
  have informed : ∀ {row n}, ReadAt pid c.shared row n → row.id = id → row ∈ c.shared.tables.wallets →
      Informed pid c.shared id c.shared.wal.length := by
    intro row n read key here
    exact ⟨row,n,read,key,read.within,intact.now.symm ▸ here⟩
  cases call with
  | topUp userId amount redisClient =>
    obtain ⟨none,_,row,n,read,_,rfl,rfl⟩ := topsUp _ _ _ called
    rw [Database.viewNothing none] at found
    exact informed read rfl (expectedStands intact read found)
  | sendMoney userId request redisClient =>
    obtain ⟨row,adjusting⟩ := sends _ _ _ called
    obtain ⟨before,rec,after,log,own,_,⟨seen,earlier,mine,shows⟩,_⟩ := adjusting.locked.record
    have inside : seen ∈ c.shared.log := log ▸ List.mem_append_left _ earlier
    obtain ⟨within,committed⟩ := shownCommitted reachable inside shows
    have read : ReadAt pid c.shared row seen.commits := ⟨⟨seen,inside,mine,shows,rfl⟩,within,committed⟩
    rw [← adjusting.key,adjusting.unwritten,← adjusting.version] at found
    exact informed read adjusting.key (expectedStands intact read found)
  | _ => contradiction

theorem calledBefore (reachable : Reachable c) (step : machine.next c e = some c') {write : Write}
    (here : write ∈ c.shared.db.pending pid) {call : Call} (called : c'.shared.calls[pid]? = some call) :
    c.shared.calls[pid]? = some call := by
  refine prefixOld (nextGrows step).calls ?_ called
  by_contra late
  rw [((reachableIntact reachable).unstarted pid (not_lt.mp late)).1] at here
  contradiction

theorem informsPending (reachable : Reachable c) (informs : Informs c.shared) (step : machine.next c e = some c')
    {id : UUID} {stored : Money} {version : Int} (old : Write.updateWallet id stored version ∈ c.shared.db.pending pid)
    (here : Write.updateWallet id stored version ∈ c'.shared.db.pending pid) {call : Call}
    (called : c'.shared.calls[pid]? = some call) (moves : call.moves = true) :
    Informed pid c'.shared id c'.shared.wal.length := by
  have intact := reachableIntact reachable
  have grows := nextGrows step
  have informed := informs.pending pid id stored version old call (calledBefore reachable step old called) moves
  rcases nextWal step with same | ⟨committer,choice,next,rfl,_,_,more⟩
  · rw [same]
    exact informed.grows grows (Nat.le_refl _)
  · have grown : c'.shared.wal ≠ c.shared.wal := by
      rw [more]
      simp
    have apart : pid ≠ committer := by
      rintro rfl
      rw [committedPending step grown] at here
      contradiction
    -- the wallet is locked until its own commit
    have held := intact.staged pid _ old (.wallet id) (by simp [Write.resources])
    obtain ⟨row,n,read,rfl,_,stands⟩ := informed
    rw [intact.now] at stands
    have stays := lockedRow (stepLater reachable step apart) held stands
    refine ⟨row,n,read.grows grows,rfl,read.within.trans grows.wal.length_le,?_⟩
    rw [(reachableIntact (.next reachable trivial step)).now]
    exact stays

theorem informsNext (reachable : Reachable c) (informs : Informs c.shared) (step : machine.next c e = some c') :
    Informs c'.shared := by
  have grows := nextGrows step
  refine ⟨?_,?_⟩
  · intro other id stored version here call called moves
    cases e with
    | step pid choice =>
      obtain ⟨op,next,r,s',running,attempted,same⟩ := nextStep step
      subst same
      rcases attemptStages attempted here with old | ⟨rfl,stages⟩
      · exact informsPending reachable informs step old here called moves
      · cases stages with
        | updateWallet found =>
          have informed := updatesInformed reachable running found called moves
          have still := effectWal (attemptEffect attempted) (by simp)
          change Informed _ _ _ s'.db.wal.length
          rw [still]
          exact informed.grows grows (Nat.le_refl _)
        | flushWallet => exact (show False from (reachableDue reachable running).2.1).elim
    | start job =>
      have old : Write.updateWallet id stored version ∈ c.shared.db.pending other := by
        cases Option.some.inj step
        exact here
      exact informsPending reachable informs step old here called moves
    | stop pid =>
      have old : Write.updateWallet id stored version ∈ c.shared.db.pending other := by
        obtain ⟨_,rfl⟩ := nextStop step
        exact releasedMem here
      exact informsPending reachable informs step old here called moves
    | drift key =>
      have old : Write.updateWallet id stored version ∈ c.shared.db.pending other := by
        cases Option.some.inj step
        exact here
      exact informsPending reachable informs step old here called moves
  · intro i commit id stored version found inside call called moves
    have before : i < c.shared.wal.length → Informed commit.pid c'.shared id i := by
      intro within
      have old := prefixOld grows.wal within found
      obtain ⟨call',called',_⟩ : ∃ call', c.shared.calls[commit.pid]? = some call' ∧ call' = call := by
        obtain ⟨first,there⟩ := ((reachableIntact reachable).legal.entryAt old).called
        exact ⟨first,there,Option.some.inj ((grows.call there).symm.trans called)⟩
      subst call'
      exact (informs.committed i commit id stored version old inside call called' moves).grows grows within.le
    rcases nextWal step with same | ⟨committer,choice,next,rfl,_,_,more⟩
    · exact before (same ▸ (List.getElem?_eq_some_iff.mp found).1)
    · rw [more] at found
      rcases Nat.lt_or_ge i c.shared.wal.length with within | late
      · exact before within
      · rw [List.getElem?_append_right late,List.getElem?_singleton] at found
        split at found <;> try contradiction
        cases found
        have last : i = c.shared.wal.length := by omega
        rw [last]
        exact (informs.pending committer id stored version inside call (calledBefore reachable step inside called)
          moves).grows grows (Nat.le_refl _)

theorem reachableInforms (reachable : Reachable c) : Informs c.shared := by
  induction reachable with
  | refl => exact ⟨fun _ _ _ _ here => by contradiction,fun _ _ _ _ _ found => by contradiction⟩
  | next before _ step ih => exact informsNext before ih step

end

/-! What a commit changes. -/

def Call.effect : Call → UUID → Int
  | .topUp userId amount _, user => if userId = user then amount.cents else 0
  | .sendMoney userId request _, user =>
      (if request.receiverId = user then (request.amount.cents : Int) else 0) -
        (if userId = user then request.amount.cents else 0)
  | _, _ => 0

theorem Entry.updates {calls : List Call} {t : Tables} {pid : Nat} {writes : List Write} (entry : Entry calls t pid writes)
    (keyed : t.Keyed) {before after : Wallet} (here : before ∈ t.wallets) (stored : after ∈ (t.applyAll writes).wallets)
    (same : after.id = before.id) (changed : after ≠ before) : ∃ call, calls[pid]? = some call ∧ call.moves = true ∧
      Write.updateWallet before.id after.balance after.version ∈ writes ∧
      after.balance.units = before.balance.units + call.effect before.userId ∧ after.version = before.version + 1 := by
  have unchanged : after ∉ t.wallets := fun old => changed (Tables.uniqueBy keyed.walletIds old here same)
  cases entry with
  | @register data user wallet call email fullName freshUser freshEmail freshWallet =>
    rcases List.mem_append.mp stored with old | added
    · exact absurd old unchanged
    · cases List.mem_singleton.mp added
      rw [Tables.takenWallet.mpr (same ▸ List.mem_map_of_mem here)] at freshWallet
      contradiction
  | @topUp userId amount redisClient wallet balance call present owner credit =>
    rcases Tables.updateWalletMem stored with ⟨old,_⟩ | ⟨old,inside,key,rfl⟩
    · exact absurd old unchanged
    · cases Tables.uniqueBy keyed.walletIds inside here same
      cases Tables.uniqueBy keyed.walletIds inside present key
      exact ⟨_,call,rfl,List.mem_singleton_self _,by simp [Call.effect,owner,credit],rfl⟩
  | @send userId request redisClient sender receiver debited credited row call senderHere senderOwner receiverHere
      receiverOwner different covered debit credit =>
    have owners : sender.userId ≠ receiver.userId := fun same =>
      different (congrArg Wallet.id (Tables.uniqueBy keyed.owners senderHere receiverHere same))
    rcases Tables.updateWalletMem stored with ⟨inner,_⟩ | ⟨middle,inner,key,rfl⟩
    · rcases Tables.updateWalletMem inner with ⟨old,_⟩ | ⟨old,inside,key,rfl⟩
      · exact absurd old unchanged
      · cases Tables.uniqueBy keyed.walletIds inside here same
        cases Tables.uniqueBy keyed.walletIds inside senderHere key
        refine ⟨_,call,rfl,List.mem_cons_self ..,?_,rfl⟩
        simp only [Call.effect,← senderOwner,← receiverOwner,if_neg owners.symm,if_true,debit]
        ring
    · rcases Tables.updateWalletMem inner with ⟨inside,_⟩ | ⟨_,_,that,rfl⟩
      · cases Tables.uniqueBy keyed.walletIds inside here same
        cases Tables.uniqueBy keyed.walletIds inside receiverHere key
        refine ⟨_,call,rfl,by simp,?_,rfl⟩
        simp only [Call.effect,← senderOwner,← receiverOwner,if_neg owners,if_true,credit]
        ring
      · exact absurd (that.symm.trans key) different

theorem noLostUpdate [Pydantic] {c : State} (reachable : Reachable c) {i : Nat} {commit : Commit}
    {before after : Wallet} (found : c.shared.wal[i]? = some commit) (here : before ∈ (tablesAt c.shared.wal i).wallets)
    (stored : after ∈ (tablesAt c.shared.wal (i + 1)).wallets) (same : after.id = before.id) (changed : after ≠ before) :
    ∃ call n, c.shared.calls[commit.pid]? = some call ∧ ReadAt commit.pid c.shared before n ∧ n ≤ i ∧
      (∀ k, n ≤ k → k ≤ i → before ∈ (tablesAt c.shared.wal k).wallets) ∧
      after.balance.units = before.balance.units + call.effect before.userId ∧ after.version = before.version + 1 := by
  have legal := (reachableIntact reachable).legal
  have keyed : (tablesAt c.shared.wal i).Keyed := (legal.upTo i).keyed
  rw [tablesAtSucc found] at stored
  obtain ⟨call,called,moves,write,balance,version⟩ := (legal.entryAt found).updates keyed here stored same changed
  obtain ⟨row,n,read,key,early,there⟩ :=
    (reachableInforms reachable).committed i commit _ _ _ found write call called moves
  cases Tables.uniqueBy keyed.walletIds there here key
  exact ⟨call,n,called,read,early,fun k after before => legal.stands read.row here after before,balance,version⟩

open JsonMode in
def depositedAgain : Run initial :=
  ⟨opening ++ serve (.topUp 102 fiveDollars false) 3 1 400 ++ serve (.topUp 102 tenDollars false) 4 5 500 ++
    steps 3 7 600,by decide +kernel⟩

def withSecond : Wallet := ⟨103,102,⟨11000,by decide⟩,"USD",3,⟨2024,1,1,0,0,0,0⟩⟩

def withBothDeposits : Wallet := ⟨103,102,⟨11500,by decide⟩,"USD",4,⟨2024,1,1,0,0,0,0⟩⟩

open JsonMode in
theorem noLostUpdateDeposits : ∃ call n, depositedAgain.last.shared.calls[3]? = some call ∧
    ReadAt 3 depositedAgain.last.shared withSecond n ∧ n ≤ 4 ∧
    (∀ k, n ≤ k → k ≤ 4 → withSecond ∈ (tablesAt depositedAgain.last.shared.wal k).wallets) ∧
    withBothDeposits.balance.units = withSecond.balance.units + call.effect 102 ∧ (4 : Int) = 3 + 1 :=
  @noLostUpdate _ _ depositedAgain.reaches 4 ⟨3,[.updateWallet 103 withBothDeposits.balance 4]⟩ withSecond withBothDeposits
    (by decide +kernel) (by decide +kernel) (by decide +kernel) rfl (by decide)

end PaymentSystem
