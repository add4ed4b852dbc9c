import PaymentSystem.System.Schedule

/-! What an exception means for the database. A request that raises has committed
nothing, unless what failed is the re-reading of the row it had just committed. -/
namespace PaymentSystem
open Interleaving (Event Program Reach)

def Call.writes : Call → Bool
  | .register _ => true
  | .topUp _ _ _ => true
  | .sendMoney _ _ _ => true
  | _ => false

/-- A step of this request with Redis healthy, where any call of the database may
fail, but a commit that raises has not been applied. -/
def RedisHealthy (pid : Nat) (c : State) : Happening → Prop
  | .step running choice => running = pid ∧ ∀ op next, c.running[pid]? = some (.call op next) →
      (op.isRedis = true → choice.fault = .none) ∧ (op = .commit → choice.fault ≠ .raisesAfter)
  | _ => False

def RefreshesHeld (pid : Nat) (w : World) : Prop :=
  ∀ rec ∈ w.log, rec.pid = pid → rec.isRefresh = true → rec.failed = false

theorem Entry.changes {calls t pid writes} (h : Entry calls t pid writes) (keyed : t.Keyed) :
    t.applyAll writes ≠ t := by
  intro same
  cases h with
  | register =>
    have users := congrArg (fun t => t.users.length) same
    simp [Tables.applyAll,Tables.apply] at users
  | @topUp userId amount redisClient wallet stored call here owner credit =>
    have moved := @Tables.updateWalletSelf _ _ stored (wallet.version + 1) wallet here rfl
    change _ ∈ (t.applyAll [.updateWallet wallet.id stored (wallet.version + 1)]).wallets at moved
    rw [same] at moved
    have version := congrArg Wallet.version (Tables.uniqueBy keyed.walletIds moved here rfl)
    simp at version
  | send =>
    have transactions := congrArg (fun t => t.transactions.length) same
    simp [Tables.applyAll,Tables.apply,Tables.updateWallet] at transactions

section
variable [Pydantic] {c₀ c₁ c : State} {call : Call}

theorem healthyCommits {pid : Nat} (run : Reach machine (RedisHealthy pid) c₁ c) :
    ∃ more, c.shared.wal = c₁.shared.wal ++ more ∧ ∀ last ∈ more, last.pid = pid := by
  induction run with
  | refl => exact ⟨[],(List.append_nil _).symm,by simp⟩
  | @next c c' e before ok step ih =>
    obtain ⟨more,wal,own⟩ := ih
    rcases nextWal step with same | ⟨p,choice,next,rfl,_,_,last⟩
    · exact ⟨more,same.trans wal,own⟩
    · refine ⟨more ++ [⟨p,c.shared.db.pending p⟩],by rw [last,wal,List.append_assoc],?_⟩
      intro commit here
      rcases List.mem_append.mp here with here | here
      · exact own commit here
      · rw [List.mem_singleton.mp here]
        exact ok.1

theorem healthySpoils {pid : Nat} (run : Reach machine (RedisHealthy pid) c₁ c)
    (new : ∀ rec ∈ c₁.shared.log, rec.pid ≠ pid) (spoiled : Spoiled pid c.shared) :
    ∃ rec ∈ c.shared.log, rec.pid = pid ∧ rec.isRefresh = true ∧ rec.failed = true := by
  obtain ⟨rec,here,own,spoils⟩ := spoiled
  have fine : rec ∈ c₁.shared.log ∨ (rec.spoils = true → rec.isRefresh = true ∧ rec.failed = true) := by
    refine reachLog (P := fun rec => rec.spoils = true → rec.isRefresh = true ∧ rec.failed = true) run ?_ rec here
    intro c e rec _ ok logged spoils
    cases logged with
    | stop => exact absurd ok id
    | @step p choice op next r s' running ran =>
      obtain ⟨rfl,healthy⟩ := ok
      obtain ⟨redis,commits⟩ := healthy op next running
      simp only [Record.spoils,Bool.or_eq_true,Bool.and_eq_true,decide_eq_true_eq] at spoils
      simp only [Record.isRefresh,Record.failed,decide_eq_true_eq]
      rcases spoils with ⟨failed,refresh | isRedis⟩ | ⟨isCommit,half⟩
      · exact ⟨refresh,failed⟩
      · exact absurd (redis isRedis) failed
      · exact absurd half (commits isCommit)
  exact ⟨rec,here,own,(fine.resolve_left (fun old => new rec old own)) spoils⟩

end

theorem failureChangesNothing [Pydantic] {c₀ c₁ c : State} {call : Call} {outcome : Outcome}
    (reachable : Reachable c₀) (writer : call.writes = true)
    (begun : machine.next c₀ (.start call) = some c₁)
    (run : Reach machine (RedisHealthy c₀.running.length) c₁ c)
    (done : c.outcome c₀.running.length = some outcome) :
    ((∀ e, outcome = .error e → c.shared.tables = c₀.shared.tables) ↔
      RefreshesHeld c₀.running.length c.shared) := by
  generalize hpid : c₀.running.length = pid at run done ⊢
  have reachable₁ : Reachable c₁ := .next reachable trivial begun
  have intact₀ := reachableIntact reachable
  have intact := reachableIntact (reachableLater reachable₁ run)
  obtain ⟨call',concluded⟩ := (reachableReport (reachableLater reachable₁ run) done).concluded
  cases Option.some.inj begun
  have counted : pid = c₀.shared.calls.length := hpid ▸ (heldReachable reachable).counted
  obtain ⟨_,_,unlogged⟩ := intact₀.unstarted pid counted.ge
  obtain ⟨more,wal,own⟩ := healthyCommits run
  change c.shared.wal = c₀.shared.wal ++ more at wal
  constructor
  · intro unchanged rec here mine refresh
    by_contra failed
    have called : c.shared.calls[pid]? = some call := (reachGrows run).call (by
      simp [machine,World.start,counted])
    have committed : CommittedBy pid c.shared := by
      rcases intact.refreshes rec here refresh with committed | ⟨userId,id,other⟩
      · exact mine ▸ committed
      · rw [mine,called] at other
        cases Option.some.inj other
        contradiction
    have raised : ∃ e, outcome = .error e := by
      cases outcome with
      | ok response => exact absurd (concluded.refreshed response rfl rec here mine refresh) failed
      | error e => exact ⟨e,rfl⟩
    obtain ⟨e,raised⟩ := raised
    have same := unchanged e raised
    have legal := intact.legal
    rw [intact.replayed,wal] at same
    rw [wal] at legal
    cases more with
    | nil =>
      obtain ⟨commit,inside,who⟩ := committed
      rw [wal,List.append_nil] at inside
      have := intact₀.legal.started commit inside
      omega
    | cons first rest =>
      cases rest with
      | nil =>
        obtain ⟨p,writes⟩ := first
        obtain ⟨entry,_⟩ := legal.last
        rw [replaySnoc,intact₀.replayed] at same
        exact entry.changes intact₀.legal.keyed same
      -- nobody commits twice
      | cons second rest =>
        have once := legal.once
        rw [List.map_append,List.nodup_append] at once
        have twice := once.2.1
        rw [List.map_cons,List.map_cons,own first (by simp),own second (by simp)] at twice
        simp at twice
  · intro held e raised
    -- after a commit only a re-reading could have raised
    have uncommitted : ¬ CommittedBy pid c.shared := by
      intro committed
      obtain ⟨rec,here,mine,refresh,failed⟩ :=
        healthySpoils run (fun rec here => unlogged rec here) (concluded.spoiled e raised committed)
      rw [held rec here mine refresh] at failed
      contradiction
    have none : more = [] := by
      rcases more with _ | ⟨first,rest⟩
      · rfl
      · exact absurd ⟨first,by rw [wal]; simp,own first (by simp)⟩ uncommitted
    rw [intact.replayed,wal,none,List.append_nil,← intact₀.replayed]

def redisHealthy (pid : Nat) (c : State) : Happening → Bool
  | .step running choice => running == pid && (match c.running[pid]? with
      | some (.call op _) => (!op.isRedis || decide (choice.fault = .none)) &&
          (decide (op ≠ .commit) || decide (choice.fault ≠ .raisesAfter))
      | _ => true)
  | _ => false

theorem redisHealthySure {pid : Nat} (c : State) (e : Happening) (h : redisHealthy pid c e = true) :
    RedisHealthy pid c e := by
  cases e with
  | step running choice =>
    simp only [redisHealthy,Bool.and_eq_true,beq_iff_eq] at h
    obtain ⟨rfl,fine⟩ := h
    refine ⟨rfl,?_⟩
    intro op next here
    simp only [here,Bool.and_eq_true,Bool.or_eq_true,Bool.not_eq_true',decide_eq_true_eq] at fine
    exact ⟨fun redis => fine.1.resolve_left (by simp [redis]),fun isCommit => fine.2.resolve_left (by simp [isCommit])⟩
  | _ => contradiction

def deposit : Call := .topUp 202 fiftyDollars true

def depositUncommitted : List Happening := steps 3 2 400 ++ (faulty 3 .raises :: steps 3 1 410)

open JsonMode in
theorem failureChangesNothingDeposit :
    (stateFrom ((stateAfter opening).begin deposit) depositUncommitted).shared.tables =
      (stateAfter opening).shared.tables := by
  have opened : Reachable (stateAfter opening) := stateReachable opening (by decide +kernel)
  have three : (stateAfter opening).running.length = 3 := by decide +kernel
  have run : Reach machine (RedisHealthy 3) ((stateAfter opening).begin deposit)
      (stateFrom ((stateAfter opening).begin deposit) depositUncommitted) :=
    fromMeets _ _ redisHealthySure (by decide +kernel) (by decide +kernel)
  have held : RefreshesHeld 3 (stateFrom ((stateAfter opening).begin deposit) depositUncommitted).shared := by
    unfold RefreshesHeld
    decide +kernel
  exact (@failureChangesNothing _ _ _ _ deposit (.error .operationalError) opened rfl rfl
    (three ▸ run) (by rw [three]; decide +kernel)).mpr (three ▸ held) _ rfl

def depositUnread : List Happening := steps 3 5 400 ++ (faulty 3 .raises :: steps 3 1 410)

open JsonMode in
def depositedUnread : Run ((stateAfter opening).begin deposit) := ⟨depositUnread,by decide +kernel⟩

open JsonMode in
theorem failedDepositStays : ¬ ∀ (c₀ c₁ c : State) (call : Call) (e : Exn), Reachable c₀ → call.writes = true →
    machine.next c₀ (.start call) = some c₁ → Reach machine (RedisHealthy c₀.running.length) c₁ c →
    c.shared.log.countP (fun rec => rec.pid == c₀.running.length && rec.failed) = 1 →
    c.outcome c₀.running.length = some (.error e) → c.shared.tables = c₀.shared.tables := by
  intro always
  have three : (stateAfter opening).running.length = 3 := by decide +kernel
  have run : Reach machine (RedisHealthy 3) ((stateAfter opening).begin deposit)
      (stateFrom ((stateAfter opening).begin deposit) depositUnread) :=
    depositedUnread.meeting redisHealthySure (by decide +kernel)
  have same := always (stateAfter opening) _ _ deposit .operationalError
    (stateReachable opening (by decide +kernel)) rfl rfl (three ▸ run) (by rw [three]; decide +kernel)
    (by rw [three]; decide +kernel)
  have moved : (stateFrom ((stateAfter opening).begin deposit) depositUnread).shared.tables ≠
      (stateAfter opening).shared.tables := by decide +kernel
  exact moved same

end PaymentSystem
