import PaymentSystem.Guarantees.Contention

/-! What a transfer decides on. The rows were read before the wallets are locked, and the
locking SELECT does not overwrite them: they are the committed ones exactly as far as
nothing was committed to a wallet between the two reads of it. -/
namespace PaymentSystem
open Numerics (Decimal)
open Interleaving (Program Reach)

/-- When a wallet is locked, the rows of it that the request was shown are still committed. -/
def LocksFresh (c : State) : Happening → Prop
  | .step pid choice => choice.fault = .none → ∀ id, c.awaits pid = some (.selectWalletForUpdate id) →
      ∀ rec ∈ c.shared.log, rec.pid = pid → ∀ row, rec.shows row → row.id = id → row ∈ c.shared.tables.wallets
  | _ => True

structure DecidesLocked (pid : Nat) (userId : UUID) (request : PaymentRequest) (c : State) : Prop where
  adjusts : ∀ id expectedVersion balance version,
    c.awaits pid = some (.updateWallet id expectedVersion balance version) → ∃ row ∈ c.shared.tables.wallets, Adjusting pid c.shared userId request id expectedVersion balance row
  versionsHold : ∀ rec ∈ c.shared.log, rec.pid = pid → ∀ row, ¬ rec.mismatches row
  insufficient : ∀ available required,
    c.outcome pid = some (.error (.insufficientBalance available required)) → ∃ sender receiver m,
      Locked pid c.shared sender m ∧ sender ∈ (tablesAt c.shared.wal m).wallets ∧ sender.userId = userId ∧
      Locked pid c.shared receiver m ∧ receiver ∈ (tablesAt c.shared.wal m).wallets ∧
      receiver.userId = request.receiverId ∧ sender.balance.units < request.amount.cents ∧
      available = sender.balance.toDecimal.str
  uncontested : c.outcome pid ≠ some (.error .optimisticLock) ∧ c.outcome pid ≠ some (.error .missingGreenlet)

theorem Logged.lock {c : State} {e : Happening} {rec : Record} {id : UUID} (h : Logged c e rec)
    (locks : rec.locks id) : ∃ pid choice next, e = .step pid choice ∧ choice.fault = .none ∧ rec.pid = pid ∧
      rec.commits = c.shared.wal.length ∧ c.running[pid]? = some (.call (.selectWalletForUpdate id) next) := by
  cases h with
  | stop => exact locks.elim
  | @step pid choice op next r s' running attempted =>
    cases op with
    | selectWalletForUpdate locked =>
      rcases attemptCases attempted with ⟨fault,ran⟩ | ⟨fault,rfl⟩
      · obtain ⟨db',selected,_⟩ := writesSome ran
        obtain ⟨⟨rows,_⟩,_,same⟩ := Option.map_eq_some_iff.mp selected
        cases same
        rw [fault] at locks
        cases (show locked = id from locks)
        exact ⟨pid,choice,next,rfl,fault,rfl,rfl,running⟩
      · generalize choice.fault = raised at locks
        cases raised <;> exact locks.elim
    | _ => exact locks.elim

section
variable [Pydantic] {c : State} {pid : Nat} {userId : UUID} {request : PaymentRequest} {redisClient : Bool}

theorem lockedFresh (run : Reach machine LocksFresh initial c) {before after : List Record} {rec seen : Record}
    {row : Wallet} (log : c.shared.log = before ++ rec :: after) (locks : rec.locks row.id)
    (earlier : seen ∈ before) (own : seen.pid = rec.pid) (shows : seen.shows row) :
    row ∈ (tablesAt c.shared.wal rec.commits).wallets := by
  have reachable : Reachable c := run.weaken (fun _ _ _ => trivial)
  have inside : rec ∈ c.shared.log := log ▸ List.mem_append_right _ (List.mem_cons_self ..)
  have started : rec.pid < c.shared.calls.length := by
    by_contra late
    exact ((reachableIntact reachable).unstarted rec.pid (not_lt.mp late)).2.2 rec inside rfl
  refine (reachPlaced (Q := fun w before rec _ => rec.commits ≤ w.wal.length ∧ (rec.locks row.id →
    seen ∈ before → seen.pid = rec.pid → row ∈ (tablesAt w.wal rec.commits).wallets)) ?_ ?_ run before rec after log
    _ (List.getElem?_eq_getElem started)).2 locks earlier own
  · rintro w w' before rec _ _ _ grows ⟨within,fresh⟩
    refine ⟨within.trans grows.wal.length_le,?_⟩
    rw [grows.tablesAt within]
    exact fresh
  · intro c c' e rec _ run ok step logged _
    have intact := reachableIntact (run.weaken (fun _ _ _ => trivial) : Reachable c)
    have commits : rec.commits = c.shared.wal.length := by cases logged <;> rfl
    refine ⟨commits ▸ (nextGrows step).wal.length_le,?_⟩
    intro locks here same
    obtain ⟨pid,choice,next,rfl,fault,rfl,_,running⟩ := logged.lock locks
    rw [commits,(nextGrows step).tablesAt (Nat.le_refl _),intact.now]
    exact ok fault row.id (callAwaits running) seen here same row shows rfl

theorem Locked.fresh {row : Wallet} {n : Nat} (h : Locked pid c.shared row n)
    (run : Reach machine LocksFresh initial c) : row ∈ (tablesAt c.shared.wal n).wallets := by
  obtain ⟨before,rec,after,log,rfl,locks,⟨seen,earlier,own,shows⟩,_,same⟩ := h.record
  have here := Tables.walletsByIdMem.mpr ⟨lockedFresh run log locks earlier own shows,rfl⟩
  rw [← same] at here
  exact (Tables.walletsByIdMem.mp here).1

theorem Adjusting.fresh {id : UUID} {expectedVersion : Int} {balance : Decimal} {row : Wallet}
    (h : Adjusting pid c.shared userId request id expectedVersion balance row)
    (run : Reach machine LocksFresh initial c) : row ∈ c.shared.tables.wallets :=
  (reachableIntact (run.weaken (fun _ _ _ => trivial) : Reachable c)).now ▸ h.locked.fresh run

theorem neverMismatches (run : Reach machine LocksFresh initial c) {rec : Record} (here : rec ∈ c.shared.log)
    (called : c.shared.calls[rec.pid]? = some (.sendMoney userId request redisClient)) (row : Wallet) :
    ¬ rec.mismatches row := by
  refine reachRecords (Q := fun _ rec call => call = .sendMoney userId request redisClient →
    ¬ rec.mismatches row) (fun _ _ _ _ _ _ _ h => h) ?_ run rec here _ called rfl
  rintro c c' e rec call run _ _ logged called rfl mismatches
  obtain ⟨pid,balance,version,next,rfl,_,running,none⟩ := logged.mismatch mismatches
  obtain ⟨read,adjusting⟩ :=
    (reachableDue (run.weaken (fun _ _ _ => trivial)) running).2.1.2.1 userId request redisClient called
  rw [← adjusting.key,adjusting.unwritten] at none
  have found := Tables.walletsByIdMem.mpr ⟨adjusting.fresh run,rfl⟩
  exact List.filter_eq_nil_iff.mp none read found (by simp [adjusting.version])

theorem refusedByMismatch (reachable : Reachable c)
    (called : c.shared.calls[pid]? = some (.sendMoney userId request redisClient)) {e : Exn}
    (kind : e = .optimisticLock ∨ e = .missingGreenlet) (done : c.outcome pid = some (.error e)) :
    ∃ rec ∈ c.shared.log, rec.pid = pid ∧ ∃ row, rec.mismatches row := by
  obtain ⟨call,concluded⟩ := (reachableReport reachable done).concluded
  cases Option.some.inj (called.symm.trans concluded.called)
  have refused : Refused pid userId request c.shared e := concluded.answered
  cases refused with
  | failed failed => rcases kind with rfl | rfl <;> cases failed
  | text => simp at kind
  | later _ blame =>
    cases blame with
    | failed failed => rcases kind with rfl | rfl <;> cases failed
    | collision other => rcases kind with rfl | rfl <;> simp at other
    | conflict _ _ _ _ _ _ update =>
      obtain ⟨rec,here,own,mismatches,_⟩ := update
      exact ⟨rec,here,own,_,mismatches⟩
    | _ => simp at kind

theorem refusedShort (reachable : Reachable c)
    (called : c.shared.calls[pid]? = some (.sendMoney userId request redisClient)) {available required : String}
    (done : c.outcome pid = some (.error (.insufficientBalance available required))) :
    ∃ sender receiver m, Locked pid c.shared sender m ∧ sender.userId = userId ∧
      Locked pid c.shared receiver m ∧ receiver.userId = request.receiverId ∧
      sender.balance.units < request.amount.cents ∧ available = sender.balance.toDecimal.str := by
  obtain ⟨call,concluded⟩ := (reachableReport reachable done).concluded
  cases Option.some.inj (called.symm.trans concluded.called)
  have refused : Refused pid userId request c.shared (.insufficientBalance available required) :=
    concluded.answered
  cases refused with
  | failed failed => cases failed
  | later _ blame =>
    cases blame with
    | failed failed => cases failed
    | collision other => simp at other
    | conflict other => simp at other
    | insufficient _ owner short locked locked' owner' =>
      exact ⟨_,_,_,locked,owner,locked',owner',short,rfl⟩

end

theorem decidesOnLockedRows [Pydantic] {c : State} {pid : Nat} {userId : UUID} {request : PaymentRequest}
    {redisClient : Bool} (run : Reach machine LocksFresh initial c)
    (called : c.shared.calls[pid]? = some (.sendMoney userId request redisClient)) :
    DecidesLocked pid userId request c := by
  have reachable : Reachable c := run.weaken (fun _ _ _ => trivial)
  have unmoved : ∀ rec ∈ c.shared.log, rec.pid = pid → ∀ row, ¬ rec.mismatches row := by
    rintro rec here rfl row
    exact neverMismatches run here called row
  have uncontested : ∀ e, e = .optimisticLock ∨ e = .missingGreenlet → c.outcome pid ≠ some (.error e) := by
    intro e kind done
    obtain ⟨rec,here,own,row,mismatches⟩ := refusedByMismatch reachable called kind done
    exact unmoved rec here own row mismatches
  refine ⟨?_,unmoved,?_,uncontested _ (.inl rfl),uncontested _ (.inr rfl)⟩
  · intro id expectedVersion balance version awaits
    obtain ⟨next,here⟩ := awaitsCall awaits
    obtain ⟨row,adjusting⟩ := (reachableDue reachable here).2.1.2.1 userId request redisClient called
    exact ⟨row,adjusting.fresh run,adjusting⟩
  · intro available required done
    obtain ⟨sender,receiver,m,locked,owner,locked',owner',short,text⟩ := refusedShort reachable called done
    exact ⟨sender,receiver,m,locked,locked.fresh run,owner,locked',locked'.fresh run,owner',short,text⟩

/-! Both kinds of runs. -/

def Record.shown : Record → List Wallet
  | .called _ (.selectWalletByUserId _) .none (.ok rows) _ => rows
  | .called _ (.selectWalletById _) .none (.ok rows) _ => rows
  | .called _ (.selectWalletForUpdate _) .none (.ok rows) _ => rows
  | _ => []

theorem Record.shows.shown {rec : Record} {row : Wallet} (h : rec.shows row) : row ∈ rec.shown := by
  unfold Record.shows at h
  split at h
  · exact h
  · exact h
  · exact h
  · contradiction

def readsCurrent (c : State) : Happening → Bool
  | .step pid _ =>
      match c.awaits pid with
      | some (.selectWalletForUpdate _) => c.shared.log.all (fun rec =>
          decide (rec.pid ≠ pid) || rec.shown.all (fun row => decide (row ∈ c.shared.tables.wallets)))
      | _ => true
  | _ => true

theorem readsCurrentFresh (c : State) (e : Happening) (h : readsCurrent c e = true) : LocksFresh c e := by
  cases e with
  | step pid choice =>
    intro _ id awaits rec here own row shows _
    simp only [readsCurrent,awaits] at h
    have current := List.all_eq_true.mp h rec here
    simp only [own,ne_eq,not_true_eq_false,decide_false,Bool.false_or] at current
    exact of_decide_eq_true (List.all_eq_true.mp current row shows.shown)
  | _ => trivial

section
open JsonMode

def rentHalfPaid : Run opened.last :=
  ⟨.start (.sendMoney 102 rent false) :: steps 3 6 400,by decide +kernel⟩

theorem decidesOnLockedRowsRent : ∃ row, Adjusting 3 rentHalfPaid.last.shared 102 rent 203 1 ⟨3000,-2⟩ row ∧
    row ∈ rentHalfPaid.last.shared.tables.wallets := by
  have begun : Reach machine LocksFresh initial opened.last :=
    opened.meeting readsCurrentFresh (by decide +kernel)
  have run := begun.trans (rentHalfPaid.meeting readsCurrentFresh (by decide +kernel))
  have called : rentHalfPaid.last.shared.calls[3]? = some (.sendMoney 102 rent false) := by decide +kernel
  obtain ⟨row,here,adjusting⟩ :=
    (decidesOnLockedRows run called).adjusts 203 1 ⟨3000,-2⟩ 2 (by decide +kernel)
  exact ⟨row,adjusting,here⟩

def rentOvertaken : Run opened.last where
  events := .start (.sendMoney 102 rent false) :: (steps 3 3 400 ++
    (serve (.topUp 102 fiveDollars false) 4 5 500 ++ steps 3 2 410))
  possible := by decide +kernel

theorem decidesOnOldRow : ¬ ∀ (c : State) (pid : Nat) (userId : UUID) (request : PaymentRequest)
    (redisClient : Bool), Reachable c → c.shared.calls[pid]? = some (.sendMoney userId request redisClient) →
      DecidesLocked pid userId request c := by
  intro always
  have reachable : Reachable rentOvertaken.last := opened.reaches.trans rentOvertaken.reaches
  have called : rentOvertaken.last.shared.calls[3]? = some (.sendMoney 102 rent false) := by decide +kernel
  obtain ⟨row,here,adjusting⟩ := (always _ _ _ _ _ reachable called).adjusts 103 2 ⟨7000,-2⟩ 3 (by decide +kernel)
  have current : ∀ row ∈ rentOvertaken.last.shared.tables.wallets, row.id = 103 → row.version = 3 := by
    decide +kernel
  have newer := current row here adjusting.key
  rw [adjusting.version] at newer
  exact absurd newer (by decide)

end
end PaymentSystem
