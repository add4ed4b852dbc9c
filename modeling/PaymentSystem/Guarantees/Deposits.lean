import PaymentSystem.Guarantees.Linearizability

/-! What a top-up reports. Its balance is of the row that it reads again after its commit:
the deposit is in it, and what others committed in between can be. -/
namespace PaymentSystem
open Numerics (Decimal)
open Interleaving.Task (Traced Ends endsThen endsBind endsMono endsPure)

def Refetched (response : WalletResponse) (trace : List Talk) : Prop :=
  ∃ key row rest, (⟨.selectWalletById key,.ok (row :: rest)⟩ : Talk) ∈ trace ∧
    (row.id = key → response = ⟨row.id,row.userId,row.balance.toDecimal,row.currency,row.createdAt⟩)

def Passed (r : Except Exn (Option WalletResponse)) (l : Session) (trace : List Talk) : Prop :=
  l.dirty = [] ∧ ∀ done, r = .ok done → match done with
    | some response => Refetched response trace
    | none => Untouched trace

def Reports (r : Except Exn WalletResponse) (_ : Session) (trace : List Talk) : Prop :=
  ∀ response, r = .ok response → Refetched response trace

def Told (outcome : Outcome) (trace : List Talk) : Prop :=
  ∀ response, outcome = .ok (.wallet response) → Refetched response trace

section
variable {α β : Type} {l : Session} {trace : List Talk} {goal : Except Exn β → Session → List Talk → Prop}

theorem tracedMild {t : Py α} {f : α → Py β} (first : Mild t) (clean : l.dirty = []) (untouched : Untouched trace)
    (rest : ∀ a l' trace', l'.dirty = [] → Untouched trace' → Traced Credible (f a) l' trace' goal)
    (raised : ∀ e l' trace', l'.dirty = [] → goal (.error e) l' trace') : Traced Credible (t >>= f) l trace goal :=
  endsBind (first l trace clean untouched) trivial (fun a l' trace' _ h => rest a l' trace' h.1 (h.2 trivial))
    (fun e l' trace' _ h => raised e l' trace' h.1)

theorem tracedFirm {marks : Except Exn α → Prop} {t : Py α} {f : α → Py β} (first : Firm marks t) (clean : l.dirty = [])
    (rest : ∀ a l' trace', l'.dirty = [] → Traced Credible (f a) l' trace' goal)
    (raised : ∀ e l' trace', l'.dirty = [] → goal (.error e) l' trace') : Traced Credible (t >>= f) l trace goal :=
  endsBind (first l trace clean) trivial (fun a l' trace' _ h => rest a l' trace' h.1)
    (fun e l' trace' _ h => raised e l' trace' h.1)

theorem modelValidateMissing {wallet : WalletRef} (missing : ∀ a, l.identityMap wallet.key ≠ some (.loaded a)) :
    WalletResponse.modelValidate wallet l = .done (.error .missingGreenlet,l) := by
  change (wallet.attributes l).bind _ = _
  rw [attributesMissing missing]
  rfl

theorem passedError {e : Exn} (clean : l.dirty = []) : Passed (.error e) l trace :=
  ⟨clean,fun _ same => by cases same⟩

theorem tracedRefresh (wallet : WalletRef) (clean : l.dirty = []) : Traced Credible (do
    refreshWallet wallet
    let response ← WalletResponse.modelValidate wallet
    pure (some response)) l trace Passed := by
  apply endsThen trivial
  apply endsThen trivial
  refine tracedExecute clean ?_
  rintro (e | rows) _
  · exact passedError clean
  · cases rows with
    | nil => exact passedError clean
    | cons row rest =>
      have read : (⟨.selectWalletById wallet.key,.ok (row :: rest)⟩ : Talk) ∈
          trace ++ [(⟨.selectWalletById wallet.key,.ok (row :: rest)⟩ : Talk)] := by simp
      by_cases known : ∃ a, (l.load row).identityMap wallet.key = some (.loaded a)
      · obtain ⟨a,held⟩ := known
        refine Interleaving.Task.endsLocal (modelValidateLoaded held) ⟨clean,?_⟩
        rintro done same
        cases same
        refine ⟨wallet.key,row,rest,read,?_⟩
        intro key
        have loaded := loadSelf l row
        rw [key,held] at loaded
        cases loaded
        rfl
      · refine Interleaving.Task.endsRaised (modelValidateMissing ?_) (passedError clean)
        exact fun a held => known ⟨a,held⟩

theorem tracedTopUpOnce (userId : UUID) (amount : Decimal) (redisClient : Bool) (clean : l.dirty = [])
    (untouched : Untouched trace) : Traced Credible (WalletService.topUpOnce userId amount redisClient) l trace Passed := by
  refine tracedMild (mildGetByUserId userId) clean untouched ?_ (fun _ _ _ => passedError)
  intro found l₁ trace₁ clean₁ untouched₁
  cases found with
  | none => exact passedError clean₁
  | some wallet =>
    refine tracedMild (mildBalance wallet) clean₁ untouched₁ ?_ (fun _ _ _ => passedError)
    intro balance l₂ trace₂ clean₂ untouched₂
    refine tracedMild (mildArithmetic _) clean₂ untouched₂ ?_ (fun _ _ _ => passedError)
    intro newBalance l₃ trace₃ clean₃ untouched₃
    refine tracedMild (mildId wallet) clean₃ untouched₃ ?_ (fun _ _ _ => passedError)
    intro walletId l₄ trace₄ clean₄ untouched₄
    refine tracedMild (mildVersion wallet) clean₄ untouched₄ ?_ (fun _ _ _ => passedError)
    intro version l₅ trace₅ clean₅ untouched₅
    refine tracedMild (mildUpdateBalance _ _ _) clean₅ untouched₅ ?_ (fun _ _ _ => passedError)
    intro updated l₆ trace₆ clean₆ untouched₆
    cases updated with
    | true =>
      refine tracedFirm firmCommit clean₆ ?_ (fun _ _ _ => passedError)
      intro _ l₇ trace₇ clean₇
      refine tracedFirm (firmInvalidate wallet redisClient) clean₇ ?_ (fun _ _ _ => passedError)
      intro _ l₈ trace₈ clean₈
      exact tracedRefresh wallet clean₈
    | false =>
      refine tracedMild mildRollback clean₆ untouched₆ ?_ (fun _ _ _ => passedError)
      intro _ l₇ trace₇ clean₇ untouched₇
      refine ⟨clean₇,?_⟩
      rintro done same
      cases same
      exact untouched₇

theorem tracedTopUpAttempts (userId : UUID) (amount : Decimal) (redisClient : Bool) (left : Nat) (clean : l.dirty = [])
    (untouched : Untouched trace) :
    Traced Credible (WalletService.topUpAttempts userId amount redisClient left) l trace Reports := by
  induction left generalizing l trace with
  | zero => exact fun _ same => by cases same
  | succ left ih =>
    refine endsBind (tracedTopUpOnce userId amount redisClient clean untouched) trivial ?_ ?_
    · rintro (_ | response) l' trace' _ ⟨clean',passed⟩
      · exact ih clean' (passed none rfl)
      · rintro _ same
        cases same
        exact passed (some response) rfl
    · rintro e l' trace' _ _ response same
      cases same

theorem reportsProgram [Pydantic] (userId : UUID) (amount : Amount) (redisClient : Bool) :
    Interleaving.Traces Credible (fun _ _ => True) Told (Call.program (.topUp userId amount redisClient)) [] := by
  have service : Traced Credible (Call.service (.topUp userId amount redisClient)) Session.new []
      (fun r _ trace => ∀ response, r = .ok (.wallet response) → Refetched response trace) := by
    refine endsBind (tracedTopUpAttempts userId amount.value redisClient WalletService.maxTopupRetries rfl
      (fun _ here => by contradiction)) trivial ?_ ?_
    · rintro value _ trace _ known response same
      cases same
      exact known value rfl
    · rintro e _ trace _ _ response same
      cases same
  refine Interleaving.safeBind service trivial ?_
  rintro ⟨r,l⟩ trace _ known
  refine Interleaving.tracesCall trivial ?_
  rintro reply _ response rfl
  obtain ⟨key,row,rest,here,shown⟩ := known response rfl
  exact ⟨key,row,rest,List.mem_append_left _ here,shown⟩

end

section
variable [Pydantic] {c : State} {pid : Nat}

theorem refetchSeen (reachable : Reachable c) {rec : Record} {call : Call} (here : rec ∈ c.shared.log)
    (called : c.shared.calls[rec.pid]? = some call) {key : UUID} {rows : List Wallet}
    (talk : rec.talk rec.pid = some ⟨.selectWalletById key,.ok rows⟩) :
    rec.commits ≤ c.shared.wal.length ∧ rows = (tablesAt c.shared.wal rec.commits).walletsById key ∧
      ((∀ userId id, call ≠ .getTransaction userId id) →
        ∃ i commit, i < rec.commits ∧ c.shared.wal[i]? = some commit ∧ commit.pid = rec.pid) := by
  refine reachRecords (Q := fun w rec call => ∀ rows : List Wallet,
    rec.talk rec.pid = some ⟨.selectWalletById key,.ok rows⟩ → rec.commits ≤ w.wal.length ∧
      rows = (tablesAt w.wal rec.commits).walletsById key ∧ ((∀ userId id, call ≠ .getTransaction userId id) →
        ∃ i commit, i < rec.commits ∧ w.wal[i]? = some commit ∧ commit.pid = rec.pid)) ?_ ?_ reachable rec here call
    called rows talk
  · intro w w' rec call _ _ grows known rows talk
    obtain ⟨within,seen,own⟩ := known rows talk
    refine ⟨within.trans grows.wal.length_le,?_,?_⟩
    · rw [grows.tablesAt within]
      exact seen
    · intro other
      obtain ⟨i,commit,early,found,who⟩ := own other
      exact ⟨i,commit,early,grows.commit found,who⟩
  · intro c c' e rec call before _ step logged called rows talk
    have intact := reachableIntact before
    have grows := nextGrows step
    cases logged with
    | stop => contradiction
    | @step pid choice op next r s' running ran =>
      have same : (⟨op,r⟩ : Talk) = ⟨.selectWalletById key,.ok rows⟩ :=
        Option.some.inj ((if_pos rfl : _ = some (⟨op,r⟩ : Talk)).symm.trans talk)
      cases same
      obtain ⟨due,own⟩ := (reachableDue before running).2.1
      refine ⟨grows.wal.length_le,?_,?_⟩
      · change rows = (tablesAt c'.shared.wal c.shared.wal.length).walletsById key
        rw [grows.tablesAt (Nat.le_refl _),intact.now]
        rcases attemptCases ran with ⟨_,performed⟩ | ⟨_,failed⟩
        · have view := Database.viewNothing (due rfl)
          cases performed
          exact congrArg (fun t : Tables => t.walletsById key) view
        · contradiction
      · intro other
        rcases own rfl with ⟨commit,inside,who⟩ | ⟨userId,id,called'⟩
        · obtain ⟨i,within,found⟩ := List.getElem_of_mem inside
          exact ⟨i,commit,within,grows.commit (List.getElem?_eq_some_iff.mpr ⟨within,found⟩),who⟩
        · exact absurd (Option.some.inj (called.symm.trans called')) (other userId id)

end

theorem topUpReports [Pydantic] {c : State} (reachable : Reachable c) {pid : Nat} {userId : UUID} {amount : Amount}
    {redisClient : Bool} {response : WalletResponse}
    (called : c.shared.calls[pid]? = some (.topUp userId amount redisClient))
    (done : c.outcome pid = some (.ok (.wallet response))) :
    ∃ i n commit before after row, c.shared.wal[i]? = some commit ∧ commit.pid = pid ∧
      before ∈ (tablesAt c.shared.wal i).wallets ∧ after ∈ (tablesAt c.shared.wal (i + 1)).wallets ∧
      before.userId = userId ∧ after.id = before.id ∧ after.balance.units = before.balance.units + amount.cents ∧
      i < n ∧ n ≤ c.shared.wal.length ∧ row ∈ (tablesAt c.shared.wal n).wallets ∧ row.id = before.id ∧
      response = ⟨row.id,row.userId,row.balance.toDecimal,row.currency,row.createdAt⟩ := by
  have intact := reachableIntact reachable
  rcases talksEnd reachable called done (reportsProgram userId amount redisClient) with known | stopped
  · obtain ⟨key,row,rest,talk,shown⟩ := known response rfl
    obtain ⟨rec,here,rfl,said⟩ := talksMem talk
    obtain ⟨within,rows,own⟩ := refetchSeen reachable here called said
    obtain ⟨i,commit,early,found,who⟩ := own (by simp)
    have inside : row ∈ (tablesAt c.shared.wal rec.commits).walletsById key := rows ▸ List.mem_cons_self ..
    obtain ⟨there,keyed⟩ := Tables.walletsByIdMem.mp inside
    have shown := shown keyed
    obtain ⟨call,concluded⟩ := (reachableReport reachable done).concluded
    cases Option.some.inj (called.symm.trans concluded.called)
    obtain ⟨_,row',m,read,owned,same,_⟩ := concluded.answered
    have entry := intact.legal.entryAt found
    have after := tablesAtSucc found
    obtain ⟨committer,writes⟩ := commit
    cases who
    change Entry _ _ rec.pid writes at entry
    cases entry with
    | register other => cases Option.some.inj (called.symm.trans other)
    | send other => cases Option.some.inj (called.symm.trans other)
    | @topUp _ _ _ wallet stored again present owner credit =>
      cases Option.some.inj (called.symm.trans again)
      have this := ownerId intact read.row present (owned.trans owner.symm)
      refine ⟨i,rec.commits,_,wallet,{wallet with balance := stored, version := wallet.version + 1},row,found,rfl,
        present,?_,owner,rfl,credit,early,within,there,?_,shown⟩
      · rw [after]
        exact Tables.updateWalletSelf present rfl
      · rw [shown] at same
        exact same.trans this
  · cases stopped

open JsonMode in
def overlapping : Run initial :=
  ⟨opening ++ serve (.topUp 102 fiveDollars false) 3 3 400 ++ serve (.topUp 102 tenDollars false) 4 5 500 ++
    steps 3 2 600,by decide +kernel⟩

def withBoth : WalletResponse := ⟨103,102,⟨11500,-2⟩,"USD",⟨2024,1,1,0,0,0,0⟩⟩

open JsonMode in
theorem topUpReportsOverlapping : ∃ i n commit before after row,
    overlapping.last.shared.wal[i]? = some commit ∧ commit.pid = 3 ∧
      before ∈ (tablesAt overlapping.last.shared.wal i).wallets ∧
      after ∈ (tablesAt overlapping.last.shared.wal (i + 1)).wallets ∧
      before.userId = 102 ∧ after.id = before.id ∧ after.balance.units = before.balance.units + fiveDollars.cents ∧
      i < n ∧ n ≤ overlapping.last.shared.wal.length ∧ row ∈ (tablesAt overlapping.last.shared.wal n).wallets ∧
      row.id = before.id ∧ withBoth = ⟨row.id,row.userId,row.balance.toDecimal,row.currency,row.createdAt⟩ :=
  topUpReports overlapping.reaches (show overlapping.last.shared.calls[3]? = some (.topUp 102 fiveDollars false) by
    decide +kernel) (by decide +kernel)

end PaymentSystem
