import PaymentSystem.Behaviour.Commits

/-! Depositing, whole: the loop of top_up and one pass of it. -/
namespace PaymentSystem
open Numerics (Decimal Numeric)
open Interleaving (Task)
open Interleaving.Task (Ends endsThen endsLocal endsRaised endsPure endsThrow)

def TopsUp (pid : Nat) (userId : UUID) (amount : Amount) (redisClient : Bool) :
    Except Exn WalletResponse → Session → World → Prop
  | .ok wallet,_,w => (CommittedBy pid w ∧ Reported pid userId wallet.id wallet.balance w) ∧ Refreshed pid w ∧
      (redisClient = true → Settled pid w)
  | .error e,_,w => Wrecked pid w ∧ Unpaid pid w userId amount e

theorem creditExact {row : Wallet} {amount : Amount} (nonneg : 0 ≤ row.balance.units)
    (small : row.balance.units + amount.cents < 10 ^ 18) :
    ∃ d, row.balance.toDecimal.add amount.value = some d ∧ d.Units 2 (row.balance.units + amount.cents) := by
  have positive := amount.positive
  exact Decimal.inContextExact (row.balance.toDecimalUnits.sum amount.inCents)
    (by rw [Decimal.precision]; omega)

theorem creditLarge {row : Wallet} {amount : Amount} {d : Decimal} (nonneg : 0 ≤ row.balance.units)
    (added : row.balance.toDecimal.add amount.value = some d) (unfit : Numeric.ofDecimal 18 2 d = none) :
    10 ^ 18 ≤ row.balance.units + amount.cents := by
  have positive := amount.positive
  by_contra small
  obtain ⟨d',added',units⟩ := creditExact nonneg (not_le.mp small)
  cases Option.some.inj (added.symm.trans added')
  rw [Numeric.ofDecimalSome units (by omega)] at unfit
  contradiction

theorem creditOverflow {row : Wallet} {amount : Amount} (nonneg : 0 ≤ row.balance.units)
    (overflows : row.balance.toDecimal.add amount.value = none) :
    10 ^ 18 ≤ row.balance.units + amount.cents := by
  by_contra small
  obtain ⟨d,added,_⟩ := creditExact nonneg (not_le.mp small)
  rw [overflows] at added
  contradiction

theorem creditFits {row : Wallet} {amount : Amount} {d : Decimal} {stored : Money} (nonneg : 0 ≤ row.balance.units)
    (added : row.balance.toDecimal.add amount.value = some d) (fits : Numeric.ofDecimal 18 2 d = some stored) :
    stored.units = row.balance.units + amount.cents :=
  Numeric.storedSum row.balance.toDecimalUnits amount.inCents nonneg amount.positive.le added fits (by decide)

theorem modelValidateLoaded {l : Session} {ref : WalletRef} {a : WalletAttributes}
    (h : l.identityMap ref.key = some (.loaded a)) :
    WalletResponse.modelValidate ref l = .done (.ok ⟨a.id,a.userId,a.balance,a.currency,a.createdAt⟩,l) := by
  change (ref.attributes l).bind _ = _
  rw [attributesLoaded h]
  rfl

variable [Pydantic] {pid : Nat} {call : Call} {w : World} {l : Session}

theorem endsInvalidateAfterCommit {goal : Except Exn Unit → Session → World → Prop} (intact : Intact w)
    {ref : WalletRef} {a : WalletAttributes} (committed : Committed pid call [a.id] w)
    (loaded : l.identityMap ref.key = some (.loaded a)) (redisClient : Bool)
    (done : ∀ w₂, Grows w w₂ → Intact w₂ → Committed pid call [a.id] w₂ →
      (redisClient = true → Deleted pid [a.id] w₂) → goal (.ok ()) l w₂) :
    Ends machine outline pid (WalletService.invalidateAfterCommit ref redisClient) l w goal := by
  cases redisClient with
  | false => exact done w (.refl w) intact committed (fun h => by contradiction)
  | true =>
    refine endsLocal (idLoaded loaded) ?_
    apply endsThen intact
    apply endsInvalidateBalance intact committed
    intro w₁ grows₁ intact₁ committed₁ deleted₁
    refine endsLocal (idLoaded loaded) ?_
    apply endsInvalidateWalletInfo intact₁ committed₁
    intro w₂ grows₂ intact₂ committed₂
    refine done w₂ (grows₁.trans grows₂) intact₂ committed₂ (fun _ => ?_)
    have deleted : Deleted pid [a.id] w₁ := deleted₁.imp (by simp) id
    exact deleted.grows grows₂

section
variable {userId : UUID} {amount : Amount} {redisClient : Bool} {k m n : Nat} {row : Wallet}
  {goal : Except Exn (Option WalletResponse) → Session → World → Prop}

theorem creditDue (working : Working pid (.topUp userId amount redisClient) [] [] w) (read : ReadAt pid w row n)
    (owner : row.userId = userId) (nonneg : 0 ≤ row.balance.units) {newBalance : Decimal}
    (added : row.balance.toDecimal.add amount.value = some newBalance) :
    Due pid w (.updateWallet row.id row.version newBalance (row.version + 1)) := by
  refine ⟨?_,?_,?_⟩
  · intro stored fits
    have positive := amount.positive
    have sum := creditFits nonneg added fits
    omega
  · intro userId' request redisClient' called
    cases Option.some.inj (working.call.symm.trans called)
  · intro userId' amount' redisClient' called
    cases Option.some.inj (working.call.symm.trans called)
    exact ⟨working.pending,working.once,row,n,read,owner,rfl,rfl⟩

theorem endsConflicted (intact : Intact w) (working : Working pid (.topUp userId amount redisClient) [] [] w)
    (conflicts : Conflicts pid w userId (k + 1) m) (within : m ≤ w.wal.length)
    (failed : ∀ e l' w₂, Wrecked pid w₂ → Unpaid pid w₂ userId amount e → goal (.error e) l' w₂)
    (conflicted : ∀ w₂ m', Intact w₂ → Working pid (.topUp userId amount redisClient) [] [] w₂ →
      Conflicts pid w₂ userId (k + 1) m' → m' ≤ w₂.wal.length →
      ∀ l' : Session, l'.dirty = [] → (∀ id a, l'.identityMap id ≠ some (.loaded a)) →
      goal (.ok none) l' w₂) :
    Ends machine outline pid (do
      rollback
      pure none) l w goal := by
  apply endsThen intact
  refine endsRollback intact working.toUncommitted
    (fun w₂ _ _ uncommitted failed₂ => failed _ _ w₂ uncommitted.wrecked (.failed rfl failed₂)) ?_
  intro w₂ grows intact₂ working₂
  exact conflicted w₂ _ intact₂ working₂ (conflicts.grows grows) (within.trans grows.wal.length_le) _ rfl
    expiredMissing

theorem endsDeposited {stored : Money} {a : WalletAttributes} (intact : Intact w)
    (working : Working pid (.topUp userId amount redisClient) [.wallet row.id]
      [.updateWallet row.id stored (row.version + 1)] w)
    (clean : l.dirty = []) (loaded : l.identityMap row.id = some (.loaded a)) (key : a.id = row.id)
    (read : ReadAt pid w row n) (owner : row.userId = userId) (here : row ∈ w.tables.wallets)
    (credit : stored.units = row.balance.units + amount.cents)
    (failed : ∀ e l' w₂, Wrecked pid w₂ → Unpaid pid w₂ userId amount e → goal (.error e) l' w₂)
    (done : ∀ response l' w₂, TopsUp pid userId amount redisClient (.ok response) l' w₂ →
      goal (.ok (some response)) l' w₂) :
    Ends machine outline pid (do
      commit
      WalletService.invalidateAfterCommit ⟨row.id⟩ redisClient
      refreshWallet ⟨row.id⟩
      let response ← WalletResponse.modelValidate ⟨row.id⟩
      pure (some response)) l w goal := by
  apply endsThen intact
  refine endsCommit [a.id] working clean (by simp) ?_ ?_
    (fun w₂ _ _ _ wrecked failed₂ => failed _ _ w₂ wrecked (.failed rfl failed₂)) ?_
  · intro w₂ later intact₂ working₂
    have here₂ : row ∈ w₂.tables.wallets := lockedRow later ((working.locks _).mpr (by simp)) here
    exact .topUp working₂.call here₂ owner credit
  · intro moved moves
    simpa [Commit.moves,key,eq_comm] using moves
  · intro _ w₂ later _ _ grows₂ intact₂ committed₂ _
    -- from here on the deposit is committed, and what fails leaves it so
    apply endsThen intact₂
    refine endsInvalidateAfterCommit intact₂ committed₂ loaded redisClient ?_
    intro w₃ grows₃ intact₃ committed₃ deleted₃
    apply endsThen intact₃
    refine endsRefreshWallet intact₃ committed₃ clean ⟨row.id⟩
      (walletStays intact intact₃ (grows₂.trans grows₃) here)
      (fun w₄ _ _ _ wrecked failed₄ => failed _ _ w₄ wrecked (.failed rfl failed₄)) ?_
    intro w₄ last grows₄ intact₄ committed₄ read₄ key₄
    have grows : Grows w w₄ := (grows₂.trans grows₃).trans grows₄
    have owner₄ : last.userId = userId := by
      have here₄ : last ∈ w₄.tables.wallets := intact₄.now ▸ read₄.row
      exact (readOwner intact₄ (read.grows grows) here₄ key₄).trans owner
    refine endsLocal (modelValidateLoaded (key₄ ▸ loadSelf _ last)) (done _ _ w₄
      ⟨⟨committed₄.commit,last,_,read₄,owner₄,rfl,.inl rfl⟩,committed₄.refreshed,?_⟩)
    intro redis
    exact committed₄.settled ((deleted₃ redis).grows grows₄)

theorem endsTopUpOnce (intact : Intact w)
    (working : Working pid (.topUp userId amount redisClient) [] [] w) (clean : l.dirty = [])
    (blank : ∀ id a, l.identityMap id ≠ some (.loaded a)) (before : Conflicts pid w userId k m)
    (order : m ≤ w.wal.length)
    (failed : ∀ e l' w₂, Wrecked pid w₂ → Unpaid pid w₂ userId amount e → goal (.error e) l' w₂)
    (conflicted : ∀ w₂ m', Intact w₂ → Working pid (.topUp userId amount redisClient) [] [] w₂ →
      Conflicts pid w₂ userId (k + 1) m' → m' ≤ w₂.wal.length →
      ∀ l' : Session, l'.dirty = [] → (∀ id a, l'.identityMap id ≠ some (.loaded a)) →
      goal (.ok none) l' w₂)
    (done : ∀ response l' w₂, TopsUp pid userId amount redisClient (.ok response) l' w₂ →
      goal (.ok (some response)) l' w₂) :
    Ends machine outline pid (WalletService.topUpOnce userId amount.value redisClient) l w goal := by
  apply endsThen intact
  refine endsGetByUserId intact working clean userId
    (fun w₂ _ _ uncommitted failed₂ => failed _ _ w₂ uncommitted.wrecked (.failed rfl failed₂))
    (fun w₂ _ _ _ working₂ none => failed _ l w₂ working₂.wrecked (.missing none)) ?_
  intro w₁ row n grows₁ intact₁ working₁ read later₁ owner
  have loaded := freshMerge (blank row.id)
  have clean₁ := (mergeClean l row).trans clean
  have nonneg := readNonneg intact₁ read
  refine endsLocal (balanceLoaded loaded) ?_
  cases added : row.attributes.balance.add amount.value with
  | none =>
    exact endsRaised (arithmeticNone rfl) (failed _ _ w₁ working₁.wrecked
      (.overflow (.inr rfl) read owner (.inr (creditOverflow nonneg added))))
  | some newBalance =>
    refine endsLocal (arithmeticSome rfl) ?_
    refine endsLocal (idLoaded loaded) ?_
    refine endsLocal (versionLoaded loaded) ?_
    apply endsThen intact₁
    refine endsUpdateBalance intact₁ working₁ clean₁ (.inr (by simp))
      (fun w₂ later₂ _ working₂ => creditDue working₂ (read.grows later₂.grows) owner nonneg added)
      (fun w₂ _ _ uncommitted failed₂ => failed _ _ w₂ uncommitted.wrecked (.failed rfl failed₂)) ?_ ?_ ?_
    · intro w₂ grows₂ intact₂ working₂ why
      refine failed _ _ w₂ working₂.wrecked (.overflow (.inl rfl) (read.grows grows₂) owner ?_)
      exact why.symm.imp id (creditLarge nonneg added)
    · intro w₂ w₃ _ intact₂ working₂ unmatched grows₃ intact₃ working₃ same update
      rw [Database.viewNothing working₂.pending] at unmatched
      have read₃ := read.grows grows₃
      have conflicts : Conflicts pid w₃ userId (k + 1) w₃.wal.length :=
        .more (before.grows (grows₁.trans grows₃)) (order.trans later₁) read₃ owner read₃.within (Nat.le_refl _)
          (conflictGone intact₂ same unmatched) (update row rfl rfl)
      exact endsConflicted intact₃ working₃ conflicts (Nat.le_refl _) failed conflicted
    · intro w₂ w₃ stored later₂ intact₂ working₂ matched fits _ grows₃ intact₃ working₃ tables _
      rw [Database.viewNothing working₂.pending] at matched
      have here := readMatched intact₂ (read.grows later₂.grows) matched
      have clean₃ := (synchronizeClean (l.merge row) row.id row.version newBalance (row.version + 1)).trans clean₁
      obtain ⟨a,loaded₃,key,_⟩ := @synchronizeLoaded _ row.id _ _ row.version newBalance (row.version + 1) loaded
      exact endsDeposited intact₃ working₃ clean₃ loaded₃ key (read.grows (later₂.grows.trans grows₃)) owner
        (tables ▸ here) (creditFits nonneg added fits) failed done

end

theorem endsTopUpAttempts {userId : UUID} {amount : Amount} {redisClient : Bool} (left : Nat) {k m : Nat}
    (all : k + left = WalletService.maxTopupRetries) (intact : Intact w)
    (working : Working pid (.topUp userId amount redisClient) [] [] w) (clean : l.dirty = [])
    (blank : ∀ id a, l.identityMap id ≠ some (.loaded a)) (before : Conflicts pid w userId k m)
    (order : m ≤ w.wal.length) :
    Ends machine outline pid (WalletService.topUpAttempts userId amount.value redisClient left) l w
      (TopsUp pid userId amount redisClient) := by
  induction left generalizing k m l w with
  | zero =>
    have last : k = 3 := by simpa [WalletService.maxTopupRetries] using all
    exact endsThrow ⟨working.wrecked,.conflicts (last ▸ before)⟩
  | succ left ih =>
    apply endsThen intact
    refine endsTopUpOnce intact working clean blank before order (fun _ _ _ wrecked unpaid => ⟨wrecked,unpaid⟩) ?_ ?_
    · intro w₂ m' intact₂ working₂ conflicts within l' clean' blank'
      exact ih (by omega) intact₂ working₂ clean' blank' conflicts within
    · intro response l' w₂ done
      exact endsPure done

end PaymentSystem
