import PaymentSystem.Behaviour.Wallets

/-! The transfer. Whatever interleaves, it commits exactly the requested payment over
the rows it read, or it is refused for a reason that the history shows. -/
namespace PaymentSystem
open Numerics (Decimal Numeric)
open Interleaving (Task)
open Interleaving.Task (Ends endsThen endsLocal endsRaised)

structure Object (pid : Nat) (l : Session) (w : World) (row : Wallet) (n : Nat) : Prop where
  loaded : l.identityMap row.id = some (.loaded row.attributes)
  read : ReadAt pid w row n

def Loaded (l : Session) (id : UUID) : Prop := ∃ a, l.identityMap id = some (.loaded a) ∧ a.id = id

section
variable {pid : Nat} {call : Call} {w w' : World} {l : Session} {id : UUID} {row : Wallet} {n : Nat}

theorem Object.grows (h : Object pid l w row n) (grows : Grows w w') : Object pid l w' row n :=
  ⟨h.loaded,h.read.grows grows⟩

theorem Object.isLoaded (h : Object pid l w row n) : Loaded l row.id := ⟨_,h.loaded,rfl⟩

theorem Object.synchronize (h : Object pid l w row n) {other : UUID} (apart : row.id ≠ other)
    (expected : Int) (balance : Decimal) (version : Int) :
    Object pid (l.synchronize other expected balance version) w row n := by
  obtain ⟨a,loaded,_,same⟩ := synchronizeLoaded expected balance version h.loaded
  exact ⟨same apart ▸ loaded,h.read⟩

theorem Loaded.synchronize (h : Loaded l id) (other : UUID) (expected : Int) (balance : Decimal)
    (version : Int) : Loaded (l.synchronize other expected balance version) id := by
  obtain ⟨a,loaded,key⟩ := h
  obtain ⟨a',loaded',key',_⟩ := @synchronizeLoaded _ other _ _ expected balance version loaded
  exact ⟨a',loaded',key'.trans key⟩

theorem Uncommitted.running (h : Uncommitted pid call w) (m : Nat) :
    ∀ rec ∈ w.log, rec.pid = pid → rec.ends = true → m ≤ rec.commits := by
  intro rec here own ended
  have early := h.early rec here own
  cases rec with
  | stopped p k => simp [Record.early] at early
  | called p op fault result k =>
    have close : op = .close := by simpa [Record.ends] using ended
    subst close
    simp [Record.early,Op.early] at early

end

section
variable [Pydantic] {pid : Nat} {w : World} {l : Session} {userId : UUID} {request : PaymentRequest}
  {redisClient : Bool}

theorem conflictBlame {call : Call} {w₁ w₂ : World} {row : Wallet} {n : Nat} (intact : Intact w₁)
    (uncommitted : Uncommitted pid call w₂) (read : ReadAt pid w₂ row n)
    (party : row.userId = userId ∨ row.userId = request.receiverId) (same : w₂.db = w₁.db)
    (unmatched : (w₁.tables.walletsById row.id).filter (fun x => x.version == row.version) = [])
    (update : ∃ rec ∈ w₂.log, rec.pid = pid ∧ rec.mismatches row ∧ rec.commits = w₂.wal.length) :
    Blame pid w₂ userId request .optimisticLock :=
  .conflict (.inl rfl) read party read.within (Nat.le_refl _) (conflictGone intact same unmatched) update
    (uncommitted.running _)

omit [Pydantic] in
theorem unfitBlame {row : Wallet} {n : Nat} {balance : Decimal} {units : Int} (read : ReadAt pid w row n)
    (party : row.userId = userId ∨ row.userId = request.receiverId) (inUnits : balance.Units 2 units)
    (room : ¬ units.natAbs < 10 ^ 18 →
      row.userId = request.receiverId ∧ 10 ^ 18 ≤ row.balance.units + request.amount.cents)
    (why : Numeric.ofDecimal 18 2 balance = none ∨
      (Database.integerFits row.version && Database.integerFits (row.version + 1)) = false) :
    Blame pid w userId request .dataError := by
  rcases why with none | large
  · have excess : ¬ units.natAbs < 10 ^ 18 := by
      intro fits
      rw [Numeric.ofDecimalSome inUnits fits] at none
      contradiction
    exact .overflow read party (.inr (room excess))
  · exact .overflow read party (.inl large)

structure Follows (pid : Nat) (userId : UUID) (request : PaymentRequest) (redisClient : Bool) (sid rid : UUID)
    (goal : Except Exn TransactionResponse → Session → World → Prop) : Prop where
  refused : ∀ e l w, Intact w → Uncommitted pid (.sendMoney userId request redisClient) w → l.dirty = [] →
    Blame pid w userId request e → goal (.error e) l w
  duplicate : ∀ l w x, Intact w → Uncommitted pid (.sendMoney userId request redisClient) w → l.dirty = [] →
    x ∈ w.tables.transactions → x.idempotencyKey = request.idempotencyKey →
    goal (.error (.integrityError .transactionsIdempotencyKey)) l w
  wrecked : ∀ l w, Intact w → w.calls[pid]? = some (.sendMoney userId request redisClient) → l.dirty = [] →
    Wrecked pid w → Failed pid w → goal (.error .operationalError) l w
  paid : ∀ l w x, Intact w → Committed pid (.sendMoney userId request redisClient) [sid,rid] w → l.dirty = [] →
    Loaded l sid → Loaded l rid → x ∈ w.tables.transactions → x.idempotencyKey = request.idempotencyKey →
    goal (.ok (TransactionResponse.modelValidate x)) l w

theorem Follows.raise {sid rid : UUID} {goal : Except Exn TransactionResponse → Session → World → Prop}
    (follows : Follows pid userId request redisClient sid rid goal) (clean : l.dirty = []) :
    Raises pid (.sendMoney userId request redisClient) w l goal .operationalError :=
  fun w₂ _ intact₂ uncommitted₂ failed₂ =>
    follows.refused _ l w₂ intact₂ uncommitted₂ clean (.failed rfl failed₂)

theorem endsRecordTransfer {goal : Except Exn TransactionResponse → Session → World → Prop}
    {held : List Resource} {srow rrow : Wallet} {debited credited : Money} (intact : Intact w)
    (working : Working pid (.sendMoney userId request redisClient) held
      [.updateWallet srow.id debited (srow.version + 1),.updateWallet rrow.id credited (rrow.version + 1)] w)
    (clean : l.dirty = []) (heldSender : .wallet srow.id ∈ held) (heldReceiver : .wallet rrow.id ∈ held)
    (wallets : ∀ r ∈ held, ∃ id, r = .wallet id)
    (loadedSender : Loaded l srow.id) (loadedReceiver : Loaded l rrow.id)
    (senderHere : srow ∈ w.tables.wallets) (senderOwner : srow.userId = userId)
    (receiverHere : rrow ∈ w.tables.wallets) (receiverOwner : rrow.userId = request.receiverId)
    (different : srow.id ≠ rrow.id) (covered : request.amount.cents ≤ srow.balance.units)
    (debit : debited.units = srow.balance.units - request.amount.cents)
    (credit : credited.units = rrow.balance.units + request.amount.cents)
    (senderFits : (Database.integerFits srow.version && Database.integerFits (srow.version + 1)) = true)
    (receiverFits : (Database.integerFits rrow.version && Database.integerFits (rrow.version + 1)) = true)
    (follows : Follows pid userId request redisClient srow.id rrow.id goal) :
    Ends machine outline pid (PaymentService.recordTransfer ⟨srow.id⟩ ⟨rrow.id⟩ request.amount.value
      request.currency request.idempotencyKey request.description) l w goal := by
  obtain ⟨a,loadedA,keyA⟩ := loadedSender
  obtain ⟨b,loadedB,keyB⟩ := loadedReceiver
  refine endsLocal (idLoaded loadedA) ?_
  refine endsLocal (idLoaded loadedB) ?_
  rw [keyA,keyB]
  have due : ∀ w₁, Later pid w w₁ → Intact w₁ → Working pid (.sendMoney userId request redisClient) held
      [.updateWallet srow.id debited (srow.version + 1),.updateWallet rrow.id credited (rrow.version + 1)] w₁ →
      Recordable pid w₁ ⟨srow.id,rrow.id,request.amount.value,request.currency,.completed,
        request.idempotencyKey,request.description⟩ userId request redisClient srow rrow := by
    intro w₁ later₁ _ working₁
    have stay : ∀ row ∈ w.tables.wallets, .wallet row.id ∈ held → row ∈ w₁.tables.wallets :=
      fun row here inside => lockedRow later₁ ((working.locks _).mpr inside) here
    exact ⟨working₁.call,stay srow senderHere heldSender,senderOwner,stay rrow receiverHere heldReceiver,
      receiverOwner,different,covered,rfl,fun r => by simp [Database.view,working₁.pending,Tables.applyAll,
        Tables.apply]⟩
  apply endsThen intact
  refine endsInsertTransaction working clean due ?_ (follows.raise clean) ?_ ?_ ?_ ?_
  · intro below inside
    obtain ⟨id,rfl⟩ := wallets below inside
    have := id.isLt
    simp only [Resource.rank]
    omega
  · intro w₂ _ intact₂ working₂ text
    exact follows.refused _ l w₂ intact₂ working₂.toUncommitted clean (.text text)
  · rintro w₂ _ intact₂ working₂ ⟨rec,here,own,collides⟩
    exact follows.refused _ l w₂ intact₂ working₂.toUncommitted clean (.collision (.inl rfl) here own collides)
  · intro w₂ x _ intact₂ working₂ here key
    exact follows.duplicate l w₂ x intact₂ working₂.toUncommitted clean here key
  · intro w₁ w₂ id amount now later₁ intact₁ units text free grows₂ intact₂ working₂ tables₂
    apply endsThen intact₂
    refine endsCommit [srow.id,rrow.id] working₂ clean (by simp) ?_ ?_ ?_ ?_
    · intro w₃ later₃ intact₃ working₃
      have stay : ∀ row ∈ w.tables.wallets, .wallet row.id ∈ held → row ∈ w₃.tables.wallets := by
        intro row here inside
        have here₁ := lockedRow later₁ ((working.locks _).mpr inside) here
        exact lockedRow later₃ ((working₂.locks _).mpr (by simp [inside])) (tables₂ ▸ here₁)
      have fresh : ∀ r ∈ [Resource.transaction id,.idempotencyKey request.idempotencyKey],
          w₃.tables.taken r = false := by
        intro r hr
        rw [later₃.taken r ((working₂.locks r).mpr (List.mem_append_left held hr)),tables₂,free r hr]
      exact .send working₃.call (stay srow senderHere heldSender) senderOwner
        (stay rrow receiverHere heldReceiver) receiverOwner different covered debit credit
        ⟨rfl,rfl,units,rfl,rfl,rfl,rfl⟩ (fresh _ (List.mem_cons_self ..))
        (fresh _ (List.mem_cons_of_mem _ (List.mem_cons_self ..))) text senderFits receiverFits
    · intro moved moves
      simp only [Commit.moves,List.cons_append,List.nil_append,List.any_cons,List.any_nil,Bool.or_false,
        Bool.or_eq_true,decide_eq_true_eq] at moves
      rcases moves with same | same
      · exact same ▸ List.mem_cons_self ..
      · exact same ▸ List.mem_cons_of_mem _ (List.mem_cons_self ..)
    · intro w₃ _ intact₃ call₃ wrecked₃ failed₃
      exact follows.wrecked l w₃ intact₃ call₃ clean wrecked₃ failed₃
    · intro w₃ w₄ _ _ _ _ intact₄ committed₄ tables₄
      apply endsThen intact₄
      refine endsRefreshTransaction intact₄ committed₄ clean ?_ (fun w₅ _ intact₅ call₅ wrecked₅ failed₅ =>
        follows.wrecked l w₅ intact₅ call₅ clean wrecked₅ failed₅) ?_
      · rw [tables₄]
        simp [Tables.applyAll,Tables.apply]
      · intro w₅ _ intact₅ committed₅ here₅
        exact follows.paid l w₅ _ intact₅ committed₅ clean ⟨a,loadedA,keyA⟩ ⟨b,loadedB,keyB⟩ here₅ rfl

theorem endsAdjustBalance {goal : Except Exn Unit → Session → World → Prop} {held : List Resource}
    {writes : List Write} {row : Wallet} {n : Nat} {change : Decimal → Option Decimal} {changed : Decimal}
    {units : Int} (intact : Intact w)
    (working : Working pid (.sendMoney userId request redisClient) held writes w) (clean : l.dirty = [])
    (inside : .wallet row.id ∈ held) (both : ∃ other, other ≠ row.id ∧ .wallet other ∈ held)
    (untouched : ∀ write ∈ writes, .wallet row.id ∉ write.resources)
    (object : Object pid l w row n) (locked : Locked pid w row w.wal.length)
    (computed : change row.balance.toDecimal = some changed) (adjusts : Adjusts userId request row changed)
    (inUnits : changed.Units 2 units) (nonneg : 0 ≤ units)
    (room : ¬ units.natAbs < 10 ^ 18 →
      row.userId = request.receiverId ∧ 10 ^ 18 ≤ row.balance.units + request.amount.cents)
    (refused : ∀ e l' w₂, Intact w₂ → Uncommitted pid (.sendMoney userId request redisClient) w₂ →
      l'.dirty = [] → Blame pid w₂ userId request e → goal (.error e) l' w₂)
    (done : ∀ w₂ stored, Grows w w₂ → Intact w₂ →
      Working pid (.sendMoney userId request redisClient) (.wallet row.id :: held)
        (writes ++ [.updateWallet row.id stored (row.version + 1)]) w₂ →
      stored.units = units →
      (Database.integerFits row.version && Database.integerFits (row.version + 1)) = true →
      row ∈ w₂.tables.wallets →
      (∀ other, .wallet other.id ∈ held → (other ∈ w.tables.wallets → other ∈ w₂.tables.wallets) ∧
        (Locked pid w other w.wal.length → Locked pid w₂ other w₂.wal.length)) →
      goal (.ok ()) (l.synchronize row.id row.version changed (row.version + 1)) w₂) :
    Ends machine outline pid (PaymentService.adjustBalance ⟨row.id⟩ change) l w goal := by
  refine endsLocal (idLoaded object.loaded) ?_
  refine endsLocal (balanceLoaded object.loaded) ?_
  refine endsLocal (arithmeticSome computed) ?_
  refine endsLocal (versionLoaded object.loaded) ?_
  have party : row.userId = userId ∨ row.userId = request.receiverId := adjusts.imp And.left And.left
  have clean' := (synchronizeClean l row.id row.version changed (row.version + 1)).trans clean
  have stored : ∀ x : Money, Numeric.ofDecimal 18 2 changed = some x → x.units = units := by
    intro x fits
    rw [Numeric.ofDecimalUnits fits]
    exact Decimal.quantizeUnits inUnits
  -- the own uncommitted writes are of the other wallet
  have seen : ∀ w₁, Working pid (.sendMoney userId request redisClient) held writes w₁ →
      (w₁.db.view pid).walletsById row.id = w₁.tables.walletsById row.id := by
    intro w₁ working₁
    rw [Database.view,working₁.pending]
    exact Tables.walletsByIdApplyAll untouched
  apply endsThen intact
  refine endsUpdateBalance intact working clean (.inl inside) ?_ ?_ ?_ ?_ ?_
  · intro w₁ later₁ intact₁ working₁
    refine ⟨?_,?_,?_⟩
    · intro x fits
      rw [stored x fits]
      exact nonneg
    · intro userId' request' redisClient' called
      cases Option.some.inj (working₁.call.symm.trans called)
      obtain ⟨other,apart,held'⟩ := both
      exact ⟨row,locked.later intact intact₁ later₁ ((working.locks _).mpr inside),rfl,rfl,adjusts,
        (working₁.locks _).mpr inside,⟨other,apart,(working₁.locks _).mpr held'⟩,seen w₁ working₁⟩
    · intro userId' amount' redisClient' called
      cases Option.some.inj (working₁.call.symm.trans called)
  · intro w₂ _ intact₂ uncommitted₂ failed₂
    exact refused _ l w₂ intact₂ uncommitted₂ clean (.failed rfl failed₂)
  · intro w₂ grows₂ intact₂ working₂ why
    exact refused _ l w₂ intact₂ working₂.toUncommitted clean
      (unfitBlame (object.read.grows grows₂) party inUnits room why)
  · intro w₁ w₂ _ intact₁ working₁ unmatched grows₂ intact₂ working₂ same update
    rw [show row.attributes.id = row.id from rfl,seen w₁ working₁] at unmatched
    exact refused _ _ w₂ intact₂ working₂.toUncommitted clean'
      (conflictBlame intact₁ working₂.toUncommitted (object.read.grows grows₂) party same unmatched
        (update row rfl rfl))
  · intro w₁ w₂ x later₁ intact₁ working₁ matched fits fitting grows₂ intact₂ working₂ tables₂ wal₂
    rw [show row.attributes.id = row.id from rfl,seen w₁ working₁] at matched
    have here := readMatched intact₁ (object.read.grows later₁.grows) matched
    refine done w₂ x (later₁.grows.trans grows₂) intact₂ working₂ (stored x fits) fitting (tables₂ ▸ here) ?_
    intro other held
    have mine := (working.locks _).mpr held
    refine ⟨fun there => tables₂ ▸ lockedRow later₁ mine there,fun locked => ?_⟩
    rw [wal₂]
    exact (locked.later intact intact₁ later₁ mine).grows grows₂

theorem endsMoveLocked {goal : Except Exn TransactionResponse → Session → World → Prop}
    {held : List Resource} {srow rrow : Wallet} {n m : Nat} (intact : Intact w)
    (working : Working pid (.sendMoney userId request redisClient) held [] w) (clean : l.dirty = [])
    (heldSender : .wallet srow.id ∈ held) (heldReceiver : .wallet rrow.id ∈ held)
    (wallets : ∀ r ∈ held, ∃ id, r = .wallet id) (different : srow.id ≠ rrow.id)
    (sender : Object pid l w srow n) (senderOwner : srow.userId = userId)
    (receiver : Object pid l w rrow m) (receiverOwner : rrow.userId = request.receiverId)
    (senderLocked : Locked pid w srow w.wal.length) (receiverLocked : Locked pid w rrow w.wal.length)
    (follows : Follows pid userId request redisClient srow.id rrow.id goal) :
    Ends machine outline pid (PaymentService.moveLocked ⟨srow.id⟩ ⟨rrow.id⟩ request.amount.value request.currency
      request.idempotencyKey request.description) l w goal := by
  have amountUnits := request.amount.inCents
  have positive := request.amount.positive
  have senderUnits := srow.balance.toDecimalUnits
  have senderRange := srow.balance.fits
  refine endsLocal (balanceLoaded sender.loaded) ?_
  by_cases short : srow.attributes.balance.less request.amount.value = true
  · simp only [if_pos short]
    exact follows.refused _ l w intact working.toUncommitted clean (.insufficient sender.read senderOwner
      ((senderUnits.less amountUnits).mp short) senderLocked receiverLocked receiverOwner)
  simp only [if_neg short]
  have covered : request.amount.cents ≤ srow.balance.units := by
    by_contra less
    exact short ((senderUnits.less amountUnits).mpr (by omega))
  obtain ⟨debited,subtracted,debitUnits⟩ :=
    Decimal.inContextExact (senderUnits.difference amountUnits) (by rw [Decimal.precision]; omega)
  apply endsThen intact
  refine endsAdjustBalance intact working clean heldSender ⟨rrow.id,Ne.symm different,heldReceiver⟩ (by simp) sender
    senderLocked subtracted
    (.inl ⟨senderOwner,subtracted⟩) debitUnits (by omega) (by omega) follows.refused ?_
  -- the debit is staged; the receiver, locked too, is still as it was read
  intro w₁ debit grows₁ intact₁ working₁ debitStored senderFits senderHere kept₁
  have receiver₁ := (receiver.grows grows₁).synchronize (Ne.symm different) srow.version debited (srow.version + 1)
  have clean₁ := (synchronizeClean l srow.id srow.version debited (srow.version + 1)).trans clean
  have receiverNonneg := readNonneg intact₁ receiver₁.read
  have receiverRange := rrow.balance.fits
  obtain ⟨credited,added,creditUnits⟩ :=
    Decimal.inContextExact (rrow.balance.toDecimalUnits.sum amountUnits) (by rw [Decimal.precision]; omega)
  apply endsThen intact₁
  refine endsAdjustBalance intact₁ working₁ clean₁ (List.mem_cons_of_mem _ heldReceiver)
    ⟨srow.id,different,List.mem_cons_self ..⟩ ?_ receiver₁
    ((kept₁ rrow heldReceiver).2 receiverLocked) added (.inr ⟨receiverOwner,added⟩) creditUnits (by omega)
    (fun large => ⟨receiverOwner,by omega⟩) follows.refused ?_
  · intro write here
    rw [List.mem_singleton.mp here]
    intro inside
    exact different (Resource.wallet.inj (List.mem_singleton.mp inside)).symm
  intro w₂ credit grows₂ intact₂ working₂ creditStored receiverFits receiverHere kept
  have senderLoaded := (sender.isLoaded.synchronize srow.id srow.version debited
    (srow.version + 1)).synchronize rrow.id rrow.version credited (rrow.version + 1)
  refine endsRecordTransfer intact₂ working₂ ((synchronizeClean ..).trans clean₁) (by simp) (by simp) ?_
    senderLoaded (receiver₁.isLoaded.synchronize ..) ((kept srow (by simp)).1 senderHere) senderOwner receiverHere receiverOwner different covered
    debitStored creditStored senderFits receiverFits follows
  intro r inside
  rcases List.mem_cons.mp inside with rfl | inside
  · exact ⟨_,rfl⟩
  rcases List.mem_cons.mp inside with rfl | inside
  · exact ⟨_,rfl⟩
  · exact wallets r inside

theorem endsLockBoth {α : Type} {goal : Except Exn α → Session → World → Prop} {call : Call}
    {first second : Wallet} {n m : Nat} {rest : Option WalletRef → Option WalletRef → Py α} (intact : Intact w)
    (working : Working pid call [] [] w) (clean : l.dirty = []) (object : Object pid l w first n)
    (object' : Object pid l w second m) (order : first.id < second.id)
    (raised : ∀ w₂, Intact w₂ → Uncommitted pid call w₂ → Failed pid w₂ → goal (.error .operationalError) l w₂)
    (locked : ∀ w₂, Grows w w₂ → Intact w₂ → Working pid call [.wallet second.id,.wallet first.id] [] w₂ →
      Locked pid w₂ first w₂.wal.length → Locked pid w₂ second w₂.wal.length →
      Ends machine outline pid (rest (some ⟨first.id⟩) (some ⟨second.id⟩)) l w₂ goal) :
    Ends machine outline pid (do
      let lockedFirst ← WalletRepository.getByIdForUpdate first.id
      let lockedSecond ← WalletRepository.getByIdForUpdate second.id
      rest lockedFirst lockedSecond) l w goal := by
  apply endsThen intact
  refine endsGetByIdForUpdate intact working clean object.loaded object.read (by simp)
    (fun w₂ _ intact₂ uncommitted₂ failed₂ => raised w₂ intact₂ uncommitted₂ failed₂) ?_
  intro w₁ grows₁ intact₁ working₁ locked₁ _
  apply endsThen intact₁
  refine endsGetByIdForUpdate intact₁ working₁ clean object'.loaded (object'.read.grows grows₁) ?_
    (fun w₂ _ intact₂ uncommitted₂ failed₂ => raised w₂ intact₂ uncommitted₂ failed₂) ?_
  · intro below inside
    rw [List.mem_singleton.mp inside]
    simp only [Resource.rank]
    have := Fin.lt_def.mp order
    omega
  · intro w₂ grows₂ intact₂ working₂ locked₂ kept₂
    exact locked w₂ (grows₁.trans grows₂) intact₂ working₂ (kept₂ first locked₁ (by simp)) locked₂

theorem endsExecuteTransfer {goal : Except Exn TransactionResponse → Session → World → Prop}
    {srow rrow : Wallet} {n m : Nat} (intact : Intact w)
    (working : Working pid (.sendMoney userId request redisClient) [] [] w) (clean : l.dirty = [])
    (different : srow.id ≠ rrow.id) (sender : Object pid l w srow n) (senderOwner : srow.userId = userId)
    (receiver : Object pid l w rrow m) (receiverOwner : rrow.userId = request.receiverId)
    (follows : Follows pid userId request redisClient srow.id rrow.id goal) :
    Ends machine outline pid (PaymentService.executeTransfer srow.id rrow.id request.amount.value
      request.currency request.idempotencyKey request.description) l w goal := by
  have raised : ∀ w₂, Intact w₂ → Uncommitted pid (.sendMoney userId request redisClient) w₂ → Failed pid w₂ →
      goal (.error .operationalError) l w₂ := fun w₂ intact₂ uncommitted₂ failed₂ =>
    follows.refused _ l w₂ intact₂ uncommitted₂ clean (.failed rfl failed₂)
  have wallets : ∀ r ∈ [Resource.wallet srow.id,.wallet rrow.id], ∃ id, r = .wallet id := by
    intro r inside
    simp only [List.mem_cons,List.not_mem_nil,or_false] at inside
    rcases inside with rfl | rfl <;> exact ⟨_,rfl⟩
  by_cases order : srow.id ≤ rrow.id
  · simp only [PaymentService.executeTransfer,PaymentService.sortedPair,if_pos order]
    refine endsLockBoth intact working clean sender receiver (lt_of_le_of_ne order different) raised ?_
    intro w₂ grows₂ intact₂ working₂ senderLocked receiverLocked
    refine endsLocal (idLoaded sender.loaded) ?_
    rw [if_pos (show srow.attributes.id = srow.id from rfl)]
    exact endsMoveLocked intact₂ working₂ clean (by simp) (by simp)
      (fun r inside => wallets r (List.mem_reverse.mpr inside)) different (sender.grows grows₂) senderOwner
      (receiver.grows grows₂) receiverOwner senderLocked receiverLocked follows
  · simp only [PaymentService.executeTransfer,PaymentService.sortedPair,if_neg order]
    refine endsLockBoth intact working clean receiver sender (lt_of_not_ge order) raised ?_
    intro w₂ grows₂ intact₂ working₂ receiverLocked senderLocked
    refine endsLocal (idLoaded receiver.loaded) ?_
    rw [if_neg (show rrow.attributes.id ≠ srow.id from Ne.symm different)]
    exact endsMoveLocked intact₂ working₂ clean (by simp) (by simp) wallets different (sender.grows grows₂)
      senderOwner (receiver.grows grows₂) receiverOwner senderLocked receiverLocked follows

end
end PaymentSystem
