import PaymentSystem.Behaviour.Repositories

/-! The commit and what comes after it. From here on a failure no longer undoes the
request: it is remembered as what spoiled it, and as what kept it from deleting
cache entries. -/
namespace PaymentSystem
open Numerics (Decimal Numeric)
open Interleaving (Task)
open Interleaving.Task (Ends endsThen endsCatch endsLocal)

section
variable {pid : Nat} {call : Call} {w : World} {ids : List UUID} {op : Op} {fault : Fault} {r : Res op}
  {s' : Stores}

theorem Committed.called (h : Committed pid call ids w) (db : s'.db = w.db)
    (fine : op.isRefresh = true → fault = .none) : Committed pid call ids (w.called pid op fault r s') where
  call := h.call
  pending := by
    change s'.db.pending pid = []
    rw [db]
    exact h.pending
  commit := h.commit.grows (calledGrows (by rw [db]))
  moves := by
    intro c hc
    change c ∈ s'.db.wal at hc
    rw [db] at hc
    exact h.moves c hc
  refreshed := by
    intro rec here own refresh
    rcases calledMem here with here | rfl
    · exact h.refreshed rec here own refresh
    · simp [Record.failed,fine refresh]

theorem Settled.called (h : Settled pid w) (wal : s'.db.wal = w.wal) :
    Settled pid (w.called pid op fault r s') := by
  have grows : Grows w (w.called pid op fault r s') := calledGrows (by rw [wal])
  rcases h with deleted | broken
  · refine .inl ?_
    intro c hc own id moves
    exact (deleted c (wal ▸ hc) own id moves).grows grows
  · exact .inr (broken.grows grows)

theorem Wrecked.called (h : Wrecked pid w) (wal : s'.db.wal = w.wal) :
    Wrecked pid (w.called pid op fault r s') := by
  refine ⟨h.1.called wal,?_⟩
  rintro ⟨c,hc,own⟩
  exact (h.2 ⟨c,wal ▸ hc,own⟩).grows (calledGrows (by rw [wal]))

end

section
variable [Pydantic] {pid : Nat} {call : Call} {w : World} {l : Session} {held : List Resource}
  {writes : List Write} {ids : List UUID}

theorem endsCommit {goal : Except Exn Unit → Session → World → Prop} (ids : List UUID)
    (working : Working pid call held writes w) (clean : l.dirty = []) (nonempty : writes ≠ [])
    (entry : ∀ w₁, Later pid w w₁ → Intact w₁ → Working pid call held writes w₁ →
      Entry w₁.calls w₁.tables pid writes)
    (moves : ∀ id, (⟨pid,writes⟩ : Commit).moves id = true → id ∈ ids)
    (raised : ∀ w₂, Grows w w₂ → Intact w₂ → w₂.calls[pid]? = some call → Wrecked pid w₂ → Failed pid w₂ →
      goal (.error .operationalError) l w₂)
    (done : ∀ w₁ w₂, Later pid w w₁ → Intact w₁ → Working pid call held writes w₁ → Grows w w₂ → Intact w₂ →
      Committed pid call ids w₂ → w₂.tables = w₁.tables.applyAll writes → goal (.ok ()) l w₂) :
    Ends machine outline pid commit l w goal := by
  unfold Ends
  rw [commitClean clean]
  apply endsCall
  intro w₁ later intact₁
  have working₁ := working.later later
  have entry₁ := entry w₁ later intact₁ working₁
  refine ⟨⟨?_,⟨working₁.pending ▸ entry₁,working₁.once⟩,startedOf working₁.call⟩,?_⟩
  · intro r wanted
    simp [Op.wants] at wanted
  · intro choice r s' attempted intact'
    rcases attemptCases attempted with ⟨fault,ran⟩ | ⟨fault,rfl⟩
    · cases ran
      have wal : (w₁.db.commit pid).wal = w₁.wal ++ [⟨pid,writes⟩] := by
        rw [Database.commitWal,working₁.pending,if_neg nonempty]
      rw [fault] at intact' ⊢
      refine done w₁ _ later intact₁ working₁ (later.grows.trans (calledGrows ?_)) intact' ?_ ?_
      · change w₁.wal <+: (w₁.db.commit pid).wal
        rw [wal]
        exact List.prefix_append ..
      · refine ⟨working₁.call,?_,?_,?_,?_⟩
        · change (w₁.db.commit pid).pending pid = []
          rw [Database.commitPending,Database.releasePending]
        · refine ⟨⟨pid,writes⟩,?_,rfl⟩
          change _ ∈ (w₁.db.commit pid).wal
          rw [wal]
          exact List.mem_append_right _ (List.mem_singleton_self _)
        · intro c hc own
          change c ∈ (w₁.db.commit pid).wal at hc
          rw [wal] at hc
          rcases List.mem_append.mp hc with hc | hc
          · exact absurd own (working₁.once c hc)
          · rw [List.mem_singleton.mp hc]
            exact moves
        · intro rec here own refresh
          rcases calledMem here with here | rfl
          · exact working₁.refreshed rec here own refresh
          · simp [Record.isRefresh,Op.isRefresh] at refresh
      · change (w₁.db.commit pid).tables = _
        rw [Database.commitTables,Database.view,working₁.pending]
    · have grows₁ : Grows w₁ (w₁.called pid .commit choice.fault (.error Op.commit.failure) s') := by
        refine calledGrows ?_
        cases attemptEffect attempted with
        | committed isCommit =>
          rw [Database.commitWal]
          split
          · exact List.prefix_refl _
          · exact List.prefix_append ..
        | _ => exact List.prefix_refl _
      refine raised _ (later.grows.trans grows₁) intact' (grows₁.call working₁.call) ?_ (calledFailed fault)
      cases known : choice.fault with
      | none => exact absurd known fault
      -- the commit took effect and raised, which spoils the request
      | raisesAfter =>
        refine ⟨.inr ⟨w₁.log,_,[],rfl,rfl,by simp [Record.failed],.inr (.inl (by simp [Record.halfCommitted]))⟩,?_⟩
        intro _
        exact ⟨_,calledLast,rfl,by simp [Record.spoils]⟩
      | raises =>
        simp only [attempt,known] at attempted
        cases attempted
        exact wreckedOf working₁.once

theorem endsRefresh {op : Op} {goal : Res op → Session → World → Prop} (refresh : op.isRefresh = true)
    (committed : Committed pid call ids w)
    (raised : ∀ w₂, Grows w w₂ → Intact w₂ → w₂.calls[pid]? = some call → Wrecked pid w₂ → Failed pid w₂ →
      goal (.error op.failure) l w₂)
    (performed : ∀ w₁ choice r s', Later pid w w₁ → Intact w₁ → Committed pid call ids w₁ →
      perform pid w₁.stores choice op = some (r,s') → Intact (w₁.called pid op .none r s') →
      goal r l (w₁.called pid op .none r s')) :
    Ends machine outline pid (await op) l w goal := by
  apply endsCall
  intro w₁ later intact₁
  have committed₁ := committed.later later
  refine ⟨⟨?_,?_,startedOf committed₁.call⟩,?_⟩
  · intro r wanted
    cases op <;> simp [Op.wants,Op.isRefresh] at wanted refresh
  · cases op with
    | selectUserById id => exact ⟨fun _ => committed₁.pending,fun _ => .inl committed₁.commit⟩
    | selectWalletById id => exact ⟨fun _ => committed₁.pending,fun _ => .inl committed₁.commit⟩
    | selectTransactionById id => exact ⟨fun _ => committed₁.pending,fun _ => .inl committed₁.commit⟩
    | _ => simp [Op.isRefresh] at refresh
  · intro choice r s' attempted intact'
    have notCommit : op ≠ .commit := by
      rintro rfl
      simp [Op.isRefresh] at refresh
    have wal := effectWal (attemptEffect attempted) notCommit
    rcases attemptCases attempted with ⟨fault,ran⟩ | ⟨fault,rfl⟩
    · rw [fault] at intact' ⊢
      exact performed w₁ choice r s' later intact₁ committed₁ ran intact'
    · have grows₁ : Grows w₁ (w₁.called pid op choice.fault (.error op.failure) s') :=
        calledGrows (by rw [wal])
      exact raised _ (later.grows.trans grows₁) intact' (grows₁.call committed₁.call)
        ⟨calledSettled wal fault,fun _ => calledSpoiled fault (.inl refresh)⟩ (calledFailed fault)

theorem endsRedis {op : Op} {goal : Res op → Session → World → Prop} (redis : op.isRedis = true)
    (committed : Committed pid call ids w)
    (due : ∀ w₁, Later pid w w₁ → Intact w₁ → Committed pid call ids w₁ → Due pid w₁ op)
    (raised : ∀ w₂, Grows w w₂ → Intact w₂ → Committed pid call ids w₂ → Broken pid w₂ → Spoiled pid w₂ →
      Failed pid w₂ → goal (.error op.failure) l w₂)
    (performed : ∀ w₁ choice r s', Later pid w w₁ → Intact w₁ → Committed pid call ids w₁ →
      perform pid w₁.stores choice op = some (r,s') → Intact (w₁.called pid op .none r s') →
      Grows w (w₁.called pid op .none r s') → Committed pid call ids (w₁.called pid op .none r s') →
      goal r l (w₁.called pid op .none r s')) :
    Ends machine outline pid (await op) l w goal := by
  have notRefresh : op.isRefresh = false := by
    cases op <;> simp [Op.isRefresh,Op.isRedis] at redis ⊢
  apply endsCall
  intro w₁ later intact₁
  have committed₁ := committed.later later
  refine ⟨⟨?_,due w₁ later intact₁ committed₁,startedOf committed₁.call⟩,?_⟩
  · intro r wanted
    cases op <;> simp [Op.wants,Op.isRedis] at wanted redis
  · intro choice r s' attempted intact'
    have db := effectRedis (attemptEffect attempted) redis
    have grows : Grows w (w₁.called pid op choice.fault r s') :=
      later.grows.trans (calledGrows (by rw [db]))
    have committed₂ : Committed pid call ids (w₁.called pid op choice.fault r s') :=
      committed₁.called db (fun refresh => by rw [notRefresh] at refresh; contradiction)
    rcases attemptCases attempted with ⟨fault,ran⟩ | ⟨fault,rfl⟩
    · rw [fault] at intact' grows committed₂ ⊢
      exact performed w₁ choice r s' later intact₁ committed₁ ran intact' grows committed₂
    · refine raised _ grows intact' committed₂ ?_ (calledSpoiled fault (.inr redis))
        (calledFailed fault)
      exact ⟨w₁.log,_,[],rfl,rfl,by simpa [Record.failed] using fault,
        .inl (by simpa [Record.redisFailed,redis] using fault)⟩

/-! Deleting cache entries, and re-reading what was committed. -/

theorem endsInvalidateBalance {goal : Except Exn Unit → Session → World → Prop} (intact : Intact w)
    (committed : Committed pid call ids w) (id : UUID)
    (done : ∀ w₂, Grows w w₂ → Intact w₂ → Committed pid call ids w₂ →
      (Invalidated pid id w₂ ∨ Broken pid w₂) → goal (.ok ()) l w₂) :
    Ends machine outline pid (CacheManager.invalidateBalance id) l w goal := by
  apply endsCatch intact
  refine endsRedis rfl committed ?_ (fun w₂ grows intact committed broken _ _ =>
    done w₂ grows intact committed (.inr broken)) ?_
  · intro w₁ later intact₁ committed₁
    refine ⟨committed₁.commit,?_⟩
    intro key here
    exact ⟨id,.inl (List.mem_singleton.mp here)⟩
  · intro w₁ choice r s' later intact₁ committed₁ ran intact' grows committed₂
    cases ran
    exact done _ grows intact' committed₂
      (.inl ⟨_,calledLast,rfl,by simp [Record.invalidates]⟩)

theorem endsInvalidateWalletInfo {goal : Except Exn Unit → Session → World → Prop} (intact : Intact w)
    (committed : Committed pid call ids w) (id : UUID)
    (done : ∀ w₂, Grows w w₂ → Intact w₂ → Committed pid call ids w₂ → goal (.ok ()) l w₂) :
    Ends machine outline pid (CacheManager.invalidateWalletInfo id) l w goal := by
  apply endsCatch intact
  refine endsRedis rfl committed ?_ (fun w₂ grows intact committed _ _ _ =>
    done w₂ grows intact committed) ?_
  · intro w₁ later intact₁ committed₁
    refine ⟨committed₁.commit,?_⟩
    intro key here
    exact ⟨id,.inr (List.mem_singleton.mp here)⟩
  · intro w₁ choice r s' later intact₁ committed₁ ran intact' grows committed₂
    cases ran
    exact done _ grows intact' committed₂

abbrev Breaks (pid : Nat) (call : Call) (w : World) (l : Session) {α : Type}
    (goal : Except Exn α → Session → World → Prop) : Prop :=
  ∀ w₂, Grows w w₂ → Intact w₂ → w₂.calls[pid]? = some call → Wrecked pid w₂ → Failed pid w₂ →
    goal (.error .operationalError) l w₂

theorem endsRefreshWallet {goal : Except Exn Unit → Session → World → Prop} (intact : Intact w)
    (committed : Committed pid call ids w) (clean : l.dirty = []) (ref : WalletRef)
    (present : ref.key ∈ w.tables.wallets.map Wallet.id) (raised : Breaks pid call w l goal)
    (done : ∀ w₂ row, Grows w w₂ → Intact w₂ → Committed pid call ids w₂ → ReadAt pid w₂ row w₂.wal.length →
      row.id = ref.key → goal (.ok ()) (l.load row) w₂) :
    Ends machine outline pid (refreshWallet ref) l w goal := by
  apply endsThen intact
  apply endsExecute clean
  refine endsRefresh rfl committed raised ?_
  intro w₁ choice r s' later intact₁ committed₁ ran intact'
  cases ran
  have seen : (w₁.stores.db.view pid).walletsById ref.key = w₁.tables.walletsById ref.key := by
    rw [Database.viewNothing committed₁.pending]
  obtain ⟨old,hold,key⟩ := List.mem_map.mp present
  obtain ⟨row,here,becomes⟩ := (intact.evolves intact₁ later.grows).wallets old hold
  have same : row.id = ref.key := becomes.id.symm.trans key
  have one : w₁.tables.walletsById ref.key = [row] := same ▸ intact₁.keyed.byId here
  rw [seen,one] at intact' ⊢
  exact done _ row (later.grows.trans (calledGrows (List.prefix_refl _))) intact'
    (committed₁.called rfl (fun _ => rfl)) (ReadAt.now intact₁ here rfl (List.mem_singleton_self row)) same

theorem endsRefreshUser {goal : Except Exn User → Session → World → Prop} (intact : Intact w)
    (committed : Committed pid call ids w) (clean : l.dirty = []) {user : User}
    (present : user ∈ w.tables.users) (raised : Breaks pid call w l goal)
    (done : ∀ w₂ row, Grows w w₂ → Intact w₂ → Committed pid call ids w₂ → row ∈ w₂.tables.users →
      row.id = user.id → goal (.ok row) l w₂) :
    Ends machine outline pid (refreshUser user) l w goal := by
  apply endsThen intact
  apply endsExecute clean
  refine endsRefresh rfl committed raised ?_
  intro w₁ choice r s' later intact₁ committed₁ ran intact'
  cases ran
  have seen : (w₁.stores.db.view pid).usersById user.id = w₁.tables.usersById user.id := by
    rw [Database.viewNothing committed₁.pending]
  have here : user ∈ w₁.tables.usersById user.id := by
    simpa [Tables.usersById] using (intact.evolves intact₁ later.grows).users.subset present
  rw [seen] at intact' ⊢
  cases rows : w₁.tables.usersById user.id with
  | nil => simp [rows] at here
  | cons row rest =>
    have member : row ∈ w₁.tables.usersById user.id := rows ▸ List.mem_cons_self ..
    simp only [Tables.usersById,List.mem_filter,beq_iff_eq] at member
    rw [rows] at intact'
    exact done _ row (later.grows.trans (calledGrows (List.prefix_refl _))) intact'
      (committed₁.called rfl (fun _ => rfl)) member.1 member.2

theorem endsRefreshTransaction {goal : Except Exn Transaction → Session → World → Prop} (intact : Intact w)
    (committed : Committed pid call ids w) (clean : l.dirty = []) {x : Transaction}
    (present : x ∈ w.tables.transactions) (raised : Breaks pid call w l goal)
    (done : ∀ w₂, Grows w w₂ → Intact w₂ → Committed pid call ids w₂ → x ∈ w₂.tables.transactions →
      goal (.ok x) l w₂) :
    Ends machine outline pid (refreshTransaction x) l w goal := by
  apply endsThen intact
  apply endsExecute clean
  refine endsRefresh rfl committed raised ?_
  intro w₁ choice r s' later intact₁ committed₁ ran intact'
  cases ran
  have here := (intact.evolves intact₁ later.grows).transactions.subset present
  have one : (w₁.stores.db.view pid).transactionsById x.id = [x] := by
    rw [Database.viewNothing committed₁.pending]
    exact intact₁.keyed.byTransactionId here
  rw [one] at intact' ⊢
  exact done _ (later.grows.trans (calledGrows (List.prefix_refl _))) intact'
    (committed₁.called rfl (fun _ => rfl)) here

end
end PaymentSystem
