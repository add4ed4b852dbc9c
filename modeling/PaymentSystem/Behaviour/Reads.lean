import PaymentSystem.Behaviour.Wallets

/-! The calls that only read: what they report is of rows and cache entries they saw,
and no transaction is listed to who is not a party of it. -/
namespace PaymentSystem
open Numerics (Decimal Numeric)
open Interleaving (Task)
open Interleaving.Task (Ends endsThen endsLocal)

theorem newestFirstMem {rows proposed : List Transaction} {x : Transaction}
    (h : x ∈ Database.newestFirst rows proposed) : x ∈ rows := by
  simp only [Database.newestFirst] at h
  split at h
  · rename_i valid
    exact valid.1.mem_iff.mp h
  · exact (List.perm_insertionSort _ _).mem_iff.mp h

variable [Pydantic] {pid : Nat} {call : Call} {w w' : World} {l : Session}

def Answers {α : Type} (pid : Nat) (fact : α → World → Prop) : Except Exn α → Session → World → Prop
  | .ok a,_,w => (∀ c ∈ w.wal, c.pid ≠ pid) ∧ Refreshed pid w ∧ fact a w
  | .error _,_,w => ∀ c ∈ w.wal, c.pid ≠ pid

theorem endsGetWallet {userId : UUID} {redisClient : Bool} (intact : Intact w)
    (working : Working pid call [] [] w) :
    Ends machine outline pid (WalletService.getWallet userId redisClient) Session.new w
      (Answers pid (fun response => Reported pid userId response.id response.balance)) := by
  apply endsThen intact
  refine endsGetByUserId intact working rfl userId (fun w₂ _ _ uncommitted _ => uncommitted.once)
    (fun w₂ _ _ _ working₂ _ => working₂.once) ?_
  intro w₁ row n grows₁ intact₁ working₁ read _ owner
  have loaded := newMerge row
  have direct : ∀ w₂, Grows w₁ w₂ → Working pid call [] [] w₂ → Ends machine outline pid
      (WalletResponse.modelValidate ⟨row.id⟩) (Session.new.merge row) w₂
      (Answers pid (fun response => Reported pid userId response.id response.balance)) := by
    intro w₂ grows₂ working₂
    unfold Ends
    rw [modelValidateLoaded loaded]
    exact ⟨working₂.once,working₂.refreshed,row,n,read.grows grows₂,owner,rfl,.inl rfl⟩
  cases redisClient with
  | false => exact direct w₁ (.refl w₁) working₁
  | true =>
    refine endsLocal (idLoaded loaded) ?_
    apply endsThen intact₁
    refine endsGetBalance intact₁ working₁ row.id ?_ ?_
    · intro w₂ grows₂ intact₂ working₂
      refine endsLocal (balanceLoaded loaded) ?_
      apply endsThen intact₂
      refine endsSetBalance intact₂ working₂ (read.grows grows₂) ?_
      intro w₃ grows₃ intact₃ working₃
      exact direct w₃ (grows₂.trans grows₃) working₃
    · intro w₂ balance grows₂ intact₂ working₂ hit
      refine endsLocal rfl ?_
      have assigned : ((Session.new.merge row).assignBalance row.id balance).identityMap row.id =
          some (.loaded {row.attributes with balance := balance}) := by
        simp only [Session.assignBalance,loaded]
        exact Function.update_self ..
      unfold Ends
      rw [modelValidateLoaded assigned]
      exact ⟨working₂.once,working₂.refreshed,row,n,read.grows grows₂,owner,rfl,.inr hit⟩

theorem endsGetBalanceFast {userId : UUID} {redisClient : Bool} (intact : Intact w)
    (working : Working pid call [] [] w) :
    Ends machine outline pid (WalletService.getBalanceFast userId redisClient) Session.new w
      (Answers pid (fun balance w => ∃ id, Reported pid userId id balance w)) := by
  apply endsThen intact
  refine endsGetByUserId intact working rfl userId (fun w₂ _ _ uncommitted _ => uncommitted.once)
    (fun w₂ _ _ _ working₂ _ => working₂.once) ?_
  intro w₁ row n grows₁ intact₁ working₁ read _ owner
  have loaded := newMerge row
  cases redisClient with
  | false =>
    change Ends machine outline pid (WalletRef.balance ⟨row.id⟩) _ w₁ _
    unfold Ends
    rw [balanceLoaded loaded]
    exact ⟨working₁.once,working₁.refreshed,row.id,row,n,read,owner,rfl,.inl rfl⟩
  | true =>
    refine endsLocal (idLoaded loaded) ?_
    apply endsThen intact₁
    refine endsGetBalance intact₁ working₁ row.id ?_ ?_
    · intro w₂ grows₂ intact₂ working₂
      refine endsLocal (balanceLoaded loaded) ?_
      apply endsThen intact₂
      refine endsSetBalance intact₂ working₂ (read.grows grows₂) ?_
      intro w₃ grows₃ intact₃ working₃
      exact ⟨working₃.once,working₃.refreshed,row.id,row,n,read.grows (grows₂.trans grows₃),owner,rfl,.inl rfl⟩
    · intro w₂ balance grows₂ intact₂ working₂ hit
      exact ⟨working₂.once,working₂.refreshed,row.id,row,n,read.grows grows₂,owner,rfl,.inr hit⟩

/-! Transactions. -/

def Disclosed (pid : Nat) (userId : UUID) (t : TransactionResponse) (w : World) : Prop :=
  ∃ x ∈ w.tables.transactions, t = TransactionResponse.modelValidate x ∧
    ∃ row n, ReadAt pid w row n ∧ row.userId = userId ∧ Tables.party row.id x = true

theorem Disclosed.grows {userId : UUID} {t : TransactionResponse} (h : Disclosed pid userId t w)
    (intact : Intact w) (intact' : Intact w') (grows : Grows w w') : Disclosed pid userId t w' := by
  obtain ⟨x,hx,shown,row,n,read,owner⟩ := h
  exact ⟨x,(intact.evolves intact' grows).transactions.subset hx,shown,row,n,read.grows grows,owner⟩

theorem endsGetTransactionHistory {userId : UUID} {page pageSize : Nat} {status : Option String}
    (intact : Intact w) (working : Working pid call [] [] w) :
    Ends machine outline pid (PaymentApi.getTransactionHistory userId page pageSize status) Session.new w
      (Answers pid (fun response w => ∀ t ∈ response.transactions, Disclosed pid userId t w)) := by
  apply endsThen intact
  refine endsGetByUserId intact working rfl userId (fun w₂ _ _ uncommitted _ => uncommitted.once) ?_ ?_
  · intro w₂ _ _ _ working₂ _
    exact ⟨working₂.once,working₂.refreshed,by intro t ht; contradiction⟩
  · intro w₁ row n grows₁ intact₁ working₁ read _ owner
    refine endsLocal (idLoaded (newMerge row)) ?_
    apply endsThen intact₁
    apply endsThen intact₁
    refine endsExecute rfl ?_
    refine endsSelect rfl rfl (fun _ pending _ => ⟨fun _ => pending,isNot rfl⟩) working₁ (fun w₂ _ _ uncommitted _ => uncommitted.once) ?_
    intro w₂ choice₂ r₂ s₂ later₂ intact₂ working₂ ran₂ intact₂'
    cases ran₂
    have working₃ : Working pid call [] [] (w₂.called pid (.countTransactionsOf row.attributes.id) .none
        (.ok ((w₂.stores.db.view pid).transactionsOf row.attributes.id).length) w₂.stores) :=
      working₂.calledSame rfl rfl
    apply endsThen intact₂'
    refine endsExecute rfl ?_
    refine endsSelect rfl rfl (fun _ pending _ => ⟨fun _ => pending,isNot rfl⟩) working₃ (fun w₃ _ _ uncommitted _ => uncommitted.once) ?_
    intro w₃ choice₃ r₃ s₃ later₃ intact₃ working₃' ran₃ intact₃'
    have grows : Grows w₁ w₃ :=
      (later₂.grows.trans (calledGrows (List.prefix_refl _))).trans later₃.grows
    have working₄ : ∀ r, Working pid call [] [] (w₃.called pid
        (.selectTransactionsOf row.attributes.id ((page - 1) * pageSize) pageSize) .none r w₃.stores) :=
      fun r => working₃'.calledSame rfl rfl
    obtain ⟨rfl,⟨_,rfl⟩ | ⟨_,rfl⟩⟩ := checkedCases ran₃
    swap
    · exact (working₄ _).once
    refine ⟨(working₄ _).once,(working₄ _).refreshed,?_⟩
    intro t ht
    obtain ⟨x,hx,rfl⟩ := List.mem_map.mp ht
    have found := newestFirstMem (List.mem_of_mem_drop (List.mem_of_mem_take hx))
    change x ∈ (w₃.db.view pid).transactionsOf _ at found
    rw [Database.viewNothing working₃'.pending] at found
    obtain ⟨here,party⟩ := List.mem_filter.mp found
    exact ⟨x,here,rfl,row,n,read.grows (grows.trans (calledGrows (List.prefix_refl _))),owner,party⟩

theorem endsGetTransaction {userId transactionId : UUID} (intact : Intact w)
    (working : Working pid (.getTransaction userId transactionId) [] [] w) :
    Ends machine outline pid (PaymentApi.getTransaction userId transactionId) Session.new w
      (Answers pid (fun t => Disclosed pid userId t)) := by
  apply endsThen intact
  refine endsGetByUserId intact working rfl userId (fun w₂ _ _ uncommitted _ => uncommitted.once)
    (fun w₂ _ _ _ working₂ _ => working₂.once) ?_
  intro w₁ row n grows₁ intact₁ working₁ read _ owner
  apply endsThen intact₁
  apply endsThen intact₁
  refine endsExecute rfl ?_
  apply endsCall
  intro w₂ later₂ intact₂
  have working₂ := working₁.later later₂
  refine ⟨⟨?_,⟨fun _ => working₂.pending,fun _ => .inr ⟨userId,transactionId,working₂.call⟩⟩,
    startedOf working₂.call⟩,?_⟩
  · intro r wanted
    simp [Op.wants] at wanted
  · intro choice r s' attempted intact'
    have wal := effectWal (attemptEffect attempted) (by simp)
    have once : ∀ c ∈ (w₂.called pid (.selectTransactionById transactionId) choice.fault r s').wal,
        c.pid ≠ pid := by
      intro c hc
      change c ∈ s'.db.wal at hc
      rw [wal] at hc
      exact working₂.once c hc
    rcases attemptCases attempted with ⟨fault,ran⟩ | ⟨fault,rfl⟩
    · cases ran
      have seen : (w₂.stores.db.view pid).transactionsById transactionId =
          w₂.tables.transactionsById transactionId := by
        rw [Database.viewNothing working₂.pending]
      rw [seen] at intact' once ⊢
      rcases intact₂.keyed.transactionLookup transactionId with none | ⟨x,here,key,one⟩
      · rw [none] at once ⊢
        exact once
      · rw [one] at once intact' ⊢
        refine endsLocal (idLoaded (newMerge row)) ?_
        by_cases outsider : x.senderWalletId ≠ row.attributes.id ∧ x.receiverWalletId ≠ row.attributes.id
        · simp only [if_pos outsider]
          exact once
        · simp only [if_neg outsider]
          refine ⟨once,?_,x,here,rfl,row,n,
            read.grows (later₂.grows.trans (calledGrows (List.prefix_refl _))),owner,?_⟩
          · intro rec inside own refresh
            rcases calledMem inside with inside | rfl
            · exact working₂.refreshed rec inside own refresh
            · simp [Record.failed,fault]
          · simp only [Tables.party,Bool.or_eq_true,beq_iff_eq]
            by_contra neither
            exact outsider (not_or.mp neither)
    · exact once

end PaymentSystem
