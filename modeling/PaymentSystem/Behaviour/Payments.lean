import PaymentSystem.Behaviour.Transfer

/-! send_money, whole: through either idempotency tier, through its own commit, or
through the recovery from an IntegrityError, it returns a committed payment with the
key; otherwise it is refused. -/
namespace PaymentSystem
open Numerics (Decimal Numeric)
open JsonText (Json)
open Interleaving (Task)
open Interleaving.Task (Ends endsThen endsCatch endsLocal endsRaised endsMono)

section
variable [Pydantic]

def replyDocument (x : Transaction) : Json :=
  .object [("response",(TransactionResponse.modelValidate x).modelDump),("status_code",.number 201)]

theorem replyLoads (x : Transaction) : JsonText.loads (replyText x) = some (replyDocument x) :=
  JsonText.loadsDumps _

theorem replyNonempty (x : Transaction) : replyText x ≠ "" := by
  intro empty
  have loaded := replyLoads x
  rw [empty] at loaded
  have nothing : JsonText.loads "" = none := by decide
  rw [nothing] at loaded
  contradiction

theorem dumpUndone (t : TransactionResponse) : TransactionResponse.ofDocument t.modelDump = some t := by
  obtain ⟨id,sender,receiver,amount,currency,status,key,description,createdAt⟩ := t
  cases description with
  | none =>
    simp [TransactionResponse.ofDocument,TransactionResponse.modelDump,stringMember,Json.member?,Json.string?,
      Pydantic.uuidUndone,Pydantic.decimalUndone,Pydantic.dateTimeUndone]
  | some text =>
    simp [TransactionResponse.ofDocument,TransactionResponse.modelDump,stringMember,Json.member?,Json.string?,
      Pydantic.uuidUndone,Pydantic.decimalUndone,Pydantic.dateTimeUndone]

theorem replyTruthy (x : Transaction) :
    (some (replyDocument x)).filter IdempotencyService.truthy = some (replyDocument x) := rfl

theorem replayReply (x : Transaction) (l : Session) :
    PaymentService.replay (replyDocument x) l = .done (.ok (TransactionResponse.modelValidate x),l) := by
  have member : (replyDocument x).member? "response" = some (TransactionResponse.modelValidate x).modelDump := rfl
  simp only [PaymentService.replay,member,dumpUndone]
  rfl

variable {pid : Nat} {w : World} {l : Session} {userId : UUID} {request : PaymentRequest} {redisClient : Bool}

def Paid (request : PaymentRequest) (t : TransactionResponse) (w : World) : Prop :=
  ∃ x ∈ w.tables.transactions, x.idempotencyKey = request.idempotencyKey ∧ t = TransactionResponse.modelValidate x

theorem Paid.grows {t : TransactionResponse} {w' : World} (h : Paid request t w) (intact : Intact w)
    (intact' : Intact w') (grows : Grows w w') : Paid request t w' := by
  obtain ⟨x,here,known⟩ := h
  exact ⟨x,(intact.evolves intact' grows).transactions.subset here,known⟩

def Pays (pid : Nat) (userId : UUID) (request : PaymentRequest) (redisClient : Bool) :
    Except Exn TransactionResponse → Session → World → Prop
  | .ok t,_,w => Paid request t w ∧ Refreshed pid w ∧ (redisClient = true → Settled pid w)
  | .error e,_,w => Wrecked pid w ∧ Blame pid w userId request e

def Settles (pid : Nat) (userId : UUID) (request : PaymentRequest) (redisClient : Bool) :
    Except Exn TransactionResponse → Session → World → Prop
  | .ok t,_,w => Paid request t w ∧ Refreshed pid w ∧ (redisClient = true → Settled pid w)
  | .error e,_,w => Wrecked pid w ∧ Refused pid userId request w e

omit [Pydantic] in
theorem paysCommitted {x : Transaction} (uncommitted : Uncommitted pid (.sendMoney userId request redisClient) w)
    (here : x ∈ w.tables.transactions) (key : x.idempotencyKey = request.idempotencyKey) :
    Paid request (TransactionResponse.modelValidate x) w ∧ Refreshed pid w ∧
      (redisClient = true → Settled pid w) :=
  ⟨⟨x,here,key,rfl⟩,uncommitted.refreshed,fun _ => uncommitted.wrecked.1⟩

omit [Pydantic] in
theorem paysRefused {e : Exn} (uncommitted : Uncommitted pid (.sendMoney userId request redisClient) w)
    (blame : Blame pid w userId request e) : Wrecked pid w ∧ Blame pid w userId request e :=
  ⟨uncommitted.wrecked,blame⟩

/-! After the commit. -/

theorem endsStoreKey {goal : Except Exn Unit → Session → World → Prop} {call : Call} {ids : List UUID}
    (intact : Intact w) (committed : Committed pid call ids w) {x : Transaction}
    (here : x ∈ w.tables.transactions)
    (done : ∀ w₂, Grows w w₂ → Intact w₂ → Committed pid call ids w₂ → goal (.ok ()) l w₂) :
    Ends machine outline pid (IdempotencyService.storeKey x.idempotencyKey
      (TransactionResponse.modelValidate x).modelDump 201 true) l w goal := by
  apply endsCatch intact
  refine endsRedis rfl committed ?_ (fun w₂ grows intact committed _ _ _ => done w₂ grows intact committed) ?_
  · intro w₁ later intact₁ _
    exact .inl ⟨x,(intact.evolves intact₁ later.grows).transactions.subset here,rfl,rfl⟩
  · intro w₁ choice r s' _ _ _ ran intact' grows committed₂
    cases ran
    exact done _ grows intact' committed₂

theorem endsAfterCommit {goal : Except Exn Unit → Session → World → Prop} {sid rid : UUID} (intact : Intact w)
    (committed : Committed pid (.sendMoney userId request redisClient) [sid,rid] w)
    (sender : Loaded l sid) (receiver : Loaded l rid) {x : Transaction} (here : x ∈ w.tables.transactions)
    (key : x.idempotencyKey = request.idempotencyKey)
    (wrecked : ∀ w₂, Intact w₂ → w₂.calls[pid]? = some (.sendMoney userId request redisClient) →
      Wrecked pid w₂ → Failed pid w₂ → goal (.error .redisError) l w₂)
    (done : ∀ w₂, Grows w w₂ → Intact w₂ →
      Committed pid (.sendMoney userId request redisClient) [sid,rid] w₂ →
      (redisClient = true → Settled pid w₂) → goal (.ok ()) l w₂) :
    Ends machine outline pid (PaymentService.afterCommit ⟨sid⟩ ⟨rid⟩ request
      (TransactionResponse.modelValidate x) redisClient) l w goal := by
  obtain ⟨a,loadedA,keyA⟩ := sender
  obtain ⟨b,loadedB,keyB⟩ := receiver
  cases redisClient with
  | false => exact done w (.refl w) intact committed (fun h => by contradiction)
  | true =>
    apply endsThen intact
    rw [← key]
    refine endsStoreKey intact committed here ?_
    intro w₁ grows₁ intact₁ committed₁
    refine endsLocal (idLoaded loadedA) ?_
    refine endsLocal (idLoaded loadedB) ?_
    refine endsRedis rfl committed₁ ?_ (fun w₂ _ intact₂ committed₂ broken spoiled failed =>
      wrecked w₂ intact₂ committed₂.call ⟨.inr broken,fun _ => spoiled⟩ failed) ?_
    · intro w₂ _ _ committed₂
      refine ⟨committed₂.commit,?_⟩
      intro key inside
      simp only [List.mem_cons,List.not_mem_nil,or_false] at inside
      rcases inside with rfl | rfl <;> exact ⟨_,.inl rfl⟩
    · intro w₂ choice r s' _ _ _ ran intact' grows committed₂
      cases ran
      refine done _ (grows₁.trans grows) intact' committed₂ (fun _ => committed₂.settled (.inl ?_))
      intro id inside
      refine ⟨_,calledLast,rfl,?_⟩
      simp only [List.mem_cons,List.not_mem_nil,or_false] at inside
      rcases inside with rfl | rfl <;> simp [Record.invalidates,keyA,keyB,inlineBalance]

/-! The handlers. -/

theorem endsGiveUp {e : Exn} (intact : Intact w)
    (call : w.calls[pid]? = some (.sendMoney userId request redisClient)) (wrecked : Wrecked pid w)
    (blame : Blame pid w userId request e) :
    Ends machine outline pid (do
      rollback
      throw e) l w (Pays pid userId request redisClient) := by
  apply endsThen intact
  apply endsThen intact
  apply endsCall
  intro w₁ later intact₁
  refine ⟨⟨?_,⟨isNot rfl,isNot rfl⟩,startedOf (later.grows.call call)⟩,?_⟩
  · intro r wanted
    simp [Op.wants] at wanted
  · intro choice r s' attempted intact'
    have wal := effectWal (attemptEffect attempted) (by decide)
    have wrecked₁ : Wrecked pid (w₁.called pid .rollback choice.fault r s') := (wrecked.later later).called wal
    rcases attemptCases attempted with ⟨fault,ran⟩ | ⟨fault,rfl⟩
    · cases ran
      exact ⟨wrecked₁,(blame.grows later.grows).grows (calledGrows (List.prefix_refl _))⟩
    · exact ⟨wrecked₁,.failed rfl (calledFailed fault)⟩

theorem endsOnIntegrityError (intact : Intact w)
    (uncommitted : Uncommitted pid (.sendMoney userId request redisClient) w)
    (why : Blame pid w userId request .duplicateTransaction ∨
      ∃ x ∈ w.tables.transactions, x.idempotencyKey = request.idempotencyKey) :
    Ends machine outline pid (PaymentService.onIntegrityError request) l w
      (Pays pid userId request redisClient) := by
  apply endsThen intact
  refine endsRollback intact uncommitted
    (fun w₂ _ _ uncommitted₂ failed₂ => paysRefused uncommitted₂ (.failed rfl failed₂)) ?_
  intro w₁ grows₁ intact₁ working₁
  apply endsThen intact₁
  refine endsGetByIdempotencyKey rfl rfl intact₁ working₁ rfl
    (fun w₂ _ _ uncommitted₂ failed₂ => paysRefused uncommitted₂ (.failed rfl failed₂)) ?_ ?_ ?_
  · intro w₂ _ _ working₂ unfit
    exact paysRefused working₂.toUncommitted (.text (by simp [unfit]))
  · intro w₂ grows₂ intact₂ working₂ _ none _
    have grows := grows₁.trans grows₂
    rcases why with blame | ⟨x,here,key⟩
    · exact paysRefused working₂.toUncommitted (blame.grows grows)
    · have found := Tables.transactionsByKeyMem.mpr
        ⟨(intact.evolves intact₂ grows).transactions.subset here,key⟩
      rw [none] at found
      contradiction
  · intro w₂ x _ _ working₂ here key
    exact paysCommitted working₂.toUncommitted here key

theorem endsExpiredAttempts {sid rid : UUID} (left : Nat) (intact : Intact w)
    (working : Working pid (.sendMoney userId request redisClient) [] [] w)
    (expired : ∀ a, l.identityMap sid ≠ some (.loaded a)) (blame : Blame pid w userId request .optimisticLock) :
    Ends machine outline pid (PaymentService.transferAttempts ⟨sid⟩ ⟨rid⟩ request redisClient left) l w
      (Pays pid userId request redisClient) := by
  cases left with
  | zero => exact paysRefused working.toUncommitted blame
  | succ left =>
    apply endsCatch intact
    exact endsRaised (idMissing expired) (endsGiveUp intact working.call working.wrecked blame.expired)

theorem endsTransferAttempts {srow rrow : Wallet} {n m : Nat} (left : Nat) (intact : Intact w)
    (working : Working pid (.sendMoney userId request redisClient) [] [] w) (clean : l.dirty = [])
    (different : srow.id ≠ rrow.id) (sender : Object pid l w srow n) (senderOwner : srow.userId = userId)
    (receiver : Object pid l w rrow m) (receiverOwner : rrow.userId = request.receiverId) :
    Ends machine outline pid (PaymentService.transferAttempts ⟨srow.id⟩ ⟨rrow.id⟩ request redisClient
      (left + 1)) l w (Pays pid userId request redisClient) := by
  apply endsCatch intact
  refine endsLocal (idLoaded sender.loaded) ?_
  refine endsLocal (idLoaded receiver.loaded) ?_
  apply endsThen intact
  refine endsExecuteTransfer intact working clean different sender senderOwner receiver receiverOwner
    ⟨?_,?_,?_,?_⟩
  · intro e l₁ w₁ intact₁ uncommitted₁ _ blame
    cases e with
    | integrityError c => exact endsOnIntegrityError intact₁ uncommitted₁ (.inl blame.duplicate)
    | optimisticLock =>
      apply endsThen intact₁
      refine endsRollback intact₁ uncommitted₁
        (fun w₂ _ _ uncommitted₂ failed₂ => paysRefused uncommitted₂ (.failed rfl failed₂)) ?_
      intro w₂ grows₂ intact₂ working₂
      have blame₂ := blame.grows grows₂
      by_cases last : left = 0
      · rw [if_pos last]
        exact paysRefused working₂.toUncommitted blame₂
      · rw [if_neg last]
        -- the rollback has expired the sender, so the next attempt raises at once
        exact endsExpiredAttempts left intact₂ working₂ (expiredMissing _) blame₂
    | _ => exact endsGiveUp intact₁ uncommitted₁.call uncommitted₁.wrecked blame
  · intro l₁ w₁ x intact₁ uncommitted₁ _ here key
    -- the key is in use by now, so the recovery finds its payment
    exact endsOnIntegrityError intact₁ uncommitted₁ (.inr ⟨x,here,key⟩)
  · intro l₁ w₁ intact₁ call₁ _ wrecked failed
    exact endsGiveUp intact₁ call₁ wrecked (.failed rfl failed)
  · intro l₁ w₁ x intact₁ committed₁ _ loadedS loadedR here key
    apply endsThen intact₁
    refine endsAfterCommit intact₁ committed₁ loadedS loadedR here key
      (fun w₂ intact₂ call₂ wrecked failed => endsGiveUp intact₂ call₂ wrecked (.failed rfl failed)) ?_
    intro w₂ grows₂ intact₂ committed₂ settled
    exact ⟨⟨x,(intact₁.evolves intact₂ grows₂).transactions.subset here,key,rfl⟩,committed₂.refreshed,settled⟩

/-! Before the transfer. -/

theorem endsValidateAndTransfer (intact : Intact w)
    (working : Working pid (.sendMoney userId request redisClient) [] [] w) :
    Ends machine outline pid (PaymentService.validateAndTransfer userId request redisClient) Session.new w
      (Pays pid userId request redisClient) := by
  apply endsThen intact
  refine endsGetByUserId intact working rfl userId
    (fun w₂ _ _ uncommitted₂ failed₂ => paysRefused uncommitted₂ (.failed rfl failed₂)) ?_ ?_
  · intro w₂ n _ _ working₂ none
    exact paysRefused working₂.toUncommitted (.missing (.inl rfl) none)
  intro w₁ srow n _ intact₁ working₁ read _ senderOwner
  have clean : (Session.new.merge srow).dirty = [] := mergeClean _ _
  apply endsThen intact₁
  refine endsGetByUserId intact₁ working₁ clean request.receiverId
    (fun w₂ _ _ uncommitted₂ failed₂ => paysRefused uncommitted₂ (.failed rfl failed₂)) ?_ ?_
  · intro w₂ m _ _ working₂ none
    exact paysRefused working₂.toUncommitted (.missing (.inr rfl) none)
  intro w₂ rrow m grows₂ intact₂ working₂ read' _ receiverOwner
  have sender : Object pid ((Session.new.merge srow).merge rrow) w₂ srow n :=
    ⟨mergeLoaded rrow (newMerge srow),read.grows grows₂⟩
  obtain ⟨b,loaded⟩ := mergeSelf (Session.new.merge srow) rrow
  refine endsLocal (idLoaded sender.loaded) ?_
  by_cases same : srow.id = rrow.id
  · have object := sender.loaded
    rw [same] at object
    refine endsLocal (idLoaded object) ?_
    rw [if_pos rfl]
    refine paysRefused working₂.toUncommitted (.self ?_)
    obtain ⟨current,here,becomes⟩ := (intact₂.evolved n).wallets srow sender.read.row
    rw [← receiverOwner,← senderOwner,← readOwner intact₂ sender.read here becomes.id.symm,
      readOwner intact₂ read' here (becomes.id.symm.trans same)]
  · have receiver : Object pid ((Session.new.merge srow).merge rrow) w₂ rrow m := by
      refine ⟨?_,read'⟩
      have fresh : (Session.new.merge srow).identityMap rrow.id = none :=
        Function.update_of_ne (Ne.symm same) ..
      simp only [Session.merge] at fresh ⊢
      rw [fresh]
      exact Function.update_self ..
    refine endsLocal (idLoaded receiver.loaded) ?_
    rw [if_neg (show srow.attributes.id ≠ rrow.attributes.id from same)]
    exact endsTransferAttempts 2 intact₂ working₂ ((mergeClean ..).trans clean) same sender senderOwner receiver
      receiverOwner

theorem endsCheckKey {goal : Except Exn (Option Json) → Session → World → Prop} {call : Call} (intact : Intact w)
    (working : Working pid call [] [] w) {key : String}
    (missed : ∀ w₂, Intact w₂ → Working pid call [] [] w₂ → goal (.ok none) l w₂)
    (hit : ∀ w₂ x, Intact w₂ → Working pid call [] [] w₂ → x ∈ w₂.tables.transactions →
      x.idempotencyKey = key → goal (.ok (some (replyDocument x))) l w₂) :
    Ends machine outline pid (IdempotencyService.checkKey key redisClient) l w goal := by
  unfold IdempotencyService.checkKey
  by_cases empty : key = ""
  · rw [if_pos empty]
    exact missed w intact working
  rw [if_neg empty]
  cases redisClient with
  | false => exact missed w intact working
  | true =>
    apply endsCatch intact
    apply endsThen intact
    refine endsEarly rfl working (by intro r wanted; simp [Op.wants] at wanted)
      (fun _ _ _ _ => ⟨isNot rfl,isNot rfl⟩)
      (fun w₂ _ intact _ _ working => missed w₂ intact (working rfl)) ?_
    intro w₁ choice r s' _ intact₁ working₁ ran intact'
    cases ran
    have working₂ : ∀ r, Working pid call [] []
        (w₁.called pid (.redisGet (IdempotencyService.cacheKey key)) .none r w₁.stores) :=
      fun r => working₁.calledSame rfl rfl
    cases cached : w₁.stores.redis (IdempotencyService.cacheKey key) with
    | none =>
      rw [cached] at intact'
      exact missed _ intact' (working₂ _)
    | some text =>
      rw [cached] at intact'
      obtain ⟨x,here,same,rfl⟩ := intact₁.replies key text cached
      simp only [if_neg (replyNonempty x),replyLoads]
      exact hit _ x intact' (working₂ _) here same

theorem endsSendMoney (intact : Intact w)
    (working : Working pid (.sendMoney userId request redisClient) [] [] w) :
    Ends machine outline pid (PaymentService.sendMoney userId request redisClient) Session.new w
      (Settles pid userId request redisClient) := by
  apply endsThen intact
  refine endsCheckKey intact working ?_ ?_
  · intro w₁ intact₁ working₁
    apply endsThen intact₁
    refine endsGetByIdempotencyKey rfl rfl intact₁ working₁ rfl
      (fun w₂ _ _ uncommitted₂ failed₂ => ⟨uncommitted₂.wrecked,.failed rfl failed₂⟩) ?_ ?_ ?_
    · intro w₂ _ _ working₂ unfit
      exact ⟨working₂.wrecked,.text (by simp [unfit])⟩
    · intro w₂ _ intact₂ working₂ _ _ missed
      refine endsMono (endsGrowing (fun _ _ grows h => Missed.grows h grows)
        (endsValidateAndTransfer intact₂ working₂) missed) intact₂ ?_
      rintro (e | t) l' w₃ _ ⟨paid,missed₃⟩
      · exact ⟨paid.1,.later missed₃ paid.2⟩
      · exact paid
    · intro w₂ x _ _ working₂ here key
      exact paysCommitted working₂.toUncommitted here key
  · intro w₁ x _ working₁ here key
    simp only [replyTruthy]
    unfold Ends
    rw [replayReply]
    exact paysCommitted working₁.toUncommitted here key

end
end PaymentSystem
