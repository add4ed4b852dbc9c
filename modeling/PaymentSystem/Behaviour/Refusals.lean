import PaymentSystem.Base.Stages
import PaymentSystem.Service.ErrorHandler
import PaymentSystem.System.Request

/-! Where a request may be refused. Until it calls something that stores for good it may
end in any exception; from then on in none that is answered as the client's error. -/
namespace PaymentSystem
open Numerics (Decimal)
open Interleaving (Exchange Traces)
open Interleaving.Task

def Op.stores : Op → Bool
  | .commit => true
  | .redisSetex _ _ _ => true
  | .redisDelete _ => true
  | _ => false

def Op.checks : Op → Bool
  | .selectTransactionByKey _ => true
  | .selectTransactionsOf _ _ _ => true
  | .hashPassword _ => true
  | .updateWallet _ _ _ _ => true
  | .flushWallet _ _ => true
  | .insertUser _ _ _ => true
  | .insertWallet _ => true
  | .insertTransaction _ => true
  | _ => false

def Exn.ofCheck : Exn → Bool
  | .integrityError _ => true
  | .dataError => true
  | .nullPasswordError => true
  | .staleData => true
  | _ => false

def Exn.isIntegrity : Exn → Bool
  | .integrityError _ => true
  | _ => false

def Credible (x : Exchange Op Res) : Prop :=
  ∀ e, x.reply = .error e → e = x.op.failure ∨ (x.op.checks = true ∧ e.ofCheck = true)

theorem performCredible {pid : Nat} {s s' : Stores} {choice : Choice} {op : Op} {e : Exn}
    (h : perform pid s choice op = some (.error e,s')) : op.checks = true ∧ e.ofCheck = true := by
  cases op with
  | selectWalletForUpdate id =>
    obtain ⟨db',ran,_⟩ := writesSome h
    obtain ⟨out,_,same⟩ := Option.map_eq_some_iff.mp ran
    cases same
  | selectTransactionByKey | selectTransactionsOf | hashPassword =>
    cases (checkedError h).1
    exact ⟨rfl,rfl⟩
  | updateWallet id expected balance version =>
    obtain ⟨db',ran,_⟩ := writesSome h
    rcases Database.updateWalletCases ran with ⟨_,⟨same,_⟩ | ⟨same,_⟩ | ⟨same,_⟩⟩ | ⟨_,same,_⟩ <;> cases same <;>
      exact ⟨rfl,rfl⟩
  | flushWallet id balance =>
    obtain ⟨db',ran,_⟩ := writesSome h
    simp only [Database.flushWallet] at ran
    split at ran
    · cases ran; exact ⟨rfl,rfl⟩
    · split at ran
      · cases ran; exact ⟨rfl,rfl⟩
      · split at ran
        · contradiction
        · split at ran <;> cases ran
          exact ⟨rfl,rfl⟩
  | insertUser email passwordHash fullName =>
    obtain ⟨db',ran,_⟩ := writesSome h
    simp only [Database.insertUser] at ran
    split at ran
    · cases ran; exact ⟨rfl,rfl⟩
    · split at ran <;> cases ran
      exact ⟨rfl,rfl⟩
  | insertWallet userId =>
    obtain ⟨db',ran,_⟩ := writesSome h
    simp only [Database.insertWallet] at ran
    split at ran
    · cases ran; exact ⟨rfl,rfl⟩
    · split at ran
      · contradiction
      · cases ran; exact ⟨rfl,rfl⟩
      · split at ran <;> cases ran
        exact ⟨rfl,rfl⟩
  | insertTransaction new =>
    obtain ⟨db',ran,_⟩ := writesSome h
    rcases Database.insertTransactionCases ran with
      ⟨_,⟨same,_⟩ | ⟨same,_⟩ | ⟨same,_⟩ | same | ⟨same,_⟩ | ⟨same,_⟩ | ⟨same,_⟩⟩ | ⟨_,_,same,_⟩ <;>
      cases same <;> exact ⟨rfl,rfl⟩
  | _ => cases h

theorem attemptCredible {pid : Nat} {s s' : Stores} {choice : Choice} {op : Op} {r : Res op}
    (h : attempt pid s op choice = some (r,s')) : Credible ⟨op,r⟩ := by
  intro e same
  rcases attemptCases h with ⟨_,ran⟩ | ⟨_,failed⟩
  · exact .inr (performCredible (show perform pid s choice op = some (.error e,s') from same ▸ ran))
  · exact .inl (Except.error.inj ((show r = .error e from same).symm.trans failed))

def Untouched (trace : List (Exchange Op Res)) : Prop := ∀ x ∈ trace, x.op.stores = false

def EndsIn (kind : Exn → Bool) {α : Type} : Except Exn α → Prop
  | .error e => kind e = true
  | .ok _ => False

def Exn.decides (e : Exn) : Bool := e.refuses || e.isIntegrity

abbrev Careful {α : Type} (marks : Except Exn α → Prop) (t : Py α) : Prop :=
  Heeds Credible (fun l : Session => l.dirty = []) (fun l => l.dirty = []) Untouched marks t

abbrev Firm {α : Type} (marks : Except Exn α → Prop) (t : Py α) : Prop :=
  Never Credible (fun l : Session => l.dirty = []) (fun l => l.dirty = []) marks t

abbrev Mild {α : Type} (t : Py α) : Prop := Careful (fun _ => True) t

section
variable {α β : Type} {kind : Exn → Bool} {marks : Except Exn α → Prop}

theorem mildAwait {op : Op} (mild : op.stores = false) : Mild (await op) := by
  apply staysAwait
  intro trace r untouched x here
  rcases List.mem_append.mp here with here | here
  · exact untouched x here
  · rw [List.mem_singleton.mp here]
    exact mild

theorem mildExecute {op : Op} (mild : op.stores = false) : Mild (execute op) := by
  intro l trace clean untouched
  unfold Traced Interleaving.Task.Ends
  rw [executeClean clean]
  exact mildAwait mild l trace clean untouched

theorem mildRollback : Mild rollback :=
  heedsThen (mildAwait rfl) (fun _ => heedsChange (fun _ _ => rfl))

theorem mildOne (rows : List α) : Mild (scalarOneOrNone rows) := by
  unfold scalarOneOrNone
  split
  · exact heedsPure _
  · exact heedsPure _
  · exact heedsThrow _

theorem mildObjects (rows : List Wallet) : Mild (objects rows) :=
  heedsThen (heedsChange (fun l clean => (mergesClean rows l).trans clean)) (fun _ => heedsPure _)

theorem staysAttributes {fit : Session → Prop} (ref : WalletRef) : Stays Credible fit fit Untouched ref.attributes := by
  refine heedsThen heedsRead ?_
  intro session
  split
  · exact heedsPure _
  · exact heedsThrow _

theorem staysModelValidate {fit : Session → Prop} (wallet : WalletRef) :
    Stays Credible fit fit Untouched (WalletResponse.modelValidate wallet) :=
  heedsThen (staysAttributes wallet) (fun _ => heedsPure _)

theorem mildId (ref : WalletRef) : Mild ref.id := heedsThen (staysAttributes ref) (fun _ => heedsPure _)

theorem mildBalance (ref : WalletRef) : Mild ref.balance := heedsThen (staysAttributes ref) (fun _ => heedsPure _)

theorem mildVersion (ref : WalletRef) : Mild ref.version := heedsThen (staysAttributes ref) (fun _ => heedsPure _)

theorem mildArithmetic (d : Option Decimal) : Mild (arithmetic d) := by
  unfold arithmetic
  split
  · exact heedsPure _
  · exact heedsThrow _

theorem mildCatch {t : Py α} {f : Exn → Py α} (first : Mild t) (rest : ∀ e, Mild (f e)) : Mild (tryCatch t f) :=
  heedsCatch first (fun e _ => rest e) (fun _ not => absurd trivial not) (fun _ _ => trivial)

theorem carefulOf {t : Py α} (mild : Mild t) : Careful marks t := heedsWeaken mild (fun _ _ => trivial)

/-! From the first call that stores on. -/

theorem firmRaised {t : Py α} {marks : Except Exn β → Prop} (firm : Firm (EndsIn kind) t)
    (ofKind : ∀ e, marks (.error e) → kind e = true) : Firm (raised marks) t := by
  refine neverWeaken firm ?_
  rintro (e | a) marked
  · exact ofKind e marked
  · exact marked

theorem firmThen {t : Py α} {f : α → Py β} (first : Firm (EndsIn kind) t) (rest : ∀ a, Firm (EndsIn kind) (f a)) :
    Firm (EndsIn kind) (t >>= f) :=
  neverThen (firmRaised first (fun _ ofKind => ofKind)) rest

theorem firmPure (a : α) : Firm (EndsIn kind) (pure a : Py α) := neverPure (fun ends => ends)

theorem firmThrow {e : Exn} (not : kind e = false) : Firm (EndsIn kind) (throw e : Py α) := by
  apply neverThrow
  simp only [EndsIn,not]
  simp

theorem firmAwait {op : Op} (unchecked : op.checks = false) : Firm (EndsIn Exn.decides) (await op) := by
  apply neverAwait
  rintro (e | v) credible ends
  · rcases credible e rfl with same | ⟨checks,_⟩
    · rw [same] at ends
      cases op <;> simp [EndsIn,Exn.decides,Exn.refuses,Exn.httpException,Exn.isIntegrity,Op.failure,Op.isRedis] at ends
    · rw [unchecked] at checks
      contradiction
  · exact ends

theorem firmStatement {op : Op} {marks : Except Exn op.Val → Prop} (firm : Firm marks (await op)) :
    Firm marks (execute op) := by
  intro l trace clean
  unfold Traced Interleaving.Task.Ends
  rw [executeClean clean]
  exact firm l trace clean

theorem firmExecute {op : Op} (unchecked : op.checks = false) : Firm (EndsIn Exn.decides) (execute op) :=
  firmStatement (firmAwait unchecked)

theorem firmCommitted {marks : Except Exn Unit → Prop} (firm : Firm marks (await .commit)) : Firm marks commit := by
  intro l trace clean
  unfold Traced Interleaving.Task.Ends
  rw [commitClean clean]
  exact firm l trace clean

theorem firmCommit : Firm (EndsIn Exn.decides) commit := firmCommitted (firmAwait rfl)

theorem firmRollback : Firm (EndsIn Exn.decides) rollback :=
  firmThen (firmAwait rfl) (fun _ => neverChange (fun _ _ => rfl) (fun ends => ends))

theorem firmAttributes (ref : WalletRef) : Firm (EndsIn Exn.decides) ref.attributes := by
  refine neverThen (neverRead (fun _ not => not)) ?_
  intro session
  split
  · exact firmPure _
  · exact firmThrow rfl

theorem firmId (ref : WalletRef) : Firm (EndsIn Exn.decides) ref.id := firmThen (firmAttributes ref) (fun _ => firmPure _)

theorem firmModelValidate (wallet : WalletRef) : Firm (EndsIn Exn.decides) (WalletResponse.modelValidate wallet) :=
  firmThen (firmAttributes wallet) (fun _ => firmPure _)

theorem firmSwallowed {t : Py α} (a : α) (any : Firm (fun _ => False) t) :
    Firm (EndsIn kind) (tryCatch t (fun _ => pure a)) := by
  refine neverCatch (neverWeaken any ?_) (fun _ => firmPure a)
  rintro (e | b) marked
  · exact marked
  · exact marked

theorem firmCache (op : Op) (a : op.Val) : Firm (EndsIn kind) (tryCatch (await op) (fun _ => pure a)) :=
  firmSwallowed a (neverAwait (fun _ _ not => not))

end

/-! The services. -/

section
variable {marks : Except Exn WalletResponse → Prop}

theorem mildGetByUserId (userId : UUID) : Mild (WalletRepository.getByUserId userId) :=
  heedsThen (mildExecute rfl) (fun _ => heedsThen (mildObjects _) (fun _ => mildOne _))

theorem mildUpdateBalance (id : UUID) (balance : Decimal) (version : Int) :
    Mild (WalletRepository.updateBalance id balance version) := by
  refine heedsThen (mildExecute rfl) (fun _ => heedsThen (heedsChange ?_) (fun _ => heedsPure _))
  intro l clean
  exact (synchronizeClean l _ _ _ _).trans clean

theorem mildGetByKey (key : String) : Mild (TransactionRepository.getByIdempotencyKey key) :=
  heedsThen (mildExecute rfl) (fun _ => mildOne _)

theorem firmRefreshUser (user : User) : Firm (EndsIn Exn.decides) (refreshUser user) := by
  refine firmThen (firmExecute rfl) ?_
  intro rows
  split
  · exact firmPure _
  · exact firmThrow rfl

theorem firmRefreshWallet (ref : WalletRef) : Firm (EndsIn Exn.decides) (refreshWallet ref) := by
  refine firmThen (firmExecute rfl) ?_
  intro rows
  split
  · exact neverChange (fun _ clean => clean) (fun ends => ends)
  · exact firmThrow rfl

theorem firmRefreshTransaction (transaction : Transaction) :
    Firm (EndsIn Exn.decides) (refreshTransaction transaction) := by
  refine firmThen (firmExecute rfl) ?_
  intro rows
  split
  · exact firmPure _
  · exact firmThrow rfl

theorem carefulRegister (data : UserCreate) : Careful (EndsIn Exn.decides) (UserService.register data) := by
  refine heedsThen (heedsThen (mildExecute rfl) (fun _ => mildOne _)) ?_
  intro existing
  split
  · exact heedsThrow _
  · refine heedsThen (mildAwait rfl) (fun passwordHash => ?_)
    refine heedsThen (mildExecute rfl) (fun user => ?_)
    refine heedsThen (mildExecute rfl) (fun _ => ?_)
    exact heedsOfNever (firmThen firmCommit (fun _ => firmThen (firmRefreshUser user) (fun _ => firmPure _)))

theorem firmInvalidate (wallet : WalletRef) (redisClient : Bool) :
    Firm (EndsIn Exn.decides) (WalletService.invalidateAfterCommit wallet redisClient) := by
  unfold WalletService.invalidateAfterCommit
  split
  · refine firmThen (firmId wallet) (fun id => ?_)
    refine firmThen (firmCache (.redisDelete _) ()) (fun _ => ?_)
    exact firmThen (firmId wallet) (fun id => firmCache (.redisDelete _) ())
  · exact firmPure _

def Undone : Except Exn (Option WalletResponse) → Prop
  | .error e => e.decides = true
  | .ok done => done = none

theorem carefulTopUpOnce (userId : UUID) (amount : Decimal) (redisClient : Bool) :
    Careful Undone (WalletService.topUpOnce userId amount redisClient) := by
  refine heedsThen (mildGetByUserId userId) ?_
  intro found
  split
  · exact heedsThrow _
  · rename_i wallet
    refine heedsThen (mildBalance wallet) (fun balance => ?_)
    refine heedsThen (mildArithmetic _) (fun newBalance => ?_)
    refine heedsThen (mildId wallet) (fun walletId => ?_)
    refine heedsThen (mildVersion wallet) (fun version => ?_)
    refine heedsThen (mildUpdateBalance _ _ _) (fun updated => ?_)
    split
    · apply heedsOfNever
      refine neverThen (firmRaised firmCommit (fun _ decides => decides)) (fun _ => ?_)
      refine neverThen (firmRaised (firmInvalidate wallet redisClient) (fun _ decides => decides)) (fun _ => ?_)
      refine neverThen (firmRaised (firmRefreshWallet wallet) (fun _ decides => decides)) (fun _ => ?_)
      refine neverThen (firmRaised (firmModelValidate wallet) (fun _ decides => decides)) (fun response => ?_)
      exact neverPure (by simp [Undone])
    · exact carefulOf (heedsThen mildRollback (fun _ => heedsPure _))

theorem carefulTopUpAttempts (userId : UUID) (amount : Decimal) (redisClient : Bool) (left : Nat) :
    Careful (EndsIn Exn.decides) (WalletService.topUpAttempts userId amount redisClient left) := by
  induction left with
  | zero => exact heedsThrow _
  | succ left ih =>
    refine heedsBind (carefulTopUpOnce userId amount redisClient) ?_ ?_ (fun _ decides => decides)
    · rintro done undone
      cases (show done = none from undone)
      exact ih
    · intro done kept
      cases done with
      | none => exact absurd rfl kept
      | some response => exact firmPure response

theorem mildGetBalance (id : UUID) : Mild (CacheManager.getBalance id) := by
  refine mildCatch (heedsThen (mildAwait rfl) ?_) (fun _ => heedsPure _)
  intro cached
  split
  · split
    · exact heedsPure _
    · exact heedsThrow _
  · exact heedsPure _

abbrev CarefulLast {α : Type} (t : Py α) : Prop :=
  Heeds Credible (fun l : Session => l.dirty = []) (fun _ => True) Untouched (EndsIn Exn.decides) t

theorem carefulGetWallet (userId : UUID) (redisClient : Bool) :
    CarefulLast (WalletService.getWallet userId redisClient) := by
  have validated : ∀ wallet, CarefulLast (WalletResponse.modelValidate wallet) := fun wallet =>
    heedsLoose (heedsWeaken (staysModelValidate wallet) (fun _ _ => trivial))
  refine heedsLast (mildGetByUserId userId) ?_
  intro found
  split
  · exact heedsLoose (heedsThrow _)
  · rename_i wallet
    split
    · refine heedsLast (mildId wallet) (fun walletId => ?_)
      refine heedsLast (mildGetBalance walletId) ?_
      intro cached
      split
      · exact heedsAfterChange (heedsWeaken (staysModelValidate wallet) (fun _ _ => trivial))
      · refine heedsLast (mildBalance wallet) (fun balance => ?_)
        exact heedsLoose (heedsOfNever (firmThen (firmCache (.redisSetex _ _ _) ()) (fun _ =>
          firmModelValidate wallet)))
    · exact validated wallet

theorem carefulGetBalanceFast (userId : UUID) (redisClient : Bool) :
    Careful (EndsIn Exn.decides) (WalletService.getBalanceFast userId redisClient) := by
  refine heedsThen (mildGetByUserId userId) ?_
  intro found
  split
  · exact heedsThrow _
  · rename_i wallet
    split
    · refine heedsThen (mildId wallet) (fun walletId => ?_)
      refine heedsThen (mildGetBalance walletId) ?_
      intro cached
      split
      · exact heedsPure _
      · refine heedsThen (mildBalance wallet) (fun balance => ?_)
        exact heedsOfNever (firmThen (firmCache (.redisSetex _ _ _) ()) (fun _ => firmPure balance))
    · exact carefulOf (mildBalance wallet)

theorem mildHistory (userId : UUID) (page pageSize : Nat) (status : Option String) :
    Mild (PaymentApi.getTransactionHistory userId page pageSize status) := by
  refine heedsThen (mildGetByUserId userId) ?_
  intro found
  split
  · exact heedsPure _
  · rename_i wallet
    refine heedsThen (mildId wallet) (fun walletId => ?_)
    refine heedsThen (heedsThen (mildExecute rfl) (fun _ => heedsThen (mildExecute rfl) (fun _ => heedsPure _))) ?_
    exact fun _ => heedsPure _

theorem mildGetTransaction (userId transactionId : UUID) : Mild (PaymentApi.getTransaction userId transactionId) := by
  refine heedsThen (mildGetByUserId userId) ?_
  intro found
  split
  · exact heedsThrow _
  · rename_i wallet
    refine heedsThen (heedsThen (mildExecute rfl) (fun _ => mildOne _)) ?_
    intro existing
    split
    · exact heedsThrow _
    · refine heedsThen (mildId wallet) (fun walletId => ?_)
      split
      · exact heedsThrow _
      · exact heedsPure _

/-! The payment service. -/

theorem mildAdjustBalance (wallet : WalletRef) (change : Decimal → Option Decimal) :
    Mild (PaymentService.adjustBalance wallet change) := by
  refine heedsThen (mildId wallet) (fun id => ?_)
  refine heedsThen (mildBalance wallet) (fun balance => ?_)
  refine heedsThen (mildArithmetic _) (fun newBalance => ?_)
  refine heedsThen (mildVersion wallet) (fun version => ?_)
  refine heedsThen (mildUpdateBalance id newBalance version) (fun ok => ?_)
  split
  · exact heedsThrow _
  · exact heedsPure _

theorem carefulRecordTransfer (sender receiver : WalletRef) (amount : Decimal) (currency key : String)
    (description : Option String) :
    Careful (EndsIn Exn.decides) (PaymentService.recordTransfer sender receiver amount currency key description) := by
  refine heedsThen (mildId sender) (fun senderId => ?_)
  refine heedsThen (mildId receiver) (fun receiverId => ?_)
  refine heedsThen (mildExecute rfl) (fun transaction => ?_)
  exact heedsOfNever (firmThen firmCommit (fun _ =>
    firmThen (firmRefreshTransaction transaction) (fun _ => firmPure _)))

theorem carefulMoveLocked (sender receiver : WalletRef) (amount : Decimal) (currency key : String)
    (description : Option String) :
    Careful (EndsIn Exn.decides) (PaymentService.moveLocked sender receiver amount currency key description) := by
  refine heedsThen (mildBalance sender) (fun balance => ?_)
  split
  · exact heedsThrow _
  · refine heedsThen (mildAdjustBalance sender _) (fun _ => ?_)
    exact heedsThen (mildAdjustBalance receiver _) (fun _ => carefulRecordTransfer _ _ _ _ _ _)

theorem carefulExecuteTransfer (senderId receiverId : UUID) (amount : Decimal) (currency key : String)
    (description : Option String) :
    Careful (EndsIn Exn.decides)
      (PaymentService.executeTransfer senderId receiverId amount currency key description) := by
  have locked : ∀ id, Mild (WalletRepository.getByIdForUpdate id) := fun id =>
    heedsThen (mildExecute rfl) (fun _ => heedsThen (mildObjects _) (fun _ => mildOne _))
  refine heedsThen (locked _) (fun first => ?_)
  refine heedsThen (locked _) (fun second => ?_)
  split
  · refine heedsThen (mildId _) (fun firstId => ?_)
    split
    · exact carefulMoveLocked _ _ _ _ _ _
    · exact carefulMoveLocked _ _ _ _ _ _
  · exact heedsThrow _

theorem mildOnIntegrityError (request : PaymentRequest) : Mild (PaymentService.onIntegrityError request) := by
  refine heedsThen mildRollback (fun _ => ?_)
  refine heedsThen (mildGetByKey request.idempotencyKey) ?_
  intro existing
  split
  · exact heedsPure _
  · exact heedsThrow _

theorem mildCheckKey (key : String) (redisClient : Bool) : Mild (IdempotencyService.checkKey key redisClient) := by
  unfold IdempotencyService.checkKey
  split
  · exact heedsPure _
  · split
    · refine mildCatch (heedsThen (mildAwait rfl) ?_) (fun _ => heedsPure _)
      intro cached
      split
      · split
        · exact heedsPure _
        · split
          · exact heedsPure _
          · exact heedsThrow _
      · exact heedsPure _
    · exact heedsPure _

end

section
variable [Pydantic]

theorem firmAfterCommit (sender receiver : WalletRef) (request : PaymentRequest) (result : TransactionResponse)
    (redisClient : Bool) :
    Firm (EndsIn Exn.decides) (PaymentService.afterCommit sender receiver request result redisClient) := by
  cases redisClient with
  | false => exact firmPure ()
  | true =>
    refine firmThen (firmCache (.redisSetex _ _ _) ()) (fun _ => ?_)
    refine firmThen (firmId sender) (fun senderId => ?_)
    exact firmThen (firmId receiver) (fun receiverId => firmAwait rfl)

theorem carefulAttemptTransfer (sender receiver : WalletRef) (request : PaymentRequest) (redisClient : Bool) :
    Careful (EndsIn Exn.decides) (PaymentService.attemptTransfer sender receiver request redisClient) := by
  refine heedsThen (mildId sender) (fun senderId => ?_)
  refine heedsThen (mildId receiver) (fun receiverId => ?_)
  refine heedsBind (carefulExecuteTransfer _ _ _ _ _ _) (fun _ returned => returned.elim) ?_ (fun _ decides => decides)
  exact fun result _ => firmThen (firmAfterCommit sender receiver request result redisClient) (fun _ => firmPure _)

abbrev Refuses {α : Type} : Except Exn α → Prop := EndsIn Exn.refuses

theorem carefulTransferAttempts (sender receiver : WalletRef) (request : PaymentRequest) (redisClient : Bool)
    (left : Nat) :
    Careful Refuses (PaymentService.transferAttempts sender receiver request redisClient left) := by
  induction left with
  | zero => exact heedsThrow _
  | succ left ih =>
    refine heedsCatch (carefulAttemptTransfer sender receiver request redisClient) ?_ ?_ (fun _ returned => returned)
    · intro e _
      split
      · exact carefulOf (mildOnIntegrityError request)
      · refine heedsThen mildRollback (fun _ => ?_)
        split
        · exact heedsThrow _
        · exact ih
      · exact heedsThen mildRollback (fun _ => heedsThrow _)
    · intro e undecided
      have notRefused : e.refuses = false := by
        simp only [EndsIn,Exn.decides,Bool.or_eq_true,not_or] at undecided
        simpa using undecided.1
      split
      · exact absurd rfl undecided
      · exact absurd rfl undecided
      · refine neverThen (firmRaised firmRollback ?_) (fun _ => firmThrow notRefused)
        intro e' refuses
        simp only [EndsIn] at refuses
        simp [Exn.decides,refuses]

theorem carefulSendMoney (userId : UUID) (request : PaymentRequest) (redisClient : Bool) :
    Careful Refuses (PaymentService.sendMoney userId request redisClient) := by
  refine heedsThen (mildCheckKey request.idempotencyKey redisClient) ?_
  intro cached
  split
  · unfold PaymentService.replay
    split
    · exact heedsThrow _
    · split
      · exact heedsPure _
      · exact heedsThrow _
  · refine heedsThen (mildGetByKey request.idempotencyKey) ?_
    intro existing
    split
    · exact heedsPure _
    · refine heedsThen (mildGetByUserId userId) ?_
      intro foundSender
      split
      · exact heedsThrow _
      · rename_i sender
        refine heedsThen (mildGetByUserId request.receiverId) ?_
        intro foundReceiver
        split
        · exact heedsThrow _
        · rename_i receiver
          refine heedsThen (mildId sender) (fun senderId => ?_)
          refine heedsThen (mildId receiver) (fun receiverId => ?_)
          split
          · exact heedsThrow _
          · exact carefulTransferAttempts sender receiver request redisClient PaymentService.maxRetryAttempts

end
end PaymentSystem
