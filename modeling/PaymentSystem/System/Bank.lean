import PaymentSystem.Base.Linearization
import PaymentSystem.Guarantees.Registration

/-! What the service is for: a bank that does each operation at once. Its users have one
account each, money comes in by deposits and moves by payments, and a payment is made
once under its key. A refusal names something that is so; it is not owed, since a key
that is in use may answer before anything else is looked at, or after. -/
namespace PaymentSystem
open Numerics (Decimal)

@[ext] structure Bank where
  member : String → Option UserResponse
  account : UUID → Option UUID
  funds : UUID → Int
  payment : String → Option TransactionResponse

namespace Bank

def empty : Bank := ⟨fun _ => none,fun _ => none,fun _ => 0,fun _ => none⟩

inductive Request where
  | join (email fullName : String)
  | deposit (user : UUID) (cents : Int)
  | pay (payer : UUID) (order : PaymentRequest)
  | account (user : UUID)
  | balance (user : UUID)
  | find (user id : UUID)

inductive Reply where
  | joined (member : UserResponse)
  | known
  | deposited (account : UUID)
  | paid (payment : TransactionResponse)
  | same
  | short (available required : String)
  | noAccount
  | account (id : UUID) (balance : Decimal)
  | balance (value : Decimal)
  | notFound
  | notParty
  deriving DecidableEq, Repr

def Request.users : Request → List UUID
  | .join _ _ => []
  | .deposit user _ => [user]
  | .pay payer order => [payer,order.receiverId]
  | .account user => [user]
  | .balance user => [user]
  | .find user _ => [user]

structure Orders (order : PaymentRequest) (sender receiver : UUID) (payment : TransactionResponse) : Prop where
  sender : payment.senderWalletId = sender
  receiver : payment.receiverWalletId = receiver
  amount : payment.amount.Units 2 order.amount.cents
  currency : payment.currency = order.currency
  status : payment.status = "COMPLETED"
  key : payment.idempotencyKey = order.idempotencyKey
  description : payment.description = order.description

inductive Does (b : Bank) : Request → Reply → Bank → Prop where
  | joined {email fullName member account} (freshEmail : b.member email = none)
      (freshUser : b.account member.id = none) (freshAccount : ∀ user, b.account user ≠ some account)
      (emailOf : member.email = email) (nameOf : member.fullName = fullName) (empty : b.funds account = 0) :
      Does b (.join email fullName) (.joined member) {b with
        member := Function.update b.member email (some member),
        account := Function.update b.account member.id (some account)}
  | known {email fullName} (taken : b.member email ≠ none) : Does b (.join email fullName) .known b
  | deposited {user cents account} (holds : b.account user = some account) :
      Does b (.deposit user cents) (.deposited account)
        {b with funds := Function.update b.funds account (b.funds account + cents)}
  | paid {payer order sender receiver payment} (fresh : b.payment order.idempotencyKey = none)
      (new : ∀ key other, b.payment key = some other → other.id ≠ payment.id)
      (payerHolds : b.account payer = some sender) (payeeHolds : b.account order.receiverId = some receiver)
      (apart : sender ≠ receiver) (covered : order.amount.cents ≤ b.funds sender)
      (orders : Orders order sender receiver payment) :
      Does b (.pay payer order) (.paid payment) {b with
        funds := Function.update (Function.update b.funds sender (b.funds sender - order.amount.cents)) receiver
          (b.funds receiver + order.amount.cents),
        payment := Function.update b.payment order.idempotencyKey (some payment)}
  | again {payer order payment} (made : b.payment order.idempotencyKey = some payment) :
      Does b (.pay payer order) (.paid payment) b
  | same {payer order} (one : payer = order.receiverId) : Does b (.pay payer order) .same b
  | short {payer order sender} {value : Decimal} (holds : b.account payer = some sender)
      (less : b.funds sender < order.amount.cents) (inCents : value.Units 2 (b.funds sender)) :
      Does b (.pay payer order) (.short value.str order.amount.value.str) b
  | noAccount {request user} (party : user ∈ request.users) (none : b.account user = none) :
      Does b request .noAccount b
  | account {user id value} (holds : b.account user = some id) (inCents : value.Units 2 (b.funds id)) :
      Does b (.account user) (.account id value) b
  | balance {user id value} (holds : b.account user = some id) (inCents : value.Units 2 (b.funds id)) :
      Does b (.balance user) (.balance value) b
  | found {user id key payment account} (holds : b.account user = some account)
      (made : b.payment key = some payment) (sought : payment.id = id)
      (party : payment.senderWalletId = account ∨ payment.receiverWalletId = account) :
      Does b (.find user id) (.paid payment) b
  | notFound {user id} (absent : ∀ key payment, b.payment key = some payment → payment.id ≠ id) :
      Does b (.find user id) .notFound b
  | notParty {user id key payment account} (holds : b.account user = some account)
      (made : b.payment key = some payment) (sought : payment.id = id)
      (apart : payment.senderWalletId ≠ account ∧ payment.receiverWalletId ≠ account) :
      Does b (.find user id) .notParty b

theorem Does.spends {b b' : Bank} {request : Request} {reply : Reply} {id : UUID} (does : Does b request reply b')
    (deposits : ∀ user cents, request = .deposit user cents → 0 ≤ cents) (less : b'.funds id < b.funds id) :
    ∃ payer order, request = .pay payer order ∧ b.account payer = some id ∧
      b'.funds id = b.funds id - order.amount.cents ∧ order.amount.cents ≤ b.funds id := by
  cases does with
  | @deposited user cents account holds =>
    have given := deposits user cents rfl
    simp only [Function.update_apply] at less
    split at less <;> rename_i same
    · subst same
      omega
    · omega
  | @paid payer order sender receiver payment fresh new holds payeeHolds apart covered orders =>
    have positive := order.amount.positive
    have off : id ≠ receiver := by
      rintro rfl
      simp only [Function.update_self] at less
      omega
    by_cases same : id = sender
    · subst same
      refine ⟨payer,order,rfl,holds,?_,covered⟩
      simp only [Function.update_of_ne off,Function.update_self]
    · simp only [Function.update_of_ne off,Function.update_of_ne same] at less
      omega
  | _ => exact absurd less (by simp)

end Bank

def bank : Linearization.Object Bank Bank.Request Bank.Reply := ⟨Bank.empty,Bank.Does⟩

def Tables.bank (t : Tables) : Bank where
  member := fun email => (t.usersByEmail email).head?.map UserResponse.modelValidate
  account := fun user => (t.walletsByUserId user).head?.map Wallet.id
  funds := fun id => ((t.walletsById id).head?.map (fun w => w.balance.units)).getD 0
  payment := fun key => (t.transactionsByKey key).head?.map TransactionResponse.modelValidate

/-! Looking rows up in it. -/

theorem bankEmpty : Tables.empty.bank = Bank.empty := rfl

structure Tables.Sound (t : Tables) : Prop where
  keyed : t.Keyed
  paired : t.Paired

theorem Legal.sound {calls wal} (h : Legal calls wal) : (replay wal).Sound := ⟨h.keyed,h.paired⟩

section
variable {t : Tables}

theorem memberNone {email : String} (free : t.taken (.email email) = false) : t.bank.member email = none := by
  have none : t.usersByEmail email = [] := by
    apply List.filter_eq_nil_iff.mpr
    intro u here same
    rw [Tables.takenEmail.mpr ⟨u,here,by simpa using same⟩] at free
    contradiction
  simp only [Tables.bank,none,List.head?_nil,Option.map_none]

theorem Tables.Sound.account (sound : t.Sound) {wallet : Wallet} (here : wallet ∈ t.wallets) :
    t.bank.account wallet.userId = some wallet.id := by
  simp only [Tables.bank,sound.keyed.byOwner here,List.head?_cons,Option.map_some]

theorem accountNone {user : UUID} (missing : t.walletsByUserId user = []) : t.bank.account user = none := by
  simp only [Tables.bank,missing,List.head?_nil,Option.map_none]

theorem accountMem {user id : UUID} (holds : t.bank.account user = some id) :
    ∃ wallet ∈ t.wallets, wallet.userId = user ∧ wallet.id = id := by
  obtain ⟨wallet,found,same⟩ := Option.map_eq_some_iff.mp holds
  obtain ⟨here,owner⟩ := Tables.walletsByUserIdMem.mp (List.mem_of_head? found)
  exact ⟨wallet,here,owner,same⟩

theorem Tables.Sound.funds (sound : t.Sound) {wallet : Wallet} (here : wallet ∈ t.wallets) :
    t.bank.funds wallet.id = wallet.balance.units := by
  simp only [Tables.bank,sound.keyed.byId here,List.head?_cons,Option.map_some,Option.getD_some]

theorem fundsNone {id : UUID} (free : t.taken (.wallet id) = false) : t.bank.funds id = 0 := by
  have none : t.walletsById id = [] := by
    apply List.filter_eq_nil_iff.mpr
    intro w here same
    rw [Tables.takenWallet.mpr (List.mem_map.mpr ⟨w,here,by simpa using same⟩)] at free
    contradiction
  simp only [Tables.bank,none,List.head?_nil,Option.map_none,Option.getD_none]

theorem Tables.Sound.payment (sound : t.Sound) {x : Transaction} (here : x ∈ t.transactions) :
    t.bank.payment x.idempotencyKey = some (TransactionResponse.modelValidate x) := by
  simp only [Tables.bank,sound.keyed.byKey here,List.head?_cons,Option.map_some]

theorem paymentMem {key : String} {payment : TransactionResponse} (made : t.bank.payment key = some payment) :
    ∃ x ∈ t.transactions, x.idempotencyKey = key ∧ TransactionResponse.modelValidate x = payment := by
  obtain ⟨x,found,same⟩ := Option.map_eq_some_iff.mp made
  obtain ⟨here,known⟩ := Tables.transactionsByKeyMem.mp (List.mem_of_head? found)
  exact ⟨x,here,known,same⟩

theorem paymentNone {key : String} (free : t.taken (.idempotencyKey key) = false) : t.bank.payment key = none := by
  cases made : t.bank.payment key with
  | none => rfl
  | some payment =>
    obtain ⟨x,here,same,_⟩ := paymentMem made
    rw [Tables.takenKey.mpr ⟨x,here,same⟩] at free
    contradiction

theorem lookupSnoc {α β γ : Type} [DecidableEq β] {f : α → β} {rows : List α} {row : α}
    (fresh : ∀ x ∈ rows, f x ≠ f row) (g : α → γ) (key : β) :
    (((rows ++ [row]).filter (fun x => f x == key)).head?).map g =
      Function.update (fun b => ((rows.filter (fun x => f x == b)).head?).map g) (f row) (some (g row)) key := by
  rw [List.filter_append]
  by_cases same : f row = key
  · subst same
    have none : rows.filter (fun x => f x == f row) = [] :=
      List.filter_eq_nil_iff.mpr (fun x here same => fresh x here (by simpa using same))
    rw [Function.update_self,none]
    simp
  · rw [Function.update_of_ne (Ne.symm same)]
    simp [same]

theorem registeredBank {user : User} {wallet : Wallet} (freshEmail : t.taken (.email user.email) = false)
    (freshWallet : t.taken (.wallet wallet.id) = false) (freshOwner : t.taken (.walletOwner wallet.userId) = false)
    (zero : wallet.balance.units = 0) : (t.applyAll [.insertUser user,.insertWallet wallet]).bank = {t.bank with
      member := Function.update t.bank.member user.email (some (UserResponse.modelValidate user)),
      account := Function.update t.bank.account wallet.userId (some wallet.id)} := by
  have newEmail : ∀ u ∈ t.users, u.email ≠ user.email := fun u here same => by
    rw [Tables.takenEmail.mpr ⟨u,here,same⟩] at freshEmail
    contradiction
  have newOwner : ∀ w ∈ t.wallets, w.userId ≠ wallet.userId := fun w here same => by
    rw [Tables.takenOwner.mpr (List.mem_map.mpr ⟨w,here,same⟩)] at freshOwner
    contradiction
  have newId : ∀ w ∈ t.wallets, w.id ≠ wallet.id := fun w here same => by
    rw [Tables.takenWallet.mpr (List.mem_map.mpr ⟨w,here,same⟩)] at freshWallet
    contradiction
  apply Bank.ext
  · exact funext (lookupSnoc newEmail UserResponse.modelValidate)
  · exact funext (lookupSnoc newOwner Wallet.id)
  · funext id
    have found := lookupSnoc newId (fun w => w.balance.units) id
    change ((((t.wallets ++ [wallet]).filter (fun w => w.id == id)).head?).map (fun w => w.balance.units)).getD 0 =
      t.bank.funds id
    rw [found]
    by_cases same : id = wallet.id
    · rw [same,Function.update_self,fundsNone freshWallet,zero]
      rfl
    · rw [Function.update_of_ne same]
      rfl
  · rfl

theorem movedBank (keyed : t.Keyed) {wallet : Wallet} (here : wallet ∈ t.wallets) (stored : Money) (version : Int) :
    (t.updateWallet wallet.id stored version).bank =
      {t.bank with funds := Function.update t.bank.funds wallet.id stored.units} := by
  apply Bank.ext
  · rfl
  · funext owner
    change ((((t.wallets.map _).filter _).head?).map Wallet.id) = ((t.wallets.filter _).head?).map Wallet.id
    rw [List.filter_map,List.head?_map,Option.map_map]
    have owners : ((fun w : Wallet => w.userId == owner) ∘ fun w => if w.id = wallet.id then
        {w with balance := stored, version := version} else w) = fun w => w.userId == owner := by
      funext w
      simp only [Function.comp]
      split <;> rfl
    have ids : (Wallet.id ∘ fun w => if w.id = wallet.id then {w with balance := stored, version := version} else w) =
        Wallet.id := by
      funext w
      simp only [Function.comp]
      split <;> rfl
    rw [owners,ids]
  · funext id
    change ((((t.updateWallet wallet.id stored version).walletsById id).head?).map _).getD 0 =
      Function.update t.bank.funds wallet.id stored.units id
    by_cases same : id = wallet.id
    · subst same
      have found := (keyed.update wallet.id stored version).byId (Tables.updateWalletSelf here rfl)
      rw [Function.update_self,found]
      rfl
    · have outside : Resource.wallet id ∉ (Write.updateWallet wallet.id stored version).resources := by
        simpa [Write.resources] using same
      rw [Function.update_of_ne same]
      exact congrArg (fun rows : List Wallet => (rows.head?.map (fun w => w.balance.units)).getD 0)
        (Tables.walletsByIdApply outside)
  · rfl

theorem recordedBank {row : Transaction} (freshKey : t.taken (.idempotencyKey row.idempotencyKey) = false) :
    (t.apply (.insertTransaction row)).bank = {t.bank with
      payment := Function.update t.bank.payment row.idempotencyKey (some (TransactionResponse.modelValidate row))} := by
  have newKey : ∀ x ∈ t.transactions, x.idempotencyKey ≠ row.idempotencyKey := fun x here same => by
    rw [Tables.takenKey.mpr ⟨x,here,same⟩] at freshKey
    contradiction
  apply Bank.ext
  · rfl
  · rfl
  · rfl
  · exact funext (lookupSnoc newKey TransactionResponse.modelValidate)

end

/-! The service's calls as operations of the bank. -/

/-- What a call asks of the bank. A balance that the cache may answer is not asked of it,
nor is the history, which counts and lists in two statements. -/
def Call.request : Call → Option Bank.Request
  | .register data => some (.join data.email data.fullName)
  | .topUp userId amount _ => some (.deposit userId amount.cents)
  | .sendMoney userId request _ => some (.pay userId request)
  | .getWallet userId false => some (.account userId)
  | .getBalanceFast userId false => some (.balance userId)
  | .getTransaction userId transactionId => some (.find userId transactionId)
  | _ => none

theorem requestDeposit {call : Call} {user : UUID} {cents : Int} (asked : call.request = some (.deposit user cents)) :
    ∃ amount redisClient, call = .topUp user amount redisClient ∧ cents = amount.cents := by
  unfold Call.request at asked
  split at asked <;> cases asked
  exact ⟨_,_,rfl,rfl⟩

theorem requestPay {call : Call} {payer : UUID} {order : PaymentRequest} (asked : call.request = some (.pay payer order)) :
    ∃ redisClient, call = .sendMoney payer order redisClient := by
  unfold Call.request at asked
  split at asked <;> cases asked
  exact ⟨_,rfl⟩

/-- What an outcome answers. A top-up reports a balance that it reads after its commit;
only the wallet is of the deposit. The other exceptions answer nothing. -/
def Call.reply : Call → Outcome → Option Bank.Reply
  | .register _, .ok (.user user) => some (.joined user)
  | .register _, .error (.userAlreadyExists _) => some .known
  | .topUp _ _ _, .ok (.wallet wallet) => some (.deposited wallet.id)
  | .topUp _ _ _, .error .walletNotFound => some .noAccount
  | .sendMoney _ _ _, .ok (.payment t) => some (.paid t)
  | .sendMoney _ _ _, .error .walletNotFound => some .noAccount
  | .sendMoney _ _ _, .error .selfTransfer => some .same
  | .sendMoney _ _ _, .error (.insufficientBalance available required) => some (.short available required)
  | .getWallet _ false, .ok (.wallet wallet) => some (.account wallet.id wallet.balance)
  | .getWallet _ false, .error .walletNotFound => some .noAccount
  | .getBalanceFast _ false, .ok (.balance balance) => some (.balance balance)
  | .getBalanceFast _ false, .error .walletNotFound => some .noAccount
  | .getTransaction _ _, .ok (.transaction t) => some (.paid t)
  | .getTransaction _ _, .error (.http 404 "Wallet not found") => some .noAccount
  | .getTransaction _ _, .error (.http 404 "Transaction not found") => some .notFound
  | .getTransaction _ _, .error (.http 403 _) => some .notParty
  | _, _ => none

def Commit.reply (c : Commit) : Option Bank.Reply :=
  match c.writes with
  | [.insertUser user,.insertWallet _] => some (.joined (UserResponse.modelValidate user))
  | [.updateWallet id _ _] => some (.deposited id)
  | [_,_,.insertTransaction row] => some (.paid (TransactionResponse.modelValidate row))
  | _ => none

theorem Transaction.Records.orders {row : Transaction} {sender receiver : Wallet} {request : PaymentRequest}
    (records : row.Records sender receiver request) :
    Bank.Orders request sender.id receiver.id (TransactionResponse.modelValidate row) where
  sender := records.sender
  receiver := records.receiver
  amount := records.amount ▸ row.amount.toDecimalUnits
  currency := records.currency
  status := by
    change row.status.value = "COMPLETED"
    rw [records.status]
    rfl
  key := records.key
  description := records.description

theorem Entry.does {calls t pid writes} (entry : Entry calls t pid writes) (sound : t.Sound) :
    ∃ call request reply, calls[pid]? = some call ∧ call.request = some request ∧
      Commit.reply ⟨pid,writes⟩ = some reply ∧ Bank.Does t.bank request reply (t.applyAll writes).bank := by
  cases entry with
  | @register data user wallet call email fullName freshUser freshEmail freshWallet freshOwner owner balance
      currency version =>
    refine ⟨_,_,_,call,rfl,rfl,?_⟩
    rw [registeredBank freshEmail freshWallet freshOwner balance,owner,email]
    refine .joined (memberNone (email ▸ freshEmail)) ?_ ?_ email fullName (fundsNone freshWallet)
    · rw [owner] at freshOwner
      refine accountNone (List.filter_eq_nil_iff.mpr ?_)
      intro w here same
      have owned : w.userId = user.id := by simpa [UserResponse.modelValidate] using same
      rw [Tables.takenOwner.mpr (List.mem_map.mpr ⟨w,here,owned⟩)] at freshOwner
      contradiction
    · intro other holds
      obtain ⟨w,here,_,same⟩ := accountMem holds
      rw [Tables.takenWallet.mpr (List.mem_map.mpr ⟨w,here,same⟩)] at freshWallet
      contradiction
  | @topUp userId amount redisClient wallet stored call here owner credit =>
    refine ⟨_,_,_,call,rfl,rfl,?_⟩
    have moved := movedBank sound.keyed here stored (wallet.version + 1)
    change Bank.Does _ _ _ (t.updateWallet wallet.id stored (wallet.version + 1)).bank
    rw [moved,credit,← sound.funds here]
    exact .deposited (owner ▸ sound.account here)
  | @send userId request redisClient sender receiver debited credited row call senderHere senderOwner
      receiverHere receiverOwner different covered debit credit records freshId freshKey =>
    refine ⟨_,_,_,call,rfl,rfl,?_⟩
    have first := movedBank sound.keyed senderHere debited (sender.version + 1)
    have second := movedBank (sound.keyed.update sender.id debited (sender.version + 1))
      (Tables.updateWalletOther receiverHere (Ne.symm different)) credited (receiver.version + 1)
    have free : ((t.updateWallet sender.id debited (sender.version + 1)).updateWallet receiver.id credited
        (receiver.version + 1)).taken (.idempotencyKey row.idempotencyKey) = false := freshKey
    change Bank.Does _ _ _ (((t.updateWallet sender.id debited (sender.version + 1)).updateWallet receiver.id
      credited (receiver.version + 1)).apply (.insertTransaction row)).bank
    rw [recordedBank free,second,first,debit,credit,← sound.funds senderHere,← sound.funds receiverHere,records.key]
    refine .paid ?_ ?_ (senderOwner ▸ sound.account senderHere) (receiverOwner ▸ sound.account receiverHere) different
      (by rw [sound.funds senderHere]; exact covered) records.orders
    · exact paymentNone (records.key ▸ freshKey)
    · rintro key other made same
      obtain ⟨x,here,_,rfl⟩ := paymentMem made
      have used : t.taken (.transaction row.id) = true := Tables.takenTransaction.mpr ⟨x,here,same⟩
      rw [used] at freshId
      contradiction

end PaymentSystem
