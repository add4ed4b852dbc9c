import PaymentSystem.Service.Wallets

/-! The payment service and the payment endpoints. -/
namespace PaymentSystem
open Numerics (Decimal)
open JsonText (Json)

namespace PaymentService
variable [Pydantic]

def maxRetryAttempts : Nat := 3

def sortedPair (a b : UUID) : UUID × UUID := if a ≤ b then (a,b) else (b,a)

def recordTransfer (sender receiver : WalletRef) (amount : Decimal) (currency : String)
    (idempotencyKey : String) (description : Option String) : Py TransactionResponse := do
  let senderId ← sender.id
  let receiverId ← receiver.id
  let transaction ← TransactionRepository.create
    ⟨senderId,receiverId,amount,currency,.completed,idempotencyKey,description⟩
  commit
  let transaction ← refreshTransaction transaction
  pure (TransactionResponse.modelValidate transaction)

def adjustBalance (wallet : WalletRef) (change : Decimal → Option Decimal) : Py Unit := do
  let id ← wallet.id
  let balance ← wallet.balance
  let newBalance ← arithmetic (change balance)
  let version ← wallet.version
  let ok ← WalletRepository.updateBalance id newBalance version
  if !ok then throw .optimisticLock
  else pure ()

def moveLocked (sender receiver : WalletRef) (amount : Decimal) (currency : String) (idempotencyKey : String)
    (description : Option String) : Py TransactionResponse := do
  let senderBalance ← sender.balance
  if senderBalance.less amount then throw (.insufficientBalance senderBalance.str amount.str)
  else do
    adjustBalance sender (fun balance => balance.sub amount)
    adjustBalance receiver (fun balance => balance.add amount)
    recordTransfer sender receiver amount currency idempotencyKey description

def executeTransfer (senderWalletId receiverWalletId : UUID) (amount : Decimal) (currency : String)
    (idempotencyKey : String) (description : Option String) : Py TransactionResponse := do
  -- in sorted order, whatever the direction of the payment
  let walletIds := sortedPair senderWalletId receiverWalletId
  let lockedFirst ← WalletRepository.getByIdForUpdate walletIds.1
  let lockedSecond ← WalletRepository.getByIdForUpdate walletIds.2
  match lockedFirst, lockedSecond with
  | some lockedFirst, some lockedSecond => do
    let firstId ← lockedFirst.id
    if firstId = senderWalletId then
      moveLocked lockedFirst lockedSecond amount currency idempotencyKey description
    else moveLocked lockedSecond lockedFirst amount currency idempotencyKey description
  | _, _ => throw .walletNotFound

def balanceKey (walletId : UUID) : String := "wallet:balance:" ++ uuidStr walletId

def afterCommit (senderWallet receiverWallet : WalletRef) (request : PaymentRequest)
    (result : TransactionResponse) (redisClient : Bool) : Py Unit :=
  if redisClient then do
    IdempotencyService.storeKey request.idempotencyKey result.modelDump 201 redisClient
    let senderWalletId ← senderWallet.id
    let receiverWalletId ← receiverWallet.id
    await (.redisDelete [balanceKey senderWalletId,balanceKey receiverWalletId])
  else pure ()

def attemptTransfer (senderWallet receiverWallet : WalletRef) (request : PaymentRequest)
    (redisClient : Bool) : Py TransactionResponse := do
  let senderWalletId ← senderWallet.id
  let receiverWalletId ← receiverWallet.id
  let result ← executeTransfer senderWalletId receiverWalletId request.amount.value request.currency
    request.idempotencyKey request.description
  -- the transfer has committed; what raises now is handled all the same
  afterCommit senderWallet receiverWallet request result redisClient
  pure result

/-- except IntegrityError: a concurrent request with the same key already succeeded. -/
def onIntegrityError (request : PaymentRequest) : Py TransactionResponse := do
  rollback
  let existing ← TransactionRepository.getByIdempotencyKey request.idempotencyKey
  match existing with
  | some transaction => pure (TransactionResponse.modelValidate transaction)
  | none => throw .duplicateTransaction

/-- for attempt in range(1, MAX_RETRY_ATTEMPTS + 1), by the attempts that are left. -/
def transferAttempts (senderWallet receiverWallet : WalletRef) (request : PaymentRequest)
    (redisClient : Bool) : Nat → Py TransactionResponse
  | 0 => throw .optimisticLock
  | left + 1 =>
      tryCatch (attemptTransfer senderWallet receiverWallet request redisClient) (fun e =>
        match e with
        | .integrityError _ => onIntegrityError request
        | .optimisticLock => do
            rollback
            if left = 0 then throw .optimisticLock
            else transferAttempts senderWallet receiverWallet request redisClient left
        | e => do
            rollback
            throw e)

def validateAndTransfer (senderUserId : UUID) (request : PaymentRequest) (redisClient : Bool) :
    Py TransactionResponse := do
  let foundSender ← WalletRepository.getByUserId senderUserId
  match foundSender with
  | none => throw .walletNotFound
  | some senderWallet => do
    let foundReceiver ← WalletRepository.getByUserId request.receiverId
    match foundReceiver with
    | none => throw .walletNotFound
    | some receiverWallet => do
      let senderWalletId ← senderWallet.id
      let receiverWalletId ← receiverWallet.id
      if senderWalletId = receiverWalletId then throw .selfTransfer
      else transferAttempts senderWallet receiverWallet request redisClient maxRetryAttempts

def replay (cached : Json) : Py TransactionResponse :=
  match cached.member? "response" with
  | none => throw .keyError
  | some doc =>
    match TransactionResponse.ofDocument doc with
    | some response => pure response
    | none => throw .validationError

def sendMoney (senderUserId : UUID) (request : PaymentRequest) (redisClient : Bool) :
    Py TransactionResponse := do
  let cached ← IdempotencyService.checkKey request.idempotencyKey redisClient
  match cached.filter IdempotencyService.truthy with
  | some doc => replay doc
  | none => do
    let existing ← TransactionRepository.getByIdempotencyKey request.idempotencyKey
    match existing with
    | some transaction => pure (TransactionResponse.modelValidate transaction)
    | none => validateAndTransfer senderUserId request redisClient

end PaymentService

namespace PaymentApi

/-- The status filter of the query is not used. -/
def getTransactionHistory (userId : UUID) (page pageSize : Nat) (_status : Option String) :
    Py TransactionListResponse := do
  let found ← WalletRepository.getByUserId userId
  match found with
  | none => pure ⟨[],0,page,pageSize⟩
  | some wallet => do
    let walletId ← wallet.id
    let result ← TransactionRepository.getByWalletId walletId page pageSize
    pure ⟨result.1.map TransactionResponse.modelValidate,result.2,page,pageSize⟩

def getTransaction (userId transactionId : UUID) : Py TransactionResponse := do
  let found ← WalletRepository.getByUserId userId
  match found with
  | none => throw (.http 404 "Wallet not found")
  | some wallet => do
    let existing ← TransactionRepository.getById transactionId
    match existing with
    | none => throw (.http 404 "Transaction not found")
    | some transaction => do
      let walletId ← wallet.id
      if transaction.senderWalletId ≠ walletId ∧ transaction.receiverWalletId ≠ walletId then
        throw (.http 403 "Not authorized to view this transaction")
      else pure (TransactionResponse.modelValidate transaction)

end PaymentApi
end PaymentSystem
