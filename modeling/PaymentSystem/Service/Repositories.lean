import PaymentSystem.Model.Session

/-! The three repositories. Each method is one or two statements of the session. -/
namespace PaymentSystem
open Numerics (Decimal)
open Interleaving (Task)

namespace UserRepository

def getByEmail (email : String) : Py (Option User) := do
  let rows : List User ← execute (.selectUserByEmail email)
  scalarOneOrNone rows

def create (email passwordHash fullName : String) : Py User := execute (.insertUser email passwordHash fullName)

end UserRepository

namespace WalletRepository

def getByUserId (userId : UUID) : Py (Option WalletRef) := do
  let rows : List Wallet ← execute (.selectWalletByUserId userId)
  let refs ← objects rows
  scalarOneOrNone refs

def getByIdForUpdate (walletId : UUID) : Py (Option WalletRef) := do
  let rows : List Wallet ← execute (.selectWalletForUpdate walletId)
  let refs ← objects rows
  scalarOneOrNone refs

def create (userId : UUID) : Py Wallet := execute (.insertWallet userId)

def updateBalance (walletId : UUID) (newBalance : Decimal) (expectedVersion : Int) : Py Bool := do
  let rowcount : Nat ← execute (.updateWallet walletId expectedVersion newBalance (expectedVersion + 1))
  Task.change (fun s => s.synchronize walletId expectedVersion newBalance (expectedVersion + 1))
  pure (decide (0 < rowcount))

end WalletRepository

namespace TransactionRepository

def create (transaction : Database.NewTransaction) : Py Transaction := execute (.insertTransaction transaction)

def getByIdempotencyKey (key : String) : Py (Option Transaction) := do
  let rows : List Transaction ← execute (.selectTransactionByKey key)
  scalarOneOrNone rows

def getById (transactionId : UUID) : Py (Option Transaction) := do
  let rows : List Transaction ← execute (.selectTransactionById transactionId)
  scalarOneOrNone rows

def getByWalletId (walletId : UUID) (page pageSize : Nat) : Py (List Transaction × Nat) := do
  let total : Nat ← execute (.countTransactionsOf walletId)
  let transactions : List Transaction ←
    execute (.selectTransactionsOf walletId ((page - 1) * pageSize) pageSize)
  pure (transactions,total)

end TransactionRepository
end PaymentSystem
