import PaymentSystem.Service.Repositories
import PaymentSystem.Service.Cache

/-! Registration, and the wallet service. -/
namespace PaymentSystem
open Numerics (Decimal)
open Interleaving (Task)

namespace UserService

def register (data : UserCreate) : Py UserResponse := do
  let existing ← UserRepository.getByEmail data.email
  match existing with
  | some _ => throw (.userAlreadyExists data.email)
  | none => do
    let passwordHash : String ← await (.hashPassword data.password)
    let user ← UserRepository.create data.email passwordHash data.fullName
    let _ ← WalletRepository.create user.id
    commit
    let user ← refreshUser user
    pure (UserResponse.modelValidate user)

end UserService

def WalletResponse.modelValidate (wallet : WalletRef) : Py WalletResponse := do
  let a ← wallet.attributes
  pure ⟨a.id,a.userId,a.balance,a.currency,a.createdAt⟩

namespace WalletService

def maxTopupRetries : Nat := 3

def getWallet (userId : UUID) (redisClient : Bool) : Py WalletResponse := do
  let found ← WalletRepository.getByUserId userId
  match found with
  | none => throw .walletNotFound
  | some wallet =>
    if redisClient then do
      let walletId ← wallet.id
      let cachedBalance ← CacheManager.getBalance walletId
      match cachedBalance with
      | some cached => do
        -- the session would write the cached balance if it were flushed again, which it is not
        Task.change (fun s => s.assignBalance wallet.key cached)
        WalletResponse.modelValidate wallet
      | none => do
        let balance ← wallet.balance
        CacheManager.setBalance walletId balance
        WalletResponse.modelValidate wallet
    else WalletResponse.modelValidate wallet

def getBalanceFast (userId : UUID) (redisClient : Bool) : Py Decimal := do
  let found ← WalletRepository.getByUserId userId
  match found with
  | none => throw .walletNotFound
  | some wallet =>
    if redisClient then do
      let walletId ← wallet.id
      let cachedBalance ← CacheManager.getBalance walletId
      match cachedBalance with
      | some cached => pure cached
      | none => do
        let balance ← wallet.balance
        CacheManager.setBalance walletId balance
        pure balance
    else wallet.balance

def invalidateAfterCommit (wallet : WalletRef) (redisClient : Bool) : Py Unit :=
  if redisClient then do
    let walletId ← wallet.id
    CacheManager.invalidateBalance walletId
    let walletId ← wallet.id
    CacheManager.invalidateWalletInfo walletId
  else pure ()

/-- One pass of the loop: none after a version conflict. -/
def topUpOnce (userId : UUID) (amount : Decimal) (redisClient : Bool) : Py (Option WalletResponse) := do
  let found ← WalletRepository.getByUserId userId
  match found with
  | none => throw .walletNotFound
  | some wallet => do
    let balance ← wallet.balance
    let newBalance ← arithmetic (balance.add amount)
    let walletId ← wallet.id
    let version ← wallet.version
    let updated ← WalletRepository.updateBalance walletId newBalance version
    if updated then do
      commit
      invalidateAfterCommit wallet redisClient
      refreshWallet wallet
      let response ← WalletResponse.modelValidate wallet
      pure (some response)
    else do
      rollback
      pure none

def topUpAttempts (userId : UUID) (amount : Decimal) (redisClient : Bool) : Nat → Py WalletResponse
  | 0 => throw .optimisticLock
  | left + 1 => do
      let done ← topUpOnce userId amount redisClient
      match done with
      | some response => pure response
      | none => topUpAttempts userId amount redisClient left

def topUp (userId : UUID) (amount : Decimal) (redisClient : Bool) : Py WalletResponse :=
  topUpAttempts userId amount redisClient maxTopupRetries

end WalletService
end PaymentSystem
