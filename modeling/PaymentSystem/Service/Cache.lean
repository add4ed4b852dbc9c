import PaymentSystem.Model.Session
import PaymentSystem.Base.JsonText

/-! The Redis keys, the balance cache and the idempotency entries. pydantic turns
values into JSON strings and back; only that it undoes itself is used of it. -/
namespace PaymentSystem
open Numerics (Decimal)
open JsonText (Json)

/-! str(uuid). -/

def dashed (h : List Char) : List Char :=
  h.take 8 ++ '-' :: ((h.drop 8).take 4 ++ '-' :: ((h.drop 12).take 4 ++ '-' :: ((h.drop 16).take 4 ++
    '-' :: h.drop 20)))

def uuidStr (id : UUID) : String := String.ofList (dashed (Numeral.fixed 16 32 id.val))

namespace CacheTTL
def balance : Nat := 300
end CacheTTL

namespace CacheKeys
def balance (walletId : UUID) : String := "wallet:balance:" ++ uuidStr walletId
def walletInfo (walletId : UUID) : String := "wallet:info:" ++ uuidStr walletId
def idempotency (key : String) : String := "idempotency:" ++ key
end CacheKeys

namespace CacheManager

/-- Every failure, also of the conversion, is a miss. -/
def getBalance (walletId : UUID) : Py (Option Decimal) :=
  tryCatch
    (do
      let cached : Option String ← await (.redisGet (CacheKeys.balance walletId))
      match cached with
      | some text =>
          match Decimal.ofString text with
          | some balance => pure (some balance)
          | none => throw .dataError
      | none => pure none)
    (fun _ => pure none)

def setBalance (walletId : UUID) (balance : Decimal) : Py Unit :=
  tryCatch
    (await (.redisSetex (CacheKeys.balance walletId) CacheTTL.balance balance.str))
    (fun _ => pure ())

def invalidateBalance (walletId : UUID) : Py Unit :=
  tryCatch (await (.redisDelete [CacheKeys.balance walletId])) (fun _ => pure ())

def invalidateWalletInfo (walletId : UUID) : Py Unit :=
  tryCatch (await (.redisDelete [CacheKeys.walletInfo walletId])) (fun _ => pure ())

end CacheManager

/-- The JSON mode of pydantic on the types of a TransactionResponse. A str is
dumped as itself. -/
class Pydantic where
  dumpUUID : UUID → String
  validateUUID : String → Option UUID
  dumpDecimal : Decimal → String
  validateDecimal : String → Option Decimal
  dumpDateTime : DateTime → String
  validateDateTime : String → Option DateTime
  uuidUndone : ∀ id, validateUUID (dumpUUID id) = some id
  decimalUndone : ∀ d, validateDecimal (dumpDecimal d) = some d
  dateTimeUndone : ∀ t, validateDateTime (dumpDateTime t) = some t

section
variable [Pydantic]

def TransactionResponse.modelDump (t : TransactionResponse) : Json :=
  .object [
    ("id",.string (Pydantic.dumpUUID t.id)),
    ("sender_wallet_id",.string (Pydantic.dumpUUID t.senderWalletId)),
    ("receiver_wallet_id",.string (Pydantic.dumpUUID t.receiverWalletId)),
    ("amount",.string (Pydantic.dumpDecimal t.amount)),
    ("currency",.string t.currency),
    ("status",.string t.status),
    ("idempotency_key",.string t.idempotencyKey),
    ("description",match t.description with | some text => .string text | none => .null),
    ("created_at",.string (Pydantic.dumpDateTime t.createdAt))]

def stringMember (doc : Json) (key : String) : Option String := (doc.member? key).bind Json.string?

/-- TransactionResponse(**document); no field has a default. -/
def TransactionResponse.ofDocument (doc : Json) : Option TransactionResponse := do
  let id ← (stringMember doc "id").bind Pydantic.validateUUID
  let senderWalletId ← (stringMember doc "sender_wallet_id").bind Pydantic.validateUUID
  let receiverWalletId ← (stringMember doc "receiver_wallet_id").bind Pydantic.validateUUID
  let amount ← (stringMember doc "amount").bind Pydantic.validateDecimal
  let currency ← stringMember doc "currency"
  let status ← stringMember doc "status"
  let idempotencyKey ← stringMember doc "idempotency_key"
  let description ← match doc.member? "description" with
    | some .null => some none
    | some (.string text) => some (some text)
    | _ => none
  let createdAt ← (stringMember doc "created_at").bind Pydantic.validateDateTime
  some ⟨id,senderWalletId,receiverWalletId,amount,currency,status,idempotencyKey,description,createdAt⟩

end

namespace IdempotencyService

def ttl : Nat := 24 * 3600

def truthy : Json → Bool
  | .null => false
  | .number n => decide (n ≠ 0)
  | .string s => decide (s ≠ "")
  | .object members => !members.isEmpty

def cacheKey (key : String) : String := "idempotency:" ++ key

def checkKey (key : String) (redisClient : Bool) : Py (Option Json) :=
  -- an empty key is falsy, and so is an empty value
  if key = "" then pure none
  else if redisClient then
    tryCatch
      (do
        let cached : Option String ← await (.redisGet (cacheKey key))
        match cached with
        | some text =>
            if text = "" then pure none
            else match JsonText.loads text with
            | some doc => pure (some doc)
            | none => throw .jsonDecodeError
        | none => pure none)
      (fun _ => pure none)
  else pure none

def storedText (responseData : Json) (statusCode : Int) : String :=
  JsonText.dumps (.object [("response",responseData),("status_code",.number statusCode)])

def storeKey (key : String) (responseData : Json) (statusCode : Int) (redisClient : Bool) : Py Unit :=
  if redisClient then
    tryCatch
      (await (.redisSetex (cacheKey key) ttl (storedText responseData statusCode)))
      (fun _ => pure ())
  else pure ()

end IdempotencyService
end PaymentSystem
