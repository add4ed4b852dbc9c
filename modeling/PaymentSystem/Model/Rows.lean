import PaymentSystem.Base.DecimalText

/-! The rows of the three tables, the request and response schemas, and the
exceptions. updated_at and the ORM relationships are read by nothing here. -/
namespace PaymentSystem
open Numerics (Decimal Numeric)

abbrev UUID := Fin (2 ^ 128)

instance uuidsExist : NeZero (2 ^ 128) := ⟨by decide⟩

instance yearsExist : NeZero 10000 := ⟨by decide⟩

instance monthsExist : NeZero 13 := ⟨by decide⟩

instance daysExist : NeZero 32 := ⟨by decide⟩

instance hoursExist : NeZero 24 := ⟨by decide⟩

instance minutesExist : NeZero 60 := ⟨by decide⟩

instance microsecondsExist : NeZero 1000000 := ⟨by decide⟩

structure DateTime where
  year : Fin 10000
  month : Fin 13
  day : Fin 32
  hour : Fin 24
  minute : Fin 60
  second : Fin 60
  microsecond : Fin 1000000
  deriving DecidableEq, Repr

def DateTime.rank (t : DateTime) : Nat :=
  (((((t.year * 13 + t.month) * 32 + t.day) * 24 + t.hour) * 60 + t.minute) * 60 + t.second) * 1000000 +
    t.microsecond

abbrev Money := Numeric 18 2

structure User where
  id : UUID
  email : String
  passwordHash : String
  fullName : String
  isActive : Bool
  createdAt : DateTime
  deriving DecidableEq, Repr

structure Wallet where
  id : UUID
  userId : UUID
  balance : Money
  currency : String
  version : Int
  createdAt : DateTime
  deriving DecidableEq, Repr

inductive TransactionStatus where
  | pending | completed | failed
  deriving DecidableEq, Repr

def TransactionStatus.value : TransactionStatus → String
  | .pending => "PENDING"
  | .completed => "COMPLETED"
  | .failed => "FAILED"

structure Transaction where
  id : UUID
  senderWalletId : UUID
  receiverWalletId : UUID
  amount : Money
  currency : String
  status : TransactionStatus
  idempotencyKey : String
  description : Option String
  createdAt : DateTime
  deriving DecidableEq, Repr

/-! Schemas. -/

/-- Field(gt=0, decimal_places=2): a positive whole number of cents, written
with any coefficient and exponent. -/
structure Amount where
  value : Decimal
  cents : Int
  inCents : value.Units 2 cents
  positive : 0 < cents
  deriving DecidableEq

def isUpper (c : Char) : Bool := decide ('A' ≤ c ∧ c ≤ 'Z')

structure PaymentRequest where
  receiverId : UUID
  amount : Amount
  currency : String
  currencyPattern : currency.toList.length = 3 ∧ ∀ c ∈ currency.toList, isUpper c = true
  idempotencyKey : String
  keyLength : 1 ≤ idempotencyKey.toList.length ∧ idempotencyKey.toList.length ≤ 255
  description : Option String
  descriptionLength : ∀ text ∈ description, text.toList.length ≤ 500
  deriving DecidableEq

structure UserCreate where
  email : String
  password : String
  passwordLength : 8 ≤ password.toList.length ∧ password.toList.length ≤ 128
  fullName : String
  nameLength : 1 ≤ fullName.toList.length ∧ fullName.toList.length ≤ 255
  deriving DecidableEq

structure TransactionResponse where
  id : UUID
  senderWalletId : UUID
  receiverWalletId : UUID
  amount : Decimal
  currency : String
  status : String
  idempotencyKey : String
  description : Option String
  createdAt : DateTime
  deriving DecidableEq, Repr

structure TransactionListResponse where
  transactions : List TransactionResponse
  total : Nat
  page : Nat
  pageSize : Nat
  deriving DecidableEq, Repr

structure WalletResponse where
  id : UUID
  userId : UUID
  balance : Decimal
  currency : String
  createdAt : DateTime
  deriving DecidableEq, Repr

structure UserResponse where
  id : UUID
  email : String
  fullName : String
  isActive : Bool
  createdAt : DateTime
  deriving DecidableEq, Repr

def TransactionResponse.modelValidate (t : Transaction) : TransactionResponse :=
  ⟨t.id,t.senderWalletId,t.receiverWalletId,t.amount.toDecimal,t.currency,t.status.value,
    t.idempotencyKey,t.description,t.createdAt⟩

def UserResponse.modelValidate (u : User) : UserResponse :=
  ⟨u.id,u.email,u.fullName,u.isActive,u.createdAt⟩

/-! Exceptions. -/

inductive Constraint where
  | usersPrimaryKey | usersEmail
  | walletsPrimaryKey | walletsUserId | walletsUserForeignKey | balanceNonNegative
  | transactionsPrimaryKey | transactionsIdempotencyKey | amountPositive | differentWallets
  | senderForeignKey | receiverForeignKey
  deriving DecidableEq, Repr

inductive Exn where
  | userAlreadyExists (email : String)
  | walletNotFound
  | selfTransfer
  | insufficientBalance (available required : String)
  | optimisticLock
  | duplicateTransaction
  | http (statusCode : Nat) (detail : String)
  | integrityError (violated : Constraint)
  | dataError
  | nullPasswordError
  | operationalError
  | staleData
  | multipleResultsFound
  | missingGreenlet
  | invalidRequest
  | decimalOverflow
  | jsonDecodeError
  | keyError
  | validationError
  | redisError
  | cancelled
  deriving DecidableEq, Repr

end PaymentSystem
