import PaymentSystem.System.Machine

/-! What the client is answered: the status codes of the routes, and the exception
handlers. The domain exceptions are HTTPExceptions; every other exception is answered
as an internal error, without a word of it. -/
namespace PaymentSystem

def statusToErrorCode : Nat → String
  | 400 => "bad_request"
  | 401 => "unauthorized"
  | 402 => "insufficient_funds"
  | 403 => "forbidden"
  | 404 => "not_found"
  | 409 => "conflict"
  | 422 => "validation_error"
  | 429 => "rate_limited"
  | 500 => "internal_error"
  | _ => "unknown_error"

def insufficientBalanceDetail (available required : String) : String :=
  if available ≠ "" ∧ required ≠ "" then
    s!"Insufficient balance: available={available}, required={required}"
  else "Insufficient balance"

def Exn.httpException : Exn → Option (Nat × String)
  | .userAlreadyExists email => some (409,s!"User with email '{email}' already exists")
  | .walletNotFound => some (404,"Wallet not found for this user")
  | .insufficientBalance available required => some (402,insufficientBalanceDetail available required)
  | .duplicateTransaction =>
      some (409,"Duplicate transaction — this idempotency key has already been processed")
  | .selfTransfer => some (400,"Cannot transfer money to yourself")
  | .optimisticLock => some (409,"Concurrent modification detected — please retry")
  | .http statusCode detail => some (statusCode,detail)
  | _ => none

structure ErrorBody where
  error : String
  detail : String
  requestId : String
  deriving DecidableEq, Repr

inductive Body where
  | value (response : Response)
  | error (body : ErrorBody)
  deriving DecidableEq, Repr

structure HttpResponse where
  statusCode : Nat
  body : Body
  deriving DecidableEq, Repr

def httpExceptionHandler (requestId : String) (statusCode : Nat) (detail : String) : HttpResponse :=
  ⟨statusCode,.error ⟨statusToErrorCode statusCode,detail,requestId⟩⟩

def unhandledExceptionHandler (requestId : String) : HttpResponse :=
  ⟨500,.error ⟨"internal_error","An unexpected error occurred. Please try again.",requestId⟩⟩

def Call.statusCode : Call → Option Nat
  | .register _ => some 201
  | .topUp _ _ _ => some 200
  | .sendMoney _ _ _ => some 201
  | .getWallet _ _ => some 200
  | .getBalanceFast _ _ => none
  | .getTransactionHistory _ _ _ _ => some 200
  | .getTransaction _ _ => some 200

/-- The answer to a request that is over; who is cut off gets none. -/
def Call.answer (call : Call) (requestId : String) (outcome : Outcome) : Option HttpResponse :=
  match call.statusCode, outcome with
  | none, _ => none
  | some statusCode, .ok response => some ⟨statusCode,.value response⟩
  | some _, .error .cancelled => none
  | some _, .error e => some (match e.httpException with
    | some (statusCode,detail) => httpExceptionHandler requestId statusCode detail
    | none => unhandledExceptionHandler requestId)

def clientError (statusCode : Nat) : Bool := decide (400 ≤ statusCode ∧ statusCode < 500)

def Exn.refuses (e : Exn) : Bool :=
  match e.httpException with
  | some (statusCode,_) => clientError statusCode
  | none => false

end PaymentSystem
