import PaymentSystem.Service.Cache

/-! The rate limiter of POST /payments/send, and what tells it whose request it has
before it. A check is an INCR and, of a fresh counter, an EXPIRE that may come later:
the counter has no expiry until then, so that no command in between can tell whether
it has come already. -/
namespace PaymentSystem

/-! Counters in Redis. -/

structure Counter where
  value : Nat
  expiresAt : Option Nat
  deriving DecidableEq, Repr

abbrev Counters := String → Option Counter

/-- When a command is carried out, by the clock of Redis in milliseconds, and whether it raises. -/
structure Moment where
  time : Nat
  fault : Fault
  deriving DecidableEq, Repr

/-- A key is gone when its time is past, not while it is that time. -/
def Counter.alive (now : Nat) (c : Counter) : Bool :=
  match c.expiresAt with
  | none => true
  | some expiry => decide (now ≤ expiry)

def milliseconds (seconds : Nat) : Nat := seconds * 1000

namespace Counters

/-- A command with its effect on one key, which it may have although it raises. -/
def command {α : Type} (counters : Counters) (key : String) (moment : Moment) (value : α)
    (stored : Option Counter) : Except Exn α × Counters :=
  match moment.fault with
  | .none => (.ok value,Function.update counters key stored)
  | .raises => (.error .redisError,counters)
  | .raisesAfter => (.error .redisError,Function.update counters key stored)

def incr (counters : Counters) (key : String) (moment : Moment) : Except Exn Nat × Counters :=
  match (counters key).filter (Counter.alive moment.time) with
  | some c => counters.command key moment (c.value + 1) (some {c with value := c.value + 1})
  | none => counters.command key moment 1 (some ⟨1,none⟩)

def expire (counters : Counters) (key : String) (ttl : Nat) (moment : Moment) : Except Exn Unit × Counters :=
  counters.command key moment () (((counters key).filter (Counter.alive moment.time)).map
    (fun c => {c with expiresAt := some (moment.time + milliseconds ttl)}))

end Counters

def CacheTTL.rateLimit : Nat := 60

def CacheKeys.rateLimit (userId endpoint : String) : String := "rate_limit:" ++ userId ++ ":" ++ endpoint

def CacheManager.checkRateLimit (counters : Counters) (userId endpoint : String) (maxRequests : Nat)
    (first second : Moment) : Bool × Counters :=
  let key := CacheKeys.rateLimit userId endpoint
  match counters.incr key first with
  | (.error _,counters) => (true,counters)
  | (.ok current,counters) =>
    if current = 1 then
      match counters.expire key CacheTTL.rateLimit second with
      | (.error _,counters) => (true,counters)
      | (.ok _,counters) => (decide (current ≤ maxRequests),counters)
    else (decide (current ≤ maxRequests),counters)

/-! Requests. -/

structure HttpRequest where
  credentials : Option String
  requestId : String
  host : String
  deriving DecidableEq, Repr

structure RequestContext where
  stateUserId : Option UUID
  requestIdCtx : String
  userIdCtx : String

def RequestContext.new : RequestContext := ⟨none,"-","anonymous"⟩

def RequestContextMiddleware.dispatch (request : HttpRequest) (context : RequestContext) : RequestContext :=
  {context with requestIdCtx := request.requestId, userIdCtx := "anonymous"}

inductive Refusal where
  | http (statusCode : Nat) (detail : String)
  | valueError
  deriving DecidableEq, Repr

/-- The decoding of tokens: none for a JWTError, else the subject, if there is one. -/
class Jwt where
  decode : String → Option (Option String)
  parseUUID : String → Option UUID

section
variable [Jwt]

/-- HTTPBearer, then get_current_user_id. It returns the user id and writes it nowhere. -/
def getCurrentUserId (request : HttpRequest) : Except Refusal UUID :=
  match request.credentials with
  | none => .error (.http 403 "Not authenticated")
  | some token =>
    match Jwt.decode token with
    | none => .error (.http 401 "Invalid or expired token")
    | some none => .error (.http 401 "Invalid token: missing subject")
    | some (some subject) =>
      match Jwt.parseUUID subject with
      | none => .error .valueError
      | some userId => .ok userId

def HttpRequest.user (request : HttpRequest) : Option UUID := (getCurrentUserId request).toOption

end

structure RateLimiter where
  maxRequests : Nat

structure Arrival where
  request : HttpRequest
  first : Moment
  second : Moment
  deriving DecidableEq, Repr

def RateLimiter.call (limiter : RateLimiter) (arrival : Arrival) (context : RequestContext) (endpoint : String)
    (counters : Counters) : Except Refusal Unit × Counters :=
  -- nothing sets the user id of the state, so it is the host
  let identifier := match context.stateUserId with
    | some userId => uuidStr userId
    | none => arrival.request.host
  match CacheManager.checkRateLimit counters identifier endpoint limiter.maxRequests arrival.first arrival.second with
  | (true,counters) => (.ok (),counters)
  | (false,counters) => (.error (.http 429 s!"Rate limit exceeded: max {limiter.maxRequests} requests per minute"),
      counters)

def paymentRateLimit : RateLimiter := ⟨20⟩

def sendPath : String := "/api/v1/payments/send"

/-- POST /payments/send up to send_money: the dependency of the route comes before those
of its parameters. -/
def PaymentApi.beforeSend [Jwt] (arrival : Arrival) (counters : Counters) : Except Refusal UUID × Counters :=
  let context := RequestContextMiddleware.dispatch arrival.request RequestContext.new
  match paymentRateLimit.call arrival context sendPath counters with
  | (.error e,counters) => (.error e,counters)
  | (.ok _,counters) => (getCurrentUserId arrival.request,counters)

end PaymentSystem
