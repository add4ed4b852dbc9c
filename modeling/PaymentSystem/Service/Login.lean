import PaymentSystem.Service.RateLimiter
import PaymentSystem.Service.Wallets

/-! Logging in, and the tokens by which later requests say whom they come from. passlib and
python-jose are not part of the repository: two classes say what they return. -/
namespace PaymentSystem
open Interleaving (Task)

structure UserLogin where
  email : String
  password : String
  deriving DecidableEq, Repr

structure TokenResponse where
  accessToken : String
  tokenType : String
  deriving DecidableEq, Repr

/-- pwd_context: whether a hash is of this password. It raises on what is not a hash. -/
class CryptContext where
  verify : String → String → Except Exn Bool

structure Claims where
  sub : String
  exp : Int
  deriving DecidableEq, Repr

/-- jwt with the key and the algorithm of the settings, at a second since the epoch; decode
is none for a JWTError, else the subject, if there is one. And UUID(). -/
class Jose where
  encode : Claims → String
  decode : Int → String → Option (Option String)
  parseUUID : String → Option UUID
  decodeEncode : ∀ claims now, decode now (encode claims) = if now ≤ claims.exp then some (some claims.sub) else none
  parseStr : ∀ id, parseUUID (uuidStr id) = some id

def accessTokenExpireMinutes : Int := 30

def utcSecond (microsecond : Int) : Int := microsecond / 1000000

def verifyPassword [CryptContext] (plainPassword hashedPassword : String) : Except Exn Bool :=
  CryptContext.verify plainPassword hashedPassword

def createAccessToken [Jose] (sub : String) (expiresDelta : Option Int) (now : Int) : String :=
  -- a delta of zero is no delta
  let delta := (expiresDelta.filter (fun delta => delta ≠ 0)).getD (accessTokenExpireMinutes * 60 * 1000000)
  Jose.encode ⟨sub,utcSecond (now + delta)⟩

def userNotFoundException (userId : String) : Exn :=
  .http 404 (if userId ≠ "" then s!"User not found: {userId}" else "User not found")

def UserRepository.getById (userId : UUID) : Py (Option User) := do
  let rows : List User ← execute (.selectUserById userId)
  scalarOneOrNone rows

namespace UserService

def login [CryptContext] [Jose] (data : UserLogin) (now : Int) : Py TokenResponse := do
  let user ← UserRepository.getByEmail data.email
  match user with
  -- an unknown email and a wrong password raise the same
  | none => throw (userNotFoundException "")
  | some user =>
    match verifyPassword data.password user.passwordHash with
    | .error e => throw e
    | .ok false => throw (userNotFoundException "")
    | .ok true => pure ⟨createAccessToken (uuidStr user.id) none now,"bearer"⟩

def getUser (userId : UUID) : Py UserResponse := do
  let user ← UserRepository.getById userId
  match user with
  | none => throw (userNotFoundException (uuidStr userId))
  | some user => pure (UserResponse.modelValidate user)

end UserService

section
variable [Jose]

def authenticate (now : Int) (request : HttpRequest) : Except Refusal UUID :=
  @getCurrentUserId ⟨Jose.decode (utcSecond now),Jose.parseUUID⟩ request

def UserApi.getMe (now : Int) (request : HttpRequest) : Except Refusal (Py UserResponse) :=
  -- the token comes first, then the session
  (authenticate now request).map UserService.getUser

variable {sub : String} {now later : Int} {request : HttpRequest} {id : UUID}

def tokenExpiry (now : Int) : Int := utcSecond (now + 30 * 60 * 1000000)

theorem createAccessTokenDefault : createAccessToken sub none now = Jose.encode ⟨sub,tokenExpiry now⟩ := rfl

theorem authenticateToken (bearer : request.credentials = some (createAccessToken (uuidStr id) none now)) :
    authenticate later request = if utcSecond later ≤ tokenExpiry now then .ok id
      else .error (.http 401 "Invalid or expired token") := by
  simp only [authenticate,getCurrentUserId,bearer,createAccessTokenDefault,Jose.decodeEncode]
  by_cases inTime : utcSecond later ≤ tokenExpiry now
  · simp only [if_pos inTime,Jose.parseStr]
  · simp only [if_neg inTime]

theorem authenticateOk (ok : authenticate now request = .ok id) : ∃ token sub, request.credentials = some token ∧
    Jose.decode (utcSecond now) token = some (some sub) ∧ Jose.parseUUID sub = some id := by
  simp only [authenticate,getCurrentUserId] at ok
  split at ok
  · contradiction
  · rename_i token bearer
    split at ok <;> try contradiction
    rename_i sub decoded
    split at ok <;> try contradiction
    rename_i userId parsed
    cases ok
    exact ⟨token,sub,bearer,decoded,parsed⟩

end
end PaymentSystem
