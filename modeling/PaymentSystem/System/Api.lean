import PaymentSystem.Behaviour.Logins

/-! The service as its clients see it: anybody may register and log in, and the other
routes are for who shows a token. A login reads one row and is one event; every other
request is one of the system once it is let in. What was handed out and shown is
remembered beside the system. -/
namespace PaymentSystem
open Interleaving (Reach)

inductive Route where
  | topUp (amount : Amount) (redisClient : Bool)
  | sendMoney (order : PaymentRequest) (redisClient : Bool)
  | getWallet (redisClient : Bool)
  | getTransactionHistory (page pageSize : Nat) (status : Option String)
  | getTransaction (transactionId : UUID)

def Route.call (userId : UUID) : Route → Call
  | .topUp amount redisClient => .topUp userId amount redisClient
  | .sendMoney order redisClient => .sendMoney userId order redisClient
  | .getWallet redisClient => .getWallet userId redisClient
  | .getTransactionHistory page pageSize status => .getTransactionHistory userId page pageSize status
  | .getTransaction transactionId => .getTransaction userId transactionId

structure Grant where
  login : UserLogin
  now : Int
  token : String
  deriving DecidableEq, Repr

structure Shown where
  token : Option String
  now : Int
  deriving DecidableEq, Repr

structure Api where
  system : State
  grants : List Grant
  shown : List (Option Shown)

inductive Visit where
  | register (data : UserCreate)
  | login (data : UserLogin) (now : Int) (choice : Choice)
  | route (request : HttpRequest) (route : Route) (now : Int)
  | inside (e : Happening)

def arrives : Happening → Bool
  | .start _ => true
  | _ => false

namespace Api

section
variable [Pydantic]

def begin (api : Api) (call : Call) (shown : Option Shown) : Api :=
  {api with system := api.system.begin call, shown := api.shown ++ [shown]}

def opened : Api := ⟨initial,[],[]⟩

def login [CryptContext] [Jose] (api : Api) (data : UserLogin) (now : Int) (choice : Choice) :
    Option (Except Exn TokenResponse) :=
  ((UserService.login data now Session.new).alone (asking api.system.shared.calls.length choice)
    api.system.shared.stores).map (fun out => out.1.1)

def next [CryptContext] [Jose] (api : Api) : Visit → Option Api
  | .register data => some (api.begin (.register data) none)
  | .login data now choice => (api.login data now choice).map (fun result => match result with
      | .ok response => {api with grants := api.grants ++ [⟨data,now,response.accessToken⟩]}
      | .error _ => api)
  | .route request route now => some (match authenticate now request with
      | .ok userId => api.begin (route.call userId) (some ⟨request.credentials,now⟩)
      | .error _ => api)
  | .inside e => if arrives e then none else (machine.next api.system e).map (fun system => {api with system := system})

/-- Hashes are hashes, and nobody makes a token that decodes but the service. -/
structure Allows [CryptContext] [Jose] (api : Api) (visit : Visit) : Prop where
  hashes : ∀ e, visit = .inside e → HashesVerify api.system e
  genuine : ∀ request route now token, visit = .route request route now → request.credentials = some token →
    Jose.decode (utcSecond now) token ≠ none → token ∈ api.grants.map Grant.token

inductive Reached [CryptContext] [Jose] : Api → Prop where
  | opened : Reached opened
  | visited {api api' : Api} {visit : Visit} (before : Reached api) (allowed : api.Allows visit)
      (step : api.next visit = some api') : Reached api'

structure Earned [CryptContext] [Jose] (w : World) (grant : Grant) (x : User) : Prop where
  here : x ∈ w.tables.users
  email : x.email = grant.login.email
  verified : verifyPassword grant.login.password x.passwordHash = .ok true
  token : grant.token = createAccessToken (uuidStr x.id) none grant.now

/-- The request acts for a user whose login was answered with the token it came with, at a
time when that had not expired. -/
def Entitled [CryptContext] [Jose] (api : Api) (pid : Nat) (call : Call) : Prop :=
  ∃ route x grant now, grant ∈ api.grants ∧ Earned api.system.shared grant x ∧ call = Route.call x.id route ∧
    api.shown[pid]? = some (some ⟨some grant.token,now⟩) ∧ utcSecond now ≤ tokenExpiry grant.now

structure Guarded [CryptContext] [Jose] (api : Api) : Prop where
  run : Reach machine HashesVerify initial api.system
  counted : api.shown.length = api.system.shared.calls.length
  granted : ∀ grant ∈ api.grants, ∃ x, Earned api.system.shared grant x
  entitled : ∀ pid call, api.system.shared.calls[pid]? = some call →
    (∃ data, call = .register data) ∨ api.Entitled pid call

variable [CryptContext] [Jose] {api api' : Api} {w w' : World} {grant : Grant} {x : User} {pid : Nat} {call : Call}

theorem Earned.grows (h : Earned w grant x) (intact : Intact w) (intact' : Intact w') (grows : Grows w w') :
    Earned w' grant x := {h with here := (intact.evolves intact' grows).users.subset h.here}

omit [CryptContext] [Jose] in
theorem nextCalls {c c' : State} {e : Happening} (step : machine.next c e = some c') (inside : arrives e = false) :
    c'.shared.calls = c.shared.calls := by
  cases e with
  | start job => contradiction
  | step pid choice =>
    obtain ⟨op,next,r,s',_,_,rfl⟩ := nextStep step
    rfl
  | stop pid =>
    obtain ⟨_,rfl⟩ := nextStop step
    rfl
  | drift key =>
    cases Option.some.inj step
    rfl

theorem guardedOpened : Guarded opened where
  run := .refl
  counted := rfl
  granted := fun _ here => by contradiction
  entitled := fun _ _ here => by contradiction

theorem Guarded.reachable (h : Guarded api) : Reachable api.system := h.run.weaken (fun _ _ _ => trivial)

theorem Entitled.grows (h : api.Entitled pid call) (intact : Intact api.system.shared)
    (intact' : Intact api'.system.shared) (grows : Grows api.system.shared api'.system.shared)
    (grants : api.grants <+: api'.grants) (shown : api.shown <+: api'.shown) : api'.Entitled pid call := by
  obtain ⟨route,x,grant,now,here,earned,same,came,inTime⟩ := h
  exact ⟨route,x,grant,now,grants.subset here,earned.grows intact intact' grows,same,prefixGet shown came,inTime⟩

theorem guardedBegin (h : Guarded api) {call : Call} {shown : Option Shown}
    (may : (∃ data, call = .register data) ∨
      (api.begin call shown).Entitled api.system.shared.calls.length call) : Guarded (api.begin call shown) := by
  have step : machine.next api.system (.start call) = some (api.begin call shown).system := rfl
  have grows := nextGrows step
  have run : Reach machine HashesVerify initial (api.begin call shown).system :=
    .next h.run (fun _ _ _ same => by cases same) step
  have intact := reachableIntact h.reachable
  have intact' := reachableIntact (run.weaken (fun _ _ _ => trivial))
  refine ⟨run,?_,?_,?_⟩
  · change (api.shown ++ [shown]).length = (api.system.shared.calls ++ [call]).length
    rw [List.length_append,List.length_append,h.counted]
    rfl
  · intro grant here
    obtain ⟨x,earned⟩ := h.granted grant here
    exact ⟨x,earned.grows intact intact' grows⟩
  · intro pid other called
    change (api.system.shared.calls ++ [call])[pid]? = some other at called
    rw [List.getElem?_append] at called
    split at called
    · exact (h.entitled pid other called).imp_right (fun known =>
        known.grows intact intact' grows (List.prefix_refl _) (List.prefix_append ..))
    · rename_i late
      rw [List.getElem?_singleton] at called
      split at called
      · cases called
        have last : pid = api.system.shared.calls.length := by omega
        exact last ▸ may
      · contradiction

theorem loginGranted (h : Guarded api) {data : UserLogin} {now : Int} {choice : Choice} {response : TokenResponse}
    (ok : api.login data now choice = some (.ok response)) :
    ∃ x, Earned api.system.shared ⟨data,now,response.accessToken⟩ x := by
  have reachable := h.reachable
  have idle := ((reachableIntact reachable).unstarted api.system.shared.calls.length (Nat.le_refl _)).1
  by_cases calm : choice.fault = .none
  · rw [login,loginAlone reachable idle calm] at ok
    rcases emailLookup reachable data.email with none | ⟨x,here,email,one⟩
    · rw [none] at ok
      cases ok
    · rw [one] at ok
      simp only [loginOutcome,List.head?_cons,Option.map_some,Option.some.injEq] at ok
      cases verified : verifyPassword data.password x.passwordHash with
      | error e =>
        rw [verified] at ok
        cases ok
      | ok fits =>
        rw [verified] at ok
        cases fits <;> cases ok
        exact ⟨x,here,email,verified,rfl⟩
  · obtain ⟨s',raised⟩ := @loginRaises api.system.shared.calls.length choice now data _ _ calm api.system.shared.stores
    rw [login,raised] at ok
    cases ok

theorem guardedNext (h : Guarded api) {visit : Visit} (allowed : api.Allows visit) (step : api.next visit = some api') :
    Guarded api' := by
  cases visit with
  | register data =>
    cases Option.some.inj step
    exact guardedBegin h (.inl ⟨data,rfl⟩)
  | login data now choice =>
    obtain ⟨result,ran,rfl⟩ := Option.map_eq_some_iff.mp step
    cases result with
    | error e => exact h
    | ok response =>
      refine ⟨h.run,h.counted,?_,?_⟩
      · intro grant here
        rcases List.mem_append.mp here with here | here
        · exact h.granted grant here
        · rw [List.mem_singleton.mp here]
          exact loginGranted h ran
      · intro pid call called
        have intact := reachableIntact h.reachable
        exact (h.entitled pid call called).imp_right (fun known =>
          known.grows intact intact (.refl _) (List.prefix_append ..) (List.prefix_refl _))
  | route request route now =>
    cases Option.some.inj step
    split
    · rename_i userId entered
      obtain ⟨token,sub,bearer,decoded,parsed⟩ := authenticateOk entered
      have known := allowed.genuine request route now token rfl bearer (by rw [decoded]; simp)
      obtain ⟨grant,here,same⟩ := List.mem_map.mp known
      obtain ⟨x,earned⟩ := h.granted grant here
      have shown : request.credentials = some (createAccessToken (uuidStr x.id) none grant.now) := by
        rw [bearer,← same,earned.token]
      have outcome := @authenticateToken _ grant.now now request x.id shown
      rw [entered] at outcome
      split at outcome
      · rename_i inTime
        cases outcome
        refine guardedBegin h (.inr ⟨route,x,grant,now,here,{earned with},rfl,?_,inTime⟩)
        change (api.shown ++ [some ⟨request.credentials,now⟩])[api.system.shared.calls.length]? = _
        rw [← h.counted,List.getElem?_concat_length,bearer,same]
      · cases outcome
    · exact h
  | inside e =>
    simp only [next] at step
    split at step
    · contradiction
    · rename_i started
      obtain ⟨system,ran,rfl⟩ := Option.map_eq_some_iff.mp step
      have grows := nextGrows ran
      have run : Reach machine HashesVerify initial system := .next h.run (allowed.hashes e rfl) ran
      have intact := reachableIntact h.reachable
      have intact' := reachableIntact (run.weaken (fun _ _ _ => trivial))
      have calls : system.shared.calls = api.system.shared.calls := nextCalls ran (by simpa using started)
      refine ⟨run,?_,?_,?_⟩
      · exact calls ▸ h.counted
      · intro grant here
        obtain ⟨x,earned⟩ := h.granted grant here
        exact ⟨x,earned.grows intact intact' grows⟩
      · intro pid call called
        change system.shared.calls[pid]? = some call at called
        rw [calls] at called
        exact (h.entitled pid call called).imp_right (fun known =>
          known.grows intact intact' grows (List.prefix_refl _) (List.prefix_refl _))

theorem reachedGuarded (reached : Reached api) : Guarded api := by
  induction reached with
  | opened => exact guardedOpened
  | visited _ allowed step ih => exact guardedNext ih allowed step

end
end Api
end PaymentSystem
