import PaymentSystem.System.Api
import PaymentSystem.Guarantees.Snapshots

/-! Passwords, tokens and money. A registration is enough to log in, and the token of a
login to be its user until it expires; and nobody acts for a user, or spends what is the
user's, who has not come with a token that a password of the user was exchanged for. -/
namespace PaymentSystem
open Interleaving (Reach)

/-! Examples have one password and one hash, and the claims themselves as the text of a token. -/

@[reducible] def oneHash : CryptContext := ⟨fun plain hashed => .ok (plain == "password" && hashed == "hash")⟩

def claimsText (claims : Claims) : String :=
  JsonText.dumps (.object [("sub",.string claims.sub),("exp",.number claims.exp)])

def claimsRead (now : Int) (token : String) : Option (Option String) := do
  let doc ← JsonText.loads token
  match doc.member? "exp" with
  | some (.number exp) => if now ≤ exp then some ((doc.member? "sub").bind JsonText.Json.string?) else none
  | _ => none

@[reducible] def bareClaims : Jose where
  encode := claimsText
  decode := claimsRead
  parseUUID := fun text => JsonMode.readUUID text.toList
  decodeEncode := by
    intro claims now
    simp only [claimsRead,claimsText,JsonText.loadsDumps,bind,Option.bind_some]
    rfl
  parseStr := JsonMode.readUUIDStr

def hashesVerify [CryptContext] (c : State) : Happening → Bool
  | .step pid choice => match c.awaits pid with
      | some (.hashPassword password) => decide (choice.fault ≠ .none) || !hashable password ||
          (match verifyPassword password choice.hash with
          | .ok verified => verified
          | .error _ => false)
      | _ => true
  | _ => true

theorem hashesVerifySure [CryptContext] (c : State) (e : Happening) (h : hashesVerify c e = true) :
    HashesVerify c e := by
  rintro pid choice password rfl awaits calm fits
  simp only [hashesVerify,awaits,calm,fits,ne_eq,not_true_eq_false,decide_false,Bool.not_true,Bool.false_or] at h
  split at h
  · rename_i verified same
    rw [same,h]
  · contradiction

theorem registeredLogsIn [Pydantic] [CryptContext] [Jose] {c c' : State} (run : Reach machine HashesVerify initial c)
    (later : Reach machine HashesVerify c c') {pid session : Nat} {data : UserCreate} {user : UserResponse}
    {choice : Choice} (called : c.shared.calls[pid]? = some (.register data))
    (done : c.outcome pid = some (.ok (.user user))) (idle : c'.shared.db.pending session = [])
    (calm : choice.fault = .none) (now : Int) :
    ∃ token, (UserService.login ⟨data.email,data.password⟩ now Session.new).alone (asking session choice)
        c'.shared.stores = some ((.ok ⟨token,"bearer"⟩,Session.new),c'.shared.stores) ∧
      ∀ request time, request.credentials = some token →
        (utcSecond time ≤ tokenExpiry now → authenticate time request = .ok user.id ∧
          ∃ task, UserApi.getMe time request = .ok task ∧ (task Session.new).alone (asking session choice)
            c'.shared.stores = some ((.ok user,Session.new),c'.shared.stores)) ∧
        (tokenExpiry now < utcSecond time → UserApi.getMe time request = .error (.http 401 "Invalid or expired token")) := by
  have reachable : Reachable c := run.weaken (fun _ _ _ => trivial)
  have reachable' : Reachable c' := reachableLater reachable later
  have evolves := (reachableIntact reachable).evolves (reachableIntact reachable') (reachGrows later)
  obtain ⟨x,signed,rfl⟩ := returnedRegistered reachable called done
  have inside := evolves.users.subset signed.here
  have paired := (reachableIntact reachable').paired
  have byEmail : c'.shared.tables.usersByEmail data.email = [x] := by
    rw [← signed.email]
    exact Tables.filterUnique paired.emails inside
  have byId : c'.shared.tables.usersById x.id = [x] := Tables.filterUnique paired.userIds inside
  refine ⟨createAccessToken (uuidStr x.id) none now,?_,?_⟩
  · rw [loginAlone reachable' idle calm,byEmail]
    simp only [loginOutcome,List.head?_cons,hashVerifies run signed.hashed]
    rfl
  · intro request time bearer
    have outcome := @authenticateToken _ now time request x.id bearer
    refine ⟨?_,?_⟩
    · intro inTime
      rw [if_pos inTime] at outcome
      refine ⟨outcome,UserService.getUser x.id,?_,?_⟩
      · rw [UserApi.getMe,outcome]
        rfl
      · rw [profileAlone reachable' idle calm,byId]
        rfl
    · intro expired
      rw [if_neg (not_le.mpr expired)] at outcome
      rw [UserApi.getMe,outcome]
      rfl

open JsonMode in
theorem registeredLogsInOpening : ∃ token, (@UserService.login oneHash bareClaims ⟨"a@bank.org","password"⟩ 0
    Session.new).alone (asking 3 (calm 0)) (stateAfter opening).shared.stores =
      some ((.ok ⟨token,"bearer"⟩,Session.new),(stateAfter opening).shared.stores) ∧
      @authenticate bareClaims 60000000 ⟨some token,"-","host"⟩ = .ok 102 := by
  have run : Reach machine (@HashesVerify oneHash) initial (stateAfter opening) :=
    stateMeets opening (@hashesVerifySure oneHash) (by decide +kernel) (by decide +kernel)
  obtain ⟨token,exchanged,good⟩ := @registeredLogsIn _ oneHash bareClaims _ _ run .refl 0 3 (.named "a@bank.org")
    ⟨102,"a@bank.org","name",true,⟨2024,1,1,0,0,0,0⟩⟩ (calm 0) (by decide +kernel) (by decide +kernel)
    (by decide +kernel) rfl 0
  exact ⟨token,exchanged,((good ⟨some token,"-","host"⟩ 60000000 rfl).1 (by decide)).1⟩

/-! Runs of the whole service that are given by their visits. -/

section
variable [Pydantic] [CryptContext] [Jose]

def Api.allows (api : Api) : Visit → Bool
  | .inside e => hashesVerify api.system e
  | .route request _ now => match request.credentials with
      | some token => decide (Jose.decode (utcSecond now) token = none) || decide (token ∈ api.grants.map Grant.token)
      | none => true
  | _ => true

omit [Pydantic] in
theorem Api.allowsSure {api : Api} {visit : Visit} (h : api.allows visit = true) : api.Allows visit := by
  refine ⟨?_,?_⟩
  · rintro e rfl
    exact hashesVerifySure _ _ h
  · rintro request route now token rfl bearer decodes
    simp only [Api.allows,bearer,Bool.or_eq_true,decide_eq_true_eq] at h
    exact h.resolve_left decodes

def Api.run : List Visit → Api → Option Api
  | [], api => some api
  | visit :: rest, api => if api.allows visit then (api.next visit).bind (Api.run rest) else none

theorem Api.runReached {visits : List Visit} {api api' : Api} (reached : Api.Reached api)
    (ran : Api.run visits api = some api') : Api.Reached api' := by
  induction visits generalizing api with
  | nil => exact Option.some.inj ran ▸ reached
  | cons visit rest ih =>
    simp only [Api.run] at ran
    split at ran
    · rename_i allowed
      obtain ⟨between,step,later⟩ := Option.bind_eq_some_iff.mp ran
      exact ih (.visited reached (Api.allowsSure allowed) step) later
    · contradiction

theorem Api.entered {api : Api} (reached : Api.Reached api) {id : UUID} {issued now : Int} (route : Route)
    (known : createAccessToken (uuidStr id) none issued ∈ api.grants.map Grant.token)
    (inTime : utcSecond now ≤ tokenExpiry issued) : Api.Reached (api.begin (route.call id)
      (some ⟨some (createAccessToken (uuidStr id) none issued),now⟩)) := by
  have admitted : authenticate now ⟨some (createAccessToken (uuidStr id) none issued),"-","host"⟩ = .ok id :=
    (authenticateToken rfl).trans (if_pos inTime)
  refine @Reached.visited _ _ _ api _ (.route ⟨some (createAccessToken (uuidStr id) none issued),"-","host"⟩ route now)
    reached ⟨?_,?_⟩ ?_
  · intro e same
    cases same
  · rintro request route now token same bearer _
    cases same
    cases bearer
    exact known
  · simp only [Api.next,admitted]

end

theorem onlyOwnersSpend [Pydantic] [CryptContext] [Jose] {api : Api} (reached : Api.Reached api) :
    (∀ pid call, api.system.shared.calls[pid]? = some call →
      (∃ data, call = .register data) ∨ api.Entitled pid call) ∧
    (∀ n commit before after, api.system.shared.wal[n]? = some commit →
      before ∈ (tablesAt api.system.shared.wal n).wallets → after ∈ (tablesAt api.system.shared.wal (n + 1)).wallets →
      after.id = before.id → after.balance.units < before.balance.units →
      ∃ order redisClient, api.Entitled commit.pid (.sendMoney before.userId order redisClient) ∧
        api.system.shared.calls[commit.pid]? = some (.sendMoney before.userId order redisClient) ∧
        after.balance.units = before.balance.units - order.amount.cents ∧ order.amount.cents ≤ before.balance.units) ∧
    ∀ x ∈ api.system.shared.tables.users, ∃ pid data, SignedUp pid api.system.shared data x ∧
      verifyPassword data.password x.passwordHash = .ok true := by
  have guarded := Api.reachedGuarded reached
  have reachable := guarded.reachable
  have intact := reachableIntact reachable
  refine ⟨guarded.entitled,?_,?_⟩
  · intro n commit before after found here there same less
    obtain ⟨call,request,reply,called,asked,_,does⟩ := (intact.legal.entryAt found).does (soundAt intact n)
    rw [← tablesAtSucc found] at does
    have funds := (soundAt intact n).funds here
    have funds' := (soundAt intact (n + 1)).funds there
    rw [same] at funds'
    have deposits : ∀ user cents, request = .deposit user cents → 0 ≤ cents := by
      rintro user cents rfl
      obtain ⟨amount,_,_,rfl⟩ := requestDeposit asked
      exact Int.le_of_lt amount.positive
    obtain ⟨payer,order,rfl,holds,moved,covered⟩ := does.spends deposits (by rw [funds,funds']; exact less)
    obtain ⟨redisClient,rfl⟩ := requestPay asked
    obtain ⟨wallet,inside,owner,one⟩ := accountMem holds
    cases Tables.uniqueBy (keyedAt intact n).walletIds inside here one
    subst owner
    rcases guarded.entitled commit.pid _ called with ⟨data,other⟩ | entitled
    · cases other
    · rw [funds,funds'] at moved
      rw [funds] at covered
      exact ⟨order,redisClient,entitled,called,moved,covered⟩
  · intro x here
    obtain ⟨pid,data,signed⟩ := usersRegistered reachable here
    exact ⟨pid,data,signed,hashVerifies guarded.run signed.hashed⟩

/-! Two registrations and a login, and with its token a top-up of 50.00 and the rent. -/

section
open JsonMode

def rentToken : String := @createAccessToken bareClaims (uuidStr 102) none 0

def rentLogin : Option Api := @Api.run _ oneHash bareClaims
  (.register (.named "a@bank.org") :: ((steps 0 7 100).map .inside ++ (.register (.named "b@bank.org") ::
    ((steps 1 7 200).map .inside ++ [.login ⟨"a@bank.org","password"⟩ 0 (calm 0)])))) Api.opened

def rentFunded : Option Api := @Api.run _ oneHash bareClaims ((steps 2 7 300).map .inside)
  ((rentLogin.getD Api.opened).begin (.topUp 102 fiftyDollars true) (some ⟨some rentToken,1000000⟩))

def rentServed : Option Api := @Api.run _ oneHash bareClaims ((steps 3 11 400).map .inside)
  ((rentFunded.getD Api.opened).begin (.sendMoney 102 rent false) (some ⟨some rentToken,2000000⟩))

theorem rentReached : @Api.Reached _ oneHash bareClaims (rentServed.getD Api.opened) := by
  have served : ∀ {ran : Option Api} {visits api}, @Api.Reached _ oneHash bareClaims api →
      @Api.run _ oneHash bareClaims visits api = ran → ran.isSome = true →
      @Api.Reached _ oneHash bareClaims (ran.getD Api.opened) := by
    intro ran visits api reached same possible
    obtain ⟨last,rfl⟩ := Option.isSome_iff_exists.mp possible
    exact @Api.runReached _ oneHash bareClaims _ _ _ reached same
  have login := served (@Api.Reached.opened _ oneHash bareClaims) (rfl : _ = rentLogin) (by decide +kernel)
  have funded := served (@Api.entered _ oneHash bareClaims _ login 102 0 1000000
    (.topUp fiftyDollars true) (by decide +kernel) (by decide)) (rfl : _ = rentFunded) (by decide +kernel)
  exact served (@Api.entered _ oneHash bareClaims _ funded 102 0 2000000 (.sendMoney rent false) (by decide +kernel)
    (by decide)) (rfl : _ = rentServed) (by decide +kernel)

end

open JsonMode in
theorem onlyOwnersSpendRent : ∃ order redisClient,
    (rentServed.getD Api.opened).system.shared.calls[3]? = some (.sendMoney 102 order redisClient) ∧
      order.amount.cents = 3000 := by
  obtain ⟨order,redisClient,_,called,moved,_⟩ := (@onlyOwnersSpend _ oneHash bareClaims _ rentReached).2.1 3
    ((rentServed.getD Api.opened).system.shared.wal[3]?.getD ⟨3,[]⟩) ⟨103,102,⟨5000,by decide⟩,"USD",2,⟨2024,1,1,0,0,0,0⟩⟩
    ⟨103,102,⟨2000,by decide⟩,"USD",3,⟨2024,1,1,0,0,0,0⟩⟩ (by decide +kernel) (by decide +kernel) (by decide +kernel)
    rfl (by decide)
  have third : ((rentServed.getD Api.opened).system.shared.wal[3]?.getD (⟨3,[]⟩ : Commit)).pid = 3 := by decide +kernel
  rw [third] at called
  refine ⟨order,redisClient,called,?_⟩
  have moved : (2000 : Int) = 5000 - order.amount.cents := moved
  omega

end PaymentSystem
