import PaymentSystem.Base.Buckets
import PaymentSystem.System.Schedule
import PaymentSystem.Service.RateLimiter

/-! The rate limit of POST /payments/send. What a check is answered depends on the
checks under the same key, and the key is made of the client address. So the requests
of a user are limited by themselves just where the user shares no address. -/
namespace PaymentSystem

def Counter.check (maxRequests : Nat) (moments : Moment × Moment) (held : Option Counter) : Bool × Option Counter :=
  let out := CacheManager.checkRateLimit (fun _ => held) "" "" maxRequests moments.1 moments.2
  (out.1,out.2 (CacheKeys.rateLimit "" ""))

def Arrival.key (a : Arrival) : String := CacheKeys.rateLimit a.request.host sendPath

def Arrival.moments (a : Arrival) : Moment × Moment := (a.first,a.second)

def Refusal.allows : Except Refusal UUID → Bool
  | .error (.http 429 _) => false
  | _ => true

section
variable [Jwt]

def PaymentApi.serve : List Arrival → Counters → List (Arrival × Except Refusal UUID)
  | [], _ => []
  | a :: rest, counters =>
      let out := PaymentApi.beforeSend a counters
      (a,out.1) :: PaymentApi.serve rest out.2

end

structure Traffic (possible : HttpRequest → Prop) where
  arrivals : List Arrival
  ordered : arrivals.Pairwise (fun a b => a.first.time ≤ b.first.time)
  timely : ∀ a ∈ arrivals, a.first.time ≤ a.second.time
  made : ∀ a ∈ arrivals, possible a.request

def HttpRequest.anywhere (r : HttpRequest) : HttpRequest := {r with host := ""}

def Arrival.anywhere (a : Arrival) : Arrival := {a with request := a.request.anywhere}

namespace Traffic
variable [Jwt] {possible : HttpRequest → Prop}

def own (userId : UUID) (traffic : Traffic possible) : List Arrival :=
  traffic.arrivals.filter (fun a => decide (a.request.user = some userId))

def Agree (userId : UUID) (first second : Traffic possible) : Prop :=
  (first.own userId).map Arrival.anywhere = (second.own userId).map Arrival.anywhere

def decisions (userId : UUID) (traffic : Traffic possible) : List Bool :=
  ((PaymentApi.serve traffic.arrivals (fun _ => none)).filter
    (fun x => decide (x.1.request.user = some userId))).map (fun x => Refusal.allows x.2)

end Traffic

def LimitedPerUser [Jwt] (possible : HttpRequest → Prop) (userId : UUID) : Prop :=
  ∀ first second : Traffic possible, first.Agree userId second → first.decisions userId = second.decisions userId

/-- No request that is not the user's, be it another user's or one without a valid token,
comes from an address of the user, and no request of the user comes from two addresses. -/
def OwnAddresses [Jwt] (possible : HttpRequest → Prop) (userId : UUID) : Prop :=
  ∀ r r', possible r → possible r' → r.user = some userId →
    (r'.host = r.host → r'.user = some userId) ∧ (r'.anywhere = r.anywhere → r'.host = r.host)

theorem checkCounts {counters : Counters} {userId endpoint : String} {maxRequests : Nat} {first second : Moment} :
    CacheManager.checkRateLimit counters userId endpoint maxRequests first second =
      ((Counter.check maxRequests (first,second) (counters (CacheKeys.rateLimit userId endpoint))).1,
        Function.update counters (CacheKeys.rateLimit userId endpoint)
          (Counter.check maxRequests (first,second) (counters (CacheKeys.rateLimit userId endpoint))).2) := by
  generalize held : counters (CacheKeys.rateLimit userId endpoint) = c
  have idle : Function.update counters (CacheKeys.rateLimit userId endpoint) c = counters := by
    rw [← held,Function.update_eq_self]
  obtain ⟨now,fault⟩ := first
  obtain ⟨later,fault'⟩ := second
  simp only [Counter.check,CacheManager.checkRateLimit,Counters.incr,Counters.expire,Counters.command,held]
  cases c.filter (Counter.alive now) with
  | none =>
    cases fault with
    | none => cases fault' <;> simp [Function.update_idem]
    | raises => simp [idle]
    | raisesAfter => simp
  | some counter =>
    cases fault with
    | none =>
      by_cases fresh : counter.value = 0
      · cases fault' <;> simp [fresh,Function.update_idem]
      · simp [fresh]
    | raises => simp [idle]
    | raisesAfter => simp

theorem keyHost {a b : Arrival} (same : a.key = b.key) : a.request.host = b.request.host := by
  simp only [Arrival.key,CacheKeys.rateLimit,String.append_left_inj,String.append_right_inj] at same
  exact same

section
variable [Jwt] {counters : Counters} {arrival : Arrival} {arrivals : List Arrival}

theorem authenticates {r : HttpRequest} : Refusal.allows (getCurrentUserId r) = true := by
  unfold getCurrentUserId
  split
  · rfl
  · split
    · rfl
    · rfl
    · split <;> rfl

theorem beforeSendChecks : (Refusal.allows (PaymentApi.beforeSend arrival counters).1,(PaymentApi.beforeSend arrival counters).2) =
    Buckets.step Arrival.key Arrival.moments (Counter.check paymentRateLimit.maxRequests) counters arrival := by
  simp only [PaymentApi.beforeSend,RequestContextMiddleware.dispatch,RequestContext.new,RateLimiter.call,checkCounts,
    Buckets.step,Arrival.key,Arrival.moments]
  generalize Counter.check paymentRateLimit.maxRequests (arrival.first,arrival.second)
    (counters (CacheKeys.rateLimit arrival.request.host sendPath)) = out
  obtain ⟨allowed,held⟩ := out
  cases allowed with
  | true => simp only [authenticates]
  | false => rfl

theorem servedRun : (PaymentApi.serve arrivals counters).map (fun x => (x.1,Refusal.allows x.2)) =
    Buckets.run Arrival.key Arrival.moments (Counter.check paymentRateLimit.maxRequests) arrivals counters := by
  induction arrivals generalizing counters with
  | nil => rfl
  | cons a rest ih =>
    simp only [PaymentApi.serve,Buckets.run,List.map_cons,ih,← beforeSendChecks]

end

namespace Traffic
variable [Jwt] {possible : HttpRequest → Prop} {userId : UUID} {traffic first second : Traffic possible}

theorem decisionsRun : traffic.decisions userId = ((Buckets.run Arrival.key Arrival.moments
    (Counter.check paymentRateLimit.maxRequests) traffic.arrivals (fun _ => none)).filter
      (fun x => decide (x.1.request.user = some userId))).map Prod.snd := by
  rw [← servedRun,List.filter_map,List.map_map]
  rfl

theorem decisionsOwn (ownAddresses : OwnAddresses possible userId) :
    traffic.decisions userId = (Buckets.run Arrival.key Arrival.moments
      (Counter.check paymentRateLimit.maxRequests) (traffic.own userId) (fun _ => none)).map Prod.snd := by
  classical
  -- the counters of the user, which nobody else uses
  let inside : String → Bool := fun k => decide (∃ a ∈ traffic.own userId, a.key = k)
  have mine : ∀ a ∈ traffic.arrivals, inside a.key = decide (a.request.user = some userId) := by
    intro a here
    refine decide_eq_decide.mpr ⟨?_,?_⟩
    · rintro ⟨b,own,same⟩
      obtain ⟨there,user⟩ := List.mem_filter.mp own
      exact (ownAddresses b.request a.request (traffic.made b there) (traffic.made a here) (of_decide_eq_true user)).1
        (keyHost same).symm
    · intro user
      exact ⟨a,List.mem_filter.mpr ⟨here,decide_eq_true user⟩,rfl⟩
  rw [decisionsRun,own,← List.filter_congr mine,← Buckets.runWithin (fun _ _ => rfl)]
  congr 1
  refine List.filter_congr (fun x hx => (mine x.1 ?_).symm)
  have there := List.mem_map_of_mem (f := Prod.fst) hx
  rw [Buckets.runItems] at there
  exact there

theorem limitedAlone (ownAddresses : OwnAddresses possible userId) : LimitedPerUser possible userId := by
  intro first second agree
  have pairs : (first.own userId).map (fun a => (a.key,a.moments)) =
      (second.own userId).map (fun a => (a.key,a.moments)) := by
    refine Buckets.mapAgain agree ?_
    intro a ha b hb same
    obtain ⟨here,user⟩ := List.mem_filter.mp ha
    obtain ⟨there,_⟩ := List.mem_filter.mp hb
    have contents : b.request.anywhere = a.request.anywhere := (congrArg Arrival.request same).symm
    have host := (ownAddresses a.request b.request (first.made a here) (second.made b there) (of_decide_eq_true user)).2
      contents
    have moments : a.moments = b.moments :=
      (congrArg Arrival.moments same : a.anywhere.moments = b.anywhere.moments)
    simp only [Arrival.key,host,moments]
  rw [decisionsOwn ownAddresses,decisionsOwn ownAddresses,Buckets.runPairs,pairs,← Buckets.runPairs]

def atOnce (r : HttpRequest) : Arrival := ⟨r,⟨0,.none⟩,⟨0,.none⟩⟩

def burst (requests : List HttpRequest) (made : ∀ r ∈ requests, possible r) : Traffic possible where
  arrivals := requests.map atOnce
  ordered := List.pairwise_map.mpr (List.pairwise_of_forall (fun _ _ => Nat.le_refl 0))
  timely := by
    intro a here
    obtain ⟨r,_,rfl⟩ := List.mem_map.mp here
    exact Nat.le_refl 0
  made := by
    intro a here
    obtain ⟨r,there,rfl⟩ := List.mem_map.mp here
    exact made r there

def allowances (n : Nat) : List Bool :=
  Buckets.alone (Counter.check paymentRateLimit.maxRequests) (List.replicate n (⟨0,.none⟩,⟨0,.none⟩)) none

omit [Jwt] in
theorem burstRun {requests : List HttpRequest} {host : String} {counters : Counters}
    (same : ∀ r ∈ requests, r.host = host) (fresh : counters (CacheKeys.rateLimit host sendPath) = none) :
    Buckets.run Arrival.key Arrival.moments (Counter.check paymentRateLimit.maxRequests) (requests.map atOnce)
      counters = (requests.map atOnce).zip (allowances requests.length) := by
  have moments : (requests.map atOnce).map Arrival.moments =
      List.replicate requests.length (⟨0,.none⟩,⟨0,.none⟩) := by
    rw [List.map_map]
    exact List.map_eq_replicate_iff.mpr (fun _ _ => rfl)
  rw [Buckets.runSame (k := CacheKeys.rateLimit host sendPath),moments,fresh,allowances]
  intro a here
  obtain ⟨r,there,rfl⟩ := List.mem_map.mp here
  exact congrArg (fun x => CacheKeys.rateLimit x sendPath) (same r there)

theorem neverShared {r r' : HttpRequest} (limited : LimitedPerUser possible userId) (here : possible r)
    (there : possible r') (user : r.user = some userId) (same : r'.host = r.host) : r'.user = some userId := by
  by_contra other
  have one : ∀ x ∈ [r], possible x := List.forall_mem_singleton.mpr here
  have many : ∀ x ∈ List.replicate 20 r' ++ [r], possible x :=
    List.forall_mem_append.mpr ⟨fun x inside => List.eq_of_mem_replicate inside ▸ there,one⟩
  have host : ∀ x ∈ [r], x.host = r.host := List.forall_mem_singleton.mpr rfl
  have hosts : ∀ x ∈ List.replicate 20 r' ++ [r], x.host = r.host :=
    List.forall_mem_append.mpr ⟨fun x inside => List.eq_of_mem_replicate inside ▸ same,host⟩
  have agree : (burst [r] one).Agree userId (burst (List.replicate 20 r' ++ [r]) many) := by
    simp [Agree,own,burst,atOnce,user,other]
  have decided := limited _ _ agree
  have first : allowances 1 = [true] := by decide
  have last : allowances 21 = List.replicate 20 true ++ [false] := by decide
  simp only [decisionsRun,burst] at decided
  rw [burstRun host rfl,burstRun hosts rfl] at decided
  simp only [List.length_append,List.length_replicate,List.length_singleton,Nat.reduceAdd] at decided
  rw [first,last,List.map_append,List.zip_append (by simp)] at decided
  simp [atOnce,user,other] at decided

theorem neverTwo {r r' : HttpRequest} (limited : LimitedPerUser possible userId) (here : possible r)
    (there : possible r') (user : r.user = some userId) (same : r'.anywhere = r.anywhere) : r'.host = r.host := by
  by_contra other
  have credentials : r'.credentials = r.credentials :=
    (congrArg HttpRequest.credentials same : r'.anywhere.credentials = r.anywhere.credentials)
  have user' : r'.user = some userId := by
    rw [← user]
    simp only [HttpRequest.user,getCurrentUserId,credentials]
  have often (n : Nat) : ∀ x ∈ List.replicate n r, possible x := fun x inside =>
    List.eq_of_mem_replicate inside ▸ here
  have hosts (n : Nat) : ∀ x ∈ List.replicate n r, x.host = r.host := fun x inside =>
    congrArg HttpRequest.host (List.eq_of_mem_replicate inside)
  -- the first of 21 requests comes from the other address in one run and from this one in the other
  have agree : (burst (List.replicate 21 r) (often 21)).Agree userId
      (burst (r' :: List.replicate 20 r) (List.forall_mem_cons.mpr ⟨there,often 20⟩)) := by
    simp [Agree,own,burst,atOnce,Arrival.anywhere,user,user',same,List.replicate_succ]
  have decided := limited _ _ agree
  have away : (atOnce r').key ≠ CacheKeys.rateLimit r.host sendPath := fun h =>
    other (keyHost (a := atOnce r') (b := atOnce r) h)
  have empty : (Buckets.step Arrival.key Arrival.moments (Counter.check paymentRateLimit.maxRequests)
      (fun _ => none) (atOnce r')).2 (CacheKeys.rateLimit r.host sendPath) = none :=
    Buckets.stepOther away.symm
  have second : Buckets.run Arrival.key Arrival.moments (Counter.check paymentRateLimit.maxRequests)
      ((r' :: List.replicate 20 r).map atOnce) (fun _ => none) =
      (atOnce r',true) :: ((List.replicate 20 r).map atOnce).zip (allowances 20) := by
    rw [List.map_cons,Buckets.run,burstRun (hosts 20) empty,List.length_replicate]
    rfl
  have fewer : allowances 20 = List.replicate 20 true := by decide
  have last : allowances 21 = List.replicate 20 true ++ [false] := by decide
  simp only [decisionsRun,burst] at decided
  rw [burstRun (hosts 21) rfl,second,List.length_replicate,fewer,last] at decided
  simp [atOnce,user,user',List.replicate_succ] at decided

end Traffic

theorem limitedPerUser [Jwt] (possible : HttpRequest → Prop) (userId : UUID) :
    LimitedPerUser possible userId ↔ OwnAddresses possible userId := by
  constructor
  · intro limited r r' here there user
    exact ⟨Traffic.neverShared limited here there user,Traffic.neverTwo limited here there user⟩
  · exact Traffic.limitedAlone

@[reducible] def plainTokens : Jwt := ⟨fun token => some (some token),fun subject => JsonMode.readUUID subject.toList⟩

def fromOffice (userId : UUID) : HttpRequest := ⟨some (uuidStr userId),"-","203.0.113.7"⟩

def quietOffice : Traffic (fun _ => True) := Traffic.burst [fromOffice 102] (fun _ _ => trivial)

def busyOffice : Traffic (fun _ => True) :=
  Traffic.burst (List.replicate 20 (fromOffice 202) ++ [fromOffice 102]) (fun _ _ => trivial)

theorem refusedForColleague : ¬ ∀ (_ : Jwt) (userId : UUID), LimitedPerUser (fun _ => True) userId := by
  intro h
  have agree : letI := plainTokens; quietOffice.Agree 102 busyOffice := by
    unfold Traffic.Agree
    decide +kernel
  have same := h plainTokens 102 quietOffice busyOffice agree
  exact absurd same (by decide +kernel)

end PaymentSystem
