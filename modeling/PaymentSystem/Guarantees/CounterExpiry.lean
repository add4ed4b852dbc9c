import PaymentSystem.System.Limiter

/-! The expiry of counters. A counter is made by an INCR and given its expiry by the
EXPIRE of the same check, so it is forgotten in time wherever that EXPIRE comes. -/
namespace PaymentSystem
open Interleaving (Program Event Reach)

namespace Counters
variable {counters : Counters} {key key' : String} {counter : Counter} {moment : Moment} {ttl : Nat}

theorem commandOther {α : Type} {value : α} {stored : Option Counter} (other : key' ≠ key) :
    (counters.command key moment value stored).2 key' = counters key' := by
  unfold command
  split <;> simp [Function.update_of_ne other]

theorem incrOther (other : key' ≠ key) : (counters.incr key moment).2 key' = counters key' := by
  unfold incr
  split <;> exact commandOther other

theorem expireOther (other : key' ≠ key) : (counters.expire key ttl moment).2 key' = counters key' :=
  commandOther other

theorem incrCounter (h : (counters.incr key moment).2 key' = some counter) : counters key' = some counter ∨
    (key' = key ∧ ((∃ old, counters key = some old ∧ counter.expiresAt = old.expiresAt) ∨
      ((counters key).filter (Counter.alive moment.time) = none ∧ moment.fault ≠ .raises ∧
        counter.expiresAt = none ∧ (moment.fault = .none → (counters.incr key moment).1 = .ok 1)))) := by
  by_cases same : key' = key
  · subst same
    simp only [incr] at h ⊢
    cases found : (counters key').filter (Counter.alive moment.time) with
    | some old =>
      have there : counters key' = some old := (Option.filter_eq_some_iff.mp found).1
      rw [found] at h
      simp only [command] at h
      cases fault : moment.fault with
      | raises =>
        rw [fault] at h
        exact .inl h
      | none =>
        simp only [fault,Function.update_self,Option.some.injEq] at h
        exact .inr ⟨trivial,.inl ⟨old,there,by rw [← h]⟩⟩
      | raisesAfter =>
        simp only [fault,Function.update_self,Option.some.injEq] at h
        exact .inr ⟨trivial,.inl ⟨old,there,by rw [← h]⟩⟩
    | none =>
      rw [found] at h
      simp only [command] at h
      cases fault : moment.fault with
      | raises =>
        rw [fault] at h
        exact .inl h
      | none =>
        simp only [fault,Function.update_self,Option.some.injEq] at h
        exact .inr ⟨trivial,.inr ⟨rfl,by decide,by rw [← h],fun _ => by simp only [command,fault]⟩⟩
      | raisesAfter =>
        simp only [fault,Function.update_self,Option.some.injEq] at h
        exact .inr ⟨trivial,.inr ⟨rfl,by decide,by rw [← h],fun calm => by contradiction⟩⟩
  · rw [incrOther same] at h
    exact .inl h

theorem expireCounter (h : (counters.expire key ttl moment).2 key' = some counter) (fine : moment.fault ≠ .raises) :
    (key' ≠ key ∧ counters key' = some counter) ∨ (key' = key ∧ counter.expiresAt = some (moment.time + milliseconds ttl)) := by
  have stored : (counters.expire key ttl moment).2 = Function.update counters key
      (((counters key).filter (Counter.alive moment.time)).map
        (fun c => {c with expiresAt := some (moment.time + milliseconds ttl)})) := by
    unfold expire command
    cases fault : moment.fault with
    | raises => exact absurd fault fine
    | none => rfl
    | raisesAfter => rfl
  rw [stored] at h
  by_cases same : key' = key
  · subst same
    rw [Function.update_self] at h
    obtain ⟨old,_,rfl⟩ := Option.map_eq_some_iff.mp h
    exact .inr ⟨rfl,rfl⟩
  · rw [Function.update_of_ne same] at h
    exact .inl ⟨same,h⟩

end Counters

/-- Every counter is given its expiry: an EXPIRE that a check makes takes effect, no check
is stopped before it, and no INCR that makes a counter raises all the same. -/
def GivesExpiry (c : LimiterState) : LimiterEvent → Prop
  | .step pid fault =>
      match c.awaits pid with
      | some (.incr key) =>
          fault = .raisesAfter → (c.shared.counters key).filter (Counter.alive c.shared.now) ≠ none
      | some (.expire _ _) => fault ≠ .raises
      | none => True
  | .stop pid =>
      match c.awaits pid with
      | some (.expire _ _) => False
      | _ => True
  | _ => True

instance (c : LimiterState) (e : LimiterEvent) : Decidable (GivesExpiry c e) := by
  unfold GivesExpiry
  split
  · split <;> infer_instance
  · split <;> infer_instance
  · infer_instance

def Expiring (c : LimiterState) (key : String) (counter : Counter) : Prop :=
  (∃ expiry, counter.expiresAt = some expiry ∧ expiry ≤ c.shared.now + milliseconds CacheTTL.rateLimit) ∨
    (counter.expiresAt = none ∧ ∃ pid, c.awaits pid = some (.expire key CacheTTL.rateLimit))

def AllExpiring (c : LimiterState) : Prop :=
  ∀ key counter, c.shared.counters key = some counter → Expiring c key counter

section
variable {c c' : LimiterState} {e : LimiterEvent}

theorem stageIncr {check : RateCheck} {key : String}
    {next : LimiterRes (.incr key) → Program LimiterOp LimiterRes (Option Bool)}
    (stage : check.Stage (.call (.incr key) next)) :
    (next (.ok (show Nat from 1))).awaited = some (.expire key CacheTTL.rateLimit) := by
  generalize here : Program.call _ next = p at stage
  cases stage with
  | begun => cases here; rfl
  | counted => cases here
  | ended => cases here

theorem stageExpire {check : RateCheck} {key : String} {ttl : Nat}
    {next : LimiterRes (.expire key ttl) → Program LimiterOp LimiterRes (Option Bool)}
    (stage : check.Stage (.call (.expire key ttl) next)) : ttl = CacheTTL.rateLimit := by
  generalize here : Program.call _ next = p at stage
  cases stage with
  | begun => cases here
  | counted => cases here; rfl
  | ended => cases here

theorem awaitsSet {pid other : Nat} {p : Program LimiterOp LimiterRes (Option Bool)} {w : LimiterWorld}
    (apart : other ≠ pid) : LimiterState.awaits ⟨w,c.running.set pid p⟩ other = c.awaits other := by
  rw [LimiterState.awaits,List.getElem?_set_ne apart.symm]
  rfl

theorem Expiring.same {key : String} {before counter : Counter} (h : Expiring c key before)
    (same : counter.expiresAt = before.expiresAt) : Expiring c key counter := by
  rw [Expiring,same]
  exact h

theorem Expiring.apart {key : String} {counter : Counter} {pid : Nat} {p : Program LimiterOp LimiterRes (Option Bool)}
    {w : LimiterWorld} (h : Expiring c key counter) (now : c.shared.now ≤ w.now)
    (elsewhere : c.awaits pid ≠ some (.expire key CacheTTL.rateLimit)) :
    Expiring ⟨w,c.running.set pid p⟩ key counter := by
  rcases h with ⟨expiry,expires,soon⟩ | ⟨endless,other,awaits⟩
  · exact .inl ⟨expiry,expires,soon.trans (Nat.add_le_add_right now _)⟩
  · have apart : other ≠ pid := by
      rintro rfl
      exact elsewhere awaits
    exact .inr ⟨endless,other,by rw [awaitsSet apart]; exact awaits⟩

theorem expiringIncr {pid : Nat} {name : String} {fault : Fault} {r : LimiterRes (.incr name)} {w : LimiterWorld}
    {next : LimiterRes (.incr name) → Program LimiterOp LimiterRes (Option Bool)} (staged : Staged c)
    (all : AllExpiring c) (running : c.running[pid]? = some (.call (.incr name) next))
    (ok : GivesExpiry c (.step pid fault)) (ran : LimiterWorld.exec pid c.shared (.incr name) fault = some (r,w)) :
    AllExpiring ⟨w,c.running.set pid (next r)⟩ := by
  obtain ⟨check,_,stage⟩ := staged.2 pid _ running
  have awaited : c.awaits pid = some (.incr name) := by
    rw [LimiterState.awaits,running]
    rfl
  simp only [GivesExpiry,awaited] at ok
  cases Option.some.inj ran
  intro key counter here
  rcases Counters.incrCounter here with there | ⟨rfl,⟨before,there,same⟩ | ⟨fresh,effect,endless,calm⟩⟩
  · exact (all key counter there).apart (Nat.le_refl _) (by simp [awaited])
  · exact ((all key before there).apart (Nat.le_refl _) (by simp [awaited])).same same
  · -- the INCR has made the counter, so its check goes on to the EXPIRE
    have fine : fault = .none := by
      cases fault with
      | none => rfl
      | raises => contradiction
      | raisesAfter => exact absurd fresh (ok rfl)
    have inside := (List.getElem?_eq_some_iff.mp running).1
    refine .inr ⟨endless,pid,?_⟩
    rw [LimiterState.awaits,List.getElem?_set_self inside,Option.bind_some,calm fine]
    exact stageIncr stage

theorem expiringExpire {pid ttl : Nat} {name : String} {fault : Fault} {r : LimiterRes (.expire name ttl)}
    {w : LimiterWorld} {next : LimiterRes (.expire name ttl) → Program LimiterOp LimiterRes (Option Bool)}
    (staged : Staged c) (all : AllExpiring c) (running : c.running[pid]? = some (.call (.expire name ttl) next))
    (ok : GivesExpiry c (.step pid fault))
    (ran : LimiterWorld.exec pid c.shared (.expire name ttl) fault = some (r,w)) :
    AllExpiring ⟨w,c.running.set pid (next r)⟩ := by
  obtain ⟨check,_,stage⟩ := staged.2 pid _ running
  have awaited : c.awaits pid = some (.expire name ttl) := by
    rw [LimiterState.awaits,running]
    rfl
  simp only [GivesExpiry,awaited] at ok
  cases Option.some.inj ran
  cases stageExpire stage
  intro key counter here
  rcases Counters.expireCounter here ok with ⟨other,there⟩ | ⟨rfl,expires⟩
  · exact (all key counter there).apart (Nat.le_refl _) (by simpa [awaited] using fun same => other same.symm)
  · exact .inl ⟨_,expires,Nat.le_refl _⟩

theorem expiringNext (staged : Staged c) (all : AllExpiring c) (ok : GivesExpiry c e)
    (h : limiterMachine.next c e = some c') : AllExpiring c' := by
  cases e with
  | start check =>
    cases Option.some.inj h
    intro key counter here
    rcases all key counter here with soon | ⟨endless,pid,awaits⟩
    · exact .inl soon
    · refine .inr ⟨endless,pid,?_⟩
      obtain ⟨p,there,awaited⟩ := Option.bind_eq_some_iff.mp awaits
      have inside := (List.getElem?_eq_some_iff.mp there).1
      change ((c.running ++ [check.program])[pid]?).bind Program.awaited = _
      rw [List.getElem?_append_left inside]
      exact awaits
  | step pid fault =>
    obtain ⟨op,next,r,w',running,ran,rfl⟩ := limiterStep h
    cases op with
    | incr name => exact expiringIncr staged all running ok ran
    | expire name ttl => exact expiringExpire staged all running ok ran
  | stop pid =>
    obtain ⟨_,rfl⟩ := limiterStop h
    intro key counter here
    refine (all key counter here).apart (Nat.le_refl _) (fun awaits => ?_)
    simp only [GivesExpiry,awaits] at ok
  | drift passed =>
    cases Option.some.inj h
    intro key counter here
    rcases all key counter here with ⟨expiry,expires,soon⟩ | waiting
    · refine .inl ⟨expiry,expires,soon.trans ?_⟩
      change _ ≤ c.shared.now + passed + milliseconds CacheTTL.rateLimit
      omega
    · exact .inr waiting

theorem stagedReach {meets : LimiterState → LimiterEvent → Prop} (staged : Staged c)
    (later : Reach limiterMachine meets c c') : Staged c' ∧ c.shared.checks <+: c'.shared.checks := by
  induction later with
  | refl => exact ⟨staged,List.prefix_refl _⟩
  | next before ok step ih =>
    obtain ⟨staged',grows⟩ := stagedNext ih.1 step
    exact ⟨staged',ih.2.trans grows⟩

theorem startStaged : Staged limiterStart := ⟨rfl,fun pid p here => by simp [limiterStart] at here⟩

theorem expiringReach (reach : Reach limiterMachine GivesExpiry limiterStart c) : AllExpiring c := by
  induction reach with
  | refl =>
    intro key counter here
    simp [limiterStart] at here
  | next before ok step ih => exact expiringNext (stagedReach startStaged before).1 ih ok step

theorem overStays {meets : LimiterState → LimiterEvent → Prop} (later : Reach limiterMachine meets c c') {pid : Nat}
    {answer : Option Bool} (done : c.running[pid]? = some (.done answer)) :
    c'.running[pid]? = some (.done answer) := by
  induction later with
  | refl => exact done
  | @next c₁ c₂ e before ok step ih =>
    cases e with
    | start check =>
      cases Option.some.inj step
      change (c₁.running ++ [check.program])[pid]? = _
      rw [List.getElem?_append_left (List.getElem?_eq_some_iff.mp ih).1]
      exact ih
    | step other fault =>
      obtain ⟨op,next,r,w',running,_,rfl⟩ := limiterStep step
      have apart : other ≠ pid := by
        rintro rfl
        rw [running] at ih
        cases ih
      rw [List.getElem?_set_ne apart]
      exact ih
    | stop other =>
      obtain ⟨⟨op,next,running⟩,rfl⟩ := limiterStop step
      have apart : other ≠ pid := by
        rintro rfl
        rw [running] at ih
        cases ih
      rw [List.getElem?_set_ne apart]
      exact ih
    | drift passed =>
      cases Option.some.inj step
      exact ih

def NoRequest (c c' : LimiterState) (key : String) : Prop :=
  ∀ (pid : Nat) (check : RateCheck), c'.shared.checks[pid]? = some check → check.key = key →
    ∃ answer, c.running[pid]? = some (.done answer)

theorem counterStays {meets : LimiterState → LimiterEvent → Prop} (staged : Staged c)
    (later : Reach limiterMachine meets c c') {key : String} (quiet : NoRequest c c' key) :
    c'.shared.counters key = c.shared.counters key := by
  induction later with
  | refl => rfl
  | @next c₁ c₂ e before ok step ih =>
    obtain ⟨_,grows⟩ := stagedNext (stagedReach staged before).1 step
    have earlier : NoRequest c c₁ key := by
      intro pid check found own
      obtain ⟨more,same⟩ := grows
      refine quiet pid check ?_ own
      rw [← same,List.getElem?_append_left (List.getElem?_eq_some_iff.mp found).1]
      exact found
    refine Eq.trans ?_ (ih earlier)
    cases e with
    | start check => cases Option.some.inj step; rfl
    | step pid fault =>
      obtain ⟨op,next,r,w',running,ran,rfl⟩ := limiterStep step
      obtain ⟨check,found,stage⟩ := (stagedReach staged before).1.2 pid _ running
      have other : key ≠ op.key := by
        intro same
        obtain ⟨answer,done⟩ := earlier pid check found ((stageNext stage r).1.symm.trans same.symm)
        rw [overStays before done] at running
        cases running
      cases op with
      | incr name => cases Option.some.inj ran; exact Counters.incrOther other
      | expire name ttl => cases Option.some.inj ran; exact Counters.expireOther other
    | stop pid =>
      obtain ⟨_,rfl⟩ := limiterStop step
      rfl
    | drift passed => cases Option.some.inj step; rfl

theorem freshAllows {counters : Counters} {userId endpoint : String} {maxRequests : Nat} {first second : Moment}
    (dead : (counters (CacheKeys.rateLimit userId endpoint)).filter (Counter.alive first.time) = none)
    (positive : 1 ≤ maxRequests) :
    (CacheManager.checkRateLimit counters userId endpoint maxRequests first second).1 = true := by
  simp only [CacheManager.checkRateLimit,Counters.incr,dead,Counters.command]
  cases first.fault with
  | raises => rfl
  | raisesAfter => rfl
  | none =>
    simp only [if_true,Counters.expire,Counters.command]
    cases second.fault with
    | raises => rfl
    | raisesAfter => rfl
    | none => exact decide_eq_true positive

end

section
variable {events : List LimiterEvent}

theorem requestsRan (ran : (limiterMachine.run events limiterStart).isSome = true) :
    limiterMachine.run events limiterStart = some ((limiterMachine.run events limiterStart).getD limiterStart) := by
  obtain ⟨c,found⟩ := Option.isSome_iff_exists.mp ran
  rw [found,Option.getD_some]

theorem allOver {c : LimiterState} (ended : c.running.all (fun p => p.awaited.isNone) = true) (pid : Nat) :
    c.awaits pid = none := by
  cases here : c.running[pid]? with
  | none =>
    rw [LimiterState.awaits,here]
    rfl
  | some p =>
    rw [LimiterState.awaits,here]
    exact Option.isNone_iff_eq_none.mp (List.all_eq_true.mp ended p (List.mem_of_getElem? here))

theorem overAnswers {c : LimiterState} (staged : Staged c)
    (ended : c.running.all (fun p => p.finished.isSome) = true) {pid : Nat} {check : RateCheck}
    (found : c.shared.checks[pid]? = some check) : ∃ answer, c.running[pid]? = some (.done answer) := by
  have inside : pid < c.running.length := staged.1 ▸ (List.getElem?_eq_some_iff.mp found).1
  have here := List.getElem?_eq_getElem inside
  obtain ⟨answer,finished⟩ := Option.isSome_iff_exists.mp
    (List.all_eq_true.mp ended _ (List.mem_of_getElem? here))
  exact ⟨answer,by rw [here,Program.finishedEq finished]⟩

end

def givesExpiry (c : LimiterState) (e : LimiterEvent) : Bool := decide (GivesExpiry c e)

def twoRequests : List LimiterEvent :=
  [.start ⟨"10.0.0.1",sendPath,20⟩,.step 0 .none,.step 0 .none,.drift 20000,.start ⟨"10.0.0.1",sendPath,20⟩,
    .step 1 .raisesAfter]

def afterTwo : LimiterState := (limiterMachine.run twoRequests limiterStart).getD limiterStart

def lostExpiry : List LimiterEvent :=
  [.start ⟨"10.0.0.1",sendPath,20⟩,.step 0 .none,.stop 0] ++
    (List.range 19).flatMap (fun i => [.start ⟨"10.0.0.1",sendPath,20⟩,.step (i + 1) .none])

def afterLoss : LimiterState := (limiterMachine.run lostExpiry limiterStart).getD limiterStart

end PaymentSystem
