import PaymentSystem.Base.Program
import PaymentSystem.Service.RateLimiter

/-! The rate limiter with its two commands apart: any number of checks whose INCR and
EXPIRE interleave, each of which can raise or not come at all, while time passes. -/
namespace PaymentSystem
open Interleaving (Program Machine Config Event Reach)

inductive LimiterOp where
  | incr (key : String)
  | expire (key : String) (ttl : Nat)
  deriving DecidableEq, Repr

def LimiterOp.Val : LimiterOp → Type
  | .incr _ => Nat
  | .expire _ _ => Unit

def LimiterOp.key : LimiterOp → String
  | .incr key => key
  | .expire key _ => key

abbrev LimiterRes (op : LimiterOp) : Type := Except Exn op.Val

structure RateCheck where
  userId : String
  endpoint : String
  maxRequests : Nat
  deriving DecidableEq, Repr

namespace RateCheck

def key (check : RateCheck) : String := CacheKeys.rateLimit check.userId check.endpoint

def firstInWindow (check : RateCheck) : Program LimiterOp LimiterRes (Option Bool) :=
  .call (.expire check.key CacheTTL.rateLimit) (fun r => match r with
    | .error _ => .done (some true)
    | .ok _ => .done (some (decide (1 ≤ check.maxRequests))))

def program (check : RateCheck) : Program LimiterOp LimiterRes (Option Bool) :=
  .call (.incr check.key) (fun r => match r with
    | .error _ => .done (some true)
    | .ok current =>
      if (show Nat from current) = 1 then check.firstInWindow
      else .done (some (decide ((show Nat from current) ≤ check.maxRequests))))

end RateCheck

structure LimiterWorld where
  now : Nat
  counters : Counters
  checks : List RateCheck

namespace LimiterWorld

def exec (_ : Nat) (w : LimiterWorld) (op : LimiterOp) (fault : Fault) : Option (LimiterRes op × LimiterWorld) :=
  match op with
  | .incr key =>
      let out := w.counters.incr key ⟨w.now,fault⟩
      some (out.1,{w with counters := out.2})
  | .expire key ttl =>
      let out := w.counters.expire key ttl ⟨w.now,fault⟩
      some (out.1,{w with counters := out.2})

end LimiterWorld

def limiterMachine : Machine LimiterOp LimiterRes LimiterWorld Fault RateCheck Nat (Option Bool) where
  exec := LimiterWorld.exec
  start := fun w check => {w with checks := w.checks ++ [check]}
  program := RateCheck.program
  stop := fun _ w => w
  stopped := none
  drift := fun passed w => some {w with now := w.now + passed}

abbrev LimiterState := Config LimiterOp LimiterRes LimiterWorld (Option Bool)

abbrev LimiterEvent := Event Fault RateCheck Nat

def LimiterState.awaits (c : LimiterState) (pid : Nat) : Option LimiterOp := c.running[pid]?.bind Program.awaited

def limiterStart : LimiterState := ⟨⟨0,fun _ => none,[]⟩,[]⟩

def atMoments (s : Counters × List Moment) (op : LimiterOp) : Option (LimiterRes op × (Counters × List Moment)) :=
  match s.2 with
  | [] => none
  | moment :: rest =>
    match op with
    | .incr key => some ((s.1.incr key moment).1,((s.1.incr key moment).2,rest))
    | .expire key ttl => some ((s.1.expire key ttl moment).1,((s.1.expire key ttl moment).2,rest))

/-- With nothing between its commands a check is the function check_rate_limit. -/
theorem checkAlone {check : RateCheck} {counters : Counters} {first second : Moment} :
    ∃ rest, check.program.alone atMoments (counters,[first,second]) =
      some (some (CacheManager.checkRateLimit counters check.userId check.endpoint check.maxRequests first second).1,
        ((CacheManager.checkRateLimit counters check.userId check.endpoint check.maxRequests first second).2,rest)) := by
  simp only [RateCheck.program,Program.alone,atMoments,Option.bind_some,CacheManager.checkRateLimit,RateCheck.key]
  rcases counters.incr (CacheKeys.rateLimit check.userId check.endpoint) first with ⟨e | current,counters'⟩
  · exact ⟨[second],rfl⟩
  · by_cases fresh : current = 1
    · subst fresh
      simp only [if_true,RateCheck.firstInWindow,Program.alone,atMoments,Option.bind_some,RateCheck.key]
      rcases counters'.expire (CacheKeys.rateLimit check.userId check.endpoint) CacheTTL.rateLimit second with
        ⟨e | _,counters''⟩
      · exact ⟨[],rfl⟩
      · exact ⟨[],rfl⟩
    · simp only [if_neg fresh]
      exact ⟨[second],rfl⟩

section
variable {c c' : LimiterState} {pid : Nat}

theorem limiterStep {fault : Fault} (h : limiterMachine.next c (.step pid fault) = some c') :
    ∃ op next r w', c.running[pid]? = some (.call op next) ∧
      LimiterWorld.exec pid c.shared op fault = some (r,w') ∧ c' = ⟨w',c.running.set pid (next r)⟩ := by
  simp only [Machine.next] at h
  split at h <;> try contradiction
  rename_i op next here
  obtain ⟨⟨r,w'⟩,ran,rfl⟩ := Option.map_eq_some_iff.mp h
  exact ⟨op,next,r,w',here,ran,rfl⟩

theorem limiterStop (h : limiterMachine.next c (.stop pid) = some c') :
    (∃ op next, c.running[pid]? = some (.call op next)) ∧ c' = ⟨c.shared,c.running.set pid (.done none)⟩ := by
  simp only [Machine.next] at h
  split at h <;> try contradiction
  rename_i op next here
  cases Option.some.inj h
  exact ⟨⟨op,next,here⟩,rfl⟩

end

inductive RateCheck.Stage (check : RateCheck) : Program LimiterOp LimiterRes (Option Bool) → Prop where
  | begun : Stage check check.program
  | counted : Stage check check.firstInWindow
  | ended {answer} : Stage check (.done answer)

def Staged (c : LimiterState) : Prop :=
  c.running.length = c.shared.checks.length ∧
    ∀ (pid : Nat) p, c.running[pid]? = some p → ∃ check : RateCheck, c.shared.checks[pid]? = some check ∧
      check.Stage p

theorem stageNext {check : RateCheck} {op : LimiterOp}
    {next : LimiterRes op → Program LimiterOp LimiterRes (Option Bool)} (stage : check.Stage (.call op next))
    (r : LimiterRes op) : op.key = check.key ∧ check.Stage (next r) := by
  generalize here : Program.call op next = p at stage
  cases stage with
  | begun =>
    cases here
    refine ⟨rfl,?_⟩
    cases r with
    | error e => exact .ended
    | ok current =>
      by_cases fresh : (show Nat from current) = 1
      · simp only [fresh,if_true]
        exact .counted
      · simp only [if_neg fresh]
        exact .ended
  | counted =>
    cases here
    refine ⟨rfl,?_⟩
    cases r with
    | error e => exact .ended
    | ok _ => exact .ended
  | ended => contradiction

section
variable {c c' : LimiterState} {e : LimiterEvent}

theorem stagedNext (staged : Staged c) (h : limiterMachine.next c e = some c') :
    Staged c' ∧ c.shared.checks <+: c'.shared.checks := by
  obtain ⟨counted,stages⟩ := staged
  have moved : ∀ (pid : Nat) p w, w.checks = c.shared.checks →
      (∀ check : RateCheck, c.shared.checks[pid]? = some check → check.Stage p) → Staged ⟨w,c.running.set pid p⟩ := by
    intro pid p w same stage
    refine ⟨by rw [List.length_set,counted,same],?_⟩
    intro other q here
    by_cases mine : pid = other
    · subst mine
      have inside : pid < c.running.length := by simpa using (List.getElem?_eq_some_iff.mp here).1
      rw [List.getElem?_set_self inside] at here
      cases here
      have found := List.getElem?_eq_getElem (counted ▸ inside)
      refine ⟨_,?_,stage _ found⟩
      change w.checks[pid]? = _
      rw [same]
      exact found
    · rw [List.getElem?_set_ne mine] at here
      obtain ⟨check,found,stage⟩ := stages other q here
      refine ⟨check,?_,stage⟩
      change w.checks[other]? = _
      rw [same]
      exact found
  cases e with
  | start check =>
    cases Option.some.inj h
    refine ⟨⟨by simp [counted,limiterMachine],?_⟩,List.prefix_append ..⟩
    intro pid p here
    change (c.running ++ [check.program])[pid]? = some p at here
    change ∃ found : RateCheck, (c.shared.checks ++ [check])[pid]? = some found ∧ found.Stage p
    by_cases old : pid < c.running.length
    · rw [List.getElem?_append_left old] at here
      obtain ⟨found,there,stage⟩ := stages pid p here
      exact ⟨found,by rw [List.getElem?_append_left (counted ▸ old)]; exact there,stage⟩
    · rw [List.getElem?_append_right (not_lt.mp old),List.getElem?_singleton] at here
      split at here <;> try contradiction
      rename_i last
      cases Option.some.inj here
      refine ⟨check,?_,.begun⟩
      rw [List.getElem?_append_right (counted ▸ not_lt.mp old),← counted,last]
      rfl
  | step pid fault =>
    obtain ⟨op,next,r,w',here,ran,rfl⟩ := limiterStep h
    have same : w'.checks = c.shared.checks := by
      cases op <;> cases Option.some.inj ran <;> rfl
    refine ⟨moved pid _ w' same ?_,same ▸ List.prefix_refl _⟩
    intro check found
    obtain ⟨check',found',stage⟩ := stages pid _ here
    cases Option.some.inj (found.symm.trans found')
    exact (stageNext stage r).2
  | stop pid =>
    obtain ⟨_,rfl⟩ := limiterStop h
    exact ⟨moved pid _ c.shared rfl (fun _ _ => .ended),List.prefix_refl _⟩
  | drift passed =>
    cases Option.some.inj h
    exact ⟨⟨counted,stages⟩,List.prefix_refl _⟩

end
end PaymentSystem
