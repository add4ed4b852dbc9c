import PaymentSystem.Base.Density
import PaymentSystem.Guarantees.RateLimits

/-! The window of the rate limiter. A counter lives from the request that makes it to a
minute after its EXPIRE, so requests are counted in fixed windows, each of which allows
the full number. A minute that lies across two windows can get nearly twice as many. -/
namespace PaymentSystem
open Density (Spaced within Far)

structure RequestTimes where
  calls : List (Nat × Nat)
  ordered : (calls.map Prod.fst).Pairwise (· ≤ ·)
  timely : ∀ call ∈ calls, call.1 ≤ call.2

def CacheManager.checks (userId endpoint : String) (maxRequests : Nat) :
    List (Nat × Nat) → Counters → List (Nat × Bool)
  | [], _ => []
  | (first,second) :: rest, counters =>
      let out := CacheManager.checkRateLimit counters userId endpoint maxRequests ⟨first,.none⟩ ⟨second,.none⟩
      (first,out.1) :: CacheManager.checks userId endpoint maxRequests rest out.2

def allowedAt (answers : List (Nat × Bool)) : List Nat := (answers.filter Prod.snd).map Prod.fst

def spread (expires : Option Nat) : List (Nat × Nat) → List Nat × List (List Nat)
  | [] => ([],[])
  | (first,second) :: rest =>
      if expires.any (fun expiry => decide (first ≤ expiry)) then
        (first :: (spread expires rest).1,(spread expires rest).2)
      else ([],(first :: (spread (some (second + milliseconds CacheTTL.rateLimit)) rest).1) ::
        (spread (some (second + milliseconds CacheTTL.rateLimit)) rest).2)

/-- The fixed windows into which requests fall: each begins with the first request after
the one before, and ends a minute after the EXPIRE of that request. -/
def RequestTimes.windows (times : RequestTimes) : List (List Nat) := (spread none times.calls).2

def LimitedPerMinute (userId endpoint : String) (maxRequests : Nat) (times : RequestTimes) : Prop :=
  ∀ start, within start (milliseconds CacheTTL.rateLimit)
    (allowedAt (CacheManager.checks userId endpoint maxRequests times.calls (fun _ => none))) ≤ maxRequests

/-- Of two successive windows, among the first requests of the one and then of the other,
as many as the limit of each, every request comes a minute after the one that is the limit
before it. -/
def WindowsApart (maxRequests : Nat) (times : RequestTimes) : Prop :=
  times.windows.IsChain (fun a b =>
    Spaced maxRequests (milliseconds CacheTTL.rateLimit) (a.take maxRequests ++ b.take maxRequests))

section
variable {userId endpoint : String} {maxRequests : Nat} {expires : Option Nat} {calls : List (Nat × Nat)}

theorem checkAlive {n first second expiry : Nat} (counted : 0 < n) (alive : first ≤ expiry) :
    Counter.check maxRequests (⟨first,.none⟩,⟨second,.none⟩) (some ⟨n,some expiry⟩) =
      (decide (n + 1 ≤ maxRequests),some ⟨n + 1,some expiry⟩) := by
  have again : n ≠ 0 := by omega
  simp [Counter.check,CacheManager.checkRateLimit,Counters.incr,Counters.command,Option.filter,Counter.alive,alive,
    again]

theorem checkFresh {first second : Nat} {held : Option Counter}
    (dead : held.filter (Counter.alive first) = none) :
    Counter.check maxRequests (⟨first,.none⟩,⟨second,.none⟩) held =
      (decide (1 ≤ maxRequests),some ⟨1,some (second + milliseconds CacheTTL.rateLimit)⟩) := by
  have made : (some (Counter.mk 1 none)).filter (Counter.alive second) = some ⟨1,none⟩ := rfl
  simp only [Counter.check,CacheManager.checkRateLimit,Counters.incr,Counters.expire,Counters.command,dead,
    Function.update_self,made,if_true,Option.map_some]

theorem allowedCons {time : Nat} {answer : Bool} {rest : List (Nat × Bool)} :
    allowedAt ((time,answer) :: rest) = (if answer then [time] else []) ++ allowedAt rest := by
  cases answer <;> rfl

theorem allowedSpread (counters : Counters) {n : Nat} (expires : Option Nat) (counted : 0 < n)
    (held : counters (CacheKeys.rateLimit userId endpoint) = expires.map (fun expiry => ⟨n,some expiry⟩)) :
    allowedAt (CacheManager.checks userId endpoint maxRequests calls counters) =
      (spread expires calls).1.take (maxRequests - n) ++
        ((spread expires calls).2.map (List.take maxRequests)).flatten := by
  induction calls generalizing counters n expires with
  | nil => simp [CacheManager.checks,allowedAt,spread]
  | cons call rest ih =>
    obtain ⟨first,second⟩ := call
    by_cases alive : expires.any (fun expiry => decide (first ≤ expiry)) = true
    · obtain ⟨expiry,rfl,inTime⟩ := (Option.any_eq_true ..).mp alive
      have later := ih (Function.update counters (CacheKeys.rateLimit userId endpoint) (some ⟨n + 1,some expiry⟩))
        (some expiry) (Nat.succ_pos n) (Function.update_self ..)
      rw [CacheManager.checks,checkCounts,held,Option.map_some,checkAlive counted (of_decide_eq_true inTime),allowedCons,
        spread,if_pos alive,later]
      by_cases more : n + 1 ≤ maxRequests
      · have step : maxRequests - n = (maxRequests - (n + 1)) + 1 := by omega
        rw [decide_eq_true more,if_pos rfl,step,List.take_succ_cons,← List.append_assoc,List.singleton_append]
      · have full : maxRequests - n = 0 := by omega
        have still : maxRequests - (n + 1) = 0 := by omega
        rw [decide_eq_false more,if_neg Bool.false_ne_true,full,still,List.take_zero,List.take_zero,List.nil_append,
          List.nil_append]
    · have dead : (counters (CacheKeys.rateLimit userId endpoint)).filter (Counter.alive first) = none := by
        rw [held]
        cases expires with
        | none => rfl
        | some expiry =>
          have gone : ¬ first ≤ expiry := by simpa using alive
          simp [Option.filter,Counter.alive,gone]
      have later := ih (Function.update counters (CacheKeys.rateLimit userId endpoint)
        (some ⟨1,some (second + milliseconds CacheTTL.rateLimit)⟩)) (some (second + milliseconds CacheTTL.rateLimit))
        Nat.one_pos (Function.update_self ..)
      rw [CacheManager.checks,checkCounts,checkFresh dead,allowedCons,spread,if_neg alive,later,List.take_nil,
        List.nil_append,List.map_cons,List.flatten_cons,← List.append_assoc]
      by_cases more : 1 ≤ maxRequests
      · have step : maxRequests = (maxRequests - 1) + 1 := by omega
        rw [decide_eq_true more,if_pos rfl,step,List.take_succ_cons,List.singleton_append,Nat.add_sub_cancel]
      · have full : maxRequests = 0 := by omega
        subst full
        rfl

theorem spreadAll : (spread expires calls).1 ++ (spread expires calls).2.flatten = calls.map Prod.fst := by
  induction calls generalizing expires with
  | nil => rfl
  | cons call rest ih =>
    obtain ⟨first,second⟩ := call
    rw [spread]
    split
    · rw [List.cons_append,ih,List.map_cons]
    · rw [List.nil_append,List.flatten_cons,List.cons_append,ih,List.map_cons]

theorem spreadFirst : (spread none calls).1 = [] := by
  cases calls <;> rfl

theorem spreadLate {expiry : Nat} (ordered : (calls.map Prod.fst).Pairwise (· ≤ ·)) :
    ∀ v ∈ (spread (some expiry) calls).2.flatten, expiry < v := by
  induction calls with
  | nil =>
    intro v here
    contradiction
  | cons call rest ih =>
    obtain ⟨first,second⟩ := call
    obtain ⟨least,later⟩ := List.pairwise_cons.mp ordered
    rw [spread]
    split
    · exact ih later
    · rename_i dead
      have gone : expiry < first := by simpa using dead
      intro v here
      rw [List.flatten_cons,List.cons_append,spreadAll] at here
      rcases List.mem_cons.mp here with rfl | here
      · exact gone
      · exact gone.trans_le (least v here)

theorem windowOver {window : List Nat} {windows : List (List Nat)}
    (ordered : (calls.map Prod.fst).Pairwise (· ≤ ·)) (timely : ∀ call ∈ calls, call.1 ≤ call.2)
    (begins : (spread expires calls).2 = window :: windows) :
    ∃ opener ∈ window, ∀ v ∈ windows.flatten, opener + milliseconds CacheTTL.rateLimit ≤ v := by
  induction calls generalizing expires with
  | nil => contradiction
  | cons call rest ih =>
    obtain ⟨first,second⟩ := call
    obtain ⟨least,later⟩ := List.pairwise_cons.mp ordered
    have timely' : ∀ call ∈ rest, call.1 ≤ call.2 := fun call here => timely call (List.mem_cons_of_mem _ here)
    rw [spread] at begins
    split at begins
    · exact ih later timely' begins
    · obtain ⟨rfl,rfl⟩ := List.cons_eq_cons.mp begins
      refine ⟨first,List.mem_cons_self ..,?_⟩
      intro v here
      have expired := spreadLate later v here
      have prompt : first ≤ second := timely (first,second) (List.mem_cons_self ..)
      omega

theorem spreadFar (ordered : (calls.map Prod.fst).Pairwise (· ≤ ·)) (timely : ∀ call ∈ calls, call.1 ≤ call.2) :
    Far (milliseconds CacheTTL.rateLimit) (spread expires calls).2 := by
  induction calls generalizing expires with
  | nil =>
    intro a b rest inside
    simp [spread] at inside
  | cons call rest ih =>
    obtain ⟨first,second⟩ := call
    have all : (spread expires ((first,second) :: rest)).1 ++ (spread expires ((first,second) :: rest)).2.flatten =
        ((first,second) :: rest).map Prod.fst := spreadAll
    obtain ⟨least,later⟩ := List.pairwise_cons.mp ordered
    have timely' : ∀ call ∈ rest, call.1 ≤ call.2 := fun call here => timely call (List.mem_cons_of_mem _ here)
    rw [spread] at all ⊢
    split
    · exact ih later timely'
    · rename_i dead
      rw [if_neg dead] at all
      intro a b windows inside
      rcases List.suffix_cons_iff.mp inside with whole | part
      · obtain ⟨rfl,next⟩ := List.cons_eq_cons.mp whole
        obtain ⟨opener,here,after⟩ := windowOver later timely' next.symm
        intro u hu v hv
        have before : u ≤ opener := by
          rw [← all,List.nil_append,List.flatten_cons,← next,List.flatten_cons] at ordered
          exact (List.pairwise_append.mp ordered).2.2 u hu opener (List.mem_append_left _ here)
        have past := after v hv
        omega
      · exact ih later timely' a b windows part

end

theorem limitedPerMinute (userId endpoint : String) (maxRequests : Nat) (times : RequestTimes) :
    LimitedPerMinute userId endpoint maxRequests times ↔ WindowsApart maxRequests times := by
  have allowed : allowedAt (CacheManager.checks userId endpoint maxRequests times.calls (fun _ => none)) =
      (times.windows.map (List.take maxRequests)).flatten := by
    rw [allowedSpread _ none Nat.one_pos rfl,spreadFirst,List.take_nil,List.nil_append]
    rfl
  have sorted : ((times.windows.map (List.take maxRequests)).flatten).Pairwise (· ≤ ·) := by
    refine times.ordered.sublist (Density.beginnings.trans ?_)
    rw [← spreadAll]
    exact List.sublist_append_right ..
  have short : ∀ b ∈ times.windows.map (List.take maxRequests), b.length ≤ maxRequests := by
    intro b here
    obtain ⟨window,_,rfl⟩ := List.mem_map.mp here
    exact List.length_take_le ..
  have far : Far (milliseconds CacheTTL.rateLimit) (times.windows.map (List.take maxRequests)) :=
    (spreadFar times.ordered times.timely).beginnings
  rw [LimitedPerMinute,allowed,Density.sparseIffSpaced sorted,Density.spacedBlocks short far,List.isChain_map]
  rfl

def aroundTheMinute : RequestTimes := ⟨[(0,0),(59000,59000),(60001,60001),(61000,61000)],by decide,by decide⟩

theorem threeInTwoSeconds : ¬ ∀ (userId endpoint : String) (maxRequests : Nat) (times : RequestTimes),
    LimitedPerMinute userId endpoint maxRequests times := by
  intro always
  have many : within 59000 (milliseconds CacheTTL.rateLimit)
      (allowedAt (CacheManager.checks "10.0.0.1" sendPath 2 aroundTheMinute.calls (fun _ => none))) = 3 := by
    decide +kernel
  have few := always "10.0.0.1" sendPath 2 aroundTheMinute 59000
  omega

end PaymentSystem
