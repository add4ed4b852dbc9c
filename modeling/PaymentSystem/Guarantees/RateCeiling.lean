import PaymentSystem.Base.Restarts
import PaymentSystem.Guarantees.CounterExpiry

/-! How much the limiter lets through after all. Its counter is one of a window that begins
with the first request, not of the last minute; a minute sees the end of one window and
the beginning of another, and no more, however checks interleave, fail and stop. -/
namespace PaymentSystem
open Interleaving (Program Reach)
open Restarts (Counting low lowMem)

structure Count where
  pid : Nat
  time : Nat
  value : Nat
  deriving DecidableEq, Repr

def Counters.upped (counters : Counters) (key : String) (now : Nat) : Nat :=
  match (counters key).filter (Counter.alive now) with
  | some counter => counter.value + 1
  | none => 1

def LimiterState.counts (c : LimiterState) (key : String) : LimiterEvent → List Count
  | .step pid fault =>
      match c.awaits pid with
      | some (.incr name) =>
          if name = key ∧ fault ≠ .raises then [⟨pid,c.shared.now,c.shared.counters.upped key c.shared.now⟩] else []
      | _ => []
  | _ => []

def tally (key : String) : List LimiterEvent → LimiterState → List Count
  | [], _ => []
  | e :: rest, c => c.counts key e ++ ((limiterMachine.next c e).map (tally key rest)).getD []

namespace Counters
variable {counters : Counters} {key : String} {now ttl : Nat} {fault : Fault}

theorem incrStored (effect : fault ≠ .raises) : ∃ expiry,
    (counters.incr key ⟨now,fault⟩).2 key = some ⟨counters.upped key now,expiry⟩ ∧
      (((counters key).filter (Counter.alive now) = none ∧ counters.upped key now = 1 ∧ expiry = none) ∨
        ∃ value, counters key = some ⟨value,expiry⟩ ∧ counters.upped key now = value + 1) := by
  simp only [incr,upped]
  cases found : (counters key).filter (Counter.alive now) with
  | none =>
    refine ⟨none,?_,.inl ⟨rfl,rfl,rfl⟩⟩
    cases fault with
    | raises => contradiction
    | _ => simp only [command,Function.update_self]
  | some counter =>
    obtain ⟨value,expiry⟩ := counter
    refine ⟨expiry,?_,.inr ⟨value,(Option.filter_eq_some_iff.mp found).1,rfl⟩⟩
    cases fault with
    | raises => contradiction
    | _ => simp only [command,Function.update_self]

theorem incrAnswer : (counters.incr key ⟨now,.none⟩).1 = .ok (counters.upped key now) := by
  simp only [incr,upped]
  cases (counters key).filter (Counter.alive now) <;> rfl

theorem expireStored (effect : fault ≠ .raises) : (counters.expire key ttl ⟨now,fault⟩).2 key =
    ((counters key).filter (Counter.alive now)).map (fun c => {c with expiresAt := some (now + milliseconds ttl)}) := by
  cases fault with
  | raises => contradiction
  | _ => simp only [expire,command,Function.update_self]

end Counters

structure Tracked (key : String) (c : LimiterState) (counts : List Count) : Prop where
  counting : Counting Count.time Count.value (milliseconds CacheTTL.rateLimit) counts
  past : ∀ x ∈ counts, x.time ≤ c.shared.now
  live : ∀ counter, c.shared.counters key = some counter →
    (∃ last, counts.getLast? = some last ∧ last.value = counter.value) ∧
      ∀ expiry, counter.expiresAt = some expiry → ∀ x ∈ counts, x.value = 1 → x.time + milliseconds CacheTTL.rateLimit ≤ expiry
  gone : c.shared.counters key = none → ∀ x ∈ counts, x.value = 1 → x.time + milliseconds CacheTTL.rateLimit ≤ c.shared.now

section
variable {c c' : LimiterState} {e : LimiterEvent} {key : String} {counts : List Count}

theorem Tracked.frame (h : Tracked key c counts) (same : c'.shared.counters key = c.shared.counters key)
    (later : c.shared.now ≤ c'.shared.now) : Tracked key c' counts where
  counting := h.counting
  past := fun x here => (h.past x here).trans later
  live := same ▸ h.live
  gone := fun none x here one => (h.gone (same ▸ none) x here one).trans later

theorem Tracked.quiet (h : Tracked key c counts) (silent : c.counts key e = [])
    (same : c'.shared.counters key = c.shared.counters key) (later : c.shared.now ≤ c'.shared.now) :
    Tracked key c' (counts ++ c.counts key e) := by
  rw [silent,List.append_nil]
  exact h.frame same later

theorem Tracked.expired (h : Tracked key c counts)
    (dead : (c.shared.counters key).filter (Counter.alive c.shared.now) = none) :
    ∀ x ∈ counts, x.value = 1 → x.time + milliseconds CacheTTL.rateLimit ≤ c.shared.now := by
  intro x here one
  cases found : c.shared.counters key with
  | none => exact h.gone found x here one
  | some counter =>
    rw [found,Option.filter_some] at dead
    split at dead <;> try contradiction
    rename_i expired
    simp only [Counter.alive] at expired
    split at expired
    · simp at expired
    · rename_i expiry expires
      simp only [decide_eq_true_eq,not_le] at expired
      exact ((h.live counter found).2 expiry expires x here one).trans expired.le

theorem Tracked.incr (h : Tracked key c counts) {pid : Nat} {expiry : Option Nat}
    (now : c'.shared.now = c.shared.now)
    (stored : c'.shared.counters key = some ⟨c.shared.counters.upped key c.shared.now,expiry⟩)
    (goes : ((c.shared.counters key).filter (Counter.alive c.shared.now) = none ∧
        c.shared.counters.upped key c.shared.now = 1 ∧ expiry = none) ∨
      ∃ value, c.shared.counters key = some ⟨value,expiry⟩ ∧ c.shared.counters.upped key c.shared.now = value + 1) :
    Tracked key c' (counts ++ [⟨pid,c.shared.now,c.shared.counters.upped key c.shared.now⟩]) := by
  generalize c.shared.counters.upped key c.shared.now = value at stored goes
  have begins : value = 1 → ∀ x ∈ counts, x.value = 1 → x.time + milliseconds CacheTTL.rateLimit ≤ c.shared.now := by
    intro one x here begun
    rcases goes with ⟨dead,_,_⟩ | ⟨before,found,up⟩
    · exact h.expired dead x here begun
    · obtain ⟨last,ended,same⟩ := (h.live _ found).1
      have positive := h.counting.positive last (List.mem_of_getLast? ended)
      simp only at same
      omega
  refine ⟨h.counting.snoc h.past ?_ ?_ begins,?_,?_,?_⟩
  · intro x ended
    rcases goes with ⟨_,one,_⟩ | ⟨before,found,up⟩
    · exact .inr one
    · obtain ⟨last,ended',same⟩ := (h.live _ found).1
      cases Option.some.inj (ended.symm.trans ended')
      exact .inl (by rw [same]; exact up)
  · change 1 ≤ value
    rcases goes with ⟨_,one,_⟩ | ⟨before,_,up⟩ <;> omega
  · intro x here
    rw [now]
    rcases List.mem_append.mp here with old | added
    · exact h.past x old
    · cases List.mem_singleton.mp added
      exact Nat.le_refl _
  · intro counter found
    cases Option.some.inj (stored.symm.trans found)
    refine ⟨⟨_,List.getLast?_concat ..,rfl⟩,?_⟩
    intro expiry expires x here one
    rcases goes with ⟨_,_,rfl⟩ | ⟨before,old,up⟩
    · cases expires
    · rcases List.mem_append.mp here with earlier | added
      · exact (h.live _ old).2 expiry expires x earlier one
      · cases List.mem_singleton.mp added
        obtain ⟨last,ended,same⟩ := (h.live _ old).1
        have positive := h.counting.positive last (List.mem_of_getLast? ended)
        simp only at same one
        omega
  · intro none
    rw [stored] at none
    cases none

theorem Tracked.expire (h : Tracked key c counts) (now : c'.shared.now = c.shared.now)
    (stored : c'.shared.counters key = ((c.shared.counters key).filter (Counter.alive c.shared.now)).map
      (fun counter => {counter with expiresAt := some (c.shared.now + milliseconds CacheTTL.rateLimit)})) : Tracked key c' counts where
  counting := h.counting
  past := now ▸ h.past
  live := by
    intro counter found
    rw [stored] at found
    obtain ⟨old,alive,rfl⟩ := Option.map_eq_some_iff.mp found
    refine ⟨(h.live old (Option.filter_eq_some_iff.mp alive).1).1,?_⟩
    intro expiry expires x here one
    cases expires
    have past := h.past x here
    omega
  gone := by
    intro none
    rw [stored] at none
    rw [now]
    exact h.expired (Option.map_eq_none_iff.mp none)

theorem trackedNext (staged : Staged c) (h : Tracked key c counts) (step : limiterMachine.next c e = some c') :
    Tracked key c' (counts ++ c.counts key e) := by
  cases e with
  | start check =>
    cases Option.some.inj step
    exact h.quiet rfl rfl (Nat.le_refl _)
  | stop pid =>
    obtain ⟨_,rfl⟩ := limiterStop step
    exact h.quiet rfl rfl (Nat.le_refl _)
  | drift passed =>
    cases Option.some.inj step
    exact h.quiet rfl rfl (Nat.le_add_right ..)
  | step pid fault =>
    obtain ⟨op,next,r,w',running,ran,rfl⟩ := limiterStep step
    obtain ⟨check,_,stage⟩ := staged.2 pid _ running
    have awaited : c.awaits pid = some op := by
      rw [LimiterState.awaits,running]
      rfl
    cases op with
    | incr name =>
      cases Option.some.inj ran
      simp only [LimiterState.counts,awaited]
      by_cases other : name = key
      · subst other
        by_cases lost : fault = .raises
        · rw [if_neg (fun both => both.2 lost),List.append_nil]
          refine h.frame ?_ (Nat.le_refl _)
          subst lost
          simp only [Counters.incr]
          split <;> rfl
        · rw [if_pos ⟨rfl,lost⟩]
          obtain ⟨expiry,stored,goes⟩ := @Counters.incrStored c.shared.counters _ c.shared.now _ lost
          exact h.incr rfl stored goes
      · rw [if_neg (fun both => other both.1),List.append_nil]
        exact h.frame (Counters.incrOther (Ne.symm other)) (Nat.le_refl _)
    | expire name ttl =>
      cases Option.some.inj ran
      cases stageExpire stage
      simp only [LimiterState.counts,awaited,List.append_nil]
      by_cases other : name = key
      · subst other
        by_cases lost : fault = .raises
        · subst lost
          exact h.frame rfl (Nat.le_refl _)
        · exact h.expire rfl (Counters.expireStored lost)
      · exact h.frame (Counters.expireOther (Ne.symm other)) (Nat.le_refl _)

theorem tallyAppend (before after : List LimiterEvent) (c : LimiterState) : tally key (before ++ after) c =
    tally key before c ++ ((limiterMachine.run before c).map (tally key after)).getD [] := by
  induction before generalizing c with
  | nil => rfl
  | cons e rest ih =>
    simp only [List.cons_append,tally,Interleaving.Machine.run]
    cases limiterMachine.next c e with
    | none => simp
    | some c' => simp [ih]

theorem trackedRun {events : List LimiterEvent} (ran : limiterMachine.run events limiterStart = some c) :
    Tracked key c (tally key events limiterStart) := by
  induction events using List.reverseRecOn generalizing c with
  | nil =>
    cases Option.some.inj ran
    exact ⟨⟨.nil,.nil,fun x here => by contradiction,.nil⟩,fun x here => by contradiction,
      fun counter here => by contradiction,fun _ x here => by contradiction⟩
  | append_singleton events e ih =>
    rw [Interleaving.runAppend] at ran
    obtain ⟨before,ran,last⟩ := Option.bind_eq_some_iff.mp ran
    obtain ⟨after,step,same⟩ := Option.bind_eq_some_iff.mp last
    cases Option.some.inj same
    have tracked := trackedNext (stagedReach startStaged (Interleaving.reachOfRun ran)).1 (ih ran) step
    rw [tallyAppend,ran]
    simpa [tally,step] using tracked

end

/-! What becomes of one check. -/

def Arrives (events : List LimiterEvent) (pid : Nat) (key : String) (time : Nat) : Prop :=
  ∃ (before : List LimiterEvent) (fault : Fault) (after : List LimiterEvent) (c : LimiterState),
    events = before ++ .step pid fault :: after ∧ limiterMachine.run before limiterStart = some c ∧
      c.awaits pid = some (.incr key) ∧ c.shared.now = time

def Unfailing (events : List LimiterEvent) (pid : Nat) : Prop := ∀ fault, .step pid fault ∈ events → fault = .none

structure LetThrough (key : String) (maxRequests start : Nat) (events : List LimiterEvent) (c : LimiterState) (pid : Nat) :
    Prop where
  check : ∃ check, c.shared.checks[pid]? = some check ∧ check.key = key ∧ check.maxRequests = maxRequests
  unfailing : Unfailing events pid
  arrives : ∃ time, Arrives events pid key time ∧ start ≤ time ∧ time < start + milliseconds CacheTTL.rateLimit
  allowed : c.running[pid]? = some (.done (some true))

section
variable {c c' : LimiterState} {pid : Nat} {check : RateCheck}

theorem firstLasts {events : List LimiterEvent} (ran : limiterMachine.run events c = some c')
    (calm : ∀ fault, .step pid fault ∈ events → fault = .none)
    (here : c.running[pid]? = some check.firstInWindow ∨ ∃ answer, c.running[pid]? = some (.done answer) ∧
      (answer = some true → 1 ≤ check.maxRequests)) :
    c'.running[pid]? = some check.firstInWindow ∨ ∃ answer, c'.running[pid]? = some (.done answer) ∧
      (answer = some true → 1 ≤ check.maxRequests) := by
  induction events generalizing c with
  | nil =>
    cases Option.some.inj ran
    exact here
  | cons e rest ih =>
    obtain ⟨c₁,step,ran⟩ := Option.bind_eq_some_iff.mp ran
    refine ih ran (fun fault inside => calm fault (List.mem_cons_of_mem _ inside)) ?_
    rcases here with waiting | ⟨answer,done,known⟩
    · cases e with
      | start job =>
        cases Option.some.inj step
        refine .inl ?_
        change (c.running ++ [job.program])[pid]? = _
        rw [List.getElem?_append_left (List.getElem?_eq_some_iff.mp waiting).1]
        exact waiting
      | step other fault =>
        obtain ⟨op,next,r,w',running,performed,rfl⟩ := limiterStep step
        by_cases own : other = pid
        · subst own
          cases calm fault (List.mem_cons_self ..)
          rw [waiting] at running
          cases Option.some.inj running
          cases Option.some.inj performed
          refine .inr ⟨_,List.getElem?_set_self (List.getElem?_eq_some_iff.mp waiting).1,?_⟩
          intro allowed
          exact of_decide_eq_true (Option.some.inj allowed)
        · exact .inl (by rw [List.getElem?_set_ne own]; exact waiting)
      | stop other =>
        obtain ⟨_,rfl⟩ := limiterStop step
        by_cases own : other = pid
        · subst own
          exact .inr ⟨none,List.getElem?_set_self (List.getElem?_eq_some_iff.mp waiting).1,fun same => by contradiction⟩
        · exact .inl (by rw [List.getElem?_set_ne own]; exact waiting)
      | drift passed =>
        cases Option.some.inj step
        exact .inl waiting
    · exact .inr ⟨answer,overStays (.next .refl trivial step : Reach limiterMachine (fun _ _ => True) c c₁) done,known⟩

theorem afterIncr {key : String} (staged : Staged c) (found : c.shared.checks[pid]? = some check)
    (awaits : c.awaits pid = some (.incr key)) (step : limiterMachine.next c (.step pid .none) = some c') :
    check.key = key ∧ c'.running[pid]? = some (if c.shared.counters.upped key c.shared.now = 1 then check.firstInWindow
      else .done (some (decide (c.shared.counters.upped key c.shared.now ≤ check.maxRequests)))) := by
  obtain ⟨op,next,r,w',running,performed,rfl⟩ := limiterStep step
  have inside := (List.getElem?_eq_some_iff.mp running).1
  obtain ⟨check',found',stage⟩ := staged.2 pid _ running
  cases Option.some.inj (found.symm.trans found')
  have own := (stageNext stage r).1
  rw [LimiterState.awaits,running] at awaits
  cases Option.some.inj awaits
  generalize here : Program.call _ next = p at stage
  cases stage with
  | counted => cases here
  | ended => cases here
  | begun =>
    cases here
    refine ⟨rfl,?_⟩
    have answer : r = .ok (c.shared.counters.upped check.key c.shared.now) := by
      cases Option.some.inj performed
      exact Counters.incrAnswer
    subst answer
    exact List.getElem?_set_self inside

theorem letThroughCounted {events : List LimiterEvent} (ran : limiterMachine.run events limiterStart = some c)
    {key : String} {maxRequests start : Nat} (through : LetThrough key maxRequests start events c pid) :
    ∃ x ∈ low Count.time Count.value start (milliseconds CacheTTL.rateLimit) maxRequests (tally key events limiterStart),
      x.pid = pid := by
  obtain ⟨⟨check,found,_,rfl⟩,calm,⟨_,⟨before,fault,after,c₁,rfl,ranBefore,awaits,rfl⟩,first,last⟩,allowed⟩ := through
  cases calm fault (List.mem_append_right _ (List.mem_cons_self ..))
  rw [Interleaving.runAppend,ranBefore,Option.bind_some] at ran
  obtain ⟨c₂,step,ran⟩ := Option.bind_eq_some_iff.mp ran
  have staged := (stagedReach startStaged (Interleaving.reachOfRun ranBefore)).1
  have later : Reach limiterMachine (fun _ _ => True) c₂ c := Interleaving.reachOfRun ran
  obtain ⟨p,running,awaited⟩ := Option.bind_eq_some_iff.mp awaits
  obtain ⟨check₁,found₁,_⟩ := staged.2 pid p running
  obtain ⟨staged₂,grows₂⟩ := stagedNext staged step
  have kept : c.shared.checks[pid]? = some check₁ := by
    obtain ⟨more,same⟩ := grows₂.trans (stagedReach staged₂ later).2
    rw [← same,List.getElem?_append_left (List.getElem?_eq_some_iff.mp found₁).1]
    exact found₁
  cases Option.some.inj (kept.symm.trans found)
  obtain ⟨_,became⟩ := afterIncr staged found₁ awaits step
  refine ⟨⟨pid,c₁.shared.now,c₁.shared.counters.upped key c₁.shared.now⟩,lowMem.mpr ⟨?_,⟨first,last⟩,?_⟩,rfl⟩
  · rw [tallyAppend,ranBefore]
    simp [tally,LimiterState.counts,awaits]
  · by_cases fresh : c₁.shared.counters.upped key c₁.shared.now = 1
    · rw [if_pos fresh] at became
      rw [fresh]
      have ends := firstLasts ran (fun fault inside => calm fault (by simp [inside])) (.inl became)
      rcases ends with waiting | ⟨answer,done,known⟩
      · cases waiting.symm.trans allowed
      · cases Option.some.inj (done.symm.trans allowed)
        exact known rfl
    · rw [if_neg fresh] at became
      have done := overStays later became
      have answer := Program.done.inj (Option.some.inj (done.symm.trans allowed))
      exact of_decide_eq_true (Option.some.inj answer)

end

theorem lessThanTwiceTheLimit {events : List LimiterEvent} {c : LimiterState}
    (ran : limiterMachine.run events limiterStart = some c) {key : String} {maxRequests start : Nat} {pids : List Nat}
    (nodup : pids.Nodup) (through : ∀ pid ∈ pids, LetThrough key maxRequests start events c pid) :
    pids.length ≤ 2 * maxRequests - 1 := by
  have tracked := @trackedRun _ key _ ran
  refine le_trans ?_ (@Counting.atMostTwice _ _ _ start _ maxRequests _ tracked.counting)
  rw [← List.length_map (f := Count.pid)]
  refine (nodup.subperm ?_).length_le
  intro pid here
  obtain ⟨x,counted,own⟩ := letThroughCounted ran (through pid here)
  exact List.mem_map.mpr ⟨x,counted,own⟩

def twoWindows : List LimiterEvent :=
  [.start ⟨"10.0.0.1",sendPath,2⟩,.step 0 .none,.step 0 .none,.drift 59000,.start ⟨"10.0.0.1",sendPath,2⟩,.step 1 .none,
    .drift 1001,.start ⟨"10.0.0.1",sendPath,2⟩,.step 2 .none,.step 2 .none,.drift 999,.start ⟨"10.0.0.1",sendPath,2⟩,
    .step 3 .none]

def afterWindows : LimiterState := (limiterMachine.run twoWindows limiterStart).getD limiterStart

theorem arrivesAfter {pid k : Nat} (split : twoWindows = twoWindows.take k ++ .step pid .none :: twoWindows.drop (k + 1))
    (ran : (limiterMachine.run (twoWindows.take k) limiterStart).isSome = true)
    (awaits : LimiterState.awaits ((limiterMachine.run (twoWindows.take k) limiterStart).getD limiterStart) pid =
      some (.incr (CacheKeys.rateLimit "10.0.0.1" sendPath))) :
    Arrives twoWindows pid (CacheKeys.rateLimit "10.0.0.1" sendPath)
      ((limiterMachine.run (twoWindows.take k) limiterStart).getD limiterStart).shared.now :=
  ⟨_,_,_,_,split,requestsRan ran,awaits,rfl⟩

theorem windowsThrough : ∀ pid ∈ [1,2,3],
    LetThrough (CacheKeys.rateLimit "10.0.0.1" sendPath) 2 59000 twoWindows afterWindows pid := by
  have calm : ∀ pid, Unfailing twoWindows pid := by
    intro pid fault inside
    simp only [twoWindows,List.mem_cons,Interleaving.Event.step.injEq,reduceCtorEq,List.not_mem_nil,false_or,
      or_false] at inside
    rcases inside with h | h | h | h | h | h <;> exact h.2
  have through : ∀ pid k, twoWindows = twoWindows.take k ++ .step pid .none :: twoWindows.drop (k + 1) →
      (limiterMachine.run (twoWindows.take k) limiterStart).isSome = true →
      LimiterState.awaits ((limiterMachine.run (twoWindows.take k) limiterStart).getD limiterStart) pid =
        some (.incr (CacheKeys.rateLimit "10.0.0.1" sendPath)) →
      59000 ≤ ((limiterMachine.run (twoWindows.take k) limiterStart).getD limiterStart).shared.now ∧
        ((limiterMachine.run (twoWindows.take k) limiterStart).getD limiterStart).shared.now < 59000 + milliseconds CacheTTL.rateLimit →
      afterWindows.shared.checks[pid]? = some ⟨"10.0.0.1",sendPath,2⟩ →
      (afterWindows.running[pid]?.bind Program.finished) = some (some true) →
      LetThrough (CacheKeys.rateLimit "10.0.0.1" sendPath) 2 59000 twoWindows afterWindows pid := by
    intro pid k split ran awaits timely found finished
    obtain ⟨p,here,finished⟩ := Option.bind_eq_some_iff.mp finished
    exact ⟨⟨_,found,rfl,rfl⟩,calm pid,⟨_,arrivesAfter split ran awaits,timely⟩,
      by rw [here,Program.finishedEq finished]⟩
  intro pid here
  obtain rfl | rfl | rfl : pid = 1 ∨ pid = 2 ∨ pid = 3 := by simpa using here
  · exact through 1 5 rfl (by decide +kernel) (by decide +kernel) (by decide +kernel) (by decide +kernel)
      (by decide +kernel)
  · exact through 2 8 rfl (by decide +kernel) (by decide +kernel) (by decide +kernel) (by decide +kernel)
      (by decide +kernel)
  · exact through 3 12 rfl (by decide +kernel) (by decide +kernel) (by decide +kernel) (by decide +kernel)
      (by decide +kernel)

theorem lessThanTwiceTheLimitReached : (∀ pid ∈ [1,2,3],
      LetThrough (CacheKeys.rateLimit "10.0.0.1" sendPath) 2 59000 twoWindows afterWindows pid) ∧
    [1,2,3].length ≤ 2 * 2 - 1 :=
  ⟨windowsThrough,lessThanTwiceTheLimit
    (requestsRan (show (limiterMachine.run twoWindows limiterStart).isSome = true by decide +kernel)) (by decide)
    windowsThrough⟩

end PaymentSystem
