import PaymentSystem.Service.JsonMode
import PaymentSystem.Behaviour.Outcomes

/-! Runs that are given by their events, and what is known of every run: the states
of a run are held by the outline, so their requests are ordered, due and reported. -/
namespace PaymentSystem
open Numerics (Decimal)
open Interleaving (Machine Config Event Program Reach Sound Held Safe)
open Interleaving.Task (Ends)

abbrev Happening := Event Choice Call String

def calm (seed : Nat) : Choice := ⟨.none,Fin.ofNat _ seed,⟨2024,1,1,0,0,0,0⟩,"hash",[]⟩

def steps (pid count seed : Nat) : List Happening :=
  (List.range count).map (fun i => .step pid (calm (seed + i)))

def faulty (pid : Nat) (fault : Fault) : Happening := .step pid {calm 0 with fault := fault}

def serve (call : Call) (pid count seed : Nat) : List Happening := .start call :: steps pid count seed

def Amount.ofCents (cents : Nat) (positive : 0 < cents) : Amount where
  value := ⟨cents,-2⟩
  cents := cents
  inCents := Decimal.Units.ofExponent 2 cents
  positive := by omega

def fiveDollars : Amount := .ofCents 500 (by decide)

def tenDollars : Amount := .ofCents 1000 (by decide)

def fiftyDollars : Amount := .ofCents 5000 (by decide)

def UserCreate.named (email : String) : UserCreate :=
  ⟨email,"password",by simp,"name",by simp⟩

def PaymentRequest.to (receiverId : UUID) (amount : Amount) (key : String)
    (keyLength : 1 ≤ key.toList.length ∧ key.toList.length ≤ 255) : PaymentRequest where
  receiverId := receiverId
  amount := amount
  currency := "USD"
  currencyPattern := by simp [isUpper]
  idempotencyKey := key
  keyLength := keyLength
  description := none
  descriptionLength := by simp

/-- Users 102 and 202 with wallets 103 and 203, and 100.00 in the first of them. -/
def opening : List Happening :=
  serve (.register (.named "a@bank.org")) 0 7 100 ++ (serve (.register (.named "b@bank.org")) 1 7 200 ++
    serve (.topUp 102 (.ofCents 10000 (by decide)) true) 2 7 300)

def rent : PaymentRequest := .to 202 (.ofCents 3000 (by decide)) "rent" (by decide)

def rentTwice : List Happening :=
  opening ++ (serve (.sendMoney 102 rent false) 3 11 400 ++ serve (.sendMoney 102 rent false) 4 2 500)

theorem outcomeDone {c : State} {pid : Nat} {outcome : Outcome} (h : c.outcome pid = some outcome) :
    c.running[pid]? = some (.done outcome) := by
  obtain ⟨p,here,finished⟩ := Option.bind_eq_some_iff.mp h
  rw [here,Program.finishedEq finished]

theorem awaitsCall {c : State} {pid : Nat} {op : Op} (h : c.awaits pid = some op) :
    ∃ next, c.running[pid]? = some (.call op next) := by
  obtain ⟨p,here,awaited⟩ := Option.bind_eq_some_iff.mp h
  obtain ⟨next,rfl⟩ := Program.awaitedEq awaited
  exact ⟨next,here⟩

theorem callAwaits {c : State} {pid : Nat} {op : Op} {next : Res op → Program Op Res Outcome}
    (here : c.running[pid]? = some (.call op next)) : c.awaits pid = some op := by
  rw [State.awaits,here]
  rfl

section
variable [Pydantic] {c c₀ : State} {meets : State → Happening → Prop}

theorem heldInitial : Held machine outline (fun w => w.calls.length) Report initial where
  inv := intactEmpty
  counted := rfl
  safe := by intro pid p here; simp [initial] at here

theorem heldReachable (reachable : Reachable c) : Held machine outline (fun w => w.calls.length) Report c :=
  Interleaving.heldReach sound heldInitial reachable

theorem reachableLater (reachable : Reachable c₀) (later : Reach machine meets c₀ c) : Reachable c :=
  reachable.trans (later.weaken (fun _ _ _ => trivial))

theorem reachableIntact (reachable : Reachable c) : Intact c.shared := (heldReachable reachable).inv

theorem reachableReport {pid : Nat} {outcome : Outcome} (reachable : Reachable c)
    (done : c.outcome pid = some outcome) : Report pid outcome c.shared :=
  (heldReachable reachable).ended (outcomeDone done)

theorem reachableDue {pid : Nat} {op : Op} {next : Res op → Program Op Res Outcome} (reachable : Reachable c)
    (here : c.running[pid]? = some (.call op next)) :
    Ordered pid c.shared op ∧ Due pid c.shared op ∧ pid < c.shared.calls.length :=
  (heldReachable reachable).nextCall sound here

/-! One event. -/

theorem nextStep {c' : State} {pid : Nat} {choice : Choice} (h : machine.next c (.step pid choice) = some c') :
    ∃ op next r s', c.running[pid]? = some (.call op next) ∧
      attempt pid c.shared.stores op choice = some (r,s') ∧
      c' = ⟨c.shared.called pid op choice.fault r s',c.running.set pid (next r)⟩ := by
  simp only [Machine.next] at h
  split at h <;> try contradiction
  rename_i op next here
  obtain ⟨⟨r,w'⟩,ran,rfl⟩ := Option.map_eq_some_iff.mp h
  obtain ⟨s',attempted,rfl⟩ := execCases ran
  exact ⟨op,next,r,s',here,attempted,rfl⟩

theorem nextStop {c' : State} {pid : Nat} (h : machine.next c (.stop pid) = some c') :
    (∃ op next, c.running[pid]? = some (.call op next)) ∧
      c' = ⟨c.shared.stop pid,c.running.set pid (.done (.error .cancelled))⟩ := by
  simp only [Machine.next] at h
  split at h <;> try contradiction
  rename_i op next here
  cases Option.some.inj h
  exact ⟨⟨op,next,here⟩,rfl⟩

theorem nextGrows {c' : State} {e : Happening} (h : machine.next c e = some c') : Grows c.shared c'.shared := by
  cases e with
  | start job =>
    cases Option.some.inj h
    exact ⟨List.prefix_append ..,List.prefix_refl _,[],(List.append_nil _).symm,by simp⟩
  | step pid choice =>
    obtain ⟨op,next,r,s',_,attempted,rfl⟩ := nextStep h
    have ran : World.exec pid c.shared op choice = some (r,c.shared.called pid op choice.fault r s') := by
      simp only [World.exec,attempted]
      rfl
    exact execGrows ran
  | stop pid =>
    obtain ⟨_,rfl⟩ := nextStop h
    exact growsRecord rfl (List.prefix_refl _) rfl rfl
  | drift key =>
    cases Option.some.inj h
    exact ⟨List.prefix_refl _,List.prefix_refl _,[],(List.append_nil _).symm,by simp⟩

theorem reachGrows (later : Reach machine meets c₀ c) : Grows c₀.shared c.shared := by
  induction later with
  | refl => exact .refl _
  | next _ _ step ih => exact ih.trans (nextGrows step)

theorem nextWal {c' : State} {e : Happening} (h : machine.next c e = some c') :
    c'.shared.wal = c.shared.wal ∨ ∃ pid choice next, e = .step pid choice ∧
      c.running[pid]? = some (.call .commit next) ∧ c.shared.db.pending pid ≠ [] ∧
      c'.shared.wal = c.shared.wal ++ [⟨pid,c.shared.db.pending pid⟩] := by
  cases e with
  | start job => cases Option.some.inj h; exact .inl rfl
  | step pid choice =>
    obtain ⟨op,next,r,s',here,attempted,rfl⟩ := nextStep h
    by_cases commits : op = .commit
    · subst commits
      cases attemptEffect attempted with
      | committed _ =>
        by_cases nothing : c.shared.db.pending pid = []
        · refine .inl ?_
          change (c.shared.db.commit pid).wal = _
          rw [Database.commitWal,if_pos nothing]
        · refine .inr ⟨pid,choice,next,rfl,here,nothing,?_⟩
          change (c.shared.db.commit pid).wal = _
          rw [Database.commitWal,if_neg nothing]
      | _ => exact .inl rfl
    · exact .inl (effectWal (attemptEffect attempted) commits)
  | stop pid =>
    obtain ⟨_,rfl⟩ := nextStop h
    exact .inl rfl
  | drift key =>
    cases Option.some.inj h
    exact .inl rfl

structure Makes (meets : State → Happening → Prop) (c₀ c₁ c₂ c : State) (i : Nat) (commit : Commit)
    (choice : Choice) : Prop where
  before : Reach machine meets c₀ c₁
  met : meets c₁ (.step commit.pid choice)
  step : machine.next c₁ (.step commit.pid choice) = some c₂
  after : Reach machine meets c₂ c
  awaits : c₁.awaits commit.pid = some .commit
  count : c₁.shared.wal.length = i
  writes : commit.writes = c₁.shared.db.pending commit.pid
  wal : c₂.shared.wal = c₁.shared.wal ++ [commit]

theorem reachCommit (later : Reach machine meets c₀ c) {i : Nat} {commit : Commit}
    (late : c₀.shared.wal.length ≤ i) (found : c.shared.wal[i]? = some commit) :
    ∃ c₁ c₂ choice, Makes meets c₀ c₁ c₂ c i commit choice := by
  induction later with
  | refl =>
    rw [List.getElem?_eq_none late] at found
    contradiction
  | @next c c' e before ok step ih =>
    by_cases old : c.shared.wal[i]? = some commit
    · obtain ⟨c₁,c₂,choice,made⟩ := ih old
      exact ⟨c₁,c₂,choice,{made with after := .next made.after ok step}⟩
    · rcases nextWal step with same | ⟨pid,choice,next,rfl,running,_,more⟩
      · exact absurd (same ▸ found) old
      · rw [more,List.getElem?_append] at found
        split at found
        · exact absurd found old
        · rw [List.getElem?_singleton] at found
          split at found
          · cases found
            exact ⟨c,c',choice,before,ok,step,.refl,callAwaits running,by omega,rfl,more⟩
          · contradiction

inductive Logged (c : State) : Happening → Record → Prop where
  | step {pid choice op next r s'} (here : c.running[pid]? = some (.call op next))
      (ran : attempt pid c.shared.stores op choice = some (r,s')) :
      Logged c (.step pid choice) (.called pid op choice.fault r c.shared.wal.length)
  | stop {pid op next} (here : c.running[pid]? = some (.call op next)) :
      Logged c (.stop pid) (.stopped pid c.shared.wal.length)

theorem nextLog {c' : State} {e : Happening} (h : machine.next c e = some c') :
    c'.shared.log = c.shared.log ∨ ∃ rec, Logged c e rec ∧ c'.shared.log = c.shared.log ++ [rec] := by
  cases e with
  | start job => cases Option.some.inj h; exact .inl rfl
  | step pid choice =>
    obtain ⟨op,next,r,s',here,attempted,rfl⟩ := nextStep h
    exact .inr ⟨_,.step here attempted,rfl⟩
  | stop pid =>
    obtain ⟨⟨op,next,here⟩,rfl⟩ := nextStop h
    exact .inr ⟨_,.stop here,rfl⟩
  | drift key => cases Option.some.inj h; exact .inl rfl

theorem nextRecord {c' : State} {e : Happening} {rec : Record} (h : machine.next c e = some c')
    (here : rec ∈ c'.shared.log) : rec ∈ c.shared.log ∨ Logged c e rec := by
  rcases nextLog h with same | ⟨last,logged,more⟩
  · exact .inl (same ▸ here)
  · rw [more] at here
    rcases List.mem_append.mp here with here | here
    · exact .inl here
    · rw [List.mem_singleton.mp here]
      exact .inr logged

theorem reachLog {P : Record → Prop} (later : Reach machine meets c₀ c)
    (each : ∀ c e rec, Reach machine meets c₀ c → meets c e → Logged c e rec → P rec) :
    ∀ rec ∈ c.shared.log, rec ∈ c₀.shared.log ∨ P rec := by
  induction later with
  | refl => exact fun rec here => .inl here
  | next before ok step ih =>
    intro rec here
    rcases nextRecord step here with here | logged
    · exact ih rec here
    · exact .inr (each _ _ rec before ok logged)

theorem Logged.started {e : Happening} {rec : Record} (h : Logged c e rec) (reachable : Reachable c) :
    rec.pid < c.shared.calls.length := by
  cases h with
  | step here => exact (reachableDue reachable here).2.2
  | stop here => exact (heldReachable reachable).counted ▸ (List.getElem?_eq_some_iff.mp here).1

theorem reachPlaced {Q : World → List Record → Record → Call → Prop}
    (grows : ∀ w w' before rec call, Intact w → Intact w' → Grows w w' → Q w before rec call →
      Q w' before rec call)
    (each : ∀ c c' e rec call, Reach machine meets initial c → meets c e → machine.next c e = some c' →
      Logged c e rec → c.shared.calls[rec.pid]? = some call → Q c'.shared c.shared.log rec call)
    (run : Reach machine meets initial c) : ∀ before rec after, c.shared.log = before ++ rec :: after →
      ∀ call, c.shared.calls[rec.pid]? = some call → Q c.shared before rec call := by
  induction run with
  | refl => intro before rec after split; simp [initial,World.empty] at split
  | @next c c' e run ok step ih =>
    have reachable : Reachable c := run.weaken (fun _ _ _ => trivial)
    have intact := reachableIntact reachable
    have intact' := reachableIntact (.next reachable trivial step)
    intro before rec after split call called
    have earlier : rec.pid < c.shared.calls.length → c.shared.calls[rec.pid]? = some call := by
      intro started
      have found := List.getElem?_eq_getElem started
      rw [found,← (nextGrows step).call found,called]
    have old : ∀ after, c.shared.log = before ++ rec :: after → Q c'.shared before rec call := by
      intro after split
      have here : rec ∈ c.shared.log := split ▸ List.mem_append_right _ (List.mem_cons_self ..)
      have started : rec.pid < c.shared.calls.length := by
        by_contra late
        exact (intact.unstarted rec.pid (not_lt.mp late)).2.2 rec here rfl
      exact grows _ _ before rec call intact intact' (nextGrows step)
        (ih before rec after split call (earlier started))
    rcases nextLog step with same | ⟨last,logged,more⟩
    · exact old after (same ▸ split)
    · rw [more] at split
      rcases List.eq_nil_or_concat after with rfl | ⟨middle,final,rfl⟩
      · obtain ⟨rfl,rfl⟩ := List.append_singleton_inj.mp split
        exact each c c' e last call run ok step logged (earlier (logged.started reachable))
      · rw [List.concat_eq_append,← List.cons_append,← List.append_assoc] at split
        exact old middle (List.append_singleton_inj.mp split).1

theorem reachRecords {Q : World → Record → Call → Prop}
    (grows : ∀ w w' rec call, Intact w → Intact w' → Grows w w' → Q w rec call → Q w' rec call)
    (each : ∀ c c' e rec call, Reach machine meets initial c → meets c e → machine.next c e = some c' →
      Logged c e rec → c.shared.calls[rec.pid]? = some call → Q c'.shared rec call)
    (run : Reach machine meets initial c) :
    ∀ rec ∈ c.shared.log, ∀ call, c.shared.calls[rec.pid]? = some call → Q c.shared rec call := by
  intro rec here
  obtain ⟨before,after,split⟩ := List.append_of_mem here
  exact reachPlaced (Q := fun w _ rec call => Q w rec call) (fun w w' _ => grows w w') each run before rec after
    split

theorem programUnfinished (call : Call) : call.program.finished = none := by
  unfold Call.program
  cases call.service Session.new <;> rfl

theorem nextOutcome {c' : State} {e : Happening} {pid : Nat} {outcome : Outcome}
    (h : machine.next c e = some c') (done : c'.outcome pid = some outcome) :
    c.outcome pid = some outcome ∨ (∃ choice, e = .step pid choice) ∨
      (e = .stop pid ∧ outcome = .error .cancelled) := by
  have kept : ∀ other p, pid ≠ other → c'.running = c.running.set other p → c.outcome pid = some outcome := by
    intro other p apart same
    rw [State.outcome,same,List.getElem?_set_ne (Ne.symm apart)] at done
    exact done
  cases e with
  | start job =>
    cases Option.some.inj h
    refine .inl ?_
    simp only [State.outcome,List.getElem?_append] at done ⊢
    split at done
    · exact done
    · rw [List.getElem?_singleton] at done
      split at done
      · rw [Option.bind_some] at done
        exact absurd (programUnfinished job ▸ done) (by simp)
      · contradiction
  | step other choice =>
    obtain ⟨op,next,r,s',_,_,rfl⟩ := nextStep h
    by_cases same : pid = other
    · exact .inr (.inl ⟨choice,by rw [same]⟩)
    · exact .inl (kept other _ same rfl)
  | stop other =>
    obtain ⟨⟨op,next,here⟩,rfl⟩ := nextStop h
    by_cases same : pid = other
    · subst same
      refine .inr (.inr ⟨rfl,?_⟩)
      have inside := (List.getElem?_eq_some_iff.mp here).1
      simp only [State.outcome,List.getElem?_set_self inside] at done
      exact (Option.some.inj done).symm
    · exact .inl (kept other _ same rfl)
  | drift key =>
    cases Option.some.inj h
    exact .inl done

theorem runReachable {events : List Happening} (h : machine.run events initial = some c) : Reachable c :=
  Interleaving.reachOfRun h

def stateAfter (events : List Happening) : State := (machine.run events initial).getD initial

theorem stateReachable (events : List Happening) (h : (machine.run events initial).isSome = true) :
    Reachable (stateAfter events) := by
  obtain ⟨c,ran⟩ := Option.isSome_iff_exists.mp h
  rw [stateAfter,ran]
  exact runReachable ran

def stateFrom (first : State) (events : List Happening) : State := (machine.run events first).getD first

theorem fromMeets {test : State → Happening → Bool} (first : State) (events : List Happening)
    (sure : ∀ c e, test c e = true → meets c e) (pass : machine.passes test events first = true)
    (h : (machine.run events first).isSome = true) : Reach machine meets first (stateFrom first events) := by
  obtain ⟨c,ran⟩ := Option.isSome_iff_exists.mp h
  rw [stateFrom,ran]
  exact Interleaving.reachOfPasses sure pass ran

theorem stateMeets {test : State → Happening → Bool} (events : List Happening)
    (sure : ∀ c e, test c e = true → meets c e) (pass : machine.passes test events initial = true)
    (h : (machine.run events initial).isSome = true) : Reach machine meets initial (stateAfter events) :=
  fromMeets initial events sure pass h

structure Run (first : State) where
  events : List Happening
  possible : (machine.run events first).isSome = true

def Run.last {first : State} (run : Run first) : State := stateFrom first run.events

theorem Run.meeting {first : State} (run : Run first) {test : State → Happening → Bool}
    (sure : ∀ c e, test c e = true → meets c e) (pass : machine.passes test run.events first = true) :
    Reach machine meets first run.last :=
  fromMeets first run.events sure pass run.possible

theorem Run.ran {first : State} (run : Run first) : machine.run run.events first = some run.last := by
  obtain ⟨c,ran⟩ := Option.isSome_iff_exists.mp run.possible
  rw [Run.last,stateFrom,ran]
  rfl

theorem Run.together {first : State} (run : Run first) (later : Run run.last) :
    machine.run (run.events ++ later.events) first = some later.last := by
  rw [Interleaving.runAppend,run.ran,Option.bind_some,later.ran]

theorem Run.reaches {first : State} (run : Run first) : Reach machine (fun _ _ => True) first run.last :=
  Interleaving.reachOfRun run.ran

def State.begin (c : State) (call : Call) : State := ⟨c.shared.start call,c.running ++ [call.program]⟩

end

/-! A fact about the outcome of a call, from the call's own service. -/

structure Concludable [Pydantic] (fact : Nat → World → Call → Outcome → Prop) : Prop where
  stays : ∀ pid w w' call outcome, Intact w → Intact w' → Grows w w' →
    (∀ c ∈ w'.wal, c.pid = pid → c ∈ w.wal) → fact pid w call outcome → fact pid w' call outcome
  stopped : ∀ pid w call, Failed pid w → fact pid w call (.error .cancelled)
  service : ∀ pid w call, Intact w → Working pid call [] [] w →
    Ends machine outline pid call.service Session.new w (fun r _ w => fact pid w call r)

def ReportsThat [Pydantic] (fact : Nat → World → Call → Outcome → Prop) (pid : Nat) (outcome : Outcome) (w : World) : Prop :=
  Report pid outcome w ∧ ∀ call, w.calls[pid]? = some call → fact pid w call outcome

section
variable [Pydantic] {fact : Nat → World → Call → Outcome → Prop}

theorem Concludable.safe (h : Concludable fact) {pid : Nat} {w : World} {call : Call} (intact : Intact w)
    (working : Working pid call [] [] w) :
    Safe machine outline pid (fun outcome w => fact pid w call outcome) call.program w := by
  refine Interleaving.safeBind (endsCalled (h.service pid w call intact working) working.call) intact ?_
  rintro out w₁ intact₁ ⟨known,call₁⟩ w₂ later intact₂
  refine ⟨⟨?_,⟨isNot rfl,isNot rfl⟩,startedOf (later.grows.call call₁)⟩,?_⟩
  · intro r wanted
    simp [Op.wants] at wanted
  · intro choice r w₃ _ ran intact₃
    obtain ⟨s',attempted,rfl⟩ := execCases ran
    have wal : s'.db.wal = w₂.wal := by
      rw [closeReleases attempted]
      rfl
    refine h.stays pid w₁ _ call out.1 intact₁ intact₃ (later.grows.trans (execGrows ran)) ?_ known
    intro c here own
    change c ∈ s'.db.wal at here
    rw [wal] at here
    exact later.commits c here own

theorem Concludable.sound (h : Concludable fact) :
    Sound machine outline (fun _ _ => True) (fun w => w.calls.length) (ReportsThat fact) where
  relyRefl := PaymentSystem.sound.relyRefl
  relyTrans := PaymentSystem.sound.relyTrans
  stable := by
    rintro pid outcome w w' intact later intact' ⟨report,known⟩
    refine ⟨PaymentSystem.sound.stable pid outcome w w' intact later intact' report,?_⟩
    intro call called
    obtain ⟨before,concluded⟩ := report.concluded
    cases Option.some.inj ((later.grows.call concluded.called).symm.trans called)
    exact h.stays pid w w' _ outcome intact intact' later.grows later.commits (known _ concluded.called)
  allowed := PaymentSystem.sound.allowed
  exec := PaymentSystem.sound.exec
  start := by
    intro c job intact _
    obtain ⟨intact',counted,later,safe⟩ := PaymentSystem.sound.start c job intact trivial
    have working := workingStarted intact job
    refine ⟨intact',counted,later,?_⟩
    have here : Safe machine outline c.shared.calls.length (fun outcome w =>
        (Report c.shared.calls.length outcome w ∧ fact c.shared.calls.length w job outcome) ∧
          w.calls[c.shared.calls.length]? = some job) job.program (c.shared.start job) :=
      Interleaving.safeFrame (fun a b later => (Later.grows later).call) (fun _ _ _ _ _ ran => (execGrows ran).call)
        (Interleaving.safeBoth safe (h.safe intact' working)) working.call
    refine Interleaving.safeMono here intact' ?_
    rintro outcome w _ ⟨⟨report,known⟩,same⟩
    refine ⟨report,fun call called => ?_⟩
    cases Option.some.inj (same.symm.trans called)
    exact known
  stop := by
    intro c pid started intact ok
    obtain ⟨intact',counted,later,safe⟩ := PaymentSystem.sound.stop c pid started intact ok
    have failed : Failed pid (c.shared.stop pid) := ⟨_,List.mem_append_right _ (List.mem_singleton_self _),rfl,rfl⟩
    exact ⟨intact',counted,later,safe,fun call _ => h.stopped pid _ call failed⟩
  drift := PaymentSystem.sound.drift

theorem Concludable.reachable (h : Concludable fact) {c : State} (reachable : Reachable c) {pid : Nat} {call : Call}
    {outcome : Outcome} (called : c.shared.calls[pid]? = some call) (done : c.outcome pid = some outcome) :
    fact pid c.shared call outcome := by
  have held : Held machine outline (fun w => w.calls.length) (ReportsThat fact) initial :=
    ⟨intactEmpty,rfl,by intro pid p here; simp [initial] at here⟩
  exact ((Interleaving.heldReach h.sound held reachable).ended (outcomeDone done)).2 call called

end

end PaymentSystem
