import PaymentSystem.Behaviour.Payments
import PaymentSystem.Behaviour.Reads
import PaymentSystem.Behaviour.Registrations

/-! Every request in every interleaving: what is known of it once it is over, whether
it returned, raised, or stopped on the way. -/
namespace PaymentSystem
open Interleaving (Task Sound Held Safe)
open Interleaving.Task (Ends endsBind)

def Call.redisClient : Call → Bool
  | .topUp _ _ redisClient => redisClient
  | .sendMoney _ _ redisClient => redisClient
  | .getWallet _ redisClient => redisClient
  | .getBalanceFast _ redisClient => redisClient
  | _ => true

def Answered (pid : Nat) (w : World) : Call → Outcome → Prop
  | .register _, .ok (.user _) => True
  | .topUp userId _ _, .ok (.wallet wallet) =>
      CommittedBy pid w ∧ Reported pid userId wallet.id wallet.balance w
  | .topUp userId amount _, .error e => Unpaid pid w userId amount e
  | .sendMoney _ request _, .ok (.payment t) => Paid request t w
  | .sendMoney userId request _, .error e => Refused pid userId request w e
  | .getWallet userId _, .ok (.wallet wallet) => Reported pid userId wallet.id wallet.balance w
  | .getBalanceFast userId _, .ok (.balance balance) => ∃ id, Reported pid userId id balance w
  | .getTransactionHistory userId _ _ _, .ok (.history list) =>
      ∀ t ∈ list.transactions, Disclosed pid userId t w
  | .getTransaction userId _, .ok (.transaction t) => Disclosed pid userId t w
  | _, .ok _ => False
  | _, .error _ => True

structure Concluded (pid : Nat) (call : Call) (outcome : Outcome) (w : World) : Prop where
  called : w.calls[pid]? = some call
  answered : Answered pid w call outcome
  settled : call.redisClient = true → Settled pid w
  spoiled : ∀ e, outcome = .error e → CommittedBy pid w → Spoiled pid w
  refreshed : ∀ response, outcome = .ok response → Refreshed pid w

structure Report (pid : Nat) (outcome : Outcome) (w : World) : Prop where
  concluded : ∃ call, Concluded pid call outcome w
  closed : ∃ rec ∈ w.log, rec.pid = pid ∧ rec.ends = true
  pending : w.db.pending pid = []
  locks : ∀ r, w.db.locks r ≠ some pid

section
variable {pid : Nat} {call : Call} {outcome : Outcome} {w w' : World}

def Enrols (pid : Nat) : Except Exn UserResponse → World → Prop
  | .ok _,w => Refreshed pid w ∧ Settled pid w
  | .error _,w => Wrecked pid w

theorem concludesOk {redisClient : Bool} {response : Response} (called : w.calls[pid]? = some call)
    (answered : Answered pid w call (.ok response)) (settled : call.redisClient = redisClient)
    (h : Refreshed pid w ∧ (redisClient = true → Settled pid w)) : Concluded pid call (.ok response) w :=
  ⟨called,answered,fun redis => h.2 (settled ▸ redis),fun _ raised => by contradiction,fun _ _ => h.1⟩

theorem concludesError {e : Exn} (called : w.calls[pid]? = some call)
    (answered : Answered pid w call (.error e)) (h : Wrecked pid w) : Concluded pid call (.error e) w :=
  ⟨called,answered,fun _ => h.1,fun _ _ => h.2,fun _ returned => by contradiction⟩

theorem stoppedReport (started : pid < w.calls.length) : Report pid (.error .cancelled) (w.stop pid) := by
  have last : .stopped pid w.wal.length ∈ (w.stop pid).log :=
    List.mem_append_right _ (List.mem_singleton_self _)
  have failed : Failed pid (w.stop pid) := ⟨_,last,rfl,rfl⟩
  have settled : Settled pid (w.stop pid) := settledByFailure rfl rfl rfl rfl rfl rfl
  refine ⟨⟨w.calls[pid],List.getElem?_eq_getElem started,?_,fun _ => settled,fun _ _ _ => ⟨_,last,rfl,rfl⟩,
    fun _ returned => by contradiction⟩,⟨_,last,rfl,rfl⟩,Database.releasePending,fun _ => Database.releaseLocks⟩
  generalize w.calls[pid] = call
  cases call with
  | topUp userId amount redisClient => exact .failed rfl failed
  | sendMoney userId request redisClient => exact .failed rfl failed
  | _ => trivial

end

section
variable [Pydantic] {pid : Nat} {call : Call} {outcome : Outcome} {w w' : World}

theorem Answered.grows (h : Answered pid w call outcome) (intact : Intact w) (intact' : Intact w')
    (grows : Grows w w') : Answered pid w' call outcome := by
  unfold Answered at h ⊢
  split at h
  · trivial
  · exact ⟨h.1.grows grows,h.2.grows grows⟩
  · exact Unpaid.grows h grows
  · exact Paid.grows h intact intact' grows
  · exact Refused.grows h grows
  · exact Reported.grows h grows
  · obtain ⟨id,reported⟩ := h
    exact ⟨id,reported.grows grows⟩
  · exact fun t ht => (h t ht).grows intact intact' grows
  · exact Disclosed.grows h intact intact' grows
  · exact h
  · trivial

theorem Concluded.later (h : Concluded pid call outcome w) (intact : Intact w) (intact' : Intact w')
    (later : Later pid w w') : Concluded pid call outcome w' where
  called := later.grows.call h.called
  answered := h.answered.grows intact intact' later.grows
  settled := fun redis => (h.settled redis).later later
  spoiled := by
    rintro e raised ⟨c,hc,own⟩
    exact (h.spoiled e raised ⟨c,later.commits c hc own,own⟩).grows later.grows
  refreshed := fun response returned => (h.refreshed response returned).later later

theorem Report.later (h : Report pid outcome w) (intact : Intact w) (intact' : Intact w')
    (later : Later pid w w') : Report pid outcome w' := by
  obtain ⟨call,concluded⟩ := h.concluded
  obtain ⟨rec,here,own⟩ := h.closed
  exact ⟨⟨call,concluded.later intact intact' later⟩,⟨rec,later.grows.member here,own⟩,
    later.pending.trans h.pending,fun r held => h.locks r ((later.locks r).mp held)⟩

theorem Concluded.close {choice : Choice} {r : Res .close} {s' : Stores} (h : Concluded pid call outcome w)
    (intact : Intact w) (closed : attempt pid w.stores .close choice = some (r,s'))
    (intact' : Intact (w.called pid .close choice.fault r s')) :
    Report pid outcome (w.called pid .close choice.fault r s') := by
  have released : s'.db = w.db.release pid := closeReleases closed
  have wal : s'.db.wal = w.wal := by rw [released]; rfl
  have grows : Grows w (w.called pid .close choice.fault r s') := calledGrows (by rw [wal])
  refine ⟨⟨call,h.called,h.answered.grows intact intact' grows,fun redis => (h.settled redis).called wal,?_,?_⟩,
    ⟨_,calledLast,rfl,rfl⟩,?_,?_⟩
  · rintro e raised ⟨c,hc,own⟩
    exact (h.spoiled e raised ⟨c,wal ▸ hc,own⟩).grows grows
  · intro response returned rec here own refresh
    rcases calledMem here with here | rfl
    · exact h.refreshed response returned rec here own refresh
    · simp [Record.isRefresh,Op.isRefresh] at refresh
  · change s'.db.pending pid = []
    rw [released,Database.releasePending]
  · intro r
    change s'.db.locks r ≠ some pid
    rw [released]
    exact Database.releaseLocks

/-! The outcome of each call. -/

omit [Pydantic] in
theorem concludesRead {α : Type} {fact : α → World → Prop} {r : Except Exn α} {f : α → Response} {l : Session}
    (called : w.calls[pid]? = some call) (h : Answers pid fact r l w)
    (answered : ∀ a, fact a w → Answered pid w call (.ok (f a)))
    (raised : ∀ e, Answered pid w call (.error e)) : Concluded pid call (r.map f) w := by
  cases r with
  | ok a => exact concludesOk called (answered a h.2.2) rfl ⟨h.2.1,fun _ => (wreckedOf h.1).1⟩
  | error e => exact concludesError called (raised e) (wreckedOf h)

theorem endsCalled {α : Type} {t : Py α} {l : Session} {goal : Except Exn α → Session → World → Prop}
    (h : Ends machine outline pid t l w goal) (called : w.calls[pid]? = some call) :
    Ends machine outline pid t l w (fun r l w => goal r l w ∧ w.calls[pid]? = some call) :=
  endsGrowing (fun _ _ grows => grows.call) h called

theorem endsRespond {α : Type} {t : Py α} {goal : Except Exn α → Session → World → Prop} {f : α → Response}
    (intact : Intact w) (called : w.calls[pid]? = some call)
    (h : Ends machine outline pid t Session.new w goal)
    (done : ∀ r l' w', w'.calls[pid]? = some call → goal r l' w' → Concluded pid call (r.map f) w') :
    Ends machine outline pid (do return f (← t)) Session.new w (fun r _ w => Concluded pid call r w) :=
  endsBind (endsCalled h called) intact (fun a l' w' _ known => done (.ok a) l' w' known.2 known.1)
    (fun e l' w' _ known => done (.error e) l' w' known.2 known.1)

theorem endsService (intact : Intact w) (working : Working pid call [] [] w) :
    Ends machine outline pid call.service Session.new w (fun r _ w => Concluded pid call r w) := by
  cases call with
  | register data =>
    have ends : Ends machine outline pid (UserService.register data) Session.new w (fun r _ w => Enrols pid r w) :=
      endsRegister intact working rfl (fun _ _ wrecked _ => wrecked)
        (fun _ _ committed _ _ => ⟨committed.refreshed,committed.settled (.inl (by simp))⟩)
    refine endsRespond intact working.call ends ?_
    rintro (e | user) l' w' called known
    · exact concludesError called trivial known
    · exact concludesOk called trivial rfl ⟨known.1,fun _ => known.2⟩
  | topUp userId amount redisClient =>
    refine endsRespond intact working.call (endsTopUpAttempts _ rfl intact working rfl (by simp [Session.new])
      (@Conflicts.none _ _ _ 0) (Nat.zero_le _)) ?_
    rintro (e | wallet) l' w' called known
    · exact concludesError called known.2 known.1
    · exact concludesOk called known.1 rfl known.2
  | sendMoney userId request redisClient =>
    refine endsRespond intact working.call (endsSendMoney intact working) ?_
    rintro (e | t) l' w' called known
    · exact concludesError called known.2 known.1
    · exact concludesOk called known.1 rfl known.2
  | getWallet userId redisClient =>
    refine endsRespond intact working.call (endsGetWallet intact working) ?_
    intro r l' w' called known
    exact concludesRead called known (fun _ reported => reported) (fun _ => trivial)
  | getBalanceFast userId redisClient =>
    refine endsRespond intact working.call (endsGetBalanceFast intact working) ?_
    intro r l' w' called known
    exact concludesRead called known (fun _ reported => reported) (fun _ => trivial)
  | getTransactionHistory userId page pageSize status =>
    refine endsRespond intact working.call (endsGetTransactionHistory intact working) ?_
    intro r l' w' called known
    exact concludesRead called known (fun _ disclosed => disclosed) (fun _ => trivial)
  | getTransaction userId transactionId =>
    refine endsRespond intact working.call (endsGetTransaction intact working) ?_
    intro r l' w' called known
    exact concludesRead called known (fun _ disclosed => disclosed) (fun _ => trivial)

theorem safeProgram (intact : Intact w) (working : Working pid call [] [] w) :
    Safe machine outline pid (Report pid) call.program w := by
  refine Interleaving.safeBind (endsService intact working) intact ?_
  intro out w₁ intact₁ concluded w₂ later intact₂
  have concluded₂ := concluded.later intact₁ intact₂ later
  refine ⟨⟨?_,⟨isNot rfl,isNot rfl⟩,startedOf concluded₂.called⟩,?_⟩
  · intro r wanted
    simp [Op.wants] at wanted
  · intro choice r w₃ _ ran intact₃
    obtain ⟨s',attempted,rfl⟩ := execCases ran
    exact concluded₂.close intact₂ attempted intact₃

/-! All requests together. -/

theorem workingStarted (intact : Intact w) (call : Call) :
    Working w.calls.length call [] [] (w.start call) := by
  obtain ⟨pending,locks,records⟩ := intact.unstarted w.calls.length (Nat.le_refl _)
  refine ⟨⟨?_,?_,?_⟩,pending,?_⟩
  · simp [World.start]
  · intro c here same
    have := intact.legal.started c here
    omega
  · intro rec here own
    exact absurd own (records rec here)
  · intro r
    simp only [List.not_mem_nil,iff_false]
    exact locks r

theorem sound : Sound machine outline (fun _ _ => True) (fun w => w.calls.length) Report where
  relyRefl := Later.refl
  relyTrans := fun _ _ _ _ => Later.trans
  stable := fun _ _ _ _ intact later intact' report => report.later intact intact' later
  allowed := fun _ _ _ _ _ _ _ => trivial
  exec := fun _ _ _ _ _ _ intact pre _ ran => execKeeps intact pre ran
  start := by
    intro c job intact _
    obtain ⟨intact',later⟩ := startKeeps intact job
    exact ⟨intact',by simp [machine,World.start],fun pid _ => later pid,
      safeProgram intact' (workingStarted intact job)⟩
  stop := by
    intro c pid started intact _
    obtain ⟨intact',counted,later⟩ := stopKeeps intact started
    exact ⟨intact',counted,later,stoppedReport started⟩
  drift := by
    intro c key w' intact _ drifted
    cases drifted
    obtain ⟨intact',later⟩ := evictKeeps intact key
    exact ⟨intact',rfl,later⟩

end
end PaymentSystem
