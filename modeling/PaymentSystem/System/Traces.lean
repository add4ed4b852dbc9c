import PaymentSystem.Behaviour.Attempts
import PaymentSystem.System.Schedule

/-! What a request has said so far, read off the log: in every run it is a trace of the
request's own program. -/
namespace PaymentSystem
open Numerics (Decimal)
open Interleaving (Program Reach Leads Traces)

def Record.talk (pid : Nat) : Record → Option Talk
  | .called caller op _ result _ => if caller = pid then some ⟨op,result⟩ else none
  | .stopped _ _ => none

def World.talks (w : World) (pid : Nat) : List Talk := w.log.filterMap (Record.talk pid)

section
variable {w w' : World} {pid : Nat}

theorem talkOther {rec : Record} (other : rec.pid ≠ pid) : rec.talk pid = none := by
  cases rec with
  | called caller op fault result commits => exact if_neg other
  | stopped caller commits => rfl

theorem talksAppend {rec : Record} (log : w'.log = w.log ++ [rec]) :
    w'.talks pid = w.talks pid ++ (rec.talk pid).toList := by
  rw [World.talks,log,List.filterMap_append,World.talks]
  cases known : rec.talk pid <;> simp [known]

theorem talksMem {x : Talk} (here : x ∈ w.talks pid) :
    ∃ rec ∈ w.log, rec.pid = pid ∧ rec.talk pid = some x := by
  obtain ⟨rec,inside,talk⟩ := List.mem_filterMap.mp here
  refine ⟨rec,inside,?_,talk⟩
  by_contra other
  rw [talkOther other] at talk
  contradiction

theorem talksOfMem {rec : Record} {x : Talk} (here : rec ∈ w.log) (talk : rec.talk pid = some x) :
    x ∈ w.talks pid := List.mem_filterMap.mpr ⟨rec,here,talk⟩

end

theorem performUsual {pid : Nat} {s s' : Stores} {choice : Choice} {op : Op} {e : Exn}
    (h : perform pid s choice op = some (.error e,s')) : e.rejects = false := by
  cases op with
  | selectWalletForUpdate id =>
    obtain ⟨db',ran,_⟩ := writesSome h
    obtain ⟨out,_,same⟩ := Option.map_eq_some_iff.mp ran
    cases same
  | selectTransactionByKey | selectTransactionsOf | hashPassword =>
    cases (checkedError h).1
    rfl
  | updateWallet id expected balance version =>
    obtain ⟨db',ran,_⟩ := writesSome h
    rcases Database.updateWalletCases ran with ⟨_,⟨same,_⟩ | ⟨same,_⟩ | ⟨same,_⟩⟩ | ⟨_,same,_⟩ <;> cases same <;> rfl
  | flushWallet id balance =>
    obtain ⟨db',ran,_⟩ := writesSome h
    simp only [Database.flushWallet] at ran
    split at ran
    · cases ran; rfl
    · split at ran
      · cases ran; rfl
      · split at ran
        · contradiction
        · split at ran <;> cases ran
          rfl
  | insertUser email passwordHash fullName =>
    obtain ⟨db',ran,_⟩ := writesSome h
    simp only [Database.insertUser] at ran
    split at ran
    · cases ran; rfl
    · split at ran <;> cases ran
      rfl
  | insertWallet userId =>
    obtain ⟨db',ran,_⟩ := writesSome h
    simp only [Database.insertWallet] at ran
    split at ran
    · cases ran; rfl
    · split at ran
      · contradiction
      · cases ran; rfl
      · split at ran <;> cases ran
        rfl
  | insertTransaction new =>
    obtain ⟨db',ran,_⟩ := writesSome h
    rcases Database.insertTransactionCases ran with
      ⟨_,⟨same,_⟩ | ⟨same,_⟩ | ⟨same,_⟩ | same | ⟨same,_⟩ | ⟨same,_⟩ | ⟨same,_⟩⟩ | ⟨_,_,same,_⟩ <;>
      cases same <;> rfl
  | _ => cases h

theorem attemptUsual {pid : Nat} {s s' : Stores} {choice : Choice} {op : Op} {r : Res op}
    (h : attempt pid s op choice = some (r,s')) : Talk.Usual ⟨op,r⟩ := by
  intro e same
  rcases attemptCases h with ⟨_,ran⟩ | ⟨_,failed⟩
  · exact performUsual (show perform pid s choice op = some (.error e,s') from same ▸ ran)
  · cases Except.error.inj ((show r = .error e from same).symm.trans failed)
    cases op <;> rfl

section
variable [Pydantic] {c : State} {pid : Nat}

theorem talksUsual (reachable : Reachable c) : ∀ x ∈ c.shared.talks pid, Talk.Usual x := by
  intro x here
  obtain ⟨rec,inside,_,talk⟩ := talksMem here
  refine (reachLog (P := fun rec => rec.talk pid = some x → Talk.Usual x) reachable ?_ rec inside).elim
    (fun old => by simp [initial,World.empty] at old) (fun known => known talk)
  rintro c e rec _ _ logged talk
  cases logged with
  | stop => contradiction
  | step _ ran =>
    simp only [Record.talk] at talk
    split at talk
    · cases talk
      exact attemptUsual ran
    · contradiction

theorem reachLeads (reachable : Reachable c) {call : Call} (called : c.shared.calls[pid]? = some call) :
    ∃ q, Leads call.program (c.shared.talks pid) q ∧
      (c.running[pid]? = some q ∨ c.running[pid]? = some (.done (.error .cancelled))) := by
  induction reachable with
  | refl => simp [initial,World.empty] at called
  | @next c c' e before ok step ih =>
    have held := heldReachable before
    cases e with
    | start job =>
      cases Option.some.inj step
      change (c.shared.calls ++ [job])[pid]? = some call at called
      change ∃ q, Leads _ (c.shared.talks pid) q ∧ ((c.running ++ [job.program])[pid]? = some q ∨
        (c.running ++ [job.program])[pid]? = some _)
      by_cases old : pid < c.shared.calls.length
      · rw [List.getElem?_append_left (held.counted ▸ old)]
        rw [List.getElem?_append_left old] at called
        exact ih called
      · have last : pid = c.shared.calls.length := by
          have inside := (List.getElem?_eq_some_iff.mp called).1
          rw [List.length_append,List.length_singleton] at inside
          omega
        subst last
        rw [List.getElem?_concat_length] at called
        cases called
        -- who has only just arrived has said nothing
        have silent : c.shared.talks c.shared.calls.length = [] := by
          apply List.eq_nil_iff_forall_not_mem.mpr
          intro x here
          obtain ⟨rec,inside,own,_⟩ := talksMem here
          exact (held.inv.unstarted _ (Nat.le_refl _)).2.2 rec inside own
        rw [silent,← held.counted,List.getElem?_concat_length]
        exact ⟨_,.refl,.inl rfl⟩
    | step other choice =>
      obtain ⟨op,next,r,s',here,attempted,rfl⟩ := nextStep step
      obtain ⟨q,leads,running⟩ := ih called
      have log : (c.shared.called other op choice.fault r s').log = c.shared.log ++ [.called other op choice.fault r
        c.shared.wal.length] := rfl
      rw [talksAppend log]
      by_cases same : other = pid
      · subst same
        have inside := (List.getElem?_eq_some_iff.mp here).1
        rw [here] at running
        rcases running with running | running <;> cases running
        refine ⟨next r,?_,.inl (List.getElem?_set_self inside)⟩
        have talk : (Record.called other op choice.fault r c.shared.wal.length).talk other = some ⟨op,r⟩ := if_pos rfl
        rw [talk]
        exact .next leads
      · have talk : (Record.called other op choice.fault r c.shared.wal.length).talk pid = none := if_neg same
        rw [talk,Option.toList_none,List.append_nil]
        change ∃ q, Leads _ _ q ∧ ((c.running.set other (next r))[pid]? = some q ∨
          (c.running.set other (next r))[pid]? = some _)
        rw [List.getElem?_set_ne same]
        exact ⟨q,leads,running⟩
    | stop other =>
      obtain ⟨⟨op,next,here⟩,rfl⟩ := nextStop step
      obtain ⟨q,leads,running⟩ := ih called
      have log : (c.shared.stop other).log = c.shared.log ++ [.stopped other c.shared.wal.length] := rfl
      rw [talksAppend log]
      have talk : (Record.stopped other c.shared.wal.length).talk pid = none := rfl
      rw [talk,Option.toList_none,List.append_nil]
      refine ⟨q,leads,?_⟩
      by_cases same : other = pid
      · subst same
        exact .inr (List.getElem?_set_self (List.getElem?_eq_some_iff.mp here).1)
      · change (c.running.set other _)[pid]? = some q ∨ (c.running.set other _)[pid]? = some _
        rw [List.getElem?_set_ne same]
        exact running
    | drift key =>
      cases Option.some.inj step
      exact ih called

end
end PaymentSystem
