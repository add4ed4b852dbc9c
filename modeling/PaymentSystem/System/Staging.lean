import PaymentSystem.System.Invariant

/-! Uncommitted writes: which operation leaves which. -/
namespace PaymentSystem
open Numerics (Decimal)

inductive Op.Stages (db : Database) (pid : Nat) : Op → Write → Prop where
  | insertUser {row : User} : Stages db pid (.insertUser row.email row.passwordHash row.fullName) (.insertUser row)
  | insertWallet {row : Wallet} : Stages db pid (.insertWallet row.userId) (.insertWallet row)
  | insertTransaction {new row} : Stages db pid (.insertTransaction new) (.insertTransaction row)
  | updateWallet {id expected balance version stored}
      (found : ((db.view pid).walletsById id).filter (fun w => w.version == expected) ≠ []) :
      Stages db pid (.updateWallet id expected balance version) (.updateWallet id stored version)
  | flushWallet {id balance stored version} : Stages db pid (.flushWallet id balance) (.updateWallet id stored version)

section
variable {pid other : Nat} {s s' : Stores} {choice : Choice} {op : Op} {r : Res op} {write : Write}

theorem stagedMem {db : Database} {new : Write} (here : write ∈ (db.stage pid new).pending other) :
    write ∈ db.pending other ∨ (other = pid ∧ write = new) := by
  by_cases same : other = pid
  · subst same
    rw [Database.stagePending] at here
    rcases List.mem_append.mp here with old | added
    · exact .inl old
    · exact .inr ⟨rfl,List.mem_singleton.mp added⟩
  · rw [Database.stagePendingOther same] at here
    exact .inl here

theorem releasedMem {db : Database} (here : write ∈ (db.release pid).pending other) :
    write ∈ db.pending other := by
  by_cases same : other = pid
  · subst same
    rw [Database.releasePending] at here
    contradiction
  · rwa [Database.releasePendingOther same] at here

theorem performStages (h : perform pid s choice op = some (r,s')) (here : write ∈ s'.db.pending other) :
    write ∈ s.db.pending other ∨ (other = pid ∧ op.Stages s.db pid write) := by
  have staged : ∀ new, s'.db = s.db.stage pid new → op.Stages s.db pid new →
      write ∈ s.db.pending other ∨ (other = pid ∧ op.Stages s.db pid write) := by
    intro new same stages
    rw [same] at here
    refine (stagedMem here).imp_right ?_
    rintro ⟨rfl,rfl⟩
    exact ⟨rfl,stages⟩
  cases op with
  | selectWalletForUpdate id =>
    obtain ⟨db',ran,rfl⟩ := writesSome h
    obtain ⟨⟨rows,db''⟩,selected,same⟩ := Option.map_eq_some_iff.mp ran
    cases same
    rcases (Database.selectForUpdateCases selected).2 with ⟨_,rfl⟩ | ⟨_,rfl⟩
    · exact .inl here
    · exact .inl here
  | selectTransactionByKey | selectTransactionsOf | hashPassword =>
    obtain ⟨rfl,_⟩ := checkedCases h
    exact .inl here
  | updateWallet id expected balance version =>
    obtain ⟨db',ran,rfl⟩ := writesSome h
    rcases Database.updateWalletCases ran with ⟨rfl,_⟩ | ⟨stored,_,_,_,_,found,_,rfl⟩
    · exact .inl here
    · exact staged _ rfl (.updateWallet found)
  | flushWallet id balance =>
    obtain ⟨db',ran,rfl⟩ := writesSome h
    rcases Database.flushWalletCases ran with rfl | ⟨stored,version,_,rfl⟩
    · exact .inl here
    · exact staged _ rfl .flushWallet
  | insertUser email passwordHash fullName =>
    obtain ⟨db',ran,rfl⟩ := writesSome h
    rcases Database.insertUserCases ran with ⟨rfl,_⟩ | ⟨_,rfl,_⟩
    · exact .inl here
    · exact staged _ rfl (@Op.Stages.insertUser _ _ ⟨choice.uuid,email,passwordHash,fullName,true,choice.now⟩)
  | insertWallet userId =>
    obtain ⟨db',ran,rfl⟩ := writesSome h
    rcases Database.insertWalletCases ran with ⟨rfl,_⟩ | ⟨_,rfl,_⟩
    · exact .inl here
    · exact staged _ rfl (@Op.Stages.insertWallet _ _ ⟨choice.uuid,userId,_,_,_,choice.now⟩)
  | insertTransaction new =>
    obtain ⟨db',ran,rfl⟩ := writesSome h
    rcases Database.insertTransactionCases ran with ⟨rfl,_⟩ | ⟨amount,_,_,_,rfl,_⟩
    · exact .inl here
    · exact staged _ rfl .insertTransaction
  | commit =>
    cases h
    change _ ∈ (s.db.commit pid).pending other at here
    rw [Database.commitPending] at here
    exact .inl (releasedMem here)
  | rollback => cases h; exact .inl (releasedMem here)
  | close => cases h; exact .inl (releasedMem here)
  | _ => cases h; exact .inl here

theorem attemptStages (h : attempt pid s op choice = some (r,s')) (here : write ∈ s'.db.pending other) :
    write ∈ s.db.pending other ∨ (other = pid ∧ op.Stages s.db pid write) := by
  simp only [attempt] at h
  split at h
  · exact performStages h here
  · cases h
    cases op with
    | close => exact .inl (releasedMem here)
    | _ => exact .inl here
  · obtain ⟨⟨r',s''⟩,ran,same⟩ := Option.map_eq_some_iff.mp h
    cases same
    exact performStages ran here

end
end PaymentSystem
