import PaymentSystem.Base.Trace
import PaymentSystem.System.Request

/-! The calls of one payment request, whatever the replies. Up to the INSERT of its
transaction all of them can be undone; after a version conflict only the rollback and
the closing are left; and what it has inserted it also commits, or tries to. -/
namespace PaymentSystem
open Numerics (Decimal)
open Interleaving (Exchange Task Traces tracer tracing)
open Interleaving.Task (Ends endsThen endsBind endsCatch endsLocal endsRaised endsMono endsTraced)

def Exn.rejects : Exn → Bool
  | .walletNotFound => true
  | .selfTransfer => true
  | .insufficientBalance _ _ => true
  | .optimisticLock => true
  | _ => false

def Op.revocable : Op → Bool
  | .commit => false
  | .insertUser _ _ _ => false
  | .insertWallet _ => false
  | .insertTransaction _ => false
  | .flushWallet _ _ => false
  | .redisSetex _ _ _ => false
  | .redisDelete _ => false
  | _ => true

abbrev Talk := Exchange Op Res

namespace Talk

def conflicts : Talk → Bool
  | ⟨.updateWallet _ _ _ _,.ok count⟩ => decide ((show Nat from count) = 0)
  | _ => false

def inserts : Talk → Bool
  | ⟨.insertTransaction _,.ok _⟩ => true
  | _ => false

def Usual (x : Talk) : Prop := ∀ e, x.reply = .error e → e.rejects = false

end Talk

def GivesUp (trace : List Talk) (op : Op) : Prop :=
  (∃ x ∈ trace, x.conflicts = true) → op = .rollback ∨ op = .close

def Tentative (trace : List Talk) : Prop := ∀ x ∈ trace, x.op.revocable = true ∧ x.conflicts = false

def Revocable (trace : List Talk) : Prop := ∀ x ∈ trace, x.op.revocable = true

def Recorded (trace : List Talk) : Prop := (∃ x ∈ trace, x.inserts = true) → ∃ x ∈ trace, x.op = .commit

abbrev Speaks {α : Type} (t : Py α) (l : Session) (trace : List Talk)
    (goal : Except Exn α → Session → List Talk → Prop) : Prop :=
  Ends tracer (tracing Talk.Usual GivesUp) 0 t l trace goal

section
variable {α β : Type} {l : Session} {trace : List Talk}

theorem Tentative.revocable (h : Tentative trace) : Revocable trace := fun x here => (h x here).1

theorem Tentative.due (h : Tentative trace) (op : Op) : GivesUp trace op := by
  rintro ⟨x,here,conflicts⟩
  rw [(h x here).2] at conflicts
  contradiction

theorem Tentative.more (h : Tentative trace) {x : Talk} (revocable : x.op.revocable = true)
    (fine : x.conflicts = false) : Tentative (trace ++ [x]) := by
  intro y here
  rcases List.mem_append.mp here with here | here
  · exact h y here
  · rw [List.mem_singleton.mp here]
    exact ⟨revocable,fine⟩

theorem Revocable.recorded (h : Revocable trace) : Recorded trace := by
  rintro ⟨⟨op,reply⟩,here,inserts⟩
  have revocable := h _ here
  cases op <;> simp [Op.revocable,Talk.inserts] at revocable inserts

theorem speaksExecute {op : Op} {goal : Res op → Session → List Talk → Prop} (clean : l.dirty = [])
    (due : GivesUp trace op) (rest : ∀ r, Talk.Usual ⟨op,r⟩ → goal r l (trace ++ [⟨op,r⟩])) :
    Speaks (execute op) l trace goal := by
  unfold Speaks Ends
  rw [executeClean clean]
  exact endsTraced due rest

theorem speaksCommit {goal : Except Exn Unit → Session → List Talk → Prop} (clean : l.dirty = [])
    (due : GivesUp trace .commit) (rest : ∀ r, Talk.Usual ⟨.commit,r⟩ → goal r l (trace ++ [⟨.commit,r⟩])) :
    Speaks commit l trace goal := by
  unfold Speaks Ends
  rw [commitClean clean]
  exact endsTraced due rest

/-! Parts that keep to one stage. -/

def Keeps (stage : List Talk → Prop) (raises : Exn → Prop) (t : Py α) : Prop :=
  ∀ l trace, l.dirty = [] → stage trace → Speaks t l trace (fun r l' trace' =>
    l'.dirty = [] ∧ stage trace' ∧ ∀ e, r = .error e → raises e)

variable {stage : List Talk → Prop} {raises : Exn → Prop}

theorem keepsPure (a : α) : Keeps stage raises (pure a : Py α) :=
  fun _ _ clean here => ⟨clean,here,fun _ raised => by contradiction⟩

theorem keepsThrow {e : Exn} (may : raises e) : Keeps stage raises (throw e : Py α) := by
  intro _ _ clean here
  refine ⟨clean,here,?_⟩
  intro e' same
  cases same
  exact may

theorem keepsFirst {t : Py α} {f : α → Py β} {goal : Except Exn β → Session → List Talk → Prop}
    (first : Keeps stage raises t) (clean : l.dirty = []) (here : stage trace)
    (rest : ∀ a l' trace', l'.dirty = [] → stage trace' → Speaks (f a) l' trace' goal)
    (raised : ∀ e l' trace', l'.dirty = [] → stage trace' → raises e → goal (.error e) l' trace') :
    Speaks (t >>= f) l trace goal :=
  endsBind (first l trace clean here) trivial (fun a l' trace' _ h => rest a l' trace' h.1 h.2.1)
    (fun e l' trace' _ h => raised e l' trace' h.1 h.2.1 (h.2.2 e rfl))

theorem keepsThen {t : Py α} {f : α → Py β} (first : Keeps stage raises t)
    (rest : ∀ a, Keeps stage raises (f a)) : Keeps stage raises (t >>= f) :=
  fun _ _ clean here => keepsFirst first clean here (fun a l' trace' => rest a l' trace')
    (fun e l' trace' clean' here' may => ⟨clean',here',fun e' same => by cases same; exact may⟩)

theorem keepsCatch {t : Py α} {f : Exn → Py α} {Q : Exn → Prop} (first : Keeps stage Q t)
    (rest : ∀ e, Q e → Keeps stage raises (f e)) : Keeps stage raises (tryCatch t f) := by
  intro l trace clean here
  apply endsCatch trivial
  refine endsMono (first l trace clean here) trivial ?_
  rintro (e | a) l' trace' _ ⟨clean',here',may⟩
  · exact rest e (may e rfl) l' trace' clean' here'
  · exact ⟨clean',here',fun _ raised => by contradiction⟩

structure Within (stage : List Talk → Prop) (raises : Exn → Prop) (op : Op) : Prop where
  due : ∀ trace, stage trace → GivesUp trace op
  more : ∀ trace r, stage trace → stage (trace ++ [⟨op,r⟩])
  raised : ∀ e, e.rejects = false → raises e

theorem keepsAwait {op : Op} (within : Within stage raises op) : Keeps stage raises (await op) := by
  intro _ trace clean here
  apply endsTraced (within.due trace here)
  intro r usual
  exact ⟨clean,within.more trace r here,fun e same => within.raised e (usual e same)⟩

theorem keepsExecute {op : Op} (within : Within stage raises op) : Keeps stage raises (execute op) := by
  intro l trace clean here
  apply speaksExecute clean (within.due trace here)
  intro r usual
  exact ⟨clean,within.more trace r here,fun e same => within.raised e (usual e same)⟩

theorem keepsAttributes (may : raises .missingGreenlet) (ref : WalletRef) :
    Keeps stage raises ref.attributes := by
  intro l trace clean here
  unfold Speaks Ends
  by_cases loaded : ∃ a, l.identityMap ref.key = some (.loaded a)
  · obtain ⟨a,loaded⟩ := loaded
    rw [attributesLoaded loaded]
    exact keepsPure a l trace clean here
  · rw [attributesMissing (fun a known => loaded ⟨a,known⟩)]
    exact keepsThrow may l trace clean here

theorem keepsId (may : raises .missingGreenlet) (ref : WalletRef) : Keeps stage raises ref.id :=
  keepsThen (keepsAttributes may ref) (fun _ => keepsPure _)

theorem keepsBalance (may : raises .missingGreenlet) (ref : WalletRef) : Keeps stage raises ref.balance :=
  keepsThen (keepsAttributes may ref) (fun _ => keepsPure _)

theorem keepsVersion (may : raises .missingGreenlet) (ref : WalletRef) : Keeps stage raises ref.version :=
  keepsThen (keepsAttributes may ref) (fun _ => keepsPure _)

theorem keepsArithmetic (may : raises .decimalOverflow) (d : Option Decimal) :
    Keeps stage raises (arithmetic d) := by
  cases d with
  | none => exact keepsThrow may
  | some d => exact keepsPure d

theorem keepsOne (may : raises .multipleResultsFound) (rows : List α) :
    Keeps stage raises (scalarOneOrNone rows) := by
  match rows with
  | [] => exact keepsPure none
  | [x] => exact keepsPure (some x)
  | _ :: _ :: _ => exact keepsThrow may

theorem keepsObjects (rows : List Wallet) : Keeps stage raises (objects rows) := by
  intro l trace clean here
  refine ⟨?_,here,fun _ raised => by contradiction⟩
  change (rows.foldl Session.merge l).dirty = []
  induction rows generalizing l with
  | nil => exact clean
  | cons row rest ih => exact ih (l.merge row) ((mergeClean l row).trans clean)

theorem keepsRollback (within : Within stage raises .rollback) : Keeps stage raises rollback :=
  keepsThen (keepsAwait within) (fun _ _ _ _ here => ⟨rfl,here,fun _ raised => by contradiction⟩)

theorem keepsGetByIdempotencyKey {key : String} (within : Within stage raises (.selectTransactionByKey key)) :
    Keeps stage raises (TransactionRepository.getByIdempotencyKey key) :=
  keepsThen (keepsExecute within) (keepsOne (within.raised _ rfl))

/-! Before the first write. -/

theorem withinTentative {op : Op} (revocable : op.revocable = true) (fine : ∀ r, Talk.conflicts ⟨op,r⟩ = false) :
    Within Tentative (fun _ => True) op :=
  ⟨fun _ here => here.due op,fun _ r here => here.more revocable (fine r),fun _ _ => trivial⟩

abbrev KeepsTentative (t : Py α) : Prop := Keeps Tentative (fun _ => True) t

theorem tentativeFirst {t : Py α} {f : α → Py β} {goal : Except Exn β → Session → List Talk → Prop}
    (first : KeepsTentative t) (clean : l.dirty = []) (here : Tentative trace)
    (raised : ∀ e l' trace', l'.dirty = [] → Tentative trace' → goal (.error e) l' trace')
    (rest : ∀ a l' trace', l'.dirty = [] → Tentative trace' → Speaks (f a) l' trace' goal) :
    Speaks (t >>= f) l trace goal :=
  keepsFirst first clean here rest (fun e l' trace' clean here _ => raised e l' trace' clean here)

theorem keepsGetByUserId (userId : UUID) : KeepsTentative (WalletRepository.getByUserId userId) :=
  keepsThen (keepsExecute (withinTentative rfl (fun _ => rfl)))
    (fun rows => keepsThen (keepsObjects rows) (keepsOne trivial))

theorem keepsGetByIdForUpdate (id : UUID) : KeepsTentative (WalletRepository.getByIdForUpdate id) :=
  keepsThen (keepsExecute (withinTentative rfl (fun _ => rfl)))
    (fun rows => keepsThen (keepsObjects rows) (keepsOne trivial))

theorem keepsCheckKey (key : String) (redisClient : Bool) :
    KeepsTentative (IdempotencyService.checkKey key redisClient) := by
  unfold IdempotencyService.checkKey
  split
  · exact keepsPure none
  · split
    · refine keepsCatch (Q := fun _ => True) (keepsThen (keepsAwait (withinTentative rfl (fun _ => rfl))) ?_)
        (fun _ _ => keepsPure none)
      intro cached
      split
      · split
        · exact keepsPure none
        · split
          · exact keepsPure _
          · exact keepsThrow trivial
      · exact keepsPure none
    · exact keepsPure none

/-! After the INSERT. -/

structure Recording (trace : List Talk) : Prop where
  calm : ∀ x ∈ trace, x.conflicts = false
  recorded : Recorded trace

abbrev NoRejection (e : Exn) : Prop := e.rejects = false

theorem Tentative.recording (h : Tentative trace) : Recording trace :=
  ⟨fun x here => (h x here).2,h.revocable.recorded⟩

theorem Recording.more (h : Recording trace) {x : Talk} (fine : x.conflicts = false)
    (inserts : x.inserts = true → ∃ y ∈ trace, y.op = .commit) : Recording (trace ++ [x]) where
  calm := by
    intro y here
    rcases List.mem_append.mp here with here | here
    · exact h.calm y here
    · rw [List.mem_singleton.mp here]
      exact fine
  recorded := by
    rintro ⟨y,here,inserted⟩
    have committed : ∃ z ∈ trace, z.op = .commit := by
      rcases List.mem_append.mp here with here | here
      · exact h.recorded ⟨y,here,inserted⟩
      · rw [List.mem_singleton.mp here] at inserted
        exact inserts inserted
    obtain ⟨z,there,commits⟩ := committed
    exact ⟨z,List.mem_append_left _ there,commits⟩

theorem withinRecording {op : Op} (fine : ∀ r, Talk.conflicts ⟨op,r⟩ = false)
    (inserts : ∀ r, Talk.inserts ⟨op,r⟩ = false) : Within Recording NoRejection op where
  due := by
    rintro trace here ⟨x,inside,conflicts⟩
    rw [here.calm x inside] at conflicts
    contradiction
  more := fun _ r here => here.more (fine r) (fun inserted => by rw [inserts r] at inserted; contradiction)
  raised := fun _ fair => fair

theorem Tentative.inserted (h : Tentative trace) {x y : Talk} (fine : x.conflicts = false)
    (commits : y.op = .commit) : Recording (trace ++ [x] ++ [y]) where
  calm := by
    have fine' : y.conflicts = false := by
      obtain ⟨op,reply⟩ := y
      cases (show op = .commit from commits)
      rfl
    intro z here
    simp only [List.mem_append,List.mem_singleton] at here
    rcases here with (here | rfl) | rfl
    · exact (h z here).2
    · exact fine
    · exact fine'
  recorded := fun _ => ⟨y,List.mem_append_right _ (List.mem_singleton_self _),commits⟩

theorem keepsRefreshTransaction (transaction : Transaction) :
    Keeps Recording NoRejection (refreshTransaction transaction) := by
  refine keepsThen (keepsExecute (withinRecording (fun _ => rfl) (fun _ => rfl))) ?_
  intro rows
  split
  · exact keepsPure _
  · exact keepsThrow rfl

/-! One attempt. -/

inductive Stopped (trace : List Talk) (e : Exn) : Prop where
  | tentative (here : Tentative trace) : Stopped trace e
  | conflict (kind : e = .optimisticLock) (here : Revocable trace) : Stopped trace e
  | recording (kind : e.rejects = false) (here : Recording trace) : Stopped trace e

def Attempted : Except Exn α → Session → List Talk → Prop
  | .ok _,l,trace => l.dirty = [] ∧ Recording trace
  | .error e,l,trace => l.dirty = [] ∧ Stopped trace e

theorem speaksUpdateBalance {goal : Except Exn Bool → Session → List Talk → Prop} {id : UUID}
    {balance : Decimal} {version : Int} (clean : l.dirty = []) (here : Tentative trace)
    (raised : ∀ e l' trace', l'.dirty = [] → Tentative trace' → goal (.error e) l' trace')
    (missed : ∀ l' trace', l'.dirty = [] → Revocable trace' → goal (.ok false) l' trace')
    (matched : ∀ l' trace', l'.dirty = [] → Tentative trace' → goal (.ok true) l' trace') :
    Speaks (WalletRepository.updateBalance id balance version) l trace goal := by
  apply endsThen trivial
  apply speaksExecute clean (here.due _)
  intro r _
  cases r with
  | error e => exact raised e l _ clean (here.more rfl rfl)
  | ok count =>
    have clean' := (synchronizeClean l id version balance (version + 1)).trans clean
    by_cases none : (show Nat from count) = 0
    · have nobody : decide (0 < (show Nat from count)) = false := by simp [none]
      refine endsLocal rfl ?_
      unfold Ends
      change Interleaving.Safe _ _ _ _ (.done (Except.ok (decide (0 < (show Nat from count))),_)) _
      rw [nobody]
      refine missed _ _ clean' ?_
      intro x inside
      rcases List.mem_append.mp inside with inside | inside
      · exact here.revocable x inside
      · rw [List.mem_singleton.mp inside]
        rfl
    · have somebody : decide (0 < (show Nat from count)) = true := by simpa using Nat.pos_of_ne_zero none
      refine endsLocal rfl ?_
      unfold Ends
      change Interleaving.Safe _ _ _ _ (.done (Except.ok (decide (0 < (show Nat from count))),_)) _
      rw [somebody]
      exact matched _ _ clean' (here.more rfl (decide_eq_false none))

theorem speaksAdjustBalance {goal : Except Exn Unit → Session → List Talk → Prop} {wallet : WalletRef}
    {change : Decimal → Option Decimal} (clean : l.dirty = []) (here : Tentative trace)
    (rest : ∀ l' trace', l'.dirty = [] → Tentative trace' → goal (.ok ()) l' trace')
    (stopped : ∀ e l' trace', l'.dirty = [] → Stopped trace' e → goal (.error e) l' trace') :
    Speaks (PaymentService.adjustBalance wallet change) l trace goal := by
  have tentative : ∀ e l' trace', l'.dirty = [] → Tentative trace' → goal (.error e) l' trace' :=
    fun e l' trace' clean here => stopped e l' trace' clean (.tentative here)
  refine tentativeFirst (keepsId trivial wallet) clean here tentative ?_
  intro id l₁ trace₁ clean₁ here₁
  refine tentativeFirst (keepsBalance trivial wallet) clean₁ here₁ tentative ?_
  intro balance l₂ trace₂ clean₂ here₂
  refine tentativeFirst (keepsArithmetic trivial _) clean₂ here₂ tentative ?_
  intro newBalance l₃ trace₃ clean₃ here₃
  refine tentativeFirst (keepsVersion trivial wallet) clean₃ here₃ tentative ?_
  intro version l₄ trace₄ clean₄ here₄
  apply endsThen trivial
  exact speaksUpdateBalance clean₄ here₄ tentative
    (fun l' trace' clean here => stopped _ l' trace' clean (.conflict rfl here)) rest

theorem speaksRecordTransfer {sender receiver : WalletRef} {amount : Decimal} {currency key : String}
    {description : Option String} (clean : l.dirty = []) (here : Tentative trace) :
    Speaks (PaymentService.recordTransfer sender receiver amount currency key description) l trace Attempted := by
  refine tentativeFirst (keepsId trivial sender) clean here (fun _ _ _ clean here => ⟨clean,.tentative here⟩) ?_
  intro senderId l₁ trace₁ clean₁ here₁
  refine tentativeFirst (keepsId trivial receiver) clean₁ here₁ (fun _ _ _ clean here => ⟨clean,.tentative here⟩) ?_
  intro receiverId l₂ trace₂ clean₂ here₂
  apply endsThen trivial
  apply speaksExecute clean₂ (here₂.due _)
  intro inserted usual
  cases inserted with
  | error e => exact ⟨clean₂,.recording (usual e rfl) (here₂.recording.more rfl (fun inserts => by contradiction))⟩
  | ok transaction =>
    apply endsThen trivial
    apply speaksCommit clean₂
    · rintro ⟨x,inside,conflicts⟩
      rcases List.mem_append.mp inside with inside | inside
      · rw [(here₂ x inside).2] at conflicts
        contradiction
      · rw [List.mem_singleton.mp inside] at conflicts
        contradiction
    intro committed usual
    have here₃ : Recording _ := here₂.inserted (x := ⟨_,.ok transaction⟩) (y := ⟨.commit,committed⟩) rfl rfl
    cases committed with
    | error e => exact ⟨clean₂,.recording (usual e rfl) here₃⟩
    | ok done =>
      exact keepsFirst (keepsRefreshTransaction transaction) clean₂ here₃
        (fun _ _ _ clean here => ⟨clean,here⟩) (fun _ _ _ clean here fair => ⟨clean,.recording fair here⟩)

theorem speaksMoveLocked {sender receiver : WalletRef} {amount : Decimal} {currency key : String}
    {description : Option String} (clean : l.dirty = []) (here : Tentative trace) :
    Speaks (PaymentService.moveLocked sender receiver amount currency key description) l trace Attempted := by
  refine tentativeFirst (keepsBalance trivial sender) clean here (fun _ _ _ clean here => ⟨clean,.tentative here⟩) ?_
  intro balance l₁ trace₁ clean₁ here₁
  by_cases short : balance.less amount = true
  · simp only [if_pos short]
    exact ⟨clean₁,.tentative here₁⟩
  simp only [if_neg short]
  apply endsThen trivial
  refine speaksAdjustBalance clean₁ here₁ ?_ (fun _ _ _ clean stopped => ⟨clean,stopped⟩)
  intro l₂ trace₂ clean₂ here₂
  apply endsThen trivial
  exact speaksAdjustBalance clean₂ here₂ (fun _ _ clean₃ here₃ => speaksRecordTransfer clean₃ here₃)
    (fun _ _ _ clean stopped => ⟨clean,stopped⟩)

theorem speaksExecuteTransfer {sid rid : UUID} {amount : Decimal} {currency key : String}
    {description : Option String} (clean : l.dirty = []) (here : Tentative trace) :
    Speaks (PaymentService.executeTransfer sid rid amount currency key description) l trace Attempted := by
  refine tentativeFirst (keepsGetByIdForUpdate _) clean here (fun _ _ _ clean here => ⟨clean,.tentative here⟩) ?_
  intro lockedFirst l₁ trace₁ clean₁ here₁
  refine tentativeFirst (keepsGetByIdForUpdate _) clean₁ here₁ (fun _ _ _ clean here => ⟨clean,.tentative here⟩) ?_
  intro lockedSecond l₂ trace₂ clean₂ here₂
  split
  · refine tentativeFirst (keepsId trivial _) clean₂ here₂ (fun _ _ _ clean here => ⟨clean,.tentative here⟩) ?_
    intro firstId l₃ trace₃ clean₃ here₃
    by_cases order : firstId = sid
    · simp only [if_pos order]
      exact speaksMoveLocked clean₃ here₃
    · simp only [if_neg order]
      exact speaksMoveLocked clean₃ here₃
  · exact ⟨clean₂,.tentative here₂⟩

/-! The attempts. -/

def Spoken (r : Except Exn α) (_ : Session) (trace : List Talk) : Prop :=
  (Revocable trace ∨ ∀ e, r = .error e → e.rejects = false) ∧ Recorded trace

theorem Revocable.spoken (h : Revocable trace) (r : Except Exn α) (l : Session) : Spoken r l trace :=
  ⟨.inl h,h.recorded⟩

theorem Recording.spoken (h : Recording trace) {r : Except Exn α} (fair : ∀ e, r = .error e → e.rejects = false)
    (l : Session) : Spoken r l trace := ⟨.inr fair,h.recorded⟩

theorem speaksRollback {goal : Except Exn Unit → Session → List Talk → Prop} (here : Revocable trace)
    (raised : ∀ e trace', Revocable trace' → goal (.error e) l trace')
    (done : ∀ trace', Revocable trace' → goal (.ok ()) l.expireAll trace') : Speaks rollback l trace goal := by
  have more : ∀ r, Revocable (trace ++ [⟨.rollback,r⟩]) := by
    intro r x inside
    rcases List.mem_append.mp inside with inside | inside
    · exact here x inside
    · rw [List.mem_singleton.mp inside]
      rfl
  apply endsThen trivial
  apply endsTraced (fun _ => .inl rfl)
  intro r _
  cases r with
  | error e => exact raised e _ (more _)
  | ok _ => exact done _ (more _)

theorem speaksGiveUp (e : Exn) (here : Revocable trace) :
    Speaks (do
      rollback
      throw e : Py α) l trace Spoken := by
  apply endsThen trivial
  exact speaksRollback here (fun _ _ here => here.spoken _ l) (fun _ here => here.spoken _ l.expireAll)

theorem tentativeSpoken {t : Py α} (keeps : KeepsTentative t) (clean : l.dirty = []) (here : Tentative trace) :
    Speaks t l trace Spoken :=
  endsMono (keeps l trace clean here) trivial (fun r l' _ _ h => h.2.1.revocable.spoken r l')

theorem recordingSpoken {t : Py α} (keeps : Keeps Recording NoRejection t) (clean : l.dirty = [])
    (here : Recording trace) : Speaks t l trace Spoken :=
  endsMono (keeps l trace clean here) trivial (fun _ l' _ _ h => h.2.1.spoken h.2.2 l')

theorem keepsGiveUp {e : Exn} (rollsBack : Within stage raises .rollback) (may : raises e) :
    Keeps stage raises (do
      rollback
      throw e : Py α) :=
  keepsThen (keepsRollback rollsBack) (fun _ => keepsThrow may)

theorem keepsOnIntegrityError {request : PaymentRequest} (rollsBack : Within stage raises .rollback)
    (looksUp : Within stage raises (.selectTransactionByKey request.idempotencyKey))
    (may : raises .duplicateTransaction) : Keeps stage raises (PaymentService.onIntegrityError request) := by
  refine keepsThen (keepsRollback rollsBack) (fun _ => keepsThen (keepsGetByIdempotencyKey looksUp) ?_)
  intro existing
  split
  · exact keepsPure _
  · exact keepsThrow may

variable [Pydantic]

theorem keepsAfterCommit (sender receiver : WalletRef) (request : PaymentRequest) (result : TransactionResponse)
    (redisClient : Bool) :
    Keeps Recording NoRejection (PaymentService.afterCommit sender receiver request result redisClient) := by
  have missing : NoRejection .missingGreenlet := rfl
  cases redisClient with
  | false => exact keepsPure ()
  | true =>
    have within : ∀ op : Op, (∀ r, Talk.conflicts ⟨op,r⟩ = false) → (∀ r, Talk.inserts ⟨op,r⟩ = false) →
        Keeps Recording NoRejection (await op) := fun op fine inserts => keepsAwait (withinRecording fine inserts)
    refine keepsThen (keepsCatch (within _ (fun _ => rfl) (fun _ => rfl)) (fun _ _ => keepsPure ())) (fun _ => ?_)
    exact keepsThen (keepsId missing sender) (fun _ => keepsThen (keepsId missing receiver)
      (fun _ => within _ (fun _ => rfl) (fun _ => rfl)))

theorem speaksAttemptTransfer {sender receiver : WalletRef} {request : PaymentRequest} {redisClient : Bool}
    (clean : l.dirty = []) (here : Tentative trace) :
    Speaks (PaymentService.attemptTransfer sender receiver request redisClient) l trace Attempted := by
  refine tentativeFirst (keepsId trivial sender) clean here (fun _ _ _ clean here => ⟨clean,.tentative here⟩) ?_
  intro sid l₁ trace₁ clean₁ here₁
  refine tentativeFirst (keepsId trivial receiver) clean₁ here₁ (fun _ _ _ clean here => ⟨clean,.tentative here⟩) ?_
  intro rid l₂ trace₂ clean₂ here₂
  apply endsThen trivial
  refine endsMono (speaksExecuteTransfer clean₂ here₂) trivial ?_
  rintro (e | result) l₃ trace₃ _ attempted
  · exact attempted
  · exact keepsFirst (keepsAfterCommit _ _ _ _ _) attempted.1 attempted.2 (fun _ _ _ clean here => ⟨clean,here⟩)
      (fun _ _ _ clean here fair => ⟨clean,.recording fair here⟩)

theorem speaksExpiredAttempts {sender receiver : WalletRef} {request : PaymentRequest} {redisClient : Bool}
    (left : Nat) (expired : ∀ a, l.identityMap sender.key ≠ some (.loaded a)) (here : Revocable trace) :
    Speaks (PaymentService.transferAttempts sender receiver request redisClient left) l trace Spoken := by
  cases left with
  | zero => exact here.spoken _ l
  | succ left =>
    apply endsCatch trivial
    exact endsRaised (idMissing expired) (speaksGiveUp _ here)

theorem speaksTransferAttempts {sender receiver : WalletRef} {request : PaymentRequest} {redisClient : Bool}
    (left : Nat) (clean : l.dirty = []) (here : Tentative trace) :
    Speaks (PaymentService.transferAttempts sender receiver request redisClient left) l trace Spoken := by
  cases left with
  | zero => exact here.revocable.spoken _ l
  | succ left =>
    apply endsCatch trivial
    refine endsMono (speaksAttemptTransfer clean here) trivial ?_
    rintro (e | result) l₁ trace₁ _ ⟨clean₁,attempted⟩
    · cases e with
      | integrityError c =>
        cases attempted with
        | tentative here₁ =>
          exact tentativeSpoken (keepsOnIntegrityError (withinTentative rfl (fun _ => rfl))
            (withinTentative rfl (fun _ => rfl)) trivial) clean₁ here₁
        | conflict kind => contradiction
        | recording _ here₁ =>
          exact recordingSpoken (keepsOnIntegrityError (withinRecording (fun _ => rfl) (fun _ => rfl))
            (withinRecording (fun _ => rfl) (fun _ => rfl)) rfl) clean₁ here₁
      | optimisticLock =>
        have here₁ : Revocable trace₁ := by
          cases attempted with
          | tentative here₁ => exact here₁.revocable
          | conflict _ here₁ => exact here₁
          | recording kind => contradiction
        apply endsThen trivial
        refine speaksRollback here₁ (fun _ _ here₂ => here₂.spoken _ l₁) ?_
        intro trace₂ here₂
        by_cases last : left = 0
        · rw [if_pos last]
          exact here₂.spoken _ l₁.expireAll
        · rw [if_neg last]
          exact speaksExpiredAttempts left (expiredMissing _) here₂
      | _ =>
        cases attempted with
        | tentative here₁ => exact speaksGiveUp _ here₁.revocable
        | conflict _ here₁ => exact speaksGiveUp _ here₁
        | recording kind here₁ =>
          exact recordingSpoken (keepsGiveUp (withinRecording (fun _ => rfl) (fun _ => rfl)) kind) clean₁ here₁
    · exact attempted.spoken (fun _ raised => by contradiction) l₁

/-! The whole request. -/

theorem speaksValidateAndTransfer {userId : UUID} {request : PaymentRequest} {redisClient : Bool}
    (clean : l.dirty = []) (here : Tentative trace) :
    Speaks (PaymentService.validateAndTransfer userId request redisClient) l trace Spoken := by
  have early : ∀ (e : Exn) (l' : Session) (trace' : List Talk), l'.dirty = [] → Tentative trace' →
      Spoken (.error e : Except Exn TransactionResponse) l' trace' :=
    fun e l' _ _ here => here.revocable.spoken _ l'
  refine tentativeFirst (keepsGetByUserId userId) clean here early ?_
  intro foundSender l₁ trace₁ clean₁ here₁
  cases foundSender with
  | none => exact here₁.revocable.spoken _ l₁
  | some senderWallet =>
    refine tentativeFirst (keepsGetByUserId request.receiverId) clean₁ here₁ early ?_
    intro foundReceiver l₂ trace₂ clean₂ here₂
    cases foundReceiver with
    | none => exact here₂.revocable.spoken _ l₂
    | some receiverWallet =>
      refine tentativeFirst (keepsId trivial senderWallet) clean₂ here₂ early ?_
      intro sid l₃ trace₃ clean₃ here₃
      refine tentativeFirst (keepsId trivial receiverWallet) clean₃ here₃ early ?_
      intro rid l₄ trace₄ clean₄ here₄
      by_cases same : sid = rid
      · rw [if_pos same]
        exact here₄.revocable.spoken _ l₄
      · rw [if_neg same]
        exact speaksTransferAttempts _ clean₄ here₄

theorem speaksSendMoney {userId : UUID} {request : PaymentRequest} {redisClient : Bool} :
    Speaks (PaymentService.sendMoney userId request redisClient) Session.new [] Spoken := by
  have early : ∀ (e : Exn) (l' : Session) (trace' : List Talk), l'.dirty = [] → Tentative trace' →
      Spoken (.error e : Except Exn TransactionResponse) l' trace' :=
    fun e l' _ _ here => here.revocable.spoken _ l'
  have empty : Tentative [] := fun _ inside => by contradiction
  refine tentativeFirst (keepsCheckKey request.idempotencyKey redisClient) rfl empty early ?_
  intro cached l₁ trace₁ clean₁ here₁
  split
  · rename_i doc _
    refine tentativeSpoken ?_ clean₁ here₁
    unfold PaymentService.replay
    split
    · exact keepsThrow trivial
    · split
      · exact keepsPure _
      · exact keepsThrow trivial
  · refine tentativeFirst (keepsGetByIdempotencyKey (withinTentative rfl (fun _ => rfl))) clean₁ here₁ early ?_
    intro existing l₂ trace₂ clean₂ here₂
    split
    · exact here₂.revocable.spoken _ l₂
    · exact speaksValidateAndTransfer clean₂ here₂

structure Said (outcome : Outcome) (trace : List Talk) : Prop where
  revocable : ∀ e, outcome = .error e → e.rejects = true → Revocable trace
  recorded : Recorded trace

theorem saysSendMoney (userId : UUID) (request : PaymentRequest) (redisClient : Bool) :
    Traces Talk.Usual GivesUp Said (Call.sendMoney userId request redisClient).program [] := by
  have speaks : Speaks (Call.sendMoney userId request redisClient).service Session.new [] Spoken := by
    refine endsThen trivial (endsMono speaksSendMoney trivial ?_)
    rintro (e | response) l trace _ spoken
    · refine ⟨spoken.1.imp_right (fun fair e' same => ?_),spoken.2⟩
      cases same
      exact fair e rfl
    · exact ⟨.inr (fun _ raised => by contradiction),spoken.2⟩
  refine Interleaving.safeBind speaks trivial ?_
  rintro ⟨outcome,l⟩ trace _ ⟨revocable,recorded⟩
  refine Interleaving.tracesCall (fun _ => .inr rfl) ?_
  intro r _
  refine ⟨?_,?_⟩
  · rintro e rfl rejects x here
    rcases List.mem_append.mp here with here | here
    · rcases revocable with revocable | fair
      · exact revocable x here
      · rw [fair e rfl] at rejects
        contradiction
    · rw [List.mem_singleton.mp here]
      rfl
  · rintro ⟨x,here,inserts⟩
    rcases List.mem_append.mp here with here | here
    · obtain ⟨y,there,commits⟩ := recorded ⟨x,here,inserts⟩
      exact ⟨y,List.mem_append_left _ there,commits⟩
    · rw [List.mem_singleton.mp here] at inserts
      contradiction

end
end PaymentSystem
