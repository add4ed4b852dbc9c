import PaymentSystem.Guarantees.CachedBalances

/-! A stale balance entry. A read that finds an entry leaves it as it is, so the entry is
right after a read exactly if it was right before it, or was gone at some moment of it. -/
namespace PaymentSystem
open Numerics (Decimal)
open Interleaving (Program Outline Safe Sound Held Reach)
open Interleaving.Task (Ends endsThen endsLocal endsCatch)

def World.BalanceCoherent (w : World) (id : UUID) : Prop :=
  ∀ row ∈ w.tables.wallets, row.id = id → ∀ text, w.redis (CacheKeys.balance id) = some text →
    Decimal.ofString text = some row.balance.toDecimal

def Call.readsBalance (userId : UUID) : Call → Prop
  | .getWallet owner _ => owner = userId
  | .getBalanceFast owner _ => owner = userId
  | _ => False

def Response.balance? : Response → Option Decimal
  | .wallet shown => some shown.balance
  | .balance shown => some shown
  | _ => none

/-- Only this request runs and no Redis command of it fails; entries may expire. -/
def Undisturbed (pid : Nat) (c : State) : Happening → Prop
  | .step other choice => other = pid ∧
      ∀ op, c.awaits pid = some op → op.isRedis = true → choice.fault = .none
  | .drift _ => True
  | _ => False

section
variable (pid : Nat) (row : Wallet) (good : Option String → Prop)

inductive Reading (w : World) : Op → Prop where
  | find : Reading w (.selectWalletByUserId row.userId)
  | look : Reading w (.redisGet (CacheKeys.balance row.id))
  | store (missed : (w.redis (CacheKeys.balance row.id)).bind Decimal.ofString = none) :
      Reading w (.redisSetex (CacheKeys.balance row.id) CacheTTL.balance row.balance.toDecimal.str)
  | close : Reading w .close

def reading : Outline Op World Choice where
  Inv w := w.tables.walletsByUserId row.userId = [row] ∧ w.db.pending pid = [] ∧
    good (w.redis (CacheKeys.balance row.id))
  Rely other w w' := other = pid → w'.db = w.db ∧
    (w'.redis (CacheKeys.balance row.id) = w.redis (CacheKeys.balance row.id) ∨
      w'.redis (CacheKeys.balance row.id) = none)
  Allowed other _ op choice := other = pid ∧ (op.isRedis = true → choice.fault = .none)
  Pre other w op := other = pid → Reading row w op

def Known (balance : Decimal) : Prop :=
  balance = row.balance.toDecimal ∨ ∃ text, good (some text) ∧ Decimal.ofString text = some balance

def Shows (other : Nat) (outcome : Outcome) (_ : World) : Prop :=
  other = pid → ∀ response, outcome = .ok response →
    ∃ balance, response.balance? = some balance ∧ Known row good balance

end

section
variable {pid : Nat} {row : Wallet} {good : Option String → Prop} {w w' : World}

theorem Reading.step {op : Op} {choice : Choice} {r : Res op} {s' : Stores} (h : Reading row w op)
    (up : op.isRedis = true → choice.fault = .none) (ran : attempt pid w.stores op choice = some (r,s'))
    (idle : w.db.pending pid = []) :
    s'.db.tables = w.tables ∧ s'.db.pending pid = [] ∧
      (s'.redis (CacheKeys.balance row.id) = w.redis (CacheKeys.balance row.id) ∨
        ((w.redis (CacheKeys.balance row.id)).bind Decimal.ofString = none ∧
          s'.redis (CacheKeys.balance row.id) = some row.balance.toDecimal.str)) := by
  cases h with
  | find =>
    have same : s' = w.stores := by
      cases fault : choice.fault <;> simp only [attempt,fault,perform,reads,unperformed,Option.map_some] at ran <;>
        exact (Prod.mk.inj (Option.some.inj ran)).2.symm
    rw [same]
    exact ⟨rfl,idle,.inl rfl⟩
  | look =>
    simp only [attempt,up rfl,perform,reads] at ran
    rw [← (Prod.mk.inj (Option.some.inj ran)).2]
    exact ⟨rfl,idle,.inl rfl⟩
  | store missed =>
    simp only [attempt,up rfl,perform] at ran
    rw [← (Prod.mk.inj (Option.some.inj ran)).2]
    refine ⟨rfl,idle,.inr ⟨missed,?_⟩⟩
    dsimp only
    rw [Function.update_self]
  | close =>
    have same : s' = {w.stores with db := w.db.release pid} := by
      cases fault : choice.fault <;> simp only [attempt,fault,perform,unperformed,Option.map_some] at ran <;>
        exact (Prod.mk.inj (Option.some.inj ran)).2.symm
    rw [same]
    exact ⟨rfl,Database.releasePending,.inl rfl⟩

theorem evictedEntry (key other : String) :
    (w.evict key).redis other = w.redis other ∨ (w.evict key).redis other = none := by
  change Function.update w.redis key none other = _ ∨ Function.update w.redis key none other = _
  by_cases same : other = key
  · rw [same,Function.update_self]
    exact .inr rfl
  · rw [Function.update_of_ne same]
    exact .inl rfl

variable [Pydantic]

section
variable {l : Session}

theorem endsAsk {op : Op} {goal : Res op → Session → World → Prop}
    (h : ∀ w₁, (reading pid row good).Rely pid w w₁ → (reading pid row good).Inv w₁ → Reading row w₁ op ∧
      ∀ choice r s', (op.isRedis = true → choice.fault = .none) → attempt pid w₁.stores op choice = some (r,s') →
        (reading pid row good).Inv (w₁.called pid op choice.fault r s') →
        goal r l (w₁.called pid op choice.fault r s')) :
    Ends machine (reading pid row good) pid (await op) l w goal := by
  apply Interleaving.Task.endsAwait
  intro w₁ rely inv₁
  obtain ⟨asks,done⟩ := h w₁ rely inv₁
  refine ⟨fun _ => asks,?_⟩
  intro choice r w₂ allowed ran inv₂
  obtain ⟨s',attempted,rfl⟩ := execCases ran
  exact done choice r s' allowed.2 attempted inv₂

theorem endsLookup {goal : Except Exn (Option WalletRef) → Session → World → Prop}
    (raised : ∀ e l' w', goal (.error e) l' w')
    (found : ∀ w', (reading pid row good).Inv w' → goal (.ok (some ⟨row.id⟩)) (Session.new.merge row) w')
    (inv : (reading pid row good).Inv w) :
    Ends machine (reading pid row good) pid (WalletRepository.getByUserId row.userId) Session.new w goal := by
  apply endsThen inv
  apply endsExecute rfl
  apply endsAsk
  intro w₁ _ inv₁
  refine ⟨.find,?_⟩
  intro choice r s' _ attempted inv₂
  rcases attemptCases attempted with ⟨_,performed⟩ | ⟨_,rfl⟩
  · cases performed
    have seen : (w₁.stores.db.view pid).walletsByUserId row.userId = [row] := by
      rw [Database.viewNothing inv₁.2.1]
      exact inv₁.1
    rw [seen] at inv₂ ⊢
    exact endsLocal (objectsSingle Session.new row) (found _ inv₂)
  · exact raised _ _ _

theorem endsLook {goal : Except Exn (Option Decimal) → Session → World → Prop}
    (missed : ∀ w', (reading pid row good).Inv w' →
      (w'.redis (CacheKeys.balance row.id)).bind Decimal.ofString = none → goal (.ok none) l w')
    (hit : ∀ w' text balance, (reading pid row good).Inv w' → good (some text) →
      Decimal.ofString text = some balance → goal (.ok (some balance)) l w')
    (inv : (reading pid row good).Inv w) :
    Ends machine (reading pid row good) pid (CacheManager.getBalance row.id) l w goal := by
  apply endsCatch inv
  apply endsThen inv
  apply endsAsk
  intro w₁ _ inv₁
  refine ⟨.look,?_⟩
  intro choice r s' up attempted inv₂
  simp only [attempt,up rfl,perform,reads] at attempted
  cases attempted
  cases found : w₁.stores.redis (CacheKeys.balance row.id) with
  | none =>
    rw [found] at inv₂
    exact missed _ inv₂ (by change (w₁.stores.redis _).bind _ = none; rw [found]; rfl)
  | some text =>
    rw [found] at inv₂
    have entry : good (some text) := found ▸ inv₁.2.2
    cases parsed : Decimal.ofString text with
    | none =>
      simp only [parsed]
      exact missed _ inv₂ (by change (w₁.stores.redis _).bind _ = none; rw [found]; exact parsed)
    | some balance =>
      simp only [parsed]
      exact hit _ text balance inv₂ entry parsed

theorem endsStore {goal : Except Exn Unit → Session → World → Prop}
    (missed : (w.redis (CacheKeys.balance row.id)).bind Decimal.ofString = none)
    (stored : ∀ w', (reading pid row good).Inv w' → goal (.ok ()) l w') (inv : (reading pid row good).Inv w) :
    Ends machine (reading pid row good) pid (CacheManager.setBalance row.id row.balance.toDecimal) l w goal := by
  apply endsCatch inv
  apply endsAsk
  intro w₁ rely _
  have still : (w₁.redis (CacheKeys.balance row.id)).bind Decimal.ofString = none := by
    rcases (rely rfl).2 with same | gone
    · rw [same]
      exact missed
    · rw [gone]
      rfl
  refine ⟨.store still,?_⟩
  intro choice r s' up attempted inv₂
  simp only [attempt,up rfl,perform] at attempted
  cases attempted
  exact stored _ inv₂

end

theorem endsWalletRead (redisClient : Bool) (inv : (reading pid row good).Inv w) :
    Ends machine (reading pid row good) pid (WalletService.getWallet row.userId redisClient) Session.new w
      (fun r _ _ => ∀ response, r = .ok response → Known row good response.balance) := by
  have loaded := newMerge row
  have direct : ∀ w', Ends machine (reading pid row good) pid (WalletResponse.modelValidate ⟨row.id⟩)
      (Session.new.merge row) w' (fun r _ _ => ∀ response, r = .ok response → Known row good response.balance) := by
    intro w'
    unfold Ends
    rw [modelValidateLoaded loaded]
    intro response same
    cases same
    exact .inl rfl
  apply endsThen inv
  refine endsLookup (fun e l' w' response same => by cases same) ?_ inv
  intro w₁ inv₁
  cases redisClient with
  | false => exact direct w₁
  | true =>
    refine endsLocal (idLoaded loaded) ?_
    apply endsThen inv₁
    refine endsLook ?_ ?_ inv₁
    · intro w₂ inv₂ missed
      refine endsLocal (balanceLoaded loaded) ?_
      apply endsThen inv₂
      exact endsStore missed (fun w₃ _ => direct w₃) inv₂
    · intro w₂ text balance inv₂ entry parsed
      refine endsLocal rfl ?_
      have assigned : ((Session.new.merge row).assignBalance row.id balance).identityMap row.id =
          some (.loaded {row.attributes with balance := balance}) := by
        simp only [Session.assignBalance,loaded]
        exact Function.update_self ..
      unfold Ends
      rw [modelValidateLoaded assigned]
      intro response same
      cases same
      exact .inr ⟨text,entry,parsed⟩

theorem endsBalanceRead (redisClient : Bool) (inv : (reading pid row good).Inv w) :
    Ends machine (reading pid row good) pid (WalletService.getBalanceFast row.userId redisClient) Session.new w
      (fun r _ _ => ∀ balance, r = .ok balance → Known row good balance) := by
  have loaded := newMerge row
  apply endsThen inv
  refine endsLookup (fun e l' w' balance same => by cases same) ?_ inv
  intro w₁ inv₁
  cases redisClient with
  | false =>
    change Ends machine (reading pid row good) pid (WalletRef.balance ⟨row.id⟩) _ w₁ _
    unfold Ends
    rw [balanceLoaded loaded]
    intro balance same
    cases same
    exact .inl rfl
  | true =>
    refine endsLocal (idLoaded loaded) ?_
    apply endsThen inv₁
    refine endsLook ?_ ?_ inv₁
    · intro w₂ inv₂ missed
      refine endsLocal (balanceLoaded loaded) ?_
      apply endsThen inv₂
      refine endsStore missed ?_ inv₂
      intro w₃ _ balance same
      cases same
      exact .inl rfl
    · intro w₂ text balance inv₂ entry parsed shown same
      cases same
      exact .inr ⟨text,entry,parsed⟩

theorem endsShown {α : Type} {t : Py α} {wrap : α → Response} {balanceOf : α → Decimal}
    (wraps : ∀ a, (wrap a).balance? = some (balanceOf a)) (inv : (reading pid row good).Inv w)
    (h : Ends machine (reading pid row good) pid t Session.new w
      (fun r _ _ => ∀ a, r = .ok a → Known row good (balanceOf a))) :
    Ends machine (reading pid row good) pid (do return wrap (← t)) Session.new w
      (fun r _ w' => Shows pid row good pid r w') := by
  refine endsThen inv (Interleaving.safeMono h inv ?_)
  intro out w' _ known
  obtain ⟨r,l'⟩ := out
  cases r with
  | error e => exact fun _ response same => by cases same
  | ok a =>
    intro _ response same
    cases same
    exact ⟨_,wraps a,known a rfl⟩

theorem readSafe {call : Call} (reads : call.readsBalance row.userId) (inv : (reading pid row good).Inv w) :
    Safe machine (reading pid row good) pid (Shows pid row good pid) call.program w := by
  have answered : Ends machine (reading pid row good) pid call.service Session.new w
      (fun r _ w' => Shows pid row good pid r w') := by
    cases call with
    | getWallet owner redisClient =>
      cases (show owner = row.userId from reads)
      exact endsShown (fun _ => rfl) inv (endsWalletRead redisClient inv)
    | getBalanceFast owner redisClient =>
      cases (show owner = row.userId from reads)
      exact endsShown (fun _ => rfl) inv (endsBalanceRead redisClient inv)
    | _ => exact absurd reads id
  refine Interleaving.safeBind answered inv ?_
  intro out w' _ showing w₁ _ _
  exact ⟨fun _ => .close,fun _ _ _ _ _ _ => showing⟩

/-! The run of one read. -/

theorem readingSound (absent : good none) (fresh : good (some row.balance.toDecimal.str)) :
    Sound machine (reading pid row good) (Undisturbed pid) (fun w => w.calls.length) (Shows pid row good) where
  relyRefl _ _ := fun _ => ⟨rfl,.inl rfl⟩
  relyTrans _ _ _ _ first second same := by
    obtain ⟨db₁,entry₁⟩ := first same
    obtain ⟨db₂,entry₂⟩ := second same
    refine ⟨db₂.trans db₁,?_⟩
    rcases entry₂ with entry₂ | gone
    · rw [entry₂]
      exact entry₁
    · exact .inr gone
  stable _ _ _ _ _ _ _ showing := showing
  allowed c other op next choice here ok := by
    obtain ⟨rfl,up⟩ := ok
    exact ⟨rfl,up op (callAwaits here)⟩
  exec other w op choice r w' inv asks allowed ran := by
    obtain ⟨rfl,up⟩ := allowed
    obtain ⟨s',attempted,rfl⟩ := execCases ran
    obtain ⟨tables,idle,entry⟩ := (asks rfl).step up attempted inv.2.1
    refine ⟨⟨?_,idle,?_⟩,rfl,fun _ apart same => absurd same apart⟩
    · change s'.db.tables.walletsByUserId row.userId = [row]
      rw [tables]
      exact inv.1
    · change good (s'.redis (CacheKeys.balance row.id))
      rcases entry with same | ⟨_,stored⟩
      · rw [same]
        exact inv.2.2
      · rw [stored]
        exact fresh
  start _ _ _ ok := absurd ok id
  stop _ _ _ _ ok := absurd ok id
  drift c key s' inv _ moved := by
    cases Option.some.inj moved
    have entry : _ ∨ _ := @evictedEntry c.shared key (CacheKeys.balance row.id)
    refine ⟨⟨inv.1,inv.2.1,?_⟩,rfl,fun _ _ => ⟨rfl,entry⟩⟩
    rcases entry with same | gone
    · rw [same]
      exact inv.2.2
    · rw [gone]
      exact absent

end

def Right (row : Wallet) (entry : Option String) : Prop :=
  ∀ text, entry = some text → Decimal.ofString text = some row.balance.toDecimal

theorem rightAbsent {row : Wallet} : Right row none := fun text same => by cases same

theorem rightFresh {row : Wallet} : Right row (some row.balance.toDecimal.str) := by
  intro text same
  cases same
  exact Decimal.ofStringStr _

theorem coherentRight [Pydantic] {w : World} {row : Wallet} (intact : Intact w) (here : row ∈ w.tables.wallets) :
    w.BalanceCoherent row.id ↔ Right row (w.redis (CacheKeys.balance row.id)) := by
  constructor
  · exact fun coherent => coherent row here rfl
  · intro right other inside same
    cases Tables.uniqueBy intact.keyed.walletIds inside here same
    exact right

section
variable [Pydantic] {pid : Nat} {row : Wallet} {good : Option String → Prop} {c₀ c c' : State} {call : Call}

theorem readingHeld (reachable : Reachable c₀) (here : row ∈ c₀.shared.tables.wallets)
    (reads : call.readsBalance row.userId) (entry : good (c₀.shared.redis (CacheKeys.balance row.id))) :
    Held machine (reading c₀.running.length row good) (fun w => w.calls.length)
      (Shows c₀.running.length row good) (c₀.begin call) := by
  have counted := (heldReachable reachable).counted
  have intact := reachableIntact reachable
  have inv : (reading c₀.running.length row good).Inv (c₀.shared.start call) :=
    ⟨intact.keyed.byOwner here,(intact.unstarted _ counted.ge).1,entry⟩
  refine ⟨inv,by simp [State.begin,World.start,counted],?_⟩
  intro other p running
  by_cases own : other = c₀.running.length
  · subst own
    simp only [State.begin,List.getElem?_concat_length] at running
    cases running
    exact readSafe reads inv
  · cases p with
    | done outcome => exact fun same => absurd same own
    | call op next => exact fun _ _ _ => ⟨fun same => absurd same own,fun _ _ _ allowed => absurd allowed.1 own⟩

theorem nextReading {e : Happening}
    (held : Held machine (reading pid row good) (fun w => w.calls.length) (Shows pid row good) c)
    (ok : Undisturbed pid c e) (step : machine.next c e = some c') :
    c'.shared.redis (CacheKeys.balance row.id) = c.shared.redis (CacheKeys.balance row.id) ∨
      c'.shared.redis (CacheKeys.balance row.id) = none ∨
      ((c.shared.redis (CacheKeys.balance row.id)).bind Decimal.ofString = none ∧
        c'.shared.redis (CacheKeys.balance row.id) = some row.balance.toDecimal.str) := by
  cases e with
  | step other choice =>
    obtain ⟨rfl,up⟩ := ok
    obtain ⟨op,next,r,s',here,attempted,rfl⟩ := nextStep step
    obtain ⟨asks,_⟩ := held.safe other _ here c.shared (fun _ => ⟨rfl,.inl rfl⟩) held.inv
    obtain ⟨_,_,same | stored⟩ := (asks rfl).step (up op (callAwaits here)) attempted held.inv.2.1
    · exact .inl same
    · exact .inr (.inr stored)
  | drift key =>
    cases Option.some.inj step
    rcases evictedEntry key (CacheKeys.balance row.id) with same | gone
    · exact .inl same
    · exact .inr (.inl gone)
  | _ => exact absurd ok id

end

section
variable [Pydantic] {row : Wallet} {c₀ c : State} {call : Call}

def Gone (pid : Nat) (id : UUID) (c₀ c : State) : Prop :=
  ∃ c₁, Reach machine (Undisturbed pid) c₀ c₁ ∧ c₁.shared.redis (CacheKeys.balance id) = none ∧
    Reach machine (Undisturbed pid) c₁ c

theorem readAny (reachable : Reachable c₀) (here : row ∈ c₀.shared.tables.wallets)
    (reads : call.readsBalance row.userId)
    (run : Reach machine (Undisturbed c₀.running.length) (c₀.begin call) c) :
    Held machine (reading c₀.running.length row (fun _ => True)) (fun w => w.calls.length)
      (Shows c₀.running.length row (fun _ => True)) c :=
  Interleaving.heldReach (readingSound trivial trivial) (readingHeld reachable here reads trivial) run

theorem readStays (reachable : Reachable c₀) (here : row ∈ c₀.shared.tables.wallets)
    (reads : call.readsBalance row.userId)
    (run : Reach machine (Undisturbed c₀.running.length) (c₀.begin call) c) :
    row ∈ c.shared.tables.wallets := by
  have found := (readAny reachable here reads run).inv.1
  exact (List.mem_filter.mp (found.symm ▸ List.mem_singleton_self row)).1

theorem readKeeps {c₁ : State} (reachable : Reachable c₀) (here : row ∈ c₀.shared.tables.wallets)
    (reads : call.readsBalance row.userId)
    (first : Reach machine (Undisturbed c₀.running.length) (c₀.begin call) c₁)
    (right : Right row (c₁.shared.redis (CacheKeys.balance row.id)))
    (later : Reach machine (Undisturbed c₀.running.length) c₁ c) :
    Right row (c.shared.redis (CacheKeys.balance row.id)) := by
  induction later with
  | refl => exact right
  | next before ok step ih =>
    rcases nextReading (readAny reachable here reads (first.trans before)) ok step with same | gone | ⟨_,stored⟩
    · rw [same]
      exact ih
    · rw [gone]
      exact rightAbsent
    · rw [stored]
      exact rightFresh

theorem readWrong (reachable : Reachable c₀) (here : row ∈ c₀.shared.tables.wallets)
    (reads : call.readsBalance row.userId) (wrong : ¬ Right row (c₀.shared.redis (CacheKeys.balance row.id)))
    (run : Reach machine (Undisturbed c₀.running.length) (c₀.begin call) c) :
    c.shared.redis (CacheKeys.balance row.id) = c₀.shared.redis (CacheKeys.balance row.id) ∨
      Gone c₀.running.length row.id (c₀.begin call) c := by
  have readable : (c₀.shared.redis (CacheKeys.balance row.id)).bind Decimal.ofString ≠ none := by
    cases entry : c₀.shared.redis (CacheKeys.balance row.id) with
    | none => exact absurd (entry ▸ rightAbsent) wrong
    | some text =>
      obtain ⟨balance,_,rfl⟩ := (genuineReachable reachable).entries row.id text entry
      rw [Option.bind_some,Decimal.ofStringStr]
      simp
  induction run with
  | refl => exact .inl rfl
  | @next c c' e before ok step ih =>
    rcases ih with same | ⟨c₁,first,gone,later⟩
    · rcases nextReading (readAny reachable here reads before) ok step with kept | gone | ⟨missed,_⟩
      · exact .inl (kept.trans same)
      · exact .inr ⟨c',.next before ok step,gone,.refl⟩
      · exact absurd (same ▸ missed) readable
    · exact .inr ⟨c₁,first,gone,.next later ok step⟩

theorem readShows (reachable : Reachable c₀) (here : row ∈ c₀.shared.tables.wallets)
    (reads : call.readsBalance row.userId) (right : Right row (c₀.shared.redis (CacheKeys.balance row.id)))
    (run : Reach machine (Undisturbed c₀.running.length) (c₀.begin call) c) {response : Response}
    (done : c.outcome c₀.running.length = some (.ok response)) :
    response.balance? = some row.balance.toDecimal := by
  have held := Interleaving.heldReach (readingSound rightAbsent rightFresh)
    (readingHeld reachable here reads right) run
  obtain ⟨balance,shown,known⟩ := held.ended (outcomeDone done) rfl response rfl
  rcases known with rfl | ⟨text,entry,parsed⟩
  · exact shown
  · rw [shown,← parsed]
    exact entry text rfl

end

theorem readHeals [Pydantic] {c₀ c : State} {call : Call} {wallet : Wallet} (reachable : Reachable c₀)
    (here : wallet ∈ c₀.shared.tables.wallets) (reads : call.readsBalance wallet.userId)
    (run : Reach machine (Undisturbed c₀.running.length) (c₀.begin call) c) :
    (c.shared.BalanceCoherent wallet.id ∧ ∀ (call' : Call) (c' : State) (response : Response), call'.readsBalance wallet.userId →
      Reach machine (Undisturbed c.running.length) (c.begin call') c' →
      c'.outcome c.running.length = some (.ok response) →
      ∃ row ∈ c'.shared.tables.wallets, row.id = wallet.id ∧ response.balance? = some row.balance.toDecimal) ↔
    (c₀.shared.BalanceCoherent wallet.id ∨ Gone c₀.running.length wallet.id (c₀.begin call) c) := by
  have begun : Reachable (c₀.begin call) :=
    .next reachable trivial (show machine.next c₀ (.start call) = some (c₀.begin call) from rfl)
  have reachable' : Reachable c := reachableLater begun run
  have here' := readStays reachable here reads run
  rw [coherentRight (reachableIntact reachable) here,coherentRight (reachableIntact reachable') here']
  constructor
  · intro healed
    by_cases right : Right wallet (c₀.shared.redis (CacheKeys.balance wallet.id))
    · exact .inl right
    · rcases readWrong reachable here reads right run with same | gone
      · exact absurd (same ▸ healed.1) right
      · exact .inr gone
  · intro before
    have right : Right wallet (c.shared.redis (CacheKeys.balance wallet.id)) := by
      rcases before with right | ⟨c₁,first,gone,later⟩
      · exact readKeeps reachable here reads .refl right run
      · exact readKeeps reachable here reads first (gone ▸ rightAbsent) later
    refine ⟨right,?_⟩
    intro call' c' response reads' run' done
    exact ⟨wallet,readStays reachable' here' reads' run',rfl,
      readShows reachable' here' reads' right run' done⟩

section
open JsonMode

def undisturbedTest (pid : Nat) : Happening → Bool
  | .step other choice => decide (other = pid) && decide (choice.fault = .none)
  | .drift _ => true
  | _ => false

theorem undisturbedSure (pid : Nat) (c : State) (e : Happening) (h : undisturbedTest pid e = true) :
    Undisturbed pid c e := by
  cases e with
  | step other choice =>
    simp only [undisturbedTest,Bool.and_eq_true,decide_eq_true_eq] at h
    exact ⟨h.1,fun _ _ _ => h.2⟩
  | drift key => trivial
  | _ => contradiction

def balanceAsked : Run ((stateAfter opening).begin (.getBalanceFast 102 true)) := ⟨steps 3 4 400,by decide +kernel⟩

theorem readHealsAsked : balanceAsked.last.shared.redis (CacheKeys.balance 103) = some "100.00" ∧
    balanceAsked.last.shared.BalanceCoherent 103 := by
  have reachable : Reachable (stateAfter opening) := stateReachable opening (by decide +kernel)
  have here : (⟨103,102,⟨10000,by decide⟩,"USD",2,⟨2024,1,1,0,0,0,0⟩⟩ : Wallet) ∈
      (stateAfter opening).shared.tables.wallets := by
    decide +kernel
  have three : (stateAfter opening).running.length = 3 := by decide +kernel
  have run : Reach machine (Undisturbed (stateAfter opening).running.length)
      ((stateAfter opening).begin (.getBalanceFast 102 true)) balanceAsked.last := by
    rw [three]
    exact Interleaving.reachOfPasses (fun c e => undisturbedSure 3 c e) (by decide +kernel) balanceAsked.ran
  have absent : (stateAfter opening).shared.redis (CacheKeys.balance 103) = none := by decide +kernel
  have before : (stateAfter opening).shared.BalanceCoherent 103 := by
    intro row inside same text entry
    exact absurd (absent.symm.trans entry) (by simp)
  have reads : (Call.getBalanceFast 102 true).readsBalance 102 := Eq.refl (102 : UUID)
  exact ⟨by decide +kernel,((readHeals reachable here reads run).mpr (.inl before)).1⟩

end

def OneByOne (c : State) : Happening → Prop
  | .start _ => ∀ p ∈ c.running, p.finished ≠ none
  | .step pid choice => choice.fault ≠ .none → ∃ op, c.awaits pid = some op ∧ op.isRedis = true
  | _ => False

section
open JsonMode

def oneByOneTest (c : State) : Happening → Bool
  | .start _ => c.running.all (fun p => p.finished.isSome)
  | .step pid choice => decide (choice.fault = .none) || (c.awaits pid).any Op.isRedis
  | _ => false

theorem oneByOneSure (c : State) (e : Happening) (h : oneByOneTest c e = true) : OneByOne c e := by
  cases e with
  | start job => exact fun p inside => Option.isSome_iff_ne_none.mp (List.all_eq_true.mp h p inside)
  | step pid choice =>
    intro fails
    simp only [oneByOneTest,Bool.or_eq_true,decide_eq_true_eq] at h
    exact (Option.any_eq_true _ _).mp (h.resolve_left fails)
  | _ => contradiction

def entryLeft : Run initial where
  events := opening ++ (serve (.getBalanceFast 102 true) 3 4 400 ++
    (.start (.topUp 102 fiveDollars true) :: (steps 4 3 500 ++ (faulty 4 .raises :: steps 4 3 510))))
  possible := by decide +kernel

def entryRead : Run (entryLeft.last.begin (.getBalanceFast 102 true)) := ⟨steps 5 3 600,by decide +kernel⟩

def toppedUp : Wallet := ⟨103,102,⟨10500,by decide⟩,"USD",3,⟨2024,1,1,0,0,0,0⟩⟩

theorem entryReadRun : Reach machine (Undisturbed entryLeft.last.running.length)
    (entryLeft.last.begin (.getBalanceFast 102 true)) entryRead.last := by
  have five : entryLeft.last.running.length = 5 := by decide +kernel
  rw [five]
  exact Interleaving.reachOfPasses (fun c e => undisturbedSure 5 c e) (by decide +kernel) entryRead.ran

theorem staleAfterRead : ¬ ∀ (c₀ c : State) (call : Call) (wallet : Wallet) (response : Response),
    Reach machine OneByOne initial c₀ → (∀ p ∈ c₀.running, p.finished ≠ none) →
    wallet ∈ c₀.shared.tables.wallets → call.readsBalance wallet.userId →
    Reach machine (Undisturbed c₀.running.length) (c₀.begin call) c →
    c.outcome c₀.running.length = some (.ok response) → c.shared.BalanceCoherent wallet.id := by
  intro always
  have reached : Reach machine OneByOne initial entryLeft.last :=
    Interleaving.reachOfPasses oneByOneSure (by decide +kernel) entryLeft.ran
  have ended : entryLeft.last.running.all (fun p => p.finished.isSome) = true := by decide +kernel
  have here : toppedUp ∈ entryLeft.last.shared.tables.wallets := by decide +kernel
  have reads : (Call.getBalanceFast 102 true).readsBalance toppedUp.userId := by
    change 102 = toppedUp.userId
    decide +kernel
  have done : entryRead.last.outcome entryLeft.last.running.length = some (.ok (.balance ⟨10000,-2⟩)) := by
    decide +kernel
  have coherent := always _ _ _ _ _ reached
    (fun p inside => Option.isSome_iff_ne_none.mp (List.all_eq_true.mp ended p inside)) here reads entryReadRun done
  have still : toppedUp ∈ entryRead.last.shared.tables.wallets := by decide +kernel
  have entry : entryRead.last.shared.redis (CacheKeys.balance toppedUp.id) = some "100.00" := by decide +kernel
  have parsed := coherent toppedUp still rfl "100.00" entry
  exact absurd parsed (by decide +kernel)

end

end PaymentSystem
