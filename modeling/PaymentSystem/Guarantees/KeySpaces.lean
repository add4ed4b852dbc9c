import PaymentSystem.Guarantees.CachedBalances
import PaymentSystem.Service.RateLimiter

/-! The keys in Redis. The four kinds differ in their first letters, and a key says what
it was made of: an identifier ends at the last colon before the first slash. -/
namespace PaymentSystem

def IsIdentifier (identifier : String) : Prop := '/' ∉ identifier.toList

def IsPath (endpoint : String) : Prop := endpoint.toList.head? = some '/'

theorem splitFirst {α : Type} {a b x y : List α} {c : α} (ha : c ∉ a) (hb : c ∉ b)
    (same : a ++ c :: x = b ++ c :: y) : a = b ∧ x = y := by
  induction a generalizing b with
  | nil =>
    cases b with
    | nil => exact ⟨rfl,List.tail_eq_of_cons_eq same⟩
    | cons d b =>
      cases List.head_eq_of_cons_eq same
      exact absurd (List.mem_cons_self ..) hb
  | cons e a ih =>
    cases b with
    | nil =>
      cases List.head_eq_of_cons_eq same
      exact absurd (List.mem_cons_self ..) ha
    | cons d b =>
      cases List.head_eq_of_cons_eq same
      obtain ⟨rfl,rest⟩ := ih (fun inside => ha (List.mem_cons_of_mem _ inside))
        (fun inside => hb (List.mem_cons_of_mem _ inside)) (List.tail_eq_of_cons_eq same)
      exact ⟨rfl,rest⟩

theorem walletInfoInjective {a b : UUID} (h : CacheKeys.walletInfo a = CacheKeys.walletInfo b) : a = b := by
  have same := JsonMode.readUUIDStr a
  rw [stringAppendCancel h,JsonMode.readUUIDStr] at same
  exact (Option.some.inj same).symm

theorem rateLimitInjective {i i' e e' : String} (hi : IsIdentifier i) (hi' : IsIdentifier i') (he : IsPath e)
    (he' : IsPath e') (h : CacheKeys.rateLimit i e = CacheKeys.rateLimit i' e') : i = i' ∧ e = e' := by
  obtain ⟨path,here⟩ := List.head?_eq_some_iff.mp he
  obtain ⟨path',here'⟩ := List.head?_eq_some_iff.mp he'
  have lists := congrArg String.toList h
  simp only [CacheKeys.rateLimit,String.toList_append,here,here'] at lists
  have pre : '/' ∉ "rate_limit:".toList ++ i.toList ++ ":".toList := by
    simpa [IsIdentifier] using hi
  have pre' : '/' ∉ "rate_limit:".toList ++ i'.toList ++ ":".toList := by
    simpa [IsIdentifier] using hi'
  obtain ⟨first,rest⟩ := splitFirst pre pre' lists
  refine ⟨String.toList_inj.mp (List.append_cancel_left (List.append_cancel_right first)),String.toList_inj.mp ?_⟩
  rw [here,here',rest]

inductive CacheKey where
  | balance (walletId : UUID)
  | walletInfo (walletId : UUID)
  | idempotency (key : String)
  | rateLimit (identifier endpoint : String)

namespace CacheKey

def text : CacheKey → String
  | .balance walletId => CacheKeys.balance walletId
  | .walletInfo walletId => CacheKeys.walletInfo walletId
  | .idempotency key => CacheKeys.idempotency key
  | .rateLimit identifier endpoint => CacheKeys.rateLimit identifier endpoint

def Fits : CacheKey → Prop
  | .rateLimit identifier endpoint => IsIdentifier identifier ∧ IsPath endpoint
  | _ => True

def letter : CacheKey → Char
  | .balance _ => 'b'
  | .walletInfo _ => 'i'
  | .idempotency _ => 'e'
  | .rateLimit _ _ => 'm'

theorem textLetter (k : CacheKey) : k.text.toList[7]? = some k.letter := by
  cases k with
  | balance walletId => simp [text,CacheKeys.balance,letter]
  | walletInfo walletId => simp [text,CacheKeys.walletInfo,letter]
  | idempotency key => simp [text,CacheKeys.idempotency,letter]
  | rateLimit identifier endpoint => simp [text,CacheKeys.rateLimit,letter]

theorem textInjective {k k' : CacheKey} (fits : k.Fits) (fits' : k'.Fits) (same : k.text = k'.text) : k = k' := by
  have letters : k.letter = k'.letter := by
    have first := textLetter k
    rw [same,textLetter] at first
    exact (Option.some.inj first).symm
  cases k with
  | balance walletId =>
    cases k' with
    | balance walletId' => rw [balanceInjective same]
    | _ => cases letters
  | walletInfo walletId =>
    cases k' with
    | walletInfo walletId' => rw [walletInfoInjective same]
    | _ => cases letters
  | idempotency key =>
    cases k' with
    | idempotency key' => rw [idempotencyInjective same]
    | _ => cases letters
  | rateLimit identifier endpoint =>
    cases k' with
    | rateLimit identifier' endpoint' =>
      obtain ⟨rfl,rfl⟩ := rateLimitInjective fits.1 fits'.1 fits.2 fits'.2 same
      rfl
    | _ => cases letters

end CacheKey

/-- Keys are equal only if they are made of the same; the keys that two services build
themselves are among them; and what is stored under a client's key changes no other entry. -/
theorem keysNeverCollide :
    (∀ k k' : CacheKey, k.Fits → k'.Fits → k.text = k'.text → k = k') ∧
    (∀ walletId, PaymentService.balanceKey walletId = (CacheKey.balance walletId).text) ∧
    (∀ key, IdempotencyService.cacheKey key = (CacheKey.idempotency key).text) ∧
    (∀ (pid : Nat) (s s' : Stores) (choice : Choice) (key text : String) (ttl : Nat)
      (r : Res (.redisSetex (IdempotencyService.cacheKey key) ttl text)),
      perform pid s choice (.redisSetex (IdempotencyService.cacheKey key) ttl text) = some (r,s') →
      ∀ k : CacheKey, k.Fits → k ≠ .idempotency key → s'.redis k.text = s.redis k.text) := by
  refine ⟨fun k k' fits fits' => CacheKey.textInjective fits fits',fun id => inlineBalance id,
    fun key => inlineIdempotency key,?_⟩
  intro pid s s' choice key text ttl r ran k fits other
  cases ran
  refine Function.update_of_ne ?_ ..
  intro same
  have fits' : (CacheKey.idempotency key).Fits := trivial
  exact other (CacheKey.textInjective fits fits' same)

end PaymentSystem
