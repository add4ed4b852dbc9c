import PaymentSystem.Base.Numeral
import Mathlib.Data.Rat.Cast.Order
import Mathlib.Tactic.FieldSimp
import Mathlib.Tactic.Positivity
import Mathlib.Tactic.NormNum

/-! Decimal floating point with a context of 28 significant digits, and the
fixed-point columns its results are stored in. The value of a number is a
rational; a coefficient with trailing zeros is a different number of the same
value. NaN and the infinities are not represented. -/
namespace Numerics

structure Decimal where
  coefficient : Int
  exponent : Int
  deriving DecidableEq, Repr

def digitCount (n : Nat) : Nat := (Nat.toDigits 10 n).length

theorem lowDigits {n : Nat} (positive : 0 < n) : 10 ^ (digitCount n - 1) ≤ n := by
  by_contra less
  have longer : 0 < digitCount n - 1 := by
    by_contra single
    have : digitCount n - 1 = 0 := by omega
    rw [this] at less
    simp at less
    omega
  have := (Nat.length_toDigits_le_iff (b := 10) (by decide) longer).mpr (not_le.mp less)
  have : digitCount n ≤ digitCount n - 1 := this
  omega

theorem highDigits (n : Nat) : n < 10 ^ digitCount n :=
  (Nat.length_toDigits_le_iff (b := 10) (by decide) Nat.length_toDigits_pos).mp (Nat.le_refl _)

theorem digitsAtMost {n k : Nat} (positive : 0 < k) (h : n < 10 ^ k) : digitCount n ≤ k :=
  (Nat.length_toDigits_le_iff (b := 10) (by decide) positive).mpr h

namespace Decimal

def value (d : Decimal) : ℚ := d.coefficient * (10 : ℚ) ^ d.exponent

def aligned (a b : Decimal) : Int × Int × Int :=
  let e := min a.exponent b.exponent
  (a.coefficient * 10 ^ (a.exponent - e).toNat,b.coefficient * 10 ^ (b.exponent - e).toNat,e)

def exactSum (a b : Decimal) : Decimal := ⟨(aligned a b).1 + (aligned a b).2.1,(aligned a b).2.2⟩

def exactDifference (a b : Decimal) : Decimal := ⟨(aligned a b).1 - (aligned a b).2.1,(aligned a b).2.2⟩

def less (a b : Decimal) : Bool := decide ((aligned a b).1 < (aligned a b).2.1)

def precision : Nat := 28
def maximalExponent : Int := 999999

def signed (negative : Bool) (n : Nat) : Int := if negative then -n else n

def halfEven (c : Int) (k : Nat) : Int :=
  let q := c.natAbs / 10 ^ k
  let r := c.natAbs % 10 ^ k
  let up := decide (10 ^ k < 2 * r) || (decide (2 * r = 10 ^ k) && decide (q % 2 = 1))
  signed (decide (c < 0)) (if up then q + 1 else q)

def fix (d : Decimal) : Decimal :=
  if d.coefficient.natAbs < 10 ^ precision then d else
    let k := digitCount d.coefficient.natAbs - precision
    let c := halfEven d.coefficient k
    if c.natAbs = 10 ^ precision then ⟨c / 10,d.exponent + k + 1⟩ else ⟨c,d.exponent + k⟩

/-- The result of an operation in the context, none when it signals Overflow. -/
def inContext (d : Decimal) : Option Decimal :=
  let r := fix d
  if r.coefficient ≠ 0 ∧ maximalExponent < r.exponent + digitCount r.coefficient.natAbs - 1 then none
  else some r

def add (a b : Decimal) : Option Decimal := inContext (exactSum a b)

def sub (a b : Decimal) : Option Decimal := inContext (exactDifference a b)

def Units (places : Nat) (d : Decimal) (n : Int) : Prop := d.value * 10 ^ places = n

theorem alignedValues (a b : Decimal) :
    a.value = (aligned a b).1 * (10 : ℚ) ^ (aligned a b).2.2 ∧
    b.value = (aligned a b).2.1 * (10 : ℚ) ^ (aligned a b).2.2 := by
  have shift : ∀ (c e m : Int), m ≤ e →
      (c : ℚ) * (10 : ℚ) ^ e = ((c * 10 ^ (e - m).toNat : Int) : ℚ) * (10 : ℚ) ^ m := by
    intro c e m h
    have split : e = ((e - m).toNat : Int) + m := by omega
    conv_lhs => rw [split,zpow_add₀ (by norm_num : (10 : ℚ) ≠ 0),zpow_natCast]
    push_cast
    ring
  exact ⟨shift _ _ _ (min_le_left _ _),shift _ _ _ (min_le_right _ _)⟩

theorem sumValue (a b : Decimal) : (exactSum a b).value = a.value + b.value := by
  obtain ⟨ha,hb⟩ := alignedValues a b
  rw [ha,hb,value,exactSum]
  push_cast
  ring

theorem differenceValue (a b : Decimal) : (exactDifference a b).value = a.value - b.value := by
  obtain ⟨ha,hb⟩ := alignedValues a b
  rw [ha,hb,value,exactDifference]
  push_cast
  ring

theorem lessValue (a b : Decimal) : less a b = true ↔ a.value < b.value := by
  obtain ⟨ha,hb⟩ := alignedValues a b
  have positive : (0 : ℚ) < (10 : ℚ) ^ (aligned a b).2.2 := zpow_pos (by norm_num) _
  rw [ha,hb,mul_lt_mul_iff_left₀ positive]
  simp [less]

theorem Units.sum {places a b m n} (ha : Units places a m) (hb : Units places b n) :
    Units places (exactSum a b) (m + n) := by
  simp only [Units,sumValue] at *
  push_cast
  linarith

theorem Units.difference {places a b m n} (ha : Units places a m) (hb : Units places b n) :
    Units places (exactDifference a b) (m - n) := by
  simp only [Units,differenceValue] at *
  push_cast
  linarith

theorem Units.less {places a b m n} (ha : Units places a m) (hb : Units places b n) :
    Decimal.less a b = true ↔ m < n := by
  have positive : (0 : ℚ) < 10 ^ places := by positivity
  rw [lessValue,← mul_lt_mul_iff_left₀ positive,ha,hb]
  exact Int.cast_lt

theorem Units.ofExponent (places : Nat) (n : Int) : Units places ⟨n,-places⟩ n := by
  simp only [Units,value,zpow_neg,zpow_natCast]
  field_simp

theorem signedAbs (c : Int) : signed (decide (c < 0)) c.natAbs = c := by
  by_cases h : c < 0
  · simp only [signed,decide_eq_true h,if_true]; omega
  · simp only [signed,decide_eq_false h,Bool.false_eq_true,if_false]; omega

theorem signedMul (b : Bool) (q k : Nat) : signed b q * 10 ^ k = signed b (q * 10 ^ k) := by
  cases b <;> simp [signed]

theorem halfEvenExact {c : Int} {k : Nat} (h : 10 ^ k ∣ c.natAbs) : halfEven c k * 10 ^ k = c := by
  have rest : c.natAbs % 10 ^ k = 0 := Nat.mod_eq_zero_of_dvd h
  have positive : 0 < 10 ^ k := by positivity
  have down : ¬ (10 ^ k < 2 * 0) := by omega
  have tie : ¬ (2 * 0 = 10 ^ k) := by omega
  simp only [halfEven,rest,decide_eq_false down,decide_eq_false tie,Bool.false_and,Bool.or_self,
    Bool.false_eq_true,if_false]
  rw [signedMul,Nat.div_mul_cancel h,signedAbs]

theorem halfEvenAbs (c : Int) (k : Nat) :
    c.natAbs / 10 ^ k ≤ (halfEven c k).natAbs ∧ (halfEven c k).natAbs ≤ c.natAbs / 10 ^ k + 1 := by
  have abs : ∀ (b : Bool) (n : Nat), (signed b n).natAbs = n := by
    intro b n
    cases b <;> simp [signed]
  simp only [halfEven,abs]
  split <;> omega

theorem valueShift {c c' : Int} {e : Int} {k : Nat} (h : c' * 10 ^ k = c) :
    value ⟨c',e + k⟩ = value ⟨c,e⟩ := by
  have : (c : ℚ) = c' * 10 ^ k := by rw [← h]; push_cast; ring
  simp only [value,this,zpow_add₀ (by norm_num : (10 : ℚ) ≠ 0),zpow_natCast]
  ring

theorem Units.zeros {places d n} (h : Units places d n) (long : n.natAbs < d.coefficient.natAbs) :
    ∃ t : Nat, d.coefficient = n * 10 ^ t := by
  have eq : (d.coefficient : ℚ) * (10 : ℚ) ^ (d.exponent + places) = n := by
    rw [← h,value,zpow_add₀ (by norm_num : (10 : ℚ) ≠ 0),zpow_natCast]
    ring
  by_cases sign : 0 ≤ d.exponent + places
  · exfalso
    obtain ⟨k,hk⟩ := Int.eq_ofNat_of_zero_le sign
    rw [hk,zpow_natCast] at eq
    have whole : d.coefficient * 10 ^ k = n := by exact_mod_cast eq
    have : d.coefficient.natAbs * 10 ^ k = n.natAbs := by rw [← whole,Int.natAbs_mul]; simp
    have := Nat.le_mul_of_pos_right d.coefficient.natAbs (Nat.pow_pos (n := k) (by decide : 0 < 10))
    omega
  · obtain ⟨k,hk⟩ := Int.eq_ofNat_of_zero_le (by omega : 0 ≤ -(d.exponent + places))
    refine ⟨k,?_⟩
    rw [show d.exponent + places = -(k : Int) by omega,zpow_neg,zpow_natCast] at eq
    have scaled : (d.coefficient : ℚ) = n * 10 ^ k := by field_simp at eq; linarith
    exact_mod_cast scaled

theorem fixExact {places d n} (h : Units places d n) (small : n.natAbs < 10 ^ precision) :
    (fix d).value = d.value := by
  unfold fix
  split
  · rfl
  · rename_i long
    obtain ⟨t,ht⟩ := h.zeros (by omega)
    have size : d.coefficient.natAbs = n.natAbs * 10 ^ t := by rw [ht,Int.natAbs_mul]; simp
    have bound : digitCount d.coefficient.natAbs ≤ precision + t := by
      refine digitsAtMost (by simp [precision]) ?_
      rw [size,pow_add]
      exact Nat.mul_lt_mul_of_pos_right small (Nat.pow_pos (by decide))
    have dropped : 10 ^ (digitCount d.coefficient.natAbs - precision) ∣ d.coefficient.natAbs := by
      have fewer : digitCount d.coefficient.natAbs - precision ≤ t := by omega
      conv_rhs => rw [size]
      exact Dvd.dvd.mul_left (Nat.pow_dvd_pow 10 fewer) _
    have lossless := halfEvenExact dropped
    -- so rounding does not carry into one more digit either
    have below : (halfEven d.coefficient (digitCount d.coefficient.natAbs - precision)).natAbs ≠
        10 ^ precision := by
      intro carry
      have whole := congrArg Int.natAbs lossless
      rw [Int.natAbs_mul,carry] at whole
      have high := highDigits d.coefficient.natAbs
      have wide : precision ≤ digitCount d.coefficient.natAbs := by
        by_contra narrow
        have := Nat.pow_le_pow_right (by decide : 0 < 10) (by omega :
          digitCount d.coefficient.natAbs ≤ precision)
        omega
      rw [Int.natAbs_pow,show (10 : Int).natAbs = 10 from rfl,← pow_add,
        Nat.add_sub_cancel' wide] at whole
      omega
    simp only [if_neg below]
    exact valueShift lossless

theorem halfEvenNonneg {c : Int} (positive : 0 ≤ c) (k : Nat) : 0 ≤ halfEven c k := by
  simp only [halfEven,decide_eq_false (not_lt.mpr positive),signed,Bool.false_eq_true,if_false]
  exact Int.natCast_nonneg _

theorem fixLarge {d : Decimal} (positive : 0 ≤ d.coefficient) : d.value ≤ 2 * (fix d).value := by
  have scale (e : Int) : (0 : ℚ) < (10 : ℚ) ^ e := zpow_pos (by norm_num) e
  unfold fix
  split
  · have : 0 ≤ d.value := mul_nonneg (by exact_mod_cast positive) (scale _).le
    linarith
  · rename_i long
    generalize hk : digitCount d.coefficient.natAbs - precision = k
    have kept : (if (halfEven d.coefficient k).natAbs = 10 ^ precision
        then (⟨halfEven d.coefficient k / 10,d.exponent + k + 1⟩ : Decimal)
        else ⟨halfEven d.coefficient k,d.exponent + k⟩).value =
        value ⟨halfEven d.coefficient k,d.exponent + k⟩ := by
      split
      · rename_i carry
        have whole : halfEven d.coefficient k = 10 ^ precision := by
          rw [← Int.natAbs_of_nonneg (halfEvenNonneg positive k),carry]
          push_cast
          rfl
        rw [whole]
        exact valueShift (k := 1) (by norm_num [precision])
      · rfl
    rw [kept]
    have size : 10 ^ k ≤ d.coefficient.natAbs :=
      le_trans (Nat.pow_le_pow_right (by decide) (by simp only [precision] at hk; omega))
        (lowDigits (by have := Nat.pow_pos (n := precision) (by decide : 0 < 10); omega))
    have one : 1 ≤ d.coefficient.natAbs / 10 ^ k := Nat.div_pos size (Nat.pow_pos (by decide))
    have parts := Nat.lt_div_mul_add (a := d.coefficient.natAbs) (Nat.pow_pos (n := k) (by decide : 0 < 10))
    have lower := (halfEvenAbs d.coefficient k).1
    have twice : d.coefficient.natAbs ≤ 2 * ((halfEven d.coefficient k).natAbs * 10 ^ k) := by
      have := Nat.mul_le_mul_right (10 ^ k) lower
      have := Nat.mul_le_mul_right (10 ^ k) one
      omega
    have asInt : d.coefficient ≤ 2 * (halfEven d.coefficient k * 10 ^ k) := by
      have h₁ : (d.coefficient.natAbs : Int) = d.coefficient := Int.natAbs_of_nonneg positive
      have h₂ : ((halfEven d.coefficient k).natAbs : Int) = halfEven d.coefficient k :=
        Int.natAbs_of_nonneg (halfEvenNonneg positive k)
      calc d.coefficient = (d.coefficient.natAbs : Int) := h₁.symm
        _ ≤ ((2 * ((halfEven d.coefficient k).natAbs * 10 ^ k) : Nat) : Int) := by exact_mod_cast twice
        _ = 2 * (halfEven d.coefficient k * 10 ^ k) := by push_cast; rw [← h₂]; simp
    have rational : (d.coefficient : ℚ) ≤ 2 * (halfEven d.coefficient k * 10 ^ k) := by
      exact_mod_cast asInt
    simp only [value,zpow_add₀ (by norm_num : (10 : ℚ) ≠ 0),zpow_natCast]
    calc (d.coefficient : ℚ) * 10 ^ d.exponent
        ≤ 2 * (halfEven d.coefficient k * 10 ^ k) * 10 ^ d.exponent :=
          mul_le_mul_of_nonneg_right rational (scale _).le
      _ = 2 * (halfEven d.coefficient k * (10 ^ d.exponent * 10 ^ k)) := by ring

def halfUp (c : Int) (k : Nat) : Int :=
  let q := c.natAbs / 10 ^ k
  let r := c.natAbs % 10 ^ k
  signed (decide (c < 0)) (if 10 ^ k ≤ 2 * r then q + 1 else q)

def quantize (places : Nat) (d : Decimal) : Int :=
  if 0 ≤ d.exponent + places then d.coefficient * 10 ^ (d.exponent + places).toNat
  else halfUp d.coefficient (-(d.exponent + places)).toNat

theorem halfUpLower (c k : Nat) : ((c / 10 ^ k : Nat) : Int) ≤ halfUp c k := by
  simp only [halfUp,Int.natAbs_natCast,decide_eq_false (not_lt.mpr (Int.natCast_nonneg c)),signed,
    Bool.false_eq_true,if_false]
  split <;> omega

theorem shiftedValue (places : Nat) (d : Decimal) :
    d.value * 10 ^ places = d.coefficient * (10 : ℚ) ^ (d.exponent + places) := by
  rw [value,zpow_add₀ (by norm_num : (10 : ℚ) ≠ 0),zpow_natCast]
  ring

theorem quantizeUnits {places d n} (h : Units places d n) : quantize places d = n := by
  rw [Units,shiftedValue] at h
  unfold quantize
  split
  · rename_i sign
    obtain ⟨k,hk⟩ := Int.eq_ofNat_of_zero_le sign
    rw [hk,zpow_natCast] at h
    rw [hk]
    exact_mod_cast h
  · rename_i sign
    obtain ⟨k,hk⟩ := Int.eq_ofNat_of_zero_le (by omega : 0 ≤ -(d.exponent + places))
    rw [show d.exponent + places = -(k : Int) by omega,zpow_neg,zpow_natCast] at h
    have scaled : (d.coefficient : ℚ) = n * 10 ^ k := by field_simp at h; linarith
    have whole : d.coefficient = n * 10 ^ k := by exact_mod_cast scaled
    have size : d.coefficient.natAbs = n.natAbs * 10 ^ k := by rw [whole,Int.natAbs_mul]; simp
    have positive : 0 < 10 ^ k := Nat.pow_pos (by decide)
    have sameSign : decide (d.coefficient < 0) = decide (n < 0) := by
      rw [whole,decide_eq_decide]
      exact ⟨fun h => by by_contra no; have := mul_nonneg (not_lt.mp no) (pow_pos (by decide : (0 : Int) < 10) k).le; omega,
        fun h => mul_neg_of_neg_of_pos h (pow_pos (by decide) k)⟩
    simp only [halfUp,hk,Int.toNat_natCast,size,Nat.mul_mod_left,Nat.mul_div_left _ positive,Nat.mul_zero,
      if_neg (by omega : ¬ 10 ^ k ≤ 0),sameSign]
    exact signedAbs n

theorem quantizeLower {places : Nat} {d : Decimal} (positive : 0 ≤ d.coefficient) :
    d.value * 10 ^ places < quantize places d + 1 := by
  rw [shiftedValue]
  unfold quantize
  split
  · rename_i sign
    obtain ⟨k,hk⟩ := Int.eq_ofNat_of_zero_le sign
    rw [hk,zpow_natCast]
    push_cast
    simp
  · obtain ⟨k,hk⟩ := Int.eq_ofNat_of_zero_le (by omega : 0 ≤ -(d.exponent + places))
    rw [show d.exponent + places = -(k : Int) by omega,zpow_neg,zpow_natCast,neg_neg,
      ← div_eq_mul_inv,div_lt_iff₀ (by positivity)]
    obtain ⟨c,hc⟩ := Int.eq_ofNat_of_zero_le positive
    have parts : c < (c / 10 ^ k + 1) * 10 ^ k := by
      have := Nat.lt_div_mul_add (a := c) (Nat.pow_pos (n := k) (by decide : 0 < 10))
      rw [Nat.add_mul]
      omega
    have lower := halfUpLower c k
    rw [hc,Int.cast_natCast]
    generalize c / 10 ^ k = q at parts lower
    have rational : (c : ℚ) < (q + 1) * 10 ^ k := by exact_mod_cast parts
    have bound : (q : ℚ) ≤ halfUp c k := by exact_mod_cast lower
    calc (c : ℚ) < (q + 1) * 10 ^ k := rational
      _ ≤ (halfUp c k + 1) * 10 ^ k := mul_le_mul_of_nonneg_right (by linarith) (by positivity)

theorem Units.sign {places d n} (h : Units places d n) : 0 ≤ d.coefficient ↔ 0 ≤ n := by
  have scale : (0 : ℚ) < (10 : ℚ) ^ (d.exponent + places) := zpow_pos (by norm_num) _
  rw [Units,shiftedValue] at h
  rw [← Int.cast_nonneg_iff (R := ℚ),← Int.cast_nonneg_iff (R := ℚ),← h]
  exact (mul_nonneg_iff_of_pos_right scale).symm

theorem fixNonneg {d : Decimal} (positive : 0 ≤ d.coefficient) : 0 ≤ (fix d).coefficient := by
  have h := halfEvenNonneg positive (digitCount d.coefficient.natAbs - precision)
  unfold fix
  split
  · exact positive
  · dsimp only
    split <;> dsimp only <;> omega

theorem inContextFix {d r : Decimal} (h : inContext d = some r) : r = fix d := by
  unfold inContext at h
  dsimp only at h
  split at h
  · contradiction
  · exact (Option.some.inj h).symm

theorem inContextExact {places d n} (h : Units places d n) (small : n.natAbs < 10 ^ precision) :
    ∃ r, inContext d = some r ∧ Units places r n := by
  have same := fixExact h small
  refine ⟨fix d,?_,by rw [Units,same]; exact h⟩
  unfold inContext
  dsimp only
  rw [if_neg]
  rintro ⟨nonzero,far⟩
  have low := lowDigits (n := (fix d).coefficient.natAbs) (by omega)
  have size : (10 : ℚ) ^ (precision : Int) ≤ |(fix d).value| := by
    rw [value,abs_mul,abs_of_pos (zpow_pos (by norm_num : (0 : ℚ) < 10) (fix d).exponent)]
    calc (10 : ℚ) ^ (precision : Int)
        ≤ 10 ^ (((digitCount (fix d).coefficient.natAbs - 1 : Nat) : Int) + (fix d).exponent) := by
          refine zpow_le_zpow_right₀ (by norm_num) ?_
          simp only [precision,maximalExponent] at far ⊢
          have : 0 < digitCount (fix d).coefficient.natAbs := Nat.length_toDigits_pos
          omega
      _ = (10 ^ (digitCount (fix d).coefficient.natAbs - 1) : Nat) * 10 ^ (fix d).exponent := by
          rw [zpow_add₀ (by norm_num : (10 : ℚ) ≠ 0),zpow_natCast]
          push_cast
          rfl
      _ ≤ |((fix d).coefficient : ℚ)| * 10 ^ (fix d).exponent := by
          refine mul_le_mul_of_nonneg_right ?_ (zpow_pos (by norm_num) _).le
          rw [← Int.cast_abs,← Int.natCast_natAbs]
          exact_mod_cast low
  have bound : |(fix d).value| ≤ n.natAbs := by
    have : (n : ℚ) = (fix d).value * 10 ^ places := by rw [same]; exact h.symm
    have one : (1 : ℚ) ≤ 10 ^ places := one_le_pow₀ (by norm_num)
    have abs : (n.natAbs : ℚ) = |(fix d).value| * 10 ^ places := by
      rw [Nat.cast_natAbs,Int.cast_abs,this,abs_mul,abs_of_pos (pow_pos (by norm_num : (0 : ℚ) < 10) places)]
    rw [abs]
    exact le_mul_of_one_le_right (abs_nonneg _) one
  have : (n.natAbs : ℚ) < 10 ^ precision := by exact_mod_cast small
  rw [zpow_natCast] at size
  linarith

end Decimal

structure Numeric (precision places : Nat) where
  units : Int
  fits : units.natAbs < 10 ^ precision
  deriving DecidableEq, Repr

namespace Numeric
variable {precision places : Nat}

instance noUnits : Zero (Numeric precision places) := ⟨⟨0,by simp⟩⟩

def toDecimal (x : Numeric precision places) : Decimal := ⟨x.units,-places⟩

def ofDecimal (precision places : Nat) (d : Decimal) : Option (Numeric precision places) :=
  if h : (d.quantize places).natAbs < 10 ^ precision then some ⟨d.quantize places,h⟩ else none

theorem toDecimalUnits (x : Numeric precision places) : x.toDecimal.Units places x.units :=
  Decimal.Units.ofExponent places x.units

theorem ofDecimalUnits {d : Decimal} {x : Numeric precision places}
    (h : ofDecimal precision places d = some x) : x.units = d.quantize places := by
  unfold ofDecimal at h
  split at h
  · cases Option.some.inj h; rfl
  · contradiction

theorem ofDecimalSome {d : Decimal} {n : Int} (h : d.Units places n) (fits : n.natAbs < 10 ^ precision) :
    ofDecimal precision places d = some ⟨n,fits⟩ := by
  have same := Decimal.quantizeUnits h
  subst same
  exact dif_pos fits

theorem storedSum {a b d : Decimal} {m n : Int} {x : Numeric precision places}
    (ha : a.Units places m) (hb : b.Units places n) (hm : 0 ≤ m) (hn : 0 ≤ n)
    (sum : a.add b = some d) (stored : ofDecimal precision places d = some x)
    (narrow : precision < Decimal.precision) : x.units = m + n := by
  have total := ha.sum hb
  rw [ofDecimalUnits stored]
  by_cases small : (m + n).natAbs < 10 ^ Decimal.precision
  · obtain ⟨r,hr,units⟩ := Decimal.inContextExact total small
    rw [Decimal.add,hr] at sum
    exact Option.some.inj sum ▸ Decimal.quantizeUnits units
  -- a sum that the context has rounded keeps half its size, and is far out of range
  · exfalso
    have same := Decimal.inContextFix sum
    have positive := total.sign.mpr (by omega)
    have half := Decimal.fixLarge positive
    have lower := @Decimal.quantizeLower places _ (Decimal.fixNonneg positive)
    rw [← same] at half lower
    have scale : (0 : ℚ) < 10 ^ places := by positivity
    have size : ((m + n : Int) : ℚ) < 2 * ((d.quantize places : Int) + 1) := by
      rw [← total]
      calc (a.exactSum b).value * 10 ^ places ≤ 2 * d.value * 10 ^ places :=
            mul_le_mul_of_nonneg_right half scale.le
        _ = 2 * (d.value * 10 ^ places) := by ring
        _ < 2 * ((d.quantize places : Int) + 1) := by linarith
    have whole : m + n < 2 * (d.quantize places + 1) := by exact_mod_cast size
    have fits := x.fits
    rw [ofDecimalUnits stored] at fits
    have grow : 10 ^ precision * 10 ≤ 10 ^ Decimal.precision := by
      rw [← pow_succ]
      exact Nat.pow_le_pow_right (by decide) narrow
    omega

end Numeric
end Numerics
