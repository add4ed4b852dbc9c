import Mathlib.Data.List.TakeWhile
import Mathlib.Tactic.Ring
import Mathlib.Tactic.Linarith

/-! Digit strings: the leading digits of a text, and numerals of a fixed width. -/
namespace Numeral

def digitsOf (text : List Char) : List Char := text.takeWhile Char.isDigit
def afterDigits (text : List Char) : List Char := text.dropWhile Char.isDigit

def Stops (text : List Char) : Prop := ∀ c, text.head? = some c → c.isDigit = false

theorem stopsNil : Stops [] := by intro c h; contradiction

theorem stopsCons {c : Char} {text : List Char} (h : c.isDigit = false) : Stops (c :: text) := by
  intro d hd
  cases Option.some.inj hd
  exact h

theorem digitsOfAppend {ds rest : List Char} (all : ∀ c ∈ ds, c.isDigit = true) (stop : Stops rest) :
    digitsOf (ds ++ rest) = ds := by
  rw [digitsOf,List.takeWhile_append_of_pos all]
  cases rest with
  | nil => simp
  | cons c rest => simp [stop c rfl]

theorem afterDigitsAppend {ds rest : List Char} (all : ∀ c ∈ ds, c.isDigit = true) (stop : Stops rest) :
    afterDigits (ds ++ rest) = rest := by
  rw [afterDigits,List.dropWhile_append_of_pos all]
  cases rest with
  | nil => simp
  | cons c rest => simp [stop c rfl]

theorem decimalDigits (n : Nat) : ∀ c ∈ Nat.toDigits 10 n, c.isDigit = true :=
  fun _ hc => Nat.isDigit_of_mem_toDigits (by decide) (by decide) hc

def fixed (base : Nat) : Nat → Nat → List Char
  | 0, _ => []
  | width + 1, n => fixed base width (n / base) ++ [Nat.digitChar (n % base)]

def digitValue (c : Char) : Option Nat :=
  if c.isDigit then some (c.toNat - 48)
  else if 97 ≤ c.toNat ∧ c.toNat ≤ 102 then some (c.toNat - 87)
  else if 65 ≤ c.toNat ∧ c.toNat ≤ 70 then some (c.toNat - 55)
  else none

def readFrom (base : Nat) : Nat → List Char → Option Nat
  | acc, [] => some acc
  | acc, c :: rest => (digitValue c).bind (fun d => readFrom base (acc * base + d) rest)

def readFixed (base : Nat) (text : List Char) : Option Nat := readFrom base 0 text

theorem digitValueChar {d : Nat} (small : d < 16) : digitValue (Nat.digitChar d) = some d := by
  have all : ∀ d : Fin 16, digitValue (Nat.digitChar d) = some d.val := by decide
  exact all ⟨d,small⟩

@[simp] theorem fixedLength (base width n : Nat) : (fixed base width n).length = width := by
  induction width generalizing n with
  | zero => rfl
  | succ width ih => simp [fixed,ih]

theorem readFromAppend (base acc : Nat) (xs ys : List Char) :
    readFrom base acc (xs ++ ys) = (readFrom base acc xs).bind (fun v => readFrom base v ys) := by
  induction xs generalizing acc with
  | nil => rfl
  | cons c xs ih => simp only [List.cons_append,readFrom,Option.bind_assoc,ih]

theorem readFromFixed {base : Nat} (positive : 0 < base) (small : base ≤ 16) (width acc n : Nat) :
    readFrom base acc (fixed base width n) = some (acc * base ^ width + n % base ^ width) := by
  induction width generalizing n with
  | zero => simp [fixed,readFrom,Nat.mod_one]
  | succ width ih =>
    have digit := digitValueChar (lt_of_lt_of_le (Nat.mod_lt n positive) small)
    rw [fixed,readFromAppend,ih]
    simp only [Option.bind_some,readFrom,digit]
    congr 1
    have split := Nat.mod_mul (x := n) (a := base) (b := base ^ width)
    rw [pow_succ,Nat.mul_comm (base ^ width) base,split]
    ring

theorem readFixedFixed {base width n : Nat} (positive : 0 < base) (small : base ≤ 16)
    (fits : n < base ^ width) : readFixed base (fixed base width n) = some n := by
  rw [readFixed,readFromFixed positive small,Nat.mod_eq_of_lt fits]
  simp

end Numeral
