import PaymentSystem.Base.Decimal

/-! The text of a decimal number and the number of a text. Plain notation for a
small negative exponent, scientific otherwise; reading returns the very
coefficient and exponent that were written. -/
namespace Numerics.Decimal
open Numeral

def digits (d : Decimal) : List Char := Nat.toDigits 10 d.coefficient.natAbs

def signText (negative : Bool) : List Char := if negative then ['-'] else []

def exponentText (e : Int) : List Char :=
  'E' :: (if 0 ≤ e then '+' else '-') :: Nat.toDigits 10 e.natAbs

def chars (d : Decimal) : List Char :=
  let ds := d.digits
  let left := d.exponent + ds.length
  signText (decide (d.coefficient < 0)) ++
    if d.exponent ≤ 0 ∧ -6 < left then
      if left ≤ 0 then '0' :: '.' :: (List.replicate (-left).toNat '0' ++ ds)
      else if ds.length ≤ left then ds ++ List.replicate (left - ds.length).toNat '0'
      else ds.take left.toNat ++ '.' :: ds.drop left.toNat
    else if ds.length ≤ 1 then ds ++ exponentText (left - 1)
    else ds.take 1 ++ '.' :: (ds.drop 1 ++ exponentText (left - 1))

def str (d : Decimal) : String := String.ofList d.chars

def unsign : List Char → Bool × List Char
  | '-' :: rest => (true,rest)
  | '+' :: rest => (false,rest)
  | text => (false,text)

def readExponent : List Char → Option Int
  | [] => some 0
  | c :: rest =>
      let ds := (unsign rest).2
      if (c = 'E' ∨ c = 'e') ∧ digitsOf ds ≠ [] ∧ afterDigits ds = [] then
        some (signed (unsign rest).1 (Nat.ofDigitChars 10 ds 0))
      else none

def readFraction : List Char → List Char × List Char
  | '.' :: rest => (digitsOf rest,afterDigits rest)
  | rest => ([],rest)

def ofChars (text : List Char) : Option Decimal :=
  let body := (unsign text).2
  let fraction := readFraction (afterDigits body)
  let ds := digitsOf body ++ fraction.1
  if ds = [] then none
  else (readExponent fraction.2).map (fun e =>
    ⟨signed (unsign text).1 (Nat.ofDigitChars 10 ds 0),e - fraction.1.length⟩)

def ofString (text : String) : Option Decimal := ofChars text.toList

def Unsigned (text : List Char) : Prop := ∀ c, text.head? = some c → c ≠ '-' ∧ c ≠ '+'

theorem unsignSelf {text : List Char} (h : Unsigned text) : unsign text = (false,text) := by
  unfold unsign
  split
  · exact absurd rfl (h '-' rfl).1
  · exact absurd rfl (h '+' rfl).2
  · rfl

theorem unsignSigned {text : List Char} (negative : Bool) (h : Unsigned text) :
    unsign (signText negative ++ text) = (negative,text) := by
  cases negative with
  | false => exact unsignSelf h
  | true => rfl

theorem unsignedDigits {ds rest : List Char} (all : ∀ c ∈ ds, c.isDigit = true) (h : Unsigned rest) :
    Unsigned (ds ++ rest) := by
  cases ds with
  | nil => exact h
  | cons d ds =>
    intro c hc
    cases Option.some.inj hc
    have digit := all d List.mem_cons_self
    constructor <;> rintro rfl <;> exact absurd digit (by decide)

theorem readPointed {whole fraction rest : List Char} {e : Int} (negative : Bool)
    (dw : ∀ c ∈ whole, c.isDigit = true) (df : ∀ c ∈ fraction, c.isDigit = true)
    (nonempty : whole ++ fraction ≠ []) (stop : Stops rest) (he : readExponent rest = some e) :
    ofChars (signText negative ++ (whole ++ '.' :: (fraction ++ rest))) =
      some ⟨signed negative (Nat.ofDigitChars 10 (whole ++ fraction) 0),e - fraction.length⟩ := by
  have point : Stops ('.' :: (fraction ++ rest)) := stopsCons (by decide)
  have unsigned : Unsigned (whole ++ '.' :: (fraction ++ rest)) :=
    unsignedDigits dw (by intro c hc; cases Option.some.inj hc; decide)
  simp only [ofChars,unsignSigned negative unsigned,digitsOfAppend dw point,
    afterDigitsAppend dw point,readFraction,digitsOfAppend df stop,afterDigitsAppend df stop,
    if_neg nonempty,he,Option.map_some]

theorem readPlain {whole rest : List Char} {e : Int} (negative : Bool)
    (dw : ∀ c ∈ whole, c.isDigit = true) (nonempty : whole ≠ []) (stop : Stops rest)
    (noPoint : rest.head? ≠ some '.') (he : readExponent rest = some e) :
    ofChars (signText negative ++ (whole ++ rest)) =
      some ⟨signed negative (Nat.ofDigitChars 10 whole 0),e⟩ := by
  obtain ⟨d,ds,rfl⟩ := List.exists_cons_of_ne_nil nonempty
  have unsigned : Unsigned (d :: ds ++ rest) := by
    intro c hc
    cases Option.some.inj hc
    have digit := dw d List.mem_cons_self
    constructor <;> rintro rfl <;> exact absurd digit (by decide)
  have fraction : readFraction rest = ([],rest) := by
    unfold readFraction
    split
    · exact absurd rfl noPoint
    · rfl
  simp only [ofChars,unsignSigned negative unsigned,digitsOfAppend dw stop,afterDigitsAppend dw stop,
    fraction,List.append_nil,if_neg nonempty,he,Option.map_some,List.length_nil,Int.natCast_zero,
    Int.sub_zero]

theorem readExponentText (e : Int) : readExponent (exponentText e) = some e := by
  have ds := decimalDigits e.natAbs
  have unsigned : Unsigned (Nat.toDigits 10 e.natAbs) := by
    simpa using unsignedDigits ds (by intro c hc; contradiction : Unsigned [])
  have all : digitsOf (Nat.toDigits 10 e.natAbs) = Nat.toDigits 10 e.natAbs := by
    simpa using digitsOfAppend ds stopsNil
  have ended : afterDigits (Nat.toDigits 10 e.natAbs) = [] := by
    simpa using afterDigitsAppend ds stopsNil
  by_cases sign : 0 ≤ e
  · simp only [exponentText,if_pos sign,readExponent,unsign,all,ended,Nat.ofDigitChars_ten_toDigits,
      signed,true_or,ne_eq,Nat.toDigits_ne_nil,not_false_eq_true,and_self,if_true,Bool.false_eq_true,
      if_false]
    congr 1
    omega
  · simp only [exponentText,if_neg sign,readExponent,unsign,all,ended,Nat.ofDigitChars_ten_toDigits,
      signed,true_or,ne_eq,Nat.toDigits_ne_nil,not_false_eq_true,and_self,if_true]
    congr 1
    omega

theorem exponentTextStops (e : Int) : Stops (exponentText e) ∧ (exponentText e).head? ≠ some '.' :=
  ⟨stopsCons (by decide),by simp [exponentText]⟩

theorem ofStringStr (d : Decimal) : ofString d.str = some d := by
  obtain ⟨c,e⟩ := d
  have ds : ∀ x ∈ digits ⟨c,e⟩, x.isDigit = true := decimalDigits _
  have number : Nat.ofDigitChars 10 (digits ⟨c,e⟩) 0 = c.natAbs := Nat.ofDigitChars_ten_toDigits
  have long : 0 < (digits ⟨c,e⟩).length := Nat.length_toDigits_pos
  have sign := signedAbs c
  have taken (k : Nat) : ∀ x ∈ (digits ⟨c,e⟩).take k, x.isDigit = true :=
    fun x hx => ds x (List.mem_of_mem_take hx)
  have left (k : Nat) : ∀ x ∈ (digits ⟨c,e⟩).drop k, x.isDigit = true :=
    fun x hx => ds x (List.mem_of_mem_drop hx)
  rw [ofString,str,String.toList_ofList,chars]
  dsimp only
  -- the point before all digits, behind them, between them, and twice with an exponent
  generalize hd : digits ⟨c,e⟩ = text at *
  split
  · rename_i plain
    split
    · rename_i small
      have zeros : ∀ x ∈ List.replicate (-(e + text.length)).toNat '0' ++ text, x.isDigit = true := by
        intro x hx
        rcases List.mem_append.mp hx with h | h
        · rw [List.eq_of_mem_replicate h]; decide
        · exact ds x h
      have first : ∀ x ∈ ['0'], x.isDigit = true := by simp
      have read := readPointed (decide (c < 0)) first zeros (by simp) stopsNil rfl
      have value : Nat.ofDigitChars 10 (['0'] ++ (List.replicate (-(e + text.length)).toNat '0' ++ text)) 0 =
          c.natAbs := by
        rw [List.singleton_append,Nat.ofDigitChars_cons,Nat.ofDigitChars_append]
        simpa using number
      rw [value,sign,List.append_nil] at read
      rw [List.singleton_append] at read
      rw [read]
      congr 2
      simp only [List.length_append,List.length_replicate]
      omega
    · split
      · rename_i small wide
        have whole : e = 0 := by omega
        subst whole
        have read := readPlain (decide (c < 0)) ds (List.ne_nil_of_length_pos long)
          stopsNil (by simp) rfl
        rw [number,sign,List.append_nil] at read
        have trailing : ((0 : Int) + text.length - text.length).toNat = 0 := by omega
        rw [trailing,List.replicate_zero,List.append_nil]
        exact read
      · rename_i small wide
        have split : text.take (e + text.length).toNat ++ text.drop (e + text.length).toNat = text :=
          List.take_append_drop _ _
        have read := readPointed (decide (c < 0)) (taken (e + text.length).toNat)
          (left (e + text.length).toNat) (by rw [split]; exact List.ne_nil_of_length_pos long)
          stopsNil rfl
        rw [split,number,sign,List.append_nil] at read
        rw [read]
        congr 2
        simp only [List.length_drop]
        omega
  · split
    · rename_i scientific short
      obtain ⟨stop,noPoint⟩ := exponentTextStops (e + text.length - 1)
      have read := readPlain (decide (c < 0)) ds (List.ne_nil_of_length_pos long) stop noPoint
        (readExponentText _)
      rw [number,sign] at read
      rw [read]
      congr 2
      omega
    · rename_i scientific short
      have split : text.take 1 ++ text.drop 1 = text := List.take_append_drop _ _
      have read := readPointed (decide (c < 0)) (taken 1) (left 1)
        (by rw [split]; exact List.ne_nil_of_length_pos long)
        (exponentTextStops (e + text.length - 1)).1 (readExponentText _)
      rw [split,number,sign] at read
      rw [read]
      congr 2
      simp only [List.length_drop]
      omega

example : str ⟨12345,-2⟩ = "123.45" := by decide
example : str ⟨5,-2⟩ = "0.05" := by decide
example : str ⟨1,3⟩ = "1E+3" := by decide

end Numerics.Decimal
