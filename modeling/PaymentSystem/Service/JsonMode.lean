import PaymentSystem.Service.Cache

/-! The JSON mode as pydantic has it: a UUID and a Decimal are dumped as their str, a
datetime in UTC in ISO 8601, with microseconds when it has any. -/
namespace PaymentSystem
open Numerics (Decimal)
open Numeral (fixed readFixed fixedLength readFixedFixed)

namespace JsonMode

def field (width n : Nat) (separator : Char) : List Char := fixed 10 width n ++ [separator]

theorem fieldLength (width n : Nat) (separator : Char) : (field width n separator).length = width + 1 := by
  simp [field]

def isoChars (t : DateTime) : List Char :=
  field 4 t.year '-' ++ (field 2 t.month '-' ++ (field 2 t.day 'T' ++ (field 2 t.hour ':' ++
    (field 2 t.minute ':' ++ (fixed 10 2 t.second ++
      (if t.microsecond.val = 0 then ['Z'] else '.' :: field 6 t.microsecond 'Z'))))))

def readField (width bound : Nat) (text : List Char) : Option (Fin bound × List Char) := do
  let n ← readFixed 10 (text.take width)
  if h : n < bound then some (⟨n,h⟩,text.drop (width + 1)) else none

theorem readFieldAppend {width bound n : Nat} (small : n < bound) (fits : n < 10 ^ width) (separator : Char)
    (rest : List Char) : readField width bound (field width n separator ++ rest) = some (⟨n,small⟩,rest) := by
  have taken : (field width n separator ++ rest).take width = fixed 10 width n := by
    rw [field,List.append_assoc,List.take_left' (fixedLength 10 width n)]
  have dropped : (field width n separator ++ rest).drop (width + 1) = rest :=
    List.drop_left' (fieldLength width n separator)
  simp only [readField,taken,dropped,readFixedFixed (by decide : 0 < 10) (by decide) fits,
    Option.bind_eq_bind,Option.bind_some,dif_pos small]

def readIso (text : List Char) : Option DateTime := do
  let (year,text) ← readField 4 10000 text
  let (month,text) ← readField 2 13 text
  let (day,text) ← readField 2 32 text
  let (hour,text) ← readField 2 24 text
  let (minute,text) ← readField 2 60 text
  let (second,fraction) ← readField 2 60 text
  if text.drop 2 = ['Z'] then some ⟨year,month,day,hour,minute,second,0⟩
  else do
    let (microsecond,_) ← readField 6 1000000 fraction
    some ⟨year,month,day,hour,minute,second,microsecond⟩

theorem readIsoChars (t : DateTime) : readIso (isoChars t) = some t := by
  obtain ⟨year,month,day,hour,minute,second,microsecond⟩ := t
  have fits : ∀ {bound width} (n : Fin bound), bound ≤ 10 ^ width → n.val < 10 ^ width :=
    fun n wide => n.isLt.trans_le wide
  simp only [readIso,isoChars]
  rw [readFieldAppend year.isLt (fits year (by decide))]
  simp only [Option.bind_eq_bind,Option.bind_some]
  rw [readFieldAppend month.isLt (fits month (by decide))]
  simp only [Option.bind_some]
  rw [readFieldAppend day.isLt (fits day (by decide))]
  simp only [Option.bind_some]
  rw [readFieldAppend hour.isLt (fits hour (by decide))]
  simp only [Option.bind_some]
  rw [readFieldAppend minute.isLt (fits minute (by decide))]
  simp only [Option.bind_some]
  by_cases whole : microsecond.val = 0
  · have zero : microsecond = 0 := Fin.ext whole
    simp only [if_pos whole]
    rw [List.drop_left' (fixedLength 10 2 second.val)]
    have split := readFieldAppend second.isLt (fits second (by decide) : second.val < 10 ^ 2) 'Z' []
    rw [field,List.append_nil] at split
    rw [split,Option.bind_some,if_pos rfl,zero]
  · simp only [if_neg whole]
    rw [List.drop_left' (fixedLength 10 2 second.val)]
    have split := readFieldAppend second.isLt (fits second (by decide) : second.val < 10 ^ 2) '.'
      (field 6 microsecond.val 'Z')
    rw [field,List.append_assoc,List.singleton_append] at split
    have last := readFieldAppend microsecond.isLt (fits microsecond (by decide) : microsecond.val < 10 ^ 6) 'Z' []
    rw [List.append_nil] at last
    rw [split,Option.bind_some,if_neg (by simp),last]
    rfl

theorem fixedHex (width n : Nat) : ∀ c ∈ fixed 16 width n, c ≠ '-' := by
  have digits : ∀ d : Fin 16, Nat.digitChar d.val ≠ '-' := by decide
  induction width generalizing n with
  | zero => intro c here; contradiction
  | succ width ih =>
    intro c here
    rcases List.mem_append.mp here with here | here
    · exact ih _ c here
    · rw [List.mem_singleton.mp here]
      exact digits ⟨n % 16,Nat.mod_lt _ (by decide)⟩

def readUUID (text : List Char) : Option UUID := do
  let n ← readFixed 16 (text.filter (· != '-'))
  if h : n < 2 ^ 128 then some ⟨n,h⟩ else none

theorem filterDashed (h : List Char) : (dashed h).filter (· != '-') = h.filter (· != '-') := by
  have parts : h = h.take 8 ++ ((h.drop 8).take 4 ++ ((h.drop 12).take 4 ++ ((h.drop 16).take 4 ++ h.drop 20))) := by
    have last : h.drop 20 = (h.drop 16).drop 4 := by rw [List.drop_drop]
    have fourth : h.drop 16 = (h.drop 12).drop 4 := by rw [List.drop_drop]
    have third : h.drop 12 = (h.drop 8).drop 4 := by rw [List.drop_drop]
    rw [last,List.take_append_drop,fourth,List.take_append_drop,third,List.take_append_drop,
      List.take_append_drop]
  have dash : ('-' != '-') = false := rfl
  conv_rhs => rw [parts]
  simp only [dashed,List.filter_append,List.filter_cons,dash,Bool.false_eq_true,if_false]

theorem readUUIDStr (id : UUID) : readUUID (uuidStr id).toList = some id := by
  have plain : (fixed 16 32 id.val).filter (· != '-') = fixed 16 32 id.val :=
    List.filter_eq_self.mpr (fun c hc => by simpa using fixedHex 32 id.val c hc)
  have small : id.val < 16 ^ 32 := id.isLt
  simp only [readUUID,uuidStr,String.toList_ofList,filterDashed,plain,
    readFixedFixed (by decide : 0 < 16) (by decide) small,Option.bind_eq_bind,Option.bind_some,
    dif_pos id.isLt]

scoped instance jsonMode : Pydantic where
  dumpUUID := uuidStr
  validateUUID := fun text => readUUID text.toList
  dumpDecimal := Decimal.str
  validateDecimal := Decimal.ofString
  dumpDateTime := fun t => String.ofList (isoChars t)
  validateDateTime := fun text => readIso text.toList
  uuidUndone := readUUIDStr
  decimalUndone := Decimal.ofStringStr
  dateTimeUndone := by
    intro t
    rw [String.toList_ofList]
    exact readIsoChars t

end JsonMode
end PaymentSystem
