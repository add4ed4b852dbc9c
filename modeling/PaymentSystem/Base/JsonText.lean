import PaymentSystem.Base.Numeral

/-! JSON documents of objects, strings, integers and null: the text json.dumps
writes for them (ASCII only, one space after a comma and a colon) and a reader.
Arrays, booleans and floating point numbers are not represented. -/
namespace JsonText
open Numeral

inductive Json where
  | null
  | number (n : Int)
  | string (s : String)
  | object (members : List (String × Json))
  deriving Repr

def Json.member? : Json → String → Option Json
  | .object members, key => (members.find? (fun m => m.1 == key)).map Prod.snd
  | _, _ => none

def Json.string? : Json → Option String
  | .string s => some s
  | _ => none

/-! Strings. -/

def unitText (n : Nat) : List Char := '\\' :: 'u' :: fixed 16 4 n

def unicodeText (n : Nat) : List Char :=
  if n < 0x10000 then unitText n
  else unitText (0xD800 + (n - 0x10000) / 0x400) ++ unitText (0xDC00 + (n - 0x10000) % 0x400)

def escape (c : Char) : List Char :=
  if c = '"' then ['\\','"']
  else if c = '\\' then ['\\','\\']
  else if c = '\n' then ['\\','n']
  else if c = '\r' then ['\\','r']
  else if c = '\t' then ['\\','t']
  else if c.toNat = 8 then ['\\','b']
  else if c.toNat = 12 then ['\\','f']
  else if 32 ≤ c.toNat ∧ c.toNat ≤ 126 then [c]
  else unicodeText c.toNat

def stringText (s : List Char) : List Char := '"' :: (s.flatMap escape ++ ['"'])

def isHigh (n : Nat) : Bool := decide (0xD800 ≤ n ∧ n ≤ 0xDBFF)
def isLow (n : Nat) : Bool := decide (0xDC00 ≤ n ∧ n ≤ 0xDFFF)

def readUnit : List Char → Option (Nat × List Char)
  | a :: b :: c :: d :: rest => (readFixed 16 [a,b,c,d]).map (fun n => (n,rest))
  | _ => none

def readUnicode (text : List Char) : Option (Char × List Char) := do
  let (n,rest) ← readUnit text
  if isHigh n then
    match rest with
    | '\\' :: 'u' :: rest => do
        let (m,rest) ← readUnit rest
        if isLow m then some (Char.ofNat (0x10000 + (n - 0xD800) * 0x400 + (m - 0xDC00)),rest) else none
    | _ => none
  else if isLow n then none
  else some (Char.ofNat n,rest)

def unescape (c : Char) : Option Char :=
  if c = '"' then some '"'
  else if c = '\\' then some '\\'
  else if c = '/' then some '/'
  else if c = 'n' then some '\n'
  else if c = 'r' then some '\r'
  else if c = 't' then some '\t'
  else if c = 'b' then some (Char.ofNat 8)
  else if c = 'f' then some (Char.ofNat 12)
  else none

def readChar : List Char → Option (Char × List Char)
  | [] => none
  | c :: rest =>
      if c = '\\' then
        match rest with
        | [] => none
        | e :: rest => if e = 'u' then readUnicode rest else (unescape e).map (fun d => (d,rest))
      else if 32 ≤ c.toNat then some (c,rest) else none

def readString : Nat → List Char → Option (List Char × List Char)
  | 0, _ => none
  | fuel + 1, text =>
      if text.head? = some '"' then some ([],text.drop 1) else do
        let (c,rest) ← readChar text
        let (cs,rest) ← readString fuel rest
        some (c :: cs,rest)

theorem readUnitFixed {n : Nat} (fits : n < 0x10000) (rest : List Char) :
    readUnit (fixed 16 4 n ++ rest) = some (n,rest) := by
  have shape : ∃ a b c d, fixed 16 4 n = [a,b,c,d] := ⟨_,_,_,_,rfl⟩
  obtain ⟨a,b,c,d,same⟩ := shape
  have read : readFixed 16 (fixed 16 4 n) = some n := readFixedFixed (by decide) (by decide) (by omega)
  rw [same] at read ⊢
  simp [readUnit,read]

theorem charRange (c : Char) : c.toNat < 0xD800 ∨ (0xDFFF < c.toNat ∧ c.toNat < 0x110000) := by
  have valid := c.valid
  unfold UInt32.isValidChar Nat.isValidChar at valid
  exact valid

theorem readBasic {n : Nat} (rest : List Char) (basic : n < 0x10000) (high : isHigh n = false)
    (low : isLow n = false) : readChar (unitText n ++ rest) = some (Char.ofNat n,rest) := by
  simp only [unitText,List.cons_append,readChar,if_true,readUnicode,readUnitFixed basic,
    Option.bind_eq_bind,Option.bind_some,high,low,Bool.false_eq_true,if_false]

theorem readPair {n m : Nat} (rest : List Char) (hn : n < 0x10000) (hm : m < 0x10000)
    (high : isHigh n = true) (low : isLow m = true) :
    readChar (unitText n ++ unitText m ++ rest) =
      some (Char.ofNat (0x10000 + (n - 0xD800) * 0x400 + (m - 0xDC00)),rest) := by
  simp only [unitText,List.cons_append,List.append_assoc,readChar,if_true,readUnicode,
    readUnitFixed hn,readUnitFixed hm,Option.bind_eq_bind,Option.bind_some,high,low]

theorem readUnicodeCode {n : Nat} (rest : List Char)
    (range : n < 0xD800 ∨ (0xDFFF < n ∧ n < 0x110000)) :
    readChar (unicodeText n ++ rest) = some (Char.ofNat n,rest) := by
  unfold unicodeText
  split
  · rename_i basic
    exact readBasic rest basic (by simp only [isHigh,decide_eq_false_iff_not]; omega)
      (by simp only [isLow,decide_eq_false_iff_not]; omega)
  · rename_i basic
    have whole : 0x10000 + (0xD800 + (n - 0x10000) / 0x400 - 0xD800) * 0x400 +
        (0xDC00 + (n - 0x10000) % 0x400 - 0xDC00) = n := by omega
    have read := readPair (n := 0xD800 + (n - 0x10000) / 0x400) (m := 0xDC00 + (n - 0x10000) % 0x400)
      rest (by omega) (by omega) (by simp only [isHigh,decide_eq_true_eq]; omega)
      (by simp only [isLow,decide_eq_true_eq]; omega)
    rwa [whole] at read

theorem readUnicodeText (c : Char) (rest : List Char) :
    readChar (unicodeText c.toNat ++ rest) = some (c,rest) := by
  rw [readUnicodeCode rest (charRange c),Char.ofNat_toNat]

theorem readEscape (c : Char) (rest : List Char) : readChar (escape c ++ rest) = some (c,rest) := by
  have ofCode {n : Nat} (h : c.toNat = n) : Char.ofNat n = c := by rw [← h,Char.ofNat_toNat]
  unfold escape
  split
  · subst c; rfl
  split
  · subst c; rfl
  split
  · subst c; rfl
  split
  · subst c; rfl
  split
  · subst c; rfl
  split
  · rename_i code; simpa [readChar,unescape] using ofCode code
  split
  · rename_i code; simpa [readChar,unescape] using ofCode code
  split
  · rename_i slash _ _ _ _ _ printable
    simp only [List.singleton_append,readChar,if_neg slash,if_pos printable.1]
  · exact readUnicodeText c rest

theorem escapeHead (c : Char) (rest : List Char) : (escape c ++ rest).head? ≠ some '"' := by
  unfold escape unicodeText unitText
  repeat' split
  all_goals simp_all

theorem readStringText (s rest : List Char) (fuel : Nat) (enough : s.length < fuel) :
    readString fuel (s.flatMap escape ++ '"' :: rest) = some (s,rest) := by
  induction s generalizing fuel with
  | nil =>
    obtain ⟨fuel,rfl⟩ := Nat.exists_eq_add_of_lt enough
    simp [readString]
  | cons c s ih =>
    cases fuel with
    | zero => omega
    | succ fuel =>
      -- one unit of fuel a character, although an escape has several
      have later := ih fuel (by simp only [List.length_cons] at enough; omega)
      simp only [List.flatMap_cons,List.append_assoc,readString,if_neg (escapeHead c _),readEscape,
        later,Option.bind_eq_bind,Option.bind_some]

/-! Documents. -/

def numberText (n : Int) : List Char :=
  (if n < 0 then ['-'] else []) ++ Nat.toDigits 10 n.natAbs

mutual
def dumpsChars : Json → List Char
  | .null => ['n','u','l','l']
  | .number n => numberText n
  | .string s => stringText s.toList
  | .object members => '{' :: (membersText members ++ ['}'])
def membersText : List (String × Json) → List Char
  | [] => []
  | (key,value) :: rest =>
      stringText key.toList ++ ':' :: ' ' :: (dumpsChars value ++
        (if rest.isEmpty then [] else ',' :: ' ' :: membersText rest))
end

def dumps (doc : Json) : String := String.ofList (dumpsChars doc)

def isSpace (c : Char) : Bool := c = ' ' || c = '\t' || c = '\n' || c = '\r'

def skip (text : List Char) : List Char := text.dropWhile isSpace

def consume (c : Char) (text : List Char) : Option (List Char) :=
  if text.head? = some c then some (text.drop 1) else none

/-- An integer in canonical form; a fraction or an exponent is not one. -/
def readNumber (text : List Char) : Option (Json × List Char) :=
  let negative := decide (text.head? = some '-')
  let body := if negative then text.drop 1 else text
  let ds := digitsOf body
  let rest := afterDigits body
  let n := Nat.ofDigitChars 10 ds 0
  if ds = Nat.toDigits 10 n ∧ rest.head? ≠ some '.' ∧ rest.head? ≠ some 'e' ∧ rest.head? ≠ some 'E' then
    some (.number (if negative then -n else n),rest)
  else none

mutual
def readValue : Nat → List Char → Option (Json × List Char)
  | 0, _ => none
  | fuel + 1, text =>
      if text.take 4 = ['n','u','l','l'] then some (.null,text.drop 4)
      else if text.head? = some '"' then do
        let (s,rest) ← readString fuel (text.drop 1)
        some (.string (String.ofList s),rest)
      else if text.head? = some '{' then do
        let inside := skip (text.drop 1)
        if inside.head? = some '}' then some (.object [],inside.drop 1) else do
          let (members,rest) ← readMembers fuel inside
          some (.object members,rest)
      else readNumber text
def readMembers : Nat → List Char → Option (List (String × Json) × List Char)
  | 0, _ => none
  | fuel + 1, text => do
      let text ← consume '"' text
      let (key,text) ← readString fuel text
      let text ← consume ':' (skip text)
      let (value,text) ← readValue fuel (skip text)
      let text := skip text
      if text.head? = some '}' then some ([(String.ofList key,value)],text.drop 1) else do
        let text ← consume ',' text
        let (members,text) ← readMembers fuel (skip text)
        some ((String.ofList key,value) :: members,text)
end

def loads (text : String) : Option Json := do
  let (doc,rest) ← readValue (text.toList.length + 1) (skip text.toList)
  if skip rest = [] then some doc else none

def Follows (rest : List Char) : Prop :=
  Stops rest ∧ rest.head? ≠ some '.' ∧ rest.head? ≠ some 'e' ∧ rest.head? ≠ some 'E'

theorem followsNil : Follows [] := ⟨stopsNil,by simp,by simp,by simp⟩

theorem followsCons {c : Char} {rest : List Char} (h : c = ',' ∨ c = '}') : Follows (c :: rest) := by
  rcases h with rfl | rfl <;> exact ⟨stopsCons (by decide),by simp,by simp,by simp⟩

theorem digitNotMinus {ds rest : List Char} (all : ∀ c ∈ ds, c.isDigit = true) (nonempty : ds ≠ []) :
    (ds ++ rest).head? ≠ some '-' := by
  obtain ⟨d,ds,rfl⟩ := List.exists_cons_of_ne_nil nonempty
  intro h
  cases Option.some.inj h
  exact absurd (all _ List.mem_cons_self) (by decide)

theorem readNumberText (n : Int) {rest : List Char} (follows : Follows rest) :
    readNumber (numberText n ++ rest) = some (.number n,rest) := by
  have ds := decimalDigits n.natAbs
  have nonempty : Nat.toDigits 10 n.natAbs ≠ [] := Nat.toDigits_ne_nil
  obtain ⟨stop,point,small,large⟩ := follows
  by_cases sign : n < 0
  · simp only [readNumber,numberText,if_pos sign,List.cons_append,List.nil_append,
      List.head?_cons,decide_true,if_true,List.drop_one,List.tail_cons,
      digitsOfAppend ds stop,afterDigitsAppend ds stop,Nat.ofDigitChars_ten_toDigits]
    rw [if_pos ⟨trivial,point,small,large⟩]
    congr 3
    omega
  · have noSign := @digitNotMinus _ rest ds nonempty
    simp only [readNumber,numberText,if_neg sign,List.nil_append,decide_eq_false noSign,
      Bool.false_eq_true,if_false,digitsOfAppend ds stop,afterDigitsAppend ds stop,
      Nat.ofDigitChars_ten_toDigits]
    rw [if_pos ⟨trivial,point,small,large⟩]
    congr 3
    omega

theorem consumeCons (c : Char) (rest : List Char) : consume c (c :: rest) = some rest := by
  simp [consume]

theorem skipCons {c : Char} {rest : List Char} (h : isSpace c = false) : skip (c :: rest) = c :: rest := by
  simp [skip,h]

theorem skipSpace {rest : List Char} : skip (' ' :: rest) = skip rest := by
  simp [skip,isSpace]

mutual
def cost : Json → Nat
  | .null => 1
  | .number _ => 1
  | .string s => s.toList.length + 2
  | .object members => membersCost members + 2
def membersCost : List (String × Json) → Nat
  | [] => 0
  | (key,value) :: rest => key.toList.length + cost value + membersCost rest + 2
end

theorem dumpsHead (doc : Json) : ∃ c rest, dumpsChars doc = c :: rest ∧ isSpace c = false := by
  cases doc with
  | null => exact ⟨_,_,rfl,by decide⟩
  | number n =>
    simp only [dumpsChars,numberText]
    split
    · exact ⟨_,_,rfl,by decide⟩
    · obtain ⟨d,ds,same⟩ := List.exists_cons_of_ne_nil (Nat.toDigits_ne_nil (n := n.natAbs) (b := 10))
      refine ⟨d,ds,by simpa using same,?_⟩
      have digit := decimalDigits n.natAbs d (by rw [same]; exact List.mem_cons_self)
      simp only [isSpace,Bool.or_eq_false_iff,decide_eq_false_iff_not]
      refine ⟨⟨⟨?_,?_⟩,?_⟩,?_⟩ <;> rintro rfl <;> exact absurd digit (by decide)
  | string s => exact ⟨_,_,rfl,by decide⟩
  | object members => exact ⟨_,_,rfl,by decide⟩

theorem skipDumps (doc : Json) (rest : List Char) :
    skip (dumpsChars doc ++ rest) = dumpsChars doc ++ rest := by
  obtain ⟨c,tail,same,space⟩ := dumpsHead doc
  rw [same]
  exact skipCons space

mutual
theorem readDumps (doc : Json) (fuel : Nat) (rest : List Char) (enough : cost doc ≤ fuel)
    (follows : Follows rest) : readValue fuel (dumpsChars doc ++ rest) = some (doc,rest) := by
  cases fuel with
  | zero => cases doc <;> simp [cost] at enough
  | succ fuel =>
    match doc with
    | .null => simp [dumpsChars,readValue]
    | .number n =>
      have read := readNumberText n follows
      obtain ⟨c,tail,same,digit⟩ : ∃ c tail, numberText n = c :: tail ∧ (c = '-' ∨ c.isDigit = true) := by
        simp only [numberText]
        split
        · exact ⟨_,_,rfl,Or.inl rfl⟩
        · obtain ⟨d,ds,same⟩ := List.exists_cons_of_ne_nil (Nat.toDigits_ne_nil (n := n.natAbs) (b := 10))
          exact ⟨d,ds,by simpa using same,
            Or.inr (decimalDigits n.natAbs d (by rw [same]; exact List.mem_cons_self))⟩
      have other (x : Char) (h : x ≠ '-' ∧ x.isDigit = false) : c ≠ x := by
        rintro rfl
        rcases digit with eq | eq
        · exact h.1 eq
        · rw [h.2] at eq; contradiction
      rw [dumpsChars,readValue,same,List.cons_append,if_neg,if_neg,if_neg,← List.cons_append,← same,read]
      · simpa using other '{' (by decide)
      · simpa using other '"' (by decide)
      · intro h
        exact other 'n' (by decide) (List.cons.inj h).1
    | .string s =>
      have read := readStringText s.toList rest fuel (by simp only [cost] at enough; omega)
      simp [dumpsChars,stringText,readValue,read]
    | .object [] => simp [dumpsChars,membersText,readValue,skip,isSpace]
    | .object ((key,value) :: members) =>
      have read := readMembersText ((key,value) :: members) (by simp) fuel rest
        (by simp only [cost] at enough; omega)
      have quoted : ∃ tail, membersText ((key,value) :: members) ++ '}' :: rest = '"' :: tail := ⟨_,rfl⟩
      obtain ⟨tail,same⟩ := quoted
      have start : skip ('"' :: tail) = '"' :: tail := skipCons (by decide)
      rw [same] at read
      simp only [dumpsChars,List.cons_append,List.append_assoc,List.nil_append,same,readValue]
      simp [start,read]
theorem readMembersText (members : List (String × Json)) (nonempty : members ≠ []) (fuel : Nat)
    (rest : List Char) (enough : membersCost members ≤ fuel) :
    readMembers fuel (membersText members ++ '}' :: rest) = some (members,rest) := by
  match members, fuel with
  | [], _ => contradiction
  | (key,value) :: tail, 0 => simp [membersCost] at enough
  | (key,value) :: tail, fuel + 1 =>
    simp only [membersCost] at enough
    have readKey (after : List Char) : readString fuel (key.toList.flatMap escape ++ '"' :: after) =
        some (key.toList,after) := readStringText key.toList after fuel (by omega)
    have colon (after : List Char) : skip (':' :: after) = ':' :: after := skipCons (by decide)
    have close : skip ('}' :: rest) = '}' :: rest := skipCons (by decide)
    have comma (after : List Char) : skip (',' :: after) = ',' :: after := skipCons (by decide)
    match tail with
    | [] =>
      have readOne := readDumps value fuel ('}' :: rest) (by omega) (followsCons (Or.inr rfl))
      simp only [membersText,stringText,List.cons_append,List.append_assoc,List.nil_append,
        readMembers,consumeCons,readKey,colon,skipSpace,skipDumps,List.isEmpty_nil,if_true,readOne,
        close,Option.bind_eq_bind,Option.bind_some,List.head?_cons,String.ofList_toList,
        List.drop_succ_cons,List.drop_zero]
    | (key',value') :: tail =>
      have quoted : ∃ after, membersText ((key',value') :: tail) ++ '}' :: rest = '"' :: after := ⟨_,rfl⟩
      obtain ⟨after,same⟩ := quoted
      have start : skip ('"' :: after) = '"' :: after := skipCons (by decide)
      have readRest := readMembersText ((key',value') :: tail) (by simp) fuel rest
        (by simp only [membersCost] at enough ⊢; omega)
      have readOne := readDumps value fuel
        (',' :: ' ' :: (membersText ((key',value') :: tail) ++ '}' :: rest)) (by omega)
        (followsCons (Or.inl rfl))
      rw [membersText]
      simp only [stringText,List.cons_append,List.append_assoc,List.nil_append,
        readMembers,consumeCons,readKey,colon,skipSpace,skipDumps,List.isEmpty_cons,
        Bool.false_eq_true,if_false,readOne,comma,Option.bind_eq_bind,Option.bind_some,
        List.head?_cons,String.ofList_toList]
      rw [same] at readRest ⊢
      simp [start,readRest]
end

theorem escapeLength (c : Char) : 1 ≤ (escape c).length := by
  unfold escape unicodeText unitText
  repeat' split
  all_goals simp

theorem stringLength (s : List Char) : s.length + 2 ≤ (stringText s).length := by
  have inner : s.length ≤ (s.flatMap escape).length := by
    induction s with
    | nil => simp
    | cons c s ih =>
      have := escapeLength c
      simp only [List.flatMap_cons,List.length_append,List.length_cons]
      omega
  simp only [stringText,List.length_cons,List.length_append,List.length_nil]
  omega

mutual
theorem costLength (doc : Json) : cost doc ≤ (dumpsChars doc).length + 1 := by
  match doc with
  | .null => simp [cost]
  | .number n => simp [cost]
  | .string s =>
    have := stringLength s.toList
    simp only [cost,dumpsChars]
    omega
  | .object members =>
    have := membersCostLength members
    simp only [cost,dumpsChars,List.length_cons,List.length_append,List.length_nil]
    omega
theorem membersCostLength (members : List (String × Json)) :
    membersCost members ≤ (membersText members).length + 1 := by
  match members with
  | [] => simp [membersCost]
  | (key,value) :: rest =>
    have one := costLength value
    have more := membersCostLength rest
    have quoted := stringLength key.toList
    cases rest with
    | nil =>
      simp only [membersCost,membersText,List.length_append,List.length_cons,List.isEmpty_nil,if_true,
        List.length_nil] at more ⊢
      omega
    | cons next rest =>
      rw [membersCost,membersText]
      simp only [List.length_append,List.length_cons,List.isEmpty_cons,Bool.false_eq_true,if_false]
      omega
end

theorem loadsDumps (doc : Json) : loads (dumps doc) = some doc := by
  have read := readDumps doc ((dumpsChars doc).length + 1) [] (costLength doc) followsNil
  have start := skipDumps doc []
  rw [List.append_nil] at read start
  have ended : skip [] = [] := rfl
  simp only [loads,dumps,String.toList_ofList,start,read,Option.bind_eq_bind,Option.bind_some,ended,
    if_true]

example : dumps (.object [("a",.string "x\"é"),("b",.null)]) =
    "\x7b\"a\": \"x\\\"\\u00e9\", \"b\": null\x7d" := by decide

end JsonText
