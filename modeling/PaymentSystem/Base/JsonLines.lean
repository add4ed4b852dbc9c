import PaymentSystem.Base.JsonText

/-! JSON documents as lines. What is written of a document is printable ASCII, whatever the
strings in it, so a text with one document a line reads back document by document. -/
namespace JsonText
open Numeral

def Printable (c : Char) : Prop := 32 ≤ c.toNat ∧ c.toNat ≤ 126

def Prints (text : List Char) : Prop := ∀ c ∈ text, Printable c

instance (c : Char) : Decidable (Printable c) := inferInstanceAs (Decidable (_ ∧ _))

theorem printsNil : Prints [] := fun _ here => by contradiction

theorem printsCons {c : Char} {text : List Char} (first : Printable c) (rest : Prints text) : Prints (c :: text) := by
  intro x here
  rcases List.mem_cons.mp here with rfl | later
  · exact first
  · exact rest x later

theorem printsAppend {xs ys : List Char} (first : Prints xs) (rest : Prints ys) : Prints (xs ++ ys) := by
  intro x here
  rcases List.mem_append.mp here with early | later
  · exact first x early
  · exact rest x later

theorem printsDigit {c : Char} (digit : c.isDigit = true) : Printable c := by
  simp only [Char.isDigit,Bool.and_eq_true,decide_eq_true_eq] at digit
  have lower : 48 ≤ c.toNat := digit.1
  have upper : c.toNat ≤ 57 := digit.2
  constructor <;> omega

theorem digitCharPrints {d : Nat} (small : d < 16) : Printable (Nat.digitChar d) := by
  have all : ∀ d : Fin 16, Printable (Nat.digitChar d) := by decide
  exact all ⟨d,small⟩

theorem fixedPrints (width n : Nat) : Prints (fixed 16 width n) := by
  induction width generalizing n with
  | zero => exact printsNil
  | succ width ih => exact printsAppend (ih _) (printsCons (digitCharPrints (Nat.mod_lt _ (by decide))) printsNil)

theorem unitPrints (n : Nat) : Prints (unitText n) :=
  printsCons (by decide) (printsCons (by decide) (fixedPrints 4 n))

theorem escapePrints (c : Char) : Prints (escape c) := by
  have pair : ∀ x, Printable x → Prints ['\\',x] := fun x known => printsCons (by decide) (printsCons known printsNil)
  unfold escape
  split
  · exact pair _ (by decide)
  split
  · exact pair _ (by decide)
  split
  · exact pair _ (by decide)
  split
  · exact pair _ (by decide)
  split
  · exact pair _ (by decide)
  split
  · exact pair _ (by decide)
  split
  · exact pair _ (by decide)
  split
  · rename_i printable
    exact printsCons printable printsNil
  · unfold unicodeText
    split
    · exact unitPrints _
    · exact printsAppend (unitPrints _) (unitPrints _)

theorem stringPrints (s : List Char) : Prints (stringText s) := by
  refine printsCons (by decide) (printsAppend ?_ (printsCons (by decide) printsNil))
  intro x here
  obtain ⟨c,_,inside⟩ := List.mem_flatMap.mp here
  exact escapePrints c x inside

theorem numberPrints (n : Int) : Prints (numberText n) := by
  refine printsAppend ?_ (fun c here => printsDigit (decimalDigits n.natAbs c here))
  split
  · exact printsCons (by decide) printsNil
  · exact printsNil

mutual
theorem dumpsPrints (doc : Json) : Prints (dumpsChars doc) := by
  match doc with
  | .null => exact printsCons (by decide) (printsCons (by decide) (printsCons (by decide) (printsCons (by decide) printsNil)))
  | .number n => exact numberPrints n
  | .string s => exact stringPrints s.toList
  | .object members => exact printsCons (by decide) (printsAppend (membersPrints members) (printsCons (by decide) printsNil))
theorem membersPrints (members : List (String × Json)) : Prints (membersText members) := by
  match members with
  | [] => exact printsNil
  | (key,value) :: rest =>
    rw [membersText]
    refine printsAppend (stringPrints key.toList) (printsCons (by decide) (printsCons (by decide)
      (printsAppend (dumpsPrints value) ?_)))
    split
    · exact printsNil
    · exact printsCons (by decide) (printsCons (by decide) (membersPrints rest))
end

/-! Lines of documents. -/

def linesText (docs : List Json) : List Char := docs.flatMap (fun doc => dumpsChars doc ++ ['\n'])

def loadsLines (text : List Char) : List (Option Json) :=
  ((text.splitOn '\n').dropLast).map (fun line => loads (String.ofList line))

theorem dumpsOneLine (doc : Json) : '\n' ∉ dumpsChars doc := by
  intro here
  have printable := dumpsPrints doc _ here
  revert printable
  decide

theorem splitLines (docs : List Json) : (linesText docs).splitOn '\n' = docs.map dumpsChars ++ [[]] := by
  induction docs with
  | nil => rfl
  | cons doc docs ih =>
    rw [linesText,List.flatMap_cons,List.append_assoc,List.singleton_append,
      List.splitOn_append_cons_self_of_not_mem (dumpsOneLine doc)]
    exact congrArg (dumpsChars doc :: ·) ih

theorem loadsLinesText (docs : List Json) : loadsLines (linesText docs) = docs.map some := by
  rw [loadsLines,splitLines,List.dropLast_concat,List.map_map]
  exact List.map_congr_left (fun doc _ => loadsDumps doc)

end JsonText
