import Mathlib.Data.List.Induction
import Mathlib.Data.List.TakeWhile
import DebugInfo.Numeral

/-!
What is read off a text. `IsNumeral` says by its parts what a numeral is, and nothing but
a numeral is ever read: the one at the head of the text, with all digits in a row. Digits
are read one by one into a word, which is given up for good by the first digit that it
cannot hold. `wordOf` says what comes of this by the number that the digits denote, which
has no bound. A minus sign is taken modulo the number of words, so one and the same word is
read where its own number is written and where a certain negative number is.
-/

namespace DebugInfo.Numeral

/-- The word that stands for a sign and a number. -/
def wordOf (sign : Sign) (number : Nat) : Nat :=
  if UInt64.size ≤ number then UInt64.size - 1
  else match sign with
    | .plus => number
    | .minus => (UInt64.size - number) % UInt64.size

/-- The ways to write a sign. A plus may be left out. -/
inductive Sign.IsWritten : Sign → List Char → Prop where
  | bare : IsWritten .plus []
  | plus : IsWritten .plus ['+']
  | minus : IsWritten .minus ['-']

/-- A whole text is a numeral with the given sign and digits. -/
structure IsNumeral (text : List Char) (sign : Sign) (digits : List Char) : Prop where
  ne_nil : digits ≠ []
  all_isDigit : digits.all Char.isDigit = true
  text_eq : ∃ blanks mark, blanks.all isBlank = true ∧ sign.IsWritten mark ∧
    text = blanks ++ mark ++ digits

/-- The number that a row of digits denotes. -/
abbrev magnitude (digits : List Char) : Nat := Nat.ofDigitChars 10 digits 0

/-! Reading the digits -/

theorem toNat_digitValue (digit : Char) :
    (digitValue digit).toNat = digit.toNat - '0'.toNat := by
  have hchar : digit.toNat < 0x110000 := by
    rcases digit.valid with hlow | ⟨-, hhigh⟩
    · exact Nat.lt_trans hlow (by decide)
    · exact hhigh
  rw [digitValue, UInt64.toNat_ofNat']
  exact Nat.mod_eq_of_lt (by omega)

/-- The test before a digit is pushed asks whether the result fits into a word. -/
theorem le_room_iff (word digit : UInt64) :
    word ≤ (largest - digit) / 10 ↔ 10 * word.toNat + digit.toNat < UInt64.size := by
  have hlargest : largest.toNat = UInt64.size - 1 := rfl
  have hdigit : digit ≤ largest :=
    UInt64.le_iff_toNat_le.mpr (hlargest ▸ Nat.le_sub_one_of_lt digit.toNat_lt)
  have hten : (10 : UInt64).toNat = 10 := rfl
  rw [UInt64.le_iff_toNat_le, UInt64.toNat_div, UInt64.toNat_sub_of_le _ _ hdigit, hlargest,
    hten]
  have hword : digit.toNat < UInt64.size := digit.toNat_lt
  omega

theorem pushDigit_eq (word : UInt64) (digit : Char) :
    pushDigit word digit =
      if 10 * word.toNat + (digitValue digit).toNat < UInt64.size then
        some (UInt64.ofNat (10 * word.toNat + (digitValue digit).toNat))
      else none := by
  have hpushed : UInt64.ofNat (10 * word.toNat + (digitValue digit).toNat) =
      10 * word + digitValue digit := by
    rw [UInt64.ofNat_add, UInt64.ofNat_mul, UInt64.ofNat_toNat, UInt64.ofNat_toNat]
    rfl
  simp only [pushDigit, le_room_iff, hpushed]

/-- A further digit moves the others up by one place. -/
theorem magnitude_concat (digits : List Char) (digit : Char) :
    magnitude (digits ++ [digit]) = 10 * magnitude digits + (digitValue digit).toNat := by
  rw [toNat_digitValue, magnitude, Nat.ofDigitChars_append]
  rfl

/-- The digits are read as the number that they denote, if it fits into a word. -/
theorem wordOfDigits?_eq (digits : List Char) :
    wordOfDigits? digits =
      if magnitude digits < UInt64.size then some (UInt64.ofNat (magnitude digits))
      else none := by
  induction digits using List.reverseRecOn with
  | nil => rfl
  | append_singleton digits digit ih =>
      have hword : wordOfDigits? (digits ++ [digit]) =
          (wordOfDigits? digits).bind fun word => pushDigit word digit := by
        simp [wordOfDigits?, List.foldlM_append]
      rw [hword, magnitude_concat, ih]
      by_cases hfits : magnitude digits < UInt64.size
      · rw [if_pos hfits, Option.bind_some, pushDigit_eq, UInt64.toNat_ofNat_of_lt' hfits]
      · -- A number that did not fit only grows.
        rw [if_neg hfits, if_neg (by omega)]
        rfl

/-- The word for a row of digits behind a sign. -/
theorem toNat_signed_word (sign : Sign) (digits : List Char) :
    ((wordOfDigits? digits).elim largest sign.apply).toNat = wordOf sign (magnitude digits) := by
  rw [wordOfDigits?_eq]
  by_cases hfits : magnitude digits < UInt64.size
  · rw [if_pos hfits, Option.elim_some]
    cases sign with
    | plus =>
        simp only [wordOf, Sign.apply, if_neg (Nat.not_le.mpr hfits)]
        exact UInt64.toNat_ofNat_of_lt' hfits
    | minus =>
        simp only [wordOf, Sign.apply, if_neg (Nat.not_le.mpr hfits), UInt64.toNat_neg,
          UInt64.toNat_ofNat_of_lt' hfits]
  · simp only [wordOf, if_neg hfits, if_pos (Nat.not_lt.mp hfits), Option.elim_none]
    rfl

/-! Cutting a text into blanks, sign and digits -/

theorem takeSign_cases (text : List Char) :
    ∃ mark, (takeSign text).1.IsWritten mark ∧ text = mark ++ (takeSign text).2 := by
  rw [takeSign.eq_def]
  split
  · exact ⟨_, .plus, rfl⟩
  · exact ⟨_, .minus, rfl⟩
  · exact ⟨_, .bare, rfl⟩

theorem isBlank_of_isDigit {c : Char} (hdigit : c.isDigit = true) : isBlank c = false := by
  have hblanks : [' ', '\t', '\n', '\x0b', '\x0c', '\r'].all (!·.isDigit) = true := by decide
  cases hblank : isBlank c with
  | false => rfl
  | true =>
      have hother := List.all_eq_true.mp hblanks c (List.contains_iff_mem.mp hblank)
      rw [hdigit] at hother
      cases hother

section Parts

variable {sign : Sign} {mark blanks rest : List Char} {digit : Char}

theorem takeSign_append (hmark : sign.IsWritten mark) (hdigit : digit.isDigit = true) :
    takeSign (mark ++ digit :: rest) = (sign, digit :: rest) := by
  cases hmark with
  | plus => rfl
  | minus => rfl
  | bare =>
      rw [List.nil_append, takeSign.eq_def]
      split
      · rename_i hplus
        cases hplus
        exact absurd hdigit (by decide)
      · rename_i hminus
        cases hminus
        exact absurd hdigit (by decide)
      · rfl

theorem dropWhile_isBlank_append (hblanks : blanks.all isBlank = true)
    (hmark : sign.IsWritten mark) (hdigit : digit.isDigit = true) :
    (blanks ++ (mark ++ digit :: rest)).dropWhile isBlank = mark ++ digit :: rest := by
  rw [List.dropWhile_append_of_pos (List.all_eq_true.mp hblanks)]
  cases hmark with
  | plus => rfl
  | minus => rfl
  | bare =>
      have hblank := isBlank_of_isDigit hdigit
      rw [List.nil_append, List.dropWhile_cons_of_neg (by simp [hblank])]

end Parts

variable {text front digits rest : List Char} {sign : Sign}

/-- The digits in a row end where no digit follows. -/
theorem cut_digits (hdigits : ∀ digit ∈ digits, digit.isDigit = true)
    (hrest : ∀ c ∈ rest.head?, c.isDigit = false) :
    (digits ++ rest).takeWhile Char.isDigit = digits ∧
      (digits ++ rest).dropWhile Char.isDigit = rest := by
  rw [List.takeWhile_append_of_pos hdigits, List.dropWhile_append_of_pos hdigits]
  cases rest with
  | nil => simp
  | cons c tail => simp [hrest c rfl]

/-- The numeral at the head of a text is read with all its digits. -/
theorem IsNumeral.read_append (hnumeral : IsNumeral front sign digits)
    (hrest : ∀ c ∈ rest.head?, c.isDigit = false) :
    read (front ++ rest) = ((wordOfDigits? digits).elim largest sign.apply, rest) := by
  obtain ⟨hne, hall, blanks, mark, hblanks, hmark, rfl⟩ := hnumeral
  have hdigits := List.all_eq_true.mp hall
  obtain ⟨htake, hdrop⟩ := cut_digits hdigits hrest
  obtain ⟨digit, others, rfl⟩ := List.exists_cons_of_ne_nil hne
  have hdigit := hdigits digit List.mem_cons_self
  have htext : blanks ++ mark ++ (digit :: others) ++ rest =
      blanks ++ (mark ++ digit :: (others ++ rest)) := by simp
  rw [htext, read, dropWhile_isBlank_append hblanks hmark hdigit, takeSign_append hmark hdigit]
  simp only [← List.cons_append, htake, hdrop, if_neg hne]

/-- A text that is a numeral is read to its end. -/
theorem IsNumeral.read_eq (hnumeral : IsNumeral text sign digits) :
    read text = ((wordOfDigits? digits).elim largest sign.apply, []) := by
  have hend : ∀ c ∈ ([] : List Char).head?, c.isDigit = false := by simp
  have hread := hnumeral.read_append hend
  rwa [List.append_nil] at hread

/-- Nothing is read, or a numeral at the head of the text. -/
theorem read_cases (text : List Char) :
    read text = (0, text) ∨
    ∃ front sign digits, IsNumeral front sign digits ∧ text = front ++ (read text).2 := by
  let unblanked := text.dropWhile isBlank
  let unsigned := (takeSign unblanked).2
  let digits := unsigned.takeWhile Char.isDigit
  obtain ⟨mark, hmark, hunblanked⟩ := takeSign_cases unblanked
  by_cases hdigits : digits = []
  · exact Or.inl (if_pos hdigits)
  · have hread : (read text).2 = unsigned.dropWhile Char.isDigit :=
      congrArg Prod.snd (if_neg hdigits)
    refine Or.inr ⟨text.takeWhile isBlank ++ mark ++ digits, _, digits,
      ⟨hdigits, List.all_takeWhile, _, mark, List.all_takeWhile, hmark, rfl⟩, ?_⟩
    calc text
        = text.takeWhile isBlank ++ unblanked := List.takeWhile_append_dropWhile.symm
      _ = text.takeWhile isBlank ++ (mark ++ unsigned) := by rw [← hunblanked]
      _ = text.takeWhile isBlank ++ (mark ++ (digits ++ unsigned.dropWhile Char.isDigit)) := by
          rw [List.takeWhile_append_dropWhile]
      _ = _ := by simp [hread]

/-- A text is read to its end just if it is a numeral. -/
theorem read_to_end_iff (hne : text ≠ []) :
    (read text).2 = [] ↔ ∃ sign digits, IsNumeral text sign digits := by
  constructor
  · intro hend
    rcases read_cases text with hnothing | ⟨front, sign, digits, hnumeral, htext⟩
    · rw [hnothing] at hend
      exact absurd hend hne
    · rw [hend, List.append_nil] at htext
      exact ⟨sign, digits, htext ▸ hnumeral⟩
  · rintro ⟨sign, digits, hnumeral⟩
    rw [hnumeral.read_eq]

/-- A numeral is read as the word for its sign and number. -/
theorem IsNumeral.toNat_read (hnumeral : IsNumeral text sign digits) :
    (read text).1.toNat = wordOf sign (magnitude digits) := by
  rw [hnumeral.read_eq]
  exact toNat_signed_word sign digits

/-! Words and numbers -/

/-- The number for a sign and a number without one. -/
def Sign.number : Sign → Nat → Int
  | .plus, magnitude => magnitude
  | .minus, magnitude => -magnitude

/-- A whole text is a numeral for a number of any size. -/
def Denotes (text : List Char) (number : Int) : Prop :=
  ∃ sign digits, IsNumeral text sign digits ∧ sign.number (magnitude digits) = number

/-- A word between the least and the largest stands for its own number and for one
negative number. -/
theorem wordOf_eq_iff {sign : Sign} {magnitude word : Nat} (hpos : 0 < word)
    (hlt : word + 1 < UInt64.size) :
    wordOf sign magnitude = word ↔
      sign.number magnitude = word ∨ sign.number magnitude = word - (UInt64.size : Int) := by
  have hsize : UInt64.size = 2 ^ 64 := rfl
  by_cases hlarge : UInt64.size ≤ magnitude
  · have hword : wordOf sign magnitude = UInt64.size - 1 := if_pos hlarge
    cases sign with
    | plus => simp only [hword, Sign.number]; omega
    | minus => simp only [hword, Sign.number]; omega
  · cases sign with
    | plus => simp only [wordOf, if_neg hlarge, Sign.number]; omega
    | minus =>
        simp only [wordOf, if_neg hlarge, Sign.number]
        rw [hsize]
        omega

end DebugInfo.Numeral
