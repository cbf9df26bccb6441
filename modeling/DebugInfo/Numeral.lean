/-!
Decimal numerals at the head of a text, read into 64-bit words. A numeral may
stand behind blanks and carry one sign; it has at least one digit and ends with
the last digit in a row. What is read is a word, together with the text behind
the numeral. A number that does not fit into a word gives the largest word,
whatever the sign, and only a number that fits is negated by a minus sign,
modulo the number of words. Of a text that begins with no numeral nothing is
read, blanks and sign included. The character tests are about ASCII alone, as
numerals are.
-/

namespace DebugInfo.Numeral

inductive Sign where
  | plus
  | minus
  deriving DecidableEq, Repr

/-- The characters that may stand before a numeral: space, tab, line feed,
vertical tab, form feed and carriage return. -/
def isBlank (c : Char) : Bool :=
  [' ', '\t', '\n', '\x0b', '\x0c', '\r'].contains c

/-- The sign at the head of a text, plus when there is none, and the rest. -/
def takeSign : List Char → Sign × List Char
  | '+' :: rest => (.plus, rest)
  | '-' :: rest => (.minus, rest)
  | rest => (.plus, rest)

/-- The largest word. -/
def largest : UInt64 := 0xffffffffffffffff

def digitValue (digit : Char) : UInt64 :=
  UInt64.ofNat (digit.toNat - '0'.toNat)

/-- A word with one more digit behind it, unless a word cannot hold it. -/
def pushDigit (word : UInt64) (digit : Char) : Option UInt64 :=
  if word ≤ (largest - digitValue digit) / 10 then some (10 * word + digitValue digit)
  else none

/-- The word that a row of digits denotes, if there is one. -/
def wordOfDigits? (digits : List Char) : Option UInt64 :=
  digits.foldlM pushDigit 0

/-- The word with a sign in front. Words have no negatives, so a minus takes the
word from as many as there are words. -/
def Sign.apply : Sign → UInt64 → UInt64
  | .plus, word => word
  | .minus, word => -word

/-- The word at the head of a text, and the text behind it. -/
def read (text : List Char) : UInt64 × List Char :=
  let (sign, unsigned) := takeSign (text.dropWhile isBlank)
  let digits := unsigned.takeWhile Char.isDigit
  if digits = [] then (0, text)
  else ((wordOfDigits? digits).elim largest sign.apply, unsigned.dropWhile Char.isDigit)

end DebugInfo.Numeral
