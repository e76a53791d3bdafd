/-!
# Numbers in texts

A number is written with as few decimal digits as possible. `canonicalDigits` tells which digit
strings are written that way: the single digit zero, and those that start with another digit.

A person may write an integer in other ways. In a numeral, blanks around it are overlooked, there
may be a sign, and a single underscore may stand between any two digits. What counts as a blank is a
parameter. Of the ASCII characters six do; the separators of fields and records, which are blank
elsewhere (`isBlank`), do not.

In a text the digits may be those of any script that has decimal digits. `plainDigit` turns them
into those of ASCII, and signs and underscores stay those of ASCII.
-/

namespace HashConditions

namespace Text

/-! ### Decimal numbers -/

/-- Whether a character is a decimal digit. -/
def isDigit (c : Char) : Bool :=
  '0' ≤ c && c ≤ '9'

/-- The digit for a number below ten. -/
def digit (n : Nat) : Char :=
  Char.ofNat (48 + n)

/-- The decimal digits of a number. -/
def decimal (n : Nat) : List Char :=
  if n < 10 then [digit n] else decimal (n / 10) ++ [digit (n % 10)]
termination_by n

/-- The number that decimal digits spell. -/
def ofDecimal (digits : List Char) : Nat :=
  digits.foldl (fun n c => n * 10 + (c.toNat - 48)) 0

/-- The most decimal digits of which a number is read or written on behalf of a caller. -/
def maxDigits : Nat :=
  4300

/-- Whether a number has more decimal digits than that. -/
def isLong (n : Nat) : Bool :=
  Nat.pow 10 maxDigits ≤ n

/-- Whether a text is the decimal form of a number. -/
def canonicalDigits (text : List Char) : Bool :=
  match text with
  | [] => false
  | '0' :: rest => rest.isEmpty
  | text => text.all isDigit

/-! ### Blanks -/

/-- Whether a character is white space. The blanks and line separators of Unicode are, and the
control characters that separate lines, fields, records, groups and files. A zero width space and a
byte order mark are not. -/
def isBlank (c : Char) : Bool :=
  let n := c.toNat
  (9 ≤ n && n ≤ 13) || (28 ≤ n && n ≤ 32) || n == 0x85 || n == 0xA0 || n == 0x1680 ||
    (0x2000 ≤ n && n ≤ 0x200A) || n == 0x2028 || n == 0x2029 || n == 0x202F || n == 0x205F ||
    n == 0x3000

/-- A text without the blanks at its two ends. -/
def strip (text : List Char) : List Char :=
  ((text.dropWhile isBlank).reverse.dropWhile isBlank).reverse

/-- Every character that the core library counts as white space is blank. -/
theorem isBlank_of_isWhitespace {c : Char} (h : c.isWhitespace = true) : isBlank c = true := by
  simp only [Char.isWhitespace, Bool.or_eq_true, decide_eq_true_eq] at h
  rcases h with ((h | h) | h) | h <;> subst h <;> decide

/-! ### Numerals -/

/-- The space, the tabulators and the characters that end a line or a page. -/
def isAsciiBlank (c : Char) : Bool :=
  c = ' ' ∨ (9 ≤ c.toNat ∧ c.toNat ≤ 13)

/-- Whether a character of a text may stand beside a numeral. -/
def isMargin (c : Char) : Bool :=
  isAsciiBlank c || (128 ≤ c.toNat && isBlank c)

/-- The zeros outside ASCII. Each is followed by the other nine digits of its script. -/
def scriptZeros : List Nat :=
  [0x660, 0x6F0, 0x7C0, 0x966, 0x9E6, 0xA66, 0xAE6, 0xB66, 0xBE6, 0xC66, 0xCE6, 0xD66, 0xDE6,
   0xE50, 0xED0, 0xF20, 0x1040, 0x1090, 0x17E0, 0x1810, 0x1946, 0x19D0, 0x1A80, 0x1A90,
   0x1B50, 0x1BB0, 0x1C40, 0x1C50, 0xA620, 0xA8D0, 0xA900, 0xA9D0, 0xA9F0, 0xAA50, 0xABF0,
   0xFF10, 0x104A0, 0x10D30, 0x11066, 0x110F0, 0x11136, 0x111D0, 0x112F0, 0x11450, 0x114D0,
   0x11650, 0x116C0, 0x11730, 0x118E0, 0x11950, 0x11C50, 0x11D50, 0x11DA0, 0x16A60, 0x16AC0,
   0x16B50, 0x1D7CE, 0x1D7D8, 0x1D7E2, 0x1D7EC, 0x1D7F6, 0x1E140, 0x1E2F0, 0x1E950, 0x1FBF0]

/-- The ASCII digit for a decimal digit of any script, and any other character as it is. -/
def plainDigit (c : Char) : Char :=
  match scriptZeros.find? fun first => first ≤ c.toNat && c.toNat < first + 10 with
  | some first => digit (c.toNat - first)
  | none => c

/-- ASCII characters are plain. -/
theorem plainDigit_of_lt {c : Char} (h : c.toNat < 128) : plainDigit c = c := by
  have high : ∀ first ∈ scriptZeros, 128 ≤ first := by decide +kernel
  have none : (scriptZeros.find? fun first => first ≤ c.toNat && c.toNat < first + 10) = none := by
    rw [List.find?_eq_none]
    intro first hfirst
    have := high first hfirst
    simp
    omega
  rw [plainDigit, none]

/-- The digits of a group, without the underscores between them. -/
def ungrouped? : List Char → Option (List Char)
  | [] => none
  | [c] => if isDigit c then some [c] else none
  | c :: '_' :: rest => if isDigit c then (ungrouped? rest).map (c :: ·) else none
  | c :: rest => if isDigit c then (ungrouped? rest).map (c :: ·) else none

/-- The sign of a numeral, whether it is negative, and its digits. -/
def numeral? (blank : Char → Bool) (text : List Char) : Option (Bool × List Char) :=
  let core := ((text.dropWhile blank).reverse.dropWhile blank).reverse
  match core with
  | '-' :: digits => (ungrouped? digits).map (true, ·)
  | '+' :: digits => (ungrouped? digits).map (false, ·)
  | digits => (ungrouped? digits).map (false, ·)

example : numeral? isMargin " -1_000\n".toList = some (true, "1000".toList) := by decide +kernel
example : numeral? isMargin ("٤٢".toList.map plainDigit) = some (false, "42".toList) := by
  decide +kernel
example : numeral? isMargin "1__0".toList = none := by decide +kernel

end Text

end HashConditions
