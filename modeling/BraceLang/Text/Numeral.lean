import BraceLang.Text.Blank

/-!
# Numerals

The reading of a decimal numeral: padding, at most one sign, then digits in which single
underscores may stand between two digits. A numeral with more than `digitLimit` digits is refused,
whatever its value, so leading zeros count and underscores do not.

Numerals may be written with the decimal digits of any script. Every script's digits stand in one
block of ten consecutive code points, zero first, so the class and the values of its members are
given by the list of zeros.
-/

set_option autoImplicit false

namespace BraceLang.Text

/-! ## Digits -/

/-- The code points of the digits zero, one per script. -/
def digitZeros : List Nat :=
  [0x0030, 0x0660, 0x06F0, 0x07C0, 0x0966, 0x09E6, 0x0A66, 0x0AE6, 0x0B66, 0x0BE6, 0x0C66,
    0x0CE6, 0x0D66, 0x0DE6, 0x0E50, 0x0ED0, 0x0F20, 0x1040, 0x1090, 0x17E0, 0x1810, 0x1946,
    0x19D0, 0x1A80, 0x1A90, 0x1B50, 0x1BB0, 0x1C40, 0x1C50, 0xA620, 0xA8D0, 0xA900, 0xA9D0,
    0xA9F0, 0xAA50, 0xABF0, 0xFF10, 0x104A0, 0x10D30, 0x11066, 0x110F0, 0x11136, 0x111D0,
    0x112F0, 0x11450, 0x114D0, 0x11650, 0x116C0, 0x11730, 0x118E0, 0x11950, 0x11C50, 0x11D50,
    0x11DA0, 0x16A60, 0x16AC0, 0x16B50, 0x1D7CE, 0x1D7D8, 0x1D7E2, 0x1D7EC, 0x1D7F6, 0x1E140,
    0x1E2F0, 0x1E950, 0x1FBF0]

/-- The value of a decimal digit of any script. -/
def digitValue? (c : Char) : Option Nat :=
  (digitZeros.find? fun first => first ≤ c.toNat && c.toNat ≤ first + 9).map (c.toNat - ·)

/-! ## Reading -/

/-- The greatest number of digits that a numeral may have. -/
def digitLimit : Nat := 4300

/-- A blank that may stand around a numeral: any but the information separators. -/
def isPadding (c : Char) : Bool :=
  isBlank c && !(0x1C ≤ c.toNat && c.toNat ≤ 0x1F)

/-- The digits that continue a numeral after one of its digits. -/
def laterDigits? : List Char → Option (List Nat)
  | [] => some []
  | '_' :: c :: rest => do
    let digit ← digitValue? c
    let digits ← laterDigits? rest
    pure (digit :: digits)
  | c :: rest => do
    let digit ← digitValue? c
    let digits ← laterDigits? rest
    pure (digit :: digits)

/-- The digits of an unsigned numeral, of which there is at least one. -/
def digits? : List Char → Option (List Nat)
  | [] => none
  | c :: rest => do
    let digit ← digitValue? c
    let digits ← laterDigits? rest
    pure (digit :: digits)

/-- The number that a sequence of decimal digits denotes. -/
def digitsValue (digits : List Nat) : Nat :=
  digits.foldl (fun value digit => 10 * value + digit) 0

/-- The value of an unsigned numeral. -/
def natural? (characters : List Char) : Option Nat := do
  let digits ← digits? characters
  if digits.length ≤ digitLimit then pure (digitsValue digits) else none

/-- The value of a numeral with an optional sign. -/
def signed? : List Char → Option Int
  | '+' :: rest => (natural? rest).map fun value => (value : Int)
  | '-' :: rest => (natural? rest).map fun value => -(value : Int)
  | characters => (natural? characters).map fun value => (value : Int)

/-- The integer that a text denotes, padding aside. -/
def integer? (text : String) : Option Int :=
  signed? (dropEnds isPadding text.toList)

end BraceLang.Text
