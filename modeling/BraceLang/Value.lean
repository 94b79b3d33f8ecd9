/-!
# Values

The four types of values. Integers are kept without bound in the type: the bounds of the language
are a property of what evaluation produces, not of what a caller may store.
-/

set_option autoImplicit false

namespace BraceLang

/-- The types of values. -/
inductive ValueType where
  | integer
  | string
  | bool
  | null
  deriving DecidableEq, Repr

/-- The name of a type in messages. -/
def ValueType.name : ValueType → String
  | .integer => "INTEGER"
  | .string => "STRING"
  | .bool => "BOOL"
  | .null => "NULL"

/-- A value. -/
inductive Value where
  | null
  | integer (number : Int)
  | string (text : String)
  | bool (truth : Bool)
  deriving DecidableEq, Repr, Inhabited

namespace Value

/-- The type of a value. -/
def type : Value → ValueType
  | null => .null
  | integer _ => .integer
  | string _ => .string
  | bool _ => .bool

/-- The written form of a value. The text of a string stands between double quotes as it is. The
form of integers is meant for those of the language, which have ten digits at most; a host may
refuse to write those of several thousand digits, which only a caller can store. -/
def render : Value → String
  | null => "null"
  | integer number => toString number
  | string text => "\"" ++ text ++ "\""
  | bool truth => if truth then "true" else "false"

/-! ## The range of integers -/

/-- The least integer of the language. -/
def leastInteger : Int := -2147483648

/-- The greatest integer of the language. -/
def greatestInteger : Int := 2147483647

/-- Whether an integer is one of the language, that is, fits in 32 bits. -/
def fits (number : Int) : Bool :=
  leastInteger ≤ number && number ≤ greatestInteger

end Value

end BraceLang
