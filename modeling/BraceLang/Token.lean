import BraceLang.Text.Quoted

/-!
# Tokens

A token is a kind, the text it was read from and the offset of that text, counted in code points.
Fifteen kinds come from source text; `block` and `call` label nodes that the parser makes, and
`endOfInput` closes every token list.

Offsets are integers and the scope flag is a field of every token, because token lists and trees
need not come from a source text: whatever a caller builds by hand can be parsed, evaluated and
listed.
-/

set_option autoImplicit false

namespace BraceLang

/-! ## Kinds -/

/-- What a token is. -/
inductive Kind where
  | numeral
  | string
  | identifier
  | ifWord
  | whileWord
  | forWord
  | elseWord
  | fnWord
  | operator
  | assign
  | openBrace
  | closeBrace
  | openParen
  | closeParen
  | comma
  | block
  | call
  | endOfInput
  deriving DecidableEq, Repr, Inhabited

namespace Kind

/-- All kinds, in the order in which they are listed. -/
def all : List Kind :=
  [numeral, string, identifier, ifWord, whileWord, forWord, elseWord, fnWord, operator, assign,
    openBrace, closeBrace, openParen, closeParen, comma, block, call, endOfInput]

/-- The name of a kind in listings and messages. -/
def name : Kind → String
  | numeral => "NUMERIC"
  | string => "STRING"
  | identifier => "IDENTIFIER"
  | ifWord => "IF"
  | whileWord => "WHILE"
  | forWord => "FOR"
  | elseWord => "ELSE"
  | fnWord => "FN"
  | operator => "BINARYOP"
  | assign => "ASSIGN"
  | openBrace => "LBRACE"
  | closeBrace => "RBRACE"
  | openParen => "LPAREN"
  | closeParen => "RPAREN"
  | comma => "COMMA"
  | block => "BLOCK"
  | call => "CALL"
  | endOfInput => "EOF"

/-- The kind with a given name. -/
def ofName? (text : String) : Option Kind :=
  all.find? fun kind => kind.name == text

/-- The kind of a word: a keyword, or else an identifier. -/
def ofWord : String → Kind
  | "if" => ifWord
  | "while" => whileWord
  | "for" => forWord
  | "else" => elseWord
  | "fn" => fnWord
  | _ => identifier

/-- The kind of a punctuation character. -/
def ofPunctuation? : Char → Option Kind
  | '\x7b' => some openBrace
  | '\x7d' => some closeBrace
  | '(' => some openParen
  | ')' => some closeParen
  | ',' => some comma
  | _ => none

/-- The kinds that can begin an operand of an expression. -/
def startsOperand : Kind → Bool
  | numeral | string | identifier | openParen => true
  | _ => false

/-- The kinds of node that are statements and not expressions. -/
def isStatement : Kind → Bool
  | ifWord | whileWord | fnWord | assign | block => true
  | _ => false

end Kind

/-! ## Operators -/

/-- The binary operators of the language. -/
inductive Operator where
  | plus
  | minus
  | times
  | divide
  | equal
  | unequal
  | both
  | either
  deriving DecidableEq, Repr

namespace Operator

/-- How an operator is written. -/
def text : Operator → String
  | plus => "+"
  | minus => "-"
  | times => "*"
  | divide => "/"
  | equal => "=="
  | unequal => "!="
  | both => "&&"
  | either => "||"

/-- The operator with a given spelling. -/
def ofText? : String → Option Operator
  | "+" => some plus
  | "-" => some minus
  | "*" => some times
  | "/" => some divide
  | "==" => some equal
  | "!=" => some unequal
  | "&&" => some both
  | "||" => some either
  | _ => none

/-- Binding strength: comparisons and connectives bind loosest, products tightest. -/
def level : Operator → Nat
  | equal | unequal | both | either => 1
  | plus | minus => 2
  | times | divide => 3

/-- Reading back the spelling of an operator gives the operator. -/
theorem ofText?_text (operator : Operator) : ofText? operator.text = some operator := by
  cases operator <;> rfl

end Operator

/-- The kind of a run of symbol characters, if the run is a symbol of the language. -/
def Kind.ofSymbol? (text : String) : Option Kind :=
  if text = "=" then some .assign
  else (Operator.ofText? text).map fun _ => .operator

/-! ## Tokens -/

/-- A token with the offset of its text. The flag `opensScope` is read on `block` tokens only. -/
structure Token where
  kind : Kind
  text : String
  offset : Int
  opensScope : Bool := false
  deriving DecidableEq, Repr, Inhabited

/-- The word that listings use for a flag. -/
def flagWord (flag : Bool) : String :=
  if flag then "True" else "False"

namespace Token

/-- The token that ends a token list. -/
def endAt (offset : Int) : Token :=
  ⟨.endOfInput, "", offset, false⟩

/-- A token on one line of a listing. -/
def listing (token : Token) : String :=
  if token.kind = .block then
    "Tok(BLOCK, scoped=" ++ flagWord token.opensScope ++ ", @" ++ toString token.offset ++ ")"
  else
    "Tok(" ++ token.kind.name ++ ", " ++ Text.quote token.text ++ ", @"
      ++ toString token.offset ++ ")"

/-- A token list, one token a line. -/
def listAll (tokens : List Token) : String :=
  "\n".intercalate (tokens.map listing)

end Token

end BraceLang
