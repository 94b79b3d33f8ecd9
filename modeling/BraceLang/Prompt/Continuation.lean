import BraceLang.Lexer.Scanner

/-!
# Unfinished entries

While an entry is typed, the enter key either submits it or begins another line of it. An entry goes
on as long as more braces and parentheses are opened than closed, or a string is open. A text that
cannot be read counts as having an open string if its number of double quotes is odd.
-/

set_option autoImplicit false

namespace BraceLang

namespace Prompt

/-- What a token adds to the number of open braces and parentheses. -/
def opening (token : Token) : Int :=
  match token.kind with
  | .openParen | .openBrace => 1
  | .closeParen | .closeBrace => -1
  | _ => 0

/-- The number of braces and parentheses opened less those closed. -/
def balance : List Token → Int
  | [] => 0
  | token :: tokens => opening token + balance tokens

/-- The number of double quotes in a text. -/
def quoteCount (text : String) : Nat :=
  text.toList.count '"'

/-- Whether an entry has to go on. -/
def needsMore (text : String) : Bool :=
  match tokenize text with
  | .error _ => quoteCount text % 2 == 1
  | .ok tokens => 0 < balance tokens

/-- Whether a text begins with a slash, as commands do. -/
def startsWithSlash (text : String) : Bool :=
  text.toList.head? == some '/'

/-- Whether the enter key submits what has been typed. -/
def submits (buffer : String) : Bool :=
  startsWithSlash buffer || !needsMore buffer

/-- What the enter key adds to an entry that goes on. -/
def continuation : String :=
  "\n    "

/-- The entry that is submitted when pieces of text are typed after a buffer, with the enter key
after each of them; none if it is never submitted. -/
def typeInto (buffer : String) : List String → Option String
  | [] => none
  | piece :: pieces =>
    let extended := buffer ++ piece
    if submits extended then some extended else typeInto (extended ++ continuation) pieces

end Prompt

end BraceLang
