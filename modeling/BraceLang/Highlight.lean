import BraceLang.Lexer.Scanner
import BraceLang.Text.Lines

/-!
# Highlighting

A line is cut into fragments that together are the line: one fragment per token, in the style of its
group, and unstyled fragments for what stands between tokens. A name counts as a function if it is
called or defined, which shows in the tokens next to it. If the line cannot be read, everything from
the fault on is marked.

The lines of a document are painted when they are asked for, and each of them only once
(`Page.ask`).
-/

set_option autoImplicit false

namespace BraceLang

namespace Highlight

/-- What a token is highlighted as. -/
inductive Group where
  | keyword
  | number
  | string
  | identifier
  | function
  | operator
  | punctuation
  | error
  | plain
  deriving DecidableEq, Repr

/-- The style of a group. -/
def Group.style : Group → String
  | .keyword => "bold ansicyan"
  | .number => "ansimagenta"
  | .string => "ansigreen"
  | .function => "bold ansiyellow"
  | .error => "bold ansired"
  | .identifier | .operator | .punctuation | .plain => ""

/-- A piece of a line with its style. -/
structure Fragment where
  style : String
  text : String
  deriving DecidableEq, Repr

/-- A fragment of some characters in the style of a group. -/
def Fragment.of (group : Group) (characters : List Char) : Fragment :=
  ⟨group.style, String.ofList characters⟩

/-- The group of a kind, without regard to its neighbours. -/
def Group.ofKind : Kind → Group
  | .ifWord | .elseWord | .whileWord | .forWord | .fnWord => .keyword
  | .numeral => .number
  | .string => .string
  | .identifier => .identifier
  | .operator | .assign => .operator
  | .openParen | .closeParen | .openBrace | .closeBrace | .comma => .punctuation
  | .block | .call | .endOfInput => .plain

/-- Whether a neighbour of a token, if there is one, is of a kind. -/
def isKind (kind : Kind) : Option Token → Bool
  | some token => token.kind == kind
  | none => false

/-- The group of a token between its neighbours. -/
def groupOf (before : Option Token) (token : Token) (after : Option Token) : Group :=
  if token.kind = .identifier ∧ (isKind .openParen after ∨ isKind .fnWord before) then .function
  else .ofKind token.kind

/-- Where the text of a token begins and ends in the line; a string's quotes belong to it. -/
def span (token : Token) : Nat × Nat :=
  let length := token.text.length
  if token.kind = .string then ((token.offset - 1).toNat, (token.offset + length + 1).toNat)
  else (token.offset.toNat, (token.offset + length).toNat)

/-- An unstyled fragment, unless it would be empty. -/
def gap (characters : List Char) : List Fragment :=
  if characters.isEmpty then [] else [.of .plain characters]

/-- The fragments for the tokens that follow the token `before`, where `rest` is the line from
`position` on. A token that does not lie ahead has no fragment. -/
def paint (before : Option Token) (position : Nat) (rest : List Char) :
    List Token → List Fragment
  | [] => gap rest
  | token :: tokens =>
    let (start, stop) := span token
    if token.kind = .endOfInput ∨ start < position then paint (some token) position rest tokens
    else
      let ahead := rest.drop (start - position)
      gap (rest.take (start - position))
        ++ .of (groupOf before token tokens.head?) (ahead.take (stop - start))
        :: paint (some token) stop (ahead.drop (stop - start)) tokens

/-- The fragments of a line. -/
def line (text : String) : List Fragment :=
  let characters := text.toList
  if characters.isEmpty then [.of .plain []]
  else
    match tokenize text with
    | .error failure =>
      [.of .plain (characters.take failure.offset), .of .error (characters.drop failure.offset)]
    | .ok tokens => paint none 0 characters tokens

/-- The fragments of a line of a document; past its end the line is empty. -/
def documentLine (text : String) (number : Nat) : List Fragment :=
  line ((Text.splitLines text)[number]?.getD "")

/-! ## Lines on request -/

/-- A document of which single lines are asked for: its lines, and the fragments of those that have
been painted already. -/
structure Page where
  lines : List String
  painted : List (Nat × List Fragment)
  deriving DecidableEq, Repr

namespace Page

/-- A document of which no line has been painted. -/
def ofText (text : String) : Page :=
  ⟨Text.splitLines text, []⟩

/-- The fragments of a line and the document after the request. Past the end of the document the
line is empty. -/
def ask (page : Page) (number : Nat) : List Fragment × Page :=
  match page.painted.lookup number with
  | some fragments => (fragments, page)
  | none =>
    let fragments := line (page.lines[number]?.getD "")
    (fragments, { page with painted := (number, fragments) :: page.painted })

/-- The answers to requests that are made one after the other. -/
def askAll (page : Page) : List Nat → List (List Fragment)
  | [] => []
  | number :: numbers => (page.ask number).1 :: (page.ask number).2.askAll numbers

end Page

end Highlight

end BraceLang
