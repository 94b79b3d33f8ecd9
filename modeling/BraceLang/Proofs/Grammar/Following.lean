import BraceLang.Proofs.Grammar.Derivation

/-!
# What follows a phrase

A phrase does not depend on the tokens after it, with one exception: a name at its end would be a
call if a parenthesis opened next. `Apart read rest` says that this does not happen where `rest`
follows `read`.

`Whole phrase read trees` says that some tokens are a phrase by themselves: before any tokens from
which they are apart, they have the given trees. The rules of the grammar make whole phrases out of
whole phrases. Conversely, the tokens that a phrase takes are whole, and they are apart from those
that follow it (`Derives.exists_read`).
-/

set_option autoImplicit false

namespace BraceLang

namespace Grammar

/-! ## Where two lists meet -/

/-- No parenthesis opens at the beginning of the list. -/
def Unopened (rest : List Token) : Prop :=
  ∀ next ∈ rest.head?, next.kind ≠ .openParen

theorem unopened_cons {token : Token} (other : token.kind ≠ .openParen) (rest : List Token) :
    Unopened (token :: rest) := by
  intro next member
  cases member
  exact other

/-- No name at the end of the first list comes directly before a parenthesis that opens at the
beginning of the second. -/
def Apart (read rest : List Token) : Prop :=
  ∀ name ∈ read.getLast?, name.kind = .identifier → Unopened rest

instance (rest : List Token) : Decidable (Unopened rest) :=
  inferInstanceAs (Decidable (∀ next ∈ rest.head?, _))

instance (read rest : List Token) : Decidable (Apart read rest) :=
  inferInstanceAs (Decidable (∀ name ∈ read.getLast?, _ → Unopened rest))

namespace Apart

variable {first second read rest later : List Token} {token : Token}

theorem nil (rest : List Token) : Apart [] rest :=
  fun _ => nofun

theorem of_unopened (unopened : Unopened rest) : Apart read rest :=
  fun _ _ _ => unopened

/-- Only a parenthesis that opens can be too close. -/
theorem of_head {kind : Kind} (found : token.kind = kind) (other : kind ≠ .openParen) :
    Apart read (token :: rest) :=
  of_unopened (unopened_cons (found ▸ other) rest)

/-- What comes last decides. -/
theorem of_append (apart : Apart (first ++ second) rest) : Apart second rest := by
  intro name member
  refine apart name ?_
  rw [Option.mem_def] at member
  rw [List.getLast?_append, member]
  rfl

theorem of_cons (apart : Apart (token :: read) rest) : Apart read rest :=
  @of_append [token] read rest apart

/-- What comes before a token that is no name does not matter. -/
theorem after {kind : Kind} (found : token.kind = kind) (other : kind ≠ .identifier)
    (apart : Apart read rest) : Apart (first ++ token :: read) rest := by
  intro name member isName
  cases read with
  | nil =>
      rw [List.getLast?_concat] at member
      cases member
      exact absurd (found.symm.trans isName) other
  | cons head tail =>
      rw [List.getLast?_append, List.getLast?_cons_cons] at member
      refine apart name ?_ isName
      rw [List.getLast?_cons] at member ⊢
      exact member

theorem concat {kind : Kind} (found : token.kind = kind) (other : kind ≠ .identifier)
    (rest : List Token) : Apart (first ++ [token]) rest :=
  after found other (nil rest)

theorem append (one : Apart first (second ++ rest)) (other : Apart second rest) :
    Apart (first ++ second) rest := by
  cases second with
  | nil =>
      rw [List.append_nil]
      exact one
  | cons head tail =>
      intro name member
      refine other name ?_
      rw [List.getLast?_append, List.getLast?_cons] at member
      rw [List.getLast?_cons]
      exact member

/-- Two lists stay apart where they meet, if what follows both of them changes. -/
theorem bridge (apart : Apart first (second ++ rest)) (whole : Apart (first ++ second) later) :
    Apart first (second ++ later) := by
  cases second with
  | nil =>
      rw [List.append_nil] at whole
      exact whole
  | cons head tail => exact apart

end Apart

/-! ## Whole phrases -/

/-- The tokens are a phrase with the given trees, before any tokens from which they are apart. -/
def Whole (phrase : Phrase) (read : List Token) (trees : List Tree) : Prop :=
  ∀ rest, Apart read rest → Derives phrase (read ++ rest) trees rest

namespace Whole

section Rules

variable {word named sign opening closing otherwise comma token : Token}
  {read condition positive negative left right value list body others : List Token}
  {tree question branch branch' first second : Tree} {trees : List Tree}

theorem noStatement : Whole .statements [] [] :=
  fun rest _ => .noStatement rest

theorem nextStatement (one : Whole .statement read [tree]) (more : Whole .statements others trees)
    (between : ∀ rest, Apart (read ++ others) rest → Apart read (others ++ rest)) :
    Whole .statements (read ++ others) (tree :: trees) := by
  intro rest apart
  rw [List.append_assoc]
  exact .nextStatement (one _ (between rest apart)) (more rest apart.of_append)

/-- A condition with one branch, or a loop. -/
theorem guarded (isWord : word.kind = .ifWord ∨ word.kind = .whileWord)
    (isOpening : opening.kind = .openParen) (asks : Whole .expression condition [question])
    (isClosing : closing.kind = .closeParen) (runs : Whole (.block true) positive [branch]) :
    Whole .statement (word :: opening :: condition ++ closing :: positive)
      [.node word [question, branch]] := by
  intro rest apart
  have derived := Derives.guarded isWord isOpening
    (asks (closing :: (positive ++ rest)) (.of_head isClosing (by decide))) isClosing
    (runs rest apart.of_append.of_cons)
  simpa using derived

theorem alternative (isWord : word.kind = .ifWord) (isOpening : opening.kind = .openParen)
    (asks : Whole .expression condition [question]) (isClosing : closing.kind = .closeParen)
    (runs : Whole (.block true) positive [branch]) (isElse : otherwise.kind = .elseWord)
    (runs' : Whole (.block true) negative [branch']) :
    Whole .statement
      (word :: opening :: condition ++ closing :: positive ++ otherwise :: negative)
      [.node word [question, branch, branch']] := by
  intro rest apart
  have derived := Derives.alternative isWord isOpening
    (asks (closing :: (positive ++ otherwise :: (negative ++ rest)))
      (.of_head isClosing (by decide))) isClosing
    (runs (otherwise :: (negative ++ rest)) (.of_head isElse (by decide))) isElse
    (runs' rest apart.of_append.of_cons)
  simpa using derived

theorem nullaryDefinition (isWord : word.kind = .fnWord) (isName : named.kind = .identifier)
    (isOpening : opening.kind = .openParen) (isClosing : closing.kind = .closeParen)
    (runs : Whole (.block false) body [tree]) :
    Whole .statement ([word, named, opening] ++ closing :: body)
      [.node word [.leaf named, tree]] := by
  intro rest apart
  have derived := Derives.nullaryDefinition isWord isName isOpening isClosing
    (runs rest apart.of_append.of_cons)
  simpa using derived

theorem definition (isWord : word.kind = .fnWord) (isName : named.kind = .identifier)
    (isOpening : opening.kind = .openParen) (lists : Whole .parameters list trees)
    (isClosing : closing.kind = .closeParen) (runs : Whole (.block false) body [tree]) :
    Whole .statement (word :: named :: opening :: list ++ closing :: body)
      [.node word (.leaf named :: trees ++ [tree])] := by
  intro rest apart
  have derived := Derives.definition isWord isName isOpening
    (lists (closing :: (body ++ rest)) (.of_head isClosing (by decide))) isClosing
    (runs rest apart.of_append.of_cons)
  simpa using derived

theorem scope (whole : Whole (.block true) read [tree]) : Whole .statement read [tree] :=
  fun rest apart => .scope (whole rest apart)

theorem assignment (isName : named.kind = .identifier) (isSign : sign.kind = .assign)
    (whole : Whole .expression value [tree]) :
    Whole .statement ([named] ++ sign :: value) [.node sign [.leaf named, tree]] :=
  fun rest apart => .assignment isName isSign (whole rest apart.of_append.of_cons)

theorem evaluation (whole : Whole .expression read [tree]) : Whole .statement read [tree] :=
  fun rest apart => .evaluation (whole rest apart)

theorem block {opensScope : Bool} (isOpening : opening.kind = .openBrace)
    (lists : Whole .statements list trees) (isClosing : closing.kind = .closeBrace) :
    Whole (.block opensScope) (opening :: list ++ [closing])
      [.block trees opensScope opening.offset] := by
  intro rest _
  have derived := @Derives.block _ _ opensScope _ _ _ isOpening
    (lists (closing :: rest) (.of_head isClosing (by decide))) isClosing
  simpa using derived

theorem tighter {level : Nat} (whole : Whole (.terms (level + 1)) read [tree]) :
    Whole (.terms level) read [tree] :=
  fun rest apart => .tighter (whole rest apart)

theorem operation {level : Nat} (one : Whole (.terms level) left [first])
    (isOperator : sign.kind = .operator) (joins : sign.text ∈ joining level)
    (other : Whole (.terms (level + 1)) right [second]) :
    Whole (.terms level) (left ++ sign :: right) [.node sign [first, second]] := by
  intro rest apart
  have derived := Derives.operation
    (one (sign :: (right ++ rest)) (.of_head isOperator (by decide))) isOperator joins
    (other rest apart.of_append.of_cons)
  simpa using derived

theorem single (whole : Whole .operand read [tree]) : Whole (.terms 4) read [tree] :=
  fun rest apart => .single (whole rest apart)

theorem literal (isLiteral : token.kind = .numeral ∨ token.kind = .string) :
    Whole .operand [token] [.leaf token] :=
  fun _ _ => .literal isLiteral

theorem name (isName : token.kind = .identifier) : Whole .operand [token] [.leaf token] :=
  fun _ apart => .name isName (apart token rfl isName)

theorem nullaryCall (isName : named.kind = .identifier) (isOpening : opening.kind = .openParen)
    (isClosing : closing.kind = .closeParen) :
    Whole .operand ([named, opening] ++ [closing])
      [.node ⟨.call, named.text, named.offset, false⟩ []] :=
  fun _ _ => .nullaryCall isName isOpening isClosing

theorem call (isName : named.kind = .identifier) (isOpening : opening.kind = .openParen)
    (lists : Whole .arguments list trees) (isClosing : closing.kind = .closeParen) :
    Whole .operand (named :: opening :: list ++ [closing])
      [.node ⟨.call, named.text, named.offset, false⟩ trees] := by
  intro rest _
  have derived := Derives.call isName isOpening
    (lists (closing :: rest) (.of_head isClosing (by decide))) isClosing
  simpa using derived

theorem group (isOpening : opening.kind = .openParen) (whole : Whole .expression value [tree])
    (isClosing : closing.kind = .closeParen) :
    Whole .operand (opening :: value ++ [closing]) [tree] := by
  intro rest _
  have derived := Derives.group isOpening
    (whole (closing :: rest) (.of_head isClosing (by decide))) isClosing
  simpa using derived

theorem lastArgument (whole : Whole .expression read [tree]) : Whole .arguments read [tree] :=
  fun rest apart => .lastArgument (whole rest apart)

theorem nextArgument (one : Whole .expression read [tree]) (isComma : comma.kind = .comma)
    (more : Whole .arguments others trees) :
    Whole .arguments (read ++ comma :: others) (tree :: trees) := by
  intro rest apart
  have derived := Derives.nextArgument
    (one (comma :: (others ++ rest)) (.of_head isComma (by decide))) isComma
    (more rest apart.of_append.of_cons)
  simpa using derived

theorem lastParameter (isName : token.kind = .identifier) :
    Whole .parameters [token] [.leaf token] :=
  fun _ _ => .lastParameter isName

theorem nextParameter (isName : token.kind = .identifier) (isComma : comma.kind = .comma)
    (more : Whole .parameters others trees) :
    Whole .parameters (token :: comma :: others) (.leaf token :: trees) :=
  fun rest apart => .nextParameter isName isComma (more rest apart.of_cons.of_cons)

end Rules

end Whole

/-- **A phrase is whole.** It takes tokens that are apart from those that follow it, and before any
others from which they are apart they are the same phrase. -/
theorem Derives.exists_read {phrase : Phrase} {start rest : List Token} {trees : List Tree}
    (derived : Derives phrase start trees rest) :
    ∃ read, start = read ++ rest ∧ (phrase ≠ .parameters → Apart read rest) ∧
      Whole phrase read trees := by
  induction derived with
  | noStatement rest => exact ⟨[], rfl, fun _ => .nil rest, .noStatement⟩
  | nextStatement _ _ ih ihs =>
      obtain ⟨first, rfl, apart, whole⟩ := ih
      obtain ⟨others, rfl, apart', whole'⟩ := ihs
      have between := apart nofun
      exact ⟨first ++ others, by simp, fun _ => between.append (apart' nofun),
        .nextStatement whole whole' fun _ => between.bridge⟩
  | conditional isWord isOpening _ isClosing _ ih ihBlock =>
      obtain ⟨condition, rfl, -, whole⟩ := ih
      obtain ⟨block, rfl, apart, whole'⟩ := ihBlock
      exact ⟨_, by simp, fun _ => (apart nofun).after isClosing (by decide),
        .guarded (.inl isWord) isOpening whole isClosing whole'⟩
  | alternative isWord isOpening _ isClosing _ isElse _ ih ihPositive ihNegative =>
      obtain ⟨condition, rfl, -, whole⟩ := ih
      obtain ⟨positive, rfl, -, whole'⟩ := ihPositive
      obtain ⟨negative, rfl, apart, whole''⟩ := ihNegative
      exact ⟨_, by simp, fun _ => (apart nofun).after isElse (by decide),
        .alternative isWord isOpening whole isClosing whole' isElse whole''⟩
  | loop isWord isOpening _ isClosing _ ih ihBody =>
      obtain ⟨condition, rfl, -, whole⟩ := ih
      obtain ⟨block, rfl, apart, whole'⟩ := ihBody
      exact ⟨_, by simp, fun _ => (apart nofun).after isClosing (by decide),
        .guarded (.inr isWord) isOpening whole isClosing whole'⟩
  | nullaryDefinition isWord isName isOpening isClosing _ ih =>
      obtain ⟨body, rfl, apart, whole⟩ := ih
      exact ⟨_, by simp, fun _ => (apart nofun).after isClosing (by decide),
        .nullaryDefinition isWord isName isOpening isClosing whole⟩
  | definition isWord isName isOpening _ isClosing _ ihParameters ih =>
      obtain ⟨parameters, rfl, -, whole⟩ := ihParameters
      obtain ⟨body, rfl, apart, whole'⟩ := ih
      exact ⟨_, by simp, fun _ => (apart nofun).after isClosing (by decide),
        .definition isWord isName isOpening whole isClosing whole'⟩
  | scope _ ih =>
      obtain ⟨read, rfl, apart, whole⟩ := ih
      exact ⟨read, rfl, fun _ => apart nofun, whole.scope⟩
  | assignment isName isSign _ ih =>
      obtain ⟨value, rfl, apart, whole⟩ := ih
      exact ⟨_, by simp, fun _ => (apart nofun).after isSign (by decide),
        .assignment isName isSign whole⟩
  | evaluation _ ih =>
      obtain ⟨read, rfl, apart, whole⟩ := ih
      exact ⟨read, rfl, fun _ => apart nofun, whole.evaluation⟩
  | block isOpening _ isClosing ih =>
      obtain ⟨statements, rfl, -, whole⟩ := ih
      exact ⟨_, by simp, fun _ => .concat isClosing (by decide) _,
        .block isOpening whole isClosing⟩
  | tighter _ ih =>
      obtain ⟨read, rfl, apart, whole⟩ := ih
      exact ⟨read, rfl, fun _ => apart nofun, whole.tighter⟩
  | operation _ isOperator joins _ ih ihRight =>
      obtain ⟨left, rfl, -, whole⟩ := ih
      obtain ⟨right, rfl, apart, whole'⟩ := ihRight
      exact ⟨_, by simp, fun _ => (apart nofun).after isOperator (by decide),
        .operation whole isOperator joins whole'⟩
  | single _ ih =>
      obtain ⟨read, rfl, apart, whole⟩ := ih
      exact ⟨read, rfl, fun _ => apart nofun, whole.single⟩
  | @literal token rest isLiteral =>
      refine ⟨[token], rfl, fun _ => ?_, .literal isLiteral⟩
      rcases isLiteral with numeral | string
      · exact @Apart.concat [] _ _ numeral (by decide) rest
      · exact @Apart.concat [] _ _ string (by decide) rest
  | @name token rest isName alone => exact ⟨[token], rfl, fun _ _ _ _ => alone, .name isName⟩
  | nullaryCall isName isOpening isClosing =>
      exact ⟨_, by simp, fun _ => .concat isClosing (by decide) _,
        .nullaryCall isName isOpening isClosing⟩
  | call isName isOpening _ isClosing ih =>
      obtain ⟨arguments, rfl, -, whole⟩ := ih
      exact ⟨_, by simp, fun _ => .concat isClosing (by decide) _,
        .call isName isOpening whole isClosing⟩
  | group isOpening _ isClosing ih =>
      obtain ⟨inside, rfl, -, whole⟩ := ih
      exact ⟨_, by simp, fun _ => .concat isClosing (by decide) _,
        .group isOpening whole isClosing⟩
  | lastArgument _ ih =>
      obtain ⟨read, rfl, apart, whole⟩ := ih
      exact ⟨read, rfl, fun _ => apart nofun, whole.lastArgument⟩
  | nextArgument _ isComma _ ih ihs =>
      obtain ⟨first, rfl, -, whole⟩ := ih
      obtain ⟨others, rfl, apart, whole'⟩ := ihs
      exact ⟨_, by simp, fun _ => (apart nofun).after isComma (by decide),
        .nextArgument whole isComma whole'⟩
  | lastParameter isName => exact ⟨_, rfl, fun list => absurd rfl list, .lastParameter isName⟩
  | nextParameter isName isComma _ ih =>
      obtain ⟨others, rfl, -, whole⟩ := ih
      exact ⟨_, rfl, fun list => absurd rfl list, .nextParameter isName isComma whole⟩

/-- What is a phrase before some tokens is whole. -/
theorem Derives.whole {phrase : Phrase} {read rest : List Token} {trees : List Tree}
    (derived : Derives phrase (read ++ rest) trees rest) : Whole phrase read trees := by
  obtain ⟨taken, same, -, whole⟩ := derived.exists_read
  obtain rfl : read = taken := List.append_cancel_right same
  exact whole

end Grammar

end BraceLang
