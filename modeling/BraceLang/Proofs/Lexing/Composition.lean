import BraceLang.Proofs.Lexing.Faults
import BraceLang.Proofs.SourceText

/-!
# Texts cut at a blank

A blank ends whatever the scanner is reading, unless that is a string. So two texts with a blank
between them are read independently of each other. If the first can be read, then the tokens of the
whole are its tokens and, further on, those of the second, and if the second is refused then so is
the whole, for the same fault and further on (`Laid.tokenize_blank`). If the first is refused, the
whole is refused in the same way, unless a string is open at the blank.

What the scanner gives for a text does not depend on where the text begins and on the tokens that
were emitted before it (`outcome_behind`).
-/

set_option autoImplicit false

namespace BraceLang

namespace Lexer

open Scanner (outcome)

/-! ## Text behind other text -/

/-- The tokens of a text that stands behind other text, after the tokens of that text. -/
def behind (distance : Nat) (earlier tokens : List Token) : List Token :=
  earlier ++ tokens.map (Token.relocate (· + distance))

/-- A failure in a text that stands behind other text. -/
def Failure.behind (distance : Nat) (earlier : List Token) (failure : Failure) : Failure :=
  ⟨failure.fault, failure.offset + distance, Lexer.behind distance earlier failure.emitted⟩

theorem endAt_relocate (position distance : Nat) :
    (Token.endAt position).relocate (· + distance) = .endAt (distance + position : Nat) := by
  simp [Token.relocate, Token.endAt, Int.add_comm]

/-- **The scanner begins anew between two lexemes.** What it gives further on is what it gives for a
text by itself, with all offsets moved. -/
theorem outcome_behind (characters : List Char) (distance : Nat) (earlier : List Token) :
    outcome ⟨characters, distance, .idle, earlier.reverse⟩ =
      ((outcome ⟨characters, 0, .idle, []⟩).map (behind distance earlier)).mapError
        (Failure.behind distance earlier) := by
  obtain ⟨items, rest, laid, parted, rfl, ends⟩ := divided characters
  have further := tokensFrom_add 0 distance items
  rw [Nat.zero_add] at further
  rcases ends with rfl | ⟨fault, begins⟩
  · rw [List.append_nil, laid.outcome_eq, laid.outcome_eq, further, List.reverse_reverse]
    show Except.ok _ = Except.ok (behind distance earlier _)
    rw [behind, List.reverse_nil, List.nil_append, List.map_append, List.map_singleton,
      endAt_relocate, Nat.zero_add]
  · rw [laid.outcome_append parted, laid.outcome_append parted, begins.outcome_eq,
      begins.outcome_eq, further]
    show Except.error _ = Except.error (Failure.behind distance earlier _)
    rw [Failure.behind, behind, List.reverse_append, List.reverse_reverse, List.reverse_reverse,
      List.append_nil, List.reverse_reverse, Nat.zero_add,
      Nat.add_right_comm _ fault.lead distance, Nat.add_comm _ distance]

/-! ## Text before a blank -/

section Blank

variable {first second : String} {c : Char}

/-- A text behind one that can be read, with a blank between them. -/
theorem Laid.tokenize_blank {items : List Item} (laid : Laid items)
    (same : written items = first.toList) (blank : Text.isBlank c = true) :
    tokenize (first ++ c.toString ++ second) =
      ((tokenize second).map (behind (first.length + 1) (tokensFrom 0 items))).mapError
        (Failure.behind (first.length + 1) (tokensFrom 0 items)) := by
  have parted : Parted items (c :: second.toList) := by
    refine laid.parted fun d next => ?_
    cases next
    exact isRunChar_of_isBlank blank
  have whole : (first ++ c.toString ++ second).toList = written items ++ c :: second.toList := by
    simp [same, Char.toString]
  have length : 0 + (written items).length + 1 = first.length + 1 := by
    rw [same, String.length_toList, Nat.zero_add]
  rw [tokenize_eq_outcome, whole, laid.outcome_append parted, Scanner.outcome_blank _ _ _ blank,
    List.append_nil, length, outcome_behind, ← tokenize_eq_outcome]

theorem Fault.Begins.ne_nil {fault : Fault} {rest : List Char} (begins : fault.Begins rest) :
    rest ≠ [] := by
  cases begins with
  | invalidCharacter | unterminatedString => exact nofun
  | invalidSymbol lexeme =>
      obtain isString | ⟨d, others, rfl, -⟩ := lexeme.begun
      · cases isString
      · exact nofun

/-- A fault that is no open string is complete before a blank. -/
theorem Fault.Begins.append_blank {fault : Fault} {rest : List Char} (begins : fault.Begins rest)
    (complete : fault ≠ .unterminatedString) (blank : Text.isBlank c = true) (more : List Char) :
    fault.Begins (rest ++ c :: more) := by
  cases begins with
  | invalidCharacter notBlank nothing => exact .invalidCharacter notBlank nothing
  | @invalidSymbol run rest lexeme refused unknown =>
      rw [List.append_assoc]
      refine .invalidSymbol lexeme ?_ unknown
      cases rest with
      | nil =>
          intro d next
          cases next
          exact (begins_eq_false (isRunChar_of_isBlank blank)).2.2
      | cons => exact refused
  | unterminatedString => exact absurd rfl complete

/-- What was refused before a blank stays refused, and what was emitted stays the same. -/
theorem tokenize_blank_of_refused {failure : Failure} (refused : tokenize first = .error failure)
    (complete : failure.fault ≠ .unterminatedString) (blank : Text.isBlank c = true) :
    tokenize (first ++ c.toString ++ second) = .error failure := by
  obtain ⟨items, rest, laid, parted, same, begins, offset, emitted⟩ :=
    exists_items_of_refused refused
  have sameHead : (rest ++ c :: second.toList).head? = rest.head? := by
    obtain ⟨d, others, rfl⟩ := List.exists_cons_of_ne_nil begins.ne_nil
    rfl
  have stillParted : Parted items (rest ++ c :: second.toList) := by
    rw [Parted, sameHead]
    exact parted
  have whole : (first ++ c.toString ++ second).toList =
      written items ++ (rest ++ c :: second.toList) := by
    simp [same, Char.toString]
  rw [(begins.append_blank complete blank second.toList).tokenize_eq laid stillParted whole,
    ← offset, ← emitted]

end Blank

/-- **Reading is compositional at blanks.** Let a blank stand between two texts. If the first can be
read, the tokens of the whole are those of the first without its end of input, followed by those of
the second, moved by the length of the first and one; and if the second is refused, so is the whole,
for the same fault, at the offset and with the tokens that are obtained in the same way. If the
first is refused, and not for an open string, the failure of the whole is that of the first. -/
theorem tokenize_append_blank (first second : String) (c : Char)
    (blank : Text.isBlank c = true) :
    (∀ tokens, tokenize first = .ok tokens →
      tokens = tokens.dropLast ++ [.endAt first.length] ∧
      (∀ others, tokenize second = .ok others →
        tokenize (first ++ c.toString ++ second) =
          .ok (tokens.dropLast ++ others.map (Token.relocate (· + (first.length + 1 : Nat))))) ∧
      ∀ failure, tokenize second = .error failure →
        tokenize (first ++ c.toString ++ second) =
          .error ⟨failure.fault, failure.offset + (first.length + 1),
            tokens.dropLast ++
              failure.emitted.map (Token.relocate (· + (first.length + 1 : Nat)))⟩) ∧
    ∀ failure, tokenize first = .error failure → failure.fault ≠ .unterminatedString →
      tokenize (first ++ c.toString ++ second) = .error failure := by
  refine ⟨fun tokens read => ?_, fun failure refused complete =>
    tokenize_blank_of_refused refused complete blank⟩
  obtain ⟨items, laid, same, rfl⟩ := exists_items_of_tokenize read
  rw [List.dropLast_concat]
  refine ⟨rfl, fun others read' => ?_, fun failure refused => ?_⟩
  · rw [laid.tokenize_blank same blank, read']
    rfl
  · rw [laid.tokenize_blank same blank, refused]
    rfl

/-- Two texts on two lines, and a string that is open behind a line break, after a text that can be
read and after one that cannot. -/
theorem tokenize_append_blank_string :
    Text.isBlank '\n' = true ∧
      tokenize ("a+" ++ '\n'.toString ++ "b") =
        .ok [⟨.identifier, "a", 0, false⟩, ⟨.operator, "+", 1, false⟩, ⟨.identifier, "b", 3, false⟩,
          .endAt 4] ∧
      tokenize ("a+" ++ '\n'.toString ++ "b \"") =
        .error ⟨.unterminatedString, 6, [⟨.identifier, "a", 0, false⟩, ⟨.operator, "+", 1, false⟩,
          ⟨.identifier, "b", 3, false⟩]⟩ ∧
      tokenize ("a =+" ++ '\n'.toString ++ "b \"") =
        .error ⟨.invalidSymbol "=+", 2, [⟨.identifier, "a", 0, false⟩]⟩ := by
  have blank : Text.isBlank '\n' = true := by decide
  refine ⟨blank, ?_, ?_, ?_⟩
  · exact ((tokenize_append_blank "a+" "b" '\n' blank).1 _ rfl).2.1
      [⟨.identifier, "b", 0, false⟩, .endAt 1] rfl
  · exact ((tokenize_append_blank "a+" "b \"" '\n' blank).1 _ rfl).2.2
      ⟨.unterminatedString, 3, [⟨.identifier, "b", 0, false⟩]⟩ rfl
  · exact (tokenize_append_blank "a =+" "b \"" '\n' blank).2 _ rfl nofun

end Lexer

end BraceLang
