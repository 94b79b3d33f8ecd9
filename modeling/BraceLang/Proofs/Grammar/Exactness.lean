import BraceLang.Proofs.Grammar.Completeness
import BraceLang.Proofs.Grammar.Soundness

/-!
# The parser accepts exactly the grammar

A token list that is closed by its only end of input is parsed if and only if the tokens before the
end are a program, and the tree is the one that the grammar gives to them. The limit on nested
constructs is the only other reason not to parse a list, and each program is within some limit.

No program has two trees (`Program.unique`): the parser is a function, and it finds both of them.
The tree holds the literals, names, operators and words of the program in their order, with their
texts and offsets (`Program.reading_eq`).
-/

set_option autoImplicit false

namespace BraceLang

namespace Grammar

open BraceLang.Parser Effect

variable {last : Token}

/-- Programs are parsed, unless the limit is too low for them. -/
theorem Program.parseWithin_eq (closed : last.kind = .endOfInput) {tokens : List Token}
    {root : Tree} (isProgram : Program tokens root) :
    ∃ needed, ∀ depth, parseWithin depth (tokens ++ [last]) = .ok root ∨
      depth < needed ∧ ∃ token, parseWithin depth (tokens ++ [last]) = .error (.tooDeep token) := by
  obtain ⟨trees, derived, rfl⟩ := isProgram
  have stops : check .endOfInput (.before last []) = .ok true (.before last []) := by
    rw [check_before]
    have current : (Cursor.before last []).current.kind = .endOfInput := closed
    rw [decide_eq_true current]
  have going (token : Token) (more : List Token)
      (starts : Phrase.statement.startsWith token.kind = true) :
      check .endOfInput (.before last (token :: more)) =
        .ok false (.before last (token :: more)) := by
    rw [check_before, Cursor.current_before_cons]
    have inside : token.kind ≠ .endOfInput := by
      intro same
      rw [same] at starts
      cases starts
    rw [decide_eq_false inside]
  have statements := derived.complete closed (check .endOfInput) stops going (fun _ => nofun)
    (tokens.length + 1) (Nat.lt_succ_self _)
  have accepts : Accepts last program tokens (.block trees true 0) [] :=
    .step (accepts_bound tokens) (.step statements (accepts_pure _ _))
  obtain ⟨needed, accepts⟩ := accepts
  refine ⟨needed, fun depth => ?_⟩
  rw [parseWithin_append closed]
  rcases accepts depth with ran | ⟨small, token, cursor, ran⟩
  · rw [ran]
    exact .inl rfl
  · rw [ran]
    exact .inr ⟨small, token, rfl⟩

/-- **The grammar is unambiguous.** -/
theorem Program.unique {tokens : List Token} {first second : Tree} (one : Program tokens first)
    (other : Program tokens second) : first = second := by
  have closed : (⟨.endOfInput, "", 0, false⟩ : Token).kind = .endOfInput := rfl
  obtain ⟨needed, parsed⟩ := one.parseWithin_eq closed
  obtain ⟨needed', parsed'⟩ := other.parseWithin_eq closed
  rcases parsed (max needed needed') with found | ⟨small, -⟩
  · rcases parsed' (max needed needed') with found' | ⟨small, -⟩
    · exact Except.ok.inj (found.symm.trans found')
    · omega
  · omega

theorem Program.reading_eq {tokens : List Token} {root : Tree} (isProgram : Program tokens root) :
    reading root = kept tokens := by
  obtain ⟨trees, derived, rfl⟩ := isProgram
  rw [derived.kept_eq]
  simp [reading, arrange, Tree.block, kept]

/-- **Parsing is exact.** A token list with a single, final end of input has the tree `root`, within
some limit on its nesting, if and only if the tokens before the end are a program with that tree. A
fixed limit changes this only by refusing lists for too deep a nesting. No token list has two trees,
and a tree holds the literals, names, operators and words of its tokens in their order. -/
theorem parseWithin_exact (tokens : List Token) (last : Token) (closed : last.kind = .endOfInput)
    (inside : ∀ token ∈ tokens, token.kind ≠ .endOfInput) :
    (∀ root, (∃ depth, parseWithin depth (tokens ++ [last]) = .ok root) ↔ Program tokens root) ∧
      (∀ depth, (∃ token, parseWithin depth (tokens ++ [last]) = .error (.tooDeep token)) ∨
        ∀ root, parseWithin depth (tokens ++ [last]) = .ok root ↔ Program tokens root) ∧
      (∀ list first second, Program list first → Program list second → first = second) ∧
      ∀ root, Program tokens root → reading root = kept tokens := by
  refine ⟨fun root => ⟨?_, fun isProgram => ?_⟩, fun depth => ?_, ?_, ?_⟩
  · rintro ⟨depth, parsed⟩
    exact program_of_parseWithin closed inside parsed
  · obtain ⟨needed, parsed⟩ := isProgram.parseWithin_eq closed
    rcases parsed needed with found | ⟨small, -⟩
    · exact ⟨needed, found⟩
    · exact absurd small (Nat.lt_irrefl _)
  · by_cases tooDeep : ∃ token, parseWithin depth (tokens ++ [last]) = .error (.tooDeep token)
    · exact .inl tooDeep
    · refine .inr fun root => ⟨program_of_parseWithin closed inside, fun isProgram => ?_⟩
      obtain ⟨needed, parsed⟩ := isProgram.parseWithin_eq closed
      rcases parsed depth with found | ⟨-, failed⟩
      · exact found
      · exact absurd failed tooDeep
  · intro list first second one other
    exact one.unique other
  · intro root isProgram
    exact isProgram.reading_eq

/-- In `a - b - f()` the two operators group to the left, and the name before the parenthesis is a
call. -/
theorem parseWithin_exact_difference :
    Program
      [⟨.identifier, "a", 0, false⟩, ⟨.operator, "-", 2, false⟩, ⟨.identifier, "b", 4, false⟩,
        ⟨.operator, "-", 6, false⟩, ⟨.identifier, "f", 8, false⟩, ⟨.openParen, "(", 9, false⟩,
        ⟨.closeParen, ")", 10, false⟩]
      (.block [.node ⟨.operator, "-", 6, false⟩
        [.node ⟨.operator, "-", 2, false⟩
          [.leaf ⟨.identifier, "a", 0, false⟩, .leaf ⟨.identifier, "b", 4, false⟩],
          .node ⟨.call, "f", 8, false⟩ []]] true 0) :=
  ((parseWithin_exact _ ⟨.endOfInput, "", 11, false⟩ rfl (by decide)).1 _).1
    ⟨10, rfl⟩

end Grammar

end BraceLang
