import Mathlib.Control.Monad.Basic
import BraceLang.Proofs.DocumentedFailures
import BraceLang.Proofs.Evaluation.Blame
import BraceLang.Proofs.Grammar.Progress
import BraceLang.Proofs.SourceText

/-!
# Diagnostics point at the text that they name

The offset of a report lies in the text of the program, whatever goes wrong. The scanner never gets
beyond the end of the text (`step_bounded`, `run_bounded`), the parser fails at a token of the list
that it reads (`exists_mem_of_parseWithin`), and evaluation fails at a node.

Every node of a tree stands where a token of its program stands, and it has the text of that token
unless it is a block, which stands at a brace (`Derives.standsAmong`). Since faults concern the
nodes at which they are found, the name, operator or literal that a report names stands in the text
at the offset of the report.
-/

set_option autoImplicit false

namespace BraceLang

open Grammar Effect

/-! ## Reading -/

namespace Lexer

namespace Scanner

/-- The scanner has consumed as many characters as it has counted, of a text of some length, and the
lexeme that is being read begins in the text. -/
structure Within (total : Nat) (scanner : Scanner) : Prop where
  counted : scanner.position + scanner.rest.length = total
  begun : ∀ form start text, scanner.activity = .reading form start text → start ≤ total

/-- A scanner within the text, or a failure at an offset in it. -/
def Bounded (total : Nat) : Except Failure Scanner → Prop
  | .ok next => next.Within total
  | .error failure => failure.offset ≤ total

variable {total : Nat} {scanner : Scanner}

theorem close_bounded (counted : scanner.position + scanner.rest.length = total) (form : Form)
    {start : Nat} (begun : start ≤ total) (text : List Char) :
    Bounded total (scanner.close form start text) := by
  simp only [close]
  split
  · exact ⟨counted, by rintro _ _ _ ⟨⟩⟩
  · exact begun

theorem begin_bounded {c : Char} {rest : List Char} (within : scanner.Within total)
    (ahead : scanner.rest = c :: rest) (idle : scanner.activity = .idle) :
    Bounded total (scanner.begin c rest) := by
  have counted := within.counted
  have consumed : scanner.position + 1 + rest.length = total := by
    rw [ahead, List.length_cons] at counted
    omega
  have reads (form : Form) (text : List Char) :
      Within total { scanner with activity := .reading form scanner.position text } := by
    refine ⟨counted, ?_⟩
    rintro _ _ _ ⟨⟩
    omega
  unfold begin
  split
  · exact reads .number []
  split
  · exact reads .word []
  split
  · exact reads .symbol []
  split
  · exact ⟨consumed, by simp [idle]⟩
  split
  · refine ⟨consumed, ?_⟩
    rintro _ _ _ ⟨⟩
    omega
  split
  · exact ⟨consumed, by simp [idle]⟩
  · show scanner.position ≤ total
    omega

/-- **One move** stays within the text. -/
theorem step_bounded {c : Char} {rest : List Char} (within : scanner.Within total)
    (ahead : scanner.rest = c :: rest) : Bounded total (scanner.step c rest) := by
  unfold step
  split
  · next idle => exact begin_bounded within ahead idle
  · next form start text reading =>
      have begun := within.begun form start text reading
      have counted := within.counted
      have consumed : scanner.position + 1 + rest.length = total := by
        rw [ahead, List.length_cons] at counted
        omega
      unfold resume
      split
      · refine ⟨consumed, ?_⟩
        rintro _ _ _ ⟨⟩
        exact begun
      split
      · exact close_bounded consumed form begun text
      · exact close_bounded counted form begun text

/-- **A run** stays within the text. -/
theorem run_bounded (moves : Nat) (within : scanner.Within total) :
    Bounded total (run moves scanner) := by
  induction moves generalizing scanner with
  | zero => exact within
  | succ moves ih =>
      unfold run
      split
      · exact within
      · next c rest ahead =>
          have moved := step_bounded within ahead
          cases next : scanner.step c rest with
          | error failure =>
              rw [next] at moved
              exact moved
          | ok scanner' =>
              rw [next] at moved
              exact ih moved

theorem offset_le_of_finish (within : scanner.Within total) {failure : Failure}
    (refused : scanner.finish = .error failure) : failure.offset ≤ total := by
  unfold finish at refused
  split at refused
  · cases refused
  · next start text reading =>
      cases refused
      exact within.begun _ start text reading
  · next form start text _ reading =>
      have closes := close_bounded within.counted form (within.begun form start text reading) text
      cases closed : scanner.close form start text with
      | ok scanner' =>
          rw [closed] at refused
          cases refused
      | error failure' =>
          rw [closed] at refused closes
          cases refused
          exact closes

end Scanner

/-- A text is refused at an offset in it. -/
theorem offset_le_of_tokenize {source : String} {failure : Failure}
    (refused : tokenize source = .error failure) : failure.offset ≤ source.length := by
  have begins : (Scanner.start source.toList).Within source.length := by
    refine ⟨?_, fun _ _ _ => nofun⟩
    show 0 + source.toList.length = source.length
    rw [Nat.zero_add, String.length_toList]
  have bounded := Scanner.run_bounded (Scanner.start source.toList).measure begins
  unfold tokenize at refused
  cases ran : Scanner.run (Scanner.start source.toList).measure (Scanner.start source.toList) with
  | error failure' =>
      simp only [ran] at refused
      rw [ran] at bounded
      cases refused
      exact bounded
  | ok scanner =>
      simp only [ran] at refused
      rw [ran] at bounded
      exact Scanner.offset_le_of_finish bounded refused

end Lexer

/-! ## Trees -/

/-- Every node of the tree stands where a token of the list stands, and it has the text of that
token unless it is a block. -/
inductive Tree.StandsAmong (tokens : List Token) : Tree → Prop where
  | node {place token : Token} {children : List Tree} :
      token ∈ tokens → place.offset = token.offset →
        (place.kind ≠ .block → place.text = token.text) →
          (∀ child ∈ children, StandsAmong tokens child) → StandsAmong tokens (.node place children)

namespace Tree.StandsAmong

variable {tokens : List Token} {token : Token}

theorem child {tree child : Tree} (stands : tree.StandsAmong tokens)
    (member : child ∈ tree.children) : child.StandsAmong tokens := by
  cases stands with
  | node _ _ _ each => exact each child member

/-- The node that a token makes. -/
theorem of_mem (member : token ∈ tokens) {children : List Tree}
    (each : ∀ child ∈ children, child.StandsAmong tokens) :
    (Tree.node token children).StandsAmong tokens :=
  .node member rfl (fun _ => rfl) each

theorem leaf (member : token ∈ tokens) : (Tree.leaf token).StandsAmong tokens :=
  of_mem member fun _ => nofun

end Tree.StandsAmong

namespace Grammar

open List (forall_mem_cons forall_mem_singleton)

/-- **Nodes stand where tokens stand.** -/
theorem Derives.standsAmong {tokens : List Token} {phrase : Phrase} {start rest : List Token}
    {trees : List Tree} (derived : Derives phrase start trees rest)
    (all : ∀ token ∈ start, token ∈ tokens) : ∀ tree ∈ trees, tree.StandsAmong tokens := by
  induction derived with
  | noStatement rest => exact fun _ => nofun
  | nextStatement first _ ih ihs =>
      exact forall_mem_cons.mpr
        ⟨forall_mem_singleton.mp (ih all), ihs (first.forall_rest all)⟩
  | conditional _ _ condition _ _ ih ihPositive | loop _ _ condition _ _ ih ihPositive =>
      obtain ⟨word, all⟩ := forall_mem_cons.mp all
      have later := condition.forall_rest (forall_mem_cons.mp all).2
      have question := ih (forall_mem_cons.mp all).2
      have positive := ihPositive (forall_mem_cons.mp later).2
      refine forall_mem_singleton.mpr (.of_mem word ?_)
      exact forall_mem_cons.mpr ⟨forall_mem_singleton.mp question, positive⟩
  | alternative _ _ condition _ branch _ _ ih ihPositive ihNegative =>
      obtain ⟨word, all⟩ := forall_mem_cons.mp all
      have later := condition.forall_rest (forall_mem_cons.mp all).2
      have latest := branch.forall_rest (forall_mem_cons.mp later).2
      have question := forall_mem_singleton.mp (ih (forall_mem_cons.mp all).2)
      have positive := forall_mem_singleton.mp (ihPositive (forall_mem_cons.mp later).2)
      have negative := ihNegative (forall_mem_cons.mp latest).2
      refine forall_mem_singleton.mpr (.of_mem word ?_)
      exact forall_mem_cons.mpr ⟨question, forall_mem_cons.mpr ⟨positive, negative⟩⟩
  | nullaryDefinition _ _ _ _ _ ih =>
      simp only [forall_mem_cons] at all
      obtain ⟨word, name, -, -, all⟩ := all
      refine forall_mem_singleton.mpr (.of_mem word ?_)
      exact forall_mem_cons.mpr ⟨.leaf name, ih all⟩
  | definition _ _ _ parameters _ _ ihParameters ih =>
      simp only [forall_mem_cons] at all
      obtain ⟨word, name, -, all⟩ := all
      have later := parameters.forall_rest all
      have body := ih (forall_mem_cons.mp later).2
      refine forall_mem_singleton.mpr (.of_mem word ?_)
      exact List.forall_mem_append.mpr
        ⟨forall_mem_cons.mpr ⟨.leaf name, ihParameters all⟩, body⟩
  | scope _ ih | evaluation _ ih | tighter _ ih | single _ ih | lastArgument _ ih => exact ih all
  | assignment _ _ _ ih =>
      simp only [forall_mem_cons] at all
      obtain ⟨name, sign, all⟩ := all
      refine forall_mem_singleton.mpr (.of_mem sign ?_)
      exact forall_mem_cons.mpr ⟨.leaf name, ih all⟩
  | block _ _ _ ih =>
      obtain ⟨brace, all⟩ := forall_mem_cons.mp all
      exact forall_mem_singleton.mpr (.node brace rfl (absurd rfl) (ih all))
  | operation left _ _ _ ih ihRight =>
      obtain ⟨sign, later⟩ := forall_mem_cons.mp (left.forall_rest all)
      refine forall_mem_singleton.mpr (.of_mem sign ?_)
      exact forall_mem_cons.mpr ⟨forall_mem_singleton.mp (ih all), ihRight later⟩
  | literal _ | name _ _ | lastParameter _ =>
      exact forall_mem_singleton.mpr (.leaf (all _ List.mem_cons_self))
  | nullaryCall _ _ _ =>
      refine forall_mem_singleton.mpr ?_
      exact .node (all _ List.mem_cons_self) rfl (fun _ => rfl) fun _ => nofun
  | call _ _ _ _ ih =>
      simp only [forall_mem_cons] at all
      obtain ⟨name, -, all⟩ := all
      exact forall_mem_singleton.mpr (.node name rfl (fun _ => rfl) (ih all))
  | group _ _ _ ih => exact ih (forall_mem_cons.mp all).2
  | nextArgument first _ _ ih ihs =>
      have later := first.forall_rest all
      exact forall_mem_cons.mpr
        ⟨forall_mem_singleton.mp (ih all), ihs (forall_mem_cons.mp later).2⟩
  | nextParameter _ _ _ ih =>
      simp only [forall_mem_cons] at all
      obtain ⟨name, -, all⟩ := all
      exact forall_mem_cons.mpr ⟨.leaf name, ih all⟩

end Grammar

/-! ## Programs -/

/-- A text without a tree is refused at an offset in it, also if it is nested too deeply. -/
theorem offset_of_treeWithin {limits : Limits} {source : String} {failure : Failure}
    (refused : treeWithin limits source = .error failure) :
    ∃ offset, failure.diagnostic.offset = some offset ∧ 0 ≤ offset ∧ offset ≤ source.length := by
  rcases of_treeWithin_eq_error refused with ⟨reason, read, rfl⟩ | ⟨list, reason, read, built, rfl⟩
  · have bound := Lexer.offset_le_of_tokenize read
    exact ⟨reason.offset, rfl, by omega, by omega⟩
  · have stands := standsAt_of_tokenize read
    obtain ⟨tokens, place, rfl, spelled⟩ := Lexer.spelled_of_tokenize read
    have known : ∀ token ∈ tokens, token.kind = .operator →
        (Operator.ofText? token.text).isSome := by
      intro token member isOperator
      obtain ⟨operator, named⟩ := (isOperator ▸ spelled token member).known
      rw [named]
      rfl
    obtain ⟨token, member, rfl | ⟨fault, rfl⟩⟩ := exists_mem_of_parseWithin rfl known built
    · exact ⟨token.offset, rfl, (stands token member).bounds⟩
    · exact ⟨token.offset, rfl, (stands token member).bounds⟩

/-- The nodes below the root of a program stand where tokens of its text stand. -/
theorem standsAmong_of_treeWithin {limits : Limits} {source : String} {tokens : List Token}
    {root : Tree} (read : tokenize source = .ok tokens)
    (parsed : treeWithin limits source = .ok root) :
    ∀ tree ∈ root.children, tree.StandsAmong tokens := by
  obtain ⟨items, -, -, found, trees, derived, rfl⟩ := exists_program_of_treeWithin parsed
  rw [read] at found
  obtain rfl := Except.ok.inj found
  exact derived.standsAmong fun _ member => List.mem_append_left _ member

/-- An error that blames a node stands where a token stands, and it names the text of that token. -/
theorem Eval.Error.Blames.token {tokens : List Token} {error : Eval.Error}
    (blames : error.Blames (Tree.StandsAmong tokens)) :
    ∃ token ∈ tokens, token.offset = error.offset ∧
      ∀ text, error.fault.namedText? = some text → token.text = text := by
  obtain ⟨node, stands, place, concerns⟩ := blames
  cases stands with
  | @node _ token _ member offset same _ =>
      refine ⟨token, member, offset.symm.trans place.symm, fun text named => ?_⟩
      obtain ⟨plain, rfl⟩ := concerns text named
      exact (same plain).symm

/-- A program fails at the root, for too deep a nesting, or at a node below it; or a loop in it does
not end within its bound. -/
theorem blames_of_runWithin {limits : Limits} {source : String} {tokens : List Token} {root : Tree}
    (read : tokenize source = .ok tokens) (parsed : treeWithin limits source = .ok root)
    {failure : Failure}
    (failed : (runWithin limits source Context.fresh).result = .error failure) :
    failure = .evaluating .unfinished ∨ failure = .evaluating .scopeUnderflow ∨
      failure = .evaluating (.failed ⟨.recursionLimit, 0⟩) ∨
      ∃ error, failure = .evaluating (.failed error) ∧
        error.Blames (Tree.StandsAmong tokens) := by
  have below := standsAmong_of_treeWithin read parsed
  obtain ⟨trees, rfl⟩ := root_of_treeWithin parsed
  have fresh : Eval.Traceable (Tree.StandsAmong tokens) Context.fresh := fun _ _ => nofun
  have blaming : Eval.Blaming (Tree.StandsAmong tokens)
      (Eval.tree limits.rounds limits.depth (.block trees true 0)) fun _ => True :=
    Eval.tree_block_blaming (fun stands => stands.child) _ _ below true 0
  have done := blaming Context.fresh fresh
  have reported : (runWithin limits source Context.fresh).result = (Outcome.ofEval
      (Eval.reporting 0 (Eval.tree limits.rounds limits.depth (.block trees true 0)))
        Context.fresh).result := by
    rw [runWithin, evaluateWithin, parsed]
    rfl
  rw [reported] at failed
  cases ran : Eval.tree limits.rounds limits.depth (.block trees true 0) Context.fresh with
  | ok value last =>
      rw [result_ofEval_of_ok (Eval.reporting_of_ok ran 0)] at failed
      cases failed
  | error halt last =>
      rw [ran] at done
      rw [result_ofEval_of_error (Eval.reporting_of_error ran 0)] at failed
      cases failed
      cases halt with
      | failed error => exact .inr (.inr (.inr ⟨error, rfl, done.2⟩))
      | tooDeep => exact .inr (.inr (.inl rfl))
      | unfinished => exact .inl rfl
      | scopeUnderflow => exact .inr (.inl rfl)

/-- **Diagnostics point at the text that they name.** Let a program fail in a fresh context, not for
a loop that does not end. Then the report has an offset in the text. If evaluation failed, and not
for too deep a nesting, the offset is that of a token of the text. And if the fault names a text, it
is the text of that token, and it stands there: the name that is not bound, the name of the function
that is called, the operator, the literal, or the parameter that occurs twice. -/
theorem diagnostics_point_at_text (limits : Limits) (source : String) {failure : Failure}
    (failed : (runWithin limits source Context.fresh).result = .error failure)
    (ended : failure ≠ .evaluating .unfinished) :
    ∃ offset, failure.diagnostic.offset = some offset ∧ 0 ≤ offset ∧ offset ≤ source.length ∧
      ∀ error, failure = .evaluating (.failed error) → error.fault ≠ .recursionLimit →
        ∃ tokens token, tokenize source = .ok tokens ∧ token ∈ tokens ∧
          token.offset = offset ∧
          ∀ text, error.fault.namedText? = some text →
            token.text = text ∧ StandsAt source offset text := by
  cases parsed : treeWithin limits source with
  | error reason =>
      have same : (runWithin limits source Context.fresh).result = .error reason := by
        rw [runWithin, evaluateWithin, parsed]
      rw [same] at failed
      cases failed
      obtain ⟨offset, given, low, high⟩ := offset_of_treeWithin parsed
      refine ⟨offset, given, low, high, fun error evaluated => ?_⟩
      rcases of_treeWithin_eq_error parsed with ⟨_, -, rfl⟩ | ⟨_, _, -, -, rfl⟩ <;> cases evaluated
  | ok root =>
      obtain ⟨tokens, read, -⟩ := of_treeWithin_eq_ok parsed
      have documented := ((Call.run source).isDocumented limits (prepared_fresh [])).failure
        failure failed
      rcases blames_of_runWithin read parsed failed with rfl | rfl | rfl | ⟨error, rfl, blames⟩
      · exact absurd rfl ended
      · rcases documented with impossible | impossible <;> cases impossible
      · refine ⟨0, rfl, by omega, by omega, fun error same other => ?_⟩
        cases same
        exact absurd rfl other
      · obtain ⟨token, member, place, named⟩ := blames.token
        have stands := standsAt_of_tokenize read token member
        rw [place] at stands
        refine ⟨error.offset, rfl, stands.bounds.1, stands.bounds.2, ?_⟩
        rintro _ ⟨⟩ -
        refine ⟨tokens, token, read, member, place, fun text same => ?_⟩
        have own := named text same
        exact ⟨own, own ▸ stands⟩

/-- The function is called further on, but the report points at the sign of the division inside. -/
theorem diagnostics_point_at_text_division :
    let source := "fn f(x) \x7b 1 / x \x7d f(0)"
    let failure := Failure.evaluating (.failed ⟨.divisionByZero, 12⟩)
    (runWithin ⟨20, 20, 20⟩ source Context.fresh).result = .error failure ∧
      ∃ tokens token, tokenize source = .ok tokens ∧ token ∈ tokens ∧ token.offset = 12 ∧
        token.text = "/" ∧ StandsAt source 12 "/" := by
  intro source failure
  have failed : (runWithin ⟨20, 20, 20⟩ source Context.fresh).result = .error failure := by
    decide +kernel
  have ended : failure ≠ .evaluating .unfinished := by decide
  obtain ⟨_, ⟨⟩, -, -, points⟩ :=
    diagnostics_point_at_text ⟨20, 20, 20⟩ source failed ended
  obtain ⟨tokens, token, read, member, place, named⟩ := points _ rfl (by decide)
  exact ⟨failed, tokens, token, read, member, place, named "/" rfl⟩

end BraceLang
