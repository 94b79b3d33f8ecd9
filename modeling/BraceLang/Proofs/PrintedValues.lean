import Mathlib.Control.Monad.Basic
import BraceLang.Proofs.Evaluation.ValueRange
import BraceLang.Proofs.Printing.RoundTrip

/-!
# Printed values read back

What is printed for a string or for an integer that is not negative is a program of one literal, and
its value is the value that was printed. Blanks around the literal make no difference, and neither
do zeros in front of a number, as long as it has no more digits than a numeral may have
(`Text.integer?_padded`).

A program of one literal is a block of one leaf (`treeWithin_literal`), so it evaluates to the value
of the leaf and leaves the context as it was (`run_leaf`). That every string and every such integer
that a program gives can be read back also needs that they are in the domain of values: no integer
is out of range, so that none has more than ten digits (`Value.length_render_le`), and no string has
a double quote (`inDomain_of_run`).
-/

set_option autoImplicit false

namespace BraceLang

open Lexer Grammar Effect

/-! ## Numbers in decimal digits -/

namespace Text

/-- The decimal digits of a number behind some zeros. -/
def padded (zeros number : Nat) : String :=
  String.ofList (List.replicate zeros '0') ++ (Value.integer number).render

theorem toList_padded (zeros number : Nat) :
    (padded zeros number).toList = List.replicate zeros '0' ++ Nat.toDigits 10 number := by
  rw [padded, String.toList_append, String.toList_ofList]
  exact congrArg _ Nat.toList_repr

theorem padded_ne_nil (zeros number : Nat) : (padded zeros number).toList ≠ [] := by
  rw [toList_padded]
  simp

theorem isDigit_of_mem_padded {zeros number : Nat} :
    ∀ c ∈ (padded zeros number).toList, isDigit c = true := by
  intro c member
  rw [toList_padded, List.mem_append] at member
  rcases member with zero | digit
  · rw [(List.mem_replicate.mp zero).2]
    decide
  · have digit := Nat.isDigit_of_mem_toDigits (by decide) (by decide) digit
    rw [isDigit_iff]
    simpa [Char.isDigit, UInt32.le_iff_toNat_le] using digit

theorem digitsValue_padded (zeros number : Nat) :
    digitsValue ((padded zeros number).toList.map digitOf) = number := by
  have folded (characters : List Char) :
      digitsValue (characters.map digitOf) = Nat.ofDigitChars 10 characters 0 := by
    rw [digitsValue, List.foldl_map, Nat.ofDigitChars_eq_foldl]
    rfl
  rw [folded, toList_padded, Nat.ofDigitChars_append, Nat.ofDigitChars_replicate_zero,
    Nat.mul_zero, Nat.ofDigitChars_ten_toDigits]

/-- **The numeral of a number denotes it**, if it is not too long. -/
theorem integer?_padded {zeros number : Nat} (short : (padded zeros number).length ≤ digitLimit) :
    integer? (padded zeros number) = some (number : Int) := by
  rw [integer?_of_digits (padded_ne_nil zeros number) isDigit_of_mem_padded, if_pos short,
    digitsValue_padded]

end Text

/-! ## Programs of one literal -/

namespace Lexer

theorem written_blanks (characters : List Char) :
    written (characters.map Item.blank) = characters := by
  rw [written, List.flatMap_map]
  exact List.flatMap_singleton' characters

theorem tokensFrom_blanks (position : Nat) (characters : List Char) :
    tokensFrom position (characters.map Item.blank) = [] := by
  induction characters generalizing position with
  | nil => rfl
  | cons c rest ih => exact ih _

/-- Blanks can stand before anything. -/
theorem Laid.after_blanks {characters : List Char}
    (blank : ∀ c ∈ characters, Text.isBlank c = true) {items : List Item} (laid : Laid items) :
    Laid (characters.map Item.blank ++ items) := by
  induction characters with
  | nil => exact laid
  | cons c rest ih =>
      obtain ⟨here, later⟩ := List.forall_mem_cons.mp blank
      have valid : (Item.blank c).Valid := here
      exact .delimited valid rfl (ih later)

/-- Blanks can stand around anything that is laid out. -/
theorem Laid.between_blanks {items : List Item} (laid : Laid items) {before behind : List Char}
    (blankBefore : ∀ c ∈ before, Text.isBlank c = true)
    (blankBehind : ∀ c ∈ behind, Text.isBlank c = true) :
    Laid (before.map Item.blank ++ (items ++ behind.map Item.blank)) := by
  have blanks : Laid (behind.map Item.blank) := by
    have laid := Laid.after_blanks blankBehind .nil
    rwa [List.append_nil] at laid
  refine .after_blanks blankBefore (laid.append blanks fun c first => ?_)
  rw [written_blanks] at first
  exact isRunChar_of_isBlank (blankBehind c (List.mem_of_head? first))

end Lexer

/-- A literal is an expression. -/
theorem derives_literal {token : Token} (isLiteral : token.kind = .numeral ∨ token.kind = .string) :
    Derives .statements [token] [.leaf token] [] :=
  .nextStatement (.evaluation (.tighter (.tighter (.tighter (.single (.literal isLiteral))))))
    (.noStatement [])

/-- **The tree of a literal between blanks** is a block with one leaf. -/
theorem treeWithin_literal {kind : Kind} (isLiteral : kind = .numeral ∨ kind = .string)
    {text : String} (spelled : Spelled kind text) {before behind : String}
    (blankBefore : Text.allBlank before = true) (blankBehind : Text.allBlank behind = true)
    {limits : Limits} (enough : 5 ≤ limits.nesting) :
    ∃ offset, treeWithin limits
      (before ++ String.ofList (Item.lexeme kind text).written ++ behind) =
        .ok (.block [.leaf ⟨kind, text, offset, false⟩] true 0) := by
  have valid : (Item.lexeme kind text).Valid := spelled
  have laid := (Laid.single valid).between_blanks (List.all_eq_true.mp blankBefore)
    (List.all_eq_true.mp blankBehind)
  have tokens : ∃ offset, tokensFrom 0 (before.toList.map Item.blank ++
      ([.lexeme kind text] ++ behind.toList.map Item.blank)) = [⟨kind, text, offset, false⟩] := by
    rw [tokensFrom_append, tokensFrom_blanks, List.singleton_append, tokensFrom, tokensFrom_blanks]
    exact ⟨_, rfl⟩
  obtain ⟨offset, tokens⟩ := tokens
  refine ⟨offset, ?_⟩
  have flat : level [⟨kind, text, offset, false⟩] = 0 := by
    rcases isLiteral with rfl | rfl <;> rfl
  have isProgram : Program [⟨kind, text, offset, false⟩]
      (.block [.leaf ⟨kind, text, offset, false⟩] true 0) :=
    ⟨_, derives_literal isLiteral, rfl⟩
  rw [← tokens] at isProgram flat
  have same : written (before.toList.map Item.blank ++
      ([.lexeme kind text] ++ behind.toList.map Item.blank)) =
        (before ++ String.ofList (Item.lexeme kind text).written ++ behind).toList := by
    simp [written_blanks]
  rcases Printing.treeWithin_of_program laid same isProgram limits with found | ⟨exceeded, -⟩
  · exact found
  · rw [flat] at exceeded
    omega

/-- A program of one leaf has the value of the leaf and leaves the context. -/
theorem run_leaf {source : String} {token : Token}
    (parsed : treeWithin {} source = .ok (.block [.leaf token] true 0)) {value : Value}
    (evaluated : ∀ bound depth context,
      Eval.tree bound (depth + 1) (.leaf token) context = .ok value context) (context : Context) :
    run source context = ⟨.ok value, context⟩ := by
  have inside : Eval.sequence (Eval.tree Eval.roundLimit 999) .null [.leaf token] context.push =
      .ok value context.push := by
    rw [Eval.sequence, bind_of_ok (evaluated _ 998 _)]
    rfl
  -- the scope of the program is closed again, and nothing was bound in it
  have ran : Eval.tree Eval.roundLimit Eval.depthLimit (.block [.leaf token] true 0) context =
      .ok value context :=
    Eval.inScope_of_ok (Eval.sequence_framed (Eval.tree_framed _ _) _ _) inside
  rw [run, runWithin, evaluateWithin, parsed]
  exact Outcome.ofEval_of_ok (Eval.reporting_of_ok ran _)

/-! ## Reading back -/

/-- A number between blanks is a program for the number. -/
theorem run_padded {zeros number : Nat} (small : (number : Int) ≤ Value.greatestInteger)
    (short : (Text.padded zeros number).length ≤ Text.digitLimit) {before behind : String}
    (blankBefore : Text.allBlank before = true) (blankBehind : Text.allBlank behind = true)
    (context : Context) :
    run (before ++ Text.padded zeros number ++ behind) context =
      ⟨.ok (.integer number), context⟩ := by
  have digits := @Text.isDigit_of_mem_padded zeros number
  have spelled : Spelled .numeral (Text.padded zeros number) := by
    obtain ⟨c, rest, same⟩ := List.exists_cons_of_ne_nil (Text.padded_ne_nil zeros number)
    refine .numeral ⟨digits, .inr ⟨c, rest, same, digits c ?_⟩⟩
    rw [same]
    exact List.mem_cons_self
  obtain ⟨offset, parsed⟩ := treeWithin_literal (.inl rfl) spelled blankBefore blankBehind
    (show 5 ≤ ({} : Limits).nesting by decide)
  have written : String.ofList (Item.lexeme .numeral (Text.padded zeros number)).written =
      Text.padded zeros number := String.ofList_toList
  rw [written] at parsed
  refine run_leaf parsed (fun bound depth context => ?_) context
  have inRange : (Value.integer number).InRange := ⟨by omega, small⟩
  have gives := @Eval.tree_literal bound depth
    (.leaf ⟨.numeral, Text.padded zeros number, offset, false⟩) rfl number
    (Text.integer?_padded short) context
  rwa [Eval.Gives, if_pos inRange] at gives

/-- A text in quotes between blanks is a program for the text. -/
theorem run_quoted {text : String} (quoteless : '"' ∉ text.toList) {before behind : String}
    (blankBefore : Text.allBlank before = true) (blankBehind : Text.allBlank behind = true)
    (context : Context) :
    run (before ++ (Value.string text).render ++ behind) context =
      ⟨.ok (.string text), context⟩ := by
  have accepted : ∀ c ∈ text.toList, Form.string.accepts c = true := by
    intro c member
    rw [Form.accepts, bne_iff_ne]
    rintro rfl
    exact quoteless member
  obtain ⟨offset, parsed⟩ := treeWithin_literal (.inr rfl) (.string ⟨accepted, .inl rfl⟩)
    blankBefore blankBehind (show 5 ≤ ({} : Limits).nesting by decide)
  have quoted : String.ofList (Item.lexeme .string text).written = (Value.string text).render := by
    rw [← String.toList_inj, String.toList_ofList]
    simp [Item.written, Value.render]
  rw [quoted] at parsed
  exact run_leaf parsed (fun _ _ _ => rfl) context

/-- A program whose value is given has a tree, which has the value. -/
theorem of_run_eq_ok {source : String} {context : Context} {value : Value}
    (ran : (run source context).result = .ok value) :
    ∃ root last, treeWithin {} source = .ok root ∧
      Eval.whole Eval.roundLimit Eval.depthLimit root context = .ok value last := by
  rw [run, runWithin, evaluateWithin] at ran
  cases parsed : treeWithin {} source with
  | error failure =>
      rw [parsed] at ran
      cases ran
  | ok root =>
      simp only [parsed] at ran
      cases evaluated : Eval.whole Eval.roundLimit Eval.depthLimit root context with
      | error halt last =>
          rw [result_ofEval_of_error evaluated] at ran
          cases ran
      | ok result last =>
          rw [result_ofEval_of_ok evaluated] at ran
          cases ran
          exact ⟨root, last, rfl, evaluated⟩

/-- **What a program gives is in the domain of values.** -/
theorem inDomain_of_run {source : String} {value : Value}
    (ran : (run source .fresh).result = .ok value) : value.InRange ∧ value.Quoteless := by
  obtain ⟨root, last, parsed, evaluated⟩ := of_run_eq_ok ran
  have listed : Eval.whole Eval.roundLimit Eval.depthLimit root ∈
      [Eval.tree Eval.roundLimit Eval.depthLimit root,
        Eval.whole Eval.roundLimit Eval.depthLimit root,
        Eval.statements Eval.roundLimit Eval.depthLimit root] :=
    List.mem_cons_of_mem _ List.mem_cons_self
  have quoteless := quoteless_of_treeWithin parsed
  refine ⟨?_, ?_⟩
  · have keeps := Eval.domain_inRange.evaluation _ _ trivial _ listed .fresh (by decide)
    exact keeps.2 value last evaluated
  · have keeps := Eval.domain_quoteless.evaluation _ _ quoteless _ listed .fresh (by decide)
    exact keeps.2 value last evaluated

/-- The digits of a number that fits in 32 bits are few. -/
theorem length_toDigits_le {number : Nat} (small : number ≤ 2147483648) :
    (Nat.toDigits 10 number).length ≤ 10 := by
  rw [Nat.length_toDigits_le_iff (by decide) (by decide)]
  omega

theorem length_padded_zero {number : Nat} (small : (number : Int) ≤ Value.greatestInteger) :
    (Text.padded 0 number).length ≤ Text.digitLimit := by
  simp only [Value.greatestInteger] at small
  rw [← String.length_toList, Text.toList_padded]
  exact Nat.le_trans (length_toDigits_le (by omega)) (by decide)

/-- **Integers are short when they are printed**: an integer of the language has ten digits at most,
and a sign. -/
theorem Value.length_render_le {number : Int} (inRange : (Value.integer number).InRange) :
    (Value.integer number).render.length ≤ 11 := by
  obtain ⟨low, high⟩ := inRange
  rw [← String.length_toList]
  cases number with
  | ofNat natural =>
      have digits : (Value.integer (Int.ofNat natural)).render.toList = Nat.toDigits 10 natural :=
        Nat.toList_repr
      have small : natural ≤ 2147483647 := Int.ofNat_le.mp high
      rw [digits]
      exact Nat.le_succ_of_le (length_toDigits_le (by omega))
  | negSucc natural =>
      have digits : (Value.integer (Int.negSucc natural)).render.toList =
          '-' :: Nat.toDigits 10 (natural + 1) := by
        rw [← Nat.toList_repr]
        exact String.toList_append
      rw [Int.negSucc_eq] at low
      rw [digits, List.length_cons]
      exact Nat.succ_le_succ (length_toDigits_le (by omega))

/-- **Printed values read back.** In every context, the decimal text of an integer of the language
that is not negative is a program for the integer, also behind zeros, if there are no more digits
than a numeral may have; and a text without a double quote, in quotes, is a program for the text.
Blanks around make no difference, and the context stays as it was. So if a program gives a string or
such an integer in a fresh context, then what is printed for it is a program for it. -/
theorem printed_values_read_back (context : Context) :
    (∀ before behind, Text.allBlank before = true → Text.allBlank behind = true →
      (∀ zeros number : Nat, (number : Int) ≤ Value.greatestInteger →
        zeros = 0 ∨ (Text.padded zeros number).length ≤ Text.digitLimit →
          run (before ++ Text.padded zeros number ++ behind) context =
            ⟨.ok (.integer number), context⟩) ∧
      ∀ text : String, '"' ∉ text.toList →
        run (before ++ (Value.string text).render ++ behind) context =
          ⟨.ok (.string text), context⟩) ∧
    ∀ source value, (run source .fresh).result = .ok value →
      value.type = .string ∨ (∃ number, value = .integer number ∧ 0 ≤ number) →
        run value.render context = ⟨.ok value, context⟩ := by
  refine ⟨fun before behind blankBefore blankBehind => ⟨?_, ?_⟩, ?_⟩
  · intro zeros number small short
    have short : (Text.padded zeros number).length ≤ Text.digitLimit := by
      rcases short with rfl | short
      · exact length_padded_zero small
      · exact short
    exact run_padded small short blankBefore blankBehind context
  · intro text quoteless
    exact run_quoted quoteless blankBefore blankBehind context
  · intro source value ran printable
    obtain ⟨inRange, quoteless⟩ := inDomain_of_run ran
    have alone (text : String) : "" ++ text ++ "" = text := by
      rw [String.append_empty, String.empty_append]
    cases value with
    | string text =>
        have read := @run_quoted text quoteless "" "" rfl rfl context
        rwa [alone] at read
    | integer number =>
        obtain isString | ⟨_, ⟨⟩, nonneg⟩ := printable
        · cases isString
        · obtain ⟨natural, rfl⟩ := Int.eq_ofNat_of_zero_le nonneg
          have small : (natural : Int) ≤ Value.greatestInteger := inRange.2
          have read := @run_padded 0 natural small (length_padded_zero small) "" "" rfl rfl context
          rwa [alone, Text.padded, List.replicate_zero, String.ofList_nil, String.empty_append]
            at read
    | null | bool _ =>
        obtain isString | ⟨_, ⟨⟩, -⟩ := printable
        cases isString

/-- The greatest integer behind zeros and between blanks, a string with a brace in it, and the sum
of two strings. -/
theorem printed_values_read_back_greatest :
    let context := Context.fresh.setVariable "x" (.integer (-1))
    run "\t0002147483647\n" context = ⟨.ok (.integer 2147483647), context⟩ ∧
      run " \"a \x7b\"" context = ⟨.ok (.string "a \x7b"), context⟩ ∧
      (run "\"a\" + \"b\"" .fresh).result = .ok (.string "ab") ∧
      run "\"ab\"" context = ⟨.ok (.string "ab"), context⟩ := by
  intro context
  obtain ⟨literals, values⟩ := printed_values_read_back context
  have sum : (run "\"a\" + \"b\"" .fresh).result = .ok (.string "ab") := by decide +kernel
  have numeral : "\t" ++ Text.padded 3 2147483647 ++ "\n" = "\t0002147483647\n" := by
    decide +kernel
  have quoted : " " ++ (Value.string "a \x7b").render ++ "" = " \"a \x7b\"" := by decide +kernel
  have printed : (Value.string "ab").render = "\"ab\"" := by decide +kernel
  refine ⟨?_, ?_, sum, ?_⟩
  · rw [← numeral]
    exact (literals "\t" "\n" (by decide) (by decide)).1 3 2147483647 (by decide)
      (.inr (by decide +kernel))
  · rw [← quoted]
    exact (literals " " "" (by decide) (by decide)).2 "a \x7b" (by decide)
  · rw [← printed]
    exact values _ _ sum (.inl rfl)

end BraceLang
