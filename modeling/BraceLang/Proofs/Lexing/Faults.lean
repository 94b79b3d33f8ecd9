import BraceLang.Proofs.Lexing.Layout

/-!
# Where a text cannot be read

The scanner may notice a fault long after the lexeme that is at fault has begun: a run of symbols
has to end first, and an open string is open up to the end of the text. Nothing is lost by that. The
text before the fault can be read by itself, and its tokens are those that had been emitted; what
follows begins with the fault that is reported (`tokenize_eq_error_iff`).

A run that is no symbol is a whole run, also on its left: if the text before it ended in a symbol
character, the run would have begun there (`Laid.parted_iff`).
-/

set_option autoImplicit false

namespace BraceLang

namespace Lexer

/-! ## Symbol characters before the fault -/

theorem isSymbolChar_of_isWordChar {c : Char} (inside : isWordChar c = true) :
    isSymbolChar c = false := by
  rw [Bool.eq_false_iff]
  intro symbol
  rw [isWordChar_of_isSymbolChar symbol] at inside
  cases inside

/-- A run with some character goes on in a symbol character if that character is a symbol, too. -/
theorem Form.accepts_symbol {form : Form} (isRun : form ≠ .string) {c d : Char}
    (accepted : form.accepts c = true) (symbol : isSymbolChar d = true) :
    form.accepts d = isSymbolChar c := by
  have notWord := isWordChar_of_isSymbolChar symbol
  cases form with
  | number =>
      have digit : isDigit c = true := accepted
      have notDigit : isDigit d = false := by
        simp only [isWordChar, Bool.or_eq_false_iff] at notWord
        exact notWord.1.2
      have inside : isWordChar c = true := by simp [isWordChar, digit]
      have notSymbol := isSymbolChar_of_isWordChar inside
      exact notDigit.trans notSymbol.symm
  | word => exact notWord.trans (isSymbolChar_of_isWordChar accepted).symm
  | string => exact absurd rfl isRun
  | symbol =>
      have also : isSymbolChar c = true := accepted
      exact symbol.trans also.symm

/-- An item goes on in a symbol character if its own last character is one. -/
theorem Item.Valid.continuedBy_symbol {item : Item} (valid : item.Valid) {d : Char}
    (symbol : isSymbolChar d = true) :
    item.continuedBy d = item.written.getLast?.any isSymbolChar := by
  obtain ⟨c, same, outside, _, ends⟩ | ⟨text, same, _, ends⟩ | ⟨form, isRun, lexeme, goesOn⟩ :=
    valid.shape
  · rw [ends, same]
    exact (begins_eq_false outside).2.2.symm
  · rw [ends, same, ← List.cons_append, List.getLast?_concat]
    rfl
  · rw [goesOn, List.getLast?_eq_some_getLast valid.written_ne_nil]
    exact Form.accepts_symbol isRun (lexeme.accepted _ (List.getLast_mem _)) symbol

/-- Items are parted from a symbol character if their text does not end in one. -/
theorem Laid.parted_iff {items : List Item} (laid : Laid items) {d : Char} {rest : List Char}
    (symbol : isSymbolChar d = true) :
    Parted items (d :: rest) ↔ ∀ c ∈ (written items).getLast?, isSymbolChar c = false := by
  rcases List.eq_nil_or_concat items with rfl | ⟨init, item, rfl⟩
  · exact ⟨fun _ => nofun, fun _ => nofun⟩
  · rw [List.concat_eq_append] at laid ⊢
    have valid : item.Valid := laid.valid_of_mem (by simp)
    have isLast := List.getLast?_eq_some_getLast valid.written_ne_nil
    have goesOn := valid.continuedBy_symbol symbol
    rw [written_append, written_cons, written_nil, List.append_nil, List.getLast?_append, Parted,
      List.getLast?_concat]
    rw [isLast] at goesOn ⊢
    simp [goesOn]

/-- What stands before a fault ends before it, unless a run of symbols is cut in two. -/
theorem Fault.Begins.parted {fault : Fault} {rest : List Char} (begins : fault.Begins rest)
    {items : List Item} (laid : Laid items)
    (cut : ∀ c ∈ (written items).getLast?, ∀ d ∈ rest.head?,
      isSymbolChar c = true → isSymbolChar d = false) : Parted items rest := by
  cases begins with
  | @invalidCharacter c rest _ nothing =>
      refine laid.parted fun d first => ?_
      cases first
      rw [Bool.eq_false_iff]
      exact fun inside => nothing (beginsLexeme_of_isRunChar inside)
  | invalidSymbol lexeme _ _ =>
      obtain isString | ⟨d, others, rfl, begins⟩ := lexeme.begun
      · cases isString
      · have symbol : isSymbolChar d = true := begins
        refine (laid.parted_iff symbol).mpr fun c last => ?_
        rw [Bool.eq_false_iff]
        intro also
        rw [cut c last d rfl also] at symbol
        cases symbol
  | unterminatedString _ =>
      refine laid.parted fun d first => ?_
      cases first
      decide

/-! ## Texts that cannot be read -/

/-- A text that is laid out up to a fault is refused for it, with the tokens of its items. -/
theorem Fault.Begins.tokenize_eq {fault : Fault} {rest : List Char} (begins : fault.Begins rest)
    {items : List Item} (laid : Laid items) (parted : Parted items rest) {source : String}
    (same : source.toList = written items ++ rest) :
    tokenize source =
      .error ⟨fault, (written items).length + fault.lead, tokensFrom 0 items⟩ := by
  rw [tokenize_eq_outcome, same, laid.outcome_append parted, begins.outcome_eq, Nat.zero_add,
    List.append_nil, List.reverse_reverse]

/-- A text that is refused is laid out up to the fault. -/
theorem exists_items_of_refused {source : String} {failure : Failure}
    (refused : tokenize source = .error failure) :
    ∃ items rest, Laid items ∧ Parted items rest ∧ source.toList = written items ++ rest ∧
      failure.fault.Begins rest ∧
      failure.offset = (written items).length + failure.fault.lead ∧
      failure.emitted = tokensFrom 0 items := by
  obtain ⟨items, rest, laid, parted, same, rfl | ⟨fault, begins⟩⟩ := divided source.toList
  · rw [List.append_nil] at same
    rw [laid.tokenize_eq same] at refused
    cases refused
  · rw [begins.tokenize_eq laid parted same.symm] at refused
    cases refused
    exact ⟨items, rest, laid, parted, same.symm, begins, rfl, rfl⟩

/-- **Failures are exact.** A text is refused with a failure if and only if it can be cut in two, at
the offset of the failure (or, for an open string, at the quote before that offset), in such a way
that the first part is read as the tokens that had been emitted, none of which ends the input, and
the second part begins with the fault: a character that is no blank and begins no lexeme, a run of
symbol characters that is none of the nine symbols and that the fault holds as a whole, or a quote
after which there is no other. A run of symbol characters is not cut in two. -/
theorem tokenize_eq_error_iff (source : String) (failure : Failure) :
    tokenize source = .error failure ↔
      ∃ before rest : List Char, source.toList = before ++ rest ∧
        failure.offset = before.length + failure.fault.lead ∧
        tokenize (String.ofList before) = .ok (failure.emitted ++ [.endAt before.length]) ∧
        (∀ token ∈ failure.emitted, token.kind ≠ .endOfInput) ∧
        failure.fault.Begins rest ∧
        ∀ c ∈ before.getLast?, ∀ d ∈ rest.head?, isSymbolChar c = true → isSymbolChar d = false := by
  refine ⟨fun refused => ?_, ?_⟩
  · obtain ⟨items, rest, laid, parted, same, begins, offset, emitted⟩ :=
      exists_items_of_refused refused
    have read : tokenize (String.ofList (written items)) =
        .ok (failure.emitted ++ [.endAt (written items).length]) := by
      rw [laid.tokenize_eq String.toList_ofList.symm, emitted, String.length_ofList]
    obtain ⟨tokens, last, list, spelled⟩ := spelled_of_tokenize read
    obtain ⟨rfl, -⟩ := List.append_inj' list rfl
    refine ⟨written items, rest, same, offset, read,
      fun token member => (spelled token member).ne_endOfInput, begins, ?_⟩
    intro c last d first also
    rw [Bool.eq_false_iff]
    intro symbol
    obtain ⟨others, rfl⟩ := List.head?_eq_some_iff.mp first
    have notSymbol := (laid.parted_iff symbol).mp parted c last
    rw [also] at notSymbol
    cases notSymbol
  · rintro ⟨before, rest, same, offset, read, -, begins, cut⟩
    obtain ⟨items, laid, writes, list⟩ := exists_items_of_tokenize read
    rw [String.toList_ofList] at writes
    obtain ⟨emitted, -⟩ := List.append_inj' list rfl
    subst writes
    rw [begins.tokenize_eq laid (begins.parted laid cut) same, ← offset, ← emitted]

/-- After a name, a blank and a string there is a run that is no symbol. -/
theorem tokenize_eq_error_iff_symbol :
    tokenize "a1 \"b\"=+(" =
      .error ⟨.invalidSymbol "=+", 6,
        [⟨.identifier, "a1", 0, false⟩, ⟨.string, "b", 4, false⟩]⟩ := by
  refine (tokenize_eq_error_iff _ _).mpr
    ⟨"a1 \"b\"".toList, "=+(".toList, rfl, rfl, rfl, by decide, ?_, ?_⟩
  · have lexeme : Lexeme .symbol ['=', '+'] :=
      ⟨List.all_eq_true.mp rfl, .inr ⟨'=', ['+'], rfl, rfl⟩⟩
    exact .invalidSymbol lexeme (by rintro c ⟨⟩; rfl) (by decide)
  · rintro c ⟨⟩ d - symbol
    cases symbol

end Lexer

end BraceLang
