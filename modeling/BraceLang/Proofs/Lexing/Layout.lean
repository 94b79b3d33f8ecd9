import BraceLang.Proofs.Lexing.Scan

/-!
# Texts as sequences of blanks and lexemes

A text that can be read is a sequence of blanks and lexemes. An `Item` is one of the two, `written`
is the text of a sequence of them, and `tokensFrom` are the tokens of its lexemes. A sequence is
`Laid` out properly if each of its lexemes is spelled as its kind asks for, and if no lexeme that is
a run goes on in the character that follows it.

Every text is divided into such a sequence and a rest, which is empty or begins with a fault
(`divided`, `Fault.Begins`). The scanner reads the sequence (`Laid.outcome_append`) and then accepts
the text or refuses it for the fault (`Laid.outcome_eq`, `Fault.Begins.outcome_eq`), and the tokens
that it gives are those of the lexemes. Since tokens tell where their lexemes stand, no text is laid
out in two ways (`Laid.unique`).
-/

set_option autoImplicit false

namespace BraceLang

namespace Lexer

/-! ## Items -/

/-- The form of the run that a token of the kind is read from. Strings and punctuation are none:
they end by themselves. -/
def Form.ofKind? : Kind → Option Form
  | .numeral => some .number
  | .identifier | .ifWord | .whileWord | .forWord | .elseWord | .fnWord => some .word
  | .operator | .assign => some .symbol
  | .string | .openBrace | .closeBrace | .openParen | .closeParen | .comma | .block | .call
  | .endOfInput => none

/-- A part of a text: one blank character, or a lexeme that is read as a token. -/
inductive Item where
  | blank (c : Char)
  | lexeme (kind : Kind) (text : String)
  deriving DecidableEq, Repr

namespace Item

/-- An item as it stands in a text. -/
def written : Item → List Char
  | blank c => [c]
  | lexeme kind text => if kind = .string then '"' :: (text.toList ++ ['"']) else text.toList

/-- A blank is a blank character, and a lexeme is spelled as its kind. -/
def Valid : Item → Prop
  | blank c => Text.isBlank c = true
  | lexeme kind text => Spelled kind text

/-- Whether an item would go on in a character that follows it. -/
def continuedBy : Item → Char → Bool
  | blank _, _ => false
  | lexeme kind _, c => (Form.ofKind? kind).any (·.accepts c)

/-- The token of an item at a position. The offset of a string is that of the text in quotes. -/
def token? (position : Nat) : Item → Option Token
  | blank _ => none
  | lexeme kind text =>
    some ⟨kind, text, (if kind = .string then position + 1 else position : Nat), false⟩

end Item

/-- The text of a sequence of items. -/
def written (items : List Item) : List Char :=
  items.flatMap Item.written

/-- The tokens of a sequence of items that begins at a position. -/
def tokensFrom : Nat → List Item → List Token
  | _, [] => []
  | position, item :: items =>
    (item.token? position).toList ++ tokensFrom (position + item.written.length) items

/-- The kind and the text of an item that is a lexeme. -/
def Item.lexeme? : Item → Option (Kind × String)
  | blank _ => none
  | lexeme kind text => some (kind, text)

/-- The kinds and texts of the lexemes among some items. -/
def lexemes (items : List Item) : List (Kind × String) :=
  items.filterMap Item.lexeme?

/-- Items that are valid, none of which goes on in the character that follows it. -/
inductive Laid : List Item → Prop where
  | nil : Laid []
  | cons {item : Item} {items : List Item} :
      item.Valid → (∀ c ∈ (written items).head?, item.continuedBy c = false) → Laid items →
        Laid (item :: items)

@[simp] theorem written_nil : written [] = [] :=
  rfl

@[simp] theorem written_cons (item : Item) (items : List Item) :
    written (item :: items) = item.written ++ written items :=
  rfl

@[simp] theorem written_append (first second : List Item) :
    written (first ++ second) = written first ++ written second :=
  List.flatMap_append

theorem tokensFrom_append (position : Nat) (first second : List Item) :
    tokensFrom position (first ++ second) =
      tokensFrom position first ++ tokensFrom (position + (written first).length) second := by
  induction first generalizing position with
  | nil => rfl
  | cons item items ih =>
      rw [List.cons_append, tokensFrom, tokensFrom, ih, written_cons, List.length_append,
        Nat.add_assoc, List.append_assoc]

/-- The tokens of items have the kinds and the texts of the lexemes, wherever they begin. -/
theorem lexemes_tokensFrom (position : Nat) (items : List Item) :
    (tokensFrom position items).map (fun token => (token.kind, token.text)) = lexemes items := by
  induction items generalizing position with
  | nil => rfl
  | cons item items ih =>
      rw [tokensFrom, List.map_append, ih]
      cases item <;> rfl

/-! ## Spellings of runs and of other lexemes -/

theorem Form.ofKind?_of_kind? {form : Form} (isRun : form ≠ .string) {text : String} {kind : Kind}
    (found : form.kind? text = some kind) : Form.ofKind? kind = some form := by
  cases form with
  | number =>
      cases found
      rfl
  | word =>
      cases found
      show Form.ofKind? (Kind.ofWord text) = some .word
      unfold Kind.ofWord
      split <;> rfl
  | string => exact absurd rfl isRun
  | symbol =>
      simp only [Form.kind?, Kind.ofSymbol?] at found
      split at found
      · cases found
        rfl
      · obtain ⟨operator, -, rfl⟩ := Option.map_eq_some_iff.mp found
        rfl

theorem Form.ne_string_of_ofKind? {kind : Kind} {form : Form}
    (formed : Form.ofKind? kind = some form) : kind ≠ .string := by
  rintro rfl
  cases formed

theorem ofKind?_of_ofPunctuation? {c : Char} {kind : Kind}
    (found : Kind.ofPunctuation? c = some kind) :
    Form.ofKind? kind = none ∧ kind ≠ .string := by
  have all : ∀ mark ∈ marks, Form.ofKind? mark.2 = none ∧ mark.2 ≠ .string := by decide
  exact all (c, kind) (mem_marks_iff.mpr found)

theorem ofKind?_of_keyword {kind : Kind} {text : String} (member : (text, kind) ∈ keywords) :
    Form.ofKind? kind = some .word := by
  have all : ∀ keyword ∈ keywords, Form.ofKind? keyword.2 = some .word := by decide
  exact all (text, kind) member

theorem eq_text_of_ofText? {text : String} {operator : Operator}
    (known : Operator.ofText? text = some operator) : text = operator.text := by
  unfold Operator.ofText? at known
  split at known <;> cases known <;> rfl

/-- Operators are runs of symbols. -/
theorem lexeme_operator (operator : Operator) : Lexeme .symbol operator.text.toList := by
  have begun : ∃ c rest, operator.text.toList = c :: rest ∧ Form.symbol.begins c = true := by
    cases operator <;> exact ⟨_, _, rfl, rfl⟩
  refine ⟨List.all_eq_true.mp ?_, .inr begun⟩
  cases operator <;> rfl

namespace Spelled

/-- A token that is read from a run is a lexeme of the form. -/
theorem run {kind : Kind} {text : String} (spelled : Spelled kind text) {form : Form}
    (formed : Form.ofKind? kind = some form) :
    form ≠ .string ∧ Lexeme form text.toList ∧ form.kind? text = some kind := by
  cases spelled with
  | numeral lexeme =>
      cases formed
      exact ⟨nofun, lexeme, rfl⟩
  | string _ => cases formed
  | keyword member =>
      rw [ofKind?_of_keyword member] at formed
      cases formed
      exact ⟨nofun, lexeme_of_keyword member, congrArg some (ofWord_of_keyword member)⟩
  | identifier lexeme other =>
      cases formed
      exact ⟨nofun, lexeme, congrArg some (ofWord_of_identifier other)⟩
  | assign =>
      cases formed
      exact ⟨nofun, ⟨List.all_eq_true.mp rfl, .inr ⟨'=', [], rfl, rfl⟩⟩, rfl⟩
  | operator member =>
      cases formed
      obtain ⟨operator, known⟩ := mem_operators_iff.mp member
      rw [eq_text_of_ofText? known]
      exact ⟨nofun, lexeme_operator operator, by cases operator <;> rfl⟩
  | punctuation member =>
      rw [(ofKind?_of_ofPunctuation? (mem_marks_iff.mp member)).1] at formed
      cases formed

/-- A token that is not read from a run is a string or punctuation. -/
theorem mark {kind : Kind} {text : String} (spelled : Spelled kind text)
    (formed : Form.ofKind? kind = none) :
    (kind = .string ∧ '"' ∉ text.toList) ∨
      kind ≠ .string ∧ ∃ c, Kind.ofPunctuation? c = some kind ∧ text = c.toString := by
  cases spelled with
  | string lexeme => exact .inl ⟨rfl, (Spelled.string lexeme).unquoted rfl⟩
  | punctuation member =>
      have found := mem_marks_iff.mp member
      exact .inr ⟨(ofKind?_of_ofPunctuation? found).2, _, found, rfl⟩
  | keyword member =>
      rw [ofKind?_of_keyword member] at formed
      cases formed
  | numeral _ | identifier _ _ | assign | operator _ => cases formed

end Spelled

/-! ## Shapes of items -/

/-- An item is a single character outside of runs, a string in quotes or a run. Only a run can go on,
and it does so in what its form accepts. -/
theorem Item.Valid.shape {item : Item} (valid : item.Valid) :
    (∃ c, item.written = [c] ∧ isRunChar c = false ∧ c ≠ '"' ∧ ∀ d, item.continuedBy d = false) ∨
      (∃ text, item.written = '"' :: (text ++ ['"']) ∧ '"' ∉ text ∧
        ∀ d, item.continuedBy d = false) ∨
      ∃ form : Form, form ≠ .string ∧ Lexeme form item.written ∧
        ∀ d, item.continuedBy d = form.accepts d := by
  cases item with
  | blank c =>
      have blank : Text.isBlank c = true := valid
      refine .inl ⟨c, rfl, isRunChar_of_isBlank blank, ?_, fun _ => rfl⟩
      rintro rfl
      exact absurd blank (by decide)
  | lexeme kind text =>
      cases formed : Form.ofKind? kind with
      | some form =>
          obtain ⟨isRun, lexeme, -⟩ := Spelled.run valid formed
          have notString := Form.ne_string_of_ofKind? formed
          refine .inr (.inr ⟨form, isRun, ?_, fun d => ?_⟩)
          · rwa [written, if_neg notString]
          · rw [continuedBy, formed]
            rfl
      | none =>
          have ends (d : Char) : (Item.lexeme kind text).continuedBy d = false := by
            rw [continuedBy, formed]
            rfl
          rcases Spelled.mark valid formed with ⟨rfl, unquoted⟩ | ⟨notString, c, found, rfl⟩
          · exact .inr (.inl ⟨text.toList, rfl, unquoted, ends⟩)
          · obtain ⟨outside, -, notQuote⟩ := isRunChar_of_ofPunctuation? found
            refine .inl ⟨c, ?_, outside, notQuote, ends⟩
            rw [written, if_neg notString, Char.toString, String.toList_singleton]

/-- Items go on in characters of runs only. -/
theorem Item.Valid.not_continued {item : Item} (valid : item.Valid) {c : Char}
    (outside : isRunChar c = false) : item.continuedBy c = false := by
  obtain ⟨_, _, _, _, ends⟩ | ⟨_, _, _, ends⟩ | ⟨form, isRun, _, goesOn⟩ := valid.shape
  · exact ends c
  · exact ends c
  · rw [goesOn]
    exact Form.accepts_eq_false isRun outside

theorem Item.Valid.written_ne_nil {item : Item} (valid : item.Valid) : item.written ≠ [] := by
  obtain ⟨_, same, _⟩ | ⟨_, same, _⟩ | ⟨form, isRun, lexeme, _⟩ := valid.shape
  · rw [same]
    exact nofun
  · rw [same]
    exact nofun
  · obtain isString | ⟨c, rest, same, -⟩ := lexeme.begun
    · exact absurd isString isRun
    · rw [same]
      exact nofun

/-! ## Scanning items -/

open Scanner (outcome)

/-- The scanner reads an item and emits its token, if the item does not go on. -/
theorem outcome_item {item : Item} (valid : item.Valid) {rest : List Char}
    (apart : ∀ c ∈ rest.head?, item.continuedBy c = false) (position : Nat)
    (emitted : List Token) :
    outcome ⟨item.written ++ rest, position, .idle, emitted⟩ =
      outcome ⟨rest, position + item.written.length, .idle,
        (item.token? position).toList ++ emitted⟩ := by
  cases item with
  | blank c => exact Scanner.outcome_blank rest position emitted valid
  | lexeme kind text =>
      cases formed : Form.ofKind? kind with
      | some form =>
          obtain ⟨isRun, lexeme, found⟩ := Spelled.run valid formed
          have notString := Form.ne_string_of_ofKind? formed
          have refused : ∀ c ∈ rest.head?, form.accepts c = false := by
            intro c next
            have outside := apart c next
            rwa [Item.continuedBy, formed] at outside
          simp only [Item.written, Item.token?, if_neg notString]
          rw [Scanner.outcome_lexeme rest position emitted isRun lexeme refused]
          simp only [Scanner.close, List.reverse_reverse, String.ofList_toList, found, Except.bind]
          rfl
      | none =>
          rcases Spelled.mark valid formed with ⟨rfl, unquoted⟩ | ⟨notString, c, found, rfl⟩
          · have read := Scanner.outcome_string rest position emitted unquoted
            rw [String.ofList_toList] at read
            simp only [Item.written, Item.token?, if_true, List.cons_append, List.append_assoc,
              List.nil_append, List.length_cons, List.length_append, List.length_nil]
            exact read
          · have read := Scanner.outcome_punctuation rest position emitted found
            simp only [Item.written, Item.token?, if_neg notString]
            rw [Char.toString, String.toList_singleton]
            exact read

/-! ## First characters -/

/-- Some lexeme begins with the character. -/
def BeginsLexeme (c : Char) : Prop :=
  ∃ kind text rest, Spelled kind text ∧ (Item.lexeme kind text).written = c :: rest

/-- A lexeme is not empty: it begins a run, or it is a string or punctuation. -/
theorem Spelled.begun {kind : Kind} {text : String} (spelled : Spelled kind text) :
    ∃ c rest, (Item.lexeme kind text).written = c :: rest ∧
      (isRunChar c = true ∨ c = '"' ∨ ∃ mark, Kind.ofPunctuation? c = some mark) := by
  cases formed : Form.ofKind? kind with
  | some form =>
      obtain ⟨isRun, lexeme, -⟩ := spelled.run formed
      obtain isString | ⟨c, rest, same, begins⟩ := lexeme.begun
      · exact absurd isString isRun
      have notString := Form.ne_string_of_ofKind? formed
      refine ⟨c, rest, by rw [Item.written, if_neg notString, same], .inl ?_⟩
      exact Form.isRunChar_of_accepts isRun (Form.accepts_of_begins begins)
  | none =>
      rcases spelled.mark formed with ⟨rfl, -⟩ | ⟨notString, c, found, rfl⟩
      · exact ⟨'"', _, rfl, .inr (.inl rfl)⟩
      · refine ⟨c, [], ?_, .inr (.inr ⟨kind, found⟩)⟩
        rw [Item.written, if_neg notString, Char.toString, String.toList_singleton]

/-- Every character of symbol runs begins an operator. -/
theorem exists_operator_of_isSymbolChar {c : Char} (symbol : isSymbolChar c = true) :
    ∃ (operator : Operator) (rest : List Char), operator.text.toList = c :: rest := by
  simp only [isSymbolChar, Bool.or_eq_true, beq_iff_eq] at symbol
  rcases symbol with ((((((rfl | rfl) | rfl) | rfl) | rfl) | rfl) | rfl) | rfl
  · exact ⟨.plus, _, rfl⟩
  · exact ⟨.minus, _, rfl⟩
  · exact ⟨.times, _, rfl⟩
  · exact ⟨.divide, _, rfl⟩
  · exact ⟨.equal, _, rfl⟩
  · exact ⟨.unequal, _, rfl⟩
  · exact ⟨.both, _, rfl⟩
  · exact ⟨.either, _, rfl⟩

/-- Only a symbol run can fail to be a lexeme. -/
theorem Form.eq_symbol_of_kind?_eq_none {form : Form} {text : String}
    (unknown : form.kind? text = none) : form = .symbol := by
  cases form with
  | symbol => rfl
  | number | word | string => cases unknown

/-- Characters of runs begin lexemes. A symbol character may need another one for that. -/
theorem beginsLexeme_of_isRunChar {c : Char} (inside : isRunChar c = true) : BeginsLexeme c := by
  obtain ⟨form, isRun, begins⟩ := exists_begins inside
  cases found : form.kind? (String.ofList [c]) with
  | none =>
      obtain rfl := Form.eq_symbol_of_kind?_eq_none found
      obtain ⟨operator, rest, same⟩ := exists_operator_of_isSymbolChar begins
      have listed := mem_operators_iff.mpr ⟨operator, Operator.ofText?_text operator⟩
      exact ⟨.operator, operator.text, rest, .operator listed, same⟩
  | some kind =>
      have lexeme : Lexeme form (String.ofList [c]).toList := by
        rw [String.toList_ofList]
        refine ⟨fun d member => ?_, .inr ⟨c, [], rfl, begins⟩⟩
        rw [List.mem_singleton.mp member]
        exact Form.accepts_of_begins begins
      have notString := Form.ne_string_of_ofKind? (Form.ofKind?_of_kind? isRun found)
      refine ⟨kind, String.ofList [c], [], .of_kind? lexeme found, ?_⟩
      rw [Item.written, if_neg notString, String.toList_ofList]

/-- The characters that lexemes begin with are those of runs, the quote and punctuation. -/
theorem beginsLexeme_iff {c : Char} :
    BeginsLexeme c ↔ isRunChar c = true ∨ c = '"' ∨ ∃ mark, Kind.ofPunctuation? c = some mark := by
  refine ⟨?_, ?_⟩
  · rintro ⟨kind, text, rest, spelled, same⟩
    obtain ⟨d, others, same', starts⟩ := spelled.begun
    rw [same] at same'
    cases same'
    exact starts
  · rintro (inside | rfl | ⟨mark, found⟩)
    · exact beginsLexeme_of_isRunChar inside
    · exact ⟨.string, "", ['"'], .string ⟨nofun, .inl rfl⟩, rfl⟩
    · refine ⟨mark, c.toString, [], .punctuation (mem_marks_iff.mpr found), ?_⟩
      rw [Item.written, if_neg (ofKind?_of_ofPunctuation? found).2, Char.toString,
        String.toList_singleton]

theorem BeginsLexeme.isBlank_eq_false {c : Char} (begins : BeginsLexeme c) :
    Text.isBlank c = false := by
  rcases beginsLexeme_iff.mp begins with inside | rfl | ⟨mark, found⟩
  · rw [Bool.eq_false_iff]
    intro blank
    rw [isRunChar_of_isBlank blank] at inside
    cases inside
  · decide
  · exact (isRunChar_of_ofPunctuation? found).2.1

/-- A lexeme does not begin with a blank. -/
theorem Spelled.head_written {kind : Kind} {text : String} (spelled : Spelled kind text) :
    ∃ c rest, (Item.lexeme kind text).written = c :: rest ∧ Text.isBlank c = false := by
  obtain ⟨c, rest, same, -⟩ := spelled.begun
  exact ⟨c, rest, same, BeginsLexeme.isBlank_eq_false ⟨kind, text, rest, spelled, same⟩⟩

/-! ## Items before other characters -/

/-- The last of the items does not go on in what follows them. -/
def Parted (items : List Item) (rest : List Char) : Prop :=
  ∀ item ∈ items.getLast?, ∀ c ∈ rest.head?, item.continuedBy c = false

theorem Laid.valid_of_mem {items : List Item} (laid : Laid items) :
    ∀ {item : Item}, item ∈ items → item.Valid := by
  induction laid with
  | nil => exact nofun
  | cons valid _ _ ih =>
      intro item member
      rcases List.mem_cons.mp member with rfl | later
      · exact valid
      · exact ih later

/-- One more item in front is parted from the characters behind it, which are those of the next item
if there is one. -/
theorem laid_cons_parted_iff {item : Item} {items : List Item} {rest : List Char} :
    Laid (item :: items) ∧ Parted (item :: items) rest ↔
      item.Valid ∧ (∀ c ∈ (written items ++ rest).head?, item.continuedBy c = false) ∧
        Laid items ∧ Parted items rest := by
  cases items with
  | nil =>
      refine ⟨?_, ?_⟩
      · rintro ⟨laid, parted⟩
        cases laid with
        | cons valid _ _ => exact ⟨valid, parted item rfl, .nil, nofun⟩
      · rintro ⟨valid, apart, -, -⟩
        refine ⟨.cons valid nofun .nil, fun last isLast => ?_⟩
        cases isLast
        exact apart
  | cons next more =>
      have sameParted : Parted (item :: next :: more) rest ↔ Parted (next :: more) rest := by
        rw [Parted, Parted, List.getLast?_cons_cons]
      have sameHead (valid : next.Valid) :
          (written (next :: more) ++ rest).head? = (written (next :: more)).head? := by
        obtain ⟨c, others, same⟩ := List.exists_cons_of_ne_nil valid.written_ne_nil
        rw [written_cons, same]
        rfl
      refine ⟨?_, ?_⟩
      · rintro ⟨laid, parted⟩
        cases laid with
        | cons valid apart laid =>
            rw [sameHead (laid.valid_of_mem List.mem_cons_self)]
            exact ⟨valid, apart, laid, sameParted.mp parted⟩
      · rintro ⟨valid, apart, laid, parted⟩
        rw [sameHead (laid.valid_of_mem List.mem_cons_self)] at apart
        exact ⟨.cons valid apart laid, sameParted.mpr parted⟩

/-- Items are parted from characters that continue no run. -/
theorem Laid.parted {items : List Item} (laid : Laid items) {rest : List Char}
    (outside : ∀ c ∈ rest.head?, isRunChar c = false) : Parted items rest :=
  fun _ last c next =>
    (laid.valid_of_mem (List.mem_of_getLast? last)).not_continued (outside c next)

/-- **Reading a part of a text.** Items are read whatever follows them, if they do not go on in
it. -/
theorem Laid.outcome_append {items : List Item} (laid : Laid items) {rest : List Char}
    (parted : Parted items rest) (position : Nat) (emitted : List Token) :
    outcome ⟨written items ++ rest, position, .idle, emitted⟩ =
      outcome ⟨rest, position + (written items).length, .idle,
        (tokensFrom position items).reverse ++ emitted⟩ := by
  induction items generalizing position emitted with
  | nil => rfl
  | cons item items ih =>
      obtain ⟨valid, apart, laid, parted⟩ := laid_cons_parted_iff.mp ⟨laid, parted⟩
      rw [written_cons, List.append_assoc, outcome_item valid apart, ih laid parted, tokensFrom,
        List.length_append, Nat.add_assoc, List.reverse_append, List.append_assoc]
      cases item <;> rfl

/-- **Reading what is laid out.** The tokens of a text are those of its items. -/
theorem Laid.outcome_eq {items : List Item} (laid : Laid items) (position : Nat)
    (emitted : List Token) :
    outcome ⟨written items, position, .idle, emitted⟩ =
      .ok (emitted.reverse ++ (tokensFrom position items ++
        [Token.endAt (position + (written items).length : Nat)])) := by
  have parted : Parted items [] := fun _ _ _ => nofun
  have read := laid.outcome_append parted position emitted
  rw [List.append_nil] at read
  rw [read, Scanner.outcome_of_nil rfl]
  show Except.ok (Token.endAt _ :: (_ ++ emitted)).reverse = _
  rw [List.reverse_cons, List.reverse_append, List.reverse_reverse, List.append_assoc]

/-! ## Faults -/

/-- The symbols of the language. -/
def symbols : List String :=
  operators ++ ["="]

theorem ofSymbol?_eq_none_iff {text : String} :
    Kind.ofSymbol? text = none ↔ text ∉ symbols := by
  refine ⟨fun unknown member => ?_, fun outside => ?_⟩
  · have all : ∀ symbol ∈ symbols, Kind.ofSymbol? symbol ≠ none := by decide
    exact all text member unknown
  · refine Option.eq_none_iff_forall_ne_some.mpr fun kind found => outside ?_
    rw [Kind.ofSymbol?] at found
    split at found
    · next isAssign =>
        rw [isAssign]
        decide
    · obtain ⟨operator, known, -⟩ := Option.map_eq_some_iff.mp found
      rw [eq_text_of_ofText? known]
      cases operator <;> decide

/-- What a text begins with where it cannot be read: a character that is no blank and begins no
lexeme, a run of symbol characters, up to its end, that is no symbol, or a quote after which there
is no other. -/
inductive Fault.Begins : Fault → List Char → Prop where
  | invalidCharacter {c : Char} {rest : List Char} :
      Text.isBlank c = false → ¬BeginsLexeme c → Begins (.invalidCharacter c) (c :: rest)
  | invalidSymbol {run rest : List Char} :
      Lexeme .symbol run → (∀ c ∈ rest.head?, isSymbolChar c = false) →
        String.ofList run ∉ symbols → Begins (.invalidSymbol (String.ofList run)) (run ++ rest)
  | unterminatedString {rest : List Char} :
      '"' ∉ rest → Begins .unterminatedString ('"' :: rest)

/-- How far behind the beginning of a fault its offset is. An open string is reported at the offset
of its text, and the quote stands before it. -/
def Fault.lead : Fault → Nat
  | .unterminatedString => 1
  | .invalidCharacter _ | .invalidSymbol _ => 0

/-- **The scanner reports the fault that it stands before.** -/
theorem Fault.Begins.outcome_eq {fault : Fault} {rest : List Char} (begins : fault.Begins rest)
    (position : Nat) (emitted : List Token) :
    outcome ⟨rest, position, .idle, emitted⟩ =
      .error ⟨fault, position + fault.lead, emitted.reverse⟩ := by
  cases begins with
  | @invalidCharacter c rest notBlank nothing =>
      rw [beginsLexeme_iff] at nothing
      refine Scanner.outcome_invalid rest position emitted ?_ notBlank ?_ ?_
      · exact Bool.eq_false_iff.mpr fun inside => nothing (.inl inside)
      · exact fun quote => nothing (.inr (.inl quote))
      · exact Option.eq_none_iff_forall_ne_some.mpr fun mark found =>
          nothing (.inr (.inr ⟨mark, found⟩))
  | @invalidSymbol run rest lexeme refused unknown =>
      exact Scanner.outcome_unknown rest position emitted lexeme refused
        (ofSymbol?_eq_none_iff.mpr unknown)
  | unterminatedString unquoted => exact Scanner.outcome_unterminated position emitted unquoted

/-! ## Finding the items -/

/-- A text consists of items up to its end or up to a fault. -/
def Divided (characters : List Char) : Prop :=
  ∃ items rest, Laid items ∧ Parted items rest ∧ written items ++ rest = characters ∧
    (rest = [] ∨ ∃ fault : Fault, fault.Begins rest)

theorem Fault.Begins.divided {fault : Fault} {characters : List Char}
    (begins : fault.Begins characters) : Divided characters :=
  ⟨[], characters, .nil, nofun, rfl, .inr ⟨fault, begins⟩⟩

theorem Divided.cons {item : Item} (valid : item.Valid) {rest : List Char}
    (apart : ∀ c ∈ rest.head?, item.continuedBy c = false) (divided : Divided rest) :
    Divided (item.written ++ rest) := by
  obtain ⟨items, others, laid, parted, rfl, ends⟩ := divided
  obtain ⟨laid, parted⟩ := laid_cons_parted_iff.mpr ⟨valid, apart, laid, parted⟩
  exact ⟨item :: items, others, laid, parted, by rw [written_cons, List.append_assoc], ends⟩

theorem accepts_of_mem_takeWhile {accepts : Char → Bool} {characters : List Char} :
    ∀ c ∈ characters.takeWhile accepts, accepts c = true :=
  List.all_eq_true.mp List.all_takeWhile

theorem refuses_of_mem_head?_dropWhile {accepts : Char → Bool} {characters : List Char} :
    ∀ c ∈ (characters.dropWhile accepts).head?, accepts c = false := by
  intro c first
  have refused := List.head?_dropWhile_not accepts characters
  rw [Option.mem_def] at first
  rwa [first] at refused

/-- A run is read up to the first character that its form refuses. -/
theorem divided_run {form : Form} (isRun : form ≠ .string) {c : Char} {rest : List Char}
    (begins : form.begins c = true)
    (divided : Divided ((c :: rest).dropWhile form.accepts)) : Divided (c :: rest) := by
  have lexeme : Lexeme form ((c :: rest).takeWhile form.accepts) := by
    refine ⟨accepts_of_mem_takeWhile, .inr ⟨c, rest.takeWhile form.accepts, ?_, begins⟩⟩
    exact List.takeWhile_cons_of_pos (Form.accepts_of_begins begins)
  have refused := @refuses_of_mem_head?_dropWhile form.accepts (c :: rest)
  rw [← @List.takeWhile_append_dropWhile _ form.accepts (c :: rest)]
  generalize (c :: rest).takeWhile form.accepts = run at lexeme ⊢
  generalize (c :: rest).dropWhile form.accepts = following at divided refused ⊢
  cases found : form.kind? (String.ofList run) with
  | none =>
      obtain rfl := Form.eq_symbol_of_kind?_eq_none found
      exact (Fault.Begins.invalidSymbol lexeme refused (ofSymbol?_eq_none_iff.mp found)).divided
  | some kind =>
      have formed := Form.ofKind?_of_kind? isRun found
      have notString := Form.ne_string_of_ofKind? formed
      have valid : (Item.lexeme kind (String.ofList run)).Valid :=
        Spelled.of_kind? (by rwa [String.toList_ofList]) found
      have apart : ∀ c ∈ following.head?,
          (Item.lexeme kind (String.ofList run)).continuedBy c = false := by
        intro c next
        rw [Item.continuedBy, formed]
        exact refused c next
      have read := Divided.cons valid apart divided
      rwa [Item.written, if_neg notString, String.toList_ofList] at read

/-- A string is read up to the next quote, if there is one. -/
theorem divided_string {rest : List Char}
    (divided : ∀ following : List Char, following.length < rest.length → Divided following) :
    Divided ('"' :: rest) := by
  have lexeme : Lexeme .string (rest.takeWhile Form.string.accepts) :=
    ⟨accepts_of_mem_takeWhile, .inl rfl⟩
  have unquoted : '"' ∉ rest.takeWhile Form.string.accepts := fun member =>
    absurd (lexeme.accepted _ member) (by decide)
  have refused := @refuses_of_mem_head?_dropWhile Form.string.accepts rest
  have split := @List.takeWhile_append_dropWhile _ Form.string.accepts rest
  generalize rest.takeWhile Form.string.accepts = text at lexeme unquoted split
  cases after : rest.dropWhile Form.string.accepts with
  | nil =>
      rw [after, List.append_nil] at split
      subst split
      exact (Fault.Begins.unterminatedString unquoted).divided
  | cons d following =>
      rw [after] at split refused
      have quote : d = '"' := by simpa [Form.accepts] using refused d rfl
      subst split quote
      have valid : (Item.lexeme .string (String.ofList text)).Valid :=
        .string (by rwa [String.toList_ofList])
      have read := Divided.cons valid (fun _ _ => rfl) (divided following (by simp; omega))
      simpa [Item.written] using read

/-- Any other character is punctuation or refused. -/
theorem divided_other {c : Char} (outside : isRunChar c = false)
    (notBlank : Text.isBlank c = false) (notQuote : c ≠ '"') {rest : List Char}
    (divided : Divided rest) : Divided (c :: rest) := by
  cases found : Kind.ofPunctuation? c with
  | none =>
      refine (Fault.Begins.invalidCharacter notBlank ?_).divided
      rw [beginsLexeme_iff, outside, found]
      simpa using notQuote
  | some kind =>
      obtain ⟨formed, notString⟩ := ofKind?_of_ofPunctuation? found
      have valid : (Item.lexeme kind c.toString).Valid :=
        .punctuation (mem_marks_iff.mpr found)
      have apart : ∀ d ∈ rest.head?, (Item.lexeme kind c.toString).continuedBy d = false := by
        intro d _
        rw [Item.continuedBy, formed]
        rfl
      have read := Divided.cons valid apart divided
      rwa [Item.written, if_neg notString, Char.toString, String.toList_singleton] at read

/-- **Every text is divided.** By induction on its length: the first character tells what is read
first. -/
theorem divided (characters : List Char) : Divided characters := by
  induction length : characters.length using Nat.strongRecOn generalizing characters with
  | ind bound ih =>
      cases characters with
      | nil => exact ⟨[], [], .nil, nofun, rfl, .inl rfl⟩
      | cons c rest =>
          rw [List.length_cons] at length
          have shorter (following : List Char) (le : following.length ≤ rest.length) :
              Divided following :=
            ih following.length (by omega) following rfl
          cases inside : isRunChar c with
          | true =>
              obtain ⟨form, isRun, begins⟩ := exists_begins inside
              refine divided_run isRun begins (shorter _ ?_)
              rw [List.dropWhile_cons_of_pos (Form.accepts_of_begins begins)]
              exact (List.dropWhile_suffix _).length_le
          | false =>
              cases blank : Text.isBlank c with
              | true =>
                  have valid : (Item.blank c).Valid := blank
                  exact Divided.cons valid (fun _ _ => rfl) (shorter rest (Nat.le_refl _))
              | false =>
                  by_cases quote : c = '"'
                  · subst quote
                    exact divided_string fun following lt => shorter following (Nat.le_of_lt lt)
                  · exact divided_other inside blank quote (shorter rest (Nat.le_refl _))

/-- A text is laid out, or the scanner refuses it. -/
def Decided (characters : List Char) : Prop :=
  (∃ items, Laid items ∧ written items = characters) ∨
    ∀ position emitted, ∃ failure, outcome ⟨characters, position, .idle, emitted⟩ = .error failure

/-- **A text that is not laid out is refused.** -/
theorem laid_or_refused (characters : List Char) : Decided characters := by
  obtain ⟨items, rest, laid, parted, rfl, rfl | ⟨fault, begins⟩⟩ := divided characters
  · exact .inl ⟨items, laid, (List.append_nil _).symm⟩
  · refine .inr fun position emitted => ?_
    rw [laid.outcome_append parted, begins.outcome_eq]
    exact ⟨_, rfl⟩

/-! ## Uniqueness -/

/-- A text that begins with a lexeme does not begin with a blank. -/
theorem Spelled.written_append_ne {kind : Kind} {text : String} (spelled : Spelled kind text)
    {c : Char} (blank : Text.isBlank c = true) (rest others : List Char) :
    (Item.lexeme kind text).written ++ rest ≠ (Item.blank c).written ++ others := by
  obtain ⟨d, later, same, notBlank⟩ := spelled.head_written
  rw [same]
  rintro ⟨⟩
  rw [blank] at notBlank
  cases notBlank

/-- Items are determined by their text and their lexemes: the blanks before a lexeme end where it
begins. -/
theorem eq_of_lexemes {items others : List Item} (valid : ∀ item ∈ items, item.Valid)
    (also : ∀ item ∈ others, item.Valid) (same : written items = written others)
    (agree : lexemes items = lexemes others) : items = others := by
  induction items generalizing others with
  | nil =>
      cases others with
      | nil => rfl
      | cons other others =>
          have empty := (List.append_eq_nil_iff.mp same.symm).1
          exact absurd empty (also other List.mem_cons_self).written_ne_nil
  | cons item items ih =>
      obtain ⟨here, later⟩ := List.forall_mem_cons.mp valid
      cases others with
      | nil => exact absurd (List.append_eq_nil_iff.mp same).1 here.written_ne_nil
      | cons other others =>
          obtain ⟨there, further⟩ := List.forall_mem_cons.mp also
          rw [written_cons, written_cons] at same
          cases item with
          | blank c =>
              cases other with
              | blank d =>
                  obtain ⟨rfl, rest⟩ := List.cons.inj same
                  rw [ih later further rest agree]
              | lexeme kind text =>
                  exact absurd same.symm (Spelled.written_append_ne there here _ _)
          | lexeme kind text =>
              cases other with
              | blank d => exact absurd same (Spelled.written_append_ne here there _ _)
              | lexeme kind' text' =>
                  obtain ⟨⟨rfl, rfl⟩, rest⟩ : (kind = kind' ∧ text = text') ∧
                      lexemes items = lexemes others := by
                    simpa [lexemes, Item.lexeme?] using agree
                  rw [ih later further (List.append_cancel_left same) rest]

/-- **No text is laid out in two ways.** The scanner reads it in one way, and its tokens tell the
lexemes. -/
theorem Laid.unique {items others : List Item} (laid : Laid items) (also : Laid others)
    (same : written items = written others) : items = others := by
  have read := laid.outcome_eq 0 []
  rw [same, also.outcome_eq 0 []] at read
  have tokens : tokensFrom 0 others = tokensFrom 0 items :=
    List.append_cancel_right (List.append_cancel_left (Except.ok.inj read))
  refine eq_of_lexemes (fun _ => laid.valid_of_mem) (fun _ => also.valid_of_mem) same ?_
  rw [← lexemes_tokensFrom 0, ← tokens, lexemes_tokensFrom]

/-! ## Reading a text -/

theorem tokenize_eq_outcome (source : String) :
    tokenize source = outcome ⟨source.toList, 0, .idle, []⟩ :=
  rfl

/-- The tokens of a text that is laid out. -/
theorem Laid.tokenize_eq {items : List Item} (laid : Laid items) {source : String}
    (same : written items = source.toList) :
    tokenize source = .ok (tokensFrom 0 items ++ [Token.endAt source.length]) := by
  rw [tokenize_eq_outcome, ← same, laid.outcome_eq, Nat.zero_add, same, String.length_toList]
  rfl

theorem exists_laid_of_tokenize {source : String} {tokens : List Token}
    (read : tokenize source = .ok tokens) :
    ∃ items, Laid items ∧ written items = source.toList := by
  rcases laid_or_refused source.toList with laid | refused
  · exact laid
  · obtain ⟨failure, failed⟩ := refused 0 []
    rw [tokenize_eq_outcome, failed] at read
    cases read

/-- The tokens of a text are those of its lexemes. -/
theorem exists_items_of_tokenize {source : String} {tokens : List Token}
    (read : tokenize source = .ok tokens) :
    ∃ items, Laid items ∧ written items = source.toList ∧
      tokens = tokensFrom 0 items ++ [.endAt source.length] := by
  obtain ⟨items, laid, same⟩ := exists_laid_of_tokenize read
  exact ⟨items, laid, same, Except.ok.inj (read.symm.trans (laid.tokenize_eq same))⟩

/-- **The lexical grammar.** A text can be read if and only if it is a sequence of blanks and
lexemes that is laid out properly. There is one such sequence at most, and the tokens are those of
its lexemes in their order, followed by the end of input at the length of the text. -/
theorem tokenize_exact (source : String) :
    ((∃ tokens, tokenize source = .ok tokens) ↔
      ∃ items, Laid items ∧ written items = source.toList) ∧
    ∀ items, Laid items → written items = source.toList →
      tokenize source = .ok (tokensFrom 0 items ++ [Token.endAt source.length]) ∧
        ∀ others, Laid others → written others = source.toList → others = items := by
  refine ⟨⟨?_, ?_⟩, ?_⟩
  · rintro ⟨tokens, read⟩
    exact exists_laid_of_tokenize read
  · rintro ⟨items, laid, same⟩
    exact ⟨_, laid.tokenize_eq same⟩
  · intro items laid same
    refine ⟨laid.tokenize_eq same, fun others also equal => ?_⟩
    exact also.unique laid (equal.trans same.symm)

/-- A word directly before an operator, and a string directly after it and before a keyword. -/
theorem tokenize_exact_adjacent :
    let items : List Item :=
      [.lexeme .identifier "a1", .lexeme .operator "==", .lexeme .string "=", .lexeme .ifWord "if",
        .blank ' ']
    Laid items ∧ written items = "a1==\"=\"if ".toList ∧
      tokenize "a1==\"=\"if " =
        .ok [⟨.identifier, "a1", 0, false⟩, ⟨.operator, "==", 2, false⟩, ⟨.string, "=", 5, false⟩,
          ⟨.ifWord, "if", 7, false⟩, ⟨.endOfInput, "", 10, false⟩] := by
  intro items
  have laid : Laid items := by
    refine .cons (.identifier ⟨List.all_eq_true.mp rfl, .inr ⟨_, _, rfl, rfl⟩⟩ fun _ => by
      simp [keywords]) (by rintro _ ⟨⟩; rfl) ?_
    refine .cons (Spelled.operator (by decide)) (by rintro _ ⟨⟩; rfl) ?_
    refine .cons (.string ⟨List.all_eq_true.mp rfl, .inl rfl⟩) (by rintro _ ⟨⟩; rfl) ?_
    refine .cons (Spelled.keyword (by decide)) (by rintro _ ⟨⟩; rfl) ?_
    have blank : Text.isBlank ' ' = true := by decide
    exact .cons blank (by rintro _ ⟨⟩) .nil
  exact ⟨laid, rfl, ((tokenize_exact _).2 items laid rfl).1⟩

end Lexer

end BraceLang
