import BraceLang.Prompt.Session
import BraceLang.Proofs.LayoutIndependence
import BraceLang.Proofs.UnfinishedEntries

/-!
# Entries without their invisible characters

The prompt takes some characters out of an entry before it is evaluated. Two of them, the no-break
space and the carriage return, are blanks, and the others cannot be read outside of strings. So the
program that is evaluated may differ from the text that was typed.

If the text can be read and has none of these characters inside a string, then what is taken out are
blanks between lexemes (`written_visible`). The lexemes stay as they are, unless one of them runs
into the next: where a run was parted from the next lexeme by such blanks alone and would go on in
it, the two are joined (`Joined`). Exactly then the tokens change.

The enter key looks at the text as it was typed. It decides as it would for the entry that is
evaluated whenever both of them can be read, because brackets outside of strings are not taken out
(`balance_of_tokenize`), and whenever neither can be read, because quotes are not taken out either.
So the two decisions differ only where exactly one of the texts can be read.
-/

set_option autoImplicit false

namespace BraceLang

open Lexer

namespace Prompt

/-! ## Invisible characters -/

/-- No invisible character is part of a lexeme outside of strings. -/
theorem isRunChar_of_isInvisible {c : Char} (invisible : isInvisible c = true) :
    isRunChar c = false ∧ c ≠ '"' ∧ Kind.ofPunctuation? c = none := by
  simp only [isInvisible, Bool.or_eq_true, beq_iff_eq] at invisible
  rcases invisible with ((((rfl | rfl) | rfl) | rfl) | rfl) | rfl <;> decide

theorem toList_normalise (text : String) :
    (normalise text).toList = text.toList.filter fun c => !isInvisible c :=
  String.toList_ofList

/-! ## Visible items -/

/-- Whether an item is anything but an invisible blank. -/
def isVisible : Item → Bool
  | .blank c => !isInvisible c
  | .lexeme _ _ => true

/-- An item that is no string with an invisible character inside. -/
def Clear : Item → Prop
  | .blank _ => True
  | .lexeme kind text => kind = .string → ∀ c ∈ text.toList, isInvisible c = false

/-- The characters of a lexeme can be seen, unless it is a string and they are inside of it. -/
theorem isInvisible_of_mem_written {kind : Kind} {text : String} (spelled : Spelled kind text)
    (clear : Clear (.lexeme kind text)) :
    ∀ c ∈ (Item.lexeme kind text).written, isInvisible c = false := by
  intro c member
  rw [Bool.eq_false_iff]
  intro invisible
  obtain ⟨outside, notQuote, noMark⟩ := isRunChar_of_isInvisible invisible
  cases formed : Form.ofKind? kind with
  | some form =>
      obtain ⟨isRun, lexeme, -⟩ := spelled.run formed
      have notString := Form.ne_string_of_ofKind? formed
      rw [Item.written, if_neg notString] at member
      have inside := Form.isRunChar_of_accepts isRun (lexeme.accepted c member)
      rw [outside] at inside
      cases inside
  | none =>
      rcases spelled.mark formed with ⟨rfl, -⟩ | ⟨notString, mark, found, rfl⟩
      · simp only [Item.written, if_true, List.mem_cons, List.mem_append, List.not_mem_nil,
          or_false] at member
        rcases member with quote | inside | quote
        · exact notQuote quote
        · rw [clear rfl c inside] at invisible
          cases invisible
        · exact notQuote quote
      · rw [Item.written, if_neg notString, Char.toString, String.toList_singleton,
          List.mem_singleton] at member
        rw [← member, noMark] at found
        cases found

/-- What can be seen of items is written by those that can be seen. -/
theorem written_visible {items : List Item} (valid : ∀ item ∈ items, item.Valid)
    (clear : ∀ item ∈ items, Clear item) :
    written (items.filter isVisible) = (written items).filter fun c => !isInvisible c := by
  induction items with
  | nil => rfl
  | cons item items ih =>
      obtain ⟨here, later⟩ := List.forall_mem_cons.mp valid
      obtain ⟨clearHere, clearLater⟩ := List.forall_mem_cons.mp clear
      rw [written_cons, List.filter_append, ← ih later clearLater]
      cases item with
      | blank c =>
          cases invisible : isInvisible c with
          | true => simp [isVisible, Item.written, invisible]
          | false => simp [isVisible, Item.written, invisible]
      | lexeme kind text =>
          have kept : (Item.lexeme kind text).written.filter (fun c => !isInvisible c) =
              (Item.lexeme kind text).written := by
            refine List.filter_eq_self.mpr fun c member => ?_
            rw [isInvisible_of_mem_written here clearHere c member]
            rfl
          rw [kept, List.filter_cons_of_pos rfl, written_cons]

/-- No lexeme is taken out. -/
theorem lexemes_visible (items : List Item) : lexemes (items.filter isVisible) = lexemes items := by
  rw [lexemes, List.filterMap_filter]
  refine List.filterMap_congr fun item _ => ?_
  cases item with
  | blank c => exact ite_self none
  | lexeme kind text => rfl

/-! ## Lexemes that are joined -/

/-- An item goes on in a later one, and between the two there are invisible blanks at most. -/
def Joined (items : List Item) : Prop :=
  ∃ earlier first between second later,
    items = earlier ++ first :: (between ++ second :: later) ∧
      (∀ item ∈ between, isVisible item = false) ∧
        ∃ c ∈ second.written.head?, first.continuedBy c = true

theorem Joined.cons {items : List Item} (joined : Joined items) (item : Item) :
    Joined (item :: items) := by
  obtain ⟨earlier, first, between, second, later, rfl, found⟩ := joined
  exact ⟨item :: earlier, first, between, second, later, rfl, found⟩

/-- **Items that are not joined stay apart**, whatever blanks are taken out. -/
theorem laid_visible {items : List Item} (laid : Laid items) (separate : ¬Joined items) :
    Laid (items.filter isVisible) := by
  induction laid with
  | nil => exact .nil
  | @cons item items valid _ laid ih =>
      have ih := ih fun joined => separate (joined.cons item)
      cases visible : isVisible item with
      | false =>
          rw [List.filter_cons_of_neg (by simp [visible])]
          exact ih
      | true =>
          rw [List.filter_cons_of_pos visible]
          refine .cons valid (fun c next => ?_) ih
          cases rest : items.filter isVisible with
          | nil =>
              rw [rest] at next
              cases next
          | cons second others =>
              -- the next item that can be seen has only invisible blanks before it
              obtain ⟨between, later, rfl, hidden, -, -⟩ := List.filter_eq_cons_iff.mp rest
              have inhabited := (laid.valid_of_mem (by simp : second ∈ _)).written_ne_nil
              rw [rest, written_cons, List.head?_append_of_ne_nil _ inhabited] at next
              rw [Bool.eq_false_iff]
              intro continued
              exact separate ⟨[], item, between, second, later, rfl,
                fun other member => Bool.eq_false_iff.mpr (hidden other member), c, next, continued⟩

/-- What follows an item is laid out for itself. -/
theorem laid_of_append {first second : List Item} (laid : Laid (first ++ second)) :
    Laid second := by
  induction first with
  | nil => exact laid
  | cons item items ih =>
      cases laid with
      | cons _ _ laid => exact ih laid

/-- Items that are joined are not laid out without the blanks between them. -/
theorem not_laid_visible {items : List Item} (valid : ∀ item ∈ items, item.Valid)
    (joined : Joined items) : ¬Laid (items.filter isVisible) := by
  obtain ⟨earlier, first, between, second, later, rfl, hidden, c, head, continued⟩ := joined
  have firstVisible : isVisible first = true := by
    cases first with
    | blank d => cases continued
    | lexeme kind text => rfl
  have secondVisible : isVisible second = true := by
    cases second with
    | blank d =>
        -- nothing goes on in a blank
        cases head
        have blank : Text.isBlank c = true := valid (.blank c) (by simp)
        have ends := (valid first (by simp)).not_continued (isRunChar_of_isBlank blank)
        rw [continued] at ends
        cases ends
    | lexeme kind text => rfl
  have noneBetween : between.filter isVisible = [] := by
    simpa using hidden
  intro laid
  rw [List.filter_append, List.filter_cons_of_pos firstVisible, List.filter_append, noneBetween,
    List.nil_append, List.filter_cons_of_pos secondVisible] at laid
  cases laid_of_append laid with
  | cons _ apart _ =>
      have ends := apart c (by rw [written_cons, List.head?_append, head]; rfl)
      rw [continued] at ends
      cases ends

/-! ## Tokens of normalised texts -/

/-- The kinds and the texts of tokens. -/
def kindsAndTexts (tokens : List Token) : List (Kind × String) :=
  tokens.map fun token => (token.kind, token.text)

/-- A text in which two lexemes are joined when invisible blanks are taken out. -/
def JoinsLexemes (text : String) : Prop :=
  ∃ items, Laid items ∧ written items = text.toList ∧ Joined items

/-- None of the strings among the tokens has an invisible character inside. -/
def ClearStrings (tokens : List Token) : Prop :=
  ∀ token ∈ tokens, token.kind = .string → ∀ c ∈ token.text.toList, isInvisible c = false

instance (tokens : List Token) : Decidable (ClearStrings tokens) :=
  have (token : Token) : Decidable (∀ c ∈ token.text.toList, isInvisible c = false) :=
    List.decidableBAll _ _
  List.decidableBAll _ _

/-- The strings among some items are those among their tokens. -/
theorem clear_of_clearStrings {items : List Item} {position : Nat} {last : Token}
    (clear : ClearStrings (tokensFrom position items ++ [last])) : ∀ item ∈ items, Clear item := by
  intro item member
  cases item with
  | blank c => trivial
  | lexeme kind text =>
      have listed : (kind, text) ∈ lexemes items := List.mem_filterMap.mpr ⟨_, member, rfl⟩
      rw [← lexemes_tokensFrom position, List.mem_map] at listed
      obtain ⟨token, emitted, same⟩ := listed
      cases same
      exact clear token (List.mem_append_left _ emitted)

theorem kindsAndTexts_concat (position : Nat) (items : List Item) (offset : Int) :
    kindsAndTexts (tokensFrom position items ++ [.endAt offset]) =
      lexemes items ++ [(.endOfInput, "")] := by
  rw [kindsAndTexts, List.map_append, lexemes_tokensFrom]
  rfl

/-- The lexemes of the entry that is evaluated are those that were typed, unless some are joined. -/
theorem tokenize_normalise_iff {text : String} {tokens : List Token}
    (read : tokenize text = .ok tokens) (clear : ClearStrings tokens) :
    (∃ others, tokenize (normalise text) = .ok others ∧
      kindsAndTexts others = kindsAndTexts tokens) ↔ ¬JoinsLexemes text := by
  obtain ⟨items, laid, same, rfl⟩ := exists_items_of_tokenize read
  have clear := clear_of_clearStrings clear
  have valid : ∀ item ∈ items, item.Valid := fun _ => laid.valid_of_mem
  have normal : written (items.filter isVisible) = (normalise text).toList := by
    rw [written_visible valid clear, same, toList_normalise]
  refine ⟨?_, fun separate => ?_⟩
  · rintro ⟨others, readOthers, agree⟩ ⟨also, alsoLaid, alsoSame, joined⟩
    obtain rfl := laid.unique alsoLaid (same.trans alsoSame.symm)
    obtain ⟨left, leftLaid, leftSame, rfl⟩ := exists_items_of_tokenize readOthers
    rw [kindsAndTexts_concat, kindsAndTexts_concat] at agree
    have lexemesAgree : lexemes left = lexemes (items.filter isVisible) := by
      rw [lexemes_visible]
      exact List.append_cancel_right agree
    have found : left = items.filter isVisible :=
      eq_of_lexemes (fun _ => leftLaid.valid_of_mem)
        (fun item member => valid item (List.mem_of_mem_filter member))
        (leftSame.trans normal.symm) lexemesAgree
    exact not_laid_visible valid joined (found ▸ leftLaid)
  · have separate : ¬Joined items := fun joined => separate ⟨items, laid, same, joined⟩
    refine ⟨_, (laid_visible laid separate).tokenize_eq normal, ?_⟩
    rw [kindsAndTexts_concat, kindsAndTexts_concat, lexemes_visible]

/-- Texts whose tokens agree in kinds and texts have trees that are equal up to offsets. -/
theorem exists_same_of_treeWithin {source source' : String} {tokens tokens' : List Token}
    (read : tokenize source = .ok tokens) (read' : tokenize source' = .ok tokens')
    (agree : kindsAndTexts tokens = kindsAndTexts tokens') {limits : Limits} {root : Tree}
    (parsed : treeWithin limits source = .ok root) :
    ∃ root', treeWithin limits source' = .ok root' ∧ root.same root' = true := by
  have moved := congrArg (parseWithin limits.nesting) (relocate_eq_of_tokenize read read' agree)
  rw [parseWithin_relocate rfl, parseWithin_relocate rfl] at moved
  have tree' := treeWithin_of_tokenize read' limits
  obtain ⟨also, readAlso, built⟩ := of_treeWithin_eq_ok parsed
  obtain rfl := Except.ok.inj (read.symm.trans readAlso)
  rw [built] at moved
  cases built' : parseWithin limits.nesting tokens' with
  | ok root' =>
      rw [built'] at moved tree'
      exact ⟨root', tree', (Tree.same_iff root root').mpr (Except.ok.inj moved)⟩
  | error failure =>
      rw [built'] at moved
      cases moved

/-- **The entry that is evaluated is the program that was typed, unless lexemes are joined.** A text
that can be read and has no invisible character inside a string keeps its tokens, offsets aside,
when these characters are taken out, if and only if none of its lexemes goes on in one that is
parted from it by such characters alone. Then the two texts have the same tree, offsets aside, or
none. -/
theorem normalise_keeps_program {text : String} {tokens : List Token}
    (read : tokenize text = .ok tokens) (clear : ClearStrings tokens) :
    ((∃ others, tokenize (normalise text) = .ok others ∧
        kindsAndTexts others = kindsAndTexts tokens) ↔ ¬JoinsLexemes text) ∧
      (¬JoinsLexemes text → ∀ limits,
        (∀ root, treeWithin limits text = .ok root →
          ∃ root', treeWithin limits (normalise text) = .ok root' ∧ root.same root' = true) ∧
        ∀ root', treeWithin limits (normalise text) = .ok root' →
          ∃ root, treeWithin limits text = .ok root ∧ root'.same root = true) := by
  have kept := tokenize_normalise_iff read clear
  refine ⟨kept, fun separate limits => ?_⟩
  obtain ⟨others, readOthers, agree⟩ := kept.mpr separate
  exact ⟨fun _ parsed => exists_same_of_treeWithin read readOthers agree.symm parsed,
    fun _ parsed => exists_same_of_treeWithin readOthers read agree parsed⟩

/-- Lines that end in a carriage return, and no-break spaces beside a bracket and beside a string.
-/
theorem normalise_keeps_program_lines :
    ¬JoinsLexemes "if\u00a0(x)\r\n\x7b \"a b\"\u00a0y \x7d\r\n" ∧
      ∃ root, treeWithin ⟨20, 20, 20⟩ (normalise "if\u00a0(x)\r\n\x7b \"a b\"\u00a0y \x7d\r\n") =
          .ok root ∧
        Tree.same (.block [.node ⟨.ifWord, "if", 0, false⟩ [.leaf ⟨.identifier, "x", 4, false⟩,
          .block [.leaf ⟨.string, "a b", 11, false⟩, .leaf ⟨.identifier, "y", 16, false⟩] true 8]]
            true 0) root = true := by
  have read : tokenize "if\u00a0(x)\r\n\x7b \"a b\"\u00a0y \x7d\r\n" = .ok
      [⟨.ifWord, "if", 0, false⟩, ⟨.openParen, "(", 3, false⟩, ⟨.identifier, "x", 4, false⟩,
        ⟨.closeParen, ")", 5, false⟩, ⟨.openBrace, "\x7b", 8, false⟩, ⟨.string, "a b", 11, false⟩,
        ⟨.identifier, "y", 16, false⟩, ⟨.closeBrace, "\x7d", 18, false⟩, .endAt 21] := by
    decide +kernel
  have readNormal : tokenize (normalise "if\u00a0(x)\r\n\x7b \"a b\"\u00a0y \x7d\r\n") = .ok
      [⟨.ifWord, "if", 0, false⟩, ⟨.openParen, "(", 2, false⟩, ⟨.identifier, "x", 3, false⟩,
        ⟨.closeParen, ")", 4, false⟩, ⟨.openBrace, "\x7b", 6, false⟩, ⟨.string, "a b", 9, false⟩,
        ⟨.identifier, "y", 13, false⟩, ⟨.closeBrace, "\x7d", 15, false⟩, .endAt 17] := by
    decide +kernel
  obtain ⟨kept, trees⟩ := normalise_keeps_program read (by decide +kernel)
  have separate := kept.mp ⟨_, readNormal, rfl⟩
  exact ⟨separate, (trees separate ⟨20, 20, 20⟩).1 _ (by decide +kernel)⟩

/-- Two numerals with a no-break space between them are read as two, and evaluated as one. -/
theorem normalise_joins_numerals :
    ∃ tokens, tokenize "1\u00a02" = .ok tokens ∧ ClearStrings tokens ∧
      ¬∃ others, tokenize (normalise "1\u00a02") = .ok others ∧
        kindsAndTexts others = kindsAndTexts tokens := by
  refine ⟨[⟨.numeral, "1", 0, false⟩, ⟨.numeral, "2", 2, false⟩, .endAt 3], by decide +kernel,
    by decide +kernel, ?_⟩
  rintro ⟨others, read, agree⟩
  have joined : tokenize (normalise "1\u00a02") = .ok [⟨.numeral, "12", 0, false⟩, .endAt 2] := by
    decide +kernel
  cases read.symm.trans joined
  exact absurd agree (by decide +kernel)

/-! ## Brackets of normalised texts -/

/-- What a character outside of strings adds to the number of open braces and parentheses. -/
def openingOf (c : Char) : Int :=
  match Kind.ofPunctuation? c with
  | some kind => opening ⟨kind, c.toString, 0, false⟩
  | none => 0

/-- The number of braces and parentheses opened less those closed in a text, apart from those in
strings. The text may begin inside a string. -/
def depthOf : Bool → List Char → Int
  | _, [] => 0
  | inside, c :: rest =>
    if c = '"' then depthOf (!inside) rest
    else (if inside then 0 else openingOf c) + depthOf inside rest

theorem openingOf_eq_zero {c : Char} (noMark : Kind.ofPunctuation? c = none) :
    openingOf c = 0 := by
  rw [openingOf, noMark]

/-- Characters that are no quotes count for nothing inside a string, and so do those that are no
punctuation outside of it. -/
theorem depthOf_append {inside : Bool} {characters : List Char}
    (plain : ∀ c ∈ characters, c ≠ '"' ∧ (inside = true ∨ Kind.ofPunctuation? c = none))
    (rest : List Char) : depthOf inside (characters ++ rest) = depthOf inside rest := by
  induction characters with
  | nil => rfl
  | cons c characters ih =>
      obtain ⟨⟨notQuote, nothing⟩, later⟩ := List.forall_mem_cons.mp plain
      rw [List.cons_append, depthOf, if_neg notQuote, ih later]
      rcases nothing with rfl | noMark
      · exact Int.zero_add _
      · rw [openingOf_eq_zero noMark, ite_self, Int.zero_add]

/-- Taking invisible characters out does not change the brackets that are open. -/
theorem depthOf_filter (inside : Bool) (characters : List Char) :
    depthOf inside (characters.filter fun c => !isInvisible c) = depthOf inside characters := by
  induction characters generalizing inside with
  | nil => rfl
  | cons c characters ih =>
      cases invisible : isInvisible c with
      | true =>
          obtain ⟨-, notQuote, noMark⟩ := isRunChar_of_isInvisible invisible
          rw [List.filter_cons_of_neg (by simp [invisible]), ih]
          refine (@depthOf_append inside [c] ?_ characters).symm
          exact List.forall_mem_singleton.mpr ⟨notQuote, .inr noMark⟩
      | false =>
          rw [List.filter_cons_of_pos (by simp [invisible]), depthOf, depthOf, ih, ih]

/-- No characters but those of punctuation are brackets outside of strings. -/
theorem ofPunctuation?_eq_none {c : Char}
    (other : isRunChar c = true ∨ Text.isBlank c = true) : Kind.ofPunctuation? c = none := by
  cases found : Kind.ofPunctuation? c with
  | none => rfl
  | some kind =>
      obtain ⟨outside, notBlank, -⟩ := isRunChar_of_ofPunctuation? found
      rw [outside, notBlank] at other
      simp at other

/-- Only punctuation opens and closes brackets. -/
theorem opening_eq_zero {token : Token} (other : Form.ofKind? token.kind ≠ none ∨
    token.kind = .string) : opening token = 0 := by
  obtain ⟨kind, text, offset, opensScope⟩ := token
  cases kind <;> first | rfl | simp [Form.ofKind?] at other

/-- The brackets of a string do not count. -/
theorem depthOf_string {text : List Char} (unquoted : '"' ∉ text) (rest : List Char) :
    depthOf false ('"' :: (text ++ '"' :: rest)) = depthOf false rest := by
  rw [depthOf, if_pos rfl, Bool.not_false, depthOf_append, depthOf, if_pos rfl, Bool.not_true]
  exact fun c member => ⟨fun quote => unquoted (quote ▸ member), .inl rfl⟩

/-- An item adds to the open brackets of a text what its token adds. -/
theorem depthOf_item {item : Item} (valid : item.Valid) (position : Nat) (rest : List Char) :
    depthOf false (item.written ++ rest) =
      balance (item.token? position).toList + depthOf false rest := by
  cases item with
  | blank c =>
      have blank : Text.isBlank c = true := valid
      have notQuote : c ≠ '"' := by
        rintro rfl
        exact absurd blank (by decide)
      rw [Item.written, depthOf_append (List.forall_mem_singleton.mpr
        ⟨notQuote, .inr (ofPunctuation?_eq_none (.inr blank))⟩)]
      exact (Int.zero_add _).symm
  | lexeme kind text =>
      rw [Item.token?, Option.toList_some, balance, balance, Int.add_zero]
      cases formed : Form.ofKind? kind with
      | some form =>
          obtain ⟨isRun, lexeme, -⟩ := Spelled.run valid formed
          have notString := Form.ne_string_of_ofKind? formed
          have hasForm : Form.ofKind? kind ≠ none := by
            rw [formed]
            exact Option.some_ne_none form
          rw [opening_eq_zero (.inl hasForm), Int.zero_add, Item.written, if_neg notString]
          refine depthOf_append (fun c member => ?_) rest
          have inside := Form.isRunChar_of_accepts isRun (lexeme.accepted c member)
          refine ⟨?_, .inr (ofPunctuation?_eq_none (.inl inside))⟩
          rintro rfl
          exact absurd inside (by decide)
      | none =>
          rcases Spelled.mark valid formed with ⟨rfl, unquoted⟩ | ⟨notString, mark, found, rfl⟩
          · rw [opening_eq_zero (.inr rfl), Int.zero_add, Item.written, if_pos rfl,
              List.cons_append, List.append_assoc]
            exact depthOf_string unquoted rest
          · obtain ⟨-, -, notQuote⟩ := isRunChar_of_ofPunctuation? found
            rw [Item.written, if_neg notString, Char.toString, String.toList_singleton,
              List.singleton_append, depthOf, if_neg notQuote, openingOf, found]
            rfl

theorem balance_append (first second : List Token) :
    balance (first ++ second) = balance first + balance second := by
  induction first with
  | nil => exact (Int.zero_add _).symm
  | cons token first ih => rw [List.cons_append, balance, balance, ih, Int.add_assoc]

/-- **The balance of the tokens is that of the characters outside of strings.** -/
theorem balance_of_tokenize {text : String} {tokens : List Token}
    (read : tokenize text = .ok tokens) : balance tokens = depthOf false text.toList := by
  obtain ⟨items, laid, same, rfl⟩ := exists_items_of_tokenize read
  have counted (position : Nat) :
      balance (tokensFrom position items) = depthOf false (written items) := by
    clear same read
    induction laid generalizing position with
    | nil => rfl
    | cons valid _ _ ih =>
        rw [tokensFrom, balance_append, ih, written_cons, depthOf_item valid position]
  rw [balance_append, counted, same]
  exact Int.add_zero _

/-! ## Entries that go on -/

theorem quoteCount_normalise (text : String) : quoteCount (normalise text) = quoteCount text := by
  rw [quoteCount, toList_normalise]
  exact List.count_filter (by decide)

/-- A text with an odd number of quotes has to go on: it cannot be read. -/
theorem needsMore_of_odd {text : String} (odd : quoteCount text % 2 = 1) :
    needsMore text = true := by
  cases read : tokenize text with
  | ok tokens =>
      have even := quoteCount_of_tokenize read
      omega
  | error failure =>
      rw [needsMore, read, odd]
      rfl

/-- The first text can be read and has brackets open, and the second cannot be read. -/
def OpenUnread (first second : String) : Prop :=
  (∃ tokens, tokenize first = .ok tokens ∧ 0 < balance tokens) ∧
    ∃ failure, tokenize second = .error failure

/-- Of two texts with the same quotes and brackets, one has to go on and the other one does not
exactly if the one has brackets open and only the other one cannot be read. -/
theorem needsMore_differs_iff {first second : String}
    (quotes : quoteCount first = quoteCount second)
    (depths : depthOf false first.toList = depthOf false second.toList) :
    needsMore first = true ∧ needsMore second = false ↔ OpenUnread first second := by
  cases read : tokenize first with
  | ok tokens =>
      cases read' : tokenize second with
      | ok tokens' =>
          have balances : balance tokens = balance tokens' := by
            rw [balance_of_tokenize read, balance_of_tokenize read', depths]
          simp [needsMore, OpenUnread, read, read', balances]
      | error failure =>
          have even := quoteCount_of_tokenize read
          rw [quotes] at even
          simp [needsMore, OpenUnread, read, read', even]
  | error failure =>
      have unread : ¬OpenUnread first second := by
        rintro ⟨⟨tokens, read', -⟩, -⟩
        rw [read] at read'
        cases read'
      refine iff_of_false ?_ unread
      rintro ⟨goesOn, ends⟩
      cases read' : tokenize second with
      | ok tokens =>
          have even := quoteCount_of_tokenize read'
          rw [← quotes] at even
          simp [needsMore, read, even] at goesOn
      | error failure' =>
          simp only [needsMore, read, read', quotes] at goesOn ends
          rw [goesOn] at ends
          cases ends

/-- **When the enter key decides as for the entry that is evaluated.** A text that is no command is
submitted while the entry that is evaluated has to go on exactly if the entry can be read with
brackets open and the text cannot be read, and it goes on while the entry does not have to exactly
in the opposite case. Otherwise the two decisions are the same. No text is submitted while a string
is open in the entry. -/
theorem enter_decides_for_entry (text : String) (program : startsWithSlash text = false) :
    (submits text = true ∧ needsMore (normalise text) = true ↔ OpenUnread (normalise text) text) ∧
    (submits text = false ∧ needsMore (normalise text) = false ↔
      OpenUnread text (normalise text)) ∧
    (needsMore text = needsMore (normalise text) ↔
      ¬OpenUnread (normalise text) text ∧ ¬OpenUnread text (normalise text)) ∧
    ∀ failure, tokenize (normalise text) = .error failure → failure.fault = .unterminatedString →
      submits text = false := by
  have quotes := quoteCount_normalise text
  have depths : depthOf false (normalise text).toList = depthOf false text.toList := by
    rw [toList_normalise, depthOf_filter]
  have early := needsMore_differs_iff quotes depths
  have late := needsMore_differs_iff quotes.symm depths.symm
  have decided : submits text = !needsMore text := by
    rw [submits, program, Bool.false_or]
  refine ⟨?_, ?_, ?_, fun failure refused isOpen => ?_⟩
  · rw [← early, decided, Bool.not_eq_true', and_comm]
  · rw [← late, decided, Bool.not_eq_false']
  · rw [← early, ← late]
    cases needsMore text <;> cases needsMore (normalise text) <;> simp
  · have odd := quoteCount_of_unterminated refused isOpen
    rw [quotes] at odd
    rw [decided, needsMore_of_odd odd]
    rfl

/-- Two operators with a no-break space between them: the text goes on, although the entry cannot be
read. -/
theorem enter_decides_for_entry_operators :
    startsWithSlash "(1 +\u00a0-" = false ∧ OpenUnread "(1 +\u00a0-" (normalise "(1 +\u00a0-") := by
  have program : startsWithSlash "(1 +\u00a0-" = false := by decide +kernel
  exact ⟨program, (enter_decides_for_entry _ program).2.1.mp (by decide +kernel)⟩

/-- A zero-width space behind a brace lets the text be submitted, although the brace is open in the
entry. -/
theorem submits_open_brace :
    ¬∀ text, startsWithSlash text = false →
      needsMore text = needsMore (normalise text) ∧
        (submits text = true → needsMore (normalise text) = false) := by
  intro same
  obtain ⟨agree, -⟩ := same "\x7b\u200b" (by decide +kernel)
  exact absurd agree (by decide +kernel)

end Prompt

end BraceLang
