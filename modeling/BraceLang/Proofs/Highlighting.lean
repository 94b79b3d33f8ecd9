import BraceLang.Highlight
import BraceLang.Proofs.Lexing.Layout

/-!
# What highlighting keeps

Highlighting cuts a line into fragments and loses nothing of it: the fragments in a row are the
line, whether or not it can be read (`textOf_line`).

If the line can be read, every token before the end of the input has a fragment of its own, which
holds exactly the text of the token, and between and around these there are blanks only. `Covers`
says this of the fragments from a position on. The scanner's tokens have it, because the lexemes of
a line stand one behind the other (`covers_paint`); no token begins before the place at which the
last one ended.

A document gives back its text line by line, in whatever order and however often its lines are asked
for, because a line that has been painted before has the fragments that it would be given now
(`Page.ask_sound`, `Page.askAll_eq`).
-/

set_option autoImplicit false

namespace BraceLang

namespace Highlight

open Lexer

/-! ## Nothing is lost -/

/-- The text of fragments in a row. -/
def textOf (fragments : List Fragment) : String :=
  String.join (fragments.map Fragment.text)

theorem textOf_nil : textOf [] = "" :=
  rfl

theorem textOf_cons (fragment : Fragment) (fragments : List Fragment) :
    textOf (fragment :: fragments) = fragment.text ++ textOf fragments :=
  String.join_cons

theorem textOf_append (first second : List Fragment) :
    textOf (first ++ second) = textOf first ++ textOf second := by
  induction first with
  | nil => exact String.empty_append.symm
  | cons fragment fragments ih =>
      rw [List.cons_append, textOf_cons, textOf_cons, ih, String.append_assoc]

theorem textOf_gap (characters : List Char) : textOf (gap characters) = String.ofList characters := by
  cases characters with
  | nil => rfl
  | cons c rest =>
      show textOf [.of .plain (c :: rest)] = _
      rw [textOf_cons, textOf_nil]
      exact String.append_empty

/-- The fragments of the rest of a line are that rest, whatever the tokens are. -/
theorem textOf_paint (before : Option Token) (position : Nat) (rest : List Char)
    (tokens : List Token) : textOf (paint before position rest tokens) = String.ofList rest := by
  induction tokens generalizing before position rest with
  | nil => exact textOf_gap rest
  | cons token tokens ih =>
      rw [paint]
      obtain ⟨start, stop⟩ := span token
      dsimp only
      split
      · exact ih _ _ _
      · rw [textOf_append, textOf_gap, textOf_cons, ih]
        simp only [Fragment.of, ← String.ofList_append, List.take_append_drop]

/-- **The fragments of a line are the line.** -/
theorem textOf_line (text : String) : textOf (line text) = text := by
  rw [line]
  split
  · next isEmpty =>
      rw [List.isEmpty_iff, String.toList_eq_nil_iff] at isEmpty
      rw [isEmpty]
      rfl
  · cases tokenize text with
    | error failure =>
        rw [textOf_cons, textOf_cons, textOf_nil, String.append_empty]
        simp only [Fragment.of, ← String.ofList_append, List.take_append_drop,
          String.ofList_toList]
    | ok tokens =>
        show textOf (paint none 0 text.toList tokens) = text
        rw [textOf_paint, String.ofList_toList]

/-! ## Every token has its fragment -/

/-- A token as it stands in a line; a string has its quotes. -/
def lexemeOf (token : Token) : List Char :=
  (Item.lexeme token.kind token.text).written

/-- The fragments of a line from a position on, behind a token if there is one: one fragment for each
token before the end of the input, which is the lexeme at the span of the token, in the style of its
group, and before it and at the end an unstyled fragment of blanks, if there are any. -/
inductive Covers : Option Token → Nat → List Token → List Char → List Fragment → Prop where
  | finish {before : Option Token} {position : Nat} {last : Token} {blanks : List Char} :
      last.kind = .endOfInput → (∀ c ∈ blanks, Text.isBlank c = true) →
        Covers before position [last] blanks (gap blanks)
  | token {before : Option Token} {position : Nat} {token : Token} {tokens : List Token}
      {blanks rest : List Char} {fragments : List Fragment} :
      token.kind ≠ .endOfInput → (∀ c ∈ blanks, Text.isBlank c = true) →
        span token =
          (position + blanks.length, position + blanks.length + (lexemeOf token).length) →
          Covers (some token) (position + blanks.length + (lexemeOf token).length) tokens rest
            fragments →
            Covers before position (token :: tokens) (blanks ++ (lexemeOf token ++ rest))
              (gap blanks ++ .of (groupOf before token tokens.head?) (lexemeOf token) :: fragments)

/-- The span of the token of a lexeme is where the lexeme stands. -/
theorem span_token (kind : Kind) (text : String) (position : Nat) :
    span ⟨kind, text, (if kind = .string then position + 1 else position : Nat), false⟩ =
      (position, position + (Item.lexeme kind text).written.length) := by
  have length := @String.length_toList text
  by_cases isString : kind = .string
  · simp only [span, Item.written, if_pos isString, List.length_cons, List.length_append,
      List.length_nil, Prod.mk.injEq]
    omega
  · simp only [span, Item.written, if_neg isString, Prod.mk.injEq]
    omega

/-- Painting goes on behind a token that lies ahead. -/
theorem paint_token {before : Option Token} {position : Nat} {token : Token}
    (inside : token.kind ≠ .endOfInput) {blanks lexeme : List Char}
    (spans : span token = (position + blanks.length, position + blanks.length + lexeme.length))
    (rest : List Char) (tokens : List Token) :
    paint before position (blanks ++ (lexeme ++ rest)) (token :: tokens) =
      gap blanks ++ .of (groupOf before token tokens.head?) lexeme ::
        paint (some token) (position + blanks.length + lexeme.length) rest tokens := by
  have ahead : ¬(token.kind = .endOfInput ∨ position + blanks.length < position) := by
    rintro (ends | earlier)
    · exact inside ends
    · omega
  rw [paint, spans]
  simp only [if_neg ahead, Nat.add_sub_cancel_left, List.take_left, List.drop_left]

/-- **Painting covers what is laid out.** By induction on the items; the blanks that were passed since
the last token are kept until the next one. -/
theorem covers_paint {items : List Item} (laid : Laid items) {last : Token}
    (closed : last.kind = .endOfInput) {blanks : List Char}
    (allBlank : ∀ c ∈ blanks, Text.isBlank c = true) (before : Option Token) (position : Nat) :
    Covers before position (tokensFrom (position + blanks.length) items ++ [last])
      (blanks ++ written items)
      (paint before position (blanks ++ written items)
        (tokensFrom (position + blanks.length) items ++ [last])) := by
  induction laid generalizing blanks before position with
  | nil =>
      have painted : paint before position blanks [last] = gap blanks := by
        simp [paint, closed]
      rw [written_nil, List.append_nil, tokensFrom, List.nil_append, painted]
      exact .finish closed allBlank
  | @cons item items valid _ _ ih =>
      cases item with
      | blank c =>
          have further : ∀ d ∈ blanks ++ [c], Text.isBlank d = true := by
            intro d member
            rcases List.mem_append.mp member with earlier | here
            · exact allBlank d earlier
            · rw [List.mem_singleton.mp here]
              exact valid
          have covered := ih further before position
          rw [List.length_append, ← Nat.add_assoc, List.append_assoc] at covered
          exact covered
      | lexeme kind text =>
          have spans := span_token kind text (position + blanks.length)
          have inside : kind ≠ .endOfInput := Spelled.ne_endOfInput valid
          have covered := ih (List.forall_mem_nil _)
            (some ⟨kind, text, (if kind = .string then position + blanks.length + 1
              else position + blanks.length : Nat), false⟩)
            (position + blanks.length + (Item.lexeme kind text).written.length)
          rw [written_cons, tokensFrom]
          simp only [Item.token?, Option.toList_some, List.cons_append, List.nil_append]
          rw [paint_token inside spans]
          exact .token inside allBlank spans covered

/-- The fragments of a line that can be read cover its tokens. -/
theorem covers_line {text : String} {tokens : List Token} (nonempty : text ≠ "")
    (read : tokenize text = .ok tokens) : Covers none 0 tokens text.toList (line text) := by
  obtain ⟨items, laid, same, rfl⟩ := exists_items_of_tokenize read
  have painted : line text =
      paint none 0 text.toList (tokensFrom 0 items ++ [.endAt text.length]) := by
    have notEmpty : ¬text.toList.isEmpty = true := by
      rwa [List.isEmpty_iff, String.toList_eq_nil_iff]
    rw [line, if_neg notEmpty, read]
  have closed : (Token.endAt text.length).kind = .endOfInput := rfl
  have covered := covers_paint laid closed (List.forall_mem_nil _) none 0
  rw [List.nil_append, same] at covered
  rw [painted]
  exact covered

/-! ## Lines on request -/

namespace Page

/-- The lines that have been painted have the fragments that they would be given now. -/
def Sound (page : Page) : Prop :=
  ∀ entry ∈ page.painted, entry.2 = line (page.lines[entry.1]?.getD "")

theorem sound_ofText (text : String) : (ofText text).Sound :=
  nofun

/-- **A request is answered by the line**, and what is painted stays right. -/
theorem ask_sound {page : Page} (sound : page.Sound) (number : Nat) :
    (page.ask number).1 = line (page.lines[number]?.getD "") ∧
      (page.ask number).2.lines = page.lines ∧ (page.ask number).2.Sound := by
  rw [ask]
  cases found : page.painted.lookup number with
  | some fragments =>
      obtain ⟨earlier, later, same, -⟩ := List.lookup_eq_some_iff.mp found
      exact ⟨sound (number, fragments) (by simp [same]), rfl, sound⟩
  | none => exact ⟨rfl, rfl, List.forall_mem_cons.mpr ⟨rfl, sound⟩⟩

/-- Requests in a row are answered as if each of them were the first. -/
theorem askAll_eq {page : Page} (sound : page.Sound) (numbers : List Nat) :
    page.askAll numbers = numbers.map fun number => line (page.lines[number]?.getD "") := by
  induction numbers generalizing page with
  | nil => rfl
  | cons number numbers ih =>
      obtain ⟨answer, sameLines, stillSound⟩ := ask_sound sound number
      rw [askAll, ih stillSound, answer, sameLines, List.map_cons]

end Page

/-- Lines of a document are the lines of its text. -/
theorem textOf_documentLine (document : String) (number : Nat) :
    textOf (documentLine document number) = (Text.splitLines document)[number]?.getD "" :=
  textOf_line _

/-- The lines of a text joined by line feeds are the text. -/
theorem intercalate_splitLines (document : String) :
    "\n".intercalate (Text.splitLines document) = document := by
  rw [← String.toList_inj, String.toList_intercalate, Text.splitLines, List.map_map]
  have pieces : String.toList ∘ String.ofList = id := by
    funext characters
    exact String.toList_ofList
  rw [pieces, List.map_id]
  exact Text.intercalate_splitAt '\n' document.toList

/-- **Highlighting loses nothing and covers every token.** The fragments of a line in a row are the
line. If the line is not empty and can be read, they are one fragment for each token before the end
of the input, which is exactly the text at the span of the token, and unstyled fragments of blanks
between and around them. Requests for the lines of a document are answered by the fragments of the
lines, in whatever order and however often lines are asked for; so if each line is asked for at some
place, the answers at these places, joined by line feeds, give back the document. -/
theorem highlighting_loses_nothing :
    (∀ text, textOf (line text) = text) ∧
    (∀ text tokens, text ≠ "" → tokenize text = .ok tokens →
      Covers none 0 tokens text.toList (line text)) ∧
    ∀ document numbers,
      (Page.ofText document).askAll numbers = numbers.map (documentLine document) ∧
      ∀ place : Nat → Nat,
        (∀ number < (Text.splitLines document).length, numbers[place number]? = some number) →
          "\n".intercalate ((List.range (Text.splitLines document).length).map fun number =>
            textOf (((Page.ofText document).askAll numbers)[place number]?.getD [])) =
              document := by
  refine ⟨textOf_line, fun text tokens nonempty read => covers_line nonempty read,
    fun document numbers => ?_⟩
  have answers : (Page.ofText document).askAll numbers = numbers.map (documentLine document) :=
    Page.askAll_eq (Page.sound_ofText document) numbers
  refine ⟨answers, fun place asked => ?_⟩
  rw [answers]
  have lines : ((List.range (Text.splitLines document).length).map fun number =>
      textOf ((numbers.map (documentLine document))[place number]?.getD [])) =
        Text.splitLines document := by
    refine List.ext_getElem (by simp) fun number _ small => ?_
    simp only [List.getElem_map, List.getElem_range, List.getElem?_map, asked number small,
      Option.map_some, Option.getD_some, textOf_documentLine]
    rw [List.getElem?_eq_getElem small, Option.getD_some]
  rw [lines, intercalate_splitLines]

/-- A call of a string between blanks, and a document whose third line is asked for twice and before
the others. -/
theorem highlighting_loses_nothing_call :
    let place : Nat → Nat := fun number => [1, 3, 0].getD number 0
    Covers none 0
      [⟨.identifier, "f", 1, false⟩, ⟨.openParen, "(", 2, false⟩, ⟨.string, "a", 4, false⟩,
        ⟨.closeParen, ")", 6, false⟩, .endAt 8]
      " f(\"a\") ".toList
      [⟨"", " "⟩, ⟨"bold ansiyellow", "f"⟩, ⟨"", "("⟩, ⟨"ansigreen", "\"a\""⟩, ⟨"", ")"⟩, ⟨"", " "⟩] ∧
    "\n".intercalate ((List.range 3).map fun number =>
      textOf (((Page.ofText "f(x)\n\n= +=").askAll [2, 0, 2, 1])[place number]?.getD [])) =
        "f(x)\n\n= +=" := by
  intro place
  have painted : line " f(\"a\") " = [⟨"", " "⟩, ⟨"bold ansiyellow", "f"⟩, ⟨"", "("⟩,
      ⟨"ansigreen", "\"a\""⟩, ⟨"", ")"⟩, ⟨"", " "⟩] := by
    decide +kernel
  have asked : ∀ number < (Text.splitLines "f(x)\n\n= +=").length,
      [2, 0, 2, 1][place number]? = some number := by
    decide +kernel
  refine ⟨?_, (highlighting_loses_nothing.2.2 "f(x)\n\n= +=" [2, 0, 2, 1]).2 place asked⟩
  rw [← painted]
  exact highlighting_loses_nothing.2.1 _ _ (by decide) rfl

end Highlight

end BraceLang
