import BraceLang.Proofs.Grammar.Soundness
import BraceLang.Proofs.Lexing.Layout
import BraceLang.Proofs.ProgramTree
import BraceLang.Proofs.Relocation

/-!
# Texts and their tokens

The tokens of a text open no scope, and each of them stands in the text at its offset
(`standsAt_of_tokenize`). If a text has a tree, the tokens before the end of input are a program
with that tree (`exists_program_of_treeWithin`). Items that are read further on in a text have the
same tokens at other offsets (`tokensFrom_add`).
-/

set_option autoImplicit false

namespace BraceLang

open Lexer Grammar

/-! ## Offsets in a text -/

/-- Some text stands at an offset of the source. -/
def StandsAt (source : String) (offset : Int) (text : String) : Prop :=
  ∃ earlier later : List Char,
    source.toList = earlier ++ text.toList ++ later ∧ offset = earlier.length

/-- What stands in a text stands between its beginning and its end. -/
theorem StandsAt.bounds {source : String} {offset : Int} {text : String}
    (stands : StandsAt source offset text) : 0 ≤ offset ∧ offset ≤ source.length := by
  obtain ⟨earlier, later, same, rfl⟩ := stands
  have lengths := congrArg List.length same
  rw [List.length_append, List.length_append, String.length_toList] at lengths
  omega

/-- Tokens that are read after some characters stand behind them. -/
theorem exists_of_mem_tokensFrom (items : List Item) (before : List Char) :
    ∀ token ∈ tokensFrom before.length items, ∃ earlier later : List Char,
      before ++ written items = earlier ++ token.text.toList ++ later ∧
        token.offset = earlier.length := by
  induction items generalizing before with
  | nil => exact fun _ => nofun
  | cons item items ih =>
      intro token member
      have others := ih (before ++ item.written)
      rw [List.length_append] at others
      rw [tokensFrom, List.mem_append] at member
      rw [written_cons, ← List.append_assoc]
      rcases member with here | further
      · cases item with
        | blank c => cases here
        | lexeme kind text =>
            obtain rfl := List.mem_singleton.mp here
            by_cases isString : kind = .string
            · refine ⟨before ++ ['"'], '"' :: written items, ?_, ?_⟩
              · simp [Item.written, isString]
              · simp [isString]
            · refine ⟨before, written items, ?_, ?_⟩
              · simp [Item.written, isString]
              · simp [isString]
      · exact others token further

/-- **Every token stands at its offset.** -/
theorem standsAt_of_tokenize {source : String} {tokens : List Token}
    (read : tokenize source = .ok tokens) :
    ∀ token ∈ tokens, StandsAt source token.offset token.text := by
  obtain ⟨items, -, same, rfl⟩ := exists_items_of_tokenize read
  intro token member
  rcases List.mem_append.mp member with inside | atEnd
  · obtain ⟨earlier, later, found, offset⟩ := exists_of_mem_tokensFrom items [] token inside
    rw [List.nil_append, same] at found
    exact ⟨earlier, later, found, offset⟩
  · obtain rfl := List.mem_singleton.mp atEnd
    refine ⟨source.toList, [], ?_, ?_⟩
    · simp [Token.endAt]
    · rw [String.length_toList]
      rfl

/-- Further on in a text, the same items have the same tokens at other offsets. -/
theorem tokensFrom_add (position distance : Nat) (items : List Item) :
    tokensFrom (position + distance) items =
      (tokensFrom position items).map (Token.relocate (· + distance)) := by
  induction items generalizing position with
  | nil => rfl
  | cons item items ih =>
      rw [tokensFrom, tokensFrom, List.map_append, ← ih, Nat.add_right_comm]
      refine congrArg (· ++ _) ?_
      cases item with
      | blank c => rfl
      | lexeme kind text =>
          by_cases isString : kind = .string
          · simp [Item.token?, Token.relocate, isString, Int.add_right_comm]
          · simp [Item.token?, Token.relocate, isString]

/-! ## Tokens and trees of a text -/

theorem opensScope_of_tokenize {source : String} {tokens : List Token}
    (read : tokenize source = .ok tokens) : ∀ token ∈ tokens, token.opensScope = false := by
  have plain (items : List Item) (position : Nat) :
      ∀ token ∈ tokensFrom position items, token.opensScope = false := by
    induction items generalizing position with
    | nil => exact fun _ => nofun
    | cons item items ih =>
        cases item with
        | blank c => exact ih _
        | lexeme kind text => exact List.forall_mem_cons.mpr ⟨rfl, ih _⟩
  obtain ⟨items, -, -, rfl⟩ := exists_items_of_tokenize read
  intro token member
  rcases List.mem_append.mp member with inside | atEnd
  · exact plain items 0 token inside
  · rw [List.mem_singleton.mp atEnd]
    rfl

/-- The tokens of a text with a tree are a program with that tree. -/
theorem exists_program_of_treeWithin {limits : Limits} {source : String} {root : Tree}
    (parsed : treeWithin limits source = .ok root) :
    ∃ items, Laid items ∧ written items = source.toList ∧
      tokenize source = .ok (tokensFrom 0 items ++ [.endAt source.length]) ∧
      Program (tokensFrom 0 items) root := by
  obtain ⟨list, read, built⟩ := of_treeWithin_eq_ok parsed
  obtain ⟨items, laid, same, rfl⟩ := exists_items_of_tokenize read
  obtain ⟨tokens, offset, list, spelled⟩ := spelled_of_tokenize read
  obtain ⟨rfl, -⟩ := List.append_inj' list rfl
  have inside : ∀ token ∈ tokensFrom 0 items, token.kind ≠ .endOfInput :=
    fun token member => (spelled token member).ne_endOfInput
  exact ⟨items, laid, same, read, program_of_parseWithin rfl inside built⟩

end BraceLang
