import Mathlib.Data.List.Nodup
import BraceLang.Proofs.Grammar.Following
import BraceLang.Proofs.Highlighting
import BraceLang.Proofs.SourceText

/-!
# Which names are highlighted as functions

Highlighting takes a name for a function if a parenthesis opens behind it or the word `fn` stands
before it. It looks at no more than these two neighbours, and knows nothing of the grammar. The
parser knows what a name is: the function of a call, the function that is defined, or a variable
that is read, assigned or a parameter.

The two agree on every text that has a tree. `namesAmong` lists the names among tokens, each with
where it stands and whether it is highlighted as a function, and `names` lists the names of a tree,
each with whether it is the name of a function. For the tokens and the trees of a phrase the lists
are the same (`namesAmong_of_derives`): within a phrase the neighbours of a name tell its role.
-/

set_option autoImplicit false

namespace BraceLang

namespace Highlight

open Lexer Grammar

/-! ## Names among tokens -/

/-- The names among the tokens that follow the token `before`: where each of them stands, and
whether it is highlighted as a function. -/
def namesAmong (before : Option Token) : List Token → List (Int × Bool)
  | [] => []
  | token :: tokens =>
    (if token.kind = .identifier then
      [(token.offset, decide (groupOf before token tokens.head? = .function))]
    else []) ++ namesAmong (some token) tokens

/-- A name is a function by its neighbours. -/
theorem groupOf_eq_function_iff (before : Option Token) (token : Token) (behind : Option Token) :
    groupOf before token behind = .function ↔
      token.kind = .identifier ∧ (isKind .openParen behind ∨ isKind .fnWord before) := by
  rw [groupOf]
  split
  · next named => exact iff_of_true rfl named
  · next other =>
      refine iff_of_false ?_ other
      cases token.kind <;> decide

/-- Of the token before, only whether it is the word `fn` matters. -/
theorem namesAmong_congr {before other : Option Token}
    (same : isKind .fnWord before = isKind .fnWord other) (tokens : List Token) :
    namesAmong before tokens = namesAmong other tokens := by
  cases tokens with
  | nil => rfl
  | cons token tokens => simp only [namesAmong, groupOf_eq_function_iff, same]

/-- A token other than `fn` is a name or none, by what follows it. -/
theorem namesAmong_cons {token : Token} (other : token.kind ≠ .fnWord) (tokens : List Token) :
    namesAmong none (token :: tokens) =
      (if token.kind = .identifier then [(token.offset, isKind .openParen tokens.head?)] else []) ++
        namesAmong none tokens := by
  have forgotten : namesAmong (some token) tokens = namesAmong none tokens :=
    namesAmong_congr (by simpa [isKind] using other) tokens
  rw [namesAmong, forgotten]
  refine congrArg (· ++ _) ?_
  split
  · next isName => simp [groupOf_eq_function_iff, isName, isKind]
  · rfl

/-- The name behind the word `fn` is a function, whatever follows it. -/
theorem namesAmong_definition {word name : Token} (isWord : word.kind = .fnWord)
    (isName : name.kind = .identifier) (tokens : List Token) :
    namesAmong none (word :: name :: tokens) = (name.offset, true) :: namesAmong none tokens := by
  have forgotten : namesAmong (some name) tokens = namesAmong none tokens :=
    namesAmong_congr (by simp [isKind, isName]) tokens
  simp [namesAmong, groupOf_eq_function_iff, forgotten, isWord, isName, isKind]

/-- The end of the input is no name and no neighbour that matters. -/
theorem namesAmong_concat {last : Token} (closed : last.kind = .endOfInput) (before : Option Token)
    (tokens : List Token) : namesAmong before (tokens ++ [last]) = namesAmong before tokens := by
  induction tokens generalizing before with
  | nil => simp [namesAmong, closed]
  | cons token tokens ih =>
      have behind :
          isKind .openParen (tokens ++ [last]).head? = isKind .openParen tokens.head? := by
        cases tokens with
        | nil => simp [isKind, closed]
        | cons next more => rfl
      rw [List.cons_append, namesAmong, namesAmong, ih]
      simp only [groupOf_eq_function_iff, behind]

theorem isKind_of_unopened {rest : List Token} (unopened : Unopened rest) :
    isKind .openParen rest.head? = false := by
  cases rest with
  | nil => rfl
  | cons next rest => simpa [isKind] using unopened next rfl

/-! ## Names of trees -/

/-- The name at a node: a call counts as the name of its function, and `defined` tells that the node
stands where a definition has its name. -/
def nameAt (defined : Bool) (token : Token) : List (Int × Bool) :=
  if defined ∨ token.kind = .call then [(token.offset, true)]
  else if token.kind = .identifier then [(token.offset, false)]
  else []

mutual

/-- The names of a tree in reading order: where each of them stands, and whether it is the name of a
function that is called or defined. -/
def names (defined : Bool) : Tree → List (Int × Bool)
  | .node token children =>
    nameAt defined token ++ namesAll (decide (token.kind = .fnWord)) children

/-- The names of trees in a row, of which the first may be the name of a definition. -/
def namesAll (defined : Bool) : List Tree → List (Int × Bool)
  | [] => []
  | tree :: trees => names defined tree ++ namesAll false trees

end

theorem namesAll_append (first second : List Tree) :
    namesAll false (first ++ second) = namesAll false first ++ namesAll false second := by
  induction first with
  | nil => rfl
  | cons tree trees ih => simp only [List.cons_append, namesAll, ih, List.append_assoc]

/-- **Neighbours tell roles.** In a phrase, the names that are highlighted as functions are those
that are called or defined. Parameters need what follows them for that: a parenthesis that opened
behind the last one would make it a function. -/
theorem namesAmong_of_derives {phrase : Phrase} {start rest : List Token} {trees : List Tree}
    (derived : Derives phrase start trees rest) (ended : phrase = .parameters → Unopened rest) :
    namesAmong none start = namesAll false trees ++ namesAmong none rest := by
  induction derived with
  | definition isWord isName isOpening _ isClosing _ ihParameters ih =>
      have parameters := ihParameters fun _ => unopened_cons (by simp [isClosing]) _
      have body := ih nofun
      rw [namesAmong_definition isWord isName, namesAmong_cons (by simp [isOpening])]
      rw [namesAmong_cons (by simp [isClosing])] at parameters
      simp [namesAll, namesAll_append, names, nameAt, Tree.leaf, *]
  | nullaryDefinition isWord isName isOpening isClosing _ ih =>
      have body := ih nofun
      rw [namesAmong_definition isWord isName, namesAmong_cons (by simp [isOpening]),
        namesAmong_cons (by simp [isClosing])]
      simp [namesAll, names, nameAt, Tree.leaf, *]
  | name isName unopened =>
      rw [namesAmong_cons (by simp [isName]), isKind_of_unopened unopened]
      simp [namesAll, names, nameAt, Tree.leaf, isName]
  | lastParameter isName =>
      rw [namesAmong_cons (by simp [isName]), isKind_of_unopened (ended rfl)]
      simp [namesAll, names, nameAt, Tree.leaf, isName]
  | nextParameter isName isComma _ ih =>
      rw [namesAmong_cons (by simp [isName]), namesAmong_cons (by simp [isComma]), ih ended]
      simp [namesAll, names, nameAt, Tree.leaf, isKind, isName, isComma]
  | literal isLiteral =>
      rcases isLiteral with numeral | string
      · simp [namesAmong_cons, namesAll, names, nameAt, Tree.leaf, numeral]
      · simp [namesAmong_cons, namesAll, names, nameAt, Tree.leaf, string]
  | _ =>
      -- in the other phrases, exactly the names that are called have a parenthesis behind them
      simp_all [namesAmong_cons, namesAll, names, nameAt, isKind, Tree.leaf, Tree.block]

/-! ## Names by the nodes of a tree -/

/-- The node calls a function whose name stands at the offset, or defines one. -/
def NamesFunction (offset : Int) (node : Tree) : Prop :=
  (node.kind = .call ∧ node.offset = offset) ∨
    (node.kind = .fnWord ∧ ∃ name ∈ node.children.head?, name.offset = offset)

/-- A child of the node is a name at the offset, and not the name that the node defines: it is read,
assigned or a parameter. -/
def NamesVariable (offset : Int) (node : Tree) : Prop :=
  ∃ name ∈ if node.kind = .fnWord then node.children.tail else node.children,
    name.kind = .identifier ∧ name.offset = offset

mutual

/-- The names of a node are names of every tree that the node is in. -/
theorem names_of_mem_preorder {node : Tree} : (root : Tree) → (defined : Bool) →
    node ∈ root.preorder → ∃ flag, ∀ name ∈ names flag node, name ∈ names defined root
  | .node token children, defined, member => by
    rcases List.mem_cons.mp member with rfl | below
    · exact ⟨defined, fun _ found => found⟩
    · obtain ⟨flag, all⟩ := names_of_mem_preorderAll children _ below
      exact ⟨flag, fun name found => List.mem_append_right _ (all name found)⟩

theorem names_of_mem_preorderAll {node : Tree} : (roots : List Tree) → (defined : Bool) →
    node ∈ Tree.preorderAll roots → ∃ flag, ∀ name ∈ names flag node, name ∈ namesAll defined roots
  | [], _, member => by cases member
  | root :: roots, defined, member => by
    rcases List.mem_append.mp member with here | later
    · obtain ⟨flag, all⟩ := names_of_mem_preorder root defined here
      exact ⟨flag, fun name found => List.mem_append_left _ (all name found)⟩
    · obtain ⟨flag, all⟩ := names_of_mem_preorderAll roots false later
      exact ⟨flag, fun name found => List.mem_append_right _ (all name found)⟩

end

mutual

/-- A name of a function is that of a call or of a definition. -/
theorem exists_of_mem_names {offset : Int} : (root : Tree) → (defined : Bool) →
    (offset, true) ∈ names defined root →
      (defined = true ∧ root.offset = offset) ∨ ∃ node ∈ root.preorder, NamesFunction offset node
  | .node token children, defined, member => by
    rcases List.mem_append.mp member with here | below
    · rw [nameAt] at here
      split at here
      · next role =>
          obtain rfl : offset = token.offset := by simpa using here
          rcases role with isDefined | isCall
          · exact .inl ⟨isDefined, rfl⟩
          · exact .inr ⟨_, List.mem_cons_self, .inl ⟨isCall, rfl⟩⟩
      · split at here <;> simp at here
    · refine .inr ?_
      rcases exists_of_mem_namesAll children _ below with
        ⟨isWord, name, first, same⟩ | ⟨node, found, named⟩
      · exact ⟨_, List.mem_cons_self, .inr ⟨of_decide_eq_true isWord, name, first, same⟩⟩
      · exact ⟨node, List.mem_cons_of_mem _ found, named⟩

theorem exists_of_mem_namesAll {offset : Int} : (roots : List Tree) → (defined : Bool) →
    (offset, true) ∈ namesAll defined roots →
      (defined = true ∧ ∃ name ∈ roots.head?, name.offset = offset) ∨
        ∃ node ∈ Tree.preorderAll roots, NamesFunction offset node
  | [], _, member => by cases member
  | root :: roots, defined, member => by
    rcases List.mem_append.mp member with here | later
    · rcases exists_of_mem_names root defined here with ⟨isDefined, same⟩ | ⟨node, found, named⟩
      · exact .inl ⟨isDefined, root, rfl, same⟩
      · exact .inr ⟨node, List.mem_append_left _ found, named⟩
    · rcases exists_of_mem_namesAll roots false later with ⟨isDefined, -⟩ | ⟨node, found, named⟩
      · cases isDefined
      · exact .inr ⟨node, List.mem_append_right _ found, named⟩

end

/-- What is called or defined is a name of a function. -/
theorem mem_names_of_namesFunction {offset : Int} {node : Tree} (named : NamesFunction offset node)
    (flag : Bool) : (offset, true) ∈ names flag node := by
  obtain ⟨token, children⟩ := node
  rcases named with ⟨isCall, rfl⟩ | ⟨isWord, name, first, rfl⟩
  · refine List.mem_append_left _ ?_
    rw [nameAt, if_pos (.inr isCall)]
    exact List.mem_singleton_self _
  · refine List.mem_append_right _ ?_
    rw [decide_eq_true (show token.kind = .fnWord from isWord)]
    cases children with
    | nil => cases first
    | cons child children =>
        cases first
        obtain ⟨inner, below⟩ := name
        exact List.mem_append_left _ (List.mem_append_left _ (List.mem_singleton_self _))

/-- What is read, assigned or a parameter is a name of no function. -/
theorem mem_names_of_namesVariable {offset : Int} {node : Tree} (named : NamesVariable offset node)
    (flag : Bool) : (offset, false) ∈ names flag node := by
  have among {trees : List Tree} {name : Tree} (member : name ∈ trees)
      (isName : name.kind = .identifier) : (name.offset, false) ∈ namesAll false trees := by
    obtain ⟨earlier, later, rfl⟩ := List.append_of_mem member
    obtain ⟨token, below⟩ := name
    have isName : token.kind = .identifier := isName
    rw [namesAll_append]
    simp [namesAll, names, nameAt, isName, Tree.offset, Tree.token]
  obtain ⟨token, children⟩ := node
  obtain ⟨name, member, isName, rfl⟩ := named
  refine List.mem_append_right _ ?_
  by_cases isWord : (Tree.node token children).kind = .fnWord
  · rw [if_pos isWord] at member
    cases children with
    | nil => cases member
    | cons first others => exact List.mem_append_right _ (among member isName)
  · rw [if_neg isWord] at member
    rw [decide_eq_false (show ¬token.kind = .fnWord from isWord)]
    exact among member isName

/-- The names of functions in a tree are those of its calls and definitions. -/
theorem mem_names_iff {offset : Int} {root : Tree} :
    (offset, true) ∈ names false root ↔ ∃ node ∈ root.preorder, NamesFunction offset node := by
  refine ⟨fun member => ?_, ?_⟩
  · rcases exists_of_mem_names root false member with ⟨isDefined, -⟩ | found
    · cases isDefined
    · exact found
  · rintro ⟨node, member, named⟩
    obtain ⟨flag, all⟩ := names_of_mem_preorder root false member
    exact all _ (mem_names_of_namesFunction named flag)

/-! ## Fragments -/

/-- Where the fragments in the style of a group begin, the first fragment being at a position. -/
def startsOf (group : Group) : Nat → List Fragment → List Int
  | _, [] => []
  | position, fragment :: fragments =>
    (if fragment.style = group.style then [(position : Int)] else []) ++
      startsOf group (position + fragment.text.length) fragments

/-- Only functions have the style of functions. -/
theorem style_eq_function_iff (group : Group) : group.style = Group.function.style ↔
    group = .function := by
  cases group <;> decide

theorem startsOf_gap (position : Nat) (blanks : List Char) (fragments : List Fragment) :
    startsOf .function position (gap blanks ++ fragments) =
      startsOf .function (position + blanks.length) fragments := by
  cases blanks with
  | nil => rfl
  | cons c rest =>
      have plain : ¬Group.plain.style = Group.function.style := by decide
      show (if Group.plain.style = _ then _ else []) ++
        startsOf .function (position + (String.ofList (c :: rest)).length) fragments = _
      rw [if_neg plain, String.length_ofList]
      rfl

/-- **The fragments of functions are those of names that are functions by their neighbours.** -/
theorem startsOf_of_covers {before : Option Token} {position : Nat} {tokens : List Token}
    {characters : List Char} {fragments : List Fragment}
    (covered : Covers before position tokens characters fragments)
    (placed : ∀ token ∈ tokens, 0 ≤ token.offset) (offset : Int) :
    offset ∈ startsOf .function position fragments ↔ (offset, true) ∈ namesAmong before tokens := by
  induction covered with
  | @finish before position last blanks closed _ =>
      have painted := startsOf_gap position blanks []
      rw [List.append_nil] at painted
      rw [painted]
      simp [startsOf, namesAmong, closed]
  | @token before position token tokens blanks rest fragments _ _ spans _ ih =>
      obtain ⟨here, later⟩ := List.forall_mem_cons.mp placed
      rw [startsOf_gap, startsOf, namesAmong, List.mem_append, List.mem_append]
      refine or_congr ?_ ?_
      · simp only [Fragment.of, style_eq_function_iff]
        by_cases isName : token.kind = .identifier
        · have start : (token.offset : Int) = (position + blanks.length : Nat) := by
            have first := congrArg Prod.fst spans
            simp only [span, isName, reduceCtorEq, if_false] at first
            omega
          rw [if_pos isName, start]
          split <;> simp_all
        · have other : ¬groupOf before token tokens.head? = .function := fun isFunction =>
            isName ((groupOf_eq_function_iff _ _ _).mp isFunction).1
          rw [if_neg isName, if_neg other]
          simp
      · rw [← ih later]
        show offset ∈ startsOf .function (_ + (String.ofList (lexemeOf token)).length) fragments ↔ _
        rw [String.length_ofList]

/-! ## Names stand apart -/

/-- The tokens of a text stand one behind the other. -/
theorem pairwise_tokensFrom {items : List Item} (laid : Laid items) (position : Nat) :
    (tokensFrom position items).Pairwise (fun token later => token.offset < later.offset) ∧
      ∀ token ∈ tokensFrom position items, (position : Int) ≤ token.offset := by
  induction laid generalizing position with
  | nil => exact ⟨.nil, nofun⟩
  | @cons item items valid _ _ ih =>
      obtain ⟨apart, behind⟩ := ih (position + item.written.length)
      cases item with
      | blank c =>
          refine ⟨apart, fun token member => ?_⟩
          have := behind token member
          omega
      | lexeme kind text =>
          have inside : ((if kind = .string then position + 1 else position : Nat) : Int) <
              (position + (Item.lexeme kind text).written.length : Nat) := by
            have length := List.length_pos_of_ne_nil valid.written_ne_nil
            by_cases isString : kind = .string
            · simp only [Item.written, if_pos isString, List.length_cons, List.length_append]
              omega
            · rw [if_neg isString]
              omega
          have here :
              (position : Int) ≤ (if kind = .string then position + 1 else position : Nat) := by
            split <;> omega
          refine ⟨.cons (fun token member => ?_) apart, List.forall_mem_cons.mpr ⟨here, ?_⟩⟩
          · exact Int.lt_of_lt_of_le inside (behind token member)
          · intro token member
            have := behind token member
            omega

/-- Names are tokens. -/
theorem namesAmong_sublist (before : Option Token) (tokens : List Token) :
    ((namesAmong before tokens).map Prod.fst).Sublist (tokens.map Token.offset) := by
  induction tokens generalizing before with
  | nil => exact .slnil
  | cons token tokens ih =>
      rw [namesAmong, List.map_append, List.map_cons]
      split
      · exact (ih _).cons_cons _
      · exact (ih _).cons _

/-- At no place a name is highlighted as a function and as something else. -/
theorem not_mem_namesAmong {text : String} {tokens : List Token} (read : tokenize text = .ok tokens)
    {offset : Int} (other : (offset, false) ∈ namesAmong none tokens) :
    (offset, true) ∉ namesAmong none tokens := by
  obtain ⟨items, laid, same, rfl⟩ := exists_items_of_tokenize read
  have names := @namesAmong_concat (.endAt text.length) rfl none (tokensFrom 0 items)
  have distinct : ((namesAmong none (tokensFrom 0 items)).map Prod.fst).Nodup := by
    refine List.Pairwise.sublist (namesAmong_sublist none _) (List.pairwise_map.mpr ?_)
    exact (pairwise_tokensFrom laid 0).1.imp fun less => Int.ne_of_lt less
  rw [names] at other ⊢
  intro function
  -- two entries at one offset are one entry, so they do not differ in the flag
  cases List.inj_on_of_nodup_map distinct other function rfl

/-! ## Texts -/

/-- The fragments of functions in a text are those of names that are functions by their
neighbours. -/
theorem mem_startsOf_line {text : String} {tokens : List Token} (read : tokenize text = .ok tokens)
    (offset : Int) :
    offset ∈ startsOf .function 0 (line text) ↔ (offset, true) ∈ namesAmong none tokens := by
  by_cases nonempty : text = ""
  · subst nonempty
    cases read
    exact iff_of_false nofun nofun
  · refine startsOf_of_covers (covers_line nonempty read) (fun token member => ?_) offset
    exact (standsAt_of_tokenize read token member).bounds.1

/-- The names among the tokens of a text are the names of its tree. -/
theorem namesAmong_of_treeWithin {limits : Limits} {text : String} {root : Tree}
    (parsed : treeWithin limits text = .ok root) :
    ∃ tokens, tokenize text = .ok tokens ∧ namesAmong none tokens = names false root := by
  obtain ⟨items, -, -, read, trees, derived, rfl⟩ := exists_program_of_treeWithin parsed
  refine ⟨_, read, ?_⟩
  rw [namesAmong_concat rfl, namesAmong_of_derives derived nofun]
  exact List.append_nil _

/-- **Highlighting and parsing agree on the names of functions.** If a text has a tree, then the
fragments in the style of functions begin exactly where the tree has the name of a function: that of
a call, or the first child of a definition. No name that is read, assigned or a parameter is among
them. -/
theorem highlights_function_names {limits : Limits} {text : String} {root : Tree}
    (parsed : treeWithin limits text = .ok root) :
    (∀ offset, offset ∈ startsOf .function 0 (line text) ↔
      ∃ node ∈ root.preorder, NamesFunction offset node) ∧
    ∀ offset, ∀ node ∈ root.preorder, NamesVariable offset node →
      offset ∉ startsOf .function 0 (line text) := by
  obtain ⟨tokens, read, same⟩ := namesAmong_of_treeWithin parsed
  refine ⟨fun offset => ?_, fun offset node member named => ?_⟩
  · rw [mem_startsOf_line read, same, mem_names_iff]
  · obtain ⟨flag, all⟩ := names_of_mem_preorder root false member
    rw [mem_startsOf_line read]
    refine not_mem_namesAmong read ?_
    rw [same]
    exact all _ (mem_names_of_namesVariable named flag)

/-- A function that assigns its parameter and gives it to another one, and a variable of its name
that is given to what looks like a parameter: the parenthesis makes it a call. -/
theorem highlights_function_names_definition :
    let text := "fn f(a) \x7ba = 1 g(a)\x7d a (f)"
    let call := Tree.node ⟨.call, "a", 21, false⟩ [.leaf ⟨.identifier, "f", 24, false⟩]
    let root := Tree.block
      [.node ⟨.fnWord, "fn", 0, false⟩
        [.leaf ⟨.identifier, "f", 3, false⟩, .leaf ⟨.identifier, "a", 5, false⟩,
          .block
            [.node ⟨.assign, "=", 11, false⟩
              [.leaf ⟨.identifier, "a", 9, false⟩, .leaf ⟨.numeral, "1", 13, false⟩],
              .node ⟨.call, "g", 15, false⟩ [.leaf ⟨.identifier, "a", 17, false⟩]] false 8],
        call] true 0
    treeWithin ⟨30, 0, 0⟩ text = .ok root ∧ startsOf .function 0 (line text) = [3, 15, 21] ∧
      (∃ node ∈ root.preorder, NamesFunction 21 node) ∧
      NamesVariable 24 call ∧ 24 ∉ startsOf .function 0 (line text) := by
  intro text call root
  have parsed : treeWithin ⟨30, 0, 0⟩ text = .ok root := by decide +kernel
  have painted : startsOf .function 0 (line text) = [3, 15, 21] := by decide +kernel
  have named : NamesVariable 24 call := ⟨_, List.mem_singleton_self _, rfl, rfl⟩
  refine ⟨parsed, painted, ?_, named, ?_⟩
  · exact ((highlights_function_names parsed).1 21).mp (by rw [painted]; decide)
  · exact (highlights_function_names parsed).2 24 call (by decide) named

end Highlight

end BraceLang
