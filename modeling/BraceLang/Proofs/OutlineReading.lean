import BraceLang.Proofs.SourceText
import BraceLang.Proofs.Grammar.Shape
import BraceLang.Proofs.Text.Quoting
import BraceLang.Tree.Outline

/-!
# Reading outlines

Two texts with trees have equal outlines if and only if their trees agree up to offsets
(`outline_unambiguous`).

An outline shows no brackets: where a subtree ends is told only by the indentation of what follows.
Its lines are recovered first, since no line holds a line feed (`outlineLines_of_outline`). A line
gives its level and its label (`lineLevel_indent`, `lineLabel_indent`), and a label gives the kind,
the text and the scope flag of its token (`label_injective`), provided that it leaves out nothing:
a block has no text and no other token opens a scope (`Token.Labelled`). Trees are then read off the
front of a list of lines by induction, up to the first line that stands further out
(`same_of_lines`). Trees of texts are made of such tokens only (`labelled_of_treeWithin`).
-/

set_option autoImplicit false

namespace BraceLang

/-! ## Names of kinds -/

theorem Kind.ofName?_name (kind : Kind) : ofName? kind.name = some kind := by
  cases kind <;> decide

theorem Kind.name_injective : Function.Injective Kind.name := by
  intro first second same
  have found := ofName?_name first
  rw [same, ofName?_name] at found
  exact (Option.some.inj found).symm

theorem Kind.space_notMem_name (kind : Kind) : ' ' ∉ kind.name.toList := by
  cases kind <;> decide

theorem Kind.newline_notMem_name (kind : Kind) : '\n' ∉ kind.name.toList := by
  cases kind <;> decide

theorem Kind.toList_name_ne_nil (kind : Kind) : kind.name.toList ≠ [] := by
  cases kind <;> decide

theorem flagWord_injective : Function.Injective flagWord := by
  intro first second same
  cases first <;> cases second
  · rfl
  · exact absurd same (by decide)
  · exact absurd same (by decide)
  · rfl

/-! ## Labels -/

/-- A token of which a label leaves out nothing but the offset. -/
def Token.Labelled (token : Token) : Prop :=
  if token.kind = .block then token.text = "" else token.opensScope = false

namespace Tree

/-- What a label says besides the kind. -/
def detail (token : Token) : String :=
  if token.kind = .block then " scoped=" ++ flagWord token.opensScope
  else if token.text = "" then ""
  else " " ++ Text.quote token.text

theorem label_eq (token : Token) : label token = token.kind.name ++ detail token := by
  unfold label detail
  split_ifs with isBlock isEmpty
  · rw [isBlock, Kind.name, ← String.append_assoc]
    rfl
  · exact String.append_empty.symm
  · exact String.append_assoc

theorem bne_of_notMem {c : Char} {characters : List Char} (outside : c ∉ characters) :
    ∀ other ∈ characters, (other != c) = true := by
  intro other member
  rw [bne_iff_ne]
  rintro rfl
  exact outside member

/-- The kind is the first word of a label. -/
theorem takeWhile_label (token : Token) :
    (label token).toList.takeWhile (· != ' ') = token.kind.name.toList := by
  have word := bne_of_notMem token.kind.space_notMem_name
  have ended : (detail token).toList.takeWhile (· != ' ') = [] := by
    unfold detail
    split_ifs <;> simp
  rw [label_eq, String.toList_append, List.takeWhile_append_of_pos word, ended, List.append_nil]

/-- **A label names its token**, up to the offset, if it leaves out nothing else. -/
theorem label_injective {first second : Token} (full : first.Labelled) (full' : second.Labelled)
    (same : label first = label second) :
    first.kind = second.kind ∧ first.text = second.text ∧
      first.opensScope = second.opensScope := by
  have kinds : first.kind = second.kind := by
    have words := congrArg (fun label : String => label.toList.takeWhile (· != ' ')) same
    simp only [takeWhile_label] at words
    exact Kind.name_injective (String.toList_inj.mp words)
  rw [label_eq, label_eq, kinds, String.append_right_inj] at same
  unfold detail at same
  unfold Token.Labelled at full full'
  rw [kinds] at same full
  refine ⟨kinds, ?_⟩
  split_ifs at same full full' with isBlock isEmpty isEmpty' isEmpty'
  · exact ⟨full.trans full'.symm, flagWord_injective (String.append_right_inj _ |>.mp same)⟩
  · exact ⟨isEmpty.trans isEmpty'.symm, full.trans full'.symm⟩
  · simp [← String.toList_inj] at same
  · simp [← String.toList_inj] at same
  · exact ⟨Text.quote_injective (String.append_right_inj _ |>.mp same), full.trans full'.symm⟩

theorem newline_notMem_label (token : Token) : '\n' ∉ (label token).toList := by
  rw [label_eq, String.toList_append, List.mem_append, not_or]
  refine ⟨token.kind.newline_notMem_name, ?_⟩
  unfold detail
  split_ifs
  · cases token.opensScope <;> decide
  · decide
  · rw [String.toList_append, List.mem_append, not_or]
    exact ⟨by decide, Text.newline_notMem_quote _⟩

/-! ## Lines -/

/-- The level that the indentation of a line tells. -/
def lineLevel (line : String) : Nat :=
  (line.toList.takeWhile (· == ' ')).length / 2

/-- A line without its indentation. -/
def lineLabel (line : String) : List Char :=
  line.toList.dropWhile (· == ' ')

/-- A label does not begin with a space. -/
theorem takeWhile_space_label (token : Token) :
    (label token).toList.takeWhile (· == ' ') = [] := by
  have noSpace := token.kind.space_notMem_name
  rw [label_eq, String.toList_append]
  cases name : token.kind.name.toList with
  | nil => exact absurd name token.kind.toList_name_ne_nil
  | cons c rest =>
      rw [name, List.mem_cons, not_or] at noSpace
      rw [List.cons_append, List.takeWhile_cons_of_neg]
      simpa using fun same => noSpace.1 same.symm

theorem toList_indent (level : Nat) : (indent level).toList = List.replicate (2 * level) ' ' := by
  rw [indent, String.toList_ofList]

theorem indent_spaces (level : Nat) : ∀ c ∈ (indent level).toList, (c == ' ') = true := by
  intro c member
  rw [toList_indent] at member
  rw [List.eq_of_mem_replicate member]
  rfl

theorem lineLevel_indent (level : Nat) (token : Token) :
    lineLevel (indent level ++ label token) = level := by
  rw [lineLevel, String.toList_append, List.takeWhile_append_of_pos (indent_spaces level),
    takeWhile_space_label, List.append_nil, toList_indent, List.length_replicate]
  omega

theorem lineLabel_indent (level : Nat) (token : Token) :
    lineLabel (indent level ++ label token) = (label token).toList := by
  have whole := @List.takeWhile_append_dropWhile _ (· == ' ') (label token).toList
  rw [takeWhile_space_label, List.nil_append] at whole
  rw [lineLabel, String.toList_append, List.dropWhile_append_of_pos (indent_spaces level), whole]

mutual

theorem newline_notMem_outlineLines (level : Nat) :
    (tree : Tree) → ∀ line ∈ outlineLines level tree, '\n' ∉ line.toList
  | node token children => by
      rw [outlineLines, List.forall_mem_cons]
      refine ⟨?_, newline_notMem_outlineLinesAll (level + 1) children⟩
      rw [String.toList_append, List.mem_append, not_or, toList_indent]
      exact ⟨by simp, newline_notMem_label token⟩

theorem newline_notMem_outlineLinesAll (level : Nat) :
    (trees : List Tree) → ∀ line ∈ outlineLinesAll level trees, '\n' ∉ line.toList
  | [] => fun _ => nofun
  | tree :: trees => by
      rw [outlineLinesAll, List.forall_mem_append]
      exact ⟨newline_notMem_outlineLines level tree, newline_notMem_outlineLinesAll level trees⟩

end

/-- A line ends at the first line feed. -/
theorem line_append_inj {line other rest rest' : List Char} (inside : '\n' ∉ line)
    (inside' : '\n' ∉ other) (same : line ++ '\n' :: rest = other ++ '\n' :: rest') :
    line = other ∧ rest = rest' := by
  have cut {line rest : List Char} (inside : '\n' ∉ line) :
      (line ++ '\n' :: rest).takeWhile (· != '\n') = line ∧
        (line ++ '\n' :: rest).dropWhile (· != '\n') = '\n' :: rest := by
    have before := bne_of_notMem inside
    rw [List.takeWhile_append_of_pos before, List.dropWhile_append_of_pos before]
    simp
  have first := congrArg (List.takeWhile (· != '\n')) same
  have later := congrArg (List.dropWhile (· != '\n')) same
  rw [(cut inside).1, (cut inside').1] at first
  rw [(cut inside).2, (cut inside').2] at later
  exact ⟨first, (List.cons.inj later).2⟩

/-- Lines without line feeds can be told from the text of all of them, each closed by one. -/
theorem lines_of_join {lines others : List String} (inside : ∀ line ∈ lines, '\n' ∉ line.toList)
    (inside' : ∀ line ∈ others, '\n' ∉ line.toList)
    (same : String.join (lines.map (· ++ "\n")) = String.join (others.map (· ++ "\n"))) :
    lines = others := by
  have written (line : String) (lines : List String) :
      (String.join ((line :: lines).map (· ++ "\n"))).toList =
        line.toList ++ '\n' :: (String.join (lines.map (· ++ "\n"))).toList := by
    simp [String.toList_join]
  have characters := congrArg String.toList same
  induction lines generalizing others with
  | nil =>
      cases others with
      | nil => rfl
      | cons other others =>
          rw [written] at characters
          simp at characters
  | cons line lines ih =>
      rw [written] at characters
      cases others with
      | nil => simp at characters
      | cons other others =>
          rw [written] at characters
          obtain ⟨here, inside⟩ := List.forall_mem_cons.mp inside
          obtain ⟨here', inside'⟩ := List.forall_mem_cons.mp inside'
          obtain ⟨first, later⟩ := line_append_inj here here' characters
          rw [String.toList_inj.mp first,
            ih inside inside' (String.toList_inj.mp later) later]

theorem outlineLines_of_outline {first second : Tree} (same : first.outline = second.outline) :
    outlineLines 0 first = outlineLines 0 second :=
  lines_of_join (newline_notMem_outlineLines 0 first) (newline_notMem_outlineLines 0 second) same

/-! ## Reading trees -/

/-- The first line, if there is one, stands further out than a level. -/
def Outside (level : Nat) (lines : List String) : Prop :=
  ∀ line ∈ lines.head?, lineLevel line < level

theorem outside_nil (level : Nat) : Outside level [] := by
  intro line member
  cases member

theorem Outside.outlineLinesAll {level : Nat} {rest : List String} (outside : Outside level rest)
    (trees : List Tree) : Outside (level + 1) (outlineLinesAll level trees ++ rest) := by
  cases trees with
  | nil => exact fun line member => Nat.lt_succ_of_lt (outside line member)
  | cons tree trees =>
      obtain ⟨token, children⟩ := tree
      intro line member
      obtain rfl := Option.some.inj member
      rw [lineLevel_indent]
      exact Nat.lt_succ_self level

/-- A tree at a level begins with a line of that level. -/
theorem not_outside_outlineLines (level : Nat) (tree : Tree) (rest : List String) :
    ¬ Outside level (outlineLines level tree ++ rest) := by
  obtain ⟨token, children⟩ := tree
  intro outside
  have deeper := outside _ rfl
  rw [lineLevel_indent] at deeper
  exact Nat.lt_irrefl level deeper

mutual

/-- **Trees are read off the front of the lines.** A tree ends where a line stands no deeper than
its root. -/
theorem same_of_lines (level : Nat) :
    (first second : Tree) → first.Everywhere Token.Labelled →
      second.Everywhere Token.Labelled → {rest rest' : List String} →
        Outside (level + 1) rest → Outside (level + 1) rest' →
          outlineLines level first ++ rest = outlineLines level second ++ rest' →
            same first second = true ∧ rest = rest'
  | node token children, node token' children', .node full below, .node full' below',
      rest, rest', outside, outside', equal => by
    rw [outlineLines, outlineLines, List.cons_append, List.cons_append] at equal
    obtain ⟨line, lines⟩ := List.cons.inj equal
    have labels := congrArg lineLabel line
    rw [lineLabel_indent, lineLabel_indent] at labels
    obtain ⟨kinds, texts, flags⟩ := label_injective full full' (String.toList_inj.mp labels)
    obtain ⟨trees, rests⟩ :=
      sameAll_of_lines (level + 1) children children' below below' outside outside' lines
    exact ⟨by simp [same, kinds, texts, flags, trees], rests⟩

theorem sameAll_of_lines (level : Nat) :
    (firsts seconds : List Tree) → (∀ tree ∈ firsts, tree.Everywhere Token.Labelled) →
      (∀ tree ∈ seconds, tree.Everywhere Token.Labelled) → {rest rest' : List String} →
        Outside level rest → Outside level rest' →
          outlineLinesAll level firsts ++ rest = outlineLinesAll level seconds ++ rest' →
            sameAll firsts seconds = true ∧ rest = rest'
  | [], [], _, _, _, _, _, _, equal => ⟨rfl, equal⟩
  | [], second :: seconds, _, _, rest, rest', outside, _, equal => by
    rw [outlineLinesAll, outlineLinesAll, List.nil_append, List.append_assoc] at equal
    exact absurd (equal ▸ outside) (not_outside_outlineLines level second _)
  | first :: firsts, [], _, _, rest, rest', _, outside', equal => by
    rw [outlineLinesAll, outlineLinesAll, List.nil_append, List.append_assoc] at equal
    exact absurd (equal.symm ▸ outside') (not_outside_outlineLines level first _)
  | first :: firsts, second :: seconds, full, full', rest, rest', outside, outside', equal => by
    obtain ⟨here, full⟩ := List.forall_mem_cons.mp full
    obtain ⟨here', full'⟩ := List.forall_mem_cons.mp full'
    rw [outlineLinesAll, outlineLinesAll, List.append_assoc, List.append_assoc] at equal
    obtain ⟨heads, later⟩ :=
      same_of_lines level first second here here' (outside.outlineLinesAll firsts)
        (outside'.outlineLinesAll seconds) equal
    obtain ⟨tails, rests⟩ := sameAll_of_lines level firsts seconds full full' outside outside' later
    exact ⟨by rw [sameAll, heads, tails]; rfl, rests⟩

end

/-! ## Offsets do not show -/

mutual

theorem outlineLines_relocate (place : Int → Int) (level : Nat) :
    (tree : Tree) → outlineLines level (relocate place tree) = outlineLines level tree
  | node token children => by
      rw [relocate, outlineLines, outlineLines, outlineLinesAll_relocate place (level + 1) children]
      rfl

theorem outlineLinesAll_relocate (place : Int → Int) (level : Nat) :
    (trees : List Tree) →
      outlineLinesAll level (relocateAll place trees) = outlineLinesAll level trees
  | [] => rfl
  | tree :: trees => by
      rw [relocateAll, outlineLinesAll, outlineLinesAll, outlineLines_relocate place level tree,
        outlineLinesAll_relocate place level trees]

end

theorem outline_relocate (place : Int → Int) (tree : Tree) :
    (relocate place tree).outline = tree.outline := by
  rw [outline, outline, outlineLines_relocate]

/-- **Outlines of labelled trees.** They are equal if and only if the trees agree up to offsets. -/
theorem outline_eq_iff {first second : Tree} (full : first.Everywhere Token.Labelled)
    (full' : second.Everywhere Token.Labelled) :
    first.outline = second.outline ↔ first.same second = true := by
  refine ⟨fun equal => ?_, fun agree => ?_⟩
  · have lines := congrArg (· ++ []) (outlineLines_of_outline equal)
    exact (same_of_lines 0 first second full full' (outside_nil 1) (outside_nil 1) lines).1
  · rw [← outline_relocate (fun _ => 0) first, (same_iff first second).mp agree, outline_relocate]

end Tree

/-! ## Trees of texts -/

/-- The flag is set on blocks only, and blocks have no text. -/
theorem labelled_of_treeWithin {limits : Limits} {source : String} {root : Tree}
    (parsed : treeWithin limits source = .ok root) : root.Everywhere Token.Labelled := by
  obtain ⟨items, -, -, read, isProgram⟩ := exists_program_of_treeWithin parsed
  have shaped := isProgram.shaped fun token member =>
    opensScope_of_tokenize read token (List.mem_append_left _ member)
  refine shaped.everywhere (fun token plain notBlock => ?_) (fun _ _ => rfl) (fun _ _ => rfl)
  rw [Token.Labelled, if_neg notBlock]
  exact plain

/-- **The outline is unambiguous.** Texts with trees have equal outlines if and only if their trees
agree in kinds, texts, scope flags and children. -/
theorem outline_unambiguous {limits limits' : Limits} {source source' : String}
    {root root' : Tree} (parsed : treeWithin limits source = .ok root)
    (parsed' : treeWithin limits' source' = .ok root') :
    root.outline = root'.outline ↔ root.same root' = true :=
  Tree.outline_eq_iff (labelled_of_treeWithin parsed) (labelled_of_treeWithin parsed')

/-- A string behind a branch, at two offsets, and the same string inside the branch: the labels are
the same in this order, and only the last outline differs, in one indentation. -/
theorem outline_unambiguous_branch :
    let tree (stringOffset : Int) : Tree := .block
      [.node ⟨.ifWord, "if", 0, false⟩ [.leaf ⟨.identifier, "a", 4, false⟩, .block [] true 7],
        .leaf ⟨.string, "it's", stringOffset, false⟩] true 0
    let inner : Tree := .block
      [.node ⟨.ifWord, "if", 0, false⟩ [.leaf ⟨.identifier, "a", 4, false⟩,
        .block [.leaf ⟨.string, "it's", 9, false⟩] true 7]] true 0
    treeWithin {} "if (a) \x7b\x7d\"it's\"" = .ok (tree 10) ∧
      treeWithin {} "if (a) \x7b \x7d\n\"it's\"" = .ok (tree 12) ∧
      treeWithin {} "if (a) \x7b\"it's\"\x7d" = .ok inner ∧
      (tree 10).outline = (tree 12).outline ∧ (tree 10).outline ≠ inner.outline := by
  intro tree inner
  have parsed {source : String} {root : Tree}
      (found : (treeWithin {} source).toOption = some root) : treeWithin {} source = .ok root := by
    cases ran : treeWithin {} source with
    | error failure =>
        rw [ran] at found
        cases found
    | ok root =>
        rw [ran] at found
        rw [Option.some.inj found]
  have behind : treeWithin {} "if (a) \x7b\x7d\"it's\"" = .ok (tree 10) :=
    parsed (by decide +kernel)
  have further : treeWithin {} "if (a) \x7b \x7d\n\"it's\"" = .ok (tree 12) :=
    parsed (by decide +kernel)
  have inside : treeWithin {} "if (a) \x7b\"it's\"\x7d" = .ok inner :=
    parsed (by decide +kernel)
  refine ⟨behind, further, inside, ?_, ?_⟩
  · exact (outline_unambiguous behind further).mpr (by decide +kernel)
  · exact fun equal => absurd ((outline_unambiguous behind inside).mp equal) (by decide +kernel)

end BraceLang
