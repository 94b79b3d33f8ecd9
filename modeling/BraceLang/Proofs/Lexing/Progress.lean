import Mathlib.Logic.Relation
import BraceLang.Proofs.Lexing.Spelling

/-!
# The scanner gets on

Seen from outside, a move of the scanner is one of six (`Move`). Four of them take the next
character; the other two leave it where it is: one begins a run and the other flushes it. The scanner
gets on all the same, because a run is begun only before a character that it accepts. So the move
after the beginning takes that character, and a run is never flushed where the lexeme before it was
(`Past.lt_of_flushed`).

What has been read of a lexeme is the slice of the text from its start to the position
(`Placed.slice`). Since each move decreases the measure, no sequence of moves is endless, and a run
that does not fail ends at the end of the text.
-/

set_option autoImplicit false

namespace BraceLang

namespace Lexer

namespace Scanner

/-! ## Moves -/

/-- The scanner comes to the next one by a move on the character before it. -/
def Leads (scanner next : Scanner) : Prop :=
  ∃ c rest, scanner.rest = c :: rest ∧ scanner.step c rest = .ok next

/-- The moves that there are. -/
inductive Move : Scanner → Scanner → Prop where
  /-- A blank or a punctuation character between two lexemes. -/
  | skip (c : Char) (rest : List Char) (position : Nat) (emitted emitted' : List Token) :
      Move ⟨c :: rest, position, .idle, emitted⟩ ⟨rest, position + 1, .idle, emitted'⟩
  /-- The quote that opens a string. -/
  | quote (c : Char) (rest : List Char) (position : Nat) (emitted : List Token) :
      Move ⟨c :: rest, position, .idle, emitted⟩
        ⟨rest, position + 1, .reading .string (position + 1) [], emitted⟩
  /-- The beginning of a run. -/
  | begin {form : Form} {c : Char} (rest : List Char) (position : Nat) (emitted : List Token) :
      form ≠ .string → form.accepts c = true →
        Move ⟨c :: rest, position, .idle, emitted⟩
          ⟨c :: rest, position, .reading form position [], emitted⟩
  /-- One more character of a lexeme. -/
  | extend {form : Form} {c : Char} (rest : List Char) (position first : Nat) (text : List Char)
      (emitted : List Token) :
      form.accepts c = true →
        Move ⟨c :: rest, position, .reading form first text, emitted⟩
          ⟨rest, position + 1, .reading form first (c :: text), emitted⟩
  /-- The quote that closes a string. -/
  | unquote {c : Char} (rest : List Char) (position first : Nat) (text : List Char)
      (emitted emitted' : List Token) :
      Form.string.accepts c = false →
        Move ⟨c :: rest, position, .reading .string first text, emitted⟩
          ⟨rest, position + 1, .idle, emitted'⟩
  /-- The end of a run, before a character that does not belong to it. -/
  | flush {form : Form} {c : Char} (rest : List Char) (position first : Nat) (text : List Char)
      (emitted emitted' : List Token) :
      form ≠ .string → form.accepts c = false →
        Move ⟨c :: rest, position, .reading form first text, emitted⟩
          ⟨c :: rest, position, .idle, emitted'⟩

/-- A lexeme that is closed leaves the scanner idle and where it is. -/
theorem exists_of_close {scanner next : Scanner} {form : Form} {first : Nat} {text : List Char}
    (closed : scanner.close form first text = .ok next) :
    ∃ emitted, next = ⟨scanner.rest, scanner.position, .idle, emitted⟩ := by
  simp only [close] at closed
  split at closed
  · cases closed
    exact ⟨_, rfl⟩
  · cases closed

/-- **Every step is one of the six moves.** -/
theorem Leads.move {scanner next : Scanner} (leads : Leads scanner next) : Move scanner next := by
  obtain ⟨c, rest, ahead, moved⟩ := leads
  obtain ⟨_, position, activity, emitted⟩ := scanner
  cases ahead
  cases activity with
  | idle =>
      simp only [step, begin] at moved
      split at moved
      · next digit =>
          cases moved
          exact @Move.begin .number c rest position emitted nofun digit
      split at moved
      · next letter =>
          cases moved
          exact @Move.begin .word c rest position emitted nofun
            (isWordChar_of_isWordStart letter)
      split at moved
      · next symbol =>
          cases moved
          exact @Move.begin .symbol c rest position emitted nofun symbol
      split at moved
      · cases moved
        exact .skip c rest position emitted emitted
      split at moved
      · cases moved
        exact .quote c rest position emitted
      split at moved
      · cases moved
        exact .skip c rest position emitted _
      · cases moved
  | reading form first text =>
      simp only [step, resume] at moved
      split at moved
      · next accepted =>
          cases moved
          exact .extend rest position first text emitted accepted
      · next refused =>
          have refused := Bool.eq_false_iff.mpr refused
          split at moved
          · next isString =>
              subst isString
              obtain ⟨emitted', rfl⟩ := exists_of_close moved
              exact .unquote rest position first text emitted emitted' refused
          · next isRun =>
              obtain ⟨emitted', rfl⟩ := exists_of_close moved
              exact .flush rest position first text emitted emitted' isRun refused

/-- A run that succeeds is a sequence of moves. -/
theorem leads_of_run {moves : Nat} {scanner last : Scanner} (ran : run moves scanner = .ok last) :
    Relation.ReflTransGen Leads scanner last := by
  induction moves generalizing scanner with
  | zero =>
      cases ran
      exact .refl
  | succ moves ih =>
      unfold run at ran
      split at ran
      · cases ran
        exact .refl
      · next c rest ahead =>
          cases moved : scanner.step c rest with
          | error failure =>
              rw [moved] at ran
              cases ran
          | ok next =>
              rw [moved] at ran
              exact .head ⟨c, rest, ahead, moved⟩ (ih ran)

/-! ## Slices -/

/-- The scanner has read the text up to its position, and the lexeme that it is reading is the last
part of that. -/
def Placed (source : List Char) (scanner : Scanner) : Prop :=
  ∃ taken, source = taken ++ scanner.rest ∧ scanner.position = taken.length ∧
    ∀ form first text, scanner.activity = .reading form first text →
      ∃ before, taken = before ++ text.reverse ∧ first = before.length

namespace Placed

variable {source : List Char} {scanner next : Scanner}

theorem start (source : List Char) : Placed source (start source) :=
  ⟨[], rfl, rfl, fun _ _ _ => nofun⟩

/-- **A move keeps the scanner in its place.** -/
theorem move (placed : Placed source scanner) (move : Move scanner next) : Placed source next := by
  obtain ⟨taken, whole, count, slice⟩ := placed
  cases move with
  | skip c rest position emitted emitted' =>
      exact ⟨taken ++ [c], by simp [whole], by simpa using count, fun _ _ _ => nofun⟩
  | quote c rest position emitted =>
      refine ⟨taken ++ [c], by simp [whole], by simpa using count, ?_⟩
      rintro _ _ _ ⟨⟩
      exact ⟨taken ++ [c], (List.append_nil _).symm, by simpa using count⟩
  | begin rest position emitted isRun accepted =>
      refine ⟨taken, whole, count, ?_⟩
      rintro _ _ _ ⟨⟩
      exact ⟨taken, (List.append_nil _).symm, count⟩
  | @extend form c rest position first text emitted accepted =>
      obtain ⟨before, rfl, begun⟩ := slice _ _ _ rfl
      refine ⟨before ++ (c :: text).reverse, by simp [whole], ?_, ?_⟩
      · simp only [List.length_append, List.length_reverse, List.length_cons] at count ⊢
        omega
      · rintro _ _ _ ⟨⟩
        exact ⟨before, rfl, begun⟩
  | @unquote c rest position first text emitted emitted' refused =>
      exact ⟨taken ++ [c], by simp [whole], by simpa using count, fun _ _ _ => nofun⟩
  | flush rest position first text emitted emitted' isRun refused =>
      exact ⟨taken, whole, count, fun _ _ _ => nofun⟩

theorem moves (placed : Placed source scanner) (moves : Relation.ReflTransGen Leads scanner next) :
    Placed source next := by
  induction moves with
  | refl => exact placed
  | tail _ leads ih => exact ih.move leads.move

/-- **The lexeme is a slice of the text.** -/
theorem slice (placed : Placed source scanner) {form : Form} {first : Nat} {text : List Char}
    (reading : scanner.activity = .reading form first text) :
    first ≤ scanner.position ∧ text.reverse = source.extract first scanner.position := by
  obtain ⟨taken, whole, count, slice⟩ := placed
  obtain ⟨before, rfl, rfl⟩ := slice form first text reading
  rw [List.length_append] at count
  refine ⟨by omega, ?_⟩
  have length : scanner.position - before.length = text.reverse.length := by omega
  rw [List.extract_eq_take_drop, whole, List.append_assoc, List.drop_left, length, List.take_left]

/-- The characters ahead are those from the position on. -/
theorem ahead (placed : Placed source scanner) :
    scanner.position ≤ source.length ∧ scanner.rest = source.drop scanner.position := by
  obtain ⟨taken, whole, count, -⟩ := placed
  rw [whole, count, List.length_append, List.drop_left]
  exact ⟨Nat.le_add_right _ _, rfl⟩

end Placed

/-! ## Flushes -/

/-- A move after which the lexeme that was being read is complete. -/
def Flushes (scanner next : Scanner) : Prop :=
  Leads scanner next ∧ scanner.activity ≠ .idle ∧ next.activity = .idle

/-- The scanner is behind a position, or it is there and not about to flush. -/
def Past (position : Nat) (scanner : Scanner) : Prop :=
  position < scanner.position ∨ scanner.position = position ∧
    (scanner.activity = .idle ∨ ∃ form first text c rest,
      scanner.activity = .reading form first text ∧ scanner.rest = c :: rest ∧
        form.accepts c = true)

namespace Past

variable {position : Nat} {scanner next : Scanner}

theorem of_flushes (flushes : Flushes scanner next) : Past scanner.position next := by
  obtain ⟨leads, reading, idle⟩ := flushes
  cases leads.move with
  | skip => exact absurd rfl reading
  | quote => exact absurd rfl reading
  | begin => exact absurd rfl reading
  | extend => cases idle
  | unquote => exact .inl (Nat.lt_succ_self _)
  | flush => exact .inr ⟨rfl, .inl rfl⟩

/-- **A move leads past a position that is passed.** -/
theorem move (past : Past position scanner) (move : Move scanner next) : Past position next := by
  have reached : position ≤ scanner.position := by
    rcases past with beyond | ⟨here, -⟩
    · exact Nat.le_of_lt beyond
    · exact Nat.le_of_eq here.symm
  cases move with
  | skip | quote | extend | unquote => exact .inl (Nat.lt_succ_of_le reached)
  | begin rest here emitted isRun accepted =>
      rcases past with beyond | ⟨rfl, -⟩
      · exact .inl beyond
      · exact .inr ⟨rfl, .inr ⟨_, _, _, _, _, rfl, rfl, accepted⟩⟩
  | flush rest here first text emitted emitted' isRun refused =>
      rcases past with beyond | ⟨-, idle | ⟨form, first, text, c, rest, reading, ahead, accepted⟩⟩
      · exact .inl beyond
      · cases idle
      · cases reading
        cases ahead
        rw [refused] at accepted
        cases accepted

theorem moves (past : Past position scanner) (moves : Relation.ReflTransGen Leads scanner next) :
    Past position next := by
  induction moves with
  | refl => exact past
  | tail _ leads ih => exact ih.move leads.move

/-- A lexeme that is complete later is complete further on. -/
theorem lt_of_flushed (past : Past position scanner) (flushes : Flushes scanner next) :
    position < scanner.position := by
  obtain ⟨leads, busy, idle⟩ := flushes
  rcases past with beyond | ⟨-, still | ⟨form, first, text, c, rest, reading, ahead, accepted⟩⟩
  · exact beyond
  · exact absurd still busy
  · cases leads.move with
    | skip | quote | begin => cases reading
    | extend => cases idle
    | unquote _ _ _ _ _ _ refused | flush _ _ _ _ _ _ _ refused =>
        cases reading
        cases ahead
        rw [refused] at accepted
        cases accepted

end Past

/-! ## The whole loop -/

/-- No sequence of moves is endless. -/
theorem leads_wellFounded : WellFounded fun next scanner : Scanner => Leads scanner next :=
  Subrelation.wf (fun ⟨_, _, ahead, moved⟩ => step_measure ahead moved)
    (InvImage.wf Scanner.measure Nat.lt_wfRel.wf)

/-- After the first move on a run, the next one takes the character before which it began. -/
theorem begun_accepts {scanner next : Scanner} {c : Char} {rest : List Char}
    (idle : scanner.activity = .idle) (ahead : scanner.rest = c :: rest)
    (moved : scanner.step c rest = .ok next) {form : Form} {first : Nat} {text : List Char}
    (reading : next.activity = .reading form first text) (isRun : form ≠ .string) :
    next.rest = c :: rest ∧ next.position = scanner.position ∧ form.accepts c = true ∧
      next.step c rest =
        .ok ⟨rest, next.position + 1, .reading form first [c], next.emitted⟩ := by
  have leads : Leads scanner next := ⟨c, rest, ahead, moved⟩
  cases leads.move with
  | skip | unquote | flush => cases reading
  | quote =>
      cases reading
      exact absurd rfl isRun
  | extend => cases idle
  | begin rest position emitted _ accepted =>
      cases reading
      cases ahead
      exact ⟨rfl, rfl, accepted, by simp only [step, resume, if_pos accepted]⟩

/-- **The scanner gets on.** In every state that it comes to on a text, the lexeme being read is the
slice of the text from its start to the position. A move on the character there fails or decreases
the measure: a run that is begun accepts the character before it, which the next move takes, and a
lexeme that is complete later is complete at a greater position. So no sequence of moves is endless,
and with as many moves as the measure, or more, the scanner fails or comes to the end of the
text. -/
theorem scanner_progress (source : String) :
    (∀ scanner, Relation.ReflTransGen Leads (start source.toList) scanner →
      (scanner.position ≤ source.toList.length ∧
        scanner.rest = source.toList.drop scanner.position) ∧
      (∀ form first text, scanner.activity = .reading form first text →
        first ≤ scanner.position ∧
          text.reverse = source.toList.extract first scanner.position) ∧
      (∀ c rest, scanner.rest = c :: rest →
        (∃ failure, scanner.step c rest = .error failure) ∨
          ∃ next, scanner.step c rest = .ok next ∧ next.measure < scanner.measure) ∧
      (∀ c rest next form first text, scanner.activity = .idle → scanner.rest = c :: rest →
        scanner.step c rest = .ok next → next.activity = .reading form first text →
          form ≠ .string → next.rest = c :: rest ∧ next.position = scanner.position ∧
            form.accepts c = true ∧ next.step c rest =
              .ok ⟨rest, next.position + 1, .reading form first [c], next.emitted⟩) ∧
      ∀ next later last, Flushes scanner next → Relation.ReflTransGen Leads next later →
        Flushes later last → scanner.position < later.position) ∧
    (WellFounded fun next scanner : Scanner => Leads scanner next) ∧
    ∀ moves, (start source.toList).measure ≤ moves →
      (∃ failure, run moves (start source.toList) = .error failure) ∨
        ∃ last, run moves (start source.toList) = .ok last ∧ last.rest = [] ∧
          last.position = source.toList.length := by
  refine ⟨fun scanner reached => ?_, leads_wellFounded, fun moves enough => ?_⟩
  · have placed := (Placed.start source.toList).moves reached
    refine ⟨placed.ahead, fun form first text => placed.slice, fun c rest ahead => ?_, ?_, ?_⟩
    · cases moved : scanner.step c rest with
      | error failure => exact .inl ⟨failure, rfl⟩
      | ok next => exact .inr ⟨next, rfl, step_measure ahead moved⟩
    · intro c rest next form first text idle ahead moved reading isRun
      exact begun_accepts idle ahead moved reading isRun
    · intro next later last flushes between flushesAgain
      exact ((Past.of_flushes flushes).moves between).lt_of_flushed flushesAgain
  · cases ran : run moves (start source.toList) with
    | error failure => exact .inl ⟨failure, rfl⟩
    | ok last =>
        have atEnd := run_rest enough ran
        have place := ((Placed.start source.toList).moves (leads_of_run ran)).ahead
        rw [atEnd, eq_comm, List.drop_eq_nil_iff] at place
        exact .inr ⟨last, rfl, atEnd, Nat.le_antisymm place.1 place.2⟩

/-- In `ab+` the word is read up to its second letter, and it is flushed before the sign. -/
theorem scanner_progress_word :
    let reading : Scanner := ⟨['+'], 2, .reading .word 0 ['b', 'a'], []⟩
    let idle : Scanner := ⟨['+'], 2, .idle, [⟨.identifier, "ab", 0, false⟩]⟩
    ['a', 'b'] = "ab+".toList.extract 0 2 ∧
      (∃ next, reading.step '+' [] = .ok next ∧ next.measure < reading.measure) ∧
      idle.step '+' [] = .ok ⟨['+'], 2, .reading .symbol 2 [], idle.emitted⟩ ∧
      Form.symbol.accepts '+' = true ∧
      ∃ last, run 20 (start "ab+".toList) = .ok last ∧ last.position = 3 := by
  intro reading idle
  have reached : Relation.ReflTransGen Leads (start "ab+".toList) reading :=
    @leads_of_run 3 _ _ rfl
  have closed : Relation.ReflTransGen Leads (start "ab+".toList) idle :=
    @leads_of_run 4 _ _ rfl
  have progress := (scanner_progress "ab+").1
  refine ⟨((progress reading reached).2.1 _ _ _ rfl).2, ?_, rfl, ?_, ?_⟩
  · rcases (progress reading reached).2.2.1 '+' [] rfl with ⟨failure, failed⟩ | moved
    · cases failed
    · exact moved
  · exact ((progress idle closed).2.2.2.1 '+' [] _ _ _ _ rfl rfl rfl rfl nofun).2.2.1
  · rcases (scanner_progress "ab+").2.2 20 (by decide) with ⟨failure, failed⟩ | ⟨last, ran, -, place⟩
    · cases failed
    · exact ⟨last, ran, place⟩

end Scanner

end Lexer

end BraceLang
