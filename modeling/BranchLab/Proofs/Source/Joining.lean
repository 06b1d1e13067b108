import Mathlib.Algebra.GroupWithZero.Nat
import BranchLab.Proofs.Source.Down
import BranchLab.Proofs.Source.Spelling

/-! Texts below one another. What follows a program and a line feed is read as if it stood alone,
only further down: no token and no comment goes on beyond the line feed, a statement is read
whatever comes after it, and every statement has the room for nesting that the first one had. -/

namespace BranchLab

def Program.followedBy (program rest : Program) : Program :=
  ⟨program.statements ++ rest.statements⟩

namespace Source

section Scanning

theorem takeWhile_joint {p : Char → Bool} (stops : p '\n' = false) (text below : List Char) :
    (text ++ '\n' :: below).takeWhile p = text.takeWhile p := by
  induction text with
  | nil => simp [stops]
  | cons c text ih =>
    rw [List.cons_append, List.takeWhile_cons, List.takeWhile_cons, ih]

theorem symbol_joint (first : Char) (text below : List Char) :
    Lexeme.symbol first (text ++ '\n' :: below) = Lexeme.symbol first text := by
  cases text with
  | nil =>
    have alone : Token.ofPair first '\n' = none := by
      unfold Token.ofPair
      split <;> simp_all
    simp [Lexeme.symbol, alone]
  | cons second text => rfl

/-- Nothing that begins in a text goes on beyond its last line. -/
theorem read_joint (first : Char) (text below : List Char) :
    Lexeme.read first (text ++ '\n' :: below) = Lexeme.read first text := by
  have next : (text ++ '\n' :: below).head? = some '/' ↔ text.head? = some '/' := by
    cases text <;> simp
  have comment := takeWhile_joint (p := fun c => c ≠ '\n') (by decide) text below
  have digits := takeWhile_joint (p := Char.isDigit) (by decide) text below
  have letters := takeWhile_joint (p := continuesWord) (by decide) text below
  simp only [Lexeme.read, Lexeme.number, Lexeme.word, next, comment, digits, letters, symbol_joint]

def Lexeme.Inside (length : Nat) : Lexeme → Prop
  | trivia more | token _ more => more ≤ length
  | fault _ => True

theorem read_inside (first : Char) (text : List Char) :
    (Lexeme.read first text).Inside text.length := by
  have prefixes (p : Char → Bool) : (text.takeWhile p).length ≤ text.length :=
    (List.takeWhile_prefix p).length_le
  have begins := begins_read first text
  generalize Lexeme.read first text = lexeme at begins ⊢
  cases begins with
  | blank | single => exact Nat.zero_le _
  | comment | number | word => exact prefixes _
  | tooLarge | unknown => trivial
  | pair next =>
    cases text with
    | nil => cases next
    | cons second text => exact Nat.succ_le_succ (Nat.zero_le text.length)

theorem scanFrom_joint {text : List Char} {place : Location} {pending : Nat}
    {found tokens : List Located} (fits : pending ≤ text.length)
    (scanned : scanFrom Lexeme.read place pending found text = .ok tokens) (below : List Char) :
    scanFrom Lexeme.read place pending found (text ++ '\n' :: below) =
      scanFrom Lexeme.read (place.across text) 0 tokens.reverse ('\n' :: below) := by
  induction text generalizing place pending found with
  | nil =>
    obtain rfl : pending = 0 := Nat.le_zero.mp fits
    cases scanned
    rw [List.reverse_reverse]
    rfl
  | cons c text ih =>
    cases pending with
    | succ pending =>
      rw [scanFrom] at scanned
      rw [List.cons_append, scanFrom]
      exact ih (Nat.le_of_succ_le_succ fits) scanned
    | zero =>
      -- What begins in the text ends in it, so nothing is pending at the joint.
      have inside := read_inside c text
      rw [scanFrom] at scanned
      rw [List.cons_append, scanFrom, read_joint]
      cases begun : Lexeme.read c text with
      | trivia more =>
        rw [begun] at scanned inside
        exact ih inside scanned
      | token token more =>
        rw [begun] at scanned inside
        exact ih inside scanned
      | fault cause =>
        rw [begun] at scanned
        cases scanned

def lineCount (text : List Char) : Nat := text.count '\n' + 1

theorem endOf_after_feed (text : List Char) :
    (Location.endOf text).after '\n' = Location.start.down (lineCount text) := by
  simp [Location.endOf, Location.after, Location.start, Location.down, lineCount, Nat.add_comm]

theorem endOf_joint (text below : List Char) :
    Location.endOf (text ++ '\n' :: below) = (Location.endOf below).down (lineCount text) := by
  rw [← Location.across_start, Location.across_append, Location.across_cons, Location.across_start,
    endOf_after_feed, Location.across_down, Location.across_start]

theorem scan_below {text : List Char} {tokens : Tokens} (scanned : scan text = .ok tokens)
    (below : List Char) :
    MovesDown (lineCount text)
      (fun others => tokens ++ others.map (Located.down (lineCount text)))
      (scan below) (scan (text ++ '\n' :: below)) := by
  have blank : Text.isBlank '\n' := by decide
  have moves := scanFrom_down (lineCount text) Lexeme.read below .start 0 [] tokens.reverse
  rw [List.reverse_reverse] at moves
  rw [scan, scan, scanFrom_joint (Nat.zero_le _) scanned, Location.across_start, scanFrom,
    read_blank blank]
  dsimp only
  rw [endOf_after_feed]
  exact moves

end Scanning

section Reading

variable {finish : Location} {room : Nat} {tokens : Tokens}

/-- A statement that is read is read as well in front of other tokens, wherever they end. It breaks
off promptly, so the nesting is not too deep for the one reading and allowed for the other. -/
theorem readStatement_anywhere {statement : Statement} {rest : Tokens}
    (read : readStatement finish room tokens = .ok (statement, rest)) :
    ∃ front, tokens = front ++ rest ∧ front ≠ [] ∧
      ∀ last more, readStatement last room (front ++ more) = .ok (statement, more) := by
  obtain ⟨front, rfl, spelled⟩ := statementsSpell finish room _ _ _ read
  refine ⟨front, rfl, ?_, fun last more => ?_⟩
  · obtain ⟨word, others, rfl | rfl⟩ := spelled.head <;> exact List.cons_ne_nil _ _
  -- With the statement given as the answer, nothing is read after it that could break off.
  let answer (found : Statement) : Ending (Statement × Tokens) := fun _ left => .ok (found, left)
  let reading := andThen (fun finish => readStatement finish room) answer
  have whole (last : Location) (tokens : Tokens) :
      reading last tokens = readStatement last room tokens := by
    simp only [reading, andThen, answer]
    cases readStatement last room tokens <;> rfl
  have prompt : Prompt ((front ++ more).length + 1) reading :=
    statementsPrompt _ room _ answer fun found =>
      ⟨⟨[], (found, []), endsChain_nil 0, fun _ => rfl⟩, by simp [answer]⟩
  obtain ⟨need, reads⟩ := spelled.readsBack finish
  have enough : need ≤ room := by
    by_contra beyond
    obtain ⟨place, failed⟩ := (reads room rest).2 (Nat.lt_of_not_le beyond)
    cases failed.symm.trans read
  obtain ⟨other, rereads⟩ := spelled.readsBack last
  by_cases fits : other ≤ room
  · exact (rereads room more).1 fits
  · obtain ⟨place, failed⟩ := (rereads room more).2 (Nat.lt_of_not_le fits)
    have broken := prompt.breaks last _ _ (Nat.le_succ _) ((whole last _).trans failed)
    generalize joined : front ++ more = all at broken
    cases broken with
    | atToken before behind viable blames fixed =>
      have stuck := (whole finish _).symm.trans (fixed finish behind)
      rw [← joined, (reads room more).1 enough] at stuck
      cases stuck

theorem blockThen_below {found : List Statement} {program : Program}
    (read : blockThen room (fun _ => false) found programOf finish tokens = .ok program)
    (last : Location) (more : Tokens) :
    blockThen room (fun _ => false) found programOf last (tokens ++ more) =
      blockThen room (fun _ => false) program.statements.reverse programOf last more := by
  induction size : tokens.length using Nat.strongRecOn generalizing tokens found with
  | ind size ih =>
    subst size
    by_cases ends : EndsBlock (fun _ => false) tokens
    · rw [blockThen_of_ends ends] at read
      cases read
      cases tokens with
      | nil => rw [List.reverse_reverse, List.nil_append]
      | cons head rest => exact nomatch ends head rest rfl
    · rw [blockThen_next ends] at read
      obtain ⟨⟨statement, rest⟩, first, others⟩ := bind_ok.mp read
      obtain ⟨front, rfl, taken, anywhere⟩ := readStatement_anywhere first
      have goes : ¬EndsBlock (fun _ => false) (front ++ rest ++ more) := by
        obtain ⟨head, front, rfl⟩ := List.exists_cons_of_ne_nil taken
        exact fun ends => nomatch ends head _ rfl
      rw [blockThen_next goes, andThen, List.append_assoc, anywhere]
      have shorter : rest.length < (front ++ rest).length := by
        rw [List.length_append]
        exact Nat.lt_add_of_pos_left (List.length_pos_of_ne_nil taken)
      exact ih _ shorter others rfl

theorem readMany_found {α : Type} (part : Tokens → Reading (α × Tokens)) (stop : Token → Bool)
    (turns : Nat) (found before : List α) (tokens : Tokens) :
    readMany part stop turns (found ++ before) tokens =
      (readMany part stop turns found tokens).map fun read =>
        (before.reverse ++ read.1, read.2) := by
  induction turns generalizing found tokens with
  | zero =>
    unfold readMany
    simp [Except.map]
  | succ turns ih =>
    by_cases ends : EndsBlock stop tokens
    · rw [readMany_of_ends part _ _ ends, readMany_of_ends part _ found ends]
      simp [Except.map]
    · rw [readMany_next part turns _ ends, readMany_next part turns found ends]
      cases part tokens with
      | error error => rfl
      | ok read => exact ih (read.1 :: found) read.2

theorem readProgram_below {program : Program} (read : readProgram finish tokens = .ok program)
    (last : Location) (more : Tokens) :
    readProgram last (tokens ++ more) = (readProgram last more).map program.followedBy := by
  have joined : readProgram last (tokens ++ more) =
      blockThen maxNesting (fun _ => false) program.statements.reverse programOf last more :=
    blockThen_below read last more
  have prefixed := readMany_found (readStatement last maxNesting) (fun _ => false) more.length []
    program.statements.reverse more
  rw [List.nil_append, List.reverse_reverse] at prefixed
  rw [joined, blockThen, andThen, prefixed, readProgram]
  cases readMany (readStatement last maxNesting) (fun _ => false) more.length [] more <;> rfl

end Reading
end Source

open Source

/-- Below a text that is a program, a text is read as it is, further down. -/
theorem Program.ofText_below {text : String} {program : Program}
    (read : Program.ofText text = .ok program) (below : String) :
    MovesDown (lineCount text.toList)
      (fun rest => program.followedBy (rest.down (lineCount text.toList)))
      (Program.ofText below) (Program.ofText (text ++ "\n" ++ below)) := by
  obtain ⟨tokens, scanned, parsed⟩ := bind_ok.mp read
  have chars : (text ++ "\n" ++ below).toList = text.toList ++ '\n' :: below.toList := by simp
  rw [Program.ofText, Program.ofText, chars]
  refine (scan_below scanned below.toList).bind fun others => ?_
  rw [readProgram_below parsed, endOf_joint]
  exact (readProgram_down (lineCount text.toList) (Location.endOf below.toList) others).map
    program.followedBy

/-- Texts with their programs, one below the other, and a last text below them all. -/
abbrev Stack := List (String × Program)

namespace Stack

def text (parts : Stack) (last : String) : String :=
  parts.foldr (fun part below => part.1 ++ "\n" ++ below) last

/-- The programs as one, with `last` for the last text. -/
def program (parts : Stack) (last : Program) : Program :=
  parts.foldr (fun part below => part.2.followedBy (below.down (lineCount part.1.toList))) last

def lines (parts : Stack) : Nat := (parts.map fun part => lineCount part.1.toList).sum

theorem ofText_text {parts : Stack} (read : ∀ part ∈ parts, Program.ofText part.1 = .ok part.2)
    (last : String) :
    MovesDown parts.lines parts.program (Program.ofText last)
      (Program.ofText (parts.text last)) := by
  induction parts with
  | nil => exact .refl (Program.ofText last)
  | cons part parts ih =>
    have others := ih fun other inside => read other (List.mem_cons_of_mem part inside)
    have first := Program.ofText_below (read part List.mem_cons_self) (Stack.text parts last)
    have whole := others.trans first
    rwa [Nat.add_comm] at whole

end Stack

/-- What stands below the text of a program is read as it is when it stands alone, with every line
raised by the number of lines above it: its statements follow those of the program, and its first
error is the first error of the whole. The same holds below any number of such texts. -/
theorem text_below_program_is_read_alone :
    (∀ (text below : String) (program : Program), Program.ofText text = .ok program →
      let lines := text.toList.count '\n' + 1
      (∀ rest, Program.ofText below = .ok rest → Program.ofText (text ++ "\n" ++ below) =
        .ok ⟨program.statements ++ rest.statements.map (Statement.down lines)⟩) ∧
      (∀ error, Program.ofText below = .error error → Program.ofText (text ++ "\n" ++ below) =
        .error ⟨⟨error.place.line + lines, error.place.column⟩, error.cause⟩)) ∧
    ∀ (parts : Stack) (last : String),
      (∀ part ∈ parts, Program.ofText part.1 = .ok part.2) →
      (∀ rest, Program.ofText last = .ok rest →
        Program.ofText (parts.text last) = .ok (parts.program rest)) ∧
      (∀ error, Program.ofText last = .error error →
        Program.ofText (parts.text last) = .error (error.down parts.lines)) := by
  refine ⟨fun text below program read => ?_, fun parts last read => ?_⟩
  · have moves := Program.ofText_below read below
    exact ⟨fun rest alone => moves.ok alone, fun error alone => moves.error alone⟩
  · have moves := Stack.ofText_text read last
    exact ⟨fun rest alone => moves.ok alone, fun error alone => moves.error alone⟩

/-- The comment at the end of the program ends there, and a text below it breaks off at its end. -/
theorem text_below_program_is_read_alone_comment :
    let text := "let a = 1;\nlet c = a; // let d = ("
    let program : Program := ⟨[.bind "a" (.number 1) ⟨1, 1⟩, .bind "c" (.ident "a") ⟨2, 2⟩]⟩
    Program.ofText text = .ok program ∧
      Program.ofText "\nlet b = 2;" = .ok ⟨[.bind "b" (.number 2) ⟨2, 2⟩]⟩ ∧
      Program.ofText "let b = (2" = .error ⟨⟨1, 11⟩, .unexpectedEnd (.exactly .closeParen)⟩ ∧
      Program.ofText (text ++ "\n" ++ "\nlet b = 2;") =
        .ok ⟨program.statements ++ [.bind "b" (.number 2) ⟨4, 4⟩]⟩ ∧
      Program.ofText (text ++ "\n" ++ "let b = (2") =
        .error ⟨⟨3, 11⟩, .unexpectedEnd (.exactly .closeParen)⟩ := by
  intro text program
  have read : Program.ofText text = .ok program := by decide +kernel
  have follows : Program.ofText "\nlet b = 2;" = .ok ⟨[.bind "b" (.number 2) ⟨2, 2⟩]⟩ := by decide +kernel
  have breaks : Program.ofText "let b = (2" =
      .error ⟨⟨1, 11⟩, .unexpectedEnd (.exactly .closeParen)⟩ := by decide +kernel
  have lines : text.toList.count '\n' + 1 = 2 := by decide +kernel
  have joined := text_below_program_is_read_alone.1 text "\nlet b = 2;" program read
  have broken := text_below_program_is_read_alone.1 text "let b = (2" program read
  rw [lines] at joined broken
  exact ⟨read, follows, breaks, joined.1 _ follows, broken.2 _ breaks⟩

end BranchLab
