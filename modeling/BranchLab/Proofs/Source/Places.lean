import BranchLab.Proofs.Source.Fences
import BranchLab.Proofs.Source.Lexemes
import BranchLab.Proofs.Source.Sites

/-! Places in a literate text. Its program text has as many lines, each of which is empty or the one
with its number in the text, so that whatever stands in a line of the program text stands at the
same place in the text. That holds of every token, and with it of statements and errors. -/

namespace BranchLab.Source

/-- The text consists of the lines, each ended by a line feed, with or without a carriage return
before it. The last one need not be ended. -/
inductive IsLines : List Char → List (List Char) → Prop
  | nil : IsLines [] []
  | last {line : List Char} (feedless : '\n' ∉ line) : IsLines line [line]
  | ended {line below : List Char} {lines : List (List Char)} (ending : List Char)
      (feedless : '\n' ∉ line) (ends : ending = ['\n'] ∨ ending = ['\r', '\n'])
      (others : IsLines below lines) : IsLines (line ++ (ending ++ below)) (line :: lines)

section Lines

variable {text line : List Char} {lines : List (List Char)}

theorem exists_ending (text : List Char) (feedless : '\n' ∉ line) : ∃ ending,
    line.reverse ++ '\n' :: text = Text.finishLine line ++ (ending ++ text) ∧
      (ending = ['\n'] ∨ ending = ['\r', '\n']) ∧ '\n' ∉ Text.finishLine line := by
  unfold Text.finishLine
  split
  · exact ⟨['\r', '\n'], by simp, .inr rfl, by simp_all⟩
  · exact ⟨['\n'], rfl, .inl rfl, by simpa using feedless⟩

theorem linesFrom_isLines (done : List (List Char)) (text : List Char) (feedless : '\n' ∉ line) :
    ∃ lines, Text.linesFrom done line text = done.reverse ++ lines ∧
      IsLines (line.reverse ++ text) lines := by
  induction text generalizing done line with
  | nil =>
    by_cases empty : line = []
    · subst empty
      exact ⟨[], by simp [Text.linesFrom], .nil⟩
    · refine ⟨[line.reverse], by simp [Text.linesFrom, empty], ?_⟩
      rw [List.append_nil]
      exact .last (by simpa using feedless)
  | cons c text ih =>
    by_cases feed : c = '\n'
    · subst feed
      obtain ⟨lines, same, split⟩ := ih (Text.finishLine line :: done) List.not_mem_nil
      obtain ⟨ending, whole, ends, plain⟩ := exists_ending text feedless
      refine ⟨Text.finishLine line :: lines, by simp [Text.linesFrom, same], ?_⟩
      rw [whole]
      exact .ended ending plain ends split
    · have longer : '\n' ∉ c :: line := by simp [feedless, Ne.symm feed]
      obtain ⟨lines, same, split⟩ := ih done longer
      refine ⟨lines, by simpa [Text.linesFrom, feed] using same, ?_⟩
      simpa using split

theorem isLines_lines (text : List Char) : IsLines text (Text.lines text) := by
  obtain ⟨lines, same, split⟩ := linesFrom_isLines [] text List.not_mem_nil
  rw [Text.lines, same]
  exact split

theorem IsLines.feedless (split : IsLines text lines) : ∀ line ∈ lines, '\n' ∉ line := by
  induction split with
  | nil => simp
  | last feedless => simpa using feedless
  | ended ending feedless ends others ih =>
    intro other member
    rcases List.mem_cons.mp member with rfl | inside
    · exact feedless
    · exact ih other inside

abbrev Blanks : List (List Char) → List (List Char) → Prop :=
  List.Forall₂ fun kept line => kept = [] ∨ kept = line

theorem keepPrograms_blanks (opened : Option Nat) (lines : List (List Char)) :
    Blanks (keepPrograms opened [] lines) lines := by
  induction lines generalizing opened with
  | nil => exact .nil
  | cons line lines ih =>
    rw [keepPrograms_cons]
    refine .cons ?_ (ih _)
    split
    · exact .inr rfl
    · exact .inl rfl

theorem Blanks.feedless {kept : List (List Char)} (blanks : Blanks kept lines)
    (plain : ∀ line ∈ lines, '\n' ∉ line) : ∀ line ∈ kept, '\n' ∉ line := by
  induction blanks with
  | nil => simp
  | @cons line original kept lines same others ih =>
    intro other member
    rcases List.mem_cons.mp member with rfl | inside
    · rcases same with rfl | rfl
      · exact List.not_mem_nil
      · exact plain other List.mem_cons_self
    · exact ih (fun line within => plain line (List.mem_cons_of_mem _ within)) other inside

theorem Divides.lines_eq {opens : List Char → Prop} {segments : List Segment}
    (divided : Divides opens lines segments) : lines = segments.flatMap Segment.lines := by
  induction divided with
  | done => rfl
  | prose plain others ih => rw [List.flatMap_cons, ← ih]; rfl
  | block begins opened inside ends enough others ih =>
    rw [List.flatMap_cons, ← ih]
    simp [Segment.lines]
  | unclosed => simp [Segment.lines]

theorem Segment.length_kept (segment : Segment) : segment.kept.length = segment.lines.length := by
  cases segment with
  | prose line => rfl
  | block tag opening content closing =>
    rw [Segment.kept, Segment.lines]
    split <;> simp

end Lines

section Standing

variable {start place : Location} {line below part content : List Char}
  {kept lines : List (List Char)}

theorem StandsIn.before (stands : StandsIn start line part place) (below : List Char) :
    StandsIn start (line ++ below) part place := by
  obtain ⟨front, back, rfl, same⟩ := stands
  exact ⟨front, back ++ below, by simp, same⟩

theorem not_standsIn_nil (visible : part ≠ []) : ¬StandsIn start [] part place := by
  rintro ⟨front, back, same, -⟩
  simp_all

theorem across_line (feedless : '\n' ∉ line) (place : Location) :
    (place.across line).after '\n' = ⟨place.line + 1, 1⟩ := by
  rw [Location.after, if_pos rfl, Location.line_across feedless]

theorem across_ending {ending : List Char} (ends : ending = ['\n'] ∨ ending = ['\r', '\n'])
    (feedless : '\n' ∉ line) (place : Location) :
    place.across (line ++ ending) = ⟨place.line + 1, 1⟩ := by
  rw [Location.across_append]
  rcases ends with rfl | rfl
  · exact across_line feedless place
  · have second : '\n' ∉ ['\r'] := by decide
    exact (across_line second _).trans (by rw [Location.line_across feedless])

/-- What stands in a text without a line feed of its own stands in the first line or below it. -/
theorem StandsIn.of_line (stands : StandsIn start (line ++ '\n' :: below) part place)
    (within : '\n' ∉ part) :
    StandsIn start line part place ∨ StandsIn ((start.across line).after '\n') below part place := by
  obtain ⟨front, back, same, rfl⟩ := stands
  -- The part begins behind the line or in it, and then it ends in it, since it does not hold the feed.
  rcases List.append_eq_append_iff.mp same with ⟨more, rfl, tail⟩ | ⟨more, rfl, tail⟩
  · cases more with
    | nil =>
      cases part with
      | nil => exact .inl ⟨line, [], by simp, by simp⟩
      | cons c part =>
        obtain ⟨rfl, -⟩ := List.cons.inj tail
        exact absurd List.mem_cons_self within
    | cons c more =>
      obtain ⟨rfl, rfl⟩ := List.cons.inj tail
      exact .inr ⟨more, back, rfl, by rw [Location.across_append, Location.across_cons]⟩
  · rcases List.append_eq_append_iff.mp tail with ⟨rest, rfl, -⟩ | ⟨rest, rfl, feed⟩
    · exact .inl ⟨front, rest, rfl, rfl⟩
    · cases rest with
      | nil => exact .inl ⟨front, [], by simp, rfl⟩
      | cons c rest =>
        obtain ⟨rfl, -⟩ := List.cons.inj feed
        exact absurd (by simp) within

theorem StandsIn.of_kept {original : List Char} (kept : line = [] ∨ line = original)
    (feedless : '\n' ∉ original) (visible : part ≠ []) (within : '\n' ∉ part)
    (stands : StandsIn start (textOf (line :: lines)) part place) :
    StandsIn start original part place ∨ StandsIn ⟨start.line + 1, 1⟩ (textOf lines) part place := by
  have plain : '\n' ∉ line := by
    rcases kept with rfl | rfl
    · exact List.not_mem_nil
    · exact feedless
  have split : textOf (line :: lines) = line ++ '\n' :: textOf lines := by simp [textOf]
  rw [split] at stands
  rcases stands.of_line within with inside | behind
  · rcases kept with rfl | rfl
    · exact absurd inside (not_standsIn_nil visible)
    · exact .inl inside
  · rw [across_line plain] at behind
    exact .inr behind

/-- Whatever stands in the lines that are kept stands at the same place in the text. -/
theorem IsLines.standsIn (split : IsLines content lines) (blanks : Blanks kept lines)
    (visible : part ≠ []) (within : '\n' ∉ part) (stands : StandsIn start (textOf kept) part place) :
    StandsIn start content part place := by
  induction split generalizing start kept with
  | nil =>
    cases blanks
    exact absurd stands (not_standsIn_nil visible)
  | last feedless =>
    obtain _ | ⟨same, others⟩ := blanks
    cases others
    rcases stands.of_kept same feedless visible within with inside | behind
    · exact inside
    · exact absurd behind (not_standsIn_nil visible)
  | @ended line below lines ending feedless ends others ih =>
    obtain _ | ⟨same, blanks⟩ := blanks
    rcases stands.of_kept same feedless visible within with inside | behind
    · exact inside.before _
    · rw [← across_ending ends feedless start] at behind
      rw [← List.append_assoc]
      exact (ih blanks behind).behind

end Standing

/-- The characters, at least one, stand at the same place in a text and in another one. -/
def StandsAlike (text other : String) (part : List Char) (place : Location) : Prop :=
  part ≠ [] ∧ StandsIn .start text.toList part place ∧ StandsIn .start other.toList part place

section Alike

variable {path content : String} (literate : isLiterate path = true)
include literate

theorem standsAlike {part : List Char} {place : Location}
    (stands : StandsIn .start (programText path content).toList part place) (visible : part ≠ [])
    (within : '\n' ∉ part) : StandsAlike (programText path content) content part place := by
  refine ⟨visible, stands, ?_⟩
  rw [toList_programText literate] at stands
  exact (isLines_lines _).standsIn (keepPrograms_blanks none _) visible within stands

theorem token_standsAlike {tokens : Tokens}
    (scanned : scan (programText path content).toList = .ok tokens) {located : Located}
    (member : located ∈ tokens) : ∃ part, located.token.ReadFrom part ∧
      StandsAlike (programText path content) content part located.place := by
  obtain ⟨part, stands, found, visible, within⟩ := (scans_scan _).token_stands scanned member
  exact ⟨part, found, standsAlike literate stands visible within⟩

theorem statement_standsAlike {tokens : Tokens} {program : Program}
    (scanned : scan (programText path content).toList = .ok tokens)
    (spelled : SpellsProgram tokens program) {entry : Nat × Statement}
    (member : entry ∈ program.outline) : ∃ first last middle,
      let part := ⟨entry.2.opening, first⟩ :: (middle ++ [⟨entry.2.closing, last⟩])
      part <:+: tokens ∧ Spells part entry.2 ∧ entry.2.lines = ⟨first.line, last.line⟩ ∧
      StandsAlike (programText path content) content entry.2.opening.spelling.toList first ∧
      StandsAlike (programText path content) content entry.2.closing.spelling.toList last := by
  obtain ⟨part, together, found⟩ := spelled.outline entry member
  obtain ⟨first, last, middle, rfl, lines⟩ := found.ends
  obtain ⟨opening, begins, stands⟩ :=
    token_standsAlike literate scanned (together.subset List.mem_cons_self)
  have behind : (⟨entry.2.closing, last⟩ : Located) ∈ tokens := together.subset (by simp)
  obtain ⟨closing, ends, below⟩ := token_standsAlike literate scanned behind
  have spelling : opening = entry.2.opening.spelling.toList ∧
      closing = entry.2.closing.spelling.toList := by
    cases statement : entry.2 <;> rw [statement] at begins ends <;> exact ⟨begins, ends⟩
  obtain ⟨rfl, rfl⟩ := spelling
  exact ⟨first, last, middle, together, found, lines, stands, below⟩

theorem error_standsAlike {error : SyntaxError}
    (failed : Program.ofText (programText path content) = .error error)
    (found : ∀ wanted, error.cause ≠ .unexpectedEnd wanted) :
    ∃ part, StandsAlike (programText path content) content part error.place ∧
      (error.cause.ReadFrom part ∨ ∃ tokens token,
        scan (programText path content).toList = .ok tokens ∧ ⟨token, error.place⟩ ∈ tokens ∧
          token.ReadFrom part) := by
  rcases bind_error.mp failed with faulty | ⟨tokens, scanned, misread⟩
  · obtain ⟨part, stands, told, visible, within⟩ := (scans_scan _).fault_stands faulty
    exact ⟨part, standsAlike literate stands visible within, .inl told⟩
  · obtain ⟨⟨token, place⟩, member, same⟩ := exists_token_of_readProgram misread found
    obtain rfl : place = error.place := same
    obtain ⟨part, read, stands⟩ := token_standsAlike literate scanned member
    exact ⟨part, stands, .inr ⟨tokens, token, scanned, member, read⟩⟩

end Alike

/-- The program text of a literate text has as many lines as the text, each ended by a line feed.
Each is empty or the line with its number in the text, and the fences of program text are empty. So
whatever stands in one of its lines stands at the same place in the text: the characters of every
token, those with which a statement begins and ends, and those at which an error is reported, unless
the program text ends there. -/
theorem literate_places_are_those_of_the_file (path content : String)
    (literate : isLiterate path = true) :
    let text := programText path content
    let lines := Text.lines content.toList
    (∃ kept, text.toList = textOf kept ∧ (∀ line ∈ kept, '\n' ∉ line) ∧
      List.Forall₂ (fun line original => line = [] ∨ line = original) kept lines ∧
      ∀ segments, Divides (· = fenceTag) lines segments →
        lines = segments.flatMap Segment.lines ∧ kept = segments.flatMap Segment.kept ∧
        ∀ segment ∈ segments, segment.kept.length = segment.lines.length) ∧
    (∀ part place, StandsIn .start text.toList part place → part ≠ [] → '\n' ∉ part →
      StandsIn .start content.toList part place) ∧
    (∀ tokens, scan text.toList = .ok tokens → ∀ located ∈ tokens, ∃ part,
      located.token.ReadFrom part ∧ StandsAlike text content part located.place) ∧
    (∀ program, Program.ofText text = .ok program → ∃ tokens, scan text.toList = .ok tokens ∧
      (∀ entry ∈ program.outline, ∃ first last middle,
        let part := ⟨entry.2.opening, first⟩ :: (middle ++ [⟨entry.2.closing, last⟩])
        part <:+: tokens ∧ Spells part entry.2 ∧ entry.2.lines = ⟨first.line, last.line⟩ ∧
        StandsAlike text content entry.2.opening.spelling.toList first ∧
        StandsAlike text content entry.2.closing.spelling.toList last) ∧
      program.branchSites = guardLines tokens ∧
      (∀ pc ∈ program.branchSites, ∃ column,
        StandsAlike text content Token.ifWord.spelling.toList ⟨pc, column⟩) ∧
      ∀ initial error, program.check initial = .error error →
        ∃ entry ∈ program.outline, error.line = entry.2.lines.start) ∧
    ∀ error, Program.ofText text = .error error → (∀ wanted, error.cause ≠ .unexpectedEnd wanted) →
      ∃ part, StandsAlike text content part error.place ∧
        (error.cause.ReadFrom part ∨ ∃ tokens token, scan text.toList = .ok tokens ∧
          ⟨token, error.place⟩ ∈ tokens ∧ token.ReadFrom part) := by
  intro text lines
  have whole := toList_programText literate content
  have split := isLines_lines content.toList
  have blanks := keepPrograms_blanks none lines
  refine ⟨⟨_, whole, blanks.feedless split.feedless, blanks, fun segments divided =>
      ⟨divided.lines_eq, divided.kept, fun segment _ => segment.length_kept⟩⟩,
    fun part place stands visible within => (standsAlike literate stands visible within).2.2,
    fun tokens scanned located member => token_standsAlike literate scanned member, ?_,
    fun error failed found => error_standsAlike literate failed found⟩
  intro program read
  obtain ⟨tokens, scanned, parsed⟩ := bind_ok.mp read
  have spelled := readProgram_spells parsed
  refine ⟨tokens, scanned, fun entry member => statement_standsAlike literate scanned spelled member,
    spelled.sites, fun pc member => ?_, fun initial error refused =>
      Statement.checkBlock_error 0 initial.keys error program.statements refused⟩
  rw [spelled.sites] at member
  obtain ⟨⟨line, column⟩, inside, rfl⟩ := exists_of_mem_guardLines member
  obtain ⟨part, rfl, stands⟩ := token_standsAlike literate scanned inside
  exact ⟨column, stands⟩

theorem literate_places_are_those_of_the_file_carriage_returns :
    let content := "# A\r\n```ibp\r\n\r\nlet a = 1;\r\n  if (a) \x7b\r\n  \x7d\n```\nlet b = 2;"
    let program : Program := ⟨[.bind "a" (.number 1) ⟨4, 4⟩, .guarded (.ident "a") [] ⟨5, 6⟩]⟩
    let faulty := "```ibp\r\nlet a = ?;"
    let error : SyntaxError := ⟨⟨2, 9⟩, .unexpectedCharacter '?'⟩
    isLiterate "a.md" = true ∧ Program.ofText (programText "a.md" content) = .ok program ∧
      (∃ column, StandsAlike (programText "a.md" content) content "if".toList ⟨5, column⟩) ∧
      Program.ofText (programText "a.md" faulty) = .error error ∧
      StandsAlike (programText "a.md" faulty) faulty ['?'] ⟨2, 9⟩ := by
  intro content program faulty error
  have read : Program.ofText (programText "a.md" content) = .ok program := by
    rw [programText, if_pos isLiterate_md]
    decide +kernel
  have scanFails : scan (programText "a.md" faulty).toList = .error error := by
    rw [programText, if_pos isLiterate_md]
    decide +kernel
  have failed : Program.ofText (programText "a.md" faulty) = .error error :=
    bind_error.mpr (.inl scanFails)
  obtain ⟨-, -, -, programs, -⟩ :=
    literate_places_are_those_of_the_file "a.md" content isLiterate_md
  obtain ⟨tokens, -, -, -, sites, -⟩ := programs program read
  obtain ⟨-, -, -, -, errors⟩ := literate_places_are_those_of_the_file "a.md" faulty isLiterate_md
  obtain ⟨part, stands, told⟩ := errors error failed (by simp [error])
  refine ⟨isLiterate_md, read, sites 5 (by decide), failed, ?_⟩
  rcases told with ⟨⟨⟩⟩ | ⟨tokens, token, scanned, -⟩
  · exact stands
  · rw [scanFails] at scanned
    cases scanned

end BranchLab.Source
