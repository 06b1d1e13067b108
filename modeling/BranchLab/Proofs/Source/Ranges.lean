import BranchLab.Proofs.Source.Sites
import BranchLab.Proofs.Source.Tiling

/-! The lines of statements. The tokens of a text are in the order of their lines, so the statements of
a block follow one another, those under a guard stand within the lines of the block it guards, and
branch sites are listed in order. Which tokens a statement is made of is told by the words that begin
statements: the first one with as many of them before it as statements are listed before. -/

namespace BranchLab

def LineRange.Within (inner outer : LineRange) : Prop :=
  outer.start ≤ inner.start ∧ inner.finish ≤ outer.finish

def Program.blocks (program : Program) : List (List Statement) :=
  program.statements :: program.outline.map fun entry => entry.2.body

namespace Source

def InOrder (tokens : Tokens) : Prop :=
  tokens.Pairwise fun earlier later => earlier.place.line ≤ later.place.line

section Order

variable {tokens part : Tokens} {text : List Char}

theorem InOrder.ofPart (ordered : InOrder tokens) (together : part <:+: tokens) : InOrder part :=
  List.Pairwise.sublist together.sublist ordered

theorem scan_inOrder (scanned : scan text = .ok tokens) : InOrder tokens := by
  obtain ⟨tiling, -, carries, -⟩ := Tiling.of_scans (scans_scan text) [] rfl scanned
  have placed := List.pairwise_map.mp carries.ordered
  refine placed.imp fun before => ?_
  rcases before with earlier | ⟨same, -⟩
  · exact Nat.le_of_lt earlier
  · exact Nat.le_of_eq same

/-- A token stands on a line of the text, counted from one. -/
theorem scan_lines (scanned : scan text = .ok tokens) {located : Located}
    (member : located ∈ tokens) :
    1 ≤ located.place.line ∧ located.place.line ≤ 1 + text.count '\n' := by
  obtain ⟨part, ⟨front, back, rfl, place⟩, -⟩ := (scans_scan text).token_stands scanned member
  rw [← place, Location.across_start, Location.endOf, List.count_append]
  dsimp only
  omega

theorem guardLines_inOrder (ordered : InOrder tokens) : (guardLines tokens).Pairwise (· ≤ ·) := by
  rw [guardLines, List.pairwise_map]
  exact List.Pairwise.sublist List.filter_sublist ordered

end Order

def Token.begins : Token → Bool
  | letWord | ifWord => true
  | _ => false

def begun (tokens : Tokens) : Nat := tokens.countP fun located => located.token.begins

/-- The statements of an outline are those that begin among the tokens, each of them spelled from where
as many begin as are listed before it. -/
structure Lists (tokens : Tokens) (outline : List (Nat × Statement)) : Prop where
  count : begun tokens = outline.length
  spelled : ∀ index entry, outline[index]? = some entry → ∃ before segment after,
    tokens = before ++ segment ++ after ∧ begun before = index ∧ Spells segment entry.2

section Listing

variable {tokens front back : Tokens} {statement : Statement} {depth : Nat}
  {outline others : List (Nat × Statement)}

@[simp] theorem begun_nil : begun [] = 0 := rfl

@[simp] theorem begun_append (front back : Tokens) : begun (front ++ back) = begun front + begun back :=
  List.countP_append

@[simp] theorem begun_cons (token : Token) (place : Location) (rest : Tokens) :
    begun (⟨token, place⟩ :: rest) = begun rest + if token.begins then 1 else 0 :=
  List.countP_cons

/-- No statement begins inside an expression. -/
theorem Derives.unbegun {layer : Layer} {e : Expr} (derived : Derives layer tokens e) :
    begun tokens = 0 := by
  induction derived with
  | @chain _ _ _ _ _ folds joined head signed operands first others =>
    have none : begun (folds.flatMap Fold.tokens) = 0 := by
      refine List.countP_eq_zero.mpr fun located member => ?_
      obtain ⟨fold, listed, inside⟩ := List.mem_flatMap.mp member
      rcases List.mem_cons.mp inside with rfl | within
      · exact Bool.false_ne_true
      · exact List.countP_eq_zero.mp (others fold listed) located within
    rw [begun_append, first, none]
  | plain primary ih => exact ih
  | number | negative | name => rfl
  | not place operand ih | bitNot place operand ih => rw [begun_cons, ih]; rfl
  | draw word opening closing inner ih | group opening closing inner ih =>
    simp [ih, Token.begins]

theorem Lists.plain (none : begun tokens = 0) : Lists tokens [] :=
  ⟨none, fun index entry found => by cases found⟩

theorem Lists.append (first : Lists front outline) (second : Lists back others) :
    Lists (front ++ back) (outline ++ others) := by
  refine ⟨?_, fun index entry found => ?_⟩
  · rw [begun_append, first.count, second.count, List.length_append]
  · rw [List.getElem?_append] at found
    split at found
    · obtain ⟨before, segment, after, rfl, count, spelled⟩ := first.spelled index entry found
      exact ⟨before, segment, after ++ back, List.append_assoc .., count, spelled⟩
    · obtain ⟨before, segment, after, rfl, count, spelled⟩ := second.spelled _ entry found
      refine ⟨front ++ before, segment, after, by simp only [List.append_assoc], ?_, spelled⟩
      rw [begun_append, first.count, count]
      omega

theorem Lists.cons {token : Token} {place : Location} (begins : token.begins)
    (spelled : Spells (⟨token, place⟩ :: tokens) statement) (inner : Lists tokens outline) :
    Lists (⟨token, place⟩ :: tokens) ((depth, statement) :: outline) := by
  refine ⟨?_, fun index entry found => ?_⟩
  · rw [begun_cons, inner.count, if_pos begins, List.length_cons]
  · cases index with
    | zero =>
      cases found
      exact ⟨[], _, [], (List.append_nil _).symm, rfl, spelled⟩
    | succ index =>
      obtain ⟨before, segment, after, rfl, count, inside⟩ := inner.spelled index entry found
      refine ⟨⟨token, place⟩ :: before, segment, after, rfl, ?_, inside⟩
      rw [begun_cons, count, if_pos begins]

theorem Lists.flatMap {parts : List (Tokens × Statement)}
    (all : ∀ part ∈ parts, Lists part.1 (part.2.outline depth)) :
    Lists (parts.flatMap Prod.fst) (Statement.blockOutline depth (parts.map Prod.snd)) := by
  induction parts with
  | nil => exact .plain rfl
  | cons part parts ih =>
    exact (all part List.mem_cons_self).append
      (ih fun other member => all other (List.mem_cons_of_mem part member))

theorem Spells.lists (spelled : Spells tokens statement) (depth : Nat) :
    Lists tokens (statement.outline depth) := by
  induction spelled generalizing depth with
  | bind word named assign last name valued =>
    refine .cons rfl (.bind word named assign last name valued) (.plain ?_)
    simp [valued.unbegun, Token.begins]
  | @guarded word opening closing brace last guarded _ body guard inside ih =>
    have before : begun (⟨.openParen, opening⟩ :: guarded ++
        [⟨.closeParen, closing⟩, ⟨.openBrace, brace⟩]) = 0 := by
      simp [guard.unbegun, Token.begins]
    have block : Lists (body.flatMap Prod.fst) _ :=
      .flatMap fun part listed => ih part listed (depth + 1)
    have around := ((Lists.plain before).append block).append
      (.plain (rfl : begun [⟨.closeBrace, last⟩] = 0))
    have spelled := Spells.guarded word opening closing brace last guard inside
    simp only [List.cons_append, List.append_assoc, List.nil_append, List.append_nil]
      at around spelled ⊢
    exact .cons rfl spelled around

theorem SpellsProgram.lists {program : Program} (spelled : SpellsProgram tokens program) :
    Lists tokens program.outline := by
  obtain ⟨parts, all, rfl, same⟩ := spelled
  rw [Program.outline, same]
  exact .flatMap fun part listed => (all part listed).lists 0

end Listing

section Lines

variable {tokens : Tokens} {statement : Statement} {parts : List (Tokens × Statement)}

theorem Spells.exists_ends (spelled : Spells tokens statement) : ∃ first ∈ tokens.head?,
    ∃ last ∈ tokens.getLast?, statement.lines = ⟨first.place.line, last.place.line⟩ := by
  obtain ⟨first, last, middle, rfl, lines⟩ := spelled.ends
  refine ⟨⟨statement.opening, first⟩, rfl, ⟨statement.closing, last⟩, ?_, lines⟩
  rw [← List.cons_append, List.getLast?_concat]
  rfl

/-- The tokens of the later one of two statements stand behind those of the earlier one. -/
theorem lines_ordered (spelled : ∀ part ∈ parts, Spells part.1 part.2)
    (ordered : InOrder (parts.flatMap Prod.fst)) :
    (parts.map Prod.snd).Pairwise fun earlier later =>
      earlier.lines.finish ≤ later.lines.start := by
  obtain ⟨-, apart⟩ := List.pairwise_flatMap.mp ordered
  rw [List.pairwise_map]
  refine apart.imp_of_mem fun {earlier later} here there below => ?_
  obtain ⟨_, _, last, finishes, lines⟩ := (spelled earlier here).exists_ends
  obtain ⟨first, starts, _, _, others⟩ := (spelled later there).exists_ends
  rw [lines, others]
  exact below last (List.mem_of_getLast? finishes) first (List.mem_of_head? starts)

/-- Between the tokens that give a statement its lines stand those of its body. -/
theorem Spells.exists_body (spelled : Spells tokens statement) :
    ∃ (first last : Location) (front : Tokens) (parts : List (Tokens × Statement)),
      tokens = ⟨statement.opening, first⟩ ::
        (front ++ parts.flatMap Prod.fst ++ [⟨statement.closing, last⟩]) ∧
      statement.lines = ⟨first.line, last.line⟩ ∧ statement.body = parts.map Prod.snd ∧
      ∀ part ∈ parts, Spells part.1 part.2 := by
  cases spelled with
  | @bind word named assign last name inner =>
    exact ⟨word, last, ⟨.name name, named⟩ :: ⟨.assign, assign⟩ :: inner, [],
      by simp [Statement.opening, Statement.closing], rfl, rfl, by simp⟩
  | @guarded word opening closing brace last guarded _ body guard inside =>
    exact ⟨word, last, ⟨.openParen, opening⟩ :: (guarded ++ [⟨.closeParen, closing⟩,
      ⟨.openBrace, brace⟩]), body, by simp [Statement.opening, Statement.closing], rfl, rfl, inside⟩

theorem Spells.start_le_finish (spelled : Spells tokens statement) (ordered : InOrder tokens) :
    statement.lines.start ≤ statement.lines.finish := by
  obtain ⟨first, last, front, parts, rfl, lines, -⟩ := spelled.exists_body
  rw [lines]
  exact List.rel_of_pairwise_cons ordered (List.mem_append_right _ (List.mem_singleton_self _))

theorem Spells.body_ordered (spelled : Spells tokens statement) (ordered : InOrder tokens) :
    statement.body.Pairwise fun earlier later => earlier.lines.finish ≤ later.lines.start := by
  obtain ⟨first, last, front, parts, rfl, -, body, inside⟩ := spelled.exists_body
  rw [body]
  exact lines_ordered inside
    (ordered.ofPart ⟨⟨statement.opening, first⟩ :: front, [⟨statement.closing, last⟩], by simp⟩)

theorem Spells.body_within (spelled : Spells tokens statement) (ordered : InOrder tokens) :
    ∀ inner ∈ statement.body, inner.lines.Within statement.lines := by
  obtain ⟨first, last, front, parts, rfl, lines, body, inside⟩ := spelled.exists_body
  obtain ⟨above, others⟩ := List.pairwise_cons.mp ordered
  obtain ⟨-, -, below⟩ := List.pairwise_append.mp others
  intro inner member
  rw [body] at member
  obtain ⟨part, listed, rfl⟩ := List.mem_map.mp member
  obtain ⟨head, starts, final, finishes, bounds⟩ := (inside part listed).exists_ends
  have within {located : Located} (member : located ∈ part.1) :
      located ∈ front ++ parts.flatMap Prod.fst :=
    List.mem_append_right front (List.mem_flatMap.mpr ⟨part, listed, member⟩)
  rw [lines, bounds]
  exact ⟨above head (List.mem_append_left _ (within (List.mem_of_head? starts))),
    below final (within (List.mem_of_getLast? finishes)) _ (List.mem_singleton_self _)⟩

theorem SpellsProgram.blocks_ordered {program : Program} (spelled : SpellsProgram tokens program)
    (ordered : InOrder tokens) : ∀ block ∈ program.blocks,
      block.Pairwise fun earlier later => earlier.lines.finish ≤ later.lines.start := by
  intro block member
  rcases List.mem_cons.mp member with rfl | under
  · obtain ⟨parts, all, rfl, same⟩ := spelled
    rw [same]
    exact lines_ordered all ordered
  · obtain ⟨entry, listed, rfl⟩ := List.mem_map.mp under
    obtain ⟨part, together, found⟩ := spelled.outline entry listed
    exact found.body_ordered (ordered.ofPart together)

end Lines

/-- A statement goes by the line of its first token and that of its last one, where the tokens of a
statement begin with as many `let` and `if` before them as statements before it. Its range lies within
the lines of the text and does not end before it begins. Of two statements in a block the earlier one
ends no later than the other one begins, a statement under a guard stands within the lines of the
guarded block, and branch sites are listed in order. -/
theorem line_ranges_are_nested {text : String} {program : Program}
    (read : Program.ofText text = .ok program) :
    (∃ tokens, scan text.toList = .ok tokens ∧
      ∀ index entry, program.outline[index]? = some entry → ∃ before segment after,
        tokens = before ++ segment ++ after ∧ begun before = index ∧ Spells segment entry.2 ∧
        ∃ first ∈ segment.head?, ∃ last ∈ segment.getLast?,
          entry.2.lines = ⟨first.place.line, last.place.line⟩) ∧
    (∀ entry ∈ program.outline, 1 ≤ entry.2.lines.start ∧
      entry.2.lines.start ≤ entry.2.lines.finish ∧
      entry.2.lines.finish ≤ 1 + text.toList.count '\n') ∧
    (∀ block ∈ program.blocks,
      block.Pairwise fun earlier later => earlier.lines.finish ≤ later.lines.start) ∧
    (∀ entry ∈ program.outline, ∀ inner ∈ entry.2.body, inner.lines.Within entry.2.lines) ∧
    program.branchSites.Pairwise (· ≤ ·) := by
  obtain ⟨tokens, scanned, parsed⟩ := bind_ok.mp read
  have spelled := readProgram_spells parsed
  have ordered := scan_inOrder scanned
  refine ⟨⟨tokens, scanned, fun index entry found => ?_⟩, fun entry listed => ?_,
    spelled.blocks_ordered ordered, fun entry listed => ?_, ?_⟩
  · obtain ⟨before, segment, after, same, count, found⟩ := spelled.lists.spelled index entry found
    exact ⟨before, segment, after, same, count, found, found.exists_ends⟩
  · obtain ⟨part, together, found⟩ := spelled.outline entry listed
    obtain ⟨first, starts, last, finishes, lines⟩ := found.exists_ends
    have above := scan_lines scanned (together.subset (List.mem_of_head? starts))
    have below := scan_lines scanned (together.subset (List.mem_of_getLast? finishes))
    have turned := found.start_le_finish (ordered.ofPart together)
    rw [lines] at turned ⊢
    exact ⟨above.1, turned, below.2⟩
  · obtain ⟨part, together, found⟩ := spelled.outline entry listed
    exact found.body_within (ordered.ofPart together)
  · rw [spelled.sites]
    exact guardLines_inOrder ordered

/-- A block that ends on the line on which the next one begins and ends. -/
theorem line_ranges_are_nested_shared_line :
    let text := "let a =\n  1; if (a) \x7b\n  if (a) \x7b \x7d let b = 2;\n\x7d if (a) \x7b \x7d"
    let inner : Statement := .guarded (.ident "a") [] ⟨3, 3⟩
    let outer : Statement :=
      .guarded (.ident "a") [inner, .bind "b" (.number 2) ⟨3, 3⟩] ⟨2, 4⟩
    let program : Program :=
      ⟨[.bind "a" (.number 1) ⟨1, 2⟩, outer, .guarded (.ident "a") [] ⟨4, 4⟩]⟩
    Program.ofText text = .ok program ∧ program.branchSites = [2, 3, 4] ∧
      (∃ tokens before segment after, scan text.toList = .ok tokens ∧
        tokens = before ++ segment ++ after ∧ begun before = 2 ∧ Spells segment inner) ∧
      inner.lines.Within outer.lines ∧ program.branchSites.Pairwise (· ≤ ·) := by
  intro text inner outer program
  have read : Program.ofText text = .ok program := by decide +kernel
  obtain ⟨⟨tokens, scanned, listed⟩, -, -, within, sites⟩ := line_ranges_are_nested read
  obtain ⟨before, segment, after, same, count, spelled, -⟩ := listed 2 (1, inner) rfl
  have member : (0, outer) ∈ program.outline := List.mem_of_getElem? (i := 1) rfl
  exact ⟨read, rfl, ⟨tokens, before, segment, after, scanned, same, count, spelled⟩,
    within (0, outer) member inner List.mem_cons_self, sites⟩

end Source
end BranchLab
