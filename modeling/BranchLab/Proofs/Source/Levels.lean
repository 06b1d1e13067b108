import BranchLab.Proofs.Source.Room
import BranchLab.Proofs.Source.Tracked

/-! Levels are left as they were found. With a counter of levels the reader reads what it reads with
the room that the counter leaves. The counter stops it before its recursion is given up, and every
part takes tokens and leaves the counter as it was, however often it was raised in between. -/

namespace BranchLab.Source

def readPrimary (finish : Location) (room : Nat) : Tokens → Reading (Expr × Tokens)
  | [] => .error ⟨finish, .unexpectedEnd .expression⟩
  | head :: rest =>
    if head.token = .not ∨ head.token = .bitNot then
      .error ⟨head.place, .unexpectedToken head.token .expression⟩
    else readOperand finish room (head :: rest)

section Expressions

open Tracked

variable {finish : Location} {tokens : Tokens} {room depth : Nat}

def OperandsKept (finish : Location) (tokens : Tokens) (room : Nat) : Prop :=
  ∀ depth level (start : Mark), room ≤ depth → level + room = maxNesting → start.On level →
    Keeps tokens start 1 level (unary finish tokens depth)
      (readOperand finish room (tokens.drop start.index))

/-- With `room` levels left, chains are tracked, and lead back to the level they are told. -/
def ChainsKept (finish : Location) (tokens : Tokens) (room : Nat) : Prop :=
  ∀ depth level base least lhs (start : Mark), room ≤ depth → level + room = maxNesting →
    base ≤ maxNesting → start.On level →
    Keeps tokens start 0 base (folds finish tokens depth base least lhs)
      (readChain finish room least lhs (tokens.drop start.index))

section Enclosed

variable {level : Nat} {start : Mark} (operands : OperandsKept finish tokens room)
  (chains : ChainsKept finish tokens room)

include operands chains

theorem infix_kept (least : Nat) (enough : room ≤ depth) (deep : level + room = maxNesting)
    (on : start.On level) : Keeps tokens start 1 level (binary finish tokens depth least)
      (readInfix finish room least (tokens.drop start.index)) := by
  have begun : (binary finish tokens depth least).run.run start =
      (unary finish tokens depth >>= folds finish tokens depth level least).run.run start := by
    rw [binary, run_get, on.level]
  have kept : Keeps tokens start 1 level
      (unary finish tokens depth >>= folds finish tokens depth level least)
      (readInfix finish room least (tokens.drop start.index)) :=
    (operands depth level start enough deep on).bind fun lhs after on =>
      chains depth level level least lhs after enough deep (by omega) on
  exact kept.congr begun

theorem enclosed_kept (make : Expr → Expr) (enough : room ≤ depth)
    (deep : level + 1 + room = maxNesting) (on : start.On (level + 1)) :
    Keeps tokens start 0 level
      (do
        let inner ← binary finish tokens depth BinaryOp.loosest
        let _ ← exactly finish tokens .closeParen
        ascend
        return make inner)
      (do
        let (inner, rest) ← readExpr finish room (tokens.drop start.index)
        let (_, rest) ← expect finish .closeParen rest
        return (make inner, rest)) :=
  (infix_kept operands chains BinaryOp.loosest enough deep on).bind fun inner after on =>
    (exactly_keeps .closeParen on).bind fun _ after on => ascended_keeps (make inner) on (by omega)

end Enclosed

theorem chainsKept
    (below : ∀ less < room, OperandsKept finish tokens less ∧ ChainsKept finish tokens less) :
    ChainsKept finish tokens room := by
  intro depth level base least lhs start enough deep allowed on
  by_cases ends : EndsChain least (tokens.drop start.index)
  · rw [readChain_of_ends finish room lhs ends]
    have restored : (folds finish tokens depth base least lhs).run.run start =
        some (.ok lhs, start.toLevel base) := by
      rw [folds, run_peek]
      cases ahead : tokens.drop start.index with
      | nil => rfl
      | cons head rest =>
        obtain ⟨token, place⟩ := head
        cases token with
        | op sign =>
          have loose : sign.precedence < least := ends sign place rest ahead
          dsimp only [List.head?_cons, Option.map_some]
          rw [if_pos loose]
          rfl
        | _ => rfl
    exact .stays restored rfl (on.toLevel allowed)
  · obtain ⟨op, place, rest, ahead, binds⟩ : ∃ op place rest,
        tokens.drop start.index = ⟨.op op, place⟩ :: rest ∧ least ≤ op.precedence := by
      simpa [EndsChain] using ends
    rw [folds, ahead]
    refine Keeps.congr ?_ (run_peek _)
    rw [ahead]
    dsimp only [List.head?_cons, Option.map_some]
    rw [if_neg (Nat.not_lt.mpr binds)]
    cases room with
    | zero =>
      rw [readChain_tooDeep finish place lhs rest binds]
      exact entered_tooDeep ahead on deep
    | succ room =>
      obtain ⟨depth, rfl⟩ := Nat.exists_eq_add_of_le' (Nat.le_of_add_left_le enough)
      obtain ⟨operands, chains⟩ := below room (Nat.lt_succ_self room)
      rw [readChain_op finish room place lhs rest binds]
      refine entered_keeps ahead on (by omega) fun after on behind => ?_
      rw [← behind]
      exact (infix_kept operands chains _ (by omega) (by omega) on).bind fun rhs after on =>
        chains depth (level + 1) base least _ after (by omega) (by omega) allowed on

/-- A token that opens a level is refused without room for it. -/
theorem opening_kept {level : Nat} {start : Mark} {head : Located} {rest : Tokens}
    {opening : Opening} {next : Tracked Expr} (opens : head.token.opening? = some opening)
    (deep : level + room = maxNesting) (on : start.On level)
    (goes : ∀ less < room, level + 1 + less = maxNesting → ∀ after : Mark, after.On (level + 1) →
      after.index = start.index →
      Keeps tokens after 0 level next (readOperand finish (less + 1) (head :: rest))) :
    Keeps tokens start 0 level (descend head.place >>= fun _ => next)
      (readOperand finish room (head :: rest)) := by
  cases room with
  | zero =>
    rw [readOperand_tooDeep finish rest opens]
    exact descended_tooDeep head.place on deep
  | succ room =>
    exact descended_keeps head.place on (by omega) (goes room (Nat.lt_succ_self room) (by omega))

theorem readPrimary_cons {head : Located} {rest : Tokens}
    (plain : head.token ≠ .not ∧ head.token ≠ .bitNot) :
    readPrimary finish room (head :: rest) = readOperand finish room (head :: rest) :=
  if_neg (not_or.mpr plain)

theorem primary_kept
    (below : ∀ less < room, OperandsKept finish tokens less ∧ ChainsKept finish tokens less)
    {level : Nat} {start : Mark} (enough : room ≤ depth) (deep : level + room = maxNesting)
    (on : start.On level) : Keeps tokens start 1 level (primary finish tokens depth)
      (readPrimary finish room (tokens.drop start.index)) := by
  rw [primary.eq_def]
  cases ahead : tokens.drop start.index with
  | nil => exact .failed (run_bind_error _ (run_advance_nil .expression ahead)) on.highest
  | cons head rest =>
    refine Keeps.behind ?_ ahead (run_bind _ (run_advance .expression ahead)) rfl (Nat.le_refl 1)
    obtain ⟨token, place⟩ := head
    have behind := drop_next ahead
    cases token with
    | not | bitNot => exact .error _ on.next
    | randWord =>
      rw [readPrimary_cons (by simp)]
      refine opening_kept rfl deep on.next fun less fewer deeper after inside same => ?_
      have one : 1 ≤ depth := by omega
      obtain ⟨depth, rfl⟩ := Nat.exists_eq_add_of_le' one
      obtain ⟨operands, chains⟩ := below less fewer
      rw [readOperand_draw finish less rest rfl, ← behind, ← same]
      exact (exactly_keeps .openParen inside).bind fun _ after inside =>
        enclosed_kept operands chains .random (by omega) deeper inside
    | openParen =>
      rw [readPrimary_cons (by simp)]
      refine opening_kept rfl deep on.next fun less fewer deeper after inside same => ?_
      have one : 1 ≤ depth := by omega
      obtain ⟨depth, rfl⟩ := Nat.exists_eq_add_of_le' one
      obtain ⟨operands, chains⟩ := below less fewer
      rw [readOperand_group finish less rest rfl, ← behind, ← same]
      exact enclosed_kept operands chains id (by omega) deeper inside
    | _ =>
      rw [readPrimary_cons (by simp), readOperand_atom finish room rest rfl, ← behind]
      exact atom_keeps _ on.next

/-- An operator is refused in front of its operand without room for it. -/
theorem prefixed_kept (op : UnaryOp)
    (below : ∀ less < room, OperandsKept finish tokens less ∧ ChainsKept finish tokens less)
    {level : Nat} {start : Mark} {head : Located} {rest : Tokens}
    (ahead : tokens.drop start.index = head :: rest)
    (opens : head.token.opening? = some (.unary op)) (enough : room ≤ depth)
    (deep : level + room = maxNesting) (on : start.On level) :
    Keeps tokens start 1 level (prefixed finish tokens depth op)
      (readOperand finish room (head :: rest)) := by
  rw [prefixed.eq_def]
  cases room with
  | zero =>
    rw [readOperand_tooDeep finish rest opens]
    exact entered_tooDeep ahead on deep
  | succ room =>
    obtain ⟨depth, rfl⟩ := Nat.exists_eq_add_of_le' (Nat.le_of_add_left_le enough)
    rw [readOperand_prefixed finish room rest opens]
    refine entered_keeps ahead on (by omega) fun after inside behind => ?_
    rw [← behind]
    obtain ⟨operands, -⟩ := below room (Nat.lt_succ_self room)
    have inner := operands depth (level + 1) after (by omega) (by omega) inside
    exact inner.bind fun operand after inside =>
      ascended_keeps (Expr.unary op operand) inside (by omega)

theorem operandsKept
    (below : ∀ less < room, OperandsKept finish tokens less ∧ ChainsKept finish tokens less) :
    OperandsKept finish tokens room := by
  intro depth level start enough deep on
  have plain := primary_kept below enough deep on
  cases ahead : tokens.drop start.index with
  | nil =>
    have goes : (unary finish tokens depth).run.run start =
        (primary finish tokens depth).run.run start := by
      rw [unary, run_peek, ahead]
      rfl
    rw [ahead] at plain
    unfold readOperand
    exact plain.congr goes
  | cons head rest =>
    obtain ⟨token, place⟩ := head
    rw [unary]
    cases token with
    | not | bitNot =>
      refine (prefixed_kept _ below ahead rfl enough deep on).congr ?_
      rw [run_peek, ahead]
      rfl
    | _ =>
      rw [ahead, readPrimary_cons (by simp)] at plain
      refine plain.congr ?_
      rw [run_peek, ahead]
      rfl

/-- What opens a level or follows an operator is one level deeper, with less room for it. -/
theorem operands_and_chains_kept (finish : Location) (tokens : Tokens) (room : Nat) :
    OperandsKept finish tokens room ∧ ChainsKept finish tokens room := by
  induction room using Nat.strongRecOn with
  | ind room below => exact ⟨operandsKept below, chainsKept below⟩

theorem expression_kept {level : Nat} {start : Mark} (enough : room ≤ depth)
    (deep : level + room = maxNesting) (on : start.On level) :
    Keeps tokens start 1 level (expression finish tokens depth)
      (readExpr finish room (tokens.drop start.index)) :=
  infix_kept (operands_and_chains_kept finish tokens room).1
    (operands_and_chains_kept finish tokens room).2 BinaryOp.loosest enough deep on

end Expressions

section Statements

open Tracked

variable {finish : Location} {tokens : Tokens} {room depth level : Nat} {start : Mark}

def StatementsKept (finish : Location) (tokens : Tokens) (room : Nat) : Prop :=
  ∀ depth level (start : Mark), room ≤ depth → level + room = maxNesting → start.On level →
    Keeps tokens start 1 level (statement finish tokens depth)
      (readStatement finish room (tokens.drop start.index))

theorem run_statements_end {inBlock : Bool} {stop : Token → Bool}
    (stops : ∀ token, stop token = (inBlock && token = .closeBrace)) (more : Nat)
    (found : List Statement) (ends : EndsBlock stop (tokens.drop start.index)) :
    (statements finish tokens depth more inBlock found).run.run start =
      some (.ok found.reverse, start) := by
  rw [statements.eq_def, run_peek]
  cases ahead : tokens.drop start.index with
  | nil => rfl
  | cons head rest =>
    have closes : inBlock ∧ head.token = .closeBrace := by
      simpa [stops] using ends head rest ahead
    dsimp only [List.head?_cons, Option.map_some]
    rw [if_pos closes]
    rfl

theorem run_statements_next {inBlock : Bool} {stop : Token → Bool}
    (stops : ∀ token, stop token = (inBlock && token = .closeBrace)) (more : Nat)
    (found : List Statement) (goes : ¬EndsBlock stop (tokens.drop start.index)) :
    (statements finish tokens depth (more + 1) inBlock found).run.run start =
      (statement finish tokens depth >>= fun next =>
        statements finish tokens depth more inBlock (next :: found)).run.run start := by
  obtain ⟨head, rest, ahead, on⟩ : ∃ head rest, tokens.drop start.index = head :: rest ∧
      stop head.token = false := by
    simpa [EndsBlock] using goes
  have further : ¬(inBlock ∧ head.token = .closeBrace) := by
    simpa [stops] using on
  rw [statements, run_peek, ahead]
  dsimp only [List.head?_cons, Option.map_some]
  rw [if_neg further]

/-- Every statement takes a token, so the turns suffice, and so do as many statements. -/
theorem statements_kept (kept : StatementsKept finish tokens room) (inBlock : Bool)
    (stop : Token → Bool) (stops : ∀ token, stop token = (inBlock && token = .closeBrace))
    (enough : room ≤ depth) (deep : level + room = maxNesting) (on : start.On level)
    (turns more : Nat) (found : List Statement) (turned : tokens.length - start.index ≤ turns)
    (fewer : turns ≤ more) :
    Keeps tokens start 0 level (statements finish tokens depth more inBlock found)
      (readMany (readStatement finish room) stop turns found (tokens.drop start.index)) := by
  induction turns generalizing start more found with
  | zero =>
    have ended : tokens.drop start.index = [] := List.drop_eq_nil_of_le (by omega)
    have ends : EndsBlock stop (tokens.drop start.index) := ended ▸ EndsBlock.nil stop
    rw [readMany_of_ends _ 0 found ends]
    exact .stays (run_statements_end stops more found ends) rfl on
  | succ turns ih =>
    by_cases ends : EndsBlock stop (tokens.drop start.index)
    · rw [readMany_of_ends _ _ found ends]
      exact .stays (run_statements_end stops more found ends) rfl on
    · obtain ⟨more, rfl⟩ := Nat.exists_eq_add_of_le' (Nat.le_of_add_left_le fewer)
      rw [readMany_next _ turns found ends]
      refine Keeps.congr ?_ (run_statements_next stops more found ends)
      exact (kept depth level start enough deep on).bind_moved
        (fun next after on moved => ih on more (next :: found) (by omega) (by omega)) (by decide)

/-- A guard is one level deeper than what it stands among, with less room for its block. -/
theorem statementsKept (finish : Location) (tokens : Tokens) (room : Nat) :
    StatementsKept finish tokens room := by
  induction room using Nat.strongRecOn with
  | ind room below =>
    intro depth level start enough deep on
    rw [statement]
    cases ahead : tokens.drop start.index with
    | nil =>
      unfold readStatement
      exact .failed (run_bind_error _ (run_advance_nil .statement ahead)) on.highest
    | cons head rest =>
      refine Keeps.behind ?_ ahead (run_bind _ (run_advance .statement ahead)) rfl (Nat.le_refl 1)
      obtain ⟨token, place⟩ := head
      have behind := drop_next ahead
      cases token with
      | letWord =>
        rw [readStatement_bind, ← behind]
        exact (name_keeps on.next).bind fun name after on =>
          (exactly_keeps .assign on).bind fun _ after on =>
            (expression_kept enough deep on).bind fun value after on =>
              (exactly_keeps .semicolon on).bind fun last after on => .ok _ on
      | ifWord =>
        cases room with
        | zero =>
          rw [readStatement_tooDeep]
          exact descended_tooDeep place on.next deep
        | succ room =>
          obtain ⟨depth, rfl⟩ := Nat.exists_eq_add_of_le' (Nat.le_of_add_left_le enough)
          refine descended_keeps place on.next (by omega) fun after inside same => ?_
          have statements := below room (Nat.lt_succ_self room)
          rw [readStatement_guarded, ← behind, ← same]
          exact (exactly_keeps .openParen inside).bind fun _ after inside =>
            (expression_kept (by omega) (by omega) inside).bind fun cond after inside =>
            (exactly_keeps .closeParen inside).bind fun _ after inside =>
            (exactly_keeps .openBrace inside).bind fun _ after inside =>
            (statements_kept statements true _ (by simp) (by omega) (by omega) inside _ _ []
              (by simp) (by simp)).bind fun body after inside =>
            (exactly_keeps .closeBrace inside).bind fun last after inside =>
              ascended_keeps _ inside (by omega)
      | _ =>
        rw [readStatement_refused finish room place rest (by simp) (by simp)]
        exact .error _ on.next

end Statements

section Neutral

variable {α : Type} {tokens rest : Tokens} {start : Mark} {exit : Nat} {part : Tracked α}

theorem Keeps.exists_answer {gain : Nat} {reading : Reading (α × Tokens)}
    (kept : Keeps tokens start gain exit part reading) : ∃ answer after,
      part.run.run start = some (answer, after) ∧ after.highest ≤ maxNesting ∧
      reading = answer.map fun value => (value, tokens.drop after.index) := by
  cases kept with
  | read ran moved inside on => exact ⟨_, _, ran, on.highest, rfl⟩
  | failed ran highest => exact ⟨_, _, ran, highest, rfl⟩

theorem Keeps.of_ok {value : α} (kept : Keeps tokens start 1 exit part (.ok (value, rest))) :
    ∃ after, part.run.run start = some (.ok value, after) ∧ start.index < after.index ∧
      after.index ≤ tokens.length ∧ after.On exit ∧ rest = tokens.drop after.index := by
  cases kept with
  | read ran moved inside on => exact ⟨_, ran, moved, by omega, on, rfl⟩

/-- Where a part ends is known from the tokens that it leaves. -/
theorem Keeps.of_ok_drop {value : α} {index : Nat} (inside : index ≤ tokens.length)
    (kept : Keeps tokens start 1 exit part (.ok (value, tokens.drop index))) :
    ∃ highest, part.run.run start = some (.ok value, ⟨index, exit, highest⟩) := by
  obtain ⟨after, ran, -, within, on, left⟩ := kept.of_ok
  have lengths := congrArg List.length left
  simp only [List.length_drop] at lengths
  have same : index = after.index := by omega
  have mark : after = ⟨index, exit, after.highest⟩ := by rw [same, ← on.level]
  exact ⟨after.highest, mark ▸ ran⟩

theorem Keeps.of_error {error : SyntaxError}
    (kept : Keeps tokens start 1 exit part (.error error)) :
    ∃ after, part.run.run start = some (.error error, after) ∧ after.highest ≤ maxNesting := by
  cases kept with
  | failed ran highest => exact ⟨_, ran, highest⟩

/-- Wherever the mark is and whatever levels are in use, a part has a result, which is what the
reader answers with the room that is left, and was never in more levels than allowed. If it
succeeds, it has taken a token at least, and none that is not there, and is back on its level; and
on any other level it takes the same tokens for the same value, unless that one is deeper and too
deep. -/
def Neutral (tokens : Tokens) (part : Tracked α)
    (reading : Nat → Tokens → Reading (α × Tokens)) : Prop :=
  ∀ index level, level ≤ maxNesting → ∃ answer after,
    part.run.run ⟨index, level, level⟩ = some (answer, after) ∧ after.highest ≤ maxNesting ∧
    reading (maxNesting - level) (tokens.drop index) =
      answer.map (fun value => (value, tokens.drop after.index)) ∧
    ∀ value, answer = .ok value →
      index < after.index ∧ after.index ≤ tokens.length ∧ after.level = level ∧
      ∀ other ≤ maxNesting,
        (∃ highest, part.run.run ⟨index, other, other⟩ =
          some (.ok value, ⟨after.index, other, highest⟩)) ∨
        level < other ∧ ∃ place later, part.run.run ⟨index, other, other⟩ =
          some (.error ⟨place, .nestingTooDeep⟩, later)

theorem read_on_other_level {reading : Nat → Tokens → Reading (α × Tokens)}
    (narrowed : ∀ room more, room ≤ more → ∀ tokens,
      Narrowed (reading room tokens) (reading more tokens))
    {level : Nat} {found : α × Tokens} (read : reading (maxNesting - level) tokens = .ok found)
    (other : Nat) : reading (maxNesting - other) tokens = .ok found ∨
      level < other ∧ ∃ place,
        reading (maxNesting - other) tokens = .error ⟨place, .nestingTooDeep⟩ := by
  by_cases deeper : level < other
  · rcases narrowed (maxNesting - other) (maxNesting - level) (by omega) tokens
      with same | ⟨place, failed⟩
    · exact .inl (same.trans read)
    · exact .inr ⟨deeper, place, failed⟩
  · have wider := narrowed (maxNesting - level) (maxNesting - other) (by omega) tokens
    exact .inl (wider.ok read)

theorem neutral_of_kept {depth : Nat} (deep : maxNesting ≤ depth)
    {reading : Nat → Tokens → Reading (α × Tokens)}
    (kept : ∀ level room (start : Mark), room ≤ depth → level + room = maxNesting →
      start.On level → Keeps tokens start 1 level part (reading room (tokens.drop start.index)))
    (narrowed : ∀ room more, room ≤ more → ∀ tokens,
      Narrowed (reading room tokens) (reading more tokens)) :
    Neutral tokens part reading := by
  intro index level allowed
  have called (level : Nat) (allowed : level ≤ maxNesting) :
      Keeps tokens ⟨index, level, level⟩ 1 level part
        (reading (maxNesting - level) (tokens.drop index)) :=
    kept level (maxNesting - level) ⟨index, level, level⟩ (by omega) (by omega) ⟨rfl, allowed⟩
  have here := called level allowed
  cases read : reading (maxNesting - level) (tokens.drop index) with
  | error error =>
    rw [read] at here
    obtain ⟨after, ran, highest⟩ := here.of_error
    exact ⟨.error error, after, ran, highest, rfl, by simp⟩
  | ok found =>
    obtain ⟨value, rest⟩ := found
    rw [read] at here
    obtain ⟨after, ran, moved, inside, on, rfl⟩ := here.of_ok
    refine ⟨.ok value, after, ran, on.highest, rfl, ?_⟩
    rintro _ ⟨⟩
    refine ⟨moved, inside, on.level, fun other among => ?_⟩
    have elsewhere := called other among
    rcases read_on_other_level narrowed read other with same | ⟨deeper, place, failed⟩
    · rw [same] at elsewhere
      exact .inl (elsewhere.of_ok_drop inside)
    · rw [failed] at elsewhere
      obtain ⟨later, stopped, -⟩ := elsewhere.of_error
      exact .inr ⟨deeper, place, later, stopped⟩

theorem readPrimary_narrowed (finish : Location) {room more : Nat} (wider : room ≤ more)
    (tokens : Tokens) :
    Narrowed (readPrimary finish room tokens) (readPrimary finish more tokens) := by
  cases tokens with
  | nil => exact .refl _
  | cons head rest =>
    by_cases plain : head.token ≠ .not ∧ head.token ≠ .bitNot
    · rw [readPrimary_cons plain, readPrimary_cons plain]
      exact (operands_and_chains_narrow finish wider).1 (head :: rest)
    · have refused (room : Nat) : readPrimary finish room (head :: rest) =
          .error ⟨head.place, .unexpectedToken head.token .expression⟩ :=
        if_pos (by simpa only [ne_eq, not_and_or, not_not] using plain)
      rw [refused room, refused more]
      exact .refl _

end Neutral

open Tracked in
/-- Every part of the reader takes tokens and leaves the counter of levels as it found it, and does
what the reader does without a counter, if it may call as deep as levels are allowed. So does the
whole program, from the start and no levels. -/
theorem parts_leave_levels_as_found (finish : Location) (tokens : Tokens) {depth more : Nat}
    (deep : maxNesting ≤ depth) (fewer : tokens.length ≤ more) :
    Neutral tokens (statement finish tokens depth) (readStatement finish) ∧
    Neutral tokens (expression finish tokens depth) (readExpr finish) ∧
    (∀ least, Neutral tokens (binary finish tokens depth least)
      fun room => readInfix finish room least) ∧
    Neutral tokens (unary finish tokens depth) (readOperand finish) ∧
    Neutral tokens (primary finish tokens depth) (readPrimary finish) ∧
    ∃ answer after,
      (statements finish tokens depth more false []).run.run ⟨0, 0, 0⟩ = some (answer, after) ∧
      after.highest ≤ maxNesting ∧ readProgram finish tokens = answer.map Program.mk := by
  have parts := fun room => operands_and_chains_kept finish tokens room
  refine ⟨?_, ?_, fun least => ?_, ?_, ?_, ?_⟩
  · exact neutral_of_kept deep (fun level room => statementsKept finish tokens room depth level)
      fun room more wider => readStatement_narrowed wider
  · exact neutral_of_kept deep (fun level room start => expression_kept)
      fun room more wider => readInfix_narrowed wider BinaryOp.loosest
  · exact neutral_of_kept deep
      (fun level room start => infix_kept (parts room).1 (parts room).2 least)
      fun room more wider => readInfix_narrowed wider least
  · exact neutral_of_kept deep (fun level room => (parts room).1 depth level)
      fun room more wider => (operands_and_chains_narrow finish wider).1
  · exact neutral_of_kept deep (fun level room start => primary_kept fun less _ => parts less)
      fun room more wider => readPrimary_narrowed finish wider
  · have on : Mark.On 0 ⟨0, 0, 0⟩ := ⟨rfl, Nat.zero_le _⟩
    have kept := statements_kept (statementsKept finish tokens maxNesting) false (fun _ => false)
      (by simp) deep (Nat.zero_add maxNesting) on tokens.length more [] (Nat.sub_le ..) fewer
    obtain ⟨answer, after, ran, highest, same⟩ := kept.exists_answer
    refine ⟨answer, after, ran, highest, ?_⟩
    rw [List.drop_zero] at same
    rw [readProgram, same]
    cases answer <;> rfl

open Tracked in
/-- Of the three levels in `~(1) - 2` two are in use at once. -/
theorem parts_leave_levels_as_found_limit :
    let tokens : Tokens := [.bitNot, .openParen, .number 1, .closeParen, .op .sub, .number 2].map
      fun token => ⟨token, .start⟩
    let tree := Expr.binary .sub (.unary .bitNot (.number 1)) (.number 2)
    let part := expression .start tokens maxNesting
    (∃ highest ≤ maxNesting,
      part.run.run ⟨0, 254, 254⟩ = some (.ok tree, ⟨6, 254, highest⟩)) ∧
    ∃ place later, part.run.run ⟨0, 255, 255⟩ = some (.error ⟨place, .nestingTooDeep⟩, later) := by
  intro tokens tree part
  obtain ⟨-, neutral, -⟩ :=
    parts_leave_levels_as_found .start tokens (Nat.le_refl maxNesting) (Nat.le_refl tokens.length)
  have lower : 254 ≤ maxNesting := by decide
  have higher : 255 ≤ maxNesting := by decide
  refine ⟨?_, ?_⟩
  · have read : readExpr .start (maxNesting - 254) (tokens.drop 0) = .ok (tree, []) := by decide +kernel
    obtain ⟨answer, after, ran, highest, same, kept⟩ := neutral 0 254 lower
    rw [read] at same
    cases answer with
    | error error => cases same
    | ok value =>
      obtain ⟨rfl, left⟩ := Prod.mk.inj (Except.ok.inj same)
      obtain ⟨-, inside, back, -⟩ := kept tree rfl
      have taken : after.index = 6 :=
        Nat.le_antisymm inside (List.drop_eq_nil_iff.mp left.symm)
      have mark : after = ⟨6, 254, after.highest⟩ := by rw [← taken, ← back]
      exact ⟨after.highest, highest, mark ▸ ran⟩
  · have read : readExpr .start (maxNesting - 255) (tokens.drop 0) =
        .error ⟨.start, .nestingTooDeep⟩ := by decide +kernel
    obtain ⟨answer, after, ran, -, same, -⟩ := neutral 0 255 higher
    rw [read] at same
    cases answer with
    | error error =>
      cases same
      exact ⟨.start, after, ran⟩
    | ok value => cases same

end BranchLab.Source
