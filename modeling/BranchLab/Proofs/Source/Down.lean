import BranchLab.Proofs.Source.FirstError

/-! Texts further down. Places are reported and never looked at, so what stands some lines further
down is scanned and read in the same way: every line in the answer is raised by as many, be it of a
statement or of an error, and nothing else of it changes. -/

namespace BranchLab

def LineRange.down (lines : Nat) (range : LineRange) : LineRange :=
  ⟨range.start + lines, range.finish + lines⟩

namespace Statement

mutual

def down (lines : Nat) : Statement → Statement
  | bind name value range => bind name value (range.down lines)
  | guarded cond body range => guarded cond (blockDown lines body) (range.down lines)

def blockDown (lines : Nat) : List Statement → List Statement
  | [] => []
  | statement :: rest => down lines statement :: blockDown lines rest

end

theorem blockDown_eq_map (lines : Nat) (block : List Statement) :
    blockDown lines block = block.map (down lines) := by
  induction block with
  | nil => rfl
  | cons statement rest ih => rw [blockDown, ih, List.map_cons]

end Statement

def Program.down (lines : Nat) (program : Program) : Program :=
  ⟨program.statements.map (Statement.down lines)⟩

namespace Source

namespace Location

def down (lines : Nat) (place : Location) : Location := ⟨place.line + lines, place.column⟩

theorem after_down (lines : Nat) (place : Location) (c : Char) :
    (place.down lines).after c = (place.after c).down lines := by
  by_cases feed : c = '\n' <;> simp [after, down, feed, Nat.add_right_comm]

theorem across_down (lines : Nat) (place : Location) (text : List Char) :
    (place.down lines).across text = (place.across text).down lines := by
  induction text generalizing place with
  | nil => rfl
  | cons c text ih => rw [across_cons, across_cons, after_down, ih]

end Location

def Located.down (lines : Nat) (located : Located) : Located :=
  ⟨located.token, located.place.down lines⟩

def SyntaxError.down (lines : Nat) (error : SyntaxError) : SyntaxError :=
  ⟨error.place.down lines, error.cause⟩

/-- The second reading is the first one some lines further down, and what is read is moved. -/
inductive MovesDown {α β : Type} (lines : Nat) (move : α → β) : Reading α → Reading β → Prop
  | read (found : α) : MovesDown lines move (.ok found) (.ok (move found))
  | failed (error : SyntaxError) : MovesDown lines move (.error error) (.error (error.down lines))

namespace MovesDown

variable {α β γ δ : Type} {lines : Nat} {move : α → β} {turn : γ → δ}

theorem bind {reading : Reading α} {lower : Reading β} {next : α → Reading γ}
    {other : β → Reading δ} (first : MovesDown lines move reading lower)
    (rest : ∀ found, MovesDown lines turn (next found) (other (move found))) :
    MovesDown lines turn (reading >>= next) (lower >>= other) := by
  cases first with
  | read found => exact rest found
  | failed error => exact .failed error

theorem map {reading : Reading α} {lower : Reading β} (moves : MovesDown lines move reading lower)
    (change : β → γ) : MovesDown lines (fun found => change (move found)) reading
      (lower.map change) := by
  cases moves with
  | read found => exact .read found
  | failed error => exact .failed error

theorem refl (reading : Reading α) : MovesDown 0 (fun found => found) reading reading := by
  cases reading with
  | ok found => exact .read found
  | error error => exact .failed error

theorem trans {more : Nat} {reading : Reading α} {lower : Reading β} {lowest : Reading γ}
    {again : β → γ} (moves : MovesDown lines move reading lower)
    (others : MovesDown more again lower lowest) :
    MovesDown (lines + more) (fun found => again (move found)) reading lowest := by
  cases moves with
  | read found =>
    cases others
    exact .read found
  | failed error =>
    cases others
    have whole : (error.down lines).down more = error.down (lines + more) := by
      simp only [SyntaxError.down, Location.down, Nat.add_assoc]
    exact whole ▸ .failed error

theorem ok {reading : Reading α} {lower : Reading β} {found : α}
    (moves : MovesDown lines move reading lower) (read : reading = .ok found) :
    lower = .ok (move found) := by
  subst read
  cases moves
  rfl

theorem error {reading : Reading α} {lower : Reading β} {cause : SyntaxError}
    (moves : MovesDown lines move reading lower) (failed : reading = .error cause) :
    lower = .error (cause.down lines) := by
  subst failed
  cases moves
  rfl

end MovesDown

/-- The tokens further down, after `before`, whose last comes first. -/
theorem scanFrom_down (lines : Nat) (read : Char → List Char → Lexeme) (text : List Char)
    (place : Location) (pending : Nat) (found before : List Located) :
    MovesDown lines (fun tokens => before.reverse ++ tokens.map (Located.down lines))
      (scanFrom read place pending found text)
      (scanFrom read (place.down lines) pending (found.map (Located.down lines) ++ before)
        text) := by
  induction text generalizing place pending found with
  | nil =>
    rw [scanFrom, scanFrom, List.reverse_append, ← List.map_reverse]
    exact .read found.reverse
  | cons c rest ih =>
    cases pending with
    | succ pending =>
      rw [scanFrom, scanFrom, Location.after_down]
      exact ih (place.after c) pending found
    | zero =>
      rw [scanFrom, scanFrom, Location.after_down]
      split
      · exact ih ..
      · exact ih (place.after c) _ (⟨_, place⟩ :: found)
      · exact .failed _

def leaving {α β : Type} (lines : Nat) (move : α → β) (read : α × Tokens) : β × Tokens :=
  (move read.1, read.2.map (Located.down lines))

section Tokens

variable (lines : Nat) (finish : Location)

theorem take_down (wanted : Wanted) (tokens : Tokens) :
    MovesDown lines (leaving lines (Located.down lines)) (take finish wanted tokens)
      (take (finish.down lines) wanted (tokens.map (Located.down lines))) := by
  cases tokens with
  | nil => exact .failed _
  | cons head rest => exact .read (head, rest)

theorem expect_down (token : Token) (tokens : Tokens) :
    MovesDown lines (leaving lines (Location.down lines)) (expect finish token tokens)
      (expect (finish.down lines) token (tokens.map (Located.down lines))) := by
  refine (take_down lines finish _ tokens).bind fun found => ?_
  obtain ⟨⟨given, place⟩, rest⟩ := found
  dsimp only [leaving, Located.down]
  by_cases same : given = token
  · rw [if_pos same, if_pos same]
    exact .read (place, rest)
  · rw [if_neg same, if_neg same]
    exact .failed ⟨place, _⟩

theorem takeName_down (tokens : Tokens) :
    MovesDown lines (leaving lines id) (takeName finish tokens)
      (takeName (finish.down lines) (tokens.map (Located.down lines))) := by
  refine (take_down lines finish _ tokens).bind fun found => ?_
  obtain ⟨⟨token, place⟩, rest⟩ := found
  cases token with
  | name text => exact .read (text, rest)
  | _ => exact .failed ⟨place, _⟩

theorem readAtom_down (head : Located) (rest : Tokens) :
    MovesDown lines (leaving lines id) (readAtom finish head rest)
      (readAtom (finish.down lines) (head.down lines) (rest.map (Located.down lines))) := by
  obtain ⟨token, place⟩ := head
  cases token with
  | number n =>
    simp only [readAtom, Located.down]
    split
    · exact .read (_, rest)
    · exact .failed ⟨place, _⟩
  | name text => exact .read (Expr.ident text, rest)
  | op sign =>
    cases sign with
    | sub =>
      refine (take_down lines finish _ rest).bind fun found => ?_
      obtain ⟨⟨digits, behind⟩, rest⟩ := found
      cases digits with
      | number n =>
        simp only [leaving, Located.down]
        split
        · exact .read (_, rest)
        · exact .failed ⟨place, _⟩
      | _ => exact .failed ⟨behind, _⟩
    | _ => exact .failed ⟨place, _⟩
  | _ => exact .failed ⟨place, _⟩

end Tokens

section Expressions

variable {lines : Nat} {finish : Location} {room : Nat}

def OperandsDown (lines : Nat) (finish : Location) (room : Nat) : Prop :=
  ∀ tokens, MovesDown lines (leaving lines id) (readOperand finish room tokens)
    (readOperand (finish.down lines) room (tokens.map (Located.down lines)))

def ChainsDown (lines : Nat) (finish : Location) (room : Nat) : Prop :=
  ∀ least lhs tokens, MovesDown lines (leaving lines id) (readChain finish room least lhs tokens)
    (readChain (finish.down lines) room least lhs (tokens.map (Located.down lines)))

theorem EndsChain.down {least : Nat} {tokens : Tokens} (ends : EndsChain least tokens) :
    EndsChain least (tokens.map (Located.down lines)) := by
  intro op place rest same
  cases tokens with
  | nil => cases same
  | cons head tokens =>
    obtain ⟨token, stands⟩ := head
    cases same
    exact ends op stands tokens rfl

theorem infix_down (operands : OperandsDown lines finish room)
    (chains : ChainsDown lines finish room) (least : Nat) (tokens : Tokens) :
    MovesDown lines (leaving lines id) (readInfix finish room least tokens)
      (readInfix (finish.down lines) room least (tokens.map (Located.down lines))) :=
  (operands tokens).bind fun found => chains least found.1 found.2

theorem enclosed_down (operands : OperandsDown lines finish room)
    (chains : ChainsDown lines finish room) (make : Expr → Expr) (tokens : Tokens) :
    MovesDown lines (leaving lines id)
      (do
        let (inner, rest) ← readExpr finish room tokens
        let (_, rest) ← expect finish .closeParen rest
        return (make inner, rest))
      (do
        let (inner, rest) ← readExpr (finish.down lines) room (tokens.map (Located.down lines))
        let (_, rest) ← expect (finish.down lines) .closeParen rest
        return (make inner, rest)) :=
  (infix_down operands chains _ tokens).bind fun found =>
    (expect_down lines finish .closeParen found.2).bind fun closed => .read (make found.1, closed.2)

theorem operandsDown
    (below : ∀ less < room, OperandsDown lines finish less ∧ ChainsDown lines finish less) :
    OperandsDown lines finish room := by
  intro tokens
  cases tokens with
  | nil =>
    unfold readOperand
    exact .failed _
  | cons head rest =>
    have same : (head.down lines).token = head.token := rfl
    rw [List.map_cons]
    cases opens : head.token.opening? with
    | none =>
      rw [readOperand_atom _ _ _ opens, readOperand_atom _ _ _ (same ▸ opens)]
      exact readAtom_down lines finish head rest
    | some opening =>
      cases room with
      | zero =>
        rw [readOperand_tooDeep _ _ opens, readOperand_tooDeep _ _ (same ▸ opens)]
        exact .failed ⟨head.place, _⟩
      | succ room =>
        obtain ⟨operands, chains⟩ := below room (Nat.lt_succ_self room)
        cases opening with
        | unary op =>
          rw [readOperand_prefixed _ _ _ opens, readOperand_prefixed _ _ _ (same ▸ opens)]
          exact (operands rest).bind fun found => .read (Expr.unary op found.1, found.2)
        | draw =>
          rw [readOperand_draw _ _ _ opens, readOperand_draw _ _ _ (same ▸ opens)]
          exact (expect_down lines finish .openParen rest).bind fun opened =>
            enclosed_down operands chains .random opened.2
        | group =>
          rw [readOperand_group _ _ _ opens, readOperand_group _ _ _ (same ▸ opens)]
          exact enclosed_down operands chains id rest

theorem chainsDown
    (below : ∀ less < room, OperandsDown lines finish less ∧ ChainsDown lines finish less) :
    ChainsDown lines finish room := by
  intro least lhs tokens
  by_cases ends : EndsChain least tokens
  · rw [readChain_of_ends _ _ _ ends, readChain_of_ends _ _ _ ends.down]
    exact .read (lhs, tokens)
  · obtain ⟨op, place, rest, rfl, binds⟩ : ∃ op place rest, tokens = ⟨.op op, place⟩ :: rest ∧
        least ≤ op.precedence := by
      simpa [EndsChain] using ends
    rw [List.map_cons]
    cases room with
    | zero =>
      rw [readChain_tooDeep _ _ _ _ binds]
      dsimp only [Located.down]
      rw [readChain_tooDeep _ _ _ _ binds]
      exact .failed ⟨place, _⟩
    | succ room =>
      obtain ⟨operands, chains⟩ := below room (Nat.lt_succ_self room)
      dsimp only [Located.down]
      rw [readChain_op _ _ _ _ _ binds, readChain_op _ _ _ _ _ binds]
      exact (infix_down operands chains _ rest).bind fun found =>
        chains least (.binary op lhs found.1) found.2

theorem operands_and_chains_down (lines : Nat) (finish : Location) (room : Nat) :
    OperandsDown lines finish room ∧ ChainsDown lines finish room := by
  -- Every opening token and operator leaves one level less for what it opens.
  induction room using Nat.strongRecOn with
  | ind room below => exact ⟨operandsDown below, chainsDown below⟩

theorem readExpr_down (lines : Nat) (finish : Location) (room : Nat) (tokens : Tokens) :
    MovesDown lines (leaving lines id) (readExpr finish room tokens)
      (readExpr (finish.down lines) room (tokens.map (Located.down lines))) :=
  infix_down (operands_and_chains_down lines finish room).1
    (operands_and_chains_down lines finish room).2 _ tokens

end Expressions

theorem endsBlock_down {lines : Nat} {stop : Token → Bool} {tokens : Tokens} :
    EndsBlock stop (tokens.map (Located.down lines)) ↔ EndsBlock stop tokens := by
  cases tokens with
  | nil => exact ⟨fun _ => .nil stop, fun _ => .nil stop⟩
  | cons head rest => simp [EndsBlock, Located.down]

theorem readMany_down {α β : Type} {lines : Nat} {move : α → β}
    {part : Tokens → Reading (α × Tokens)} {lower : Tokens → Reading (β × Tokens)}
    (moves : ∀ tokens, MovesDown lines (leaving lines move) (part tokens)
      (lower (tokens.map (Located.down lines))))
    (stop : Token → Bool) (turns : Nat) (found : List α) (tokens : Tokens) :
    MovesDown lines (leaving lines (List.map move)) (readMany part stop turns found tokens)
      (readMany lower stop turns (found.map move) (tokens.map (Located.down lines))) := by
  have stopped (found : List α) (tokens : Tokens) :
      MovesDown lines (leaving lines (List.map move)) (.ok (found.reverse, tokens))
        (.ok ((found.map move).reverse, tokens.map (Located.down lines))) :=
    List.map_reverse ▸ .read (found.reverse, tokens)
  induction turns generalizing found tokens with
  | zero => exact stopped found tokens
  | succ turns ih =>
    by_cases ends : EndsBlock stop tokens
    · rw [readMany_of_ends part _ found ends, readMany_of_ends lower _ _ (endsBlock_down.mpr ends)]
      exact stopped found tokens
    · rw [readMany_next part turns found ends,
        readMany_next lower turns _ (endsBlock_down.not.mpr ends)]
      refine (moves tokens).bind fun read => ?_
      exact ih (read.1 :: found) read.2

section Programs

variable (lines : Nat) (finish : Location)

theorem bind_down (room : Nat) (word : Location) (rest : Tokens) :
    MovesDown lines (leaving lines (Statement.down lines))
      (readStatement finish room (⟨.letWord, word⟩ :: rest))
      (readStatement (finish.down lines) room
        (⟨.letWord, word.down lines⟩ :: rest.map (Located.down lines))) := by
  rw [readStatement_bind, readStatement_bind]
  refine (takeName_down lines finish rest).bind fun named => ?_
  refine (expect_down lines finish .assign named.2).bind fun assigned => ?_
  refine (readExpr_down lines finish room assigned.2).bind fun valued => ?_
  refine (expect_down lines finish .semicolon valued.2).bind fun ended => ?_
  exact .read (Statement.bind named.1 valued.1 ⟨word.line, ended.1.line⟩, ended.2)

theorem guarded_down {room : Nat}
    (statements : ∀ tokens, MovesDown lines (leaving lines (Statement.down lines))
      (readStatement finish room tokens)
      (readStatement (finish.down lines) room (tokens.map (Located.down lines))))
    (word : Location) (rest : Tokens) :
    MovesDown lines (leaving lines (Statement.down lines))
      (readStatement finish (room + 1) (⟨.ifWord, word⟩ :: rest))
      (readStatement (finish.down lines) (room + 1)
        (⟨.ifWord, word.down lines⟩ :: rest.map (Located.down lines))) := by
  rw [readStatement_guarded, readStatement_guarded]
  refine (expect_down lines finish .openParen rest).bind fun opened => ?_
  refine (readExpr_down lines finish room opened.2).bind fun guard => ?_
  refine (expect_down lines finish .closeParen guard.2).bind fun closed => ?_
  refine (expect_down lines finish .openBrace closed.2).bind fun braced => ?_
  dsimp only [leaving]
  rw [List.length_map]
  refine (readMany_down statements _ _ [] braced.2).bind fun block => ?_
  refine (expect_down lines finish .closeBrace block.2).bind fun ended => ?_
  have body := Statement.blockDown_eq_map lines block.1
  have whole : (Statement.guarded guard.1 block.1 ⟨word.line, ended.1.line⟩).down lines =
      .guarded guard.1 (block.1.map (Statement.down lines))
        ⟨(word.down lines).line, (ended.1.down lines).line⟩ := by
    rw [Statement.down, body]
    rfl
  exact whole ▸ .read (Statement.guarded guard.1 block.1 ⟨word.line, ended.1.line⟩, ended.2)

theorem readStatement_down (room : Nat) (tokens : Tokens) :
    MovesDown lines (leaving lines (Statement.down lines)) (readStatement finish room tokens)
      (readStatement (finish.down lines) room (tokens.map (Located.down lines))) := by
  -- A guard leaves one level less for its condition and its block.
  induction room using Nat.strongRecOn generalizing tokens with
  | ind room below =>
    cases tokens with
    | nil =>
      unfold readStatement
      exact .failed _
    | cons head rest =>
      obtain ⟨token, place⟩ := head
      by_cases binds : token = .letWord
      · subst binds
        exact bind_down lines finish room place rest
      by_cases guards : token = .ifWord
      · subst guards
        cases room with
        | zero =>
          rw [List.map_cons, readStatement_tooDeep]
          dsimp only [Located.down]
          rw [readStatement_tooDeep]
          exact .failed ⟨place, _⟩
        | succ room =>
          have inside := below room (Nat.lt_succ_self room)
          exact guarded_down lines finish inside place rest
      · rw [List.map_cons, readStatement_refused _ _ _ _ binds guards]
        dsimp only [Located.down]
        rw [readStatement_refused _ _ _ _ binds guards]
        exact .failed ⟨place, _⟩

/-- A program further down is the same program with every line raised, and fails with the same error
on a line raised as much. -/
theorem readProgram_down (tokens : Tokens) :
    MovesDown lines (Program.down lines) (readProgram finish tokens)
      (readProgram (finish.down lines) (tokens.map (Located.down lines))) := by
  rw [readProgram, readProgram, List.length_map]
  exact (readMany_down (readStatement_down lines finish maxNesting) _ _ [] tokens).bind
    fun found => .read (Program.mk found.1)

end Programs
end Source
end BranchLab
