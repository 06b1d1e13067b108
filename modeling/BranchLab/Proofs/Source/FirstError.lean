import Mathlib.Data.List.Nodup
import BranchLab.Proofs.Source.Prompt

/-! Programs break off promptly. A block is closed or goes on with a statement, which takes a token
before anything can go wrong in it, so the blocks of shorter and shorter tokens are considered. -/

namespace BranchLab.Source

theorem EndsBlock.decided {stop : Token → Bool} (head : Located) (rest others : Tokens)
    (ends : EndsBlock stop (head :: rest)) : EndsBlock stop (head :: others) := by
  intro first behind same
  cases same
  exact ends head rest rfl

theorem EndsBlock.nil (stop : Token → Bool) : EndsBlock stop [] := nofun

/-- Turns beyond the number of tokens are never taken. -/
theorem readMany_turns {α : Type} {part : Tokens → Reading (α × Tokens)} {stop : Token → Bool}
    (shrinks : ∀ tokens value rest, part tokens = .ok (value, rest) → rest.length < tokens.length)
    {turns more : Nat} (found : List α) {tokens : Tokens} (enough : tokens.length ≤ turns)
    (extra : turns ≤ more) :
    readMany part stop more found tokens = readMany part stop turns found tokens := by
  induction turns generalizing more found tokens with
  | zero =>
    have empty : tokens = [] := List.length_eq_zero_iff.mp (Nat.le_zero.mp enough)
    subst empty
    have ends := EndsBlock.nil stop
    rw [readMany_of_ends part more found ends, readMany_of_ends part 0 found ends]
  | succ turns ih =>
    by_cases ends : EndsBlock stop tokens
    · rw [readMany_of_ends part more found ends, readMany_of_ends part (turns + 1) found ends]
    · obtain ⟨more, rfl⟩ := Nat.exists_eq_add_of_le' extra
      rw [readMany_next part turns found ends, ← Nat.add_assoc, readMany_next part _ found ends]
      cases first : part tokens with
      | error error => rfl
      | ok read =>
        have shorter := shrinks _ _ _ first
        exact ih (read.1 :: found) (by omega) (by omega)

section Statements

variable {β : Type} {most : Nat}

theorem readStatement_shrinks (finish : Location) (room : Nat) (tokens : Tokens)
    (statement : Statement) (rest : Tokens)
    (read : readStatement finish room tokens = .ok (statement, rest)) :
    rest.length < tokens.length := by
  obtain ⟨front, rfl, spelled⟩ := statementsSpell finish room _ _ _ read
  obtain ⟨word, others, rfl | rfl⟩ := spelled.head <;>
    simp only [List.cons_append, List.length_cons, List.length_append] <;> omega

def blockThen (room : Nat) (stop : Token → Bool) (found : List Statement)
    (next : List Statement → Ending β) : Ending β :=
  andThen (fun finish tokens => readMany (readStatement finish room) stop tokens.length found tokens)
    next

variable {room : Nat} {stop : Token → Bool} {found : List Statement}
  {next : List Statement → Ending β} {tokens : Tokens}

theorem blockThen_of_ends (ends : EndsBlock stop tokens) (last : Location) :
    blockThen room stop found next last tokens = next found.reverse last tokens := by
  simp only [blockThen, andThen, readMany_of_ends _ _ _ ends]
  rfl

theorem blockThen_next (goes : ¬EndsBlock stop tokens) (last : Location) :
    blockThen room stop found next last tokens =
      andThen (fun finish => readStatement finish room)
        (fun statement => blockThen room stop (statement :: found) next) last tokens := by
  cases tokens with
  | nil => exact absurd (.nil stop) goes
  | cons head rest =>
    simp only [blockThen, andThen, List.length_cons, readMany_next _ _ _ goes, bind_assoc]
    cases first : readStatement last room (head :: rest) with
    | error error => rfl
    | ok read =>
      have shorter := readStatement_shrinks last room _ _ _ first
      rw [ok_bind, ok_bind, readMany_turns (readStatement_shrinks last room) _ (Nat.le_refl _)
        (Nat.le_of_lt_succ shorter)]

theorem Prompt.mono {fewer : Nat} {make : Ending β} (prompt : Prompt most make)
    (less : fewer ≤ most) : Prompt fewer make :=
  ⟨prompt.starts, fun finish tokens error short =>
    prompt.breaks finish tokens error (Nat.le_trans short less)⟩

/-- With `room` levels left, statements break off promptly if what is read after them does. They take a
token at least before that. -/
def StatementsPrompt (β : Type) (room : Nat) : Prop :=
  ∀ most, ∀ next : Statement → Ending β, (∀ statement, Prompt most (next statement)) →
    Prompt (most + 1) (andThen (fun finish => readStatement finish room) next)

/-- A block breaks off promptly: it is closed, or goes on with a statement. -/
theorem Prompt.block (statements : StatementsPrompt β room)
    (closes : ∀ body, ∃ more value, EndsBlock stop more ∧ EndsChain 0 more ∧
      ∀ last, next body last more = .ok value)
    (prompt : ∀ body, Prompt most (next body)) (found : List Statement) :
    Prompt most (blockThen room stop found next) := by
  induction most using Nat.strongRecOn generalizing found with
  | ind most ih =>
    obtain ⟨more, value, closed, plain, read⟩ := closes found.reverse
    have starts : Starts (blockThen room stop found next) := ⟨more, value, plain, fun last =>
      (blockThen_of_ends closed last).trans (read last)⟩
    refine ⟨starts, ?_⟩
    intro finish tokens error short failed
    by_cases ends : EndsBlock stop tokens
    · have broken := (prompt found.reverse).breaks finish tokens error short
        ((blockThen_of_ends ends finish).symm.trans failed)
      exact broken.of_shape EndsBlock.decided (fun last tokens ends => blockThen_of_ends ends last)
        starts.viable ends
    · cases most with
      | zero =>
        rw [List.length_eq_zero_iff.mp (Nat.le_zero.mp short)] at ends
        exact absurd (.nil stop) ends
      | succ most =>
        -- The statement takes a token at least, so fewer are left for the rest of the block.
        have others (statement : Statement) :
            Prompt most (blockThen room stop (statement :: found) next) :=
          ih most (Nat.lt_succ_self most) (fun body => (prompt body).mono (Nat.le_succ most)) _
        have broken := (statements most _ others).breaks finish tokens error short
          ((blockThen_next ends finish).symm.trans failed)
        exact broken.of_shape (fun head rest others goes ends => goes (ends.decided head others rest))
          (fun last tokens goes => blockThen_next goes last) starts.viable ends

theorem readStatement_refused (finish : Location) (room : Nat) {token : Token} (place : Location)
    (rest : Tokens) (unbound : token ≠ .letWord) (unguarded : token ≠ .ifWord) :
    readStatement finish room (⟨token, place⟩ :: rest) =
      .error ⟨place, .unexpectedToken token .statement⟩ := by
  unfold readStatement
  cases token <;> first | rfl | contradiction

def bindThen (room : Nat) (word : Location) (next : Statement → Ending β) : Ending β :=
  andThen takeName fun name => andThen (fun finish => expect finish .assign) fun _ =>
    andThen (fun finish => readExpr finish room) fun value =>
      andThen (fun finish => expect finish .semicolon) fun last =>
        next (.bind name value ⟨word.line, last.line⟩)

def guardThen (room : Nat) (word : Location) (next : Statement → Ending β) : Ending β :=
  andThen (fun finish => expect finish .openParen) fun _ =>
    andThen (fun finish => readExpr finish room) fun cond =>
      andThen (fun finish => expect finish .closeParen) fun _ =>
        andThen (fun finish => expect finish .openBrace) fun _ =>
          blockThen room (· = .closeBrace) [] fun body =>
            andThen (fun finish => expect finish .closeBrace) fun last =>
              next (.guarded cond body ⟨word.line, last.line⟩)

theorem readStatement_bindThen (room : Nat) (word : Location) (next : Statement → Ending β)
    (last : Location) (others : Tokens) :
    andThen (fun finish => readStatement finish room) next last (⟨.letWord, word⟩ :: others) =
      bindThen room word next last others := by
  simp only [andThen, bindThen, readStatement_bind, bind_assoc, pure_bind]

theorem readStatement_guardThen (room : Nat) (word : Location) (next : Statement → Ending β)
    (last : Location) (others : Tokens) :
    andThen (fun finish => readStatement finish (room + 1)) next last (⟨.ifWord, word⟩ :: others) =
      guardThen room word next last others := by
  simp only [andThen, guardThen, blockThen, readStatement_guarded, bind_assoc, pure_bind]

variable {next : Statement → Ending β}

theorem Prompt.binding (room : Nat) (word : Location)
    (prompt : ∀ statement, Prompt most (next statement)) : Prompt most (bindThen room word next) :=
  .takeName fun _ => .expect (by simp) fun _ => .expression room fun _ =>
    .expect (by simp) fun _ => prompt _

theorem Prompt.guarded (statements : StatementsPrompt β room) (word : Location)
    (prompt : ∀ statement, Prompt most (next statement)) : Prompt most (guardThen room word next) := by
  refine .expect (by simp) fun _ => .expression room fun cond => .expect (by simp) fun _ =>
    .expect (by simp) fun _ => .block statements (fun body => ?_)
      (fun body => .expect (by simp) fun _ => prompt _) []
  obtain ⟨more, value, -, read⟩ := (prompt (.guarded cond body ⟨word.line, 1⟩)).starts
  refine ⟨⟨.closeBrace, .start⟩ :: more, value, ?_, endsChain_cons (by simp) _ _, fun last => ?_⟩
  · intro head rest same
    cases same
    rfl
  · rw [andThen, expect_cons]
    exact read last

/-- A guard leaves one level less for its condition and its block. -/
theorem statementsPrompt (β : Type) (room : Nat) : StatementsPrompt β room := by
  induction room using Nat.strongRecOn with
  | ind room below =>
    intro most next prompt
    have starts := (Prompt.binding room .start prompt).starts.cons (by simp)
      (readStatement_bindThen room .start next)
    refine .of_head starts .statement (fun finish => ?_) ?_
    · simp only [andThen]
      unfold readStatement
      rfl
    · intro finish head rest error short failed
      have short : rest.length ≤ most := Nat.le_of_lt_succ short
      obtain ⟨token, place⟩ := head
      by_cases binds : token = .letWord
      · subst binds
        exact (Prompt.binding room place prompt).behind short
          (readStatement_bindThen room place next) failed
      by_cases guards : token = .ifWord
      · subst guards
        cases room with
        | zero =>
          refine .first .nestingTooDeep starts.viable (fun last others => ?_) (by simp) (by simp)
            failed
          rw [andThen, readStatement_tooDeep]
          rfl
        | succ room =>
          exact (Prompt.guarded (below room (Nat.lt_succ_self room)) place prompt).behind short
            (readStatement_guardThen room place next) failed
      · refine .first (.unexpectedToken token .statement) starts.viable (fun last others => ?_) (by simp)
          (by simp) failed
        rw [andThen, readStatement_refused last room place others binds guards]
        rfl

def programOf (statements : List Statement) : Ending Program := fun _ _ => .ok ⟨statements⟩

/-- However long an order of tokens is, it breaks off promptly if it is not a program. -/
theorem readProgram_prompt (most : Nat) : Prompt most readProgram := by
  have done (statements : List Statement) : Prompt most (programOf statements) :=
    ⟨⟨[], ⟨statements⟩, endsChain_nil 0, fun _ => rfl⟩, by simp [programOf]⟩
  have whole : Prompt most (blockThen maxNesting (fun _ => false) [] programOf) :=
    .block (statementsPrompt Program maxNesting)
      (fun statements => ⟨[], ⟨statements⟩, .nil _, endsChain_nil 0, fun _ => rfl⟩) done []
  exact whole

end Statements

section Places

variable {tokens front others rest more : Tokens} {bad other : Located} {error : SyntaxError}

theorem split_unique (distinct : (tokens.map Located.place).Nodup)
    (split : tokens = front ++ bad :: rest) (again : tokens = others ++ other :: more)
    (same : bad.place = other.place) : front = others ∧ bad = other := by
  have equal : bad = other :=
    List.inj_on_of_nodup_map distinct (by simp [split]) (by simp [again]) same
  have once : (bad :: (front ++ rest)).Nodup := by
    rw [← List.nodup_middle, ← split]
    exact distinct.of_map
  obtain ⟨before, behind⟩ := not_or.mp (List.mem_append.not.mp (List.nodup_cons.mp once).1)
  rw [split] at again
  subst equal
  exact ⟨((List.append_cons_inj_of_notMem before behind).mp again).1, rfl⟩

/-- The token at the place of an error decides whether the error is about it or the one behind it. -/
theorem Blames.cases_place (blames : Blames front bad error) :
    (bad.place = error.place ∧
      (bad.token = .op .sub → ∀ numeral, error.cause ≠ .integerOutOfRange numeral)) ∨
    ∃ before minus numeral, front = before ++ [minus] ∧ minus.place = error.place ∧
      minus.token = .op .sub ∧ error.cause = .integerOutOfRange numeral := by
  cases blames with
  | here found unsigned => exact .inl ⟨rfl, unsigned⟩
  | magnitude before minus place n => exact .inr ⟨before, ⟨.op .sub, minus⟩, _, rfl, rfl, rfl, rfl⟩

/-- When no two tokens share a place, an error is about one of them only. -/
theorem Blames.unique (distinct : (tokens.map Located.place).Nodup)
    (split : tokens = front ++ bad :: rest) (blames : Blames front bad error)
    (again : tokens = others ++ other :: more) (reblames : Blames others other error) :
    front = others ∧ bad = other := by
  rcases blames.cases_place with ⟨place, unsigned⟩ | ⟨before, minus, numeral, rfl, place, sign, cause⟩ <;>
    rcases reblames.cases_place with
      ⟨replace, plain⟩ | ⟨earlier, sub, digits, rfl, replace, resign, recause⟩
  · exact split_unique distinct split again (place.trans replace.symm)
  · rw [List.append_assoc, List.singleton_append] at again
    obtain ⟨-, rfl⟩ := split_unique distinct split again (place.trans replace.symm)
    exact absurd recause (unsigned resign digits)
  · rw [List.append_assoc, List.singleton_append] at split
    obtain ⟨-, rfl⟩ := split_unique distinct split again (place.trans replace.symm)
    exact absurd cause (plain sign numeral)
  · rw [List.append_assoc, List.singleton_append] at split again
    obtain ⟨rfl, rfl⟩ := split_unique distinct split again (place.trans replace.symm)
    have tails := List.append_cancel_left (split.symm.trans again)
    exact ⟨rfl, (List.cons.inj (List.cons.inj tails).2).1⟩

end Places

/-- An order of tokens that is no program fails at its end if it can be continued to a program, and
else at the first token with which it cannot: the tokens before that can be continued to a program,
and whatever follows it, the error is the same. -/
theorem reader_fails_at_first_dead_token (finish : Location) (tokens : Tokens) (error : SyntaxError)
    (failed : readProgram finish tokens = .error error) :
    ((∃ wanted, error.cause = .unexpectedEnd wanted) ↔
      ∃ more last program, readProgram last (tokens ++ more) = .ok program) ∧
    ((∃ wanted, error.cause = .unexpectedEnd wanted) → error.place = finish) ∧
    ((¬∃ wanted, error.cause = .unexpectedEnd wanted) → ∃ front bad rest,
      tokens = front ++ bad :: rest ∧ Blames front bad error ∧
      ((tokens.map Located.place).Nodup → ∀ others other more, tokens = others ++ other :: more →
        Blames others other error → front = others ∧ bad = other) ∧
      (∃ more program, ∀ last, readProgram last (front ++ more) = .ok program) ∧
      ∀ last others, readProgram last (front ++ bad :: others) = .error error) := by
  have broken := (readProgram_prompt tokens.length).breaks finish tokens error (Nat.le_refl _) failed
  cases broken with
  | @atEnd _ wanted viable =>
    obtain ⟨more, program, read⟩ := viable
    exact ⟨⟨fun _ => ⟨more, finish, program, read finish⟩, fun _ => ⟨wanted, rfl⟩⟩, fun _ => rfl,
      fun found => absurd ⟨wanted, rfl⟩ found⟩
  | @atToken front rest bad _ viable blames fixed =>
    have found : ¬∃ wanted, error.cause = .unexpectedEnd wanted := by
      rintro ⟨wanted, ended⟩
      cases blames with
      | here found => exact found wanted ended
      | magnitude => cases ended
    refine ⟨⟨fun ended => absurd ended found, ?_⟩, fun ended => absurd ended found, fun _ => ?_⟩
    · rintro ⟨more, last, program, read⟩
      rw [List.append_assoc, List.cons_append, fixed] at read
      cases read
    · exact ⟨front, bad, rest, rfl, blames, fun distinct others other more again reblames =>
        blames.unique distinct rfl again reblames, viable, fixed⟩

/-- The error is at the minus, and the number behind it is the token that cannot be continued. -/
theorem reader_fails_at_first_dead_token_magnitude :
    let front : Tokens := [⟨.letWord, ⟨1, 1⟩⟩, ⟨.name "a", ⟨1, 5⟩⟩, ⟨.assign, ⟨1, 7⟩⟩,
      ⟨.openParen, ⟨1, 9⟩⟩, ⟨.op .sub, ⟨1, 10⟩⟩]
    let bad : Located := ⟨.number (2 ^ 63 + 1), ⟨1, 11⟩⟩
    let error : SyntaxError := ⟨⟨1, 10⟩, .integerOutOfRange "-9223372036854775809"⟩
    readProgram ⟨2, 1⟩ (front ++ [bad, ⟨.semicolon, ⟨1, 30⟩⟩]) = .error error ∧
      (¬∃ wanted, error.cause = .unexpectedEnd wanted) ∧
      (∃ more program, ∀ last, readProgram last (front ++ more) = .ok program) ∧
      ∀ last others, readProgram last (front ++ bad :: others) = .error error := by
  intro front bad error
  have failed : readProgram ⟨2, 1⟩ (front ++ [bad, ⟨.semicolon, ⟨1, 30⟩⟩]) = .error error := by decide +kernel
  have found : ¬∃ wanted, error.cause = .unexpectedEnd wanted := by simp [error]
  obtain ⟨-, -, stops⟩ := reader_fails_at_first_dead_token ⟨2, 1⟩ _ error failed
  obtain ⟨before, token, rest, split, -, unique, viable, fixed⟩ := stops found
  have blames : Blames front bad error := .magnitude (front.take 4) ⟨1, 10⟩ ⟨1, 11⟩ (2 ^ 63 + 1)
  obtain ⟨rfl, rfl⟩ := unique (by decide) front bad _ rfl blames
  exact ⟨failed, found, viable, fixed⟩

end BranchLab.Source
