import BranchLab.Proofs.Source.Agreement

/-! Where an order of tokens goes wrong. The tokens before the place of an error can be continued to a
program, and with the token there none can, whatever follows; so no part of the reader looks past
the token that decides, and none stops before it. A part is considered together with all that is
read after it, since what comes next decides how the tokens before can be continued. -/

namespace BranchLab.Source

abbrev Ending (β : Type) := Location → Tokens → Reading β

def andThen {α β : Type} (part : Location → Tokens → Reading (α × Tokens)) (next : α → Ending β) :
    Ending β :=
  fun finish tokens => part finish tokens >>= fun found => next found.1 finish found.2

/-- The tokens can be continued so that they are read, wherever the text ends. -/
def Viable {β : Type} (make : Ending β) (front : Tokens) : Prop :=
  ∃ more value, ∀ last, make last (front ++ more) = .ok value

def Starts {β : Type} (make : Ending β) : Prop :=
  ∃ more value, EndsChain 0 more ∧ ∀ last, make last more = .ok value

/-- The token behind `front` is the one that an error is about: it stands at the place of the error,
or it is a number out of range behind the minus at that place. -/
inductive Blames : Tokens → Located → SyntaxError → Prop
  | here {front : Tokens} {bad : Located} {cause : Cause}
      (found : ∀ wanted, cause ≠ .unexpectedEnd wanted)
      (unsigned : bad.token = .op .sub → ∀ numeral, cause ≠ .integerOutOfRange numeral) :
      Blames front bad ⟨bad.place, cause⟩
  | magnitude (before : Tokens) (minus place : Location) (n : Nat) :
      Blames (before ++ [⟨.op .sub, minus⟩]) ⟨.number n, place⟩
        ⟨minus, .integerOutOfRange ("-" ++ toString n)⟩

/-- An error comes as late as it can and no later: where the tokens end, if they can be continued, or
else at the first token with which they cannot. -/
inductive Breaks {β : Type} (make : Ending β) (finish : Location) : Tokens → SyntaxError → Prop
  | atEnd {tokens : Tokens} {wanted : Wanted} (viable : Viable make tokens) :
      Breaks make finish tokens ⟨finish, .unexpectedEnd wanted⟩
  | atToken (front rest : Tokens) {bad : Located} {error : SyntaxError} (viable : Viable make front)
      (blames : Blames front bad error)
      (fixed : ∀ last others, make last (front ++ bad :: others) = .error error) :
      Breaks make finish (front ++ bad :: rest) error

/-- There are tokens that are read, and up to `most` tokens that are not read break off promptly. -/
structure Prompt {β : Type} (most : Nat) (make : Ending β) : Prop where
  starts : Starts make
  breaks : ∀ finish tokens error, tokens.length ≤ most → make finish tokens = .error error →
    Breaks make finish tokens error

section Breaking

variable {β : Type} {inner outer : Ending β} {finish : Location} {head : Located}
  {tokens rest : Tokens} {error : SyntaxError}

theorem Starts.viable (starts : Starts outer) : Viable outer [] := by
  obtain ⟨more, value, -, read⟩ := starts
  exact ⟨more, value, read⟩

theorem Starts.cons (starts : Starts inner) (plain : ∀ op, head.token ≠ .op op)
    (agree : ∀ last others, outer last (head :: others) = inner last others) : Starts outer := by
  obtain ⟨more, value, -, read⟩ := starts
  exact ⟨head :: more, value, endsChain_cons plain head.place more, fun last =>
    (agree last more).trans (read last)⟩

theorem Blames.cons {front : Tokens} {bad : Located} (blames : Blames front bad error)
    (head : Located) : Blames (head :: front) bad error := by
  cases blames with
  | here found unsigned => exact .here found unsigned
  | magnitude before minus place n => exact .magnitude (head :: before) minus place n

/-- The first token is taken, and `inner` goes on. -/
theorem Breaks.cons (broken : Breaks inner finish tokens error)
    (agree : ∀ last others, outer last (head :: others) = inner last others) :
    Breaks outer finish (head :: tokens) error := by
  have viable {front : Tokens} (begun : Viable inner front) : Viable outer (head :: front) := by
    obtain ⟨more, value, read⟩ := begun
    exact ⟨more, value, fun last => (agree last _).trans (read last)⟩
  cases broken with
  | atEnd begun => exact .atEnd (viable begun)
  | atToken front rest begun blames fixed =>
    exact .atToken (head :: front) rest (viable begun) (blames.cons head)
      fun last others => (agree last _).trans (fixed last others)

/-- The first token decides that `inner` goes on, which has not taken it yet. -/
theorem Breaks.of_shape {shape : Tokens → Prop} (broken : Breaks inner finish tokens error)
    (decided : ∀ head rest others, shape (head :: rest) → shape (head :: others))
    (agree : ∀ last tokens, shape tokens → outer last tokens = inner last tokens)
    (begun : Viable outer []) (shaped : shape tokens) : Breaks outer finish tokens error := by
  cases broken with
  | atEnd viable =>
    cases tokens with
    | nil => exact .atEnd begun
    | cons head rest =>
      obtain ⟨more, value, read⟩ := viable
      exact .atEnd ⟨more, value, fun last =>
        (agree last _ (decided head _ _ shaped)).trans (read last)⟩
  | @atToken front rest bad _ viable blames fixed =>
    cases front with
    | nil =>
      -- `inner` may be continued with another first token, which says nothing of `outer`.
      exact .atToken [] rest begun blames fun last others =>
        (agree last _ (decided bad _ _ shaped)).trans (fixed last others)
    | cons head front =>
      obtain ⟨more, value, read⟩ := viable
      refine .atToken (head :: front) rest ⟨more, value, fun last => ?_⟩ blames fun last others => ?_
      · exact (agree last _ (decided head _ _ shaped)).trans (read last)
      · exact (agree last _ (decided head _ _ shaped)).trans (fixed last others)

/-- The first token is refused whatever follows. -/
theorem Breaks.first (cause : Cause) (begun : Viable outer [])
    (refused : ∀ last others, outer last (head :: others) = .error ⟨head.place, cause⟩)
    (found : ∀ wanted, cause ≠ .unexpectedEnd wanted)
    (unsigned : head.token = .op .sub → ∀ numeral, cause ≠ .integerOutOfRange numeral)
    (failed : outer finish (head :: rest) = .error error) :
    Breaks outer finish (head :: rest) error := by
  cases (refused finish rest).symm.trans failed
  exact .atToken [] rest begun (.here found unsigned) refused

variable {most : Nat}

theorem Prompt.behind (prompt : Prompt most inner) (short : rest.length ≤ most)
    (agree : ∀ last others, outer last (head :: others) = inner last others)
    (failed : outer finish (head :: rest) = .error error) :
    Breaks outer finish (head :: rest) error :=
  (prompt.breaks finish rest error short ((agree finish rest).symm.trans failed)).cons agree

/-- Nothing is read without a token, and what is left is one case for each first token. -/
theorem Prompt.of_head (starts : Starts outer) (wanted : Wanted)
    (ended : ∀ finish, outer finish [] = .error ⟨finish, .unexpectedEnd wanted⟩)
    (goes : ∀ finish head rest error, rest.length < most →
      outer finish (head :: rest) = .error error → Breaks outer finish (head :: rest) error) :
    Prompt most outer := by
  refine ⟨starts, ?_⟩
  intro finish tokens error short failed
  cases tokens with
  | nil =>
    cases (ended finish).symm.trans failed
    exact .atEnd starts.viable
  | cons head rest => exact goes finish head rest error short failed

end Breaking

section Tokens

variable {β : Type} {most : Nat}

theorem Prompt.expect {token : Token} (plain : ∀ op, token ≠ .op op) {next : Location → Ending β}
    (prompt : ∀ place, Prompt most (next place)) :
    Prompt most (andThen (fun finish => Source.expect finish token) next) := by
  have taken (place last : Location) (others : Tokens) :
      andThen (fun finish => Source.expect finish token) next last (⟨token, place⟩ :: others) =
        next place last others := by
    rw [andThen, expect_cons]
    rfl
  have starts := (prompt .start).starts.cons plain (taken .start)
  refine .of_head starts (.exactly token) (fun finish => rfl) ?_
  intro finish head rest error short failed
  obtain ⟨found, place⟩ := head
  by_cases same : found = token
  · subst same
    exact (prompt place).behind (Nat.le_of_lt short) (taken place) failed
  · refine .first (.unexpectedToken found (.exactly token)) starts.viable (fun last others => ?_)
      (by simp) (by simp) failed
    simp only [andThen, Source.expect, take, ok_bind, if_neg same]
    rfl

theorem Prompt.takeName {next : String → Ending β} (prompt : ∀ name, Prompt most (next name)) :
    Prompt most (andThen Source.takeName next) := by
  have taken (name : String) (place last : Location) (others : Tokens) :
      andThen Source.takeName next last (⟨.name name, place⟩ :: others) = next name last others := rfl
  have starts := (prompt "x").starts.cons (by simp) (taken "x" .start)
  refine .of_head starts .name (fun finish => rfl) ?_
  intro finish head rest error short failed
  obtain ⟨found, place⟩ := head
  cases found with
  | name text => exact (prompt text).behind (Nat.le_of_lt short) (taken text place) failed
  | letWord | ifWord | randWord =>
    exact .first (.keywordAsName _) starts.viable (fun last others => rfl) (by simp) (by simp)
      failed
  | number | assign | not | bitNot | op | openParen | closeParen | openBrace | closeBrace
  | semicolon =>
    exact .first (.unexpectedToken _ .name) starts.viable (fun last others => rfl) (by simp)
      (by simp) failed

end Tokens

theorem EndsChain.decided {least : Nat} (head : Located) (rest others : Tokens)
    (ends : EndsChain least (head :: rest)) : EndsChain least (head :: others) := by
  intro op place behind same
  cases same
  exact ends op place rest rfl

section Expressions

variable {β : Type} {most : Nat}

abbrev operandThen (room : Nat) (next : Expr → Ending β) : Ending β :=
  andThen (fun finish => readOperand finish room) next

abbrev chainThen (room least : Nat) (lhs : Expr) (next : Expr → Ending β) : Ending β :=
  andThen (fun finish => readChain finish room least lhs) next

theorem readInfix_then (room least : Nat) (next : Expr → Ending β) :
    andThen (fun finish => readInfix finish room least) next =
      operandThen room fun lhs => chainThen room least lhs next := by
  funext finish tokens
  simp only [andThen, readInfix, bind_assoc]

abbrev atomThen (head : Located) (next : Expr → Ending β) : Ending β :=
  andThen (fun finish => readAtom finish head) next

section Magnitudes

variable (finish minus place : Location) {n : Nat} (rest : Tokens)

theorem readAtom_magnitude (fits : n ≤ 2 ^ 63) :
    readAtom finish ⟨.op .sub, minus⟩ (⟨.number n, place⟩ :: rest) =
      .ok (.number (Int64.ofInt (-(n : Int))), rest) := by
  simp only [readAtom, take, ok_bind, if_pos fits]
  rfl

theorem readAtom_tooGreat (beyond : ¬n ≤ 2 ^ 63) :
    readAtom finish ⟨.op .sub, minus⟩ (⟨.number n, place⟩ :: rest) =
      .error ⟨minus, .integerOutOfRange ("-" ++ toString n)⟩ := by
  simp only [readAtom, take, ok_bind, if_neg beyond]
  rfl

theorem readAtom_unexpected {token : Token} (other : ∀ n, token ≠ .number n) :
    readAtom finish ⟨.op .sub, minus⟩ (⟨token, place⟩ :: rest) =
      .error ⟨place, .unexpectedToken token .magnitude⟩ := by
  cases token with
  | number n => exact absurd rfl (other n)
  | _ => rfl

end Magnitudes

/-- A minus takes the number behind it, if it is in range. Both tokens decide: the error of a number out
of range is at the minus. -/
theorem Prompt.magnitude {outer : Ending β} {next : Expr → Ending β}
    (prompt : ∀ e, Prompt most (next e)) {finish minus : Location} {rest : Tokens}
    {error : SyntaxError} (short : rest.length ≤ most)
    (agree : ∀ last others,
      outer last (⟨.op .sub, minus⟩ :: others) = atomThen ⟨.op .sub, minus⟩ next last others)
    (failed : outer finish (⟨.op .sub, minus⟩ :: rest) = .error error) :
    Breaks outer finish (⟨.op .sub, minus⟩ :: rest) error := by
  have taken {n : Nat} (fits : n ≤ 2 ^ 63) (place last : Location) (others : Tokens) :
      atomThen ⟨.op .sub, minus⟩ next last (⟨.number n, place⟩ :: others) =
        next (.number (Int64.ofInt (-(n : Int)))) last others := by
    simp only [atomThen, andThen, readAtom_magnitude last minus place others fits]
    rfl
  -- A number behind the minus is always in reach, so the minus alone is not the end of it.
  have viable : Viable outer [⟨.op .sub, minus⟩] := by
    have one := (prompt (.number (Int64.ofInt (-((1 : Nat) : Int))))).starts
    obtain ⟨more, value, -, read⟩ := one.cons (by simp) (taken (by decide) .start)
    exact ⟨more, value, fun last => (agree last more).trans (read last)⟩
  cases rest with
  | nil =>
    cases (agree finish []).symm.trans failed
    exact .atEnd viable
  | cons literal rest =>
    obtain ⟨token, place⟩ := literal
    rw [agree] at failed
    by_cases digits : ∃ n, token = .number n
    · obtain ⟨n, rfl⟩ := digits
      by_cases fits : n ≤ 2 ^ 63
      · exact ((prompt _).behind (Nat.le_of_succ_le short) (taken fits place) failed).cons agree
      · have fixed (last : Location) (others : Tokens) :
            outer last (⟨.op .sub, minus⟩ :: ⟨.number n, place⟩ :: others) =
              .error ⟨minus, .integerOutOfRange ("-" ++ toString n)⟩ := by
          rw [agree, atomThen, andThen, readAtom_tooGreat last minus place others fits]
          rfl
        cases (agree finish _).symm.trans (fixed finish rest) |>.symm.trans failed
        exact .atToken [⟨.op .sub, minus⟩] rest viable (.magnitude [] minus place n) fixed
    · have other (n : Nat) (same : token = .number n) : False := digits ⟨n, same⟩
      have fixed (last : Location) (others : Tokens) :
          outer last (⟨.op .sub, minus⟩ :: ⟨token, place⟩ :: others) =
            .error ⟨place, .unexpectedToken token .magnitude⟩ := by
        rw [agree, atomThen, andThen, readAtom_unexpected last minus place others other]
        rfl
      cases (agree finish _).symm.trans (fixed finish rest) |>.symm.trans failed
      exact .atToken [⟨.op .sub, minus⟩] rest viable (.here (by simp) (by simp)) fixed

theorem Prompt.atom {outer : Ending β} {next : Expr → Ending β} (prompt : ∀ e, Prompt most (next e))
    {finish : Location} {head : Located} {rest : Tokens} {error : SyntaxError}
    (short : rest.length ≤ most) (viable : Viable outer []) (opens : head.token.opening? = none)
    (agree : ∀ last others, outer last (head :: others) = atomThen head next last others)
    (failed : outer finish (head :: rest) = .error error) :
    Breaks outer finish (head :: rest) error := by
  obtain ⟨token, place⟩ := head
  cases token with
  | number n =>
    by_cases fits : n < 2 ^ 63
    · refine (prompt (.number (Int64.ofNat n))).behind short (fun last others => ?_) failed
      simp only [agree, atomThen, andThen, readAtom, if_pos fits]
      rfl
    · refine .first (.integerOutOfRange (toString n)) viable (fun last others => ?_) (by simp) (by simp) failed
      simp only [agree, atomThen, andThen, readAtom, if_neg fits]
      rfl
  | name text => exact (prompt (.ident text)).behind short agree failed
  | op sign =>
    cases sign with
    | sub => exact magnitude prompt short agree failed
    | _ => exact .first (.unexpectedToken _ .expression) viable agree (by simp) (by simp) failed
  | not | bitNot | randWord | openParen => cases opens
  | letWord | ifWord | assign | closeParen | openBrace | closeBrace | semicolon =>
    exact .first (.unexpectedToken _ .expression) viable agree (by simp) (by simp) failed

/-- With `room` levels left, operands break off promptly if what is read after them does. -/
def OperandsPrompt (β : Type) (most room : Nat) : Prop :=
  ∀ next : Expr → Ending β, (∀ e, Prompt most (next e)) → Prompt most (operandThen room next)

def ChainsPrompt (β : Type) (most room : Nat) : Prop :=
  ∀ least lhs, ∀ next : Expr → Ending β, (∀ e, Prompt most (next e)) →
    Prompt most (chainThen room least lhs next)

theorem Prompt.climb {room : Nat} (operands : OperandsPrompt β most room)
    (chains : ChainsPrompt β most room) (least : Nat) {next : Expr → Ending β}
    (prompt : ∀ e, Prompt most (next e)) :
    Prompt most (andThen (fun finish => readInfix finish room least) next) := by
  rw [readInfix_then]
  exact operands _ fun lhs => chains least lhs next prompt

theorem Prompt.enclosed {room : Nat} (operands : OperandsPrompt β most room)
    (chains : ChainsPrompt β most room) {next : Expr → Ending β}
    (prompt : ∀ e, Prompt most (next e)) :
    Prompt most (andThen (fun finish => readExpr finish room) fun e =>
      andThen (fun finish => Source.expect finish .closeParen) fun _ => next e) :=
  Prompt.climb operands chains BinaryOp.loosest fun e =>
    .expect (by simp) fun _ => prompt e

theorem operandsPrompt {room : Nat}
    (below : ∀ less < room, OperandsPrompt β most less ∧ ChainsPrompt β most less) :
    OperandsPrompt β most room := by
  intro next prompt
  have one (last : Location) (others : Tokens) :
      operandThen room next last (⟨.number 1, .start⟩ :: others) = next (.number 1) last others := by
    have number : readOperand last room (⟨.number 1, .start⟩ :: others) = .ok (.number 1, others) :=
      readOperand_atom last room others rfl
    simp only [operandThen, andThen, number]
    rfl
  have starts := (prompt (.number 1)).starts.cons (by simp) one
  refine .of_head starts .expression (fun finish => ?_) ?_
  · simp only [operandThen, andThen]
    unfold readOperand
    rfl
  · intro finish head rest error short failed
    cases opens : head.token.opening? with
    | none =>
      refine Prompt.atom prompt (Nat.le_of_lt short) starts.viable opens (fun last others => ?_)
        failed
      simp only [operandThen, atomThen, andThen, readOperand_atom last room others opens]
    | some opening =>
      cases room with
      | zero =>
        refine .first .nestingTooDeep starts.viable (fun last others => ?_) (by simp) (by simp)
          failed
        simp only [operandThen, andThen, readOperand_tooDeep last others opens]
        rfl
      | succ room =>
        obtain ⟨operands, chains⟩ := below room (Nat.lt_succ_self room)
        cases opening with
        | unary op =>
          refine (operands (fun e => next (.unary op e)) fun e => prompt _).behind
            (Nat.le_of_lt short) (fun last others => ?_) failed
          simp only [operandThen, andThen, readOperand_prefixed last room others opens, bind_assoc,
            pure_bind]
        | draw =>
          have inner := Prompt.enclosed operands chains fun e => prompt (.random e)
          have opened : Prompt most (andThen (fun finish => expect finish .openParen) fun _ => _) :=
            .expect (by simp) fun _ => inner
          refine opened.behind (Nat.le_of_lt short) (fun last others => ?_) failed
          simp only [operandThen, andThen, readOperand_draw last room others opens, bind_assoc,
            pure_bind]
        | group =>
          refine (Prompt.enclosed operands chains prompt).behind (Nat.le_of_lt short)
            (fun last others => ?_) failed
          simp only [operandThen, andThen, readOperand_group last room others opens, bind_assoc,
            pure_bind]

theorem chainsPrompt {room : Nat}
    (below : ∀ less < room, OperandsPrompt β most less ∧ ChainsPrompt β most less) :
    ChainsPrompt β most room := by
  intro least lhs next prompt
  have ends {tokens : Tokens} (shaped : EndsChain least tokens) (last : Location) :
      chainThen room least lhs next last tokens = next lhs last tokens := by
    simp only [chainThen, andThen, readChain_of_ends last room lhs shaped]
    rfl
  -- What is read after the chain can start without an operator, which ends the chain.
  obtain ⟨more, value, plain, read⟩ := (prompt lhs).starts
  have starts : Starts (chainThen room least lhs next) := ⟨more, value, plain, fun last =>
    (ends (plain.mono (Nat.zero_le least)) last).trans (read last)⟩
  refine ⟨starts, ?_⟩
  intro finish tokens error short failed
  by_cases shaped : EndsChain least tokens
  · have broken := (prompt lhs).breaks finish tokens error short ((ends shaped finish).symm.trans failed)
    exact broken.of_shape EndsChain.decided (fun last tokens shaped => ends shaped last)
      starts.viable shaped
  · obtain ⟨op, place, rest, rfl, binds⟩ : ∃ op place rest, tokens = ⟨.op op, place⟩ :: rest ∧
        least ≤ op.precedence := by
      simpa [EndsChain] using shaped
    cases room with
    | zero =>
      refine .first .nestingTooDeep starts.viable (fun last others => ?_) (by simp) (by simp)
        failed
      simp only [chainThen, andThen, readChain_tooDeep last place lhs others binds]
      rfl
    | succ room =>
      obtain ⟨operands, chains⟩ := below room (Nat.lt_succ_self room)
      have inner := Prompt.climb operands chains (op.precedence + 1) fun rhs =>
        chains least (.binary op lhs rhs) next prompt
      refine inner.behind (Nat.le_of_succ_le short) (fun last others => ?_) failed
      simp only [chainThen, andThen, readChain_op last room place lhs others binds, bind_assoc]

theorem operands_and_chains_prompt (β : Type) (most room : Nat) :
    OperandsPrompt β most room ∧ ChainsPrompt β most room := by
  induction room using Nat.strongRecOn with
  | ind room below => exact ⟨operandsPrompt below, chainsPrompt below⟩

theorem Prompt.expression (room : Nat) {next : Expr → Ending β}
    (prompt : ∀ e, Prompt most (next e)) :
    Prompt most (andThen (fun finish => readExpr finish room) next) :=
  Prompt.climb (operands_and_chains_prompt β most room).1 (operands_and_chains_prompt β most room).2
    BinaryOp.loosest prompt

end Expressions

end BranchLab.Source
