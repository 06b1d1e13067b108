import BranchLab.Proofs.Source.Lexemes
import BranchLab.Proofs.Source.Sites

/-! Every message is one line. What it quotes was read from the text within a line: a token, the
digits of a number, or a name. A character that begins no token is shown by an escape where it
would end the line. -/

namespace BranchLab

def OneLine (text : String) : Prop := '\n' ∉ text.toList

@[simp] theorem oneLine_append {front back : String} :
    OneLine (front ++ back) ↔ OneLine front ∧ OneLine back := by
  simp [OneLine]

@[simp] theorem oneLine_repr (n : Nat) : OneLine n.repr := by
  obtain ⟨first, more, spelled, digits, -⟩ := Source.exists_digits n
  intro feed
  exact absurd (digits '\n' (spelled ▸ feed)) (by decide)

namespace Text

theorem feed_not_mem_toDigits (n : Nat) : '\n' ∉ Nat.toDigits 16 n := by
  have digit (k : Nat) : Nat.digitChar k ≠ '\n' := Nat.digitChar_ne '\n' rfl
  induction n using Nat.strongRecOn with
  | ind n ih =>
    rw [Nat.toDigits_eq_if (by decide)]
    split
    · exact fun feed => digit n (List.mem_singleton.mp feed).symm
    · rw [List.mem_append, List.mem_singleton, not_or]
      exact ⟨ih (n / 16) (by omega), (digit (n % 16)).symm⟩

theorem feed_not_mem_escape (quote c : Char) : '\n' ∉ escape quote c := by
  unfold escape codePointEscape
  split
  · decide
  split
  · decide
  split
  · decide
  split
  · decide
  rename_i visible
  have other : '\n' ≠ c := Ne.symm visible
  split
  · simp [other]
  split
  · simpa using feed_not_mem_toDigits c.toNat
  · simpa using other

theorem oneLine_quoteChar (c : Char) : OneLine (quoteChar c) := by
  simpa [OneLine, quoteChar, quoteWith] using feed_not_mem_escape '\'' c

end Text

namespace Source

def Wanted.Written : Wanted → Prop
  | exactly token => token.Written
  | _ => True

/-- What the cause speaks of can be read from one line. -/
def Cause.Written : Cause → Prop
  | unexpectedCharacter _ | nestingTooDeep => True
  | unexpectedToken found wanted => found.Written ∧ wanted.Written
  | unexpectedEnd wanted => wanted.Written
  | integerOutOfRange numeral => OneLine numeral
  | keywordAsName keyword => keyword.Written

theorem Token.Written.oneLine {token : Token} (written : token.Written) :
    OneLine token.describe := by
  have kind : OneLine token.kind := by cases token <;> simp [Token.kind, OneLine]
  have mark : OneLine "`" := by simp [OneLine]
  have spelling : OneLine token.spelling := feed_not_mem_spelling written
  simp [describe, kind, mark, spelling]

theorem Wanted.Written.oneLine {wanted : Wanted} (written : wanted.Written) :
    OneLine wanted.describe := by
  cases wanted with
  | exactly token => exact Token.Written.oneLine written
  | statement | name | expression | magnitude => simp [describe, OneLine]

theorem Cause.Written.oneLine {cause : Cause} (written : cause.Written) :
    OneLine cause.message := by
  cases cause with
  | unexpectedCharacter c =>
    change OneLine ("unexpected character " ++ Text.quoteChar c)
    have words : OneLine "unexpected character " := by simp [OneLine]
    exact oneLine_append.mpr ⟨words, Text.oneLine_quoteChar c⟩
  | unexpectedToken found wanted =>
    change OneLine ("expected " ++ wanted.describe ++ ", found " ++ found.describe)
    have words : OneLine "expected " ∧ OneLine ", found " := by simp [OneLine]
    simp [words, written.1.oneLine, written.2.oneLine]
  | unexpectedEnd wanted =>
    change OneLine ("expected " ++ wanted.describe ++ ", found end of input")
    have words : OneLine "expected " ∧ OneLine ", found end of input" := by simp [OneLine]
    simp [words, Wanted.Written.oneLine written]
  | integerOutOfRange numeral =>
    change OneLine ("integer literal out of range: " ++ numeral)
    have words : OneLine "integer literal out of range: " := by simp [OneLine]
    exact oneLine_append.mpr ⟨words, written⟩
  | keywordAsName keyword =>
    change OneLine ("keyword " ++ keyword.describe ++ " cannot be used as a name")
    have words : OneLine "keyword " ∧ OneLine " cannot be used as a name" := by simp [OneLine]
    simp [words, Token.Written.oneLine written]
  | nestingTooDeep =>
    change OneLine ("nesting deeper than " ++ toString maxNesting ++ " levels")
    have words : OneLine "nesting deeper than " ∧ OneLine " levels" := by simp [OneLine]
    simp [words]

def AllWritten (tokens : Tokens) : Prop := ∀ located ∈ tokens, located.token.Written

/-- A part of a program is read and leaves tokens that can be read from a line each, or it fails for
a cause that can. -/
inductive Faithful {α : Type} : Reading (α × Tokens) → Prop
  | read (value : α) {rest : Tokens} (written : AllWritten rest) : Faithful (.ok (value, rest))
  | failed (place : Location) {cause : Cause} (written : cause.Written) :
      Faithful (.error ⟨place, cause⟩)

theorem Faithful.bind {α β : Type} {reading : Reading (α × Tokens)}
    {next : α × Tokens → Reading (β × Tokens)} (first : Faithful reading)
    (others : ∀ value rest, AllWritten rest → Faithful (next (value, rest))) :
    Faithful (reading >>= next) := by
  cases first with
  | read value written => exact others value _ written
  | failed place written => exact .failed place written

section Reading

variable {finish : Location} {tokens rest : Tokens}

theorem expect_faithful (token : Token) (plain : token.Written) (written : AllWritten tokens) :
    Faithful (expect finish token tokens) := by
  cases tokens with
  | nil => exact .failed finish plain
  | cons head rest =>
    obtain ⟨first, others⟩ := List.forall_mem_cons.mp written
    simp only [expect, take, ok_bind]
    by_cases same : head.token = token
    · rw [if_pos same]
      exact .read head.place others
    · rw [if_neg same]
      exact .failed head.place ⟨first, plain⟩

theorem takeName_faithful (written : AllWritten tokens) : Faithful (takeName finish tokens) := by
  cases tokens with
  | nil => exact .failed finish trivial
  | cons head rest =>
    obtain ⟨first, others⟩ := List.forall_mem_cons.mp written
    obtain ⟨token, place⟩ := head
    cases token with
    | name text => exact .read text others
    | letWord | ifWord | randWord => exact .failed place first
    | number | assign | not | bitNot | op | openParen | closeParen | openBrace | closeBrace
    | semicolon => exact .failed place ⟨first, trivial⟩

theorem readAtom_faithful {head : Located} (first : head.token.Written) (others : AllWritten rest) :
    Faithful (readAtom finish head rest) := by
  obtain ⟨token, place⟩ := head
  cases token with
  | number n =>
    simp only [readAtom]
    by_cases small : n < 2 ^ 63
    · rw [if_pos small]
      exact .read _ others
    · rw [if_neg small]
      exact .failed place (oneLine_repr n)
  | name text => exact .read _ others
  | op sign =>
    cases sign with
    | sub =>
      cases rest with
      | nil => exact .failed finish trivial
      | cons digits rest =>
        obtain ⟨second, last⟩ := List.forall_mem_cons.mp others
        obtain ⟨token, behind⟩ := digits
        cases token with
        | number n =>
          have minus : OneLine ("-" ++ toString n) :=
            oneLine_append.mpr ⟨by simp [OneLine], oneLine_repr n⟩
          simp only [readAtom, take, ok_bind]
          by_cases small : n ≤ 2 ^ 63
          · rw [if_pos small]
            exact .read _ last
          · rw [if_neg small]
            exact .failed place minus
        | _ => exact .failed behind ⟨second, trivial⟩
    | _ => exact .failed place ⟨first, trivial⟩
  | _ => exact .failed place ⟨first, trivial⟩

def OperandsFaithful (finish : Location) (room : Nat) : Prop :=
  ∀ tokens, AllWritten tokens → Faithful (readOperand finish room tokens)

def ChainsFaithful (finish : Location) (room : Nat) : Prop :=
  ∀ least lhs tokens, AllWritten tokens → Faithful (readChain finish room least lhs tokens)

variable {room : Nat}

theorem infix_faithful (operands : OperandsFaithful finish room)
    (chains : ChainsFaithful finish room) (least : Nat) (written : AllWritten tokens) :
    Faithful (readInfix finish room least tokens) :=
  (operands tokens written).bind fun lhs rest others => chains least lhs rest others

theorem enclosed_faithful (operands : OperandsFaithful finish room)
    (chains : ChainsFaithful finish room) (make : Expr → Expr) (written : AllWritten tokens) :
    Faithful (do
      let (inner, rest) ← readExpr finish room tokens
      let (_, rest) ← expect finish .closeParen rest
      return (make inner, rest)) :=
  (infix_faithful operands chains _ written).bind fun inner _ others =>
    (expect_faithful .closeParen trivial others).bind fun _ _ last => .read (make inner) last

theorem operandsFaithful
    (below : ∀ less < room, OperandsFaithful finish less ∧ ChainsFaithful finish less) :
    OperandsFaithful finish room := by
  intro tokens written
  cases tokens with
  | nil =>
    unfold readOperand
    exact .failed finish trivial
  | cons head rest =>
    obtain ⟨first, others⟩ := List.forall_mem_cons.mp written
    cases opens : head.token.opening? with
    | none =>
      rw [readOperand_atom _ _ _ opens]
      exact readAtom_faithful first others
    | some opening =>
      cases room with
      | zero =>
        rw [readOperand_tooDeep _ _ opens]
        exact .failed head.place trivial
      | succ room =>
        obtain ⟨operands, chains⟩ := below room (Nat.lt_succ_self room)
        cases opening with
        | unary op =>
          rw [readOperand_prefixed _ _ _ opens]
          exact (operands rest others).bind fun operand _ last => .read (Expr.unary op operand) last
        | draw =>
          rw [readOperand_draw _ _ _ opens]
          exact (expect_faithful .openParen trivial others).bind fun _ _ inside =>
            enclosed_faithful operands chains .random inside
        | group =>
          rw [readOperand_group _ _ _ opens]
          exact enclosed_faithful operands chains id others

theorem chainsFaithful
    (below : ∀ less < room, OperandsFaithful finish less ∧ ChainsFaithful finish less) :
    ChainsFaithful finish room := by
  intro least lhs tokens written
  by_cases ends : EndsChain least tokens
  · rw [readChain_of_ends _ _ _ ends]
    exact .read lhs written
  · obtain ⟨op, place, rest, rfl, binds⟩ : ∃ op place rest, tokens = ⟨.op op, place⟩ :: rest ∧
        least ≤ op.precedence := by
      simpa [EndsChain] using ends
    obtain ⟨-, others⟩ := List.forall_mem_cons.mp written
    cases room with
    | zero =>
      rw [readChain_tooDeep _ _ _ _ binds]
      exact .failed place trivial
    | succ room =>
      obtain ⟨operands, chains⟩ := below room (Nat.lt_succ_self room)
      rw [readChain_op _ _ _ _ _ binds]
      exact (infix_faithful operands chains _ others).bind fun rhs _ last =>
        chains least (.binary op lhs rhs) _ last

theorem operands_and_chains_faithful (finish : Location) (room : Nat) :
    OperandsFaithful finish room ∧ ChainsFaithful finish room := by
  -- Every opening token and operator leaves one level less for what it opens.
  induction room using Nat.strongRecOn with
  | ind room below => exact ⟨operandsFaithful below, chainsFaithful below⟩

theorem readExpr_faithful (written : AllWritten tokens) : Faithful (readExpr finish room tokens) :=
  infix_faithful (operands_and_chains_faithful finish room).1
    (operands_and_chains_faithful finish room).2 _ written

theorem readMany_faithful {α : Type} {part : Tokens → Reading (α × Tokens)}
    (faithful : ∀ tokens, AllWritten tokens → Faithful (part tokens)) (stop : Token → Bool)
    (turns : Nat) (found : List α) (written : AllWritten tokens) :
    Faithful (readMany part stop turns found tokens) := by
  induction turns generalizing found tokens with
  | zero => exact .read found.reverse written
  | succ turns ih =>
    by_cases ends : EndsBlock stop tokens
    · rw [readMany_of_ends part _ found ends]
      exact .read found.reverse written
    · rw [readMany_next part turns found ends]
      exact (faithful tokens written).bind fun next _ others => ih (next :: found) others

theorem readStatement_faithful (finish : Location) (room : Nat) (tokens : Tokens)
    (written : AllWritten tokens) : Faithful (readStatement finish room tokens) := by
  -- A guard leaves one level less for its condition and its block.
  induction room using Nat.strongRecOn generalizing tokens with
  | ind room below =>
    cases tokens with
    | nil =>
      unfold readStatement
      exact .failed finish trivial
    | cons head rest =>
      obtain ⟨first, others⟩ := List.forall_mem_cons.mp written
      obtain ⟨token, place⟩ := head
      by_cases binds : token = .letWord
      · subst binds
        rw [readStatement_bind]
        refine (takeName_faithful others).bind fun name rest others => ?_
        refine (expect_faithful .assign trivial others).bind fun _ rest others => ?_
        refine (readExpr_faithful others).bind fun value rest others => ?_
        exact (expect_faithful .semicolon trivial others).bind fun _ _ others => .read _ others
      by_cases guards : token = .ifWord
      · subst guards
        cases room with
        | zero =>
          rw [readStatement_tooDeep]
          exact .failed place trivial
        | succ room =>
          have inside := below room (Nat.lt_succ_self room)
          rw [readStatement_guarded]
          refine (expect_faithful .openParen trivial others).bind fun _ rest others => ?_
          refine (readExpr_faithful others).bind fun cond rest others => ?_
          refine (expect_faithful .closeParen trivial others).bind fun _ rest others => ?_
          refine (expect_faithful .openBrace trivial others).bind fun _ rest others => ?_
          refine (readMany_faithful inside _ _ [] others).bind fun body rest others => ?_
          exact (expect_faithful .closeBrace trivial others).bind fun _ _ others => .read _ others
      · rw [readStatement_refused _ _ _ _ binds guards]
        exact .failed place ⟨first, trivial⟩

theorem cause_written_of_readProgram {error : SyntaxError} (written : AllWritten tokens)
    (failed : readProgram finish tokens = .error error) : error.cause.Written := by
  rcases bind_error.mp failed with block | ⟨_, -, done⟩
  · have faithful := readMany_faithful (readStatement_faithful finish maxNesting) (fun _ => false)
      tokens.length [] written
    rw [block] at faithful
    cases faithful with
    | failed place written => exact written
  · cases done

end Reading

section Scanning

variable {place : Location} {part text : List Char} {answer : Except SyntaxError Tokens}

theorem Cause.ReadFrom.written {cause : Cause} (read : cause.ReadFrom part)
    (feedless : '\n' ∉ part) : cause.Written := by
  cases read with
  | character c => trivial
  | digits nonempty digits => simpa [Cause.Written, OneLine] using feedless

theorem Scans.allWritten (scans : Scans place text answer) {tokens : Tokens}
    (scanned : answer = .ok tokens) : AllWritten tokens := by
  induction scans generalizing tokens with
  | done place =>
    cases scanned
    nofun
  | trivia read others ih => exact ih scanned
  | @token place first rest token more answer read others ih =>
    cases answer with
    | error error => cases scanned
    | ok tokens =>
      cases scanned
      exact List.forall_mem_cons.mpr ⟨(token_of_read read).1, ih rfl⟩
  | fault read => cases scanned

theorem Scans.fault_written (scans : Scans place text answer) {error : SyntaxError}
    (failed : answer = .error error) : error.cause.Written := by
  obtain ⟨part, -, read, -, feedless⟩ := scans.fault_stands failed
  exact read.written feedless

end Scanning

section Names

variable {tokens : Tokens} {name : String}

theorem names_foldl_onto (folds : List Fold) (first : Expr) :
    (folds.foldl Fold.onto first).names =
      first.names ++ folds.flatMap fun fold => fold.value.names := by
  induction folds generalizing first with
  | nil => simp
  | cons fold folds ih => simp [ih, Fold.onto, Expr.names]

theorem Derives.name_mem {layer : Layer} {e : Expr} (derived : Derives layer tokens e)
    (used : name ∈ e.names) : ∃ place, ⟨.name name, place⟩ ∈ tokens := by
  induction derived with
  | @chain layer inner signs front first folds joined head signed operands ih others =>
    rw [names_foldl_onto, List.mem_append, List.mem_flatMap] at used
    rcases used with at_head | ⟨fold, turn, inside⟩
    · obtain ⟨place, member⟩ := ih at_head
      exact ⟨place, List.mem_append_left _ member⟩
    · obtain ⟨place, member⟩ := others fold turn inside
      have behind : ⟨.name name, place⟩ ∈ fold.tokens := List.mem_cons_of_mem _ member
      exact ⟨place, List.mem_append_right _ (List.mem_flatMap.mpr ⟨fold, turn, behind⟩)⟩
  | plain primary ih => exact ih used
  | number | negative => cases used
  | name place text =>
    obtain rfl := List.mem_singleton.mp used
    exact ⟨place, List.mem_singleton_self _⟩
  | not place operand ih | bitNot place operand ih =>
    obtain ⟨named, member⟩ := ih used
    exact ⟨named, List.mem_cons_of_mem _ member⟩
  | draw word opening closing inner ih | group opening closing inner ih =>
    obtain ⟨named, member⟩ := ih used
    exact ⟨named, by simp [member]⟩

theorem Spells.name_mem {statement : Statement} (spelled : Spells tokens statement)
    (used : name ∈ statement.expr.names) : ∃ place, ⟨.name name, place⟩ ∈ tokens := by
  cases spelled with
  | bind word named assign last bound valued =>
    obtain ⟨place, member⟩ := valued.name_mem used
    exact ⟨place, by simp [member]⟩
  | guarded word opening closing brace last guard inside =>
    obtain ⟨place, member⟩ := guard.name_mem used
    exact ⟨place, by simp [member]⟩

end Names

section Programs

variable {text : String} {program : Program}

theorem oneLine_of_malformed {error : SyntaxError} (failed : Program.ofText text = .error error) :
    OneLine error.cause.message := by
  refine Cause.Written.oneLine ?_
  have scans := scans_scan text.toList
  rcases bind_error.mp failed with faulty | ⟨tokens, scanned, unread⟩
  · exact scans.fault_written faulty
  · exact cause_written_of_readProgram (scans.allWritten scanned) unread

theorem oneLine_of_unscoped {initial : Bindings} {error : ScopeError}
    (parsed : Program.ofText text = .ok program) (refused : program.check initial = .error error) :
    OneLine error.message := by
  obtain ⟨tokens, scanned, read⟩ := bind_ok.mp parsed
  obtain ⟨entry, listed, -, used⟩ := Statement.checkBlock_unknown 0 _ error _ refused
  obtain ⟨part, together, spelled⟩ := (readProgram_spells read).outline entry listed
  obtain ⟨place, member⟩ := spelled.name_mem used
  have written := (scans_scan text.toList).allWritten scanned _ (together.subset member)
  have name : OneLine error.name := feed_not_mem_spelling written
  have words : OneLine "undefined identifier `" ∧ OneLine "` (line " ∧ OneLine ")" := by
    simp [OneLine]
  change OneLine ("undefined identifier `" ++ error.name ++ "` (line " ++
    toString error.line ++ ")")
  simp [words, name]

end Programs

end Source
end BranchLab
