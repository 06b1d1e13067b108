import BranchLab.Program.Scope
import BranchLab.Proofs.Source.FirstError

/-! The statements and errors of a program among its tokens. A statement goes by the lines of its first
and last token, and the branch sites are the lines of the words that begin the guarded blocks. -/

namespace BranchLab

namespace Statement

theorem blockSites_eq_flatMap (block : List Statement) : blockSites block = block.flatMap sites := by
  induction block with
  | nil => rfl
  | cons statement rest ih => rw [blockSites, ih, List.flatMap_cons]

theorem blockOutline_eq_flatMap (depth : Nat) (block : List Statement) :
    blockOutline depth block = block.flatMap (outline depth) := by
  induction block with
  | nil => rfl
  | cons statement rest ih => rw [blockOutline, ih, List.flatMap_cons]

def expr : Statement → Expr
  | bind _ value _ => value
  | guarded cond _ _ => cond

theorem checkNames_error {known : List String} {line : Nat} {e : Expr} {error : ScopeError}
    (failed : e.checkNames known line = .error error) :
    error.line = line ∧ error.name ∈ e.names := by
  unfold Expr.checkNames at failed
  split at failed
  · cases failed
  · rename_i found
    cases failed
    exact ⟨rfl, List.mem_of_find?_eq_some found⟩

mutual

/-- A name that nothing binds is used by a statement of the outline, and is reported with its first
line. -/
theorem check_unknown (depth : Nat) (known : List String) (error : ScopeError) :
    (statement : Statement) → check known statement = .error error →
      ∃ entry ∈ outline depth statement,
        error.line = entry.2.lines.start ∧ error.name ∈ entry.2.expr.names
  | bind name value lines, failed => by
    rw [check] at failed
    rcases bind_error.mp failed with unknown | ⟨⟨⟩, -, done⟩
    · exact ⟨(depth, bind name value lines), List.mem_singleton_self _, checkNames_error unknown⟩
    · cases done
  | guarded cond body lines, failed => by
    rw [check] at failed
    rw [outline]
    rcases bind_error.mp failed with unknown | ⟨⟨⟩, -, inner⟩
    · exact ⟨(depth, guarded cond body lines), List.mem_cons_self, checkNames_error unknown⟩
    rcases bind_error.mp inner with inside | ⟨⟨⟩, -, done⟩
    · obtain ⟨entry, member, same⟩ := checkBlock_unknown (depth + 1) known error body inside
      exact ⟨entry, List.mem_cons_of_mem _ member, same⟩
    · cases done

theorem checkBlock_unknown (depth : Nat) (known : List String) (error : ScopeError) :
    (block : List Statement) → checkBlock known block = .error error →
      ∃ entry ∈ blockOutline depth block,
        error.line = entry.2.lines.start ∧ error.name ∈ entry.2.expr.names
  | [], failed => by cases failed
  | statement :: rest, failed => by
    rw [checkBlock] at failed
    rw [blockOutline]
    rcases bind_error.mp failed with first | ⟨after, -, others⟩
    · obtain ⟨entry, member, same⟩ := check_unknown depth known error statement first
      exact ⟨entry, List.mem_append_left _ member, same⟩
    · obtain ⟨entry, member, same⟩ := checkBlock_unknown depth after error rest others
      exact ⟨entry, List.mem_append_right _ member, same⟩

end

theorem checkBlock_error (depth : Nat) (known : List String) (error : ScopeError)
    (block : List Statement) (failed : checkBlock known block = .error error) :
    ∃ entry ∈ blockOutline depth block, error.line = entry.2.lines.start := by
  obtain ⟨entry, member, line, -⟩ := checkBlock_unknown depth known error block failed
  exact ⟨entry, member, line⟩

def opening : Statement → Source.Token
  | bind .. => .letWord
  | guarded .. => .ifWord

def closing : Statement → Source.Token
  | bind .. => .semicolon
  | guarded .. => .closeBrace

end Statement

namespace Source

def guardLines (tokens : Tokens) : List Nat :=
  (tokens.filter fun located => located.token = .ifWord).map fun located => located.place.line

section Guards

variable {tokens : Tokens} {statement : Statement} {program : Program}

@[simp] theorem guardLines_nil : guardLines [] = [] := rfl

theorem guardLines_cons (token : Token) (place : Location) (rest : Tokens) :
    guardLines (⟨token, place⟩ :: rest) =
      if token = .ifWord then place.line :: guardLines rest else guardLines rest := by
  by_cases guard : token = .ifWord <;> simp [guardLines, guard]

theorem guardLines_append (front back : Tokens) :
    guardLines (front ++ back) = guardLines front ++ guardLines back := by
  simp [guardLines]

theorem guardLines_flatMap {α : Type} (parts : List α) (tokensOf : α → Tokens) :
    guardLines (parts.flatMap tokensOf) = parts.flatMap fun part => guardLines (tokensOf part) := by
  induction parts with
  | nil => rfl
  | cons part parts ih => rw [List.flatMap_cons, List.flatMap_cons, guardLines_append, ih]

/-- No guarded block begins inside an expression. -/
theorem Derives.guardless {layer : Layer} {e : Expr} (derived : Derives layer tokens e) :
    guardLines tokens = [] := by
  induction derived with
  | chain joined head signed operands first others =>
    rw [guardLines_append, first, guardLines_flatMap, List.nil_append, List.flatMap_eq_nil_iff]
    intro fold member
    rw [Fold.tokens, guardLines_cons, if_neg (by simp), others fold member]
  | plain primary ih => exact ih
  | number | negative | name => rfl
  | not place operand ih | bitNot place operand ih => simp [guardLines_cons, ih]
  | draw word opening closing inner ih | group opening closing inner ih =>
    simp [guardLines_cons, guardLines_append, ih]

theorem Spells.sites (spelled : Spells tokens statement) : statement.sites = guardLines tokens := by
  induction spelled with
  | bind word named assign last name valued =>
    simp [Statement.sites, guardLines_cons, guardLines_append, valued.guardless]
  | @guarded word opening closing brace last tokens cond body guard inside ih =>
    have blocks : Statement.blockSites (body.map Prod.snd) = guardLines (body.flatMap Prod.fst) := by
      rw [Statement.blockSites_eq_flatMap, guardLines_flatMap, List.flatMap_map]
      exact List.flatMap_congr ih
    simp [Statement.sites, blocks, guardLines_cons, guardLines_append, guard.guardless]

theorem SpellsProgram.sites (spelled : SpellsProgram tokens program) :
    program.branchSites = guardLines tokens := by
  obtain ⟨parts, all, rfl, same⟩ := spelled
  rw [Program.branchSites, same, Statement.blockSites_eq_flatMap, guardLines_flatMap,
    List.flatMap_map]
  exact List.flatMap_congr fun part member => (all part member).sites

theorem exists_of_mem_guardLines {line : Nat} (member : line ∈ guardLines tokens) :
    ∃ place, ⟨.ifWord, place⟩ ∈ tokens ∧ place.line = line := by
  obtain ⟨⟨token, place⟩, kept, rfl⟩ := List.mem_map.mp member
  obtain ⟨inside, same⟩ := List.mem_filter.mp kept
  obtain rfl : token = .ifWord := by simpa using same
  exact ⟨place, inside, rfl⟩

end Guards

section Outlines

variable {tokens : Tokens} {statement : Statement} {program : Program}

theorem Spells.ends (spelled : Spells tokens statement) : ∃ first last middle,
    tokens = ⟨statement.opening, first⟩ :: (middle ++ [⟨statement.closing, last⟩]) ∧
      statement.lines = ⟨first.line, last.line⟩ := by
  cases spelled with
  | bind word named assign last name valued => exact ⟨word, last, _ :: _ :: _, rfl, rfl⟩
  | guarded word opening closing brace last guard inside =>
    exact ⟨word, last, _ :: (_ ++ _), rfl, rfl⟩

theorem mem_blockOutline {depth : Nat} {parts : List (Tokens × Statement)}
    {entry : Nat × Statement}
    (member : entry ∈ Statement.blockOutline depth (parts.map Prod.snd)) :
    ∃ part ∈ parts, entry ∈ Statement.outline depth part.2 := by
  rw [Statement.blockOutline_eq_flatMap, List.flatMap_map] at member
  exact List.mem_flatMap.mp member

theorem infix_flatMap {parts : List (Tokens × Statement)} {part : Tokens × Statement}
    (member : part ∈ parts) : part.1 <:+: parts.flatMap Prod.fst := by
  obtain ⟨front, back, rfl⟩ := List.append_of_mem member
  exact ⟨front.flatMap Prod.fst, back.flatMap Prod.fst, by simp⟩

/-- Every statement of the outline is spelled by tokens that stand together. -/
theorem Spells.outline (spelled : Spells tokens statement) (depth : Nat) :
    ∀ entry ∈ statement.outline depth, ∃ part, part <:+: tokens ∧ Spells part entry.2 := by
  induction spelled generalizing depth with
  | bind word named assign last name valued =>
    intro entry member
    obtain rfl := List.mem_singleton.mp member
    exact ⟨_, List.infix_refl _, .bind word named assign last name valued⟩
  | @guarded word opening closing brace last guarded _ _ guard inside ih =>
    intro entry member
    rw [Statement.outline] at member
    rcases List.mem_cons.mp member with rfl | within
    · exact ⟨_, List.infix_refl _, .guarded word opening closing brace last guard inside⟩
    · obtain ⟨part, listed, nested⟩ := mem_blockOutline within
      obtain ⟨tokens, together, found⟩ := ih part listed (depth + 1) entry nested
      refine ⟨tokens, together.trans ((infix_flatMap listed).trans ?_), found⟩
      exact ⟨⟨.ifWord, word⟩ :: ⟨.openParen, opening⟩ ::
        (guarded ++ [⟨.closeParen, closing⟩, ⟨.openBrace, brace⟩]), [⟨.closeBrace, last⟩], by simp⟩

theorem SpellsProgram.outline (spelled : SpellsProgram tokens program) :
    ∀ entry ∈ program.outline, ∃ part, part <:+: tokens ∧ Spells part entry.2 := by
  obtain ⟨parts, all, rfl, same⟩ := spelled
  intro entry member
  rw [Program.outline, same] at member
  obtain ⟨part, listed, nested⟩ := mem_blockOutline member
  obtain ⟨tokens, together, found⟩ := (all part listed).outline 0 entry nested
  exact ⟨tokens, together.trans (infix_flatMap listed), found⟩

end Outlines

theorem exists_token_of_readProgram {finish : Location} {tokens : Tokens} {error : SyntaxError}
    (failed : readProgram finish tokens = .error error)
    (found : ∀ wanted, error.cause ≠ .unexpectedEnd wanted) :
    ∃ located ∈ tokens, located.place = error.place := by
  have broken := (readProgram_prompt tokens.length).breaks finish tokens error (Nat.le_refl _) failed
  cases broken with
  | @atEnd _ wanted viable => exact absurd rfl (found wanted)
  | @atToken front rest bad _ viable blames fixed =>
    cases blames with
    | here => exact ⟨bad, by simp, rfl⟩
    | magnitude before minus place n => exact ⟨⟨.op .sub, minus⟩, by simp, rfl⟩

end Source
end BranchLab
