import BranchLab.Proofs.Source.Agreement

/-! A reader that counts levels of nesting. It keeps a mark among the tokens and one counter for all
of its parts, which raise the counter at openings and operators and have to lower it again. What
bounds how deep the parts call each other knows nothing of the counter; beyond it they are given up.
A part keeps to an answer of the reader if it has the same outcome from the mark on, and has moved
the mark and the counter as it should. -/

namespace BranchLab.Source

/-- How many tokens are taken, how many levels the reading is in, and the most it has been in. -/
structure Mark where
  index : Nat
  level : Nat
  highest : Nat
deriving DecidableEq

namespace Mark

def next (mark : Mark) : Mark := { mark with index := mark.index + 1 }

def toLevel (level : Nat) (mark : Mark) : Mark :=
  { mark with level, highest := max mark.highest level }

end Mark

/-- A reading that moves the mark, also where it fails. It has no result if it is given up. -/
abbrev Tracked := ExceptT SyntaxError (StateT Mark Option)

namespace Tracked

def givenUp {α : Type} : Tracked α := fun _ => none

section Steps

variable (finish : Location) (tokens : Tokens)

def peek : Tracked (Option Token) := do
  let mark ← get
  return tokens[mark.index]?.map Located.token

def here : Tracked Location := do
  let mark ← get
  return (tokens[mark.index]?.map Located.place).getD finish

def skip : Tracked Unit := modify Mark.next

def descend (place : Location) : Tracked Unit := do
  let mark ← get
  if maxNesting ≤ mark.level then throw ⟨place, .nestingTooDeep⟩
  else set (mark.toLevel (mark.level + 1))

/-- Takes the token at the mark, whose place is to blame if it opens one level too many. -/
def enter : Tracked Unit := do
  descend (← here finish tokens)
  skip

def ascend : Tracked Unit := modify fun mark => mark.toLevel (mark.level - 1)

def advance (wanted : Wanted) : Tracked Located := do
  let mark ← get
  match tokens[mark.index]? with
  | none => throw ⟨finish, .unexpectedEnd wanted⟩
  | some head =>
    skip
    return head

def exactly (token : Token) : Tracked Location := do
  let head ← advance finish tokens (.exactly token)
  if head.token = token then return head.place
  else throw ⟨head.place, .unexpectedToken head.token (.exactly token)⟩

def name : Tracked String := do
  let head ← advance finish tokens .name
  match head.token with
  | .name text => return text
  | .letWord | .ifWord | .randWord => throw ⟨head.place, .keywordAsName head.token⟩
  | _ => throw ⟨head.place, .unexpectedToken head.token .name⟩

def atom (head : Located) : Tracked Expr :=
  match head.token with
  | .number value =>
    if value < 2 ^ 63 then return .number (Int64.ofNat value)
    else throw ⟨head.place, .integerOutOfRange (toString value)⟩
  | .op .sub => do
    let literal ← advance finish tokens .magnitude
    match literal.token with
    | .number value =>
      if value ≤ 2 ^ 63 then return .number (Int64.ofInt (-(value : Int)))
      else throw ⟨head.place, .integerOutOfRange ("-" ++ toString value)⟩
    | _ => throw ⟨literal.place, .unexpectedToken literal.token .magnitude⟩
  | .name text => return .ident text
  | _ => throw ⟨head.place, .unexpectedToken head.token .expression⟩

mutual

def binary (depth least : Nat) : Tracked Expr := do
  let base := (← get).level
  let lhs ← unary depth
  folds depth base least lhs
termination_by (depth, 3)

/-- The operations that follow `lhs`. Each leaves the counter one higher, up to the end. -/
def folds (depth base least : Nat) (lhs : Expr) : Tracked Expr := do
  match ← peek tokens with
  | some (.op op) =>
    if op.precedence < least then
      modify (Mark.toLevel base)
      return lhs
    else
      enter finish tokens
      match depth with
      | 0 => givenUp
      | depth + 1 =>
        let rhs ← binary depth (op.precedence + 1)
        folds depth base least (.binary op lhs rhs)
  | _ =>
    modify (Mark.toLevel base)
    return lhs
termination_by (depth, 0)

def unary (depth : Nat) : Tracked Expr := do
  match ← peek tokens with
  | some .not => prefixed depth .not
  | some .bitNot => prefixed depth .bitNot
  | _ => primary depth
termination_by (depth, 2)

def prefixed (depth : Nat) (op : UnaryOp) : Tracked Expr := do
  enter finish tokens
  match depth with
  | 0 => givenUp
  | depth + 1 =>
    let operand ← unary depth
    ascend
    return .unary op operand
termination_by (depth, 1)

def primary (depth : Nat) : Tracked Expr := do
  let head ← advance finish tokens .expression
  match head.token with
  | .randWord =>
    descend head.place
    match depth with
    | 0 => givenUp
    | depth + 1 =>
      let _ ← exactly finish tokens .openParen
      let bound ← binary depth BinaryOp.loosest
      let _ ← exactly finish tokens .closeParen
      ascend
      return .random bound
  | .openParen =>
    descend head.place
    match depth with
    | 0 => givenUp
    | depth + 1 =>
      let inner ← binary depth BinaryOp.loosest
      let _ ← exactly finish tokens .closeParen
      ascend
      return inner
  | _ => atom finish tokens head
termination_by (depth, 1)

end

def expression (depth : Nat) : Tracked Expr := binary finish tokens depth BinaryOp.loosest

mutual

def statement (depth : Nat) : Tracked Statement := do
  let head ← advance finish tokens .statement
  match head.token with
  | .letWord =>
    let name ← name finish tokens
    let _ ← exactly finish tokens .assign
    let value ← expression finish tokens depth
    let last ← exactly finish tokens .semicolon
    return .bind name value ⟨head.place.line, last.line⟩
  | .ifWord =>
    descend head.place
    match depth with
    | 0 => givenUp
    | depth + 1 =>
      let _ ← exactly finish tokens .openParen
      let cond ← expression finish tokens depth
      let _ ← exactly finish tokens .closeParen
      let _ ← exactly finish tokens .openBrace
      let body ← statements depth tokens.length true []
      let last ← exactly finish tokens .closeBrace
      ascend
      return .guarded cond body ⟨head.place.line, last.line⟩
  | _ => throw ⟨head.place, .unexpectedToken head.token .statement⟩
termination_by (depth, 0)

/-- The statements up to the end, or to the end of the block, after those in `found`; there may be
`more` of them. -/
def statements (depth more : Nat) (inBlock : Bool) (found : List Statement) :
    Tracked (List Statement) := do
  match ← peek tokens with
  | none => return found.reverse
  | some token =>
    if inBlock ∧ token = .closeBrace then return found.reverse
    else
      match more with
      | 0 => givenUp
      | more + 1 =>
        let next ← statement depth
        statements depth more inBlock (next :: found)
termination_by (depth, more + 1)

end

end Steps

end Tracked

structure Mark.On (level : Nat) (mark : Mark) : Prop where
  level : mark.level = level
  highest : mark.highest ≤ maxNesting

namespace Mark.On

variable {level other : Nat} {mark : Mark}

theorem next (on : mark.On level) : mark.next.On level := ⟨on.level, on.highest⟩

theorem toLevel (on : mark.On level) (allowed : other ≤ maxNesting) :
    (mark.toLevel other).On other :=
  ⟨rfl, Nat.max_le.mpr ⟨on.highest, allowed⟩⟩

end Mark.On

section Runs

open Tracked

variable {α β : Type} {finish : Location} {tokens rest : Tokens} {start after : Mark}
  {head : Located} {level : Nat}

theorem run_bind {first : Tracked α} (next : α → Tracked β) {value : α}
    (ran : first.run.run start = some (.ok value, after)) :
    (first >>= next).run.run start = (next value).run.run after := by
  change Option.bind (first.run.run start) _ = _
  rw [ran]
  rfl

theorem run_bind_error {first : Tracked α} (next : α → Tracked β) {error : SyntaxError}
    (failed : first.run.run start = some (.error error, after)) :
    (first >>= next).run.run start = some (.error error, after) := by
  change Option.bind (first.run.run start) _ = _
  rw [failed]
  rfl

theorem run_get (next : Mark → Tracked α) :
    (get >>= next).run.run start = (next start).run.run start := rfl

theorem run_peek (next : Option Token → Tracked α) : (peek tokens >>= next).run.run start =
    (next ((tokens.drop start.index).head?.map Located.token)).run.run start := by
  rw [List.head?_drop]
  rfl

theorem getElem?_of_drop (ahead : tokens.drop start.index = head :: rest) :
    tokens[start.index]? = some head := by
  rw [← List.head?_drop, ahead]
  rfl

theorem drop_next (ahead : tokens.drop start.index = head :: rest) :
    tokens.drop start.next.index = rest := by
  rw [Mark.next, ← List.drop_drop, ahead]
  rfl

theorem run_advance (wanted : Wanted) (ahead : tokens.drop start.index = head :: rest) :
    (advance finish tokens wanted).run.run start = some (.ok head, start.next) := by
  unfold advance
  rw [run_get, getElem?_of_drop ahead]
  rfl

theorem run_advance_nil (wanted : Wanted) (ended : tokens.drop start.index = []) :
    (advance finish tokens wanted).run.run start =
      some (.error ⟨finish, .unexpectedEnd wanted⟩, start) := by
  have none : tokens[start.index]? = none := by
    rw [← List.head?_drop, ended]
    rfl
  unfold advance
  rw [run_get, none]
  rfl

theorem run_descend (place : Location) (on : start.On level) (allowed : level < maxNesting) :
    (descend place).run.run start = some (.ok (), start.toLevel (level + 1)) := by
  unfold descend
  rw [run_get, on.level, if_neg (Nat.not_le.mpr allowed)]
  rfl

theorem run_descend_tooDeep (place : Location) (full : maxNesting ≤ start.level) :
    (descend place).run.run start = some (.error ⟨place, .nestingTooDeep⟩, start) := by
  unfold descend
  rw [run_get, if_pos full]
  rfl

theorem run_enter (ahead : tokens.drop start.index = head :: rest) :
    (enter finish tokens).run.run start = (descend head.place >>= fun _ => skip).run.run start := by
  have placed : (here finish tokens).run.run start = some (.ok head.place, start) := by
    unfold here
    rw [run_get, getElem?_of_drop ahead]
    rfl
  exact run_bind _ placed

theorem run_ascend (on : start.On (level + 1)) :
    ascend.run.run start = some (.ok (), start.toLevel level) := by
  have below : start.level - 1 = level := by
    rw [on.level]
    rfl
  rw [← below]
  rfl

end Runs

/-- From the mark `start` a part does what the reader answers. If it succeeds, it takes at least
`gain` tokens and ends on the level `exit`; and it is never in more levels than allowed. -/
inductive Keeps {α : Type} (tokens : Tokens) (start : Mark) (gain exit : Nat) (part : Tracked α) :
    Reading (α × Tokens) → Prop
  | read {value : α} {after : Mark} (ran : part.run.run start = some (.ok value, after))
      (moved : start.index + gain ≤ after.index)
      (inside : after.index ≤ max start.index tokens.length) (on : after.On exit) :
      Keeps tokens start gain exit part (.ok (value, tokens.drop after.index))
  | failed {error : SyntaxError} {after : Mark}
      (ran : part.run.run start = some (.error error, after))
      (highest : after.highest ≤ maxNesting) : Keeps tokens start gain exit part (.error error)

namespace Keeps

variable {α β : Type} {tokens rest : Tokens} {start after : Mark} {head : Located}
  {gain least exit last : Nat} {part other : Tracked α} {answer : Reading (α × Tokens)}

/-- A part goes on as another one does from a later mark. -/
theorem resume (kept : Keeps tokens after gain exit other answer)
    (same : part.run.run start = other.run.run after)
    (moved : start.index + least ≤ after.index + gain)
    (inside : after.index ≤ max start.index tokens.length) :
    Keeps tokens start least exit part answer := by
  cases kept with
  | read ran further within on => exact .read (same.trans ran) (by omega) (by omega) on
  | failed ran highest => exact .failed (same.trans ran) highest

theorem congr (kept : Keeps tokens start gain exit other answer)
    (same : part.run.run start = other.run.run start) :
    Keeps tokens start gain exit part answer :=
  kept.resume same (Nat.le_refl _) (Nat.le_max_left ..)

/-- A part that takes the token at the mark goes on behind it. -/
theorem behind (kept : Keeps tokens after 0 exit other answer)
    (ahead : tokens.drop start.index = head :: rest)
    (same : part.run.run start = other.run.run after) (index : after.index = start.next.index)
    (enough : least ≤ 1) : Keeps tokens start least exit part answer := by
  have shorter := congrArg List.length ahead
  rw [List.length_drop, List.length_cons] at shorter
  have one : after.index = start.index + 1 := index
  exact kept.resume same (by omega) (by omega)

theorem stopped {first : Tracked α} (next : α → Tracked β) {error : SyntaxError}
    (begun : Keeps tokens start gain exit first (.error error)) :
    Keeps tokens start least last (first >>= next) (.error error) := by
  cases begun with
  | failed ran highest => exact .failed (run_bind_error next ran) highest

theorem bind_moved {first : Tracked α} {next : α → Tracked β}
    {reading : α × Tokens → Reading (β × Tokens)}
    (begun : Keeps tokens start gain exit first answer)
    (goes : ∀ value (after : Mark), after.On exit → start.index + gain ≤ after.index →
      Keeps tokens after 0 last (next value) (reading (value, tokens.drop after.index)))
    (enough : least ≤ gain) :
    Keeps tokens start least last (first >>= next) (answer >>= reading) := by
  cases begun with
  | read ran moved inside on =>
    exact (goes _ _ on moved).resume (run_bind next ran) (by omega) inside
  | failed ran highest =>
    have begun : Keeps tokens start gain exit first (.error _) := .failed ran highest
    exact begun.stopped next

theorem bind {first : Tracked α} {next : α → Tracked β}
    {reading : α × Tokens → Reading (β × Tokens)}
    (begun : Keeps tokens start gain exit first answer)
    (goes : ∀ value (after : Mark), after.On exit →
      Keeps tokens after 0 last (next value) (reading (value, tokens.drop after.index)))
    (enough : least ≤ gain := by decide) :
    Keeps tokens start least last (first >>= next) (answer >>= reading) :=
  begun.bind_moved (fun value after on _ => goes value after on) enough

/-- A part that takes no token. -/
theorem stays {value : α} (ran : part.run.run start = some (.ok value, after))
    (index : after.index = start.index) (on : after.On exit) :
    Keeps tokens start 0 exit part (.ok (value, tokens.drop start.index)) :=
  index ▸ .read ran (Nat.le_of_eq index.symm) (index ▸ Nat.le_max_left ..) on

theorem ok (value : α) (on : start.On exit) :
    Keeps tokens start 0 exit (pure value) (.ok (value, tokens.drop start.index)) :=
  stays rfl rfl on

theorem error {level : Nat} (error : SyntaxError) (on : start.On level) :
    Keeps tokens start gain exit (throw error : Tracked α) (.error error) :=
  .failed rfl on.highest

end Keeps

section Steps

open Tracked

variable {α : Type} {finish : Location} {tokens rest : Tokens} {start : Mark} {head : Located}
  {level least last : Nat} {next : Tracked α} {answer : Reading (α × Tokens)}

theorem advance_keeps (wanted : Wanted) (on : start.On level) :
    Keeps tokens start 1 level (advance finish tokens wanted)
      (take finish wanted (tokens.drop start.index)) := by
  cases ahead : tokens.drop start.index with
  | nil => exact .failed (run_advance_nil wanted ahead) on.highest
  | cons head rest =>
    have found : Keeps tokens start.next 0 level (pure head) _ := .ok head on.next
    rw [drop_next ahead] at found
    exact found.behind ahead (run_advance wanted ahead) rfl (Nat.le_refl 1)

theorem exactly_keeps (token : Token) (on : start.On level) :
    Keeps tokens start 1 level (exactly finish tokens token)
      (expect finish token (tokens.drop start.index)) := by
  refine (advance_keeps (.exactly token) on).bind fun head after on => ?_
  dsimp only
  split
  · exact .ok head.place on
  · exact .error _ on

theorem name_keeps (on : start.On level) :
    Keeps tokens start 1 level (Tracked.name finish tokens)
      (takeName finish (tokens.drop start.index)) := by
  refine (advance_keeps .name on).bind fun head after on => ?_
  dsimp only
  cases head.token with
  | name text => exact .ok text on
  | _ => exact .error _ on

theorem atom_keeps (head : Located) (on : start.On level) :
    Keeps tokens start 0 level (atom finish tokens head)
      (readAtom finish head (tokens.drop start.index)) := by
  obtain ⟨token, place⟩ := head
  cases token with
  | number value =>
    simp only [atom, readAtom]
    split
    · exact .ok _ on
    · exact .error _ on
  | name text => exact .ok _ on
  | op sign =>
    cases sign with
    | sub =>
      refine (advance_keeps .magnitude on).bind fun literal after on => ?_
      cases token : literal.token with
      | number value =>
        dsimp only
        rw [token]
        dsimp only
        split
        · exact .ok _ on
        · exact .error _ on
      | _ =>
        dsimp only
        rw [token]
        exact .error _ on
    | _ => exact .error _ on
  | _ => exact .error _ on

/-- What follows a descent is one level deeper. -/
theorem descended_keeps (place : Location) (on : start.On level) (allowed : level < maxNesting)
    (goes : ∀ after : Mark, after.On (level + 1) → after.index = start.index →
      Keeps tokens after 0 last next answer) :
    Keeps tokens start 0 last (descend place >>= fun _ => next) answer :=
  (goes _ (on.toLevel allowed) rfl).resume (run_bind _ (run_descend place on allowed))
    (Nat.le_refl _) (Nat.le_max_left ..)

theorem descended_tooDeep (place : Location) (on : start.On level) (full : level = maxNesting) :
    Keeps tokens start least last (descend place >>= fun _ => next)
      (.error ⟨place, .nestingTooDeep⟩) := by
  have deep : maxNesting ≤ start.level := Nat.le_of_eq (on.level.trans full).symm
  exact .failed (run_bind_error _ (run_descend_tooDeep place deep)) on.highest

/-- What follows an entry is one level deeper and behind the token. -/
theorem entered_keeps (ahead : tokens.drop start.index = head :: rest) (on : start.On level)
    (allowed : level < maxNesting)
    (goes : ∀ after : Mark, after.On (level + 1) → tokens.drop after.index = rest →
      Keeps tokens after 0 last next answer)
    (enough : least ≤ 1 := by decide) :
    Keeps tokens start least last (enter finish tokens >>= fun _ => next) answer := by
  have inside : (start.toLevel (level + 1)).next.On (level + 1) := (on.toLevel allowed).next
  have entered : (enter finish tokens).run.run start =
      some (.ok (), (start.toLevel (level + 1)).next) :=
    (run_enter ahead).trans (run_bind _ (run_descend head.place on allowed))
  exact (goes _ inside (drop_next ahead)).behind ahead (run_bind _ entered) rfl enough

theorem entered_tooDeep (ahead : tokens.drop start.index = head :: rest) (on : start.On level)
    (full : level = maxNesting) :
    Keeps tokens start least last (enter finish tokens >>= fun _ => next)
      (.error ⟨head.place, .nestingTooDeep⟩) := by
  have deep : maxNesting ≤ start.level := Nat.le_of_eq (on.level.trans full).symm
  have refused := run_bind_error (fun _ => skip) (run_descend_tooDeep head.place deep)
  exact .failed (run_bind_error _ ((run_enter ahead).trans refused)) on.highest

/-- A part gives its value on the level that it was called on. -/
theorem ascended_keeps (value : α) (on : start.On (level + 1)) (allowed : level ≤ maxNesting) :
    Keeps tokens start 0 level (ascend >>= fun _ => pure value)
      (.ok (value, tokens.drop start.index)) := by
  have value : Keeps tokens (start.toLevel level) 0 level (pure value) _ :=
    .ok value (on.toLevel allowed)
  exact value.resume (run_bind _ (run_ascend on)) (Nat.le_refl _) (Nat.le_max_left ..)

end Steps

end BranchLab.Source
