import Mathlib.Data.List.Induction
import BranchLab.Proofs.Source.Grammar
import BranchLab.Source.Reader

/-! Reading expressions against the grammar. Climbing by precedence follows the infix layers: the
signs of a layer are the operators of one precedence, and its operands are of the next layer. An
expression that the grammar derives is read back unless it is nested too deeply. How much room it
needs for that depends on the tokens only, and so does how much less its chains leave behind. -/

namespace BranchLab.Source

namespace Layer

def level : Layer → Nat
  | or => 1
  | and => 2
  | bitOr => 3
  | bitXor => 4
  | bitAnd => 5
  | equality => 6
  | relation => 7
  | shift => 8
  | additive => 9
  | term => 10
  | unary | primary => 11

theorem level_or_le (layer : Layer) : or.level ≤ layer.level := by
  cases layer <;> decide

theorem le_level_unary (layer : Layer) : layer.level ≤ unary.level := by
  cases layer <;> decide

theorem level_production {layer inner : Layer} {signs : List BinaryOp}
    (joined : layer.production = some (signs, inner)) : inner.level = layer.level + 1 := by
  cases layer <;> cases joined <;> rfl

/-- The signs of an infix layer are the operators whose precedence is its position. -/
theorem mem_signs {layer inner : Layer} {signs : List BinaryOp}
    (joined : layer.production = some (signs, inner)) (op : BinaryOp) :
    op ∈ signs ↔ op.precedence = layer.level := by
  cases layer <;> cases joined <;> cases op <;> decide

end Layer

/-- No operator of the precedence `least` or a higher one comes first. -/
def EndsChain (least : Nat) (tokens : Tokens) : Prop :=
  ∀ op place rest, tokens = ⟨.op op, place⟩ :: rest → op.precedence < least

theorem EndsChain.mono {least most : Nat} {tokens : Tokens} (ends : EndsChain least tokens)
    (below : least ≤ most) : EndsChain most tokens := by
  intro op place rest same
  exact Nat.lt_of_lt_of_le (ends op place rest same) below

theorem endsChain_nil (least : Nat) : EndsChain least [] := by
  intro op place rest same
  cases same

theorem endsChain_op {least : Nat} {op : BinaryOp} {place : Location} {rest : Tokens}
    (below : op.precedence < least) : EndsChain least (⟨.op op, place⟩ :: rest) := by
  intro other place' rest' same
  cases same
  exact below

theorem endsChain_cons {least : Nat} {token : Token} (other : ∀ op, token ≠ .op op)
    (place : Location) (rest : Tokens) : EndsChain least (⟨token, place⟩ :: rest) := by
  intro op place rest same
  cases same
  exact absurd rfl (other op)

theorem endsChain_unary (tokens : Tokens) : EndsChain Layer.unary.level tokens := by
  intro op place rest same
  cases op <;> decide

section Equations

variable (finish : Location) (room : Nat)

theorem readChain_of_ends {least : Nat} {tokens : Tokens} (lhs : Expr)
    (ends : EndsChain least tokens) :
    readChain finish room least lhs tokens = .ok (lhs, tokens) := by
  unfold readChain
  split
  · rename_i op place rest
    rw [if_pos (ends op place rest rfl)]
  · rfl

theorem readInfix_unary (tokens : Tokens) :
    readInfix finish room Layer.unary.level tokens = readOperand finish room tokens := by
  unfold readInfix
  cases readOperand finish room tokens with
  | error error => rfl
  | ok found => exact readChain_of_ends finish room found.1 (endsChain_unary found.2)

theorem readChain_op {least : Nat} {op : BinaryOp} (place : Location) (lhs : Expr) (rest : Tokens)
    (binds : least ≤ op.precedence) :
    readChain finish (room + 1) least lhs (⟨.op op, place⟩ :: rest) = (do
      let (rhs, rest) ← readInfix finish room (op.precedence + 1) rest
      readChain finish room least (.binary op lhs rhs) rest) := by
  conv => lhs; unfold readChain
  simp only [Nat.not_lt.mpr binds, if_false, readInfix, bind_assoc]

theorem readChain_tooDeep {least : Nat} {op : BinaryOp} (place : Location) (lhs : Expr)
    (rest : Tokens) (binds : least ≤ op.precedence) :
    readChain finish 0 least lhs (⟨.op op, place⟩ :: rest) = .error ⟨place, .nestingTooDeep⟩ := by
  unfold readChain
  simp only [Nat.not_lt.mpr binds, if_false]

theorem take_ok {wanted : Wanted} {tokens rest : Tokens} {head : Located} :
    take finish wanted tokens = .ok (head, rest) ↔ tokens = head :: rest := by
  cases tokens <;> simp [take]

theorem expect_ok {token : Token} {tokens rest : Tokens} {place : Location} :
    expect finish token tokens = .ok (place, rest) ↔ tokens = ⟨token, place⟩ :: rest := by
  rw [expect, bind_ok]
  constructor
  · rintro ⟨⟨head, after⟩, taken, same⟩
    have first := (take_ok finish).mp taken
    dsimp only at same
    split at same
    · rename_i wanted
      cases same
      rw [first, ← wanted]
    · cases same
  · rintro rfl
    exact ⟨(⟨token, place⟩, rest), rfl, by simp [pure, Except.pure]⟩

theorem expect_cons (token : Token) (place : Location) (rest : Tokens) :
    expect finish token (⟨token, place⟩ :: rest) = .ok (place, rest) :=
  (expect_ok finish).mpr rfl

variable {head : Located} (rest : Tokens)

theorem readOperand_atom (opens : head.token.opening? = none) :
    readOperand finish room (head :: rest) = readAtom finish head rest := by
  unfold readOperand
  simp [take, opens]

theorem readOperand_tooDeep {opening : Opening} (opens : head.token.opening? = some opening) :
    readOperand finish 0 (head :: rest) = .error ⟨head.place, .nestingTooDeep⟩ := by
  unfold readOperand
  simp only [take, ok_bind, opens]
  rfl

theorem readOperand_prefixed {op : UnaryOp} (opens : head.token.opening? = some (.unary op)) :
    readOperand finish (room + 1) (head :: rest) = (do
      let (operand, rest) ← readOperand finish room rest
      return (.unary op operand, rest)) := by
  conv => lhs; unfold readOperand
  simp [take, opens]

theorem readOperand_draw (opens : head.token.opening? = some .draw) :
    readOperand finish (room + 1) (head :: rest) = (do
      let (_, rest) ← expect finish .openParen rest
      let (bound, rest) ← readExpr finish room rest
      let (_, rest) ← expect finish .closeParen rest
      return (.random bound, rest)) := by
  conv => lhs; unfold readOperand
  simp [take, opens, readExpr, readInfix]

theorem readOperand_group (opens : head.token.opening? = some .group) :
    readOperand finish (room + 1) (head :: rest) = (do
      let (inner, rest) ← readExpr finish room rest
      let (_, rest) ← expect finish .closeParen rest
      return (inner, rest)) := by
  conv => lhs; unfold readOperand
  simp [take, opens, readExpr, readInfix]

end Equations

/-- A reading that takes `need` levels of nesting: with room for them it is `answer`, and with less
room it stops because the nesting is too deep. -/
def Within {α : Type} (need room : Nat) (reading answer : Reading α) : Prop :=
  (need ≤ room → reading = answer) ∧
    (room < need → ∃ place, reading = .error ⟨place, .nestingTooDeep⟩)

namespace Within

variable {α β : Type} {need more room : Nat}

theorem exact (answer : Reading α) : Within 0 room answer answer :=
  ⟨fun _ => rfl, fun beyond => absurd beyond (Nat.not_lt_zero room)⟩

theorem bind {first : Reading α} {value : α} {next : α → Reading β} {answer : Reading β}
    (before : Within need room first (.ok value)) (after : Within more room (next value) answer) :
    Within (max need more) room (first >>= next) answer := by
  constructor
  · intro fits
    rw [before.1 (by omega)]
    exact after.1 (by omega)
  · intro beyond
    by_cases enough : need ≤ room
    · rw [before.1 enough]
      exact after.2 (by omega)
    · obtain ⟨place, failed⟩ := before.2 (by omega)
      exact ⟨place, by rw [failed]; rfl⟩

/-- What is done with an answer takes no further level. -/
theorem andThen {first : Reading α} {value : α} (before : Within need room first (.ok value))
    (next : α → Reading β) : Within need room (first >>= next) (next value) := by
  have both : Within (max need 0) room (first >>= next) (next value) := before.bind (exact _)
  rwa [Nat.max_zero] at both

theorem outside (place : Location) (answer : Reading α) :
    Within (need + 1) 0 (.error ⟨place, .nestingTooDeep⟩) answer :=
  ⟨fun fits => by omega, fun _ => ⟨place, rfl⟩⟩

theorem deeper {reading answer : Reading α} (inside : Within need room reading answer) :
    Within (need + 1) (room + 1) reading answer :=
  ⟨fun fits => inside.1 (by omega), fun beyond => inside.2 (by omega)⟩

end Within

/-- A token that opens a level takes one level more than what is read inside. -/
theorem within_opening {finish : Location} {need : Nat} {head : Located} {rest : Tokens}
    {opening : Opening} {answer : Reading (Expr × Tokens)}
    (opens : head.token.opening? = some opening)
    (inside : ∀ room, Within need room (readOperand finish (room + 1) (head :: rest)) answer)
    (room : Nat) : Within (need + 1) room (readOperand finish room (head :: rest)) answer := by
  cases room with
  | zero =>
    rw [readOperand_tooDeep finish rest opens]
    exact Within.outside head.place answer
  | succ room => exact (inside room).deeper

/-- The tokens are read as `e` in front of anything but an operator of an inner layer, with `need`
levels of room. Their chains leave `used` levels less for a chain that goes on after them. -/
def ReadsBack (finish : Location) (layer : Layer) (tokens : Tokens) (e : Expr)
    (need used : Nat) : Prop :=
  used ≤ need ∧ ∀ room least rest, least ≤ layer.level → EndsChain (layer.level + 1) rest →
    Within need room (readInfix finish room least (tokens ++ rest))
      (readChain finish (room - used) least e rest)

def ReadsAs (finish : Location) (tokens : Tokens) (e : Expr) (need : Nat) : Prop :=
  ∀ room rest,
    Within need room (readOperand finish room (tokens ++ rest)) (.ok (e, rest))

namespace ReadsBack

variable {finish : Location} {layer inner : Layer} {tokens : Tokens} {e : Expr} {need used : Nat}

/-- Before the end of its chains an expression is read as it is. -/
theorem alone (reads : ReadsBack finish layer tokens e need used) (room : Nat) {least : Nat}
    {rest : Tokens} (loose : least ≤ layer.level) (ends : EndsChain least rest) :
    Within need room (readInfix finish room least (tokens ++ rest)) (.ok (e, rest)) := by
  have read := reads.2 room least rest loose (ends.mono (by omega))
  rwa [readChain_of_ends finish (room - used) e ends] at read

/-- What a layer reads is also read in a looser one. -/
theorem loosen (reads : ReadsBack finish inner tokens e need used)
    (below : layer.level ≤ inner.level) : ReadsBack finish layer tokens e need used := by
  refine ⟨reads.1, ?_⟩
  intro room least rest loose ends
  exact reads.2 room least rest (by omega) (ends.mono (by omega))

/-- One more turn at the end of a chain has one level less than the chain left behind. -/
theorem fold {signs : List BinaryOp} {sign : BinaryOp} {operand : Tokens} {rhs : Expr}
    {more spent : Nat} (place : Location) (joined : layer.production = some (signs, inner))
    (signed : sign ∈ signs) (left : ReadsBack finish layer tokens e need used)
    (right : ReadsBack finish inner operand rhs more spent) :
    ReadsBack finish layer (tokens ++ ⟨.op sign, place⟩ :: operand) (.binary sign e rhs)
      (max need (used + (more + 1))) (used + 1) := by
  obtain ⟨below, left⟩ := left
  refine ⟨by omega, ?_⟩
  intro room least rest loose ends
  have precedence := (Layer.mem_signs joined sign).mp signed
  have deep := Layer.level_production joined
  rw [List.append_assoc, List.cons_append]
  have start := left room least (⟨.op sign, place⟩ :: (operand ++ rest)) loose
    (endsChain_op (by omega))
  have turn : Within (more + 1) (room - used)
      (readChain finish (room - used) least e (⟨.op sign, place⟩ :: (operand ++ rest)))
      (readChain finish (room - (used + 1)) least (.binary sign e rhs) rest) := by
    rw [← Nat.sub_sub]
    cases room - used with
    | zero =>
      rw [readChain_tooDeep finish place e (operand ++ rest) (by omega)]
      exact Within.outside place _
    | succ room =>
      rw [readChain_op finish room place e (operand ++ rest) (by omega)]
      exact ((right.alone room (by omega) (precedence ▸ ends)).andThen _).deeper
  constructor
  · intro fits
    rw [start.1 (by omega), turn.1 (by omega)]
  · intro beyond
    by_cases enough : need ≤ room
    · rw [start.1 enough]
      exact turn.2 (by omega)
    · exact start.2 (by omega)

theorem chain {signs : List BinaryOp} (joined : layer.production = some (signs, inner))
    {folds : List Fold} (head : ∃ need used, ReadsBack finish inner tokens e need used)
    (signed : ∀ fold ∈ folds, fold.sign ∈ signs)
    (operands : ∀ fold ∈ folds, ∃ need used,
      ReadsBack finish inner fold.operand fold.value need used) :
    ∃ need used, ReadsBack finish layer (tokens ++ folds.flatMap Fold.tokens)
      (folds.foldl Fold.onto e) need used := by
  have deep := Layer.level_production joined
  induction folds using List.reverseRecOn with
  | nil =>
    obtain ⟨need, used, reads⟩ := head
    rw [List.flatMap_nil, List.append_nil]
    exact ⟨need, used, reads.loosen (by omega)⟩
  | append_singleton folds last ih =>
    obtain ⟨need, used, front⟩ := ih (fun turn inside => signed turn (by simp [inside]))
      (fun turn inside => operands turn (by simp [inside]))
    obtain ⟨more, spent, operand⟩ := operands last (by simp)
    have longer := front.fold last.place joined (signed last (by simp)) operand
    exact ⟨max need (used + (more + 1)), used + 1, by simpa [Fold.tokens, Fold.onto] using longer⟩

/-- An operand is read as it is, before any chain. -/
theorem operand (reads : ReadsBack finish layer tokens e need used)
    (tight : layer.level = Layer.unary.level) : ReadsAs finish tokens e need := by
  intro room rest
  rw [← readInfix_unary]
  exact reads.alone room (Nat.le_of_eq tight.symm) (endsChain_unary rest)

/-- An expression in parentheses is read to its end, whatever is made of it. -/
theorem enclosed (reads : ReadsBack finish .or tokens e need used) (room : Nat)
    (closing : Location) (rest : Tokens) (make : Expr → Expr) :
    Within need room
      (do
        let (inner, rest) ← readExpr finish room (tokens ++ ⟨.closeParen, closing⟩ :: rest)
        let (_, rest) ← expect finish .closeParen rest
        return (make inner, rest))
      (.ok (make e, rest)) := by
  have ends : EndsChain BinaryOp.loosest (⟨.closeParen, closing⟩ :: rest) :=
    endsChain_cons (by simp) closing rest
  have read := (reads.alone room (Nat.le_refl 1) ends).andThen fun found => do
    let (_, rest) ← expect finish .closeParen found.2
    return (make found.1, rest)
  rw [expect_cons, ok_bind] at read
  exact read

theorem draw (word opening closing : Location) (reads : ReadsBack finish .or tokens e need used) :
    ReadsAs finish
      (⟨.randWord, word⟩ :: ⟨.openParen, opening⟩ :: tokens ++ [⟨.closeParen, closing⟩])
      (.random e) (need + 1) := by
  intro room rest
  simp only [List.cons_append, List.append_assoc, List.nil_append]
  refine within_opening rfl (fun room => ?_) room
  rw [readOperand_draw finish room _ rfl, expect_cons, ok_bind]
  exact reads.enclosed room closing rest .random

theorem group (opening closing : Location) (reads : ReadsBack finish .or tokens e need used) :
    ReadsAs finish (⟨.openParen, opening⟩ :: tokens ++ [⟨.closeParen, closing⟩]) e (need + 1) := by
  intro room rest
  simp only [List.cons_append, List.append_assoc, List.nil_append]
  refine within_opening rfl (fun room => ?_) room
  rw [readOperand_group finish room _ rfl]
  exact reads.enclosed room closing rest id

end ReadsBack

namespace ReadsAs

variable {finish : Location} {tokens : Tokens} {e : Expr} {need : Nat}

theorem readsBack (reads : ReadsAs finish tokens e need) (layer : Layer) :
    ReadsBack finish layer tokens e need 0 := by
  refine ⟨Nat.zero_le need, ?_⟩
  intro room least rest loose ends
  exact (reads room rest).andThen _

theorem prefixed {op : UnaryOp} {head : Located} (reads : ReadsAs finish tokens e need)
    (opens : head.token.opening? = some (.unary op)) :
    ReadsAs finish (head :: tokens) (.unary op e) (need + 1) := by
  intro room rest
  refine within_opening opens (fun room => ?_) room
  rw [readOperand_prefixed finish room _ opens]
  exact (reads room rest).andThen _

theorem atom {head : Located} (opens : head.token.opening? = none)
    (read : ∀ rest, readAtom finish head (tokens ++ rest) = .ok (e, rest)) :
    ReadsAs finish (head :: tokens) e 0 := by
  intro room rest
  rw [List.cons_append, readOperand_atom finish room _ opens, read]
  exact Within.exact _

theorem number (place : Location) {n : Nat} (fits : n ≤ 2 ^ 63 - 1) :
    ReadsAs finish [⟨.number n, place⟩] (.number (Int64.ofNat n)) 0 := by
  refine atom rfl fun rest => ?_
  simp only [readAtom]
  rw [if_pos (by omega)]
  rfl

theorem negative (minus place : Location) {n : Nat} (fits : n ≤ 2 ^ 63) :
    ReadsAs finish [⟨.op .sub, minus⟩, ⟨.number n, place⟩]
      (.number (Int64.ofInt (-(n : Int)))) 0 := by
  refine atom rfl fun rest => ?_
  simp only [readAtom, List.cons_append, List.nil_append, take, ok_bind]
  rw [if_pos fits]
  rfl

theorem name (place : Location) (text : String) :
    ReadsAs finish [⟨.name text, place⟩] (.ident text) 0 :=
  atom rfl fun _ => rfl

end ReadsAs

/-- Whatever the grammar derives is read back, as deeply nested as it may be. -/
theorem Derives.readsBack (finish : Location) {layer : Layer} {tokens : Tokens} {e : Expr}
    (derived : Derives layer tokens e) :
    ∃ need used, ReadsBack finish layer tokens e need used := by
  induction derived with
  | chain joined head signed operands first others =>
    exact ReadsBack.chain joined first signed others
  | not place operand ih | bitNot place operand ih =>
    obtain ⟨need, used, reads⟩ := ih
    exact ⟨_, _, ((reads.operand rfl).prefixed rfl).readsBack .unary⟩
  | plain primary ih => exact ih
  | number place fits => exact ⟨_, _, (ReadsAs.number place fits).readsBack .primary⟩
  | negative minus place fits => exact ⟨_, _, (ReadsAs.negative minus place fits).readsBack .primary⟩
  | name place text => exact ⟨_, _, (ReadsAs.name place text).readsBack .primary⟩
  | draw word opening closing bound ih =>
    obtain ⟨need, used, reads⟩ := ih
    exact ⟨_, _, (reads.draw word opening closing).readsBack .primary⟩
  | group opening closing inner ih =>
    obtain ⟨need, used, reads⟩ := ih
    exact ⟨_, _, (reads.group opening closing).readsBack .primary⟩

end BranchLab.Source
