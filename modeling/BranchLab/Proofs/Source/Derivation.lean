import BranchLab.Proofs.Source.Success

/-! The converse of reading back: what the reader takes from the tokens derives the tree it gives.
A chain is followed with the tightest layer in which the operand read so far is derived, since the
next operator binds no tighter than the one before it. -/

namespace BranchLab.Source

namespace Layer

/-- The layer at a position, and that of the operands beyond the last one. -/
def ofLevel : Nat → Layer
  | 0 | 1 => or
  | 2 => and
  | 3 => bitOr
  | 4 => bitXor
  | 5 => bitAnd
  | 6 => equality
  | 7 => relation
  | 8 => shift
  | 9 => additive
  | 10 => term
  | _ => unary

theorem ofLevel_of_production {layer inner : Layer} {signs : List BinaryOp}
    (joined : layer.production = some (signs, inner)) : ofLevel layer.level = layer := by
  cases layer <;> cases joined <;> rfl

theorem exists_signs (op : BinaryOp) : ∃ signs,
    (ofLevel op.precedence).production = some (signs, ofLevel (op.precedence + 1)) ∧
      op ∈ signs := by
  cases op <;> exact ⟨_, rfl, by decide⟩

end Layer

namespace Derives

variable {layer inner : Layer} {signs : List BinaryOp} {front : Tokens} {e : Expr}

theorem single (joined : layer.production = some (signs, inner)) (derived : Derives inner front e) :
    Derives layer front e := by
  have chain : Derives layer (front ++ [].flatMap Fold.tokens) ([].foldl Fold.onto e) :=
    .chain joined derived (fun _ inside => nomatch inside) (fun _ inside => nomatch inside)
  rwa [List.flatMap_nil, List.append_nil] at chain

theorem loosen_one (k : Nat) (derived : Derives (.ofLevel (k + 1)) front e) :
    Derives (.ofLevel k) front e := by
  match k, derived with
  | 0, derived | _ + 11, derived => exact derived
  | 1, derived | 2, derived | 3, derived | 4, derived | 5, derived | 6, derived | 7, derived
  | 8, derived | 9, derived | 10, derived => exact single rfl derived

theorem loosen {least k : Nat} (below : least ≤ k) (derived : Derives (.ofLevel k) front e) :
    Derives (.ofLevel least) front e := by
  induction below with
  | refl => exact derived
  | step below ih => exact ih (loosen_one _ derived)

/-- One more turn at the end of a chain. -/
theorem fold {operand : Tokens} {lhs rhs : Expr} {sign : BinaryOp} (place : Location)
    (joined : layer.production = some (signs, inner)) (signed : sign ∈ signs)
    (left : Derives layer front lhs) (right : Derives inner operand rhs) :
    Derives layer (front ++ ⟨.op sign, place⟩ :: operand) (.binary sign lhs rhs) := by
  cases left with
  | @chain _ _ _ start first folds same head signs operands =>
    cases joined.symm.trans same
    let last : Fold := ⟨sign, place, operand, rhs⟩
    have longer : Derives layer (start ++ (folds ++ [last]).flatMap Fold.tokens)
        ((folds ++ [last]).foldl Fold.onto first) := by
      refine .chain joined head ?_ ?_
      · intro turn member
        rcases List.mem_append.mp member with inside | final
        · exact signs turn inside
        · rw [List.mem_singleton.mp final]
          exact signed
      · intro turn member
        rcases List.mem_append.mp member with inside | final
        · exact operands turn inside
        · rw [List.mem_singleton.mp final]
          exact right
    simpa [Fold.tokens, Fold.onto, last] using longer
  | not | bitNot | plain | number | negative | name | draw | group => cases joined

end Derives

section Soundness

variable {finish : Location} {room : Nat} {tokens rest : Tokens} {e : Expr}

theorem Derives.prefixed {token : Token} {op : UnaryOp} (opens : token.opening? = some (.unary op))
    (place : Location) (operand : Derives .unary tokens e) :
    Derives .unary (⟨token, place⟩ :: tokens) (.unary op e) := by
  cases token <;> cases opens
  · exact .not place operand
  · exact .bitNot place operand

/-- A part derives what is read from the tokens before `rest`. A chain lengthens any derivation of
what stands before it, whose layer is the tightest one that the next operator leaves possible. -/
def Part.Derives (tokens : Tokens) (e : Expr) (rest : Tokens) : Part → Prop
  | operand => ∃ front, tokens = front ++ rest ∧ Source.Derives .unary front e
  | chain least lhs => ∀ k front, least ≤ k → EndsChain (k + 1) tokens →
    Source.Derives (.ofLevel k) front lhs → ∃ back, tokens = back ++ rest ∧ EndsChain least rest ∧
      Source.Derives (.ofLevel least) (front ++ back) e
  | expression least => least ≤ 11 → ∃ front, tokens = front ++ rest ∧ EndsChain least rest ∧
    Source.Derives (.ofLevel least) front e

theorem Reads.derives {part : Part} (read : Reads finish part room tokens e rest) :
    part.Derives tokens e rest := by
  induction read with
  | @number place _ n _ fits => exact ⟨[⟨.number n, place⟩], rfl, .plain (.number place fits)⟩
  | @negative minus place _ n _ fits =>
    exact ⟨[⟨.op .sub, minus⟩, ⟨.number n, place⟩], rfl, .plain (.negative minus place fits)⟩
  | name place text => exact ⟨[⟨.name text, place⟩], rfl, .plain (.name place text)⟩
  | @prefixed _ head _ _ _ _ opens inner ih =>
    obtain ⟨front, rfl, derived⟩ := ih
    exact ⟨head :: front, rfl, derived.prefixed opens head.place⟩
  | draw word opening closing inner ih =>
    obtain ⟨front, rfl, ends, derived⟩ := ih (by decide)
    exact ⟨_, by simp, .plain (.draw word opening closing derived)⟩
  | group opening closing inner ih =>
    obtain ⟨front, rfl, ends, derived⟩ := ih (by decide)
    exact ⟨_, by simp, .plain (.group opening closing derived)⟩
  | done ends =>
    intro k front loose tight derived
    exact ⟨[], rfl, ends, by simpa using derived.loosen loose⟩
  | @fold place _ least op lhs rhs e _ _ _ binds operand others first next =>
    intro k front loose tight derived
    have bound : op.precedence ≤ 10 := by cases op <;> decide
    obtain ⟨middle, rfl, after, right⟩ := first (by omega)
    obtain ⟨signs, joined, signed⟩ := Layer.exists_signs op
    -- The operator binds no tighter than what stands before it, which is therefore a left operand
    -- of its layer; and what follows its right operand binds no tighter than it does.
    have left := derived.loosen (Nat.le_of_lt_succ (tight op place _ rfl))
    have longer := left.fold place joined signed right
    obtain ⟨back, rfl, last, whole⟩ := next _ _ binds after longer
    exact ⟨⟨.op op, place⟩ :: (middle ++ back), by simp, last, by simpa using whole⟩
  | @whole _ least _ _ _ middle _ first others operand chain =>
    intro loose
    obtain ⟨front, rfl, derived⟩ := operand
    obtain ⟨back, rfl, ends, whole⟩ := chain 11 front loose
      ((endsChain_unary middle).mono (by decide)) derived
    exact ⟨front ++ back, (List.append_assoc ..).symm, ends, whole⟩

/-- Whatever is read as an expression is derived, and no chain goes on behind it. -/
theorem derives_of_readInfix {least : Nat} (loose : least ≤ 11)
    (read : readInfix finish room least tokens = .ok (e, rest)) :
    ∃ front, tokens = front ++ rest ∧ EndsChain least rest ∧ Derives (.ofLevel least) front e :=
  (reads_of_readInfix read).derives loose

end Soundness

end BranchLab.Source
