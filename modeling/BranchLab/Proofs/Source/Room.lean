import BranchLab.Proofs.Source.FirstError

/-! Less room for nesting. What is read with some levels left is read in the same way with fewer, or
not at all because the nesting is too deep; nothing else comes of it. -/

namespace BranchLab.Source

/-- With less room the answer is the same one, or the nesting is too deep for it. -/
def Narrowed {α : Type} (narrow wide : Reading α) : Prop :=
  narrow = wide ∨ ∃ place, narrow = .error ⟨place, .nestingTooDeep⟩

namespace Narrowed

variable {α β : Type}

theorem refl (reading : Reading α) : Narrowed reading reading := .inl rfl

theorem tooDeep (place : Location) (wide : Reading α) :
    Narrowed (.error ⟨place, .nestingTooDeep⟩) wide := .inr ⟨place, rfl⟩

theorem bind {narrow wide : Reading α} {next other : α → Reading β} (first : Narrowed narrow wide)
    (rest : ∀ found, Narrowed (next found) (other found)) :
    Narrowed (narrow >>= next) (wide >>= other) := by
  rcases first with rfl | ⟨place, rfl⟩
  · cases narrow with
    | ok found => exact rest found
    | error error => exact refl _
  · exact tooDeep place _

theorem andThen {narrow wide : Reading α} (first : Narrowed narrow wide) (next : α → Reading β) :
    Narrowed (narrow >>= next) (wide >>= next) :=
  first.bind fun found => refl (next found)

/-- What succeeds with less room has the same answer with more. -/
theorem ok {narrow wide : Reading α} {found : α} (narrowed : Narrowed narrow wide)
    (read : narrow = .ok found) : wide = .ok found := by
  rcases narrowed with same | ⟨place, failed⟩
  · exact same.symm.trans read
  · cases failed.symm.trans read

end Narrowed

section Expressions

variable {finish : Location} {room more : Nat}

def OperandsNarrow (finish : Location) (room more : Nat) : Prop :=
  ∀ tokens, Narrowed (readOperand finish room tokens) (readOperand finish more tokens)

def ChainsNarrow (finish : Location) (room more : Nat) : Prop :=
  ∀ least lhs tokens,
    Narrowed (readChain finish room least lhs tokens) (readChain finish more least lhs tokens)

theorem infix_narrowed (operands : OperandsNarrow finish room more)
    (chains : ChainsNarrow finish room more) (least : Nat) (tokens : Tokens) :
    Narrowed (readInfix finish room least tokens) (readInfix finish more least tokens) :=
  (operands tokens).bind fun found => chains least found.1 found.2

theorem operandsNarrow
    (below : ∀ less < room, ∀ {more}, less ≤ more →
      OperandsNarrow finish less more ∧ ChainsNarrow finish less more)
    (wider : room ≤ more) : OperandsNarrow finish room more := by
  intro tokens
  cases tokens with
  | nil =>
    unfold readOperand
    exact .refl _
  | cons head rest =>
    cases opens : head.token.opening? with
    | none =>
      rw [readOperand_atom finish room rest opens, readOperand_atom finish more rest opens]
      exact .refl _
    | some opening =>
      cases room with
      | zero =>
        rw [readOperand_tooDeep finish rest opens]
        exact .tooDeep head.place _
      | succ room =>
        obtain ⟨more, rfl⟩ := Nat.exists_eq_add_of_le' wider
        obtain ⟨operands, chains⟩ := below room (Nat.lt_succ_self room) (Nat.le_add_left room more)
        rw [← Nat.add_assoc]
        cases opening with
        | unary op =>
          rw [readOperand_prefixed finish _ rest opens, readOperand_prefixed finish _ rest opens]
          exact (operands rest).andThen _
        | draw =>
          rw [readOperand_draw finish _ rest opens, readOperand_draw finish _ rest opens]
          exact .bind (.refl _) fun opened =>
            (infix_narrowed operands chains BinaryOp.loosest opened.2).andThen _
        | group =>
          rw [readOperand_group finish _ rest opens, readOperand_group finish _ rest opens]
          exact (infix_narrowed operands chains BinaryOp.loosest rest).andThen _

theorem chainsNarrow
    (below : ∀ less < room, ∀ {more}, less ≤ more →
      OperandsNarrow finish less more ∧ ChainsNarrow finish less more)
    (wider : room ≤ more) : ChainsNarrow finish room more := by
  intro least lhs tokens
  by_cases ends : EndsChain least tokens
  · rw [readChain_of_ends finish room lhs ends, readChain_of_ends finish more lhs ends]
    exact .refl _
  · obtain ⟨op, place, rest, rfl, binds⟩ : ∃ op place rest, tokens = ⟨.op op, place⟩ :: rest ∧
        least ≤ op.precedence := by
      simpa [EndsChain] using ends
    cases room with
    | zero =>
      rw [readChain_tooDeep finish place lhs rest binds]
      exact .tooDeep place _
    | succ room =>
      obtain ⟨more, rfl⟩ := Nat.exists_eq_add_of_le' wider
      obtain ⟨operands, chains⟩ := below room (Nat.lt_succ_self room) (Nat.le_add_left room more)
      rw [← Nat.add_assoc, readChain_op finish _ place lhs rest binds,
        readChain_op finish _ place lhs rest binds]
      exact (infix_narrowed operands chains _ rest).bind fun found => chains least _ found.2

/-- What is read inside an opening or after an operator has one level less in both cases. -/
theorem operands_and_chains_narrow (finish : Location) {room more : Nat} (wider : room ≤ more) :
    OperandsNarrow finish room more ∧ ChainsNarrow finish room more := by
  induction room using Nat.strongRecOn generalizing more with
  | ind room below =>
    exact ⟨operandsNarrow below wider, chainsNarrow below wider⟩

theorem readInfix_narrowed (wider : room ≤ more) (least : Nat) (tokens : Tokens) :
    Narrowed (readInfix finish room least tokens) (readInfix finish more least tokens) :=
  infix_narrowed (operands_and_chains_narrow finish wider).1
    (operands_and_chains_narrow finish wider).2 least tokens

end Expressions

section Statements

variable {finish : Location} {room more : Nat}

theorem readMany_narrowed
    (statements : ∀ tokens,
      Narrowed (readStatement finish room tokens) (readStatement finish more tokens))
    (stop : Token → Bool) (turns : Nat) (found : List Statement) (tokens : Tokens) :
    Narrowed (readMany (readStatement finish room) stop turns found tokens)
      (readMany (readStatement finish more) stop turns found tokens) := by
  induction turns generalizing found tokens with
  | zero => exact .refl _
  | succ turns ih =>
    by_cases ends : EndsBlock stop tokens
    · rw [readMany_of_ends _ _ found ends, readMany_of_ends _ _ found ends]
      exact .refl _
    · rw [readMany_next _ turns found ends, readMany_next _ turns found ends]
      exact (statements tokens).bind fun next => ih (next.1 :: found) next.2

/-- A guard leaves one level less for its block. -/
theorem readStatement_narrowed (wider : room ≤ more) (tokens : Tokens) :
    Narrowed (readStatement finish room tokens) (readStatement finish more tokens) := by
  induction room using Nat.strongRecOn generalizing more tokens with
  | ind room below =>
    cases tokens with
    | nil =>
      unfold readStatement
      exact .refl _
    | cons head rest =>
      obtain ⟨token, place⟩ := head
      cases token with
      | letWord =>
        rw [readStatement_bind, readStatement_bind]
        exact .bind (.refl _) fun named => .bind (.refl _) fun assigned =>
          (readInfix_narrowed wider BinaryOp.loosest assigned.2).andThen _
      | ifWord =>
        cases room with
        | zero =>
          rw [readStatement_tooDeep]
          exact .tooDeep place _
        | succ room =>
          obtain ⟨more, rfl⟩ := Nat.exists_eq_add_of_le' wider
          have fewer : room ≤ more + room := Nat.le_add_left room more
          have statements := below room (Nat.lt_succ_self room) fewer
          rw [← Nat.add_assoc, readStatement_guarded, readStatement_guarded]
          exact .bind (.refl _) fun opened =>
            .bind (readInfix_narrowed fewer BinaryOp.loosest opened.2) fun guard =>
            .bind (.refl _) fun closed => .bind (.refl _) fun braced =>
              (readMany_narrowed statements _ _ [] braced.2).andThen _
      | _ =>
        rw [readStatement_refused finish room place rest (by simp) (by simp),
          readStatement_refused finish more place rest (by simp) (by simp)]
        exact .refl _

end Statements

end BranchLab.Source
