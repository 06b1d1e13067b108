import BranchLab.Proofs.Program.Scoped
import BranchLab.Proofs.Stepper.Draws

/-! Evaluation that leaves operands out against evaluation of all of them. Where both operands of every
infix operation have values, an operand that is left out would have made no difference. Where one has
none it may be the one that is left out, so evaluation succeeds more often and never less. -/

namespace BranchLab

open Chance (Generator)

namespace Expr

/-- The value when both operands of every infix operation are evaluated, the left one first, or the
first unbound name, with the generator afterwards. -/
def strictValue (bindings : Bindings) : Expr → Generator → Except EvalError Int64 × Generator
  | number n, g => (.ok n, g)
  | ident name, g =>
    match bindings.get? name with
    | some v => (.ok v, g)
    | none => (.error (.unbound name), g)
  | binary op lhs rhs, g =>
    match lhs.strictValue bindings g with
    | (.error e, g) => (.error e, g)
    | (.ok a, g) =>
      match rhs.strictValue bindings g with
      | (.error e, g) => (.error e, g)
      | (.ok b, g) => (.ok (op.apply a b), g)
  | unary op operand, g =>
    match operand.strictValue bindings g with
    | (.error e, g) => (.error e, g)
    | (.ok a, g) => (.ok (op.apply a), g)
  | random bound, g =>
    match bound.strictValue bindings g with
    | (.error e, g) => (.error e, g)
    | (.ok b, g) =>
      let (v, g) := Chance.draw b g
      (.ok v, g)

section Values

variable {bindings : Bindings} {g g' other : Generator} {v : Int64}

theorem strictValue_binary {op : BinaryOp} {lhs rhs : Expr}
    (valued : (binary op lhs rhs).strictValue bindings g = (.ok v, g')) :
    ∃ a between b, lhs.strictValue bindings g = (.ok a, between) ∧
      rhs.strictValue bindings between = (.ok b, g') ∧ v = op.apply a b := by
  rw [strictValue] at valued
  split at valued
  · cases valued
  · rename_i a between left
    split at valued
    · cases valued
    · rename_i b last right
      cases valued
      exact ⟨a, between, b, left, right, rfl⟩

theorem strictValue_unary {op : UnaryOp} {operand : Expr}
    (valued : (unary op operand).strictValue bindings g = (.ok v, g')) :
    ∃ a, operand.strictValue bindings g = (.ok a, g') ∧ v = op.apply a := by
  rw [strictValue] at valued
  split at valued
  · cases valued
  · rename_i a last inner
    cases valued
    exact ⟨a, inner, rfl⟩

/-- A value that all operands lead to is the value, and without draws it leaves the generator alone. -/
theorem value_of_strictValue {e : Expr} (drawless : e.draws = false)
    (valued : e.strictValue bindings other = (.ok v, g')) (g : Generator) :
    e.value bindings g = (.ok v, g) := by
  induction e generalizing other g' v g with
  | number n =>
    cases valued
    rfl
  | ident name =>
    rw [strictValue] at valued
    cases found : bindings.get? name with
    | none =>
      rw [found] at valued
      cases valued
    | some bound =>
      rw [found] at valued
      cases valued
      rw [value, found]
  | binary op lhs rhs left right =>
    obtain ⟨plain, others⟩ := Bool.or_eq_false_iff.mp drawless
    obtain ⟨a, between, b, first, second, rfl⟩ := strictValue_binary valued
    rw [value_binary, left plain first g]
    dsimp only
    cases decided : op.decided? a with
    | some w => rw [BinaryOp.apply_of_decided decided b]
    | none =>
      dsimp only
      rw [right others second g]
  | unary op operand ih =>
    obtain ⟨a, inner, rfl⟩ := strictValue_unary valued
    rw [value, ih drawless inner g]
  | random bound => cases drawless

/-- With all names bound there is a value that all operands lead to. -/
theorem strictValue_of_bound (bindings : Bindings) (e : Expr) (g : Generator)
    (bound : ∀ name ∈ e.names, name ∈ bindings.keys) :
    ∃ v g', e.strictValue bindings g = (.ok v, g') := by
  induction e generalizing g with
  | number n => exact ⟨n, g, rfl⟩
  | ident name =>
    obtain ⟨v, found⟩ := Bindings.get?_of_mem_keys (bound name (by simp [names]))
    exact ⟨v, g, by simp [strictValue, found]⟩
  | binary op lhs rhs left right =>
    obtain ⟨a, between, first⟩ := left g fun name inside => bound name (by simp [names, inside])
    obtain ⟨b, g', second⟩ := right between fun name inside => bound name (by simp [names, inside])
    exact ⟨op.apply a b, g', by simp [strictValue, first, second]⟩
  | unary op operand ih =>
    obtain ⟨a, g', valued⟩ := ih g bound
    exact ⟨op.apply a, g', by simp [strictValue, valued]⟩
  | random limit ih =>
    obtain ⟨b, g', valued⟩ := ih g bound
    exact ⟨(Chance.draw b g').1, (Chance.draw b g').2, by simp [strictValue, valued]⟩

/-- An evaluation that fails met a name of the expression that is not bound. -/
theorem unbound_of_value {e : Expr} {error : EvalError}
    (failed : e.value bindings g = (.error error, g')) :
    ∃ name ∈ e.names, error = .unbound name ∧ bindings.get? name = none := by
  induction e generalizing g g' with
  | number n => cases failed
  | ident name =>
    rw [value] at failed
    split at failed
    · cases failed
    · rename_i absent
      cases failed
      exact ⟨name, List.mem_singleton_self name, rfl, absent⟩
  | binary op lhs rhs left right =>
    rw [value_binary] at failed
    split at failed
    · rename_i found after first
      cases failed
      obtain ⟨name, inside, missing⟩ := left first
      exact ⟨name, List.mem_append_left _ inside, missing⟩
    · split at failed
      · cases failed
      · split at failed
        · rename_i found after second
          cases failed
          obtain ⟨name, inside, missing⟩ := right second
          exact ⟨name, List.mem_append_right _ inside, missing⟩
        · cases failed
  | unary op operand ih =>
    rw [value] at failed
    split at failed
    · rename_i found after inner
      cases failed
      exact ih inner
    · cases failed
  | random bound ih =>
    rw [value] at failed
    split at failed
    · rename_i found after inner
      cases failed
      exact ih inner
    · cases failed

end Values
end Expr

/-- An expression without draws, evaluated from any generator, has the value that it has if both
operands of every infix operation are evaluated, whenever it has one then, and with all names bound it
has one. If its evaluation fails, so does the evaluation of all operands, and the error is about a name
of the expression that is not bound. The generator is left alone. -/
theorem value_agrees_with_strictValue (e : Expr) (drawless : e.draws = false) (bindings : Bindings)
    (g other : Generator) :
    let strict := (e.strictValue bindings other).1
    (∀ v, strict = .ok v → e.value bindings g = (.ok v, g)) ∧
    ((∀ name ∈ e.names, name ∈ bindings.keys) →
      ∃ v, strict = .ok v ∧ (e.value bindings g).1 = .ok v) ∧
    (∀ error, (e.value bindings g).1 = .error error → ∃ first, strict = .error first) ∧
    (∀ error, (e.value bindings g).1 = .error error →
      ∃ name ∈ e.names, error = .unbound name ∧ name ∉ bindings.keys) ∧
    (e.value bindings g).2 = g := by
  intro strict
  have agrees (v : Int64) (valued : strict = .ok v) : e.value bindings g = (.ok v, g) :=
    Expr.value_of_strictValue drawless (Prod.ext valued rfl) g
  refine ⟨agrees, fun bound => ?_, fun error failed => ?_, fun error failed => ?_, ?_⟩
  · obtain ⟨v, after, valued⟩ := e.strictValue_of_bound bindings other bound
    have found : strict = .ok v := congrArg Prod.fst valued
    exact ⟨v, found, congrArg Prod.fst (agrees v found)⟩
  · cases answer : strict with
    | error first => exact ⟨first, rfl⟩
    | ok v =>
      rw [agrees v answer] at failed
      cases failed
  · obtain ⟨name, inside, same, absent⟩ := Expr.unbound_of_value (Prod.ext failed rfl)
    refine ⟨name, inside, same, fun bound => ?_⟩
    obtain ⟨v, found⟩ := Bindings.get?_of_mem_keys bound
    cases absent.symm.trans found
  · exact congrArg Prod.snd (Expr.value_of_drawless drawless bindings g g)

/-- One expression leaves out an operand that has a value, the other one that has none and is named by
the evaluation of all operands, while evaluation comes to a name behind it. -/
theorem value_agrees_with_strictValue_left_out :
    let bindings := Bindings.ofIteration 5
    let whole : Expr := .binary .or (.binary .and (.number 0) (.ident "i")) (.unary .not (.ident "i"))
    let broken : Expr := .binary .add (.binary .and (.number 0) (.ident "x")) (.ident "y")
    whole.draws = false ∧ (∀ name ∈ whole.names, name ∈ bindings.keys) ∧
      (whole.strictValue bindings (.ofSeed 3)).1 = .ok 0 ∧
      whole.value bindings (.ofSeed 7) = (.ok 0, .ofSeed 7) ∧
      broken.draws = false ∧ (broken.value bindings (.ofSeed 7)).1 = .error (.unbound "y") ∧
      (broken.strictValue bindings (.ofSeed 3)).1 = .error (.unbound "x") ∧
      (∃ name ∈ broken.names, EvalError.unbound "y" = .unbound name ∧ name ∉ bindings.keys) := by
  intro bindings whole broken
  have bound : ∀ name ∈ whole.names, name ∈ bindings.keys := by decide
  have valued : (whole.strictValue bindings (.ofSeed 3)).1 = .ok 0 := rfl
  have failed : (broken.value bindings (.ofSeed 7)).1 = .error (.unbound "y") := rfl
  obtain ⟨agrees, -⟩ := value_agrees_with_strictValue whole rfl bindings (.ofSeed 7) (.ofSeed 3)
  obtain ⟨-, -, -, blames, -⟩ :=
    value_agrees_with_strictValue broken rfl bindings (.ofSeed 7) (.ofSeed 3)
  exact ⟨rfl, bound, valued, agrees 0 valued, rfl, failed, rfl, blames _ failed⟩

end BranchLab
