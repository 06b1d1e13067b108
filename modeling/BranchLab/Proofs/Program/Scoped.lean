import BranchLab.Program.Scope

/-! What a passed scope check promises. Every name that a statement uses is known at its place in its
block, where the names known are those known at the entry of the block and those bound before in
it, and an expression whose names are all bound has a value. -/

namespace BranchLab

open Chance (Generator)

theorem Bindings.get?_of_mem_keys {bindings : Bindings} {name : String}
    (bound : name ∈ bindings.keys) : ∃ v, bindings.get? name = some v := by
  have held := (Catalog.contains_iff_mem_keys bindings name).mpr bound
  exact Option.isSome_iff_exists.mp held

/-- The result of an operation whose left operand decides it: of a conjunction with zero and of a
disjunction with anything else. -/
def BinaryOp.decided? : BinaryOp → Int64 → Option Int64
  | and, a => if a = 0 then some 0 else none
  | or, a => if a = 0 then none else some 1
  | _, _ => none

/-- A right operand that is not looked at would have made no difference. -/
theorem BinaryOp.apply_of_decided {op : BinaryOp} {a v : Int64} (decided : op.decided? a = some v)
    (b : Int64) : op.apply a b = v := by
  cases op <;> simp_all [decided?, apply, truth]

namespace Expr

/-- Where the left operand leaves the result open, it is what the operator computes of both. -/
theorem value_binary (bindings : Bindings) (op : BinaryOp) (lhs rhs : Expr) (g : Generator) :
    (binary op lhs rhs).value bindings g =
      match lhs.value bindings g with
      | (.error e, g) => (.error e, g)
      | (.ok a, g) =>
        match op.decided? a with
        | some v => (.ok v, g)
        | none =>
          match rhs.value bindings g with
          | (.error e, g) => (.error e, g)
          | (.ok b, g) => (.ok (op.apply a b), g) := by
  cases op with
  | and | or =>
    rw [value]
    rcases lhs.value bindings g with ⟨_ | a, between⟩
    · rfl
    · dsimp only
      generalize rhs.value bindings between = second
      obtain ⟨_ | b, last⟩ := second <;> by_cases zero : a = 0 <;>
        simp [BinaryOp.decided?, BinaryOp.apply, zero]
  | _ => rfl

/-- An expression has a value under bindings of all its names, whatever is drawn on the way. -/
theorem value_of_bound (bindings : Bindings) (e : Expr) (g : Generator)
    (bound : ∀ name ∈ e.names, name ∈ bindings.keys) :
    ∃ v g', e.value bindings g = (.ok v, g') := by
  induction e generalizing g with
  | number n => exact ⟨n, g, rfl⟩
  | ident name =>
    obtain ⟨v, found⟩ := Bindings.get?_of_mem_keys (bound name (by simp [names]))
    exact ⟨v, g, by simp [value, found]⟩
  | binary op lhs rhs left right =>
    obtain ⟨a, g₁, first⟩ := left g fun name inside => bound name (by simp [names, inside])
    obtain ⟨b, g₂, second⟩ := right g₁ fun name inside => bound name (by simp [names, inside])
    cases decided : op.decided? a with
    | some v => exact ⟨v, g₁, by simp [value_binary, first, decided]⟩
    | none => exact ⟨op.apply a b, g₂, by simp [value_binary, first, decided, second]⟩
  | unary op operand ih =>
    obtain ⟨a, g', valued⟩ := ih g bound
    exact ⟨op.apply a, g', by simp [value, valued]⟩
  | random limit ih =>
    obtain ⟨b, g', valued⟩ := ih g bound
    exact ⟨(Chance.draw b g').1, (Chance.draw b g').2, by simp [value, valued]⟩

theorem checkNames_ok (known : List String) (line : Nat) (e : Expr) :
    e.checkNames known line = .ok () ↔ ∀ name ∈ e.names, name ∈ known := by
  have none_iff : e.firstUnknown known = none ↔ ∀ name ∈ e.names, name ∈ known := by
    simp [firstUnknown, List.find?_eq_none]
  rw [← none_iff, checkNames]
  cases e.firstUnknown known <;> simp

end Expr

namespace Statement

def namesAfter (known : List String) : Statement → List String
  | bind name _ _ => name :: known
  | guarded .. => known

def namesBefore (known : List String) (block : List Statement) (index : Nat) : List String :=
  (block.take index).foldl namesAfter known

@[simp] theorem namesBefore_zero (known : List String) (block : List Statement) :
    namesBefore known block 0 = known := rfl

theorem namesBefore_succ (known : List String) {block : List Statement} {index : Nat}
    {statement : Statement} (current : block[index]? = some statement) :
    namesBefore known block (index + 1) = namesAfter (namesBefore known block index) statement := by
  simp [namesBefore, List.take_add_one, current, List.foldl_append]

theorem check_bind (known after : List String) (name : String) (value : Expr) (lines : LineRange) :
    check known (bind name value lines) = .ok after ↔
      (∀ used ∈ value.names, used ∈ known) ∧ after = name :: known := by
  rw [check, bind_ok, ← Expr.checkNames_ok known lines.start]
  constructor
  · rintro ⟨⟨⟩, passed, same⟩
    exact ⟨passed, (Except.ok.inj same).symm⟩
  · rintro ⟨passed, rfl⟩
    exact ⟨(), passed, rfl⟩

theorem check_guarded (known after : List String) (cond : Expr) (body : List Statement)
    (lines : LineRange) :
    check known (guarded cond body lines) = .ok after ↔
      (∀ used ∈ cond.names, used ∈ known) ∧ checkBlock known body = .ok () ∧ after = known := by
  rw [check, bind_ok, ← Expr.checkNames_ok known lines.start]
  constructor
  · rintro ⟨⟨⟩, passed, rest⟩
    obtain ⟨⟨⟩, inner, same⟩ := bind_ok.mp rest
    exact ⟨passed, inner, (Except.ok.inj same).symm⟩
  · rintro ⟨passed, inner, rfl⟩
    exact ⟨(), passed, bind_ok.mpr ⟨(), inner, rfl⟩⟩

theorem checkBlock_cons (known : List String) (statement : Statement) (rest : List Statement) :
    checkBlock known (statement :: rest) = .ok () ↔
      ∃ after, check known statement = .ok after ∧ checkBlock after rest = .ok () := by
  rw [checkBlock, bind_ok]

theorem names_after_check {known after : List String} {statement : Statement}
    (checked : check known statement = .ok after) : after = namesAfter known statement := by
  cases statement with
  | bind name value lines => exact ((check_bind ..).mp checked).2
  | guarded cond body lines => exact ((check_guarded ..).mp checked).2.2

/-- Each statement of a block that passes the check passes it with the names known before it. -/
theorem check_at {known : List String} {block : List Statement}
    (checked : checkBlock known block = .ok ()) {index : Nat} {statement : Statement}
    (current : block[index]? = some statement) :
    ∃ after, check (namesBefore known block index) statement = .ok after := by
  induction block generalizing known index with
  | nil => simp at current
  | cons head rest ih =>
    obtain ⟨after, first, others⟩ := (checkBlock_cons ..).mp checked
    cases index with
    | zero =>
      have same : head = statement := by simpa using current
      subst same
      exact ⟨after, first⟩
    | succ index =>
      obtain ⟨last, passed⟩ := ih others (by simpa using current)
      rw [names_after_check first] at passed
      exact ⟨last, passed⟩

end Statement
end BranchLab
