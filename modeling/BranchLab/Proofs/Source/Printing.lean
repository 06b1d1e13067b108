import BranchLab.Proofs.Source.Agreement
import BranchLab.Proofs.Source.Spelling

/-! Expressions in their written form and the way back. A written form is a layout whose tokens are
read as the expression, and each production of the grammar makes a longer one from shorter ones. So
the printed form of an expression is read back, and how many levels of nesting that takes is known
from the tree. -/

namespace BranchLab

namespace Source

def Layout.group (inner : Layout) : Layout :=
  .token .openParen :: inner ++ [.token .closeParen]

def Layout.draw (bound : Layout) : Layout := .token .randWord :: bound.group

def Layout.fold (front : Layout) (op : BinaryOp) (operand : Layout) : Layout :=
  front ++ .gap [' '] :: .token (.op op) :: .gap [' '] :: operand

/-- A written form of an expression. Its first character lengthens no operator before it, only spaces
stand in its gaps, and it can be followed by anything that continues no word. -/
structure Writes (layer : Layer) (layout : Layout) (e : Expr) (need used : Nat) : Prop where
  begins : ∃ first more, layout.text = first :: more ∧ first ≠ '='
  fits : ∀ after, EndsWord after → layout.Fits after
  spaced : ∀ gap, .gap gap ∈ layout → gap = [' ']
  reads : ∀ finish place, ReadsBack finish layer (layout.located place) e need used

theorem trivia_space : Trivia [' '] := .blank rfl .nil

theorem endsWord_space (rest : List Char) : EndsWord (' ' :: rest) :=
  endsWord_cons (by decide) rest

theorem endsWord_closeParen (rest : List Char) : EndsWord (')' :: rest) :=
  endsWord_cons (by decide) rest

namespace Writes

variable {layer inner : Layer} {front back : Layout} {lhs rhs : Expr} {need used more spent : Nat}

theorem loosen (written : Writes inner front lhs need used) (below : layer.level ≤ inner.level) :
    Writes layer front lhs need used where
  begins := written.begins
  fits := written.fits
  spaced := written.spaced
  reads := fun finish place => (written.reads finish place).loosen below

theorem token {token : Token} {e : Expr} (valid : token.Written)
    (apart : ∀ {after}, EndsWord after → token.Apart after)
    (begins : ∃ first more, token.spelling.toList = first :: more ∧ first ≠ '=')
    (reads : ∀ finish place, ReadsAs finish [⟨token, place⟩] e 0) :
    Writes .unary [.token token] e 0 0 where
  begins := by simpa [Piece.text] using begins
  fits := fun after ends => ⟨valid, apart ends, trivial⟩
  spaced := fun gap member => by simp at member
  reads := fun finish place => (reads finish place).readsBack .unary

theorem number {n : Nat} (fits : n ≤ 2 ^ 63 - 1) :
    Writes .unary [.token (.number n)] (.number (Int64.ofNat n)) 0 0 := by
  have valid : (Token.number n).Written := by
    simp only [Token.Written, numberLimit]
    omega
  obtain ⟨first, more, spelled, digits, same⟩ := exists_digits n
  refine token valid (fun ends => Token.number_apart ends n) ⟨first, more, spelled, ?_⟩
    fun finish place => .number place fits
  rintro rfl
  exact absurd (digits '=' (by simp)) (by decide)

theorem name {name : String} (named : IsName name) :
    Writes .unary [.token (.name name)] (.ident name) 0 0 := by
  obtain ⟨first, more, spelled, word⟩ := named.exists_chars
  refine token named (fun ends => ends) ⟨first, more, spelled, ?_⟩
    fun finish place => .name place name
  rintro rfl
  exact absurd (word.continues '=' (by simp)) (by decide)

theorem negative {n : Nat} (fits : n ≤ 2 ^ 63) :
    Writes .unary [.token (.op .sub), .token (.number n)] (.number (Int64.ofInt (-(n : Int)))) 0 0 where
  begins := ⟨'-', _, rfl, by decide⟩
  fits := by
    have valid : (Token.number n).Written := by
      simp only [Token.Written, numberLimit]
      omega
    exact fun after ends => ⟨trivial, fun c next => rfl, valid, Token.number_apart ends n, trivial⟩
  spaced := fun gap member => by simp at member
  reads := fun finish place => (ReadsAs.negative place _ fits).readsBack .unary

theorem group (written : Writes .or front lhs need used) :
    Writes .unary front.group lhs (need + 1) 0 where
  begins := ⟨'(', _, rfl, by decide⟩
  fits := by
    intro after ends
    have closed : Layout.Fits after [.token .closeParen] := ⟨trivial, fun c next => rfl, trivial⟩
    have inside := written.fits _ (endsWord_closeParen after)
    exact ⟨trivial, fun c next => rfl, Layout.fits_append.mpr ⟨inside, closed⟩⟩
  spaced := fun gap member => written.spaced gap (by simpa [Layout.group] using member)
  reads := by
    intro finish place
    rw [Layout.group, Layout.located_append]
    exact ((written.reads finish _).group place _).readsBack .unary

theorem draw (written : Writes .or front lhs need used) :
    Writes .unary front.draw (.random lhs) (need + 1) 0 where
  begins := ⟨'r', _, rfl, by decide⟩
  fits := by
    intro after ends
    have opened := endsWord_cons (by decide : continuesWord '(' = false)
    exact ⟨trivial, opened _, written.group.fits after ends⟩
  spaced := fun gap member => written.spaced gap (by simpa [Layout.draw, Layout.group] using member)
  reads := by
    intro finish place
    rw [Layout.draw, Layout.group, ← List.cons_append, Layout.located_append]
    exact ((written.reads finish _).draw place _ _).readsBack .unary

theorem prefixed {token : Token} {op : UnaryOp} (opens : token.opening? = some (.unary op))
    (written : Writes .unary front lhs need used) :
    Writes .unary (.token token :: front) (.unary op lhs) (need + 1) 0 where
  begins := by
    cases token <;> cases opens
    · exact ⟨'!', _, rfl, by decide⟩
    · exact ⟨'~', _, rfl, by decide⟩
  fits := by
    intro after ends
    obtain ⟨first, more, begins, other⟩ := written.begins
    have apart : token.Apart (front.text ++ after) := by
      rw [begins]
      intro c next
      cases next
      cases token <;> cases opens
      · exact beq_false_of_ne other
      · rfl
    refine ⟨?_, apart, written.fits after ends⟩
    cases token <;> cases opens <;> trivial
  spaced := fun gap member => written.spaced gap (by simpa using member)
  reads := by
    intro finish place
    exact (((written.reads finish _).operand rfl).prefixed opens).readsBack .unary

theorem fold {signs : List BinaryOp} {op : BinaryOp}
    (joined : layer.production = some (signs, inner)) (signed : op ∈ signs)
    (left : Writes layer front lhs need used) (right : Writes inner back rhs more spent) :
    Writes layer (front.fold op back) (.binary op lhs rhs) (max need (used + (more + 1)))
      (used + 1) where
  begins := by
    obtain ⟨first, more, begins, other⟩ := left.begins
    exact ⟨first, _, by rw [Layout.fold, Layout.text_append, begins, List.cons_append], other⟩
  fits := by
    intro after ends
    have apart : ∀ rest, (Token.op op).Apart (' ' :: rest) := by
      intro rest c next
      cases next
      cases op <;> rfl
    refine Layout.fits_append.mpr ⟨left.fits _ (endsWord_space _), trivia_space, trivial, apart _, ?_⟩
    exact ⟨trivia_space, right.fits after ends⟩
  spaced := by
    intro gap member
    simp only [Layout.fold, List.mem_append, List.mem_cons, Piece.gap.injEq, reduceCtorEq,
      false_or] at member
    rcases member with inside | same | same | inside
    · exact left.spaced gap inside
    · exact same
    · exact same
    · exact right.spaced gap inside
  reads := by
    intro finish place
    rw [Layout.fold, Layout.located_append]
    exact (left.reads finish place).fold _ joined signed (right.reads finish _)

end Writes

section Bindings

variable {name : String} {value : Layout} {e : Expr} {need used : Nat}

def bindingLayout (name : String) (value : Layout) : Layout :=
  .token .letWord :: .gap [' '] :: .token (.name name) :: .gap [' '] :: .token .assign ::
    .gap [' '] :: value ++ [.token .semicolon]

theorem text_bindingLayout :
    (bindingLayout name value).text =
      ("let " ++ name ++ " = " ++ String.ofList value.text ++ ";").toList := by
  simp [bindingLayout, Piece.text, Token.spelling]

theorem fits_bindingLayout (bound : IsName name) (written : Writes .or value e need used) :
    (bindingLayout name value).Fits [] := by
  have last : Layout.Fits [] [.token .semicolon] := ⟨trivial, fun c next => rfl, trivial⟩
  have inside := written.fits _ (endsWord_cons (by decide : continuesWord ';' = false) [])
  refine ⟨trivial, endsWord_space _, trivia_space, bound, endsWord_space _, trivia_space, trivial,
    ?_, trivia_space, Layout.fits_append.mpr ⟨inside, last⟩⟩
  intro c next
  cases next
  rfl

theorem feed_not_mem_bindingLayout (bound : IsName name) (written : Writes .or value e need used) :
    '\n' ∉ (bindingLayout name value).text := by
  refine Layout.feed_not_mem_text (fits_bindingLayout bound written) fun gap member => ?_
  have space : gap = [' '] := by
    simp only [bindingLayout, List.cons_append, List.mem_cons, List.mem_append, Piece.gap.injEq,
      reduceCtorEq, false_or, or_false, or_self_left, List.not_mem_nil] at member
    rcases member with same | inside
    · exact same
    · exact written.spaced gap inside
  rw [space]
  decide

/-- The last token of a binding stands on the same line as the first one. -/
theorem readsBack_bindingLayout (finish place : Location) (bound : IsName name)
    (written : Writes .or value e need used) :
    StatementReadsBack finish ((bindingLayout name value).located place)
      (.bind name e ⟨place.line, place.line⟩) need := by
  obtain ⟨word, assign, first, last, shape, line⟩ : ∃ word assign first last,
      (bindingLayout name value).located place = ⟨.letWord, place⟩ :: ⟨.name name, word⟩ ::
        ⟨.assign, assign⟩ :: value.located first ++ [⟨.semicolon, last⟩] ∧
      last.line = place.line := by
    have feedless := feed_not_mem_bindingLayout bound written
    rw [bindingLayout] at feedless ⊢
    rw [Layout.text_append, List.mem_append, not_or] at feedless
    rw [Layout.located_append]
    exact ⟨_, _, _, _, rfl, Location.line_across feedless.1 place⟩
  have read := StatementReadsBack.bind place word assign last name (written.reads finish first)
  rw [line] at read
  rw [shape]
  exact read

theorem ofText_binding (bound : IsName name) (written : Writes .or value e need used) :
    Within need maxNesting
      (Program.ofText ("let " ++ name ++ " = " ++ String.ofList value.text ++ ";"))
      (.ok ⟨[.bind name e ⟨1, 1⟩]⟩) := by
  have scanned := scan_layout (fits_bindingLayout bound written)
  rw [text_bindingLayout] at scanned
  have begins : (bindingLayout name value).located .start ≠ [] := by
    simp [bindingLayout, Layout.located]
  have read := fun finish => readProgramWithin_single begins
    (readsBack_bindingLayout finish .start bound written) maxNesting
  rw [Program.ofText, scanned]
  exact read _

end Bindings

end Source

open Source

def UnaryOp.token : UnaryOp → Token
  | not => .not
  | bitNot => .bitNot

namespace Expr

/-- The levels of nesting that the printed form takes. An infix operation takes one for its
parentheses and one more to the right of its operator. -/
def need : Expr → Nat
  | number _ => 0
  | ident _ => 0
  | unary _ operand => 1 + operand.need
  | random bound => 1 + bound.need
  | binary _ lhs rhs => 1 + max lhs.need (1 + rhs.need)

/-- The printed form in its pieces. A number below zero has two tokens. -/
def layout : Expr → Layout
  | number value =>
    let magnitude := .token (.number value.toInt.natAbs)
    if value.toInt < 0 then [.token (.op .sub), magnitude] else [magnitude]
  | ident name => [.token (.name name)]
  | binary op lhs rhs => (lhs.layout.fold op rhs.layout).group
  | unary op operand => .token op.token :: operand.layout
  | random bound => bound.layout.draw

theorem text_layout (e : Expr) : e.layout.text = e.text.toList := by
  induction e with
  | number value =>
    rw [layout, text, Int.toString_eq_repr, Int.repr_eq_if]
    by_cases below : value.toInt < 0
    · have magnitude : value.toInt.natAbs = (-value.toInt).toNat := by omega
      rw [if_pos below, if_neg (by omega), magnitude]
      simp [Piece.text, Token.spelling, BinaryOp.symbol]
    · have magnitude : value.toInt.natAbs = value.toInt.toNat := by omega
      rw [if_neg below, if_pos (by omega), magnitude]
      simp [Piece.text, Token.spelling]
  | ident name => simp [layout, text, Piece.text, Token.spelling]
  | binary op lhs rhs left right =>
    simp [layout, Layout.group, Layout.fold, text, Piece.text, Token.spelling, left, right]
  | unary op operand ih =>
    cases op <;> simp [layout, text, Piece.text, Token.spelling, ih, UnaryOp.token, UnaryOp.symbol]
  | random bound ih =>
    simp [layout, Layout.draw, Layout.group, text, Piece.text, Token.spelling, ih]

/-- What is printed is an operand, since infix operations stand in parentheses. -/
theorem writes_layout (e : Expr) (named : ∀ name ∈ e.names, IsName name) :
    Writes .unary e.layout e e.need 0 := by
  induction e with
  | number value =>
    have least := Int64.le_toInt value
    have greatest := Int64.toInt_lt value
    rw [layout]
    split
    · have below : -(value.toInt.natAbs : Int) = value.toInt := by omega
      have same : Int64.ofInt (-(value.toInt.natAbs : Int)) = value := by
        rw [below, Int64.ofInt_toInt]
      have written := Writes.negative (by omega : value.toInt.natAbs ≤ 2 ^ 63)
      rwa [same] at written
    · have above : (value.toInt.natAbs : Int) = value.toInt := by omega
      have same : Int64.ofNat value.toInt.natAbs = value := by
        rw [← Int64.ofInt_eq_ofNat, above, Int64.ofInt_toInt]
      have written := Writes.number (by omega : value.toInt.natAbs ≤ 2 ^ 63 - 1)
      rwa [same] at written
  | ident name => exact .name (named name (by simp [names]))
  | binary op lhs rhs left right =>
    obtain ⟨signs, joined, signed⟩ := Layer.exists_signs op
    have front := left fun name inside => named name (by simp [names, inside])
    have operand := right fun name inside => named name (by simp [names, inside])
    have chain := (front.loosen (Layer.le_level_unary _)).fold joined signed
      (operand.loosen (Layer.le_level_unary _))
    have enclosed := (chain.loosen (Layer.level_or_le _)).group
    have levels : (binary op lhs rhs).need = max lhs.need (0 + (rhs.need + 1)) + 1 := by
      rw [need]
      omega
    rwa [← levels] at enclosed
  | unary op operand ih =>
    have opens : op.token.opening? = some (.unary op) := by cases op <;> rfl
    rw [need, Nat.add_comm]
    exact (ih named).prefixed opens
  | random bound ih =>
    rw [need, Nat.add_comm]
    exact ((ih named).loosen (Layer.level_or_le _)).draw

end Expr

/-- An expression is read back from its printed form when that is not nested too deeply, and how
deeply it is nested is its `need`. -/
theorem printed_expression_is_read_back (e : Expr) (named : ∀ name ∈ e.names, IsName name) :
    (e.need ≤ maxNesting →
      Program.ofText ("let r = " ++ e.text ++ ";") = .ok ⟨[.bind "r" e ⟨1, 1⟩]⟩) ∧
    (maxNesting < e.need → ∃ place,
      Program.ofText ("let r = " ++ e.text ++ ";") = .error ⟨place, .nestingTooDeep⟩) := by
  have bound : IsName "r" := ⟨⟨rfl, rfl⟩, by decide⟩
  have written := (e.writes_layout named).loosen (Layer.level_or_le _)
  have read := ofText_binding bound written
  rw [Expr.text_layout, String.ofList_toList] at read
  exact read

theorem printed_expression_is_read_back_extremes :
    let e : Expr := .unary .not (.binary .shl (.ident "x") (.number Int64.minValue))
    let deep : Expr := Nat.repeat (.unary .not) (maxNesting + 1) (.number 0)
    (∀ name ∈ e.names, IsName name) ∧ e.need ≤ maxNesting ∧
      Program.ofText "let r = !(x << -9223372036854775808);" = .ok ⟨[.bind "r" e ⟨1, 1⟩]⟩ ∧
      (∀ name ∈ deep.names, IsName name) ∧ maxNesting < deep.need ∧
      ∃ place, Program.ofText ("let r = " ++ deep.text ++ ";") = .error ⟨place, .nestingTooDeep⟩ := by
  intro e deep
  have named : ∀ name ∈ e.names, IsName name := by
    intro name member
    have same : name = "x" := by simpa [e, Expr.names] using member
    rw [same]
    exact ⟨⟨rfl, rfl⟩, by decide⟩
  have nameless : ∀ name ∈ deep.names, IsName name := by
    have none : deep.names = [] := by decide +kernel
    rw [none]
    exact fun name member => nomatch member
  have text : "let r = " ++ e.text ++ ";" = "let r = !(x << -9223372036854775808);" := by
    decide +kernel
  have fits : e.need ≤ maxNesting := by decide
  have beyond : maxNesting < deep.need := by decide +kernel
  have read := (printed_expression_is_read_back e named).1 fits
  rw [text] at read
  exact ⟨named, fits, read, nameless, beyond,
    (printed_expression_is_read_back deep nameless).2 beyond⟩

end BranchLab
