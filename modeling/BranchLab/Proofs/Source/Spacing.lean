import Mathlib.Data.List.Infix
import BranchLab.Proofs.Source.Spelling

/-! Tokens written one after another with gaps between them. No blank lengthens a token, and the slash
of a comment only a division sign, so every token ends where the gap behind it begins, and the text
is scanned as the tokens it was written from. -/

namespace BranchLab.Source

open Text (isBlank)

def spacedText (parts : List (Token × List Char)) : List Char :=
  parts.flatMap fun part => part.1.spelling.toList ++ part.2

section Gaps

variable {token : Token} {c : Char} {gap : List Char}

theorem code_of_continuesWord (continues : continuesWord c) : 48 ≤ c.toNat ∧ c.toNat ≤ 122 := by
  have kinds : startsWord c ∨ c.isDigit := by
    simp only [continuesWord, startsWord, Char.isAlphanum, Bool.or_eq_true] at continues ⊢
    exact or_right_comm.mp continues
  rcases kinds with starts | digit
  · have code := code_of_startsWord starts
    omega
  · have code := code_of_isDigit digit
    omega

/-- Whatever is read together with a token is a character of ASCII with a glyph. -/
theorem Token.visible_of_joins (joins : token.joins c) : 33 ≤ c.toNat ∧ c.toNat < 127 := by
  cases token with
  | number value =>
    have code := code_of_isDigit joins
    omega
  | name | letWord | ifWord | randWord =>
    have code := code_of_continuesWord joins
    omega
  | op sign =>
    cases sign with
    | lt | gt =>
      rcases Bool.or_eq_true_iff.mp joins with second | second
      all_goals
        obtain rfl := beq_iff_eq.mp second
        decide
    | div | bitAnd | bitOr =>
      obtain rfl := beq_iff_eq.mp joins
      decide
    | _ => cases joins
  | assign | not =>
    obtain rfl := beq_iff_eq.mp joins
    decide
  | bitNot | openParen | closeParen | openBrace | closeBrace | semicolon => cases joins

theorem Token.joins_slash (other : token ≠ .op .div) : token.joins '/' = false := by
  cases token with
  | op sign =>
    cases sign with
    | div => exact absurd rfl other
    | _ => rfl
  | _ => rfl

/-- A token ends where a gap begins. -/
theorem Trivia.apart (trivia : Trivia gap) (nonempty : gap ≠ [])
    (slash : token = .op .div → gap.head? ≠ some '/') (rest : List Char) :
    token.Apart (gap ++ rest) := by
  cases trivia with
  | nil => exact absurd rfl nonempty
  | @blank first _ blank others =>
    intro c next
    cases next
    rw [Bool.eq_false_iff]
    intro joins
    exact absurd blank (by simp [isBlank_eq_false (Token.visible_of_joins joins)])
  | comment within others =>
    intro c next
    cases next
    exact Token.joins_slash fun divides => slash divides rfl

end Gaps

def Layout.spaced (parts : List (Token × List Char)) : Layout :=
  parts.flatMap fun part => [.token part.1, .gap part.2]

section Spacing

variable {parts : List (Token × List Char)}

theorem Layout.text_spaced (parts : List (Token × List Char)) :
    (Layout.spaced parts).text = spacedText parts := by
  induction parts with
  | nil => rfl
  | cons part parts ih =>
    simp only [spaced, spacedText, List.flatMap_cons, text_append] at ih ⊢
    rw [ih]
    simp [Piece.text]

theorem Layout.tokens_spaced (place : Location) (parts : List (Token × List Char)) :
    ((Layout.spaced parts).located place).map Located.token = parts.map Prod.fst := by
  induction parts generalizing place with
  | nil => rfl
  | cons part parts ih => exact congrArg (part.1 :: ·) (ih _)

theorem Layout.fits_spaced (written : ∀ part ∈ parts, part.1.Written)
    (gaps : ∀ part ∈ parts, Trivia part.2 ∧ (part.1 = .op .div → part.2.head? ≠ some '/'))
    (parted : ∀ part ∈ parts.dropLast, part.2 ≠ []) : (Layout.spaced parts).Fits [] := by
  induction parts with
  | nil => trivial
  | cons part parts ih =>
    obtain ⟨trivia, slash⟩ := gaps part List.mem_cons_self
    have inside {other : Token × List Char} (more : parts ≠ [])
        (member : other ∈ part :: parts.dropLast) : other.2 ≠ [] :=
      parted other (by rwa [List.dropLast_cons_of_ne_nil more])
    have others : (Layout.spaced parts).Fits [] :=
      ih (fun other member => written other (List.mem_cons_of_mem part member))
        (fun other member => gaps other (List.mem_cons_of_mem part member)) fun other member =>
          inside (List.ne_nil_of_mem (List.mem_of_mem_dropLast member))
            (List.mem_cons_of_mem part member)
    refine ⟨written part List.mem_cons_self, ?_, trivia, others⟩
    change part.1.Apart (text (.gap part.2 :: Layout.spaced parts) ++ [])
    rw [text_cons, Piece.text, List.append_assoc]
    by_cases empty : part.2 = []
    · -- Only behind the last token there need not be a gap.
      have last : parts = [] := by
        by_contra more
        exact inside more List.mem_cons_self empty
      rw [empty, last]
      exact part.1.apart_nil
    · exact trivia.apart empty slash _

end Spacing

/-- Tokens that are spelled one after another with gaps between them, and with gaps or none at both
ends, are found again. A gap is any blanks and comments with the ends of their lines; only a division
sign needs a blank before a comment, which would begin with its slash. -/
theorem scan_undoes_spelling {opening : List Char} {parts : List (Token × List Char)}
    (opened : Trivia opening) (written : ∀ part ∈ parts, part.1.Written)
    (gaps : ∀ part ∈ parts, Trivia part.2 ∧ (part.1 = .op .div → part.2.head? ≠ some '/'))
    (parted : ∀ part ∈ parts.dropLast, part.2 ≠ []) :
    ∃ tokens, scan (opening ++ spacedText parts) = .ok tokens ∧
      tokens.map Located.token = parts.map Prod.fst := by
  let layout : Layout := .gap opening :: Layout.spaced parts
  have fits : layout.Fits [] := ⟨opened, Layout.fits_spaced written gaps parted⟩
  have text : layout.text = opening ++ spacedText parts :=
    congrArg (opening ++ ·) (Layout.text_spaced parts)
  rw [← text]
  exact ⟨_, scan_layout fits, Layout.tokens_spaced _ parts⟩

/-- The word `let` is kept apart from a name by a comment, two signs that would be one by a no-break
space, and the largest number from a division sign by a line separator. -/
theorem scan_undoes_spelling_separators :
    let opening := "// x\n".toList
    let parts : List (Token × List Char) := [(.letWord, "//if\n".toList), (.name "let_", ['\t']),
      (.assign, ['\u00a0']), (.op .eq, ['\n']), (.number (2 ^ 64 - 1), ['\u2028']),
      (.op .div, " ///\n".toList), (.semicolon, [])]
    Trivia opening ∧ (∀ part ∈ parts, part.1.Written) ∧
      (∀ part ∈ parts, Trivia part.2 ∧ (part.1 = .op .div → part.2.head? ≠ some '/')) ∧
      (∀ part ∈ parts.dropLast, part.2 ≠ []) ∧
      ∃ tokens, scan (opening ++ spacedText parts) = .ok tokens ∧
        tokens.map Located.token = parts.map Prod.fst := by
  intro opening parts
  have opened : Trivia opening := by
    have line : '\n' ∉ [' ', 'x'] := by decide
    exact .comment line .nil
  have written : ∀ part ∈ parts, part.1.Written := by
    have name : IsName "let_" := ⟨⟨rfl, rfl⟩, by decide⟩
    have largest : 2 ^ 64 - 1 ≤ numberLimit := by decide
    simp [parts, Token.Written, name, largest]
  have gaps : ∀ part ∈ parts,
      Trivia part.2 ∧ (part.1 = .op .div → part.2.head? ≠ some '/') := by
    have comment : Trivia "//if\n".toList := by
      have line : '\n' ∉ ['i', 'f'] := by decide
      exact .comment line .nil
    have slashes : Trivia " ///\n".toList := by
      have line : '\n' ∉ ['/'] := by decide
      exact .blank rfl (.comment line .nil)
    have alone {c : Char} (blank : isBlank c) : Trivia [c] := .blank blank .nil
    simp only [parts, List.forall_mem_cons]
    exact ⟨⟨comment, by decide⟩, ⟨alone rfl, by simp⟩, ⟨alone rfl, by decide⟩,
      ⟨alone rfl, by decide⟩, ⟨alone rfl, by simp⟩, ⟨slashes, by decide⟩, ⟨.nil, by decide⟩, by simp⟩
  have parted : ∀ part ∈ parts.dropLast, part.2 ≠ [] := by simp [parts]
  exact ⟨opened, written, gaps, parted, scan_undoes_spelling opened written gaps parted⟩

end BranchLab.Source
