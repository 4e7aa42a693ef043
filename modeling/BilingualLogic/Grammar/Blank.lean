import BilingualLogic.Text.Position

/-!
What may stand between the parts of a program: blanks and direction marks, comments to the end of the line, and
comments in `/*` and `*/`.
-/

namespace BilingualLogic.Blank

open Text

def isBlank (c : Char) : Bool :=
  c == ' ' || c == '\t' || c == '\r' || c == '\n' || c == '\u00A0' || c == '\u200E' || c == '\u200F' || c == '\uFEFF'

/-- Passes over the rest of a comment in brackets; `none` if it has no end. -/
def skipBracketed : List Char → Position → Option Cursor
  | '*' :: '/' :: rest, p => some ⟨rest, (p.after '*').after '/'⟩
  | c :: rest, p => skipBracketed rest (p.after c)
  | [], _ => none

def skipLine : List Char → Position → Cursor
  | c :: rest, p => if c = '\n' ∨ c = '\r' then ⟨c :: rest, p⟩ else skipLine rest (p.after c)
  | [], p => ⟨[], p⟩

theorem skipBracketed_length {cs : List Char} {p : Position} {c : Cursor} (h : skipBracketed cs p = some c) :
    c.rest.length < cs.length := by
  fun_induction skipBracketed cs p with
  | case1 rest p => cases h; simp only [List.length_cons]; omega
  | case2 c' rest p _ ih => exact Nat.lt_succ_of_lt (ih h)
  | case3 => simp at h

theorem skipLine_length (cs : List Char) (p : Position) : (skipLine cs p).rest.length ≤ cs.length := by
  fun_induction skipLine cs p with
  | case1 => simp
  | case2 c rest p h ih => exact Nat.le_succ_of_le ih
  | case3 => simp

/-- Passes over all blanks and comments. -/
def skip (cs : List Char) (p : Position) : Cursor :=
  match cs with
  | '/' :: '/' :: rest =>
    match h : skipLine rest ((p.after '/').after '/') with
    | ⟨rest', p'⟩ =>
      have : rest'.length ≤ rest.length := by simpa [h] using skipLine_length rest ((p.after '/').after '/')
      skip rest' p'
  | '/' :: '*' :: rest =>
    match h : skipBracketed rest ((p.after '/').after '*') with
    | some ⟨rest', p'⟩ =>
      have : rest'.length < rest.length := skipBracketed_length h
      skip rest' p'
    | none => ⟨cs, p⟩
  | c :: rest => if isBlank c then skip rest (p.after c) else ⟨cs, p⟩
  | [] => ⟨[], p⟩
termination_by cs.length
decreasing_by all_goals (simp only [List.length_cons]; omega)

end BilingualLogic.Blank
