import BilingualLogic.Grammar.Blank
import Mathlib.Data.String.Basic

/-!
The nodes of the tree of a text: a rule, the stretch that it takes, and the rules inside. And stretches: what leads from
one place of a text to another, blanks among them.
-/

namespace BilingualLogic

open Text

namespace Text

/-- The stretch of a text. -/
def Span.text (input : String) (s : Span) : String := String.Pos.Raw.extract input ⟨s.start.offset⟩ ⟨s.stop⟩

/-- Some characters lead from one place to another. -/
structure Cursor.Takes (c : Cursor) (taken : List Char) (d : Cursor) : Prop where
  rest : c.rest = taken ++ d.rest
  offset : d.position.offset = c.position.offset + String.utf8Len taken

def Cursor.Reaches (c d : Cursor) : Prop := ∃ taken, c.Takes taken d

theorem Cursor.Reaches.refl (c : Cursor) : c.Reaches c := ⟨[], rfl, rfl⟩

theorem Cursor.Reaches.trans {b c d : Cursor} : b.Reaches c → c.Reaches d → b.Reaches d := by
  rintro ⟨us, hus⟩ ⟨vs, hvs⟩
  refine ⟨us ++ vs, by rw [hus.rest, hvs.rest, List.append_assoc], ?_⟩
  rw [hvs.offset, hus.offset, String.utf8Len_append, Nat.add_assoc]

theorem Cursor.reaches_after (x : Char) (rest : List Char) (p : Position) :
    Cursor.Reaches ⟨x :: rest, p⟩ ⟨rest, p.after x⟩ := by
  refine ⟨[x], rfl, ?_⟩
  unfold Position.after
  split <;> simp

/-- The stretch between two places of a text is what leads from one to the other. -/
theorem Cursor.Takes.text {input : String} {c d : Cursor} {taken : List Char} (hc : (Cursor.ofString input).Reaches c)
    (h : c.Takes taken d) : Span.text input ⟨c.position, d.position.offset⟩ = String.ofList taken := by
  obtain ⟨before, hbefore, hoffset⟩ := hc
  have hinput : input = String.ofList (before ++ taken ++ d.rest) := by
    rw [List.append_assoc, ← h.rest, ← hbefore]
    exact (String.ofList_toList).symm
  have hstart : c.position.offset = String.utf8Len before := by
    rw [hoffset]
    exact Nat.zero_add _
  rw [Span.text, h.offset, hstart, hinput]
  exact String.extract_of_valid before taken d.rest

end Text

namespace Blank

theorem skipLine_reaches (cs : List Char) (p : Position) : Cursor.Reaches ⟨cs, p⟩ (skipLine cs p) := by
  fun_induction skipLine cs p with
  | case1 => exact .refl _
  | case2 p c cs _ ih => exact (Cursor.reaches_after _ _ _).trans ih
  | case3 => exact .refl _

theorem skipBracketed_reaches {cs : List Char} {p : Position} {d : Cursor} (h : skipBracketed cs p = some d) :
    Cursor.Reaches ⟨cs, p⟩ d := by
  fun_induction skipBracketed cs p with
  | case1 cs p =>
    cases h
    exact (Cursor.reaches_after _ _ p).trans (Cursor.reaches_after _ _ _)
  | case2 p c cs _ ih => exact (Cursor.reaches_after _ _ _).trans (ih h)
  | case3 => cases h

theorem reaches_skip (cs : List Char) (p : Position) : Cursor.Reaches ⟨cs, p⟩ (skip cs p) := by
  fun_induction skip cs p with
  | case1 p cs rest' p' h _ ih =>
    refine (Cursor.reaches_after _ _ p).trans ((Cursor.reaches_after _ _ _).trans (Cursor.Reaches.trans ?_ ih))
    exact h ▸ skipLine_reaches cs _
  | case2 p cs rest' p' h _ ih =>
    exact (Cursor.reaches_after _ _ p).trans ((Cursor.reaches_after _ _ _).trans ((skipBracketed_reaches h).trans ih))
  | case3 => exact .refl _
  | case4 p c cs _ _ _ ih => exact (Cursor.reaches_after c cs p).trans ih
  | case5 => exact .refl _
  | case6 => exact .refl _

end Blank

/-- What stands in the text for a rule: the stretch that it takes, and the rules that take part in it. -/
inductive Node (Rule : Type) where
  | mk (rule : Rule) (span : Span) (text : String) (children : List (Node Rule))

namespace Node

variable {Rule : Type}

def rule : Node Rule → Rule
  | mk rule _ _ _ => rule

def span : Node Rule → Span
  | mk _ span _ _ => span

def text : Node Rule → String
  | mk _ _ text _ => text

def children : Node Rule → List (Node Rule)
  | mk _ _ _ children => children

section Parts

variable (r : Rule) (s : Span) (t : String) (ns : List (Node Rule))

@[simp] theorem rule_mk : (mk r s t ns).rule = r := rfl

@[simp] theorem span_mk : (mk r s t ns).span = s := rfl

@[simp] theorem text_mk : (mk r s t ns).text = t := rfl

@[simp] theorem children_mk : (mk r s t ns).children = ns := rfl

end Parts

mutual

/-- The property holds of the node and of all nodes inside. -/
def All (P : Node Rule → Prop) : Node Rule → Prop
  | mk rule span text children => P (mk rule span text children) ∧ AllIn P children

def AllIn (P : Node Rule → Prop) : List (Node Rule) → Prop
  | [] => True
  | n :: ns => n.All P ∧ AllIn P ns

end

theorem allIn_iff {P : Node Rule → Prop} {ns : List (Node Rule)} : AllIn P ns ↔ ∀ n ∈ ns, n.All P := by
  induction ns with
  | nil => simp [AllIn]
  | cons n ns ih => simp [AllIn, ih]

theorem all_iff {P : Node Rule → Prop} {n : Node Rule} : n.All P ↔ P n ∧ ∀ m ∈ n.children, m.All P := by
  cases n
  rw [All, allIn_iff]
  rfl

end Node

end BilingualLogic
