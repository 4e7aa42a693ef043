import BilingualLogic.Proofs.Decimal.Denotation
import BilingualLogic.Proofs.Rendering.Goal

/-!
Hidden variables in formulas. As they are written they are not read again, but they can be told from all else that is
written in the same way, an anonymous variable in a term or a predicate of that name: only an operand stands next to an
operator. So their names can be put into the text of a clause.
-/

namespace BilingualLogic

namespace Formula

/-- The formula with a name for its hidden variables. -/
def spoken (x : String) : Formula → Formula
  | .term (.var y) => .term (.var (if Term.isHidden y then x else y))
  | .term t => .term t
  | .negate a => .negate (a.spoken x)
  | .binary op a b => .binary op (a.spoken x) (b.spoken x)

end Formula

namespace Goal

mutual

/-- The goal with a name for the hidden variables in its formulas. -/
def spoken (x : String) : Goal → Goal
  | .call p => .call p
  | .cut => .cut
  | .not goals => .not (spokenAll x goals)
  | .unify a b => .unify a b
  | .is a e => .is a (e.spoken x)
  | .compare op a b => .compare op (a.spoken x) (b.spoken x)
  | .collect kind t goals r => .collect kind t (spokenAll x goals) r
  | .assert head body => .assert head (spokenAll x body)
  | .retract head body => .retract head (spokenAll x body)

def spokenAll (x : String) : List Goal → List Goal
  | [] => []
  | g :: gs => g.spoken x :: spokenAll x gs

end

end Goal

def Clause.spoken (x : String) (c : Clause) : Clause := ⟨c.head, Goal.spokenAll x c.body⟩

namespace Language

/-- Whether an operand comes behind what is written, which is given from its end: it ends with a sign, or with a blank
behind an operator or the keyword that comes before a formula. -/
def expectsOperand : List Char → Bool
  | '-' :: _ => true
  | ' ' :: '=' :: c :: _ => c != ' '
  | ' ' :: '-' :: c :: _ => c != ':'
  | ' ' :: c :: _ => ['+', '*', '/', '%', '<', '>', 's', 'و'].contains c
  | _ => false

/-- Whether an operator comes next. -/
def startsOperator : List Char → Bool
  | ' ' :: '=' :: c :: _ => c != ' '
  | ' ' :: c :: _ => ['+', '-', '*', '/', '%', '<', '>', '!'].contains c
  | _ => false

/-- Whether a word of one character is an operand between what comes before and what comes next. -/
def isOperand (before after : List Char) : Bool :=
  ! before.head?.any isNameChar && ! after.head?.any isNameChar && (expectsOperand before || startsOperator after)

/-- Where a character stands: in a quoted text or not, there behind a backslash or not. -/
inductive Place where
  | outside | quoted | escaped

def Place.next : Place → Char → Place
  | .outside, c => if c = '"' then .quoted else .outside
  | .quoted, c => if c = '"' then .outside else if c = '\\' then .escaped else .quoted
  | .escaped, _ => .quoted

/-- The text with a name for the operands that are written without one. -/
def speak (x : String) : Place → List Char → List Char → List Char
  | _, _, [] => []
  | .outside, before, c :: cs =>
    (if c == '_' && isOperand before cs then '?' :: x.toList else [c])
      ++ speak x (Place.outside.next c) (c :: before) cs
  | place, before, c :: cs => c :: speak x (place.next c) (c :: before) cs

/-- Between what comes before and what comes next the first text becomes the second. -/
def Speaks (x : String) (before after a b : List Char) : Prop :=
  speak x .outside before (a ++ after) = b ++ speak x .outside (a.reverse ++ before) after

section Speaking

variable {x : String} {before after a a' b b' w : List Char} {c : Char}

theorem speaks_nil : Speaks x before after [] [] := rfl

theorem Speaks.append (h : Speaks x before (a' ++ after) a b) (h' : Speaks x (a.reverse ++ before) after a' b') :
    Speaks x before after (a ++ a') (b ++ b') := by
  rw [Speaks, List.append_assoc, h, h', List.append_assoc, List.reverse_append, List.append_assoc]

theorem speaks_char (hquote : c ≠ '"') (hc : c = '_' → isOperand before after = false) :
    Speaks x before after [c] [c] := by
  have hkept : (c == '_' && isOperand before after) = false := by
    cases h : c == '_' with
    | true => exact hc (eq_of_beq h)
    | false => rfl
  simp [Speaks, speak, hkept, Place.next, hquote]

theorem speaks_cons (hquote : c ≠ '"') (hc : c = '_' → isOperand before (a ++ after) = false)
    (h : Speaks x (c :: before) after a b) : Speaks x before after (c :: a) (c :: b) :=
  Speaks.append (speaks_char hquote hc) h

theorem speaks_hidden (h : isOperand before after = true) : Speaks x before after ['_'] ('?' :: x.toList) := by
  simp [Speaks, speak, h, Place.next]

theorem speaks_plain (hw : ∀ c ∈ w, c ≠ '_' ∧ c ≠ '"') : Speaks x before after w w := by
  induction w generalizing before with
  | nil => exact speaks_nil
  | cons c cs ih =>
    obtain ⟨hc, hcs⟩ := List.forall_mem_cons.mp hw
    exact speaks_cons hc.2 (fun h => absurd h hc.1) (ih hcs)

theorem ne_quote_of_isNameChar (h : isNameChar c = true) : c ≠ '"' := fun hc => ne_of_isNameChar h (by simp [hc])

theorem isOperand_of_front (h : isNameChar c = true) : isOperand (c :: before) after = false := by
  simp [isOperand, h]

theorem isOperand_of_next (h : isNameChar c = true) : isOperand before (c :: after) = false := by
  simp [isOperand, h]

/-- Inside of a word nothing is an operand. -/
theorem speaks_wordRest (hw : ∀ c ∈ w, isNameChar c = true) (hc : isNameChar c = true) :
    Speaks x (c :: before) after w w := by
  induction w generalizing c before with
  | nil => exact speaks_nil
  | cons d ds ih =>
    obtain ⟨hd, hds⟩ := List.forall_mem_cons.mp hw
    exact speaks_cons (ne_quote_of_isNameChar hd) (fun _ => isOperand_of_front hc) (ih hds hd)

theorem speaks_word (hw : ∀ c ∈ w, isNameChar c = true) (hne : w ≠ ['_']) : Speaks x before after w w := by
  cases w with
  | nil => exact speaks_nil
  | cons c cs =>
    obtain ⟨hc, hcs⟩ := List.forall_mem_cons.mp hw
    refine speaks_cons (ne_quote_of_isNameChar hc) ?_ (speaks_wordRest hcs hc)
    rintro rfl
    cases cs with
    | nil => exact absurd rfl hne
    | cons d ds => exact isOperand_of_next (hcs d List.mem_cons_self)

theorem speaks_keyword (k : Keyword) (v : Vocabulary) :
    Speaks x before after (k.spelling v).toList (k.spelling v).toList := by
  have hne : ∀ k ∈ Keyword.all, ∀ v ∈ [Vocabulary.latin, .arabic], (k.spelling v).toList ≠ ['_'] := by decide +kernel
  refine speaks_word (isNameChar_spelling k _ (spelling_mem k v)) (hne k k.mem_all v ?_)
  cases v <;> decide

theorem speaks_number (a : Decimal) : Speaks x before after a.text.toList a.text.toList := by
  refine speaks_plain fun c hc => ?_
  rw [Decimal.text_toList] at hc
  rcases Decimal.mem_plainForm a.isDigit_shownWhole a.isDigit_shownDecimals hc with hdigit | rfl | rfl
  · constructor <;> rintro rfl <;> cases hdigit
  · decide
  · decide

theorem escaped_cases (c : Char) :
    Value.escaped c = [c] ∧ c ≠ '"' ∧ c ≠ '\\' ∨ ∃ d, Value.escaped c = ['\\', d] := by
  rw [Value.escaped.eq_def]
  split
  · exact Or.inr ⟨_, rfl⟩
  · exact Or.inr ⟨_, rfl⟩
  · exact Or.inr ⟨_, rfl⟩
  · exact Or.inr ⟨_, rfl⟩
  · next hquote hbackslash _ _ => exact Or.inl ⟨rfl, hquote, hbackslash⟩

/-- In a quoted text nothing is an operand. -/
theorem speak_quoted (content before : List Char) :
    speak x .quoted before (content.flatMap Value.escaped ++ after) = content.flatMap Value.escaped ++
      speak x .quoted ((content.flatMap Value.escaped).reverse ++ before) after := by
  induction content generalizing before with
  | nil => rfl
  | cons c cs ih =>
    rw [List.flatMap_cons, List.append_assoc, List.append_assoc, List.reverse_append, List.append_assoc]
    rcases escaped_cases c with ⟨hc, hquote, hbackslash⟩ | ⟨d, hd⟩
    · simp [hc, speak, Place.next, hquote, hbackslash, ih (c :: before)]
    · simp [hd, speak, Place.next, ih (d :: '\\' :: before)]

theorem speaks_text (content : String) :
    Speaks x before after (Value.quoted content).toList (Value.quoted content).toList := by
  have htext : (Value.quoted content).toList = '"' :: (content.toList.flatMap Value.escaped ++ ['"']) := by
    simp [Value.quoted]
  rw [htext, Speaks, List.cons_append, List.append_assoc, speak, Place.next, if_pos rfl, speak_quoted]
  simp [speak, Place.next]

end Speaking

/-- What is written comes before something that is not an operand. -/
structure Opens (before : List Char) : Prop where
  expects : expectsOperand before = false
  stops : Stops before

/-- What comes next does not make an operand of what is written. -/
structure Closes (after : List Char) : Prop where
  operator : startsOperator after = false
  stops : Stops after

/-- Wherever no operand stands the first text becomes the second. -/
def Settled (x : String) (a b : List Char) : Prop :=
  ∀ before after, Opens before → Closes after → Speaks x before after a b

/-- A mark between two texts that are no operands. -/
structure Divides (mark : List Char) : Prop where
  plain : ∀ c ∈ mark, c ≠ '_' ∧ c ≠ '"'
  opens : ∀ before, Opens (mark.reverse ++ before)
  closes : ∀ after, Closes (mark ++ after)

section Settling

variable {x : String} {before after a a' b b' w mark : List Char} {c : Char}

theorem opens_cons (h : isNameChar c = false) (hc : c ≠ '-' ∧ c ≠ ' ') (before : List Char) : Opens (c :: before) := by
  refine ⟨?_, stops_cons h before⟩
  unfold expectsOperand
  split <;> simp_all

theorem closes_cons (h : isNameChar c = false) (hc : c ≠ ' ') (after : List Char) : Closes (c :: after) := by
  refine ⟨?_, stops_cons h after⟩
  unfold startsOperator
  split <;> simp_all

theorem divides_comma : ∀ c ∈ [',', '،'], Divides [c, ' '] := by
  intro c hc
  simp only [List.mem_cons, List.not_mem_nil, or_false] at hc
  rcases hc with rfl | rfl
  · exact ⟨by simp, fun before => ⟨rfl, stops_cons rfl _⟩, fun after => closes_cons (by decide +kernel) (by decide) _⟩
  · exact ⟨by simp, fun before => ⟨rfl, stops_cons rfl _⟩, fun after => closes_cons (by decide +kernel) (by decide) _⟩

theorem divides_equals : Divides [' ', '=', ' '] :=
  ⟨by simp, fun _ => ⟨rfl, stops_cons rfl _⟩, fun _ => ⟨rfl, stops_cons rfl _⟩⟩

theorem divides_bar : Divides [' ', '|', ' '] :=
  ⟨by simp, fun _ => ⟨rfl, stops_cons rfl _⟩, fun _ => ⟨rfl, stops_cons rfl _⟩⟩

theorem divides_implies : Divides [' ', ':', '-', ' '] :=
  ⟨by simp, fun _ => ⟨rfl, stops_cons rfl _⟩, fun _ => ⟨rfl, stops_cons rfl _⟩⟩

theorem Settled.joined (hmark : Divides mark) (h : Settled x a b) (h' : Settled x a' b') :
    Settled x (a ++ (mark ++ a')) (b ++ (mark ++ b')) := by
  intro before after hb ha
  refine (h before _ hb ?_).append ((speaks_plain hmark.plain).append (h' _ after (hmark.opens _) ha))
  rw [List.append_assoc]
  exact hmark.closes _

/-- Between brackets nothing is an operand of what stands around them. -/
theorem Settled.enclosed {o c : Char} (h : Settled x a b) (ho : o ∈ ['[', '(']) (hc : c ∈ [']', ')']) :
    Speaks x before after (o :: (a ++ [c])) (o :: (b ++ [c])) := by
  have hopen : ∀ o ∈ ['[', '('], isNameChar o = false ∧ (o ≠ '-' ∧ o ≠ ' ') ∧ o ≠ '_' ∧ o ≠ '"' :=
    List.all_iff_forall_prop.mp rfl
  have hclose : ∀ c ∈ [']', ')'], isNameChar c = false ∧ c ≠ ' ' ∧ c ≠ '_' ∧ c ≠ '"' := List.all_iff_forall_prop.mp rfl
  obtain ⟨hname, hopens, hne, hquote⟩ := hopen o ho
  obtain ⟨hname', hcloses, hne', hquote'⟩ := hclose c hc
  have hinside := h (o :: before) (c :: after) (opens_cons hname hopens _) (closes_cons hname' hcloses _)
  exact speaks_cons hquote (fun h => absurd h hne) (hinside.append (speaks_char hquote' fun h => absurd h hne'))

theorem settled_word (hw : ∀ c ∈ w, isNameChar c = true) : Settled x w w := by
  intro before after hb ha
  by_cases hne : w = ['_']
  · subst hne
    exact speaks_char (by decide) fun _ => by simp [isOperand, hb.expects, ha.operator]
  · exact speaks_word hw hne

theorem Settled.applied (hw : ∀ c ∈ w, isNameChar c = true) (h : Settled x a b) :
    Settled x (w ++ '(' :: (a ++ [')'])) (w ++ '(' :: (b ++ [')'])) := by
  intro before after hb ha
  have hcloses : Closes ('(' :: (a ++ [')']) ++ after) := closes_cons rfl (by decide) _
  exact (settled_word hw _ _ hb hcloses).append (h.enclosed (by simp) (by simp))

theorem settled_spread {γ : Type} {mark : Char} (hmark : Divides [mark, ' ']) {text text' : γ → List Char} {gs : List γ}
    (h : ∀ g ∈ gs, Settled x (text g) (text' g)) : Settled x (spread mark text gs) (spread mark text' gs) := by
  cases gs with
  | nil => exact fun before after _ _ => speaks_nil
  | cons g gs =>
    induction gs generalizing g with
    | nil => simpa [spread] using h g
    | cons g' gs ih =>
      have hrest := ih g' fun y hy => h y (List.mem_cons_of_mem g hy)
      have hjoined := (h g List.mem_cons_self).joined hmark hrest
      simpa [spread] using hjoined

/-- An operator between two operands. -/
structure Operates (mark : List Char) : Prop where
  plain : ∀ c ∈ mark, c ≠ '_' ∧ c ≠ '"'
  expects : ∀ before, expectsOperand (mark.reverse ++ before) = true
  starts : ∀ after, startsOperator (mark ++ after) = true
  front : ∃ cs, mark = ' ' :: cs
  back : ∃ cs, mark.reverse = ' ' :: cs

theorem operates_operation (op : Operation) : Operates (' ' :: (op.symbol.toList ++ [' '])) := by
  cases op <;> exact ⟨by simp [Operation.symbol], fun _ => rfl, fun _ => rfl, ⟨_, rfl⟩, ⟨_, rfl⟩⟩

theorem operates_comparison (op : Comparison) : Operates (' ' :: (op.symbol.toList ++ [' '])) := by
  cases op <;> exact ⟨by simp [Comparison.symbol], fun _ => rfl, fun _ => rfl, ⟨_, rfl⟩, ⟨_, rfl⟩⟩

/-- An operand that stands between what comes before and what comes next. -/
structure Stands (before after : List Char) : Prop where
  front : Stops before
  back : Stops after
  operand : expectsOperand before = true ∨ startsOperator after = true

theorem Stands.isOperand (h : Stands before after) : isOperand before after = true := by
  have hhead {cs : List Char} (hcs : Stops cs) : cs.head?.any isNameChar = false := by
    cases cs with
    | nil => rfl
    | cons c cs => exact hcs c cs rfl
  rw [Language.isOperand, hhead h.front, hhead h.back]
  simpa using h.operand

/-- An operator makes operands of what stands around it. -/
theorem Operates.joined (hmark : Operates mark) (hb : Stops before) (ha : Stops after)
    (h : ∀ after', Stands before after' → Speaks x before after' a b)
    (h' : ∀ before', Stands before' after → Speaks x before' after a' b') :
    Speaks x before after (a ++ (mark ++ a')) (b ++ (mark ++ b')) := by
  obtain ⟨cs, hcs⟩ := hmark.front
  obtain ⟨ds, hds⟩ := hmark.back
  refine (h _ ⟨hb, ?_, Or.inr ?_⟩).append ((speaks_plain hmark.plain).append (h' _ ⟨?_, ha, Or.inl ?_⟩))
  · rw [hcs]
    exact stops_cons rfl _
  · rw [List.append_assoc]
    exact hmark.starts _
  · rw [hds]
    exact stops_cons rfl _
  · exact hmark.expects _

end Settling

end Language

open BilingualLogic.Language

variable {x : String} {v : Vocabulary}

theorem Term.Readable.settled {t : Term} (ht : t.Readable) (x : String) (v : Vocabulary) :
    Settled x (t.render v).toList (t.render v).toList := by
  induction ht with
  | @anonymous y hy =>
    rw [Term.render, if_pos hy]
    exact settled_word (w := ['_']) (List.forall_mem_singleton.mpr (by decide +kernel))
  | @var y hy =>
    rw [Term.render, if_neg (by simp [hy.isHidden]), String.toList_append]
    have hne : y.toList ≠ ['_'] := hidden_front hy.isHidden
    exact fun before after _ _ => (speaks_plain (by simp)).append (speaks_word hy.isNameChar hne)
  | number a =>
    rw [Term.render, Value.render]
    exact fun before after _ _ => speaks_number a
  | text content =>
    rw [Term.render, Value.render]
    exact fun before after _ _ => speaks_text content
  | boolean b =>
    rw [render_boolean]
    exact fun before after _ _ => speaks_keyword _ v
  | atom hname _ =>
    rw [Term.render, Value.render]
    exact settled_word (isNameChar_of_isName hname)
  | @list as _ ih =>
    have htext : ((Term.list as).render v).toList = '[' :: (spread ',' (fun t => (t.render v).toList) as ++ [']']) := by
      rw [← renderAll_toList]
      simp [Term.render, Term.renderAll]
    rw [htext]
    exact fun before after _ _ => (settled_spread (divides_comma ',' (by simp)) ih).enclosed (by simp) (by simp)
  | @pattern as r _ _ _ _ ih ihr =>
    have htext : ((Term.pattern as r).render v).toList = '[' :: ((spread ',' (fun t => (t.render v).toList) as ++
        ([' ', '|', ' '] ++ (r.render v).toList)) ++ [']']) := by
      rw [← renderAll_toList]
      simp [Term.render, Term.renderAll]
    rw [htext]
    exact fun before after _ _ => ((settled_spread (divides_comma ',' (by simp)) ih).joined divides_bar ihr).enclosed
      (by simp) (by simp)

theorem Predicate.Readable.settled {p : Predicate} (hp : p.Readable) (x : String) (v : Vocabulary) :
    Settled x (p.render v).toList (p.render v).toList := by
  have hname := isNameChar_of_isName hp.name
  rw [Predicate.render]
  split
  · exact settled_word hname
  · have htext : (p.name ++ "(" ++ Term.renderAll v p.arguments ++ ")").toList
        = p.name.toList ++ '(' :: (spread ',' (fun t => (t.render v).toList) p.arguments ++ [')']) := by
      rw [← renderAll_toList]
      simp
    rw [htext]
    exact (settled_spread (divides_comma ',' (by simp)) fun t ht => (hp.arguments t ht).settled x v).applied hname

namespace Formula

variable {before after : List Char}

theorem speaks_leaf {t : Term} (ht : (spoken x (.term t)).Readable) (v : Vocabulary) (h : Stands before after)
    (outer : Nat) :
    Speaks x before after ((term t).renderIn v outer).toList (((term t).spoken x).renderIn v outer).toList := by
  have shown {y : String} (hy : VisibleName y) : (Term.render v (.var y)).toList = '?' :: y.toList := by
    rw [Term.render, if_neg (by simp [hy.isHidden]), String.toList_append]
    rfl
  cases t with
  | var y =>
    cases hy : Term.isHidden y with
    | true =>
      have hspoken : spoken x (.term (.var y)) = .term (.var x) := by rw [spoken, hy, if_pos rfl]
      rw [hspoken] at ht ⊢
      cases ht with
      | var hx =>
        rw [renderIn, renderIn, shown hx, Term.render, if_pos hy]
        exact speaks_hidden h.isOperand
    | false =>
      have hspoken : spoken x (.term (.var y)) = .term (.var y) := by rw [spoken, hy, if_neg (by decide)]
      rw [hspoken] at ht ⊢
      cases ht with
      | var hy =>
        have hne : y.toList ≠ ['_'] := hidden_front hy.isHidden
        rw [renderIn, shown hy]
        exact (speaks_plain (w := ['?']) (by simp)).append (speaks_word hy.isNameChar hne)
  | const w =>
    have hspoken : spoken x (.term (.const w)) = .term (.const w) := rfl
    rw [hspoken] at ht ⊢
    cases ht with
    | number _ =>
      rw [renderIn, Term.render, Value.render]
      exact speaks_number _
    | text content =>
      rw [renderIn, Term.render, Value.render]
      exact speaks_text content
  | list as => cases ht
  | pattern as r => cases ht

theorem speaks_spoken {e : Formula} (he : (e.spoken x).Readable) (v : Vocabulary) (h : Stands before after)
    (outer : Nat) : Speaks x before after (e.renderIn v outer).toList ((e.spoken x).renderIn v outer).toList := by
  induction e generalizing outer before after with
  | term t => exact speaks_leaf he v h outer
  | negate a ih =>
    cases he with
    | negate ha =>
      rw [spoken, renderIn, renderIn, String.toList_append, String.toList_append]
      exact (speaks_plain (w := ['-']) (by simp)).append (ih ha ⟨stops_cons rfl _, h.back, Or.inl rfl⟩ 3)
  | binary op a b iha ihb =>
    cases he with
    | binary _ ha hb =>
      have htext (e e' : Formula) : (e.renderIn v op.precedence ++ " " ++ op.symbol ++ " "
          ++ e'.renderIn v (op.precedence + 1)).toList = (e.renderIn v op.precedence).toList
          ++ (' ' :: (op.symbol.toList ++ [' ']) ++ (e'.renderIn v (op.precedence + 1)).toList) := by
        simp
      have hparens (t : String) : ("(" ++ t ++ ")").toList = '(' :: (t.toList ++ [')']) := by simp
      have hjoined {before after : List Char} (hbefore : Stops before) (hafter : Stops after) :=
        Operates.joined (x := x) (operates_operation op) hbefore hafter (fun _ h => iha ha h op.precedence)
          (fun _ h => ihb hb h (op.precedence + 1))
      rw [spoken, renderIn, renderIn]
      split
      · rw [hparens, hparens, htext, htext]
        exact Settled.enclosed (fun _ _ hbefore hafter => hjoined hbefore.stops hafter.stops) (by simp) (by simp)
      · rw [htext, htext]
        exact hjoined h.front h.back

end Formula

namespace Goal

variable {a b : List Char}

theorem spokenAll_eq (x : String) (gs : List Goal) : spokenAll x gs = gs.map (spoken x) := by
  induction gs with
  | nil => rfl
  | cons g gs ih => rw [spokenAll, ih, List.map_cons]

theorem settled_keyword {k : Keyword} (hk : k ∈ [.fact, .rule, .not, .assert, .retract]) (v : Vocabulary)
    (h : Settled x a b) : Settled x ((k.spelling v).toList ++ ' ' :: a) ((k.spelling v).toList ++ ' ' :: b) := by
  intro before after _ ha
  have hopens : Opens (' ' :: ((k.spelling v).toList.reverse ++ before)) := by
    refine ⟨?_, stops_cons rfl _⟩
    simp only [List.mem_cons, List.not_mem_nil, or_false] at hk
    rcases hk with rfl | rfl | rfl | rfl | rfl <;> cases v <;> rfl
  exact (speaks_keyword k v).append (speaks_cons (by decide) (by simp) (h _ _ hopens ha))

theorem settled_is {e : Formula} {t : Term} (ht : t.Readable) (he : (e.spoken x).Readable) (v : Vocabulary) :
    Settled x ((is t e).render v).toList ((is t (e.spoken x)).render v).toList := by
  have htext (e : Formula) : ((is t e).render v).toList = (t.render v).toList
      ++ (' ' :: ((Keyword.is.spelling v).toList ++ [' ']) ++ (e.render v).toList) := by
    rw [render]
    simp
  intro before after hb ha
  have hcloses : Closes (' ' :: ((Keyword.is.spelling v).toList ++ [' ']) ++ (e.render v).toList ++ after) := by
    refine ⟨?_, stops_cons rfl _⟩
    cases v <;> rfl
  have hstands : Stands (((' ' :: ((Keyword.is.spelling v).toList ++ [' '])).reverse)
      ++ ((t.render v).toList.reverse ++ before)) after := by
    refine ⟨?_, ha.stops, Or.inl ?_⟩
    · rw [List.reverse_cons, List.reverse_append]
      exact stops_cons rfl _
    · cases v <;> rfl
  have hplain : ∀ c ∈ ' ' :: ((Keyword.is.spelling v).toList ++ [' ']), c ≠ '_' ∧ c ≠ '"' := by
    cases v <;> exact List.all_iff_forall_prop.mp rfl
  rw [htext, htext]
  exact (ht.settled x v before _ hb hcloses).append
    ((speaks_plain hplain).append (Formula.speaks_spoken he v hstands 0))

theorem settled_compare (op : Comparison) {e e' : Formula} (he : (e.spoken x).Readable) (he' : (e'.spoken x).Readable)
    (v : Vocabulary) : Settled x ((compare op e e').render v).toList
      ((compare op (e.spoken x) (e'.spoken x)).render v).toList := by
  have htext (e e' : Formula) : ((compare op e e').render v).toList = (e.render v).toList
      ++ (' ' :: (op.symbol.toList ++ [' ']) ++ (e'.render v).toList) := by
    rw [render]
    simp
  rw [htext, htext]
  exact fun before after hb ha => (operates_comparison op).joined hb.stops ha.stops
    (fun _ h => Formula.speaks_spoken he v h 0) fun _ h => Formula.speaks_spoken he' v h 0

theorem settled_conjunction {gs : List Goal} (v : Vocabulary)
    (h : ∀ g ∈ gs, Settled x (g.render v).toList ((g.spoken x).render v).toList) :
    Settled x (renderAll v gs).toList (renderAll v (spokenAll x gs)).toList := by
  have hmap : spread (conjunctionMark v) (fun g => (g.render v).toList) (gs.map (spoken x))
      = spread (conjunctionMark v) (fun g => ((g.spoken x).render v).toList) gs := by
    cases gs <;> simp [spread, List.flatMap_map]
  rw [goals_toList, goals_toList, spokenAll_eq, hmap]
  exact settled_spread (divides_comma _ (conjunctionMark_mem v)) h

theorem settled_nested {gs : List Goal} (v : Vocabulary)
    (h : ∀ g ∈ gs, Settled x (g.render v).toList ((g.spoken x).render v).toList) :
    Settled x (renderNested v gs).toList (renderNested v (spokenAll x gs)).toList := by
  cases hbare : isBare gs with
  | true =>
    obtain ⟨p, rfl, htext⟩ := renderNested_of_bare v hbare
    have hspoken : spokenAll x [call p] = [call p] := rfl
    rw [hspoken, htext]
    exact h (call p) (by simp)
  | false =>
    have hspoken : isBare (spokenAll x gs) = false := by
      cases gs with
      | nil => rfl
      | cons g gs =>
        cases gs with
        | nil => cases g <;> first | rfl | exact hbare
        | cons g' gs => cases g <;> rfl
    have hparens (t : String) : ("(" ++ t ++ ")").toList = '(' :: (t.toList ++ [')']) := by simp
    rw [renderNested_of_grouped v hbare, renderNested_of_grouped v hspoken, hparens, hparens]
    exact fun before after _ _ => (settled_conjunction v h).enclosed (by simp) (by simp)

theorem settled_clause {head : Predicate} {body : List Goal} (v : Vocabulary)
    (hhead : Settled x (head.render v).toList (head.render v).toList)
    (hbody : ∀ g ∈ body, Settled x (g.render v).toList ((g.spoken x).render v).toList) :
    Settled x (renderClause v head body).toList (renderClause v head (spokenAll x body)).toList := by
  cases body with
  | nil =>
    rw [spokenAll, renderClause]
    exact hhead
  | cons g gs =>
    have htext (g : Goal) (gs : List Goal) : (renderClause v head (g :: gs)).toList = '(' :: (((head.render v).toList
        ++ ([' ', ':', '-', ' '] ++ (renderAll v (g :: gs)).toList)) ++ [')']) := by
      simp [renderClause]
    rw [spokenAll, htext, htext]
    exact fun before after _ _ => (hhead.joined divides_implies (settled_conjunction v hbody)).enclosed (by simp)
      (by simp)

mutual

theorem settled {g : Goal} (hg : (g.spoken x).Readable) (v : Vocabulary) :
    Settled x (g.render v).toList ((g.spoken x).render v).toList := by
  cases g with
  | call p =>
    rw [spoken, render]
    cases hg with
    | call hp => exact hp.settled x v
    | @truth name hname =>
      have hname : ∀ c ∈ name.toList, isNameChar c = true := by
        rcases List.mem_append.mp hname with hname | hname
        · exact isNameChar_spelling .true _ hname
        · exact isNameChar_spelling .false _ hname
      exact settled_word hname
  | cut =>
    rw [spoken, render]
    exact fun before after _ _ => speaks_keyword .cut v
  | not goals =>
    cases hg with
    | not _ hgoals =>
      have htext (goals : List Goal) : ((not goals).render v).toList
          = (Keyword.not.spelling v).toList ++ ' ' :: (renderNested v goals).toList := by
        rw [render]
        simp
      rw [spoken, htext, htext]
      exact settled_keyword (by simp) v (settled_nested v (settledAll hgoals v))
  | unify a b =>
    cases hg with
    | unify ha hb =>
      have htext : ((unify a b).render v).toList
          = (a.render v).toList ++ ([' ', '=', ' '] ++ (b.render v).toList) := by
        rw [render]
        simp
      rw [spoken, htext]
      exact (ha.settled x v).joined divides_equals (hb.settled x v)
  | is t e =>
    cases hg with
    | is ht he => exact settled_is ht he v
  | compare op e e' =>
    cases hg with
    | compare _ he he' => exact settled_compare op he he' v
  | collect kind t goals r =>
    cases hg with
    | collect _ ht _ hgoals hr =>
      have htext (goals : List Goal) : ((collect kind t goals r).render v).toList = (kind.keyword.spelling v).toList
          ++ '(' :: (((t.render v).toList ++ ([',', ' '] ++ ((renderNested v goals).toList
          ++ ([',', ' '] ++ (r.render v).toList)))) ++ [')']) := by
        rw [render]
        simp
      have hcomma := divides_comma ',' (by simp)
      have hnested := settled_nested v (settledAll hgoals v)
      rw [spoken, htext, htext]
      exact ((ht.settled x v).joined hcomma (hnested.joined hcomma (hr.settled x v))).applied
        (isNameChar_spelling _ _ (spelling_mem _ v))
  | assert head body =>
    cases hg with
    | assert hhead hbody =>
      have htext (body : List Goal) : ((assert head body).render v).toList
          = (Keyword.assert.spelling v).toList ++ ' ' :: (renderClause v head body).toList := by
        rw [render]
        simp
      rw [spoken, htext, htext]
      exact settled_keyword (by simp) v (settled_clause v (hhead.settled x v) (settledAll hbody v))
  | retract head body =>
    cases hg with
    | retract hhead hbody =>
      have htext (body : List Goal) : ((retract head body).render v).toList
          = (Keyword.retract.spelling v).toList ++ ' ' :: (renderClause v head body).toList := by
        rw [render]
        simp
      rw [spoken, htext, htext]
      exact settled_keyword (by simp) v (settled_clause v (hhead.settled x v) (settledAll hbody v))

theorem settledAll {gs : List Goal} (hgs : ∀ g ∈ spokenAll x gs, g.Readable) (v : Vocabulary) :
    ∀ g ∈ gs, Settled x (g.render v).toList ((g.spoken x).render v).toList := by
  cases gs with
  | nil => simp
  | cons g gs =>
    obtain ⟨hg, hgs⟩ := List.forall_mem_cons.mp hgs
    exact List.forall_mem_cons.mpr ⟨settled hg v, settledAll hgs v⟩

end

end Goal

namespace Clause

/-- The statement that the clause is. -/
def form (c : Clause) : StatementForm := if c.isFact then .fact c.head else .rule c.head c.body

theorem form_fact (head : Predicate) : form ⟨head, []⟩ = .fact head := rfl

theorem form_rule (head : Predicate) {body : List Goal} (h : body ≠ []) : form ⟨head, body⟩ = .rule head body := by
  rw [form, isFact, List.isEmpty_eq_false_iff.mpr h]
  rfl

/-- The text of a clause with a name for the operands that are written without one is the text of the clause with that
name for the hidden variables in its formulas. -/
theorem speak_render {c : Clause} (hc : (c.spoken x).form.Readable) (v : Vocabulary) :
    speak x .outside [] (c.render v).toList = ((c.spoken x).render v).toList := by
  have hsemicolon (before : List Char) : Speaks x before [] [';'] [';'] := speaks_plain (by simp)
  have hcloses : Closes [';'] := closes_cons rfl (by decide) []
  have hopens : Opens [] := ⟨rfl, stops_nil⟩
  have whole {a b : List Char} (h : Settled x a b) : speak x .outside [] (a ++ [';']) = b ++ [';'] := by
    have hspeaks := (h [] [';'] hopens hcloses).append (hsemicolon _)
    rw [Speaks, List.append_nil] at hspeaks
    rw [hspeaks]
    exact List.append_nil _
  obtain ⟨head, body⟩ := c
  cases body with
  | nil =>
    rw [spoken, Goal.spokenAll, form_fact] at hc
    cases hc with
    | fact hhead =>
      have htext : ((Clause.mk head []).render v).toList
          = ((Keyword.fact.spelling v).toList ++ ' ' :: (head.render v).toList) ++ [';'] := by
        simp [render, isFact]
      rw [spoken, Goal.spokenAll, htext]
      exact whole (Goal.settled_keyword (by simp) v (hhead.settled x v))
  | cons g gs =>
    rw [spoken, Goal.spokenAll, form_rule head (List.cons_ne_nil _ _)] at hc
    cases hc with
    | rule hhead _ hbody =>
      have htext (g : Goal) (gs : List Goal) : ((Clause.mk head (g :: gs)).render v).toList
          = ((Keyword.rule.spelling v).toList ++ ' ' :: ((head.render v).toList
            ++ ([' ', ':', '-', ' '] ++ (Goal.renderAll v (g :: gs)).toList))) ++ [';'] := by
        simp [render, isFact]
      have hbody : ∀ g' ∈ Goal.spokenAll x (g :: gs), g'.Readable := hbody
      have hconjunction := Goal.settled_conjunction v (Goal.settledAll hbody v)
      rw [spoken, Goal.spokenAll, htext, htext]
      exact whole (Goal.settled_keyword (by simp) v ((hhead.settled x v).joined divides_implies hconjunction))

end Clause

end BilingualLogic
