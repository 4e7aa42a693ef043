import BilingualLogic.Proofs.Rendering.Term

/-!
A written formula is read as the formula. Operators of one precedence make a chain, which reading takes apart from the
left; `Level` is what the two kinds of chains have in common.
-/

namespace BilingualLogic

open BilingualLogic.Language Text

namespace Formula

variable {v : Vocabulary} {o : List Char}

theorem Readable.solid {e : Formula} (he : e.Readable) (v : Vocabulary) (outer : Nat) (o : List Char) :
    Solid ((e.renderIn v outer).toList ++ o) := by
  induction he generalizing outer o with
  | number _ => exact (Term.Readable.number _).solid v o
  | var hx => exact (Term.Readable.var hx).solid v o
  | text content => exact (Term.Readable.text content).solid v o
  | negate _ _ =>
    rw [renderIn, String.toList_append]
    exact solid_cons rfl (by decide) _
  | binary op _ _ iha _ =>
    simp only [renderIn]
    split
    · simp only [String.toList_append, List.append_assoc]
      exact solid_cons rfl (by decide) _
    · simp only [String.toList_append, List.append_assoc]
      exact iha _ _

theorem Readable.solid_render {e : Formula} (he : e.Readable) (v : Vocabulary) (o : List Char) :
    Solid ((e.render v).toList ++ o) := he.solid v 0 o

theorem renderIn_succ {e : Formula} {p : Nat} (h : ∀ op a b, e = .binary op a b → op.precedence ≠ p) :
    e.renderIn v (p + 1) = e.renderIn v p := by
  cases e with
  | term t => rfl
  | negate a => rfl
  | binary op a b =>
    have hop : op.precedence < p + 1 ↔ op.precedence < p := by
      have := h op a b rfl
      omega
    simp only [renderIn, hop]

theorem MeansIn.of_succ {e : Formula} {p : Nat} {x : Source.Formula}
    (h : ∀ op a b, e = .binary op a b → op.precedence ≠ p) (hx : e.MeansIn (p + 1) x) : e.MeansIn p x := by
  cases e with
  | term t => exact hx
  | negate a => exact hx
  | binary op a b =>
    have hop : op.precedence < p + 1 ↔ op.precedence < p := by
      have := h op a b rfl
      omega
    intro depth c n hd
    apply hx
    simpa only [levels, hop] using hd

end Formula

namespace Language

variable {v : Vocabulary} {o : List Char}

theorem solid_symbol (op : Operation) (m : List Char) : Blank.skipText (op.symbol.toList ++ ' ' :: m)
    = op.symbol.toList ++ ' ' :: m := by
  cases op with
  | div => exact Blank.skipText_slash (by decide) (by decide) m
  | _ => exact Blank.skipText_stop rfl (by decide) _

/-- Operands with operators of one precedence between them. -/
structure Level where
  precedence : Nat
  operand : Expr Source.Formula
  operator : Expr Operation
  /-- What can stand behind an operand. -/
  Ends : List Char → Prop
  productive : (Prod.mk <$> operator <*> operand).productive nullable = true
  takes : (Prod.mk <$> operator <*> operand).nullable nullable = false
  reads_operator : ∀ op : Operation, op.precedence = precedence → ∀ m,
    Reads true operator (op.symbol.toList ++ ' ' :: m) (' ' :: m) (· = op)
  ends_operator : ∀ op : Operation, op.precedence = precedence → ∀ m, Ends (' ' :: (op.symbol.toList ++ ' ' :: m))

namespace Level

def item (l : Level) : Expr (Operation × Source.Formula) := Prod.mk <$> l.operator <*> l.operand

/-- The formula is read as an operand. -/
def ReadsOperand (l : Level) (v : Vocabulary) (e : Formula) : Prop :=
  ∀ o, l.Ends o → Reads true l.operand ((e.renderIn v (l.precedence + 1)).toList ++ o) o (e.MeansIn (l.precedence + 1))

/-- The formula is read as the beginning of a chain, however the chain goes on. -/
def ReadsChain (l : Level) (v : Vocabulary) (e : Formula) : Prop :=
  ∀ o o' R, l.Ends o → ReadsMore true l.item o o' R → ∃ m,
    Reads true l.operand ((e.renderIn v l.precedence).toList ++ o) m fun x => ReadsMore true l.item m o' fun more =>
      ∃ first second, more = first ++ second ∧ e.MeansIn l.precedence (.chain x first) ∧ R second

variable {l : Level} {e a b : Formula}

theorem ReadsOperand.chain (h : l.ReadsOperand v e) (hne : ∀ op a b, e = .binary op a b → op.precedence ≠ l.precedence) :
    l.ReadsChain v e := by
  intro o o' R ho hR
  rw [← Formula.renderIn_succ hne]
  refine ⟨o, (h o ho).imp fun x hx => hR.imp fun more hmore => ?_⟩
  exact ⟨[], more, rfl, hx.of_succ hne, hmore⟩

theorem ReadsChain.binary {op : Operation} (ha : l.ReadsChain v a) (hb : l.ReadsOperand v b) (hsolid : b.Readable)
    (hop : op.precedence = l.precedence) : l.ReadsChain v (.binary op a b) := by
  intro o o' R ho hR
  have htext : ((Formula.binary op a b).renderIn v l.precedence).toList ++ o = (a.renderIn v l.precedence).toList
      ++ ' ' :: (op.symbol.toList ++ ' ' :: ((b.renderIn v (l.precedence + 1)).toList ++ o)) := by
    rw [Formula.renderIn]
    simp [hop]
  have hmore : ReadsMore true l.item (' ' :: (op.symbol.toList ++ ' ' :: ((b.renderIn v (l.precedence + 1)).toList ++ o)))
      o' fun more => ∃ y second, more = (op, y) :: second ∧ b.MeansIn (l.precedence + 1) y ∧ R second := by
    refine Reads.more l.productive l.takes (m := o) ?_
    rw [gap_true, Blank.skipText_blank rfl, solid_symbol]
    refine Reads.ap (Reads.map ((l.reads_operator op hop _).imp ?_))
    rintro _ rfl
    rw [gap_true, Blank.skipText_blank rfl, (hsolid.solid v _ _).skipText]
    exact (hb o ho).imp fun y hy => hR.imp fun second hsecond => ⟨y, second, rfl, hy, hsecond⟩
  obtain ⟨m, hm⟩ := ha _ o' _ (l.ends_operator op hop _) hmore
  rw [htext]
  refine ⟨m, hm.imp fun x hx => hx.imp ?_⟩
  rintro _ ⟨first, _, rfl, hfirst, y, second, rfl, hy, hsecond⟩
  refine ⟨first ++ [(op, y)], second, by simp, ?_, hsecond⟩
  rw [Source.Formula.chain, List.foldl_append, ← hop]
  exact Formula.means_binary (hop ▸ hfirst) (hop ▸ hy)

/-- Where the chain does not go on, the formula is what the chain means. -/
theorem ReadsChain.whole {α : Type} {f : Source.Formula → List (Operation × Source.Formula) → α} {Q : α → Prop}
    (h : l.ReadsChain v e) (ho : l.Ends o) (hstop : Fails true l.operator (Blank.skipText o))
    (hQ : ∀ x more, e.MeansIn l.precedence (.chain x more) → Q (f x more)) :
    Reads true (f <$> l.operand <*> .many l.item) ((e.renderIn v l.precedence).toList ++ o) o Q := by
  obtain ⟨m, hm⟩ := h o o (· = []) ho (Fails.more (Fails.ap_left (Fails.map hstop)) rfl)
  refine Reads.ap (Reads.map (hm.imp fun x hx => ?_))
  refine (hx.imp ?_).many l.productive l.takes
  rintro _ ⟨first, _, rfl, hfirst, rfl⟩
  rw [List.append_nil]
  exact hQ x first hfirst

end Level

theorem reads_multiplicative (op : Operation) (h : op.precedence = 2) (m : List Char) :
    Reads true (call .multiplicativeOperator) (op.symbol.toList ++ ' ' :: m) (' ' :: m) (· = op) := by
  refine Reads.plain rfl (Reads.map (reads_oneOf (t := op.symbol) ?_ rfl ?_))
  · cases op <;> first | rfl | cases h
  · cases op <;> first | rfl | cases h

theorem reads_additive (op : Operation) (h : op.precedence = 1) (m : List Char) :
    Reads true (call .additiveOperator) (op.symbol.toList ++ ' ' :: m) (' ' :: m) (· = op) := by
  refine Reads.plain rfl (Reads.map (reads_oneOf (t := op.symbol) ?_ rfl ?_))
  · cases op <;> first | rfl | cases h
  · cases op <;> first | rfl | cases h

theorem fails_symbols {α : Type} {table : List (String × α)} {other : α} {fronts : List Char} {c : Char}
    (hfronts : ∀ t ∈ table.map Prod.fst, t.toList.head?.any (· ∈ fronts) = true) (hc : c ∉ fronts) (cs : List Char) :
    Fails true (oneOfSymbols table other) (c :: cs) := by
  refine Fails.map (fails_oneOf fun t ht => ?_)
  obtain ⟨d, hhead, hd⟩ := (Option.any_eq_true _ _).mp (hfronts t ht)
  obtain ⟨ds, hds⟩ := List.head?_eq_some_iff.mp hhead
  rintro ⟨rest, hrest⟩
  rw [hds] at hrest
  obtain ⟨rfl, -⟩ := List.cons.inj hrest
  exact hc (of_decide_eq_true hd)

def productLevel : Level where
  precedence := 2
  operand := call .unary
  operator := call .multiplicativeOperator
  Ends := EndsTerm
  productive := rfl
  takes := rfl
  reads_operator := reads_multiplicative
  ends_operator _ _ _ := endsTerm_cons (by simp [terminators]) _

theorem fails_multiplicative {c : Char} (hc : c ∉ ['*', '/', '%', '×', '÷']) (cs : List Char) :
    Fails true (call .multiplicativeOperator) (c :: cs) :=
  Fails.call (fails_symbols (by decide) hc cs)

theorem fails_additive {c : Char} (hc : c ∉ ['+', '-']) (cs : List Char) :
    Fails true (call .additiveOperator) (c :: cs) :=
  Fails.call (fails_symbols (by decide) hc cs)

theorem ends_additive (op : Operation) (h : op.precedence = 1) (m : List Char) :
    EndsTerm (' ' :: (op.symbol.toList ++ ' ' :: m)) ∧
      Fails true (call .multiplicativeOperator) (Blank.skipText (' ' :: (op.symbol.toList ++ ' ' :: m))) := by
  refine ⟨endsTerm_cons (by simp [terminators]) _, ?_⟩
  rw [Blank.skipText_blank rfl, solid_symbol]
  cases op with
  | add => exact fails_multiplicative (by decide) _
  | sub => exact fails_multiplicative (by decide) _
  | mul => cases h
  | div => cases h
  | rem => cases h

def sumLevel : Level where
  precedence := 1
  operand := call .product
  operator := call .additiveOperator
  Ends o := EndsTerm o ∧ Fails true (call .multiplicativeOperator) (Blank.skipText o)
  productive := rfl
  takes := rfl
  reads_operator := reads_additive
  ends_operator := ends_additive

/-- What can stand behind a formula. -/
structure EndsFormula (o : List Char) : Prop where
  endsTerm : EndsTerm o
  multiplicative : Fails true (call .multiplicativeOperator) (Blank.skipText o)
  additive : Fails true (call .additiveOperator) (Blank.skipText o)

variable {e : Formula}

/-- The formula is read as its signs and what they stand before. -/
def ReadsSigns (v : Vocabulary) (e : Formula) : Prop :=
  ∀ o, EndsTerm o → ∃ m, ReadsMore true (call .negate) ((e.renderIn v 3).toList ++ o) m fun signs =>
    Reads true (call .primary) (gap true m) o fun x => e.MeansIn 3 (signs.foldl (fun e _ => .negate e) x)

theorem foldl_negate (signs : List Unit) (x : Source.Formula) :
    signs.foldl (fun e _ => Source.Formula.negate e) (.negate x) =
      .negate (signs.foldl (fun e _ => Source.Formula.negate e) x) := by
  induction signs generalizing x with
  | nil => rfl
  | cons _ signs ih => exact ih (.negate x)

theorem readsSigns_negate (h : ReadsSigns v e) : ReadsSigns v (.negate e) := by
  intro o ho
  obtain ⟨m, hm⟩ := h o ho
  have htext : ((Formula.negate e).renderIn v 3).toList ++ o = '-' :: ((e.renderIn v 3).toList ++ o) := by
    simp [Formula.renderIn]
  have hsign : Reads true (call .negate) ('-' :: ((e.renderIn v 3).toList ++ o)) ((e.renderIn v 3).toList ++ o)
      fun _ => True := Reads.plain rfl (Reads.map (reads_token (t := "-") trivial))
  rw [htext]
  refine ⟨m, Reads.more rfl rfl (m := (e.renderIn v 3).toList ++ o) ?_⟩
  rw [gap_true, Blank.skipText_stop rfl (by decide)]
  refine hsign.imp fun _ _ => hm.imp fun signs hsigns => hsigns.imp fun x hx => ?_
  rw [List.foldl_cons, foldl_negate]
  exact Formula.means_negate hx

theorem readsSigns_of_primary (he : e.Readable)
    (hfront : ∀ o, ∃ c cs, (e.renderIn v 3).toList ++ o = c :: cs ∧ c ≠ '-')
    (h : ∀ o, EndsTerm o → Reads true (call .primary) ((e.renderIn v 3).toList ++ o) o (e.MeansIn 3)) :
    ReadsSigns v e := by
  intro o ho
  have hskip := (he.solid v 3 o).skipText
  refine ⟨_, Fails.more ?_ ?_⟩
  · obtain ⟨c, cs, hcs, hc⟩ := hfront o
    rw [gap_true, hskip, hcs]
    exact Fails.call (Fails.map (fails_token_cons (d := '-') rfl hc cs))
  · rw [gap_true, hskip]
    exact h o ho

theorem ReadsSigns.operand (he : e.Readable) (h : ReadsSigns v e) : productLevel.ReadsOperand v e := by
  intro o ho
  obtain ⟨m, hm⟩ := h o ho
  have hmany := hm.many rfl rfl
  rw [gap_true, (he.solid v 3 o).skipText] at hmany
  exact Reads.plain rfl (Reads.ap (Reads.map hmany))

theorem Level.ReadsChain.product (h : productLevel.ReadsChain v e) : sumLevel.ReadsOperand v e :=
  fun _ ho => Reads.plain rfl (h.whole ho.1 ho.2 fun _ _ hx => hx)

theorem Level.ReadsChain.arithmetic (h : sumLevel.ReadsChain v e) {o : List Char} (ho : EndsFormula o) :
    Reads true (call .arithmetic) ((e.render v).toList ++ o) o e.Means := by
  have htext : e.render v = e.renderIn v 1 := (Formula.renderIn_succ fun op _ _ _ => by cases op <;> decide).symm
  rw [htext]
  refine Reads.plain rfl (Reads.placed (h.whole ⟨ho.endsTerm, ho.multiplicative⟩ ho.additive fun x more hx s => ?_))
  exact Formula.means_group (hx.of_succ fun op _ _ _ => by cases op <;> decide) s

theorem endsFormula_close (o : List Char) : EndsFormula (')' :: o) := by
  have hclose : Blank.skipText (')' :: o) = ')' :: o := Blank.skipText_stop rfl (by decide) o
  refine ⟨endsTerm_cons (by simp [terminators]) o, ?_, ?_⟩
  · rw [hclose]
    exact fails_multiplicative (by decide) o
  · rw [hclose]
    exact fails_additive (by decide) o

theorem readsSigns_parenthesized {op : Operation} {a b : Formula} (he : (Formula.binary op a b).Readable)
    (h : sumLevel.ReadsChain v (.binary op a b)) : ReadsSigns v (.binary op a b) := by
  have hop : op.precedence < 3 := by cases op <;> decide
  have htext (o : List Char) : ((Formula.binary op a b).renderIn v 3).toList ++ o
      = '(' :: (((Formula.binary op a b).render v).toList ++ ')' :: o) := by
    rw [Formula.render, Formula.renderIn, Formula.renderIn, if_pos hop, if_neg (Nat.not_lt_zero _)]
    simp
  refine readsSigns_of_primary he (fun o => ⟨_, _, htext o, by decide⟩) fun o _ => ?_
  rw [htext]
  refine Reads.plain rfl (Fails.orRight (Fails.placed (Fails.map (fails_number_cons (by decide) (by decide) _)))
    (Fails.orRight (Fails.map (fails_var_cons (by decide) _)) (Fails.orRight (Fails.map (fails_string_cons (by decide) _))
      (Reads.left (m := ')' :: o) (Reads.right (reads_token (t := "(")
        (o := ((Formula.binary op a b).render v).toList ++ ')' :: o) ?_))))))
  rw [gap_true, Formula.render, (he.solid v 0 _).skipText]
  refine (h.arithmetic (endsFormula_close o)).imp fun x hx => ?_
  rw [gap_true, Blank.skipText_stop rfl (by decide)]
  exact reads_token (t := ")") (hx.parenthesized hop)

theorem number_front_of_nonneg {a : Decimal} (ha : 0 ≤ a.coefficient) (o : List Char) :
    ∃ c cs, a.text.toList ++ o = c :: cs ∧ isDigit c = true := by
  have hsign : ¬ a.normalize.coefficient < 0 := Int.not_lt.mpr (Decimal.normalize_nonneg ha)
  obtain ⟨d, ds, hds⟩ := List.exists_cons_of_ne_nil a.shownWhole_ne_nil
  rw [Decimal.text_toList, decide_eq_false hsign, Decimal.plainForm, hds]
  exact ⟨d, _, rfl, isDigit_of_isDigit (a.isDigit_shownWhole d (by simp [hds]))⟩

theorem readsSigns_number {a : Decimal} (ha : 0 ≤ a.coefficient) : ReadsSigns v (.term (.const (.number a))) := by
  have htext : (Formula.term (.const (.number a))).renderIn v 3 = a.text := by
    rw [Formula.renderIn, Term.render]
    rfl
  refine readsSigns_of_primary (.number ha) (fun o => ?_) fun o ho => ?_
  · obtain ⟨c, cs, hi, hc⟩ := number_front_of_nonneg ha o
    refine ⟨c, cs, htext ▸ hi, ?_⟩
    rintro rfl
    exact absurd hc (by decide)
  · rw [htext]
    refine Reads.plain rfl (Reads.orLeft (Reads.placed (Reads.map ?_)))
    exact (reads_number a ho.endsNumeral).imp fun y hy s => hy ▸ Formula.means_number a s

theorem readsSigns_var {x : String} (hx : VisibleName x) : ReadsSigns v (.term (.var x)) := by
  have htext (o : List Char) : ((Formula.term (.var x)).renderIn v 3).toList ++ o = '?' :: (x.toList ++ o) := by
    rw [Formula.renderIn, Term.render, if_neg (by simp [hx.isHidden])]
    simp
  refine readsSigns_of_primary (.var hx) (fun o => ⟨_, _, htext o, by decide⟩) fun o ho => ?_
  rw [htext]
  refine Reads.plain rfl (Fails.orRight (Fails.placed (Fails.map (fails_number_cons (by decide) (by decide) _)))
    (Reads.orLeft (Reads.map ?_)))
  exact (reads_visible hx ho.stops).imp (by rintro _ rfl; exact Formula.means_var hx.isHidden)

theorem readsSigns_text (content : String) : ReadsSigns v (.term (.const (.text content))) := by
  have htext : (Formula.term (.const (.text content))).renderIn v 3 = Value.quoted content := by
    rw [Formula.renderIn, Term.render]
    rfl
  have hfront (o : List Char) : (Value.quoted content).toList ++ o
      = '"' :: (content.toList.flatMap Value.escaped ++ '"' :: o) := by
    simp [Value.quoted]
  refine readsSigns_of_primary (.text content) (fun o => ⟨_, _, htext ▸ hfront o, by decide⟩) fun o _ => ?_
  have hnumber : Fails true (call .number) ((Value.quoted content).toList ++ o) := by
    rw [hfront]
    exact fails_number_cons (by decide) (by decide) _
  have hvar : Fails true (call .var) ((Value.quoted content).toList ++ o) := by
    rw [hfront]
    exact fails_var_cons (by decide) _
  rw [htext]
  refine Reads.plain rfl (Fails.orRight (Fails.placed (Fails.map hnumber)) (Fails.orRight (Fails.map hvar)
    (Reads.orLeft (Reads.map ?_))))
  exact (reads_string content o).imp (by rintro _ rfl; exact Formula.means_text _)

theorem reads_formula_levels (v : Vocabulary) (he : e.Readable) :
    ReadsSigns v e ∧ productLevel.ReadsChain v e ∧ sumLevel.ReadsChain v e := by
  -- what is no chain itself is the only operand of one
  have hsingle {e : Formula} (he : e.Readable) (hne : ∀ op a b, e ≠ .binary op a b) (h : ReadsSigns v e) :
      ReadsSigns v e ∧ productLevel.ReadsChain v e ∧ sumLevel.ReadsChain v e := by
    have hproduct := (h.operand he).chain fun op a b hop => absurd hop (hne op a b)
    exact ⟨h, hproduct, hproduct.product.chain fun op a b hop => absurd hop (hne op a b)⟩
  induction he with
  | number ha => exact hsingle (.number ha) (by rintro _ _ _ ⟨⟩) (readsSigns_number ha)
  | var hx => exact hsingle (.var hx) (by rintro _ _ _ ⟨⟩) (readsSigns_var hx)
  | text content => exact hsingle (.text content) (by rintro _ _ _ ⟨⟩) (readsSigns_text content)
  | negate he ih => exact hsingle (.negate he) (by rintro _ _ _ ⟨⟩) (readsSigns_negate ih.1)
  | binary op ha hb iha ihb =>
    have hreadable := Formula.Readable.binary op ha hb
    by_cases hop : op.precedence = 1
    · have hsum := iha.2.2.binary ihb.2.1.product hb hop
      have hsigns := readsSigns_parenthesized hreadable hsum
      refine ⟨hsigns, (hsigns.operand hreadable).chain ?_, hsum⟩
      rintro _ _ _ ⟨⟩
      exact ne_of_eq_of_ne hop (by decide)
    · have hop2 : op.precedence = 2 := by
        cases op <;> first | rfl | exact absurd rfl hop
      have hproduct : productLevel.ReadsChain v _ := iha.2.1.binary (ihb.1.operand hb) hb hop2
      have hsum := hproduct.product.chain (by rintro _ _ _ ⟨⟩; exact hop)
      exact ⟨readsSigns_parenthesized hreadable hsum, hproduct, hsum⟩

theorem reads_formula (v : Vocabulary) (he : e.Readable) {o : List Char} (ho : EndsFormula o) :
    Reads true (call .arithmetic) ((e.render v).toList ++ o) o e.Means :=
  (reads_formula_levels v he).2.2.arithmetic ho

end Language

end BilingualLogic
