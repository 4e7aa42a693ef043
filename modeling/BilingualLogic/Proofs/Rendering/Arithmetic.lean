import BilingualLogic.Proofs.Evaluation.Interchange
import BilingualLogic.Proofs.Loading.Nesting
import BilingualLogic.Proofs.Rendering.Formula

/-!
Formulas keep their values when they are written and read again. What is written for a number below zero is read as a
sign before a number, so what comes back is the formula with such signs in it.
-/

namespace BilingualLogic

open BilingualLogic.Language Decimal

namespace Source

variable {c : Context} {n depth : Nat}

theorem Reading.bind_error {α β : Type} {m : Reading α} {f : α → Reading β} {e : Error} (h : m c n = .error e) :
    (m >>= f) c n = .error e := by
  rw [bind_apply, h]
  rfl

/-- Wherever the source is read it is the formula, unless it nests deeper than the limit says. -/
def Formula.ReadsAs (x : Formula) (e : BilingualLogic.Formula) : Prop :=
  ∀ depth c n, x.read depth c n = .ok (e, n) ∨
    ∃ actual place, x.read depth c n = .error (.limit (.termDepth c.maxDepth actual place))

theorem Formula.readsAs_of_ok {x : Formula} {e : BilingualLogic.Formula} {k : Nat}
    (h : x.read depth c n = .ok (e, k)) : x.ReadsAs e := by
  induction x generalizing depth n e k with
  | number s numeral =>
    rw [read, readNumber] at h
    cases hvalue : Decimal.ofNumeral? (numeral.map asciiDigit) with
    | none =>
      rw [hvalue] at h
      cases h
    | some a =>
      rw [hvalue] at h
      cases h
      intro depth' c' n'
      rw [read, readNumber, hvalue]
      exact .inl rfl
  | var name =>
    cases h
    exact fun _ _ _ => .inl rfl
  | text content =>
    cases h
    exact fun _ _ _ => .inl rfl
  | negate x ih =>
    obtain ⟨a, l, hx, ha⟩ := bind_eq_ok h
    cases ha
    intro depth' c' n'
    rw [read]
    rcases ih hx depth' c' n' with hok | ⟨actual, place, herror⟩
    · exact .inl (bind_ok hok)
    · exact .inr ⟨actual, place, Reading.bind_error herror⟩
  | binary op x y ihx ihy =>
    obtain ⟨a, l, hx, h⟩ := bind_eq_ok h
    obtain ⟨b, l', hy, hb⟩ := bind_eq_ok h
    cases hb
    intro depth' c' n'
    rw [read]
    rcases ihx hx depth' c' n' with hok | ⟨actual, place, herror⟩
    · rw [bind_ok hok]
      rcases ihy hy depth' c' n' with hok | ⟨actual, place, herror⟩
      · exact .inl (bind_ok hok)
      · exact .inr ⟨actual, place, Reading.bind_error herror⟩
    · exact .inr ⟨actual, place, Reading.bind_error herror⟩
  | group s x ih =>
    obtain ⟨_, l, -, hx⟩ := bind_eq_ok h
    intro depth' c' n'
    rw [read]
    by_cases hdepth : depth' + 1 ≤ c'.maxDepth
    · rw [bind_ok (checkDepth_ok hdepth s)]
      exact ih hx (depth' + 1) c' n'
    · refine .inr ⟨depth' + 1, ⟨c'.source, s⟩, Reading.bind_error ?_⟩
      rw [Reading.checkDepth, if_pos (Nat.lt_of_not_le hdepth)]

end Source

namespace Formula

/-- The formulas that a clause can have which was asserted: with numbers below zero, but without hidden variables. -/
inductive Storable : Formula → Prop
  | number (a : Decimal) : Storable (.term (.number a))
  | text (content : String) : Storable (.term (.text content))
  | var {x : String} : VisibleName x → Storable (.term (.var x))
  | negate {a : Formula} : Storable a → Storable (.negate a)
  | binary (op : Operation) {a b : Formula} : Storable a → Storable b → Storable (.binary op a b)

/-- The formula with a sign before a number in place of every number below zero. -/
def signed : Formula → Formula
  | .term (.const (.number a)) => if a.coefficient < 0 then .negate (.term (.number a.neg)) else .term (.number a)
  | .term t => .term t
  | .negate a => .negate a.signed
  | .binary op a b => .binary op a.signed b.signed

variable {e : Formula}

theorem Storable.signed_readable (he : e.Storable) : e.signed.Readable := by
  induction he with
  | number a =>
    rw [Term.number, signed]
    split
    · next ha => exact .negate (.number (Int.neg_nonneg_of_nonpos (Int.le_of_lt ha)))
    · next ha => exact .number (Int.not_lt.mp ha)
  | text content => exact .text content
  | var hx => exact .var hx
  | negate _ ih => exact .negate ih
  | binary op _ _ iha ihb => exact .binary op iha ihb

theorem Storable.renderIn_signed (he : e.Storable) (v : Vocabulary) (outer : Nat) :
    e.signed.renderIn v outer = e.renderIn v outer := by
  induction he generalizing outer with
  | number a =>
    rw [Term.number, signed]
    split
    · next ha =>
      rw [← String.toList_inj]
      simp only [renderIn, Term.render, Term.number, Value.render, String.toList_append, text_of_neg ha]
      rfl
    · rfl
  | text content => rfl
  | var hx => rfl
  | negate _ ih => rw [signed, renderIn, renderIn, ih]
  | binary op _ _ iha ihb => simp only [signed, renderIn, iha, ihb]

theorem Storable.levels_signed (he : e.Storable) (outer : Nat) : e.signed.levels outer = e.levels outer := by
  induction he generalizing outer with
  | number a =>
    rw [Term.number, signed]
    split <;> rfl
  | text content => rfl
  | var hx => rfl
  | negate _ ih => exact ih 3
  | binary op _ _ iha ihb => simp only [signed, levels, iha, ihb]

theorem Storable.value_signed (he : e.Storable) (s : Substitution) : e.signed.value s = e.value s := by
  unfold value
  induction he with
  | number a =>
    rw [Term.number, signed]
    split
    · have hneg : a.neg.neg = a := by simp [neg]
      have hvalue (b : Decimal) : valueBy s (textValue s maxTextNesting) (.term (.number b)) = some b :=
        valueBy_of_number? (s.walk_const (.number b)) rfl
      change (valueBy s _ (.term (.number a.neg))).map neg = valueBy s _ (.term (.number a))
      rw [hvalue, hvalue, Option.map_some, hneg]
    · rfl
  | text content => rfl
  | var hx => rfl
  | negate _ ih => rw [signed, valueBy, valueBy, ih]
  | binary op _ _ iha ihb => rw [signed, valueBy, valueBy, iha, ihb]

/-- Without hidden variables, reading again changes the ends of numbers only. -/
theorem Readable.reread_interchangeable (he : e.Readable) : e.reread.Interchangeable e := by
  induction he with
  | @number a ha =>
    refine .term (.const (.loose (Value.named_of_ne (by rintro _ ⟨⟩)) (Value.named_of_ne (by rintro _ ⟨⟩)) ?_))
    exact (beq_iff _ _).mpr ((beq_iff _ _).mp a.beq_normalize).symm
  | @var x hx =>
    rw [reread, mapTerms, Term.reread, if_neg (by simp [hx.isHidden])]
    exact .refl _
  | text content => exact .refl _
  | negate _ ih => exact .negate ih
  | binary op _ _ iha ihb => exact .binary iha ihb

theorem levels_reread (e : Formula) (outer : Nat) : e.reread.levels outer = e.levels outer := by
  rw [reread]
  induction e generalizing outer with
  | term t => rfl
  | negate a ih => exact ih 3
  | binary op a b iha ihb => simp only [mapTerms, levels, iha, ihb]

theorem endsFormula_nil : EndsFormula [] := by
  have hnil {ts : List String} (hts : ∀ t ∈ ts, t.toList ≠ []) : ∀ t ∈ ts, ¬ t.toList <+: [] :=
    fun t ht hprefix => hts t ht (List.prefix_nil.mp hprefix)
  refine ⟨endsTerm_nil, ?_, ?_⟩
  · rw [Blank.skipText_nil]
    exact Fails.call (Fails.map (fails_oneOf (hnil (by decide))))
  · rw [Blank.skipText_nil]
    exact Fails.call (Fails.map (fails_oneOf (hnil (by decide))))

theorem Readable.parseRule_render (he : e.Readable) (v : Vocabulary) :
    ∃ y, Source.parseRule .formula "<formula>" (e.render v) = .ok y ∧ e.Means y := by
  have hread := reads_formula v he endsFormula_nil
  have hsolid := he.solid_render v []
  rw [List.append_nil] at hread hsolid
  refine parseRule_of_reads (o := []) "<formula>" (Reads.plain rfl (Reads.left (m := []) (Reads.right (reads_pure ?_))))
  rw [gap_true, hsolid.skipText]
  refine hread.imp fun y hy => ?_
  rw [gap_true, Blank.skipText_nil]
  exact Reads.call (reads_finish hy)

theorem Readable.parse_render (he : e.Readable) (v : Vocabulary) :
    (e.depth ≤ 100 → Formula.parse (e.render v) = .ok e.reread) ∧
    (100 < e.depth → ∃ actual place, Formula.parse (e.render v) = .error (.limit (.termDepth 100 actual place))) := by
  obtain ⟨y, hy, hmeans⟩ := he.parseRule_render v
  have hparse : Formula.parse (e.render v) =
      (y.read 0 ⟨"<formula>", 100⟩ 0 >>= fun r => Except.ok r.1 : Except Error Formula) := by
    change (Source.parseRule .formula "<formula>" (e.render v) >>= fun y => y.read 0 ⟨"<formula>", 100⟩ 0 >>= fun r =>
      Except.ok r.1) = _
    rw [hy]
    rfl
  rw [hparse]
  constructor
  · intro hdepth
    rw [hmeans 0 ⟨"<formula>", 100⟩ 0 (by simpa using hdepth)]
    rfl
  · intro hdepth
    -- where nesting is no obstacle the source is read, so nesting is the only obstacle
    have hreads := Source.Formula.readsAs_of_ok (hmeans 0 ⟨"<formula>", e.depth⟩ 0 (by simp))
    rcases hreads 0 ⟨"<formula>", 100⟩ 0 with hok | ⟨actual, place, herror⟩
    · have hbounded := (Source.whole_of_parseFormula hy).keeps_bounded 0 _ _ _ _ hok
      have hle := hbounded.depth
      rw [depth, levels_reread] at hle
      rw [depth] at hdepth
      dsimp only at hle
      omega
    · rw [herror]
      exact ⟨actual, place, rfl⟩

/-- A formula that is written and read again exceeds the limit of nesting if it nests deeper, and has the same value as
before, or as before none, if it does not. -/
theorem value_of_render (v : Vocabulary) (he : e.Storable) :
    (e.depth ≤ ({} : Limits).maxTermDepth → ∃ e', Formula.parse (e.render v) = .ok e' ∧
      ∀ s, SameNumber (e'.value s) (e.value s)) ∧
    (({} : Limits).maxTermDepth < e.depth → ∃ actual place,
      Formula.parse (e.render v) = .error (.limit (.termDepth ({} : Limits).maxTermDepth actual place))) := by
  have hrender : e.signed.render v = e.render v := he.renderIn_signed v 0
  have hdepth : e.signed.depth = e.depth := by rw [depth, depth, he.levels_signed]
  have hparse := he.signed_readable.parse_render v
  rw [hrender, hdepth] at hparse
  refine ⟨fun hle => ⟨_, hparse.1 hle, fun s => ?_⟩, hparse.2⟩
  rw [← he.value_signed s]
  exact value_interchangeable (.refl s) he.signed_readable.reread_interchangeable

/-- A number below zero, a sign before parentheses and a text that holds a formula. -/
theorem value_of_render_signs : ∃ e', Formula.parse "-5 - -(?X - \"3 - 1\")" = .ok e' ∧ ∀ s, SameNumber (e'.value s)
    ((Formula.binary .sub (.term (.number ⟨-5, 0, by decide, by decide⟩))
      (.negate (.binary .sub (.term (.var "X")) (.term (.text "3 - 1"))))).value s) := by
  have hx : VisibleName "X" := ⟨by decide, List.all_eq_true.mp (by decide), by decide⟩
  have he : (Formula.binary .sub (.term (.number ⟨-5, 0, by decide, by decide⟩))
      (.negate (.binary .sub (.term (.var "X")) (.term (.text "3 - 1"))))).Storable :=
    .binary .sub (.number _) (.negate (.binary .sub (.var hx) (.text _)))
  have htext : (Formula.binary .sub (.term (.number ⟨-5, 0, by decide, by decide⟩))
      (.negate (.binary .sub (.term (.var "X")) (.term (.text "3 - 1"))))).render .latin =
        "-5 - -(?X - \"3 - 1\")" := by
    cbv
  rw [← htext]
  exact (value_of_render .latin he).1 (by decide)

end Formula
end BilingualLogic
