import BilingualLogic.Proofs.Likeness.Goal
import BilingualLogic.Sequence
import BilingualLogic.Evaluation

/-!
Formulas and lists under alike bindings. The value of a formula does not depend on what variables are called, as long
as the variables that texts name correspond to themselves; and the predicates on lists have alike answers.
-/

namespace BilingualLogic

/-- The correspondence of names is one to one, the variables that texts name correspond to themselves, and names of
calls that correspond are names of the same keyword. -/
structure Likeness.Proper (L : Likeness) : Prop where
  names : OneToOne L.names
  texts {content : String} {e : Formula} : L.texts content → Formula.parse content = .ok e → e.Alike L e
  calls {a b : String} : L.calls a b → Keyword.ofSpelling? a = Keyword.ofSpelling? b

variable {L : Likeness} {s s' : Substitution}

namespace Formula

theorem valueBy_alike (hs : s.Alike L s') {v v' : String → Option Decimal}
    (hv : ∀ content, L.texts content → v content = v' content) {e e' : Formula} (h : e.Alike L e') :
    valueBy s v e = valueBy s' v' e' := by
  induction h with
  | @term t u htu =>
    have hwalk := hs.walk htu
    rw [valueBy, valueBy]
    generalize s.walk t = t at hwalk ⊢
    generalize s'.walk u = u at hwalk ⊢
    cases hwalk with
    | @const w hw =>
      cases w with
      | text content => simp only [hv content (hw content rfl)]
      | _ => rfl
    | _ => rfl
  | negate _ ih => rw [valueBy, valueBy, ih]
  | binary _ _ iha ihb => rw [valueBy, valueBy, iha, ihb]

theorem textValue_zero (s : Substitution) (content : String) : textValue s 0 content = none := by
  delta textValue
  rfl

theorem textValue_succ (s : Substitution) (n : Nat) (content : String) : textValue s (n + 1) content =
    match Formula.parse content with
    | .ok e => valueBy s (textValue s n) e
    | .error _ => none := by
  -- the equations of the definition would be found by running the parser
  delta textValue
  rfl

theorem textValue_alike (hL : L.Proper) (hs : s.Alike L s') (n : Nat) (content : String) (h : L.texts content) :
    textValue s n content = textValue s' n content := by
  induction n generalizing content with
  | zero => rw [textValue_zero, textValue_zero]
  | succ n ih =>
    rw [textValue_succ, textValue_succ]
    cases hparse : Formula.parse content with
    | error _ => rfl
    | ok e => exact valueBy_alike hs ih (hL.texts h hparse)

theorem value_alike (hL : L.Proper) (hs : s.Alike L s') {e e' : Formula} (h : e.Alike L e') :
    e.value s = e'.value s' :=
  valueBy_alike hs (textValue_alike hL hs maxTextNesting) h

theorem unifyValue_alike (hL : L.Proper) (hs : s.Alike L s') {t u : Term} (htu : Term.Alike L t u) {e e' : Formula}
    (h : e.Alike L e') (n : Nat) : AlikeResults L (e.unifyValue n t s) (e'.unifyValue n u s') := by
  rw [unifyValue, unifyValue, value_alike hL hs h]
  split
  · exact unify_alike hL.names n htu (.const (Value.textIn_number _)) hs
  · exact .some .none

end Formula

theorem Comparison.holds_alike (hL : L.Proper) (hs : s.Alike L s') {a a' b b' : Formula} (ha : a.Alike L a')
    (hb : b.Alike L b') (op : Comparison) : op.holds a b s = op.holds a' b' s' := by
  rw [holds, holds, Formula.value_alike hL hs ha, Formula.value_alike hL hs hb]

namespace Term

theorem Alike.loose (hL : OneToOne L.names) {a a' : Term} (ha : Alike L a a') {b b' : Term} (hb : Alike L b b') :
    a.loose b = a'.loose b' := by
  have all {as as' bs bs' : List Term}
      (has : List.Forall₂ (fun a a' => ∃ _ : Alike L a a', ∀ {b b'}, Alike L b b' → a.loose b = a'.loose b') as as')
      (hbs : List.Forall₂ (Alike L) bs bs') : looseAll as bs = looseAll as' bs' := by
    induction has generalizing bs bs' with
    | nil => cases hbs <;> rfl
    | cons h _ ih =>
      cases hbs with
      | nil => rfl
      | cons hb hbs => rw [looseAll, looseAll, h.2 hb, ih hbs]
  induction ha using Alike.induct generalizing b b' with
  | var hx =>
    cases hb with
    | var hy =>
      rw [Term.loose, Term.loose, Bool.beq_eq_decide_eq, Bool.beq_eq_decide_eq]
      exact decide_eq_decide.mpr (hL _ _ _ _ hx hy)
    | _ => simp [Term.loose]
  | const _ => cases hb <;> simp [Term.loose]
  | list _ ih =>
    cases hb with
    | list hbs =>
      rw [Term.loose, Term.loose]
      exact all ih hbs
    | _ => simp [Term.loose]
  | pattern _ _ ih ihr =>
    cases hb with
    | pattern hbs hr => rw [Term.loose, Term.loose, all ih hbs, ihr hr]
    | _ => simp [Term.loose]

end Term

namespace Sequence

/-- Both have failed with the same error, or have alike answers one by one. -/
inductive AlikeAnswers (L : Likeness) :
    Except Error (List Substitution) → Except Error (List Substitution) → Prop
  | ok {bs bs' : List Substitution} : List.Forall₂ (Substitution.Alike L) bs bs' → AlikeAnswers L (.ok bs) (.ok bs')
  | error (e : Error) : AlikeAnswers L (.error e) (.error e)

variable {n : Nat}

theorem items_alike (hs : s.Alike L s') {t u : Term} (htu : Term.Alike L t u) :
    Option.Rel (Option.Rel (List.Forall₂ (Term.Alike L))) (items s n t) (items s' n u) := by
  induction n generalizing t u with
  | zero => exact .none
  | succ n ih =>
    rw [items, items]
    have hwalk := hs.walk htu
    generalize s.walk t = t at hwalk ⊢
    generalize s'.walk u = u at hwalk ⊢
    cases hwalk with
    | var _ => exact .some .none
    | const _ => exact .some .none
    | list has => exact .some (.some has)
    | pattern has hr =>
      have hrest := ih hr
      dsimp only
      generalize items s n _ = r at hrest ⊢
      generalize items s' n _ = r' at hrest ⊢
      cases hrest with
      | none => exact .none
      | some h =>
        cases h with
        | none => exact .some .none
        | some h => exact .some (.some (List.rel_append has h))

theorem answers_alike {α β : Type} {P : α → β → Prop} {f : α → Bounded (Option Substitution)}
    {g : β → Bounded (Option Substitution)} (hfg : ∀ x y, P x y → AlikeResults L (f x) (g y)) {xs : List α}
    {ys : List β} (h : List.Forall₂ P xs ys) {done done' : List Substitution}
    (hdone : List.Forall₂ (Substitution.Alike L) done done') :
    Option.Rel (List.Forall₂ (Substitution.Alike L)) (answers f done xs) (answers g done' ys) := by
  induction h generalizing done done' with
  | nil => exact .some (List.rel_reverse hdone)
  | @cons x y xs ys hxy _ ih =>
    rw [answers, answers]
    have hrel := hfg x y hxy
    generalize f x = r at hrel ⊢
    generalize g y = r' at hrel ⊢
    cases hrel with
    | none => exact .none
    | some h =>
      cases h with
      | none => exact ih hdone
      | some h => exact ih (.cons h hdone)

theorem alike_toList {r r' : Option Substitution} (h : Option.Rel (Substitution.Alike L) r r') :
    AlikeAnswers L (.ok r.toList) (.ok r'.toList) := by
  cases h with
  | none => exact .ok .nil
  | some h => exact .ok (.cons h .nil)

theorem member_alike (hL : OneToOne L.names) (hs : s.Alike L s') {x x' xs xs' : Term} (hx : Term.Alike L x x')
    (hxs : Term.Alike L xs xs') :
    Option.Rel (List.Forall₂ (Substitution.Alike L)) (member n x xs s) (member n x' xs' s') := by
  rw [member, member]
  have hitems := items_alike (n := n) hs hxs
  generalize items s n xs = r at hitems ⊢
  generalize items s' n xs' = r' at hitems ⊢
  cases hitems with
  | none => exact .none
  | some h =>
    cases h with
    | none => exact .some .nil
    | some h => exact answers_alike (fun a a' ha => unify_alike hL n hx ha hs) h .nil

section Append

variable {front front' back back' whole whole' : Term}

theorem splits_alike (hL : OneToOne L.names) (hs : s.Alike L s') (hf : Term.Alike L front front')
    (hb : Term.Alike L back back') (hw : Term.Alike L whole whole') :
    Option.Rel (AlikeAnswers L) (append.splits n front back whole s) (append.splits n front' back' whole' s') := by
  rw [append.splits, append.splits]
  have hitems := items_alike (n := n) hs hw
  generalize items s n whole = r at hitems ⊢
  generalize items s' n whole' = r' at hitems ⊢
  cases hitems with
  | none => exact .none
  | some h =>
    cases h with
    | none => exact .some (.ok .nil)
    | some has =>
      dsimp only
      rw [has.length_eq]
      refine Option.Rel.map (answers_alike (P := Eq) ?_ (List.forall₂_same.mpr fun _ _ => rfl) .nil)
        fun _ _ h => .ok h
      rintro k _ rfl
      have hfront := unify_alike hL n hf (.list (List.forall₂_take k has)) hs
      generalize unify n front _ s = r at hfront ⊢
      generalize unify n front' _ s' = r' at hfront ⊢
      cases hfront with
      | none => exact .none
      | some h =>
        cases h with
        | none => exact .some .none
        | some h => exact unify_alike hL n hb (.list (List.forall₂_drop k has)) h

theorem append_alike (hL : OneToOne L.names) (limits : Limits) (hs : s.Alike L s') (hf : Term.Alike L front front')
    (hb : Term.Alike L back back') (hw : Term.Alike L whole whole') : Option.Rel (AlikeAnswers L)
      (append limits n front back whole s) (append limits n front' back' whole' s') := by
  rw [append, append]
  have hsplits := splits_alike (n := n) hL hs hf hb hw
  have hfronts := items_alike (n := n) hs hf
  have hbacks := items_alike (n := n) hs hb
  generalize items s n front = r at hfronts ⊢
  generalize items s' n front' = r' at hfronts ⊢
  generalize items s n back = q at hbacks ⊢
  generalize items s' n back' = q' at hbacks ⊢
  cases hfronts with
  | none => exact .none
  | some hfronts =>
    cases hbacks with
    | none => exact .none
    | some hbacks =>
      cases hfronts with
      | none => exact hsplits
      | some has =>
        cases hbacks with
        | none => exact hsplits
        | some hbs =>
          dsimp only
          rw [has.length_eq, hbs.length_eq]
          split
          · exact .some (.error _)
          · exact Option.Rel.map (unify_alike hL n hw (.list (List.rel_append has hbs)) hs) fun _ _ h => alike_toList h

end Append

theorem size?_alike (hs : s.Alike L s') {t u : Term} (htu : Term.Alike L t u) : size? s t = size? s' u := by
  rw [size?, size?]
  have hwalk := hs.walk htu
  generalize s.walk t = t at hwalk ⊢
  generalize s'.walk u = u at hwalk ⊢
  cases hwalk <;> rfl

theorem freshItems_alike {copy copy' : Nat}
    (hnames : ∀ x, L.names (Clause.renamed copy x) (Clause.renamed copy' x)) (n : Nat) :
    List.Forall₂ (Term.Alike L) (freshItems copy n) (freshItems copy' n) :=
  Term.forall₂_map fun i _ => .var (hnames ("_L" ++ toString i))

theorem length_alike (hL : OneToOne L.names) (limits : Limits) {copy copy' : Nat}
    (hnames : ∀ x, L.names (Clause.renamed copy x) (Clause.renamed copy' x)) (hs : s.Alike L s')
    {list list' count count' : Term} (hl : Term.Alike L list list') (hc : Term.Alike L count count') :
    Option.Rel (AlikeAnswers L) (length limits n copy list count s) (length limits n copy' list' count' s') := by
  rw [length, length, size?_alike hs hc]
  have hvar : (s.walk list).isVar = (s'.walk list').isVar := by
    have hwalk := hs.walk hl
    generalize s.walk list = t at hwalk ⊢
    generalize s'.walk list' = u at hwalk ⊢
    cases hwalk <;> rfl
  rw [hvar]
  have hitems := items_alike (n := n) hs hl
  generalize items s n list = r at hitems ⊢
  generalize items s' n list' = r' at hitems ⊢
  cases hitems with
  | none => exact .none
  | some h =>
    cases h with
    | none =>
      dsimp only
      split
      · split
        · exact .some (.ok .nil)
        · split
          · exact .some (.error _)
          · exact Option.Rel.map (unify_alike hL n hl (.list (freshItems_alike hnames _)) hs)
              fun _ _ h => alike_toList h
      · exact .some (.ok .nil)
    | some has =>
      dsimp only
      rw [has.length_eq]
      split
      · exact Option.Rel.map (unify_alike hL n hc (.const (Value.textIn_number _)) hs) fun _ _ h => alike_toList h
      · exact .some (.ok .nil)

theorem distinctFrom_alike (hL : OneToOne L.names) {kept kept' as as' : List Term}
    (hkept : List.Forall₂ (Term.Alike L) kept kept') (has : List.Forall₂ (Term.Alike L) as as') :
    List.Forall₂ (Term.Alike L) (distinctFrom kept as) (distinctFrom kept' as') := by
  induction has generalizing kept kept' with
  | nil => exact List.rel_reverse hkept
  | @cons a a' as as' ha _ ih =>
    have hany : kept.any (·.loose a) = kept'.any (·.loose a') := by
      induction hkept with
      | nil => rfl
      | cons h _ ih => rw [List.any_cons, List.any_cons, h.loose hL ha, ih]
    rw [distinctFrom, distinctFrom, hany]
    split
    · exact ih hkept
    · exact ih (.cons ha hkept)

end Sequence

theorem Collection.arrange_alike (hL : OneToOne L.names) (kind : Collection) {as as' : List Term}
    (h : List.Forall₂ (Term.Alike L) as as') :
    List.Forall₂ (Term.Alike L) (kind.arrange as) (kind.arrange as') := by
  cases kind with
  | setOf => exact Sequence.distinctFrom_alike hL .nil h
  | _ => exact h

end BilingualLogic
