import BilingualLogic.Proofs.Collection.Classes
import BilingualLogic.Proofs.Decimal.Operations
import BilingualLogic.Proofs.Decimal.Text
import BilingualLogic.Proofs.Likeness.Evaluation
import BilingualLogic.Proofs.Loading.Identifiers
import BilingualLogic.Proofs.Substitution.Aliases
import BilingualLogic.Proofs.Term.Reading

/-!
Values that unify are interchangeable in formulas. A text that is an identifier denotes no number and holds no formula,
so it has no value where an atom has none; and numerals of one number, however they are written, have its value.
-/

namespace BilingualLogic

open BilingualLogic.Language Decimal

/-- If the value is an atom, its name is an identifier. -/
def Value.Named (v : Value) : Prop := ∀ name, v = .atom name → isIdentifier name.toList = true

/-- The same value, or one that is loosely equal. -/
inductive Value.Interchangeable : Value → Value → Prop
  | refl (v : Value) : Interchangeable v v
  | loose {v w : Value} : v.Named → w.Named → v.loose w = true → Interchangeable v w

/-- The same term, but for constants that were replaced. -/
inductive Term.Interchangeable : Term → Term → Prop
  | var (x : String) : Interchangeable (.var x) (.var x)
  | const {v w : Value} : v.Interchangeable w → Interchangeable (.const v) (.const w)
  | list {as bs : List Term} : List.Forall₂ Interchangeable as bs → Interchangeable (.list as) (.list bs)
  | pattern {as bs : List Term} {a b : Term} : List.Forall₂ Interchangeable as bs → Interchangeable a b →
    Interchangeable (.pattern as a) (.pattern bs b)

theorem Term.Interchangeable.refl (t : Term) : t.Interchangeable t := by
  induction t with
  | var x => exact .var x
  | const v => exact .const (.refl v)
  | list as ih => exact .list (List.forall₂_same.mpr ih)
  | pattern as r ih ihr => exact .pattern (List.forall₂_same.mpr ih) ihr

inductive Formula.Interchangeable : Formula → Formula → Prop
  | term {t u : Term} : t.Interchangeable u → Interchangeable (.term t) (.term u)
  | negate {a b : Formula} : Interchangeable a b → Interchangeable (.negate a) (.negate b)
  | binary {op : Operation} {a a' b b' : Formula} : Interchangeable a a' → Interchangeable b b' →
    Interchangeable (.binary op a b) (.binary op a' b')

def Substitution.Interchangeable (s s' : Substitution) : Prop :=
  ∀ x, Option.Rel Term.Interchangeable (s.get? x) (s'.get? x)

theorem Value.named_of_ne {v : Value} (h : ∀ name, v ≠ .atom name) : v.Named := fun name hv => (h name hv).elim

namespace Value.Interchangeable

variable {v w : Value}

/-- Values that are not the same have one number, or are a text and an atom of one name. -/
theorem distinct (h : v.Interchangeable w) (hne : v ≠ w) :
    (∃ m n, v.number? = some m ∧ w.number? = some n ∧ m.toRat = n.toRat) ∨
      ∃ name, isIdentifier name.toList = true ∧ (v = .text name ∨ v = .atom name) ∧ (w = .text name ∨ w = .atom name) := by
  cases h with
  | refl => exact (hne rfl).elim
  | loose hv hw hloose =>
    cases v <;> cases w
    case number.number a b => exact .inl ⟨a, b, rfl, rfl, (beq_iff a b).mp hloose⟩
    case number.text a s =>
      simp only [Value.loose, Option.any_eq_true] at hloose
      obtain ⟨b, hb, heq⟩ := hloose
      exact .inl ⟨a, b, rfl, hb, ((beq_iff b a).mp heq).symm⟩
    case text.number s b =>
      simp only [Value.loose, Option.any_eq_true] at hloose
      obtain ⟨a, ha, heq⟩ := hloose
      exact .inl ⟨a, b, ha, rfl, (beq_iff a b).mp heq⟩
    case text.text s t =>
      simp only [Value.loose] at hloose
      split at hloose
      · next a b ha hb => exact .inl ⟨a, b, ha, hb, (beq_iff a b).mp hloose⟩
      · exact (hne (congrArg text (beq_iff_eq.mp hloose))).elim
    case text.atom s name =>
      obtain rfl : s = name := by simpa only [Value.loose, beq_iff_eq] using hloose
      exact .inr ⟨s, hw s rfl, .inl rfl, .inr rfl⟩
    case atom.text name s =>
      obtain rfl : name = s := by simpa only [Value.loose, beq_iff_eq] using hloose
      exact .inr ⟨name, hv name rfl, .inr rfl, .inl rfl⟩
    case atom.atom name name' => exact (hne (congrArg atom (beq_iff_eq.mp hloose))).elim
    case boolean.boolean a b => exact (hne (congrArg boolean (beq_iff_eq.mp hloose))).elim
    all_goals cases hloose

theorem loose_number (h : v.Interchangeable w) {a b : Decimal} (hab : a.toRat = b.toRat) :
    v.loose (.number a) = w.loose (.number b) := by
  have hright (v : Value) : v.loose (.number a) = v.loose (.number b) := by
    have hbeq (c : Decimal) : (c == a) = (c == b) := by
      rw [Bool.eq_iff_iff, beq_iff, beq_iff, hab]
    cases v <;> simp [Value.loose, hbeq]
  by_cases hne : v = w
  · rw [hne, hright]
  · rw [hright]
    rcases h.distinct hne with ⟨m, n, hm, hn, hmn⟩ | ⟨name, hname, hv, hw⟩
    · rw [Bool.eq_iff_iff, loose_iff_of_number? hm rfl, loose_iff_of_number? hn rfl, hmn]
    · have hnone := ofText?_of_startsWord (startsWord_of_isIdentifier hname)
      rcases hv with rfl | rfl <;> rcases hw with rfl | rfl <;> simp [Value.loose, hnone]

end Value.Interchangeable

namespace Substitution

variable {s s' : Substitution}

theorem mem_keys (s : Substitution) (x : String) : x ∈ s.bindings.keys ↔ (s.get? x).isSome := by
  rw [Std.TreeMap.mem_keys, Std.TreeMap.mem_iff_isSome_getElem?]
  rfl

theorem walk_const (s : Substitution) (v : Value) : s.walk (.const v) = .const v := walk_of_ends (by rintro _ ⟨⟩)

theorem size_eq_of_isSome (h : ∀ x, (s.get? x).isSome = (s'.get? x).isSome) : s.size = s'.size := by
  have hperm : s.bindings.keys.Perm s'.bindings.keys := by
    refine (List.perm_ext_iff_of_nodup Std.TreeMap.nodup_keys Std.TreeMap.nodup_keys).mpr fun x => ?_
    rw [mem_keys, mem_keys, h]
  rw [size, size, ← Std.TreeMap.length_keys, ← Std.TreeMap.length_keys, hperm.length_eq]

namespace Interchangeable

theorem refl (s : Substitution) : s.Interchangeable s := fun _ => Option.Rel.refl fun t _ => .refl t

theorem size_eq (h : s.Interchangeable s') : s.size = s'.size := by
  refine size_eq_of_isSome fun x => ?_
  have hx := h x
  generalize s.get? x = r at hx ⊢
  generalize s'.get? x = r' at hx ⊢
  cases hx <;> rfl

theorem follow (h : s.Interchangeable s') (n : Nat) {t u : Term} (htu : t.Interchangeable u) :
    (s.follow n t).Interchangeable (s'.follow n u) := by
  induction n generalizing t u with
  | zero => exact htu
  | succ n ih =>
    cases htu with
    | var x =>
      rw [Substitution.follow, Substitution.follow]
      have hx := h x
      generalize s.get? x = r at hx ⊢
      generalize s'.get? x = r' at hx ⊢
      cases hx with
      | none => exact .var x
      | some hx => exact ih hx
    | const hv => exact .const hv
    | list has => exact .list has
    | pattern has ha => exact .pattern has ha

theorem walk (h : s.Interchangeable s') {t u : Term} (htu : t.Interchangeable u) :
    (s.walk t).Interchangeable (s'.walk u) := by
  rw [Substitution.walk, Substitution.walk, h.size_eq]
  exact h.follow _ htu

end Interchangeable
end Substitution

namespace Formula

variable {s s' : Substitution}

/-- No formula is an identifier, as it would have to begin with a bare name. -/
theorem parse_of_isIdentifier {name : String} (h : isIdentifier name.toList = true) :
    ∃ e, Formula.parse name = .error e := by
  have hword := startsWord_of_isIdentifier h
  have hentry : Fails true (call .formula) name.toList := by
    refine Fails.call (Fails.left_left (Reads.fails_right (m := name.toList) (reads_pure ?_)))
    change Fails true (call .arithmetic) (Blank.skipText name.toList)
    rw [hword.solid.skipText]
    exact hword.fails_arithmetic
  obtain ⟨e, he⟩ := parseRule_of_fails "<formula>" hentry
  refine ⟨e, ?_⟩
  change (Source.parseRule .formula "<formula>" name >>= fun y => y.read 0 ⟨"<formula>", 100⟩ 0 >>= fun r =>
    Except.ok r.1) = _
  rw [he]
  rfl

theorem textValue_of_isIdentifier {name : String} (h : isIdentifier name.toList = true) (s : Substitution) (n : Nat) :
    textValue s n name = none := by
  cases n with
  | zero => exact textValue_zero s name
  | succ n =>
    obtain ⟨e, he⟩ := parse_of_isIdentifier h
    rw [textValue_succ, he]

section Values

variable {f f' : String → Option Decimal}

theorem valueBy_of_number? {t : Term} {v : Value} {a : Decimal} (ht : s.walk t = .const v) (hv : v.number? = some a) :
    valueBy s f (.term t) = some a := by
  rw [valueBy, ht]
  cases v with
  | text content =>
    rw [Value.number?] at hv
    simp only [hv]
  | _ => exact hv

theorem valueBy_of_isIdentifier {t : Term} {v : Value} {name : String} (ht : s.walk t = .const v)
    (hname : isIdentifier name.toList = true) (hv : v = .text name ∨ v = .atom name) (hf : f name = none) :
    valueBy s f (.term t) = none := by
  rw [valueBy, ht]
  rcases hv with rfl | rfl
  · simp only [ofText?_of_startsWord (startsWord_of_isIdentifier hname), hf]
  · rfl

theorem valueBy_interchangeable (hs : s.Interchangeable s') (hf : ∀ content, SameNumber (f content) (f' content))
    (hword : ∀ name, isIdentifier name.toList = true → f name = none)
    (hword' : ∀ name, isIdentifier name.toList = true → f' name = none) {e e' : Formula} (h : e.Interchangeable e') :
    SameNumber (valueBy s f e) (valueBy s' f' e') := by
  induction h with
  | @term t u htu =>
    have hwalk := hs.walk htu
    cases ht : s.walk t <;> cases hu : s'.walk u <;> rw [ht, hu] at hwalk <;> cases hwalk
    case const.const v w hvw =>
      by_cases hne : v = w
      · subst hne
        rw [valueBy, valueBy, ht, hu]
        cases v with
        | text content =>
          cases hcontent : ofText? content with
          | some a => simpa only [hcontent] using .refl (some a)
          | none => simpa only [hcontent] using hf content
        | _ => exact .refl _
      · rcases hvw.distinct hne with ⟨a, b, ha, hb, hab⟩ | ⟨name, hname, hv, hw⟩
        · rw [valueBy_of_number? ht ha, valueBy_of_number? hu hb]
          exact .some hab
        · rw [valueBy_of_isIdentifier ht hname hv (hword name hname),
            valueBy_of_isIdentifier hu hname hw (hword' name hname)]
          exact .none
    all_goals
      rw [valueBy, valueBy, ht, hu]
      exact .none
  | negate _ ih =>
    rw [valueBy, valueBy]
    exact Option.Rel.map ih fun _ _ h => neg_same h
  | @binary op a a' b b' _ _ iha ihb =>
    rw [valueBy, valueBy]
    generalize valueBy s f a = x at iha ⊢
    generalize valueBy s' f' a' = x' at iha ⊢
    generalize valueBy s f b = y at ihb ⊢
    generalize valueBy s' f' b' = y' at ihb ⊢
    cases iha with
    | none => exact .none
    | some ha =>
      cases ihb with
      | none => exact .none
      | some hb => exact op.apply_same ha hb

end Values

theorem Interchangeable.refl (e : Formula) : e.Interchangeable e := by
  induction e with
  | term t => exact .term (.refl t)
  | negate a ih => exact .negate ih
  | binary op a b iha ihb => exact .binary iha ihb

theorem textValue_interchangeable (hs : s.Interchangeable s') (n : Nat) (content : String) :
    SameNumber (textValue s n content) (textValue s' n content) := by
  induction n generalizing content with
  | zero =>
    rw [textValue_zero, textValue_zero]
    exact .none
  | succ n ih =>
    rw [textValue_succ, textValue_succ]
    cases Formula.parse content with
    | error _ => exact .none
    | ok e =>
      exact valueBy_interchangeable hs ih (fun _ h => textValue_of_isIdentifier h s n)
        (fun _ h => textValue_of_isIdentifier h s' n) (.refl e)

theorem value_interchangeable (hs : s.Interchangeable s') {e e' : Formula} (h : e.Interchangeable e') :
    SameNumber (e.value s) (e'.value s') :=
  valueBy_interchangeable hs (textValue_interchangeable hs maxTextNesting)
    (fun _ h => textValue_of_isIdentifier h s maxTextNesting) (fun _ h => textValue_of_isIdentifier h s' maxTextNesting)
    h

end Formula

theorem Comparison.holds_interchangeable {s s' : Substitution} (hs : s.Interchangeable s') (op : Comparison)
    {a a' b b' : Formula} (ha : a.Interchangeable a') (hb : b.Interchangeable b') : op.holds a b s = op.holds a' b' s' := by
  have hx := Formula.value_interchangeable hs ha
  have hy := Formula.value_interchangeable hs hb
  rw [holds, holds]
  generalize a.value s = x at hx ⊢
  generalize a'.value s' = x' at hx ⊢
  generalize b.value s = y at hy ⊢
  generalize b'.value s' = y' at hy ⊢
  cases hx with
  | none => rfl
  | some hx =>
    cases hy with
    | none => rfl
    | some hy =>
      dsimp only
      rw [order_eq, order_eq, hx, hy]

/-- Two ways in which unifying with a number ends: in a failure, with nothing new, or with a variable bound to numbers
that are equal. -/
inductive AssignsAlike (s s' : Substitution) : Option Substitution → Option Substitution → Prop
  | fails : AssignsAlike s s' none none
  | keeps : AssignsAlike s s' (some s) (some s')
  | binds (x : String) {a b : Decimal} : a.toRat = b.toRat →
    AssignsAlike s s' (some (s.bind x (.number a))) (some (s'.bind x (.number b)))

theorem unify_number_interchangeable {s s' : Substitution} (hs : s.Interchangeable s') (n : Nat) {t u : Term}
    (htu : t.Interchangeable u) {a b : Decimal} (hab : a.toRat = b.toRat) :
    Option.Rel (AssignsAlike s s') (unify n t (.number a) s) (unify n u (.number b) s') := by
  cases n with
  | zero => exact .none
  | succ n =>
    rw [unify, unify, Term.number, Term.number, Substitution.walk_const, Substitution.walk_const]
    have hwalk := hs.walk htu
    generalize s.walk t = t at hwalk ⊢
    generalize s'.walk u = u at hwalk ⊢
    cases hwalk with
    | var x => exact .some (.binds x hab)
    | @const v w hvw =>
      refine .some ?_
      rw [hvw.loose_number hab]
      split
      · exact .keeps
      · exact .fails
    | list _ => exact .some .fails
    | pattern _ _ => exact .some .fails

theorem Formula.unifyValue_interchangeable {s s' : Substitution} (hs : s.Interchangeable s') (n : Nat) {t t' : Term}
    (ht : t.Interchangeable t') {e e' : Formula} (he : e.Interchangeable e') :
    Option.Rel (AssignsAlike s s') (e.unifyValue n t s) (e'.unifyValue n t' s') := by
  have hvalue := value_interchangeable hs he
  rw [unifyValue, unifyValue]
  generalize e.value s = x at hvalue ⊢
  generalize e'.value s' = x' at hvalue ⊢
  cases hvalue with
  | none => exact .some .fails
  | @some a b hab =>
    refine unify_number_interchangeable hs n ht ?_
    rw [← (beq_iff _ _).mp a.beq_normalize, ← (beq_iff _ _).mp b.beq_normalize, hab]

/-- A formula has the same value after constants in it or in the bindings were replaced by loosely equal ones, or has
none before and after. So the same comparisons hold, and unifying with the value ends alike. -/
theorem Formula.interchange {s s' : Substitution} (hs : s.Interchangeable s') {e e' : Formula}
    (he : e.Interchangeable e') :
    SameNumber (e.value s) (e'.value s') ∧
    (∀ (op : Comparison) {a a' : Formula}, a.Interchangeable a' → op.holds e a s = op.holds e' a' s') ∧
    ∀ (n : Nat) {t t' : Term}, t.Interchangeable t' →
      Option.Rel (AssignsAlike s s') (e.unifyValue n t s) (e'.unifyValue n t' s') :=
  ⟨value_interchangeable hs he, fun op _ _ ha => op.holds_interchangeable hs he ha,
    fun n _ _ ht => unifyValue_interchangeable hs n ht he⟩

/-- Numerals of five in a binding and numerals of two in the formula. -/
theorem Formula.interchange_numerals : ∃ a b,
    (Formula.binary .mul (.term (.var "X")) (.term (.text "2"))).value ((∅ : Substitution).bind "X" (.text "5.0")) =
      some a ∧
    (Formula.binary .mul (.term (.var "X")) (.term (.text "+02."))).value ((∅ : Substitution).bind "X" (.text " 5e0")) =
      some b ∧
    a.toRat = b.toRat := by
  have numerals {x y : String} (h : (Value.text x).loose (.text y) = true) :
      (Term.text x).Interchangeable (.text y) :=
    .const (.loose (Value.named_of_ne (by rintro _ ⟨⟩)) (Value.named_of_ne (by rintro _ ⟨⟩)) h)
  have hs : ((∅ : Substitution).bind "X" (.text "5.0")).Interchangeable ((∅ : Substitution).bind "X" (.text " 5e0")) := by
    intro x
    rw [Substitution.get?_bind, Substitution.get?_bind, Substitution.get?_empty]
    split
    · exact .some (numerals (by decide +kernel))
    · exact .none
  have he : (Formula.binary .mul (.term (.var "X")) (.term (.text "2"))).Interchangeable
      (.binary .mul (.term (.var "X")) (.term (.text "+02."))) :=
    .binary (.term (.var "X")) (.term (numerals (by decide +kernel)))
  obtain ⟨a, ha⟩ := Option.isSome_iff_exists.mp (show ((Formula.binary .mul (.term (.var "X"))
    (.term (.text "2"))).value ((∅ : Substitution).bind "X" (.text "5.0"))).isSome = true by decide +kernel)
  have hvalue := (interchange hs he).1
  rw [ha] at hvalue
  generalize Formula.value _ _ = r at hvalue ⊢
  cases hvalue with
  | some hab => exact ⟨a, _, ha, rfl, hab⟩

end BilingualLogic
