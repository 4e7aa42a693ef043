import BilingualLogic.Proofs.Term.Eval

/-!
Well-formed terms, as reading gives them: a pattern has items and a rest that is no list and no pattern, and no atom
denotes a number.
-/

namespace BilingualLogic

/-- A property that goes from terms to their parts, and back to what is built from parts. -/
structure Hereditary (P : Term → Prop) : Prop where
  list {as : List Term} : P (.list as) ↔ ∀ a ∈ as, P a
  pattern {as : List Term} {r : Term} : P (.pattern as r) → (∀ a ∈ as, P a) ∧ P r
  cons {as : List Term} {r : Term} : (∀ a ∈ as, P a) → P r → P (.cons as r)

theorem Hereditary.and {P Q : Term → Prop} (hP : Hereditary P) (hQ : Hereditary Q) :
    Hereditary fun t => P t ∧ Q t where
  list := by
    intro as
    rw [hP.list, hQ.list]
    exact ⟨fun h a ha => ⟨h.1 a ha, h.2 a ha⟩, fun h => ⟨fun a ha => (h a ha).1, fun a ha => (h a ha).2⟩⟩
  pattern := by
    intro as r h
    have hp := hP.pattern h.1
    have hq := hQ.pattern h.2
    exact ⟨fun a ha => ⟨hp.1 a ha, hq.1 a ha⟩, hp.2, hq.2⟩
  cons h hr := ⟨hP.cons (fun a ha => (h a ha).1) hr.1, hQ.cons (fun a ha => (h a ha).2) hr.2⟩

namespace Term

def isTail : Term → Bool
  | list _ => false
  | pattern _ _ => false
  | _ => true

mutual

/-- Whether every pattern has items and a rest that is no list and no pattern. -/
def isNormal : Term → Bool
  | var _ => true
  | const _ => true
  | list as => isNormalAll as
  | pattern as r => ! as.isEmpty && r.isTail && isNormalAll as && r.isNormal

def isNormalAll : List Term → Bool
  | [] => true
  | a :: as => a.isNormal && isNormalAll as

end

theorem isNormalAll_iff (as : List Term) : isNormalAll as = true ↔ ∀ a ∈ as, a.isNormal = true := by
  induction as with
  | nil => simp [isNormalAll]
  | cons a as ih => simp [isNormalAll, ih]

theorem isNormal_pattern {as : List Term} {r : Term} : (pattern as r).isNormal = true ↔
    as ≠ [] ∧ r.isTail = true ∧ (∀ a ∈ as, a.isNormal = true) ∧ r.isNormal = true := by
  simp [isNormal, isNormalAll_iff, and_assoc]

theorem isPlain_pattern {as : List Term} {r : Term} :
    (pattern as r).isPlain = true ↔ (∀ a ∈ as, a.isPlain = true) ∧ r.isPlain = true := by
  simp [isPlain, isPlainAll_iff]

theorem cons_induct {P : Term → Prop} {as : List Term} {r : Term} (hr : P r)
    (list : ∀ bs, r = .list bs → P (.list (as ++ bs)))
    (pattern : ∀ bs q, r = .pattern bs q → P (.pattern (as ++ bs) q))
    (tail : as ≠ [] → r.isTail → P (.pattern as r)) : P (cons as r) := by
  unfold cons
  split
  · exact hr
  · next h =>
    have has : as ≠ [] := by simpa using h
    split
    · next bs => exact list bs rfl
    · next bs q => exact pattern bs q rfl
    · next hl hp =>
      refine tail has ?_
      cases r with
      | list bs => exact absurd rfl (hl bs)
      | pattern bs q => exact absurd rfl (hp bs q)
      | _ => rfl

theorem hereditary_isNormal : Hereditary fun t => t.isNormal = true where
  list := by
    intro as
    rw [isNormal, isNormalAll_iff]
  pattern h := ⟨(isNormal_pattern.mp h).2.2.1, (isNormal_pattern.mp h).2.2.2⟩
  cons := by
    intro as r h hr
    refine cons_induct (P := fun t => t.isNormal = true) hr ?_ ?_ ?_
    · rintro bs rfl
      rw [isNormal, isNormalAll_iff] at hr ⊢
      exact List.forall_mem_append.mpr ⟨h, hr⟩
    · rintro bs q rfl
      obtain ⟨hbs, hq, hall, hn⟩ := isNormal_pattern.mp hr
      exact isNormal_pattern.mpr ⟨by simp [hbs], hq, List.forall_mem_append.mpr ⟨h, hall⟩, hn⟩
    · intro has ht
      exact isNormal_pattern.mpr ⟨has, ht, h, hr⟩

theorem hereditary_isPlain : Hereditary fun t => t.isPlain = true where
  list := by
    intro as
    rw [isPlain, isPlainAll_iff]
  pattern h := isPlain_pattern.mp h
  cons := by
    intro as r h hr
    refine cons_induct (P := fun t => t.isPlain = true) hr ?_ ?_ ?_
    · rintro bs rfl
      rw [isPlain, isPlainAll_iff] at hr ⊢
      exact List.forall_mem_append.mpr ⟨h, hr⟩
    · rintro bs q rfl
      obtain ⟨hall, hq⟩ := isPlain_pattern.mp hr
      exact isPlain_pattern.mpr ⟨List.forall_mem_append.mpr ⟨h, hall⟩, hq⟩
    · intro _ _
      exact isPlain_pattern.mpr ⟨h, hr⟩

def WellFormed (t : Term) : Prop := t.isNormal = true ∧ t.isPlain = true

theorem hereditary_wellFormed : Hereditary WellFormed := hereditary_isNormal.and hereditary_isPlain

theorem WellFormed.items_ne_nil {as : List Term} {r : Term} (h : (pattern as r).WellFormed) : as ≠ [] :=
  (isNormal_pattern.mp h.1).1

theorem WellFormed.isProper_datum {t : Term} (h : t.WellFormed) : t.datum.isProper := by
  cases t with
  | var x => rfl
  | const v => exact Datum.isProper_of_isTail (isTail_datum v)
  | list as => rfl
  | pattern as r =>
    obtain ⟨a, as, rfl⟩ := List.exists_cons_of_ne_nil h.items_ne_nil
    rfl

theorem wellFormed_var (x : String) : (var x).WellFormed := ⟨rfl, rfl⟩

inductive Occurs (x : String) : Term → Prop
  | var : Occurs x (.var x)
  | list {as : List Term} {a : Term} : a ∈ as → Occurs x a → Occurs x (.list as)
  | item {as : List Term} {a r : Term} : a ∈ as → Occurs x a → Occurs x (.pattern as r)
  | rest {as : List Term} {r : Term} : Occurs x r → Occurs x (.pattern as r)

def VarsIn (V : String → Prop) (t : Term) : Prop := ∀ x, t.Occurs x → V x

variable {V : String → Prop}

theorem varsIn_var {x : String} : (var x).VarsIn V ↔ V x :=
  ⟨fun h => h x .var, fun h y hy => by cases hy; exact h⟩

theorem varsIn_const (v : Value) : (const v).VarsIn V := by
  intro x hx
  cases hx

theorem varsIn_list {as : List Term} : (list as).VarsIn V ↔ ∀ a ∈ as, a.VarsIn V := by
  constructor
  · intro h a ha x hx
    exact h x (.list ha hx)
  · rintro h x ⟨⟩
    exact h _ ‹_› x ‹_›

theorem varsIn_pattern {as : List Term} {r : Term} :
    (pattern as r).VarsIn V ↔ (∀ a ∈ as, a.VarsIn V) ∧ r.VarsIn V := by
  constructor
  · intro h
    exact ⟨fun a ha x hx => h x (.item ha hx), fun x hx => h x (.rest hx)⟩
  · rintro ⟨has, hr⟩ x hx
    cases hx with
    | item ha hx => exact has _ ha x hx
    | rest hx => exact hr x hx

theorem hereditary_varsIn : Hereditary (VarsIn V) where
  list := varsIn_list
  pattern := varsIn_pattern.mp
  cons := by
    intro as r h hr
    refine cons_induct (P := VarsIn V) hr ?_ ?_ ?_
    · rintro bs rfl
      exact varsIn_list.mpr (List.forall_mem_append.mpr ⟨h, varsIn_list.mp hr⟩)
    · rintro bs q rfl
      obtain ⟨hbs, hq⟩ := varsIn_pattern.mp hr
      exact varsIn_pattern.mpr ⟨List.forall_mem_append.mpr ⟨h, hbs⟩, hq⟩
    · intro _ _
      exact varsIn_pattern.mpr ⟨h, hr⟩

end Term
end BilingualLogic
