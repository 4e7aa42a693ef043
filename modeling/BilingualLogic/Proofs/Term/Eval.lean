import BilingualLogic.Proofs.Term.Datum

/-!
The datum of a term in an environment that gives every variable one. Data are built like terms: what stands before a
list or before a pattern joins its items, so that data of one meaning are equal.
-/

namespace BilingualLogic

namespace Datum

/-- One more item in front. -/
def push (d : Datum) : Datum → Datum
  | list ds => list (d :: ds)
  | pattern ds r => pattern (d :: ds) r
  | r => pattern [d] r

def cons (ds : List Datum) (r : Datum) : Datum := ds.foldr push r

def isProper : Datum → Bool
  | pattern [] _ => false
  | _ => true

@[simp] theorem cons_nil (r : Datum) : cons [] r = r := rfl

@[simp] theorem cons_cons (d : Datum) (ds : List Datum) (r : Datum) : cons (d :: ds) r = push d (cons ds r) := rfl

theorem cons_append (ds es : List Datum) (r : Datum) : cons (ds ++ es) r = cons ds (cons es r) := by
  simp [cons]

theorem cons_list (ds es : List Datum) : cons ds (list es) = list (ds ++ es) := by
  induction ds with
  | nil => rfl
  | cons d ds ih => simp [ih, push]

theorem cons_pattern (ds es : List Datum) (r : Datum) : cons ds (pattern es r) = pattern (ds ++ es) r := by
  induction ds with
  | nil => rfl
  | cons d ds ih => simp [ih, push]

/-- Neither a list nor a pattern: what can be the rest of one. -/
def isTail : Datum → Bool
  | list _ => false
  | pattern _ _ => false
  | _ => true

theorem cons_tail {ds : List Datum} (hd : ds ≠ []) {r : Datum} (hr : r.isTail) : cons ds r = pattern ds r := by
  induction ds with
  | nil => exact absurd rfl hd
  | cons d ds ih =>
    cases ds with
    | nil => cases r <;> first | rfl | cases hr
    | cons e ds => rw [cons_cons, ih (List.cons_ne_nil e ds), push]

theorem isProper_of_isTail {d : Datum} (h : d.isTail) : d.isProper := by
  cases d <;> first | rfl | cases h

theorem isProper_push (d r : Datum) : (push d r).isProper := by
  cases r <;> rfl

theorem isProper_cons (ds : List Datum) {r : Datum} (h : r.isProper) : (cons ds r).isProper := by
  cases ds with
  | nil => exact h
  | cons d ds => exact isProper_push d _

theorem push_inj {d e r q : Datum} (hr : r.isProper) (hq : q.isProper) : push d r = push e q ↔ d = e ∧ r = q := by
  constructor
  · intro h
    cases r <;> cases q <;> simp_all [push]
    all_goals
      obtain ⟨⟨-, rfl⟩, -⟩ := h
      simp [isProper] at hr hq
  · rintro ⟨rfl, rfl⟩
    rfl

theorem cons_inj {ds es : List Datum} (h : ds.length = es.length) {r q : Datum} (hr : r.isProper) (hq : q.isProper) :
    cons ds r = cons es q ↔ ds = es ∧ r = q := by
  induction ds generalizing es with
  | nil =>
    obtain rfl := List.length_eq_zero_iff.mp h.symm
    simp
  | cons d ds ih =>
    cases es with
    | nil => cases h
    | cons e es =>
      rw [cons_cons, cons_cons, push_inj (isProper_cons ds hr) (isProper_cons es hq), ih (Nat.succ.inj h),
        List.cons.injEq, and_assoc]

theorem cons_eq_list {ds es : List Datum} {r : Datum} :
    cons ds r = list es ↔ ds.length ≤ es.length ∧ ds = es.take ds.length ∧ r = list (es.drop ds.length) := by
  induction ds generalizing es with
  | nil => simp
  | cons d ds ih =>
    rw [cons_cons]
    cases es with
    | nil => cases cons ds r <;> simp [push]
    | cons e es =>
      have hp : push d (cons ds r) = list (e :: es) ↔ d = e ∧ cons ds r = list es := by
        cases cons ds r <;> simp [push]
      rw [hp, ih]
      simp
      tauto

theorem cons_eq_cons {ds es : List Datum} {r q : Datum} (hr : r.isProper) (hq : q.isProper) {k : Nat}
    (hd : k ≤ ds.length) (he : k ≤ es.length) :
    cons ds r = cons es q ↔ ds.take k = es.take k ∧ cons (ds.drop k) r = cons (es.drop k) q := by
  conv_lhs => rw [← List.take_append_drop k ds, ← List.take_append_drop k es, cons_append, cons_append]
  exact cons_inj (by simp [hd, he]) (isProper_cons _ hr) (isProper_cons _ hq)

mutual

def size : Datum → Nat
  | list ds => 1 + sizeAll ds
  | pattern ds r => sizeAll ds + r.size
  | var _ => 1
  | number _ => 1
  | chars _ => 1
  | boolean _ => 1

def sizeAll : List Datum → Nat
  | [] => 0
  | d :: ds => d.size + sizeAll ds

end

theorem size_pos (d : Datum) : 0 < d.size := by
  cases d with
  | pattern ds r =>
    have := size_pos r
    rw [size]
    omega
  | _ => rw [size]; omega

theorem size_push (d r : Datum) : (push d r).size = d.size + r.size := by
  cases r <;> simp [push, size, sizeAll] <;> omega

theorem size_cons (ds : List Datum) (r : Datum) : (cons ds r).size = sizeAll ds + r.size := by
  induction ds with
  | nil => simp [sizeAll]
  | cons d ds ih => rw [cons_cons, size_push, ih, sizeAll, Nat.add_assoc]

theorem sizeAll_pos {ds : List Datum} (h : ds ≠ []) : 0 < sizeAll ds := by
  cases ds with
  | nil => exact absurd rfl h
  | cons d ds =>
    have := size_pos d
    rw [sizeAll]
    omega

end Datum

namespace Term

mutual

def eval (ρ : String → Datum) : Term → Datum
  | var x => ρ x
  | const v => v.datum
  | list as => .list (evalAll ρ as)
  | pattern as r => .cons (evalAll ρ as) (r.eval ρ)

def evalAll (ρ : String → Datum) : List Term → List Datum
  | [] => []
  | a :: as => a.eval ρ :: evalAll ρ as

end

variable (ρ : String → Datum)

theorem evalAll_eq (as : List Term) : evalAll ρ as = as.map (eval ρ) := by
  induction as with
  | nil => rfl
  | cons a as ih => simp [evalAll, ih]

@[simp] theorem eval_var (x : String) : (var x).eval ρ = ρ x := by rw [eval]

@[simp] theorem eval_const (v : Value) : (const v).eval ρ = v.datum := by rw [eval]

@[simp] theorem eval_list (as : List Term) : (list as).eval ρ = .list (as.map (eval ρ)) := by
  rw [eval, evalAll_eq]

@[simp] theorem eval_pattern (as : List Term) (r : Term) :
    (pattern as r).eval ρ = .cons (as.map (eval ρ)) (r.eval ρ) := by
  rw [eval, evalAll_eq]

theorem eval_cons (as : List Term) (r : Term) : (cons as r).eval ρ = .cons (as.map (eval ρ)) (r.eval ρ) := by
  unfold cons
  cases as with
  | nil => rfl
  | cons a as =>
    cases r with
    | list bs => simp [Datum.cons_list]
    | pattern bs q => simp [Datum.cons_append]
    | _ => simp

theorem eval_bindVars (f : String → Term) (t : Term) : (t.bindVars f).eval ρ = t.eval fun x => (f x).eval ρ := by
  induction t with
  | var x => simp [bindVars]
  | const v => simp [bindVars]
  | list as ih =>
    rw [bindVars_list, eval_list, eval_list, List.map_map]
    congr 1
    exact List.map_congr_left ih
  | pattern as r ih ihr =>
    rw [bindVars_pattern, eval_cons, eval_pattern, List.map_map, ihr]
    congr 1
    exact List.map_congr_left ih

theorem isTail_datum (v : Value) : v.datum.isTail := by
  cases v with
  | text s => simp only [Value.datum]; cases Decimal.ofText? s <;> rfl
  | _ => rfl

theorem isProper_eval {ρ : String → Datum} (hρ : ∀ x, (ρ x).isProper) (t : Term) : (t.eval ρ).isProper := by
  induction t with
  | var x => simpa using hρ x
  | const v => simpa using Datum.isProper_of_isTail (isTail_datum v)
  | list as => rfl
  | pattern as r _ ihr =>
    rw [eval_pattern]
    exact Datum.isProper_cons _ ihr

theorem datum_cons (as : List Term) (r : Term) : (cons as r).datum = .cons (as.map datum) r.datum := by
  unfold cons
  cases as with
  | nil => rfl
  | cons a as =>
    cases r with
    | list bs => simp [datum, datumAll_eq, Datum.cons_list]
    | pattern bs q => simp [datum, datumAll_eq, Datum.cons_pattern]
    | var x =>
      have h := Datum.cons_tail (List.cons_ne_nil a.datum (as.map datum)) (r := .var x) rfl
      simpa [datum, datumAll_eq] using h.symm
    | const v =>
      have h := Datum.cons_tail (List.cons_ne_nil a.datum (as.map datum)) (isTail_datum v)
      simpa [datum, datumAll_eq] using h.symm

theorem datum_bindVars (f : String → Term) (t : Term) : (t.bindVars f).datum = t.eval fun x => (f x).datum := by
  induction t with
  | var x => simp [bindVars]
  | const v => simp [bindVars, datum]
  | list as ih =>
    rw [bindVars_list, eval_list, datum, datumAll_eq, List.map_map]
    congr 1
    exact List.map_congr_left ih
  | pattern as r ih ihr =>
    rw [bindVars_pattern, datum_cons, eval_pattern, List.map_map, ihr]
    congr 1
    exact List.map_congr_left ih

end Term
end BilingualLogic
