import BilingualLogic.Proofs.Decimal.Value
import BilingualLogic.Proofs.Term.Induction

/-!
What terms stand for where only loose equality counts: numbers are rationals, a text that denotes a number is that
number, any other text is its characters, and so is an atom. On terms whose atoms denote no numbers loose equality is
equality of the data.
-/

namespace BilingualLogic

inductive Datum where
  | var (name : String)
  | number (value : ℚ)
  | chars (content : String)
  | boolean (value : Bool)
  | list (items : List Datum)
  | pattern (items : List Datum) (rest : Datum)

namespace Value

def datum : Value → Datum
  | number n => .number n.toRat
  | text s =>
    match Decimal.ofText? s with
    | some n => .number n.toRat
    | none => .chars s
  | boolean b => .boolean b
  | atom name => .chars name

/-- Whether the value is no atom that denotes a number. -/
def isPlain : Value → Bool
  | atom name => (Decimal.ofText? name).isNone
  | _ => true

theorem loose_iff {v w : Value} (hv : v.isPlain) (hw : w.isPlain) : v.loose w = true ↔ v.datum = w.datum := by
  cases v <;> cases w
  case number.number a b => simp [loose, datum, Decimal.beq_iff]
  case boolean.boolean a b => simp [loose, datum]
  case atom.atom a b => simp [loose, datum]
  case number.text a s =>
    cases h : Decimal.ofText? s with
    | none => simp [loose, datum, h]
    | some n =>
      simp only [loose, datum, h, Option.any_some, Decimal.beq_iff, Datum.number.injEq]
      exact eq_comm
  case text.number s a =>
    cases h : Decimal.ofText? s <;> simp [loose, datum, h, Decimal.beq_iff]
  case text.text s t =>
    cases hs : Decimal.ofText? s <;> cases ht : Decimal.ofText? t <;> simp [loose, datum, hs, ht, Decimal.beq_iff]
    all_goals
      rintro rfl
      rw [hs] at ht
      cases ht
  case text.atom s a =>
    simp only [isPlain, Option.isNone_iff_eq_none] at hw
    cases hs : Decimal.ofText? s <;> simp [loose, datum, hs]
    rintro rfl
    rw [hs] at hw
    cases hw
  case atom.text a s =>
    simp only [isPlain, Option.isNone_iff_eq_none] at hv
    cases hs : Decimal.ofText? s <;> simp [loose, datum, hs]
    rintro rfl
    rw [hs] at hv
    cases hv
  case text.boolean s b => cases hs : Decimal.ofText? s <;> simp [loose, datum, hs]
  case boolean.text b s => cases hs : Decimal.ofText? s <;> simp [loose, datum, hs]
  all_goals simp [loose, datum]

end Value

namespace Term

mutual

def datum : Term → Datum
  | var x => .var x
  | const v => v.datum
  | list as => .list (datumAll as)
  | pattern as r => .pattern (datumAll as) r.datum

def datumAll : List Term → List Datum
  | [] => []
  | a :: as => a.datum :: datumAll as

end

mutual

def isPlain : Term → Bool
  | var _ => true
  | const v => v.isPlain
  | list as => isPlainAll as
  | pattern as r => isPlainAll as && r.isPlain

def isPlainAll : List Term → Bool
  | [] => true
  | a :: as => a.isPlain && isPlainAll as

end

theorem datumAll_eq (as : List Term) : datumAll as = as.map datum := by
  induction as with
  | nil => rfl
  | cons a as ih => simp [datumAll, ih]

theorem isPlainAll_iff (as : List Term) : isPlainAll as = true ↔ ∀ a ∈ as, a.isPlain = true := by
  induction as with
  | nil => simp [isPlainAll]
  | cons a as ih => simp [isPlainAll, ih]

theorem datum_const_ne (v : Value) : (∀ x, v.datum ≠ .var x) ∧ (∀ ds, v.datum ≠ .list ds) ∧
    ∀ ds d, v.datum ≠ .pattern ds d := by
  cases v with
  | text s => simp only [Value.datum]; cases Decimal.ofText? s <;> simp
  | _ => simp [Value.datum]

theorem looseAll_iff {as : List Term} (h : ∀ a ∈ as, ∀ u : Term, u.isPlain → (a.loose u = true ↔ a.datum = u.datum))
    {bs : List Term} (hb : isPlainAll bs) : looseAll as bs = true ↔ as.map datum = bs.map datum := by
  induction as generalizing bs with
  | nil => cases bs <;> simp [looseAll]
  | cons a as ih =>
    cases bs with
    | nil => simp [looseAll]
    | cons b bs =>
      simp only [isPlainAll, Bool.and_eq_true] at hb
      simp only [looseAll, Bool.and_eq_true, List.map_cons, List.cons.injEq]
      rw [h a (by simp) b hb.1, ih (fun a ha => h a (by simp [ha])) hb.2]

theorem loose_iff {t u : Term} (ht : t.isPlain) (hu : u.isPlain) : t.loose u = true ↔ t.datum = u.datum := by
  induction t generalizing u with
  | var x =>
    cases u with
    | const v => simpa [loose, datum] using (Ne.symm ((datum_const_ne v).1 x))
    | _ => simp [loose, datum]
  | const v =>
    cases u with
    | const w => exact Value.loose_iff ht hu
    | var y => simpa [loose, datum] using (datum_const_ne v).1 y
    | list => simpa [loose, datum] using (datum_const_ne v).2.1 _
    | pattern => simpa [loose, datum] using (datum_const_ne v).2.2 _ _
  | list as ih =>
    rw [isPlain, isPlainAll_iff] at ht
    cases u with
    | const v => simpa [loose, datum] using (Ne.symm ((datum_const_ne v).2.1 _))
    | list bs => simpa [loose, datum, datumAll_eq] using looseAll_iff (fun a ha u => ih a ha (ht a ha)) hu
    | _ => simp [loose, datum]
  | pattern as r ih ihr =>
    simp only [isPlain, Bool.and_eq_true, isPlainAll_iff] at ht
    cases u with
    | const v => simpa [loose, datum] using (Ne.symm ((datum_const_ne v).2.2 _ _))
    | pattern bs q =>
      simp only [isPlain, Bool.and_eq_true] at hu
      simp only [loose, datum, Bool.and_eq_true, datumAll_eq, Datum.pattern.injEq]
      rw [looseAll_iff (fun a ha u => ih a ha (ht.1 a ha)) hu.1, ihr ht.2 hu.2]
    | _ => simp [loose, datum]

end Term
end BilingualLogic
