import BilingualLogic.Proofs.Definite.Derivation

/-!
Copies of clauses. The name of a variable in a copy determines the number of the copy and the name in the clause, so a
copy has names of its own, and the instances of a copy are those of the clause.
-/

namespace BilingualLogic

namespace Clause

theorem append_cons_inj {c : Char} {as bs ds es : List Char} (hd : c ∉ ds) (he : c ∉ es)
    (h : as ++ c :: ds = bs ++ c :: es) : as = bs ∧ ds = es := by
  rcases List.append_eq_append_iff.mp h with ⟨fs, rfl, hr⟩ | ⟨fs, rfl, hr⟩
  · cases fs with
    | nil => simpa using hr
    | cons f fs =>
      obtain ⟨-, rfl⟩ := List.cons.inj hr
      exact absurd (by simp) hd
  · cases fs with
    | nil => simpa [eq_comm] using hr
    | cons f fs =>
      obtain ⟨-, rfl⟩ := List.cons.inj hr
      exact absurd (by simp) he

theorem notMem_toDigits (k : Nat) : '#' ∉ Nat.toDigits 10 k := by
  intro hmem
  have := Nat.isDigit_of_mem_toDigits (by omega) (by omega) hmem
  exact absurd this (by decide)

theorem renamed_inj {m n : Nat} {x y : String} (h : renamed m x = renamed n y) : m = n ∧ x = y := by
  have toList (k : Nat) (z : String) : (renamed k z).toList = z.toList ++ '#' :: Nat.toDigits 10 k := by
    simp [renamed]
  have hlist := congrArg String.toList h
  rw [toList, toList] at hlist
  obtain ⟨hname, hdigits⟩ := append_cons_inj (notMem_toDigits m) (notMem_toDigits n) hlist
  constructor
  · calc m = Nat.ofDigitChars 10 (Nat.toDigits 10 m) 0 := Nat.ofDigitChars_ten_toDigits.symm
      _ = Nat.ofDigitChars 10 (Nat.toDigits 10 n) 0 := by rw [hdigits]
      _ = n := Nat.ofDigitChars_ten_toDigits
  · exact String.toList_injective hname

end Clause

/-- Which names of variables may be in use when so many copies were made. -/
structure Naming (used : Nat → String → Prop) : Prop where
  succ {n : Nat} {x : String} : used n x → used (n + 1) x
  copy (n : Nat) (x : String) : used (n + 1) (Clause.renamed n x)

namespace Naming

variable {used : Nat → String → Prop}

theorem mono (h : Naming used) {m n : Nat} (hmn : m ≤ n) {x : String} (hx : used m x) : used n x := by
  induction hmn with
  | refl => exact hx
  | step _ ih => exact h.succ ih

end Naming

def Fresh (used : Nat → String → Prop) : Prop := ∀ n x, ¬ used n (Clause.renamed n x)

/-- The name is not that of a variable of a copy that is still to be made. -/
def NotAhead (n : Nat) (x : String) : Prop := ∀ m y, x = Clause.renamed m y → m < n

theorem notAhead_of_notMem {n : Nat} {x : String} (h : '#' ∉ x.toList) : NotAhead n x := by
  rintro m y rfl
  exact absurd (by simp [Clause.renamed]) h

theorem naming_notAhead : Naming NotAhead where
  succ h m y hy := Nat.lt_succ_of_lt (h m y hy)
  copy n x := by
    intro m y hy
    rw [(Clause.renamed_inj hy).1]
    exact Nat.lt_succ_self m

theorem fresh_notAhead : Fresh NotAhead := fun n x h => Nat.lt_irrefl n (h n x rfl)

theorem naming_true : Naming fun _ _ => True := ⟨fun h => h, fun _ _ => trivial⟩

namespace Assignment

def copy (σ : Assignment) (n : Nat) : Assignment where
  term x := σ.term (Clause.renamed n x)
  ground _ := σ.ground _
  wellFormed _ := σ.wellFormed _

theorem apply_rename (σ : Assignment) (n : Nat) (t : Term) :
    σ.apply (t.bindVars fun x => .var (Clause.renamed n x)) = (σ.copy n).apply t := by
  rw [apply, Term.bindVars_bindVars, apply]
  simp [copy, Term.bindVars]

theorem eval_rename (σ : Assignment) (n : Nat) (t : Term) :
    (t.bindVars fun x => .var (Clause.renamed n x)).eval σ.datum = t.eval (σ.copy n).datum := by
  rw [← datum_apply, apply_rename, datum_apply]

open scoped Classical in
noncomputable def extend (σ τ : Assignment) (n : Nat) : Assignment where
  term y := if h : ∃ x, y = Clause.renamed n x then τ.term h.choose else σ.term y
  ground y := by
    split
    · exact τ.ground _
    · exact σ.ground y
  wellFormed y := by
    split
    · exact τ.wellFormed _
    · exact σ.wellFormed y

theorem copy_extend (σ τ : Assignment) (n : Nat) : (σ.extend τ n).copy n = τ := by
  obtain ⟨term, _, _⟩ := τ
  simp only [copy, extend, Assignment.mk.injEq]
  funext x
  have h : ∃ y, Clause.renamed n x = Clause.renamed n y := ⟨x, rfl⟩
  rw [dif_pos h, ← (Clause.renamed_inj h.choose_spec).2]

theorem extend_of_used {used : Nat → String → Prop} (hf : Fresh used) (σ τ : Assignment) {n : Nat} {x : String}
    (hx : used n x) : (σ.extend τ n).term x = σ.term x := by
  have h : ¬ ∃ y, x = Clause.renamed n y := by
    rintro ⟨y, rfl⟩
    exact hf n y hx
  simp only [extend, dif_neg h]

end Assignment
end BilingualLogic
