import BilingualLogic.Grammar.Peg

/-!
What a grammar reads, without fuel and without notes on failures. Where no rule comes back to itself before a character
is taken and every repetition takes one, the fuel that is given to a parse is enough, so every rule reads what its body
reads.
-/

namespace BilingualLogic

open Text

namespace Peg

variable {Rule : Type} {Result : Rule → Type} (nullableRule : Rule → Bool)

/-- Whether the expression may take nothing. -/
def nullable : {α : Type} → Peg Rule Result α → Bool
  | _, .pure _ => true
  | _, .char _ => false
  | _, .oneOf texts => texts.any (·.isEmpty)
  | _, .finish => true
  | _, .rule r => nullableRule r
  | _, .map _ e => e.nullable
  | _, .seq a b => a.nullable && b.nullable
  | _, .choice a b => a.nullable || b.nullable
  | _, .many _ => true
  | _, .option _ => true
  | _, .unless _ => true
  | _, .placed e => e.nullable

/-- The rules that may be tried before a character is taken. -/
def heads : {α : Type} → Peg Rule Result α → List Rule
  | _, .rule r => [r]
  | _, .map _ e => e.heads
  | _, .seq a b => a.heads ++ if a.nullable nullableRule then b.heads else []
  | _, .choice a b => a.heads ++ b.heads
  | _, .many e => e.heads
  | _, .option e => e.heads
  | _, .unless e => e.heads
  | _, .placed e => e.heads
  | _, _ => []

/-- Whether every repetition in the expression takes characters. -/
def productive : {α : Type} → Peg Rule Result α → Bool
  | _, .map _ e => e.productive
  | _, .seq a b => a.productive && b.productive
  | _, .choice a b => a.productive && b.productive
  | _, .many e => ! e.nullable nullableRule && e.productive
  | _, .option e => e.productive
  | _, .unless e => e.productive
  | _, .placed e => e.productive
  | _, _ => true

end Peg

namespace Grammar

/-- For every rule what it yields at a place, spaced or not, and what is left. -/
abbrev Readers (G : Grammar) := (r : G.Rule) → Bool → Cursor → Option (G.Result r × Cursor)

/-- Reads as often as it can, with a skip before each time. -/
def evalMore {α : Type} (read : Cursor → Option (α × Cursor)) (skip : Cursor → Cursor) : Nat → Cursor → List α × Cursor
  | 0, c => ([], c)
  | n + 1, c =>
    match read (skip c) with
    | some (x, d) => (x :: (evalMore read skip n d).1, (evalMore read skip n d).2)
    | none => ([], c)

def evalMany {α : Type} (read : Cursor → Option (α × Cursor)) (skip : Cursor → Cursor) (c : Cursor) :
    List α × Cursor :=
  match read c with
  | some (x, d) => (x :: (evalMore read skip d.rest.length d).1, (evalMore read skip d.rest.length d).2)
  | none => ([], c)

variable (G : Grammar)

def skipIf (spaced : Bool) (c : Cursor) : Cursor := if spaced then G.skip c else c

def evalExpr (ρ : G.Readers) (spaced : Bool) :
    {α : Type} → Peg G.Rule G.Result α → Cursor → Option (α × Cursor)
  | _, .pure x, c => some (x, c)
  | _, .char accepts, c =>
    match c with
    | ⟨x :: rest, p⟩ => if accepts x then some (x, ⟨rest, p.after x⟩) else none
    | ⟨[], _⟩ => none
  | _, .oneOf texts, c => readOneOf texts c
  | _, .finish, c => if c.rest.isEmpty then some ((), c) else none
  | _, .rule r, c => ρ r spaced c
  | _, .map f e, c => (evalExpr ρ spaced e c).map fun r => (f r.1, r.2)
  | _, .seq e₁ e₂, c =>
    match evalExpr ρ spaced e₁ c with
    | some (x, d) => (evalExpr ρ spaced e₂ (G.skipIf spaced d)).map fun r => ((x, r.1), r.2)
    | none => none
  | _, .choice e₁ e₂, c =>
    match evalExpr ρ spaced e₁ c with
    | some r => some r
    | none => evalExpr ρ spaced e₂ c
  | _, .many e, c => some (evalMany (evalExpr ρ spaced e) (G.skipIf spaced) c)
  | _, .option e, c =>
    match evalExpr ρ spaced e c with
    | some (x, d) => some (some x, d)
    | none => some (none, c)
  | _, .unless e, c =>
    match evalExpr ρ spaced e c with
    | some _ => none
    | none => some ((), c)
  | _, .placed e, c => (evalExpr ρ spaced e c).map fun r => (r.1 ⟨c.position, r.2.position.offset⟩, r.2)

/-- A rank of the rules that falls with every rule that is tried at the same place. -/
structure Ranking where
  depth : Nat
  rank : G.Rule → Nat
  nullable : G.Rule → Bool
  rank_lt (r : G.Rule) : rank r < depth
  skip_le (c : Cursor) : (G.skip c).rest.length ≤ c.rest.length
  nullable_of_body (r : G.Rule) : (G.body r).nullable nullable = true → nullable r = true
  heads_lt (r : G.Rule) : ∀ r' ∈ (G.body r).heads nullable, rank r' < rank r
  productive (r : G.Rule) : (G.body r).productive nullable = true

variable {G} (R : Ranking G)

include R in
theorem skipIf_le (spaced : Bool) (c : Cursor) : (G.skipIf spaced c).rest.length ≤ c.rest.length := by
  unfold skipIf
  split
  · exact R.skip_le c
  · exact Nat.le_refl _

theorem skipIf_eq_ite (spaced : Bool) : (if spaced then G.skip else id) = G.skipIf spaced := by
  funext c
  unfold skipIf
  split <;> rfl

/-- What is left is no longer than the text, and shorter if something must be taken. -/
def Shortens {α : Type} (nullable : Bool) (c : Cursor) (r : Option (α × Cursor)) : Prop :=
  ∀ x d, r = some (x, d) → d.rest.length ≤ c.rest.length ∧ (nullable = false → d.rest.length < c.rest.length)

theorem readText_length {cs : List Char} {c d : Cursor} (h : readText cs c = some d) :
    c.rest.length = cs.length + d.rest.length := by
  induction cs generalizing c with
  | nil =>
    cases h
    simp
  | cons x xs ih =>
    obtain ⟨rest, p⟩ := c
    cases rest with
    | nil => cases h
    | cons y rest =>
      rw [readText] at h
      split at h
      · have := ih h
        simp only [List.length_cons] at this ⊢
        omega
      · cases h

theorem readOneOf_shortens (texts : List String) (c : Cursor) :
    Shortens (texts.any (·.isEmpty)) c (readOneOf texts c) := by
  induction texts with
  | nil =>
    intro x d h
    cases h
  | cons t ts ih =>
    intro x d h
    rw [readOneOf] at h
    split at h
    · next d' ht =>
      cases h
      have hlen := readText_length ht
      refine ⟨by omega, fun hn => ?_⟩
      have hne : t.toList ≠ [] := by
        intro he
        simp [String.toList_eq_nil_iff.mp he] at hn
      have := List.length_pos_iff.mpr hne
      omega
    · obtain ⟨hle, hlt⟩ := ih x d h
      refine ⟨hle, fun hn => hlt ?_⟩
      simp only [List.any_cons, Bool.or_eq_false_iff] at hn
      exact hn.2

theorem repeatRead_shortens {Rule α : Type} {read : Cursor → Attempts Rule → Reply Rule α} {skip : Cursor → Cursor}
    (hskip : ∀ c, (skip c).rest.length ≤ c.rest.length) (hread : ∀ c a, Shortens true c (read c a).1) (fuel : Nat)
    (done : List α) (c : Cursor) (a : Attempts Rule) : Shortens true c (repeatRead read skip fuel done c a).1 := by
  induction fuel generalizing done c a with
  | zero =>
    intro x d h
    cases h
    simp
  | succ fuel ih =>
    intro x d h
    rw [repeatRead] at h
    have hle : (if done.isEmpty then c else skip c).rest.length ≤ c.rest.length := by
      split
      · exact Nat.le_refl _
      · exact hskip c
    split at h
    · next y d' a' hy =>
      have h₁ := (hread _ a y d' (congrArg Prod.fst hy)).1
      have h₂ := (ih (y :: done) d' a' x d h).1
      exact ⟨by omega, by simp⟩
    · cases h
      simp

/-- How rules are read with fuel, or notes and all. -/
abbrev FuelledReaders (G : Grammar) := (r : G.Rule) → Mode → Cursor → Attempts G.Rule → Reply G.Rule (G.Result r)

theorem readExpr_shortens (reps : Nat) {rules : FuelledReaders G}
    (hrules : ∀ r mode c a, Shortens (R.nullable r) c (rules r mode c a).1) (mode : Mode) {α : Type}
    (e : Peg G.Rule G.Result α) (c : Cursor) (a : Attempts G.Rule) :
    Shortens (e.nullable R.nullable) c (readExpr G reps rules mode e c a).1 := by
  induction e generalizing c a with
  | pure y =>
    intro x d h
    cases h
    simp [Peg.nullable]
  | char accepts =>
    intro x d h
    obtain ⟨rest, p⟩ := c
    cases rest with
    | nil => cases h
    | cons y rest =>
      simp only [readExpr] at h
      split at h
      · cases h
        simp
      · cases h
  | oneOf texts => exact readOneOf_shortens texts c
  | finish =>
    intro x d h
    simp only [readExpr] at h
    split at h
    · cases h
      simp [Peg.nullable]
    · cases h
  | rule r => exact hrules r mode c a
  | map f e ih =>
    intro x d h
    simp only [readExpr] at h
    split at h
    · next y d' a' hy =>
      cases h
      exact ih c a y d (congrArg Prod.fst hy)
    · cases h
  | seq e₁ e₂ ih₁ ih₂ =>
    intro x d h
    simp only [readExpr] at h
    split at h
    · cases h
    · next y d₁ a₁ hy =>
      split at h
      · next z d₂ a₂ hz =>
        cases h
        have h₁ := ih₁ c a y d₁ (congrArg Prod.fst hy)
        have h₂ := ih₂ _ a₁ z d (congrArg Prod.fst hz)
        have h₃ : (if mode.spaced then G.skip d₁ else d₁).rest.length ≤ d₁.rest.length := skipIf_le R mode.spaced d₁
        refine ⟨by omega, fun hn => ?_⟩
        rcases Bool.and_eq_false_iff.mp hn with hn | hn
        · have := h₁.2 hn
          omega
        · have := h₂.2 hn
          omega
      · cases h
  | choice e₁ e₂ ih₁ ih₂ =>
    intro x d h
    simp only [readExpr] at h
    split at h
    · next y a₁ hy =>
      cases h
      have h₁ := ih₁ c a x d (congrArg Prod.fst hy)
      exact ⟨h₁.1, fun hn => h₁.2 (Bool.or_eq_false_iff.mp hn).1⟩
    · next a₁ hy =>
      have h₂ := ih₂ c a₁ x d h
      exact ⟨h₂.1, fun hn => h₂.2 (Bool.or_eq_false_iff.mp hn).2⟩
  | many e ih =>
    simp only [readExpr, skipIf_eq_ite]
    exact repeatRead_shortens (skipIf_le R mode.spaced) (fun c a x d h => ⟨(ih c a x d h).1, by simp⟩) reps [] c a
  | option e ih =>
    intro x d h
    simp only [readExpr] at h
    split at h
    · next y d' a' hy =>
      cases h
      exact ⟨(ih c a y d (congrArg Prod.fst hy)).1, by simp [Peg.nullable]⟩
    · cases h
      simp [Peg.nullable]
  | «unless» e ih =>
    intro x d h
    simp only [readExpr] at h
    split at h
    · cases h
    · cases h
      simp [Peg.nullable]
  | placed e ih =>
    intro x d h
    simp only [readExpr] at h
    split at h
    · next y d' a' hy =>
      cases h
      exact ih c a y d (congrArg Prod.fst hy)
    · cases h

theorem readRule_shortens (reps fuel : Nat) (r : G.Rule) (mode : Mode) (c : Cursor) (a : Attempts G.Rule) :
    Shortens (R.nullable r) c (readRule G reps fuel r mode c a).1 := by
  induction fuel generalizing r mode c a with
  | zero =>
    intro x d h
    cases h
  | succ fuel ih =>
    intro x d h
    rw [readRule] at h
    split at h
    · next y a' hy =>
      have hbody := readExpr_shortens R reps ih _ _ _ _ x d ((congrArg Prod.fst hy).trans h)
      refine ⟨hbody.1, fun hn => hbody.2 ?_⟩
      cases hb : (G.body r).nullable R.nullable with
      | false => rfl
      | true => simp [R.nullable_of_body r hb] at hn
    · cases h

theorem evalMore_of_le {α : Type} {read : Cursor → Option (α × Cursor)} {skip : Cursor → Cursor} {m : Nat}
    (hskip : ∀ c, (skip c).rest.length ≤ c.rest.length)
    (hread : ∀ c, c.rest.length ≤ m → Shortens false c (read c)) {n : Nat} {c : Cursor} (hm : c.rest.length ≤ m)
    (hn : c.rest.length ≤ n) : evalMore read skip n c = evalMore read skip c.rest.length c := by
  suffices hk : ∀ k ≤ n, ∀ c : Cursor, c.rest.length ≤ m → c.rest.length ≤ k →
      evalMore read skip n c = evalMore read skip k c from hk _ hn c hm (Nat.le_refl _)
  clear hn hm c
  induction n with
  | zero =>
    intro k hk c _ _
    rw [Nat.le_zero.mp hk]
  | succ n ih =>
    intro k hk c hm hc
    have hle := hskip c
    cases hr : read (skip c) with
    | none => cases k <;> simp [evalMore, hr]
    | some r =>
      obtain ⟨x, d⟩ := r
      have hlt := (hread (skip c) (by omega) x d hr).2 rfl
      cases k with
      | zero => omega
      | succ k =>
        simp only [evalMore, hr]
        rw [ih k (by omega) d (by omega) (by omega)]

theorem evalMore_stops {α : Type} {read : Cursor → Option (α × Cursor)} {skip : Cursor → Cursor}
    (hskip : ∀ c, (skip c).rest.length ≤ c.rest.length) (hread : ∀ c, Shortens false c (read c)) {n : Nat} {c : Cursor}
    (hn : c.rest.length ≤ n) : read (skip (evalMore read skip n c).2) = none ∧
      (evalMore read skip n c).2.rest.length ≤ c.rest.length := by
  induction n generalizing c with
  | zero =>
    refine ⟨?_, Nat.le_refl _⟩
    cases hr : read (skip c) with
    | none => exact hr
    | some r =>
      obtain ⟨x, d⟩ := r
      have hlt := (hread (skip c) x d hr).2 rfl
      have hle := hskip c
      omega
  | succ n ih =>
    have hle := hskip c
    cases hr : read (skip c) with
    | none =>
      rw [evalMore, hr]
      exact ⟨hr, Nat.le_refl _⟩
    | some r =>
      obtain ⟨x, d⟩ := r
      have hlt := (hread (skip c) x d hr).2 rfl
      obtain ⟨hnone, hlen⟩ := ih (c := d) (by omega)
      rw [evalMore, hr]
      exact ⟨hnone, by dsimp only; omega⟩

/-- A reading without notes agrees with one that has them at the places that are no longer than `n`. -/
def AgreesTo {α : Type} (n : Nat) (read : Cursor → Attempts G.Rule → Reply G.Rule α)
    (plain : Cursor → Option (α × Cursor)) : Prop :=
  ∀ c a, c.rest.length ≤ n → (read c a).1 = plain c

theorem repeatRead_evalMore {α : Type} {read : Cursor → Attempts G.Rule → Reply G.Rule α}
    {plain : Cursor → Option (α × Cursor)} {skip : Cursor → Cursor}
    (hskip : ∀ c, (skip c).rest.length ≤ c.rest.length) (hread : ∀ c a, Shortens false c (read c a).1) {n : Nat}
    (hplain : AgreesTo n read plain) (fuel : Nat) {done : List α} (hdone : done ≠ []) {c : Cursor}
    (a : Attempts G.Rule) (hc : c.rest.length ≤ n) :
    (repeatRead read skip fuel done c a).1 =
      some (done.reverse ++ (evalMore plain skip fuel c).1, (evalMore plain skip fuel c).2) := by
  induction fuel generalizing done c a with
  | zero => simp [repeatRead, evalMore]
  | succ fuel ih =>
    have hle := hskip c
    have hp := hplain (skip c) a (by omega)
    rw [repeatRead, if_neg (by simpa using hdone), evalMore]
    cases hr : read (skip c) a with
    | mk r a' =>
      rw [hr] at hp
      rw [← hp]
      cases r with
      | none => simp
      | some r =>
        obtain ⟨x, d⟩ := r
        have hlt := (hread (skip c) a x d (congrArg Prod.fst hr)).2 rfl
        dsimp only
        rw [ih (by simp) a' (by omega)]
        simp

theorem repeatRead_evalMany {α : Type} {read : Cursor → Attempts G.Rule → Reply G.Rule α}
    {plain : Cursor → Option (α × Cursor)} {skip : Cursor → Cursor}
    (hskip : ∀ c, (skip c).rest.length ≤ c.rest.length) (hread : ∀ c a, Shortens false c (read c a).1) {n fuel : Nat}
    (hplain : AgreesTo n read plain) {c : Cursor} (a : Attempts G.Rule) (hc : c.rest.length ≤ n)
    (hfuel : c.rest.length < fuel) : (repeatRead read skip fuel [] c a).1 = some (evalMany plain skip c) := by
  obtain ⟨fuel, rfl⟩ := Nat.exists_eq_add_of_lt hfuel
  have hp := hplain c a hc
  rw [repeatRead, if_pos (by rfl), evalMany]
  cases hr : read c a with
  | mk r a' =>
    rw [hr] at hp
    rw [← hp]
    cases r with
    | none => rfl
    | some r =>
      obtain ⟨x, d⟩ := r
      have hlt := (hread c a x d (congrArg Prod.fst hr)).2 rfl
      have hshort : ∀ c : Cursor, c.rest.length ≤ n → Shortens false c (plain c) := by
        intro c hc
        rw [← hplain c a hc]
        exact hread c a
      dsimp only
      rw [repeatRead_evalMore hskip hread hplain _ (List.cons_ne_nil x []) a' (by omega)]
      rw [evalMore_of_le hskip hshort (by omega) (by omega)]
      rfl

/-- The readers agree with fuelled ones on every call that an expression may make from a place of length `n`. -/
structure AgreesOn (rules : FuelledReaders G) (ρ : G.Readers) (n : Nat) (heads : List G.Rule) : Prop where
  short (r : G.Rule) (mode : Mode) (c : Cursor) (a : Attempts G.Rule) :
    c.rest.length < n → (rules r mode c a).1 = ρ r mode.spaced c
  head (r : G.Rule) (mode : Mode) (c : Cursor) (a : Attempts G.Rule) :
    c.rest.length ≤ n → r ∈ heads → (rules r mode c a).1 = ρ r mode.spaced c

theorem AgreesOn.mono {rules : FuelledReaders G} {ρ : G.Readers} {n m : Nat} {hs ks : List G.Rule}
    (h : AgreesOn rules ρ n hs) (hm : m ≤ n) (hks : ∀ r ∈ ks, r ∈ hs) : AgreesOn rules ρ m ks :=
  ⟨fun r mode c a hc => h.short r mode c a (by omega), fun r mode c a hc hr => h.head r mode c a (by omega) (hks r hr)⟩

theorem AgreesOn.shorter {rules : FuelledReaders G} {ρ : G.Readers} {n m : Nat} {hs : List G.Rule}
    (h : AgreesOn rules ρ n hs) (hm : m < n) (ks : List G.Rule) : AgreesOn rules ρ m ks :=
  ⟨fun r mode c a hc => h.short r mode c a (by omega), fun r mode c a hc _ => h.short r mode c a (by omega)⟩

theorem readExpr_eval {reps : Nat} {rules : FuelledReaders G} {ρ : G.Readers}
    (hrules : ∀ r mode c a, Shortens (R.nullable r) c (rules r mode c a).1) (mode : Mode) {α : Type}
    (e : Peg G.Rule G.Result α) (he : e.productive R.nullable = true) {n : Nat} (hreps : n < reps)
    (h : AgreesOn rules ρ n (e.heads R.nullable)) :
    AgreesTo n (readExpr G reps rules mode e) (evalExpr G ρ mode.spaced e) := by
  induction e generalizing n with
  | pure y => exact fun c a _ => rfl
  | char accepts =>
    intro c a _
    obtain ⟨rest, p⟩ := c
    cases rest <;> rfl
  | oneOf texts => exact fun c a _ => rfl
  | finish => exact fun c a _ => rfl
  | rule r => exact fun c a hc => h.head r mode c a hc (List.mem_singleton.mpr rfl)
  | map f e ih =>
    intro c a hc
    simp only [readExpr, evalExpr, ← ih he hreps h c a hc]
    rcases readExpr G reps rules mode e c a with ⟨_ | ⟨x, d⟩, a'⟩ <;> rfl
  | seq e₁ e₂ ih₁ ih₂ =>
    intro c a hc
    obtain ⟨he₁, he₂⟩ := Bool.and_eq_true_iff.mp he
    have h₁ : AgreesOn rules ρ n (e₁.heads R.nullable) := h.mono (Nat.le_refl _) fun r hr => List.mem_append_left _ hr
    simp only [readExpr, evalExpr, ← ih₁ he₁ hreps h₁ c a hc]
    cases hr : readExpr G reps rules mode e₁ c a with
    | mk r a' =>
      cases r with
      | none => rfl
      | some r =>
        obtain ⟨x, d⟩ := r
        have hshort := readExpr_shortens R reps hrules mode e₁ c a x d (congrArg Prod.fst hr)
        -- behind something that took a character the second part is read at a shorter place
        have h₂ : (readExpr G reps rules mode e₂ (G.skipIf mode.spaced d) a').1 =
            evalExpr G ρ mode.spaced e₂ (G.skipIf mode.spaced d) := by
          have hle := skipIf_le R mode.spaced d
          cases hn : e₁.nullable R.nullable with
          | true =>
            refine ih₂ he₂ hreps (h.mono (Nat.le_refl _) fun r hr => ?_) _ a' (by omega)
            exact List.mem_append_right _ (by simpa [hn] using hr)
          | false =>
            have hlt := hshort.2 hn
            exact ih₂ he₂ (n := d.rest.length) (by omega) (h.shorter (by omega) _) _ a' hle
        simp only [skipIf] at h₂ ⊢
        rw [← h₂]
        rcases readExpr G reps rules mode e₂ _ a' with ⟨_ | ⟨y, d'⟩, a''⟩ <;> rfl
  | choice e₁ e₂ ih₁ ih₂ =>
    intro c a hc
    obtain ⟨he₁, he₂⟩ := Bool.and_eq_true_iff.mp he
    have h₁ := h.mono (Nat.le_refl n) fun r hr => List.mem_append_left (e₂.heads R.nullable) hr
    have h₂ := h.mono (Nat.le_refl n) fun r hr => List.mem_append_right (e₁.heads R.nullable) hr
    simp only [readExpr, evalExpr, ← ih₁ he₁ hreps h₁ c a hc]
    rcases readExpr G reps rules mode e₁ c a with ⟨_ | ⟨x, d⟩, a'⟩
    · exact ih₂ he₂ hreps h₂ c a' hc
    · rfl
  | many e ih =>
    intro c a hc
    obtain ⟨hn, he⟩ := Bool.and_eq_true_iff.mp he
    have hread : ∀ c a, Shortens false c (readExpr G reps rules mode e c a).1 := by
      have := readExpr_shortens R reps hrules mode e
      rwa [show e.nullable R.nullable = false by simpa using hn] at this
    simp only [readExpr, evalExpr, skipIf_eq_ite]
    exact repeatRead_evalMany (skipIf_le R mode.spaced) hread (ih he hreps h) a hc (by omega)
  | option e ih =>
    intro c a hc
    simp only [readExpr, evalExpr, ← ih he hreps h c a hc]
    rcases readExpr G reps rules mode e c a with ⟨_ | ⟨x, d⟩, a'⟩ <;> rfl
  | «unless» e ih =>
    intro c a hc
    simp only [readExpr, evalExpr, ← ih he hreps h c a hc]
    rcases readExpr G reps rules mode e c a with ⟨_ | ⟨x, d⟩, a'⟩ <;> rfl
  | placed e ih =>
    intro c a hc
    simp only [readExpr, evalExpr, ← ih he hreps h c a hc]
    rcases readExpr G reps rules mode e c a with ⟨_ | ⟨x, d⟩, a'⟩ <;> rfl

/-- How the inside of a rule is read that is called spaced or not. -/
def spacedInside (r : G.Rule) (spaced : Bool) : Bool :=
  match G.kind r with
  | .plain => spaced
  | _ => false

/-- How the inside of a rule is read. -/
def insideOf (kind : RuleKind) (mode : Mode) : Mode :=
  match kind with
  | .plain => mode
  | .atomic => ⟨false, false⟩
  | .compound => ⟨false, true⟩

theorem insideOf_spaced (r : G.Rule) (mode : Mode) :
    (insideOf (G.kind r) mode).spaced = G.spacedInside r mode.spaced := by
  unfold insideOf spacedInside
  cases G.kind r <;> rfl

namespace Ranking

/-- Falls with every call of a rule: by the text that is left, then by the rank. -/
def measure (r : G.Rule) (c : Cursor) : Nat := c.rest.length * R.depth + R.rank r

theorem measure_of_shorter {r r' : G.Rule} {c c' : Cursor} (h : c'.rest.length < c.rest.length) :
    R.measure r' c' < R.measure r c := by
  have hr := R.rank_lt r'
  have hmul := Nat.mul_le_mul_right R.depth (Nat.succ_le_of_lt h)
  rw [Nat.succ_mul] at hmul
  unfold measure
  omega

theorem measure_of_head {r r' : G.Rule} {c c' : Cursor} (h : c'.rest.length ≤ c.rest.length)
    (hr : R.rank r' < R.rank r) : R.measure r' c' < R.measure r c := by
  have hmul := Nat.mul_le_mul_right R.depth h
  unfold measure
  omega

/-- What a rule yields at a place, and what is left. -/
def read (r : G.Rule) (spaced : Bool) (c : Cursor) : Option (G.Result r × Cursor) :=
  (readRule G (c.rest.length + 1) (R.measure r c + 1) r ⟨spaced, false⟩ c .start).1

/-- Readers that read the rules of smaller measure as the grammar does. -/
def Below (n : Nat) (ρ : G.Readers) : Prop := ∀ r spaced c, R.measure r c < n → ρ r spaced c = R.read r spaced c

theorem readRule_eval {reps fuel : Nat} {r : G.Rule} {mode : Mode} {c : Cursor} (a : Attempts G.Rule)
    (hreps : c.rest.length < reps) (hfuel : R.measure r c < fuel) {ρ : G.Readers} (hρ : R.Below (R.measure r c) ρ) :
    (readRule G reps fuel r mode c a).1 = evalExpr G ρ (spacedInside r mode.spaced) (G.body r) c := by
  generalize hn : R.measure r c = n at hfuel hρ
  induction n using Nat.strongRecOn generalizing reps fuel r mode c a ρ with
  | ind n ih =>
    obtain ⟨fuel, rfl⟩ := Nat.exists_eq_add_of_lt hfuel
    -- a call of smaller measure reads what its body reads, whatever fuel it is given
    have hcall (r') (mode' : Mode) (c') (a') (hlt : R.measure r' c' < n) (hle : c'.rest.length ≤ c.rest.length) :
        (readRule G reps (n + fuel) r' mode' c' a').1 = ρ r' mode'.spaced c' := by
      have hρ' : R.Below (R.measure r' c') ρ := fun r s c h => hρ r s c (by omega)
      rw [hρ r' mode'.spaced c' hlt, read, ih _ hlt a' (by omega) rfl (by omega) hρ',
        ih _ hlt .start (Nat.lt_succ_self _) rfl (Nat.lt_succ_self _) hρ']
    have hon : AgreesOn (readRule G reps (n + fuel)) ρ c.rest.length ((G.body r).heads R.nullable) := by
      constructor
      · intro r' mode' c' a' hlt
        have : R.measure r' c' < R.measure r c := R.measure_of_shorter hlt
        exact hcall r' mode' c' a' (by omega) (by omega)
      · intro r' mode' c' a' hle hr'
        have := R.measure_of_head hle (R.heads_lt r r' hr')
        exact hcall r' mode' c' a' (by omega) hle
    have heval (inside : Mode) := readExpr_eval R (readRule_shortens R reps (n + fuel)) inside (G.body r) (R.productive r)
      hreps hon c a (Nat.le_refl _)
    have hinside : (readRule G reps (n + fuel + 1) r mode c a).1 = (readExpr G reps (readRule G reps (n + fuel))
        (insideOf (G.kind r) mode) (G.body r) c a).1 := by
      rw [readRule]
      split
      · next hx => exact (congrArg Prod.fst hx).symm
      · next hx => exact (congrArg Prod.fst hx).symm
    rw [hinside, heval, insideOf_spaced]

/-- Readers of rules at the places where this cannot go on for ever. -/
def below (n : Nat) : G.Readers := fun r spaced c => if R.measure r c < n then R.read r spaced c else none

theorem read_eq (r : G.Rule) (spaced : Bool) (c : Cursor) :
    R.read r spaced c = evalExpr G R.read (spacedInside r spaced) (G.body r) c :=
  R.readRule_eval _ (Nat.lt_succ_self _) (Nat.lt_succ_self _) fun _ _ _ _ => rfl

/-- What holds of all that a body yields, if it holds of what the rules in it yield, holds of all that is read. -/
theorem read_induct {P : (r : G.Rule) → Bool → Cursor → G.Result r → Cursor → Prop}
    (step : ∀ (ρ : G.Readers) r spaced c x d, R.Below (R.measure r c) ρ →
      (∀ r' spaced' c' x' d', ρ r' spaced' c' = some (x', d') →
        R.read r' spaced' c' = some (x', d') ∧ P r' spaced' c' x' d') →
      R.read r spaced c = some (x, d) → evalExpr G ρ (spacedInside r spaced) (G.body r) c = some (x, d) →
      P r spaced c x d) {r : G.Rule} {spaced : Bool} {c : Cursor} {x : G.Result r} {d : Cursor}
    (h : R.read r spaced c = some (x, d)) : P r spaced c x d := by
  generalize hn : R.measure r c = n
  induction n using Nat.strongRecOn generalizing r spaced c x d with
  | ind n ih =>
    have hbelow : R.Below (R.measure r c) (R.below n) := by
      intro r' s' c' hlt
      rw [below, if_pos (hn ▸ hlt)]
    have heval : R.read r spaced c = evalExpr G (R.below n) (spacedInside r spaced) (G.body r) c :=
      R.readRule_eval _ (Nat.lt_succ_self _) (Nat.lt_succ_self _) hbelow
    refine step (R.below n) r spaced c x d hbelow ?_ h (heval ▸ h)
    intro r' s' c' x' d' hread
    rw [below] at hread
    split at hread
    · next hlt => exact ⟨hread, ih _ hlt hread rfl⟩
    · cases hread

theorem parse_ok {r : G.Rule} {text : String} {x : G.Result r} :
    G.parse R.depth r text = .ok x ↔ ∃ d, R.read r true (Cursor.ofString text) = some (x, d) := by
  have hfuel : R.measure r (Cursor.ofString text) < ((Cursor.ofString text).rest.length + 1) * R.depth := by
    have := R.rank_lt r
    rw [Nat.succ_mul]
    unfold measure
    omega
  have heval : (readRule G ((Cursor.ofString text).rest.length + 1) (((Cursor.ofString text).rest.length + 1) * R.depth) r
      ⟨true, true⟩ (Cursor.ofString text) .start).1 = _ :=
    R.readRule_eval .start (Nat.lt_succ_self _) hfuel fun _ _ _ _ => rfl
  rw [R.read_eq, ← heval, Grammar.parse]
  rcases readRule G _ _ r _ _ _ with ⟨_ | ⟨y, d⟩, a⟩
  · simp
  · simp

end Ranking

end Grammar
end BilingualLogic
