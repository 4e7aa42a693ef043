import BilingualLogic.Proofs.Substitution.Solves
import BilingualLogic.Proofs.Unification.Growth

/-!
Unification is exact: an environment solves what two terms were unified to under a substitution if it solves the
substitution and gives both terms one datum, and what has a solution is unified. The effort that suffices is the size
of that datum.
-/

namespace BilingualLogic

open Substitution

variable {ρ : String → Datum} {s : Substitution}

def Admits (ρ : String → Datum) : Option Substitution → Prop
  | none => False
  | some s => s.Solves ρ

/-- What is unified has the solutions that make both terms equal. -/
def ExactBy (ρ : String → Datum) (u : Term → Term → Substitution → Bounded (Option Substitution)) : Prop :=
  ∀ {a b : Term} {s : Substitution} {r : Option Substitution}, s.Walkable → s.All Term.WellFormed → a.WellFormed →
    b.WellFormed → u a b s = some r → (Admits ρ r ↔ s.Solves ρ ∧ a.eval ρ = b.eval ρ)

variable {u : Term → Term → Substitution → Bounded (Option Substitution)}

theorem unifyAllBy_exact (hg : GrowsBy Term.WellFormed u) (hu : ExactBy ρ u) {as bs : List Term}
    {r : Option Substitution} (hw : s.Walkable) (hs : s.All Term.WellFormed) (has : ∀ a ∈ as, a.WellFormed)
    (hbs : ∀ b ∈ bs, b.WellFormed) (h : unifyAllBy u as bs s = some r) :
    Admits ρ r ↔ s.Solves ρ ∧ as.map (Term.eval ρ) = bs.map (Term.eval ρ) := by
  induction as generalizing bs s with
  | nil =>
    cases bs <;> cases h <;> simp [Admits]
  | cons a as ih =>
    cases bs with
    | nil =>
      cases h
      simp [Admits]
    | cons b bs =>
      have ha := has a (by simp)
      have hb := hbs b (by simp)
      rw [List.map_cons, List.map_cons, List.cons.injEq, ← and_assoc]
      rw [unifyAllBy] at h
      split at h
      · next s₁ hab =>
        have hgrow := hg hw hs.closed ha hb hab
        rw [← hu hw hs ha hb hab]
        exact ih (hgrow.walkable hw) (hgrow.all hs) (fun a ha => has a (by simp [ha]))
          (fun b hb => hbs b (by simp [hb])) h
      · next hab =>
        rw [← hu hw hs ha hb h]
        cases r with
        | none => simp [Admits]
        | some s' => exact absurd h (hab s')

theorem unifyFrontBy_exact (hg : GrowsBy Term.WellFormed u) (hu : ExactBy ρ u) {as : List Term} {a : Term}
    {bs : List Term} {r : Option Substitution} (hw : s.Walkable) (hs : s.All Term.WellFormed)
    (has : ∀ a ∈ as, a.WellFormed) (ha : a.WellFormed) (hbs : ∀ b ∈ bs, b.WellFormed)
    (h : unifyFrontBy u as a bs s = some r) :
    Admits ρ r ↔ s.Solves ρ ∧ (Term.pattern as a).eval ρ = (Term.list bs).eval ρ := by
  rw [Term.eval_pattern, Term.eval_list, Datum.cons_eq_list, List.length_map, List.length_map]
  unfold unifyFrontBy at h
  split at h
  · next hlen =>
    cases h
    simp only [Admits, false_iff]
    rintro ⟨-, hle, -⟩
    omega
  · next hlen =>
    have hle : as.length ≤ bs.length := by omega
    have hfront (b : Term) (hb : b ∈ bs.take as.length) : b.WellFormed := hbs b (List.mem_of_mem_take hb)
    have hrest : (Term.list (bs.drop as.length)).WellFormed :=
      Term.hereditary_wellFormed.list.mpr fun b hb => hbs b (List.mem_of_mem_drop hb)
    simp only [hle, true_and, ← List.map_take, ← List.map_drop, ← and_assoc, ← Term.eval_list]
    split at h
    · next s₁ hab =>
      have hgrow := unifyAllBy_grows hg hw hs.closed has hfront hab
      rw [← unifyAllBy_exact hg hu hw hs has hfront hab]
      exact hu (hgrow.walkable hw) (hgrow.all hs) ha hrest h
    · next hab =>
      rw [← unifyAllBy_exact hg hu hw hs has hfront h]
      cases r with
      | none => simp [Admits]
      | some s' => exact absurd h (hab s')

theorem unifyPatternsBy_exact (hρ : ∀ x, (ρ x).isProper) (hg : GrowsBy Term.WellFormed u) (hu : ExactBy ρ u)
    {as : List Term} {a : Term} {bs : List Term} {b : Term} {r : Option Substitution} (hw : s.Walkable)
    (hs : s.All Term.WellFormed) (has : ∀ a ∈ as, a.WellFormed) (ha : a.WellFormed) (hbs : ∀ b ∈ bs, b.WellFormed)
    (hb : b.WellFormed) (h : unifyPatternsBy u as a bs b s = some r) :
    Admits ρ r ↔ s.Solves ρ ∧ (Term.pattern as a).eval ρ = (Term.pattern bs b).eval ρ := by
  unfold unifyPatternsBy at h
  dsimp only at h
  have hka : min as.length bs.length ≤ as.length := Nat.min_le_left _ _
  have hkb : min as.length bs.length ≤ bs.length := Nat.min_le_right _ _
  generalize min as.length bs.length = k at h hka hkb
  rw [Term.eval_pattern, Term.eval_pattern, Datum.cons_eq_cons (Term.isProper_eval hρ a) (Term.isProper_eval hρ b)
    (by simpa using hka) (by simpa using hkb)]
  have hta (c : Term) (hc : c ∈ as.take k) : c.WellFormed := has c (List.mem_of_mem_take hc)
  have htb (c : Term) (hc : c ∈ bs.take k) : c.WellFormed := hbs c (List.mem_of_mem_take hc)
  have hda : (Term.cons (as.drop k) a).WellFormed :=
    Term.hereditary_wellFormed.cons (fun c hc => has c (List.mem_of_mem_drop hc)) ha
  have hdb : (Term.cons (bs.drop k) b).WellFormed :=
    Term.hereditary_wellFormed.cons (fun c hc => hbs c (List.mem_of_mem_drop hc)) hb
  simp only [← List.map_take, ← List.map_drop, ← and_assoc, ← Term.eval_cons]
  split at h
  · next s₁ hab =>
    have hgrow := unifyAllBy_grows hg hw hs.closed hta htb hab
    rw [← unifyAllBy_exact hg hu hw hs hta htb hab]
    exact hu (hgrow.walkable hw) (hgrow.all hs) hda hdb h
  · next hab =>
    rw [← unifyAllBy_exact hg hu hw hs hta htb h]
    cases r with
    | none => simp [Admits]
    | some s' => exact absurd h (hab s')

theorem Term.isTail_eval {t : Term} (h : t.WellFormed) (ht : t.isTail = false) : (t.eval ρ).isTail = false := by
  cases t with
  | var x => cases ht
  | const v => cases ht
  | list as => rfl
  | pattern as a =>
    rw [eval_pattern]
    obtain ⟨c, cs, rfl⟩ := List.exists_cons_of_ne_nil h.items_ne_nil
    rw [List.map_cons, Datum.cons_cons]
    cases Datum.cons (cs.map (eval ρ)) (a.eval ρ) <;> rfl

theorem Term.eval_ne_datum {t : Term} (h : t.WellFormed) (ht : t.isTail = false) (v : Value) :
    t.eval ρ ≠ v.datum := by
  intro heq
  have htail : (t.eval ρ).isTail = false := isTail_eval h ht
  rw [heq, isTail_datum] at htail
  cases htail

theorem unify_exactBy (hρ : ∀ x, (ρ x).isProper) (n : Nat) : ExactBy ρ (unify n) := by
  induction n with
  | zero =>
    intro a b s r _ _ _ _ h
    cases h
  | succ n ih =>
    intro a b s r hw hs ha hb h
    have hl := hs.walk ha
    have hr := hs.walk hb
    have el := hw a
    have er := hw b
    have hwalk : s.Solves ρ ∧ a.eval ρ = b.eval ρ ↔ s.Solves ρ ∧ (s.walk a).eval ρ = (s.walk b).eval ρ :=
      and_congr_right fun h => by rw [h.walk, h.walk]
    rw [hwalk]
    rw [unify] at h
    have hg : GrowsBy Term.WellFormed (unify n) := unify_growsBy Term.hereditary_wellFormed n
    generalize s.walk a = a at hl el h ⊢
    generalize s.walk b = b at hr er h ⊢
    split at h
    · next x y =>
      cases h
      split
      · next hxy => simp [Admits, hxy]
      · simp [Admits, solves_bind (el x rfl)]
    · next x _ =>
      cases h
      simp [Admits, solves_bind (el x rfl)]
    · next x _ =>
      cases h
      rw [eq_comm (a := a.eval ρ)]
      simp [Admits, solves_bind (er x rfl)]
    · next v w =>
      cases h
      rw [Term.eval_const, Term.eval_const, ← Value.loose_iff hl.2 hr.2]
      split <;> simp_all [Admits]
    · next as bs =>
      rw [Term.eval_list, Term.eval_list, Datum.list.injEq]
      split at h
      · exact unifyAllBy_exact hg ih hw hs (Term.hereditary_wellFormed.list.mp hl)
          (Term.hereditary_wellFormed.list.mp hr) h
      · next hlen =>
        cases h
        simp only [Admits, false_iff]
        rintro ⟨-, heq⟩
        exact hlen (by simpa using congrArg List.length heq)
    · have hp := Term.hereditary_wellFormed.pattern hl
      exact unifyFrontBy_exact hg ih hw hs hp.1 hp.2 (Term.hereditary_wellFormed.list.mp hr) h
    · have hp := Term.hereditary_wellFormed.pattern hr
      rw [eq_comm (a := Term.eval ρ _)]
      exact unifyFrontBy_exact hg ih hw hs hp.1 hp.2 (Term.hereditary_wellFormed.list.mp hl) h
    · have hp := Term.hereditary_wellFormed.pattern hl
      have hq := Term.hereditary_wellFormed.pattern hr
      exact unifyPatternsBy_exact hρ hg ih hw hs hp.1 hp.2 hq.1 hq.2 h
    · next hx hy _ hconst hlist hpl hlp hpp =>
      -- what is left is a value on one side and a list or a pattern on the other
      cases h
      simp only [Admits, false_iff]
      rintro ⟨-, heq⟩
      cases a with
      | var x => exact hx x rfl
      | const v =>
        rw [Term.eval_const] at heq
        cases b with
        | var y => exact hy y rfl
        | const w => exact hconst v w rfl rfl
        | list bs => exact Term.eval_ne_datum hr rfl v heq.symm
        | pattern bs b => exact Term.eval_ne_datum hr rfl v heq.symm
      | list as =>
        cases b with
        | var y => exact hy y rfl
        | const w => exact Term.eval_ne_datum hl rfl w (by simpa using heq)
        | list bs => exact hlist as bs rfl rfl
        | pattern bs b => exact hlp as bs b rfl rfl
      | pattern as a =>
        cases b with
        | var y => exact hy y rfl
        | const w => exact Term.eval_ne_datum hl rfl w (heq.trans (Term.eval_const ρ w))
        | list bs => exact hpl as a bs rfl rfl
        | pattern bs b => exact hpp as a bs b rfl rfl

/-- Terms that a solution gives one datum are unified if the effort exceeds the size of the datum. -/
def ReturnsBy (ρ : String → Datum) (n : Nat) (u : Term → Term → Substitution → Bounded (Option Substitution)) : Prop :=
  ∀ {a b : Term} {s : Substitution}, s.Walkable → s.All Term.WellFormed → a.WellFormed → b.WellFormed → s.Solves ρ →
    a.eval ρ = b.eval ρ → (a.eval ρ).size < n → ∃ s', u a b s = some (some s') ∧ s'.Solves ρ

theorem unifyAllBy_returns {n : Nat} (hg : GrowsBy Term.WellFormed u) (hu : ReturnsBy ρ n u) {as bs : List Term}
    (hw : s.Walkable) (hs : s.All Term.WellFormed) (has : ∀ a ∈ as, a.WellFormed) (hbs : ∀ b ∈ bs, b.WellFormed)
    (hρ : s.Solves ρ) (heq : as.map (Term.eval ρ) = bs.map (Term.eval ρ))
    (hn : Datum.sizeAll (as.map (Term.eval ρ)) < n) :
    ∃ s', unifyAllBy u as bs s = some (some s') ∧ s'.Solves ρ := by
  induction as generalizing bs s with
  | nil =>
    obtain rfl : bs = [] := by simpa using heq.symm
    exact ⟨s, rfl, hρ⟩
  | cons a as ih =>
    cases bs with
    | nil => cases heq
    | cons b bs =>
      rw [List.map_cons, List.map_cons, List.cons.injEq] at heq
      rw [List.map_cons, Datum.sizeAll] at hn
      have ha := has a (by simp)
      have hb := hbs b (by simp)
      obtain ⟨s₁, hab, hρ₁⟩ := hu hw hs ha hb hρ heq.1 (by omega)
      have hgrow := hg hw hs.closed ha hb hab
      rw [unifyAllBy, hab]
      exact ih (hgrow.walkable hw) (hgrow.all hs) (fun a ha => has a (by simp [ha])) (fun b hb => hbs b (by simp [hb]))
        hρ₁ heq.2 (by omega)

theorem unifyFrontBy_returns {n : Nat} (hg : GrowsBy Term.WellFormed u) (hu : ReturnsBy ρ n u) {as : List Term}
    {a : Term} {bs : List Term} (hne : as ≠ []) (hw : s.Walkable) (hs : s.All Term.WellFormed)
    (has : ∀ a ∈ as, a.WellFormed) (ha : a.WellFormed) (hbs : ∀ b ∈ bs, b.WellFormed) (hρ : s.Solves ρ)
    (heq : (Term.pattern as a).eval ρ = (Term.list bs).eval ρ) (hn : ((Term.pattern as a).eval ρ).size < n + 1) :
    ∃ s', unifyFrontBy u as a bs s = some (some s') ∧ s'.Solves ρ := by
  have hitems : 0 < Datum.sizeAll (as.map (Term.eval ρ)) := Datum.sizeAll_pos (by simpa using hne)
  have hrest := Datum.size_pos (a.eval ρ)
  rw [Term.eval_pattern, Datum.size_cons] at hn
  rw [Term.eval_pattern, Term.eval_list, Datum.cons_eq_list, List.length_map, List.length_map, ← List.map_take,
    ← List.map_drop, ← Term.eval_list] at heq
  obtain ⟨hle, hfront, heq⟩ := heq
  have htake (b : Term) (hb : b ∈ bs.take as.length) : b.WellFormed := hbs b (List.mem_of_mem_take hb)
  obtain ⟨s₁, hab, hρ₁⟩ := unifyAllBy_returns hg hu hw hs has htake hρ hfront (by omega)
  have hgrow := unifyAllBy_grows hg hw hs.closed has htake hab
  rw [unifyFrontBy, if_neg (by omega), hab]
  exact hu (hgrow.walkable hw) (hgrow.all hs) ha
    (Term.hereditary_wellFormed.list.mpr fun b hb => hbs b (List.mem_of_mem_drop hb)) hρ₁ heq (by omega)

theorem unifyPatternsBy_returns {n : Nat} (hρ : ∀ x, (ρ x).isProper) (hg : GrowsBy Term.WellFormed u)
    (hu : ReturnsBy ρ n u) {as : List Term} {a : Term} {bs : List Term} {b : Term} (hna : as ≠ []) (hnb : bs ≠ [])
    (hw : s.Walkable) (hs : s.All Term.WellFormed) (has : ∀ a ∈ as, a.WellFormed) (ha : a.WellFormed)
    (hbs : ∀ b ∈ bs, b.WellFormed) (hb : b.WellFormed) (hsol : s.Solves ρ)
    (heq : (Term.pattern as a).eval ρ = (Term.pattern bs b).eval ρ)
    (hn : ((Term.pattern as a).eval ρ).size < n + 1) :
    ∃ s', unifyPatternsBy u as a bs b s = some (some s') ∧ s'.Solves ρ := by
  have hka : min as.length bs.length ≤ as.length := Nat.min_le_left _ _
  have hkb : min as.length bs.length ≤ bs.length := Nat.min_le_right _ _
  have hk : 0 < min as.length bs.length :=
    Nat.lt_min.mpr ⟨List.length_pos_iff.mpr hna, List.length_pos_iff.mpr hnb⟩
  unfold unifyPatternsBy
  dsimp only
  generalize min as.length bs.length = k at hka hkb hk ⊢
  rw [Term.eval_pattern, Term.eval_pattern, Datum.cons_eq_cons (Term.isProper_eval hρ a) (Term.isProper_eval hρ b)
    (by simpa using hka) (by simpa using hkb), ← List.map_take, ← List.map_take, ← List.map_drop, ← List.map_drop,
    ← Term.eval_cons, ← Term.eval_cons] at heq
  have hsize : Datum.sizeAll ((as.take k).map (Term.eval ρ)) + ((Term.cons (as.drop k) a).eval ρ).size < n + 1 := by
    rw [Term.eval_cons, ← Datum.size_cons, ← Datum.cons_append, ← List.map_append, List.take_append_drop]
    rwa [Term.eval_pattern] at hn
  have hrest := Datum.size_pos ((Term.cons (as.drop k) a).eval ρ)
  have hitems : 0 < Datum.sizeAll ((as.take k).map (Term.eval ρ)) :=
    Datum.sizeAll_pos (by simp [hna]; omega)
  have hta (c : Term) (hc : c ∈ as.take k) : c.WellFormed := has c (List.mem_of_mem_take hc)
  have htb (c : Term) (hc : c ∈ bs.take k) : c.WellFormed := hbs c (List.mem_of_mem_take hc)
  obtain ⟨s₁, hab, hρ₁⟩ := unifyAllBy_returns hg hu hw hs hta htb hsol heq.1 (by omega)
  have hgrow := unifyAllBy_grows hg hw hs.closed hta htb hab
  rw [hab]
  exact hu (hgrow.walkable hw) (hgrow.all hs)
    (Term.hereditary_wellFormed.cons (fun c hc => has c (List.mem_of_mem_drop hc)) ha)
    (Term.hereditary_wellFormed.cons (fun c hc => hbs c (List.mem_of_mem_drop hc)) hb) hρ₁ heq.2 (by omega)

theorem unify_returnsBy (hρ : ∀ x, (ρ x).isProper) (n : Nat) : ReturnsBy ρ n (unify n) := by
  induction n with
  | zero =>
    intro a b s _ _ _ _ _ _ h
    cases h
  | succ n ih =>
    intro a b s hw hs ha hb hsol heq hn
    have hl := hs.walk ha
    have hr := hs.walk hb
    rw [← hsol.walk a] at heq hn
    rw [← hsol.walk b] at heq
    have hg : GrowsBy Term.WellFormed (unify n) := unify_growsBy Term.hereditary_wellFormed n
    -- exactness says what is returned, if anything is
    suffices hr : ∃ r, unify (n + 1) a b s = some r by
      obtain ⟨r, h⟩ := hr
      have hex := (unify_exactBy hρ (n + 1) hw hs ha hb h).mpr ⟨hsol, by rwa [hsol.walk, hsol.walk] at heq⟩
      cases r with
      | none => cases hex
      | some s' => exact ⟨s', h, hex⟩
    rw [unify]
    generalize s.walk a = a at hl heq hn ⊢
    generalize s.walk b = b at hr heq ⊢
    split
    · exact ⟨_, rfl⟩
    · exact ⟨_, rfl⟩
    · exact ⟨_, rfl⟩
    · exact ⟨_, rfl⟩
    · next as bs =>
      rw [Term.eval_list, Term.eval_list, Datum.list.injEq] at heq
      rw [Term.eval_list, Datum.size] at hn
      rw [if_pos (by simpa using congrArg List.length heq)]
      obtain ⟨s', h, -⟩ := unifyAllBy_returns hg ih hw hs (Term.hereditary_wellFormed.list.mp hl)
        (Term.hereditary_wellFormed.list.mp hr) hsol heq (by omega)
      exact ⟨_, h⟩
    · have hp := Term.hereditary_wellFormed.pattern hl
      obtain ⟨s', h, -⟩ := unifyFrontBy_returns hg ih hl.items_ne_nil hw hs hp.1 hp.2
        (Term.hereditary_wellFormed.list.mp hr) hsol heq hn
      exact ⟨_, h⟩
    · have hp := Term.hereditary_wellFormed.pattern hr
      obtain ⟨s', h, -⟩ := unifyFrontBy_returns hg ih hr.items_ne_nil hw hs hp.1 hp.2
        (Term.hereditary_wellFormed.list.mp hl) hsol heq.symm (by rwa [← heq])
      exact ⟨_, h⟩
    · have hp := Term.hereditary_wellFormed.pattern hl
      have hq := Term.hereditary_wellFormed.pattern hr
      obtain ⟨s', h, -⟩ := unifyPatternsBy_returns hρ hg ih hl.items_ne_nil hr.items_ne_nil hw hs hp.1 hp.2 hq.1 hq.2
        hsol heq hn
      exact ⟨_, h⟩
    · exact ⟨_, rfl⟩

end BilingualLogic
