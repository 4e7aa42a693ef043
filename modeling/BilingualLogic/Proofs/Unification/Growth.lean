import BilingualLogic.Unification
import BilingualLogic.Proofs.Substitution.Walk
import BilingualLogic.Proofs.Term.WellFormed

/-!
Unification only binds: from a substitution whose walks end it makes bindings of unbound variables, one by one, to
parts of the two terms and of the values that are there already.
-/

namespace BilingualLogic

open Substitution

variable {P : Term → Prop}

/-- From terms with the property, in substitutions that do not lead out of it, what is unified grows within it. -/
def GrowsBy (P : Term → Prop) (u : Term → Term → Substitution → Bounded (Option Substitution)) : Prop :=
  ∀ {a b : Term} {s s' : Substitution}, s.Walkable → s.Closed P → P a → P b → u a b s = some (some s') → Grows P s s'

variable {u : Term → Term → Substitution → Bounded (Option Substitution)}

theorem unifyAllBy_grows (hu : GrowsBy P u) {as bs : List Term} {s s' : Substitution} (hw : s.Walkable)
    (hs : s.Closed P) (has : ∀ a ∈ as, P a) (hbs : ∀ b ∈ bs, P b) (h : unifyAllBy u as bs s = some (some s')) :
    Grows P s s' := by
  induction as generalizing bs s with
  | nil =>
    cases bs with
    | nil =>
      cases h
      exact .refl
    | cons b bs => cases h
  | cons a as ih =>
    cases bs with
    | nil => cases h
    | cons b bs =>
      rw [unifyAllBy] at h
      split at h
      · next s₁ hab =>
        have hg := hu hw hs (has a (by simp)) (hbs b (by simp)) hab
        exact hg.trans (ih (hg.walkable hw) (hg.closed hs) (fun a ha => has a (by simp [ha]))
          (fun b hb => hbs b (by simp [hb])) h)
      · next hab => exact absurd h (hab s')

theorem unifyFrontBy_grows (hP : Hereditary P) (hu : GrowsBy P u) {as : List Term} {a : Term} {bs : List Term}
    {s s' : Substitution} (hw : s.Walkable) (hs : s.Closed P) (has : ∀ a ∈ as, P a) (ha : P a) (hbs : ∀ b ∈ bs, P b)
    (h : unifyFrontBy u as a bs s = some (some s')) : Grows P s s' := by
  unfold unifyFrontBy at h
  split at h
  · cases h
  · split at h
    · next s₁ hfront =>
      have hg := unifyAllBy_grows hu hw hs has (fun b hb => hbs b (List.mem_of_mem_take hb)) hfront
      have hrest : P (.list (bs.drop as.length)) := hP.list.mpr fun b hb => hbs b (List.mem_of_mem_drop hb)
      exact hg.trans (hu (hg.walkable hw) (hg.closed hs) ha hrest h)
    · next hfront => exact absurd h (hfront s')

theorem unifyPatternsBy_grows (hP : Hereditary P) (hu : GrowsBy P u) {as : List Term} {a : Term} {bs : List Term}
    {b : Term} {s s' : Substitution} (hw : s.Walkable) (hs : s.Closed P) (has : ∀ a ∈ as, P a) (ha : P a)
    (hbs : ∀ b ∈ bs, P b) (hb : P b) (h : unifyPatternsBy u as a bs b s = some (some s')) : Grows P s s' := by
  unfold unifyPatternsBy at h
  dsimp only at h
  split at h
  · next s₁ hfront =>
    have hg := unifyAllBy_grows hu hw hs (fun a ha => has a (List.mem_of_mem_take ha))
      (fun b hb => hbs b (List.mem_of_mem_take hb)) hfront
    have hl : P (.cons (as.drop (min as.length bs.length)) a) :=
      hP.cons (fun c hc => has c (List.mem_of_mem_drop hc)) ha
    have hr : P (.cons (bs.drop (min as.length bs.length)) b) :=
      hP.cons (fun c hc => hbs c (List.mem_of_mem_drop hc)) hb
    exact hg.trans (hu (hg.walkable hw) (hg.closed hs) hl hr h)
  · next hfront => exact absurd h (hfront s')

theorem unify_growsBy (hP : Hereditary P) (n : Nat) : GrowsBy P (unify n) := by
  induction n with
  | zero =>
    intro a b s s' _ _ _ _ h
    cases h
  | succ n ih =>
    intro a b s s' hw hs ha hb h
    have hl := hs.walk ha
    have hr := hs.walk hb
    have el := hw a
    have er := hw b
    rw [unify] at h
    generalize s.walk a = a at hl el h
    generalize s.walk b = b at hr er h
    split at h
    · next x y =>
      split at h
      · cases h
        exact .refl
      · next hxy =>
        cases h
        exact .bind .refl (el x rfl) er (by rintro ⟨⟩; exact hxy rfl) hl hr
    · next x hy =>
      cases h
      exact .bind .refl (el x rfl) er (hy x) hl hr
    · next x hx =>
      cases h
      exact .bind .refl (er x rfl) el (hx x) hr hl
    · split at h
      · cases h
        exact .refl
      · cases h
    · split at h
      · exact unifyAllBy_grows ih hw hs (hP.list.mp hl) (hP.list.mp hr) h
      · cases h
    · exact unifyFrontBy_grows hP ih hw hs (hP.pattern hl).1 (hP.pattern hl).2 (hP.list.mp hr) h
    · exact unifyFrontBy_grows hP ih hw hs (hP.pattern hr).1 (hP.pattern hr).2 (hP.list.mp hl) h
    · exact unifyPatternsBy_grows hP ih hw hs (hP.pattern hl).1 (hP.pattern hl).2 (hP.pattern hr).1
        (hP.pattern hr).2 h
    · cases h

theorem unify_grows (hP : Hereditary P) (n : Nat) {a b : Term} {s s' : Substitution} (hw : s.Walkable) (hs : s.All P)
    (ha : P a) (hb : P b) (h : unify n a b s = some (some s')) : Grows P s s' :=
  unify_growsBy hP n hw hs.closed ha hb h

end BilingualLogic
