import BilingualLogic.Proofs.Names.Veil
import BilingualLogic.Proofs.Rendering.Goal
import BilingualLogic.Proofs.Rendering.Returns

/-!
The text of a clause is the text of what is shown of it, and the same is shown of what is written and read again.
-/

namespace BilingualLogic

section Text

variable {v : Vocabulary} {f : Term → Term}

theorem Decimal.text_normalize (a : Decimal) : a.normalize.text = a.text := by
  simp only [text, normalize, strip_strip]

theorem Term.render_veil (v : Vocabulary) (t : Term) : t.veil.render v = t.render v := by
  have all {as : List Term} (ih : ∀ a ∈ as, a.veil.render v = a.render v) :
      (veilAll as).map (render v) = as.map (render v) := by
    rw [veilAll_eq, List.map_map]
    exact List.map_congr_left ih
  induction t with
  | var x =>
    rw [veil, render, render, isHidden_shownName]
    cases hx : isHidden x with
    | true => rfl
    | false => rw [shownName_of_visible hx]
  | const w =>
    cases w with
    | number a =>
      change render v (const (.number a.normalize)) = _
      rw [render, render]
      exact a.text_normalize
    | _ => rfl
  | list as ih => rw [veil, render, render, all ih]
  | pattern as r ih ihr => rw [veil, render, render, all ih, ihr]

theorem Predicate.render_mapTerms (h : ∀ t, (f t).render v = t.render v) (p : Predicate) :
    (p.mapTerms f).render v = p.render v := by
  have hmap : (p.arguments.map f).map (Term.render v) = p.arguments.map (Term.render v) := by
    rw [List.map_map]
    exact List.map_congr_left fun t _ => h t
  rw [render, render, mapTerms, Term.renderAll, Term.renderAll, hmap, List.isEmpty_map]

theorem Formula.renderIn_mapTerms (h : ∀ t, (f t).render v = t.render v) (e : Formula) (outer : Nat) :
    (e.mapTerms f).renderIn v outer = e.renderIn v outer := by
  induction e generalizing outer with
  | term t => exact h t
  | negate a ih => rw [mapTerms, renderIn, renderIn, ih]
  | binary op a b iha ihb => rw [mapTerms, renderIn, renderIn, iha, ihb]

theorem Formula.render_mapTerms (h : ∀ t, (f t).render v = t.render v) (e : Formula) :
    (e.mapTerms f).render v = e.render v := e.renderIn_mapTerms h 0

namespace Goal

mutual

theorem render_mapTerms (h : ∀ t, (f t).render v = t.render v) (g : Goal) : (g.mapTerms f).render v = g.render v := by
  cases g with
  | call p => rw [mapTerms, render, render, p.render_mapTerms h]
  | cut => rfl
  | not goals => rw [mapTerms, render, render, renderNested_mapTermsAll h]
  | unify a b => rw [mapTerms, render, render, h, h]
  | is a e => rw [mapTerms, render, render, h, e.render_mapTerms h]
  | compare op a b => rw [mapTerms, render, render, a.render_mapTerms h, b.render_mapTerms h]
  | collect kind t goals r => rw [mapTerms, render, render, h, h, renderNested_mapTermsAll h]
  | assert head body => rw [mapTerms, render, render, renderClause_mapTermsAll h]
  | retract head body => rw [mapTerms, render, render, renderClause_mapTermsAll h]

theorem renderAll_mapTermsAll (h : ∀ t, (f t).render v = t.render v) (gs : List Goal) :
    renderAll v (mapTermsAll f gs) = renderAll v gs := by
  cases gs with
  | nil => rfl
  | cons g gs =>
    have hg := render_mapTerms h g
    have hgs := renderAll_mapTermsAll h gs
    cases gs with
    | nil => simpa [mapTermsAll, renderAll] using hg
    | cons g' gs =>
      rw [mapTermsAll] at hgs
      simp [mapTermsAll, renderAll, hg, hgs]

theorem renderNested_mapTermsAll (h : ∀ t, (f t).render v = t.render v) (gs : List Goal) :
    renderNested v (mapTermsAll f gs) = renderNested v gs := by
  have hgs := renderAll_mapTermsAll h gs
  cases hbare : isBare gs with
  | true =>
    unfold isBare at hbare
    split at hbare
    · next p => simpa [mapTermsAll, mapTerms, renderNested] using p.render_mapTerms h
    · cases hbare
  | false =>
    have hmapped : isBare (mapTermsAll f gs) = false := by
      rw [← hbare]
      cases gs with
      | nil => rfl
      | cons g gs => cases g <;> cases gs <;> rfl
    rw [Language.renderNested_of_grouped v hbare, Language.renderNested_of_grouped v hmapped, hgs]

theorem renderClause_mapTermsAll (h : ∀ t, (f t).render v = t.render v) (head : Predicate) (gs : List Goal) :
    renderClause v (head.mapTerms f) (mapTermsAll f gs) = renderClause v head gs := by
  have hhead := head.render_mapTerms h
  have hgs := renderAll_mapTermsAll h gs
  cases gs with
  | nil => simpa [mapTermsAll, renderClause] using hhead
  | cons g gs =>
    rw [mapTermsAll] at hgs ⊢
    rw [renderClause, renderClause, hhead, hgs]
    all_goals simp

end

end Goal

theorem Clause.render_mapTerms (h : ∀ t, (f t).render v = t.render v) (c : Clause) :
    (c.mapTerms f).render v = c.render v := by
  have hfact : (c.mapTerms f).isFact = c.isFact := by
    rw [isFact, isFact, mapTerms]
    cases c.body <;> rfl
  rw [render, render, hfact, mapTerms, c.head.render_mapTerms h, Goal.renderAll_mapTermsAll h]

theorem Clause.render_eq_of_veil {c d : Clause} (h : c.mapTerms Term.veil = d.mapTerms Term.veil) (v : Vocabulary) :
    c.render v = d.render v := by
  rw [← c.render_mapTerms (Term.render_veil v), h, d.render_mapTerms (Term.render_veil v)]

end Text

namespace Term

theorem veil_reread (t : Term) (n : Nat) : (t.reread n).1.veil = t.veil := by
  have all {as : List Term} (ih : ∀ a ∈ as, ∀ n, (a.reread n).1.veil = a.veil) (n : Nat) :
      veilAll (rereadAll n as).1 = veilAll as := by
    induction as generalizing n with
    | nil => rfl
    | cons a as ihs =>
      obtain ⟨iha, ihas⟩ := List.forall_mem_cons.mp ih
      rw [rereadAll, veilAll, veilAll, iha, ihs ihas]
  induction t generalizing n with
  | var x =>
    rw [reread]
    split
    · next hx => rw [veil, veil, shownName_of_hidden hx, shownName_of_hidden (isHidden_anonymous n)]
    · rfl
  | const v =>
    cases v with
    | number a => exact congrArg (fun a => const (.number a)) a.normalize_normalize
    | _ => rfl
  | list as ih => rw [reread, veil, veil, all ih]
  | pattern as r ih ihr => rw [reread, veil, veil, all ih, ihr]

theorem veilAll_rereadAll (as : List Term) (n : Nat) : veilAll (rereadAll n as).1 = veilAll as := by
  have h := (list as).veil_reread n
  rw [reread, veil, veil] at h
  injection h

end Term

theorem Predicate.veil_reread (p : Predicate) (n : Nat) : (p.reread n).1.mapTerms Term.veil = p.mapTerms Term.veil := by
  have h := Term.veilAll_rereadAll p.arguments n
  rw [Term.veilAll_eq, Term.veilAll_eq] at h
  exact congrArg (Predicate.mk p.name) h

theorem Formula.veil_reread (e : Formula) : e.reread.mapTerms Term.veil = e.mapTerms Term.veil := by
  rw [reread, mapTerms_mapTerms]
  exact mapTerms_congr fun t _ => t.veil_reread 0

namespace Goal

mutual

theorem veil_reread (g : Goal) (n : Nat) : (g.reread n).1.mapTerms Term.veil = g.mapTerms Term.veil := by
  cases g with
  | call p => exact congrArg Goal.call (p.veil_reread n)
  | cut => rfl
  | not goals => exact congrArg Goal.not (veil_rereadAll goals n)
  | unify a b => exact congrArg₂ Goal.unify (a.veil_reread _) (b.veil_reread _)
  | is a e => exact congrArg₂ Goal.is (a.veil_reread _) e.veil_reread
  | compare op a b => exact congrArg₂ (Goal.compare op) a.veil_reread b.veil_reread
  | collect kind t goals r =>
    rw [reread, mapTerms, mapTerms, t.veil_reread, veil_rereadAll goals, r.veil_reread]
  | assert head body => exact congrArg₂ Goal.assert (head.veil_reread _) (veil_rereadAll body _)
  | retract head body => exact congrArg₂ Goal.retract (head.veil_reread _) (veil_rereadAll body _)

theorem veil_rereadAll (gs : List Goal) (n : Nat) :
    mapTermsAll Term.veil (rereadAll n gs).1 = mapTermsAll Term.veil gs := by
  cases gs with
  | nil => rfl
  | cons g gs => rw [rereadAll, mapTermsAll, mapTermsAll, veil_reread g, veil_rereadAll gs]

end

end Goal

end BilingualLogic
