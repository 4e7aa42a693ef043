import BilingualLogic.Proofs.Term.Instance
import Mathlib.Data.List.Forall2

/-!
Terms that are the same but for the names of their variables. The names correspond by a relation; where it is one to
one, neither term has two variables for one variable of the other.
-/

theorem List.Forall₂.imp_of_mem {α β : Type} {R S : α → β → Prop} {as : List α} {bs : List β}
    (h : List.Forall₂ R as bs) (hRS : ∀ a ∈ as, ∀ b ∈ bs, R a b → S a b) : List.Forall₂ S as bs := by
  induction h with
  | nil => exact .nil
  | cons hab _ ih =>
    exact .cons (hRS _ (by simp) _ (by simp) hab)
      (ih fun a ha b hb => hRS a (List.mem_cons_of_mem _ ha) b (List.mem_cons_of_mem _ hb))

namespace BilingualLogic

/-- Every name corresponds to one name at most, and the other way round. -/
def OneToOne {α : Type} (R : α → α → Prop) : Prop := ∀ x y x' y', R x y → R x' y' → (x = x' ↔ y = y')

theorem oneToOne_eq {α : Type} : OneToOne (α := α) Eq := by
  rintro x _ x' _ rfl rfl
  rfl

/-- What may be different on two sides, and which texts both may have: names of variables that correspond, and names
by which the same built-in predicate is called. -/
structure Likeness where
  names : String → String → Prop
  texts : String → Prop := fun _ => True
  calls : String → String → Prop := Eq

def Likeness.withNames (L : Likeness) (R : String → String → Prop) : Likeness := { L with names := R }

/-- If the value is a text, it is one of the given ones. -/
def Value.TextIn (T : String → Prop) (v : Value) : Prop := ∀ content, v = .text content → T content

theorem Value.textIn_number {T : String → Prop} (a : Decimal) : (number a).TextIn T := by
  rintro content ⟨⟩

namespace Term

variable {L L' : Likeness}

inductive Alike (L : Likeness) : Term → Term → Prop
  | var {x y : String} : L.names x y → Alike L (.var x) (.var y)
  | const {v : Value} : v.TextIn L.texts → Alike L (.const v) (.const v)
  | list {as bs : List Term} : List.Forall₂ (Alike L) as bs → Alike L (.list as) (.list bs)
  | pattern {as bs : List Term} {a b : Term} : List.Forall₂ (Alike L) as bs → Alike L a b →
    Alike L (.pattern as a) (.pattern bs b)

@[elab_as_elim]
theorem Alike.induct {P : (t u : Term) → Alike L t u → Prop} (var : ∀ {x y} (h : L.names x y), P _ _ (.var h))
    (const : ∀ {v} (h : Value.TextIn L.texts v), P _ _ (.const h))
    (list : ∀ {as bs} (h : List.Forall₂ (Alike L) as bs), List.Forall₂ (fun a b => ∃ h, P a b h) as bs →
      P _ _ (.list h))
    (pattern : ∀ {as bs a b} (h : List.Forall₂ (Alike L) as bs) (ha : Alike L a b),
      List.Forall₂ (fun a b => ∃ h, P a b h) as bs → P _ _ ha → P _ _ (.pattern h ha)) {t u : Term}
    (h : Alike L t u) : P t u h :=
  Alike.rec (motive_1 := P) (motive_2 := fun as bs _ => List.Forall₂ (fun a b => ∃ h, P a b h) as bs) var const list
    (fun has ha ihas iha => pattern has ha ihas iha) .nil (fun h _ ih ihs => .cons ⟨h, ih⟩ ihs) h

theorem Alike.cons {as bs : List Term} {a b : Term} (has : List.Forall₂ (Alike L) as bs) (ha : Alike L a b) :
    Alike L (.cons as a) (.cons bs b) := by
  cases has with
  | nil => exact ha
  | cons h has =>
    have hall := List.Forall₂.cons h has
    cases ha with
    | var hx => exact .pattern hall (.var hx)
    | const hv => exact .pattern hall (.const hv)
    | list hbs => exact .list (List.rel_append hall hbs)
    | pattern hbs hb => exact .pattern (List.rel_append hall hbs) hb

theorem forall₂_map {α : Type} {as : List α} {f g : α → Term} (h : ∀ a ∈ as, Alike L (f a) (g a)) :
    List.Forall₂ (Alike L) (as.map f) (as.map g) := by
  rw [List.forall₂_map_left_iff, List.forall₂_map_right_iff, List.forall₂_same]
  exact h

theorem Alike.bindVars {f g : String → Term} (hfg : ∀ x y, L.names x y → Alike L' (f x) (g y))
    (htexts : ∀ content, L.texts content → L'.texts content) {t u : Term} (h : Alike L t u) :
    Alike L' (t.bindVars f) (u.bindVars g) := by
  induction h using Alike.induct with
  | var hx => simpa [Term.bindVars] using hfg _ _ hx
  | const hv => simpa [Term.bindVars] using Alike.const fun content h => htexts content (hv content h)
  | list _ ih =>
    rw [bindVars_list, bindVars_list]
    exact .list (List.forall₂_map_left_iff.mpr (List.forall₂_map_right_iff.mpr (ih.imp fun _ _ h => h.choose_spec)))
  | pattern _ _ ih iha =>
    rw [bindVars_pattern, bindVars_pattern]
    exact .cons (List.forall₂_map_left_iff.mpr (List.forall₂_map_right_iff.mpr (ih.imp fun _ _ h => h.choose_spec))) iha

/-- A term is like itself if the names of its variables correspond to themselves. -/
theorem alike_self (htexts : ∀ content, L.texts content) {t : Term} (h : t.VarsIn fun x => L.names x x) :
    Alike L t t := by
  induction t with
  | var x => exact .var (varsIn_var (V := fun x => L.names x x) |>.mp h)
  | const v => exact .const fun content _ => htexts content
  | list as ih => exact .list (List.forall₂_same.mpr fun a ha => ih a ha (varsIn_list.mp h a ha))
  | pattern as r ih ihr =>
    obtain ⟨has, hr⟩ := varsIn_pattern.mp h
    exact .pattern (List.forall₂_same.mpr fun a ha => ih a ha (has a ha)) (ihr hr)

/-- Another correspondence will do that agrees on the names that stand in the terms. -/
theorem Alike.withNames {R : String → String → Prop} {V W : String → Prop}
    (hR : ∀ x y, L.names x y → V x → W y → R x y) {t u : Term} (h : Alike L t u) (ht : t.VarsIn V)
    (hu : u.VarsIn W) : Alike (L.withNames R) t u := by
  induction h using Alike.induct with
  | var hx => exact .var (hR _ _ hx (varsIn_var.mp ht) (varsIn_var.mp hu))
  | const hv => exact .const hv
  | list _ ih =>
    exact .list (ih.imp_of_mem fun a ha b hb h => h.choose_spec (varsIn_list.mp ht a ha) (varsIn_list.mp hu b hb))
  | pattern _ _ ih ihr =>
    obtain ⟨hts, hr⟩ := varsIn_pattern.mp ht
    obtain ⟨hus, hr'⟩ := varsIn_pattern.mp hu
    exact .pattern (ih.imp_of_mem fun a ha b hb h => h.choose_spec (hts a ha) (hus b hb)) (ihr hr hr')

theorem Alike.eq (hL : ∀ x y, L.names x y → x = y) {t u : Term} (h : Alike L t u) : t = u := by
  have all {as bs : List Term} (h : List.Forall₂ (fun a b => ∃ _ : Alike L a b, a = b) as bs) : as = bs := by
    rw [← List.forall₂_eq_eq_eq (α := Term)]
    exact h.imp fun _ _ h => h.choose_spec
  induction h using Alike.induct with
  | var hx => exact congrArg Term.var (hL _ _ hx)
  | const _ => rfl
  | list _ ih => exact congrArg Term.list (all ih)
  | pattern _ _ ih ihr => rw [all ih, ihr]

theorem alike_bindVars (htexts : ∀ content, L.texts content) {f g : String → Term} {t : Term}
    (h : t.VarsIn fun x => Alike L (f x) (g x)) : Alike L (t.bindVars f) (t.bindVars g) := by
  have hself := alike_self (L := L.withNames fun x y => x = y ∧ Alike L (f x) (g x)) htexts fun x hx => ⟨rfl, h x hx⟩
  refine hself.bindVars ?_ fun content _ => htexts content
  rintro x _ ⟨rfl, hx⟩
  exact hx

end Term
end BilingualLogic
