import BilingualLogic.Sequence
import BilingualLogic.Proofs.Unification.Growth

/-!
Where the answers of the predicates on lists come from. Each is unified in one or two steps from terms that the
arguments lead to, so it only adds bindings to those that there were.
-/

namespace BilingualLogic.Sequence

open Substitution

variable {limits : Limits} {n : Nat} {s b : Substitution} {bs : List Substitution}

section Inversion

theorem of_mem_answersFrom {α : Type} {f : α → Bounded (Option Substitution)} {done : List Substitution} {xs : List α}
    (h : answers f done xs = some bs) (hb : b ∈ bs) : b ∈ done ∨ ∃ x ∈ xs, f x = some (some b) := by
  induction xs generalizing done with
  | nil =>
    cases h
    exact .inl (List.mem_reverse.mp hb)
  | cons x xs ih =>
    have later : (∃ y ∈ xs, f y = some (some b)) → ∃ y ∈ x :: xs, f y = some (some b) := by
      rintro ⟨y, hy, hfy⟩
      exact ⟨y, List.mem_cons_of_mem x hy, hfy⟩
    rw [answers] at h
    split at h
    · cases h
    · exact (ih h).imp_right later
    · next b' hx =>
      rcases ih h with hdone | hxs
      · rcases List.mem_cons.mp hdone with rfl | hdone
        · exact .inr ⟨x, List.mem_cons_self .., hx⟩
        · exact .inl hdone
      · exact .inr (later hxs)

theorem of_mem_answers {α : Type} {f : α → Bounded (Option Substitution)} {xs : List α}
    (h : answers f [] xs = some bs) (hb : b ∈ bs) : ∃ x ∈ xs, f x = some (some b) := by
  rcases of_mem_answersFrom h hb with hnil | hxs
  · cases hnil
  · exact hxs

theorem of_mem_member {x xs : Term} (h : member n x xs s = some bs) (hb : b ∈ bs) :
    ∃ as, items s n xs = some (some as) ∧ ∃ a ∈ as, unify n x a s = some (some b) := by
  unfold member at h
  split at h
  · cases h
  · cases h
    cases hb
  · next as has => exact ⟨as, has, of_mem_answers h hb⟩

theorem of_mem_splits {front back whole : Term} (h : append.splits n front back whole s = some (.ok bs))
    (hb : b ∈ bs) : ∃ as k s₁, items s n whole = some (some as) ∧ unify n front (.list (as.take k)) s = some (some s₁) ∧
      unify n back (.list (as.drop k)) s₁ = some (some b) := by
  unfold append.splits at h
  split at h
  · cases h
  · cases h
    cases hb
  · next as has =>
    obtain ⟨cs, hcs, h⟩ := Option.map_eq_some_iff.mp h
    cases h
    obtain ⟨k, -, hk⟩ := of_mem_answers hcs hb
    split at hk
    · next s₁ h₁ => exact ⟨as, k, s₁, has, h₁, hk⟩
    · next hnone => exact absurd hk (hnone b)

theorem of_mem_append {front back whole : Term} (h : append limits n front back whole s = some (.ok bs)) (hb : b ∈ bs) :
    (∃ as cs, items s n front = some (some as) ∧ items s n back = some (some cs) ∧
      unify n whole (.list (as ++ cs)) s = some (some b)) ∨
    ∃ as k s₁, items s n whole = some (some as) ∧ unify n front (.list (as.take k)) s = some (some s₁) ∧
      unify n back (.list (as.drop k)) s₁ = some (some b) := by
  unfold append at h
  split at h
  · cases h
  · next fronts hfront =>
    split at h
    · cases h
    · next backs hback =>
      split at h
      · next as cs =>
        split at h
        · cases h
        · obtain ⟨r, hr, h⟩ := Option.map_eq_some_iff.mp h
          cases h
          obtain rfl : r = some b := by simpa using hb
          exact .inl ⟨as, cs, hfront, hback, hr⟩
      · exact .inr (of_mem_splits h hb)

theorem of_mem_length {copy : Nat} {list count : Term} (h : length limits n copy list count s = some (.ok bs))
    (hb : b ∈ bs) : (∃ d, unify n count (.number d) s = some (some b)) ∨
      ∃ k, (s.walk list).isVar = true ∧ unify n list (.list (freshItems copy k)) s = some (some b) := by
  unfold length at h
  split at h
  · cases h
  · split at h
    · next d _ =>
      obtain ⟨r, hr, h⟩ := Option.map_eq_some_iff.mp h
      cases h
      obtain rfl : r = some b := by simpa using hb
      exact .inl ⟨d, hr⟩
    · cases h
      cases hb
  · split at h
    · next hvar =>
      split at h
      · cases h
        cases hb
      · next k _ =>
        split at h
        · cases h
        · obtain ⟨r, hr, h⟩ := Option.map_eq_some_iff.mp h
          cases h
          obtain rfl : r = some b := by simpa using hb
          exact .inr ⟨k, hvar, hr⟩
    · cases h
      cases hb

end Inversion

section Growth

variable {P : Term → Prop} (hP : Hereditary P)

include hP

theorem items_closed (hs : s.Closed P) {t : Term} (ht : P t) {as : List Term} (h : items s n t = some (some as)) :
    ∀ a ∈ as, P a := by
  induction n generalizing t as with
  | zero => cases h
  | succ n ih =>
    have hwalk := hs.walk ht
    rw [items] at h
    split at h
    · next bs heq =>
      cases h
      exact hP.list.mp (heq ▸ hwalk)
    · next bs r heq =>
      obtain ⟨hbs, hr⟩ := hP.pattern (heq ▸ hwalk)
      split at h
      · next more hmore =>
        cases h
        exact List.forall_mem_append.mpr ⟨hbs, ih hr hmore⟩
      · next hmore => exact absurd h (hmore as)
    · cases h

theorem member_grows (hw : s.Walkable) (hs : s.Closed P) {x xs : Term} (hx : P x) (hxs : P xs)
    (h : member n x xs s = some bs) (hb : b ∈ bs) : s.Grows P b := by
  obtain ⟨as, has, a, ha, hu⟩ := of_mem_member h hb
  exact unify_growsBy hP n hw hs hx (items_closed hP hs hxs has a ha) hu

theorem append_grows (hw : s.Walkable) (hs : s.Closed P) {front back whole : Term} (hfront : P front) (hback : P back)
    (hwhole : P whole) (h : append limits n front back whole s = some (.ok bs)) (hb : b ∈ bs) : s.Grows P b := by
  rcases of_mem_append h hb with ⟨as, cs, has, hcs, hu⟩ | ⟨as, k, s₁, has, hu₁, hu₂⟩
  · have hjoined : P (.list (as ++ cs)) := hP.list.mpr
      (List.forall_mem_append.mpr ⟨items_closed hP hs hfront has, items_closed hP hs hback hcs⟩)
    exact unify_growsBy hP n hw hs hwhole hjoined hu
  · have has := items_closed hP hs hwhole has
    have htake : P (.list (as.take k)) := hP.list.mpr fun a ha => has a (List.mem_of_mem_take ha)
    have hdrop : P (.list (as.drop k)) := hP.list.mpr fun a ha => has a (List.mem_of_mem_drop ha)
    have hg := unify_growsBy hP n hw hs hfront htake hu₁
    exact hg.trans (unify_growsBy hP n (hg.walkable hw) (hg.closed hs) hback hdrop hu₂)

theorem length_grows (hw : s.Walkable) (hs : s.Closed P) {copy : Nat} {list count : Term} (hlist : P list)
    (hcount : P count) (hnumber : ∀ d, P (.number d)) (hfresh : ∀ k, ∀ t ∈ freshItems copy k, P t)
    (h : length limits n copy list count s = some (.ok bs)) (hb : b ∈ bs) : s.Grows P b := by
  rcases of_mem_length h hb with ⟨d, hu⟩ | ⟨k, -, hu⟩
  · exact unify_growsBy hP n hw hs hcount (hnumber d) hu
  · exact unify_growsBy hP n hw hs hlist (hP.list.mpr (hfresh k)) hu

end Growth

end BilingualLogic.Sequence
