import BilingualLogic.Proofs.Term.Datum
import BilingualLogic.Sequence
import Mathlib.Data.List.Find
import Mathlib.Data.List.Induction

/-!
Classes of loosely equal terms. Where no atom denotes a number, loose equality is an equivalence, so a collection
without repetitions has one term of every class: the one that was found first.
-/

namespace BilingualLogic

namespace Value

variable {v w : Value} {m n : Decimal}

theorem datum_of_number? (h : v.number? = some m) : v.datum = .number m.toRat := by
  cases v with
  | number a =>
    cases h
    rfl
  | text s =>
    rw [number?] at h
    simp only [datum, h]
  | boolean b => cases h
  | atom name => cases h

theorem isPlain_of_number? (h : v.number? = some m) : v.isPlain = true := by
  cases v with
  | atom name => cases h
  | _ => rfl

theorem loose_iff_of_number? (hv : v.number? = some m) (hw : w.number? = some n) :
    v.loose w = true ↔ m.toRat = n.toRat := by
  rw [loose_iff (isPlain_of_number? hv) (isPlain_of_number? hw), datum_of_number? hv, datum_of_number? hw,
    Datum.number.injEq]

end Value

namespace Term

variable {t u v : Term}

theorem loose_refl (ht : t.isPlain) : t.loose t = true := (loose_iff ht ht).mpr rfl

theorem loose_comm (ht : t.isPlain) (hu : u.isPlain) : t.loose u = u.loose t := by
  rw [Bool.eq_iff_iff, loose_iff ht hu, loose_iff hu ht]
  exact eq_comm

theorem loose_trans (ht : t.isPlain) (hu : u.isPlain) (hv : v.isPlain) (htu : t.loose u = true)
    (huv : u.loose v = true) : t.loose v = true := by
  rw [loose_iff ht hu] at htu
  rw [loose_iff hu hv] at huv
  exact (loose_iff ht hv).mpr (htu.trans huv)

theorem loose_congr (ht : t.isPlain) (hu : u.isPlain) (hv : v.isPlain) (htu : t.loose u = true) :
    v.loose t = v.loose u := by
  rw [loose_iff ht hu] at htu
  rw [Bool.eq_iff_iff, loose_iff hv ht, loose_iff hv hu, htu]

end Term

namespace Sequence

variable {ts us : List Term} {t : Term}

theorem distinctFrom_concat (kept ts : List Term) (t : Term) : distinctFrom kept (ts ++ [t]) =
    if (distinctFrom kept ts).any (·.loose t) then distinctFrom kept ts else distinctFrom kept ts ++ [t] := by
  induction ts generalizing kept with
  | nil =>
    simp only [List.nil_append, distinctFrom, List.any_reverse]
    split <;> simp
  | cons a as ih =>
    rw [List.cons_append, distinctFrom, distinctFrom]
    exact ih _

theorem distinct_concat (ts : List Term) (t : Term) :
    distinct (ts ++ [t]) = if (distinct ts).any (·.loose t) then distinct ts else distinct ts ++ [t] :=
  distinctFrom_concat [] ts t

theorem distinct_sublist (ts : List Term) : (distinct ts).Sublist ts := by
  induction ts using List.reverseRecOn with
  | nil => exact .refl []
  | append_singleton ts t ih =>
    rw [distinct_concat]
    split
    · exact ih.trans (List.sublist_append_left ts [t])
    · exact ih.append_right [t]

theorem distinct_pairwise (ts : List Term) : (distinct ts).Pairwise fun a b => a.loose b = false := by
  induction ts using List.reverseRecOn with
  | nil => exact .nil
  | append_singleton ts t ih =>
    rw [distinct_concat]
    split
    · exact ih
    · next h =>
      rw [List.any_eq_true, not_exists] at h
      apply List.pairwise_append.mpr
      refine ⟨ih, List.pairwise_singleton _ t, fun a ha b hb => ?_⟩
      rw [List.mem_singleton.mp hb]
      simpa [ha] using h a

theorem filter_distinct_concat {a u : Term} (hts : ∀ t ∈ ts, t.isPlain) (ha : a.isPlain) (ht : t.isPlain)
    (hu : u ∈ distinct ts) (hut : u.loose t = true) :
    (distinct (ts ++ [a])).filter (·.loose t) = (distinct ts).filter (·.loose t) := by
  rw [distinct_concat]
  split
  · rfl
  · next hnew =>
    have hat : a.loose t = false := by
      by_contra hat
      rw [Bool.not_eq_false, Term.loose_comm ha ht] at hat
      apply hnew
      rw [List.any_eq_true]
      exact ⟨u, hu, Term.loose_trans (hts u ((distinct_sublist ts).subset hu)) ht ha hut hat⟩
    simp [List.filter_append, hat]

/-- Of every class the term that comes first is kept, and no other. -/
theorem filter_distinct (hts : ∀ t ∈ ts, t.isPlain) (ht : t ∈ ts) :
    ∃ u, ts.find? (·.loose t) = some u ∧ (distinct ts).filter (·.loose t) = [u] := by
  induction ts using List.reverseRecOn generalizing t with
  | nil => cases ht
  | append_singleton ts a ih =>
    have htp : t.isPlain := hts t ht
    have ha : a.isPlain := hts a (by simp)
    have hts : ∀ t ∈ ts, t.isPlain := fun t ht => hts t (List.mem_append_left [a] ht)
    by_cases hin : ∃ b ∈ ts, b.loose t = true
    · obtain ⟨b, hb, hbt⟩ := hin
      have same (v : Term) (hv : v ∈ ts) : v.loose b = v.loose t := Term.loose_congr (hts b hb) htp (hts v hv) hbt
      obtain ⟨u, hu, hkept⟩ := ih hts hb
      rw [List.find?_congr same] at hu
      rw [List.filter_congr fun v hv => same v ((distinct_sublist ts).subset hv)] at hkept
      have hmem : u ∈ (distinct ts).filter (·.loose t) := hkept ▸ List.mem_singleton_self u
      obtain ⟨hud, hut⟩ := List.mem_filter.mp hmem
      refine ⟨u, ?_, ?_⟩
      · rw [List.find?_append, hu]
        rfl
      · rw [filter_distinct_concat hts ha htp hud hut, hkept]
    · have hnone (v : Term) (hv : v ∈ ts) : v.loose t = false := by
        by_contra hvt
        exact hin ⟨v, hv, by simpa using hvt⟩
      have hta : t = a := by
        rcases List.mem_append.mp ht with ht | ht
        · have hself := hnone t ht
          rw [Term.loose_refl htp] at hself
          cases hself
        · exact List.mem_singleton.mp ht
      subst hta
      have hnew : (distinct ts).any (·.loose t) = false := by
        rw [List.any_eq_false]
        intro v hv
        rw [hnone v ((distinct_sublist ts).subset hv)]
        exact Bool.false_ne_true
      refine ⟨t, ?_, ?_⟩
      · rw [List.find?_append, List.find?_eq_none.mpr fun v hv => by simp [hnone v hv]]
        simp [Term.loose_refl htp]
      · rw [distinct_concat, hnew, if_neg Bool.false_ne_true, List.filter_append,
          List.filter_eq_nil_iff.mpr fun v hv => by simp [hnone v ((distinct_sublist ts).subset hv)]]
        simp [Term.loose_refl htp]

theorem filter_distinct_of_perm (hts : ∀ t ∈ ts, t.isPlain) (hperm : ts.Perm us) (ht : t ∈ distinct ts) :
    ∃ u, (distinct us).filter (·.loose t) = [u] := by
  have hus : ∀ u ∈ us, u.isPlain := fun u hu => hts u (hperm.mem_iff.mpr hu)
  have hmem : t ∈ us := hperm.mem_iff.mp ((distinct_sublist ts).subset ht)
  obtain ⟨u, -, hu⟩ := filter_distinct hus hmem
  exact ⟨u, hu⟩

end Sequence

/-- Loose equality is an equivalence of terms whose atoms denote no numbers, and equality of numbers where values have
numbers. So a list of such terms keeps the first term of every class and no other one, and a collection without
repetitions has terms of the same classes in whatever order its terms were found. -/
theorem Collection.setOf_classes :
    (∀ t : Term, t.isPlain → t.loose t = true) ∧
    (∀ t u : Term, t.isPlain → u.isPlain → t.loose u = true → u.loose t = true) ∧
    (∀ t u v : Term, t.isPlain → u.isPlain → v.isPlain → t.loose u = true → u.loose v = true → t.loose v = true) ∧
    (∀ (v w : Value) (m n : Decimal), v.number? = some m → w.number? = some n →
      (v.loose w = true ↔ m.toRat = n.toRat)) ∧
    ∀ ts : List Term, (∀ t ∈ ts, t.isPlain) →
      (Sequence.distinct ts).Sublist ts ∧
      ((Sequence.distinct ts).Pairwise fun a b => a.loose b = false) ∧
      (∀ t ∈ ts, ∃ u, ts.find? (·.loose t) = some u ∧ (Sequence.distinct ts).filter (·.loose t) = [u]) ∧
      ∀ us : List Term, ts.Perm us → ∀ t ∈ setOf.arrange ts, ∃ u, (setOf.arrange us).filter (·.loose t) = [u] := by
  refine ⟨fun t ht => Term.loose_refl ht, ?_, ?_, fun v w m n hv hw => Value.loose_iff_of_number? hv hw, ?_⟩
  · intro t u ht hu htu
    rwa [Term.loose_comm hu ht]
  · intro t u v ht hu hv htu huv
    exact Term.loose_trans ht hu hv htu huv
  · intro ts hts
    refine ⟨Sequence.distinct_sublist ts, Sequence.distinct_pairwise ts, fun t ht => Sequence.filter_distinct hts ht, ?_⟩
    intro us hperm t ht
    exact Sequence.filter_distinct_of_perm hts hperm ht

/-- The text that was found first stands for the class of its number. -/
theorem Collection.setOf_classes_numeral :
    (Sequence.distinct [.text "5", .atom "a", .text "5.0"]).filter (·.loose (.text "5.0")) = [.text "5"] := by
  obtain ⟨-, -, -, -, h⟩ := setOf_classes
  obtain ⟨-, -, hfirst, -⟩ := h [.text "5", .atom "a", .text "5.0"] (by decide)
  obtain ⟨u, hu, hkept⟩ := hfirst (.text "5.0") (by simp)
  obtain rfl : .text "5" = u := Option.some.inj hu
  exact hkept

end BilingualLogic
