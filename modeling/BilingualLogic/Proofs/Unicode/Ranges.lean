import Mathlib.Data.List.Chain
import BilingualLogic.Unicode.Alphabetic
import BilingualLogic.Unicode.Letter

/-!
Tables of ranges. Halving finds a number in ascending ranges exactly where one of them has it; so every letter is
alphabetic.
-/

namespace BilingualLogic.Unicode

variable {ranges : Array (Nat × Nat)} {n low high fuel : Nat}

/-- The first range is not empty and ends in front of the second one. -/
def Before (r s : Nat × Nat) : Prop := r.1 ≤ r.2 ∧ r.2 < s.1

instance : DecidableRel Before := fun _ _ => inferInstanceAs (Decidable (_ ∧ _))

instance : IsTrans (Nat × Nat) Before where
  trans _ _ _ hrs hst := ⟨hrs.1, hrs.2.trans_le (hst.1.trans hst.2.le)⟩

theorem exists_of_search (h : search ranges n fuel low high = true) : ∃ r ∈ ranges, r.1 ≤ n ∧ n ≤ r.2 := by
  induction fuel generalizing low high with
  | zero => cases h
  | succ fuel ih =>
    rw [search] at h
    split at h
    · dsimp only at h
      split at h
      · cases h
      · next first last hmid =>
        split at h
        · exact ih h
        · split at h
          · exact ih h
          · next hfirst hlast =>
            exact ⟨(first, last), Array.mem_of_getElem? hmid, Nat.not_lt.mp hfirst, Nat.not_lt.mp hlast⟩
    · cases h

/-- The place of the range is never on the side that halving leaves. -/
theorem search_of_mem (hranges : ranges.toList.Pairwise Before) {i : Nat} (hi : i < ranges.size)
    (hfirst : ranges[i].1 ≤ n) (hlast : n ≤ ranges[i].2) (hlow : low ≤ i) (hhigh : i < high)
    (hsize : high ≤ ranges.size) (hfuel : high - low ≤ fuel) : search ranges n fuel low high = true := by
  have before := fun j k hj hk hjk => List.pairwise_iff_getElem.mp hranges j k hj hk hjk
  clear hranges
  induction fuel generalizing low high with
  | zero => omega
  | succ fuel ih =>
    have hmid : (low + high) / 2 < ranges.size := by omega
    rw [search, if_pos (by omega)]
    dsimp only
    rw [Array.getElem?_eq_getElem hmid]
    dsimp only
    rcases lt_trichotomy i ((low + high) / 2) with hlt | heq | hgt
    · have hbefore : Before ranges[i] ranges[(low + high) / 2] := before _ _ hi hmid hlt
      rw [if_pos (hlast.trans_lt hbefore.2)]
      exact ih hlow hlt (by omega) (by omega)
    · subst heq
      rw [if_neg (by omega), if_neg (by omega)]
    · have hbefore : Before ranges[(low + high) / 2] ranges[i] := before _ _ hmid hi hgt
      rw [if_neg (Nat.not_lt.mpr (hbefore.1.trans (hbefore.2.le.trans hfirst))), if_pos (hbefore.2.trans_le hfirst)]
      exact ih hgt hhigh hsize (by omega)

theorem inRanges_iff (hranges : ranges.toList.IsChain Before) {c : Char} :
    inRanges ranges c = true ↔ ∃ r ∈ ranges, r.1 ≤ c.toNat ∧ c.toNat ≤ r.2 := by
  refine ⟨exists_of_search, ?_⟩
  rintro ⟨r, hr, hfirst, hlast⟩
  obtain ⟨i, hi, rfl⟩ := Array.getElem_of_mem hr
  exact search_of_mem hranges.pairwise hi hfirst hlast (Nat.zero_le i) hi (Nat.le_refl _) (by omega)

theorem chain_alphabeticRanges : alphabeticRanges.toList.IsChain Before := by decide +kernel

/-- Every range of the first table lies in one of the second; both ascend. -/
def covered : List (Nat × Nat) → List (Nat × Nat) → Bool
  | [], _ => true
  | r :: rs, ss =>
    match ss.dropWhile fun s => s.2 < r.2 with
    | [] => false
    | s :: ss => s.1 ≤ r.1 && covered rs (s :: ss)

theorem exists_of_covered {rs ss : List (Nat × Nat)} (h : covered rs ss = true) :
    ∀ r ∈ rs, ∃ s ∈ ss, s.1 ≤ r.1 ∧ r.2 ≤ s.2 := by
  induction rs generalizing ss with
  | nil => simp
  | cons r rs ih =>
    rw [covered] at h
    split at h
    · cases h
    · next s ss' hdrop =>
      obtain ⟨hlow, hrest⟩ := Bool.and_eq_true_iff.mp h
      have hsub : (s :: ss') ⊆ ss := hdrop ▸ (List.dropWhile_suffix _).subset
      have hhigh : r.2 ≤ s.2 := by
        have hne : (ss.dropWhile fun s => s.2 < r.2) ≠ [] := by simp [hdrop]
        have hhead := List.head_dropWhile_not (fun s : Nat × Nat => decide (s.2 < r.2)) hne
        simpa [hdrop] using hhead
      refine List.forall_mem_cons.mpr ⟨⟨s, hsub (by simp), by simpa using hlow, hhigh⟩, fun u hu => ?_⟩
      obtain ⟨t, ht, hin⟩ := ih hrest u hu
      exact ⟨t, hsub ht, hin⟩

theorem covered_letterRanges : covered letterRanges.toList alphabeticRanges.toList = true := by decide +kernel

theorem isAlphabetic_of_isLetter {c : Char} (h : isLetter c = true) : isAlphabetic c = true := by
  unfold isLetter at h
  unfold isAlphabetic
  split at h
  · next hascii => rw [if_pos hascii, h]
  · next hascii =>
    obtain ⟨r, hr, hfirst, hlast⟩ := exists_of_search h
    obtain ⟨s, hs, hlow, hhigh⟩ := exists_of_covered covered_letterRanges r (Array.mem_toList_iff.mpr hr)
    rw [if_neg hascii]
    exact (inRanges_iff chain_alphabeticRanges).mpr ⟨s, Array.mem_toList_iff.mp hs, hlow.trans hfirst, hlast.trans hhigh⟩

end BilingualLogic.Unicode
