import BilingualLogic.Grammar.Blank

/-!
What stands behind blanks and comments. Where they end depends on the text only and not on its place; behind them there
are no more of them.
-/

namespace BilingualLogic.Blank

open Text

variable (p q : Position)

theorem skip_line (cs : List Char) : skip ('/' :: '/' :: cs) p =
    skip (skipLine cs ((p.after '/').after '/')).rest (skipLine cs ((p.after '/').after '/')).position := by
  rw [skip]

example : skip ['/', '/', 'a', '\n', 'b'] .start = ⟨['b'], ⟨4, 2, 1⟩⟩ := by cbv

theorem skip_bracketed {cs : List Char} {d : Cursor} (h : skipBracketed cs ((p.after '/').after '*') = some d) :
    skip ('/' :: '*' :: cs) p = skip d.rest d.position := by
  rw [skip]
  split
  · next h' =>
    cases h'.symm.trans h
    rfl
  · next h' => simp [h'] at h

theorem skip_open {cs : List Char} (h : skipBracketed cs ((p.after '/').after '*') = none) :
    skip ('/' :: '*' :: cs) p = ⟨'/' :: '*' :: cs, p⟩ := by
  rw [skip]
  split
  · next h' => simp [h'] at h
  · rfl

theorem skip_blank {c : Char} (h : isBlank c = true) (cs : List Char) : skip (c :: cs) p = skip cs (p.after c) := by
  rw [skip]
  · simp [h]
  · rintro _ rfl
    simp [isBlank] at h
  · rintro _ rfl
    simp [isBlank] at h

theorem skip_stop {c : Char} (h : isBlank c = false) (hc : c ≠ '/') (cs : List Char) :
    skip (c :: cs) p = ⟨c :: cs, p⟩ := by
  rw [skip]
  · simp [h]
  · rintro _ rfl
    exact absurd rfl hc
  · rintro _ rfl
    exact absurd rfl hc

theorem skip_slash {cs : List Char} (hl : ∀ ds, cs ≠ '/' :: ds) (hb : ∀ ds, cs ≠ '*' :: ds) :
    skip ('/' :: cs) p = ⟨'/' :: cs, p⟩ := by
  rw [skip]
  · simp [isBlank]
  · intro ds _ h
    exact hl ds h
  · intro ds _ h
    exact hb ds h

theorem skip_nil : skip [] p = ⟨[], p⟩ := by
  simp [skip]

theorem skipLine_rest (cs : List Char) : (skipLine cs p).rest = (skipLine cs q).rest := by
  induction cs generalizing p q with
  | nil => rfl
  | cons c cs ih =>
    rw [skipLine, skipLine]
    split
    · rfl
    · exact ih _ _

theorem skipBracketed_rest (cs : List Char) :
    (skipBracketed cs p).map (·.rest) = (skipBracketed cs q).map (·.rest) := by
  fun_induction skipBracketed cs p generalizing q with
  | case1 => rfl
  | case2 p c cs h ih =>
    rw [skipBracketed]
    · exact ih _
    · exact h
  | case3 => rfl

/-- Either nothing is passed over, or the same text is reached from every place. -/
theorem skip_stuck_or_passes (cs : List Char) : (∀ p, skip cs p = ⟨cs, p⟩) ∨
    ∃ ds : List Char, ds.length < cs.length ∧ ∀ p, ∃ q, skip cs p = skip ds q := by
  cases cs with
  | nil => exact Or.inl skip_nil
  | cons c cs =>
    cases hblank : isBlank c with
    | true => exact Or.inr ⟨cs, Nat.lt_succ_self _, fun p => ⟨_, skip_blank p hblank cs⟩⟩
    | false =>
      by_cases hc : c = '/'
      · subst hc
        by_cases hl : ∃ ds, cs = '/' :: ds
        · obtain ⟨ds, rfl⟩ := hl
          have hlen := skipLine_length ds .start
          refine Or.inr ⟨(skipLine ds .start).rest, ?_, fun p => ?_⟩
          · simp only [List.length_cons]
            omega
          · refine ⟨(skipLine ds ((p.after '/').after '/')).position, ?_⟩
            rw [skip_line, skipLine_rest _ .start]
        · by_cases hb : ∃ ds, cs = '*' :: ds
          · obtain ⟨ds, rfl⟩ := hb
            cases hd : (skipBracketed ds .start).map (·.rest) with
            -- without its end it is no comment, from whatever place
            | none =>
              refine Or.inl fun p => skip_open p ?_
              rw [skipBracketed_rest .start ((p.after '/').after '*')] at hd
              exact Option.map_eq_none_iff.mp hd
            | some es =>
              obtain ⟨d, hd', rfl⟩ := Option.map_eq_some_iff.mp hd
              have hlen := skipBracketed_length hd'
              refine Or.inr ⟨d.rest, ?_, fun p => ?_⟩
              · simp only [List.length_cons]
                omega
              · rw [skipBracketed_rest .start ((p.after '/').after '*')] at hd
                obtain ⟨d', hp, hrest⟩ := Option.map_eq_some_iff.mp hd
                exact ⟨d'.position, by rw [skip_bracketed p hp, hrest]⟩
          · refine Or.inl fun p => skip_slash p ?_ ?_
            · exact fun ds h => hl ⟨ds, h⟩
            · exact fun ds h => hb ⟨ds, h⟩
      · exact Or.inl fun p => skip_stop p hblank hc cs

/-- The text behind blanks and comments. -/
def skipText (cs : List Char) : List Char := (skip cs .start).rest

/-- What is reached from one place and from another, and when it is reached again. -/
theorem skip_reaches (cs : List Char) : (skip cs p).rest = skipText cs ∧ (skipText cs).length ≤ cs.length ∧
    skipText (skipText cs) = skipText cs := by
  -- by the length: what stands behind the first blank or comment is shorter
  induction hn : cs.length using Nat.strongRecOn generalizing cs p with
  | ind n ih =>
    rcases skip_stuck_or_passes cs with h | ⟨ds, hlt, h⟩
    · have hcs : skipText cs = cs := by rw [skipText, h]
      rw [h, hcs]
      simp [hcs, hn]
    · have hds : skipText cs = skipText ds := by
        obtain ⟨q, hq⟩ := h .start
        rw [skipText, hq]
        exact (ih _ (hn ▸ hlt) q ds rfl).1
      obtain ⟨q, hq⟩ := h p
      obtain ⟨hrest, hle, hidem⟩ := ih _ (hn ▸ hlt) q ds rfl
      rw [hds, hq]
      exact ⟨hrest, by omega, hidem⟩

theorem skip_rest (cs : List Char) : (skip cs p).rest = skipText cs := (skip_reaches p cs).1

theorem skipText_length (cs : List Char) : (skipText cs).length ≤ cs.length := (skip_reaches .start cs).2.1

@[simp] theorem skipText_skipText (cs : List Char) : skipText (skipText cs) = skipText cs :=
  (skip_reaches .start cs).2.2

theorem skip_skipText (cs : List Char) : skip (skipText cs) p = ⟨skipText cs, p⟩ := by
  rcases skip_stuck_or_passes (skipText cs) with h | ⟨ds, hlt, h⟩
  · exact h p
  · obtain ⟨q, hq⟩ := h .start
    have hrest := congrArg Cursor.rest hq
    rw [skip_rest, skip_rest, skipText_skipText] at hrest
    have hlen := skipText_length ds
    rw [hrest] at hlt
    omega

@[simp] theorem skipText_nil : skipText [] = [] := by
  rw [skipText, skip_nil]

theorem skipText_blank {c : Char} (h : isBlank c = true) (cs : List Char) : skipText (c :: cs) = skipText cs := by
  rw [skipText, skip_blank _ h, skip_rest]

theorem skipText_stop {c : Char} (h : isBlank c = false) (hc : c ≠ '/') (cs : List Char) :
    skipText (c :: cs) = c :: cs := by
  rw [skipText, skip_stop _ h hc]

theorem skipText_slash {c : Char} (hl : c ≠ '/') (hb : c ≠ '*') (cs : List Char) :
    skipText ('/' :: c :: cs) = '/' :: c :: cs := by
  rw [skipText, skip_slash]
  · rintro ds ⟨⟩
    exact hl rfl
  · rintro ds ⟨⟩
    exact hb rfl

end BilingualLogic.Blank
