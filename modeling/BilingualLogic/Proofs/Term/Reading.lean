import BilingualLogic.Proofs.Names.Reading

/-!
All terms that are read are well-formed: a name begins with a letter or `_`, and no numeral does.
-/

namespace BilingualLogic

theorem Text.dropEnd_cons {p : Char → Bool} {c : Char} (h : p c = false) (cs : List Char) :
    ∃ ds, dropEnd p (c :: cs) = c :: ds := by
  rw [dropEnd, List.reverse_cons, List.dropWhile_append]
  split
  · exact ⟨[], by simp [h]⟩
  · exact ⟨_, List.reverse_append⟩

/-- Where white space is in the code. -/
def Text.blanks : List Nat :=
  List.range' 9 5 ++ List.range' 0x2000 11 ++ [0x20, 0x85, 0xA0, 0x1680, 0x2028, 0x2029, 0x202F, 0x205F, 0x3000]

theorem Text.mem_blanks {c : Char} (h : isBlank c = true) : c.toNat ∈ blanks := by
  simp [isBlank] at h
  simp [blanks, List.mem_range'_1]
  omega

theorem Language.isBlank_of_start {c : Char} (h : (Unicode.isLetter c || c == '_') = true) :
    Text.isBlank c = false := by
  have hall : ∀ n ∈ Text.blanks, (Unicode.isLetter (Char.ofNat n) || Char.ofNat n == '_') = false :=
    List.all_iff_forall_prop.mp (by decide +kernel)
  by_contra hb
  have hno := hall _ (Text.mem_blanks (Bool.of_not_eq_false hb))
  rw [Char.ofNat_toNat, h] at hno
  cases hno

namespace Decimal

theorem plain?_of_front {c : Char} (hdigit : digit? c = none) (hsigns : c ∉ ['.', '-', '+']) (cs : List Char) :
    plain? (c :: cs) = none := by
  simp only [List.mem_cons, List.not_mem_nil, or_false, not_or] at hsigns
  have hwhole : whole 0 false (c :: cs) = none := by simp [whole, hdigit, hsigns.1]
  unfold plain?
  split
  next hcs =>
    split at hcs
    · next h => exact absurd (List.cons.inj h).1 hsigns.2.1
    · next h => exact absurd (List.cons.inj h).1 hsigns.2.2
    · cases hcs
      rw [hwhole]

theorem scientific?_of_front {c : Char} (hdigit : digit? c = none) (hsigns : c ∉ ['.', '-', '+']) (cs : List Char) :
    scientific? (c :: cs) = none := by
  have hplain : plain? ((c :: cs).takeWhile fun c => ! (c == 'e' || c == 'E')) = none := by
    rw [List.takeWhile_cons]
    split
    · exact plain?_of_front hdigit hsigns _
    · rfl
  unfold scientific?
  dsimp only
  rw [hplain]
  split <;> simp_all

theorem ofText?_of_startsWord {text : String} (h : Language.StartsWord text.toList) : ofText? text = none := by
  obtain ⟨c, cs, htext, hc⟩ := h
  have hblank : Text.isBlank c = false := Language.isBlank_of_start hc
  have hdigit : digit? c = none := by
    have hd := Language.isDigit_of_start hc
    simp only [Language.isDigit, Bool.or_eq_false_iff] at hd
    rw [digit?, if_neg]
    simpa using hd.1
  have hsigns : c ∉ ['.', '-', '+'] := by
    have hall : ∀ d ∈ ['.', '-', '+'], (Unicode.isLetter d || d == '_') = false :=
      List.all_iff_forall_prop.mp (by decide +kernel)
    intro hmem
    rw [hall c hmem] at hc
    cases hc
  obtain ⟨ds, hds⟩ := Text.dropEnd_cons hblank cs
  rw [ofText?, Text.trim, htext, List.dropWhile_cons_of_neg (by simp [hblank]), hds, ofNumeral?, String.toList_ofList,
    plain?_of_front hdigit hsigns, scientific?_of_front hdigit hsigns]

end Decimal

namespace Source

theorem Term.Valid.gives_wellFormed {x : Term} (h : x.Valid) (depth : Nat) :
    (x.read depth).Gives Term.WellFormed := by
  induction h generalizing depth with
  | anonymous s => exact .checked (.bind (Reading.gives_any _) fun _ _ => Reading.gives_pure ⟨rfl, rfl⟩)
  | var s _ _ => exact .checked (Reading.gives_pure ⟨rfl, rfl⟩)
  | number s numeral => exact .checked (.bind (Reading.gives_any _) fun _ _ => Reading.gives_pure ⟨rfl, rfl⟩)
  | text s content => exact .checked (Reading.gives_pure ⟨rfl, rfl⟩)
  | boolean s b => exact .checked (Reading.gives_pure ⟨rfl, rfl⟩)
  | @atom s name hname _ =>
    have hplain : (Decimal.ofText? name).isNone := by
      rw [Decimal.ofText?_of_startsWord (by simpa using Language.startsWord_of_isName hname [])]
      rfl
    exact .checked (Reading.gives_pure ⟨rfl, hplain⟩)
  | list s _ ih =>
    exact .checked (.bind (Term.gives_readAll fun x hx => ih x hx _) fun ts hts =>
      Reading.gives_pure (Term.hereditary_wellFormed.list.mpr hts))
  | pattern s _ _ _ ih ihrest =>
    exact .checked (.bind (Term.gives_readAll fun x hx => ih x hx _) fun ts hts => .bind (ihrest _) fun r hr =>
      Reading.gives_pure (Term.hereditary_wellFormed.cons hts hr))

theorem Predicate.Valid.gives_wellFormed {x : Predicate} (h : x.Valid) (depth : Nat) :
    (x.read depth).Gives fun p => ∀ t ∈ p.arguments, t.WellFormed :=
  .bind (Term.gives_readAll fun t ht => (h.arguments t ht).gives_wellFormed depth) fun _ hts => Reading.gives_pure hts

end Source
end BilingualLogic
