import BilingualLogic.Proofs.Json.Numbers

/-!
JSON texts are read back. What is written for a value without doubles is read as the value, where nesting allows it.
-/

namespace BilingualLogic.Json

section Strings

variable {c : Char} {o : List Char}

theorem escaped_cases (c : Char) :
    (∃ d, escaped c = ['\\', d] ∧ d ≠ 'u' ∧ simpleEscape? d = some c) ∨
    (∃ a b, escaped c = ['\\', 'u', '0', '0', a, b] ∧ hex4? '0' '0' a b = some c.toNat ∧ c.toNat < 32) ∨
    escaped c = [c] ∧ c ≠ '"' ∧ c ≠ '\\' ∧ 32 ≤ c.toNat := by
  have hcode : ∀ n < 32, hex4? '0' '0' (hexDigit (n / 16)) (hexDigit (n % 16)) = some n := by decide +kernel
  unfold escaped
  split
  · exact .inl ⟨'"', rfl, by decide, rfl⟩
  · exact .inl ⟨'\\', rfl, by decide, rfl⟩
  · exact .inl ⟨'n', rfl, by decide, rfl⟩
  · exact .inl ⟨'r', rfl, by decide, rfl⟩
  · exact .inl ⟨'t', rfl, by decide, rfl⟩
  · next hquote hbackslash _ _ _ =>
    split
    · next hc => exact .inl ⟨'b', rfl, by decide, by rw [hc]; rfl⟩
    · split
      · next hc => exact .inl ⟨'f', rfl, by decide, by rw [hc]; rfl⟩
      · split
        · next hc => exact .inr (.inl ⟨_, _, rfl, hcode c.toNat hc, hc⟩)
        · next hc => exact .inr (.inr ⟨rfl, hquote, hbackslash, Nat.not_lt.mp hc⟩)

theorem stringRest_simple {d : Char} (hd : d ≠ 'u') (hc : simpleEscape? d = some c) (done : List Char) :
    stringRest done ('\\' :: d :: o) = stringRest (c :: done) o := by
  rw [stringRest, hc]
  · rintro _ _ _ _ _ _ _ _ _ rfl
    exact absurd rfl hd
  · rintro _ _ _ _ _ rfl
    exact absurd rfl hd

theorem stringRest_self (hquote : c ≠ '"') (hbackslash : c ≠ '\\') (hc : 32 ≤ c.toNat) (done : List Char) :
    stringRest done (c :: o) = stringRest (c :: done) o := by
  rw [stringRest, if_neg (Nat.not_lt.mpr hc)]
  · exact hquote
  · rintro _ _ _ _ _ _ _ _ _ rfl
    exact absurd rfl hbackslash
  · rintro _ _ _ _ _ rfl
    exact absurd rfl hbackslash
  · rintro _ _ rfl
    exact absurd rfl hbackslash

theorem stringRest_code {a b : Char} (hcode : hex4? '0' '0' a b = some c.toNat) (hc : c.toNat < 32)
    (ho : ∀ cs, o ≠ '\\' :: 'u' :: cs) (done : List Char) :
    stringRest done ('\\' :: 'u' :: '0' :: '0' :: a :: b :: o) = stringRest (c :: done) o := by
  rw [stringRest, hcode]
  · dsimp only
    rw [if_neg (by omega), Char.ofNat_toNat]
  · intro e f g h cs heq
    exact ho _ heq

/-- Two codes are looked at together, as they could be a pair of surrogates. -/
theorem stringRest_codes {a b a' b' c' : Char} (hcode : hex4? '0' '0' a b = some c.toNat) (hc : c.toNat < 32)
    (hcode' : hex4? '0' '0' a' b' = some c'.toNat) (hc' : c'.toNat < 32) (done : List Char) :
    stringRest done ('\\' :: 'u' :: '0' :: '0' :: a :: b :: '\\' :: 'u' :: '0' :: '0' :: a' :: b' :: o) =
      stringRest (c' :: c :: done) o := by
  rw [stringRest, hcode, hcode']
  dsimp only
  rw [if_neg (by omega), if_neg (by omega), if_neg (by omega), Char.ofNat_toNat, Char.ofNat_toNat]

/-- Behind a code the text goes on as behind any character, be the next one a code or not. -/
theorem stringRest_behind_code {a b : Char} {cs done : List Char} {r : Option (String × List Char)}
    (hcode : hex4? '0' '0' a b = some c.toNat) (hc : c.toNat < 32)
    (hnext : stringRest (c :: done) (cs.flatMap escaped ++ '"' :: o) = r)
    (hsecond : ∀ c' cs', cs = c' :: cs' → stringRest (c' :: c :: done) (cs'.flatMap escaped ++ '"' :: o) = r) :
    stringRest done ('\\' :: 'u' :: '0' :: '0' :: a :: b :: (cs.flatMap escaped ++ '"' :: o)) = r := by
  cases cs with
  | nil =>
    rw [← hnext]
    exact stringRest_code hcode hc (by rintro _ ⟨⟩) done
  | cons c' cs =>
    rw [List.flatMap_cons, List.append_assoc] at hnext ⊢
    obtain ⟨d, heq, hd, -⟩ | ⟨a', b', heq, hcode', hc'⟩ | ⟨heq, -, hbackslash, -⟩ := escaped_cases c'
    · rw [heq] at hnext ⊢
      rw [← hnext]
      refine stringRest_code hcode hc ?_ done
      intro cs heq
      exact hd (List.cons.inj (List.cons.inj heq).2).1
    · rw [heq]
      exact (stringRest_codes hcode hc hcode' hc' done).trans (hsecond c' cs rfl)
    · rw [heq] at hnext ⊢
      rw [← hnext]
      refine stringRest_code hcode hc ?_ done
      intro cs heq
      exact hbackslash (List.cons.inj heq).1

theorem stringRest_escaped (o : List Char) (cs done : List Char) :
    stringRest done (cs.flatMap escaped ++ '"' :: o) = some (String.ofList (done.reverse ++ cs), o) := by
  -- two characters may be taken at once
  induction hn : cs.length using Nat.strong_induction_on generalizing cs done with
  | _ n ih =>
    cases cs with
    | nil => simp [stringRest]
    | cons c cs =>
      rw [List.length_cons] at hn
      have hnext : stringRest (c :: done) (cs.flatMap escaped ++ '"' :: o) =
          some (String.ofList (done.reverse ++ c :: cs), o) := by
        rw [ih cs.length (by omega) cs (c :: done) rfl]
        simp
      rw [List.flatMap_cons, List.append_assoc]
      obtain ⟨d, heq, hd, hc⟩ | ⟨a, b, heq, hcode, hc⟩ | ⟨heq, hquote, hbackslash, hc⟩ := escaped_cases c
      · rw [heq, ← hnext]
        exact stringRest_simple hd hc done
      · rw [heq]
        refine stringRest_behind_code hcode hc hnext ?_
        rintro c' cs' rfl
        rw [List.length_cons] at hn
        rw [ih cs'.length (by omega) cs' (c' :: c :: done) rfl]
        simp
      · rw [heq, ← hnext]
        exact stringRest_self hquote hbackslash hc done

end Strings

section Integers

variable {o : List Char}

/-- What can stand behind a value in a text: nothing, or what goes on with or closes the value that it stands in. -/
def EndsValue (o : List Char) : Prop := ∀ c cs, o = c :: cs → c ∈ [',', ']', '\x7d']

theorem endsValue_nil : EndsValue [] := by rintro _ _ ⟨⟩

theorem endsValue_cons {c : Char} (hc : c ∈ [',', ']', '\x7d']) (cs : List Char) : EndsValue (c :: cs) := by
  rintro _ _ ⟨⟩
  exact hc

theorem parseDigits_toDigits (n : Nat) : parseDigits (Nat.toDigits 10 n) = n := by
  have hfold (cs : List Char) (m : Nat) :
      cs.foldl (fun n c => n * 10 + digitValue c) m = Nat.ofDigitChars 10 cs m := by
    rw [Nat.ofDigitChars]
    congr 1
    funext n c
    rw [Nat.mul_comm]
    rfl
  rw [parseDigits, hfold, Nat.ofDigitChars_ten_toDigits]

theorem head_toDigits {n : Nat} (h : 1 < (Nat.toDigits 10 n).length) : (Nat.toDigits 10 n).head? ≠ some '0' := by
  intro hzero
  obtain ⟨ds, hds⟩ := List.head?_eq_some_iff.mp hzero
  have hdigits : ∀ c ∈ ds, c.isDigit = true := fun c hc => Decimal.isDigit_toDigits (n := n) (by simp [hds, hc])
  have hvalue : Nat.ofDigitChars 10 ds 0 = n := by
    rw [← Nat.ofDigitChars_ten_toDigits (n := n), hds]
    rfl
  have hlt := Decimal.ofDigitChars_lt hdigits
  have hlength := congrArg List.length hds
  rw [List.length_cons] at hlength
  rw [hvalue, ← Nat.length_toDigits_le_iff (by decide) (by omega)] at hlt
  omega

theorem wellFormed_toDigits (n : Nat) : ((Nat.toDigits 10 n).isEmpty ||
    ((Nat.toDigits 10 n).length > 1 && (Nat.toDigits 10 n).head? == some '0')) = false := by
  rw [List.isEmpty_eq_false_iff.mpr Nat.toDigits_ne_nil, Bool.false_or, Bool.and_eq_false_iff]
  by_cases hlength : 1 < (Nat.toDigits 10 n).length
  · exact .inr (beq_eq_false_iff_ne.mpr (head_toDigits hlength))
  · exact .inl (decide_eq_false hlength)

theorem EndsValue.not_isDigit (ho : EndsValue o) : o.takeWhile isDigit = [] ∧ o.dropWhile isDigit = o := by
  cases o with
  | nil => exact ⟨rfl, rfl⟩
  | cons c cs =>
    have hall : [',', ']', '\x7d'].all (! isDigit ·) = true := rfl
    have hc : isDigit c = false := by simpa using List.all_eq_true.mp hall c (ho c cs rfl)
    simp [hc]

theorem scan_toDigits (negative : Bool) (n : Nat) (ho : EndsValue o) :
    Numeral.scan ((if negative then ['-'] else []) ++ Nat.toDigits 10 n ++ o) =
      some (⟨negative, Nat.toDigits 10 n, none, none⟩, o) := by
  obtain ⟨d, ds, hds⟩ := List.exists_cons_of_ne_nil (Nat.toDigits_ne_nil (b := 10) (n := n))
  have hdigits : ∀ c ∈ Nat.toDigits 10 n, isDigit c = true := fun c hc => Decimal.isDigit_toDigits hc
  have hfront : isDigit d = true := hdigits d (by simp [hds])
  have htake : (Nat.toDigits 10 n ++ o).takeWhile isDigit = Nat.toDigits 10 n := by
    rw [List.takeWhile_append_of_pos hdigits, ho.not_isDigit.1, List.append_nil]
  have hdrop : (Nat.toDigits 10 n ++ o).dropWhile isDigit = o := by
    rw [List.dropWhile_append_of_pos hdigits, ho.not_isDigit.2]
  have hminus : d ≠ '-' := by
    rintro rfl
    exact absurd hfront (by decide)
  unfold Numeral.scan
  split
  next sign cs hparts =>
    obtain ⟨rfl, rfl⟩ : sign = negative ∧ cs = Nat.toDigits 10 n ++ o := by
      cases negative with
      | true =>
        cases hparts
        exact ⟨rfl, rfl⟩
      | false =>
        rw [hds] at hparts ⊢
        split at hparts
        · next heq => exact absurd (List.cons.inj heq).1 hminus
        · cases hparts
          exact ⟨rfl, rfl⟩
    dsimp only
    rw [htake, hdrop, wellFormed_toDigits]
    cases o with
    | nil => rfl
    | cons c cs =>
      have hc := ho c cs rfl
      simp only [List.mem_cons, List.not_mem_nil, or_false] at hc
      rcases hc with rfl | rfl | rfl <;> rfl

end Integers

/-- The value nests at most `d` arrays and objects, and its numbers are integers of 64 bits. -/
inductive Exact : Nat → Json → Prop
  | null (d : Nat) : Exact d .null
  | bool (d : Nat) (b : Bool) : Exact d (.bool b)
  | integer (d : Nat) {n : Int} : -twoPow 63 ≤ n → n < twoPow 64 → Exact d (.integer n)
  | string (d : Nat) (s : String) : Exact d (.string s)
  | array {d : Nat} {items : List Json} : (∀ v ∈ items, Exact d v) → Exact (d + 1) (.array items)
  | object {d : Nat} {members : List (String × Json)} : (∀ m ∈ members, Exact d m.2) → Exact (d + 1) (.object members)

section Values

variable {c : Char} {d fuel : Nat} {v : Json} {o : List Char}

theorem skipSpace_cons (hc : isSpace c = false) (cs : List Char) : skipSpace (c :: cs) = c :: cs := by
  simp [skipSpace, hc]

theorem toList_quoted (s : String) (o : List Char) :
    (quoted s).toList ++ o = '"' :: (s.toList.flatMap escaped ++ '"' :: o) := by
  simp [quoted]

theorem isSpace_numeral (hc : isDigit c = true ∨ c = '-') : isSpace c = false ∧ c ≠ ']' := by
  rcases hc with hc | rfl
  · constructor
    · by_contra hspace
      simp only [isSpace, Bool.not_eq_false, Bool.or_eq_true, beq_iff_eq] at hspace
      rcases hspace with ((rfl | rfl) | rfl) | rfl <;> cases hc
    · rintro rfl
      cases hc
  · decide

theorem value?_numeral (hc : isDigit c = true ∨ c = '-') (fuel d : Nat) (cs : List Char) :
    value? (fuel + 1) d (c :: cs) =
      match Numeral.scan (c :: cs) with
      | some (n, cs) => n.value?.map (·, cs)
      | none => none := by
  have hne {k : Char} (hk : isDigit k = false ∧ k ≠ '-') : c ≠ k := by
    rintro rfl
    rcases hc with hc | rfl
    · rw [hk.1] at hc
      cases hc
    · exact hk.2 rfl
  rw [value?, skipSpace_cons (isSpace_numeral hc).1]
  split
  · next heq => cases heq
  iterate 6
    · next heq => exact absurd (List.cons.inj heq).1 (hne (by decide))
  · rfl

theorem integer_append (n : Int) (o : List Char) : (scalarText (.integer n)).toList ++ o =
    (if decide (n < 0) then ['-'] else []) ++ Nat.toDigits 10 n.natAbs ++ o := by
  simp [toList_integer, Decimal.plainForm]

theorem front_integer (n : Int) (o : List Char) :
    ∃ c cs, (scalarText (.integer n)).toList ++ o = c :: cs ∧ (isDigit c = true ∨ c = '-') := by
  obtain ⟨d, ds, hds⟩ := List.exists_cons_of_ne_nil (Nat.toDigits_ne_nil (b := 10) (n := n.natAbs))
  rw [integer_append, hds]
  split
  · exact ⟨'-', _, rfl, .inr rfl⟩
  · exact ⟨d, _, rfl, .inl (Decimal.isDigit_toDigits (n := n.natAbs) (by simp [hds]))⟩

theorem value?_integer {n : Int} (hlow : -twoPow 63 ≤ n) (hhigh : n < twoPow 64) (ho : EndsValue o) :
    value? (fuel + 1) d ((scalarText (.integer n)).toList ++ o) = some (.integer n, o) := by
  have hvalue : (⟨decide (n < 0), Nat.toDigits 10 n.natAbs, none, none⟩ : Numeral).value? = some (.integer n) := by
    rw [Numeral.value?, parseDigits_toDigits]
    by_cases hneg : n < 0
    · have hfits : 0 < n.natAbs ∧ n.natAbs ≤ twoPow 63 := by omega
      have hn : -|n| = n := by rw [abs_of_neg hneg, neg_neg]
      simp [hneg, hfits, hn]
    · have hfits : n.natAbs < twoPow 64 := by omega
      have hn : |n| = n := abs_of_nonneg (not_lt.mp hneg)
      simp [hneg, hfits, hn]
  obtain ⟨c, cs, hcs, hc⟩ := front_integer n o
  rw [hcs, value?_numeral hc, ← hcs, integer_append, scan_toDigits _ _ ho]
  dsimp only
  rw [hvalue, Option.map_some]

theorem compact_null : compact .null = "null" := by simp [compact, scalarText]

theorem compact_bool (b : Bool) : compact (.bool b) = if b then "true" else "false" := by simp [compact, scalarText]

theorem compact_integer (n : Int) : compact (.integer n) = scalarText (.integer n) := by simp [compact]

theorem compact_string (s : String) : compact (.string s) = quoted s := by simp [compact, scalarText]

/-- The texts of the items with commas between them. -/
def itemsText (items : List Json) : List Char := [','].intercalate (items.map fun v => v.compact.toList)

def memberText (m : String × Json) : List Char := (quoted m.1).toList ++ (':' :: m.2.compact.toList)

def membersText (members : List (String × Json)) : List Char := [','].intercalate (members.map memberText)

theorem toList_array (items : List Json) : (compact (.array items)).toList = '[' :: (itemsText items ++ [']']) := by
  rw [compact]
  simp [itemsText, Function.comp_def]

theorem toList_object (members : List (String × Json)) :
    (compact (.object members)).toList = '\x7b' :: (membersText members ++ ['\x7d']) := by
  rw [compact]
  have htext : (memberText · ) = fun m => (quoted m.1).toList ++ ':' :: m.2.compact.toList := rfl
  simp [membersText, htext, Function.comp_def]

theorem joined_front (w : List Char) (ws : List (List Char)) (o : List Char) :
    ∃ cs, [','].intercalate (w :: ws) ++ o = w ++ cs := by
  cases ws with
  | nil => exact ⟨o, by simp⟩
  | cons w' ws => exact ⟨',' :: ([','].intercalate (w' :: ws) ++ o), by simp [List.intercalate_cons_cons]⟩

theorem itemsText_cons (v u : Json) (vs : List Json) :
    itemsText (v :: u :: vs) = v.compact.toList ++ ',' :: itemsText (u :: vs) := by
  simp [itemsText, List.intercalate_cons_cons]

theorem membersText_cons (m l : String × Json) (ms : List (String × Json)) :
    membersText (m :: l :: ms) = memberText m ++ ',' :: membersText (l :: ms) := by
  simp [membersText, List.intercalate_cons_cons]

/-- What is written for a value starts with no blank, and not like the end of an array. -/
theorem front_compact (h : Exact d v) (o : List Char) :
    ∃ c cs, v.compact.toList ++ o = c :: cs ∧ isSpace c = false ∧ c ≠ ']' := by
  cases h with
  | null => exact ⟨'n', _, by rw [compact_null]; rfl, by decide⟩
  | bool d b =>
    rw [compact_bool]
    cases b with
    | true => exact ⟨'t', _, rfl, by decide⟩
    | false => exact ⟨'f', _, rfl, by decide⟩
  | integer d _ _ =>
    rw [compact_integer]
    obtain ⟨c, cs, hcs, hc⟩ := front_integer _ o
    exact ⟨c, cs, hcs, isSpace_numeral hc⟩
  | string d s => exact ⟨'"', _, by rw [compact_string, toList_quoted], by decide⟩
  | array _ => exact ⟨'[', _, by rw [toList_array]; rfl, by decide⟩
  | object _ => exact ⟨'\x7b', _, by rw [toList_object]; rfl, by decide⟩

/-- What is written for the value is read as the value, wherever it can stand. -/
def ReadsBack (d : Nat) (v : Json) : Prop :=
  ∀ fuel o, v.compact.toList.length ≤ fuel → EndsValue o → value? fuel d (v.compact.toList ++ o) = some (v, o)

theorem items_compact {vs : List Json} (hvs : ∀ u ∈ v :: vs, ReadsBack d u) (done : List Json)
    (hfuel : (itemsText (v :: vs)).length < fuel) :
    items fuel d done (itemsText (v :: vs) ++ ']' :: o) = some (.array (done.reverse ++ v :: vs), o) := by
  induction vs generalizing v done fuel with
  | nil =>
    obtain ⟨fuel, rfl⟩ := Nat.exists_eq_succ_of_ne_zero (Nat.ne_zero_of_lt hfuel)
    have htext : itemsText [v] = v.compact.toList := by simp [itemsText]
    rw [htext] at hfuel ⊢
    rw [items, hvs v (by simp) fuel _ (Nat.le_of_lt_succ hfuel) (endsValue_cons (by simp) o)]
    dsimp only
    rw [skipSpace_cons (by decide)]
    simp
  | cons u vs ih =>
    obtain ⟨fuel, rfl⟩ := Nat.exists_eq_succ_of_ne_zero (Nat.ne_zero_of_lt hfuel)
    obtain ⟨hv, hvs⟩ := List.forall_mem_cons.mp hvs
    rw [itemsText_cons, List.length_append, List.length_cons] at hfuel
    rw [itemsText_cons, List.append_assoc, List.cons_append, items,
      hv fuel _ (by omega) (endsValue_cons (by simp) _)]
    dsimp only
    rw [skipSpace_cons (by decide)]
    refine (ih hvs (v :: done) (by omega)).trans ?_
    simp

theorem members_member {m : String × Json} (hm : ReadsBack d m.2) (hfuel : (memberText m).length ≤ fuel)
    (hc : c = ',' ∨ c = '\x7d') (done : List (String × Json)) (o : List Char) :
    members (fuel + 1) d done (memberText m ++ c :: o) =
      if c = ',' then members fuel d (m :: done) o else some (.object (m :: done).reverse, o) := by
  obtain ⟨key, u⟩ := m
  rw [memberText, List.length_append, List.length_cons] at hfuel
  have hcolon : isSpace ':' = false := rfl
  have hspace : isSpace c = false := by
    rcases hc with rfl | rfl <;> rfl
  have hvalue : value? fuel d (u.compact.toList ++ c :: o) = some (u, c :: o) :=
    hm fuel _ (by omega) (endsValue_cons (by rcases hc with rfl | rfl <;> simp) o)
  rw [memberText, List.append_assoc, toList_quoted, members, skipSpace_cons (by decide)]
  rcases hc with rfl | rfl
  · simp [stringRest_escaped, skipSpace_cons hcolon, skipSpace_cons hspace, hvalue]
  · simp [stringRest_escaped, skipSpace_cons hcolon, skipSpace_cons hspace, hvalue]

theorem members_compact {m : String × Json} {ms : List (String × Json)} (hms : ∀ l ∈ m :: ms, ReadsBack d l.2)
    (done : List (String × Json)) (hfuel : (membersText (m :: ms)).length < fuel) :
    members fuel d done (membersText (m :: ms) ++ '\x7d' :: o) = some (.object (done.reverse ++ m :: ms), o) := by
  induction ms generalizing m done fuel with
  | nil =>
    obtain ⟨fuel, rfl⟩ := Nat.exists_eq_succ_of_ne_zero (Nat.ne_zero_of_lt hfuel)
    have htext : membersText [m] = memberText m := by simp [membersText]
    rw [htext] at hfuel ⊢
    rw [members_member (hms m (by simp)) (Nat.le_of_lt_succ hfuel) (.inr rfl), if_neg (by decide), List.reverse_cons]
  | cons l ms ih =>
    obtain ⟨fuel, rfl⟩ := Nat.exists_eq_succ_of_ne_zero (Nat.ne_zero_of_lt hfuel)
    obtain ⟨hm, hms⟩ := List.forall_mem_cons.mp hms
    rw [membersText_cons, List.length_append, List.length_cons] at hfuel
    rw [membersText_cons, List.append_assoc, List.cons_append, members_member hm (by omega) (.inl rfl), if_pos rfl,
      ih hms (m :: done) (by omega)]
    simp

theorem value?_items (hspace : isSpace c = false) (hend : c ≠ ']') (fuel d : Nat) (cs : List Char) :
    value? (fuel + 1) (d + 1) ('[' :: c :: cs) = items fuel d [] (c :: cs) := by
  rw [value?, skipSpace_cons (by decide)]
  simp only [skipSpace_cons hspace]
  split
  · next heq => exact absurd (List.cons.inj heq).1 hend
  · rfl

theorem readsBack_array {items : List Json} (hitems : ∀ u ∈ items, Exact d u) (hread : ∀ u ∈ items, ReadsBack d u) :
    ReadsBack (d + 1) (.array items) := by
  intro fuel o hfuel _
  rw [toList_array, List.length_cons] at hfuel
  obtain ⟨fuel, rfl⟩ := Nat.exists_eq_succ_of_ne_zero (Nat.ne_zero_of_lt hfuel)
  rw [toList_array, List.cons_append, List.append_assoc]
  cases items with
  | nil => rfl
  | cons v vs =>
    obtain ⟨text, htext⟩ := joined_front v.compact.toList (vs.map fun v => v.compact.toList) (']' :: o)
    obtain ⟨c, cs, hcs, hspace, hend⟩ := front_compact (hitems v (by simp)) text
    have hfront : itemsText (v :: vs) ++ ']' :: o = c :: cs := htext.trans hcs
    rw [List.singleton_append, hfront, value?_items hspace hend, ← hfront]
    exact items_compact hread [] (by simp at hfuel; omega)

theorem readsBack_object {ms : List (String × Json)} (hread : ∀ m ∈ ms, ReadsBack d m.2) :
    ReadsBack (d + 1) (.object ms) := by
  intro fuel o hfuel _
  rw [toList_object, List.length_cons] at hfuel
  obtain ⟨fuel, rfl⟩ := Nat.exists_eq_succ_of_ne_zero (Nat.ne_zero_of_lt hfuel)
  rw [toList_object, List.cons_append, List.append_assoc]
  cases ms with
  | nil => rfl
  | cons m ms =>
    obtain ⟨text, htext⟩ := joined_front (memberText m) (ms.map memberText) ('\x7d' :: o)
    have hfront : membersText (m :: ms) ++ '\x7d' :: o =
        '"' :: (m.1.toList.flatMap escaped ++ '"' :: (':' :: m.2.compact.toList ++ text)) := by
      rw [membersText, List.map_cons, htext, memberText, List.append_assoc, toList_quoted]
    have hmembers : members fuel d [] (membersText (m :: ms) ++ '\x7d' :: o) = some (.object (m :: ms), o) :=
      members_compact hread [] (by simp at hfuel; omega)
    rw [hfront] at hmembers
    rw [List.singleton_append, hfront]
    exact hmembers

theorem readsBack_scalar (h : Exact d v)
    (hread : ∀ fuel o, EndsValue o → value? (fuel + 1) d (v.compact.toList ++ o) = some (v, o)) : ReadsBack d v := by
  intro fuel o hfuel ho
  obtain ⟨c, cs, hcs, -⟩ := front_compact h []
  rw [List.append_nil] at hcs
  rw [hcs, List.length_cons] at hfuel
  obtain ⟨fuel, rfl⟩ := Nat.exists_eq_succ_of_ne_zero (Nat.ne_zero_of_lt hfuel)
  exact hread fuel o ho

theorem readsBack (h : Exact d v) : ReadsBack d v := by
  induction h with
  | null d =>
    refine readsBack_scalar (.null d) fun fuel o _ => ?_
    rw [compact_null]
    rfl
  | bool d b =>
    refine readsBack_scalar (.bool d b) fun fuel o _ => ?_
    rw [compact_bool]
    cases b <;> rfl
  | integer d hlow hhigh =>
    refine readsBack_scalar (.integer d hlow hhigh) fun fuel o ho => ?_
    rw [compact_integer]
    exact value?_integer hlow hhigh ho
  | string d s =>
    refine readsBack_scalar (.string d s) fun fuel o _ => ?_
    rw [compact_string, toList_quoted]
    refine (congrArg (Option.map _) (stringRest_escaped o s.toList [])).trans ?_
    simp
  | array hitems ih => exact readsBack_array hitems ih
  | object _ ih => exact readsBack_object ih

end Values

/-- What is written without blanks for a value with integers of 64 bits is read as the value. -/
theorem parse?_compact {d : Nat} {v : Json} (h : Exact d v) : parse? d v.compact = some v := by
  have hread := readsBack h (v.compact.toList.length + 1) [] (Nat.le_succ _) endsValue_nil
  rw [List.append_nil] at hread
  rw [parse?, hread]
  rfl

end BilingualLogic.Json
