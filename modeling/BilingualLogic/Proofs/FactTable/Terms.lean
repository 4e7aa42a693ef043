import BilingualLogic.FactTable
import BilingualLogic.Proofs.Json.Numbers
import BilingualLogic.Proofs.Rendering.Program

/-!
The values of a table as terms. What is written for a value is read as its translation, if it nests no deeper than
terms may and its numbers are in the range of decimals, and is an error otherwise.
-/

namespace BilingualLogic

open BilingualLogic.Language Text

namespace Source

variable {α β : Type} {P P' : Context → Prop} {Q : α → Prop} {R : β → Prop}

/-- Where the condition holds a value with the property is read, without anonymous variables, and elsewhere none is. -/
def Reading.Exactly (m : Reading α) (P : Context → Prop) (Q : α → Prop) : Prop :=
  ∀ c n, (P c → ∃ x, m c n = .ok (x, n) ∧ Q x) ∧ (¬ P c → ∀ r, m c n ≠ .ok r)

namespace Reading.Exactly

theorem pure {x : α} (h : Q x) : Exactly (pure x) (fun _ => True) Q :=
  fun _ _ => ⟨fun _ => ⟨x, rfl, h⟩, fun hP => absurd trivial hP⟩

theorem congr {m : Reading α} (h : m.Exactly P Q) (hP : ∀ c, P' c ↔ P c) : m.Exactly P' Q := by
  intro c n
  rw [hP c]
  exact h c n

theorem bind {m : Reading α} {f : α → Reading β} (h : m.Exactly P Q) (hf : ∀ x, Q x → (f x).Exactly P' R) :
    (m >>= f).Exactly (fun c => P c ∧ P' c) R := by
  intro c n
  rw [Reading.bind_apply]
  by_cases hP : P c
  · obtain ⟨x, hx, hQ⟩ := (h c n).1 hP
    rw [hx]
    refine ⟨fun hboth => (hf x hQ c n).1 hboth.2, fun hnot => (hf x hQ c n).2 fun hP' => hnot ⟨hP, hP'⟩⟩
  · refine ⟨fun hboth => absurd hboth.1 hP, fun _ r hr => ?_⟩
    cases hm : m c n with
    | error e =>
      rw [hm] at hr
      cases hr
    | ok x => exact (h c n).2 hP x hm

theorem map {m : Reading α} {f : α → β} (h : m.Exactly P Q) (hf : ∀ x, Q x → R (f x)) :
    (m >>= fun x => Pure.pure (f x)).Exactly P R :=
  (h.bind fun x hx => Exactly.pure (hf x hx)).congr fun c => iff_of_eq (and_true (P c)).symm

theorem checkDepth (depth : Nat) (s : Span) :
    (Reading.checkDepth depth s).Exactly (fun c => depth ≤ c.maxDepth) fun _ => True := by
  intro c n
  rw [Reading.checkDepth]
  refine ⟨fun hd => ⟨(), if_neg (Nat.not_lt.mpr hd), trivial⟩, fun hd r hr => ?_⟩
  rw [if_pos (Nat.not_le.mp hd)] at hr
  cases hr

end Reading.Exactly

end Source

namespace Decimal

variable {w o : List Char} {x : ℚ}

theorem Denotes.reads {spaced : Bool} (h : Denotes w x) (ho : EndsNumeral o) :
    Reads spaced (call .number) (w ++ o) o (· = String.ofList w) := by
  cases h with
  | plain negative ds fs hne hds hfs _ _ => exact reads_plainForm hne hds hfs ho
  | @scientific negative d fs e hdigits =>
    obtain ⟨hd, hfs⟩ := List.forall_mem_cons.mp hdigits.isDigit
    have hsign : (if e < 0 then '-' else '+') = '+' ∨ (if e < 0 then '-' else '+') = '-' := by
      split
      · exact Or.inr rfl
      · exact Or.inl rfl
    exact reads_scientific (by simp) (by simpa using hd) hfs hsign Nat.toDigits_ne_nil (fun c => isDigit_toDigits) ho

theorem Denotes.ascii (h : Denotes w x) {c : Char} (hc : c ∈ w) : c.isDigit = true ∨ c ∈ ['-', '.', 'e', '+'] := by
  have hplain {negative : Bool} {ds fs : List Char} (hds : ∀ c ∈ ds, c.isDigit = true)
      (hfs : ∀ c ∈ fs, c.isDigit = true) (hc : c ∈ plainForm negative ds fs) :
      c.isDigit = true ∨ c ∈ ['-', '.', 'e', '+'] := by
    rcases mem_plainForm hds hfs hc with hc | rfl | rfl
    · exact Or.inl hc
    · exact Or.inr (by simp)
    · exact Or.inr (by simp)
  cases h with
  | plain negative ds fs _ hds hfs _ _ => exact hplain hds hfs hc
  | @scientific negative d fs e hdigits =>
    obtain ⟨hd, hfs⟩ := List.forall_mem_cons.mp hdigits.isDigit
    rcases List.mem_append.mp hc with hc | hc
    · exact hplain (by simpa using hd) hfs hc
    · rcases List.mem_cons.mp hc with rfl | hc
      · exact Or.inr (by simp)
      · rcases List.mem_cons.mp hc with rfl | hc
        · right
          split <;> simp
        · exact Or.inl (isDigit_toDigits hc)

theorem Denotes.front (h : Denotes w x) (o : List Char) :
    ∃ c cs, w ++ o = c :: cs ∧ (Language.isDigit c = true ∨ c = '-') := by
  have hplain {negative : Bool} {ds fs : List Char} (hne : ds ≠ []) (hds : ∀ c ∈ ds, c.isDigit = true)
      (o : List Char) : ∃ c cs, plainForm negative ds fs ++ o = c :: cs ∧ (Language.isDigit c = true ∨ c = '-') := by
    rw [plainForm]
    cases negative with
    | true => exact ⟨'-', _, rfl, Or.inr rfl⟩
    | false =>
      obtain ⟨d, ds, rfl⟩ := List.exists_cons_of_ne_nil hne
      exact ⟨d, _, rfl, Or.inl (isDigit_of_isDigit (hds d (by simp)))⟩
  cases h with
  | plain negative ds fs hne hds _ _ _ => exact hplain hne hds o
  | @scientific negative d fs e hdigits =>
    rw [List.append_assoc]
    exact hplain (by simp) (by simpa using hdigits.isDigit d (by simp)) _

theorem Denotes.readNumber (h : Denotes w x) (s : Span) :
    (Source.readNumber s (String.ofList w)).Exactly (fun _ => InRange x) fun a => a.toRat = nearest x := by
  have hascii : (String.ofList w).map Source.asciiDigit = String.ofList w := by
    rw [← String.toList_inj, String.toList_map, String.toList_ofList]
    exact (List.map_congr_left fun c hc => asciiDigit_of_numeral (h.ascii hc)).trans (List.map_id' _)
  intro c n
  rw [Source.readNumber, hascii]
  obtain ⟨hin, hout⟩ := h.holds
  refine ⟨fun hrange => ?_, fun hrange r hr => ?_⟩
  · obtain ⟨a, ha, hvalue⟩ := hin hrange
    rw [ha]
    exact ⟨a, rfl, hvalue⟩
  · rw [hout hrange] at hr
    cases hr

end Decimal

namespace FactTable

/-- The value nests at most `d` levels deep, and its numbers are in the range of decimals. -/
inductive Fits : Nat → Json → Prop
  | string (d : Nat) (s : String) : Fits (d + 1) (.string s)
  | bool (d : Nat) (b : Bool) : Fits (d + 1) (.bool b)
  | integer (d : Nat) (n : Int) : Fits (d + 1) (.integer n)
  | real (d : Nat) {negative : Bool} {a : Double} : Decimal.InRange (Decimal.signed negative a.shown) →
    Fits (d + 1) (.real negative a)
  | array {d : Nat} {items : List Json} : (∀ v ∈ items, Fits d v) → Fits (d + 1) (.array items)

/-- The term is the value: a double stands for the number that its shortest digits show, to 28 decimals. -/
inductive Translates : Json → Term → Prop
  | string (s : String) : Translates (.string s) (.text s)
  | bool (b : Bool) : Translates (.bool b) (.const (.boolean b))
  | integer {n : Int} {a : Decimal} : a.toRat = n → Translates (.integer n) (.number a)
  | real {negative : Bool} {r : Double} {a : Decimal} :
    a.toRat = Decimal.nearest (Decimal.signed negative r.shown) → Translates (.real negative r) (.number a)
  | array {items : List Json} {as : List Term} : List.Forall₂ Translates items as → Translates (.array items) (.list as)

/-- The source reads as the value, in places that leave room for it. -/
def Meant (v : Json) (x : Source.Term) : Prop :=
  ∀ depth, (x.read depth).Exactly (fun c => Fits (c.maxDepth - depth) v) (Translates v)

section Meant

open Source

variable {v : Json} {items : List Json} {xs : List Source.Term}

theorem meant_of_checked {x : Source.Term} {m : Reading Term} {p : Prop} {s : Span}
    (hx : ∀ depth, x.read depth = Reading.checkDepth (depth + 1) s >>= fun _ => m)
    (hm : m.Exactly (fun _ => p) (Translates v)) (hzero : ¬ Fits 0 v) (hsucc : ∀ d, Fits (d + 1) v ↔ p) : Meant v x := by
  intro depth
  rw [hx]
  refine ((Reading.Exactly.checkDepth (depth + 1) s).bind fun _ _ => hm).congr fun c => ?_
  by_cases hd : depth + 1 ≤ c.maxDepth
  · obtain ⟨d, hd'⟩ := Nat.exists_eq_add_of_le hd
    rw [show c.maxDepth - depth = d + 1 by omega, hsucc]
    exact (and_iff_right hd).symm
  · rw [show c.maxDepth - depth = 0 by omega]
    exact iff_of_false hzero fun h => hd h.1

theorem meant_text (content : String) (s : Span) : Meant (.string content) (.text s content) :=
  meant_of_checked (fun _ => rfl) (Reading.Exactly.pure (.string content)) nofun
    fun d => iff_true_intro (.string d content)

theorem meant_boolean (b : Bool) (s : Span) : Meant (.bool b) (.boolean s b) :=
  meant_of_checked (fun _ => rfl) (Reading.Exactly.pure (.bool b)) nofun fun d => iff_true_intro (.bool d b)

theorem meant_integer {n : Int} {w : List Char} (h : Decimal.Denotes w n) (hn : n.natAbs < twoPow 64) (s : Span) :
    Meant (.integer n) (.number s (String.ofList w)) := by
  have hlt : n.natAbs < twoPow 96 := hn.trans (by decide)
  have hvalue : Decimal.signed (decide (n < 0)) ((n.natAbs : ℚ) / 10 ^ 0) = n := by
    rw [pow_zero, div_one, Decimal.signed_natAbs]
  refine meant_of_checked (fun _ => rfl) ((h.readNumber s).map fun a ha => .integer ?_) nofun fun d => ?_
  · rw [ha, ← hvalue, Decimal.nearest_exact (Nat.zero_le 28)]
  · rw [← hvalue]
    exact iff_of_true (.integer d n) (Decimal.inRange_exact hlt (Nat.zero_le 28))

theorem meant_real {negative : Bool} {a : Double} {w : List Char}
    (h : Decimal.Denotes w (Decimal.signed negative a.shown)) (s : Span) :
    Meant (.real negative a) (.number s (String.ofList w)) := by
  refine meant_of_checked (fun _ => rfl) ((h.readNumber s).map fun b hb => .real hb) nofun fun d => ⟨?_, .real d⟩
  rintro ⟨⟩
  assumption

theorem meant_all (h : List.Forall₂ Meant items xs) (depth : Nat) :
    (Source.Term.readAll depth xs).Exactly (fun c => ∀ v ∈ items, Fits (c.maxDepth - depth) v)
      (List.Forall₂ Translates items) := by
  induction h with
  | nil => exact (Reading.Exactly.pure .nil).congr fun c => by simp
  | cons hx _ ih =>
    refine ((hx depth).bind fun a ha => ih.map fun as has => .cons ha has).congr fun c => ?_
    rw [List.forall_mem_cons]

theorem meant_array (h : List.Forall₂ Meant items xs) (s : Span) : Meant (.array items) (.list s xs none) := by
  intro depth
  refine ((Reading.Exactly.checkDepth (depth + 1) s).bind fun _ _ =>
    (meant_all h (depth + 1)).map fun as has => .array has).congr fun c => ?_
  by_cases hd : depth + 1 ≤ c.maxDepth
  · obtain ⟨d, hd'⟩ := Nat.exists_eq_add_of_le hd
    rw [show c.maxDepth - depth = d + 1 by omega, show c.maxDepth - (depth + 1) = d by omega]
    refine ⟨?_, fun hall => .array hall.2⟩
    rintro (_ | _ | _ | _ | hall)
    exact ⟨hd, hall⟩
  · rw [show c.maxDepth - depth = 0 by omega]
    exact iff_of_false nofun fun hall => hd hall.1

end Meant

section Texts

variable {v : Json} {items : List Json} {o : List Char}

/-- What is written for a value, if anything. -/
def shown (v : Json) : List Char :=
  match termText v with
  | .ok text => text.toList
  | .error _ => []

theorem shown_eq {text : String} (h : termText v = .ok text) : shown v = text.toList := by rw [shown, h]

theorem termTexts_ok {texts : List String} (h : termTexts items = .ok texts) :
    texts.map String.toList = items.map shown ∧ ∀ v ∈ items, ∃ text, termText v = .ok text := by
  induction items generalizing texts with
  | nil =>
    cases h
    simp
  | cons v vs ih =>
    rw [termTexts] at h
    split at h
    · cases h
    · next text htext =>
      split at h
      · cases h
      · next texts' htexts =>
        cases h
        obtain ⟨hmap, hall⟩ := ih htexts
        exact ⟨by rw [List.map_cons, List.map_cons, hmap, shown_eq htext],
          List.forall_mem_cons.mpr ⟨⟨text, htext⟩, hall⟩⟩

theorem intercalate_texts {texts : List String} (h : termTexts items = .ok texts) :
    (", ".intercalate texts).toList = spread ',' shown items := by
  rw [String.toList_intercalate, (termTexts_ok h).1]
  exact intercalate_eq_spread ',' shown items

theorem escapes_escaped : Escapes escaped := by
  intro c
  unfold escaped
  split
  · exact .inr ⟨'"', rfl, rfl⟩
  · exact .inr ⟨'\\', rfl, rfl⟩
  · next hquote hbackslash => exact .inl ⟨rfl, hquote, hbackslash⟩

/-- What is written for a value is read as the value, whatever ends it. -/
structure ReadsValue (v : Json) : Prop where
  solid : ∀ o, Solid (shown v ++ o)
  reads : ∀ o, EndsTerm o → Reads true (call .term) (shown v ++ o) o (Meant v)

theorem readsValue_string (content : String) : ReadsValue (.string content) := by
  have htext (o : List Char) : shown (.string content) ++ o = '"' :: (content.toList.flatMap escaped ++ '"' :: o) := by
    rw [shown, termText]
    simp
  constructor
  · intro o
    rw [htext]
    exact solid_cons rfl (by decide) _
  · intro o _
    rw [htext]
    refine reads_textTerm ((reads_quoted escapes_escaped content.toList o).imp fun x hx s => ?_)
    rw [hx, String.ofList_toList]
    exact meant_text content s

theorem readsValue_bool (b : Bool) : ReadsValue (.bool b) := by
  have htext : shown (.bool b) = ((bif b then Keyword.true else Keyword.false).spelling .latin).toList := by
    rw [shown, termText]
    cases b <;> rfl
  constructor
  · intro o
    rw [htext]
    exact (startsWord_keyword _ .latin o).solid
  · intro o ho
    rw [htext]
    exact reads_booleanTerm (spells_spelling _ .latin) ho.stops (meant_boolean b)

theorem readsValue_number {x : ℚ} (h : Decimal.Denotes (shown v) x) (hv : ∀ s, Meant v (.number s (String.ofList (shown v)))) :
    ReadsValue v := by
  constructor
  · intro o
    obtain ⟨c, cs, hi, hc⟩ := h.front o
    rw [hi]
    rcases hc with hc | rfl
    · exact solid_of_isNameChar (isNameChar_of_isDigit hc).1 cs
    · exact solid_cons rfl (by decide) cs
  · intro o ho
    refine reads_numberTerm (h.front o) ((h.reads ho.endsNumeral).imp fun y hy s => ?_)
    rw [hy]
    exact hv s

theorem readsValue_array {texts : List String} (htexts : termTexts items = .ok texts) (h : ∀ v ∈ items, ReadsValue v) :
    ReadsValue (.array items) := by
  have htext (o : List Char) : shown (.array items) ++ o = '[' :: (spread ',' shown items ++ ']' :: o) := by
    rw [shown, termText, htexts, ← intercalate_texts htexts]
    simp
  constructor
  · intro o
    rw [htext]
    exact solid_cons rfl (by decide) _
  · intro o _
    rw [htext]
    exact reads_listed (fun v hv => ⟨(h v hv).solid, (h v hv).reads⟩) (fun xs hxs s => meant_array hxs s) o

theorem readsValue (hsized : v.Sized) {text : String} (h : termText v = .ok text) : ReadsValue v := by
  induction hsized generalizing text with
  | null => cases h
  | bool b => exact readsValue_bool b
  | @integer n hn =>
    have hshown : shown (.integer n) = (Json.scalarText (.integer n)).toList := shown_eq rfl
    have hdenotes := Json.denotes_integer (hn.trans (by decide : twoPow 64 < twoPow 96))
    rw [← hshown] at hdenotes
    exact readsValue_number hdenotes (meant_integer hdenotes hn)
  | @real negative a ha =>
    have hshown : shown (.real negative a) = (Json.scalarText (.real negative a)).toList := shown_eq rfl
    have hdenotes := Json.denotes_real negative ha
    rw [← hshown] at hdenotes
    exact readsValue_number hdenotes (meant_real hdenotes)
  | string s => exact readsValue_string s
  | @array items _ ih =>
    rw [termText] at h
    split at h
    · next texts htexts =>
      refine readsValue_array htexts fun v hv => ?_
      obtain ⟨text, htext⟩ := (termTexts_ok htexts).2 v hv
      exact ih v hv htext
    · cases h
  | object _ => cases h

end Texts

end FactTable

end BilingualLogic
