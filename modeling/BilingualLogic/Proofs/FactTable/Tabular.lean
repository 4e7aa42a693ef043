import BilingualLogic.Proofs.FactTable.Programs
import BilingualLogic.Proofs.Json.Texts
import BilingualLogic.Proofs.Loading.Builtins
import BilingualLogic.Proofs.Unicode.Ranges

/-!
What tables of facts hold without loss: names of letters, numbers and `_`, and terms that come back loosely equal.
-/

namespace BilingualLogic

open BilingualLogic.Language

namespace Decimal

variable {a : Decimal} {n : Int}

theorem toRat_eq_iff : a.toRat = n ↔ a.coefficient = n * tenPow a.scale := by
  have hpos : (10 : ℚ) ^ a.scale ≠ 0 := by positivity
  rw [toRat, div_eq_iff hpos, tenPow]
  norm_cast

theorem toInt?_eq_some_iff : a.toInt? = some n ↔ a.toRat = n := by
  have hne : (tenPow a.scale : Int) ≠ 0 := Int.natCast_ne_zero.mpr (tenPow_pos a.scale).ne'
  rw [toInt?, toRat_eq_iff, Option.ite_none_right_eq_some, Option.some.injEq]
  constructor
  · rintro ⟨hzero, rfl⟩
    exact (Int.ediv_mul_cancel (Int.dvd_of_emod_eq_zero hzero)).symm
  · rintro hcoefficient
    rw [hcoefficient]
    exact ⟨Int.mul_emod_left _ _, Int.mul_ediv_cancel _ hne⟩

theorem toJson_of_toRat (h : a.toRat = n) (hlow : -twoPow 63 ≤ n) (hhigh : n < twoPow 63) : a.toJson = .integer n := by
  simp only [toJson, toInt?_eq_some_iff.mpr h]
  exact if_pos ⟨hlow, hhigh⟩

end Decimal

namespace Term

/-- A value of tables: a text, an atom, a boolean, an integer of 64 bits, or a list of such values. -/
inductive Tabular : Term → Prop
  | text (content : String) : Tabular (.const (.text content))
  | atom (name : String) : Tabular (.const (.atom name))
  | boolean (b : Bool) : Tabular (.const (.boolean b))
  | integer {a : Decimal} {n : Int} : a.toRat = n → -twoPow 63 ≤ n → n < twoPow 63 → Tabular (.const (.number a))
  | list {items : List Term} : (∀ t ∈ items, Tabular t) → Tabular (.list items)

mutual

def isTabular : Term → Bool
  | const (.number a) => a.toInt?.any fun n => -(twoPow 63 : Int) ≤ n && n < twoPow 63
  | const _ => true
  | list items => isTabularAll items
  | _ => false

def isTabularAll : List Term → Bool
  | [] => true
  | t :: ts => t.isTabular && isTabularAll ts

end

theorem isTabularAll_iff (ts : List Term) : isTabularAll ts = true ↔ ∀ t ∈ ts, t.isTabular = true := by
  induction ts with
  | nil => simp [isTabularAll]
  | cons t ts ih => simp [isTabularAll, ih]

theorem isTabular_iff (t : Term) : t.isTabular = true ↔ t.Tabular := by
  induction t with
  | var x => exact iff_of_false nofun nofun
  | const v =>
    cases v with
    | number a =>
      simp only [isTabular, Option.any_eq_true, Bool.and_eq_true, decide_eq_true_eq]
      constructor
      · rintro ⟨n, hn, hlow, hhigh⟩
        exact .integer (Decimal.toInt?_eq_some_iff.mp hn) hlow hhigh
      · intro h
        cases h with
        | integer hn hlow hhigh => exact ⟨_, Decimal.toInt?_eq_some_iff.mpr hn, hlow, hhigh⟩
    | text s => exact iff_of_true rfl (.text s)
    | boolean b => exact iff_of_true rfl (.boolean b)
    | atom name => exact iff_of_true rfl (.atom name)
  | list items ih =>
    rw [isTabular, isTabularAll_iff]
    constructor
    · exact fun h => .list fun t ht => (ih t ht).mp (h t ht)
    · intro h
      cases h with
      | list hitems => exact fun t ht => (ih t ht).mpr (hitems t ht)
  | pattern items rest => exact iff_of_false nofun nofun

instance (t : Term) : Decidable t.Tabular := decidable_of_iff _ t.isTabular_iff

theorem depth_le_depthAll {t : Term} {ts : List Term} (h : t ∈ ts) : t.depth ≤ depthAll ts := by
  induction ts with
  | nil => cases h
  | cons u ts ih =>
    rw [depthAll]
    rcases List.mem_cons.mp h with rfl | h
    · exact Nat.le_max_left _ _
    · exact (ih h).trans (Nat.le_max_right _ _)

end Term


namespace FactTable

section Tabular

variable {t u : Term} {d : Nat}

theorem toJson_list (items : List Term) : (Term.list items).toJson = .array (items.map Term.toJson) := by
  rw [Term.toJson]

theorem depth_of_list {items : List Term} (hd : (Term.list items).depth ≤ d) :
    ∃ e, d = e + 1 ∧ ∀ t ∈ items, t.depth ≤ e := by
  rw [Term.depth] at hd
  exact ⟨d - 1, by omega, fun t ht => (Term.depth_le_depthAll ht).trans (by omega)⟩

theorem sorted_tabular (h : t.Tabular) : sorted t.toJson = t.toJson := by
  induction h with
  | text s | atom s | boolean b => simp [Term.toJson, Value.toJson, sorted]
  | integer hn hlow hhigh => simp [Term.toJson, Value.toJson, Decimal.toJson_of_toRat hn hlow hhigh, sorted]
  | list _ ih =>
    rw [toJson_list, sorted, sortedAll_eq, List.map_map]
    congr 1
    exact List.map_congr_left ih

theorem termTexts_of_forall {vs : List Json} (h : ∀ v ∈ vs, ∃ text, termText v = .ok text) :
    ∃ texts, termTexts vs = .ok texts := by
  induction vs with
  | nil => exact ⟨[], rfl⟩
  | cons v vs ih =>
    obtain ⟨⟨text, htext⟩, hvs⟩ := List.forall_mem_cons.mp h
    obtain ⟨texts, htexts⟩ := ih hvs
    exact ⟨text :: texts, by rw [termTexts, htext, htexts]⟩

theorem termText_tabular (h : t.Tabular) : ∃ text, termText t.toJson = .ok text := by
  induction h with
  | text s | atom s | boolean b =>
    rw [Term.toJson, Value.toJson, termText]
    exact ⟨_, rfl⟩
  | integer hn hlow hhigh =>
    rw [Term.toJson, Value.toJson, Decimal.toJson_of_toRat hn hlow hhigh, termText]
    exact ⟨_, rfl⟩
  | list _ ih =>
    obtain ⟨texts, htexts⟩ := termTexts_of_forall (List.forall_mem_map.mpr ih)
    rw [toJson_list, termText, htexts]
    exact ⟨_, rfl⟩

theorem fits_tabular (h : t.Tabular) (hd : t.depth ≤ d) : Fits d t.toJson := by
  induction h generalizing d with
  | text s | atom s =>
    obtain ⟨e, rfl⟩ := Nat.exists_eq_add_of_le' hd
    rw [Term.toJson, Value.toJson]
    exact .string e s
  | boolean b =>
    obtain ⟨e, rfl⟩ := Nat.exists_eq_add_of_le' hd
    rw [Term.toJson, Value.toJson]
    exact .bool e b
  | integer hn hlow hhigh =>
    obtain ⟨e, rfl⟩ := Nat.exists_eq_add_of_le' hd
    rw [Term.toJson, Value.toJson, Decimal.toJson_of_toRat hn hlow hhigh]
    exact .integer e _
  | list _ ih =>
    obtain ⟨e, rfl, hitems⟩ := depth_of_list hd
    rw [toJson_list]
    exact .array (List.forall_mem_map.mpr fun t ht => ih t ht (hitems t ht))

theorem exact_tabular (h : t.Tabular) (hd : t.depth ≤ d) : Json.Exact d t.toJson := by
  induction h generalizing d with
  | text s | atom s =>
    rw [Term.toJson, Value.toJson]
    exact .string d s
  | boolean b =>
    rw [Term.toJson, Value.toJson]
    exact .bool d b
  | integer hn hlow hhigh =>
    rw [Term.toJson, Value.toJson, Decimal.toJson_of_toRat hn hlow hhigh]
    have hle : twoPow 63 ≤ twoPow 64 := by decide
    exact .integer d hlow (by omega)
  | list _ ih =>
    obtain ⟨e, rfl, hitems⟩ := depth_of_list hd
    rw [toJson_list]
    exact .array (List.forall_mem_map.mpr fun t ht => ih t ht (hitems t ht))

theorem looseAll_of_forall {ts us : List Term} (h : ∀ t ∈ ts, ∀ u, Translates t.toJson u → t.loose u = true)
    (hus : List.Forall₂ Translates (ts.map Term.toJson) us) : Term.looseAll ts us = true := by
  induction ts generalizing us with
  | nil =>
    cases hus
    rfl
  | cons t ts ih =>
    cases hus with
    | cons hu hus =>
      obtain ⟨ht, hts⟩ := List.forall_mem_cons.mp h
      rw [Term.looseAll, ht _ hu, ih hts hus, Bool.and_self]

theorem loose_tabular (h : t.Tabular) (hu : Translates t.toJson u) : t.loose u = true := by
  induction h generalizing u with
  | text s =>
    rw [Term.toJson, Value.toJson] at hu
    cases hu
    exact (Value.loose_iff rfl rfl).mpr rfl
  | atom s =>
    rw [Term.toJson, Value.toJson] at hu
    cases hu
    exact beq_self_eq_true s
  | boolean b =>
    rw [Term.toJson, Value.toJson] at hu
    cases hu
    exact beq_self_eq_true b
  | integer hn hlow hhigh =>
    rw [Term.toJson, Value.toJson, Decimal.toJson_of_toRat hn hlow hhigh] at hu
    cases hu with
    | integer hm => exact (Decimal.beq_iff _ _).mpr (hn.trans hm.symm)
  | list _ ih =>
    rw [toJson_list] at hu
    cases hu with
    | array hitems => exact looseAll_of_forall (fun t ht u hu => ih t ht hu) hitems

end Tabular

section Names

variable {name : String}

/-- Letters, numbers and `_` only. -/
def IsPlainName (name : String) : Prop :=
  ∀ c ∈ name.toList, Unicode.isLetter c = true ∨ Unicode.isNumber c = true ∨ c = '_'

instance (name : String) : Decidable (IsPlainName name) :=
  decidable_of_iff (name.toList.all fun c => Unicode.isLetter c || Unicode.isNumber c || c == '_') (by
    simp [IsPlainName, or_assoc])

theorem nameFault?_of_isName (h : isName name.toList = true) (hplain : IsPlainName name) : nameFault? name = none := by
  have hreserved : (Keyword.ofSpelling? name).any (! ·.namesPredicate) = false := by
    cases hk : Keyword.ofSpelling? name with
    | none => rfl
    | some k => simp [namesPredicate_of_isName h hk]
  have hidentifier : isIdentifier name.toList = true := by
    rw [isName_eq, Bool.and_eq_true] at h
    exact h.1
  unfold nameFault?
  unfold IsPlainName at hplain
  cases hname : name.toList with
  | nil =>
    rw [hname] at hidentifier
    cases hidentifier
  | cons c cs =>
    rw [hname] at hidentifier hplain
    simp only [isIdentifier, List.head?_cons, Option.any_some, Bool.and_eq_true] at hidentifier
    have hstart : isNameStart c = true := by
      rcases Bool.or_eq_true_iff.mp hidentifier.2 with hc | hc
      · simp [isNameStart, Unicode.isAlphabetic_of_isLetter hc]
      · simp [isNameStart, hc]
    have hrest : cs.all isNameRest = true := by
      rw [List.all_eq_true]
      intro d hd
      rcases hplain d (by simp [hd]) with hd | hd | rfl
      · simp [isNameRest, Unicode.isAlphabetic_of_isLetter hd]
      · simp [isNameRest, hd]
      · rfl
    simp [hstart, hrest, hreserved]

end Names

end FactTable

/-- A fact that tables hold without loss: a plain name, and values that nest no deeper than terms may by default. -/
structure Predicate.Tabular (p : Predicate) : Prop where
  name : FactTable.IsPlainName p.name
  arguments : ∀ t ∈ p.arguments, t.Tabular ∧ t.depth ≤ ({} : Limits).maxTermDepth

instance (p : Predicate) : Decidable p.Tabular :=
  decidable_of_iff (decide (FactTable.IsPlainName p.name) &&
      p.arguments.all fun t => t.isTabular && t.depth ≤ ({} : Limits).maxTermDepth) (by
    simp only [Bool.and_eq_true, decide_eq_true_eq, List.all_eq_true, Term.isTabular_iff]
    exact ⟨fun h => ⟨h.1, h.2⟩, fun h => ⟨h.name, h.arguments⟩⟩)

end BilingualLogic
