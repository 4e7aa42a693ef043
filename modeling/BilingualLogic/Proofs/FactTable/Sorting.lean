import BilingualLogic.FactTable
import BilingualLogic.Proofs.Json.Numbers

/-!
The order of tables. The members of an object come in the order of their names, each name with the value of its last
member; values that can be written hold no objects and stay as they are.
-/

namespace BilingualLogic

namespace Json

variable {key name : String} {v : Json} {members : List (String × Json)}

/-- The names of the members ascend. -/
def Ascending (members : List (String × Json)) : Prop := members.Pairwise fun a b => a.1 < b.1

theorem mem_insertMember {m : String × Json} (h : m ∈ insertMember key v members) : m = (key, v) ∨ m ∈ members := by
  induction members with
  | nil => exact Or.inl (List.mem_singleton.mp h)
  | cons x rest ih =>
    obtain ⟨k, u⟩ := x
    rw [insertMember] at h
    split at h
    · exact List.mem_cons.mp h
    · split at h
      · rcases List.mem_cons.mp h with rfl | h
        · exact Or.inr (by simp)
        · exact (ih h).imp_right fun hm => List.mem_cons_of_mem _ hm
      · exact (List.mem_cons.mp h).imp_right fun hm => List.mem_cons_of_mem _ hm

theorem ascending_insertMember (h : Ascending members) : Ascending (insertMember key v members) := by
  induction members with
  | nil => exact List.pairwise_singleton _ _
  | cons x rest ih =>
    obtain ⟨k, u⟩ := x
    obtain ⟨hfirst, hrest⟩ := List.pairwise_cons.mp h
    rw [insertMember]
    split
    · next hlt =>
      refine List.pairwise_cons.mpr ⟨fun m hm => ?_, h⟩
      rcases List.mem_cons.mp hm with rfl | hm
      · exact hlt
      · exact String.lt_trans hlt (hfirst m hm)
    · next hge =>
      split
      · next hgt =>
        refine List.pairwise_cons.mpr ⟨fun m hm => ?_, ih hrest⟩
        rcases mem_insertMember hm with rfl | hm
        · exact hgt
        · exact hfirst m hm
      · next hle =>
        obtain rfl : key = k := String.le_antisymm hle hge
        exact List.pairwise_cons.mpr ⟨hfirst, hrest⟩

theorem lookup_cons_eq {β : Type} {k : String} {u : β} (rest : List (String × β)) :
    ((k, u) :: rest).lookup name = if name = k then some u else rest.lookup name := by
  rw [List.lookup_cons]
  by_cases hname : name = k
  · rw [if_pos hname, beq_iff_eq.mpr hname]
  · rw [if_neg hname, beq_eq_false_iff_ne.mpr hname]

theorem lookup_insertMember (h : Ascending members) :
    (insertMember key v members).lookup name = if name = key then some v else members.lookup name := by
  induction members with
  | nil => exact lookup_cons_eq []
  | cons x rest ih =>
    obtain ⟨k, u⟩ := x
    obtain ⟨-, hrest⟩ := List.pairwise_cons.mp h
    rw [insertMember]
    split
    · exact lookup_cons_eq _
    · next hge =>
      split
      · next hgt =>
        rw [lookup_cons_eq, ih hrest, lookup_cons_eq]
        by_cases hname : name = k
        · have hne : k ≠ key := by
            rintro rfl
            exact String.lt_irrefl _ hgt
          rw [if_pos hname, if_pos hname, if_neg (hname ▸ hne)]
        · rw [if_neg hname, if_neg hname]
      · next hle =>
        obtain rfl : key = k := String.le_antisymm hle hge
        rw [lookup_cons_eq, lookup_cons_eq]
        split <;> rfl

theorem mem_of_lookup {β : Type} {u : β} {ms : List (String × β)} (h : ms.lookup name = some u) : (name, u) ∈ ms := by
  obtain ⟨before, after, rfl, -⟩ := List.lookup_eq_some_iff.mp h
  simp

theorem lookup_of_mem {β : Type} {u : β} {ms : List (String × β)} (hms : ms.Pairwise fun a b => a.1 < b.1)
    (h : (name, u) ∈ ms) : ms.lookup name = some u := by
  induction ms with
  | nil => cases h
  | cons m ms ih =>
    obtain ⟨k, w⟩ := m
    obtain ⟨hfirst, hrest⟩ := List.pairwise_cons.mp hms
    rw [lookup_cons_eq]
    rcases List.mem_cons.mp h with heq | hmem
    · cases heq
      exact if_pos rfl
    · have hlt : k < name := hfirst _ hmem
      have hne : name ≠ k := by
        rintro rfl
        exact String.lt_irrefl _ hlt
      rw [if_neg hne, ih hrest hmem]

theorem lookup_map {α β : Type} (f : α → β) (ms : List (String × α)) :
    (ms.map fun m => (m.1, f m.2)).lookup name = (ms.lookup name).map f := by
  induction ms with
  | nil => rfl
  | cons m ms ih =>
    obtain ⟨k, u⟩ := m
    rw [List.map_cons, lookup_cons_eq, lookup_cons_eq, ih]
    split <;> rfl

/-- Insertion one member after the other keeps the last value of every name. -/
theorem foldl_insertMember (members start : List (String × Json)) (hstart : Ascending start) :
    Ascending (members.foldl (fun sorted (k, v) => insertMember k v sorted) start) ∧
      ∀ name, (members.foldl (fun sorted (k, v) => insertMember k v sorted) start).lookup name =
        (members.reverse.lookup name).or (start.lookup name) := by
  induction members generalizing start with
  | nil => exact ⟨hstart, fun name => rfl⟩
  | cons m members ih =>
    obtain ⟨k, v⟩ := m
    obtain ⟨hascending, hlookup⟩ := ih (insertMember k v start) (ascending_insertMember hstart)
    refine ⟨hascending, fun name => ?_⟩
    rw [List.foldl_cons, hlookup, lookup_insertMember hstart, List.reverse_cons, List.lookup_append]
    cases members.reverse.lookup name with
    | some u => rfl
    | none =>
      rw [lookup_cons_eq, Option.none_or]
      split <;> rfl

end Json

namespace FactTable

open Json

variable {v : Json} {items : List Json}

theorem termTexts_sortedAll {texts : List String}
    (ih : ∀ v ∈ items, ∀ text, termText (sorted v) = .ok text → sorted v = v)
    (h : termTexts (sortedAll items) = .ok texts) : sortedAll items = items := by
  induction items generalizing texts with
  | nil => rfl
  | cons v vs hvs =>
    rw [sortedAll, termTexts] at h
    split at h
    · cases h
    · next text htext =>
      split at h
      · cases h
      · next texts' htexts =>
        obtain ⟨hv, hrest⟩ := List.forall_mem_cons.mp ih
        rw [sortedAll, hv text htext, hvs hrest htexts]

theorem sorted_of_termText (hsized : v.Sized) {text : String} (h : termText (sorted v) = .ok text) : sorted v = v := by
  induction hsized generalizing text with
  | @array items _ ih =>
    rw [sorted, termText] at h
    split at h
    · next texts htexts =>
      rw [sorted, termTexts_sortedAll (fun v hv text htext => ih v hv htext) htexts]
    · cases h
  | object _ => cases h
  | _ => rfl

theorem sorted_of_factText {name text : String} (hsized : v.Sized) (h : factText name (sorted v) = .ok text) :
    sorted v = v := by
  cases hsized with
  | @array items hitems =>
    rw [sorted] at h ⊢
    cases htexts : termTexts (sortedAll items) with
    | error e =>
      simp only [factText, htexts] at h
      cases h
    | ok texts =>
      rw [termTexts_sortedAll (fun v hv text htext => sorted_of_termText (hitems v hv) htext) htexts]
  | object _ => cases h
  | _ => rfl

theorem sortedAll_eq (items : List Json) : sortedAll items = items.map sorted := by
  induction items with
  | nil => rfl
  | cons v vs ih => rw [sortedAll, ih, List.map_cons]

theorem sortedMembers_eq (members : List (String × Json)) :
    sortedMembers members = members.map fun m => (m.1, sorted m.2) := by
  induction members with
  | nil => rfl
  | cons m ms ih => rw [sortedMembers, ih, List.map_cons]

end FactTable

end BilingualLogic
