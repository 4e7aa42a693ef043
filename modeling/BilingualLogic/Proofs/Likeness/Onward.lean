import BilingualLogic.Proofs.Likeness.Run
import BilingualLogic.Proofs.Names.Steps

/-!
Going on from alike states when copies have been counted apart. The names that are in use correspond as they did, and
those that are still to be made correspond number by number from here on.
-/

namespace BilingualLogic

variable {R : String → String → Prop} {m n : Nat} {L : Likeness}

/-- What corresponds from here on, when so many copies have been counted on either side. -/
inductive Onward (R : String → String → Prop) (m n : Nat) : String → String → Prop
  | before {x y : String} : R x y → NotAhead m x → NotAhead n y → Onward R m n x y
  | after (k : Nat) (x : String) : Onward R m n (Clause.renamed (m + k) x) (Clause.renamed (n + k) x)

theorem not_notAhead (m k : Nat) (x : String) : ¬ NotAhead m (Clause.renamed (m + k) x) :=
  fun h => absurd (h (m + k) x rfl) (by omega)

theorem OneToOne.onward (hR : OneToOne R) (m n : Nat) : OneToOne (Onward R m n) := by
  rintro x y x' y' (⟨h, hx, hy⟩ | ⟨k, z⟩) (⟨h', hx', hy'⟩ | ⟨k', z'⟩)
  · exact hR _ _ _ _ h h'
  · exact iff_of_false (fun he => not_notAhead m k' z' (he ▸ hx)) fun he => not_notAhead n k' z' (he ▸ hy)
  · exact iff_of_false (fun he => not_notAhead m k z (he ▸ hx')) fun he => not_notAhead n k z (he ▸ hy')
  · constructor
    · intro he
      obtain ⟨hk, rfl⟩ := Clause.renamed_inj he
      rw [Nat.add_left_cancel hk]
    · intro he
      obtain ⟨hk, rfl⟩ := Clause.renamed_inj he
      rw [Nat.add_left_cancel hk]

theorem ahead_onward (L : Likeness) (m n : Nat) : (L.withNames (Onward L.names m n)).Ahead m n :=
  fun k x => .after k x

theorem get?_ahead {s : Substitution} (h : s.VarsIn (NotAhead m)) (k : Nat) (x : String) :
    s.get? (Clause.renamed (m + k) x) = none := by
  cases hget : s.get? (Clause.renamed (m + k) x) with
  | none => rfl
  | some t => exact absurd (Term.varsIn_var.mp (h.bindings _ t hget).1) (not_notAhead m k x)

theorem Substitution.Alike.onward {s s' : Substitution} (h : s.Alike L s') (hs : s.VarsIn (NotAhead m))
    (hs' : s'.VarsIn (NotAhead n)) : s.Alike (L.withNames (Onward L.names m n)) s' := by
  refine ⟨?_, h.left, h.right⟩
  rintro _ _ (⟨hxy, hx, hy⟩ | ⟨k, z⟩)
  · refine (h.get? hxy).imp_of_eq fun t u ht hu htu => ?_
    exact htu.withNames (fun _ _ => .before) (hs.bindings _ t ht).2 (hs'.bindings _ u hu).2
  · rw [get?_ahead hs, get?_ahead hs']
    exact .none

namespace Search

variable {V W : String → Prop} {s s' : Search}

theorem frames_withNames (hR : ∀ x y, L.names x y → V x → W y → R x y) {fs fs' : List Frame}
    (h : List.Forall₂ (Frame.Alike L) fs fs') (hfs : FramesIn V fs) (hfs' : FramesIn W fs') :
    List.Forall₂ (Frame.Alike (L.withNames R)) fs fs' :=
  h.imp_of_mem fun f hf f' hf' h => ⟨h.goal.withNames hR (hfs f hf) (hfs' f' hf'), h.barrier⟩

theorem branch_onward {b b' : Branch} (h : b.Alike L b') (hb : BranchIn (NotAhead m) b)
    (hb' : BranchIn (NotAhead n) b') : b.Alike (L.withNames (Onward L.names m n)) b' :=
  ⟨frames_withNames (fun _ _ => .before) h.goals hb.goals hb'.goals, h.bindings.onward hb.bindings hb'.bindings⟩

theorem choice_onward {c c' : Choice} (h : c.Alike L c') (hc : ChoiceIn (NotAhead m) c)
    (hc' : ChoiceIn (NotAhead n) c') : c.Alike (L.withNames (Onward L.names m n)) c' := by
  cases h with
  | clauses hp hb =>
    refine .clauses ⟨hp.name, ?_⟩ (branch_onward hb hc.2 hc'.2)
    exact hp.arguments.imp_of_mem fun t ht u hu h => h.withNames (fun _ _ => .before) (hc.1 t ht) (hc'.1 u hu)
  | answers hbs hfs =>
    exact .answers (hbs.imp_of_mem fun b hb b' hb' h => h.onward (hc.2 b hb) (hc'.2 b' hb'))
      (frames_withNames (fun _ _ => .before) hfs hc.1 hc'.1)

section Self

variable (htexts : ∀ content, L.texts content) (hcalls : L.calls = Eq)

include htexts

theorem bindings_alike_self {b : Substitution} (h : b.VarsIn fun x => L.names x x)
    (hnames : ∀ x y, L.names x y → x = y) : b.Alike L b := by
  refine ⟨fun {x y} hxy => ?_, h.walkable, h.walkable⟩
  rw [← hnames x y hxy]
  exact .refl fun t ht => Term.alike_self htexts (h.bindings x t ht).2

include hcalls

theorem frames_alike_self {fs : List Frame} (h : FramesIn (fun x => L.names x x) fs) :
    List.Forall₂ (Frame.Alike L) fs fs :=
  List.forall₂_same.mpr fun f hf => ⟨Goal.alike_self htexts hcalls (h f hf), rfl⟩

/-- A search is like itself if the names that stand in it correspond to themselves and to no others. -/
theorem alike_self (hnames : ∀ x y, L.names x y → x = y) (h : s.VarsIn fun x => L.names x x) : s.Alike L s := by
  have branch {b : Branch} (h : BranchIn (fun x => L.names x x) b) : b.Alike L b :=
    ⟨frames_alike_self htexts hcalls h.goals, bindings_alike_self htexts h.bindings hnames⟩
  refine ⟨.refl fun b hb => branch (h.current b hb), ⟨List.forall₂_same.mpr fun c hc => ?_, rfl⟩, rfl, rfl⟩
  have hc := h.choices c hc
  cases c with
  | clauses p after rest b =>
    exact .clauses ⟨rfl, List.forall₂_same.mpr fun t ht => Term.alike_self htexts (hc.1 t ht)⟩ (branch hc.2)
  | answers pending rest =>
    exact .answers (List.forall₂_same.mpr fun b hb => bindings_alike_self htexts (hc.2 b hb) hnames)
      (frames_alike_self htexts hcalls hc.1)

end Self

/-- Searches that are alike go on alike, though copies have been counted apart. -/
theorem Alike.onward (h : s.Alike L s') (hs : s.VarsIn (NotAhead m)) (hs' : s'.VarsIn (NotAhead n)) :
    s.Alike (L.withNames (Onward L.names m n)) s' := by
  refine ⟨?_, ⟨?_, h.choices.height⟩, h.steps, h.error⟩
  · exact h.current.imp_of_eq fun b b' hb hb' h => branch_onward h (hs.current b hb) (hs'.current b' hb')
  · exact h.choices.stack.imp_of_mem fun c hc c' hc' h => choice_onward h (hs.choices c hc) (hs'.choices c' hc')

end Search
end BilingualLogic
