import BilingualLogic.Session
import BilingualLogic.Proofs.Search.Truncation

/-!
Effort in loading: a source that was loaded with some effort is loaded with the same result with every greater one. So
what a list of sources comes to does not depend on the effort.
-/

namespace BilingualLogic

namespace Query

variable {limits : Limits} {n m k : Nat} {w w' : World} {q q' : Query} {done solutions : List Solution}

/-- Where the solutions came to an end, asking for more of them makes no difference. -/
theorem take_of_end (h : q.take limits n done k w = some (solutions, w', q')) (hend : solutions.length < done.length + k)
    (hkm : k ≤ m) : q.take limits n done m w = some (solutions, w', q') := by
  induction k generalizing done w q m with
  | zero =>
    cases h
    simp at hend
  | succ k ih =>
    obtain ⟨m, rfl⟩ := Nat.exists_eq_succ_of_ne_zero (Nat.ne_of_gt (Nat.lt_of_lt_of_le k.succ_pos hkm))
    rw [take_succ] at h ⊢
    obtain ⟨⟨answer, w₁, q₁⟩, hnext, h⟩ := Option.bind_eq_some_iff.mp h
    rw [hnext]
    cases answer with
    | none => exact h
    | some a => exact ih h (by simp only [List.length_cons]; omega) (Nat.le_of_succ_le_succ hkm)

theorem all_le (h : n ≤ m) (w : World) (q : Query) : Bounded.Le (q.all limits n w) (q.all limits m w) := by
  refine .of_forall fun r hr => ?_
  unfold all at hr ⊢
  split at hr
  · cases hr
  · next solutions w' q' htake =>
    split at hr
    · next hlt =>
      cases hr
      have hmore := take_of_end ((take_le h n [] w q).eq_some htake) (by simpa using hlt) h
      rw [hmore]
      simp only [Nat.lt_of_lt_of_le hlt h, if_true]
    · cases hr

theorem collect_le (h : n ≤ m) (w : World) (q : Query) : Bounded.Le (q.collect limits n w) (q.collect limits m w) :=
  (all_le h w q).map _

end Query

namespace Session

variable {n m : Nat}

theorem execute_le (h : n ≤ m) (code : String) (s : Session) (r : Response) (st : Statement) :
    Bounded.Le (execute n code s r st) (execute m code s r st) := by
  unfold execute
  dsimp only
  split
  · exact .refl _
  · exact .refl _
  · exact (Query.collect_le h s.world _).map _
  · exact (Query.next_le h s.world _).map _

theorem executeAll_succ (n : Nat) (code : String) (s : Session) (r : Response) (st : Statement) (rest : List Statement) :
    executeAll n code s r (st :: rest) = (execute n code s r st).bind fun (s, r) => executeAll n code s r rest := by
  rw [executeAll]
  cases execute n code s r st <;> rfl

theorem executeAll_le (h : n ≤ m) (code : String) (s : Session) (r : Response) (sts : List Statement) :
    Bounded.Le (executeAll n code s r sts) (executeAll m code s r sts) := by
  induction sts generalizing s r with
  | nil => exact .refl _
  | cons st rest ih =>
    rw [executeAll_succ, executeAll_succ]
    exact (execute_le h code s r st).bind fun (s, r) => ih s r

theorem load_le (h : n ≤ m) (s : Session) (id code : String) : Bounded.Le (s.load n id code) (s.load m id code) := by
  unfold load
  split
  · exact .refl _
  · split
    · exact .refl _
    · exact (executeAll_le h code _ _ _).map _

theorem loadAll_le (h : n ≤ m) (done : List Response) (s : Session) (sources : List (String × String)) :
    Bounded.Le (loadAll n done s sources) (loadAll m done s sources) := by
  induction sources generalizing done s with
  | nil => exact .refl _
  | cons source rest ih =>
    refine .of_forall fun r hr => ?_
    obtain ⟨id, code⟩ := source
    rw [loadAll] at hr ⊢
    split at hr
    · cases hr
    · next hload =>
      rw [(load_le h s id code).eq_some hload]
      exact hr
    · next hload =>
      rw [(load_le h s id code).eq_some hload]
      exact (ih _ _).eq_some hr

end Session
end BilingualLogic
