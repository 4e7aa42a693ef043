import BilingualLogic.Proofs.Search.Origins
import Mathlib.Data.List.Forall2

/-!
The barriers of a search. They never rise along the goals that are left, neither those of the current branch nor those
behind a choice, and none is higher than the stack below. The choices under a barrier are those that the search had
when the call was first entered, so that is what a cut restores, also in the body of a clause that was tried later.
-/

namespace BilingualLogic.Search

/-- No barrier is above the given height, and none is above one before it. -/
structure Descending (height : Nat) (fs : List Frame) : Prop where
  le : ∀ f ∈ fs, f.barrier ≤ height
  sorted : fs.Pairwise fun f g => g.barrier ≤ f.barrier

/-- The goal comes from a search whose choices are the oldest of the stack, up to the barrier of the goal. -/
def Rooted (stack : List Choice) (f : Frame) (e : Search) : Prop :=
  ∃ older, older <:+ stack ∧ e.choices = .of older ∧ f.barrier = older.length

/-- The goals come from these searches, and no barrier is above one before it. -/
structure Stands (stack : List Choice) (fs : List Frame) (es : List Search) : Prop where
  rooted : List.Forall₂ (Rooted stack) fs es
  sorted : fs.Pairwise fun f g => g.barrier ≤ f.barrier

section Stands

variable {stack older : List Choice} {f : Frame} {fs : List Frame} {e : Search} {es : List Search}

theorem Rooted.barrier_le (h : Rooted stack f e) : f.barrier ≤ stack.length := by
  obtain ⟨older, holder, -, hbarrier⟩ := h
  rw [hbarrier]
  exact holder.length_le

/-- What is rooted in the whole stack no higher than an older one is rooted in that one. -/
theorem Rooted.of_le (h : Rooted stack f e) (holder : older <:+ stack) (hle : f.barrier ≤ older.length) :
    Rooted older f e := by
  obtain ⟨oldest, holdest, he, hbarrier⟩ := h
  rw [hbarrier] at hle
  exact ⟨oldest, List.suffix_of_suffix_length_le holdest holder hle, he, hbarrier⟩

theorem Stands.descending (h : Stands stack fs es) : Descending stack.length fs := by
  refine ⟨?_, h.sorted⟩
  have hrooted := h.rooted
  clear h
  induction hrooted with
  | nil => simp
  | cons hf _ ih => exact List.forall_mem_cons.mpr ⟨hf.barrier_le, ih⟩

theorem Stands.tail (h : Stands stack (f :: fs) es) : Stands stack fs es.tail := by
  obtain ⟨hrooted, hsorted⟩ := h
  cases hrooted with
  | cons _ hrooted => exact ⟨hrooted, (List.pairwise_cons.mp hsorted).2⟩

theorem Stands.push (h : Stands stack fs es) (c : Choice) : Stands (c :: stack) fs es := by
  refine ⟨h.rooted.imp fun f e hf => ?_, h.sorted⟩
  obtain ⟨older, holder, he, hbarrier⟩ := hf
  exact ⟨older, holder.trans (List.suffix_cons c stack), he, hbarrier⟩

/-- The goals stand on an older stack as well if no barrier is above it. -/
theorem Stands.of_le (h : Stands stack fs es) (holder : older <:+ stack) (hle : ∀ f ∈ fs, f.barrier ≤ older.length) :
    Stands older fs es := by
  obtain ⟨hrooted, hsorted⟩ := h
  refine ⟨?_, hsorted⟩
  clear hsorted
  induction hrooted with
  | nil => exact .nil
  | cons hf _ ih =>
    obtain ⟨hfle, hle⟩ := List.forall_mem_cons.mp hle
    exact .cons (hf.of_le holder hfle) (ih hle)

/-- The goals of a body, in front of those that were behind the call. -/
theorem Stands.frames (h : Stands stack fs es) (he : e.choices = .of stack) (body : List Goal) :
    Stands stack (frames stack.length body fs) (body.map (fun _ => e) ++ es) := by
  constructor
  · refine List.rel_append ?_ h.rooted
    rw [List.forall₂_map_left_iff, List.forall₂_map_right_iff]
    exact List.forall₂_same.mpr fun g _ => ⟨stack, List.suffix_rfl, he, rfl⟩
  · refine List.pairwise_append.mpr ⟨?_, h.sorted, ?_⟩
    · exact List.pairwise_map.mpr (List.pairwise_of_forall fun _ _ => Nat.le_refl _)
    · rintro f hf g hg
      obtain ⟨_, _, rfl⟩ := List.mem_map.mp hf
      exact h.descending.le g hg

end Stands

/-- Below each choice are the choices that the search had which made the call, and the goals behind it stand on these. -/
inductive Kept : List Choice → List (Search × List Search) → Prop
  | nil : Kept [] []
  | cons {c : Choice} {below : List Choice} {e : Search} {es : List Search} {os : List (Search × List Search)} :
    e.choices = .of below → Stands below c.rest es → Kept below os → Kept (c :: below) ((e, es) :: os)

section Kept

variable {stack : List Choice} {os : List (Search × List Search)}

theorem Kept.length_eq (h : Kept stack os) : stack.length = os.length := by
  induction h with
  | nil => rfl
  | cons _ _ _ ih => exact congrArg (· + 1) ih

theorem Kept.drop (h : Kept stack os) (k : Nat) : Kept (stack.drop k) (os.drop k) := by
  induction h generalizing k with
  | nil => simpa using Kept.nil
  | cons he hrest hkept ih =>
    cases k with
    | zero => exact .cons he hrest hkept
    | succ k => exact ih k

theorem Kept.at {above below : List Choice} {c : Choice} (h : Kept stack os) (hstack : stack = above ++ c :: below) :
    Kept (c :: below) (os.drop above.length) := by
  have hdrop := h.drop above.length
  rwa [hstack, List.drop_left] at hdrop

end Kept

/-- The origins fit the search. -/
structure Sound (s : Search) (o : Origins) : Prop where
  counted : s.choices.height = s.choices.stack.length
  goals (branch : Branch) : s.current = some branch → Stands s.choices.stack branch.goals o.goals
  kept : Kept s.choices.stack o.choices

section Sound

variable {s s' : Search} {o o' : Origins}

theorem Sound.of {stack : List Choice} {fs : List Frame} {b : Substitution} (hcurrent : s.current = some ⟨fs, b⟩)
    (hchoices : s.choices = .of stack) (hgoals : Stands stack fs o.goals) (hkept : Kept stack o.choices) :
    s.Sound o := by
  refine ⟨by rw [hchoices]; rfl, fun branch hbranch => ?_, by rw [hchoices]; exact hkept⟩
  rw [hcurrent] at hbranch
  cases hbranch
  rw [hchoices]
  exact hgoals

theorem Sound.of_none {stack : List Choice} (hcurrent : s.current = none) (hchoices : s.choices = .of stack)
    (hkept : Kept stack o.choices) : s.Sound o := by
  refine ⟨by rw [hchoices]; rfl, fun branch hbranch => ?_, by rw [hchoices]; exact hkept⟩
  rw [hcurrent] at hbranch
  cases hbranch

/-- Down to the barrier of the first goal the choices are those of its origin, and the goals behind stand on them. -/
theorem Sound.restored {f : Frame} {rest : List Frame} {b : Substitution} (hs : s.Sound o)
    (hcurrent : s.current = some ⟨f :: rest, b⟩) :
    ∃ older, older <:+ s.choices.stack ∧ s.choices.cutTo f.barrier = .of older ∧
      older = s.choices.stack.drop (s.choices.height - f.barrier) ∧ Stands older rest o.goals.tail ∧
      ∃ e, o.goals.head? = some e ∧ e.choices = .of older := by
  have hstands := hs.goals _ hcurrent
  obtain ⟨e, es, ⟨older, holder, he, hbarrier⟩, -, hgoals⟩ := List.forall₂_cons_left_iff.mp hstands.rooted
  refine ⟨older, holder, ?_, ?_, ?_, e, by rw [hgoals]; rfl, he⟩
  · rw [hbarrier, Choices.eq_of hs.counted]
    exact Choices.cutTo_of holder
  · rw [hbarrier, hs.counted]
    exact List.suffix_iff_eq_drop.mp holder
  · refine hstands.tail.of_le holder fun g hg => ?_
    rw [← hbarrier]
    exact (List.pairwise_cons.mp hstands.sorted).1 g hg

/-- No kind of turn spoils the origins. -/
theorem Follows.sound (h : Follows s o s' o') (hs : s.Sound o) : s'.Sound o' := by
  have hof := Choices.eq_of hs.counted
  cases h with
  | still heq =>
    subst heq
    exact hs
  | fails hcurrent hchoices => exact .of_none hcurrent (hchoices.trans hof) hs.kept
  | succeeds hbefore hcurrent hchoices => exact .of hcurrent (hchoices.trans hof) (hs.goals _ hbefore).tail hs.kept
  | offers hbefore hcurrent hchoices =>
    have hrest := (hs.goals _ hbefore).tail
    rw [hof] at hchoices
    exact .of hcurrent hchoices (hrest.push _) (.cons hof hrest hs.kept)
  | enters hbefore hcurrent hchoices =>
    have hrest := (hs.goals _ hbefore).tail
    rw [hof] at hchoices
    rw [hs.counted] at hcurrent
    exact .of hcurrent hchoices ((hrest.frames hof _).push _) (.cons hof hrest hs.kept)
  | cuts hbefore _ hcurrent hchoices =>
    obtain ⟨older, -, hcut, hdrop, hrest, -⟩ := hs.restored hbefore
    refine .of hcurrent (hchoices.trans hcut) hrest ?_
    rw [hdrop]
    exact hs.kept.drop _
  | takes _ hstack hos hcurrent hchoices =>
    have hkept := hs.kept.at hstack
    rw [hos] at hkept
    cases hkept with
    | cons _ hrest hkept => exact .of hcurrent hchoices hrest hkept
  | resumes _ hstack hos hcurrent hchoices =>
    have hkept := hs.kept.at hstack
    rw [hos] at hkept
    cases hkept with
    | cons he hrest hkept => exact .of hcurrent hchoices (hrest.push _) (.cons he hrest hkept)
  | retries _ hstack hos hcurrent hchoices =>
    have hkept := hs.kept.at hstack
    rw [hos] at hkept
    cases hkept with
    | cons he hrest hkept => exact .of hcurrent hchoices ((hrest.frames he _).push _) (.cons he hrest hkept)
  | ends hcurrent hchoices => exact .of_none hcurrent hchoices .nil

end Sound

/-- The search gets from the first state to the second by turns. Each turn finds any world: what happens between two
turns, before the next answer is drawn or in another search, is left open. -/
inductive Reaches (limits : Limits) (s₀ : Search) : Search → Prop
  | here : Reaches limits s₀ s₀
  | later {n : Nat} {w : World} {s : Search} {t : Turn} : Reaches limits s₀ s → turn limits n w s = some t →
    Reaches limits s₀ t.search

/-- A search from its start, with the origins of its goals. The goals that it was started with come from the start. -/
inductive Tracks (limits : Limits) (goals : List Goal) (b : Substitution) (k : Nat) : Search → Origins → Prop
  | here : Tracks limits goals b k (start goals b k) ⟨goals.map fun _ => start goals b k, []⟩
  | later {n : Nat} {w : World} {s : Search} {t : Turn} {o o' : Origins} : Tracks limits goals b k s o →
    turn limits n w s = some t → Follows s o t.search o' → Tracks limits goals b k t.search o'

/-- The search is about to prove a call. -/
def Calls (s : Search) : Prop := ∃ p barrier rest b, s.current = some ⟨⟨.call p, barrier⟩ :: rest, b⟩

/-- The search was at `e` on its way from the start, and there a call was entered or the search was started. -/
structure Passed (limits : Limits) (s₀ s e : Search) : Prop where
  before : Reaches limits s₀ e
  after : Reaches limits e s
  entered : e = s₀ ∨ e.Calls

section Tracks

variable {limits : Limits} {goals : List Goal} {b : Substitution} {k n : Nat} {w w' : World} {s s' s₀ : Search}
  {o o' : Origins}

def Origins.All (R : Search → Prop) (o : Origins) : Prop :=
  (∀ e ∈ o.goals, R e) ∧ ∀ c ∈ o.choices, R c.1 ∧ ∀ e ∈ c.2, R e

theorem Origins.All.imp {R R' : Search → Prop} (h : ∀ e, R e → R' e) (ho : o.All R) : o.All R' :=
  ⟨fun e he => h e (ho.1 e he), fun c hc => ⟨h _ (ho.2 c hc).1, fun e he => h e ((ho.2 c hc).2 e he)⟩⟩

/-- New origins are searches at a call. -/
theorem Follows.all {R : Search → Prop} (h : Follows s o s' o') (ho : o.All R) (hs : s.Calls → R s) : o'.All R := by
  obtain ⟨hgoals, hchoices⟩ := ho
  have htail : ∀ e ∈ o.goals.tail, R e := fun e he => hgoals e (List.mem_of_mem_tail he)
  have hdrop {m : Nat} {c : Search × List Search} {os : List (Search × List Search)} (hos : o.choices.drop m = c :: os) :
      (R c.1 ∧ ∀ e ∈ c.2, R e) ∧ ∀ d ∈ os, R d.1 ∧ ∀ e ∈ d.2, R e := by
    have hall : ∀ d ∈ c :: os, R d.1 ∧ ∀ e ∈ d.2, R e := fun d hd => hchoices d (List.mem_of_mem_drop (hos ▸ hd))
    exact List.forall_mem_cons.mp hall
  cases h with
  | still _ => exact ⟨hgoals, hchoices⟩
  | fails _ _ => exact ⟨by simp, hchoices⟩
  | succeeds _ _ _ => exact ⟨htail, hchoices⟩
  | offers hcall _ _ =>
    exact ⟨htail, List.forall_mem_cons.mpr ⟨⟨hs ⟨_, _, _, _, hcall⟩, htail⟩, hchoices⟩⟩
  | enters hcall _ _ =>
    have hnow : R s := hs ⟨_, _, _, _, hcall⟩
    refine ⟨List.forall_mem_append.mpr ⟨?_, htail⟩, List.forall_mem_cons.mpr ⟨⟨hnow, htail⟩, hchoices⟩⟩
    exact List.forall_mem_map.mpr fun _ _ => hnow
  | cuts _ _ _ _ => exact ⟨htail, fun c hc => hchoices c (List.mem_of_mem_drop hc)⟩
  | takes _ _ hos _ _ =>
    obtain ⟨⟨-, hes⟩, hrest⟩ := hdrop hos
    exact ⟨hes, hrest⟩
  | resumes _ _ hos _ _ =>
    obtain ⟨he, hrest⟩ := hdrop hos
    exact ⟨he.2, List.forall_mem_cons.mpr ⟨he, hrest⟩⟩
  | retries _ _ hos _ _ =>
    obtain ⟨he, hrest⟩ := hdrop hos
    refine ⟨List.forall_mem_append.mpr ⟨?_, he.2⟩, List.forall_mem_cons.mpr ⟨he, hrest⟩⟩
    exact List.forall_mem_map.mpr fun _ _ => he.1
  | ends _ _ => exact ⟨by simp, by simp⟩

theorem Tracks.reaches (h : Tracks limits goals b k s o) : Reaches limits (start goals b k) s := by
  induction h with
  | here => exact .here
  | later _ ht _ ih => exact ih.later ht

theorem Tracks.sound (h : Tracks limits goals b k s o) : s.Sound o := by
  induction h with
  | here =>
    refine .of rfl rfl ?_ .nil
    have hnone : Stands [] [] [] := ⟨.nil, .nil⟩
    simpa using hnone.frames (e := start goals b k) rfl goals
  | later _ _ hfollows ih => exact hfollows.sound ih

theorem Tracks.passed (h : Tracks limits goals b k s o) : o.All (Passed limits (start goals b k) s) := by
  induction h with
  | here => exact ⟨List.forall_mem_map.mpr fun _ _ => ⟨.here, .here, .inl rfl⟩, by simp⟩
  | later htracks ht hfollows ih =>
    refine hfollows.all (ih.imp fun e he => ⟨he.before, he.after.later ht, he.entered⟩) fun hcalls => ?_
    exact ⟨htracks.reaches, .later .here ht, .inr hcalls⟩

/-- The origins can be followed all along. -/
theorem Reaches.tracks (h : Reaches limits (start goals b k) s) : ∃ o, Tracks limits goals b k s o := by
  induction h with
  | here => exact ⟨_, .here⟩
  | later _ ht ih =>
    obtain ⟨o, ho⟩ := ih
    obtain ⟨o', hfollows⟩ := follows_turn ho.sound.counted ho.sound.kept.length_eq ht
    exact ⟨o', ho.later ht hfollows⟩

theorem simpleStep_cuts {f : Frame} (hcuts : f.goal.Cuts) (rest : List Frame) :
    simpleStep limits n w s f rest b = some (w, s.cut f.barrier rest b) := by
  obtain ⟨g, barrier⟩ := f
  cases g with
  | call p =>
    obtain ⟨hkeyword, harguments⟩ := hcuts
    simp only [simpleStep, call, hkeyword, harguments]
  | cut => rfl
  | _ => cases hcuts

theorem turn_cuts {f : Frame} {rest : List Frame} (hcurrent : s.current = some ⟨f :: rest, b⟩) (hcuts : f.goal.Cuts)
    (ht : turn limits n w s = some (.goes w' s')) :
    s'.current = some ⟨rest, b⟩ ∧ s'.choices = s.choices.cutTo f.barrier := by
  have hstep : goalTurn limits n w s.counted f rest b = some (.goes w (s.counted.cut f.barrier rest b)) := by
    have hsimple : simpleStep limits n w s.counted f rest b = some (w, s.counted.cut f.barrier rest b) :=
      simpleStep_cuts hcuts rest
    obtain ⟨g, barrier⟩ := f
    cases g with
    | call p => simp only [goalTurn, hsimple, Option.map_some]
    | cut => simp only [goalTurn, hsimple, Option.map_some]
    | _ => cases hcuts
  unfold turn at ht
  split at ht
  · cases ht
  · simp only [hcurrent] at ht
    split at ht
    · cases ht
    · rw [hstep] at ht
      cases ht
      exact ⟨rfl, rfl⟩

/-- Wherever a search gets to from its start, whatever happens to the clauses between its turns and during them, the
barriers of the current goals never rise and are no higher than the stack of choices, those behind a choice no higher
than the choices below it. A cut leaves the choices that there were when the call was first entered in whose body it
stands, or none if it is a goal that the search was started with, and these are the oldest ones of the stack. -/
theorem cut_restores (h : Reaches limits (start goals b k) s) :
    (∃ o, Tracks limits goals b k s o) ∧ ∀ o, Tracks limits goals b k s o →
      s.choices.height = s.choices.stack.length ∧
      (∀ branch, s.current = some branch → Descending s.choices.height branch.goals) ∧
      (∀ above c below, s.choices.stack = above ++ c :: below → Descending below.length c.rest) ∧
      ∀ f rest b', s.current = some ⟨f :: rest, b'⟩ → f.goal.Cuts →
        ∃ e, o.goals.head? = some e ∧ Passed limits (start goals b k) s e ∧ e.choices.stack <:+ s.choices.stack ∧
          ∀ n w w' s', turn limits n w s = some (.goes w' s') →
            s'.current = some ⟨rest, b'⟩ ∧ s'.choices = e.choices := by
  refine ⟨h.tracks, fun o ho => ?_⟩
  have hsound := ho.sound
  refine ⟨hsound.counted, fun branch hbranch => ?_, fun above c below hstack => ?_, ?_⟩
  · rw [hsound.counted]
    exact (hsound.goals branch hbranch).descending
  · generalize hos : o.choices.drop above.length = os
    have hkept := hsound.kept.at hstack
    rw [hos] at hkept
    cases hkept with
    | cons _ hrest _ => exact hrest.descending
  · intro f rest b' hcurrent hcuts
    obtain ⟨older, holder, hcut, -, -, e, he, hchoices⟩ := hsound.restored hcurrent
    refine ⟨e, he, ho.passed.1 e (List.mem_of_mem_head? he), by rw [hchoices]; exact holder, ?_⟩
    intro n w w' s' ht
    obtain ⟨hcurrent', hchoices'⟩ := turn_cuts hcurrent hcuts ht
    exact ⟨hcurrent', by rw [hchoices', hcut, hchoices]⟩

/-- The clauses `q`, `q`, `r :- p` and `r :- !`. -/
def twoBodies : Store :=
  (((Store.empty.add ⟨⟨"q", []⟩, []⟩).add ⟨⟨"q", []⟩, []⟩).add ⟨⟨"r", []⟩, [.call ⟨"p", []⟩]⟩).add
    ⟨⟨"r", []⟩, [.cut]⟩

/-- The choice that the first clause of `q` leaves. -/
def otherQ : Choice := .clauses ⟨"q", []⟩ 0 [⟨.call ⟨"r", []⟩, 0⟩] ∅

/-- The goals `q, r` once the second clause of `r` has been tried. -/
def atCut : Search := ⟨some ⟨[⟨.cut, 1⟩], ∅⟩, .of [.clauses ⟨"r", []⟩ 3 [] ∅, otherQ], 3, none⟩

theorem reaches_atCut : Reaches {} (start [.call ⟨"q", []⟩, .call ⟨"r", []⟩] ∅ 0) atCut := by
  have hq : turn {} 3 ⟨twoBodies, 0⟩ (start [.call ⟨"q", []⟩, .call ⟨"r", []⟩] ∅ 0) =
      some (.goes ⟨twoBodies, 1⟩ ⟨some ⟨[⟨.call ⟨"r", []⟩, 0⟩], ∅⟩, .of [otherQ], 1, none⟩) := rfl
  have hr : turn {} 3 ⟨twoBodies, 1⟩ ⟨some ⟨[⟨.call ⟨"r", []⟩, 0⟩], ∅⟩, .of [otherQ], 1, none⟩ =
      some (.goes ⟨twoBodies, 2⟩
        ⟨some ⟨[⟨.call ⟨"p", []⟩, 1⟩], ∅⟩, .of [.clauses ⟨"r", []⟩ 2 [] ∅, otherQ], 2, none⟩) := rfl
  have hp : turn {} 3 ⟨twoBodies, 2⟩
      ⟨some ⟨[⟨.call ⟨"p", []⟩, 1⟩], ∅⟩, .of [.clauses ⟨"r", []⟩ 2 [] ∅, otherQ], 2, none⟩ =
      some (.goes ⟨twoBodies, 2⟩ ⟨none, .of [.clauses ⟨"r", []⟩ 2 [] ∅, otherQ], 3, none⟩) := rfl
  have hback : turn {} 3 ⟨twoBodies, 2⟩ ⟨none, .of [.clauses ⟨"r", []⟩ 2 [] ∅, otherQ], 3, none⟩ =
      some (.goes ⟨twoBodies, 3⟩ atCut) := rfl
  exact (((Reaches.here.later hq).later hr).later hp).later hback

/-- In the body of the clause of `r` that is tried last the cut leaves the choice of `q`. -/
theorem cut_restores_retried :
    ∃ o e, Tracks {} [.call ⟨"q", []⟩, .call ⟨"r", []⟩] ∅ 0 atCut o ∧ o.goals.head? = some e ∧
      Passed {} (start [.call ⟨"q", []⟩, .call ⟨"r", []⟩] ∅ 0) atCut e ∧ e.choices = .of [otherQ] := by
  obtain ⟨⟨o, ho⟩, hall⟩ := cut_restores reaches_atCut
  obtain ⟨-, -, -, hcut⟩ := hall o ho
  obtain ⟨e, he, hpassed, -, hturn⟩ := hcut _ _ _ rfl trivial
  have ht : turn {} 1 ⟨twoBodies, 3⟩ atCut = some (.goes ⟨twoBodies, 3⟩ ⟨some ⟨[], ∅⟩, .of [otherQ], 4, none⟩) := rfl
  exact ⟨o, e, ho, he, hpassed, (hturn _ _ _ _ ht).2.symm⟩

end Tracks

end BilingualLogic.Search
