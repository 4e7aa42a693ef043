import BilingualLogic.Proofs.Search.Moments

/-!
Where the goals of a search come from. A goal knows no more of the call whose body it stands in than a height of the
stack of choices. Beside the search go its origins: for each goal that is left the search as it was when that call was
first entered, for each choice the search as it was when the call was made that left it, and the origins of the goals
behind it. Every turn of a search moves them along, one kind of turn after the other.
-/

namespace BilingualLogic

/-- The goal takes back choices: it is a cut, or a call of the keyword. -/
def Goal.Cuts : Goal → Prop
  | .cut => True
  | .call p => Keyword.ofSpelling? p.name = some .cut ∧ p.arguments = []
  | _ => False

/-- The goals to prove once the choice has been taken. -/
def Choice.rest : Choice → List Frame
  | .clauses _ _ rest _ => rest
  | .answers _ rest => rest

namespace Choices

/-- The choices of a stack, counted. -/
def of (stack : List Choice) : Choices := ⟨stack, stack.length⟩

theorem eq_of {cs : Choices} (h : cs.height = cs.stack.length) : cs = of cs.stack := by
  rw [of, ← h]

theorem cutTo_of {stack older : List Choice} (h : older <:+ stack) : (of stack).cutTo older.length = of older := by
  obtain ⟨newer, rfl⟩ := h
  simp [of, cutTo]

end Choices

namespace Search

/-- For every goal that is left the search that entered its call; for every choice the search that made the call, and
the origins of the goals behind the choice. -/
structure Origins where
  goals : List Search
  choices : List (Search × List Search)

/-- How the origins change from one search to the one after a turn. -/
inductive Follows (s : Search) (o : Origins) (s' : Search) : Origins → Prop
  /-- The search has ended. -/
  | still : s' = s → Follows s o s' o
  /-- A goal fails, or an answer was given. -/
  | fails : s'.current = none → s'.choices = s.choices → Follows s o s' ⟨[], o.choices⟩
  | succeeds {f : Frame} {rest : List Frame} {b b' : Substitution} : s.current = some ⟨f :: rest, b⟩ →
    s'.current = some ⟨rest, b'⟩ → s'.choices = s.choices → Follows s o s' ⟨o.goals.tail, o.choices⟩
  /-- The first of several answers, with the others left as a choice. -/
  | offers {p : Predicate} {barrier : Nat} {rest : List Frame} {b b' : Substitution} {more : List Substitution} :
    s.current = some ⟨⟨.call p, barrier⟩ :: rest, b⟩ → s'.current = some ⟨rest, b'⟩ →
    s'.choices = s.choices.push (.answers more rest) →
    Follows s o s' ⟨o.goals.tail, (s, o.goals.tail) :: o.choices⟩
  /-- A call is entered: the goals of the body come from here. -/
  | enters {p : Predicate} {barrier n : Nat} {rest : List Frame} {b b' : Substitution} {c : StoredClause} :
    s.current = some ⟨⟨.call p, barrier⟩ :: rest, b⟩ →
    s'.current = some ⟨frames s.choices.height (c.clause.rename n).body rest, b'⟩ →
    s'.choices = s.choices.push (.clauses p c.id rest b) →
    Follows s o s' ⟨(c.clause.rename n).body.map (fun _ => s) ++ o.goals.tail, (s, o.goals.tail) :: o.choices⟩
  | cuts {f : Frame} {rest : List Frame} {b : Substitution} : s.current = some ⟨f :: rest, b⟩ → f.goal.Cuts →
    s'.current = some ⟨rest, b⟩ → s'.choices = s.choices.cutTo f.barrier →
    Follows s o s' ⟨o.goals.tail, o.choices.drop (s.choices.height - f.barrier)⟩
  /-- The last answer of a choice is taken. -/
  | takes {above below : List Choice} {rest : List Frame} {b : Substitution} {e : Search} {es : List Search}
    {os : List (Search × List Search)} :
    s.current = none → s.choices.stack = above ++ .answers [b] rest :: below →
    o.choices.drop above.length = (e, es) :: os → s'.current = some ⟨rest, b⟩ → s'.choices = .of below →
    Follows s o s' ⟨es, os⟩
  /-- One more answer of a choice is taken, with others left. -/
  | resumes {above below : List Choice} {rest : List Frame} {b : Substitution} {more : List Substitution} {e : Search}
    {es : List Search} {os : List (Search × List Search)} :
    s.current = none → s.choices.stack = above ++ .answers (b :: more) rest :: below →
    o.choices.drop above.length = (e, es) :: os → s'.current = some ⟨rest, b⟩ →
    s'.choices = .of (.answers more rest :: below) → Follows s o s' ⟨es, (e, es) :: os⟩
  /-- One more clause is tried for a call: the goals of its body come from where the call was first entered. -/
  | retries {above below : List Choice} {p : Predicate} {after n : Nat} {rest : List Frame} {b b' : Substitution}
    {c : StoredClause} {e : Search} {es : List Search} {os : List (Search × List Search)} :
    s.current = none → s.choices.stack = above ++ .clauses p after rest b :: below →
    o.choices.drop above.length = (e, es) :: os →
    s'.current = some ⟨frames below.length (c.clause.rename n).body rest, b'⟩ →
    s'.choices = .of (.clauses p c.id rest b :: below) →
    Follows s o s' ⟨(c.clause.rename n).body.map (fun _ => e) ++ es, (e, es) :: os⟩
  /-- No choice is left, or a limit ends the search. -/
  | ends : s'.current = none → s'.choices = .empty → Follows s o s' ⟨[], []⟩

section Turn

variable {limits : Limits} {n : Nat} {w w' : World} {s s₁ s' : Search} {o : Origins} {f : Frame} {rest : List Frame}
  {b : Substitution}

theorem tryClauses_found {p : Predicate} {cs choices : Choices} {ds : List StoredClause} {m m' : Nat} {branch : Branch}
    (h : tryClauses n p rest b cs m ds = some (m', some (branch, choices))) :
    ∃ (c : StoredClause) (k : Nat) (b' : Substitution), branch = ⟨frames cs.height (c.clause.rename k).body rest, b'⟩ ∧
      choices = cs.push (.clauses p c.id rest b) := by
  induction ds generalizing m with
  | nil => cases h
  | cons d ds ih =>
    rw [tryClauses] at h
    split at h
    · cases h
    · cases h
      exact ⟨d, m, _, rfl, rfl⟩
    · exact ih h

/-- The newest of these choices is not used up: the search goes on with one more answer or clause of it. -/
inductive Found : List Choice → Branch × Choices → Prop
  | last {rest : List Frame} {b : Substitution} {below : List Choice} :
    Found (.answers [b] rest :: below) (⟨rest, b⟩, .of below)
  | answer {rest : List Frame} {b : Substitution} {more : List Substitution} {below : List Choice} :
    Found (.answers (b :: more) rest :: below) (⟨rest, b⟩, .of (.answers more rest :: below))
  | clause {p : Predicate} {after k : Nat} {rest : List Frame} {b b' : Substitution} {below : List Choice}
    {c : StoredClause} :
    Found (.clauses p after rest b :: below)
      (⟨frames below.length (c.clause.rename k).body rest, b'⟩, .of (.clauses p c.id rest b :: below))

theorem retry_found {store : Store} {m m' : Nat} {cs : List Choice} {found : Branch × Choices}
    (h : retry n store m cs.length cs = some (m', some found)) : ∃ above below, cs = above ++ below ∧ Found below found := by
  induction cs generalizing m with
  | nil => cases h
  | cons c cs ih =>
    have older {m : Nat} (hcs : retry n store m cs.length cs = some (m', some found)) :
        ∃ above below, c :: cs = above ++ below ∧ Found below found := by
      obtain ⟨above, below, rfl, hfound⟩ := ih hcs
      exact ⟨c :: above, below, rfl, hfound⟩
    match c with
    | .answers [] fs => exact older h
    | .answers [b] fs =>
      cases h
      exact ⟨[], _, rfl, .last⟩
    | .answers (b :: b' :: bs) fs =>
      cases h
      exact ⟨[], _, rfl, .answer⟩
    | .clauses p after fs b =>
      rw [Search.retry] at h
      split at h
      · cases h
      · next htry =>
        cases h
        obtain ⟨branch, choices⟩ := found
        obtain ⟨d, k, b', rfl, rfl⟩ := tryClauses_found htry
        exact ⟨[], _, rfl, .clause⟩
      · exact older h

theorem follows_offerOrFail {p : Predicate} {barrier : Nat} (hs : s.current = some ⟨⟨.call p, barrier⟩ :: rest, b⟩)
    (o : Origins) (r : Except Error (List Substitution)) : ∃ o', Follows s o (s.counted.offerOrFail rest r) o' := by
  match r with
  | .error e => exact ⟨_, .ends rfl rfl⟩
  | .ok [] => exact ⟨_, .fails rfl rfl⟩
  | .ok [b] => exact ⟨_, .succeeds hs rfl rfl⟩
  | .ok (b :: b' :: bs) => exact ⟨_, .offers hs rfl rfl⟩

theorem follows_call {p : Predicate} {barrier : Nat} (hs : s.current = some ⟨⟨.call p, barrier⟩ :: rest, b⟩)
    (o : Origins) (h : call limits n w s.counted p barrier rest b = some (w', s')) : ∃ o', Follows s o s' o' := by
  unfold call at h
  split at h
  · next hkeyword harguments =>
    cases h
    exact ⟨_, .cuts hs ⟨hkeyword, harguments⟩ rfl rfl⟩
  · cases h
    exact ⟨_, .succeeds hs rfl rfl⟩
  · cases h
    exact ⟨_, .fails rfl rfl⟩
  · obtain ⟨bs, _, h⟩ := Option.map_eq_some_iff.mp h
    cases h
    exact follows_offerOrFail hs o (.ok bs)
  · obtain ⟨r, _, h⟩ := Option.map_eq_some_iff.mp h
    cases h
    exact follows_offerOrFail hs o r
  · obtain ⟨r, _, h⟩ := Option.map_eq_some_iff.mp h
    cases h
    exact follows_offerOrFail hs o r
  · obtain ⟨r, _, h⟩ := Option.map_eq_some_iff.mp h
    cases r <;> cases h
    · exact ⟨_, .fails rfl rfl⟩
    · exact ⟨_, .succeeds hs rfl rfl⟩
  · rw [callClauses_eq] at h
    obtain ⟨⟨m, found⟩, htry, h⟩ := Option.map_eq_some_iff.mp h
    cases found with
    | none =>
      cases h
      exact ⟨_, .fails rfl rfl⟩
    | some found =>
      cases h
      obtain ⟨c, k, b', hbranch, hchoices⟩ := tryClauses_found htry
      exact ⟨_, .enters hs (congrArg some hbranch) hchoices⟩

theorem follows_simpleStep (hs : s.current = some ⟨f :: rest, b⟩) (o : Origins)
    (h : simpleStep limits n w s.counted f rest b = some (w', s')) : ∃ o', Follows s o s' o' := by
  obtain ⟨g, barrier⟩ := f
  cases g with
  | call p => exact follows_call hs o h
  | cut =>
    cases h
    exact ⟨_, .cuts hs trivial rfl rfl⟩
  | unify _ _ | is _ _ =>
    obtain ⟨r, _, h⟩ := Option.map_eq_some_iff.mp h
    cases r <;> cases h
    · exact ⟨_, .fails rfl rfl⟩
    · exact ⟨_, .succeeds hs rfl rfl⟩
  | compare _ _ _ =>
    cases h
    split
    · exact ⟨_, .succeeds hs rfl rfl⟩
    · exact ⟨_, .fails rfl rfl⟩
  | assert head body =>
    cases h
    exact ⟨_, .succeeds hs rfl rfl⟩
  | retract head body =>
    cases body with
    | nil =>
      obtain ⟨⟨removed, store⟩, _, h⟩ := Option.map_eq_some_iff.mp h
      cases removed <;> cases h
      · exact ⟨_, .fails rfl rfl⟩
      · exact ⟨_, .succeeds hs rfl rfl⟩
    | cons g gs =>
      cases h
      split
      · exact ⟨_, .succeeds hs rfl rfl⟩
      · exact ⟨_, .fails rfl rfl⟩
  | not _ | collect _ _ _ _ =>
    cases h
    exact ⟨_, .fails rfl rfl⟩

theorem follows_goalTurn (hs : s.current = some ⟨f :: rest, b⟩) (o : Origins) {t : Turn}
    (h : goalTurn limits n w s.counted f rest b = some t) : ∃ o', Follows s o t.search o' := by
  unfold goalTurn at h
  split at h
  · obtain ⟨⟨answer, w₁, inner⟩, _, h⟩ := Option.map_eq_some_iff.mp h
    dsimp only at h
    split at h <;> cases h
    · exact ⟨_, .ends rfl rfl⟩
    · exact ⟨_, .fails rfl rfl⟩
    · exact ⟨_, .succeeds hs rfl rfl⟩
  · obtain ⟨⟨terms, w₁, inner⟩, _, h⟩ := Option.bind_eq_some_iff.mp h
    dsimp only at h
    split at h
    · cases h
      exact ⟨_, .ends rfl rfl⟩
    · obtain ⟨r, _, h⟩ := Option.map_eq_some_iff.mp h
      cases r <;> cases h
      · exact ⟨_, .fails rfl rfl⟩
      · exact ⟨_, .succeeds hs rfl rfl⟩
  · obtain ⟨⟨w₁, s₁⟩, hstep, h⟩ := Option.map_eq_some_iff.mp h
    cases h
    exact follows_simpleStep hs o hstep

/-- Every turn moves the origins along, if there is one for each choice. -/
theorem follows_turn (hheight : s.choices.height = s.choices.stack.length)
    (horigins : s.choices.stack.length = o.choices.length) {t : Turn} (h : turn limits n w s = some t) :
    ∃ o', Follows s o t.search o' := by
  unfold turn at h
  split at h
  · cases h
    exact ⟨_, .still rfl⟩
  · split at h
    · next hcurrent =>
      obtain ⟨⟨m, found⟩, hretry, h⟩ := Option.map_eq_some_iff.mp h
      cases found with
      | none =>
        cases h
        exact ⟨_, .ends hcurrent rfl⟩
      | some found =>
        cases h
        rw [hheight] at hretry
        obtain ⟨above, below, hstack, hfound⟩ := retry_found hretry
        have hdrop : below.length = (o.choices.drop above.length).length := by
          rw [List.length_drop, ← horigins, hstack, List.length_append, Nat.add_sub_cancel_left]
        obtain ⟨⟨e, es⟩, os, hos⟩ : ∃ e os, o.choices.drop above.length = e :: os := by
          apply List.exists_cons_of_ne_nil
          rintro hnil
          rw [hnil] at hdrop
          cases hfound <;> cases hdrop
        cases hfound with
        | last => exact ⟨_, .takes hcurrent hstack hos rfl rfl⟩
        | answer => exact ⟨_, .resumes hcurrent hstack hos rfl rfl⟩
        | clause => exact ⟨_, .retries hcurrent hstack hos rfl rfl⟩
    · next hcurrent =>
      cases h
      exact ⟨_, .fails rfl rfl⟩
    · next hcurrent =>
      split at h
      · cases h
        exact ⟨_, .ends rfl rfl⟩
      · exact follows_goalTurn hcurrent o h

end Turn

end Search
end BilingualLogic
