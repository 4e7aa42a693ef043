import BilingualLogic.Proofs.Loading.Warnings

/-!
Which sources are accepted. A source is read and checked before it changes anything, and whether it is accepted depends
on its text and on the limits only: not on the name that it goes by, which shows in errors, nor on what was loaded
before, which shows in warnings. A source that is rejected leaves the session as it was.
-/

theorem Except.toOption_bind {ε α β : Type} (r : Except ε α) (f : α → Except ε β) :
    (r.bind f).toOption = r.toOption.bind fun x => (f x).toOption := by
  cases r <;> rfl

theorem Except.toOption_eq_some_iff {ε α : Type} {r : Except ε α} {x : α} : r.toOption = some x ↔ r = .ok x := by
  cases r <;> simp [Except.toOption]

namespace BilingualLogic

namespace Source

section Reading

variable {α β : Type}

/-- Both readings of a text, by whatever name it goes, give the same, errors apart. -/
def Reading.Anywhere (m : Reading α) : Prop :=
  ∀ c c' n, c.maxDepth = c'.maxDepth → (m c n).toOption = (m c' n).toOption

theorem Reading.anywhere_pure (x : α) : (pure x : Reading α).Anywhere := fun _ _ _ _ => rfl

theorem Reading.Anywhere.bind {m : Reading α} {f : α → Reading β} (hm : m.Anywhere) (hf : ∀ x, (f x).Anywhere) :
    (m >>= f).Anywhere := by
  intro c c' n hdepth
  rw [Source.Reading.bind_apply, Source.Reading.bind_apply, Except.toOption_bind, Except.toOption_bind, hm c c' n hdepth]
  exact Option.bind_congr fun r _ => hf r.1 c c' r.2 hdepth

theorem Reading.Anywhere.checked {f : Unit → Reading β} {depth : Nat} {s : Text.Span} (hf : (f ()).Anywhere) :
    (Reading.checkDepth depth s >>= f).Anywhere := by
  refine .bind (fun c c' n hdepth => ?_) fun _ => hf
  rw [Reading.checkDepth, Reading.checkDepth, hdepth]
  split <;> rfl

theorem anywhere_readNumber (s : Text.Span) (numeral : String) : (readNumber s numeral).Anywhere := by
  intro c c' n _
  unfold readNumber
  cases Decimal.ofNumeral? (numeral.map asciiDigit) <;> rfl

end Reading

theorem Term.anywhere_readAll {xs : List Term} {depth : Nat} (h : ∀ x ∈ xs, (x.read depth).Anywhere) :
    (Term.readAll depth xs).Anywhere := by
  induction xs with
  | nil => exact Reading.anywhere_pure _
  | cons x xs ih =>
    obtain ⟨hx, hxs⟩ := List.forall_mem_cons.mp h
    exact .bind hx fun _ => .bind (ih hxs) fun _ => Reading.anywhere_pure _

theorem Term.Valid.anywhere {x : Term} (h : x.Valid) (depth : Nat) : (x.read depth).Anywhere := by
  induction h generalizing depth with
  | anonymous s => exact .checked (.bind (fun _ _ _ _ => rfl) fun _ => Reading.anywhere_pure _)
  | var s _ _ | text s _ | boolean s _ | atom s _ _ => exact .checked (Reading.anywhere_pure _)
  | number s numeral => exact .checked (.bind (anywhere_readNumber s numeral) fun _ => Reading.anywhere_pure _)
  | list s _ ih =>
    exact .checked (.bind (Term.anywhere_readAll fun x hx => ih x hx _) fun _ => Reading.anywhere_pure _)
  | pattern s _ _ _ ih ihrest =>
    exact .checked (.bind (Term.anywhere_readAll fun x hx => ih x hx _) fun _ => .bind (ihrest _) fun _ =>
      Reading.anywhere_pure _)

theorem Predicate.Valid.anywhere {p : Predicate} (h : p.Valid) (depth : Nat) : (p.read depth).Anywhere :=
  .bind (Term.anywhere_readAll fun x hx => (h.arguments x hx).anywhere depth) fun _ => Reading.anywhere_pure _

theorem Formula.Valid.anywhere {x : Formula} (h : x.Valid) (depth : Nat) : (x.read depth).Anywhere := by
  induction h generalizing depth with
  | number s _ => exact .bind (anywhere_readNumber _ _) fun _ => Reading.anywhere_pure _
  | var _ _ | text _ => exact Reading.anywhere_pure _
  | negate _ ih => exact .bind (ih depth) fun _ => Reading.anywhere_pure _
  | binary op _ _ iha ihb => exact .bind (iha depth) fun _ => .bind (ihb depth) fun _ => Reading.anywhere_pure _
  | group s _ ih => exact .checked (ih _)

theorem Goal.anywhere_readAll {xs : List Goal} {depth : Nat} (h : ∀ x ∈ xs, (x.read depth).Anywhere) :
    (Goal.readAll depth xs).Anywhere := by
  induction xs with
  | nil => exact Reading.anywhere_pure _
  | cons x xs ih =>
    obtain ⟨hx, hxs⟩ := List.forall_mem_cons.mp h
    exact .bind hx fun _ => .bind (ih hxs) fun _ => Reading.anywhere_pure _

theorem Goal.anywhere_readBody {xs : List Goal} {depth : Nat} (s : Text.Span)
    (h : ∀ x ∈ xs, (x.read (depth + 1)).Anywhere) : (Goal.readBody depth s xs).Anywhere := by
  cases xs with
  | nil => exact Reading.anywhere_pure _
  | cons x xs => exact .checked (Goal.anywhere_readAll h)

theorem Goal.Valid.anywhere {x : Goal} (h : x.Valid) (depth : Nat) : (x.read depth).Anywhere := by
  induction h generalizing depth with
  | call hp => exact .bind (hp.anywhere depth) fun _ => Reading.anywhere_pure _
  | truth _ | cut => exact Reading.anywhere_pure _
  | not s _ _ ih =>
    exact .checked (.bind (Goal.anywhere_readAll fun x hx => ih x hx _) fun _ => Reading.anywhere_pure _)
  | unify ha hb =>
    exact .bind (ha.anywhere depth) fun _ => .bind (hb.anywhere depth) fun _ => Reading.anywhere_pure _
  | is ha he => exact .bind (ha.anywhere depth) fun _ => .bind (he.anywhere depth) fun _ => Reading.anywhere_pure _
  | compare op ha hb =>
    exact .bind (ha.anywhere depth) fun _ => .bind (hb.anywhere depth) fun _ => Reading.anywhere_pure _
  | collect kind s ht _ _ hr ih =>
    exact .bind (ht.anywhere depth) fun _ => .checked (.bind (Goal.anywhere_readAll fun x hx => ih x hx _) fun _ =>
      .bind (hr.anywhere depth) fun _ => Reading.anywhere_pure _)
  | assert s hh _ ih | retract s hh _ ih =>
    exact .bind (hh.anywhere depth) fun _ => .bind (Goal.anywhere_readBody s fun x hx => ih x hx _) fun _ =>
      Reading.anywhere_pure _

theorem Body.Valid.anywhere {b : Body} (h : b.Valid) : b.read.Anywhere :=
  .checked (Goal.anywhere_readAll fun x hx => (h.goals x hx).anywhere 0)

theorem StatementForm.Valid.anywhere {x : Statement} (h : x.form.Valid) : x.read.Anywhere := by
  obtain ⟨span, form⟩ := x
  have directive {g : Goal} (hg : g.Valid) : (Statement.read ⟨span, .directive g⟩).Anywhere :=
    .bind (hg.anywhere 0) fun _ => Reading.anywhere_pure _
  cases h with
  | fact hhead => exact .bind (hhead.anywhere 0) fun _ => Reading.anywhere_pure _
  | rule hhead hbody =>
    exact .bind (hhead.anywhere 0) fun _ => .bind hbody.anywhere fun _ => Reading.anywhere_pure _
  | query hbody => exact .bind hbody.anywhere fun _ => Reading.anywhere_pure _
  | assert s hhead hbody => exact directive (.assert s hhead hbody)
  | retract s hhead hbody => exact directive (.retract s hhead hbody)

theorem readStatements_cons (c : Context) (n : Nat) (done : List BilingualLogic.Statement) (x : Statement)
    (xs : List Statement) :
    readStatements c n done (x :: xs) = (x.read c n).bind fun r => readStatements c r.2 (r.1 :: done) xs := by
  rw [readStatements]
  cases x.read c n <;> rfl

theorem readStatements_anywhere {c c' : Context} (hdepth : c.maxDepth = c'.maxDepth) {xs : List Statement}
    (h : ∀ x ∈ xs, x.read.Anywhere) (n : Nat) (done : List BilingualLogic.Statement) :
    (readStatements c n done xs).toOption = (readStatements c' n done xs).toOption := by
  induction xs generalizing n done with
  | nil => rfl
  | cons x xs ih =>
    obtain ⟨hx, hxs⟩ := List.forall_mem_cons.mp h
    rw [readStatements_cons, readStatements_cons, Except.toOption_bind, Except.toOption_bind, hx c c' n hdepth]
    exact Option.bind_congr fun r _ => ih hxs r.2 (r.1 :: done)

theorem parseRule_eq_ok_iff {r : Rule} {source text : String} {x : Language.Result r} :
    parseRule r source text = .ok x ↔ Language.grammar.parse ruleDepth r text = .ok x := by
  rw [parseRule]
  split
  · next hparse =>
    rw [hparse]
    constructor <;> intro h <;> cases h <;> rfl
  · next hparse => simp [hparse]

end Source

namespace Program

variable {limits : Limits} {id id' code : String} {p : Program}

/-- A program is read from a text that is not too long, by the grammar and then statement by statement. -/
theorem parse_eq_ok_iff : parse limits id code = .ok p ↔ code.utf8ByteSize ≤ limits.maxFileSize ∧ p.source = id ∧
    ∃ tree, Language.grammar.parse Source.ruleDepth .program code = .ok tree ∧
      Source.readStatements ⟨id, limits.maxTermDepth⟩ 0 [] tree = .ok p.statements := by
  have ofTree {tree : List Source.Statement} (htree : Source.parseRule .program id code = .ok tree)
      (hread : Source.readStatements ⟨id, limits.maxTermDepth⟩ 0 [] tree = .ok p.statements) :
      parse limits id code = if code.utf8ByteSize > limits.maxFileSize then
        .error (.limit (.fileSize limits.maxFileSize code.utf8ByteSize)) else .ok ⟨id, p.statements⟩ := by
    rw [parse, htree]
    simp only [bind, Except.bind, hread]
  constructor
  · intro h
    obtain ⟨tree, htree, hread⟩ := statements_of_parse h
    rw [ofTree htree hread] at h
    split at h
    · cases h
    · next hsize =>
      refine ⟨by omega, ?_, tree, Source.parseRule_eq_ok_iff.mp htree, hread⟩
      rw [← Except.ok.inj h]
  · rintro ⟨hsize, rfl, tree, htree, hread⟩
    rw [ofTree (Source.parseRule_eq_ok_iff.mpr htree) hread, if_neg (by omega)]

/-- The name of a source shows in its program as the name of the source and nowhere else. -/
theorem parse_renamed (h : parse limits id code = .ok p) (id' : String) :
    parse limits id' code = .ok ⟨id', p.statements⟩ := by
  obtain ⟨hsize, -, tree, htree, hread⟩ := parse_eq_ok_iff.mp h
  have hrule : Source.parseRule .program id code = .ok tree := Source.parseRule_eq_ok_iff.mpr htree
  have hvalid := Source.valid_of_parse hrule
  have hdepth : Source.Context.maxDepth ⟨id, limits.maxTermDepth⟩ = Source.Context.maxDepth ⟨id', limits.maxTermDepth⟩ :=
    rfl
  have hsame := Source.readStatements_anywhere hdepth (fun x hx => (hvalid x hx).anywhere) 0 []
  rw [hread] at hsame
  refine parse_eq_ok_iff.mpr ⟨hsize, rfl, tree, htree, ?_⟩
  exact Except.toOption_eq_some_iff.mp hsame.symm

/-- The program is not checked against what it stands beside, other than for warnings. -/
theorem check_eq_ok_iff {store : Store} : (∃ ws, p.check store = .ok ws) ↔ p.faults = [] := by
  refine ⟨fun ⟨ws, h⟩ => (warnings_of_check h).1, fun h => ⟨p.warnings store, ?_⟩⟩
  rw [check, h]

theorem faults_renamed (sts : List Statement) (id id' : String) :
    (⟨id, sts⟩ : Program).faults = [] ↔ (⟨id', sts⟩ : Program).faults = [] := by
  simp [faults]

/-- The code is read and passes its checks on its own, without a name and beside no other clauses. -/
def Admissible (limits : Limits) (code : String) : Prop :=
  ∃ p ws, parse limits "" code = .ok p ∧ p.check ∅ = .ok ws

theorem admissible_iff (id : String) (store : Store) :
    Admissible limits code ↔ ∃ p ws, parse limits id code = .ok p ∧ p.check store = .ok ws := by
  have moved {id id' : String} {store store' : Store} (h : ∃ p ws, parse limits id code = .ok p ∧ p.check store = .ok ws) :
      ∃ p ws, parse limits id' code = .ok p ∧ p.check store' = .ok ws := by
    obtain ⟨p, ws, hparse, hcheck⟩ := h
    have hfaults := (faults_renamed p.statements p.source id').mp (check_eq_ok_iff.mp ⟨ws, hcheck⟩)
    obtain ⟨ws', hcheck'⟩ := check_eq_ok_iff.mpr hfaults
    exact ⟨_, ws', parse_renamed hparse id', hcheck'⟩
  exact ⟨moved, moved⟩

end Program

namespace Session

variable {n : Nat} {s s' : Session} {id code : String} {e : Error} {r : Response}

section InPlace

/-- Something is done to a session, which is there afterwards whether or not it ends in an error. -/
abbrev InPlace := ExceptT Error (StateT Session Bounded)

/-- Loading as it is carried out: each part finds the session that those before it have left, and an error ends it where
it occurs. -/
def loadInPlace (effort : Nat) (id code : String) : InPlace Response := do
  let p ← liftExcept (Program.parse (← get).limits id code)
  let warnings ← liftExcept (p.check (← get).store)
  modify fun s => s.loading id code
  let (s, r) ← liftM (executeAll effort code (← get) ⟨id, [], [], warnings⟩ p.statements)
  set s
  return r

variable {α β : Type}

theorem run_bind (m : InPlace α) (f : α → InPlace β) : (m >>= f).run.run s = (m.run.run s).bind fun
    | (.ok x, s) => (f x).run.run s
    | (.error e, s) => some (.error e, s) := by
  rw [ExceptT.run_bind, StateT.run_bind]
  congr 1
  funext ⟨r, s⟩
  cases r <;> rfl

theorem run_pure (x : α) : (pure x : InPlace α).run.run s = some (.ok x, s) := rfl

theorem run_get : (get : InPlace Session).run.run s = some (.ok s, s) := rfl

theorem run_set : (set s' : InPlace PUnit).run.run s = some (.ok ⟨⟩, s') := rfl

theorem run_modify (f : Session → Session) : (modify f : InPlace PUnit).run.run s = some (.ok ⟨⟩, f s) := rfl

theorem run_liftExcept (r : Except Error α) : (liftExcept r : InPlace α).run.run s = some (r, s) := by
  cases r <;> rfl

theorem run_liftM (x : Bounded α) : (liftM x : InPlace α).run.run s = x.map fun a => (.ok a, s) := by
  cases x <;> rfl

/-- Loading in place does to the session what loading gives, and nothing to it where loading ends in an error. -/
theorem loadInPlace_eq (n : Nat) (id code : String) (s : Session) :
    (loadInPlace n id code).run.run s = (s.load n id code).map fun
      | .ok (s', r) => (.ok r, s')
      | .error e => (.error e, s) := by
  unfold loadInPlace load
  cases hparse : Program.parse s.limits id code with
  | error e => simp only [run_bind, run_get, run_liftExcept, Option.bind_some, hparse, Option.map_some]
  | ok p =>
    cases hcheck : p.check s.store with
    | error e => simp only [run_bind, run_get, run_liftExcept, Option.bind_some, hparse, hcheck, Option.map_some]
    | ok ws =>
      simp only [run_bind, run_get, run_liftExcept, run_modify, run_liftM, run_set, run_pure, Option.bind_some, hparse,
        hcheck, loading, Option.map_map, Option.bind_map]
      rw [Option.map_eq_bind]
      rfl

end InPlace

theorem load_of_accepts {p : Program} {ws : List Warning} (h : s.Accepts id code p ws) :
    s.load n id code = (executeAll n code (s.loading id code) ⟨id, [], [], ws⟩ p.statements).map .ok := by
  simp only [load, h.parsed, h.checked, loading]

/-- A source is rejected where it cannot be read or does not pass the checks, and only there. -/
theorem load_error_iff (id : String) :
    (∃ e, s.load n id code = some (.error e)) ↔ ¬ Program.Admissible s.limits code := by
  rw [Program.admissible_iff id s.store]
  constructor
  · rintro ⟨e, h⟩ ⟨p, ws, hparse, hcheck⟩
    rw [load_of_accepts ⟨hparse, hcheck⟩] at h
    obtain ⟨_, -, h⟩ := Option.map_eq_some_iff.mp h
    cases h
  · intro h
    rw [load]
    cases hparse : Program.parse s.limits id code with
    | error e => exact ⟨e, rfl⟩
    | ok p =>
      cases hcheck : p.check s.store with
      | error e => exact ⟨e, by simp only [hcheck]⟩
      | ok ws => exact absurd ⟨p, ws, hparse, hcheck⟩ h

end Session

end BilingualLogic
