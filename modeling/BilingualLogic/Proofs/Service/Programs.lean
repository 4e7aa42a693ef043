import BilingualLogic.Service
import BilingualLogic.Proofs.Loading.Admission
import BilingualLogic.Proofs.Loading.Effort

/-!
The programs that the service stores. Only code that is posted and accepted is stored, behind the programs that are
there, and whether it is accepted depends on the code alone. So a list of programs that can be loaded can be loaded
after any requests, with the clauses that the service has counted.
-/

namespace BilingualLogic

namespace Session

variable {n : Nat} {s s' : Session} {sources : List (String × String)} {done rs : List Response}

theorem loadAll_cons (n : Nat) (done : List Response) (s : Session) (id code : String) (rest : List (String × String)) :
    loadAll n done s ((id, code) :: rest) = (s.load n id code).bind fun
      | .error e => some (.error e)
      | .ok (s, r) => loadAll n (r :: done) s rest := by
  rw [loadAll]
  rcases s.load n id code with _ | _ | _ <;> rfl

theorem admissible_of_load {id code : String} {r : Response} (h : s.load n id code = some (.ok (s', r))) :
    Program.Admissible s.limits code ∧ s'.limits = s.limits := by
  obtain ⟨p, hp, hlimits, -⟩ := accepts_of_load h
  exact ⟨(Program.admissible_iff id s.store).mpr ⟨p, r.warnings, hp.parsed, hp.checked⟩, hlimits⟩

theorem admissible_of_loadAll (h : loadAll n done s sources = some (.ok (s', rs))) :
    ∀ source ∈ sources, Program.Admissible s.limits source.2 := by
  induction sources generalizing s done with
  | nil => simp
  | cons source rest ih =>
    obtain ⟨id, code⟩ := source
    rw [loadAll_cons] at h
    obtain ⟨r, hload, h⟩ := Option.bind_eq_some_iff.mp h
    cases r with
    | error e => cases h
    | ok r =>
      obtain ⟨hcode, hlimits⟩ := admissible_of_load hload
      exact List.forall_mem_cons.mpr ⟨hcode, hlimits ▸ ih h⟩

theorem not_admissible_of_loadAll {e : Error} (h : loadAll n done s sources = some (.error e)) :
    ∃ source ∈ sources, ¬ Program.Admissible s.limits source.2 := by
  induction sources generalizing s done with
  | nil => cases h
  | cons source rest ih =>
    obtain ⟨id, code⟩ := source
    rw [loadAll_cons] at h
    obtain ⟨r, hload, h⟩ := Option.bind_eq_some_iff.mp h
    cases r with
    | error e => exact ⟨_, List.mem_cons_self .., (load_error_iff id).mp ⟨e, hload⟩⟩
    | ok r =>
      obtain ⟨source, hmem, hno⟩ := ih h
      exact ⟨source, List.mem_cons_of_mem _ hmem, (admissible_of_load hload).2 ▸ hno⟩

end Session

namespace Service

variable {n m : Nat} {ps ps' ps'' : Programs} {source code : String} {r : Request} {reply : Reply}

/-- The programs can be loaded, one after the other, by a new session. -/
def Loads (ps : Programs) : Prop := ∃ n s rs, build n ps = some (.ok (s, rs))

/-- Requests that are answered one after the other lead from the first programs to the second ones. -/
inductive Serves : Programs → Programs → Prop
  | none {ps : Programs} : Serves ps ps
  | request {n : Nat} {ps ps' ps'' : Programs} {source : String} {r : Request} {reply : Reply} :
    Serves ps ps' → respond n ps' source r = some (reply, ps'') → Serves ps ps''

/-- The request is one to store the code. -/
structure Request.Posts (r : Request) (code : String) : Prop where
  method : r.method = "POST"
  path : String.ofList (r.path.toList.takeWhile (· != '?')) = "/facts"
  typed : r.typed = true
  body : ∃ values, Payload.read codeFields r.body = .ok values ∧ (Payload.text values "code").getD "" = code
  notBlank : isBlankText code = false

theorem build_unique {s s' : Session} {rs rs' : List Response} (h : build n ps = some (.ok (s, rs)))
    (h' : build m ps = some (.ok (s', rs'))) : s = s' := by
  cases Bounded.unique (fun hnm => Session.loadAll_le hnm [] (.start .untrusted) ps) h h'
  rfl

theorem respond_of_posts (h : r.Posts code) : respond n ps source r = store n ps source code := by
  obtain ⟨hmethod, hpath, htyped, ⟨values, hread, htext⟩, hblank⟩ := h
  simp [respond, hmethod, hpath, post, withCode, withPayload, htyped, hread, htext, hblank]

theorem look_keeps {answer : Unit → Bounded Reply} (h : look r ps answer = some (reply, ps')) : ps' = ps := by
  unfold look at h
  split at h
  · obtain ⟨_, -, h⟩ := Option.map_eq_some_iff.mp h
    cases h
    rfl
  · split at h
    · obtain ⟨_, -, h⟩ := Option.map_eq_some_iff.mp h
      cases h
      rfl
    · cases h
      rfl

theorem withPayload_cases {fields : Payload.Fields} {answer : Payload.Values → Bounded (Reply × Programs)}
    (h : withPayload fields r ps answer = some (reply, ps')) :
    ps' = ps ∨ r.typed = true ∧ ∃ values, Payload.read fields r.body = .ok values ∧ answer values = some (reply, ps') := by
  unfold withPayload at h
  split at h
  · cases h
    exact .inl rfl
  · next htyped =>
    split at h
    · cases h
      exact .inl rfl
    · cases h
      exact .inl rfl
    · next values hread => exact .inr ⟨by simpa using htyped, values, hread, h⟩

theorem withCode_cases {answer : String → Bounded (Reply × Programs)}
    (h : withCode r ps answer = some (reply, ps')) :
    ps' = ps ∨ r.typed = true ∧ ∃ values, Payload.read codeFields r.body = .ok values ∧
      isBlankText ((Payload.text values "code").getD "") = false ∧
      answer ((Payload.text values "code").getD "") = some (reply, ps') := by
  rcases withPayload_cases h with hkeeps | ⟨htyped, values, hread, h⟩
  · exact .inl hkeeps
  · dsimp only at h
    split at h
    · cases h
      exact .inl rfl
    · next hblank => exact .inr ⟨htyped, values, hread, by simpa using hblank, h⟩

theorem post_cases {answer : Unit → Bounded (Reply × Programs)} (h : post r ps answer = some (reply, ps')) :
    ps' = ps ∨ r.method = "POST" ∧ answer () = some (reply, ps') := by
  unfold post at h
  split at h
  · next hmethod => exact .inr ⟨hmethod, h⟩
  · cases h
    exact .inl rfl

theorem respond_keeps (hposts : ∀ code, ¬ r.Posts code) (h : respond n ps source r = some (reply, ps')) : ps' = ps := by
  unfold respond at h
  split at h
  · cases h
    rfl
  · split at h
    · exact look_keeps h
    · exact look_keeps h
    · rcases post_cases h with hkeeps | ⟨-, h⟩
      · exact hkeeps
      · rcases withPayload_cases h with hkeeps | ⟨-, values, -, h⟩
        · exact hkeeps
        · dsimp only at h
          split at h
          · cases h
            rfl
          · obtain ⟨_, -, h⟩ := Option.map_eq_some_iff.mp h
            cases h
            rfl
    · rcases post_cases h with hkeeps | ⟨-, h⟩
      · exact hkeeps
      · rcases withCode_cases h with hkeeps | ⟨-, values, -, -, h⟩
        · exact hkeeps
        · obtain ⟨_, -, h⟩ := Option.map_eq_some_iff.mp h
          cases h
          rfl
    · next hpath =>
      rcases post_cases h with hkeeps | ⟨hmethod, h⟩
      · exact hkeeps
      · rcases withCode_cases h with hkeeps | ⟨htyped, values, hread, hblank, -⟩
        · exact hkeeps
        · exact absurd ⟨hmethod, hpath, htyped, ⟨values, hread, rfl⟩, hblank⟩ (hposts _)
    · cases h
      rfl

/-- The programs load, and so does the code behind them if it is accepted. Only then is it stored. -/
inductive Stores (ps : Programs) (source code : String) : Reply → Programs → Prop
  | accepted {n : Nat} {s : Session} {rs : List Response} {warnings : Json} :
    Program.Admissible .untrusted code → build n (ps ++ [(source, code)]) = some (.ok (s, rs)) →
      Stores ps source code (ok (.object [("source_id", .string source), ("clauses", .integer s.store.size),
        ("warnings", warnings)])) (ps ++ [(source, code)])
  | rejected {reason : String} : ¬ Program.Admissible .untrusted code →
    Stores ps source code (refuse "Failed to add code" reason) ps

theorem Loads.admissible (h : Loads ps) : ∀ p ∈ ps, Program.Admissible .untrusted p.2 := by
  obtain ⟨n, s, rs, h⟩ := h
  exact Session.admissible_of_loadAll h

theorem stores_of_store (hloads : Loads ps) (h : store n ps source code = some (reply, ps')) :
    Stores ps source code reply ps' := by
  obtain ⟨r, hbuild, h⟩ := Option.map_eq_some_iff.mp h
  cases r with
  | ok r =>
    cases h
    refine .accepted ?_ hbuild
    exact Session.admissible_of_loadAll hbuild (source, code) (by simp)
  | error e =>
    cases h
    obtain ⟨p, hmem, hno⟩ := Session.not_admissible_of_loadAll hbuild
    rcases List.mem_append.mp hmem with hmem | hmem
    · exact absurd (hloads.admissible p hmem) hno
    · obtain rfl := List.mem_singleton.mp hmem
      exact .rejected hno

theorem Loads.respond (hloads : Loads ps) (h : respond n ps source r = some (reply, ps')) : Loads ps' := by
  by_cases hposts : ∃ code, r.Posts code
  · obtain ⟨code, hposts⟩ := hposts
    rw [respond_of_posts hposts] at h
    cases stores_of_store hloads h with
    | accepted _ hbuild => exact ⟨_, _, _, hbuild⟩
    | rejected _ => exact hloads
  · rwa [respond_keeps (fun code hcode => hposts ⟨code, hcode⟩) h]

theorem Loads.serves (hloads : Loads ps) (h : Serves ps ps') : Loads ps' := by
  induction h with
  | none => exact hloads
  | request _ h ih => exact (ih hloads).respond h

/-- A source is rejected where its text cannot be read or does not pass the checks under the limits, whatever its name
and whatever was loaded before, and then the session stays what it was. So programs that load still load after any
requests. The only requests that change them post code: it is accepted where it passes on its own, and stored behind the
others with an answer that counts the clauses of them all. -/
theorem programs_stay_loadable :
    (∀ n s id code, ((∃ e, Session.load n s id code = some (.error e)) ↔ ¬ Program.Admissible s.limits code) ∧
      ∀ e s', (Session.loadInPlace n id code).run.run s = some (.error e, s') → s' = s) ∧
    ∀ ps ps', Loads ps → Serves ps ps' → Loads ps' ∧
      ∀ n source r reply ps'', Service.respond n ps' source r = some (reply, ps'') →
        ((∀ code, ¬ r.Posts code) → ps'' = ps') ∧
        ∀ code, r.Posts code →
          (reply.status = 200 ↔ Program.Admissible .untrusted code) ∧
          (reply.status ≠ 200 → ps'' = ps') ∧
          (reply.status = 200 → ps'' = ps' ++ [(source, code)] ∧ ∃ warnings, ∀ m s rs,
            build m ps'' = some (.ok (s, rs)) → reply = ok (.object [("source_id", .string source),
              ("clauses", .integer s.store.size), ("warnings", warnings)])) := by
  constructor
  · intro n s id code
    refine ⟨Session.load_error_iff id, fun e s' h => ?_⟩
    rw [Session.loadInPlace_eq] at h
    obtain ⟨r, -, h⟩ := Option.map_eq_some_iff.mp h
    cases r <;> cases h
    rfl
  · intro ps ps' hloads hserves
    refine ⟨hloads.serves hserves, fun n source r reply ps'' h => ⟨fun hposts => respond_keeps hposts h, ?_⟩⟩
    intro code hposts
    rw [respond_of_posts hposts] at h
    cases stores_of_store (hloads.serves hserves) h with
    | @accepted _ _ _ warnings hcode hbuild =>
      refine ⟨iff_of_true rfl hcode, fun hno => absurd rfl hno, fun _ => ⟨rfl, warnings, fun m s rs hbuild' => ?_⟩⟩
      rw [build_unique hbuild' hbuild]
    | rejected hcode =>
      have hstatus : ∀ reason, (refuse "Failed to add code" reason).status ≠ 200 := fun _ => by simp [refuse]
      exact ⟨iff_of_false (hstatus _) hcode, fun _ => rfl, fun h => absurd h (hstatus _)⟩

/-- A request to store a fact. -/
def postFact : Request := ⟨"POST", "/facts", "\x7b\"code\": \"fact q(b);\"\x7d", true⟩

/-- The fact is stored behind the program that is there, and both load. -/
theorem programs_stay_loadable_fact : ∃ reply,
    respond 5 [("first", "fact p(a);")] "second" postFact =
      some (reply, [("first", "fact p(a);"), ("second", "fact q(b);")]) ∧
    reply.status = 200 ∧ Loads [("first", "fact p(a);"), ("second", "fact q(b);")] := by
  have hloads : Loads [("first", "fact p(a);")] := by
    have hbuild : (build 5 [("first", "fact p(a);")]).any (fun r => r.toOption.any fun _ => true) = true := by
      decide +kernel
    obtain ⟨⟨s, rs⟩, h, -⟩ := Bounded.exists_of_any hbuild
    exact ⟨5, s, rs, h⟩
  have hposts : postFact.Posts "fact q(b);" := by
    have hread : (Payload.read codeFields postFact.body).toOption.any
        (fun values => (Payload.text values "code").getD "" == "fact q(b);") = true := by decide +kernel
    obtain ⟨values, hvalues, htext⟩ := exists_of_any hread
    exact ⟨rfl, by decide +kernel, rfl, ⟨values, hvalues, by simpa using htext⟩, by decide +kernel⟩
  have hstored : (respond 5 [("first", "fact p(a);")] "second" postFact).any (fun r => r.1.status == 200) = true := by
    decide +kernel
  obtain ⟨⟨reply, ps⟩, h, hok⟩ := (Option.any_eq_true ..).mp hstored
  have hstatus : reply.status = 200 := by simpa using hok
  obtain ⟨-, hpost⟩ := (programs_stay_loadable.2 _ _ hloads .none).2 _ _ _ _ _ h
  obtain ⟨rfl, -⟩ := (hpost _ hposts).2.2 hstatus
  exact ⟨reply, h, hstatus, (programs_stay_loadable.2 _ _ hloads (.request .none h)).1⟩

end Service
end BilingualLogic
