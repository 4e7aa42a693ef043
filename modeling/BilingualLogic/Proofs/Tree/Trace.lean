import BilingualLogic.Proofs.Grammar.Evaluation
import BilingualLogic.Proofs.Tree.Node

/-!
The tree of a text: for every rule that takes part in reading it a node, with the nodes of the rules inside. A grammar
yields trees instead of values and accepts the same texts, with the same notes on failures; and what a rule makes of
its parts as a value it makes of them as a node.
-/

namespace BilingualLogic

open Text

/-- The expression that yields the nodes of the rules it reads, in place of its value. -/
def Peg.traced {Rule : Type} {Result : Rule → Type} :
    {α : Type} → Peg Rule Result α → Peg Rule (fun _ => Node Rule) (List (Node Rule))
  | _, .pure _ => .pure []
  | _, .char accepts => .map (fun _ => []) (.char accepts)
  | _, .oneOf texts => .map (fun _ => []) (.oneOf texts)
  | _, .finish => .map (fun _ => []) .finish
  | _, .rule r => .map (fun n => [n]) (.rule r)
  | _, .map _ e => e.traced
  | _, .seq a b => .map (fun p => p.1 ++ p.2) (.seq a.traced b.traced)
  | _, .choice a b => .choice a.traced b.traced
  | _, .many e => .map List.flatten (.many e.traced)
  | _, .option e => .map (·.getD []) (.option e.traced)
  | _, .unless e => .map (fun _ => []) (.unless e.traced)
  | _, .placed e => e.traced

namespace Grammar

variable (G : Grammar)

/-- The node of a rule that takes a stretch of the input. Inside an atomic rule there are none. -/
def node (input : String) (r : G.Rule) (s : Span) (inside : List (Node G.Rule)) : Node G.Rule :=
  .mk r s (s.text input) (if G.kind r = .atomic then [] else inside)

/-- The grammar that yields the tree of the input. -/
abbrev traced (input : String) : Grammar where
  Rule := G.Rule
  Result _ := Node G.Rule
  kind := G.kind
  body r := .placed (.map (fun inside s => G.node input r s inside) (G.body r).traced)
  skip := G.skip

/-- The parts of a repetition, each read from behind a skip, but for the first one where it has not yet begun. -/
inductive Chain {Rule α : Type} (P : Cursor → Cursor → List (Node Rule) → α → Prop) (skip : Cursor → Cursor) :
    Bool → Cursor → Cursor → List (Node Rule) → List α → Prop
  | nil (begun : Bool) (c : Cursor) : Chain P skip begun c c [] []
  | cons {begun : Bool} {c c' d : Cursor} {ns ms : List (Node Rule)} {x : α} {xs : List α} :
    P (if begun then skip c else c) c' ns x → Chain P skip true c' d ms xs → Chain P skip begun c d (ns ++ ms) (x :: xs)

/-- The expression does not read what stands here. -/
def Rejects (spaced : Bool) {α : Type} (e : Peg G.Rule G.Result α) (c : Cursor) : Prop :=
  ∃ reps rules mode a, mode.spaced = spaced ∧ (readExpr G reps rules mode e c a).1 = none

section Traces

variable (R : (r : G.Rule) → Node G.Rule → G.Result r → Prop) (spaced : Bool)

/-- Between two places an expression yields a value and these are the nodes of the rules that it reads; `R` says how
the value of a rule and its node belong together. -/
def Traces : {α : Type} → Peg G.Rule G.Result α → Cursor → Cursor → List (Node G.Rule) → α → Prop
  | _, .pure y, c, d, ns, x => d = c ∧ ns = [] ∧ x = y
  | _, .char accepts, c, d, ns, x => c.rest = x :: d.rest ∧ accepts x = true ∧ ns = []
  | _, .oneOf texts, c, d, ns, x => c.rest = x.toList ++ d.rest ∧ x ∈ texts ∧ ns = []
  | _, .finish, c, d, ns, _ => d = c ∧ ns = []
  | _, .rule r, c, d, ns, x => ∃ n, ns = [n] ∧ n.span = ⟨c.position, d.position.offset⟩ ∧ R r n x
  | _, .map f e, c, d, ns, x => ∃ y, Traces e c d ns y ∧ f y = x
  | _, .seq a b, c, d, ns, x => ∃ c' ms ms', Traces a c c' ms x.1 ∧ Traces b (G.skipIf spaced c') d ms' x.2 ∧
    ns = ms ++ ms'
  | _, .choice a b, c, d, ns, x => Traces a c d ns x ∨ G.Rejects spaced a c ∧ Traces b c d ns x
  | _, .many e, c, d, ns, x => Chain (Traces e) (G.skipIf spaced) false c d ns x
  | _, .option e, c, d, ns, x => (∃ y, x = some y ∧ Traces e c d ns y) ∨ x = none ∧ ns = [] ∧ d = c
  | _, .unless _, c, d, ns, _ => d = c ∧ ns = []
  | _, .placed e, c, d, ns, x => ∃ f, Traces e c d ns f ∧ f ⟨c.position, d.position.offset⟩ = x

end Traces

/-- What holds of the parts of a rule holds of the rule: of its node, which has the text that the rule takes, and its
value. -/
def Closed (R : (r : G.Rule) → Node G.Rule → G.Result r → Prop) : Prop :=
  ∀ {r spaced c d taken ns x}, c.rest = taken ++ d.rest → G.Traces R (G.spacedInside r spaced) (G.body r) c d ns x →
    R r (.mk r ⟨c.position, d.position.offset⟩ (String.ofList taken) (if G.kind r = .atomic then [] else ns)) x

/-- Two replies fail together, or succeed at the same place with values that belong together; the notes are the
same. -/
inductive Agree {Rule α β : Type} (P : α → β → Cursor → Prop) : Reply Rule α → Reply Rule β → Prop
  | failed (a : Attempts Rule) : Agree P (none, a) (none, a)
  | done {x : α} {y : β} {d : Cursor} (a : Attempts Rule) : P x y d → Agree P (some (x, d), a) (some (y, d), a)

theorem Agree.cases {Rule α β : Type} {P : α → β → Cursor → Prop} {p : Reply Rule α} {q : Reply Rule β}
    (h : Agree P p q) : (∃ a, p = (none, a) ∧ q = (none, a)) ∨
      ∃ x y d a, p = (some (x, d), a) ∧ q = (some (y, d), a) ∧ P x y d := by
  cases h with
  | failed a => exact Or.inl ⟨a, rfl, rfl⟩
  | done a hP => exact Or.inr ⟨_, _, _, a, rfl, rfl, hP⟩

theorem Agree.imp {Rule α β : Type} {P Q : α → β → Cursor → Prop} {p : Reply Rule α} {q : Reply Rule β}
    (h : Agree P p q) (hPQ : ∀ x y d, P x y d → Q x y d) : Agree Q p q := by
  cases h with
  | failed a => exact .failed a
  | done a hP => exact .done a (hPQ _ _ _ hP)

variable {G} {input : String} {R : (r : G.Rule) → Node G.Rule → G.Result r → Prop}

theorem takes_of_readText {cs : List Char} {c d : Cursor} (h : readText cs c = some d) : c.Takes cs d := by
  induction cs generalizing c with
  | nil =>
    cases h
    exact ⟨rfl, rfl⟩
  | cons x xs ih =>
    obtain ⟨rest, p⟩ := c
    cases rest with
    | nil => cases h
    | cons y rest =>
      rw [readText] at h
      split at h
      · next hxy =>
        subst hxy
        have hxs := ih h
        refine ⟨by rw [List.cons_append, ← hxs.rest], ?_⟩
        rw [hxs.offset, Position.after]
        split <;> simp <;> omega
      · cases h

theorem takes_of_readOneOf {texts : List String} {c d : Cursor} {t : String} (h : readOneOf texts c = some (t, d)) :
    c.Takes t.toList d ∧ t ∈ texts := by
  induction texts with
  | nil => cases h
  | cons u us ih =>
    rw [readOneOf] at h
    split at h
    · next d' hd =>
      cases h
      exact ⟨takes_of_readText hd, List.mem_cons_self⟩
    · exact ⟨(ih h).1, List.mem_cons_of_mem u (ih h).2⟩

theorem reaches_skipIf (hskip : ∀ c : Cursor, c.Reaches (G.skip c)) (spaced : Bool) (c : Cursor) :
    c.Reaches (G.skipIf spaced c) := by
  unfold skipIf
  split
  · exact hskip c
  · exact .refl c

theorem repeatRead_traced {Rule α : Type} {read : Cursor → Attempts Rule → Reply Rule α}
    {trace : Cursor → Attempts Rule → Reply Rule (List (Node Rule))} {skip : Cursor → Cursor}
    {P : Cursor → Cursor → List (Node Rule) → α → Prop} (hskip : ∀ c : Cursor, c.Reaches (skip c)) {start : Cursor}
    (hread : ∀ c a, start.Reaches c → Agree (fun x ns d => c.Reaches d ∧ P c d ns x) (read c a) (trace c a))
    (fuel : Nat) (done : List α) (nodes : List (List (Node Rule))) (hdone : done.isEmpty = nodes.isEmpty) {c : Cursor}
    (a : Attempts Rule) (hc : start.Reaches c) :
    Agree (fun xs nss d => c.Reaches d ∧ ∃ ys mss, xs = done.reverse ++ ys ∧ nss = nodes.reverse ++ mss ∧
        Chain P skip (!done.isEmpty) c d mss.flatten ys)
      (repeatRead read skip fuel done c a) (repeatRead trace skip fuel nodes c a) := by
  induction fuel generalizing done nodes c a with
  | zero => exact .done a ⟨.refl c, [], [], by simp, by simp, .nil _ c⟩
  | succ fuel ih =>
    rw [repeatRead, repeatRead, ← hdone]
    have hfrom : c.Reaches (if done.isEmpty then c else skip c) := by
      split
      · exact .refl c
      · exact hskip c
    rcases (hread (if done.isEmpty then c else skip c) a (hc.trans hfrom)).cases with
      ⟨a', hx, hn⟩ | ⟨x, ns, d, a', hx, hn, hd, hP⟩
    · rw [hx, hn]
      exact .done a' ⟨.refl c, [], [], by simp, by simp, .nil _ c⟩
    · rw [hx, hn]
      have hcd := hfrom.trans hd
      refine (ih (x :: done) (ns :: nodes) rfl a' (hc.trans hcd)).imp ?_
      rintro xs nss d' ⟨hd', ys, mss, rfl, rfl, hchain⟩
      refine ⟨hcd.trans hd', x :: ys, ns :: mss, by simp, by simp, .cons ?_ hchain⟩
      cases done <;> exact hP

/-- How the rules are read by both grammars. -/
def RulesAgree (input : String) (R : (r : G.Rule) → Node G.Rule → G.Result r → Prop) (rules : FuelledReaders G)
    (rules' : FuelledReaders (G.traced input)) : Prop :=
  ∀ r mode c a, (Cursor.ofString input).Reaches c →
    Agree (fun x n d => c.Reaches d ∧ n.span = ⟨c.position, d.position.offset⟩ ∧ R r n x) (rules r mode c a)
      (rules' r mode c a)

theorem readExpr_traced (hskip : ∀ c : Cursor, c.Reaches (G.skip c)) {rules : FuelledReaders G}
    {rules' : FuelledReaders (G.traced input)} (hrules : RulesAgree input R rules rules') (reps : Nat) (mode : Mode)
    {α : Type} (e : Peg G.Rule G.Result α) (c : Cursor) (a : Attempts G.Rule)
    (hc : (Cursor.ofString input).Reaches c) :
    Agree (fun x ns d => c.Reaches d ∧ G.Traces R mode.spaced e c d ns x) (readExpr G reps rules mode e c a)
      (readExpr (G.traced input) reps rules' mode e.traced c a) := by
  induction e generalizing c a with
  | pure y => exact .done a ⟨.refl c, rfl, rfl, rfl⟩
  | char accepts =>
    obtain ⟨rest, p⟩ := c
    cases rest with
    | nil => exact .failed a
    | cons y rest =>
      simp only [readExpr, Peg.traced]
      by_cases hy : accepts y = true
      · simp only [hy, if_true]
        exact .done a ⟨Cursor.reaches_after y rest p, rfl, hy, rfl⟩
      · simp only [hy]
        exact .failed a
  | oneOf texts =>
    simp only [readExpr, Peg.traced]
    cases ht : readOneOf texts c with
    | none => exact .failed a
    | some r =>
      obtain ⟨t, d⟩ := r
      obtain ⟨htakes, hmem⟩ := takes_of_readOneOf ht
      exact .done a ⟨⟨_, htakes⟩, htakes.rest, hmem, rfl⟩
  | finish =>
    simp only [readExpr, Peg.traced]
    cases c.rest.isEmpty with
    | true => exact .done a ⟨.refl c, rfl, rfl⟩
    | false => exact .failed a
  | rule r =>
    simp only [readExpr, Peg.traced]
    rcases (hrules r mode c a hc).cases with ⟨a', hx, hn⟩ | ⟨x, n, d, a', hx, hn, hd, hspan, hR⟩
    · rw [hx, hn]
      exact .failed a'
    · rw [hx, hn]
      exact .done a' ⟨hd, n, rfl, hspan, hR⟩
  | map f e ih =>
    simp only [readExpr, Peg.traced]
    rcases (ih c a hc).cases with ⟨a', hx, hn⟩ | ⟨x, ns, d, a', hx, hn, hd, htr⟩
    · rw [hx, hn]
      exact .failed a'
    · rw [hx, hn]
      exact .done a' ⟨hd, x, htr, rfl⟩
  | seq e₁ e₂ ih₁ ih₂ =>
    simp only [readExpr, Peg.traced]
    rcases (ih₁ c a hc).cases with ⟨a', hx, hn⟩ | ⟨x, ns, c', a', hx, hn, hc', htr⟩
    · rw [hx, hn]
      exact .failed a'
    · rw [hx, hn]
      have hfrom : c'.Reaches (if mode.spaced then G.skip c' else c') := reaches_skipIf hskip mode.spaced c'
      rcases (ih₂ _ a' (hc.trans (hc'.trans hfrom))).cases with ⟨a'', hy, hm⟩ | ⟨y, ms, d, a'', hy, hm, hd, htr'⟩
      · simp only [hy, hm]
        exact .failed a''
      · simp only [hy, hm]
        exact .done a'' ⟨hc'.trans (hfrom.trans hd), c', ns, ms, htr, htr', rfl⟩
  | choice e₁ e₂ ih₁ ih₂ =>
    simp only [readExpr, Peg.traced]
    rcases (ih₁ c a hc).cases with ⟨a', hx, hn⟩ | ⟨x, ns, d, a', hx, hn, hd, htr⟩
    · rw [hx, hn]
      refine (ih₂ c a' hc).imp ?_
      rintro y ms d ⟨hd, htr⟩
      exact ⟨hd, Or.inr ⟨⟨reps, rules, mode, a, rfl, by rw [hx]⟩, htr⟩⟩
    · rw [hx, hn]
      exact .done a' ⟨hd, Or.inl htr⟩
  | many e ih =>
    simp only [readExpr, Peg.traced, skipIf_eq_ite]
    rcases (repeatRead_traced (reaches_skipIf hskip mode.spaced) ih reps [] [] rfl a hc).cases with
      ⟨a', hx, hn⟩ | ⟨xs, nss, d, a', hx, hn, hd, ys, mss, hxs, hnss, hchain⟩
    · rw [hx, hn]
      exact .failed a'
    · rw [hx, hn]
      obtain rfl : xs = ys := by simpa using hxs
      obtain rfl : nss = mss := by simpa using hnss
      exact .done a' ⟨hd, hchain⟩
  | option e ih =>
    simp only [readExpr, Peg.traced]
    rcases (ih c a hc).cases with ⟨a', hx, hn⟩ | ⟨x, ns, d, a', hx, hn, hd, htr⟩
    · rw [hx, hn]
      exact .done a' ⟨.refl c, Or.inr ⟨rfl, rfl, rfl⟩⟩
    · rw [hx, hn]
      exact .done a' ⟨hd, Or.inl ⟨x, rfl, htr⟩⟩
  | «unless» e ih =>
    simp only [readExpr, Peg.traced]
    rcases (ih c a hc).cases with ⟨a', hx, hn⟩ | ⟨x, ns, d, a', hx, hn, hd, htr⟩
    · rw [hx, hn]
      exact .done a' ⟨.refl c, rfl, rfl⟩
    · rw [hx, hn]
      exact .failed a'
  | placed e ih =>
    simp only [readExpr, Peg.traced]
    rcases (ih c a hc).cases with ⟨a', hx, hn⟩ | ⟨x, ns, d, a', hx, hn, hd, htr⟩
    · rw [hx, hn]
      exact .failed a'
    · rw [hx, hn]
      exact .done a' ⟨hd, x, htr, rfl⟩

/-- The reply to a rule, from that to its body. -/
def ruleReply {α : Type} (r : G.Rule) (mode : Mode) (c : Cursor) (a : Attempts G.Rule) :
    Reply G.Rule α → Reply G.Rule α
  | (some x, a') => (some x, a')
  | (none, a') => (none, if mode.noted || G.kind r == .compound then a'.note r c.position (a.countAt c.position) else a')

theorem readRule_succ (reps fuel : Nat) (r : G.Rule) (mode : Mode) (c : Cursor) (a : Attempts G.Rule) :
    readRule G reps (fuel + 1) r mode c a =
      ruleReply r mode c a (readExpr G reps (readRule G reps fuel) (insideOf (G.kind r) mode) (G.body r) c a) := by
  rw [readRule]
  unfold insideOf
  rcases readExpr G reps (readRule G reps fuel) _ (G.body r) c a with ⟨_ | x, a'⟩
  · rfl
  · rfl

theorem readRule_traced (hskip : ∀ c : Cursor, c.Reaches (G.skip c)) (hR : G.Closed R) (input : String)
    (reps fuel : Nat) : RulesAgree input R (readRule G reps fuel) (readRule (G.traced input) reps fuel) := by
  induction fuel with
  | zero => exact fun r mode c a _ => .failed a
  | succ fuel ih =>
    intro r mode c a hc
    have hbody := readExpr_traced hskip ih reps (insideOf (G.kind r) mode) (G.body r) c a hc
    rw [insideOf_spaced] at hbody
    rw [readRule_succ, readRule_succ]
    simp only [readExpr]
    rcases hbody.cases with ⟨a', hx, hn⟩ | ⟨x, ns, d, a', hx, hn, ⟨taken, htaken⟩, htr⟩
    · rw [hx, hn]
      exact .failed _
    · rw [hx, hn]
      have hnode := hR htaken.rest htr
      rw [← htaken.text hc] at hnode
      exact .done a' ⟨⟨taken, htaken⟩, rfl, hnode⟩

theorem exists_node_of_readRule {reps fuel : Nat} {r : G.Rule} {mode : Mode} {c d : Cursor} {a a' : Attempts G.Rule}
    {n : Node G.Rule} (h : readRule (G.traced input) reps fuel r mode c a = (some (n, d), a')) :
    ∃ inside, n = G.node input r ⟨c.position, d.position.offset⟩ inside := by
  cases fuel with
  | zero => cases h
  | succ fuel =>
    rw [readRule_succ] at h
    simp only [readExpr] at h
    revert h
    rcases readExpr (G.traced input) reps _ _ (G.body r).traced c a with ⟨_ | ⟨inside, d'⟩, a''⟩
    · rintro ⟨⟩
    · rintro ⟨⟩
      exact ⟨inside, rfl⟩

/-- Where a rule without nodes inside is read, its node has the text that it takes. -/
theorem readRule_traced_atomic (hskip : ∀ c : Cursor, c.Reaches (G.skip c)) (hR : G.Closed R) {r : G.Rule}
    (hr : G.kind r = .atomic) {reps fuel : Nat} {mode : Mode} {c d : Cursor} {a a' : Attempts G.Rule} {x : G.Result r}
    (hc : (Cursor.ofString input).Reaches c) (h : readRule G reps fuel r mode c a = (some (x, d), a')) :
    ∃ taken, c.Takes taken d ∧ ∃ n, n = .mk r ⟨c.position, d.position.offset⟩ (String.ofList taken) [] ∧
      readRule (G.traced input) reps fuel r mode c a = (some (n, d), a') ∧ R r n x := by
  have htraced := readRule_traced hskip hR input reps fuel r mode c a hc
  rw [h] at htraced
  rcases htraced.cases with ⟨_, hx, -⟩ | ⟨y, n, d', a'', hx, hn, ⟨taken, htaken⟩, -, hR⟩
  · cases hx
  · cases hx
    obtain ⟨inside, rfl⟩ := exists_node_of_readRule hn
    refine ⟨taken, htaken, _, ?_, hn, hR⟩
    rw [node, if_pos hr, htaken.text hc]

theorem parse_traced (hskip : ∀ c : Cursor, c.Reaches (G.skip c)) (hR : G.Closed R) (depth : Nat) (r : G.Rule)
    (input : String) : (∃ a, G.parse depth r input = .error a ∧ (G.traced input).parse depth r input = .error a) ∨
      ∃ x n, G.parse depth r input = .ok x ∧ (G.traced input).parse depth r input = .ok n ∧ R r n x := by
  have h := readRule_traced hskip hR input ((Cursor.ofString input).rest.length + 1)
    (((Cursor.ofString input).rest.length + 1) * depth) r ⟨true, true⟩ (Cursor.ofString input) .start (.refl _)
  simp only [parse]
  rcases h.cases with ⟨a, hx, hn⟩ | ⟨x, n, d, a, hx, hn, -, -, hnode⟩
  · rw [hx, hn]
    exact Or.inl ⟨a, rfl, rfl⟩
  · rw [hx, hn]
    exact Or.inr ⟨x, n, rfl, rfl, hnode⟩

theorem Chain.forall_nodes {Rule α : Type} {P : Cursor → Cursor → List (Node Rule) → α → Prop}
    {skip : Cursor → Cursor} {begun : Bool} {c d : Cursor} {ns : List (Node Rule)} {xs : List α} {Q : Node Rule → Prop}
    (h : Chain P skip begun c d ns xs) (hQ : ∀ {c d ns x}, P c d ns x → ∀ n ∈ ns, Q n) : ∀ n ∈ ns, Q n := by
  induction h with
  | nil => simp
  | cons hx _ ih => exact List.forall_mem_append.mpr ⟨hQ hx, ih⟩

/-- What holds of the nodes of rules holds of all nodes that an expression leaves. -/
theorem forall_of_traces {P : Node G.Rule → Prop} (hP : ∀ {r n x}, R r n x → P n) {spaced : Bool} {α : Type}
    {e : Peg G.Rule G.Result α} {c d : Cursor} {ns : List (Node G.Rule)} {x : α} (h : G.Traces R spaced e c d ns x) :
    ∀ n ∈ ns, P n := by
  induction e generalizing c d ns with
  | pure y =>
    rw [h.2.1]
    simp
  | char accepts =>
    rw [h.2.2]
    simp
  | oneOf texts =>
    rw [h.2.2]
    simp
  | finish =>
    rw [h.2]
    simp
  | rule r =>
    obtain ⟨n, rfl, -, hn⟩ := h
    exact List.forall_mem_singleton.mpr (hP hn)
  | map f e ih =>
    obtain ⟨y, hy, -⟩ := h
    exact ih hy
  | seq e₁ e₂ ih₁ ih₂ =>
    obtain ⟨c', ms, ms', h₁, h₂, rfl⟩ := h
    exact List.forall_mem_append.mpr ⟨ih₁ h₁, ih₂ h₂⟩
  | choice e₁ e₂ ih₁ ih₂ =>
    rcases h with h | ⟨-, h⟩
    · exact ih₁ h
    · exact ih₂ h
  | many e ih => exact Chain.forall_nodes h ih
  | option e ih =>
    rcases h with ⟨y, -, hy⟩ | ⟨-, rfl, -⟩
    · exact ih hy
    · simp
  | «unless» e ih =>
    rw [h.2]
    simp
  | placed e ih =>
    obtain ⟨f, hf, -⟩ := h
    exact ih hf

end Grammar
end BilingualLogic
