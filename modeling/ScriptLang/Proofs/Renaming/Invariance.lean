import ScriptLang.Proofs.Renaming.Declaring
import ScriptLang.Proofs.Resolution.Resolved

namespace ScriptLang

open Scope

namespace Renaming

section Sites

variable {c : Change} {a : Site} {i j : Nat} {S P : Stack}

theorem Site.Inner.part (h : a.Inner) : (a.part i).Inner :=
  fun scope hscope => Nat.lt_succ_of_lt (h scope hscope)

theorem Site.Inner.next (h : (a.part i).Inner) : (a.part j).Inner :=
  h

theorem Site.Inner.enter (h : a.Inner) : (a.enter.part i).Inner := by
  intro scope hscope
  rcases List.mem_cons.mp hscope with rfl | hscope
  · exact Nat.lt_succ_self _
  · exact Nat.lt_succ_of_lt (h scope hscope)

theorem Site.Inner.initializing (h : a.Inner) (name : Token) : (a.initializing name).Inner := by
  obtain ⟨here, scopes⟩ := a
  cases scopes with
  | nil => exact h
  | cons scope scopes =>
    obtain ⟨hscope, hscopes⟩ := List.forall_mem_cons.mp h
    exact List.forall_mem_cons.mpr ⟨hscope, hscopes⟩

theorem declared_stays (name : Token) : ¬ (a.declared name).PassesOver c := by
  rintro ⟨-, -, -, d, hd, k, hk, -⟩
  cases hd
  exact Nat.not_lt_zero k hk

theorem params_stay (params : List Token) :
    ∀ o ∈ params.map a.declared, ¬ o.PassesOver c :=
  List.forall_mem_map.mpr fun p _ => declared_stays p

theorem function_renamed {params : List Token} (h : Tracks c a.scopes S) (ha : a.Inner)
    (hn : ∀ o ∈ params.map a.enter.declared, o.name.lexeme ≠ c.new)
    (hd : declareParams params ([] :: S) = (P, [])) :
    Tracks c a.enter.scopes P ∧
      declareParams (params.map (c.apply ∘ a.enter.declared)) ([] :: c.stack a.scopes S) =
        (c.stack a.enter.scopes P, []) := by
  rw [← stack_enter]
  have hnames : ∀ p ∈ params, p.lexeme ≠ c.new := fun p hp => hn _ (List.mem_map_of_mem hp)
  exact declareParams_renamed (h.enter ha) enter_settled hnames hd

/-- Of two statements the first leaves the scopes that the second finds. -/
theorem renamed_one_by_one {first second : Stack → Prop} {U : Stack} {p q r : Prop}
    (hfirst : ∀ U', first U' ↔ U' = U ∧ p) (hsecond : second U ↔ r ∧ q) :
    (∃ U', first U' ∧ second U') ↔ r ∧ p ∧ q := by
  constructor
  · rintro ⟨U', hU', hr⟩
    obtain ⟨rfl, hp⟩ := (hfirst U').mp hU'
    obtain ⟨hr, hq⟩ := hsecond.mp hr
    exact ⟨hr, hp, hq⟩
  · rintro ⟨hr, hp, hq⟩
    exact ⟨U, (hfirst U).mpr ⟨rfl, hp⟩, hsecond.mpr ⟨hr, hq⟩⟩

end Sites

end Renaming

open Renaming

mutual

theorem Expr.rename_resolved {c : Change} {a : Site} {S : Stack} (e : Expr Binding)
    (ha : a.Inner) (h : Tracks c a.scopes S) (he : e.Resolved S)
    (hn : ∀ o ∈ e.occurrences a, o.name.lexeme ≠ c.new) :
    (e.rename c a).Resolved (c.stack a.scopes S) ↔ ∀ o ∈ e.occurrences a, ¬ o.PassesOver c := by
  cases e with
  | literal constant => simp [Expr.occurrences, Expr.rename, Expr.resolved_literal]
  | group inner =>
    exact Expr.resolved_group.trans
      (inner.rename_resolved ha.part h (Expr.resolved_group.mp he) hn)
  | unary operator right =>
    exact Expr.resolved_unary.trans
      (right.rename_resolved ha.part h (Expr.resolved_unary.mp he) hn)
  | binary left operator right =>
    obtain ⟨hl, hr⟩ := Expr.resolved_binary.mp he
    obtain ⟨hnl, hnr⟩ := List.forall_mem_append.mp hn
    rw [Expr.rename, Expr.resolved_binary, Expr.occurrences, List.forall_mem_append]
    exact and_congr (left.rename_resolved ha.part h hl hnl)
      (right.rename_resolved ha.part h hr hnr)
  | logical left operator right =>
    obtain ⟨hl, hr⟩ := Expr.resolved_logical.mp he
    obtain ⟨hnl, hnr⟩ := List.forall_mem_append.mp hn
    rw [Expr.rename, Expr.resolved_logical, Expr.occurrences, List.forall_mem_append]
    exact and_congr (left.rename_resolved ha.part h hl hnl)
      (right.rename_resolved ha.part h hr hnr)
  | ident binding name =>
    rw [Expr.occurrences, List.forall_mem_singleton] at hn ⊢
    exact Expr.resolved_ident.trans (h.use hn (Expr.resolved_ident.mp he))
  | assign binding name value =>
    obtain ⟨hv, hb⟩ := Expr.resolved_assign.mp he
    obtain ⟨hnv, hn⟩ := List.forall_mem_append.mp hn
    rw [Expr.rename, Expr.resolved_assign, Expr.occurrences, List.forall_mem_append,
      List.forall_mem_singleton]
    exact and_congr (value.rename_resolved ha.part h hv hnv)
      (h.use (hn _ (List.mem_singleton_self _)) hb)
  | call callee paren arguments =>
    obtain ⟨hc, hes⟩ := Expr.resolved_call.mp he
    obtain ⟨hnc, hns⟩ := List.forall_mem_append.mp hn
    rw [Expr.rename, Expr.resolved_call, Expr.occurrences, List.forall_mem_append]
    exact and_congr (callee.rename_resolved ha.part h hc hnc)
      (Expr.renameAll_resolved arguments ha.part h hes hns)
  | lambda params body =>
    obtain ⟨P, U, hparams, hbody⟩ := Expr.resolved_lambda.mp he
    obtain ⟨hnp, hnb⟩ := List.forall_mem_append.mp hn
    obtain ⟨htracks, hrenamed⟩ := function_renamed h ha hnp hparams
    have ih := (Stmt.renameAll_resolve body ha.enter htracks enter_settled hbody hnb).2
    rw [Expr.rename, Expr.resolved_lambda, hrenamed, Expr.occurrences, List.forall_mem_append,
      and_iff_right (params_stay params)]
    simp [ih]

theorem Expr.renameAll_resolved {c : Change} {a : Site} {i : Nat} {S : Stack}
    (es : List (Expr Binding)) (ha : (a.part i).Inner) (h : Tracks c a.scopes S)
    (hes : Expr.AllResolved S es)
    (hn : ∀ o ∈ Expr.allOccurrences a i es, o.name.lexeme ≠ c.new) :
    Expr.AllResolved (c.stack a.scopes S) (Expr.renameAll c a i es) ↔
      ∀ o ∈ Expr.allOccurrences a i es, ¬ o.PassesOver c := by
  cases es with
  | nil =>
    simp [Expr.allOccurrences, Expr.renameAll, Expr.AllResolved, Expr.mapAll, Expr.resolveAll]
  | cons e es =>
    obtain ⟨he, hes⟩ := Expr.allResolved_cons.mp hes
    obtain ⟨hne, hns⟩ := List.forall_mem_append.mp hn
    rw [Expr.renameAll, Expr.allResolved_cons, Expr.allOccurrences, List.forall_mem_append]
    exact and_congr (e.rename_resolved ha h he hne) (Expr.renameAll_resolved es ha.next h hes hns)

theorem Stmt.rename_resolves {c : Change} {a : Site} {f : Bool} {S T : Stack} (s : Stmt Binding)
    (ha : a.Inner) (h : Tracks c a.scopes S) (hq : a.Settled) (hs : s.Resolves f S T)
    (hn : ∀ o ∈ s.occurrences a, o.name.lexeme ≠ c.new) :
    Tracks c a.scopes T ∧ ∀ T', (s.rename c a).Resolves f (c.stack a.scopes S) T' ↔
      T' = c.stack a.scopes T ∧ ∀ o ∈ s.occurrences a, ¬ o.PassesOver c := by
  cases s with
  | exprStmt e =>
    obtain ⟨rfl, he⟩ := Stmt.resolves_exprStmt.mp hs
    refine ⟨h, fun T' => ?_⟩
    rw [Stmt.rename, Stmt.resolves_exprStmt]
    exact and_congr_right fun _ => e.rename_resolved ha.part h he hn
  | printStmt e =>
    obtain ⟨rfl, he⟩ := Stmt.resolves_printStmt.mp hs
    refine ⟨h, fun T' => ?_⟩
    rw [Stmt.rename, Stmt.resolves_printStmt]
    exact and_congr_right fun _ => e.rename_resolved ha.part h he hn
  | varDecl name initial =>
    cases initial with
    | none =>
      obtain ⟨D, hd, rfl⟩ := Stmt.resolves_varDecl.mp hs
      have hname : name.lexeme ≠ c.new := hn _ (List.mem_singleton_self _)
      have hdeclared := h.declare hq hname hd
      refine ⟨hdeclared.define hq hname, fun T' => ?_⟩
      rw [Stmt.rename, Stmt.resolves_varDecl, declare_renamed h hname hd, Stmt.occurrences,
        List.forall_mem_singleton, ← define_renamed hdeclared]
      simp [declared_stays]
    | some e =>
      obtain ⟨D, hd, rfl, he⟩ := Stmt.resolves_varDecl_initial.mp hs
      obtain ⟨hname, hne⟩ := List.forall_mem_cons.mp hn
      change name.lexeme ≠ c.new at hname
      have hdeclared := h.declare hq hname hd
      have ih := e.rename_resolved (ha.initializing name).part hdeclared he hne
      -- what is pending at a place does not matter to how its scopes change
      change (e.rename c _).Resolved (c.stack (a.initializing name).scopes D) ↔ _ at ih
      rw [stack_initializing] at ih
      refine ⟨hdeclared.define hq hname, fun T' => ?_⟩
      rw [Stmt.rename, Stmt.resolves_varDecl_initial, declare_renamed h hname hd, Stmt.occurrences,
        List.forall_mem_cons, ← define_renamed hdeclared, ← ih]
      simp [declared_stays]
  | block body =>
    obtain ⟨rfl, U, hbody⟩ := Stmt.resolves_block.mp hs
    have ih := (Stmt.renameAll_resolve body ha.enter (h.enter ha) enter_settled hbody hn).2
    rw [stack_enter] at ih
    refine ⟨h, fun T' => ?_⟩
    rw [Stmt.rename, Stmt.resolves_block, Stmt.occurrences]
    simp [ih]
  | ifStmt condition yes no =>
    cases no with
    | none =>
      obtain ⟨hc, hy⟩ := Stmt.resolves_ifStmt.mp hs
      obtain ⟨hnc, hny⟩ := List.forall_mem_append.mp hn
      obtain ⟨htracks, ih⟩ := yes.rename_resolves ha.part h hq hy hny
      refine ⟨htracks, fun T' => ?_⟩
      rw [Stmt.rename, Stmt.resolves_ifStmt, Stmt.occurrences, List.forall_mem_append]
      exact (and_congr (condition.rename_resolved ha.part h hc hnc) (ih T')).trans and_left_comm
    | some no =>
      obtain ⟨hc, U, hy, hno⟩ := Stmt.resolves_ifStmt_else.mp hs
      obtain ⟨hncy, hnn⟩ := List.forall_mem_append.mp hn
      obtain ⟨hnc, hny⟩ := List.forall_mem_append.mp hncy
      obtain ⟨htracksU, ihy⟩ := yes.rename_resolves ha.part h hq hy hny
      change Tracks c a.scopes U at htracksU
      obtain ⟨htracks, ihn⟩ := no.rename_resolves ha.part htracksU hq hno hnn
      refine ⟨htracks, fun T' => ?_⟩
      rw [Stmt.rename, Stmt.resolves_ifStmt_else, Stmt.occurrences, List.forall_mem_append,
        List.forall_mem_append, and_assoc]
      exact (and_congr (condition.rename_resolved ha.part h hc hnc)
        (renamed_one_by_one ihy (ihn T'))).trans and_left_comm
  | whileStmt condition body =>
    obtain ⟨hc, hb⟩ := Stmt.resolves_whileStmt.mp hs
    obtain ⟨hnc, hnb⟩ := List.forall_mem_append.mp hn
    obtain ⟨htracks, ih⟩ := body.rename_resolves ha.part h hq hb hnb
    refine ⟨htracks, fun T' => ?_⟩
    rw [Stmt.rename, Stmt.resolves_whileStmt, Stmt.occurrences, List.forall_mem_append]
    exact (and_congr (condition.rename_resolved ha.part h hc hnc) (ih T')).trans and_left_comm
  | breakStmt keyword =>
    cases Stmt.resolves_breakStmt.mp hs
    exact ⟨h, by simp [Stmt.rename, Stmt.resolves_breakStmt, Stmt.occurrences]⟩
  | returnStmt keyword value =>
    cases value with
    | none =>
      obtain ⟨rfl, hf⟩ := Stmt.resolves_returnStmt.mp hs
      exact ⟨h, by simp [Stmt.rename, Stmt.resolves_returnStmt, Stmt.occurrences, hf]⟩
    | some e =>
      obtain ⟨rfl, hf, he⟩ := Stmt.resolves_returnStmt_value.mp hs
      refine ⟨h, fun T' => ?_⟩
      rw [Stmt.rename, Stmt.resolves_returnStmt_value, and_iff_right hf]
      exact and_congr_right fun _ => e.rename_resolved ha.part h he hn
  | funDecl name params body =>
    obtain ⟨D, hd, rfl, P, U, hparams, hbody⟩ := Stmt.resolves_funDecl.mp hs
    obtain ⟨hname, hn⟩ := List.forall_mem_cons.mp hn
    change name.lexeme ≠ c.new at hname
    obtain ⟨hnp, hnb⟩ := List.forall_mem_append.mp hn
    have hdeclared := h.declare hq hname hd
    have hdefined := hdeclared.define hq hname
    obtain ⟨htracks, hrenamed⟩ := function_renamed hdefined ha hnp hparams
    have ih := (Stmt.renameAll_resolve body ha.enter htracks enter_settled hbody hnb).2
    refine ⟨hdefined, fun T' => ?_⟩
    rw [Stmt.rename, Stmt.resolves_funDecl, declare_renamed h hname hd, Stmt.occurrences,
      List.forall_mem_cons, List.forall_mem_append, and_iff_right (declared_stays name),
      and_iff_right (params_stay params), ← define_renamed hdeclared]
    rw [← define_renamed hdeclared] at hrenamed
    constructor
    · rintro ⟨D', hD', rfl, P', U', hP', hbody'⟩
      cases hD'
      cases hrenamed.symm.trans hP'
      exact ⟨rfl, ((ih U').mp hbody').2⟩
    · rintro ⟨rfl, hstay⟩
      exact ⟨_, rfl, rfl, _, _, hrenamed, (ih _).mpr ⟨rfl, hstay⟩⟩

theorem Stmt.renameAll_resolve {c : Change} {a : Site} {i : Nat} {f : Bool} {S T : Stack}
    (ss : List (Stmt Binding)) (ha : (a.part i).Inner) (h : Tracks c a.scopes S) (hq : a.Settled)
    (hs : Stmt.AllResolve f S T ss)
    (hn : ∀ o ∈ Stmt.allOccurrences a i ss, o.name.lexeme ≠ c.new) :
    Tracks c a.scopes T ∧
      ∀ T', Stmt.AllResolve f (c.stack a.scopes S) T' (Stmt.renameAll c a i ss) ↔
        T' = c.stack a.scopes T ∧ ∀ o ∈ Stmt.allOccurrences a i ss, ¬ o.PassesOver c := by
  cases ss with
  | nil =>
    cases Stmt.allResolve_nil.mp hs
    exact ⟨h, by simp [Stmt.renameAll, Stmt.allResolve_nil, Stmt.allOccurrences]⟩
  | cons s ss =>
    obtain ⟨U, hs, hss⟩ := Stmt.allResolve_cons.mp hs
    obtain ⟨hns, hnss⟩ := List.forall_mem_append.mp hn
    obtain ⟨htracksU, ih⟩ := s.rename_resolves ha h hq hs hns
    obtain ⟨htracks, ihs⟩ := Stmt.renameAll_resolve ss ha.next htracksU hq hss hnss
    refine ⟨htracks, fun T' => ?_⟩
    rw [Stmt.renameAll, Stmt.allResolve_cons, Stmt.allOccurrences, List.forall_mem_append]
    exact renamed_one_by_one ih (ihs T')

end

namespace Renaming

/-- Renaming what a scope declares keeps all bindings, and the program without errors, exactly if no
use of it in its own first value passes over another variable of that name that is pending too. -/
theorem rename_keeps_bindings {statements : List (Stmt Unit)} {program : List (Stmt Binding)}
    (c : Change) (h : resolveProgram statements = .ok program)
    (hn : ∀ o ∈ Stmt.allOccurrences .top 0 program, o.name.lexeme ≠ c.new) :
    resolveProgram (Stmt.allBare (Stmt.renameAll c .top 0 program)) =
        .ok (Stmt.renameAll c .top 0 program) ↔
      ∀ o ∈ Stmt.allOccurrences .top 0 program, ¬ o.PassesOver c := by
  obtain ⟨-, T, hresolve⟩ := resolveProgram_eq_ok_iff_allResolve.mp h
  have htop : Tracks c Site.top.scopes [] := tracks_nil.mpr rfl
  have hinner : (Site.top.part 0).Inner := fun _ hscope => by cases hscope
  have hsettled : Site.top.Settled := fun _ hscope => by cases hscope
  have hrenamed := (Stmt.renameAll_resolve program hinner htop hsettled hresolve hn).2
  rw [resolveProgram_eq_ok_iff_allResolve, and_iff_right rfl]
  constructor
  · rintro ⟨T', hT'⟩
    exact ((hrenamed T').mp hT').2
  · intro hstay
    exact ⟨_, (hrenamed _).mpr ⟨rfl, hstay⟩⟩

/-- The program `{ var a; { var a = fun () { var a = a; }; } }`. In the function the first value of
`a` is the outer `a`, since the `a` between them is pending. -/
def nestedVariables : List (Stmt Binding) :=
  let a : Token := ⟨.identifier, "a", 1⟩
  [.block [.varDecl a none,
    .block [.varDecl a (some (.lambda [] [.varDecl a (some (.ident (.hops 2) a))]))]]]

def outerChange : Change :=
  ⟨[0], "a", "y"⟩

def innerChange : Change :=
  ⟨[0, 0, 1, 0], "a", "y"⟩

theorem outer_rename_keeps_bindings :
    resolveProgram (Stmt.allBare (Stmt.renameAll outerChange .top 0 nestedVariables)) =
      .ok (Stmt.renameAll outerChange .top 0 nestedVariables) :=
  have h : resolveProgram (Stmt.allBare nestedVariables) = .ok nestedVariables := rfl
  (rename_keeps_bindings outerChange h (by decide)).mpr (by decide)

theorem inner_rename_changes_binding :
    resolveProgram (Stmt.allBare nestedVariables) = .ok nestedVariables ∧
      (∀ o ∈ Stmt.allOccurrences .top 0 nestedVariables, o.name.lexeme ≠ innerChange.new) ∧
      (∃ o ∈ Stmt.allOccurrences .top 0 nestedVariables, innerChange.Concerns o) ∧
      ∃ renamed,
        resolveProgram (Stmt.allBare (Stmt.renameAll innerChange .top 0 nestedVariables)) =
          .ok renamed ∧
        (Stmt.allReferences nestedVariables).map Reference.binding = [.hops 2] ∧
        (Stmt.allReferences renamed).map Reference.binding = [.hops 1] :=
  ⟨rfl, by decide, by decide, _, rfl, by decide, by decide⟩

end Renaming

end ScriptLang
