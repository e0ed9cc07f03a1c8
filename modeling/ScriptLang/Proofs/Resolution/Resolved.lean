import ScriptLang.Proofs.Chronicle.Names
import ScriptLang.Resolution
import ScriptLang.Syntax.Reference
import Mathlib.Tactic.Tauto

namespace ScriptLang

open Scope

abbrev Expr.bare (e : Expr Binding) : Expr Unit :=
  e.map fun _ => ()

abbrev Stmt.bare (s : Stmt Binding) : Stmt Unit :=
  s.map fun _ => ()

abbrev Expr.allBare (es : List (Expr Binding)) : List (Expr Unit) :=
  Expr.mapAll (fun _ => ()) es

abbrev Stmt.allBare (ss : List (Stmt Binding)) : List (Stmt Unit) :=
  Stmt.mapAll (fun _ => ()) ss

mutual

theorem Expr.bare_resolve (S : Stack) (e : Expr Unit) : (e.resolve S).1.bare = e := by
  cases e with
  | literal constant => rfl
  | group inner => simp only [Expr.resolve, Expr.map, inner.bare_resolve S]
  | unary operator right => simp only [Expr.resolve, Expr.map, right.bare_resolve S]
  | binary left operator right =>
    simp only [Expr.resolve, Expr.map, left.bare_resolve S, right.bare_resolve S]
  | logical left operator right =>
    simp only [Expr.resolve, Expr.map, left.bare_resolve S, right.bare_resolve S]
  | ident u name => rfl
  | assign u name value => simp only [Expr.resolve, Expr.map, value.bare_resolve S]
  | call callee paren arguments =>
    simp only [Expr.resolve, Expr.map, callee.bare_resolve S, Expr.allBare_resolveAll S arguments]
  | lambda params body => simp only [Expr.resolve, Expr.map, Stmt.allBare_resolveAll true _ body]

theorem Expr.allBare_resolveAll (S : Stack) (es : List (Expr Unit)) :
    Expr.allBare (Expr.resolveAll S es).1 = es := by
  cases es with
  | nil => rfl
  | cons e es =>
    simp only [Expr.resolveAll, Expr.mapAll, e.bare_resolve S, Expr.allBare_resolveAll S es]

theorem Stmt.bare_resolve (inFunction : Bool) (S : Stack) (s : Stmt Unit) :
    (s.resolve inFunction S).1.bare = s := by
  cases s with
  | exprStmt e => simp only [Stmt.resolve, Stmt.map, e.bare_resolve S]
  | printStmt e => simp only [Stmt.resolve, Stmt.map, e.bare_resolve S]
  | varDecl name initial =>
    cases initial with
    | none => rfl
    | some e => simp only [Stmt.resolve, Stmt.map, e.bare_resolve _]
  | block body => simp only [Stmt.resolve, Stmt.map, Stmt.allBare_resolveAll inFunction _ body]
  | ifStmt condition yes no =>
    cases no with
    | none =>
      simp only [Stmt.resolve, Stmt.map, condition.bare_resolve S, yes.bare_resolve inFunction S]
    | some no =>
      simp only [Stmt.resolve, Stmt.map, condition.bare_resolve S, yes.bare_resolve inFunction S,
        no.bare_resolve inFunction _]
  | whileStmt condition body =>
    simp only [Stmt.resolve, Stmt.map, condition.bare_resolve S, body.bare_resolve inFunction S]
  | breakStmt keyword => rfl
  | returnStmt keyword value =>
    cases value with
    | none => rfl
    | some e => simp only [Stmt.resolve, Stmt.map, e.bare_resolve S]
  | funDecl name params body =>
    simp only [Stmt.resolve, Stmt.map, Stmt.allBare_resolveAll true _ body]

theorem Stmt.allBare_resolveAll (inFunction : Bool) (S : Stack) (ss : List (Stmt Unit)) :
    Stmt.allBare (Stmt.resolveAll inFunction S ss).1 = ss := by
  cases ss with
  | nil => rfl
  | cons s ss =>
    simp only [Stmt.resolveAll, Stmt.mapAll, s.bare_resolve inFunction S,
      Stmt.allBare_resolveAll inFunction _ ss]

end

def Expr.Resolved (S : Stack) (e : Expr Binding) : Prop :=
  e.bare.resolve S = (e, [])

def Expr.AllResolved (S : Stack) (es : List (Expr Binding)) : Prop :=
  Expr.resolveAll S (Expr.allBare es) = (es, [])

def Stmt.Resolves (inFunction : Bool) (S T : Stack) (s : Stmt Binding) : Prop :=
  s.bare.resolve inFunction S = (s, T, [])

def Stmt.AllResolve (inFunction : Bool) (S T : Stack) (ss : List (Stmt Binding)) : Prop :=
  Stmt.resolveAll inFunction S (Stmt.allBare ss) = (ss, T, [])

section Expressions

variable {S : Stack} {e inner left right callee value : Expr Binding} {es : List (Expr Binding)}
  {name operator paren : Token} {params : List Token} {body : List (Stmt Binding)}
  {binding : Binding}

theorem Expr.resolved_literal {constant : Literal} :
    (Expr.literal constant : Expr Binding).Resolved S :=
  rfl

theorem Expr.resolved_group : (Expr.group inner).Resolved S ↔ inner.Resolved S := by
  simp [Expr.Resolved, Expr.map, Expr.resolve, Prod.ext_iff]

theorem Expr.resolved_unary : (Expr.unary operator right).Resolved S ↔ right.Resolved S := by
  simp [Expr.Resolved, Expr.map, Expr.resolve, Prod.ext_iff]

theorem Expr.resolved_binary :
    (Expr.binary left operator right).Resolved S ↔ left.Resolved S ∧ right.Resolved S := by
  simp [Expr.Resolved, Expr.map, Expr.resolve, Prod.ext_iff, and_and_and_comm]

theorem Expr.resolved_logical :
    (Expr.logical left operator right).Resolved S ↔ left.Resolved S ∧ right.Resolved S := by
  simp [Expr.Resolved, Expr.map, Expr.resolve, Prod.ext_iff, and_and_and_comm]

theorem Expr.resolved_ident :
    (Expr.ident binding name).Resolved S ↔ bindingOf? name.lexeme S = some binding := by
  rw [← bindUse_eq .readInInitializer]
  simp [Expr.Resolved, Expr.map, Expr.resolve, Prod.ext_iff]

theorem Expr.resolved_assign :
    (Expr.assign binding name value).Resolved S ↔
      value.Resolved S ∧ bindingOf? name.lexeme S = some binding := by
  rw [← bindUse_eq .assignedInInitializer]
  simp only [Expr.Resolved, Expr.map, Expr.resolve, Prod.ext_iff, Expr.assign.injEq,
    List.append_eq_nil_iff]
  tauto

theorem Expr.resolved_call :
    (Expr.call callee paren es).Resolved S ↔ callee.Resolved S ∧ Expr.AllResolved S es := by
  simp [Expr.Resolved, Expr.AllResolved, Expr.map, Expr.resolve, Prod.ext_iff, and_and_and_comm]

theorem Expr.resolved_lambda :
    (Expr.lambda params body).Resolved S ↔
      ∃ T U, declareParams params ([] :: S) = (T, []) ∧ Stmt.AllResolve true T U body := by
  simp only [Expr.Resolved, Stmt.AllResolve, Expr.map, Expr.resolve, Prod.ext_iff,
    Expr.lambda.injEq, List.append_eq_nil_iff, true_and]
  constructor
  · rintro ⟨hbody, hparams, herrors⟩
    exact ⟨_, _, ⟨rfl, hparams⟩, hbody, rfl, herrors⟩
  · rintro ⟨T, U, ⟨rfl, hparams⟩, hbody, -, herrors⟩
    exact ⟨hbody, hparams, herrors⟩

theorem Expr.allResolved_cons :
    Expr.AllResolved S (e :: es) ↔ e.Resolved S ∧ Expr.AllResolved S es := by
  simp [Expr.Resolved, Expr.AllResolved, Expr.mapAll, Expr.resolveAll, Prod.ext_iff,
    and_and_and_comm]

end Expressions

section Statements

variable {inFunction : Bool} {S T U : Stack} {e condition : Expr Binding}
  {s yes no body : Stmt Binding} {ss : List (Stmt Binding)} {name keyword : Token}
  {params : List Token}

theorem Stmt.resolves_exprStmt :
    (Stmt.exprStmt e).Resolves inFunction S T ↔ T = S ∧ e.Resolved S := by
  simp only [Stmt.Resolves, Expr.Resolved, Stmt.map, Stmt.resolve, Prod.ext_iff,
    Stmt.exprStmt.injEq]
  tauto

theorem Stmt.resolves_printStmt :
    (Stmt.printStmt e).Resolves inFunction S T ↔ T = S ∧ e.Resolved S := by
  simp only [Stmt.Resolves, Expr.Resolved, Stmt.map, Stmt.resolve, Prod.ext_iff,
    Stmt.printStmt.injEq]
  tauto

theorem Stmt.resolves_varDecl :
    (Stmt.varDecl name none : Stmt Binding).Resolves inFunction S T ↔
      ∃ D, declare name S = (D, []) ∧ T = define name D := by
  simp only [Stmt.Resolves, Stmt.map, Stmt.resolve, Prod.ext_iff, true_and]
  constructor
  · rintro ⟨rfl, hname⟩
    exact ⟨_, ⟨rfl, hname⟩, rfl⟩
  · rintro ⟨D, ⟨rfl, hname⟩, rfl⟩
    exact ⟨rfl, hname⟩

theorem Stmt.resolves_varDecl_initial :
    (Stmt.varDecl name (some e)).Resolves inFunction S T ↔
      ∃ D, declare name S = (D, []) ∧ T = define name D ∧ e.Resolved D := by
  simp only [Stmt.Resolves, Expr.Resolved, Stmt.map, Stmt.resolve, Prod.ext_iff,
    Stmt.varDecl.injEq, Option.some.injEq, List.append_eq_nil_iff, true_and]
  constructor
  · rintro ⟨he, rfl, hname, herrors⟩
    exact ⟨_, ⟨rfl, hname⟩, rfl, he, herrors⟩
  · rintro ⟨D, ⟨rfl, hname⟩, rfl, he, herrors⟩
    exact ⟨he, rfl, hname, herrors⟩

theorem Stmt.resolves_block :
    (Stmt.block ss).Resolves inFunction S T ↔
      T = S ∧ ∃ U, Stmt.AllResolve inFunction ([] :: S) U ss := by
  simp only [Stmt.Resolves, Stmt.AllResolve, Stmt.map, Stmt.resolve, Prod.ext_iff, Stmt.block.injEq]
  tauto

theorem Stmt.resolves_ifStmt :
    (Stmt.ifStmt condition yes none).Resolves inFunction S T ↔
      condition.Resolved S ∧ yes.Resolves inFunction S T := by
  simp only [Stmt.Resolves, Expr.Resolved, Stmt.map, Stmt.resolve, Prod.ext_iff, Stmt.ifStmt.injEq,
    and_true, List.append_eq_nil_iff]
  tauto

theorem Stmt.resolves_ifStmt_else :
    (Stmt.ifStmt condition yes (some no)).Resolves inFunction S T ↔
      condition.Resolved S ∧ ∃ U, yes.Resolves inFunction S U ∧ no.Resolves inFunction U T := by
  simp only [Stmt.Resolves, Expr.Resolved, Stmt.map, Stmt.resolve, Prod.ext_iff,
    Stmt.ifStmt.injEq, List.append_eq_nil_iff, Option.some.injEq]
  constructor
  · rintro ⟨⟨hc, hy, hn⟩, hT, ⟨hce, hye⟩, hne⟩
    exact ⟨⟨hc, hce⟩, _, ⟨hy, rfl, hye⟩, hn, hT, hne⟩
  · rintro ⟨⟨hc, hce⟩, U, ⟨hy, rfl, hye⟩, hn, hT, hne⟩
    exact ⟨⟨hc, hy, hn⟩, hT, ⟨hce, hye⟩, hne⟩

theorem Stmt.resolves_whileStmt :
    (Stmt.whileStmt condition body).Resolves inFunction S T ↔
      condition.Resolved S ∧ body.Resolves inFunction S T := by
  simp only [Stmt.Resolves, Expr.Resolved, Stmt.map, Stmt.resolve, Prod.ext_iff,
    Stmt.whileStmt.injEq, List.append_eq_nil_iff]
  tauto

theorem Stmt.resolves_breakStmt :
    (Stmt.breakStmt keyword : Stmt Binding).Resolves inFunction S T ↔ T = S := by
  simp [Stmt.Resolves, Stmt.map, Stmt.resolve, eq_comm]

theorem Stmt.resolves_returnStmt :
    (Stmt.returnStmt keyword none : Stmt Binding).Resolves inFunction S T ↔
      T = S ∧ returnErrors inFunction keyword = [] := by
  simp only [Stmt.Resolves, Stmt.map, Stmt.resolve, Prod.ext_iff, true_and]
  tauto

theorem Stmt.resolves_returnStmt_value :
    (Stmt.returnStmt keyword (some e)).Resolves inFunction S T ↔
      T = S ∧ returnErrors inFunction keyword = [] ∧ e.Resolved S := by
  simp only [Stmt.Resolves, Expr.Resolved, Stmt.map, Stmt.resolve, Prod.ext_iff,
    Stmt.returnStmt.injEq, Option.some.injEq, true_and, List.append_eq_nil_iff]
  tauto

theorem Stmt.resolves_funDecl :
    (Stmt.funDecl name params ss).Resolves inFunction S T ↔
      ∃ D, declare name S = (D, []) ∧ T = define name D ∧
        ∃ P U, declareParams params ([] :: T) = (P, []) ∧ Stmt.AllResolve true P U ss := by
  simp only [Stmt.Resolves, Stmt.AllResolve, Stmt.map, Stmt.resolve, Prod.ext_iff,
    Stmt.funDecl.injEq, List.append_eq_nil_iff, true_and]
  constructor
  · rintro ⟨hbody, rfl, ⟨hname, hparams⟩, herrors⟩
    exact ⟨_, ⟨rfl, hname⟩, rfl, _, _, ⟨rfl, hparams⟩, hbody, rfl, herrors⟩
  · rintro ⟨D, ⟨rfl, hname⟩, rfl, P, U, ⟨rfl, hparams⟩, hbody, -, herrors⟩
    exact ⟨hbody, rfl, ⟨hname, hparams⟩, herrors⟩

theorem Stmt.allResolve_nil : Stmt.AllResolve inFunction S T [] ↔ T = S := by
  simp [Stmt.AllResolve, Stmt.mapAll, Stmt.resolveAll, eq_comm]

theorem Stmt.allResolve_cons :
    Stmt.AllResolve inFunction S T (s :: ss) ↔
      ∃ U, s.Resolves inFunction S U ∧ Stmt.AllResolve inFunction U T ss := by
  simp only [Stmt.Resolves, Stmt.AllResolve, Stmt.mapAll, Stmt.resolveAll, Prod.ext_iff,
    List.cons.injEq, List.append_eq_nil_iff]
  constructor
  · rintro ⟨⟨hs, hss⟩, hT, hse, hsse⟩
    exact ⟨_, ⟨hs, rfl, hse⟩, hss, hT, hsse⟩
  · rintro ⟨U, ⟨hs, rfl, hse⟩, hss, hT, hsse⟩
    exact ⟨⟨hs, hss⟩, hT, hse, hsse⟩

end Statements

/-- A program is what resolution answers if it is its own resolution. -/
theorem resolveProgram_eq_ok_iff_allResolve {statements : List (Stmt Unit)}
    {program : List (Stmt Binding)} :
    resolveProgram statements = .ok program ↔
      Stmt.allBare program = statements ∧ ∃ T, Stmt.AllResolve false [] T program := by
  rw [resolveProgram_eq_ok]
  constructor
  · rintro ⟨herrors, rfl⟩
    have hbare := Stmt.allBare_resolveAll false [] statements
    refine ⟨hbare, (Stmt.resolveAll false [] statements).2.1, ?_⟩
    rw [Stmt.AllResolve, hbare, ← herrors]
  · rintro ⟨rfl, T, h⟩
    rw [Stmt.AllResolve] at h
    rw [h]
    exact ⟨rfl, rfl⟩

end ScriptLang
