import ScriptLang.Proofs.Lines.Moving
import ScriptLang.Proofs.Resolution.Resolved

namespace ScriptLang

open Scope

section Resolution

theorem Scope.declare_moved (f : Nat → Nat) {name : Token} {S D : Stack}
    (h : declare name S = (D, [])) : declare (name.moved f) S = (D, []) := by
  cases S with
  | nil => exact h
  | cons names S =>
    obtain ⟨hfresh, hD⟩ := declare_cons_eq.mp h
    exact declare_cons_eq.mpr ⟨hfresh, hD⟩

theorem Scope.define_moved (f : Nat → Nat) (name : Token) (S : Stack) :
    define (name.moved f) S = define name S := by
  cases S <;> rfl

theorem Scope.declareParams_moved (f : Nat → Nat) {params : List Token} {S P : Stack}
    (h : declareParams params S = (P, [])) :
    declareParams (params.map (Token.moved f)) S = (P, []) := by
  induction params generalizing S with
  | nil => exact h
  | cons p ps ih =>
    obtain ⟨D, hp, hps⟩ := declareParams_cons_eq.mp h
    refine declareParams_cons_eq.mpr ⟨D, declare_moved f hp, ?_⟩
    rw [define_moved]
    exact ih hps

theorem Scope.returnErrors_moved (f : Nat → Nat) {inFunction : Bool} {keyword : Token}
    (h : returnErrors inFunction keyword = []) :
    returnErrors inFunction (keyword.moved f) = [] := by
  cases inFunction with
  | false => cases h
  | true => rfl

mutual

theorem Expr.Resolved.moved (f : Nat → Nat) {S : Stack} {e : Expr Binding} (h : e.Resolved S) :
    (e.moved f).Resolved S := by
  cases e with
  | literal constant => exact Expr.resolved_literal
  | group inner => exact Expr.resolved_group.mpr ((Expr.resolved_group.mp h).moved f)
  | unary operator right => exact Expr.resolved_unary.mpr ((Expr.resolved_unary.mp h).moved f)
  | binary left operator right =>
    obtain ⟨hl, hr⟩ := Expr.resolved_binary.mp h
    exact Expr.resolved_binary.mpr ⟨hl.moved f, hr.moved f⟩
  | logical left operator right =>
    obtain ⟨hl, hr⟩ := Expr.resolved_logical.mp h
    exact Expr.resolved_logical.mpr ⟨hl.moved f, hr.moved f⟩
  | ident binding name =>
    have hb := Expr.resolved_ident.mp h
    exact Expr.resolved_ident.mpr hb
  | assign binding name value =>
    obtain ⟨hv, hb⟩ := Expr.resolved_assign.mp h
    exact Expr.resolved_assign.mpr ⟨hv.moved f, hb⟩
  | call callee paren arguments =>
    obtain ⟨hc, has⟩ := Expr.resolved_call.mp h
    exact Expr.resolved_call.mpr ⟨hc.moved f, has.moved f⟩
  | lambda params body =>
    obtain ⟨P, U, hp, hb⟩ := Expr.resolved_lambda.mp h
    exact Expr.resolved_lambda.mpr ⟨P, U, declareParams_moved f hp, hb.moved f⟩

theorem Expr.AllResolved.moved (f : Nat → Nat) {S : Stack} {es : List (Expr Binding)}
    (h : Expr.AllResolved S es) : Expr.AllResolved S (Expr.allMoved f es) := by
  cases es with
  | nil => exact h
  | cons e es =>
    obtain ⟨he, hes⟩ := Expr.allResolved_cons.mp h
    exact Expr.allResolved_cons.mpr ⟨he.moved f, hes.moved f⟩

theorem Stmt.Resolves.moved (f : Nat → Nat) {inFunction : Bool} {S T : Stack} {s : Stmt Binding}
    (h : s.Resolves inFunction S T) : (s.moved f).Resolves inFunction S T := by
  cases s with
  | exprStmt e =>
    obtain ⟨hT, he⟩ := Stmt.resolves_exprStmt.mp h
    exact Stmt.resolves_exprStmt.mpr ⟨hT, he.moved f⟩
  | printStmt e =>
    obtain ⟨hT, he⟩ := Stmt.resolves_printStmt.mp h
    exact Stmt.resolves_printStmt.mpr ⟨hT, he.moved f⟩
  | varDecl name initial =>
    cases initial with
    | none =>
      obtain ⟨D, hd, hT⟩ := Stmt.resolves_varDecl.mp h
      rw [← define_moved f] at hT
      exact Stmt.resolves_varDecl.mpr ⟨D, declare_moved f hd, hT⟩
    | some e =>
      obtain ⟨D, hd, hT, he⟩ := Stmt.resolves_varDecl_initial.mp h
      rw [← define_moved f] at hT
      exact Stmt.resolves_varDecl_initial.mpr ⟨D, declare_moved f hd, hT, he.moved f⟩
  | block body =>
    obtain ⟨hT, U, hb⟩ := Stmt.resolves_block.mp h
    exact Stmt.resolves_block.mpr ⟨hT, U, hb.moved f⟩
  | ifStmt condition yes no =>
    cases no with
    | none =>
      obtain ⟨hc, hy⟩ := Stmt.resolves_ifStmt.mp h
      exact Stmt.resolves_ifStmt.mpr ⟨hc.moved f, hy.moved f⟩
    | some no =>
      obtain ⟨hc, U, hy, hn⟩ := Stmt.resolves_ifStmt_else.mp h
      exact Stmt.resolves_ifStmt_else.mpr ⟨hc.moved f, U, hy.moved f, hn.moved f⟩
  | whileStmt condition body =>
    obtain ⟨hc, hb⟩ := Stmt.resolves_whileStmt.mp h
    exact Stmt.resolves_whileStmt.mpr ⟨hc.moved f, hb.moved f⟩
  | breakStmt keyword => exact Stmt.resolves_breakStmt.mpr (Stmt.resolves_breakStmt.mp h)
  | returnStmt keyword value =>
    cases value with
    | none =>
      obtain ⟨hT, hr⟩ := Stmt.resolves_returnStmt.mp h
      exact Stmt.resolves_returnStmt.mpr ⟨hT, returnErrors_moved f hr⟩
    | some e =>
      obtain ⟨hT, hr, he⟩ := Stmt.resolves_returnStmt_value.mp h
      exact Stmt.resolves_returnStmt_value.mpr ⟨hT, returnErrors_moved f hr, he.moved f⟩
  | funDecl name params body =>
    obtain ⟨D, hd, hT, P, U, hp, hb⟩ := Stmt.resolves_funDecl.mp h
    rw [← define_moved f] at hT
    exact Stmt.resolves_funDecl.mpr
      ⟨D, declare_moved f hd, hT, P, U, declareParams_moved f hp, hb.moved f⟩

theorem Stmt.AllResolve.moved (f : Nat → Nat) {inFunction : Bool} {S T : Stack}
    {ss : List (Stmt Binding)} (h : Stmt.AllResolve inFunction S T ss) :
    Stmt.AllResolve inFunction S T (Stmt.allMoved f ss) := by
  cases ss with
  | nil => exact h
  | cons s ss =>
    obtain ⟨U, hs, hss⟩ := Stmt.allResolve_cons.mp h
    exact Stmt.allResolve_cons.mpr ⟨U, hs.moved f, hss.moved f⟩

end

theorem Stmt.AllResolve.append {inFunction : Bool} {S T U : Stack} {ss ss' : List (Stmt Binding)}
    (h : Stmt.AllResolve inFunction S T ss) (h' : Stmt.AllResolve inFunction T U ss') :
    Stmt.AllResolve inFunction S U (ss ++ ss') := by
  induction ss generalizing S with
  | nil =>
    cases Stmt.allResolve_nil.mp h
    exact h'
  | cons s ss ih =>
    obtain ⟨V, hs, hss⟩ := Stmt.allResolve_cons.mp h
    exact Stmt.allResolve_cons.mpr ⟨V, hs, ih hss⟩

theorem Scope.declare_top {name : Token} {D : Stack} (h : declare name [] = (D, [])) : D = [] := by
  cases h
  rfl

theorem Stmt.Resolves.top {inFunction : Bool} {T : Stack} (s : Stmt Binding)
    (h : s.Resolves inFunction [] T) : T = [] := by
  cases s with
  | exprStmt e => exact (Stmt.resolves_exprStmt.mp h).1
  | printStmt e => exact (Stmt.resolves_printStmt.mp h).1
  | varDecl name initial =>
    cases initial with
    | none =>
      obtain ⟨D, hd, rfl⟩ := Stmt.resolves_varDecl.mp h
      rw [declare_top hd]
      rfl
    | some e =>
      obtain ⟨D, hd, rfl, -⟩ := Stmt.resolves_varDecl_initial.mp h
      rw [declare_top hd]
      rfl
  | block body => exact (Stmt.resolves_block.mp h).1
  | ifStmt condition yes no =>
    cases no with
    | none => exact Stmt.Resolves.top yes (Stmt.resolves_ifStmt.mp h).2
    | some no =>
      obtain ⟨-, U, hy, hn⟩ := Stmt.resolves_ifStmt_else.mp h
      cases Stmt.Resolves.top yes hy
      exact Stmt.Resolves.top no hn
  | whileStmt condition body => exact Stmt.Resolves.top body (Stmt.resolves_whileStmt.mp h).2
  | breakStmt keyword => exact Stmt.resolves_breakStmt.mp h
  | returnStmt keyword value =>
    cases value with
    | none => exact (Stmt.resolves_returnStmt.mp h).1
    | some e => exact (Stmt.resolves_returnStmt_value.mp h).1
  | funDecl name params body =>
    obtain ⟨D, hd, rfl, -⟩ := Stmt.resolves_funDecl.mp h
    rw [declare_top hd]
    rfl

theorem Stmt.AllResolve.top {inFunction : Bool} {T : Stack} {ss : List (Stmt Binding)}
    (h : Stmt.AllResolve inFunction [] T ss) : T = [] := by
  induction ss with
  | nil => exact Stmt.allResolve_nil.mp h
  | cons s ss ih =>
    obtain ⟨U, hs, hss⟩ := Stmt.allResolve_cons.mp h
    cases Stmt.Resolves.top s hs
    exact ih hss

end Resolution

section Bare

variable {f : Nat → Nat}

mutual

theorem Expr.bare_moved (e : Expr Binding) : (e.moved f).bare = e.bare.moved f := by
  cases e with
  | literal constant => rfl
  | group inner => simp only [Expr.moved, Expr.map, inner.bare_moved]
  | unary operator right => simp only [Expr.moved, Expr.map, right.bare_moved]
  | binary left operator right =>
    simp only [Expr.moved, Expr.map, left.bare_moved, right.bare_moved]
  | logical left operator right =>
    simp only [Expr.moved, Expr.map, left.bare_moved, right.bare_moved]
  | ident binding name => rfl
  | assign binding name value => simp only [Expr.moved, Expr.map, value.bare_moved]
  | call callee paren arguments =>
    simp only [Expr.moved, Expr.map, callee.bare_moved, Expr.allBare_allMoved arguments]
  | lambda params body => simp only [Expr.moved, Expr.map, Stmt.allBare_allMoved body]

theorem Expr.allBare_allMoved (es : List (Expr Binding)) :
    Expr.allBare (Expr.allMoved f es) = Expr.allMoved f (Expr.allBare es) := by
  cases es with
  | nil => rfl
  | cons e es => simp only [Expr.allMoved, Expr.mapAll, e.bare_moved, Expr.allBare_allMoved es]

theorem Stmt.bare_moved (s : Stmt Binding) : (s.moved f).bare = s.bare.moved f := by
  cases s with
  | exprStmt e => simp only [Stmt.moved, Stmt.map, e.bare_moved]
  | printStmt e => simp only [Stmt.moved, Stmt.map, e.bare_moved]
  | varDecl name initial =>
    cases initial with
    | none => rfl
    | some e => simp only [Stmt.moved, Stmt.map, e.bare_moved]
  | block body => simp only [Stmt.moved, Stmt.map, Stmt.allBare_allMoved body]
  | ifStmt condition yes no =>
    cases no with
    | none => simp only [Stmt.moved, Stmt.map, condition.bare_moved, yes.bare_moved]
    | some no =>
      simp only [Stmt.moved, Stmt.map, condition.bare_moved, yes.bare_moved, no.bare_moved]
  | whileStmt condition body =>
    simp only [Stmt.moved, Stmt.map, condition.bare_moved, body.bare_moved]
  | breakStmt keyword => rfl
  | returnStmt keyword value =>
    cases value with
    | none => rfl
    | some e => simp only [Stmt.moved, Stmt.map, e.bare_moved]
  | funDecl name params body => simp only [Stmt.moved, Stmt.map, Stmt.allBare_allMoved body]

theorem Stmt.allBare_allMoved (ss : List (Stmt Binding)) :
    Stmt.allBare (Stmt.allMoved f ss) = Stmt.allMoved f (Stmt.allBare ss) := by
  cases ss with
  | nil => rfl
  | cons s ss => simp only [Stmt.allMoved, Stmt.mapAll, s.bare_moved, Stmt.allBare_allMoved ss]

end

theorem Stmt.allBare_append (ss ss' : List (Stmt Binding)) :
    Stmt.allBare (ss ++ ss') = Stmt.allBare ss ++ Stmt.allBare ss' := by
  induction ss with
  | nil => rfl
  | cons s ss ih => simp only [List.cons_append, Stmt.mapAll, ih]

end Bare

theorem resolveProgram_moved (f : Nat → Nat) {statements : List (Stmt Unit)}
    {program : List (Stmt Binding)} (h : resolveProgram statements = .ok program) :
    resolveProgram (Stmt.allMoved f statements) = .ok (Stmt.allMoved f program) := by
  obtain ⟨rfl, T, hT⟩ := resolveProgram_eq_ok_iff_allResolve.mp h
  exact resolveProgram_eq_ok_iff_allResolve.mpr ⟨Stmt.allBare_allMoved program, T, hT.moved f⟩

theorem resolveProgram_append {ss ss' : List (Stmt Unit)} {program program' : List (Stmt Binding)}
    (h : resolveProgram ss = .ok program) (h' : resolveProgram ss' = .ok program') :
    resolveProgram (ss ++ ss') = .ok (program ++ program') := by
  obtain ⟨rfl, T, hT⟩ := resolveProgram_eq_ok_iff_allResolve.mp h
  obtain ⟨rfl, U, hU⟩ := resolveProgram_eq_ok_iff_allResolve.mp h'
  cases hT.top
  exact resolveProgram_eq_ok_iff_allResolve.mpr
    ⟨Stmt.allBare_append program program', U, hT.append hU⟩

end ScriptLang
