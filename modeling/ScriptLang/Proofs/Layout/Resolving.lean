import ScriptLang.Proofs.Lines.Resolving

namespace ScriptLang

namespace Scope

variable (f : Nat → Nat)

def Error.moved (e : Error) : Error :=
  { e with token := e.token.moved f }

variable (name : Token) (S : Stack)

theorem declare_eq_moved :
    declare (name.moved f) S = ((declare name S).1, (declare name S).2.map (Error.moved f)) := by
  cases S with
  | nil => rfl
  | cons names S =>
    have hlexeme : (name.moved f).lexeme = name.lexeme := rfl
    simp only [declare, hlexeme]
    cases names.lookup name.lexeme <;> rfl

theorem declareParams_eq_moved (params : List Token) :
    declareParams (params.map (Token.moved f)) S =
      ((declareParams params S).1, (declareParams params S).2.map (Error.moved f)) := by
  induction params generalizing S with
  | nil => rfl
  | cons p ps ih =>
    simp only [List.map_cons, declareParams, declare_eq_moved, define_moved, ih, List.map_append]

theorem bindUse_eq_moved (fault : Fault) :
    bindUse fault (name.moved f) S =
      ((bindUse fault name S).1, (bindUse fault name S).2.map (Error.moved f)) := by
  have hlexeme : (name.moved f).lexeme = name.lexeme := rfl
  simp only [bindUse, hlexeme]
  cases bindingOf? name.lexeme S <;> rfl

theorem returnErrors_eq_moved (inFunction : Bool) (keyword : Token) :
    returnErrors inFunction (keyword.moved f) =
      (returnErrors inFunction keyword).map (Error.moved f) := by
  cases inFunction <;> rfl

end Scope

open Scope

variable (f : Nat → Nat)

mutual

theorem Expr.resolve_moved (S : Stack) (e : Expr Unit) :
    (e.moved f).resolve S = ((e.resolve S).1.moved f, (e.resolve S).2.map (Error.moved f)) := by
  cases e with
  | literal value => rfl
  | group inner => simp only [Expr.moved, Expr.resolve, inner.resolve_moved S]
  | unary operator right => simp only [Expr.moved, Expr.resolve, right.resolve_moved S]
  | binary left operator right =>
    simp only [Expr.moved, Expr.resolve, left.resolve_moved S, right.resolve_moved S,
      List.map_append]
  | logical left operator right =>
    simp only [Expr.moved, Expr.resolve, left.resolve_moved S, right.resolve_moved S,
      List.map_append]
  | ident u name => simp only [Expr.moved, Expr.resolve, bindUse_eq_moved]
  | assign u name value =>
    simp only [Expr.moved, Expr.resolve, value.resolve_moved S, bindUse_eq_moved, List.map_append]
  | call callee paren arguments =>
    simp only [Expr.moved, Expr.resolve, callee.resolve_moved S,
      Expr.resolveAll_moved S arguments, List.map_append]
  | lambda params body =>
    simp only [Expr.moved, Expr.resolve, declareParams_eq_moved, Stmt.resolveAll_moved true _ body,
      List.map_append]

theorem Expr.resolveAll_moved (S : Stack) (es : List (Expr Unit)) :
    Expr.resolveAll S (Expr.allMoved f es) =
      (Expr.allMoved f (Expr.resolveAll S es).1, (Expr.resolveAll S es).2.map (Error.moved f)) := by
  cases es with
  | nil => rfl
  | cons e es =>
    simp only [Expr.allMoved, Expr.resolveAll, e.resolve_moved S, Expr.resolveAll_moved S es,
      List.map_append]

theorem Stmt.resolve_moved (inFunction : Bool) (S : Stack) (s : Stmt Unit) :
    (s.moved f).resolve inFunction S =
      ((s.resolve inFunction S).1.moved f, (s.resolve inFunction S).2.1,
        (s.resolve inFunction S).2.2.map (Error.moved f)) := by
  cases s with
  | exprStmt e => simp only [Stmt.moved, Stmt.resolve, e.resolve_moved S]
  | printStmt e => simp only [Stmt.moved, Stmt.resolve, e.resolve_moved S]
  | varDecl name initial =>
    cases initial with
    | none => simp only [Stmt.moved, Stmt.resolve, declare_eq_moved, define_moved]
    | some e =>
      simp only [Stmt.moved, Stmt.resolve, declare_eq_moved, define_moved, e.resolve_moved _,
        List.map_append]
  | block body =>
    simp only [Stmt.moved, Stmt.resolve, Stmt.resolveAll_moved inFunction _ body]
  | ifStmt condition yes no =>
    cases no with
    | none =>
      simp only [Stmt.moved, Stmt.resolve, condition.resolve_moved S,
        yes.resolve_moved inFunction S, List.map_append]
    | some no =>
      simp only [Stmt.moved, Stmt.resolve, condition.resolve_moved S,
        yes.resolve_moved inFunction S, no.resolve_moved inFunction _, List.map_append]
  | whileStmt condition body =>
    simp only [Stmt.moved, Stmt.resolve, condition.resolve_moved S,
      body.resolve_moved inFunction S, List.map_append]
  | breakStmt keyword => rfl
  | returnStmt keyword value =>
    cases value with
    | none => simp only [Stmt.moved, Stmt.resolve, returnErrors_eq_moved]
    | some e =>
      simp only [Stmt.moved, Stmt.resolve, e.resolve_moved S, returnErrors_eq_moved,
        List.map_append]
  | funDecl name params body =>
    simp only [Stmt.moved, Stmt.resolve, declare_eq_moved, define_moved, declareParams_eq_moved,
      Stmt.resolveAll_moved true _ body, List.map_append]

theorem Stmt.resolveAll_moved (inFunction : Bool) (S : Stack) (ss : List (Stmt Unit)) :
    Stmt.resolveAll inFunction S (Stmt.allMoved f ss) =
      (Stmt.allMoved f (Stmt.resolveAll inFunction S ss).1,
        (Stmt.resolveAll inFunction S ss).2.1,
        (Stmt.resolveAll inFunction S ss).2.2.map (Error.moved f)) := by
  cases ss with
  | nil => rfl
  | cons s ss =>
    simp only [Stmt.allMoved, Stmt.resolveAll, s.resolve_moved inFunction S,
      Stmt.resolveAll_moved inFunction _ ss, List.map_append]

end

/-- A program resolved on other lines has the same bindings, or the same errors there. -/
theorem resolveProgram_eq_moved (statements : List (Stmt Unit)) :
    resolveProgram (Stmt.allMoved f statements) =
      match resolveProgram statements with
      | .ok program => .ok (Stmt.allMoved f program)
      | .error errors => .error (errors.map (Error.moved f)) := by
  simp only [resolveProgram, Stmt.resolveAll_moved, List.isEmpty_map]
  cases (Stmt.resolveAll false [] statements).2.2.isEmpty <;> rfl

end ScriptLang
