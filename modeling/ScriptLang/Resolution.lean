import ScriptLang.Scope
import ScriptLang.Syntax

namespace ScriptLang

open Scope

mutual

def Expr.resolve (scopes : Stack) : Expr Unit → Expr Binding × List Scope.Error
  | .literal value => (.literal value, [])
  | .group inner =>
    let i := inner.resolve scopes
    (.group i.1, i.2)
  | .unary operator right =>
    let r := right.resolve scopes
    (.unary operator r.1, r.2)
  | .binary left operator right =>
    let l := left.resolve scopes
    let r := right.resolve scopes
    (.binary l.1 operator r.1, l.2 ++ r.2)
  | .logical left operator right =>
    let l := left.resolve scopes
    let r := right.resolve scopes
    (.logical l.1 operator r.1, l.2 ++ r.2)
  | .ident _ name =>
    let b := bindUse .readInInitializer name scopes
    (.ident b.1 name, b.2)
  | .assign _ name value =>
    let v := value.resolve scopes
    let b := bindUse .assignedInInitializer name scopes
    (.assign b.1 name v.1, v.2 ++ b.2)
  | .call callee paren arguments =>
    let c := callee.resolve scopes
    let a := Expr.resolveAll scopes arguments
    (.call c.1 paren a.1, c.2 ++ a.2)
  | .lambda params body =>
    let p := declareParams params ([] :: scopes)
    let b := Stmt.resolveAll true p.1 body
    (.lambda params b.1, p.2 ++ b.2.2)

def Expr.resolveAll (scopes : Stack) : List (Expr Unit) → List (Expr Binding) × List Scope.Error
  | [] => ([], [])
  | e :: es =>
    let first := e.resolve scopes
    let others := Expr.resolveAll scopes es
    (first.1 :: others.1, first.2 ++ others.2)

def Stmt.resolve (inFunction : Bool) (scopes : Stack) :
    Stmt Unit → Stmt Binding × Stack × List Scope.Error
  | .exprStmt e =>
    let r := e.resolve scopes
    (.exprStmt r.1, scopes, r.2)
  | .printStmt e =>
    let r := e.resolve scopes
    (.printStmt r.1, scopes, r.2)
  | .varDecl name none =>
    let d := declare name scopes
    (.varDecl name none, define name d.1, d.2)
  | .varDecl name (some initial) =>
    let d := declare name scopes
    let i := initial.resolve d.1
    (.varDecl name (some i.1), define name d.1, d.2 ++ i.2)
  | .block body =>
    let b := Stmt.resolveAll inFunction ([] :: scopes) body
    (.block b.1, scopes, b.2.2)
  | .ifStmt condition yes none =>
    let c := condition.resolve scopes
    let y := yes.resolve inFunction scopes
    (.ifStmt c.1 y.1 none, y.2.1, c.2 ++ y.2.2)
  | .ifStmt condition yes (some no) =>
    let c := condition.resolve scopes
    let y := yes.resolve inFunction scopes
    let n := no.resolve inFunction y.2.1
    (.ifStmt c.1 y.1 (some n.1), n.2.1, c.2 ++ y.2.2 ++ n.2.2)
  | .whileStmt condition body =>
    let c := condition.resolve scopes
    let b := body.resolve inFunction scopes
    (.whileStmt c.1 b.1, b.2.1, c.2 ++ b.2.2)
  | .breakStmt keyword => (.breakStmt keyword, scopes, [])
  | .returnStmt keyword none =>
    (.returnStmt keyword none, scopes, returnErrors inFunction keyword)
  | .returnStmt keyword (some value) =>
    let v := value.resolve scopes
    (.returnStmt keyword (some v.1), scopes, returnErrors inFunction keyword ++ v.2)
  | .funDecl name params body =>
    let d := declare name scopes
    let inner := define name d.1
    let p := declareParams params ([] :: inner)
    let b := Stmt.resolveAll true p.1 body
    (.funDecl name params b.1, inner, d.2 ++ p.2 ++ b.2.2)

def Stmt.resolveAll (inFunction : Bool) (scopes : Stack) :
    List (Stmt Unit) → List (Stmt Binding) × Stack × List Scope.Error
  | [] => ([], scopes, [])
  | s :: ss =>
    let first := s.resolve inFunction scopes
    let others := Stmt.resolveAll inFunction first.2.1 ss
    (first.1 :: others.1, others.2.1, first.2.2 ++ others.2.2)

end

/-- A program with all its bindings, or every scope error in it. At its top level no scope is
open. -/
def resolveProgram (statements : List (Stmt Unit)) :
    Except (List Scope.Error) (List (Stmt Binding)) :=
  let r := Stmt.resolveAll false [] statements
  if r.2.2.isEmpty then .ok r.1 else .error r.2.2

theorem resolveProgram_eq_ok {statements : List (Stmt Unit)} {program : List (Stmt Binding)} :
    resolveProgram statements = .ok program ↔
      (Stmt.resolveAll false [] statements).2.2 = [] ∧
        (Stmt.resolveAll false [] statements).1 = program := by
  unfold resolveProgram
  cases h : (Stmt.resolveAll false [] statements).2.2 with
  | nil => simp [h]
  | cons e es => simp [h]

end ScriptLang
