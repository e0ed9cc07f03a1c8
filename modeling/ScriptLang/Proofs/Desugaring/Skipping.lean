import ScriptLang.Proofs.Chronicle.Names
import ScriptLang.Proofs.Grammar.Shape
import ScriptLang.Resolution

namespace ScriptLang

open Scope

namespace Desugaring

def inward (f : Nat → Nat) : (distance : Nat) → Nat
  | 0 => 0
  | distance + 1 => f distance + 1

theorem inward_id : inward id = id := by
  funext distance
  cases distance <;> rfl

/-- How far out the scope at a distance is if scopes that bind nothing are counted too. -/
def reach : List Bool → Nat → Nat
  | [] => id
  | false :: marks => fun distance => reach marks distance + 1
  | true :: marks => inward (reach marks)

def gap (n : Nat) : List Bool := List.replicate n true ++ [false]

theorem findIdx?_gap {p : Names → Bool} (hp : p [] = false) (T S : Stack) :
    (T ++ [] :: S).findIdx? p = ((T ++ S).findIdx? p).map (reach (gap T.length)) := by
  induction T with
  | nil =>
    rw [List.nil_append, List.nil_append, List.findIdx?_cons, if_neg (by simp [hp])]
    rfl
  | cons names T ih =>
    rw [List.cons_append, List.cons_append, List.findIdx?_cons, List.findIdx?_cons, ih]
    cases p names with
    | true => rfl
    | false =>
      simp only [Bool.false_eq_true, if_false, Option.map_map]
      rfl

end Desugaring

open Desugaring

def Binding.skip (f : Nat → Nat) : Binding → Binding
  | .global => .global
  | .hops distance => .hops (f distance)

mutual

def Expr.skip (f : Nat → Nat) : Expr Binding → Expr Binding
  | .literal value => .literal value
  | .group inner => .group (inner.skip f)
  | .unary operator right => .unary operator (right.skip f)
  | .binary left operator right => .binary (left.skip f) operator (right.skip f)
  | .logical left operator right => .logical (left.skip f) operator (right.skip f)
  | .ident binding name => .ident (binding.skip f) name
  | .assign binding name value => .assign (binding.skip f) name (value.skip f)
  | .call callee paren arguments => .call (callee.skip f) paren (Expr.allSkip f arguments)
  | .lambda params body => .lambda params (Stmt.allSkip (inward f) body)

def Expr.allSkip (f : Nat → Nat) : List (Expr Binding) → List (Expr Binding)
  | [] => []
  | e :: es => e.skip f :: Expr.allSkip f es

def Stmt.skip (f : Nat → Nat) : Stmt Binding → Stmt Binding
  | .exprStmt e => .exprStmt (e.skip f)
  | .printStmt e => .printStmt (e.skip f)
  | .varDecl name none => .varDecl name none
  | .varDecl name (some initial) => .varDecl name (some (initial.skip f))
  | .block body => .block (Stmt.allSkip (inward f) body)
  | .ifStmt condition yes none => .ifStmt (condition.skip f) (yes.skip f) none
  | .ifStmt condition yes (some no) =>
    .ifStmt (condition.skip f) (yes.skip f) (some (no.skip f))
  | .whileStmt condition body => .whileStmt (condition.skip f) (body.skip f)
  | .breakStmt keyword => .breakStmt keyword
  | .returnStmt keyword none => .returnStmt keyword none
  | .returnStmt keyword (some value) => .returnStmt keyword (some (value.skip f))
  | .funDecl name params body => .funDecl name params (Stmt.allSkip (inward f) body)

def Stmt.allSkip (f : Nat → Nat) : List (Stmt Binding) → List (Stmt Binding)
  | [] => []
  | s :: ss => s.skip f :: Stmt.allSkip f ss

end

section Identity

theorem Binding.skip_id (b : Binding) : b.skip id = b := by
  cases b <;> rfl

mutual

theorem Expr.skip_id (e : Expr Binding) : e.skip id = e := by
  cases e with
  | literal value => rfl
  | group inner => rw [Expr.skip, inner.skip_id]
  | unary operator right => rw [Expr.skip, right.skip_id]
  | binary left operator right => rw [Expr.skip, left.skip_id, right.skip_id]
  | logical left operator right => rw [Expr.skip, left.skip_id, right.skip_id]
  | ident binding name => rw [Expr.skip, binding.skip_id]
  | assign binding name value => rw [Expr.skip, binding.skip_id, value.skip_id]
  | call callee paren arguments => rw [Expr.skip, callee.skip_id, Expr.allSkip_id arguments]
  | lambda params body => rw [Expr.skip, inward_id, Stmt.allSkip_id body]

theorem Expr.allSkip_id (es : List (Expr Binding)) : Expr.allSkip id es = es := by
  cases es with
  | nil => rfl
  | cons e es => rw [Expr.allSkip, e.skip_id, Expr.allSkip_id es]

theorem Stmt.skip_id (s : Stmt Binding) : s.skip id = s := by
  cases s with
  | exprStmt e => rw [Stmt.skip, e.skip_id]
  | printStmt e => rw [Stmt.skip, e.skip_id]
  | varDecl name initial =>
    cases initial with
    | none => rfl
    | some e => rw [Stmt.skip, e.skip_id]
  | block body => rw [Stmt.skip, inward_id, Stmt.allSkip_id body]
  | ifStmt condition yes no =>
    cases no with
    | none => rw [Stmt.skip, condition.skip_id, yes.skip_id]
    | some no => rw [Stmt.skip, condition.skip_id, yes.skip_id, no.skip_id]
  | whileStmt condition body => rw [Stmt.skip, condition.skip_id, body.skip_id]
  | breakStmt keyword => rfl
  | returnStmt keyword value =>
    cases value with
    | none => rfl
    | some e => rw [Stmt.skip, e.skip_id]
  | funDecl name params body => rw [Stmt.skip, inward_id, Stmt.allSkip_id body]

theorem Stmt.allSkip_id (ss : List (Stmt Binding)) : Stmt.allSkip id ss = ss := by
  cases ss with
  | nil => rfl
  | cons s ss => rw [Stmt.allSkip, s.skip_id, Stmt.allSkip_id ss]

end

end Identity

end ScriptLang
