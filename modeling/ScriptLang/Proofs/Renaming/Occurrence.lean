import ScriptLang.Scope
import ScriptLang.Syntax.Reference

namespace ScriptLang

namespace Renaming

/-- Which part to take at every node on the way to a place, the last one first. -/
abbrev Path := List Nat

structure OpenScope where
  node : Path
  /-- The variable of the scope in whose first value the place is. -/
  pending : Option String

structure Site where
  here : Path
  scopes : List OpenScope

namespace Site

def top : Site := ⟨[], []⟩

def part (a : Site) (i : Nat) : Site :=
  { a with here := i :: a.here }

def enter (a : Site) : Site :=
  { a with scopes := ⟨a.here, none⟩ :: a.scopes }

/-- A step into the first value of a variable that the innermost scope declares. -/
def initializing (a : Site) (name : Token) : Site :=
  match a.scopes with
  | [] => a
  | scope :: outer => { a with scopes := ⟨scope.node, some name.lexeme⟩ :: outer }

end Site

/-- A name with the scopes open around it and where it leads. A declaration leads to the innermost
of them. -/
structure Occurrence where
  scopes : List OpenScope
  binding : Binding
  name : Token

def Site.declared (a : Site) (name : Token) : Occurrence :=
  ⟨a.scopes, .hops 0, name⟩

/-- A new name for what a scope declares. -/
structure Change where
  scope : Path
  old : String
  new : String

def Change.Opens (c : Change) (scopes : List OpenScope) (k : Nat) : Prop :=
  scopes[k]?.map OpenScope.node = some c.scope

instance (c : Change) (scopes : List OpenScope) (k : Nat) : Decidable (c.Opens scopes k) :=
  inferInstanceAs (Decidable (_ = _))

def Change.Pends (c : Change) (scopes : List OpenScope) (k : Nat) : Prop :=
  scopes[k]?.bind OpenScope.pending = some c.old

instance (c : Change) (scopes : List OpenScope) (k : Nat) : Decidable (c.Pends scopes k) :=
  inferInstanceAs (Decidable (_ = _))

/-- An occurrence is of the renamed variable if it has its name, and its distance leads to the scope
that declares it. -/
def Change.Concerns (c : Change) (o : Occurrence) : Prop :=
  o.name.lexeme = c.old ∧ ∃ d, o.binding = .hops d ∧ c.Opens o.scopes d

instance (c : Change) : DecidablePred c.Concerns
  | ⟨_, .global, _⟩ => .isFalse (by rintro ⟨-, d, hd, -⟩; cases hd)
  | ⟨scopes, .hops d, name⟩ =>
    decidable_of_iff (name.lexeme = c.old ∧ c.Opens scopes d) (by
      constructor
      · rintro ⟨hn, hd⟩
        exact ⟨hn, d, rfl, hd⟩
      · rintro ⟨hn, d', hd, ho⟩
        cases hd
        exact ⟨hn, ho⟩)

def Change.apply (c : Change) (o : Occurrence) : Token :=
  if c.Concerns o then { o.name with lexeme := c.new } else o.name

/-- A use that stands in the first value of the renamed variable, though in no function there, and
means a variable of the same name further out, past a scope in which the name is pending too. -/
def Occurrence.PassesOver (c : Change) (o : Occurrence) : Prop :=
  o.name.lexeme = c.old ∧ c.Opens o.scopes 0 ∧ c.Pends o.scopes 0 ∧
    ∃ d, o.binding = .hops d ∧ ∃ k < d, 0 < k ∧ c.Pends o.scopes k

instance (c : Change) : DecidablePred (Occurrence.PassesOver c)
  | ⟨_, .global, _⟩ => .isFalse (by rintro ⟨-, -, -, d, hd, -⟩; cases hd)
  | ⟨scopes, .hops d, name⟩ =>
    decidable_of_iff
      (name.lexeme = c.old ∧ c.Opens scopes 0 ∧ c.Pends scopes 0 ∧
        ∃ k < d, 0 < k ∧ c.Pends scopes k) (by
      constructor
      · rintro ⟨hn, ho, hp, hk⟩
        exact ⟨hn, ho, hp, d, rfl, hk⟩
      · rintro ⟨hn, ho, hp, d', hd, hk⟩
        cases hd
        exact ⟨hn, ho, hp, hk⟩)

end Renaming

open Renaming

mutual

def Expr.occurrences (a : Site) : Expr Binding → List Occurrence
  | .literal _ => []
  | .group inner => inner.occurrences (a.part 0)
  | .unary _ right => right.occurrences (a.part 0)
  | .binary left _ right => left.occurrences (a.part 0) ++ right.occurrences (a.part 1)
  | .logical left _ right => left.occurrences (a.part 0) ++ right.occurrences (a.part 1)
  | .ident binding name => [⟨a.scopes, binding, name⟩]
  | .assign binding name value =>
    value.occurrences (a.part 0) ++ [⟨a.scopes, binding, name⟩]
  | .call callee _ arguments =>
    callee.occurrences (a.part 0) ++ Expr.allOccurrences a 1 arguments
  | .lambda params body => params.map a.enter.declared ++ Stmt.allOccurrences a.enter 0 body

def Expr.allOccurrences (a : Site) (i : Nat) : List (Expr Binding) → List Occurrence
  | [] => []
  | e :: es => e.occurrences (a.part i) ++ Expr.allOccurrences a (i + 1) es

def Stmt.occurrences (a : Site) : Stmt Binding → List Occurrence
  | .exprStmt e => e.occurrences (a.part 0)
  | .printStmt e => e.occurrences (a.part 0)
  | .varDecl name none => [a.declared name]
  | .varDecl name (some initial) =>
    a.declared name :: initial.occurrences ((a.initializing name).part 0)
  | .block body => Stmt.allOccurrences a.enter 0 body
  | .ifStmt condition yes none =>
    condition.occurrences (a.part 0) ++ yes.occurrences (a.part 1)
  | .ifStmt condition yes (some no) =>
    condition.occurrences (a.part 0) ++ yes.occurrences (a.part 1) ++ no.occurrences (a.part 2)
  | .whileStmt condition body =>
    condition.occurrences (a.part 0) ++ body.occurrences (a.part 1)
  | .breakStmt _ => []
  | .returnStmt _ none => []
  | .returnStmt _ (some value) => value.occurrences (a.part 0)
  | .funDecl name params body =>
    a.declared name :: (params.map a.enter.declared ++ Stmt.allOccurrences a.enter 0 body)

def Stmt.allOccurrences (a : Site) (i : Nat) : List (Stmt Binding) → List Occurrence
  | [] => []
  | s :: ss => s.occurrences (a.part i) ++ Stmt.allOccurrences a (i + 1) ss

end

mutual

def Expr.rename (c : Change) (a : Site) : Expr Binding → Expr Binding
  | .literal value => .literal value
  | .group inner => .group (inner.rename c (a.part 0))
  | .unary operator right => .unary operator (right.rename c (a.part 0))
  | .binary left operator right =>
    .binary (left.rename c (a.part 0)) operator (right.rename c (a.part 1))
  | .logical left operator right =>
    .logical (left.rename c (a.part 0)) operator (right.rename c (a.part 1))
  | .ident binding name => .ident binding (c.apply ⟨a.scopes, binding, name⟩)
  | .assign binding name value =>
    .assign binding (c.apply ⟨a.scopes, binding, name⟩) (value.rename c (a.part 0))
  | .call callee paren arguments =>
    .call (callee.rename c (a.part 0)) paren (Expr.renameAll c a 1 arguments)
  | .lambda params body =>
    .lambda (params.map (c.apply ∘ a.enter.declared)) (Stmt.renameAll c a.enter 0 body)

def Expr.renameAll (c : Change) (a : Site) (i : Nat) : List (Expr Binding) → List (Expr Binding)
  | [] => []
  | e :: es => e.rename c (a.part i) :: Expr.renameAll c a (i + 1) es

def Stmt.rename (c : Change) (a : Site) : Stmt Binding → Stmt Binding
  | .exprStmt e => .exprStmt (e.rename c (a.part 0))
  | .printStmt e => .printStmt (e.rename c (a.part 0))
  | .varDecl name none => .varDecl (c.apply (a.declared name)) none
  | .varDecl name (some initial) =>
    .varDecl (c.apply (a.declared name))
      (some (initial.rename c ((a.initializing name).part 0)))
  | .block body => .block (Stmt.renameAll c a.enter 0 body)
  | .ifStmt condition yes none =>
    .ifStmt (condition.rename c (a.part 0)) (yes.rename c (a.part 1)) none
  | .ifStmt condition yes (some no) =>
    .ifStmt (condition.rename c (a.part 0)) (yes.rename c (a.part 1))
      (some (no.rename c (a.part 2)))
  | .whileStmt condition body =>
    .whileStmt (condition.rename c (a.part 0)) (body.rename c (a.part 1))
  | .breakStmt keyword => .breakStmt keyword
  | .returnStmt keyword none => .returnStmt keyword none
  | .returnStmt keyword (some value) => .returnStmt keyword (some (value.rename c (a.part 0)))
  | .funDecl name params body =>
    .funDecl (c.apply (a.declared name)) (params.map (c.apply ∘ a.enter.declared))
      (Stmt.renameAll c a.enter 0 body)

def Stmt.renameAll (c : Change) (a : Site) (i : Nat) : List (Stmt Binding) → List (Stmt Binding)
  | [] => []
  | s :: ss => s.rename c (a.part i) :: Stmt.renameAll c a (i + 1) ss

end

end ScriptLang
