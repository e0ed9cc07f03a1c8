import ScriptLang.Token

namespace ScriptLang

inductive Binding where
  | global
  /-- In the scope that many scopes out; the innermost scope is 0 out. -/
  | hops (distance : Nat)
deriving DecidableEq, Repr

namespace Scope

/-- The names of one scope, each with whether it is ready; the latest entry of a name counts. -/
abbrev Names := List (String × Bool)

abbrev Stack := List Names

inductive Fault where
  | redeclared
  | readInInitializer
  | assignedInInitializer
  | returnOutsideFunction
deriving DecidableEq

def Fault.message : Fault → String
  | .redeclared => "Already a variable with this name in this scope."
  | .readInInitializer => "Can't read local variable in its own initializer."
  | .assignedInInitializer => "Can't assign to local variable in its own initializer."
  | .returnOutsideFunction => "Can't return from top-level code."

structure Error where
  fault : Fault
  token : Token
deriving DecidableEq

/-- A declaration begins. A name that the scope already has stays as it is. -/
def declare (name : Token) : Stack → Stack × List Error
  | [] => ([], [])
  | scope :: outer =>
    match scope.lookup name.lexeme with
    | some _ => (scope :: outer, [⟨.redeclared, name⟩])
    | none => (((name.lexeme, false) :: scope) :: outer, [])

def define (name : Token) : Stack → Stack
  | [] => []
  | scope :: outer => ((name.lexeme, true) :: scope) :: outer

/-- Parameters are declared from left to right, each ready at once. -/
def declareParams : List Token → Stack → Stack × List Error
  | [], scopes => (scopes, [])
  | p :: ps, scopes =>
    let first := declare p scopes
    let others := declareParams ps (define p first.1)
    (others.1, first.2 ++ others.2)

def hasName (name : String) (scope : Names) : Bool :=
  (scope.lookup name).isSome

def isReady (name : String) (scope : Names) : Bool :=
  scope.lookup name = some true

def isPending (name : String) (scope : Names) : Bool :=
  scope.lookup name = some false

def nearest (name : String) (scopes : Stack) : Binding :=
  match scopes.findIdx? (hasName name) with
  | some distance => .hops distance
  | none => .global

/-- What a name means. Where it is pending in the innermost scope it means the nearest ready one
further out, and nothing if there is none. -/
def bindingOf? (name : String) : Stack → Option Binding
  | [] => some .global
  | scope :: outer =>
    if isPending name scope then
      (outer.findIdx? (isReady name)).map fun distance => .hops (distance + 1)
    else some (nearest name (scope :: outer))

def bindUse (fault : Fault) (name : Token) (scopes : Stack) : Binding × List Error :=
  match bindingOf? name.lexeme scopes with
  | some binding => (binding, [])
  | none => (.global, [⟨fault, name⟩])

def returnErrors (inFunction : Bool) (keyword : Token) : List Error :=
  if inFunction then [] else [⟨.returnOutsideFunction, keyword⟩]

end Scope
end ScriptLang
