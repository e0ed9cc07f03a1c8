import ScriptLang.Machine

namespace ScriptLang

def Stmt.declared? {ρ : Type} : Stmt ρ → Option Token
  | .varDecl name _ => some name
  | .funDecl name _ _ => some name
  | _ => none

namespace Chronicle

/-- A part of a program. -/
inductive Node where
  | expr (e : Expr Binding)
  | stmt (s : Stmt Binding)

namespace Node

def children : Node → List Node
  | .expr (.literal _) => []
  | .expr (.group inner) => [.expr inner]
  | .expr (.unary _ right) => [.expr right]
  | .expr (.binary left _ right) => [.expr left, .expr right]
  | .expr (.logical left _ right) => [.expr left, .expr right]
  | .expr (.ident _ _) => []
  | .expr (.assign _ _ value) => [.expr value]
  | .expr (.call callee _ arguments) => .expr callee :: arguments.map .expr
  | .expr (.lambda _ body) => body.map .stmt
  | .stmt (.exprStmt e) => [.expr e]
  | .stmt (.printStmt e) => [.expr e]
  | .stmt (.varDecl _ initial) => initial.toList.map .expr
  | .stmt (.block body) => body.map .stmt
  | .stmt (.ifStmt condition yes no) => .expr condition :: .stmt yes :: no.toList.map .stmt
  | .stmt (.whileStmt condition body) => [.expr condition, .stmt body]
  | .stmt (.breakStmt _) => []
  | .stmt (.returnStmt _ value) => value.toList.map .expr
  | .stmt (.funDecl _ _ body) => body.map .stmt

/-- The parameters and the body of a node that opens a scope: of a block or a function. -/
def scope? : Node → Option (List Token × List (Stmt Binding))
  | .expr (.lambda params body) => some (params, body)
  | .stmt (.block body) => some ([], body)
  | .stmt (.funDecl _ params body) => some (params, body)
  | _ => none

def opensScope (n : Node) : Bool :=
  n.scope?.isSome

/-- The names declared in the scope that a node opens, not counting scopes further in. -/
def declares (n : Node) : List String :=
  match n.scope? with
  | some (params, body) =>
    params.map Token.lexeme ++ (body.filterMap Stmt.declared?).map Token.lexeme
  | none => []

/-- The binding and the name of a read or an assignment of a variable. -/
def use? : Node → Option (Binding × Token)
  | .expr (.ident binding name) => some (binding, name)
  | .expr (.assign binding name _) => some (binding, name)
  | _ => none

def isLambda : Node → Bool
  | .expr (.lambda _ _) => true
  | _ => false

end Node

/-- Whether these nodes, innermost first, are all the nodes around a node of a program. -/
def Nested (program : List (Stmt Binding)) : List Node → Node → Prop
  | [], n => n ∈ program.map Node.stmt
  | outer :: around, n => n ∈ outer.children ∧ Nested program around outer

def scopes (around : List Node) : List Node :=
  around.filter Node.opensScope

/-- Where a run stands. -/
structure Place where
  program : List (Stmt Binding)
  around : List Node
  frames : List Nat

namespace Place

def within (place : Place) (n : Node) : Place :=
  { place with around := n :: place.around }

def inScope (place : Place) (n : Node) (frame : Nat) : Place :=
  ⟨place.program, n :: place.around, frame :: place.frames⟩

/-- The innermost node around, and the place where that stands. Around all is the program. -/
def here : Place → Node × Place
  | ⟨program, [], frames⟩ => (.stmt (.block program), ⟨program, [], frames⟩)
  | ⟨program, n :: around, frames⟩ => (n, ⟨program, around, frames⟩)

end Place

inductive Event where
  /-- A read or an assignment of a variable is about to be evaluated. An assignment is noted again
  right before the variable is written, when its value is there. -/
  | used (place : Place) (n : Node) (m : Machine)
  /-- A frame is made for the scope of a block or of a call. The place is that of the block, or the
  one the called function was made at. -/
  | opened (frame : Nat) (n : Node) (place : Place)
  /-- A declaration or a parameter binds a name. -/
  | defined (frame : Nat) (name : String)
  | completed (frame : Nat) (n : Node)
  | made (id : Nat) (n : Node) (place : Place)

namespace Event

def definition? : Event → Option (Nat × String)
  | .defined frame name => some (frame, name)
  | _ => none

def frame? : Event → Option Nat
  | .opened frame _ _ => some frame
  | _ => none

def origin? (id : Nat) : Event → Option (Node × Place)
  | .made i n place => if i = id then some (n, place) else none
  | _ => none

end Event

def definitions (events : List Event) : List (Nat × String) :=
  events.filterMap Event.definition?

def openings (events : List Event) : List Nat :=
  events.filterMap Event.frame?

def origin? (events : List Event) (id : Nat) : Option (Node × Place) :=
  events.findSome? (Event.origin? id)

structure Memory where
  events : List Event
  store : Store Value
  globals : Nat
  nextId : Nat

end Chronicle
end ScriptLang
