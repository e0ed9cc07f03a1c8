import ScriptLang.Proofs.Lines.Moving
import ScriptLang.Proofs.Running.Hosts
import ScriptLang.Syntax.Reference

namespace ScriptLang

abbrev Linker := Binding → Binding

/-- Runs whose notes at variables are read by a linker when they are executed. -/
abbrev Linked := ReaderT Linker Run

namespace Linked

open Evaluation (Host Congruence executeProgramIn finish report)

instance : Host Linked where
  evaluating _ p := p
  executing _ p := p
  calling _ _ _ p := p
  readVariable note name link := Evaluation.readVariable (link note) name
  writeVariable note name v link := Evaluation.writeVariable (link note) name v
  defineVariable name v _ := Evaluation.defineVariable name v
  makeClosure name params body _ := Evaluation.makeClosure name params body
  printValue v _ := Evaluation.printValue v
  callNative line n vs _ := Evaluation.callNative line n vs
  inBlock p link := Evaluation.inBlock (p link)
  inBody line c bindings p link := Evaluation.inBody line c bindings (p link)

theorem report_apply (line : Nat) (result : Except RuntimeFault Value) (link : Linker) :
    (report line result : Linked Value) link = report line result := by
  cases result <;> rfl

def interpret (link : Linker) (fuel : Nat) (program : List (Stmt Binding)) : Run Unit :=
  finish (executeProgramIn Linked fuel program link)

theorem id_congruence : Congruence (M := Linked) (N := Run) fun _ p q => p id = q where
  pure _ := rfl
  throw _ := rfl
  bind := by
    rintro α β p q f g rfl hf
    change (p id >>= fun a => f a id) = _
    exact congrArg (p id >>= ·) (funext hf)
  evaluating _ h := h
  executing _ h := h
  readVariable _ _ := rfl
  writeVariable _ _ _ := rfl
  defineVariable _ _ := rfl
  makeClosure _ _ _ := rfl
  printValue _ := rfl
  callNative _ _ _ := rfl
  inBlock h := congrArg Evaluation.inBlock h
  inBody line c bindings h := congrArg (Evaluation.inBody line c bindings) h

theorem interpret_id : interpret id = Evaluation.interpret := by
  funext fuel program
  exact congrArg finish (id_congruence.executeProgramIn (fun _ _ _ _ h => h) fuel program)

end Linked

section Mapping

variable {ρ σ τ : Type}

mutual

theorem Expr.map_id (e : Expr ρ) : e.map id = e := by
  cases e with
  | literal value => rfl
  | group inner => simp only [Expr.map, inner.map_id]
  | unary operator right => simp only [Expr.map, right.map_id]
  | binary left operator right => simp only [Expr.map, left.map_id, right.map_id]
  | logical left operator right => simp only [Expr.map, left.map_id, right.map_id]
  | ident note name => rfl
  | assign note name value => simp only [Expr.map, value.map_id, id]
  | call callee paren arguments => simp only [Expr.map, callee.map_id, Expr.mapAll_id arguments]
  | lambda params body => simp only [Expr.map, Stmt.mapAll_id body]

theorem Expr.mapAll_id (es : List (Expr ρ)) : Expr.mapAll id es = es := by
  cases es with
  | nil => rfl
  | cons e es => simp only [Expr.mapAll, e.map_id, Expr.mapAll_id es]

theorem Stmt.map_id (s : Stmt ρ) : s.map id = s := by
  cases s with
  | exprStmt e => simp only [Stmt.map, e.map_id]
  | printStmt e => simp only [Stmt.map, e.map_id]
  | varDecl name initial =>
    cases initial with
    | none => rfl
    | some e => simp only [Stmt.map, e.map_id]
  | block body => simp only [Stmt.map, Stmt.mapAll_id body]
  | ifStmt condition yes no =>
    cases no with
    | none => simp only [Stmt.map, condition.map_id, yes.map_id]
    | some no => simp only [Stmt.map, condition.map_id, yes.map_id, no.map_id]
  | whileStmt condition body => simp only [Stmt.map, condition.map_id, body.map_id]
  | breakStmt keyword => rfl
  | returnStmt keyword value =>
    cases value with
    | none => rfl
    | some e => simp only [Stmt.map, e.map_id]
  | funDecl name params body => simp only [Stmt.map, Stmt.mapAll_id body]

theorem Stmt.mapAll_id (ss : List (Stmt ρ)) : Stmt.mapAll id ss = ss := by
  cases ss with
  | nil => rfl
  | cons s ss => simp only [Stmt.mapAll, s.map_id, Stmt.mapAll_id ss]

end

variable {f : ρ → σ} {g : σ → τ}

mutual

theorem Expr.map_map (e : Expr ρ) : (e.map f).map g = e.map (g ∘ f) := by
  cases e with
  | literal value => rfl
  | group inner => simp only [Expr.map, inner.map_map]
  | unary operator right => simp only [Expr.map, right.map_map]
  | binary left operator right => simp only [Expr.map, left.map_map, right.map_map]
  | logical left operator right => simp only [Expr.map, left.map_map, right.map_map]
  | ident note name => rfl
  | assign note name value => simp only [Expr.map, value.map_map, Function.comp_apply]
  | call callee paren arguments =>
    simp only [Expr.map, callee.map_map, Expr.mapAll_mapAll arguments]
  | lambda params body => simp only [Expr.map, Stmt.mapAll_mapAll body]

theorem Expr.mapAll_mapAll (es : List (Expr ρ)) :
    Expr.mapAll g (Expr.mapAll f es) = Expr.mapAll (g ∘ f) es := by
  cases es with
  | nil => rfl
  | cons e es => simp only [Expr.mapAll, e.map_map, Expr.mapAll_mapAll es]

theorem Stmt.map_map (s : Stmt ρ) : (s.map f).map g = s.map (g ∘ f) := by
  cases s with
  | exprStmt e => simp only [Stmt.map, e.map_map]
  | printStmt e => simp only [Stmt.map, e.map_map]
  | varDecl name initial =>
    cases initial with
    | none => rfl
    | some e => simp only [Stmt.map, e.map_map]
  | block body => simp only [Stmt.map, Stmt.mapAll_mapAll body]
  | ifStmt condition yes no =>
    cases no with
    | none => simp only [Stmt.map, condition.map_map, yes.map_map]
    | some no => simp only [Stmt.map, condition.map_map, yes.map_map, no.map_map]
  | whileStmt condition body => simp only [Stmt.map, condition.map_map, body.map_map]
  | breakStmt keyword => rfl
  | returnStmt keyword value =>
    cases value with
    | none => rfl
    | some e => simp only [Stmt.map, e.map_map]
  | funDecl name params body => simp only [Stmt.map, Stmt.mapAll_mapAll body]

theorem Stmt.mapAll_mapAll (ss : List (Stmt ρ)) :
    Stmt.mapAll g (Stmt.mapAll f ss) = Stmt.mapAll (g ∘ f) ss := by
  cases ss with
  | nil => rfl
  | cons s ss => simp only [Stmt.mapAll, s.map_map, Stmt.mapAll_mapAll ss]

end

end Mapping

structure Recoding where
  line : Nat → Nat
  note : Binding → Binding

def Recoding.moving (f : Nat → Nat) : Recoding :=
  ⟨f, id⟩

def Recoding.linking (k : Binding → Binding) : Recoding :=
  ⟨id, k⟩

section Recoded

variable (c : Recoding)

def Expr.recoded (e : Expr Binding) : Expr Binding :=
  (e.map c.note).moved c.line

def Expr.allRecoded (es : List (Expr Binding)) : List (Expr Binding) :=
  Expr.allMoved c.line (Expr.mapAll c.note es)

def Stmt.recoded (s : Stmt Binding) : Stmt Binding :=
  (s.map c.note).moved c.line

def Stmt.allRecoded (ss : List (Stmt Binding)) : List (Stmt Binding) :=
  Stmt.allMoved c.line (Stmt.mapAll c.note ss)

def Closure.recoded (f : Closure) : Closure :=
  { f with params := f.params.map (Token.moved c.line), body := Stmt.allRecoded c f.body }

def Value.recoded : Value → Value
  | .closure f => .closure (f.recoded c)
  | v => v

def RuntimeFault.recoded : RuntimeFault → RuntimeFault
  | .operandNotNumber v => .operandNotNumber (v.recoded c)
  | .operandsNotNumbers v => .operandsNotNumbers (v.recoded c)
  | .expectedString v => .expectedString (v.recoded c)
  | .expectedNumber v => .expectedNumber (v.recoded c)
  | .notAddable v => .notAddable (v.recoded c)
  | .notCallable v => .notCallable (v.recoded c)
  | fault => fault

def RuntimeError.recoded (e : RuntimeError) : RuntimeError :=
  ⟨e.fault.recoded c, c.line e.line⟩

def Stop.recoded : Stop → Stop
  | .error e => .error (e.recoded c)
  | stop => stop

def Flow.recoded : Flow → Flow
  | .returned v => .returned (v.recoded c)
  | flow => flow

def Machine.recoded (m : Machine) : Machine :=
  { m with store := m.store.map (Value.recoded c) }

end Recoded

section Moving

variable {f : Nat → Nat}

theorem Stmt.allRecoded_moving (ss : List (Stmt Binding)) :
    Stmt.allRecoded (.moving f) ss = Stmt.allMoved f ss :=
  congrArg (Stmt.allMoved f) (Stmt.mapAll_id ss)

theorem Value.recoded_moving : Value.recoded (.moving f) = Value.moved f := by
  funext v
  cases v with
  | closure c =>
    exact congrArg (fun body => Value.closure { c with params := _, body := body })
      (Stmt.allRecoded_moving c.body)
  | _ => rfl

theorem RuntimeFault.recoded_moving (fault : RuntimeFault) :
    fault.recoded (.moving f) = fault.moved f := by
  cases fault <;> simp only [RuntimeFault.recoded, RuntimeFault.moved, Value.recoded_moving]

theorem Stop.recoded_moving (stop : Stop) : stop.recoded (.moving f) = stop.moved f := by
  cases stop with
  | error e =>
    exact congrArg (fun fault => Stop.error ⟨fault, f e.line⟩) e.fault.recoded_moving
  | _ => rfl

theorem Machine.recoded_moving (m : Machine) : m.recoded (.moving f) = m.moved f := by
  rw [Machine.recoded, Value.recoded_moving, Machine.moved]

end Moving

section Linking

variable {k k' : Binding → Binding}

theorem Stmt.allRecoded_linking (ss : List (Stmt Binding)) :
    Stmt.allRecoded (.linking k) ss = Stmt.mapAll k ss :=
  Stmt.allMoved_id _

theorem Value.recoded_linking_linking :
    Value.recoded (.linking k') ∘ Value.recoded (.linking k) =
      Value.recoded (.linking (k' ∘ k)) := by
  funext v
  cases v with
  | closure c =>
    simp only [Function.comp_apply, Value.recoded, Closure.recoded, Stmt.allRecoded_linking,
      Stmt.mapAll_mapAll]
    simp only [Recoding.linking, Token.map_moved_id]
  | _ => rfl

theorem Machine.recoded_linking_linking (k k' : Binding → Binding) (m : Machine) :
    (m.recoded (.linking k)).recoded (.linking k') = m.recoded (.linking (k' ∘ k)) := by
  simp only [Machine.recoded, Store.map_map, Value.recoded_linking_linking]

end Linking

end ScriptLang
