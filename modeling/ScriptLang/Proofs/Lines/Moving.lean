import ScriptLang.Proofs.Chronicle.Frames

namespace ScriptLang

variable {ρ : Type} (f g : Nat → Nat)

def Token.moved (t : Token) : Token :=
  { t with line := f t.line }

mutual

def Expr.moved : Expr ρ → Expr ρ
  | .literal value => .literal value
  | .group inner => .group inner.moved
  | .unary operator right => .unary (operator.moved f) right.moved
  | .binary left operator right => .binary left.moved (operator.moved f) right.moved
  | .logical left operator right => .logical left.moved (operator.moved f) right.moved
  | .ident binding name => .ident binding (name.moved f)
  | .assign binding name value => .assign binding (name.moved f) value.moved
  | .call callee paren arguments =>
    .call callee.moved (paren.moved f) (Expr.allMoved arguments)
  | .lambda params body => .lambda (params.map (Token.moved f)) (Stmt.allMoved body)

def Expr.allMoved : List (Expr ρ) → List (Expr ρ)
  | [] => []
  | e :: es => e.moved :: Expr.allMoved es

def Stmt.moved : Stmt ρ → Stmt ρ
  | .exprStmt e => .exprStmt e.moved
  | .printStmt e => .printStmt e.moved
  | .varDecl name none => .varDecl (name.moved f) none
  | .varDecl name (some initial) => .varDecl (name.moved f) (some initial.moved)
  | .block body => .block (Stmt.allMoved body)
  | .ifStmt condition yes none => .ifStmt condition.moved yes.moved none
  | .ifStmt condition yes (some no) => .ifStmt condition.moved yes.moved (some no.moved)
  | .whileStmt condition body => .whileStmt condition.moved body.moved
  | .breakStmt keyword => .breakStmt (keyword.moved f)
  | .returnStmt keyword none => .returnStmt (keyword.moved f) none
  | .returnStmt keyword (some value) => .returnStmt (keyword.moved f) (some value.moved)
  | .funDecl name params body =>
    .funDecl (name.moved f) (params.map (Token.moved f)) (Stmt.allMoved body)

def Stmt.allMoved : List (Stmt ρ) → List (Stmt ρ)
  | [] => []
  | s :: ss => s.moved :: Stmt.allMoved ss

end

def Closure.moved (c : Closure) : Closure :=
  { c with params := c.params.map (Token.moved f), body := Stmt.allMoved f c.body }

def Value.moved : Value → Value
  | .closure c => .closure (c.moved f)
  | v => v

def RuntimeFault.moved : RuntimeFault → RuntimeFault
  | .operandNotNumber v => .operandNotNumber (v.moved f)
  | .operandsNotNumbers v => .operandsNotNumbers (v.moved f)
  | .expectedString v => .expectedString (v.moved f)
  | .expectedNumber v => .expectedNumber (v.moved f)
  | .notAddable v => .notAddable (v.moved f)
  | .notCallable v => .notCallable (v.moved f)
  | fault => fault

def RuntimeError.moved (e : RuntimeError) : RuntimeError :=
  ⟨e.fault.moved f, f e.line⟩

def Stop.moved : Stop → Stop
  | .error e => .error (e.moved f)
  | stop => stop

def Store.map {α β : Type} (h : α → β) (s : Store α) : Store β :=
  ⟨s.frames.map fun frame =>
    { frame with bindings := frame.bindings.map fun b => (b.1, h b.2) }⟩

def Machine.moved (m : Machine) : Machine :=
  { m with store := m.store.map (Value.moved f) }

section Composition

variable {f g}

theorem Token.moved_id (t : Token) : t.moved id = t :=
  rfl

theorem Token.moved_moved (t : Token) : (t.moved f).moved g = t.moved (g ∘ f) :=
  rfl

theorem Token.map_moved_id (ts : List Token) : ts.map (Token.moved id) = ts :=
  List.map_id ts

theorem Token.map_moved_moved (ts : List Token) :
    (ts.map (Token.moved f)).map (Token.moved g) = ts.map (Token.moved (g ∘ f)) :=
  List.map_map

mutual

theorem Expr.moved_id (e : Expr ρ) : e.moved id = e := by
  cases e with
  | literal value => rfl
  | group inner => simp only [Expr.moved, inner.moved_id]
  | unary operator right => simp only [Expr.moved, operator.moved_id, right.moved_id]
  | binary left operator right =>
    simp only [Expr.moved, left.moved_id, operator.moved_id, right.moved_id]
  | logical left operator right =>
    simp only [Expr.moved, left.moved_id, operator.moved_id, right.moved_id]
  | ident binding name => rfl
  | assign binding name value => simp only [Expr.moved, name.moved_id, value.moved_id]
  | call callee paren arguments =>
    simp only [Expr.moved, callee.moved_id, paren.moved_id, Expr.allMoved_id arguments]
  | lambda params body => simp only [Expr.moved, Token.map_moved_id, Stmt.allMoved_id body]

theorem Expr.allMoved_id (es : List (Expr ρ)) : Expr.allMoved id es = es := by
  cases es with
  | nil => rfl
  | cons e es => simp only [Expr.allMoved, e.moved_id, Expr.allMoved_id es]

theorem Stmt.moved_id (s : Stmt ρ) : s.moved id = s := by
  cases s with
  | exprStmt e => simp only [Stmt.moved, e.moved_id]
  | printStmt e => simp only [Stmt.moved, e.moved_id]
  | varDecl name initial =>
    cases initial with
    | none => rfl
    | some e => simp only [Stmt.moved, name.moved_id, e.moved_id]
  | block body => simp only [Stmt.moved, Stmt.allMoved_id body]
  | ifStmt condition yes no =>
    cases no with
    | none => simp only [Stmt.moved, condition.moved_id, yes.moved_id]
    | some no => simp only [Stmt.moved, condition.moved_id, yes.moved_id, no.moved_id]
  | whileStmt condition body => simp only [Stmt.moved, condition.moved_id, body.moved_id]
  | breakStmt keyword => rfl
  | returnStmt keyword value =>
    cases value with
    | none => rfl
    | some e => simp only [Stmt.moved, keyword.moved_id, e.moved_id]
  | funDecl name params body =>
    simp only [Stmt.moved, name.moved_id, Token.map_moved_id, Stmt.allMoved_id body]

theorem Stmt.allMoved_id (ss : List (Stmt ρ)) : Stmt.allMoved id ss = ss := by
  cases ss with
  | nil => rfl
  | cons s ss => simp only [Stmt.allMoved, s.moved_id, Stmt.allMoved_id ss]

end

mutual

theorem Expr.moved_moved (e : Expr ρ) : (e.moved f).moved g = e.moved (g ∘ f) := by
  cases e with
  | literal value => rfl
  | group inner => simp only [Expr.moved, inner.moved_moved]
  | unary operator right => simp only [Expr.moved, operator.moved_moved, right.moved_moved]
  | binary left operator right =>
    simp only [Expr.moved, left.moved_moved, operator.moved_moved, right.moved_moved]
  | logical left operator right =>
    simp only [Expr.moved, left.moved_moved, operator.moved_moved, right.moved_moved]
  | ident binding name => rfl
  | assign binding name value => simp only [Expr.moved, name.moved_moved, value.moved_moved]
  | call callee paren arguments =>
    simp only [Expr.moved, callee.moved_moved, paren.moved_moved,
      Expr.allMoved_allMoved arguments]
  | lambda params body =>
    simp only [Expr.moved, Token.map_moved_moved, Stmt.allMoved_allMoved body]

theorem Expr.allMoved_allMoved (es : List (Expr ρ)) :
    Expr.allMoved g (Expr.allMoved f es) = Expr.allMoved (g ∘ f) es := by
  cases es with
  | nil => rfl
  | cons e es => simp only [Expr.allMoved, e.moved_moved, Expr.allMoved_allMoved es]

theorem Stmt.moved_moved (s : Stmt ρ) : (s.moved f).moved g = s.moved (g ∘ f) := by
  cases s with
  | exprStmt e => simp only [Stmt.moved, e.moved_moved]
  | printStmt e => simp only [Stmt.moved, e.moved_moved]
  | varDecl name initial =>
    cases initial with
    | none => rfl
    | some e => simp only [Stmt.moved, name.moved_moved, e.moved_moved]
  | block body => simp only [Stmt.moved, Stmt.allMoved_allMoved body]
  | ifStmt condition yes no =>
    cases no with
    | none => simp only [Stmt.moved, condition.moved_moved, yes.moved_moved]
    | some no => simp only [Stmt.moved, condition.moved_moved, yes.moved_moved, no.moved_moved]
  | whileStmt condition body => simp only [Stmt.moved, condition.moved_moved, body.moved_moved]
  | breakStmt keyword => rfl
  | returnStmt keyword value =>
    cases value with
    | none => rfl
    | some e => simp only [Stmt.moved, keyword.moved_moved, e.moved_moved]
  | funDecl name params body =>
    simp only [Stmt.moved, name.moved_moved, Token.map_moved_moved, Stmt.allMoved_allMoved body]

theorem Stmt.allMoved_allMoved (ss : List (Stmt ρ)) :
    Stmt.allMoved g (Stmt.allMoved f ss) = Stmt.allMoved (g ∘ f) ss := by
  cases ss with
  | nil => rfl
  | cons s ss => simp only [Stmt.allMoved, s.moved_moved, Stmt.allMoved_allMoved ss]

end

theorem Expr.allMoved_eq_map (es : List (Expr ρ)) : Expr.allMoved f es = es.map (Expr.moved f) := by
  induction es with
  | nil => rfl
  | cons e es ih => rw [Expr.allMoved, ih, List.map_cons]

theorem Value.moved_id : Value.moved id = id := by
  funext v
  cases v with
  | closure c =>
    simp only [Value.moved, Closure.moved, Token.map_moved_id, Stmt.allMoved_id]
    rfl
  | _ => rfl

theorem Value.moved_moved : Value.moved g ∘ Value.moved f = Value.moved (g ∘ f) := by
  funext v
  cases v with
  | closure c =>
    simp only [Function.comp_apply, Value.moved, Closure.moved, Token.map_moved_moved,
      Stmt.allMoved_allMoved]
  | _ => rfl

end Composition

section Storing

variable {α β γ : Type} {h : α → β}

theorem Store.map_id (s : Store α) : s.map id = s := by
  simp [Store.map]

theorem Store.map_map (h' : β → γ) (s : Store α) : (s.map h).map h' = s.map (h' ∘ h) := by
  simp [Store.map, Function.comp_def]

theorem Store.size_map (s : Store α) : (s.map h).size = s.size := by
  simp [Store.map, Store.size]

theorem Store.push_map (s : Store α) (parent : Option Nat) :
    (s.map h).push parent = (s.push parent).map h := by
  simp [Store.map, Store.push]

theorem Store.parent?_map (s : Store α) (frame : Nat) :
    (s.map h).parent? frame = s.parent? frame := by
  simp only [Store.map, Store.parent?, Array.getElem?_map]
  cases s.frames[frame]? <;> rfl

theorem Store.ancestor?_map (s : Store α) (frame distance : Nat) :
    (s.map h).ancestor? frame distance = s.ancestor? frame distance :=
  Store.ancestor?_congr s.parent?_map frame distance

theorem lookup_map_values (bs : List (String × α)) (x : String) :
    (bs.map fun b => (b.1, h b.2)).lookup x = (bs.lookup x).map h := by
  induction bs with
  | nil => rfl
  | cons b bs ih =>
    obtain ⟨y, v⟩ := b
    by_cases hx : x = y
    · simp [hx]
    · simp [List.lookup_cons, beq_eq_false_iff_ne.mpr hx, ih]

theorem Store.get?_map (s : Store α) (frame : Nat) (x : String) :
    (s.map h).get? frame x = (s.get? frame x).map h := by
  simp only [Store.map, Store.get?, Array.getElem?_map]
  cases s.frames[frame]? with
  | none => rfl
  | some fr => exact lookup_map_values fr.bindings x

theorem Frame.insert_map (x : String) (v : α) (bs : List (String × α)) :
    Frame.insert x (h v) (bs.map fun b => (b.1, h b.2)) =
      (Frame.insert x v bs).map fun b => (b.1, h b.2) := by
  induction bs with
  | nil => rfl
  | cons b bs ih =>
    obtain ⟨y, w⟩ := b
    by_cases hy : y = x
    · simp [Frame.insert, hy]
    · simp [Frame.insert, hy, ih]

theorem Store.define_map (s : Store α) (frame : Nat) (x : String) (v : α) :
    (s.map h).define frame x (h v) = (s.define frame x v).map h := by
  unfold Store.define Store.map
  congr 1
  apply Array.ext_getElem?
  intro i
  simp only [Array.getElem?_modify, Array.getElem?_map]
  by_cases hi : frame = i
  · cases s.frames[i]? with
    | none => simp [hi]
    | some fr => simp [hi, Frame.define, Frame.insert_map]
  · simp [hi]

theorem Store.assign_map (s : Store α) (frame : Nat) (x : String) (v : α) :
    (s.map h).assign frame x (h v) =
      ((s.assign frame x v).1, (s.assign frame x v).2.map h) := by
  unfold Store.assign
  rw [Store.get?_map, Option.isSome_map]
  by_cases hx : (s.get? frame x).isSome
  · simp [hx, Store.define_map]
  · simp [hx]

end Storing

theorem Machine.moved_id (m : Machine) : m.moved id = m := by
  rw [Machine.moved, Value.moved_id, Store.map_id]

theorem Machine.moved_moved (m : Machine) : (m.moved f).moved g = m.moved (g ∘ f) := by
  simp only [Machine.moved, Store.map_map, Value.moved_moved]

end ScriptLang
