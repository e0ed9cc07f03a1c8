import ScriptLang.Proofs.Grammar.Reading
import ScriptLang.Proofs.Lines.Moving

namespace ScriptLang

open Grammar

section Reading

open Syntax (forLoop)

variable {f : Nat → Nat}

namespace Grammar

def Phrase.moved (f : Nat → Nat) : Phrase → Phrase
  | .expression e => .expression (e.moved f)
  | .level l e => .level l (e.moved f)
  | .chain l left e => .chain l (left.moved f) (e.moved f)
  | .primary e => .primary (e.moved f)
  | .calls callee e => .calls (callee.moved f) (e.moved f)
  | .arguments es => .arguments (Expr.allMoved f es)
  | .parameters ps => .parameters (ps.map (Token.moved f))
  | .function params body => .function (params.map (Token.moved f)) (Stmt.allMoved f body)
  | .optional o => .optional (o.map (Expr.moved f))
  | .variable s => .variable (s.moved f)
  | .initial o => .initial (o.map (Stmt.moved f))
  | .statement inLoop dangling s => .statement inLoop dangling (s.moved f)
  | .declaration inLoop s => .declaration inLoop (s.moved f)
  | .declarations inLoop ss => .declarations inLoop (Stmt.allMoved f ss)

theorem node_moved (l : Level) (left right : Expr Unit) (operator : Token) :
    (l.node left operator right).moved f =
      l.node (left.moved f) (operator.moved f) (right.moved f) := by
  cases l <;> rfl

theorem forLoop_moved (initial : Option (Stmt Unit)) (condition increment : Option (Expr Unit))
    (body : Stmt Unit) :
    (forLoop initial condition increment body).moved f =
      forLoop (initial.map (Stmt.moved f)) (condition.map (Expr.moved f))
        (increment.map (Expr.moved f)) (body.moved f) := by
  cases initial <;> cases condition <;> cases increment <;> rfl

theorem Reads.moved (f : Nat → Nat) {p : Phrase} {ts : List Token} (h : Reads p ts) :
    Reads (p.moved f) (ts.map (Token.moved f)) := by
  induction h with
  | assign hn he _ ih => exact .assign hn he ih
  | plain _ ih => exact .plain ih
  | level hl _ _ ih ihc =>
    rw [List.map_append]
    exact .level hl ih ihc
  | chainEnd => exact .chainEnd
  | @chainStep l left right e operator _ _ ho _ _ ihr ihc =>
    rw [List.map_cons, List.map_append]
    rw [Phrase.moved, node_moved] at ihc
    exact .chainStep ho ihr ihc
  | unary ho _ ih => exact .unary ho ih
  | call _ _ ih ihc =>
    rw [List.map_append]
    exact .call ih ihc
  | callsEnd => exact .callsEnd
  | callsPlain hl hp _ ih => exact .callsPlain hl hp ih
  | @callsStep callee e args _ _ _ _ hl _ hn hp _ iha ihc =>
    rw [List.map_cons, List.map_append, List.map_cons]
    have hlength : (Expr.allMoved f args).length ≤ 255 := by
      rwa [Expr.allMoved_eq_map, List.length_map]
    exact .callsStep hl iha hlength hp ihc
  | lastArgument _ ih => exact .lastArgument ih
  | moreArguments _ hc _ ih ihs =>
    rw [List.map_append, List.map_cons]
    exact .moreArguments ih hc ihs
  | literal h => exact .literal h
  | ident h => exact .ident h
  | group hl _ hr ih =>
    rw [List.map_cons, List.map_append]
    exact .group hl ih hr
  | lambda hw _ ih => exact .lambda hw ih
  | lastParameter h => exact .lastParameter h
  | moreParameters h hc _ ih => exact .moreParameters h hc ih
  | functionPlain hl hr hb _ hc ih =>
    rw [List.map_cons, List.map_cons, List.map_cons, List.map_append]
    exact .functionPlain hl hr hb ih hc
  | @function params _ _ _ _ _ _ _ hl _ hn hr hb _ hc ihp ih =>
    rw [List.map_cons, List.map_append, List.map_cons, List.map_cons, List.map_append]
    have hlength : (params.map (Token.moved f)).length ≤ 255 := by rwa [List.length_map]
    exact .function hl ihp hlength hr hb ih hc
  | absent => exact .absent
  | present _ ih => exact .present ih
  | variablePlain hn hs => exact .variablePlain hn hs
  | variableInitial hn he _ hs ih =>
    rw [List.map_cons, List.map_cons, List.map_append]
    exact .variableInitial hn he ih hs
  | initialNone hs => exact .initialNone hs
  | initialVariable hw _ ih => exact .initialVariable hw ih
  | initialExpression _ hs ih =>
    rw [List.map_append]
    exact .initialExpression ih hs
  | exprStmt _ hs ih =>
    rw [List.map_append]
    exact .exprStmt ih hs
  | printStmt hw _ hs ih =>
    rw [List.map_cons, List.map_append]
    exact .printStmt hw ih hs
  | block hb _ hc ih =>
    rw [List.map_cons, List.map_append]
    exact .block hb ih hc
  | ifStmt hw hl _ hr _ ihc ihy =>
    rw [List.map_cons, List.map_cons, List.map_append, List.map_cons]
    exact .ifStmt hw hl ihc hr ihy
  | ifElse hw hl _ hr _ ho _ ihc ihy ihn =>
    rw [List.map_cons, List.map_cons, List.map_append, List.map_cons, List.map_append,
      List.map_cons]
    exact .ifElse hw hl ihc hr ihy ho ihn
  | whileStmt hw hl _ hr _ ihc ihb =>
    rw [List.map_cons, List.map_cons, List.map_append, List.map_cons]
    exact .whileStmt hw hl ihc hr ihb
  | forStmt hw hl _ _ hs _ hr _ ihi ihc ihn ihb =>
    rw [List.map_cons, List.map_cons, List.map_append, List.map_append, List.map_cons,
      List.map_append, List.map_cons, Phrase.moved, forLoop_moved]
    exact .forStmt hw hl ihi ihc hs ihn hr ihb
  | breakStmt hw hs => exact .breakStmt hw hs
  | @returnStmt _ _ _ value _ hw _ hs ih =>
    rw [List.map_cons, List.map_append]
    cases value with
    | none => exact .returnStmt hw ih hs
    | some e => exact .returnStmt hw ih hs
  | funDecl hw hn _ ih => exact .funDecl hw hn ih
  | varDecl hw _ ih => exact .varDecl hw ih
  | statement _ ih => exact .statement ih
  | declarationsEnd => exact .declarationsEnd
  | declarationsStep _ _ ih ihs =>
    rw [List.map_append]
    exact .declarationsStep ih ihs

/-- Statements and further statements are spelled one after the other. -/
theorem Reads.declarations_append {inLoop : Bool} {ss ss' : List (Stmt Unit)} {ts us : List Token}
    (h : Reads (.declarations inLoop ss) ts) (h' : Reads (.declarations inLoop ss') us) :
    Reads (.declarations inLoop (ss ++ ss')) (ts ++ us) := by
  generalize hp : Phrase.declarations inLoop ss = p at h
  induction h generalizing ss with
  | declarationsEnd =>
    cases hp
    exact h'
  | declarationsStep hs _ _ ih =>
    cases hp
    rw [List.append_assoc]
    exact .declarationsStep hs (ih rfl)
  | _ => cases hp

end Grammar

end Reading

end ScriptLang
