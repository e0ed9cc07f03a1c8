import ScriptLang.Proofs.Grammar.Rules
import ScriptLang.Syntax.Statement

namespace ScriptLang.Grammar

inductive Level where
  | disjunction
  | conjunction
  | equality
  | comparison
  | term
  | factor
  | unary
deriving DecidableEq

namespace Level

def next : Level → Level
  | disjunction => conjunction
  | conjunction => equality
  | equality => comparison
  | comparison => term
  | term => factor
  | factor => unary
  | unary => unary

/-- The operators between operands of a level. Prefix operators are no operators of this kind. -/
def operators : Level → List Kind
  | disjunction => [.orWord]
  | conjunction => [.andWord]
  | equality => [.bangEqual, .equalEqual]
  | comparison => [.greater, .greaterEqual, .less, .lessEqual]
  | term => [.minus, .plus]
  | factor => [.star, .slash]
  | unary => []

def node : Level → Syntax.Node Unit
  | disjunction => .logical
  | conjunction => .logical
  | _ => .binary

def name : Level → Name
  | disjunction => .logicOr
  | conjunction => .logicAnd
  | equality => .equality
  | comparison => .comparison
  | term => .term
  | factor => .factor
  | unary => .unary

theorem rules_name (l : Level) (h : l ≠ .unary) : rules l.name =
    .rule l.next.name ++ .many (oneOf l.operators ++ .rule l.next.name) := by
  cases l with
  | unary => exact absurd rfl h
  | _ => rfl

end Level

def literal? : Kind → Option Literal
  | .falseWord => some (.boolean false)
  | .trueWord => some (.boolean true)
  | .nilWord => some .nil
  | .number x => some (.number x)
  | .string s => some (.string s)
  | _ => none

inductive Phrase where
  | expression (e : Expr Unit)
  | level (l : Level) (e : Expr Unit)
  /-- Operators and operands that make `e` of what stands left of them. -/
  | chain (l : Level) (left e : Expr Unit)
  | primary (e : Expr Unit)
  /-- Argument lists that make `e` of what is called. -/
  | calls (callee e : Expr Unit)
  | arguments (es : List (Expr Unit))
  | parameters (ps : List Token)
  | function (params : List Token) (body : List (Stmt Unit))
  | optional (e : Option (Expr Unit))
  /-- A variable declaration without its first word. -/
  | variable (s : Stmt Unit)
  | initial (s : Option (Stmt Unit))
  /-- A statement. A dangling one ends in an `if` that an `else` could still follow. -/
  | statement (inLoop dangling : Bool) (s : Stmt Unit)
  | declaration (inLoop : Bool) (s : Stmt Unit)
  | declarations (inLoop : Bool) (ss : List (Stmt Unit))

open Syntax (forLoop)

/-- The tokens that spell a phrase. -/
inductive Reads : Phrase → List Token → Prop where
  | assign {name equal : Token} {value : Expr Unit} {ts : List Token}
      (hn : name.kind = .identifier) (he : equal.kind = .equal)
      (hv : Reads (.expression value) ts) :
      Reads (.expression (.assign () name value)) (name :: equal :: ts)
  | plain {e : Expr Unit} {ts : List Token} (h : Reads (.level .disjunction e) ts) :
      Reads (.expression e) ts
  | level {l : Level} {left e : Expr Unit} {ts us : List Token} (hl : l ≠ .unary)
      (h : Reads (.level l.next left) ts) (hc : Reads (.chain l left e) us) :
      Reads (.level l e) (ts ++ us)
  | chainEnd {l : Level} {e : Expr Unit} : Reads (.chain l e e) []
  | chainStep {l : Level} {left right e : Expr Unit} {operator : Token} {ts us : List Token}
      (ho : operator.kind ∈ l.operators) (hr : Reads (.level l.next right) ts)
      (hc : Reads (.chain l (l.node left operator right) e) us) :
      Reads (.chain l left e) (operator :: (ts ++ us))
  | unary {operator : Token} {right : Expr Unit} {ts : List Token}
      (ho : operator.kind ∈ [Kind.bang, .minus]) (hr : Reads (.level .unary right) ts) :
      Reads (.level .unary (.unary operator right)) (operator :: ts)
  | call {callee e : Expr Unit} {ts us : List Token} (h : Reads (.primary callee) ts)
      (hc : Reads (.calls callee e) us) : Reads (.level .unary e) (ts ++ us)
  | callsEnd {e : Expr Unit} : Reads (.calls e e) []
  | callsPlain {callee e : Expr Unit} {left paren : Token} {us : List Token}
      (hl : left.kind = .leftParen) (hp : paren.kind = .rightParen)
      (hc : Reads (.calls (.call callee paren []) e) us) :
      Reads (.calls callee e) (left :: paren :: us)
  | callsStep {callee e : Expr Unit} {args : List (Expr Unit)} {left paren : Token}
      {ts us : List Token} (hl : left.kind = .leftParen) (ha : Reads (.arguments args) ts)
      (hn : args.length ≤ 255) (hp : paren.kind = .rightParen)
      (hc : Reads (.calls (.call callee paren args) e) us) :
      Reads (.calls callee e) (left :: (ts ++ paren :: us))
  | lastArgument {e : Expr Unit} {ts : List Token} (h : Reads (.expression e) ts) :
      Reads (.arguments [e]) ts
  | moreArguments {e : Expr Unit} {es : List (Expr Unit)} {comma : Token} {ts us : List Token}
      (h : Reads (.expression e) ts) (hc : comma.kind = .comma) (hs : Reads (.arguments es) us) :
      Reads (.arguments (e :: es)) (ts ++ comma :: us)
  | literal {v : Literal} {t : Token} (h : literal? t.kind = some v) :
      Reads (.primary (.literal v)) [t]
  | ident {name : Token} (h : name.kind = .identifier) : Reads (.primary (.ident () name)) [name]
  | group {e : Expr Unit} {left right : Token} {ts : List Token} (hl : left.kind = .leftParen)
      (h : Reads (.expression e) ts) (hr : right.kind = .rightParen) :
      Reads (.primary (.group e)) (left :: (ts ++ [right]))
  | lambda {params : List Token} {body : List (Stmt Unit)} {word : Token} {ts : List Token}
      (hw : word.kind = .funWord) (h : Reads (.function params body) ts) :
      Reads (.primary (.lambda params body)) (word :: ts)
  | lastParameter {p : Token} (h : p.kind = .identifier) : Reads (.parameters [p]) [p]
  | moreParameters {p comma : Token} {ps : List Token} {ts : List Token}
      (h : p.kind = .identifier) (hc : comma.kind = .comma) (hs : Reads (.parameters ps) ts) :
      Reads (.parameters (p :: ps)) (p :: comma :: ts)
  | functionPlain {body : List (Stmt Unit)} {left right brace close : Token} {us : List Token}
      (hl : left.kind = .leftParen) (hr : right.kind = .rightParen)
      (hb : brace.kind = .leftBrace) (h : Reads (.declarations false body) us)
      (hc : close.kind = .rightBrace) :
      Reads (.function [] body) (left :: right :: brace :: (us ++ [close]))
  | function {params : List Token} {body : List (Stmt Unit)} {left right brace close : Token}
      {ts us : List Token} (hl : left.kind = .leftParen) (hp : Reads (.parameters params) ts)
      (hn : params.length ≤ 255) (hr : right.kind = .rightParen) (hb : brace.kind = .leftBrace)
      (h : Reads (.declarations false body) us) (hc : close.kind = .rightBrace) :
      Reads (.function params body) (left :: (ts ++ right :: brace :: (us ++ [close])))
  | absent : Reads (.optional none) []
  | present {e : Expr Unit} {ts : List Token} (h : Reads (.expression e) ts) :
      Reads (.optional (some e)) ts
  | variablePlain {name semi : Token} (hn : name.kind = .identifier)
      (hs : semi.kind = .semicolon) : Reads (.variable (.varDecl name none)) [name, semi]
  | variableInitial {name equal semi : Token} {e : Expr Unit} {ts : List Token}
      (hn : name.kind = .identifier) (he : equal.kind = .equal) (h : Reads (.expression e) ts)
      (hs : semi.kind = .semicolon) :
      Reads (.variable (.varDecl name (some e))) (name :: equal :: (ts ++ [semi]))
  | initialNone {semi : Token} (hs : semi.kind = .semicolon) : Reads (.initial none) [semi]
  | initialVariable {word : Token} {s : Stmt Unit} {ts : List Token} (hw : word.kind = .varWord)
      (h : Reads (.variable s) ts) : Reads (.initial (some s)) (word :: ts)
  | initialExpression {semi : Token} {e : Expr Unit} {ts : List Token}
      (h : Reads (.expression e) ts) (hs : semi.kind = .semicolon) :
      Reads (.initial (some (.exprStmt e))) (ts ++ [semi])
  | exprStmt {inLoop : Bool} {semi : Token} {e : Expr Unit} {ts : List Token}
      (h : Reads (.expression e) ts) (hs : semi.kind = .semicolon) :
      Reads (.statement inLoop false (.exprStmt e)) (ts ++ [semi])
  | printStmt {inLoop : Bool} {word semi : Token} {e : Expr Unit} {ts : List Token}
      (hw : word.kind = .printWord) (h : Reads (.expression e) ts) (hs : semi.kind = .semicolon) :
      Reads (.statement inLoop false (.printStmt e)) (word :: (ts ++ [semi]))
  | block {inLoop : Bool} {brace close : Token} {ss : List (Stmt Unit)} {ts : List Token}
      (hb : brace.kind = .leftBrace) (h : Reads (.declarations inLoop ss) ts)
      (hc : close.kind = .rightBrace) :
      Reads (.statement inLoop false (.block ss)) (brace :: (ts ++ [close]))
  | ifStmt {inLoop dangling : Bool} {word left right : Token} {condition : Expr Unit}
      {yes : Stmt Unit} {ts us : List Token} (hw : word.kind = .ifWord)
      (hl : left.kind = .leftParen) (hc : Reads (.expression condition) ts)
      (hr : right.kind = .rightParen) (hy : Reads (.statement inLoop dangling yes) us) :
      Reads (.statement inLoop true (.ifStmt condition yes none))
        (word :: left :: (ts ++ right :: us))
  | ifElse {inLoop dangling : Bool} {word left right other : Token} {condition : Expr Unit}
      {yes no : Stmt Unit} {ts us vs : List Token} (hw : word.kind = .ifWord)
      (hl : left.kind = .leftParen) (hc : Reads (.expression condition) ts)
      (hr : right.kind = .rightParen) (hy : Reads (.statement inLoop false yes) us)
      (ho : other.kind = .elseWord) (hn : Reads (.statement inLoop dangling no) vs) :
      Reads (.statement inLoop dangling (.ifStmt condition yes (some no)))
        (word :: left :: (ts ++ right :: (us ++ other :: vs)))
  | whileStmt {inLoop dangling : Bool} {word left right : Token} {condition : Expr Unit}
      {body : Stmt Unit} {ts us : List Token} (hw : word.kind = .whileWord)
      (hl : left.kind = .leftParen) (hc : Reads (.expression condition) ts)
      (hr : right.kind = .rightParen) (hb : Reads (.statement true dangling body) us) :
      Reads (.statement inLoop dangling (.whileStmt condition body))
        (word :: left :: (ts ++ right :: us))
  | forStmt {inLoop dangling : Bool} {word left semi right : Token}
      {initial : Option (Stmt Unit)} {condition increment : Option (Expr Unit)}
      {body : Stmt Unit} {ts us vs ws : List Token} (hw : word.kind = .forWord)
      (hl : left.kind = .leftParen) (hi : Reads (.initial initial) ts)
      (hc : Reads (.optional condition) us) (hs : semi.kind = .semicolon)
      (hn : Reads (.optional increment) vs) (hr : right.kind = .rightParen)
      (hb : Reads (.statement true dangling body) ws) :
      Reads (.statement inLoop dangling (forLoop initial condition increment body))
        (word :: left :: (ts ++ (us ++ semi :: (vs ++ right :: ws))))
  | breakStmt {word semi : Token} (hw : word.kind = .breakWord) (hs : semi.kind = .semicolon) :
      Reads (.statement true false (.breakStmt word)) [word, semi]
  | returnStmt {inLoop : Bool} {word semi : Token} {value : Option (Expr Unit)} {ts : List Token}
      (hw : word.kind = .returnWord) (h : Reads (.optional value) ts)
      (hs : semi.kind = .semicolon) :
      Reads (.statement inLoop false (.returnStmt word value)) (word :: (ts ++ [semi]))
  | funDecl {inLoop : Bool} {word name : Token} {params : List Token} {body : List (Stmt Unit)}
      {ts : List Token} (hw : word.kind = .funWord) (hn : name.kind = .identifier)
      (h : Reads (.function params body) ts) :
      Reads (.declaration inLoop (.funDecl name params body)) (word :: name :: ts)
  | varDecl {inLoop : Bool} {word : Token} {s : Stmt Unit} {ts : List Token}
      (hw : word.kind = .varWord) (h : Reads (.variable s) ts) :
      Reads (.declaration inLoop s) (word :: ts)
  | statement {inLoop dangling : Bool} {s : Stmt Unit} {ts : List Token}
      (h : Reads (.statement inLoop dangling s) ts) : Reads (.declaration inLoop s) ts
  | declarationsEnd {inLoop : Bool} : Reads (.declarations inLoop []) []
  | declarationsStep {inLoop : Bool} {s : Stmt Unit} {ss : List (Stmt Unit)}
      {ts us : List Token} (h : Reads (.declaration inLoop s) ts)
      (hs : Reads (.declarations inLoop ss) us) :
      Reads (.declarations inLoop (s :: ss)) (ts ++ us)

section Separation

inductive Separated {α : Type} (R : List Token → α → Prop) : List Token → List α → Prop where
  | last {ts : List Token} {a : α} (h : R ts a) : Separated R ts [a]
  | more {ts us : List Token} {comma : Token} {a : α} {as : List α} (h : R ts a)
      (hc : comma.kind = .comma) (hs : Separated R us as) :
      Separated R (ts ++ comma :: us) (a :: as)

variable {ts : List Token}

theorem Separated.length_le {α : Type} {R : List Token → α → Prop} {as : List α}
    (h : Separated R ts as) : as.length ≤ ts.length + 1 := by
  induction h with
  | last => simp
  | more _ _ _ ih =>
    simp only [List.length_cons, List.length_append]
    omega

theorem reads_parameters {ps : List Token} :
    Reads (.parameters ps) ts ↔ Separated (fun ts p => ts = [p] ∧ p.kind = .identifier) ts ps := by
  constructor
  · intro h
    generalize hp : Phrase.parameters ps = p at h
    induction h generalizing ps with
    | lastParameter h =>
      cases hp
      exact .last ⟨rfl, h⟩
    | moreParameters h hc _ ih =>
      cases hp
      exact .more ⟨rfl, h⟩ hc (ih rfl)
    | _ => cases hp
  · intro h
    induction h with
    | last h =>
      obtain ⟨rfl, hp⟩ := h
      exact .lastParameter hp
    | more h hc _ ih =>
      obtain ⟨rfl, hp⟩ := h
      exact .moreParameters hp hc ih

theorem reads_arguments {es : List (Expr Unit)} :
    Reads (.arguments es) ts ↔ Separated (fun ts e => Reads (.expression e) ts) ts es := by
  constructor
  · intro h
    generalize hp : Phrase.arguments es = p at h
    induction h generalizing es with
    | lastArgument h =>
      cases hp
      exact .last h
    | moreArguments h hc _ _ ih =>
      cases hp
      exact .more h hc (ih rfl)
    | _ => cases hp
  · intro h
    induction h with
    | last h => exact .lastArgument h
    | more h hc _ ih => exact .moreArguments h hc ih

end Separation

section Inversion

variable {l : Level} {left callee e : Expr Unit} {ts : List Token}

theorem chain_cases (h : Reads (.chain l left e) ts) :
    ts = [] ∧ e = left ∨ ∃ a operator b, e = l.node a operator b := by
  generalize hp : Phrase.chain l left e = p at h
  induction h generalizing left with
  | chainEnd =>
    cases hp
    exact .inl ⟨rfl, rfl⟩
  | chainStep _ _ _ _ ih =>
    cases hp
    obtain ⟨_, he⟩ | hn := ih rfl
    · exact .inr ⟨_, _, _, he⟩
    · exact .inr hn
  | _ => cases hp

theorem calls_cases (h : Reads (.calls callee e) ts) :
    ts = [] ∧ e = callee ∨ ∃ f paren args, e = .call f paren args := by
  generalize hp : Phrase.calls callee e = p at h
  induction h generalizing callee with
  | callsEnd =>
    cases hp
    exact .inl ⟨rfl, rfl⟩
  | callsPlain _ _ _ ih | callsStep _ _ _ _ _ _ ih =>
    cases hp
    obtain ⟨_, he⟩ | hn := ih rfl
    · exact .inr ⟨_, _, _, he⟩
    · exact .inr hn
  | _ => cases hp

theorem node_ne_ident (l : Level) (a b : Expr Unit) (operator name : Token) (u : Unit) :
    l.node a operator b ≠ .ident u name := by
  intro h
  cases l <;> cases h

theorem reads_level_of_next (hl : l ≠ .unary) (h : Reads (.level l.next e) ts) :
    Reads (.level l e) ts := by
  simpa using Reads.level hl h .chainEnd

theorem reads_level_of_primary (h : Reads (.primary e) ts) : Reads (.level .disjunction e) ts := by
  have hu : Reads (.level .unary e) ts := by simpa using Reads.call h .callsEnd
  have hf : Reads (.level .factor e) ts := reads_level_of_next (by decide) hu
  have ht : Reads (.level .term e) ts := reads_level_of_next (by decide) hf
  have hc : Reads (.level .comparison e) ts := reads_level_of_next (by decide) ht
  have he : Reads (.level .equality e) ts := reads_level_of_next (by decide) hc
  have ha : Reads (.level .conjunction e) ts := reads_level_of_next (by decide) he
  exact reads_level_of_next (by decide) ha

theorem reads_ident {name : Token} {u : Unit} (h : Reads (.level l (.ident u name)) ts) :
    ts = [name] ∧ name.kind = .identifier := by
  generalize hp : Phrase.level l (.ident u name) = p at h
  induction h generalizing l with
  | level hl _ hc ih _ =>
    cases hp
    obtain ⟨rfl, rfl⟩ | ⟨a, operator, b, he⟩ := chain_cases hc
    · simpa using ih rfl
    · exact absurd he.symm (node_ne_ident _ _ _ _ _ _)
  | call hq hc =>
    cases hp
    obtain ⟨rfl, rfl⟩ | ⟨f, paren, args, he⟩ := calls_cases hc
    · cases hq with
      | ident hn => exact ⟨rfl, hn⟩
    · cases he
  | unary => cases hp
  | _ => cases hp

end Inversion

end ScriptLang.Grammar
