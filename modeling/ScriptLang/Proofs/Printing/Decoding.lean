import ScriptLang.Proofs.Grammar.Shape
import ScriptLang.Proofs.Printing.Words

namespace ScriptLang

namespace Bracketed

def tokens? : List Bracketed → Option (List Token)
  | [] => some []
  | .word w :: bs => do
    let t ← token? w
    let ts ← tokens? bs
    some (t :: ts)
  | _ => none

def leaf? (t : Token) : Option (Expr Unit) :=
  if t.kind = .identifier then some (.ident () t)
  else (Grammar.literal? t.kind).map .literal

def operation (t : Token) (left right : Expr Unit) : Expr Unit :=
  if t.kind = .orWord ∨ t.kind = .andWord then .logical left t right else .binary left t right

def exprHeads : List String := ["group", "call", "=", "fun"]

def stmtHeads : List String :=
  ["block", ";", "print", "var", "if", "while", "break", "return", "fun"]

mutual

def expr? : Bracketed → Option (Expr Unit)
  | .word w => (token? w).bind leaf?
  | .list [.word "group", inner] => inner.expr?.map .group
  | .list (.word "call" :: callee :: arguments) => do
    let f ← callee.expr?
    let es ← exprs? arguments
    some (.call f ⟨.rightParen, ")", 0⟩ es)
  | .list [.word "=", .word name, value] => do
    let t ← token? name
    let e ← value.expr?
    some (.assign () t e)
  | .list [.word "fun", .list params, .list (.word "block" :: body)] => do
    let ts ← tokens? params
    let ss ← stmts? body
    some (.lambda ts ss)
  | .list [.word operator, right] => do
    let t ← token? operator
    let e ← right.expr?
    some (.unary t e)
  | .list [.word operator, left, right] => do
    let t ← token? operator
    let a ← left.expr?
    let b ← right.expr?
    some (operation t a b)
  | _ => none

def exprs? : List Bracketed → Option (List (Expr Unit))
  | [] => some []
  | b :: bs => do
    let e ← b.expr?
    let es ← exprs? bs
    some (e :: es)

def stmt? : Bracketed → Option (Stmt Unit)
  | .list [.word ";", e] => e.expr?.map .exprStmt
  | .list [.word "print", e] => e.expr?.map .printStmt
  | .list [.word "var", .word name] => (token? name).map (.varDecl · none)
  | .list [.word "var", .word name, initial] => do
    let t ← token? name
    let e ← initial.expr?
    some (.varDecl t (some e))
  | .list (.word "block" :: body) => (stmts? body).map .block
  | .list [.word "if", condition, yes] => do
    let e ← condition.expr?
    let s ← yes.stmt?
    some (.ifStmt e s none)
  | .list [.word "if", condition, yes, no] => do
    let e ← condition.expr?
    let s ← yes.stmt?
    let t ← no.stmt?
    some (.ifStmt e s (some t))
  | .list [.word "while", condition, body] => do
    let e ← condition.expr?
    let s ← body.stmt?
    some (.whileStmt e s)
  | .list [.word "break"] => some (.breakStmt ⟨.breakWord, "break", 0⟩)
  | .list [.word "return"] => some (.returnStmt ⟨.returnWord, "return", 0⟩ none)
  | .list [.word "return", value] => do
    let e ← value.expr?
    some (.returnStmt ⟨.returnWord, "return", 0⟩ (some e))
  | .list [.word "fun", .word name, .list params, .list (.word "block" :: body)] => do
    let t ← token? name
    let ts ← tokens? params
    let ss ← stmts? body
    some (.funDecl t ts ss)
  | _ => none

def stmts? : List Bracketed → Option (List (Stmt Unit))
  | [] => some []
  | b :: bs => do
    let s ← b.stmt?
    let ss ← stmts? bs
    some (s :: ss)

end

end Bracketed

section Heads

open Bracketed Source

variable {w v : String} {kind kind' : Kind}

theorem legible_head : ∀ w ∈ exprHeads ++ stmtHeads, LegibleWord w := by
  have hheads : ((exprHeads ++ stmtHeads).all fun w =>
      !w.toList.isEmpty && w.toList.all (!endsWord ·)) = true := rfl
  intro w hw
  have hword := List.all_eq_true.mp hheads w hw
  simp only [Bool.and_eq_true, Bool.not_eq_true', List.all_eq_true, List.isEmpty_eq_false_iff]
    at hword
  exact ⟨hword.1, hword.2⟩

theorem ne_head (h : Lexeme w.toList kind) (hkind : kind ∉ [Kind.identifier, .equal, .funWord]) :
    w ∉ exprHeads := by
  have hne : ∀ v kind', Lexeme v.toList kind' →
      kind' ∈ [Kind.identifier, .equal, .funWord] → w ≠ v := by
    rintro v kind' h' hmem rfl
    exact hkind (h.kind_eq h' ▸ hmem)
  have hgroup : Lexeme "group".toList .identifier := lexeme_word 'g' ['r', 'o', 'u', 'p'] rfl
  have hcall : Lexeme "call".toList .identifier := lexeme_word 'c' ['a', 'l', 'l'] rfl
  have hequal : Lexeme "=".toList .equal := .operator (by decide)
  have hfun : Lexeme "fun".toList .funWord := lexeme_word 'f' ['u', 'n'] rfl
  simp only [exprHeads, List.mem_cons, List.not_mem_nil, or_false, not_or]
  exact ⟨hne _ _ hgroup (by simp), hne _ _ hcall (by simp), hne _ _ hequal (by simp),
    hne _ _ hfun (by simp)⟩

theorem expr?_unary (h : w ∉ exprHeads) (right : Bracketed) :
    expr? (.list [.word w, right]) = (do
      let t ← token? w
      let e ← right.expr?
      some (.unary t e)) := by
  simp only [exprHeads, List.mem_cons, not_or] at h
  rw [expr?] <;> simp_all

theorem expr?_operation (h : w ∉ exprHeads) (left right : Bracketed) :
    expr? (.list [.word w, left, right]) = (do
      let t ← token? w
      let a ← left.expr?
      let b ← right.expr?
      some (operation t a b)) := by
  simp only [exprHeads, List.mem_cons, not_or] at h
  rw [expr?] <;> simp_all

end Heads

section Reading

open Bracketed Source Grammar Session

variable {t : Token} {ts : List Token}

theorem Literal.Plain.kind_ne {v : Literal} (h : v.Plain) : v.kind ≠ .identifier ∧
    v.kind ≠ .leftParen ∧ v.kind ≠ .rightParen ∧ ∀ s, v.kind ≠ .string s := by
  cases v with
  | string s => exact h.elim
  | boolean b => cases b <;> simp [Literal.kind]
  | _ => simp [Literal.kind]

theorem literal_bracketed {v : Literal} (h : v.Plain ∧ Lexeme v.text.toList v.kind) :
    LegibleWord v.text ∧ (token? v.text).bind leaf? = some (.literal v) := by
  obtain ⟨hplain, hlexeme⟩ := h
  obtain ⟨hname, hleft, hright, hstring⟩ := hplain.kind_ne
  refine ⟨legibleWord_of_lexeme hlexeme hleft hright hstring, ?_⟩
  rw [token?_of_lexeme hlexeme, Option.bind_some, leaf?, if_neg hname, literal_kind]
  rfl

theorem name_bracketed (hkind : t.kind = .identifier) (h : Lexeme t.lexeme.toList t.kind) :
    LegibleWord t.lexeme ∧ token? t.lexeme = some (t.moved flat) :=
  ⟨legibleWord_of_lexeme h (by simp [hkind]) (by simp [hkind]) (by simp [hkind]),
    token?_of_lexeme h⟩

theorem operator_bracketed (hkind : operatorLevel t.kind ≠ .unary ∨ t.kind = .bang)
    (h : Lexeme t.lexeme.toList t.kind) :
    LegibleWord t.lexeme ∧ t.lexeme ∉ exprHeads ∧
      token? t.lexeme = some (t.moved flat) := by
  refine ⟨legibleWord_of_lexeme h ?_ ?_ ?_, ne_head h ?_, token?_of_lexeme h⟩ <;>
  · generalize t.kind = kind at hkind
    cases kind <;> simp_all [operatorLevel]

theorem operation_bracketed {left right : Expr Unit} (hkind : operatorLevel t.kind ≠ .unary)
    (h : Lexeme t.lexeme.toList t.kind)
    (hleft : left.bracketed.Legible ∧ left.bracketed.expr? = some (left.moved flat))
    (hright : right.bracketed.Legible ∧ right.bracketed.expr? = some (right.moved flat)) :
    (Bracketed.list [.word t.lexeme, left.bracketed, right.bracketed]).Legible ∧
      expr? (.list [.word t.lexeme, left.bracketed, right.bracketed]) =
        some (operation (t.moved flat) (left.moved flat) (right.moved flat)) := by
  obtain ⟨hword, hhead, htoken⟩ := operator_bracketed (.inl hkind) h
  exact ⟨⟨hword, hleft.1, hright.1, trivial⟩,
    by simp [expr?_operation hhead, htoken, hleft.2, hright.2]⟩

/-- Which tree an operator makes of its operands is seen from its kind. -/
theorem operation_eq_binary
    (h : operatorLevel t.kind ∈ [Level.equality, .comparison, .term, .factor])
    (left right : Expr Unit) : operation (t.moved flat) left right =
      .binary left (t.moved flat) right := by
  refine if_neg ?_
  rintro (hkind | hkind) <;>
  · change t.kind = _ at hkind
    simp [hkind, operatorLevel] at h

theorem operation_eq_logical (h : operatorLevel t.kind ∈ [Level.disjunction, .conjunction])
    (left right : Expr Unit) : operation (t.moved flat) left right =
      .logical left (t.moved flat) right := by
  refine if_pos ?_
  change t.kind = _ ∨ t.kind = _
  generalize t.kind = kind at h
  cases kind <;> simp_all [operatorLevel]

theorem moved_eq {w : String} {kind : Kind} (hkind : t.kind = kind)
    (h : Lexeme t.lexeme.toList t.kind) (hw : Lexeme w.toList kind) (hfixed : kind.varies = false) :
    t.moved flat = ⟨kind, w, 0⟩ := by
  subst hkind
  rw [← String.toList_inj.mp (h.text_eq hw hfixed)]
  rfl

theorem parameters_bracketed (hkinds : ∀ p ∈ ts, p.kind = .identifier)
    (h : Each Leaf.Legible (ts.map .token)) :
    (parameters ts).Legible ∧
      tokens? (ts.map fun p => .word p.lexeme) = some (ts.map (Token.moved flat)) := by
  induction ts with
  | nil => exact ⟨trivial, rfl⟩
  | cons p ps ih =>
    obtain ⟨hkind, hkinds⟩ := List.forall_mem_cons.mp hkinds
    obtain ⟨hlexeme, h⟩ := each_cons.mp h
    obtain ⟨hword, htoken⟩ := name_bracketed hkind hlexeme
    obtain ⟨hwords, htokens⟩ := ih hkinds h
    exact ⟨⟨hword, hwords⟩, by simp [tokens?, htoken, htokens]⟩

mutual

/-- The printed form of an expression can be told in a text, and is read as the expression. -/
theorem Expr.read_bracketed (e : Expr Unit) (hs : e.Shaped) (hl : Each Leaf.Legible e.leaves) :
    e.bracketed.Legible ∧ e.bracketed.expr? = some (e.moved flat) := by
  cases e with
  | literal v => exact literal_bracketed (each_cons.mp hl).1
  | group inner =>
    obtain ⟨hlegible, hread⟩ := inner.read_bracketed hs hl
    exact ⟨⟨legible_head _ (by decide), hlegible, trivial⟩,
      by simp [Expr.bracketed, expr?, hread, Expr.moved]⟩
  | unary operator right =>
    obtain ⟨hkind, -, hs⟩ := hs
    obtain ⟨hlexeme, hl⟩ := each_cons.mp hl
    obtain ⟨hlegible, hread⟩ := right.read_bracketed hs hl
    have hoperator : operatorLevel operator.kind ≠ .unary ∨ operator.kind = .bang := by
      rcases List.mem_pair.mp hkind with hkind | hkind <;> simp [hkind, operatorLevel]
    obtain ⟨hword, hhead, htoken⟩ := operator_bracketed hoperator hlexeme
    exact ⟨⟨hword, hlegible, trivial⟩,
      by simp [Expr.bracketed, expr?_unary hhead, htoken, hread, Expr.moved]⟩
  | binary left operator right =>
    obtain ⟨hlevel, -, hleft, -, hright⟩ := hs
    obtain ⟨hll, hl⟩ := each_append.mp hl
    obtain ⟨hlexeme, hlr⟩ := each_cons.mp hl
    have hoperation := operation_bracketed (by rintro hunary; simp [hunary] at hlevel) hlexeme
      (left.read_bracketed hleft hll) (right.read_bracketed hright hlr)
    rwa [operation_eq_binary hlevel] at hoperation
  | logical left operator right =>
    obtain ⟨hlevel, -, hleft, -, hright⟩ := hs
    obtain ⟨hll, hl⟩ := each_append.mp hl
    obtain ⟨hlexeme, hlr⟩ := each_cons.mp hl
    have hoperation := operation_bracketed (by rintro hunary; simp [hunary] at hlevel) hlexeme
      (left.read_bracketed hleft hll) (right.read_bracketed hright hlr)
    rwa [operation_eq_logical hlevel] at hoperation
  | ident u name =>
    obtain ⟨hword, htoken⟩ := name_bracketed hs (each_cons.mp hl).1
    have hkind : name.kind = .identifier := hs
    exact ⟨hword, by simp [Expr.bracketed, expr?, htoken, leaf?, Token.moved, hkind, Expr.moved]⟩
  | assign u name value =>
    obtain ⟨hkind, hs⟩ := hs
    obtain ⟨hlexeme, hl⟩ := each_cons.mp hl
    obtain ⟨hword, htoken⟩ := name_bracketed hkind hlexeme
    obtain ⟨hlegible, hread⟩ := value.read_bracketed hs hl
    exact ⟨⟨legible_head _ (by decide), hword, hlegible, trivial⟩,
      by simp [Expr.bracketed, expr?, htoken, hread, Expr.moved]⟩
  | call callee paren arguments =>
    obtain ⟨-, hcallee, hkind, -, harguments⟩ := hs
    obtain ⟨hlc, hl⟩ := each_append.mp hl
    obtain ⟨hlexeme, hla⟩ := each_cons.mp hl
    obtain ⟨hlegible, hread⟩ := callee.read_bracketed hcallee hlc
    obtain ⟨hall, hreads⟩ := Expr.allRead_bracketed arguments harguments hla
    have hparen : paren.moved flat = ⟨.rightParen, ")", 0⟩ :=
      moved_eq hkind hlexeme (.operator (by decide)) rfl
    exact ⟨⟨legible_head _ (by decide), hlegible, hall⟩,
      by simp [Expr.bracketed, expr?, hread, hreads, Expr.moved, hparen]⟩
  | lambda params body =>
    obtain ⟨hparams, hs⟩ := hs
    obtain ⟨hlexemes, hl⟩ := each_append.mp hl
    obtain ⟨hwords, htokens⟩ := parameters_bracketed hparams.2 hlexemes
    obtain ⟨hlegible, hread⟩ := Stmt.allRead_bracketed body hs hl
    have hblock := legible_head "block" (by decide)
    exact ⟨⟨legible_head _ (by decide), hwords, ⟨hblock, hlegible⟩, trivial⟩,
      by simp [Expr.bracketed, parameters, Bracketed.block, expr?, htokens, hread, Expr.moved]⟩

theorem Expr.allRead_bracketed (es : List (Expr Unit)) (hs : Expr.AllShaped es)
    (hl : Each Leaf.Legible (Expr.allLeaves es)) :
    AllLegible (Expr.allBracketed es) ∧
      exprs? (Expr.allBracketed es) = some (Expr.allMoved flat es) := by
  cases es with
  | nil => exact ⟨trivial, rfl⟩
  | cons e es =>
    obtain ⟨hle, hles⟩ := each_append.mp hl
    obtain ⟨hlegible, hread⟩ := e.read_bracketed hs.1 hle
    obtain ⟨hall, hreads⟩ := Expr.allRead_bracketed es hs.2 hles
    exact ⟨⟨hlegible, hall⟩, by simp [Expr.allBracketed, exprs?, hread, hreads, Expr.allMoved]⟩

/-- The printed form of a statement can be told in a text, and is read as the statement. -/
theorem Stmt.read_bracketed {inLoop : Bool} (s : Stmt Unit) (hs : s.Shaped inLoop)
    (hl : Each Leaf.Legible s.leaves) :
    s.bracketed.Legible ∧ s.bracketed.stmt? = some (s.moved flat) := by
  cases s with
  | exprStmt e =>
    obtain ⟨hlegible, hread⟩ := e.read_bracketed hs hl
    exact ⟨⟨legible_head _ (by decide), hlegible, trivial⟩,
      by simp [Stmt.bracketed, stmt?, hread, Stmt.moved]⟩
  | printStmt e =>
    obtain ⟨hlegible, hread⟩ := e.read_bracketed hs hl
    exact ⟨⟨legible_head _ (by decide), hlegible, trivial⟩,
      by simp [Stmt.bracketed, stmt?, hread, Stmt.moved]⟩
  | varDecl name initial =>
    cases initial with
    | none =>
      obtain ⟨hword, htoken⟩ := name_bracketed hs (each_cons.mp hl).1
      exact ⟨⟨legible_head _ (by decide), hword, trivial⟩,
        by simp [Stmt.bracketed, stmt?, htoken, Stmt.moved]⟩
    | some initial =>
      obtain ⟨hkind, hs⟩ := hs
      obtain ⟨hlexeme, hl⟩ := each_cons.mp hl
      obtain ⟨hword, htoken⟩ := name_bracketed hkind hlexeme
      obtain ⟨hlegible, hread⟩ := initial.read_bracketed hs hl
      exact ⟨⟨legible_head _ (by decide), hword, hlegible, trivial⟩,
        by simp [Stmt.bracketed, stmt?, htoken, hread, Stmt.moved]⟩
  | block body =>
    obtain ⟨hlegible, hread⟩ := Stmt.allRead_bracketed body hs hl
    exact ⟨⟨legible_head _ (by decide), hlegible⟩,
      by simp [Stmt.bracketed, Bracketed.block, stmt?, hread, Stmt.moved]⟩
  | ifStmt condition yes no =>
    cases no with
    | none =>
      obtain ⟨hcondition, -, hyes⟩ := hs
      obtain ⟨hlc, hly⟩ := each_append.mp hl
      obtain ⟨hlegible, hread⟩ := condition.read_bracketed hcondition hlc
      obtain ⟨hlegible', hread'⟩ := yes.read_bracketed hyes hly
      exact ⟨⟨legible_head _ (by decide), hlegible, hlegible', trivial⟩,
        by simp [Stmt.bracketed, stmt?, hread, hread', Stmt.moved]⟩
    | some no =>
      obtain ⟨hcondition, -, hyes, -, -, hno⟩ := hs
      obtain ⟨hlc, hl⟩ := each_append.mp hl
      obtain ⟨hly, hln⟩ := each_append.mp hl
      obtain ⟨hlegible, hread⟩ := condition.read_bracketed hcondition hlc
      obtain ⟨hlegible', hread'⟩ := yes.read_bracketed hyes hly
      obtain ⟨hlegible'', hread''⟩ := no.read_bracketed hno hln
      exact ⟨⟨legible_head _ (by decide), hlegible, hlegible', hlegible'', trivial⟩,
        by simp [Stmt.bracketed, stmt?, hread, hread', hread'', Stmt.moved]⟩
  | whileStmt condition body =>
    obtain ⟨hcondition, -, hbody⟩ := hs
    obtain ⟨hlc, hlb⟩ := each_append.mp hl
    obtain ⟨hlegible, hread⟩ := condition.read_bracketed hcondition hlc
    obtain ⟨hlegible', hread'⟩ := body.read_bracketed hbody hlb
    exact ⟨⟨legible_head _ (by decide), hlegible, hlegible', trivial⟩,
      by simp [Stmt.bracketed, stmt?, hread, hread', Stmt.moved]⟩
  | breakStmt keyword =>
    have hbreak : Lexeme "break".toList .breakWord := lexeme_word 'b' ['r', 'e', 'a', 'k'] rfl
    have hkeyword : keyword.moved flat = ⟨.breakWord, "break", 0⟩ :=
      moved_eq hs.1 (each_cons.mp hl).1 hbreak rfl
    exact ⟨⟨legible_head _ (by decide), trivial⟩,
      by simp [Stmt.bracketed, stmt?, Stmt.moved, hkeyword]⟩
  | returnStmt keyword value =>
    have hreturn : Lexeme "return".toList .returnWord :=
      lexeme_word 'r' ['e', 't', 'u', 'r', 'n'] rfl
    cases value with
    | none =>
      have hkeyword := moved_eq hs (each_cons.mp hl).1 hreturn rfl
      exact ⟨⟨legible_head _ (by decide), trivial⟩,
        by simp [Stmt.bracketed, stmt?, Stmt.moved, hkeyword]⟩
    | some value =>
      obtain ⟨hkind, hs⟩ := hs
      obtain ⟨hlexeme, hl⟩ := each_cons.mp hl
      have hkeyword := moved_eq hkind hlexeme hreturn rfl
      obtain ⟨hlegible, hread⟩ := value.read_bracketed hs hl
      exact ⟨⟨legible_head _ (by decide), hlegible, trivial⟩,
        by simp [Stmt.bracketed, stmt?, hread, Stmt.moved, hkeyword]⟩
  | funDecl name params body =>
    obtain ⟨hkind, hparams, hs⟩ := hs
    obtain ⟨hlexeme, hl⟩ := each_cons.mp hl
    obtain ⟨hlexemes, hl⟩ := each_append.mp hl
    obtain ⟨hword, htoken⟩ := name_bracketed hkind hlexeme
    obtain ⟨hwords, htokens⟩ := parameters_bracketed hparams.2 hlexemes
    obtain ⟨hlegible, hread⟩ := Stmt.allRead_bracketed body hs hl
    have hblock := legible_head "block" (by decide)
    exact ⟨⟨legible_head _ (by decide), hword, hwords, ⟨hblock, hlegible⟩, trivial⟩,
      by simp [Stmt.bracketed, parameters, Bracketed.block, stmt?, htoken, htokens, hread,
        Stmt.moved]⟩

theorem Stmt.allRead_bracketed {inLoop : Bool} (ss : List (Stmt Unit))
    (hs : Stmt.AllShaped inLoop ss) (hl : Each Leaf.Legible (Stmt.allLeaves ss)) :
    AllLegible (Stmt.allBracketed ss) ∧
      stmts? (Stmt.allBracketed ss) = some (Stmt.allMoved flat ss) := by
  cases ss with
  | nil => exact ⟨trivial, rfl⟩
  | cons s ss =>
    obtain ⟨hls, hlss⟩ := each_append.mp hl
    obtain ⟨hlegible, hread⟩ := s.read_bracketed hs.1 hls
    obtain ⟨hall, hreads⟩ := Stmt.allRead_bracketed ss hs.2 hlss
    exact ⟨⟨hlegible, hall⟩, by simp [Stmt.allBracketed, stmts?, hread, hreads, Stmt.allMoved]⟩

end

end Reading

end ScriptLang
