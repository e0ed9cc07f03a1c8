import ScriptLang.Proofs.Grammar.Boundary

namespace ScriptLang.Grammar

variable {kind : Kind} {t : Token} {w : List Kind} {a : Ebnf Name Kind}

theorem kind_derives (k : Kind) : Derives rules (symbol k) [k] :=
  .terminal (List.mem_singleton_self k)

theorem operator_derives {kinds : List Kind} (h : t.kind ∈ kinds) :
    Derives rules (oneOf kinds) [t.kind] :=
  .terminal h

theorem symbol_derives (h : t.kind = kind) : Derives rules (symbol kind) [t.kind] :=
  .terminal (by simp [h])

theorem upTo_mono {m n : Nat} (h : Derives rules (.upTo n a) w) (hn : n ≤ m) :
    Derives rules (.upTo m a) w := by
  generalize he : Ebnf.upTo n a = e at h
  induction h generalizing m n with
  | noneUpTo => exact .noneUpTo
  | moreUpTo hu _ _ ih =>
    cases he
    cases m with
    | zero => omega
    | succ m => exact .moreUpTo hu (ih (by omega) rfl)
  | _ => cases he

theorem upTo_le {m n : Nat} {b : Ebnf Name Kind} (h : Derives rules (a ++ .upTo n b) w)
    (hn : n ≤ m) : Derives rules (a ++ .upTo m b) w := by
  cases h with
  | seq hu hv => exact hu.append (upTo_mono hv hn)

theorem upTo_single {b : Ebnf Name Kind} (h : Derives rules a w) :
    Derives rules (a ++ .upTo 0 b) w := by
  simpa using h.append .noneUpTo

theorem upTo_cons {n : Nat} {comma : Token} {u : List Kind} (hc : comma.kind = .comma)
    (hv : Derives rules (a ++ .upTo n (symbol .comma ++ a)) w)
    (hu : Derives rules a u) :
    Derives rules (a ++ .upTo (n + 1) (symbol .comma ++ a)) (u ++ comma.kind :: w) := by
  cases hv with
  | @seq _ _ x y hx hy =>
    have hmore := Derives.moreUpTo ((symbol_derives hc).append hx) hy
    have h := hu.append hmore
    simpa using h

def statementNames (inLoop : Bool) : List Name :=
  [.exprStmt, .printStmt, .whileStmt, .forStmt, .ifStmt inLoop, .block inLoop, .returnStmt,
    .breakStmt inLoop]

theorem statement_derives {inLoop : Bool} {name : Name} (h : Derives rules (.rule name) w)
    (hn : name ∈ statementNames inLoop) : Derives rules (.rule (.statement inLoop)) w := by
  simp only [statementNames, List.mem_cons, List.not_mem_nil, or_false] at hn
  apply Derives.rule
  obtain rfl | rfl | rfl | rfl | rfl | rfl | rfl | rfl := hn <;>
    repeat first | exact h | exact Derives.right h | apply Derives.left

def Phrase.Derived : Phrase → List Kind → Prop
  | .expression _, w => Derives rules (.rule .assignment) w
  | .level l _, w => Derives rules (.rule l.name) w
  | .chain l _ _, w => Derives rules (.many (oneOf l.operators ++ .rule l.next.name)) w
  | .primary _, w => Derives rules (.rule .primary) w
  | .calls _ _, w => Derives rules
      (.many (symbol .leftParen ++ .optional (.rule .arguments) ++ symbol .rightParen)) w
  | .arguments es, w => Derives rules
      (.rule .expression ++ .upTo (es.length - 1) (symbol .comma ++ .rule .expression)) w
  | .parameters ps, w => Derives rules
      (symbol .identifier ++ .upTo (ps.length - 1) (symbol .comma ++ symbol .identifier)) w
  | .function _ _, w => Derives rules (.rule .function) w
  | .optional _, w => Derives rules (.optional (.rule .expression)) w
  | .variable _, w => Derives rules (.rule .varDecl) (.varWord :: w)
  | .initial _, w =>
    Derives rules (.rule .varDecl ||| .rule .exprStmt ||| symbol .semicolon) w
  | .statement inLoop _ _, w => Derives rules (.rule (.statement inLoop)) w
  | .declaration inLoop _, w => Derives rules (.rule (.declaration inLoop)) w
  | .declarations inLoop _, w => Derives rules (.many (.rule (.declaration inLoop))) w

theorem level_derives {l : Level} {u v : List Kind} (hl : l ≠ .unary)
    (hu : Derives rules (.rule l.next.name) u)
    (hv : Derives rules (.many (oneOf l.operators ++ .rule l.next.name)) v) :
    Derives rules (.rule l.name) (u ++ v) := by
  apply Derives.rule
  rw [Level.rules_name l hl]
  exact hu.append hv

theorem rule_derives (name : Name) {v : List Kind} (h : Derives rules (rules name) v)
    (hw : v = w) : Derives rules (.rule name) w :=
  hw ▸ .rule h

theorem expression_derives (h : Derives rules (.rule .assignment) w) :
    Derives rules (.rule .expression) w := .rule h

theorem literal_derives {v : Literal} (h : literal? t.kind = some v) :
    Derives rules (.rule .primary) [t.kind] := by
  apply Derives.rule
  cases hk : t.kind with
  | number x => exact .orLeft (.orLeft (.orLeft (.orLeft (.orLeft (.orLeft (.orLeft
      (.terminal ⟨x, rfl⟩)))))))
  | string x => exact .orLeft (.orLeft (.orLeft (.orLeft (.orLeft (.orLeft (.orRight
      (.terminal ⟨x, rfl⟩)))))))
  | trueWord => exact .orLeft (.orLeft (.orLeft (.orLeft (.orLeft (.orRight (kind_derives _))))))
  | falseWord => exact .orLeft (.orLeft (.orLeft (.orLeft (.orRight (kind_derives _)))))
  | nilWord => exact .orLeft (.orLeft (.orLeft (.orRight (kind_derives _))))
  | _ =>
    rw [hk] at h
    cases h

theorem primary_derives_group {left right : Token} (hl : left.kind = .leftParen)
    (h : Derives rules (.rule .expression) w) (hr : right.kind = .rightParen) :
    Derives rules (.rule .primary) (left.kind :: (w ++ [right.kind])) := by
  have hd := ((symbol_derives hl).append h).append (symbol_derives hr)
  exact .rule (.orLeft (.orRight hd))

theorem function_derives {left right brace close : Token} {u : List Kind}
    (hl : left.kind = .leftParen) (hp : Derives rules (.optional (.rule .parameters)) w)
    (hr : right.kind = .rightParen) (hb : brace.kind = .leftBrace)
    (h : Derives rules (.many (.rule (.declaration false))) u) (hc : close.kind = .rightBrace) :
    Derives rules (.rule .function)
      (left.kind :: (w ++ right.kind :: brace.kind :: (u ++ [close.kind]))) := by
  have hblock : Derives rules (.rule (.block false)) (brace.kind :: (u ++ [close.kind])) :=
    rule_derives _ (((symbol_derives hb).append h).append (symbol_derives hc)) (by simp)
  have hd := (((symbol_derives hl).append hp).append (symbol_derives hr)).append hblock
  exact rule_derives _ hd (by simp)

theorem calls_derives {left paren : Token} {u : List Kind} (hl : left.kind = .leftParen)
    (ha : Derives rules (.optional (.rule .arguments)) w) (hp : paren.kind = .rightParen)
    (h : Derives rules
      (.many (symbol .leftParen ++ .optional (.rule .arguments) ++ symbol .rightParen)) u) :
    Derives rules
      (.many (symbol .leftParen ++ .optional (.rule .arguments) ++ symbol .rightParen))
      (left.kind :: (w ++ paren.kind :: u)) := by
  have hone := ((symbol_derives hl).append ha).append (symbol_derives hp)
  have hd := Derives.more hone h
  simpa using hd

theorem varDecl_derives {name semi : Token} (hn : name.kind = .identifier)
    (h : Derives rules (.optional (symbol .equal ++ .rule .expression)) w)
    (hs : semi.kind = .semicolon) :
    Derives rules (.rule .varDecl) (.varWord :: name.kind :: (w ++ [semi.kind])) := by
  have hd := (((kind_derives .varWord).append (symbol_derives hn)).append h).append
    (symbol_derives hs)
  exact rule_derives _ hd (by simp)

theorem ifStmt_derives {inLoop : Bool} {word left right : Token} {u v : List Kind}
    (hw : word.kind = .ifWord) (hl : left.kind = .leftParen)
    (hc : Derives rules (.rule .expression) w) (hr : right.kind = .rightParen)
    (hy : Derives rules (.rule (.statement inLoop)) u)
    (hn : Derives rules (.optional (symbol .elseWord ++ .rule (.statement inLoop))) v) :
    Derives rules (.rule (.statement inLoop))
      (word.kind :: left.kind :: (w ++ right.kind :: (u ++ v))) := by
  have hd := (((((symbol_derives hw).append (symbol_derives hl)).append hc).append
    (symbol_derives hr)).append hy).append hn
  exact statement_derives (rule_derives (.ifStmt inLoop) hd (by simp)) (by simp [statementNames])

theorem Reads.derives {p : Phrase} {ts : List Token} (h : Reads p ts) :
    p.Derived (ts.map Token.kind) := by
  induction h with
  | assign hn he _ ih =>
    have hd := ((symbol_derives hn).append (symbol_derives he)).append ih
    exact rule_derives .assignment (.orLeft hd) rfl
  | plain _ ih => exact rule_derives .assignment (.orRight ih) rfl
  | level hl _ _ ih ihc =>
    rw [List.map_append]
    exact level_derives hl ih ihc
  | chainEnd => exact .none
  | chainStep ho _ _ ih ihc =>
    have hone := (operator_derives ho).append ih
    have hd := Derives.more hone ihc
    simpa [Phrase.Derived] using hd
  | unary ho _ ih =>
    have hd := (operator_derives ho).append ih
    exact rule_derives .unary (.orLeft hd) rfl
  | call _ _ ih ihc =>
    have hd := rule_derives .call (ih.append ihc) (List.map_append ..).symm
    exact rule_derives .unary (.orRight hd) rfl
  | callsEnd => exact .none
  | callsPlain hl hp _ ih => exact calls_derives hl .absent hp ih
  | callsStep hl _ hn hp _ ih ihc =>
    have harguments := rule_derives .arguments (upTo_le ih (by omega)) rfl
    have hd := calls_derives hl (.present harguments) hp ihc
    simpa [Phrase.Derived] using hd
  | lastArgument _ ih => exact upTo_single (expression_derives ih)
  | moreArguments _ hc hs ih ihs =>
    have hd := upTo_cons hc ihs (expression_derives ih)
    cases hs <;> simpa [Phrase.Derived] using hd
  | literal hv => exact literal_derives hv
  | ident hn => exact .rule (.orLeft (.orLeft (.orRight (symbol_derives hn))))
  | group hl _ hr ih =>
    have hd := primary_derives_group hl (expression_derives ih) hr
    simpa [Phrase.Derived] using hd
  | lambda hw _ ih => exact .rule (.orRight ((symbol_derives hw).append ih))
  | lastParameter h => exact upTo_single (symbol_derives h)
  | moreParameters h hc hs ih =>
    have hd := upTo_cons hc ih (symbol_derives h)
    cases hs <;> simpa [Phrase.Derived] using hd
  | functionPlain hl hr hb _ hc ih =>
    have hd := function_derives hl .absent hr hb ih hc
    simpa [Phrase.Derived] using hd
  | function hl _ hn hr hb _ hc ih ihb =>
    have hparameters := rule_derives .parameters (upTo_le ih (by omega)) rfl
    have hd := function_derives hl (.present hparameters) hr hb ihb hc
    simpa [Phrase.Derived] using hd
  | absent => exact .absent
  | present _ ih => exact .present (expression_derives ih)
  | variablePlain hn hs => exact varDecl_derives hn .absent hs
  | variableInitial hn he _ hs ih =>
    have hvalue := (symbol_derives he).append (expression_derives ih)
    have hd := varDecl_derives hn (.present hvalue) hs
    simpa [Phrase.Derived] using hd
  | initialNone hs => exact .orRight (symbol_derives hs)
  | initialVariable hw _ ih =>
    rw [List.map_cons, hw]
    exact .orLeft (.orLeft ih)
  | initialExpression _ hs ih =>
    have hd := (expression_derives ih).append (symbol_derives hs)
    exact .orLeft (.orRight (rule_derives .exprStmt hd (by simp)))
  | exprStmt _ hs ih =>
    have hd := (expression_derives ih).append (symbol_derives hs)
    exact statement_derives (rule_derives .exprStmt hd (by simp)) (by simp [statementNames])
  | printStmt hw _ hs ih =>
    have hd := ((symbol_derives hw).append (expression_derives ih)).append (symbol_derives hs)
    exact statement_derives (rule_derives .printStmt hd (by simp)) (by simp [statementNames])
  | block hb _ hc ih =>
    have hd := ((symbol_derives hb).append ih).append (symbol_derives hc)
    exact statement_derives (rule_derives (.block _) hd (by simp)) (by simp [statementNames])
  | ifStmt hw hl _ hr _ ih ihy =>
    have hd := ifStmt_derives hw hl (expression_derives ih) hr ihy .absent
    simpa [Phrase.Derived] using hd
  | ifElse hw hl _ hr _ ho _ ih ihy ihn =>
    have helse := (symbol_derives ho).append ihn
    have hd := ifStmt_derives hw hl (expression_derives ih) hr ihy (.present helse)
    simpa [Phrase.Derived] using hd
  | whileStmt hw hl _ hr _ ih ihb =>
    have hd := ((((symbol_derives hw).append (symbol_derives hl)).append
      (expression_derives ih)).append (symbol_derives hr)).append ihb
    exact statement_derives (rule_derives .whileStmt hd (by simp)) (by simp [statementNames])
  | forStmt hw hl _ _ hs _ hr _ ihi ihc ihn ihb =>
    have hd := (((((((symbol_derives hw).append (symbol_derives hl)).append ihi).append
      ihc).append (symbol_derives hs)).append ihn).append (symbol_derives hr)).append ihb
    exact statement_derives (rule_derives .forStmt hd (by simp)) (by simp [statementNames])
  | breakStmt hw hs =>
    have hbreak : Derives rules (breakWord true) [_] := .terminal ⟨hw, rfl⟩
    have hd := hbreak.append (symbol_derives hs)
    exact statement_derives (rule_derives (.breakStmt true) hd rfl) (by simp [statementNames])
  | returnStmt hw _ hs ih =>
    have hd := ((symbol_derives hw).append ih).append (symbol_derives hs)
    exact statement_derives (rule_derives .returnStmt hd (by simp)) (by simp [statementNames])
  | funDecl hw hn _ ih =>
    have hd := ((symbol_derives hw).append (symbol_derives hn)).append ih
    exact .rule (.orLeft (.orLeft (rule_derives .funDecl hd rfl)))
  | varDecl hw _ ih =>
    rw [List.map_cons, hw]
    exact .rule (.orLeft (.orRight ih))
  | statement _ ih => exact .rule (.orRight ih)
  | declarationsEnd => exact .none
  | declarationsStep _ _ ih ihs =>
    rw [List.map_append]
    exact .more ih ihs

end ScriptLang.Grammar
