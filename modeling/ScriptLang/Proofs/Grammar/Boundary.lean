import ScriptLang.Proofs.Grammar.Reading

namespace ScriptLang.Grammar

def NextIs (kind : Kind) (rest : List Token) : Prop :=
  ∃ t ts, rest = t :: ts ∧ t.kind = kind

section Next

variable {kind other : Kind} {t : Token} {ts us : List Token}

theorem nextIs_cons : NextIs kind (t :: ts) ↔ t.kind = kind := by
  constructor
  · rintro ⟨t', ts', he, hk⟩
    cases he
    exact hk
  · intro hk
    exact ⟨t, ts, rfl, hk⟩

theorem not_nextIs_nil : ¬ NextIs kind [] := by
  rintro ⟨t, ts, he, _⟩
  cases he

theorem NextIs.append (h : NextIs kind ts) : NextIs kind (ts ++ us) := by
  obtain ⟨t, ts, rfl, hk⟩ := h
  exact ⟨t, ts ++ us, rfl, hk⟩

theorem NextIs.ne (h : NextIs kind ts) (hk : kind ≠ other) : ¬ NextIs other ts := by
  obtain ⟨t, ts, rfl, ht⟩ := h
  rw [nextIs_cons, ht]
  exact hk

end Next

section Opening

def startsExpression : Kind → Bool
  | .falseWord | .trueWord | .nilWord | .number _ | .string _ | .identifier | .leftParen
  | .funWord | .bang | .minus => true
  | _ => false

def statementWords : List Kind :=
  [.forWord, .ifWord, .whileWord, .breakWord, .returnWord, .leftBrace, .printWord]

def startsDeclaration (kind : Kind) : Bool :=
  Syntax.startsStatement kind || kind = .leftBrace || startsExpression kind

def OpensExpression (ts : List Token) : Prop :=
  ∃ t us, ts = t :: us ∧ startsExpression t.kind = true ∧
    (t.kind = .funWord → NextIs .leftParen us)

def OpensStatement (ts : List Token) : Prop :=
  (∃ k ∈ statementWords, NextIs k ts) ∨ OpensExpression ts

def OpensDeclaration (ts : List Token) : Prop :=
  ∃ t us, ts = t :: us ∧ startsDeclaration t.kind = true

variable {kind : Kind} {t : Token} {ts us : List Token}

theorem opensExpression_cons (h : t.kind = kind) (hs : startsExpression kind = true)
    (hf : kind ≠ .funWord) : OpensExpression (t :: ts) :=
  ⟨t, ts, rfl, h ▸ hs, fun hw => absurd (h.symm.trans hw) hf⟩

theorem OpensExpression.append (h : OpensExpression ts) : OpensExpression (ts ++ us) := by
  obtain ⟨t, ts, rfl, hs, hf⟩ := h
  exact ⟨t, ts ++ us, rfl, hs, fun hw => (hf hw).append⟩

theorem OpensExpression.not_nextIs (h : OpensExpression ts) (hk : startsExpression kind = false) :
    ¬ NextIs kind ts := by
  obtain ⟨t, ts, rfl, hs, _⟩ := h
  rw [nextIs_cons]
  rintro rfl
  rw [hk] at hs
  cases hs

theorem OpensExpression.length_pos (h : OpensExpression ts) : 0 < ts.length := by
  obtain ⟨t, us, rfl, _⟩ := h
  exact Nat.succ_pos _

theorem opensStatement_cons (h : t.kind = kind) (hk : kind ∈ statementWords) :
    OpensStatement (t :: ts) :=
  .inl ⟨kind, hk, nextIs_cons.mpr h⟩

theorem opensDeclaration_cons (h : t.kind = kind) (hk : startsDeclaration kind = true) :
    OpensDeclaration (t :: ts) :=
  ⟨t, ts, rfl, h ▸ hk⟩

theorem OpensStatement.declaration (h : OpensStatement ts) : OpensDeclaration ts := by
  cases h with
  | inl hw =>
    obtain ⟨k, hk, t, us, rfl, rfl⟩ := hw
    have hall : ∀ k ∈ statementWords, startsDeclaration k = true := by
      simp [statementWords, startsDeclaration, Syntax.startsStatement]
    exact opensDeclaration_cons rfl (hall t.kind hk)
  | inr he =>
    obtain ⟨t, us, rfl, hs, _⟩ := he
    exact opensDeclaration_cons rfl (by simp [startsDeclaration, hs])

theorem OpensStatement.append (h : OpensStatement ts) : OpensStatement (ts ++ us) := by
  cases h with
  | inl hw =>
    obtain ⟨k, hk, hn⟩ := hw
    exact .inl ⟨k, hk, hn.append⟩
  | inr he => exact .inr he.append

theorem OpensStatement.not_nextIs (h : OpensStatement ts) (hk : startsExpression kind = false)
    (hw : kind ∉ statementWords) : ¬ NextIs kind ts := by
  cases h with
  | inl hs =>
    obtain ⟨k, hm, hn⟩ := hs
    refine hn.ne ?_
    rintro rfl
    exact hw hm
  | inr he => exact he.not_nextIs hk

theorem OpensStatement.not_function (h : OpensStatement ts) :
    ∀ word vs, ts = word :: vs → word.kind = .funWord → ¬ NextIs .identifier vs := by
  rintro word vs rfl hw
  cases h with
  | inl hs =>
    obtain ⟨k, hk, hn⟩ := hs
    rw [nextIs_cons, hw] at hn
    subst hn
    simp [statementWords] at hk
  | inr he =>
    obtain ⟨t, us, heq, _, hf⟩ := he
    cases heq
    exact (hf hw).ne (by simp)

theorem OpensDeclaration.append (h : OpensDeclaration ts) : OpensDeclaration (ts ++ us) := by
  obtain ⟨t, ts, rfl, hs⟩ := h
  exact ⟨t, ts ++ us, rfl, hs⟩

theorem OpensDeclaration.not_nextIs (h : OpensDeclaration ts)
    (hk : startsDeclaration kind = false) : ¬ NextIs kind ts := by
  obtain ⟨t, ts, rfl, hs⟩ := h
  rw [nextIs_cons]
  rintro rfl
  rw [hk] at hs
  cases hs

theorem OpensDeclaration.length_pos (h : OpensDeclaration ts) : 0 < ts.length := by
  obtain ⟨t, us, rfl, _⟩ := h
  exact Nat.succ_pos _

def Phrase.Opens : Phrase → List Token → Prop
  | .expression _, ts | .level _ _, ts | .primary _, ts | .arguments _, ts => OpensExpression ts
  | .function _ _, ts => NextIs .leftParen ts
  | .statement _ _ _, ts => OpensStatement ts
  | .declaration _ _, ts => OpensDeclaration ts
  | .declarations _ ss, ts => ss ≠ [] → OpensDeclaration ts
  | _, _ => True

theorem literal_opens {v : Literal} (h : literal? t.kind = some v) : OpensExpression (t :: ts) := by
  have hk : startsExpression t.kind = true ∧ t.kind ≠ .funWord := by
    revert h
    cases t.kind <;> simp [literal?, startsExpression]
  exact opensExpression_cons rfl hk.1 hk.2

theorem Reads.opens {p : Phrase} (h : Reads p ts) : p.Opens ts := by
  induction h with
  | assign hn => exact opensExpression_cons hn rfl (by simp)
  | plain _ ih => exact ih
  | level _ _ _ ih => exact ih.append
  | unary ho =>
    simp only [List.mem_cons, List.not_mem_nil, or_false] at ho
    obtain ho | ho := ho
    · exact opensExpression_cons ho rfl (by simp)
    · exact opensExpression_cons ho rfl (by simp)
  | call _ _ ih => exact ih.append
  | lastArgument _ ih => exact ih
  | moreArguments _ _ _ ih => exact ih.append
  | literal hv => exact literal_opens hv
  | ident hn => exact opensExpression_cons hn rfl (by simp)
  | group hl => exact opensExpression_cons hl rfl (by simp)
  | lambda hw _ ih => exact ⟨_, _, rfl, by rw [hw]; rfl, fun _ => ih⟩
  | functionPlain hl | function hl => exact nextIs_cons.mpr hl
  | exprStmt _ _ ih => exact .inr ih.append
  | printStmt hw | block hw | ifStmt hw | ifElse hw | whileStmt hw | forStmt hw | breakStmt hw
  | returnStmt hw => exact opensStatement_cons hw (by simp [statementWords])
  | funDecl hw | varDecl hw => exact opensDeclaration_cons hw rfl
  | statement _ ih => exact ih.declaration
  | declarationsEnd => exact fun h => absurd rfl h
  | declarationsStep _ _ ih => exact fun _ => ih.append
  | _ => trivial

theorem primary_not_operator {e : Expr Unit} {rest : List Token} (h : Reads (.primary e) ts) :
    ∀ k ∈ [Kind.bang, .minus], ¬ NextIs k (ts ++ us ++ rest) := by
  simp only [List.mem_cons, List.not_mem_nil, or_false, forall_eq_or_imp, forall_eq]
  cases h with
  | literal hv =>
    simp only [List.cons_append, nextIs_cons]
    constructor <;> intro hk <;> rw [hk] at hv <;> cases hv
  | ident hk | group hk | lambda hk => simp [nextIs_cons, hk]

/-- No declaration begins with an `else`, so none goes on with the statement before it. -/
theorem declarations_not_else {inLoop : Bool} {ss : List (Stmt Unit)} {rest : List Token}
    (h : Reads (.declarations inLoop ss) ts) (hr : ¬ NextIs .elseWord rest) :
    ¬ NextIs .elseWord (ts ++ rest) := by
  cases h with
  | declarationsEnd => exact hr
  | declarationsStep h _ => exact h.opens.append.append.not_nextIs rfl

end Opening

section Ending

namespace Level

def continuing : Level → List Kind
  | unary => [.leftParen]
  | factor => [.star, .slash, .leftParen]
  | term => [.minus, .plus, .star, .slash, .leftParen]
  | comparison =>
    [.greater, .greaterEqual, .less, .lessEqual, .minus, .plus, .star, .slash, .leftParen]
  | equality =>
    [.bangEqual, .equalEqual, .greater, .greaterEqual, .less, .lessEqual, .minus, .plus, .star,
      .slash, .leftParen]
  | conjunction =>
    [.andWord, .bangEqual, .equalEqual, .greater, .greaterEqual, .less, .lessEqual, .minus, .plus,
      .star, .slash, .leftParen]
  | disjunction =>
    [.orWord, .andWord, .bangEqual, .equalEqual, .greater, .greaterEqual, .less, .lessEqual,
      .minus, .plus, .star, .slash, .leftParen]

def Stops (l : Level) (rest : List Token) : Prop :=
  ∀ k ∈ l.continuing, ¬ NextIs k rest

variable {l : Level} {rest : List Token}

theorem continuing_eq (h : l ≠ .unary) : l.continuing = l.operators ++ l.next.continuing := by
  cases l with
  | unary => exact absurd rfl h
  | _ => rfl

theorem Stops.operators (h : l.Stops rest) (hl : l ≠ .unary) :
    ∀ k ∈ l.operators, ¬ NextIs k rest := by
  intro k hk
  apply h
  rw [continuing_eq hl]
  exact List.mem_append_left _ hk

theorem Stops.next (h : l.Stops rest) (hl : l ≠ .unary) : l.next.Stops rest := by
  intro k hk
  apply h
  rw [continuing_eq hl]
  exact List.mem_append_right _ hk

/-- An operator of a level ends an expression of the next tighter one. -/
theorem operator_stops {operator : Token} (h : operator.kind ∈ l.operators) :
    l.next.Stops (operator :: rest) := by
  intro k hk
  rw [nextIs_cons]
  rintro rfl
  generalize operator.kind = kind at h hk
  cases l <;> revert h hk <;> cases kind <;> simp [Level.operators, Level.next, continuing]

theorem stops_of_nextIs {kind : Kind} (h : NextIs kind rest)
    (hk : kind ∈ [.equal, .rightParen, .comma, .semicolon]) : l.Stops rest := by
  intro k hc
  refine h.ne ?_
  rintro rfl
  cases l <;> revert hc hk <;> cases kind <;> simp [continuing]

end Level

def StopsExpression (rest : List Token) : Prop :=
  Level.disjunction.Stops rest ∧ ¬ NextIs .equal rest

theorem stopsExpression_of_nextIs {kind : Kind} {rest : List Token} (h : NextIs kind rest)
    (hk : kind ∈ [.rightParen, .comma, .semicolon]) : StopsExpression rest := by
  refine ⟨Level.stops_of_nextIs h (List.mem_cons_of_mem _ hk), h.ne ?_⟩
  rintro rfl
  simp at hk

/-- What an expression of a level is followed by ends its first operand. -/
theorem chain_stops {l : Level} {left e : Expr Unit} {ts rest : List Token}
    (h : Reads (.chain l left e) ts) (hl : l ≠ .unary) (hs : l.Stops rest) :
    l.next.Stops (ts ++ rest) := by
  cases h with
  | chainEnd => exact hs.next hl
  | chainStep ho => exact Level.operator_stops ho

end Ending

end ScriptLang.Grammar
