import ScriptLang.Command
import ScriptLang.Proofs.Parsing.RoundTrip

namespace ScriptLang.Parsing

open Syntax Grammar

section Expression

variable {input : Input} {ts rest : List Token} {semi : Token} {e : Expr Unit} {s : Stmt Unit}
  {ss : List (Stmt Unit)}

theorem stopsExpression_nil : StopsExpression [] :=
  ⟨fun _ _ => not_nextIs_nil, not_nextIs_nil⟩

/-- The parser answers with an expression exactly if all the tokens spell it. -/
theorem parseExpression_ok_iff_reads :
    parseExpression input = .ok e ↔ Reads (.expression e) input.tokens := by
  constructor
  · intro h
    have hspells := expression_spells (rules_sound (input.tokens.length + 1)) input.eof input.start
    unfold parseExpression at h
    split at h
    · next value s ho =>
      split at h
      · next hrest =>
        split at h
        · next hempty =>
          cases h
          change Spells _ _ (expression input.rules input.eof input.start) at hspells
          rw [ho] at hspells
          obtain ⟨ts, hts, hreads⟩ := hspells.2 (List.isEmpty_iff.mp hempty)
          rw [hrest, List.append_nil] at hts
          have hall : input.tokens = ts := hts
          rw [hall]
          exact hreads
        · cases h
      · cases h
    · cases h
    · cases h
  · intro h
    have hanswers := expression_takes (rules_complete (input.tokens.length + 1))
    have hlt : input.tokens.length < (Syntax.rules (input.tokens.length + 1)).bound + 1 :=
      Nat.lt_succ_of_lt (Nat.lt_succ_self _)
    have hrun := hanswers h hlt 0 [] stopsExpression_nil input.eof []
    rw [List.append_nil] at hrun
    have hstart : expression input.rules input.eof input.start = .done e ⟨[], 0, []⟩ := hrun
    simp [parseExpression, hstart]

theorem not_reads_past_semicolon {e' : Expr Unit} (h : Reads (.expression e) ts)
    (hs : semi.kind = .semicolon) : ¬ Reads (.expression e') (ts ++ semi :: rest) := by
  intro hlong
  -- one reader would stop at the semicolon and at the end
  have hanswers := expression_takes (rules_complete (ts ++ semi :: rest).length)
  have hb : (Syntax.rules (ts ++ semi :: rest).length).bound = (ts ++ semi :: rest).length := by
    cases (ts ++ semi :: rest).length <;> rfl
  rw [hb] at hanswers
  have hstop : StopsExpression (semi :: rest) :=
    stopsExpression_of_nextIs (nextIs_cons.mpr hs) (by simp)
  have hshort := hanswers h (by simp only [List.length_append]; omega) 0 _ hstop semi []
  have hwhole := hanswers hlong (Nat.lt_succ_self _) 0 [] stopsExpression_nil semi []
  rw [List.append_nil, hshort] at hwhole
  cases hwhole

/-- A statement begins with a word or a brace of its own, or is an expression and a semicolon. -/
theorem statement_cases {inLoop dangling : Bool} (h : Reads (.statement inLoop dangling s) ts) :
    (∃ k ∈ statementWords, NextIs k ts) ∨
      ∃ e us semi, ts = us ++ [semi] ∧ Reads (.expression e) us ∧ semi.kind = .semicolon := by
  cases h with
  | exprStmt he hs => exact .inr ⟨_, _, _, rfl, he, hs⟩
  | printStmt hw | block hw | ifStmt hw | ifElse hw | whileStmt hw | forStmt hw | breakStmt hw
  | returnStmt hw => exact .inl ⟨_, by simp [statementWords], nextIs_cons.mpr hw⟩

theorem statementWords_not_expression :
    ∀ k ∈ statementWords, startsExpression k = false := by
  simp [statementWords, startsExpression]

theorem not_reads_both (h : Reads (.declarations false ss) ts) : ¬ Reads (.expression e) ts := by
  intro he
  have hopens : OpensExpression ts := he.opens
  cases h with
  | declarationsEnd => exact absurd hopens.length_pos (Nat.lt_irrefl 0)
  | declarationsStep hfirst _ =>
    cases hfirst with
    | funDecl hw hn =>
      obtain ⟨word, us, heq, -, hparen⟩ := hopens
      cases heq
      exact (hparen hw).ne (by simp) (nextIs_cons.mpr hn)
    | varDecl hw => exact hopens.not_nextIs rfl (nextIs_cons.mpr hw)
    | statement hst =>
      rcases statement_cases hst with ⟨k, hk, hnext⟩ | ⟨e', us, semi, rfl, he', hs⟩
      · exact hopens.not_nextIs (statementWords_not_expression k hk) hnext.append
      · rw [List.append_assoc] at he
        exact not_reads_past_semicolon he' hs he

theorem forLoop_ne_exprStmt {initial : Option (Stmt Unit)}
    {condition increment : Option (Expr Unit)} {body : Stmt Unit} :
    forLoop initial condition increment body ≠ .exprStmt e := by
  intro h
  cases initial <;> cases h

/-- The one statement of a program is an expression exactly if the tokens before its semicolon spell
that expression. -/
theorem reads_exprStmt_iff (hs : semi.kind = .semicolon) :
    Reads (.declarations false [.exprStmt e]) (ts ++ [semi]) ↔ Reads (.expression e) ts := by
  constructor
  · intro h
    generalize htokens : ts ++ [semi] = us at h
    cases h with
    | declarationsStep hfirst hothers =>
      cases hothers
      rw [List.append_nil] at htokens
      subst htokens
      generalize hstmt : Stmt.exprStmt e = s at hfirst
      generalize htokens : ts ++ [semi] = us at hfirst
      cases hfirst with
      | varDecl _ hv => cases hv <;> cases hstmt
      | statement hst =>
        cases hst with
        | exprStmt he _ =>
          cases hstmt
          rwa [(List.append_inj' htokens rfl).1]
        | forStmt => exact absurd hstmt.symm forLoop_ne_exprStmt
        | _ => cases hstmt
      | _ => cases hstmt
  · intro h
    have hfirst : Reads (.declaration false (.exprStmt e)) (ts ++ [semi]) :=
      .statement (.exprStmt h hs)
    simpa only [List.append_nil] using hfirst.declarationsStep .declarationsEnd

end Expression

section Command

variable {source : String}

/-- The answer to a request to parse, if a single expression were tried before a program. -/
def expressionFirst (source : String) : Response :=
  let errors := Source.errors source
  let input := Input.ofSource source
  match parseExpression input with
  | .ok e => ⟨Command.lexicalExit errors, Command.unlines [e.text], Command.lexicalText errors⟩
  | .error _ =>
    match parseProgram input with
    | .ok statements =>
      ⟨Command.lexicalExit errors, Command.unlines (statements.map Stmt.text),
        Command.lexicalText errors⟩
    | .error faults =>
      ⟨Response.staticError, "", Command.lexicalText errors ++
        Command.unlines (faults.map fun e => (Diagnostic.syntactic e).text)⟩

theorem parse_eq_expressionFirst : Command.parse source = expressionFirst source := by
  simp only [Command.parse, expressionFirst]
  cases hprogram : parseProgram (.ofSource source) with
  | error faults => cases parseExpression (.ofSource source) <;> rfl
  | ok ss =>
    cases hexpression : parseExpression (.ofSource source) with
    | error faults => rfl
    | ok e =>
      exact absurd (parseExpression_ok_iff_reads.mp hexpression)
        (not_reads_both ((parseProgram_ok_iff_reads _ ss).mp hprogram))

end Command

/-- Tokens are a single expression exactly if they are, with a semicolon after them, a program of
that expression alone. No tokens are both a program and a single expression, so a request to parse
has the same answer whichever of the two is tried first. -/
theorem entry_points_agree :
    (∀ ts semi eof eof', (∀ t ∈ ts, t.kind ≠ .endOfFile) → semi.kind = .semicolon →
      eof.kind = .endOfFile → eof'.kind = .endOfFile →
      ∃ alone stated, Input.ofTokens? (ts ++ [eof]) = some alone ∧
        Input.ofTokens? (ts ++ [semi, eof']) = some stated ∧
        (∀ e, parseExpression alone = .ok e ↔ parseProgram stated = .ok [.exprStmt e]) ∧
        ¬ ((∃ ss, parseProgram alone = .ok ss) ∧ ∃ e, parseExpression alone = .ok e)) ∧
    ∀ source, Command.parse source = expressionFirst source := by
  refine ⟨fun ts semi eof eof' hts hs he he' => ?_, fun source => parse_eq_expressionFirst⟩
  have halone := ofTokens_append hts he
  have hstated : Input.ofTokens? (ts ++ [semi] ++ [eof']) = some ⟨ts ++ [semi], eof'⟩ := by
    refine ofTokens_append (List.forall_mem_append.mpr ⟨hts, ?_⟩) he'
    simp [hs]
  rw [List.append_assoc] at hstated
  refine ⟨_, _, halone, hstated, fun e => ?_, ?_⟩
  · rw [parseExpression_ok_iff_reads, parseProgram_ok_iff_reads, reads_exprStmt_iff hs]
  · rintro ⟨⟨ss, hss⟩, e, he⟩
    exact not_reads_both ((parseProgram_ok_iff_reads _ ss).mp hss)
      (parseExpression_ok_iff_reads.mp he)

theorem assigned_function_entry_points :
    let name (lexeme : String) : Token := ⟨.identifier, lexeme, 1⟩
    let ts : List Token := [name "f", delimiter .equal, delimiter .funWord, delimiter .leftParen,
      delimiter .rightParen, delimiter .leftBrace, name "x", delimiter .semicolon,
      delimiter .rightBrace]
    let e : Expr Unit := .assign () (name "f") (.lambda [] [.exprStmt (.ident () (name "x"))])
    (∀ t ∈ ts, t.kind ≠ .endOfFile) ∧ parseExpression ⟨ts, delimiter .endOfFile⟩ = .ok e ∧
      parseProgram ⟨ts ++ [delimiter .semicolon], delimiter .endOfFile⟩ = .ok [.exprStmt e] ∧
      ∀ ss, parseProgram ⟨ts, delimiter .endOfFile⟩ ≠ .ok ss := by
  intro name ts e
  have hts : ∀ t ∈ ts, t.kind ≠ .endOfFile := by decide
  obtain ⟨alone, stated, halone, hstated, hiff, hboth⟩ := entry_points_agree.1 ts
    (delimiter .semicolon) (delimiter .endOfFile) (delimiter .endOfFile) hts rfl rfl rfl
  cases halone
  cases hstated
  have hparse : parseExpression ⟨ts, delimiter .endOfFile⟩ = .ok e := rfl
  exact ⟨hts, hparse, (hiff e).mp hparse, fun ss hss => hboth ⟨⟨ss, hss⟩, e, hparse⟩⟩

end ScriptLang.Parsing
