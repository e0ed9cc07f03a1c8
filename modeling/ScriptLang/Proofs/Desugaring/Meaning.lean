import ScriptLang.Proofs.Desugaring.Loops
import ScriptLang.Proofs.Grammar.Rewriting
import ScriptLang.Proofs.Parsing.Soundness

namespace ScriptLang.Desugaring

open Evaluation Scope Grammar Syntax
open Running (Prolongs RanOut evaluate_execute_prolong)

section Resolution

variable (inFunction : Bool) {S : Stack} (l : ForLoop Unit)

theorem scopes_settled (h : HeadSettled S) : HeadSettled (l.scopes inFunction S) := by
  unfold ForLoop.scopes
  cases l.initial with
  | none => exact h
  | some s =>
    apply Stmt.resolve_settled
    rintro _ ⟨⟩
    exact settled_nil

theorem resolve_step {S : Stack} (h : HeadSettled S) {body : Stmt Unit}
    (hbody : body.undeclaring = true) (e : Expr Unit) :
    ((Stmt.block [body, .exprStmt e]).resolve inFunction S).1 =
      .block [(body.resolve inFunction S).1.skip (reach [false]),
        .exprStmt ((e.resolve S).1.skip (reach [false]))] := by
  have hfits : Fits [] S := fun _ => h
  -- the body declares nothing, so the scope is as empty for the increment as for the body
  obtain ⟨T, hlength, -, hresolve⟩ := body.resolve_gap inFunction hfits fun _ => hbody
  obtain rfl : T = [] := List.eq_nil_of_length_eq_zero hlength
  have he := e.resolve_gap hfits
  rw [List.nil_append, List.nil_append] at hresolve he
  simp only [Stmt.resolve, Stmt.resolveAll, hresolve, he]
  rfl

theorem resolve_while {S : Stack} (h : HeadSettled S) (condition increment : Option (Expr Unit))
    {body : Stmt Unit} (hbody : body.undeclaring = true) :
    ((ForLoop.statement ⟨none, condition, increment, body⟩).resolve inFunction S).1 =
      (ForLoop.resolve inFunction S ⟨none, condition, increment, body⟩).whileTree := by
  have hcondition : ((condition.getD (.literal (.boolean true))).resolve S).1 =
      (condition.map fun e => (e.resolve S).1).getD (.literal (.boolean true)) := by
    cases condition <;> rfl
  cases increment with
  | none =>
    change Stmt.whileStmt _ (body.resolve inFunction S).1 = _
    rw [hcondition]
    rfl
  | some e =>
    change Stmt.whileStmt _ ((Stmt.block [body, .exprStmt e]).resolve inFunction S).1 = _
    rw [hcondition, resolve_step inFunction h hbody]
    rfl

/-- The tree that is read, with its names resolved, is that of the loop whose clauses and body are
resolved. -/
theorem resolve_statement (h : HeadSettled S) (hbody : l.body.undeclaring = true) :
    (l.statement.resolve inFunction S).1 = (l.resolve inFunction S).tree := by
  have hinside := scopes_settled inFunction l h
  obtain ⟨initial, condition, increment, body⟩ := l
  cases initial with
  | none => exact resolve_while inFunction h condition increment hbody
  | some s =>
    have hwhile := resolve_while inFunction hinside condition increment hbody
    change Stmt.block [_, _] = Stmt.block [_, _]
    rw [Stmt.block.injEq, List.cons.injEq, List.cons.injEq]
    exact ⟨rfl, hwhile, rfl⟩

end Resolution

section Reading

/-- The tokens of a `for` after its word. -/
inductive ForLoop.Spelled (l : ForLoop Unit) : List Token → Prop
  | intro {left semi right : Token} {is cs ns bs : List Token} {dangling : Bool}
      (hl : left.kind = .leftParen) (hi : Reads (.initial l.initial) is)
      (hc : Reads (.optional l.condition) cs) (hs : semi.kind = .semicolon)
      (hn : Reads (.optional l.increment) ns) (hr : right.kind = .rightParen)
      (hb : Reads (.statement true dangling l.body) bs) :
      l.Spelled (left :: (is ++ (cs ++ semi :: (ns ++ right :: bs))))

variable {l : ForLoop Unit} {ts : List Token}

theorem spelled_of_reads {inLoop dangling : Bool} {s : Stmt Unit} {word : Token}
    (hword : word.kind = .forWord) (h : Reads (.statement inLoop dangling s) (word :: ts)) :
    ∃ l : ForLoop Unit, s = l.statement ∧ l.Spelled ts := by
  generalize hp : Phrase.statement inLoop dangling s = p at h
  generalize hts : word :: ts = us at h
  cases h with
  | forStmt hw hl hi hc hs hn hr hb =>
    cases hp
    cases hts
    exact ⟨⟨_, _, _, _⟩, rfl, .intro hl hi hc hs hn hr hb⟩
  | exprStmt he hs =>
    have hopens : OpensExpression (word :: ts) := hts ▸ he.opens.append
    exact absurd (nextIs_cons.mpr hword) (hopens.not_nextIs rfl)
  | printStmt hw | block hw | ifStmt hw | ifElse hw | whileStmt hw | breakStmt hw
  | returnStmt hw =>
    cases hts
    cases hword.symm.trans hw
  | _ => cases hp

theorem ForLoop.Spelled.undeclaring (h : l.Spelled ts) : l.body.undeclaring = true := by
  obtain ⟨-, -, -, -, -, -, hb⟩ := h
  obtain ⟨hshape, hbody, -⟩ := hb.shaped
  exact l.body.undeclaring_of_shaped hbody hshape

theorem ForLoop.Spelled.isClause (h : l.Spelled ts) : ∀ s ∈ l.initial, s.isClause = true := by
  obtain ⟨-, hi, -, -, -, -, -⟩ := h
  intro s hs
  rw [Option.mem_def.mp hs] at hi
  cases hi with
  | initialVariable _ hv => cases hv <;> rfl
  | initialExpression _ _ => rfl

end Reading

section Agreement

variable (l : ForLoop Binding)

theorem Ends.ranOut_iff {m n : Machine} {base : Nat} {w : World} {A : World → Flow → Flow → Prop}
    {r r' : EStateM.Result Stop Machine Flow} (h : Ends base w m n A r r') :
    RanOut r ↔ RanOut r' := by
  cases h with
  | ok hpasses ha => exact ⟨fun ⟨_, h⟩ => (nomatch h), fun ⟨_, h⟩ => (nomatch h)⟩
  | error hpasses hstop =>
    cases hstop with
    | exhausted => exact ⟨fun _ => ⟨_, rfl⟩, fun _ => ⟨_, rfl⟩⟩
    | _ => exact ⟨fun ⟨_, h⟩ => (nomatch h), fun ⟨_, h⟩ => (nomatch h)⟩

/-- What one of the tree and the loop comes to, given fuel, the other comes to with a little more.
-/
theorem tree_agrees (hbody : l.body.undeclaring = true)
    (hinitial : ∀ s ∈ l.initial, s.isClause = true) {m : Machine} (hm : m.Closed) (fuel : Nat) :
    (¬ RanOut (execute fuel l.tree m) →
        SameEnd (l.entered m) (execute fuel l.tree m) (l.run (fuel + 4) m)) ∧
      (¬ RanOut (l.run fuel m) →
        SameEnd (l.entered m) (execute (fuel + 4) l.tree m) (l.run fuel m)) := by
  obtain ⟨run, hless, hmore, hsame⟩ := tree_follows l fuel hbody hinitial
  have hend := hsame hm
  constructor
  · intro htree
    have heq : execute fuel l.tree m = execute (fuel + 4) l.tree m :=
      ((evaluate_execute_prolong (Nat.le_add_right fuel 4)).2 l.tree m).resolve_left htree
    rw [heq] at htree ⊢
    have hrun : ¬ RanOut (run m) := fun h => htree (hend.ranOut_iff.mpr h)
    rwa [← (hmore m).resolve_left hrun]
  · intro hrun
    rwa [(hless m).resolve_left hrun]

end Agreement

section Statement

theorem undeclaring_of_spelled {l : ForLoop Unit} {ts : List Token} (h : l.Spelled ts)
    (inFunction : Bool) (S : Stack) : (l.resolve inFunction S).body.undeclaring = true :=
  (Stmt.undeclaring_resolve inFunction _ l.body).trans h.undeclaring

theorem isClause_resolve (inFunction : Bool) (S : Stack) (s : Stmt Unit) :
    (s.resolve inFunction S).1.isClause = s.isClause := by
  cases s with
  | varDecl name initial => cases initial <;> rfl
  | ifStmt condition yes no => cases no <;> rfl
  | returnStmt keyword value => cases value <;> rfl
  | _ => rfl

theorem isClause_of_spelled {l : ForLoop Unit} {ts : List Token} (h : l.Spelled ts)
    (inFunction : Bool) (S : Stack) :
    ∀ s ∈ (l.resolve inFunction S).initial, s.isClause = true := by
  intro s hs
  obtain ⟨s', hs', rfl⟩ := Option.map_eq_some_iff.mp hs
  rw [isClause_resolve]
  exact h.isClause s' hs'

/-- A `for` is the loop that its clauses and its body tell of. Whatever scopes it stands in and
whatever machine it is executed on, the tree that is read for it and the loop come to the same end,
as soon as either has the fuel to come to one. The frame in which the loop executes its first clause
and runs all its rounds is one of those that both have in common. Statements stand in scopes that
are settled (`Stmt.resolve_settled`), and running leads to machines that are closed
(`runAll_closed`). -/
theorem for_statement_is_direct_loop {depth : Nat} {eof word : Token} {rest : List Token}
    {t u : State} {s : Stmt Unit} (hrest : t.rest = word :: rest) (hword : word.kind = .forWord)
    (hread : (Syntax.rules depth).statement eof t = .done s u) (herrors : u.errors = t.errors) :
    ∃ (l : ForLoop Unit) (ts : List Token), rest = ts ++ u.rest ∧ l.Spelled ts ∧
      ∀ (inFunction : Bool) {S : Stack}, HeadSettled S →
        let tree := (s.resolve inFunction S).1
        let loop := l.resolve inFunction S
        (∀ fuel n, loop.parts fuel fuel fuel fuel n = loop.partsIn n.current fuel n) ∧
          ∀ {m : Machine}, m.Closed → ∀ fuel,
            (¬ RanOut (execute fuel tree m) →
              SameEnd (loop.entered m) (execute fuel tree m) (loop.run (fuel + 4) m)) ∧
            (¬ RanOut (loop.run fuel m) →
              SameEnd (loop.entered m) (execute (fuel + 4) tree m) (loop.run fuel m)) := by
  have hspells := (Parsing.rules_sound depth).statement eof t
  rw [hread] at hspells
  obtain ⟨ts, hts, dangling, hreads, -⟩ := hspells.2 herrors
  obtain ⟨word', ts, rfl, -⟩ := OpensStatement.declaration hreads.opens
  obtain ⟨rfl, hts'⟩ := List.cons.inj (hrest.symm.trans hts)
  obtain ⟨l, rfl, hl⟩ := spelled_of_reads hword hreads
  refine ⟨l, ts, hts', hl, fun inFunction S hS => ?_⟩
  intro tree loop
  have htree : tree = loop.tree := resolve_statement inFunction l hS hl.undeclaring
  rw [htree]
  exact ⟨rounds_share_frame loop, tree_agrees loop (undeclaring_of_spelled hl inFunction S)
    (isClause_of_spelled hl inFunction S)⟩

theorem for_with_break_is_direct_loop :
    let word : Token := ⟨.forWord, "for", 1⟩
    let i : Token := ⟨.identifier, "i", 1⟩
    let semi : Token := ⟨.semicolon, ";", 1⟩
    let rest : List Token := [⟨.leftParen, "(", 1⟩, ⟨.varWord, "var", 1⟩, i, ⟨.equal, "=", 1⟩,
      ⟨.nilWord, "nil", 1⟩, semi, semi, i, ⟨.rightParen, ")", 1⟩, ⟨.breakWord, "break", 1⟩, semi]
    let m : Machine := Machine.start [] .unlimited
    ∃ (s : Stmt Unit) (l : ForLoop Unit),
      (Syntax.rules 12).statement ⟨.endOfFile, "", 1⟩ ⟨word :: rest, 0, []⟩ =
        .done s ⟨[], 0, []⟩ ∧ l.Spelled rest ∧
      ¬ RanOut (execute 5 (s.resolve false []).1 m) ∧
      SameEnd ((l.resolve false []).entered m) (execute 5 (s.resolve false []).1 m)
        ((l.resolve false []).run 9 m) := by
  intro word i semi rest m
  have hread : (Syntax.rules 12).statement ⟨.endOfFile, "", 1⟩ ⟨word :: rest, 0, []⟩ =
      .done (.block [.varDecl i (some (.literal .nil)),
        .whileStmt (.literal (.boolean true))
          (.block [.breakStmt ⟨.breakWord, "break", 1⟩, .exprStmt (.ident () i)])])
        ⟨[], 0, []⟩ := rfl
  obtain ⟨l, ts, hts, hl, hsame⟩ := for_statement_is_direct_loop rfl rfl hread rfl
  rw [List.append_nil] at hts
  subst hts
  have hsettled : HeadSettled [] := fun _ h => nomatch h
  have hends : ¬ RanOut (execute 5 (Stmt.resolve false []
      (.block [.varDecl i (some (.literal .nil)), .whileStmt (.literal (.boolean true))
        (.block [.breakStmt ⟨.breakWord, "break", 1⟩, .exprStmt (.ident () i)])])).1 m) := by
    rintro ⟨n, hn⟩
    cases hn
  exact ⟨_, l, hread, hl, hends, ((hsame false hsettled).2 (start_closed [] .unlimited) 5).1 hends⟩

end Statement

end ScriptLang.Desugaring
