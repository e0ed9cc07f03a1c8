import ScriptLang.Proofs.Grammar.Rewriting
import ScriptLang.Proofs.Grammar.Writing
import ScriptLang.Proofs.Parsing.Acceptance

namespace ScriptLang.Parsing

open Syntax Grammar

theorem reads_not_endOfFile {p : Phrase} {ts : List Token} (h : Reads p ts) :
    ∀ t ∈ ts, t.kind ≠ .endOfFile := by
  induction h with
  | @literal v t hv =>
    refine List.forall_mem_singleton.mpr fun he => ?_
    rw [he] at hv
    cases hv
  | @chainStep l _ _ _ operator _ _ ho _ _ ih ihc =>
    have hop : operator.kind ≠ .endOfFile := by
      intro he
      rw [he] at ho
      cases l <;> simp [Level.operators] at ho
    simp only [List.forall_mem_cons, List.forall_mem_append]
    exact ⟨hop, ih, ihc⟩
  | @unary operator _ _ ho _ ih =>
    have hop : operator.kind ≠ .endOfFile := by
      intro he
      simp [he] at ho
    exact List.forall_mem_cons.mpr ⟨hop, ih⟩
  | _ => simp_all only [List.forall_mem_cons, List.forall_mem_append, List.not_mem_nil,
      List.mem_singleton, false_implies, implies_true, ne_eq, reduceCtorEq, not_false_eq_true,
      and_self]

theorem ofTokens_append {ts : List Token} {eof : Token} (h : ∀ t ∈ ts, t.kind ≠ .endOfFile)
    (he : eof.kind = .endOfFile) : Input.ofTokens? (ts ++ [eof]) = some ⟨ts, eof⟩ := by
  have hfind : (ts ++ [eof]).find? (·.kind = .endOfFile) = some eof := by
    rw [List.find?_append, List.find?_eq_none.mpr (by simpa using h)]
    simp [he]
  have htake : (ts ++ [eof]).takeWhile (·.kind ≠ .endOfFile) = ts := by
    rw [List.takeWhile_append_of_pos (by simpa using h)]
    simp [he]
  simp only [Input.ofTokens?, List.getLast?_append_of_ne_nil _ (List.cons_ne_nil eof []),
    List.getLast?_singleton, hfind, he, if_true, htake]

/-- A program of the right shape is parsed from what it is written as. A program that is parsed has
that shape, and without `for` it is written with tokens of the kinds it was parsed from. -/
theorem parseProgram_round_trip :
    (∀ ss eof, Stmt.AllShaped false ss → eof.kind = .endOfFile →
      ∃ input, Input.ofTokens? (Stmt.allTokens ss ++ [eof]) = some input ∧
        parseProgram input = .ok ss) ∧
    ∀ input ss, parseProgram input = .ok ss → Stmt.AllShaped false ss ∧
      (.forWord ∉ input.tokens.map Token.kind →
        (Stmt.allTokens ss).map Token.kind = input.tokens.map Token.kind) := by
  constructor
  · intro ss eof hs he
    have hreads := declarations_reads ss false hs
    have hinput := ofTokens_append (reads_not_endOfFile hreads) he
    exact ⟨_, hinput, (parseProgram_ok_iff_reads _ ss).mpr hreads⟩
  · intro input ss hp
    have hreads := (parseProgram_ok_iff_reads input ss).mp hp
    exact ⟨hreads.shaped, fun hfor => hreads.respelled hfor⟩

theorem braced_branch_round_trip :
    let x : Token := ⟨.identifier, "x", 1⟩
    let read : Stmt Unit := .exprStmt (.ident () x)
    let negate : Expr Unit := .unary ⟨.bang, "!", 1⟩ (.ident () x)
    let ss : List (Stmt Unit) := [.ifStmt (.ident () x) (.block [.ifStmt negate read none])
      (some (.exprStmt (.assign () x (.logical (.ident () x) ⟨.orWord, "or", 1⟩ negate))))]
    ∃ input, Input.ofTokens? (Stmt.allTokens ss ++ [delimiter .endOfFile]) = some input ∧
      parseProgram input = .ok ss ∧
      (Stmt.allTokens ss).map Token.kind = input.tokens.map Token.kind := by
  intro x read negate ss
  have hshape : Stmt.AllShaped false ss := by
    simp [ss, negate, read, x, Stmt.AllShaped, Stmt.Shaped, Expr.Shaped, Stmt.isBody, Stmt.isOpen,
      Expr.rank, operatorLevel, Level.rank]
  obtain ⟨input, hinput, hparse⟩ := parseProgram_round_trip.1 ss (delimiter .endOfFile) hshape rfl
  obtain ⟨-, hkinds⟩ := parseProgram_round_trip.2 input ss hparse
  cases hinput
  exact ⟨_, rfl, hparse, hkinds (by decide +kernel)⟩

end ScriptLang.Parsing
