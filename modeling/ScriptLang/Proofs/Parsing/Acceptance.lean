import ScriptLang.Proofs.Grammar.Closure
import ScriptLang.Proofs.Parsing.Completeness
import ScriptLang.Proofs.Parsing.Soundness

namespace ScriptLang.Parsing

open Syntax Grammar

section Input

variable {tokens : List Token} {last : Token}

/-- A list that ends with the end of a file is read up to the first such token. -/
theorem ofTokens_eq (hl : tokens.getLast? = some last) (hk : last.kind = .endOfFile) :
    ∃ input after, Input.ofTokens? tokens = some input ∧
      tokens = input.tokens ++ input.eof :: after ∧ input.eof.kind = .endOfFile ∧
      ∀ t ∈ input.tokens, t.kind ≠ .endOfFile := by
  have hmem : last ∈ tokens := List.mem_of_getLast? hl
  cases hf : tokens.find? (·.kind = .endOfFile) with
  | none =>
    have hnone := List.find?_eq_none.mp hf last hmem
    simp [hk] at hnone
  | some eof =>
    obtain ⟨he, us, vs, rfl, hus⟩ := List.find?_eq_some_iff_append.mp hf
    have heof : eof.kind = .endOfFile := by simpa using he
    have hbefore : ∀ t ∈ us, t.kind ≠ .endOfFile := by
      intro t ht
      simpa using hus t ht
    have htake : (us ++ eof :: vs).takeWhile (·.kind ≠ .endOfFile) = us := by
      rw [List.takeWhile_append_of_pos (by simpa using hbefore)]
      simp [heof]
    refine ⟨⟨us, eof⟩, vs, ?_, rfl, heof, hbefore⟩
    simp only [Input.ofTokens?, hl, hf, hk, if_true, htake]

end Input

section Program

variable (input : Input)

theorem program_never_exhausted :
    program (declaration input.rules) (input.tokens.length + 1) input.eof input.start ≠
      .exhausted := by
  have hbound : input.rules.bound = input.tokens.length + 1 := rfl
  have ht := declaration_tame (rules_tame (input.tokens.length + 1))
  have hp := program_tame ht (input.tokens.length + 1) (Nat.le_refl _) input.eof input.start
  intro he
  change Stays _ _ _ (program (declaration input.rules) _ input.eof input.start) at hp
  rw [he] at hp
  have hlen : input.tokens.length + 1 ≤ input.tokens.length := hp
  omega

/-- The parser answers with a tree exactly if all the tokens spell it. -/
theorem parseProgram_ok_iff_reads (ss : List (Stmt Unit)) :
    parseProgram input = .ok ss ↔ Reads (.declarations false ss) input.tokens := by
  constructor
  · intro h
    have hsound := declaration_spells (rules_sound (input.tokens.length + 1))
    have hp := program_spells (fun eof s => hsound eof s (rules_tame _)) (input.tokens.length + 1)
      input.eof input.start
    unfold parseProgram at h
    split at h
    · next statements s ho =>
      split at h
      · next hempty =>
        cases h
        change Spells _ _ (program (declaration input.rules) _ input.eof input.start) at hp
        rw [ho] at hp
        have herrors : s.errors = input.start.errors := List.isEmpty_iff.mp hempty
        obtain ⟨ts, hts, hrest, hreads⟩ := hp.2 herrors
        rw [hrest, List.append_nil] at hts
        have hall : input.tokens = ts := hts
        rw [hall]
        exact hreads
      · cases h
    · cases h
    · cases h
  · intro h
    have hcomplete := declaration_takes (rules_complete (input.tokens.length + 1))
    have hd : (Syntax.rules (input.tokens.length + 1)).bound = input.tokens.length + 1 := rfl
    rw [hd] at hcomplete
    have hp := program_takes (d := 0) hcomplete h (Nat.lt_succ_self _) (by omega) (by simp)
    have hrun := hp input.eof []
    rw [List.append_nil] at hrun
    have hstart :
        program (declaration input.rules) (input.tokens.length + 1) input.eof input.start =
          .done ss ⟨[], 0, []⟩ := hrun
    simp [parseProgram, hstart]

theorem parseProgram_error (h : ∀ ss, parseProgram input ≠ .ok ss) :
    ∃ e es, parseProgram input = .error (e :: es) := by
  have hne := program_never_exhausted input
  unfold parseProgram at h ⊢
  cases ho : program (declaration input.rules) (input.tokens.length + 1) input.eof input.start with
  | done statements s =>
    simp only [ho] at h ⊢
    cases herr : s.errors with
    | nil => simp [herr] at h
    | cons e es => exact ⟨e, es, rfl⟩
  | failed e s =>
    simp only
    cases s.errors with
    | nil => exact ⟨e, [], rfl⟩
    | cons e' es => exact ⟨e', es ++ [e], rfl⟩
  | exhausted => exact absurd ho hne

end Program

/-- The parser answers with statements exactly if the grammar derives the kinds of the tokens up to
the first end of a file. Otherwise it answers with errors, at least one. The statements of an answer
account for every token: nothing was dropped on the way to them. -/
theorem parseProgram_accepts_grammar {tokens : List Token} {last : Token}
    (hl : tokens.getLast? = some last) (hk : last.kind = .endOfFile) :
    ∃ input after, Input.ofTokens? tokens = some input ∧
      tokens = input.tokens ++ input.eof :: after ∧ input.eof.kind = .endOfFile ∧
      (∀ t ∈ input.tokens, t.kind ≠ .endOfFile) ∧
      ((∃ ss, parseProgram input = .ok ss) ↔
        Derives rules (.rule .program) ((input.tokens ++ [input.eof]).map Token.kind)) ∧
      ((∃ ss, parseProgram input = .ok ss) ∨ ∃ e es, parseProgram input = .error (e :: es)) ∧
      ∀ ss, parseProgram input = .ok ss → Reads (.declarations false ss) input.tokens := by
  obtain ⟨input, after, hof, htokens, heof, hbefore⟩ := ofTokens_eq hl hk
  refine ⟨input, after, hof, htokens, heof, hbefore, ?_, ?_, ?_⟩
  · rw [List.map_append, List.map_singleton, heof, derives_program_iff]
    exact exists_congr (parseProgram_ok_iff_reads input)
  · by_cases hok : ∃ ss, parseProgram input = .ok ss
    · exact .inl hok
    · exact .inr (parseProgram_error input (not_exists.mp hok))
  · exact fun ss => (parseProgram_ok_iff_reads input ss).mp

theorem grammar_excludes_break :
    ¬ Derives rules (.rule .program) [.breakWord, .semicolon, .endOfFile] := by
  obtain ⟨input, after, hof, -, -, -, hiff, -, -⟩ := @parseProgram_accepts_grammar
    [⟨.breakWord, "break", 1⟩, ⟨.semicolon, ";", 1⟩, ⟨.endOfFile, "", 1⟩] _ rfl rfl
  cases hof
  intro hd
  obtain ⟨ss, hss⟩ := hiff.mpr hd
  have herror : parseProgram ⟨[⟨.breakWord, "break", 1⟩, ⟨.semicolon, ";", 1⟩],
      ⟨.endOfFile, "", 1⟩⟩ = .error [⟨.breakOutsideLoop, ⟨.breakWord, "break", 1⟩⟩] := rfl
  cases herror.symm.trans hss

end ScriptLang.Parsing
