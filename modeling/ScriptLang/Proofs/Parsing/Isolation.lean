import ScriptLang.Proofs.Parsing.Acceptance
import ScriptLang.Proofs.Parsing.Extending
import ScriptLang.Proofs.Parsing.RoundTrip

namespace ScriptLang.Parsing

open Syntax Syntax.Reader Grammar

inductive Declares (p : Reader (Option (Stmt Unit))) (eof : Token) :
    State → List (Stmt Unit) → State → Prop where
  | refl {s : State} : Declares p eof s [] s
  | step {s t u : State} {first : Option (Stmt Unit)} {others : List (Stmt Unit)}
      (hs : s.rest ≠ []) (h : p eof s = .done first t) (ht : Declares p eof t others u) :
      Declares p eof s (first.toList ++ others) u

section Declaring

variable {p q : Reader (Option (Stmt Unit))} {eof : Token} {s t u : State}
  {ss ss' : List (Stmt Unit)}

theorem Declares.trans (h : Declares p eof s ss t) (h' : Declares p eof t ss' u) :
    Declares p eof s (ss ++ ss') u := by
  induction h with
  | refl => exact h'
  | step hs hp _ ih =>
    rw [List.append_assoc]
    exact .step hs hp (ih h')

theorem program_of_nil {bound : Nat} (h : s.rest = []) :
    program p (bound + 1) eof s = .done [] s := by
  simp only [program, monadLift_self, bind_apply, atEnd, h, List.isEmpty_nil, if_true, pure_apply]

theorem program_of_done {bound : Nat} {first : Option (Stmt Unit)} (hs : s.rest ≠ [])
    (h : p eof s = .done first t) :
    program p (bound + 1) eof s = match program p bound eof t with
      | .done others u => .done (first.toList ++ others) u
      | .failed e u => .failed e u
      | .exhausted => .exhausted := by
  have hempty : s.rest.isEmpty = false := by simpa using hs
  simp only [program, monadLift_self, bind_apply, atEnd, hempty, Bool.false_eq_true, if_false, h]
  cases program p bound eof t <;> rfl

/-- Reading a program is reading declarations until no token is left. -/
theorem program_of_declares {n : Nat} (hp : TameAhead n 1 p) (h : Declares p eof s ss u)
    (hu : u.rest = []) {bound : Nat} (hb : s.rest.length < bound) :
    program p bound eof s = .done ss u := by
  induction h generalizing bound with
  | refl =>
    obtain ⟨bound, rfl⟩ := Nat.exists_eq_add_one_of_ne_zero (Nat.ne_zero_of_lt hb)
    exact program_of_nil hu
  | @step s t u first others hs hdone _ ih =>
    obtain ⟨bound, rfl⟩ := Nat.exists_eq_add_one_of_ne_zero (Nat.ne_zero_of_lt hb)
    have htaken := hp eof s hs
    rw [hdone] at htaken
    have hlt : t.rest.length < bound := by
      have := htaken.2
      omega
    rw [program_of_done hs hdone, ih hu hlt]

theorem declares_of_program (hp : ∀ s, ∃ o t, p eof s = .done o t ∨ p eof s = .exhausted)
    {bound : Nat} (h : program p bound eof s ≠ .exhausted) :
    ∃ ss u, Declares p eof s ss u ∧ u.rest = [] ∧ program p bound eof s = .done ss u := by
  induction bound generalizing s with
  | zero => exact absurd rfl h
  | succ bound ih =>
    by_cases hs : s.rest = []
    · exact ⟨[], s, .refl, hs, program_of_nil hs⟩
    · obtain ⟨o, t, hdone | hexhausted⟩ := hp s
      · rw [program_of_done hs hdone] at h ⊢
        obtain ⟨ss, u, hd, hu, hprogram⟩ := ih (s := t) (by
          intro he
          simp [he] at h)
        rw [hprogram]
        exact ⟨o.toList ++ ss, u, .step hs hdone hd, hu, rfl⟩
      · have hempty : s.rest.isEmpty = false := by simpa using hs
        simp [program, monadLift_self, bind_apply, atEnd, hempty, hexhausted] at h

variable {more : List Token} {past : List Error}

/-- The declarations before a seam are read in front of it as they are read alone. -/
theorem Declares.extended
    (hpq : Extends more past (Sealed more) (fun _ => Standing more) p q)
    (h : Declares p eof s ss t) (hs : Standing more s.rest) :
    Declares q eof (s.extended more past) ss (t.extended more past) := by
  induction h with
  | refl => exact .refl
  | @step s t u first others hne hdone _ ih =>
    have hsealed : Sealed more s.rest := hs.resolve_right hne
    have hq := hpq eof s hsealed
    rw [hdone] at hq
    have hne' : (s.extended more past).rest ≠ [] := by simp [State.extended, hne]
    exact .step hne' hq.1 (ih hq.2)

end Declaring

section Program

/-- A program, if nothing was recorded. -/
def verdict (ss : List (Stmt Unit)) (errors : List Error) :
    Except (List Error) (List (Stmt Unit)) :=
  if errors.isEmpty then .ok ss else .error errors

def errorsOf : Except (List Error) (List (Stmt Unit)) → List Error
  | .ok _ => []
  | .error errors => errors

/-- Two programs, one after the other, or the errors of both. -/
def joined : Except (List Error) (List (Stmt Unit)) → Except (List Error) (List (Stmt Unit)) →
    Except (List Error) (List (Stmt Unit))
  | .ok ss, .ok ss' => .ok (ss ++ ss')
  | a, b => .error (errorsOf a ++ errorsOf b)

theorem verdict_append (ss ss' : List (Stmt Unit)) (es es' : List Error) :
    verdict (ss ++ ss') (es ++ es') = joined (verdict ss es) (verdict ss' es') := by
  cases es with
  | nil => cases es' <;> rfl
  | cons e es => cases es' <;> simp [verdict, joined, errorsOf]

theorem declaration_done_or_exhausted (r : Rules Reader Unit) (eof : Token) (s : State) :
    ∃ o t, declaration r eof s = .done o t ∨ declaration r eof s = .exhausted := by
  simp only [declaration, Host.recovering, recovering]
  cases declarationOrFail r eof s with
  | done stmt t => exact ⟨_, _, .inl rfl⟩
  | failed e t => exact ⟨_, _, .inl rfl⟩
  | exhausted => exact ⟨none, s, .inr rfl⟩

theorem parseProgram_of_declares {input : Input} {ss : List (Stmt Unit)} {u : State}
    (h : Declares (declaration input.rules) input.eof input.start ss u) (hu : u.rest = []) :
    parseProgram input = verdict ss u.errors := by
  have htame := declaration_tame (rules_tame (input.tokens.length + 1))
  have hrun : program (declaration input.rules) (input.tokens.length + 1) input.eof input.start =
      .done ss u := program_of_declares htame h hu (Nat.lt_succ_self input.tokens.length)
  simp only [parseProgram, hrun, verdict]

theorem parseProgram_declares (input : Input) :
    ∃ ss errors, Declares (declaration input.rules) input.eof input.start ss ⟨[], 0, errors⟩ ∧
      parseProgram input = verdict ss errors := by
  obtain ⟨ss, ⟨rest, depth, errors⟩, hd, hu, hprogram⟩ := declares_of_program
    (declaration_done_or_exhausted input.rules input.eof) (program_never_exhausted input)
  have htame := program_tame (declaration_tame (rules_tame (input.tokens.length + 1)))
    (input.tokens.length + 1) (Nat.le_refl _) input.eof input.start
  change Stays _ _ _ (program (declaration input.rules) _ input.eof input.start) at htame
  rw [hprogram] at htame
  cases (hu : rest = [])
  cases (htame.1.loopDepth : depth = 0)
  exact ⟨ss, errors, hd, parseProgram_of_declares hd rfl⟩

variable {A B : List Token} {eof : Token}

theorem declares_of_reads {p : Reader (Option (Stmt Unit))} {n : Nat}
    (hp : AnswersDeclaration n p) {ss : List (Stmt Unit)}
    (h : Reads (.declarations false ss) A) (hA : A.length < n) (helse : ¬ NextIs .elseWord B) :
    Declares p eof ⟨A ++ B, 0, []⟩ ss ⟨B, 0, []⟩ := by
  induction ss generalizing A with
  | nil =>
    cases h
    exact .refl
  | cons s ss ih =>
    cases h with
    | @declarationsStep _ _ _ us vs hs hss =>
      simp only [List.length_append] at hA
      have hpos : 0 < us.length := hs.opens.length_pos
      have hne : us ++ vs ++ B ≠ [] := by
        rw [← List.length_pos_iff]
        simp only [List.length_append]
        omega
      have hfirst : p eof ⟨us ++ vs ++ B, 0, []⟩ = .done (some s) ⟨vs ++ B, 0, []⟩ := by
        have hseam := declarations_not_else hss helse
        rw [List.append_assoc]
        exact hp hs (by omega) 0 (vs ++ B) (by simp) hseam eof []
      exact .step hne hfirst (ih hss (by omega))

theorem declares_before (h : (∃ ss, parseProgram ⟨A, eof⟩ = .ok ss) ∨ Closed A)
    (helse : ¬ NextIs .elseWord B) {n : Nat} (hn : A.length + 1 ≤ n) :
    ∃ ss errors, Declares (declaration (Syntax.rules n)) eof ⟨A ++ B, 0, []⟩ ss ⟨B, 0, errors⟩ ∧
      parseProgram ⟨A, eof⟩ = verdict ss errors := by
  -- a program is read as far as it goes; anything else stops at its only semicolon
  obtain ⟨ss, hok⟩ | hclosed := h
  · have hreads := (parseProgram_ok_iff_reads ⟨A, eof⟩ ss).mp hok
    have hbound : (Syntax.rules n).bound = n := by cases n <;> rfl
    have htakes := declaration_takes (rules_complete n)
    rw [hbound] at htakes
    exact ⟨ss, [], declares_of_reads htakes hreads (by omega) helse, hok⟩
  · obtain ⟨ss, errors, hdeclares, hverdict⟩ := parseProgram_declares ⟨A, eof⟩
    have hextends := declaration_extends helse (rules_extend helse [] hn)
    exact ⟨ss, errors, hdeclares.extended hextends (.inl (.inr hclosed)), hverdict⟩

/-- What stands behind the seam is read as it is alone, after the errors from before. -/
theorem declares_behind (past : List Error) {n : Nat} (hn : B.length + 1 ≤ n) :
    ∃ ss errors, Declares (declaration (Syntax.rules n)) eof ⟨B, 0, past⟩ ss
        ⟨[], 0, past ++ errors⟩ ∧
      parseProgram ⟨B, eof⟩ = verdict ss errors := by
  obtain ⟨ss, errors, hdeclares, hverdict⟩ := parseProgram_declares ⟨B, eof⟩
  have hextends := declaration_extends not_nextIs_nil (rules_extend not_nextIs_nil past hn)
  have hbehind := hdeclares.extended hextends (.inl (.inl rfl))
  simp only [State.extended, Input.start, List.append_nil] at hbehind
  exact ⟨ss, errors, hbehind, hverdict⟩

end Program

/-- Tokens that are a program, or a statement up to its only semicolon, without braces and without
`for`, keep their errors to themselves: what follows them, and is no `else`, has the errors that it
has alone, after theirs, and where there are none the statements of both are read. -/
theorem errors_stay_in_their_statement {A B : List Token} {eof : Token}
    (hA : ∀ t ∈ A, t.kind ≠ .endOfFile) (hB : ∀ t ∈ B, t.kind ≠ .endOfFile)
    (heof : eof.kind = .endOfFile) (h : (∃ ss, parseProgram ⟨A, eof⟩ = .ok ss) ∨ Closed A)
    (helse : ¬ NextIs .elseWord B) :
    Input.ofTokens? (A ++ [eof]) = some ⟨A, eof⟩ ∧
      Input.ofTokens? (B ++ [eof]) = some ⟨B, eof⟩ ∧
      Input.ofTokens? (A ++ B ++ [eof]) = some ⟨A ++ B, eof⟩ ∧
      parseProgram ⟨A ++ B, eof⟩ = joined (parseProgram ⟨A, eof⟩) (parseProgram ⟨B, eof⟩) := by
  have hAB : ∀ t ∈ A ++ B, t.kind ≠ .endOfFile := by
    intro t ht
    exact (List.mem_append.mp ht).elim (hA t) (hB t)
  refine ⟨ofTokens_append hA heof, ofTokens_append hB heof, ofTokens_append hAB heof, ?_⟩
  have hlength : (A ++ B).length = A.length + B.length := List.length_append
  obtain ⟨ss, es, hbefore, hverdict⟩ :=
    declares_before (n := (A ++ B).length + 1) h helse (by omega)
  obtain ⟨ss', es', hbehind, hverdict'⟩ :=
    @declares_behind B eof es ((A ++ B).length + 1) (by omega)
  have hjoined : parseProgram ⟨A ++ B, eof⟩ = verdict (ss ++ ss') (es ++ es') :=
    @parseProgram_of_declares ⟨A ++ B, eof⟩ _ _ (hbefore.trans hbehind) rfl
  rw [hjoined, hverdict, hverdict', verdict_append]

theorem open_condition_stays_apart :
    let word : Token := ⟨.ifWord, "if", 1⟩
    let opening : Token := ⟨.leftParen, "(", 1⟩
    let name : Token := ⟨.identifier, "x", 1⟩
    let semicolon : Token := ⟨.semicolon, ";", 1⟩
    let leave : Token := ⟨.breakWord, "break", 2⟩
    let eof : Token := ⟨.endOfFile, "", 2⟩
    Closed [word, opening, name, semicolon] ∧
      parseProgram ⟨[word, opening, name, semicolon] ++ [leave, semicolon], eof⟩ =
        joined (parseProgram ⟨[word, opening, name, semicolon], eof⟩)
          (parseProgram ⟨[leave, semicolon], eof⟩) ∧
      parseProgram ⟨[word, opening, name, semicolon] ++ [leave, semicolon], eof⟩ =
        .error [⟨.noParenAfterIfCondition, semicolon⟩, ⟨.breakOutsideLoop, leave⟩] := by
  intro word opening name semicolon leave eof
  have hclosed : Closed [word, opening, name, semicolon] :=
    ⟨[word, opening, name], semicolon, rfl, rfl, by decide⟩
  have helse : ¬ NextIs .elseWord [leave, semicolon] := by simp [nextIs_cons, leave]
  have hall := @errors_stay_in_their_statement _ [leave, semicolon] eof (by decide) (by decide) rfl
    (.inr hclosed) helse
  exact ⟨hclosed, hall.2.2.2, rfl⟩

end ScriptLang.Parsing
