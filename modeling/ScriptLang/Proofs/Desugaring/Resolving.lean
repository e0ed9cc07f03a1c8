import ScriptLang.Proofs.Desugaring.Skipping

namespace ScriptLang

open Scope Desugaring

def Stmt.undeclaring {ρ : Type} : Stmt ρ → Bool
  | .varDecl _ _ => false
  | .funDecl _ _ _ => false
  | .ifStmt _ yes none => yes.undeclaring
  | .ifStmt _ yes (some no) => yes.undeclaring && no.undeclaring
  | .whileStmt _ body => body.undeclaring
  | _ => true

def Stmt.isClause {ρ : Type} : Stmt ρ → Bool
  | .varDecl _ _ => true
  | .exprStmt _ => true
  | _ => false

namespace Scope

variable (name : Token) (names : Names)

theorem declare_innermost :
    ∃ names' errors, ∀ S : Stack, declare name (names :: S) = (names' :: S, errors) := by
  cases h : names.lookup name.lexeme with
  | none => exact ⟨(name.lexeme, false) :: names, [], fun S => by rw [declare, h]⟩
  | some ready => exact ⟨names, [⟨.redeclared, name⟩], fun S => by rw [declare, h]⟩

theorem declareParams_innermost (params : List Token) :
    ∃ names' errors, ∀ S : Stack, declareParams params (names :: S) = (names' :: S, errors) := by
  induction params generalizing names with
  | nil => exact ⟨names, [], fun _ => rfl⟩
  | cons p ps ih =>
    obtain ⟨names', errors, hp⟩ := declare_innermost p names
    obtain ⟨names'', errors', hps⟩ := ih ((p.lexeme, true) :: names')
    refine ⟨names'', errors ++ errors', fun S => ?_⟩
    rw [declareParams, hp S]
    simp only [define, hps S]

end Scope

namespace Desugaring

/-- Where a scope may be put that binds nothing: right behind others, or in front of one in which no
declaration is incomplete. -/
def Fits (T S : Stack) : Prop :=
  T = [] → HeadSettled S

theorem Fits.cons (names : Names) (T S : Stack) : Fits (names :: T) S :=
  fun h => nomatch h

variable {T S : Stack}

theorem Fits.of_length {T' : Stack} (h : Fits T S) (hlength : T'.length = T.length) : Fits T' S :=
  fun hT' => h (List.eq_nil_of_length_eq_zero (by rw [← hlength, hT', List.length_nil]))

theorem nearest_gap (x : String) (T S : Stack) :
    nearest x (T ++ [] :: S) = (nearest x (T ++ S)).skip (reach (gap T.length)) := by
  unfold nearest
  rw [findIdx?_gap rfl]
  cases (T ++ S).findIdx? (hasName x) <;> rfl

theorem bindingOf?_gap (h : Fits T S) (x : String) :
    bindingOf? x (T ++ [] :: S) =
      (bindingOf? x (T ++ S)).map (Binding.skip (reach (gap T.length))) := by
  cases T with
  | nil =>
    have hout : bindingOf? x S = some (nearest x S) := by
      cases S with
      | nil => rfl
      | cons names S =>
        have hsettled : isPending x names = false := h rfl names rfl x
        rw [bindingOf?, if_neg (by simp [hsettled])]
    have hin : bindingOf? x ([] :: S) = some (nearest x ([] :: S)) := rfl
    rw [List.nil_append, List.nil_append, hout, hin]
    exact congrArg some (nearest_gap x [] S)
  | cons names T =>
    rw [List.cons_append, List.cons_append, bindingOf?, bindingOf?]
    cases isPending x names with
    | true =>
      rw [if_pos rfl, if_pos rfl, findIdx?_gap rfl, Option.map_map, Option.map_map]
      rfl
    | false =>
      rw [if_neg Bool.false_ne_true, if_neg Bool.false_ne_true]
      exact congrArg some (nearest_gap x (names :: T) S)

theorem bindUse_gap (h : Fits T S) (fault : Fault) (name : Token) :
    bindUse fault name (T ++ [] :: S) =
      ((bindUse fault name (T ++ S)).1.skip (reach (gap T.length)),
        (bindUse fault name (T ++ S)).2) := by
  unfold bindUse
  rw [bindingOf?_gap h]
  cases bindingOf? name.lexeme (T ++ S) <;> rfl

end Desugaring

mutual

theorem Expr.resolve_gap {T S : Stack} (h : Fits T S) (e : Expr Unit) :
    e.resolve (T ++ [] :: S) =
      ((e.resolve (T ++ S)).1.skip (reach (gap T.length)), (e.resolve (T ++ S)).2) := by
  cases e with
  | literal value => rfl
  | group inner => simp only [Expr.resolve, Expr.skip, inner.resolve_gap h]
  | unary operator right => simp only [Expr.resolve, Expr.skip, right.resolve_gap h]
  | binary left operator right =>
    simp only [Expr.resolve, Expr.skip, left.resolve_gap h, right.resolve_gap h]
  | logical left operator right =>
    simp only [Expr.resolve, Expr.skip, left.resolve_gap h, right.resolve_gap h]
  | ident u name => simp only [Expr.resolve, Expr.skip, bindUse_gap h]
  | assign u name value =>
    simp only [Expr.resolve, Expr.skip, value.resolve_gap h, bindUse_gap h]
  | call callee paren arguments =>
    simp only [Expr.resolve, Expr.skip, callee.resolve_gap h, Expr.resolveAll_gap h arguments]
  | lambda params body =>
    obtain ⟨names, errors, hparams⟩ := declareParams_innermost [] params
    obtain ⟨T', hlength, -, hbody⟩ := Stmt.resolveAll_gap true names T S body
    simp only [Expr.resolve, Expr.skip, hparams]
    rw [List.cons_append] at hbody
    simp only [hbody]
    rfl

theorem Expr.resolveAll_gap {T S : Stack} (h : Fits T S) (es : List (Expr Unit)) :
    Expr.resolveAll (T ++ [] :: S) es =
      (Expr.allSkip (reach (gap T.length)) (Expr.resolveAll (T ++ S) es).1,
        (Expr.resolveAll (T ++ S) es).2) := by
  cases es with
  | nil => rfl
  | cons e es =>
    simp only [Expr.resolveAll, Expr.allSkip, e.resolve_gap h, Expr.resolveAll_gap h es]

/-- What a statement declares it declares in the innermost scope, which is there either way unless
the statement declares nothing. -/
theorem Stmt.resolve_gap (inFunction : Bool) {T S : Stack} (h : Fits T S) (s : Stmt Unit)
    (hs : T = [] → s.undeclaring = true) :
    ∃ T' : Stack, T'.length = T.length ∧ (s.resolve inFunction (T ++ S)).2.1 = T' ++ S ∧
      s.resolve inFunction (T ++ [] :: S) =
        ((s.resolve inFunction (T ++ S)).1.skip (reach (gap T.length)), T' ++ [] :: S,
          (s.resolve inFunction (T ++ S)).2.2) := by
  -- blocks and functions open scopes in front of the gap, so any may stand there
  cases s with
  | exprStmt e => exact ⟨T, rfl, rfl, by simp only [Stmt.resolve, Stmt.skip, e.resolve_gap h]⟩
  | printStmt e => exact ⟨T, rfl, rfl, by simp only [Stmt.resolve, Stmt.skip, e.resolve_gap h]⟩
  | varDecl name initial =>
    cases T with
    | nil => cases hs rfl
    | cons names T =>
      obtain ⟨names', errors, hdeclare⟩ := declare_innermost name names
      refine ⟨((name.lexeme, true) :: names') :: T, rfl, ?_⟩
      cases initial with
      | none => simp only [Stmt.resolve, Stmt.skip, List.cons_append, hdeclare, define, and_self]
      | some e =>
        have hinitial := e.resolve_gap (Fits.cons names' T S)
        simp only [List.cons_append, List.length_cons] at hinitial
        simp only [Stmt.resolve, Stmt.skip, List.cons_append, hdeclare, define, hinitial,
          List.length_cons, and_self]
  | block body =>
    obtain ⟨T', -, -, hbody⟩ := Stmt.resolveAll_gap inFunction [] T S body
    refine ⟨T, rfl, rfl, ?_⟩
    rw [List.cons_append] at hbody
    simp only [Stmt.resolve, Stmt.skip, hbody]
    rfl
  | ifStmt condition yes no =>
    have hc := condition.resolve_gap h
    cases no with
    | none =>
      obtain ⟨T', hlength, hstack, hyes⟩ := yes.resolve_gap inFunction h hs
      exact ⟨T', hlength, hstack, by simp only [Stmt.resolve, Stmt.skip, hc, hyes]⟩
    | some no =>
      have hboth : T = [] → yes.undeclaring = true ∧ no.undeclaring = true := fun hT =>
        Bool.and_eq_true_iff.mp (hs hT)
      obtain ⟨T', hlength, hstack, hyes⟩ := yes.resolve_gap inFunction h fun hT => (hboth hT).1
      obtain ⟨T'', hlength', hstack', hno⟩ := no.resolve_gap inFunction (h.of_length hlength)
        fun hT => (hboth (List.eq_nil_of_length_eq_zero (by rw [← hlength, hT, List.length_nil]))).2
      refine ⟨T'', hlength'.trans hlength, ?_⟩
      simp only [Stmt.resolve, Stmt.skip, hc, hyes, hstack, hno, hstack', hlength, and_self]
  | whileStmt condition body =>
    obtain ⟨T', hlength, hstack, hbody⟩ := body.resolve_gap inFunction h hs
    exact ⟨T', hlength, hstack,
      by simp only [Stmt.resolve, Stmt.skip, condition.resolve_gap h, hbody]⟩
  | breakStmt keyword => exact ⟨T, rfl, rfl, rfl⟩
  | returnStmt keyword value =>
    cases value with
    | none => exact ⟨T, rfl, rfl, rfl⟩
    | some e => exact ⟨T, rfl, rfl, by simp only [Stmt.resolve, Stmt.skip, e.resolve_gap h]⟩
  | funDecl name params body =>
    cases T with
    | nil => cases hs rfl
    | cons names T =>
      obtain ⟨names', errors, hdeclare⟩ := declare_innermost name names
      obtain ⟨inner, errors', hparams⟩ := declareParams_innermost [] params
      obtain ⟨T', -, -, hbody⟩ :=
        Stmt.resolveAll_gap true inner (((name.lexeme, true) :: names') :: T) S body
      refine ⟨((name.lexeme, true) :: names') :: T, rfl, ?_⟩
      simp only [List.cons_append, List.length_cons] at hbody
      simp only [Stmt.resolve, Stmt.skip, List.cons_append, hdeclare, define, hparams, hbody,
        List.length_cons, true_and]
      rfl

theorem Stmt.resolveAll_gap (inFunction : Bool) (names : Names) (T S : Stack)
    (ss : List (Stmt Unit)) :
    ∃ T' : Stack, T'.length = T.length + 1 ∧
      (Stmt.resolveAll inFunction (names :: T ++ S) ss).2.1 = T' ++ S ∧
      Stmt.resolveAll inFunction (names :: T ++ [] :: S) ss =
        (Stmt.allSkip (reach (gap (T.length + 1)))
            (Stmt.resolveAll inFunction (names :: T ++ S) ss).1,
          T' ++ [] :: S, (Stmt.resolveAll inFunction (names :: T ++ S) ss).2.2) := by
  cases ss with
  | nil => exact ⟨names :: T, rfl, rfl, rfl⟩
  | cons s ss =>
    obtain ⟨T', hlength, hstack, hs⟩ :=
      s.resolve_gap inFunction (Fits.cons names T S) fun h => nomatch h
    cases T' with
    | nil => cases hlength
    | cons names' T' =>
      have hlength' : T'.length = T.length := Nat.succ.inj hlength
      obtain ⟨T'', hlength'', hstack', hss⟩ := Stmt.resolveAll_gap inFunction names' T' S ss
      refine ⟨T'', hlength''.trans (congrArg (· + 1) hlength'), ?_⟩
      rw [hlength'] at hss
      rw [List.length_cons] at hs
      simp only [Stmt.resolveAll, Stmt.allSkip, hs, hstack, hss, hstack', and_self]

end

section Settled

theorem settled_ready {x : String} {names : Names}
    (h : ∀ y, y ≠ x → isPending y names = false) : Settled ((x, true) :: names) := by
  intro y
  rw [← Bool.not_eq_true, isPending_cons]
  by_cases hy : y = x
  · simp [hy]
  · simp [hy, h y hy]

theorem define_declare_settled (name : Token) {S : Stack} (h : HeadSettled S) :
    HeadSettled (define name (declare name S).1) := by
  cases S with
  | nil => exact h
  | cons names S =>
    have hold : Settled names := h names rfl
    cases hl : names.lookup name.lexeme with
    | some ready =>
      rw [declare, hl]
      rintro _ ⟨⟩
      exact settled_ready fun y _ => hold y
    | none =>
      rw [declare, hl]
      rintro _ ⟨⟩
      apply settled_ready
      intro y hy
      rw [← Bool.not_eq_true, isPending_cons, if_neg hy, hold y]
      exact Bool.false_ne_true

/-- Wherever a statement stands, no declaration of its scope is incomplete. -/
theorem Stmt.resolve_settled (inFunction : Bool) {S : Stack} (h : HeadSettled S) (s : Stmt Unit) :
    HeadSettled (s.resolve inFunction S).2.1 := by
  cases s with
  | varDecl name initial => cases initial <;> exact define_declare_settled name h
  | funDecl name params body => exact define_declare_settled name h
  | ifStmt condition yes no =>
    have hyes := yes.resolve_settled inFunction h
    cases no with
    | none => exact hyes
    | some no => exact no.resolve_settled inFunction hyes
  | whileStmt condition body => exact body.resolve_settled inFunction h
  | returnStmt keyword value => cases value <;> exact h
  | _ => exact h

end Settled

section Shape

theorem Stmt.undeclaring_of_shaped {inLoop : Bool} (s : Stmt Unit) (hbody : s.isBody = true)
    (h : s.Shaped inLoop) : s.undeclaring = true := by
  cases s with
  | varDecl name initial => cases hbody
  | funDecl name params body => cases hbody
  | ifStmt condition yes no =>
    cases no with
    | none =>
      obtain ⟨-, hyes, hshaped⟩ := h
      exact yes.undeclaring_of_shaped hyes hshaped
    | some no =>
      obtain ⟨-, hyes, hshaped, -, hno, hshaped'⟩ := h
      exact Bool.and_eq_true_iff.mpr
        ⟨yes.undeclaring_of_shaped hyes hshaped, no.undeclaring_of_shaped hno hshaped'⟩
  | whileStmt condition body =>
    obtain ⟨-, hbody', hshaped⟩ := h
    exact body.undeclaring_of_shaped hbody' hshaped
  | _ => rfl

theorem Stmt.undeclaring_resolve (inFunction : Bool) (S : Stack) (s : Stmt Unit) :
    (s.resolve inFunction S).1.undeclaring = s.undeclaring := by
  cases s with
  | varDecl name initial => cases initial <;> rfl
  | ifStmt condition yes no =>
    cases no with
    | none => exact yes.undeclaring_resolve inFunction S
    | some no =>
      exact congrArg₂ (· && ·) (yes.undeclaring_resolve inFunction S)
        (no.undeclaring_resolve inFunction _)
  | whileStmt condition body => exact body.undeclaring_resolve inFunction S
  | returnStmt keyword value => cases value <;> rfl
  | _ => rfl

end Shape

end ScriptLang
