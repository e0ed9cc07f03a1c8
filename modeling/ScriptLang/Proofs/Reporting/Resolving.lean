import ScriptLang.Proofs.Grammar.Reading
import ScriptLang.Resolution
import Mathlib.Data.List.Infix

namespace ScriptLang.Reporting

open Scope Syntax Grammar

inductive ReadsFor (increment : Expr Unit) (body : Stmt Unit) : List Token → Prop where
  | mk {dangling : Bool} {word left semi right : Token} {initial : Option (Stmt Unit)}
      {condition : Option (Expr Unit)} {ts us vs ws : List Token} (hw : word.kind = .forWord)
      (hl : left.kind = .leftParen) (hi : Reads (.initial initial) ts)
      (hc : Reads (.optional condition) us) (hs : semi.kind = .semicolon)
      (hn : Reads (.optional (some increment)) vs) (hr : right.kind = .rightParen)
      (hb : Reads (.statement true dangling body) ws) :
      ReadsFor increment body (word :: left :: (ts ++ (us ++ semi :: (vs ++ right :: ws))))

/-- The second error stands before the first and is still found later. -/
inductive Postponed (all : List Token) : Scope.Error → Scope.Error → Prop where
  /-- The value of an assignment is resolved before the name in front of it. -/
  | target {scopes : Stack} {name equal : Token} {value : Expr Unit} {ts : List Token}
      {e : Scope.Error} (hall : name :: equal :: ts <:+: all) (hn : name.kind = .identifier)
      (heq : equal.kind = .equal) (hv : Reads (.expression value) ts)
      (he : e ∈ (value.resolve scopes).2) : Postponed all e ⟨.assignedInInitializer, name⟩
  /-- The body of a `for` is resolved before the increment. -/
  | increment {inFunction : Bool} {scopes : Stack} {increment : Expr Unit} {body : Stmt Unit}
      {ts : List Token} {e f : Scope.Error} (hall : ts <:+: all) (h : ReadsFor increment body ts)
      (he : e ∈ (body.resolve inFunction scopes).2.2)
      (hf : f ∈ (increment.resolve (body.resolve inFunction scopes).2.1).2) : Postponed all e f

def Succeeds (all : List Token) (e f : Scope.Error) : Prop :=
  e.token.line ≤ f.token.line ∨ Postponed all e f

structure InOrder (all ts : List Token) (es : List Scope.Error) : Prop where
  mem : ∀ e ∈ es, e.token ∈ ts
  succeed : es.Pairwise (Succeeds all)

variable {all ts us vs : List Token} {es fs : List Scope.Error} {name t : Token}

theorem InOrder.nil : InOrder all ts [] :=
  ⟨by simp, .nil⟩

theorem InOrder.mono (h : InOrder all ts es) (hsub : ts ⊆ us) : InOrder all us es :=
  ⟨fun e he => hsub (h.mem e he), h.succeed⟩

theorem InOrder.cons (h : InOrder all ts es) : InOrder all (t :: ts) es :=
  h.mono (List.subset_cons_self t ts)

theorem InOrder.concat (h : InOrder all ts es) : InOrder all (ts ++ [t]) es :=
  h.mono (List.subset_append_left ts [t])

theorem InOrder.single (hname : name ∈ ts) (h : ∀ e ∈ es, e.token = name) : InOrder all ts es := by
  refine ⟨fun e he => h e he ▸ hname, List.pairwise_of_forall_mem_list fun e he f hf => .inl ?_⟩
  rw [h e he, h f hf]

theorem InOrder.join (h : InOrder all ts es) (k : InOrder all us fs) (hts : ts ⊆ vs) (hus : us ⊆ vs)
    (hcross : ∀ e ∈ es, ∀ f ∈ fs, Succeeds all e f) : InOrder all vs (es ++ fs) := by
  refine ⟨fun e he => ?_, List.pairwise_append.mpr ⟨h.succeed, k.succeed, hcross⟩⟩
  exact (List.mem_append.mp he).elim (fun he => hts (h.mem e he)) fun he => hus (k.mem e he)

theorem token_of_bindUse {fault : Scope.Fault} {scopes : Stack} {e : Scope.Error}
    (h : e ∈ (bindUse fault name scopes).2) : e = ⟨fault, name⟩ := by
  unfold bindUse at h
  split at h
  · cases h
  · exact List.mem_singleton.mp h

theorem token_of_declare {scopes : Stack} {e : Scope.Error} (h : e ∈ (declare name scopes).2) :
    e.token = name := by
  unfold declare at h
  split at h
  · cases h
  · split at h
    · exact congrArg Scope.Error.token (List.mem_singleton.mp h)
    · cases h

theorem token_of_returnErrors {inFunction : Bool} {e : Scope.Error}
    (h : e ∈ returnErrors inFunction name) : e.token = name := by
  cases inFunction with
  | false => exact congrArg Scope.Error.token (List.mem_singleton.mp h)
  | true => cases h

/-- What a `for` repeats: its body, and then the increment in front of it. -/
theorem step_inOrder {right : Token} {increment : Expr Unit} {body : Stmt Unit}
    (hincrement : ∀ scopes, InOrder all us (increment.resolve scopes).2)
    (hbody : ∀ inFunction scopes, InOrder all vs (body.resolve inFunction scopes).2.2)
    (hpostponed : ∀ inFunction scopes, ∀ e ∈ (body.resolve inFunction scopes).2.2,
      ∀ f ∈ (increment.resolve (body.resolve inFunction scopes).2.1).2, Postponed all e f)
    (inFunction : Bool) (scopes : Stack) :
    InOrder all (us ++ right :: vs)
      ((Stmt.block [body, .exprStmt increment]).resolve inFunction scopes).2.2 := by
  have hfirst := hbody inFunction ([] :: scopes)
  have hsecond := hincrement (body.resolve inFunction ([] :: scopes)).2.1
  have horder := (hfirst.cons (t := right)).join hsecond (List.subset_append_right us _)
    (List.subset_append_left us _)
    fun e he f hf => .inr (hpostponed inFunction ([] :: scopes) e he f hf)
  simpa only [Stmt.resolve, Stmt.resolveAll, List.append_nil] using horder

/-- An error at the name of an assignment has to wait for those of the value. -/
theorem assign_inOrder {equal : Token} {value : Expr Unit} {scopes : Stack}
    (hall : name :: equal :: ts <:+: all) (hn : name.kind = .identifier)
    (heq : equal.kind = .equal) (hv : Reads (.expression value) ts)
    (hvalue : InOrder all ts (value.resolve scopes).2) :
    InOrder all (name :: equal :: ts) ((Expr.assign () name value).resolve scopes).2 := by
  have htarget : ∀ e ∈ (bindUse .assignedInInitializer name scopes).2,
      e = ⟨.assignedInInitializer, name⟩ := fun e => token_of_bindUse
  have hname : InOrder all [name] (bindUse .assignedInInitializer name scopes).2 :=
    .single (List.mem_singleton_self name) fun e he => by rw [htarget e he]
  refine hvalue.join hname (fun _ h => .tail _ (.tail _ h)) (by simp) fun e he f hf => .inr ?_
  rw [htarget f hf]
  exact .target hall hn heq hv he

def Reported (all ts : List Token) : Phrase → Prop
  | .expression e | .level _ e | .primary e => ∀ scopes, InOrder all ts (e.resolve scopes).2
  | .chain _ left e | .calls left e => ∀ scopes, ∃ es,
      (e.resolve scopes).2 = (left.resolve scopes).2 ++ es ∧ InOrder all ts es
  | .arguments es => ∀ scopes, InOrder all ts (Expr.resolveAll scopes es).2
  | .parameters ps => ∀ scopes, InOrder all ts (declareParams ps scopes).2
  | .function params body => ∀ scopes, InOrder all ts ((declareParams params scopes).2 ++
      (Stmt.resolveAll true (declareParams params scopes).1 body).2.2)
  | .optional o => ∀ e, o = some e → ∀ scopes, InOrder all ts (e.resolve scopes).2
  | .initial o => ∀ s, o = some s → ∀ inFunction scopes,
      InOrder all ts (s.resolve inFunction scopes).2.2
  | .variable s | .statement _ _ s | .declaration _ s => ∀ inFunction scopes,
      InOrder all ts (s.resolve inFunction scopes).2.2
  | .declarations _ ss => ∀ inFunction scopes,
      InOrder all ts (Stmt.resolveAll inFunction scopes ss).2.2

theorem resolve_node (l : Level) (left right : Expr Unit) (operator : Token) (scopes : Stack) :
    ((l.node left operator right).resolve scopes).2 =
      (left.resolve scopes).2 ++ (right.resolve scopes).2 := by
  cases l <;> simp only [Level.node, Expr.resolve]

theorem inside_left (h : ts ++ us <:+: all) : ts <:+: all :=
  (List.prefix_append ts us).isInfix.trans h

theorem inside_right (h : ts ++ us <:+: all) : us <:+: all :=
  (List.suffix_append ts us).isInfix.trans h

theorem inside_tail (h : t :: ts <:+: all) : ts <:+: all :=
  (List.suffix_cons t ts).isInfix.trans h

variable (hsorted : all.Pairwise fun s t => s.line ≤ t.line)
include hsorted

theorem InOrder.append (h : InOrder all ts es) (k : InOrder all us fs) (hall : ts ++ us <:+: all) :
    InOrder all (ts ++ us) (es ++ fs) := by
  have hlines := (List.pairwise_append.mp (hsorted.sublist hall.sublist)).2.2
  refine h.join k (List.subset_append_left _ _) (List.subset_append_right _ _) fun e he f hf => ?_
  exact .inl (hlines _ (h.mem e he) _ (k.mem f hf))

/-- Errors of a first part, and those that the second part adds to them. -/
theorem InOrder.extend (h : InOrder all ts es) (k : ∃ news, fs = es ++ news ∧ InOrder all us news)
    (hall : ts ++ us <:+: all) : InOrder all (ts ++ us) fs := by
  obtain ⟨news, rfl, hnews⟩ := k
  exact .append hsorted h hnews hall

theorem InOrder.head_append (h : ∀ e ∈ es, e.token = name) (k : InOrder all ts fs)
    (hall : name :: ts <:+: all) : InOrder all (name :: ts) (es ++ fs) :=
  .append hsorted (.single (List.mem_singleton_self name) h) k hall

/-- A `for` without an increment, where `step` is what it repeats. -/
theorem forLoop_inOrder {word left semi : Token} {initial : Option (Stmt Unit)}
    {condition : Option (Expr Unit)} {step : Stmt Unit}
    (hall : word :: left :: (ts ++ (us ++ semi :: vs)) <:+: all)
    (hinitial : Reported all ts (.initial initial))
    (hcondition : Reported all us (.optional condition))
    (hstep : ∀ inFunction scopes, InOrder all vs (step.resolve inFunction scopes).2.2)
    (inFunction : Bool) (scopes : Stack) :
    InOrder all (word :: left :: (ts ++ (us ++ semi :: vs)))
      ((forLoop initial condition none step).resolve inFunction scopes).2.2 := by
  have hclauses : ts ++ (us ++ semi :: vs) <:+: all := inside_tail (inside_tail hall)
  have hloop (inFunction : Bool) (scopes : Stack) : InOrder all (us ++ semi :: vs)
      ((forLoop none condition none step).resolve inFunction scopes).2.2 := by
    have hcond : InOrder all us
        ((condition.getD (.literal (.boolean true))).resolve scopes).2 := by
      cases condition with
      | none => exact .nil
      | some e => exact hcondition e rfl scopes
    simp only [forLoop, Stmt.resolve]
    exact .append hsorted hcond (hstep inFunction scopes).cons (inside_right hclauses)
  refine InOrder.cons (InOrder.cons ?_)
  cases initial with
  | none => exact (hloop inFunction scopes).mono (List.subset_append_right _ _)
  | some s =>
    have hboth := InOrder.append hsorted (hinitial s rfl inFunction ([] :: scopes))
      (hloop inFunction (s.resolve inFunction ([] :: scopes)).2.1) hclauses
    simpa only [forLoop, Stmt.resolve, Stmt.resolveAll, List.append_nil] using hboth

/-- What resolving a phrase of a program reports stands at its tokens, in their order, but for the
errors that are postponed. -/
theorem reads_reported {p : Phrase} (h : Reads p ts) (hall : ts <:+: all) : Reported all ts p := by
  -- each rule keeps the order of its parts; what is postponed is in the cases of `=` and of `for`
  induction h with
  | assign hn heq hv ih =>
    exact fun scopes => assign_inOrder hall hn heq hv (ih (inside_tail (inside_tail hall)) scopes)
  | plain _ ih => exact ih hall
  | level _ _ _ ih ihc =>
    exact fun scopes =>
      .extend hsorted (ih (inside_left hall) scopes) (ihc (inside_right hall) scopes) hall
  | chainEnd => exact fun scopes => ⟨[], (List.append_nil _).symm, .nil⟩
  | chainStep _ _ _ ih ihc =>
    intro scopes
    have hrest := inside_tail hall
    obtain ⟨es, hes, horder⟩ := ihc (inside_right hrest) scopes
    refine ⟨_, ?_, (InOrder.append hsorted (ih (inside_left hrest) scopes) horder hrest).cons⟩
    rw [hes, resolve_node, List.append_assoc]
  | unary _ _ ih => exact fun scopes => (ih (inside_tail hall) scopes).cons
  | call _ _ ih ihc =>
    exact fun scopes =>
      .extend hsorted (ih (inside_left hall) scopes) (ihc (inside_right hall) scopes) hall
  | callsEnd => exact fun scopes => ⟨[], (List.append_nil _).symm, .nil⟩
  | callsPlain _ _ _ ihc =>
    intro scopes
    obtain ⟨es, hes, horder⟩ := ihc (inside_tail (inside_tail hall)) scopes
    refine ⟨es, ?_, horder.cons.cons⟩
    simpa only [Expr.resolve, Expr.resolveAll, List.append_nil] using hes
  | callsStep _ _ _ _ _ ih ihc =>
    intro scopes
    have hrest := inside_tail hall
    obtain ⟨es, hes, horder⟩ := ihc (inside_tail (inside_right hrest)) scopes
    have hargs := ih (inside_left hrest) scopes
    refine ⟨_, ?_, (InOrder.append hsorted hargs horder.cons hrest).cons⟩
    rw [hes, Expr.resolve, List.append_assoc]
  | lastArgument _ ih =>
    intro scopes
    simpa only [Expr.resolveAll, List.append_nil] using ih hall scopes
  | moreArguments _ _ _ ih ihs =>
    intro scopes
    have hothers := ihs (inside_tail (inside_right hall)) scopes
    exact .append hsorted (ih (inside_left hall) scopes) hothers.cons hall
  | literal => exact fun scopes => .nil
  | ident =>
    intro scopes
    exact .single (List.mem_singleton_self _) fun e he => by rw [token_of_bindUse he]
  | group _ _ _ ih => exact fun scopes => (ih (inside_left (inside_tail hall)) scopes).concat.cons
  | lambda _ _ ih => exact fun scopes => (ih (inside_tail hall) _).cons
  | lastParameter =>
    intro scopes
    exact .head_append hsorted (fun e => token_of_declare) .nil hall
  | moreParameters _ _ _ ih =>
    intro scopes
    have hothers := ih (inside_tail (inside_tail hall))
    exact .head_append hsorted (fun e => token_of_declare) (hothers _).cons hall
  | functionPlain _ _ _ _ _ ih =>
    intro scopes
    have hrest := inside_tail (inside_tail (inside_tail hall))
    exact (ih (inside_left hrest) true scopes).concat.cons.cons.cons
  | function _ _ _ _ _ _ _ ihp ih =>
    intro scopes
    have hrest := inside_tail hall
    have hbody := ih (inside_left (inside_tail (inside_tail (inside_right hrest))))
    have hparams := ihp (inside_left hrest) scopes
    exact (InOrder.append hsorted hparams (hbody true _).concat.cons.cons hrest).cons
  | absent => exact fun e he => by cases he
  | present _ ih =>
    intro e he scopes
    cases he
    exact ih hall scopes
  | variablePlain =>
    intro inFunction scopes
    exact .single (List.mem_cons_self ..) fun e => token_of_declare
  | variableInitial _ _ _ _ ih =>
    intro inFunction scopes
    have hvalue := ih (inside_left (inside_tail (inside_tail hall)))
    exact .head_append hsorted (fun e => token_of_declare) (hvalue _).concat.cons hall
  | initialNone => exact fun s hs => by cases hs
  | initialVariable _ _ ih =>
    intro s hs inFunction scopes
    cases hs
    exact (ih (inside_tail hall) inFunction scopes).cons
  | initialExpression _ _ ih =>
    intro s hs inFunction scopes
    cases hs
    exact (ih (inside_left hall) scopes).concat
  | exprStmt _ _ ih => exact fun _ scopes => (ih (inside_left hall) scopes).concat
  | printStmt _ _ _ ih =>
    exact fun _ scopes => (ih (inside_left (inside_tail hall)) scopes).concat.cons
  | block _ _ _ ih =>
    intro inFunction scopes
    exact (ih (inside_left (inside_tail hall)) inFunction ([] :: scopes)).concat.cons
  | ifStmt _ _ _ _ _ ih ihy =>
    intro inFunction scopes
    have hrest := inside_tail (inside_tail hall)
    have hyes := ihy (inside_tail (inside_right hrest)) inFunction scopes
    exact (InOrder.append hsorted (ih (inside_left hrest) scopes) hyes.cons hrest).cons.cons
  | @ifElse _ _ _ _ _ _ _ yes no ts us vs _ _ _ _ _ _ _ ih ihy ihn =>
    intro inFunction scopes
    have hrest := inside_tail (inside_tail hall)
    have hbranches := inside_tail (inside_right hrest)
    have hyes := ihy (inside_left hbranches) inFunction scopes
    have hno := ihn (inside_tail (inside_right hbranches)) inFunction
      (yes.resolve inFunction scopes).2.1
    have hboth := InOrder.append hsorted hyes hno.cons hbranches
    have horder := InOrder.append hsorted (ih (inside_left hrest) scopes) hboth.cons hrest
    simpa only [Stmt.resolve, List.append_assoc] using horder.cons.cons
  | whileStmt _ _ _ _ _ ih ihb =>
    intro inFunction scopes
    have hrest := inside_tail (inside_tail hall)
    have hbody := ihb (inside_tail (inside_right hrest)) inFunction scopes
    exact (InOrder.append hsorted (ih (inside_left hrest) scopes) hbody.cons hrest).cons.cons
  | @forStmt inLoop dangling word left semi right initial condition increment body ts us vs ws
      hw hl hi hc hs hn hr hb ihi ihc ihn ihb =>
    have hclauses := inside_tail (inside_tail hall)
    have hstep := inside_tail (inside_right (inside_right hclauses))
    have hinitial := ihi (inside_left hclauses)
    have hcondition := ihc (inside_left (inside_right hclauses))
    have hbody := ihb (inside_tail (inside_right hstep))
    cases increment with
    | none =>
      refine forLoop_inOrder hsorted hall hinitial hcondition fun inFunction scopes => ?_
      exact (hbody inFunction scopes).cons.mono (List.subset_append_right _ _)
    | some e =>
      have hreads : ReadsFor e body _ := .mk hw hl hi hc hs hn hr hb
      have hrepeated : ∀ inFunction scopes, InOrder all (vs ++ right :: ws)
          ((Stmt.block [body, .exprStmt e]).resolve inFunction scopes).2.2 :=
        step_inOrder (ihn (inside_left hstep) e rfl) hbody
          fun inFunction scopes d hd f hf => .increment hall hreads hd hf
      exact forLoop_inOrder hsorted hall hinitial hcondition hrepeated
  | breakStmt => exact fun _ _ => .nil
  | @returnStmt inLoop word semi value ts _ _ _ ih =>
    intro inFunction scopes
    have hvalue := ih (inside_left (inside_tail hall))
    cases value with
    | none => exact .single (List.mem_cons_self ..) fun e => token_of_returnErrors
    | some v =>
      exact .head_append hsorted (fun e => token_of_returnErrors) (hvalue v rfl scopes).concat hall
  | funDecl _ _ _ ih =>
    intro inFunction scopes
    have hrest := inside_tail hall
    have hfunction := ih (inside_tail hrest)
    simp only [Stmt.resolve, List.append_assoc]
    exact .cons (.head_append hsorted (fun e => token_of_declare) (hfunction _) hrest)
  | varDecl _ _ ih => exact fun inFunction scopes => (ih (inside_tail hall) inFunction scopes).cons
  | statement _ ih => exact ih hall
  | declarationsEnd => exact fun _ _ => .nil
  | declarationsStep _ _ ih ihs =>
    intro inFunction scopes
    have hothers := ihs (inside_right hall) inFunction
    exact .append hsorted (ih (inside_left hall) inFunction scopes) (hothers _) hall

end ScriptLang.Reporting
