import ScriptLang.Proofs.Chronicle.Names
import ScriptLang.Proofs.Chronicle.Place
import ScriptLang.Proofs.Grammar.Shape
import ScriptLang.Resolution

namespace ScriptLang

open Scope

def Stmt.after {ρ : Type} (S : Stack) (s : Stmt ρ) : Stack :=
  match s.declared? with
  | some name => define name (declare name S).1
  | none => S

mutual

def Expr.Scoped (S : Stack) : Expr Binding → Prop
  | .literal _ => True
  | .group inner => inner.Scoped S
  | .unary _ right => right.Scoped S
  | .binary left _ right => left.Scoped S ∧ right.Scoped S
  | .logical left _ right => left.Scoped S ∧ right.Scoped S
  | .ident binding name => bindingOf? name.lexeme S = some binding
  | .assign binding name value => value.Scoped S ∧ bindingOf? name.lexeme S = some binding
  | .call callee _ arguments => callee.Scoped S ∧ Expr.AllScoped S arguments
  | .lambda params body =>
    (declareParams params ([] :: S)).2 = [] ∧
      Stmt.AllScoped (declareParams params ([] :: S)).1 body

def Expr.AllScoped (S : Stack) : List (Expr Binding) → Prop
  | [] => True
  | e :: es => e.Scoped S ∧ Expr.AllScoped S es

def Stmt.Scoped (S : Stack) : Stmt Binding → Prop
  | .exprStmt e => e.Scoped S
  | .printStmt e => e.Scoped S
  | .varDecl name none => (declare name S).2 = []
  | .varDecl name (some initial) => (declare name S).2 = [] ∧ initial.Scoped (declare name S).1
  | .block body => Stmt.AllScoped ([] :: S) body
  | .ifStmt condition yes none => condition.Scoped S ∧ yes.declared? = none ∧ yes.Scoped S
  | .ifStmt condition yes (some no) =>
    condition.Scoped S ∧ (yes.declared? = none ∧ yes.Scoped S) ∧ no.declared? = none ∧ no.Scoped S
  | .whileStmt condition body => condition.Scoped S ∧ body.declared? = none ∧ body.Scoped S
  | .breakStmt _ => True
  | .returnStmt _ none => True
  | .returnStmt _ (some value) => value.Scoped S
  | .funDecl name params body =>
    (declare name S).2 = [] ∧
      (declareParams params ([] :: define name (declare name S).1)).2 = [] ∧
      Stmt.AllScoped (declareParams params ([] :: define name (declare name S).1)).1 body

def Stmt.AllScoped (S : Stack) : List (Stmt Binding) → Prop
  | [] => True
  | s :: ss => s.Scoped S ∧ Stmt.AllScoped (s.after S) ss

end

def FunctionScoped (S : Stack) (params : List Token) (body : List (Stmt Binding)) : Prop :=
  (declareParams params ([] :: S)).2 = [] ∧ Stmt.AllScoped (declareParams params ([] :: S)).1 body

section Resolution

theorem Stmt.declared?_resolve (inFunction : Bool) (S : Stack) (s : Stmt Unit) :
    (s.resolve inFunction S).1.declared? = s.declared? := by
  cases s with
  | varDecl name initial => cases initial <;> rfl
  | ifStmt condition yes no => cases no <;> rfl
  | returnStmt keyword value => cases value <;> rfl
  | _ => rfl

theorem Stmt.declared?_of_isBody {s : Stmt Unit} (h : s.isBody) : s.declared? = none := by
  cases s <;> simp [Stmt.isBody] at h <;> rfl

theorem bindUse_eq_nil {fault : Fault} {name : Token} {S : Stack}
    (h : (bindUse fault name S).2 = []) :
    bindingOf? name.lexeme S = some (bindUse fault name S).1 :=
  (bindUse_eq fault).mp (Prod.ext rfl h)

theorem Stmt.branch_scoped {inFunction : Bool} {S : Stack} {s : Stmt Unit} (hb : s.isBody)
    (h : (s.resolve inFunction S).1.Scoped S ∧
      (s.resolve inFunction S).2.1 = (s.resolve inFunction S).1.after S) :
    ((s.resolve inFunction S).1.declared? = none ∧ (s.resolve inFunction S).1.Scoped S) ∧
      (s.resolve inFunction S).2.1 = S := by
  have hd : (s.resolve inFunction S).1.declared? = none := by
    rw [Stmt.declared?_resolve, Stmt.declared?_of_isBody hb]
  refine ⟨⟨hd, h.1⟩, ?_⟩
  rw [h.2, Stmt.after, hd]

mutual

theorem Expr.resolve_scoped (S : Stack) (e : Expr Unit) (hs : e.Shaped)
    (h : (e.resolve S).2 = []) : (e.resolve S).1.Scoped S := by
  cases e with
  | literal value => exact trivial
  | group inner => exact inner.resolve_scoped S hs h
  | unary operator right => exact right.resolve_scoped S hs.2.2 h
  | binary left operator right =>
    obtain ⟨hl, hr⟩ := List.append_eq_nil_iff.mp h
    exact ⟨left.resolve_scoped S hs.2.2.1 hl, right.resolve_scoped S hs.2.2.2.2 hr⟩
  | logical left operator right =>
    obtain ⟨hl, hr⟩ := List.append_eq_nil_iff.mp h
    exact ⟨left.resolve_scoped S hs.2.2.1 hl, right.resolve_scoped S hs.2.2.2.2 hr⟩
  | ident u name => exact bindUse_eq_nil h
  | assign u name value =>
    obtain ⟨hv, hb⟩ := List.append_eq_nil_iff.mp h
    exact ⟨value.resolve_scoped S hs.2 hv, bindUse_eq_nil hb⟩
  | call callee paren arguments =>
    obtain ⟨hc, ha⟩ := List.append_eq_nil_iff.mp h
    exact ⟨callee.resolve_scoped S hs.2.1 hc, Expr.resolveAll_scoped S arguments hs.2.2.2.2 ha⟩
  | lambda params body =>
    obtain ⟨hp, hb⟩ := List.append_eq_nil_iff.mp h
    exact ⟨hp, Stmt.resolveAll_scoped true _ body hs.2 hb⟩

theorem Expr.resolveAll_scoped (S : Stack) (es : List (Expr Unit)) (hs : Expr.AllShaped es)
    (h : (Expr.resolveAll S es).2 = []) : Expr.AllScoped S (Expr.resolveAll S es).1 := by
  cases es with
  | nil => exact trivial
  | cons e es =>
    obtain ⟨he, hes⟩ := List.append_eq_nil_iff.mp h
    exact ⟨e.resolve_scoped S hs.1 he, Expr.resolveAll_scoped S es hs.2 hes⟩

theorem Stmt.resolve_scoped {inLoop : Bool} (inFunction : Bool) (S : Stack) (s : Stmt Unit)
    (hs : s.Shaped inLoop) (h : (s.resolve inFunction S).2.2 = []) :
    (s.resolve inFunction S).1.Scoped S ∧
      (s.resolve inFunction S).2.1 = (s.resolve inFunction S).1.after S := by
  cases s with
  | exprStmt e => exact ⟨e.resolve_scoped S hs h, rfl⟩
  | printStmt e => exact ⟨e.resolve_scoped S hs h, rfl⟩
  | varDecl name initial =>
    cases initial with
    | none => exact ⟨h, rfl⟩
    | some initial =>
      obtain ⟨hd, hi⟩ := List.append_eq_nil_iff.mp h
      exact ⟨⟨hd, initial.resolve_scoped _ hs.2 hi⟩, rfl⟩
  | block body => exact ⟨Stmt.resolveAll_scoped inFunction _ body hs h, rfl⟩
  | ifStmt condition yes no =>
    cases no with
    | none =>
      obtain ⟨hc, hy⟩ := List.append_eq_nil_iff.mp h
      obtain ⟨hyes, hsame⟩ := Stmt.branch_scoped hs.2.1 (yes.resolve_scoped inFunction S hs.2.2 hy)
      exact ⟨⟨condition.resolve_scoped S hs.1 hc, hyes⟩, hsame⟩
    | some no =>
      obtain ⟨hcy, hn⟩ := List.append_eq_nil_iff.mp h
      obtain ⟨hc, hy⟩ := List.append_eq_nil_iff.mp hcy
      obtain ⟨hyes, hsame⟩ := Stmt.branch_scoped hs.2.1
        (yes.resolve_scoped inFunction S hs.2.2.1 hy)
      rw [hsame] at hn
      obtain ⟨hno, hsame'⟩ := Stmt.branch_scoped hs.2.2.2.2.1
        (no.resolve_scoped inFunction S hs.2.2.2.2.2 hn)
      simp only [Stmt.resolve, hsame]
      exact ⟨⟨condition.resolve_scoped S hs.1 hc, hyes, hno⟩, hsame'⟩
  | whileStmt condition body =>
    obtain ⟨hc, hb⟩ := List.append_eq_nil_iff.mp h
    obtain ⟨hbody, hsame⟩ := Stmt.branch_scoped hs.2.1 (body.resolve_scoped inFunction S hs.2.2 hb)
    exact ⟨⟨condition.resolve_scoped S hs.1 hc, hbody⟩, hsame⟩
  | breakStmt keyword => exact ⟨trivial, rfl⟩
  | returnStmt keyword value =>
    cases value with
    | none => exact ⟨trivial, rfl⟩
    | some value =>
      obtain ⟨-, hv⟩ := List.append_eq_nil_iff.mp h
      exact ⟨value.resolve_scoped S hs.2 hv, rfl⟩
  | funDecl name params body =>
    obtain ⟨hdp, hb⟩ := List.append_eq_nil_iff.mp h
    obtain ⟨hd, hp⟩ := List.append_eq_nil_iff.mp hdp
    exact ⟨⟨hd, hp, Stmt.resolveAll_scoped true _ body hs.2.2 hb⟩, rfl⟩

theorem Stmt.resolveAll_scoped {inLoop : Bool} (inFunction : Bool) (S : Stack)
    (ss : List (Stmt Unit)) (hs : Stmt.AllShaped inLoop ss)
    (h : (Stmt.resolveAll inFunction S ss).2.2 = []) :
    Stmt.AllScoped S (Stmt.resolveAll inFunction S ss).1 := by
  cases ss with
  | nil => exact trivial
  | cons s ss =>
    obtain ⟨hfirst, hothers⟩ := List.append_eq_nil_iff.mp h
    obtain ⟨hscoped, hafter⟩ := s.resolve_scoped inFunction S hs.1 hfirst
    refine ⟨hscoped, ?_⟩
    rw [← hafter]
    exact Stmt.resolveAll_scoped inFunction _ ss hs.2 hothers

end

theorem resolveProgram_scoped {statements : List (Stmt Unit)} {program : List (Stmt Binding)}
    (hs : Stmt.AllShaped false statements) (h : resolveProgram statements = .ok program) :
    Stmt.AllScoped [] program := by
  obtain ⟨hempty, rfl⟩ := resolveProgram_eq_ok.mp h
  exact Stmt.resolveAll_scoped false [] statements hs hempty

end Resolution

end ScriptLang
