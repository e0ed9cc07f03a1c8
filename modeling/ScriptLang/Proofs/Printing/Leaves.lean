import ScriptLang.Proofs.Grammar.Reading

namespace ScriptLang

/-- A token in a tree, or a constant in it. -/
inductive Leaf where
  | token (t : Token)
  | literal (v : Literal)

section Leaves

variable {ρ : Type}

mutual

def Expr.leaves : Expr ρ → List Leaf
  | .literal value => [.literal value]
  | .group inner => inner.leaves
  | .unary operator right => .token operator :: right.leaves
  | .binary left operator right => left.leaves ++ .token operator :: right.leaves
  | .logical left operator right => left.leaves ++ .token operator :: right.leaves
  | .ident _ name => [.token name]
  | .assign _ name value => .token name :: value.leaves
  | .call callee paren arguments => callee.leaves ++ .token paren :: Expr.allLeaves arguments
  | .lambda params body => params.map .token ++ Stmt.allLeaves body

def Expr.allLeaves : List (Expr ρ) → List Leaf
  | [] => []
  | e :: es => e.leaves ++ Expr.allLeaves es

def Stmt.leaves : Stmt ρ → List Leaf
  | .exprStmt e => e.leaves
  | .printStmt e => e.leaves
  | .varDecl name none => [.token name]
  | .varDecl name (some initial) => .token name :: initial.leaves
  | .block body => Stmt.allLeaves body
  | .ifStmt condition yes none => condition.leaves ++ yes.leaves
  | .ifStmt condition yes (some no) => condition.leaves ++ (yes.leaves ++ no.leaves)
  | .whileStmt condition body => condition.leaves ++ body.leaves
  | .breakStmt keyword => [.token keyword]
  | .returnStmt keyword none => [.token keyword]
  | .returnStmt keyword (some value) => .token keyword :: value.leaves
  | .funDecl name params body => .token name :: (params.map .token ++ Stmt.allLeaves body)

def Stmt.allLeaves : List (Stmt ρ) → List Leaf
  | [] => []
  | s :: ss => s.leaves ++ Stmt.allLeaves ss

end

end Leaves

namespace Grammar

open Syntax (forLoop)

variable {P : Leaf → Prop}

structure Gives (P : Leaf → Prop) (t : Token) : Prop where
  token : P (.token t)
  literal : ∀ v, literal? t.kind = some v → P (.literal v)

/-- All of these have the property. A definition of its own, so that lists of leaves are taken apart
only where they are built. -/
def Each {α : Type} (P : α → Prop) (as : List α) : Prop :=
  ∀ a ∈ as, P a

section Each

variable {α : Type} {Q : α → Prop} {a : α} {as bs : List α}

@[simp] theorem each_nil : Each Q [] := fun _ h => by cases h

@[simp] theorem each_cons : Each Q (a :: as) ↔ Q a ∧ Each Q as := List.forall_mem_cons

@[simp] theorem each_append : Each Q (as ++ bs) ↔ Each Q as ∧ Each Q bs := List.forall_mem_append

end Each

def Phrase.LeavesAre (P : Leaf → Prop) : Phrase → Prop
  | .expression e | .level _ e | .primary e => Each P e.leaves
  | .chain _ left e | .calls left e => Each P left.leaves → Each P e.leaves
  | .arguments es => Each P (Expr.allLeaves es)
  | .parameters ps => Each P (ps.map .token)
  | .function params body => Each P (params.map .token) ∧ Each P (Stmt.allLeaves body)
  | .optional o => ∀ e ∈ o, Each P e.leaves
  | .variable s | .statement _ _ s | .declaration _ s => Each P s.leaves
  | .initial o => ∀ s ∈ o, Each P s.leaves
  | .declarations _ ss => Each P (Stmt.allLeaves ss)

theorem node_leaves {l : Level} {left right : Expr Unit} {operator : Token} :
    (l.node left operator right).leaves = left.leaves ++ .token operator :: right.leaves := by
  cases l <;> rfl

theorem forLoop_leaves {initial : Option (Stmt Unit)} {condition increment : Option (Expr Unit)}
    {body : Stmt Unit} (htrue : P (.literal (.boolean true)))
    (hi : ∀ s ∈ initial, Each P s.leaves) (hc : ∀ e ∈ condition, Each P e.leaves)
    (hn : ∀ e ∈ increment, Each P e.leaves) (hb : Each P body.leaves) :
    Each P (forLoop initial condition increment body).leaves := by
  cases initial <;> cases condition <;> cases increment <;>
    simp_all [forLoop, Stmt.leaves, Stmt.allLeaves, Expr.leaves]

/-- What holds of the tokens that were read holds of the leaves of the tree. -/
theorem Reads.leaves {p : Phrase} {ts : List Token} (h : Reads p ts)
    (htrue : P (.literal (.boolean true))) (hts : Each (Gives P) ts) : p.LeavesAre P := by
  induction h with
  | forStmt _ _ _ _ _ _ _ _ ihi ihc ihn ihb =>
    simp only [each_cons, each_append] at hts
    obtain ⟨-, -, hi, hc, -, hn, -, hb⟩ := hts
    exact forLoop_leaves htrue (ihi hi) (ihc hc) (ihn hn) (ihb hb)
  | literal hv => simpa [Phrase.LeavesAre, Expr.leaves] using (each_cons.mp hts).1.literal _ hv
  | @returnStmt _ _ _ value _ _ _ _ ih =>
    have hword := (each_cons.mp hts).1.token
    cases value <;> simp_all [Phrase.LeavesAre, Stmt.leaves]
  | _ =>
    simp_all [Phrase.LeavesAre, Expr.leaves, Expr.allLeaves, Stmt.leaves, Stmt.allLeaves,
      node_leaves, Gives.token]

end Grammar
end ScriptLang
