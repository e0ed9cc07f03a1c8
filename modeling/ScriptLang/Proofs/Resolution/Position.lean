import ScriptLang.Syntax.Reference
import ScriptLang.Syntax
import Mathlib.Data.List.Infix
import Mathlib.Data.List.Nodup

namespace ScriptLang

/-- Where a part stands: the number of the part to go to, at each step from the whole. -/
abbrev Position := List Nat

namespace Position

variable {δ π τ : Position} {i j : Nat}

def Precedes : Position → Position → Prop
  | i :: δ, j :: π => i < j ∨ i = j ∧ Precedes δ π
  | _, _ => False

instance decidablePrecedes : (δ π : Position) → Decidable (Precedes δ π)
  | i :: δ, j :: π =>
    have := decidablePrecedes δ π
    inferInstanceAs (Decidable (i < j ∨ i = j ∧ Precedes δ π))
  | [], _ => .isFalse (by simp [Precedes])
  | _ :: _, [] => .isFalse (by simp [Precedes])

def Above (δ π : Position) : Prop :=
  δ <+: π ∧ δ ≠ π

instance : Decidable (Above δ π) :=
  inferInstanceAs (Decidable (δ <+: π ∧ δ ≠ π))

theorem precedes_concat :
    Precedes δ (π ++ [j]) ↔ Precedes δ π ∨ ∃ i τ, i < j ∧ δ = π ++ i :: τ := by
  induction π generalizing δ with
  | nil =>
    cases δ with
    | nil => simp [Precedes]
    | cons i δ => simp [Precedes]
  | cons k π ih =>
    cases δ with
    | nil => simp [Precedes]
    | cons i δ =>
      simp only [List.cons_append, Precedes, ih]
      constructor
      · rintro (h | ⟨rfl, h | ⟨n, τ, hn, rfl⟩⟩)
        · exact .inl (.inl h)
        · exact .inl (.inr ⟨rfl, h⟩)
        · exact .inr ⟨n, τ, hn, rfl⟩
      · rintro ((h | ⟨rfl, h⟩) | ⟨n, τ, hn, heq⟩)
        · exact .inl h
        · exact .inr ⟨rfl, .inl h⟩
        · obtain ⟨rfl, rfl⟩ := List.cons.inj heq
          exact .inr ⟨rfl, .inr ⟨n, τ, hn, rfl⟩⟩

theorem precedes_first : Precedes δ (π ++ [0]) ↔ Precedes δ π := by
  simp [precedes_concat]

theorem above_concat : Above δ (π ++ [j]) ↔ Above δ π ∨ δ = π := by
  unfold Above
  rw [List.prefix_concat_iff]
  constructor
  · rintro ⟨h | h, hne⟩
    · exact absurd h hne
    · by_cases heq : δ = π
      · exact .inr heq
      · exact .inl ⟨h, heq⟩
  · rintro (⟨h, -⟩ | rfl)
    · refine ⟨.inr h, ?_⟩
      rintro rfl
      exact absurd h.length_le (by simp)
    · exact ⟨.inr List.prefix_rfl, by simp⟩

theorem above_beside : Above δ (π ++ [i]) ↔ Above δ (π ++ [j]) := by
  rw [above_concat, above_concat]

theorem Above.not_prefix (h : Above δ π) : ¬ π <+: δ := by
  intro hprefix
  exact h.2 (h.1.eq_of_length (Nat.le_antisymm h.1.length_le hprefix.length_le))

theorem Above.not_precedes (h : Above π δ) : ¬ Precedes δ π := by
  obtain ⟨⟨τ, rfl⟩, -⟩ := h
  induction π with
  | nil => cases τ <;> simp [Precedes]
  | cons i π ih => simpa [Precedes] using ih

theorem prefix_iff : π <+: δ ↔ δ = π ∨ ∃ i τ, δ = π ++ i :: τ := by
  constructor
  · rintro ⟨τ, rfl⟩
    cases τ with
    | nil => exact .inl (List.append_nil π)
    | cons i τ => exact .inr ⟨i, τ, rfl⟩
  · rintro (rfl | ⟨i, τ, rfl⟩)
    · exact List.prefix_rfl
    · exact List.prefix_append _ _

theorem precedes_next :
    Precedes δ (π ++ [i + 1]) ↔ Precedes δ (π ++ [i]) ∨ π ++ [i] <+: δ := by
  rw [precedes_concat, precedes_concat, or_assoc]
  apply or_congr_right
  constructor
  · rintro ⟨k, τ, hk, rfl⟩
    rcases Nat.lt_or_eq_of_le (Nat.le_of_lt_succ hk) with hlt | rfl
    · exact .inl ⟨k, τ, hlt, rfl⟩
    · exact .inr ⟨τ, by simp⟩
  · rintro (⟨k, τ, hk, rfl⟩ | ⟨τ, rfl⟩)
    · exact ⟨k, τ, Nat.lt_succ_of_lt hk, rfl⟩
    · exact ⟨i, τ, Nat.lt_succ_self i, by simp⟩

end Position

open Position

/-- A program or a part of one. -/
inductive Tree (ρ : Type) where
  | program (statements : List (Stmt ρ))
  | statement (s : Stmt ρ)
  | expression (e : Expr ρ)

section Parts

variable {ρ : Type}

def Expr.parts : Expr ρ → List (Tree ρ)
  | .literal _ => []
  | .group inner => [.expression inner]
  | .unary _ right => [.expression right]
  | .binary left _ right => [.expression left, .expression right]
  | .logical left _ right => [.expression left, .expression right]
  | .ident _ _ => []
  | .assign _ _ value => [.expression value]
  | .call callee _ arguments => .expression callee :: arguments.map .expression
  | .lambda _ body => body.map .statement

def Stmt.parts : Stmt ρ → List (Tree ρ)
  | .exprStmt e => [.expression e]
  | .printStmt e => [.expression e]
  | .varDecl _ none => []
  | .varDecl _ (some initial) => [.expression initial]
  | .block body => body.map .statement
  | .ifStmt condition yes none => [.expression condition, .statement yes]
  | .ifStmt condition yes (some no) => [.expression condition, .statement yes, .statement no]
  | .whileStmt condition body => [.expression condition, .statement body]
  | .breakStmt _ => []
  | .returnStmt _ none => []
  | .returnStmt _ (some value) => [.expression value]
  | .funDecl _ _ body => body.map .statement

namespace Tree

def parts : Tree ρ → List (Tree ρ)
  | .program statements => statements.map .statement
  | .statement s => s.parts
  | .expression e => e.parts

/-- What stands at a position. -/
def at? : Tree ρ → Position → Option (Tree ρ)
  | t, [] => some t
  | t, i :: π =>
    match t.parts[i]? with
    | some part => part.at? π
    | none => none

def opens : Tree ρ → Bool
  | .statement (.block _) => true
  | .statement (.funDecl _ _ _) => true
  | .expression (.lambda _ _) => true
  | _ => false

def isFunction : Tree ρ → Bool
  | .statement (.funDecl _ _ _) => true
  | .expression (.lambda _ _) => true
  | _ => false

def params : Tree ρ → List Token
  | .statement (.funDecl _ params _) => params
  | .expression (.lambda params _) => params
  | _ => []

def declared? : Tree ρ → Option Token
  | .statement (.varDecl name _) => some name
  | .statement (.funDecl name _ _) => some name
  | _ => none

/-- The token of a use, and whether it is an assignment. -/
def used? : Tree ρ → Option (Token × Bool)
  | .expression (.ident _ name) => some (name, false)
  | .expression (.assign _ name _) => some (name, true)
  | _ => none

variable {t part : Tree ρ} {δ π τ : Position} {i : Nat}

theorem at?_append : t.at? (π ++ τ) = (t.at? π).bind (·.at? τ) := by
  induction π generalizing t with
  | nil => rfl
  | cons i π ih =>
    rw [List.cons_append, at?, at?]
    cases t.parts[i]? with
    | none => rfl
    | some part => exact ih

theorem at?_concat (h : t.at? π = some part) : t.at? (π ++ [i]) = part.parts[i]? := by
  rw [at?_append, h, Option.bind_some, at?]
  cases part.parts[i]? <;> rfl

theorem lt_of_at? (h : t.at? π = some part) (hin : (t.at? (π ++ i :: τ)).isSome) :
    i < part.parts.length := by
  rw [at?_append, h, Option.bind_some, at?] at hin
  cases hi : part.parts[i]? with
  | none => simp [hi] at hin
  | some _ => exact (List.getElem?_eq_some_iff.mp hi).1

variable (t)

def holdsAt (P : Tree ρ → Bool) (π : Position) : Bool :=
  (t.at? π).any P

def scopes (π : Position) : List Position :=
  (π.inits.dropLast.filter (t.holdsAt opens)).reverse

def inFunction (π : Position) : Bool :=
  π.inits.dropLast.any (t.holdsAt isFunction)

variable {t}

theorem inits_concat : (π ++ [i]).inits.dropLast = π.inits.dropLast ++ [π] := by
  have hconcat : ∀ (τ : Position) (j : Nat), (τ ++ [j]).inits = τ.inits ++ [τ ++ [j]] := by
    simp [List.inits_append]
  rw [hconcat, List.dropLast_concat]
  rcases List.eq_nil_or_concat π with rfl | ⟨τ, j, rfl⟩
  · rfl
  · rw [List.concat_eq_append, hconcat, List.dropLast_concat]

theorem scopes_concat :
    t.scopes (π ++ [i]) = if t.holdsAt opens π then π :: t.scopes π else t.scopes π := by
  rw [scopes, inits_concat, List.filter_append, List.reverse_append, scopes]
  by_cases h : t.holdsAt opens π
  · simp [h]
  · simp [h]

theorem inFunction_concat :
    t.inFunction (π ++ [i]) = (t.inFunction π || t.holdsAt isFunction π) := by
  rw [inFunction, inits_concat, List.any_append, inFunction]
  simp

theorem above_of_mem_scopes {σ : Position} (h : σ ∈ t.scopes π) : Above σ π := by
  induction π using List.reverseRecOn with
  | nil => simp [scopes] at h
  | append_singleton π i ih =>
    rw [scopes_concat] at h
    apply above_concat.mpr
    by_cases hopens : t.holdsAt opens π
    · rw [if_pos hopens] at h
      rcases List.mem_cons.mp h with rfl | h
      · exact .inr rfl
      · exact .inl (ih h)
    · rw [if_neg hopens] at h
      exact .inl (ih h)

theorem scopes_nodup : (t.scopes π).Nodup := by
  induction π using List.reverseRecOn with
  | nil => exact List.nodup_nil
  | append_singleton π i ih =>
    rw [scopes_concat]
    by_cases hopens : t.holdsAt opens π
    · rw [if_pos hopens]
      exact List.nodup_cons.mpr ⟨fun h => (above_of_mem_scopes h).2 rfl, ih⟩
    · rwa [if_neg hopens]

theorem prefix_of_head?_scopes {σ : Position} (hopens : t.holdsAt opens π)
    (h : (t.scopes (π ++ i :: τ)).head? = some σ) : π <+: σ := by
  induction τ using List.reverseRecOn generalizing σ with
  | nil =>
    rw [scopes_concat, if_pos hopens] at h
    exact (Option.some.inj h) ▸ List.prefix_rfl
  | append_singleton τ j ih =>
    have hassoc : π ++ i :: (τ ++ [j]) = (π ++ i :: τ) ++ [j] := by simp
    rw [hassoc, scopes_concat] at h
    by_cases hinner : t.holdsAt opens (π ++ i :: τ)
    · rw [if_pos hinner] at h
      exact (Option.some.inj h) ▸ List.prefix_append _ _
    · rw [if_neg hinner] at h
      exact ih h

end Tree

section Sites

mutual

/-- Where an expression uses names or declares them, in the order in which they are looked at: an
assignment after its value. -/
def Expr.sites : Expr ρ → Position → List Position
  | .literal _, _ => []
  | .group inner, π => inner.sites (π ++ [0])
  | .unary _ right, π => right.sites (π ++ [0])
  | .binary left _ right, π => left.sites (π ++ [0]) ++ right.sites (π ++ [1])
  | .logical left _ right, π => left.sites (π ++ [0]) ++ right.sites (π ++ [1])
  | .ident _ _, π => [π]
  | .assign _ _ value, π => value.sites (π ++ [0]) ++ [π]
  | .call callee _ arguments, π => callee.sites (π ++ [0]) ++ Expr.allSites arguments π 1
  | .lambda _ body, π => π :: Stmt.allSites body π 0

def Expr.allSites : List (Expr ρ) → Position → (i : Nat) → List Position
  | [], _, _ => []
  | e :: es, π, i => e.sites (π ++ [i]) ++ Expr.allSites es π (i + 1)

/-- Where a statement uses names, declares them or returns; a declaration before its parts. -/
def Stmt.sites : Stmt ρ → Position → List Position
  | .exprStmt e, π => e.sites (π ++ [0])
  | .printStmt e, π => e.sites (π ++ [0])
  | .varDecl _ none, π => [π]
  | .varDecl _ (some initial), π => π :: initial.sites (π ++ [0])
  | .block body, π => Stmt.allSites body π 0
  | .ifStmt condition yes none, π => condition.sites (π ++ [0]) ++ yes.sites (π ++ [1])
  | .ifStmt condition yes (some no), π =>
    condition.sites (π ++ [0]) ++ yes.sites (π ++ [1]) ++ no.sites (π ++ [2])
  | .whileStmt condition body, π => condition.sites (π ++ [0]) ++ body.sites (π ++ [1])
  | .breakStmt _, _ => []
  | .returnStmt _ none, π => [π]
  | .returnStmt _ (some value), π => π :: value.sites (π ++ [0])
  | .funDecl _ _ body, π => π :: Stmt.allSites body π 0

def Stmt.allSites : List (Stmt ρ) → Position → (i : Nat) → List Position
  | [], _, _ => []
  | s :: ss, π, i => s.sites (π ++ [i]) ++ Stmt.allSites ss π (i + 1)

end

def Tree.sites : Tree ρ → List Position
  | .program statements => Stmt.allSites statements [] 0
  | .statement s => s.sites []
  | .expression e => e.sites []

def Tree.DeclaresAt (t : Tree ρ) (τ : Position) : Prop :=
  ∃ part, t.at? τ = some part ∧ part.declared?.isSome

theorem Tree.declaresAt_cons {t : Tree ρ} {i : Nat} {τ : Position}
    (h : t.DeclaresAt (i :: τ)) : ∃ part, t.parts[i]? = some part ∧ part.DeclaresAt τ := by
  obtain ⟨found, hfound, hdeclared⟩ := h
  rw [at?] at hfound
  cases hi : t.parts[i]? with
  | none => simp [hi] at hfound
  | some part =>
    rw [hi] at hfound
    exact ⟨part, rfl, found, hfound, hdeclared⟩

mutual

theorem Expr.mem_sites (e : Expr ρ) (π τ : Position) (h : (Tree.expression e).DeclaresAt τ) :
    π ++ τ ∈ e.sites π := by
  cases τ with
  | nil =>
    obtain ⟨_, hfound, hdeclared⟩ := h
    cases hfound
    cases hdeclared
  | cons i τ =>
    obtain ⟨part, hpart, hin⟩ := Tree.declaresAt_cons h
    have hstep : π ++ i :: τ = (π ++ [i]) ++ τ := by simp
    cases e with
    | literal value => cases hpart
    | ident note name => cases hpart
    | group inner =>
      match i, hpart with
      | 0, rfl => exact hstep ▸ inner.mem_sites _ τ hin
    | unary operator right =>
      match i, hpart with
      | 0, rfl => exact hstep ▸ right.mem_sites _ τ hin
    | binary left operator right =>
      match i, hpart with
      | 0, rfl => exact List.mem_append_left _ (hstep ▸ left.mem_sites _ τ hin)
      | 1, rfl => exact List.mem_append_right _ (hstep ▸ right.mem_sites _ τ hin)
    | logical left operator right =>
      match i, hpart with
      | 0, rfl => exact List.mem_append_left _ (hstep ▸ left.mem_sites _ τ hin)
      | 1, rfl => exact List.mem_append_right _ (hstep ▸ right.mem_sites _ τ hin)
    | assign note name value =>
      match i, hpart with
      | 0, rfl => exact List.mem_append_left _ (hstep ▸ value.mem_sites _ τ hin)
    | call callee paren arguments =>
      match i, hpart with
      | 0, rfl => exact List.mem_append_left _ (hstep ▸ callee.mem_sites _ τ hin)
      | i + 1, hpart =>
        apply List.mem_append_right
        rw [Nat.add_comm i 1]
        exact Expr.mem_allSites arguments π τ 1 i hpart hin
    | lambda params body =>
      apply List.mem_cons_of_mem
      have hbody := Stmt.mem_allSites body π τ 0 i hpart hin
      rwa [Nat.zero_add] at hbody

theorem Expr.mem_allSites (es : List (Expr ρ)) (π τ : Position) (k i : Nat) {part : Tree ρ}
    (hpart : (es.map Tree.expression)[i]? = some part) (h : part.DeclaresAt τ) :
    π ++ (k + i) :: τ ∈ Expr.allSites es π k := by
  cases es with
  | nil => cases hpart
  | cons e es =>
    match i, hpart with
    | 0, rfl =>
      have hstep : π ++ (k + 0) :: τ = (π ++ [k]) ++ τ := by simp
      exact List.mem_append_left _ (hstep ▸ e.mem_sites _ τ h)
    | i + 1, hpart =>
      have hothers := Expr.mem_allSites es π τ (k + 1) i hpart h
      rw [Nat.add_right_comm] at hothers
      exact List.mem_append_right _ hothers

theorem Stmt.mem_sites (s : Stmt ρ) (π τ : Position) (h : (Tree.statement s).DeclaresAt τ) :
    π ++ τ ∈ s.sites π := by
  cases τ with
  | nil =>
    rw [List.append_nil]
    obtain ⟨_, hfound, hdeclared⟩ := h
    cases hfound
    cases s with
    | varDecl name initial => cases initial <;> exact List.mem_cons_self
    | funDecl name params body => exact List.mem_cons_self
    | _ => cases hdeclared
  | cons i τ =>
    obtain ⟨part, hpart, hin⟩ := Tree.declaresAt_cons h
    have hstep : π ++ i :: τ = (π ++ [i]) ++ τ := by simp
    cases s with
    | exprStmt e | printStmt e =>
      match i, hpart with
      | 0, rfl => exact hstep ▸ e.mem_sites _ τ hin
    | varDecl name initial =>
      match initial, i, hpart with
      | some e, 0, rfl => exact List.mem_cons_of_mem _ (hstep ▸ e.mem_sites _ τ hin)
    | block body =>
      have hbody := Stmt.mem_allSites body π τ 0 i hpart hin
      rwa [Nat.zero_add] at hbody
    | ifStmt condition yes no =>
      match no, i, hpart with
      | none, 0, rfl => exact List.mem_append_left _ (hstep ▸ condition.mem_sites _ τ hin)
      | none, 1, rfl => exact List.mem_append_right _ (hstep ▸ yes.mem_sites _ τ hin)
      | some no, 0, rfl =>
        exact List.mem_append_left _
          (List.mem_append_left _ (hstep ▸ condition.mem_sites _ τ hin))
      | some no, 1, rfl =>
        exact List.mem_append_left _ (List.mem_append_right _ (hstep ▸ yes.mem_sites _ τ hin))
      | some no, 2, rfl => exact List.mem_append_right _ (hstep ▸ no.mem_sites _ τ hin)
    | whileStmt condition body =>
      match i, hpart with
      | 0, rfl => exact List.mem_append_left _ (hstep ▸ condition.mem_sites _ τ hin)
      | 1, rfl => exact List.mem_append_right _ (hstep ▸ body.mem_sites _ τ hin)
    | breakStmt keyword => cases hpart
    | returnStmt keyword value =>
      match value, i, hpart with
      | some e, 0, rfl => exact List.mem_cons_of_mem _ (hstep ▸ e.mem_sites _ τ hin)
    | funDecl name params body =>
      apply List.mem_cons_of_mem
      have hbody := Stmt.mem_allSites body π τ 0 i hpart hin
      rwa [Nat.zero_add] at hbody

theorem Stmt.mem_allSites (ss : List (Stmt ρ)) (π τ : Position) (k i : Nat) {part : Tree ρ}
    (hpart : (ss.map Tree.statement)[i]? = some part) (h : part.DeclaresAt τ) :
    π ++ (k + i) :: τ ∈ Stmt.allSites ss π k := by
  cases ss with
  | nil => cases hpart
  | cons s ss =>
    match i, hpart with
    | 0, rfl =>
      have hstep : π ++ (k + 0) :: τ = (π ++ [k]) ++ τ := by simp
      exact List.mem_append_left _ (hstep ▸ s.mem_sites _ τ h)
    | i + 1, hpart =>
      have hothers := Stmt.mem_allSites ss π τ (k + 1) i hpart h
      rw [Nat.add_right_comm] at hothers
      exact List.mem_append_right _ hothers

end

theorem Tree.mem_sites (t : Tree ρ) (τ : Position) (h : t.DeclaresAt τ) : τ ∈ t.sites := by
  cases t with
  | statement s => exact s.mem_sites [] τ h
  | expression e => exact e.mem_sites [] τ h
  | program statements =>
    cases τ with
    | nil =>
      obtain ⟨_, hfound, hdeclared⟩ := h
      cases hfound
      cases hdeclared
    | cons i τ =>
      obtain ⟨part, hpart, hin⟩ := Tree.declaresAt_cons h
      have hmem := Stmt.mem_allSites statements [] τ 0 i hpart hin
      rwa [Nat.zero_add] at hmem

end Sites

end Parts

end ScriptLang
