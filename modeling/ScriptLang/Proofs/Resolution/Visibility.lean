import ScriptLang.Proofs.Resolution.Position
import ScriptLang.Scope

namespace ScriptLang

open Position Scope

namespace Tree

variable {ρ : Type} (t : Tree ρ)

section Meaning

def Declares (σ : Position) (x : String) (δ : Position) : Prop :=
  ((t.at? δ).bind declared?).map Token.lexeme = some x ∧ (t.scopes δ).head? = some σ

def HasParam (σ : Position) (x : String) : Prop :=
  x ∈ ((t.at? σ).elim [] params).map Token.lexeme

/-- Where the position `π` is come to, the scope `σ` has the name: as a parameter, or from a
declaration that precedes `π`, or from one that has `π` inside, if it counts there. -/
def Has (counts : Position → Bool) (x : String) (π σ : Position) : Prop :=
  t.HasParam σ x ∨
    ∃ δ ∈ t.sites, t.Declares σ x δ ∧ (Precedes δ π ∨ Above δ π ∧ counts δ)

def Begun (x : String) (π σ : Position) : Prop :=
  t.Has (fun _ => true) x π σ

/-- The scope has the name, and not only from the variable whose first value `π` is in. -/
def Complete (x : String) (π σ : Position) : Prop :=
  t.Has (t.holdsAt isFunction) x π σ

/-- The innermost scope has the name, but its declaration is not complete. -/
def Pending (x : String) (π : Position) : Prop :=
  ∃ σ ∈ (t.scopes π).head?, t.Begun x π σ ∧ ¬ t.Complete x π σ

instance (σ : Position) (x : String) (δ : Position) : Decidable (t.Declares σ x δ) :=
  inferInstanceAs (Decidable (_ ∧ _))

instance (σ : Position) (x : String) : Decidable (t.HasParam σ x) :=
  inferInstanceAs (Decidable (_ ∈ _))

instance (counts : Position → Bool) (x : String) (π σ : Position) :
    Decidable (t.Has counts x π σ) :=
  inferInstanceAs (Decidable (_ ∨ _))

instance (x : String) (π σ : Position) : Decidable (t.Begun x π σ) :=
  inferInstanceAs (Decidable (t.Has _ x π σ))

instance (x : String) (π σ : Position) : Decidable (t.Complete x π σ) :=
  inferInstanceAs (Decidable (t.Has _ x π σ))

instance (x : String) (π : Position) : Decidable (t.Pending x π) :=
  inferInstanceAs (Decidable (∃ σ ∈ (t.scopes π).head?, _))

def Nearest (P : Position → Prop) (scopes : List Position) (d : Nat) : Prop :=
  (∃ σ, scopes[d]? = some σ ∧ P σ) ∧ ∀ k < d, ∀ σ, scopes[k]? = some σ → ¬ P σ

/-- What a use of a name means. -/
def Means (x : String) (π : Position) : Binding → Prop
  | .global => ∀ σ ∈ t.scopes π, ¬ t.Begun x π σ
  | .hops d =>
    ¬ t.Pending x π ∧ Nearest (t.Begun x π) (t.scopes π) d ∨
      t.Pending x π ∧ ∃ e, d = e + 1 ∧ Nearest (t.Complete x π) (t.scopes π).tail e

def Unbound (x : String) (π : Position) : Prop :=
  t.Pending x π ∧ ∀ σ ∈ (t.scopes π).tail, ¬ t.Complete x π σ

instance (x : String) (π : Position) : Decidable (t.Unbound x π) :=
  inferInstanceAs (Decidable (_ ∧ ∀ σ ∈ (t.scopes π).tail, _))

end Meaning

section Faults

def unbound (fault : Fault) (π : Position) (name : Token) : List Scope.Error :=
  if t.Unbound name.lexeme π then [⟨fault, name⟩] else []

def redeclared (π : Position) (name : Token) : List Scope.Error :=
  if ∃ σ ∈ (t.scopes π).head?, t.Begun name.lexeme π σ then [⟨.redeclared, name⟩] else []

def repeated (params : List Token) : List Scope.Error :=
  params.zipIdx.filterMap fun p =>
    if p.1.lexeme ∈ (params.take p.2).map Token.lexeme then some ⟨.redeclared, p.1⟩ else none

def faultsAt (π : Position) : List Scope.Error :=
  match t.at? π with
  | some (.expression (.ident _ name)) => t.unbound .readInInitializer π name
  | some (.expression (.assign _ name _)) => t.unbound .assignedInInitializer π name
  | some (.expression (.lambda params _)) => repeated params
  | some (.statement (.varDecl name _)) => t.redeclared π name
  | some (.statement (.funDecl name params _)) => t.redeclared π name ++ repeated params
  | some (.statement (.returnStmt keyword _)) =>
    if t.inFunction π then [] else [⟨.returnOutsideFunction, keyword⟩]
  | _ => []

/-- All that is wrong in a program. -/
def faults : List Scope.Error :=
  t.sites.flatMap t.faultsAt

def isUse (π : Position) : Bool :=
  ((t.at? π).bind used?).isSome

/-- The positions of all uses, in the order in which they are looked at. -/
def uses : List Position :=
  t.sites.filter t.isUse

end Faults

section Steps

variable {t} {part : Tree ρ} {counts : Position → Bool} {π σ δ : Position} {i : Nat} {x : String}

theorem Declares.isSome (h : t.Declares σ x δ) : (t.at? δ).isSome := by
  obtain ⟨hdeclared, -⟩ := h
  cases hδ : t.at? δ with
  | none => simp [hδ] at hdeclared
  | some part => rfl

theorem Declares.above (h : t.Declares σ x δ) : Above σ δ :=
  above_of_mem_scopes (List.mem_of_mem_head? h.2)

theorem Declares.mem_sites (h : t.Declares σ x δ) : δ ∈ t.sites := by
  obtain ⟨hdeclared, -⟩ := h
  cases hδ : t.at? δ with
  | none => simp [hδ] at hdeclared
  | some part =>
    refine t.mem_sites δ ⟨part, hδ, ?_⟩
    rw [hδ, Option.bind_some, Option.map_eq_some_iff] at hdeclared
    obtain ⟨name, hname, -⟩ := hdeclared
    exact Option.isSome_of_eq_some hname

theorem has_iff :
    t.Has counts x π σ ↔
      t.HasParam σ x ∨ ∃ δ, t.Declares σ x δ ∧ (Precedes δ π ∨ Above δ π ∧ counts δ) := by
  apply or_congr_right
  constructor
  · rintro ⟨δ, -, h⟩
    exact ⟨δ, h⟩
  · rintro ⟨δ, h, hat⟩
    exact ⟨δ, h.mem_sites, h, hat⟩

theorem has_first :
    t.Has counts x (π ++ [0]) σ ↔ t.Has counts x π σ ∨ t.Declares σ x π ∧ counts π := by
  simp only [has_iff, precedes_first, above_concat]
  constructor
  · rintro (h | ⟨δ, h, hp | ⟨ha | rfl, hc⟩⟩)
    · exact .inl (.inl h)
    · exact .inl (.inr ⟨δ, h, .inl hp⟩)
    · exact .inl (.inr ⟨δ, h, .inr ⟨ha, hc⟩⟩)
    · exact .inr ⟨h, hc⟩
  · rintro ((h | ⟨δ, h, hp | ⟨ha, hc⟩⟩) | ⟨h, hc⟩)
    · exact .inl h
    · exact .inr ⟨δ, h, .inl hp⟩
    · exact .inr ⟨δ, h, .inr ⟨.inl ha, hc⟩⟩
    · exact .inr ⟨π, h, .inr ⟨.inr rfl, hc⟩⟩

theorem has_own : t.Has counts x (π ++ [0]) π ↔ t.HasParam π x := by
  rw [has_iff, or_iff_left]
  rintro ⟨δ, h, hat⟩
  rw [precedes_first, above_concat] at hat
  rcases hat with hp | ⟨ha | rfl, -⟩
  · exact h.above.not_precedes hp
  · exact h.above.not_prefix ha.1
  · exact h.above.2 rfl

theorem precedes_after (h : t.at? (π ++ [i]) = some part) (hδ : (t.at? δ).isSome) :
    Precedes δ (π ++ [i + 1]) ↔
      Precedes δ (π ++ [i] ++ [part.parts.length]) ∨ δ = π ++ [i] := by
  rw [precedes_next, precedes_concat (π := π ++ [i]), prefix_iff, or_assoc]
  apply or_congr_right
  rw [or_comm]
  apply or_congr_left
  constructor
  · rintro ⟨j, τ, rfl⟩
    exact ⟨j, τ, lt_of_at? h hδ, rfl⟩
  · rintro ⟨j, τ, -, rfl⟩
    exact ⟨j, τ, rfl⟩

theorem has_next (h : t.at? (π ++ [i]) = some part) :
    t.Has counts x (π ++ [i + 1]) σ ↔
      t.Has counts x (π ++ [i] ++ [part.parts.length]) σ ∨ t.Declares σ x (π ++ [i]) := by
  rw [has_iff, has_iff, or_assoc]
  apply or_congr_right
  constructor
  · rintro ⟨δ, hδ, hat⟩
    rw [precedes_after h hδ.isSome, above_beside (j := i)] at hat
    rcases hat with (hp | rfl) | ⟨ha, hc⟩
    · exact .inl ⟨δ, hδ, .inl hp⟩
    · exact .inr hδ
    · exact .inl ⟨δ, hδ, .inr ⟨above_concat.mpr (.inl ha), hc⟩⟩
  · rintro (⟨δ, hδ, hp | ⟨ha, hc⟩⟩ | hδ)
    · exact ⟨δ, hδ, .inl ((precedes_after h hδ.isSome).mpr (.inl hp))⟩
    · rcases above_concat.mp ha with ha | rfl
      · exact ⟨δ, hδ, .inr ⟨above_beside.mp ha, hc⟩⟩
      · exact ⟨_, hδ, .inl ((precedes_after h hδ.isSome).mpr (.inr rfl))⟩
    · exact ⟨_, hδ, .inl ((precedes_after h hδ.isSome).mpr (.inr rfl))⟩

theorem has_past (hopens : t.holdsAt opens (π ++ [i])) (hσ : Above σ (π ++ [i])) :
    t.Has counts x (π ++ [i + 1]) σ ↔
      t.Has counts x (π ++ [i]) σ ∨ t.Declares σ x (π ++ [i]) := by
  have hpast : ∀ δ, t.Declares σ x δ →
      (Precedes δ (π ++ [i + 1]) ↔ Precedes δ (π ++ [i]) ∨ δ = π ++ [i]) := by
    intro δ hδ
    rw [precedes_next, prefix_iff]
    apply or_congr_right
    rw [or_iff_left]
    rintro ⟨j, τ, rfl⟩
    exact hσ.not_prefix (prefix_of_head?_scopes hopens hδ.2)
  rw [has_iff, has_iff, or_assoc]
  apply or_congr_right
  constructor
  · rintro ⟨δ, hδ, hat⟩
    rw [hpast δ hδ, above_beside (j := i)] at hat
    rcases hat with (hp | rfl) | ha
    · exact .inl ⟨δ, hδ, .inl hp⟩
    · exact .inr hδ
    · exact .inl ⟨δ, hδ, .inr ha⟩
  · rintro (⟨δ, hδ, hp | ⟨ha, hc⟩⟩ | hδ)
    · exact ⟨δ, hδ, .inl ((hpast δ hδ).mpr (.inl hp))⟩
    · exact ⟨δ, hδ, .inr ⟨above_beside.mp ha, hc⟩⟩
    · exact ⟨_, hδ, .inl ((hpast _ hδ).mpr (.inr rfl))⟩

end Steps

end Tree

end ScriptLang
