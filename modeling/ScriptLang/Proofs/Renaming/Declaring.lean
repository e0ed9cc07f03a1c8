import ScriptLang.Proofs.Resolution.Resolved
import ScriptLang.Proofs.Renaming.Scopes

namespace ScriptLang

namespace Renaming

open Scope

def Site.Settled (a : Site) : Prop :=
  ∀ scope ∈ a.scopes.head?, scope.pending = none

def Site.Inner (a : Site) : Prop :=
  ∀ scope ∈ a.scopes, scope.node.length < a.here.length

section Declaration

variable {c : Change} {a : Site} {name : Token} {S D P : Stack} {names : Names} {ready : Bool}
  {scope : OpenScope} {scopes : List OpenScope}

theorem tracks_cons :
    Tracks c (scope :: scopes) (names :: S) ↔
      names.lookup c.new = none ∧ (names.lookup c.old = some false ↔ scope.pending = some c.old) ∧
        scope.node ∉ scopes.map OpenScope.node ∧ Tracks c scopes S := by
  constructor
  · rintro ⟨hlength, hunused, hpending, hapart⟩
    obtain ⟨hnode, hapart⟩ := List.nodup_cons.mp hapart
    obtain ⟨hnames, hunused⟩ := List.forall_mem_cons.mp hunused
    exact ⟨hnames, hpending 0, hnode, Nat.succ.inj hlength, hunused, fun k => hpending (k + 1),
      hapart⟩
  · rintro ⟨hnames, hhead, hnode, hlength, hunused, hpending, hapart⟩
    refine ⟨congrArg (· + 1) hlength, List.forall_mem_cons.mpr ⟨hnames, hunused⟩, ?_,
      List.nodup_cons.mpr ⟨hnode, hapart⟩⟩
    intro k
    cases k with
    | zero => exact hhead
    | succ k => exact hpending k

theorem tracks_nil : Tracks c [] S ↔ S = [] := by
  constructor
  · intro h
    exact List.eq_nil_of_length_eq_zero h.length
  · rintro rfl
    exact ⟨rfl, by simp, fun k => by simp [status, Change.Pends], List.nodup_nil⟩

theorem Tracks.enter (h : Tracks c a.scopes S) (ha : a.Inner) :
    Tracks c a.enter.scopes ([] :: S) := by
  refine tracks_cons.mpr ⟨rfl, by simp, ?_, h⟩
  intro hmem
  obtain ⟨scope, hscope, hnode⟩ := List.mem_map.mp hmem
  exact absurd (congrArg List.length hnode) (Nat.ne_of_lt (ha scope hscope))

theorem stack_enter : c.stack a.enter.scopes ([] :: S) = [] :: c.stack a.scopes S := by
  simp [Change.stack, Site.enter, Change.names]

theorem enter_settled : a.enter.Settled := by
  intro scope hscope
  cases Option.some.inj hscope
  rfl

theorem apply_declared (ha : a.scopes = scope :: scopes) :
    c.apply (a.declared name) =
      if scope.node = c.scope ∧ name.lexeme = c.old then { name with lexeme := c.new }
      else name := by
  have hconcerns : c.Concerns (a.declared name) ↔ scope.node = c.scope ∧ name.lexeme = c.old := by
    constructor
    · rintro ⟨hn, d, hd, ho⟩
      cases hd
      exact ⟨by simpa [Change.Opens, Site.declared, ha] using ho, hn⟩
    · rintro ⟨ho, hn⟩
      exact ⟨hn, 0, rfl, by simpa [Change.Opens, Site.declared, ha] using ho⟩
  unfold Change.apply
  simp only [hconcerns]
  rfl

/-- A name added to the innermost scope is the renamed name added to the scope after the change. -/
theorem stack_declared (ha : a.scopes = scope :: scopes) :
    c.stack a.scopes (((name.lexeme, ready) :: names) :: S) =
      (((c.apply (a.declared name)).lexeme, ready) ::
        if scope.node = c.scope then c.names names else names) :: c.stack scopes S := by
  rw [apply_declared ha, ha]
  by_cases hnode : scope.node = c.scope
  · by_cases ho : name.lexeme = c.old
    · simp [Change.stack, Change.names, hnode, ho]
    · simp [Change.stack, Change.names, hnode, ho]
  · simp [Change.stack, hnode]

theorem stack_initializing : c.stack (a.initializing name).scopes S = c.stack a.scopes S := by
  obtain ⟨here, scopes⟩ := a
  cases scopes with
  | nil => rfl
  | cons scope scopes => cases S <;> rfl

theorem Tracks.declare (h : Tracks c a.scopes S) (ha : a.Settled) (hn : name.lexeme ≠ c.new)
    (hd : declare name S = (D, [])) : Tracks c (a.initializing name).scopes D := by
  obtain ⟨here, scopes⟩ := a
  cases scopes with
  | nil =>
    cases tracks_nil.mp h
    cases hd
    exact h
  | cons scope scopes =>
    cases S with
    | nil => cases h.length
    | cons names S =>
      obtain ⟨-, rfl⟩ := declare_cons_eq.mp hd
      obtain ⟨hnew, hhead, hnode, htail⟩ := tracks_cons.mp h
      rw [ha scope rfl] at hhead
      refine tracks_cons.mpr ⟨?_, ?_, hnode, htail⟩
      · rw [lookup_names_cons, if_neg (Ne.symm hn), hnew]
      · rw [lookup_names_cons]
        by_cases ho : c.old = name.lexeme
        · simp [ho]
        · simp [ho, hhead, Ne.symm ho]

theorem Tracks.define (h : Tracks c (a.initializing name).scopes D) (ha : a.Settled)
    (hn : name.lexeme ≠ c.new) : Tracks c a.scopes (define name D) := by
  obtain ⟨here, scopes⟩ := a
  cases scopes with
  | nil =>
    cases tracks_nil.mp h
    exact h
  | cons scope scopes =>
    cases D with
    | nil => cases h.length
    | cons names D =>
      obtain ⟨hnew, hhead, hnode, htail⟩ := tracks_cons.mp h
      refine tracks_cons.mpr ⟨?_, ?_, hnode, htail⟩
      · rw [lookup_names_cons, if_neg (Ne.symm hn), hnew]
      · rw [lookup_names_cons, ha scope rfl]
        by_cases ho : c.old = name.lexeme
        · simp [ho]
        · simpa [ho, Ne.symm ho] using hhead

theorem define_renamed (h : Tracks c (a.initializing name).scopes D) :
    define (c.apply (a.declared name)) (c.stack a.scopes D) = c.stack a.scopes (define name D) := by
  obtain ⟨here, scopes⟩ := a
  cases scopes with
  | nil =>
    cases tracks_nil.mp h
    rfl
  | cons scope scopes =>
    cases D with
    | nil => cases h.length
    | cons names D => exact (stack_declared rfl).symm

theorem declare_renamed (h : Tracks c a.scopes S) (hn : name.lexeme ≠ c.new)
    (hd : declare name S = (D, [])) :
    declare (c.apply (a.declared name)) (c.stack a.scopes S) = (c.stack a.scopes D, []) := by
  obtain ⟨here, scopes⟩ := a
  cases scopes with
  | nil =>
    cases tracks_nil.mp h
    cases hd
    rfl
  | cons scope scopes =>
    cases S with
    | nil => cases h.length
    | cons names S =>
      obtain ⟨hfresh, rfl⟩ := declare_cons_eq.mp hd
      obtain ⟨hnew, -⟩ := tracks_cons.mp h
      refine declare_cons_eq.mpr ⟨?_, stack_declared rfl⟩
      rw [apply_declared rfl]
      by_cases hnode : scope.node = c.scope
      · by_cases ho : name.lexeme = c.old
        · rw [ho] at hfresh
          simp [hnode, ho, lookup_names_new hnew, hfresh]
        · simp [hnode, ho, lookup_names hn ho, hfresh]
      · simp [hnode, hfresh]

theorem declareParams_renamed {params : List Token} (h : Tracks c a.scopes S) (ha : a.Settled)
    (hn : ∀ p ∈ params, p.lexeme ≠ c.new) (hd : declareParams params S = (P, [])) :
    Tracks c a.scopes P ∧
      declareParams (params.map (c.apply ∘ a.declared)) (c.stack a.scopes S) =
        (c.stack a.scopes P, []) := by
  induction params generalizing S with
  | nil =>
    cases hd
    exact ⟨h, rfl⟩
  | cons p ps ih =>
    obtain ⟨hp, hps⟩ := List.forall_mem_cons.mp hn
    obtain ⟨D, hfirst, hothers⟩ := declareParams_cons_eq.mp hd
    have hdeclared := h.declare ha hp hfirst
    obtain ⟨htracks, hrenamed⟩ := ih (hdeclared.define ha hp) hps hothers
    refine ⟨htracks, declareParams_cons_eq.mpr ⟨_, declare_renamed h hp hfirst, ?_⟩⟩
    rw [Function.comp_apply, define_renamed hdeclared]
    exact hrenamed

end Declaration

end Renaming

end ScriptLang
