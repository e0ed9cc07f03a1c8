import ScriptLang.Proofs.Chronicle.Names
import ScriptLang.Proofs.Resolution.Visibility
import Mathlib.Tactic.Tauto

namespace ScriptLang

open Position Scope

namespace Scope

variable {x : String} {S : Stack} {name : Token} {k : Nat}

/-- A declaration is refused if its scope has the name, and begins if not. -/
theorem declare_eq :
    declare name S =
      if status name.lexeme S 0 ≠ none then (S, [⟨.redeclared, name⟩])
      else (S.modifyHead ((name.lexeme, false) :: ·), []) := by
  cases S with
  | nil => rfl
  | cons names S =>
    simp only [declare, status_zero, List.modifyHead_cons]
    cases names.lookup name.lexeme <;> rfl

theorem length_declare : (declare name S).1.length = S.length := by
  rw [declare_eq]
  by_cases h : status name.lexeme S 0 ≠ none
  · rw [if_pos h]
  · rw [if_neg h, List.length_modifyHead]

theorem length_define : (define name S).length = S.length := by
  cases S <;> rfl

theorem status_modifyHead {ready : Bool} :
    status x (S.modifyHead ((name.lexeme, ready) :: ·)) k =
      if k = 0 ∧ S ≠ [] ∧ x = name.lexeme then some ready else status x S k := by
  cases S with
  | nil => simp
  | cons names S =>
    cases k with
    | succ k => simp
    | zero =>
      by_cases hx : x = name.lexeme
      · simp [hx]
      · simp [hx, List.lookup_cons, beq_eq_false_iff_ne.mpr hx]

theorem define_eq : define name S = S.modifyHead ((name.lexeme, true) :: ·) := by
  cases S <;> rfl

/-- A declaration that begins or is complete is one that the innermost scope has. -/
theorem status_declare_ne_none :
    status x (declare name S).1 k ≠ none ↔
      status x S k ≠ none ∨ k = 0 ∧ S ≠ [] ∧ x = name.lexeme := by
  rw [declare_eq]
  by_cases h : status name.lexeme S 0 ≠ none
  · rw [if_pos h, iff_self_or]
    rintro ⟨rfl, -, rfl⟩
    exact h
  · rw [if_neg h, status_modifyHead]
    by_cases hx : k = 0 ∧ S ≠ [] ∧ x = name.lexeme
    · simp [hx]
    · rw [if_neg hx, or_iff_left hx]

theorem status_declare_ready :
    status x (declare name S).1 k = some true ↔ status x S k = some true := by
  rw [declare_eq]
  by_cases h : status name.lexeme S 0 ≠ none
  · rw [if_pos h]
  · rw [if_neg h, status_modifyHead]
    by_cases hx : k = 0 ∧ S ≠ [] ∧ x = name.lexeme
    · obtain ⟨rfl, -, rfl⟩ := hx
      simp only [ne_eq, not_not] at h
      simp [h]
    · rw [if_neg hx]

theorem status_define_ne_none :
    status x (define name S) k ≠ none ↔
      status x S k ≠ none ∨ k = 0 ∧ S ≠ [] ∧ x = name.lexeme := by
  rw [define_eq, status_modifyHead]
  by_cases hx : k = 0 ∧ S ≠ [] ∧ x = name.lexeme
  · simp [hx]
  · rw [if_neg hx, or_iff_left hx]

theorem status_define_ready :
    status x (define name S) k = some true ↔
      status x S k = some true ∨ k = 0 ∧ S ≠ [] ∧ x = name.lexeme := by
  rw [define_eq, status_modifyHead]
  by_cases hx : k = 0 ∧ S ≠ [] ∧ x = name.lexeme
  · simp [hx]
  · rw [if_neg hx, or_iff_left hx]

/-- A use is at fault where its name is pending, and no scope further out has it ready. -/
theorem bindingOf?_eq_none :
    bindingOf? x S = none ↔
      status x S 0 = some false ∧ ∀ k, 0 < k → status x S k ≠ some true := by
  cases S with
  | nil => simp [bindingOf?, status]
  | cons names S =>
    by_cases h : names.lookup x = some false
    · have hpending : isPending x names = true := decide_eq_true h
      have hready := findIdx?_eq_none_status (x := x) (S := S) (P := fun b => b = some true) rfl
      simp only [bindingOf?, hpending, if_true, Option.map_eq_none_iff, status_zero, h, true_and]
      refine Iff.trans (by simpa [isReady] using hready) ?_
      constructor
      · intro hall k hk
        obtain ⟨j, rfl⟩ := Nat.exists_eq_add_one_of_ne_zero (Nat.ne_of_gt hk)
        exact hall j
      · intro hall k
        exact hall (k + 1) k.succ_pos
    · have hpending : isPending x names = false := decide_eq_false h
      simp [bindingOf?, hpending, h]

def HasParams (params : List Token) (names : Names) : Prop :=
  ∀ x, names.lookup x = if x ∈ params.map Token.lexeme then some true else none

/-- A parameter is ready in its scope, and it is an error if the scope had its name before. -/
theorem declare_param {before : List Token} {p : Token} {names : Names}
    (h : HasParams before names) :
    (∃ names', define p (declare p (names :: S)).1 = names' :: S ∧
        HasParams (before ++ [p]) names') ∧
      (declare p (names :: S)).2 =
        if p.lexeme ∈ before.map Token.lexeme then [⟨.redeclared, p⟩] else [] := by
  have hadded : ∀ names' : Names, (∀ x, x ≠ p.lexeme → names'.lookup x = names.lookup x) →
      HasParams (before ++ [p]) ((p.lexeme, true) :: names') := by
    intro names' hold x
    rw [lookup_names_cons]
    by_cases hx : x = p.lexeme
    · simp [hx]
    · rw [if_neg hx, hold x hx, h x]
      simp [hx]
  by_cases hp : p.lexeme ∈ before.map Token.lexeme
  · have hready : status p.lexeme (names :: S) 0 ≠ none := by simp [h p.lexeme, hp]
    rw [declare_eq, if_pos hready, if_pos hp]
    exact ⟨⟨_, rfl, hadded names fun _ _ => rfl⟩, rfl⟩
  · have hnew : ¬ status p.lexeme (names :: S) 0 ≠ none := by simp [h p.lexeme, hp]
    rw [declare_eq, if_neg hnew, if_neg hp]
    refine ⟨⟨_, rfl, hadded _ ?_⟩, rfl⟩
    intro x hx
    rw [lookup_names_cons, if_neg hx]

/-- The errors of parameters are those of names that were there before. -/
theorem declareParams_after {before params : List Token} {names : Names}
    (h : HasParams before names) :
    (∃ names', (declareParams params (names :: S)).1 = names' :: S ∧
        HasParams (before ++ params) names') ∧
      (declareParams params (names :: S)).2 =
        (params.zipIdx before.length).filterMap fun p =>
          if p.1.lexeme ∈ ((before ++ params).take p.2).map Token.lexeme
          then some ⟨.redeclared, p.1⟩ else none := by
  induction params generalizing before names with
  | nil => exact ⟨⟨names, rfl, by rwa [List.append_nil]⟩, rfl⟩
  | cons p ps ih =>
    obtain ⟨⟨names', hdefine, hnames'⟩, herrors⟩ := declare_param (S := S) (p := p) h
    obtain ⟨⟨names'', hothers, hnames''⟩, herrors'⟩ := ih hnames'
    have hassoc : before ++ p :: ps = (before ++ [p]) ++ ps := by simp
    have htake : ((before ++ [p]) ++ ps).take before.length = before := by simp
    have hlength : (before ++ [p]).length = before.length + 1 := by simp
    simp only [declareParams, hdefine, hothers, herrors, herrors', hassoc, hlength,
      List.zipIdx_cons, List.filterMap_cons, htake]
    refine ⟨⟨names'', rfl, hnames''⟩, ?_⟩
    by_cases hp : p.lexeme ∈ before.map Token.lexeme
    · simp only [if_pos hp, List.singleton_append]
    · simp only [if_neg hp, List.nil_append]

/-- The scope of a function has its parameters, all of them ready. -/
theorem declareParams_eq (params : List Token) (S : Stack) :
    (∃ names, (declareParams params ([] :: S)).1 = names :: S ∧ HasParams params names) ∧
      (declareParams params ([] :: S)).2 = Tree.repeated params := by
  have hnone : HasParams [] [] := fun _ => rfl
  exact declareParams_after hnone

end Scope

namespace Tree

variable {ρ : Type} (t : Tree ρ)

/-- The open scopes are those around the position, and each has the names that it has there. -/
structure Sees (π : Position) (S : Stack) : Prop where
  length : S.length = (t.scopes π).length
  begun : ∀ k σ, (t.scopes π)[k]? = some σ → ∀ x, status x S k ≠ none ↔ t.Begun x π σ
  ready : ∀ k σ, (t.scopes π)[k]? = some σ → ∀ x, status x S k = some true ↔ t.Complete x π σ

structure SeesPast (π : Position) (S : Stack) : Prop where
  length : S.length = (t.scopes π).length
  begun : ∀ k σ, (t.scopes π)[k]? = some σ → ∀ x,
    status x S k ≠ none ↔ t.Begun x π σ ∨ t.Declares σ x π
  ready : ∀ k σ, (t.scopes π)[k]? = some σ → ∀ x,
    status x S k = some true ↔ t.Complete x π σ ∨ t.Declares σ x π

variable {t} {part : Tree ρ} {π σ : Position} {i k : Nat} {S : Stack} {x : String} {name : Token}

section Declaration

theorem not_declares (h : t.at? π = some part) (hnone : part.declared? = none) :
    ¬ t.Declares σ x π := by
  rintro ⟨hdeclared, -⟩
  simp [h, hnone] at hdeclared

theorem declares_iff (h : t.at? π = some part) (hname : part.declared? = some name)
    (hk : (t.scopes π)[k]? = some σ) : t.Declares σ x π ↔ k = 0 ∧ x = name.lexeme := by
  have hhead : (t.scopes π).head? = some σ ↔ k = 0 := by
    rw [List.head?_eq_getElem?]
    constructor
    · intro h0
      obtain ⟨hlt, -⟩ := List.getElem?_eq_some_iff.mp hk
      exact (List.getElem?_inj hlt scopes_nodup).mp (hk.trans h0.symm)
    · rintro rfl
      exact hk
  unfold Declares
  rw [h, Option.bind_some, hname, Option.map_some, Option.some.injEq, hhead, eq_comm, and_comm]

theorem Sees.past (hS : t.Sees π S) (h : t.at? π = some part) (hnone : part.declared? = none) :
    t.SeesPast π S := by
  refine ⟨hS.length, fun k σ hk x => ?_, fun k σ hk x => ?_⟩
  · rw [hS.begun k σ hk, or_iff_left (not_declares h hnone)]
  · rw [hS.ready k σ hk, or_iff_left (not_declares h hnone)]

theorem Sees.ne_nil (hS : t.Sees π S) (hk : (t.scopes π)[k]? = some σ) : S ≠ [] := by
  obtain ⟨hlt, -⟩ := List.getElem?_eq_some_iff.mp hk
  rw [← hS.length] at hlt
  exact List.ne_nil_of_length_pos (Nat.zero_lt_of_lt hlt)

theorem Sees.define_declare (hS : t.Sees π S) (h : t.at? π = some part)
    (hname : part.declared? = some name) : t.SeesPast π (define name (declare name S).1) := by
  have hne : (declare name S).1 ≠ [] ↔ S ≠ [] := by
    rw [← List.length_pos_iff, ← List.length_pos_iff, length_declare]
  refine ⟨?_, fun k σ hk x => ?_, fun k σ hk x => ?_⟩
  · rw [length_define, length_declare, hS.length]
  · have hS' := hS.ne_nil hk
    rw [status_define_ne_none, status_declare_ne_none, hS.begun k σ hk, hne,
      declares_iff h hname hk]
    tauto
  · have hS' := hS.ne_nil hk
    rw [status_define_ready, status_declare_ready, hS.ready k σ hk, hne, declares_iff h hname hk]
    tauto

end Declaration

section Steps

theorem holdsAt_eq {P : Tree ρ → Bool} (h : t.at? π = some part) : t.holdsAt P π = P part := by
  rw [holdsAt, h, Option.any_some]

theorem scopes_of_opens (h : t.at? π = some part) (hopens : part.opens = true) :
    t.scopes (π ++ [i]) = π :: t.scopes π := by
  rw [scopes_concat, holdsAt_eq h, if_pos hopens]

theorem scopes_of_not_opens (h : t.at? π = some part) (hopens : part.opens = false) :
    t.scopes (π ++ [i]) = t.scopes π := by
  rw [scopes_concat, holdsAt_eq h, hopens]
  rfl

theorem scopes_beside {j : Nat} : t.scopes (π ++ [j]) = t.scopes (π ++ [i]) := by
  rw [scopes_concat, scopes_concat]

/-- Into the first part of what opens no scope and declares nothing. -/
theorem Sees.first (hS : t.Sees π S) (h : t.at? π = some part) (hopens : part.opens = false)
    (hnone : part.declared? = none) : t.Sees (π ++ [0]) S := by
  have hscopes := scopes_of_not_opens (i := 0) h hopens
  refine ⟨hscopes ▸ hS.length, fun k σ hk x => ?_, fun k σ hk x => ?_⟩
  · rw [hS.begun k σ (hscopes ▸ hk), Begun, Begun, has_first]
    exact (or_iff_left fun hd => not_declares h hnone hd.1).symm
  · rw [hS.ready k σ (hscopes ▸ hk), Complete, Complete, has_first]
    exact (or_iff_left fun hd => not_declares h hnone hd.1).symm

theorem Sees.first_declare (hS : t.Sees π S) (h : t.at? π = some part)
    (hopens : part.opens = false) (hname : part.declared? = some name)
    (hfunction : part.isFunction = false) : t.Sees (π ++ [0]) (declare name S).1 := by
  have hscopes := scopes_of_not_opens (i := 0) h hopens
  refine ⟨?_, fun k σ hk x => ?_, fun k σ hk x => ?_⟩
  · rw [length_declare, hscopes, hS.length]
  · rw [hscopes] at hk
    have hne := hS.ne_nil hk
    rw [status_declare_ne_none, hS.begun k σ hk, Begun, Begun, has_first, declares_iff h hname hk]
    tauto
  · rw [hscopes] at hk
    rw [status_declare_ready, hS.ready k σ hk, Complete, Complete, has_first, holdsAt_eq h,
      hfunction]
    simp

theorem Sees.next (h : t.at? (π ++ [i]) = some part)
    (hS : t.Sees (π ++ [i] ++ [part.parts.length]) S) (hopens : part.opens = false)
    (hnone : part.declared? = none) : t.Sees (π ++ [i + 1]) S := by
  have hscopes : t.scopes (π ++ [i] ++ [part.parts.length]) = t.scopes (π ++ [i + 1]) := by
    rw [scopes_of_not_opens h hopens, scopes_beside]
  refine ⟨hscopes ▸ hS.length, fun k σ hk x => ?_, fun k σ hk x => ?_⟩
  · rw [hS.begun k σ (hscopes ▸ hk), Begun, Begun, has_next h,
      or_iff_left (not_declares h hnone)]
  · rw [hS.ready k σ (hscopes ▸ hk), Complete, Complete, has_next h,
      or_iff_left (not_declares h hnone)]

theorem Sees.next_define (h : t.at? (π ++ [i]) = some part)
    (hS : t.Sees (π ++ [i] ++ [part.parts.length]) S) (hopens : part.opens = false)
    (hname : part.declared? = some name) : t.Sees (π ++ [i + 1]) (define name S) := by
  have hscopes : t.scopes (π ++ [i] ++ [part.parts.length]) = t.scopes (π ++ [i + 1]) := by
    rw [scopes_of_not_opens h hopens, scopes_beside]
  refine ⟨?_, fun k σ hk x => ?_, fun k σ hk x => ?_⟩
  · rw [length_define, hS.length, hscopes]
  · have hne := hS.ne_nil (hscopes ▸ hk)
    rw [status_define_ne_none, hS.begun k σ (hscopes ▸ hk), Begun, Begun, has_next h,
      declares_iff h hname (scopes_beside (i := i) ▸ hk)]
    tauto
  · have hne := hS.ne_nil (hscopes ▸ hk)
    rw [status_define_ready, hS.ready k σ (hscopes ▸ hk), Complete, Complete, has_next h,
      declares_iff h hname (scopes_beside (i := i) ▸ hk)]
    tauto

theorem SeesPast.first {names : Names} (hS : t.SeesPast π S) (h : t.at? π = some part)
    (hopens : part.opens = true) (hfunction : part.declared? = none ∨ part.isFunction = true)
    (hnames : HasParams part.params names) : t.Sees (π ++ [0]) (names :: S) := by
  have hscopes := scopes_of_opens (i := 0) h hopens
  have hparam : ∀ x, t.HasParam π x ↔ x ∈ part.params.map Token.lexeme := by
    intro x
    rw [HasParam, h, Option.elim_some]
  have hcounts : ∀ σ x, t.Declares σ x π → t.holdsAt isFunction π = true := by
    intro σ x hd
    rw [holdsAt_eq h]
    exact hfunction.resolve_left fun hnone => not_declares h hnone hd
  refine ⟨by rw [hscopes, List.length_cons, List.length_cons, hS.length], ?_, ?_⟩
  · intro k σ hk x
    rw [hscopes] at hk
    cases k with
    | zero =>
      cases hk
      rw [status_zero, hnames x, Begun, has_own, hparam]
      simp
    | succ k =>
      rw [status_succ, hS.begun k σ hk, Begun, Begun, has_first]
      simp
  · intro k σ hk x
    rw [hscopes] at hk
    cases k with
    | zero =>
      cases hk
      rw [status_zero, hnames x, Complete, has_own, hparam]
      simp
    | succ k =>
      rw [status_succ, hS.ready k σ hk, Complete, Complete, has_first]
      have := hcounts σ x
      tauto

theorem SeesPast.next (hS : t.SeesPast (π ++ [i]) S) (h : t.at? (π ++ [i]) = some part)
    (hopens : part.opens = true) : t.Sees (π ++ [i + 1]) S := by
  have hopensAt : t.holdsAt opens (π ++ [i]) = true := (holdsAt_eq h).trans hopens
  have habove : ∀ {k σ}, (t.scopes (π ++ [i]))[k]? = some σ → Above σ (π ++ [i]) :=
    fun hk => above_of_mem_scopes (List.mem_of_getElem? hk)
  have hscopes : t.scopes (π ++ [i + 1]) = t.scopes (π ++ [i]) := scopes_beside
  refine ⟨hscopes ▸ hS.length, fun k σ hk x => ?_, fun k σ hk x => ?_⟩
  · rw [hscopes] at hk
    rw [hS.begun k σ hk, Begun, Begun, has_past hopensAt (habove hk)]
  · rw [hscopes] at hk
    rw [hS.ready k σ hk, Complete, Complete, has_past hopensAt (habove hk)]

end Steps

section Meaning

variable {d : Nat} (hS : t.Sees π S)

include hS

theorem Sees.status_eq_none (hk : (t.scopes π)[k]? = none) : status x S k = none := by
  have hge : S.length ≤ k := hS.length ▸ List.getElem?_eq_none_iff.mp hk
  simp [status, List.getElem?_eq_none hge]

/-- Of no scope `k` out the name is known, or of the one that is there. -/
theorem Sees.begun_iff :
    status x S k ≠ none ↔ ∃ σ, (t.scopes π)[k]? = some σ ∧ t.Begun x π σ := by
  cases hk : (t.scopes π)[k]? with
  | none => simp [hS.status_eq_none hk]
  | some σ => simp [hS.begun k σ hk x]

theorem Sees.ready_iff :
    status x S k = some true ↔ ∃ σ, (t.scopes π)[k]? = some σ ∧ t.Complete x π σ := by
  cases hk : (t.scopes π)[k]? with
  | none => simp [hS.status_eq_none hk]
  | some σ => simp [hS.ready k σ hk x]

theorem Sees.pending_iff : status x S 0 = some false ↔ t.Pending x π := by
  have hsplit : status x S 0 = some false ↔ status x S 0 ≠ none ∧ status x S 0 ≠ some true := by
    cases status x S 0 with
    | none => simp
    | some ready => cases ready <;> simp
  rw [hsplit, hS.begun_iff, ne_eq, hS.ready_iff, Pending, List.head?_eq_getElem?]
  cases (t.scopes π)[0]? <;> simp

theorem Sees.nearest_begun_iff :
    status x S d ≠ none ∧ (∀ k < d, status x S k = none) ↔
      Nearest (t.Begun x π) (t.scopes π) d := by
  have hbefore : ∀ k, status x S k = none ↔
      ∀ σ, (t.scopes π)[k]? = some σ → ¬ t.Begun x π σ := by
    intro k
    rw [← not_iff_not, ← ne_eq, hS.begun_iff]
    simp
  rw [hS.begun_iff, Nearest]
  simp only [hbefore]

theorem Sees.nearest_ready_iff {e : Nat} :
    (status x S (e + 1) = some true ∧ ∀ k, 0 < k → k < e + 1 → status x S k ≠ some true) ↔
      Nearest (t.Complete x π) (t.scopes π).tail e := by
  simp only [Nearest, List.getElem?_tail, hS.ready_iff, ne_eq]
  apply and_congr_right
  intro _
  constructor
  · intro h k hk σ hσ hc
    exact h (k + 1) k.succ_pos (Nat.succ_lt_succ hk) ⟨σ, hσ, hc⟩
  · rintro h k hpos hk ⟨σ, hσ, hc⟩
    obtain ⟨j, rfl⟩ := Nat.exists_eq_add_one_of_ne_zero (Nat.ne_of_gt hpos)
    exact h j (Nat.lt_of_succ_lt_succ hk) σ hσ hc

theorem Sees.means_iff (b : Binding) : bindingOf? x S = some b ↔ t.Means x π b := by
  cases b with
  | global =>
    have hnone : ∀ k, status x S k = none ↔
        ¬ ∃ σ, (t.scopes π)[k]? = some σ ∧ t.Begun x π σ := by
      intro k
      rw [← hS.begun_iff, ne_eq, not_not]
    rw [bindingOf?_eq_global, Means]
    simp only [hnone]
    constructor
    · intro h σ hσ hb
      obtain ⟨k, hk⟩ := List.mem_iff_getElem?.mp hσ
      exact h k ⟨σ, hk, hb⟩
    · rintro h k ⟨σ, hk, hb⟩
      exact h σ (List.mem_of_getElem? hk) hb
  | hops d =>
    rw [bindingOf?_eq_hops, hS.nearest_begun_iff, ne_eq, hS.pending_iff, Means]
    apply or_congr_right
    apply and_congr_right
    intro _
    constructor
    · rintro ⟨hpos, hfound⟩
      obtain ⟨e, rfl⟩ := Nat.exists_eq_add_one_of_ne_zero (Nat.ne_of_gt hpos)
      exact ⟨e, rfl, hS.nearest_ready_iff.mp hfound⟩
    · rintro ⟨e, rfl, hfound⟩
      exact ⟨e.succ_pos, hS.nearest_ready_iff.mpr hfound⟩

theorem Sees.unbound_iff : bindingOf? x S = none ↔ t.Unbound x π := by
  rw [bindingOf?_eq_none, hS.pending_iff, Unbound]
  apply and_congr_right
  intro _
  simp only [ne_eq, hS.ready_iff]
  constructor
  · intro h σ hσ hc
    obtain ⟨k, hk⟩ := List.mem_iff_getElem?.mp hσ
    rw [List.getElem?_tail] at hk
    exact h (k + 1) k.succ_pos ⟨σ, hk, hc⟩
  · rintro h k hpos ⟨σ, hk, hc⟩
    obtain ⟨j, rfl⟩ := Nat.exists_eq_add_one_of_ne_zero (Nat.ne_of_gt hpos)
    rw [← List.getElem?_tail] at hk
    exact h σ (List.mem_of_getElem? hk) hc

end Meaning

end Tree

end ScriptLang
