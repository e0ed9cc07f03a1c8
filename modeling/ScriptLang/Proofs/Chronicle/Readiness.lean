import ScriptLang.Proofs.Chronicle.Primitives

namespace ScriptLang.Chronicle

open Scope

variable {P : List (Stmt Binding) → Prop} {D : Nat → String → Prop}

def Exact (m : Memory) (frames : List Nat) (S : Stack) : Prop :=
  ∀ f ∈ frames.head?, ∀ names ∈ S.head?, ∀ x, m.store.Binds f x → hasName x names

structure Inside (P : List (Stmt Binding) → Prop) (r : Record) (place : Place) (S : Stack) :
    Prop where
  here : At P r place S
  settled : HeadSettled S
  exactly : Exact r.memory place.frames S

structure Fits (place : Place) (S : Stack) (s : Stmt Binding) : Prop where
  nested : Nested place.program place.around (.stmt s)
  placed : ∀ t, s.declared? = some t → Placed place.around t.lexeme
  resolved : s.Scoped S

structure FitsAll (place : Place) (S : Stack) (ss : List (Stmt Binding)) : Prop where
  nested : ∀ s ∈ ss, Nested place.program place.around (.stmt s)
  placed : ∀ s ∈ ss, ∀ t, s.declared? = some t → Placed place.around t.lexeme
  resolved : Stmt.AllScoped S ss

theorem FitsAll.head {place : Place} {S : Stack} {s : Stmt Binding} {ss : List (Stmt Binding)}
    (h : FitsAll place S (s :: ss)) : Fits place S s :=
  ⟨h.nested s List.mem_cons_self, h.placed s List.mem_cons_self, h.resolved.1⟩

theorem FitsAll.tail {place : Place} {S : Stack} {s : Stmt Binding} {ss : List (Stmt Binding)}
    (h : FitsAll place S (s :: ss)) : FitsAll place (s.after S) ss :=
  ⟨fun s' hs' => h.nested s' (List.mem_cons_of_mem _ hs'),
    fun s' hs' => h.placed s' (List.mem_cons_of_mem _ hs'), h.resolved.2⟩

def DeclaredBy (s : Stmt Binding) (f : Nat) : Nat → String → Prop :=
  fun g x => g = f ∧ ∃ t, s.declared? = some t ∧ t.lexeme = x

theorem fresh_of_scoped {S : Stack} {s : Stmt Binding} {t : Token} (h : s.Scoped S)
    (ht : s.declared? = some t) : (declare t S).2 = [] := by
  cases s with
  | varDecl name initial =>
    cases ht
    cases initial with
    | none => exact h
    | some initial => exact h.1
  | funDecl name params body =>
    cases ht
    exact h.1
  | _ => cases ht

section Frame

variable {m : Memory} {program : List (Stmt Binding)} {around : List Node} {frames : List Nat}
  {S : Stack}

theorem Stands.frames_local (hm : Consistent P m) (h : Stands m program around frames S) :
    ∀ f ∈ frames, f < m.store.size ∧ f ≠ m.globals := by
  induction h with
  | top => simp
  | plain _ _ ih => exact ih
  | initializer _ _ ih => exact ih
  | scope _ _ hi _ ih =>
    intro f hf
    rcases List.mem_cons.mp hf with rfl | hf
    · obtain ⟨hlt, hne, -⟩ := hm.opened f _ _ hi.opened
      exact ⟨hlt, hne⟩
    · exact ih f hf

theorem Stands.scope_inv {n : Node} (hn : n.opensScope)
    (h : Stands m program (n :: around) frames S) :
    ∃ f outer names T, frames = f :: outer ∧ S = names :: T ∧ (HeadSettled T ∨ n.isLambda) ∧
      Instance m program n around f outer names ∧ Stands m program around outer T := by
  cases h with
  | plain hp _ => simp [hn] at hp
  | initializer _ _ => cases hn
  | scope _ ho hi h => exact ⟨_, _, _, _, rfl, rfl, ho, hi, h⟩

theorem Stands.top_inv (h : Stands m program [] frames S) : frames = [] ∧ S = [] := by
  cases h
  exact ⟨rfl, rfl⟩

end Frame

section Step

variable {r n : Record} {place : Place} {S : Stack} {s : Stmt Binding}

theorem Inside.follows (h : Inside P r place S) (hr : Valid P r) (hf : Follows Nothing r n) :
    Inside P n place S where
  here := h.here.follows hf
  settled := h.settled
  exactly := by
    intro f hhead names hnames x hb
    obtain ⟨hlt, hne⟩ :=
      h.here.stands.frames_local hr.consistent f (List.mem_of_mem_head? hhead)
    rcases hf.later.kept f x hlt hne hb with hb | hnothing
    · exact h.exactly f hhead names hnames x hb
    · exact hnothing.elim

theorem Inside.declarable (h : Inside P r place S) (hr : Valid P r) (hs : Fits place S s)
    {t : Token} (ht : s.declared? = some t) : Declarable r.memory r.machine.current t.lexeme := by
  have hplaced := hs.placed t ht
  have hfresh := fresh_of_scoped hs.resolved ht
  have hstands := h.here.stands
  have hexact := h.exactly
  rw [h.here.current]
  cases haround : place.around with
  | nil =>
    rw [haround] at hstands
    obtain ⟨hframes, -⟩ := hstands.top_inv
    rw [hframes]
    refine ⟨hr.consistent.globals, fun hne => absurd rfl hne, ?_⟩
    intro n' place' he
    exact absurd rfl (hr.consistent.opened _ n' place' he).2.1
  | cons outer around =>
    obtain ⟨hopens, hmem⟩ := hplaced outer (by rw [haround]; rfl)
    rw [haround] at hstands
    obtain ⟨f, frames, names, T, hframes, hS, -, hi, -⟩ := hstands.scope_inv hopens
    rw [hframes, hS] at hexact
    rw [hS] at hfresh
    rw [hframes]
    refine ⟨(hr.consistent.opened f _ _ hi.opened).1, ?_, ?_⟩
    · intro _ hb
      have hname := hexact f rfl names rfl _ hb
      simp [(declare_fresh hfresh).1] at hname
    · intro n' place' he
      rw [(opened_unique hr.consistent.once he hi.opened).1]
      exact hmem

theorem Inside.next (h : Inside P r place S) (hr : Valid P r) (hs : Fits place S s)
    (hf : Follows (DeclaredBy s r.machine.current) r n)
    (hb : ∀ t, s.declared? = some t → n.machine.store.Binds r.machine.current t.lexeme) :
    Inside P n place (s.after S) := by
  -- only a declaration changes what the scope has, and it has bound its name by now
  cases ht : s.declared? with
  | none =>
    have hnothing : Follows Nothing r n := by
      apply hf.weaken
      rintro f x - - ⟨-, t, ht', -⟩
      cases ht.symm.trans ht'
    have hsame := h.follows hr hnothing
    simpa [Stmt.after, ht] using hsame
  | some t =>
    have hplaced := hs.placed t ht
    have hfresh := fresh_of_scoped hs.resolved ht
    have hbound := hb t ht
    have hstands := h.here.stands.later hf.later
    have hexact := h.exactly
    have hsettled := h.settled
    have hat := h.here.follows hf
    have hafter : s.after S = define t (declare t S).1 := by simp [Stmt.after, ht]
    rw [hafter]
    cases haround : place.around with
    | nil =>
      rw [haround] at hstands
      obtain ⟨-, rfl⟩ := hstands.top_inv
      refine ⟨hat, hsettled, ?_⟩
      intro f _ names hnames
      cases hnames
    | cons outer around =>
      obtain ⟨hopens, hmem⟩ := hplaced outer (by rw [haround]; rfl)
      rw [haround] at hstands
      obtain ⟨f, frames, names, T, hframes, rfl, ho, hi, hT⟩ := hstands.scope_inv hopens
      obtain ⟨names', hdefine, hsettled', hnames, -⟩ := define_declare (hsettled names rfl) hfresh
      have hcurrent : r.machine.current = f := by rw [h.here.current, hframes]; rfl
      rw [hcurrent] at hbound
      rw [hdefine]
      have hi' : Instance n.memory place.program outer around f frames names' := by
        refine ⟨hi.opened, hi.parent, ?_, ?_, hsettled'⟩
        · intro x hx
          rcases (hnames x).mp (hasName_of_isReady hx) with hx | rfl
          · exact hi.ready x ((hsettled names rfl).isReady hx)
          · exact hbound
        · intro x hx
          rcases (hnames x).mp hx with hx | rfl
          · exact hi.declared x hx
          · exact hmem
      refine ⟨⟨hat.program, hat.current, ?_⟩, ?_, ?_⟩
      · rw [haround, hframes]
        exact .scope hopens ho hi' hT
      · intro names'' h''
        cases h''
        exact hsettled'
      · intro g hg names'' h'' x hx
        cases h''
        rw [hframes] at hg hexact
        cases hg
        have hlocal := h.here.stands.frames_local hr.consistent f (by rw [hframes]; simp)
        rcases hf.later.kept f x hlocal.1 hlocal.2 hx with hx | ⟨-, t', ht', rfl⟩
        · exact (hnames x).mpr (.inl (hexact f rfl names rfl x hx))
        · cases ht.symm.trans ht'
          exact (hnames _).mpr (.inr rfl)

end Step

end ScriptLang.Chronicle
