import ScriptLang.Proofs.Chronicle.Names
import ScriptLang.Proofs.Renaming.Occurrence
import ScriptLang.Proofs.Resolution.Status

namespace ScriptLang

namespace Renaming

open Scope

def Change.names (c : Change) (names : Names) : Names :=
  names.map fun entry => (if entry.1 = c.old then c.new else entry.1, entry.2)

def Change.stack (c : Change) (scopes : List OpenScope) (S : Stack) : Stack :=
  List.zipWith (fun scope names => if scope.node = c.scope then c.names names else names) scopes S

section Lookup

variable {c : Change} {x : String} {names : Names}

theorem lookup_names (hx : x ≠ c.new) (ho : x ≠ c.old) :
    (c.names names).lookup x = names.lookup x := by
  induction names with
  | nil => rfl
  | cons entry names ih =>
    obtain ⟨y, ready⟩ := entry
    rw [Change.names, List.map_cons, ← Change.names, lookup_names_cons, lookup_names_cons, ih]
    by_cases hy : y = c.old
    · simp [hy, hx, ho]
    · simp [hy]

theorem lookup_names_old (h : c.old ≠ c.new) : (c.names names).lookup c.old = none := by
  induction names with
  | nil => rfl
  | cons entry names ih =>
    obtain ⟨y, ready⟩ := entry
    rw [Change.names, List.map_cons, ← Change.names, lookup_names_cons, ih]
    by_cases hy : y = c.old
    · simp [hy, h]
    · simp [hy, Ne.symm hy]

theorem lookup_names_new (h : names.lookup c.new = none) :
    (c.names names).lookup c.new = names.lookup c.old := by
  induction names with
  | nil => rfl
  | cons entry names ih =>
    obtain ⟨y, ready⟩ := entry
    rw [lookup_names_cons] at h
    have hne : c.new ≠ y := by
      rintro rfl
      simp at h
    rw [if_neg hne] at h
    rw [Change.names, List.map_cons, ← Change.names, lookup_names_cons, lookup_names_cons, ih h]
    by_cases hy : y = c.old
    · simp [hy]
    · simp [hy, hne, Ne.symm hy]

end Lookup

/-- The scopes of a resolver that stands inside these open scopes, before a change of name: the new
name is in none of them, and the old one is pending where the place is in its first value. -/
structure Tracks (c : Change) (scopes : List OpenScope) (S : Stack) : Prop where
  length : S.length = scopes.length
  unused : ∀ names ∈ S, names.lookup c.new = none
  pending : ∀ k, status c.old S k = some false ↔ c.Pends scopes k
  apart : (scopes.map OpenScope.node).Nodup

section Status

variable {c : Change} {scopes : List OpenScope} {S : Stack} {x : String} {j k : Nat}

theorem Tracks.opens_unique (h : Tracks c scopes S) (hj : c.Opens scopes j)
    (hk : c.Opens scopes k) : j = k := by
  unfold Change.Opens at hj hk
  rw [← List.getElem?_map] at hj hk
  obtain ⟨hlt, -⟩ := List.getElem?_eq_some_iff.mp hj
  exact (List.getElem?_inj hlt h.apart).mp (hj.trans hk.symm)

theorem status_stack (h : Tracks c scopes S) :
    status x (c.stack scopes S) k =
      if c.Opens scopes k then S[k]?.bind fun names => (c.names names).lookup x
      else status x S k := by
  have hlt : k < S.length ↔ k < scopes.length := by rw [h.length]
  unfold status Change.stack Change.Opens
  rw [List.getElem?_zipWith]
  by_cases hk : k < S.length
  · simp only [List.getElem?_eq_getElem hk, List.getElem?_eq_getElem (hlt.mp hk), Option.map_some,
      Option.some.injEq, Option.bind_some]
    by_cases hnode : scopes[k].node = c.scope
    · simp [hnode]
    · simp [hnode]
  · simp [List.getElem?_eq_none (Nat.le_of_not_lt hk),
      List.getElem?_eq_none (Nat.le_of_not_lt (mt hlt.mpr hk))]

theorem Tracks.status_other (h : Tracks c scopes S) (hx : x ≠ c.new) (ho : x ≠ c.old) :
    status x (c.stack scopes S) k = status x S k := by
  simp only [status_stack h, lookup_names hx ho]
  exact ite_self _

theorem Tracks.status_old (h : Tracks c scopes S) (hne : c.old ≠ c.new) :
    status c.old (c.stack scopes S) k = if c.Opens scopes k then none else status c.old S k := by
  simp [status_stack h, lookup_names_old hne]

theorem Tracks.status_new (h : Tracks c scopes S) :
    status c.new (c.stack scopes S) k = if c.Opens scopes k then status c.old S k else none := by
  rw [status_stack h]
  unfold status
  cases hk : S[k]? with
  | none => simp
  | some names =>
    have hunused := h.unused names (List.mem_of_getElem? hk)
    simp [hunused, lookup_names_new hunused]

end Status

section Use

variable {c : Change} {o : Occurrence} {S : Stack}

theorem Tracks.use_concerned (h : Tracks c o.scopes S) (hb : bindingOf? c.old S = some o.binding)
    (hc : c.Concerns o) :
    bindingOf? c.new (c.stack o.scopes S) = some o.binding ∧ ¬ o.PassesOver c := by
  obtain ⟨-, d, hd, hopens⟩ := hc
  rw [hd] at hb ⊢
  have hfound : status c.old S d ≠ none ∧ (d = 0 → status c.old S 0 ≠ some false) := by
    rcases bindingOf?_eq_hops.mp hb with ⟨hready, hfound, -⟩ | ⟨-, hpos, hfound, -⟩
    · exact ⟨hfound, fun _ => hready⟩
    · exact ⟨by simp [hfound], fun hzero => absurd hzero (Nat.ne_of_gt hpos)⟩
  constructor
  · refine bindingOf?_eq_hops.mpr (.inl ⟨?_, ?_, ?_⟩)
    · rw [h.status_new]
      by_cases hzero : c.Opens o.scopes 0
      · rw [if_pos hzero]
        exact hfound.2 (h.opens_unique hopens hzero)
      · simp [hzero]
    · rw [h.status_new, if_pos hopens]
      exact hfound.1
    · intro k hk
      rw [h.status_new, if_neg]
      exact fun hk' => Nat.ne_of_lt hk (h.opens_unique hk' hopens)
  · rintro ⟨-, hzero, -, d', hd', k, hk, hpos, -⟩
    cases hd.symm.trans hd'
    exact absurd (h.opens_unique hopens hzero) (by omega)

/-- In the first value of the renamed variable the old name becomes an ordinary one, and then means
the nearest scope that has it. -/
theorem Tracks.use_initial {d : Nat} (h : Tracks c o.scopes S) (hne : c.old ≠ c.new)
    (hown : c.Opens o.scopes 0) (hfound : status c.old S d = some true) (hpos : 0 < d)
    (hbefore : ∀ k, 0 < k → k < d → status c.old S k ≠ some true) :
    bindingOf? c.old (c.stack o.scopes S) = some (.hops d) ↔
      ∀ k, 0 < k → k < d → ¬ c.Pends o.scopes k := by
  have hzero : status c.old (c.stack o.scopes S) 0 = none := by
    rw [h.status_old hne, if_pos hown]
  have hskip : ∀ k, 0 < k → status c.old (c.stack o.scopes S) k = status c.old S k := by
    intro k hk
    rw [h.status_old hne, if_neg]
    exact fun hk' => Nat.ne_of_gt hk (h.opens_unique hk' hown)
  simp only [bindingOf?_eq_hops, hzero, hskip d hpos, hfound, reduceCtorEq, false_and, or_false,
    ne_eq, not_false_eq_true, true_and]
  constructor
  · intro hnone k hk hlt hpends
    have hk' := (h.pending k).mpr hpends
    rw [← hskip k hk, hnone k hlt] at hk'
    cases hk'
  · intro hpends k hlt
    by_cases hk0 : k = 0
    · rw [hk0, hzero]
    · have hk := Nat.pos_of_ne_zero hk0
      rw [hskip k hk]
      cases hs : status c.old S k with
      | none => rfl
      | some ready =>
        cases ready with
        | true => exact absurd hs (hbefore k hk hlt)
        | false => exact absurd ((h.pending k).mp hs) (hpends k hk hlt)

/-- A use of the old name that means another variable still means it, unless it passes over. -/
theorem Tracks.use_unconcerned (h : Tracks c o.scopes S) (ho : o.name.lexeme = c.old)
    (hne : c.old ≠ c.new) (hb : bindingOf? c.old S = some o.binding) (hc : ¬ c.Concerns o) :
    bindingOf? c.old (c.stack o.scopes S) = some o.binding ↔ ¬ o.PassesOver c := by
  -- a global use stays global, since renaming only takes the old name out of a scope
  cases hd : o.binding with
  | global =>
    rw [hd, bindingOf?_eq_global] at hb
    have hpasses : ¬ o.PassesOver c := by
      rintro ⟨-, -, -, d, hd', -⟩
      cases hd.symm.trans hd'
    simp [bindingOf?_eq_global, h.status_old hne, hb, hpasses]
  | hops d =>
    have hopens : ¬ c.Opens o.scopes d := fun hopens => hc ⟨ho, d, hd, hopens⟩
    rw [hd, bindingOf?_eq_hops] at hb
    rcases hb with ⟨hzero, hfound, hbefore⟩ | ⟨hzero, hpos, hfound, hbefore⟩
    · -- an ordinary use: no nearer scope has the name, before or after
      have hpasses : ¬ o.PassesOver c := by
        rintro ⟨-, -, hpends, -⟩
        exact hzero ((h.pending 0).mpr hpends)
      refine iff_of_true (bindingOf?_eq_hops.mpr (.inl ⟨?_, ?_, ?_⟩)) hpasses
      · rw [h.status_old hne]
        split
        · simp
        · exact hzero
      · rw [h.status_old hne, if_neg hopens]
        exact hfound
      · intro k hk
        rw [h.status_old hne, hbefore k hk, ite_self]
    · -- a use in a first value: the scope it is skipped for is the renamed one or not
      by_cases hown : c.Opens o.scopes 0
      · rw [h.use_initial hne hown hfound hpos hbefore]
        constructor
        · rintro hpends ⟨-, -, -, d', hd', k, hlt, hk, hk'⟩
          cases hd.symm.trans hd'
          exact hpends k hk hlt hk'
        · intro hpasses k hk hlt hk'
          exact hpasses ⟨ho, hown, (h.pending 0).mp hzero, d, hd, k, hlt, hk, hk'⟩
      · have hpasses : ¬ o.PassesOver c := fun hp => hown hp.2.1
        refine iff_of_true (bindingOf?_eq_hops.mpr (.inr ⟨?_, hpos, ?_, ?_⟩)) hpasses
        · rw [h.status_old hne, if_neg hown, hzero]
        · rw [h.status_old hne, if_neg hopens, hfound]
        · intro k hk hlt
          rw [h.status_old hne]
          split
          · simp
          · exact hbefore k hk hlt

theorem Tracks.use (h : Tracks c o.scopes S) (hn : o.name.lexeme ≠ c.new)
    (hb : bindingOf? o.name.lexeme S = some o.binding) :
    bindingOf? (c.apply o).lexeme (c.stack o.scopes S) = some o.binding ↔ ¬ o.PassesOver c := by
  by_cases ho : o.name.lexeme = c.old
  · by_cases hc : c.Concerns o
    · obtain ⟨hnew, hpasses⟩ := h.use_concerned (ho ▸ hb) hc
      simp only [Change.apply, if_pos hc]
      exact iff_of_true hnew hpasses
    · simp only [Change.apply, if_neg hc, ho]
      exact h.use_unconcerned ho (ho ▸ hn) (ho ▸ hb) hc
  · have hc : ¬ c.Concerns o := fun hc => ho hc.1
    have hpasses : ¬ o.PassesOver c := fun hp => ho hp.1
    simp only [Change.apply, if_neg hc]
    refine iff_of_true ?_ hpasses
    exact (bindingOf?_congr (fun k => h.status_other hn ho) _).mpr hb

end Use

end Renaming

end ScriptLang
