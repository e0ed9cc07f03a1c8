import ScriptLang.Proofs.Resolution.Status

namespace ScriptLang.Scope

def Settled (names : Names) : Prop :=
  ∀ x, isPending x names = false

def HeadSettled (S : Stack) : Prop :=
  ∀ names ∈ S.head?, Settled names

section Cons

variable {x y : String} {ready : Bool} {names : Names}

theorem lookup_names_cons :
    List.lookup x ((y, ready) :: names) = if x = y then some ready else List.lookup x names := by
  by_cases h : x = y
  · simp [h]
  · simp [List.lookup_cons, beq_eq_false_iff_ne.mpr h, h]

theorem hasName_cons : hasName x ((y, ready) :: names) ↔ x = y ∨ hasName x names := by
  unfold hasName
  rw [lookup_names_cons]
  by_cases h : x = y
  · simp [h]
  · simp [h]

theorem isReady_cons :
    isReady x ((y, ready) :: names) ↔ if x = y then ready = true else isReady x names := by
  unfold isReady
  rw [lookup_names_cons]
  by_cases h : x = y
  · simp [h]
  · simp [h]

theorem isPending_cons :
    isPending x ((y, ready) :: names) ↔ if x = y then ready = false else isPending x names := by
  unfold isPending
  rw [lookup_names_cons]
  by_cases h : x = y
  · simp [h]
  · simp [h]

theorem hasName_of_isReady (h : isReady x names) : hasName x names := by
  simp only [isReady, decide_eq_true_eq] at h
  simp [hasName, h]

theorem isReady_or_isPending (h : hasName x names) : isReady x names ∨ isPending x names := by
  unfold hasName at h
  unfold isReady isPending
  cases hl : names.lookup x with
  | none => simp [hl] at h
  | some ready => cases ready <;> simp

theorem Settled.isReady (hs : Settled names) (h : hasName x names) : isReady x names := by
  rcases isReady_or_isPending h with hr | hp
  · exact hr
  · simp [hs x] at hp

theorem settled_nil : Settled [] :=
  fun _ => rfl

end Cons

theorem bindUse_eq (fault : Fault) {name : Token} {S : Stack} {binding : Binding} :
    bindUse fault name S = (binding, []) ↔ bindingOf? name.lexeme S = some binding := by
  unfold bindUse
  cases h : bindingOf? name.lexeme S <;> simp

section Declaration

variable {name : Token} {names names' : Names} {S D : Stack}

theorem declare_cons_eq :
    declare name (names :: S) = (D, []) ↔
      names.lookup name.lexeme = none ∧ D = ((name.lexeme, false) :: names) :: S := by
  unfold declare
  cases h : names.lookup name.lexeme with
  | none => simp [h, eq_comm]
  | some ready => simp [h]

theorem declare_fresh (h : (declare name (names :: S)).2 = []) :
    hasName name.lexeme names = false ∧
      (declare name (names :: S)).1 = ((name.lexeme, false) :: names) :: S := by
  obtain ⟨hnone, hdeclare⟩ := declare_cons_eq.mp (Prod.ext rfl h)
  exact ⟨by simp [hasName, hnone], hdeclare⟩

theorem declareParams_cons_eq {p : Token} {ps : List Token} :
    declareParams (p :: ps) S = (D, []) ↔
      ∃ T, declare p S = (T, []) ∧ declareParams ps (define p T) = (D, []) := by
  simp only [declareParams, Prod.ext_iff, List.append_eq_nil_iff]
  constructor
  · rintro ⟨hD, hp, hps⟩
    exact ⟨_, ⟨rfl, hp⟩, hD, hps⟩
  · rintro ⟨T, ⟨rfl, hp⟩, hD, hps⟩
    exact ⟨hD, hp, hps⟩

/-- A declaration that begins adds at most its own name, which is then pending. -/
theorem declare_getElem? {d : Nat} (h : (declare name S).1[d]? = some names') :
    ∃ names, S[d]? = some names ∧ (∀ x, isReady x names' → isReady x names) ∧
      (∀ x, hasName x names' → hasName x names ∨ d = 0 ∧ x = name.lexeme) ∧
      ∀ x, isPending x names' → isPending x names ∨ d = 0 ∧ x = name.lexeme := by
  cases S with
  | nil => simp [declare] at h
  | cons names S =>
    unfold declare at h
    cases hl : names.lookup name.lexeme with
    | some ready =>
      simp only [hl] at h
      exact ⟨names', h, fun _ hx => hx, fun _ hx => .inl hx, fun _ hx => .inl hx⟩
    | none =>
      simp only [hl] at h
      cases d with
      | succ d => exact ⟨names', h, fun _ hx => hx, fun _ hx => .inl hx, fun _ hx => .inl hx⟩
      | zero =>
        simp only [List.getElem?_cons_zero, Option.some.injEq] at h
        subst h
        refine ⟨names, rfl, ?_, ?_, ?_⟩
        · intro x hx
          by_cases he : x = name.lexeme
          · simp [isReady_cons, he] at hx
          · simpa [isReady_cons, he] using hx
        · intro x hx
          rcases hasName_cons.mp hx with he | hn
          · exact .inr ⟨rfl, he⟩
          · exact .inl hn
        · intro x hx
          by_cases he : x = name.lexeme
          · exact .inr ⟨rfl, he⟩
          · exact .inl (by simpa [isPending_cons, he] using hx)

/-- A declaration without an error adds a new name, which is ready. -/
theorem define_declare (hs : Settled names) (h : (declare name (names :: S)).2 = []) :
    ∃ names', define name (declare name (names :: S)).1 = names' :: S ∧ Settled names' ∧
      (∀ x, hasName x names' ↔ hasName x names ∨ x = name.lexeme) ∧
      ¬ hasName name.lexeme names := by
  obtain ⟨hfresh, hdeclare⟩ := declare_fresh h
  rw [hdeclare]
  refine ⟨_, rfl, ?_, ?_, by simp [hfresh]⟩
  · intro x
    by_cases he : x = name.lexeme
    · simp [← Bool.not_eq_true, isPending_cons, he]
    · rw [← Bool.not_eq_true, isPending_cons, if_neg he, isPending_cons, if_neg he]
      simp [hs x]
  · intro x
    rw [hasName_cons, hasName_cons, ← or_assoc, or_self, or_comm]

/-- Parameters without an error are new names, all different and ready. -/
theorem declareParams_scope {params : List Token} (hs : Settled names)
    (h : (declareParams params (names :: S)).2 = []) :
    ∃ names', (declareParams params (names :: S)).1 = names' :: S ∧ Settled names' ∧
      (∀ x, hasName x names' ↔ hasName x names ∨ x ∈ params.map Token.lexeme) ∧
      (params.map Token.lexeme).Nodup ∧ ∀ x ∈ params.map Token.lexeme, ¬ hasName x names := by
  induction params generalizing names with
  | nil => exact ⟨names, rfl, hs, by simp, List.nodup_nil, by simp⟩
  | cons p ps ih =>
    obtain ⟨hp, hps⟩ := List.append_eq_nil_iff.mp h
    obtain ⟨first, hfirst, hsettled, hnames, hnew⟩ := define_declare hs hp
    rw [hfirst] at hps
    obtain ⟨others, hothers, hsettled', hnames', hnodup, hnew'⟩ := ih hsettled hps
    refine ⟨others, ?_, hsettled', ?_, ?_, ?_⟩
    · simp only [declareParams, hfirst, hothers]
    · intro x
      rw [hnames', hnames]
      simp [or_assoc]
    · rw [List.map_cons, List.nodup_cons]
      refine ⟨?_, hnodup⟩
      intro hmem
      exact hnew' _ hmem ((hnames _).mpr (.inr rfl))
    · intro x hx
      rw [List.map_cons, List.mem_cons] at hx
      rcases hx with rfl | hx
      · exact hnew
      · intro hn
        exact hnew' x hx ((hnames x).mpr (.inl hn))

end Declaration

/-- A distance leads to a scope that has the name, and in the innermost scope the name is ready. -/
theorem bindingOf?_hops {x : String} {S : Stack} {d : Nat}
    (h : bindingOf? x S = some (.hops d)) :
    ∃ names, S[d]? = some names ∧ hasName x names ∧ (d = 0 → isReady x names) := by
  have hstatus : status x S d ≠ none ∧ (d = 0 → status x S d ≠ some false) := by
    rcases bindingOf?_eq_hops.mp h with ⟨hfirst, hfound, -⟩ | ⟨-, hpos, hfound, -⟩
    · exact ⟨hfound, fun hd => hd ▸ hfirst⟩
    · exact ⟨by simp [hfound], fun hd => absurd hd (Nat.ne_of_gt hpos)⟩
  unfold status at hstatus
  cases hS : S[d]? with
  | none => simp [hS] at hstatus
  | some names =>
    simp only [hS, Option.bind_some] at hstatus
    have hname : hasName x names := Option.isSome_iff_ne_none.mpr hstatus.1
    refine ⟨names, rfl, hname, fun hd => (isReady_or_isPending hname).resolve_right ?_⟩
    simpa [isPending] using hstatus.2 hd

end ScriptLang.Scope
