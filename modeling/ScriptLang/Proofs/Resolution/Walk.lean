import ScriptLang.Proofs.Resolution.Resolved
import ScriptLang.Proofs.Resolution.Sight
import Mathlib.Data.List.Forall2

namespace ScriptLang

open Position Scope

namespace Tree

variable {t part : Tree Unit} {π : Position} {i : Nat} {S : Stack}

def Resolves (t : Tree Unit) (π : Position) (r : Reference Binding) : Prop :=
  (t.at? π).bind used? = some (r.name, r.assigned) ∧
    (t.faultsAt π = [] → ∀ b, t.Means r.name.lexeme π b ↔ b = r.binding)

structure Follows (t : Tree Unit) (sites : List Position) (errors : List Scope.Error)
    (references : List (Reference Binding)) : Prop where
  errors : errors = sites.flatMap t.faultsAt
  uses : List.Forall₂ t.Resolves (sites.filter t.isUse) references

section Follows

variable {sites sites' : List Position} {errors errors' : List Scope.Error}
  {references references' : List (Reference Binding)}

theorem Follows.nil : t.Follows [] [] [] :=
  ⟨rfl, .nil⟩

theorem Follows.append (h : t.Follows sites errors references)
    (h' : t.Follows sites' errors' references') :
    t.Follows (sites ++ sites') (errors ++ errors') (references ++ references') := by
  refine ⟨by rw [h.errors, h'.errors, List.flatMap_append], ?_⟩
  rw [List.filter_append]
  exact List.rel_append h.uses h'.uses

theorem Follows.site (h : t.at? π = some part) (hused : part.used? = none)
    (hfaults : t.faultsAt π = errors) (h' : t.Follows sites errors' references) :
    t.Follows (π :: sites) (errors ++ errors') references := by
  have huse : t.isUse π = false := by simp [isUse, h, hused]
  refine ⟨by rw [List.flatMap_cons, hfaults, h'.errors], ?_⟩
  rw [List.filter_cons_of_neg (by simp [huse])]
  exact h'.uses

theorem Follows.use {name : Token} {assigned : Bool} {fault : Fault} (hS : t.Sees π S)
    (h : t.at? π = some part) (hused : part.used? = some (name, assigned))
    (hfaults : t.faultsAt π = t.unbound fault π name) :
    t.Follows [π] (bindUse fault name S).2 [⟨name, assigned, (bindUse fault name S).1⟩] := by
  have huse : t.isUse π = true := by simp [isUse, h, hused]
  have hat : (t.at? π).bind used? = some (name, assigned) := by rw [h, Option.bind_some, hused]
  have hunbound := hS.unbound_iff (x := name.lexeme)
  unfold Tree.unbound at hfaults
  cases hb : bindingOf? name.lexeme S with
  | none =>
    rw [if_pos (hunbound.mp hb)] at hfaults
    refine ⟨by simp [bindUse, hb, hfaults], ?_⟩
    simp only [huse, List.filter_cons_of_pos, List.filter_nil]
    refine .cons ⟨hat, ?_⟩ .nil
    rw [hfaults]
    intro hnil
    cases hnil
  | some b =>
    have hbound : ¬ t.Unbound name.lexeme π := by
      rw [← hunbound, hb]
      simp
    rw [if_neg hbound] at hfaults
    refine ⟨by simp [bindUse, hb, hfaults], ?_⟩
    simp only [huse, List.filter_cons_of_pos, List.filter_nil]
    refine .cons ⟨hat, fun _ b' => ?_⟩ .nil
    rw [← hS.means_iff, hb, Option.some.injEq, eq_comm]
    simp [bindUse, hb]

end Follows

theorem redeclared_eq (hS : t.Sees π S) (name : Token) :
    t.redeclared π name = (declare name S).2 := by
  have hbegun : status name.lexeme S 0 ≠ none ↔
      ∃ σ ∈ (t.scopes π)[0]?, t.Begun name.lexeme π σ := hS.begun_iff
  rw [redeclared, declare_eq, List.head?_eq_getElem?]
  by_cases h : status name.lexeme S 0 ≠ none
  · rw [if_pos h, if_pos (hbegun.mp h)]
  · rw [if_neg h, if_neg fun hb => h (hbegun.mpr hb)]

theorem inFunction_of_not (h : t.at? π = some part) (hfunction : part.isFunction = false) :
    t.inFunction (π ++ [i]) = t.inFunction π := by
  rw [inFunction_concat, holdsAt_eq h, hfunction, Bool.or_false]

theorem inFunction_of_function (h : t.at? π = some part) (hfunction : part.isFunction = true) :
    t.inFunction (π ++ [i]) = true := by
  rw [inFunction_concat, holdsAt_eq h, hfunction, Bool.or_true]

theorem at?_body {body : List (Stmt Unit)} (h : t.at? π = some part)
    (hparts : part.parts = body.map .statement) (j : Nat) (s : Stmt Unit)
    (hj : body[j]? = some s) : t.at? (π ++ [0 + j]) = some (.statement s) := by
  rw [at?_concat h, hparts, Nat.zero_add, List.getElem?_map, hj, Option.map_some]

end Tree

open ScriptLang.Tree

variable {t : Tree Unit}

mutual

theorem Expr.follows (e : Expr Unit) {π : Position} {i : Nat} {S : Stack}
    (h : t.at? (π ++ [i]) = some (.expression e)) (hS : t.Sees (π ++ [i]) S) :
    t.Follows (e.sites (π ++ [i])) (e.resolve S).2 (e.resolve S).1.references ∧
      t.Sees (π ++ [i + 1]) S := by
  cases e with
  | literal value => exact ⟨.nil, .next h (hS.first h rfl rfl) rfl rfl⟩
  | group inner =>
    obtain ⟨hi, hS⟩ := inner.follows (at?_concat h) (hS.first h rfl rfl)
    exact ⟨hi, .next h hS rfl rfl⟩
  | unary operator right =>
    obtain ⟨hr, hS⟩ := right.follows (at?_concat h) (hS.first h rfl rfl)
    exact ⟨hr, .next h hS rfl rfl⟩
  | binary left operator right =>
    obtain ⟨hl, hS⟩ := left.follows (at?_concat h) (hS.first h rfl rfl)
    obtain ⟨hr, hS⟩ := right.follows (at?_concat h) hS
    exact ⟨hl.append hr, .next h hS rfl rfl⟩
  | logical left operator right =>
    obtain ⟨hl, hS⟩ := left.follows (at?_concat h) (hS.first h rfl rfl)
    obtain ⟨hr, hS⟩ := right.follows (at?_concat h) hS
    exact ⟨hl.append hr, .next h hS rfl rfl⟩
  | ident u name =>
    have hfaults : t.faultsAt (π ++ [i]) = t.unbound .readInInitializer (π ++ [i]) name := by
      rw [faultsAt, h]
    exact ⟨.use hS h rfl hfaults, .next h (hS.first h rfl rfl) rfl rfl⟩
  | assign u name value =>
    have hfaults : t.faultsAt (π ++ [i]) = t.unbound .assignedInInitializer (π ++ [i]) name := by
      rw [faultsAt, h]
    obtain ⟨hv, hS'⟩ := value.follows (at?_concat h) (hS.first h rfl rfl)
    exact ⟨hv.append (.use hS h rfl hfaults), .next h hS' rfl rfl⟩
  | call callee paren arguments =>
    obtain ⟨hc, hS⟩ := callee.follows (at?_concat h) (hS.first h rfl rfl)
    have harguments : ∀ j a, arguments[j]? = some a →
        t.at? (π ++ [i] ++ [1 + j]) = some (.expression a) := by
      intro j a hj
      rw [at?_concat h, Nat.add_comm]
      simp [Tree.parts, Expr.parts, hj]
    have hlength : (Tree.expression (.call callee paren arguments)).parts.length =
        1 + arguments.length := by
      simp [Tree.parts, Expr.parts, Nat.add_comm]
    obtain ⟨ha, hS⟩ := Expr.allFollows arguments harguments hS
    exact ⟨hc.append ha, .next h (hlength ▸ hS) rfl rfl⟩
  | lambda params body =>
    have hfaults : t.faultsAt (π ++ [i]) = repeated params := by rw [faultsAt, h]
    have hpast := hS.past h rfl
    obtain ⟨⟨names, hdeclared, hnames⟩, herrors⟩ := declareParams_eq params S
    have hin : t.Sees (π ++ [i] ++ [0]) (declareParams params ([] :: S)).1 :=
      hdeclared ▸ hpast.first h rfl (.inl rfl) hnames
    obtain ⟨hb, -⟩ := Stmt.allFollows body true (at?_body h rfl) hin
      (inFunction_of_function h rfl)
    exact ⟨.site h rfl (hfaults.trans herrors.symm) hb, hpast.next h rfl⟩

theorem Expr.allFollows (es : List (Expr Unit)) {π : Position} {k : Nat} {S : Stack}
    (h : ∀ j e, es[j]? = some e → t.at? (π ++ [k + j]) = some (.expression e))
    (hS : t.Sees (π ++ [k]) S) :
    t.Follows (Expr.allSites es π k) (Expr.resolveAll S es).2
        (Expr.allReferences (Expr.resolveAll S es).1) ∧
      t.Sees (π ++ [k + es.length]) S := by
  cases es with
  | nil => exact ⟨.nil, hS⟩
  | cons e es =>
    obtain ⟨he, hS⟩ := e.follows (h 0 e rfl) hS
    have hrest : ∀ j e, es[j]? = some e → t.at? (π ++ [k + 1 + j]) = some (.expression e) := by
      intro j e hj
      rw [Nat.add_right_comm, Nat.add_assoc]
      exact h (j + 1) e hj
    obtain ⟨hes, hS⟩ := Expr.allFollows es hrest hS
    rw [Nat.add_right_comm, Nat.add_assoc] at hS
    exact ⟨he.append hes, hS⟩

theorem Stmt.follows (s : Stmt Unit) (f : Bool) {π : Position} {i : Nat} {S : Stack}
    (h : t.at? (π ++ [i]) = some (.statement s)) (hS : t.Sees (π ++ [i]) S)
    (hf : t.inFunction (π ++ [i]) = f) :
    t.Follows (s.sites (π ++ [i])) (s.resolve f S).2.2 (s.resolve f S).1.references ∧
      t.Sees (π ++ [i + 1]) (s.resolve f S).2.1 := by
  cases s with
  | exprStmt e =>
    obtain ⟨he, hS⟩ := e.follows (at?_concat h) (hS.first h rfl rfl)
    exact ⟨he, .next h hS rfl rfl⟩
  | printStmt e =>
    obtain ⟨he, hS⟩ := e.follows (at?_concat h) (hS.first h rfl rfl)
    exact ⟨he, .next h hS rfl rfl⟩
  | varDecl name initial =>
    have hfaults : t.faultsAt (π ++ [i]) = (declare name S).2 := by
      rw [faultsAt, h]
      exact redeclared_eq hS name
    have hin := hS.first_declare h rfl rfl rfl
    cases initial with
    | none =>
      have hsite := Follows.site h rfl hfaults .nil
      rw [List.append_nil] at hsite
      exact ⟨hsite, .next_define h hin rfl rfl⟩
    | some e =>
      obtain ⟨he, hS⟩ := e.follows (at?_concat h) hin
      exact ⟨.site h rfl hfaults he, .next_define h hS rfl rfl⟩
  | block body =>
    have hpast := hS.past h rfl
    have hempty : HasParams [] [] := fun _ => rfl
    have hin := hpast.first h rfl (.inl rfl) hempty
    obtain ⟨hb, -⟩ := Stmt.allFollows body f (at?_body h rfl) hin
      ((inFunction_of_not h rfl).trans hf)
    exact ⟨hb, hpast.next h rfl⟩
  | ifStmt condition yes no =>
    cases no with
    | none =>
      obtain ⟨hc, hS⟩ := condition.follows (at?_concat h) (hS.first h rfl rfl)
      obtain ⟨hy, hS⟩ := yes.follows f (at?_concat h) hS ((inFunction_of_not h rfl).trans hf)
      exact ⟨hc.append hy, .next h hS rfl rfl⟩
    | some no =>
      obtain ⟨hc, hS⟩ := condition.follows (at?_concat h) (hS.first h rfl rfl)
      obtain ⟨hy, hS⟩ := yes.follows f (at?_concat h) hS ((inFunction_of_not h rfl).trans hf)
      obtain ⟨hn, hS⟩ := no.follows f (at?_concat h) hS ((inFunction_of_not h rfl).trans hf)
      exact ⟨(hc.append hy).append hn, .next h hS rfl rfl⟩
  | whileStmt condition body =>
    obtain ⟨hc, hS⟩ := condition.follows (at?_concat h) (hS.first h rfl rfl)
    obtain ⟨hb, hS⟩ := body.follows f (at?_concat h) hS ((inFunction_of_not h rfl).trans hf)
    exact ⟨hc.append hb, .next h hS rfl rfl⟩
  | breakStmt keyword => exact ⟨.nil, .next h (hS.first h rfl rfl) rfl rfl⟩
  | returnStmt keyword value =>
    have hfaults : t.faultsAt (π ++ [i]) = returnErrors f keyword := by
      rw [faultsAt, h]
      simp only [hf, returnErrors]
    cases value with
    | none =>
      have hsite := Follows.site h rfl hfaults .nil
      rw [List.append_nil] at hsite
      exact ⟨hsite, .next h (hS.first h rfl rfl) rfl rfl⟩
    | some e =>
      obtain ⟨he, hS⟩ := e.follows (at?_concat h) (hS.first h rfl rfl)
      exact ⟨.site h rfl hfaults he, .next h hS rfl rfl⟩
  | funDecl name params body =>
    have hpast := hS.define_declare h rfl
    obtain ⟨⟨names, hdeclared, hnames⟩, herrors⟩ :=
      declareParams_eq params (define name (declare name S).1)
    have hfaults : t.faultsAt (π ++ [i]) = (declare name S).2 ++
        (declareParams params ([] :: define name (declare name S).1)).2 := by
      rw [faultsAt, h, herrors, ← redeclared_eq hS]
    have hin : t.Sees (π ++ [i] ++ [0])
        (declareParams params ([] :: define name (declare name S).1)).1 :=
      hdeclared ▸ hpast.first h rfl (.inr rfl) hnames
    obtain ⟨hb, -⟩ := Stmt.allFollows body true (at?_body h rfl) hin
      (inFunction_of_function h rfl)
    exact ⟨.site h rfl hfaults hb, hpast.next h rfl⟩

theorem Stmt.allFollows (ss : List (Stmt Unit)) (f : Bool) {π : Position} {k : Nat} {S : Stack}
    (h : ∀ j s, ss[j]? = some s → t.at? (π ++ [k + j]) = some (.statement s))
    (hS : t.Sees (π ++ [k]) S) (hf : t.inFunction (π ++ [k]) = f) :
    t.Follows (Stmt.allSites ss π k) (Stmt.resolveAll f S ss).2.2
        (Stmt.allReferences (Stmt.resolveAll f S ss).1) ∧
      t.Sees (π ++ [k + ss.length]) (Stmt.resolveAll f S ss).2.1 := by
  cases ss with
  | nil => exact ⟨.nil, hS⟩
  | cons s ss =>
    obtain ⟨hs, hS⟩ := s.follows f (h 0 s rfl) hS hf
    have hrest : ∀ j s, ss[j]? = some s → t.at? (π ++ [k + 1 + j]) = some (.statement s) := by
      intro j s hj
      rw [Nat.add_right_comm, Nat.add_assoc]
      exact h (j + 1) s hj
    have hbeside : t.inFunction (π ++ [k + 1]) = f := by
      rw [← hf, inFunction_concat, inFunction_concat]
    obtain ⟨hss, hS⟩ := Stmt.allFollows ss f hrest hS hbeside
    rw [Nat.add_right_comm, Nat.add_assoc] at hS
    exact ⟨hs.append hss, hS⟩

end

theorem Tree.program_follows (statements : List (Stmt Unit)) :
    let t := Tree.program statements
    t.Follows t.sites (Stmt.resolveAll false [] statements).2.2
      (Stmt.allReferences (Stmt.resolveAll false [] statements).1) := by
  intro t
  have hwhole : t.at? [] = some t := rfl
  have hstart : t.Sees [0] [] := by
    have hscopes : t.scopes [0] = [] := scopes_of_not_opens hwhole rfl
    refine ⟨by simp [hscopes], ?_, ?_⟩
    all_goals
      intro k σ hk
      rw [hscopes] at hk
      cases hk
  exact (Stmt.allFollows statements false (at?_body hwhole rfl) hstart
    (inFunction_of_not hwhole rfl)).1

/-- Resolution is what the positions in a program say. The program is resolved if nothing is wrong
in it; then every use is bound to what its name means where it stands, and nothing else is changed.
If something is wrong, the errors are what is wrong, each of them once, in the order in which the
sites are looked at. -/
theorem resolution_is_positional (statements : List (Stmt Unit)) :
    let t := Tree.program statements
    match resolveProgram statements with
    | .ok resolved =>
      t.faults = [] ∧ Stmt.allBare resolved = statements ∧
        List.Forall₂
          (fun π r => (t.at? π).bind used? = some (r.name, r.assigned) ∧
            ∀ b, t.Means r.name.lexeme π b ↔ b = r.binding)
          t.uses (Stmt.allReferences resolved)
    | .error errors => t.faults ≠ [] ∧ errors = t.faults := by
  intro t
  obtain ⟨herrors, huses⟩ := Tree.program_follows statements
  have hfaults : (Stmt.resolveAll false [] statements).2.2 = t.faults := herrors
  simp only [resolveProgram, hfaults]
  cases hclean : t.faults with
  | nil =>
    refine ⟨rfl, Stmt.allBare_resolveAll false [] statements, ?_⟩
    have hnone : ∀ π ∈ t.uses, t.faultsAt π = [] :=
      fun π hπ => List.flatMap_eq_nil_iff.mp hclean π (List.mem_of_mem_filter hπ)
    refine ((List.forall₂_and_left _ _).mpr ⟨hnone, huses⟩).imp ?_
    rintro π r ⟨hπ, hused, hmeans⟩
    exact ⟨hused, hmeans hπ⟩
  | cons e es => exact ⟨by simp, rfl⟩

example :
    (Tree.program [Stmt.block [.varDecl ⟨.identifier, "a", 1⟩
      (some (.ident () ⟨.identifier, "a", 2⟩))]]).faults =
        [⟨.readInInitializer, ⟨.identifier, "a", 2⟩⟩] := by
  decide

end ScriptLang
