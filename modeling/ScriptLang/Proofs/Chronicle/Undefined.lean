import ScriptLang.Proofs.Chronicle.Agreement

namespace ScriptLang.Chronicle

open Scope

/-- A use inside of a function literal in the first value of the variable it was resolved to, which
has not been computed in this instance of the scope that declares it. -/
structure Premature (older : List Event) (place : Place) (n : Node) (d : Nat) (x : String) :
    Prop where
  nested : Nested place.program place.around n
  pending : ∃ inner lambda between name initial scope outer f site,
    place.around =
      inner ++ lambda :: between ++ .stmt (.varDecl name (some initial)) :: scope :: outer ∧
    lambda.isLambda ∧ name.lexeme = x ∧
    (scopes place.around)[d]? = some scope ∧ place.frames[d]? = some f ∧
    .opened f scope site ∈ older ∧
    .completed f (.stmt (.varDecl name (some initial))) ∉ older

section Moment

variable {P : List (Stmt Binding) → Prop} {older : List Event} {place : Place} {n : Node}
  {m : Machine}

theorem Pending.scope_eq {around : List Node} {d : Nat} {x : String} {inner : List Node}
    {name : Token} {initial : Expr Binding} {scope : Node} {outer : List Node}
    (h : Pending around d x inner name initial scope outer) : (scopes around)[d]? = some scope := by
  have hscopes : scopes around = scopes inner ++ scope :: scopes outer := by
    rw [h.around_eq, ← scopes_cons_of_opensScope h.opens]
    exact List.filter_append ..
  rw [hscopes, ← h.distance, List.getElem?_append_right (Nat.le_refl _), Nat.sub_self]
  rfl

/-- At a valid moment a resolved use that finds nothing is premature. -/
theorem Moment.premature (h : Moment P ⟨m, older⟩ place n) {d : Nat} {name : Token}
    (hu : n.use? = some (.hops d, name))
    (hmiss : (m.frameOf? (.hops d)).bind (m.store.get? · name.lexeme) = none) :
    Premature older place n d name.lexeme := by
  obtain ⟨hconsistent, hnested, binding, name', S, huse, hbinding, hat⟩ := h
  cases huse.symm.trans hu
  obtain ⟨names, hS, hname, hready⟩ := bindingOf?_hops hbinding
  obtain ⟨f, scope, _, _, hf, hscope, hopened, hbound, -⟩ := hat.stands.lookup hS
  have hnone : m.store.get? f name.lexeme = none := by
    have hframe : m.frameOf? (.hops d) = some f := hat.frameOf? hconsistent.root hf
    rw [hframe] at hmiss
    exact hmiss
  have hunbound : ¬ m.store.Binds f name.lexeme := by
    simp [Store.Binds, hnone]
  have hunready : ¬ isReady name.lexeme names := fun hr => hunbound (hbound _ hr)
  have hpending := (isReady_or_isPending hname).resolve_left hunready
  have hpos : 0 < d := Nat.pos_of_ne_zero fun hd => hunready (hready hd)
  obtain ⟨inner, declared, initial, scope', outer, hp⟩ := hat.stands.pending hS hpending
  cases hp.scope_eq.symm.trans hscope
  obtain ⟨lambda, hmem, hlambda⟩ := hp.lambda hpos
  obtain ⟨inner, between, rfl⟩ := List.append_of_mem hmem
  refine ⟨hnested, inner, lambda, between, declared, initial, scope, outer, f, _, hp.around_eq,
    hlambda, hp.name_eq, hscope, hf, hopened, ?_⟩
  intro hcompleted
  have hbinds := hconsistent.completed f _ declared hcompleted rfl
  rw [hp.name_eq] at hbinds
  exact hunbound hbinds

end Moment

/-- How a unit of a session ends that stops at an undefined variable. -/
theorem Resting.undefined {P : List (Stmt Binding) → Prop} {r : Record} (h : Resting P r)
    {source : String} (hP : ∀ program, Session.compile source = .ok program → P program)
    {fuel : Nat} {x : String} {line : Nat}
    (hend : (run fuel source r).1 = .stopped (.runtime ⟨.undefinedVariable x, line⟩)) :
    ∃ place n m older binding name,
      (run fuel source r).2.events = .used place n m :: older ∧
      n.use? = some (binding, name) ∧ name.lexeme = x ∧ name.line = line ∧
      (m.frameOf? binding).bind (m.store.get? · x) = none ∧
      (binding = .global ∨ ∃ d, binding = .hops d ∧ Premature older place n d x) := by
  obtain ⟨hrest, hexplained⟩ := run_resting h hP fuel
  obtain ⟨place, n, m, name, older, hevents, ⟨binding, hu, hmiss⟩, rfl, hline⟩ :=
    hexplained x line hend x line rfl
  refine ⟨place, n, m, older, binding, name, hevents, hu, rfl, hline, hmiss, ?_⟩
  cases binding with
  | global => exact .inl rfl
  | hops d =>
    have hsound := hrest.valid.sound
    rw [hevents] at hsound
    exact .inr ⟨d, rfl, hsound.1.premature hu hmiss⟩

/-- In every session a resolved use that finds nothing is premature. A unit after it that stops at
an undefined variable stops at a use that finds nothing, which was left global or is premature. -/
theorem undefined_only_if_premature (natives : List Native) (sink : Sink)
    (units : List (Nat × String)) :
    (∀ newer place n m older d name,
        (runAll units (start natives sink)).2.events = newer ++ .used place n m :: older →
        n.use? = some (.hops d, name) →
        (m.frameOf? (.hops d)).bind (m.store.get? · name.lexeme) = none →
        Premature older place n d name.lexeme) ∧
      ∀ fuel source x line,
        (Session.run fuel source (Session.runAll units (Machine.start natives sink)).2).1 =
          .stopped (.runtime ⟨.undefinedVariable x, line⟩) →
        ∃ place n m older binding name,
          (run fuel source (runAll units (start natives sink)).2).2.events =
            .used place n m :: older ∧
          n.use? = some (binding, name) ∧ name.lexeme = x ∧ name.line = line ∧
          (m.frameOf? binding).bind (m.store.get? · x) = none ∧
          (binding = .global ∨ ∃ d, binding = .hops d ∧ Premature older place n d x) := by
  constructor
  · intro newer place n m older d name hevents hu hmiss
    have hsound := (session_resting natives sink units).valid.sound
    rw [hevents] at hsound
    exact hsound.moment.premature hu hmiss
  · intro fuel source x line hend
    -- the unit is recorded too, from the record of the session
    have hmachine : (runAll units (start natives sink)).2.machine =
        (Session.runAll units (Machine.start natives sink)).2 :=
      congrArg Prod.snd (runAll_erases units (start natives sink))
    have hending : (run fuel source (runAll units (start natives sink)).2).1 =
        (Session.run fuel source (runAll units (start natives sink)).2.machine).1 :=
      congrArg Prod.fst (run_erases fuel source _)
    rw [← hmachine, ← hending] at hend
    have hrest : Resting (fun _ => True) (runAll units (start natives sink)).2 :=
      runAll_resting (start_resting natives sink) fun _ _ _ _ => trivial
    exact hrest.undefined (fun _ _ => trivial) hend

example : ∃ program m, resolveProgram
    [.block [.varDecl ⟨.identifier, "f", 1⟩ (some (.call
      (.lambda [] [.exprStmt (.ident () ⟨.identifier, "f", 1⟩)]) ⟨.rightParen, ")", 1⟩ []))]] =
      .ok program ∧
    Evaluation.interpret 9 program (Machine.start [] .unlimited) =
      .error (.error ⟨.undefinedVariable "f", 1⟩) m :=
  ⟨_, _, rfl, rfl⟩

end ScriptLang.Chronicle
