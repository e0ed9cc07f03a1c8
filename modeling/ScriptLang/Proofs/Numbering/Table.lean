import ScriptLang.Proofs.Numbering.Freshness
import ScriptLang.Proofs.Recoding.Linking
import ScriptLang.Proofs.Resolution.Resolved

namespace ScriptLang

section Filling

variable {ρ σ : Type}

mutual

def Expr.fill : Expr Unit → List σ → Option (Expr σ × List σ)
  | .literal value, notes => some (.literal value, notes)
  | .group inner, notes => do
    let (i, notes) ← inner.fill notes
    some (.group i, notes)
  | .unary operator right, notes => do
    let (r, notes) ← right.fill notes
    some (.unary operator r, notes)
  | .binary left operator right, notes => do
    let (l, notes) ← left.fill notes
    let (r, notes) ← right.fill notes
    some (.binary l operator r, notes)
  | .logical left operator right, notes => do
    let (l, notes) ← left.fill notes
    let (r, notes) ← right.fill notes
    some (.logical l operator r, notes)
  | .ident _ name, notes =>
    match notes with
    | [] => none
    | note :: notes => some (.ident note name, notes)
  | .assign _ name value, notes => do
    let (v, notes) ← value.fill notes
    match notes with
    | [] => none
    | note :: notes => some (.assign note name v, notes)
  | .call callee paren arguments, notes => do
    let (c, notes) ← callee.fill notes
    let (as, notes) ← Expr.fillAll arguments notes
    some (.call c paren as, notes)
  | .lambda params body, notes => do
    let (b, notes) ← Stmt.fillAll body notes
    some (.lambda params b, notes)

def Expr.fillAll : List (Expr Unit) → List σ → Option (List (Expr σ) × List σ)
  | [], notes => some ([], notes)
  | e :: es, notes => do
    let (first, notes) ← e.fill notes
    let (others, notes) ← Expr.fillAll es notes
    some (first :: others, notes)

def Stmt.fill : Stmt Unit → List σ → Option (Stmt σ × List σ)
  | .exprStmt e, notes => do
    let (e, notes) ← e.fill notes
    some (.exprStmt e, notes)
  | .printStmt e, notes => do
    let (e, notes) ← e.fill notes
    some (.printStmt e, notes)
  | .varDecl name none, notes => some (.varDecl name none, notes)
  | .varDecl name (some initial), notes => do
    let (i, notes) ← initial.fill notes
    some (.varDecl name (some i), notes)
  | .block body, notes => do
    let (b, notes) ← Stmt.fillAll body notes
    some (.block b, notes)
  | .ifStmt condition yes none, notes => do
    let (c, notes) ← condition.fill notes
    let (y, notes) ← yes.fill notes
    some (.ifStmt c y none, notes)
  | .ifStmt condition yes (some no), notes => do
    let (c, notes) ← condition.fill notes
    let (y, notes) ← yes.fill notes
    let (n, notes) ← no.fill notes
    some (.ifStmt c y (some n), notes)
  | .whileStmt condition body, notes => do
    let (c, notes) ← condition.fill notes
    let (b, notes) ← body.fill notes
    some (.whileStmt c b, notes)
  | .breakStmt keyword, notes => some (.breakStmt keyword, notes)
  | .returnStmt keyword none, notes => some (.returnStmt keyword none, notes)
  | .returnStmt keyword (some value), notes => do
    let (v, notes) ← value.fill notes
    some (.returnStmt keyword (some v), notes)
  | .funDecl name params body, notes => do
    let (b, notes) ← Stmt.fillAll body notes
    some (.funDecl name params b, notes)

def Stmt.fillAll : List (Stmt Unit) → List σ → Option (List (Stmt σ) × List σ)
  | [], notes => some ([], notes)
  | s :: ss, notes => do
    let (first, notes) ← s.fill notes
    let (others, notes) ← Stmt.fillAll ss notes
    some (first :: others, notes)

end

variable {f : ρ → σ}

def Reference.noted (f : ρ → σ) (r : Reference ρ) : σ :=
  f r.binding

mutual

theorem Expr.fill_noted (e : Expr ρ) (rest : List σ) :
    (e.map fun _ => ()).fill (e.references.map (Reference.noted f) ++ rest) =
      some (e.map f, rest) := by
  cases e with
  | literal value => rfl
  | group inner =>
    simp only [Expr.map, Expr.fill, Expr.references, inner.fill_noted, Option.bind_eq_bind,
      Option.bind_some]
  | unary operator right =>
    simp only [Expr.map, Expr.fill, Expr.references, right.fill_noted, Option.bind_eq_bind,
      Option.bind_some]
  | binary left operator right =>
    simp only [Expr.map, Expr.fill, Expr.references, List.map_append, List.append_assoc,
      left.fill_noted, right.fill_noted, Option.bind_eq_bind, Option.bind_some]
  | logical left operator right =>
    simp only [Expr.map, Expr.fill, Expr.references, List.map_append, List.append_assoc,
      left.fill_noted, right.fill_noted, Option.bind_eq_bind, Option.bind_some]
  | ident note name => rfl
  | assign note name value =>
    simp only [Expr.map, Expr.fill, Expr.references, List.map_append, List.append_assoc,
      value.fill_noted, Option.bind_eq_bind, Option.bind_some]
    rfl
  | call callee paren arguments =>
    simp only [Expr.map, Expr.fill, Expr.references, List.map_append, List.append_assoc,
      callee.fill_noted, Expr.fillAll_noted arguments, Option.bind_eq_bind, Option.bind_some]
  | lambda params body =>
    simp only [Expr.map, Expr.fill, Expr.references, Stmt.fillAll_noted body,
      Option.bind_eq_bind, Option.bind_some]

theorem Expr.fillAll_noted (es : List (Expr ρ)) (rest : List σ) :
    Expr.fillAll (Expr.mapAll (fun _ => ()) es)
        ((Expr.allReferences es).map (Reference.noted f) ++ rest) =
      some (Expr.mapAll f es, rest) := by
  cases es with
  | nil => rfl
  | cons e es =>
    simp only [Expr.mapAll, Expr.fillAll, Expr.allReferences, List.map_append, List.append_assoc,
      e.fill_noted, Expr.fillAll_noted es, Option.bind_eq_bind, Option.bind_some]

theorem Stmt.fill_noted (s : Stmt ρ) (rest : List σ) :
    (s.map fun _ => ()).fill (s.references.map (Reference.noted f) ++ rest) =
      some (s.map f, rest) := by
  cases s with
  | exprStmt e =>
    simp only [Stmt.map, Stmt.fill, Stmt.references, e.fill_noted, Option.bind_eq_bind,
      Option.bind_some]
  | printStmt e =>
    simp only [Stmt.map, Stmt.fill, Stmt.references, e.fill_noted, Option.bind_eq_bind,
      Option.bind_some]
  | varDecl name initial =>
    cases initial with
    | none => rfl
    | some e =>
      simp only [Stmt.map, Stmt.fill, Stmt.references, e.fill_noted, Option.bind_eq_bind,
        Option.bind_some]
  | block body =>
    simp only [Stmt.map, Stmt.fill, Stmt.references, Stmt.fillAll_noted body,
      Option.bind_eq_bind, Option.bind_some]
  | ifStmt condition yes no =>
    cases no with
    | none =>
      simp only [Stmt.map, Stmt.fill, Stmt.references, List.map_append, List.append_assoc,
        condition.fill_noted, yes.fill_noted, Option.bind_eq_bind, Option.bind_some]
    | some no =>
      simp only [Stmt.map, Stmt.fill, Stmt.references, List.map_append, List.append_assoc,
        condition.fill_noted, yes.fill_noted, no.fill_noted, Option.bind_eq_bind,
        Option.bind_some]
  | whileStmt condition body =>
    simp only [Stmt.map, Stmt.fill, Stmt.references, List.map_append, List.append_assoc,
      condition.fill_noted, body.fill_noted, Option.bind_eq_bind, Option.bind_some]
  | breakStmt keyword => rfl
  | returnStmt keyword value =>
    cases value with
    | none => rfl
    | some e =>
      simp only [Stmt.map, Stmt.fill, Stmt.references, e.fill_noted, Option.bind_eq_bind,
        Option.bind_some]
  | funDecl name params body =>
    simp only [Stmt.map, Stmt.fill, Stmt.references, Stmt.fillAll_noted body,
      Option.bind_eq_bind, Option.bind_some]

theorem Stmt.fillAll_noted (ss : List (Stmt ρ)) (rest : List σ) :
    Stmt.fillAll (Stmt.mapAll (fun _ => ()) ss)
        ((Stmt.allReferences ss).map (Reference.noted f) ++ rest) =
      some (Stmt.mapAll f ss, rest) := by
  cases ss with
  | nil => rfl
  | cons s ss =>
    simp only [Stmt.mapAll, Stmt.fillAll, Stmt.allReferences, List.map_append, List.append_assoc,
      s.fill_noted, Stmt.fillAll_noted ss, Option.bind_eq_bind, Option.bind_some]

end

theorem Stmt.mapAll_eq_mapAll {ρ' : Type} {g : ρ' → σ} {ss : List (Stmt ρ)}
    {ss' : List (Stmt ρ')}
    (hshape : Stmt.mapAll (fun _ => ()) ss = Stmt.mapAll (fun _ => ()) ss')
    (hnotes : (Stmt.allNotes ss).map f = (Stmt.allNotes ss').map g) :
    Stmt.mapAll f ss = Stmt.mapAll g ss' := by
  have hnoted : (Stmt.allReferences ss).map (Reference.noted f) =
      (Stmt.allReferences ss').map (Reference.noted g) := by
    rw [Stmt.allNotes, Stmt.allNotes, List.map_map, List.map_map] at hnotes
    exact hnotes
  have hfill := Stmt.fillAll_noted (f := f) ss []
  rw [hshape, hnoted, Stmt.fillAll_noted ss' []] at hfill
  exact (congrArg Prod.fst (Option.some.inj hfill)).symm

theorem Stmt.allNotes_length {ss : List (Stmt ρ)} {ss' : List (Stmt σ)}
    (hshape : Stmt.mapAll (fun _ => ()) ss = Stmt.mapAll (fun _ => ()) ss') :
    (Stmt.allNotes ss).length = (Stmt.allNotes ss').length := by
  -- filled from one list long enough for both, the shape leaves the same notes over
  have hfill := Stmt.fillAll_noted (f := fun _ => ()) ss
    (List.replicate (Stmt.allReferences ss').length ())
  have hfill' := Stmt.fillAll_noted (f := fun _ => ()) ss'
    (List.replicate (Stmt.allReferences ss).length ())
  have hnoted : ∀ {τ : Type} (rs : List (Reference τ)),
      rs.map (Reference.noted fun _ => ()) = List.replicate rs.length () :=
    fun _ => List.map_const'
  rw [hnoted, List.replicate_append_replicate] at hfill hfill'
  rw [hshape, Nat.add_comm, hfill'] at hfill
  have hleft := congrArg List.length (congrArg Prod.snd (Option.some.inj hfill))
  rw [Stmt.allNotes, Stmt.allNotes, List.length_map, List.length_map]
  simpa using hleft

end Filling

namespace Numbered

/-- Distances under numbers; the latest entry of a number counts. -/
abbrev Table := List (Nat × Nat)

/-- Code as it is run: the number of a use stands where its binding would. -/
def load (numbered : List (Stmt Nat)) : List (Stmt Binding) :=
  Stmt.mapAll Binding.hops numbered

namespace Table

def note (table : Table) : Nat × Binding → Table
  | (_, .global) => table
  | (number, .hops distance) => (number, distance) :: table

/-- The table of a program: under the number of each use the distance that was found for it. -/
def ofProgram (numbered : List (Stmt Nat)) (resolved : List (Stmt Binding)) : Table :=
  ((Stmt.allNotes numbered).zip (Stmt.allNotes resolved)).foldl note []

def merge (table new : Table) : Table :=
  new ++ table

def linker (table : Table) : Linker
  | .global => .global
  | .hops number =>
    match table.lookup number with
    | some distance => .hops distance
    | none => .global

section Lookup

variable {table : Table} {uses : List (Nat × Binding)} {number : Nat}

theorem lookup_note_of_ne {use : Nat × Binding} (h : number ≠ use.1) :
    (table.note use).lookup number = table.lookup number := by
  obtain ⟨k, binding⟩ := use
  cases binding with
  | global => rfl
  | hops distance => simp [note, List.lookup_cons, beq_eq_false_iff_ne.mpr h]

theorem lookup_foldl_of_notMem (h : number ∉ uses.map Prod.fst) :
    (uses.foldl note table).lookup number = table.lookup number := by
  induction uses generalizing table with
  | nil => rfl
  | cons use uses ih =>
    rw [List.map_cons, List.mem_cons, not_or] at h
    rw [List.foldl_cons, ih h.2, lookup_note_of_ne h.1]

theorem linker_foldl (hdistinct : (uses.map Prod.fst).Nodup) {binding : Binding}
    (hmem : (number, binding) ∈ uses) (hnew : table.lookup number = none) :
    (uses.foldl note table).linker (.hops number) = binding := by
  induction uses generalizing table with
  | nil => cases hmem
  | cons use uses ih =>
    rw [List.map_cons, List.nodup_cons] at hdistinct
    rcases List.mem_cons.mp hmem with rfl | hmem
    · rw [List.foldl_cons, linker, lookup_foldl_of_notMem hdistinct.1]
      cases binding with
      | global => simp [note, hnew]
      | hops distance => simp [note]
    · have hne : number ≠ use.1 := by
        intro heq
        exact hdistinct.1 (heq ▸ List.mem_map_of_mem hmem)
      exact ih hdistinct.2 hmem ((lookup_note_of_ne hne).trans hnew)

theorem lookup_merge {new : Table} :
    (table.merge new).lookup number = (new.lookup number).or (table.lookup number) :=
  List.lookup_append

theorem foldl_note_merge {new : Table} :
    table.merge (uses.foldl note new) = uses.foldl note (table.merge new) := by
  induction uses generalizing new with
  | nil => rfl
  | cons use uses ih =>
    obtain ⟨k, binding⟩ := use
    cases binding <;> exact ih

end Lookup

section Programs

variable {table : Table} {numbered : List (Stmt Nat)} {resolved : List (Stmt Binding)}

theorem lookup_ofProgram_of_notMem {number : Nat} (h : number ∉ Stmt.allNotes numbered) :
    (ofProgram numbered resolved).lookup number = none := by
  have hkeys : number ∉ ((Stmt.allNotes numbered).zip (Stmt.allNotes resolved)).map Prod.fst := by
    intro hmem
    obtain ⟨use, huse, rfl⟩ := List.mem_map.mp hmem
    exact h (List.of_mem_zip huse).1
  exact (lookup_foldl_of_notMem hkeys).trans rfl

/-- Loaded code with every number looked up is the resolved program. -/
theorem linked_load
    (hshape : Stmt.mapAll (fun _ => ()) numbered = Stmt.mapAll (fun _ => ()) resolved)
    (hdistinct : (Stmt.allNotes numbered).Nodup)
    (hnew : ∀ number ∈ Stmt.allNotes numbered, table.lookup number = none) :
    Stmt.mapAll (table.merge (ofProgram numbered resolved)).linker (load numbered) = resolved := by
  have hlength := Stmt.allNotes_length hshape
  let uses := (Stmt.allNotes numbered).zip (Stmt.allNotes resolved)
  have hfst : uses.map Prod.fst = Stmt.allNotes numbered := List.map_fst_zip (Nat.le_of_eq hlength)
  have hsnd : uses.map Prod.snd = Stmt.allNotes resolved :=
    List.map_snd_zip (Nat.le_of_eq hlength.symm)
  have hfound : ∀ use ∈ uses,
      (table.merge (ofProgram numbered resolved)).linker (.hops use.1) = use.2 := by
    intro use huse
    rw [ofProgram, foldl_note_merge]
    refine linker_foldl (hfst.symm ▸ hdistinct) huse ?_
    exact hnew use.1 (List.of_mem_zip huse).1
  have hnotes : (Stmt.allNotes numbered).map
        ((table.merge (ofProgram numbered resolved)).linker ∘ Binding.hops) =
      (Stmt.allNotes resolved).map id := by
    rw [List.map_id, ← hfst, ← hsnd, List.map_map]
    exact List.map_congr_left hfound
  rw [load, Stmt.mapAll_mapAll, Stmt.mapAll_eq_mapAll hshape hnotes, Stmt.mapAll_id]

end Programs

end Table

end Numbered

end ScriptLang
