import ScriptLang.Proofs.Chronicle.Frames
import ScriptLang.Proofs.Chronicle.Names
import ScriptLang.Proofs.Chronicle.Scoped

namespace ScriptLang.Chronicle

open Scope

def Placed (around : List Node) (name : String) : Prop :=
  ∀ n ∈ around.head?, n.opensScope ∧ name ∈ n.declares

structure Instance (m : Memory) (program : List (Stmt Binding)) (n : Node) (around : List Node)
    (f : Nat) (frames : List Nat) (names : Names) : Prop where
  opened : .opened f n ⟨program, around, frames⟩ ∈ m.events
  parent : m.store.parent? f = some (frames.headD m.globals)
  ready : ∀ x, isReady x names → m.store.Binds f x
  declared : ∀ x, hasName x names → x ∈ n.declares
  settled : Settled names

/-- Inside the nodes around a place, where resolution has the scopes open, the frames are the
instances of those scopes. They may bind more than the scopes know: a function can be called late.
-/
inductive Stands (m : Memory) (program : List (Stmt Binding)) :
    List Node → List Nat → Stack → Prop where
  | top : Stands m program [] [] []
  | plain {n : Node} {around : List Node} {frames : List Nat} {S : Stack}
      (hn : n.opensScope = false) (h : Stands m program around frames S) :
      Stands m program (n :: around) frames S
  /-- Inside the first value of a declared variable its name is pending. -/
  | initializer {name : Token} {initial : Expr Binding} {around : List Node} {frames : List Nat}
      {S : Stack} (hp : Placed around name.lexeme) (h : Stands m program around frames S) :
      Stands m program (.stmt (.varDecl name (some initial)) :: around) frames (declare name S).1
  | scope {n : Node} {around : List Node} {f : Nat} {frames : List Nat} {names : Names} {S : Stack}
      (hn : n.opensScope) (ho : HeadSettled S ∨ n.isLambda)
      (hi : Instance m program n around f frames names) (h : Stands m program around frames S) :
      Stands m program (n :: around) (f :: frames) (names :: S)

/-- Around a place there is one frame for every scope, made for it at its place. -/
def Instances (events : List Event) (program : List (Stmt Binding)) : List Node → List Nat → Prop
  | [], frames => frames = []
  | n :: around, frames =>
    if n.opensScope then
      ∃ f outer, frames = f :: outer ∧ .opened f n ⟨program, around, outer⟩ ∈ events ∧
        Instances events program around outer
    else Instances events program around frames

theorem scopes_cons_of_opensScope {n : Node} (hn : n.opensScope) (around : List Node) :
    scopes (n :: around) = n :: scopes around :=
  List.filter_cons_of_pos hn

theorem scopes_cons_of_plain {n : Node} (hn : n.opensScope = false) (around : List Node) :
    scopes (n :: around) = scopes around :=
  List.filter_cons_of_neg (by simp [hn])

section Standing

variable {m : Memory} {program : List (Stmt Binding)} {around : List Node} {frames : List Nat}
  {S : Stack}

theorem Stands.instances (h : Stands m program around frames S) :
    Instances m.events program around frames := by
  induction h with
  | top => rfl
  | plain hn _ ih => simpa [Instances, hn] using ih
  | initializer _ _ ih => simpa [Instances, Node.opensScope, Node.scope?] using ih
  | scope hn _ hi _ ih =>
    simp only [Instances, hn, if_true]
    exact ⟨_, _, rfl, hi.opened, ih⟩

/-- The frames are all there is between the innermost of them and the frame of global names. -/
theorem Stands.ancestor? (h : Stands m program around frames S)
    (hroot : m.store.parent? m.globals = none) (d : Nat) :
    m.store.ancestor? (frames.headD m.globals) d =
      (frames ++ [m.globals])[d]? := by
  induction h generalizing d with
  | top =>
    cases d with
    | zero => rfl
    | succ d => simp [Store.ancestor?, hroot]
  | plain _ _ ih => exact ih d
  | initializer _ _ ih => exact ih d
  | scope _ _ hi _ ih =>
    cases d with
    | zero => rfl
    | succ d =>
      simp only [List.headD_cons, Store.ancestor?, hi.parent, List.cons_append,
        List.getElem?_cons_succ]
      exact ih d

theorem Stands.lookup (h : Stands m program around frames S) {d : Nat} {names : Names}
    (hd : S[d]? = some names) :
    ∃ f n around' frames', frames[d]? = some f ∧ (scopes around)[d]? = some n ∧
      .opened f n ⟨program, around', frames'⟩ ∈ m.events ∧
      (∀ x, isReady x names → m.store.Binds f x) ∧
      ∀ x, hasName x names → x ∈ n.declares := by
  induction h generalizing d names with
  | top => simp at hd
  | plain hn _ ih =>
    rw [scopes_cons_of_plain hn]
    exact ih hd
  | @initializer name initial around frames S hp _ ih =>
    obtain ⟨names', hd', hready, hname, -⟩ := declare_getElem? hd
    obtain ⟨f, n, around', frames', hf, hn, ho, hb, hdecl⟩ := ih hd'
    refine ⟨f, n, around', frames', hf, hn, ho, ?_, ?_⟩
    · intro x hx
      exact hb x (hready x hx)
    · intro x hx
      rcases hname x hx with hx | ⟨rfl, rfl⟩
      · exact hdecl x hx
      · cases around with
        | nil => simp [scopes] at hn
        | cons outer around =>
          obtain ⟨hopens, hmem⟩ := hp outer rfl
          rw [scopes_cons_of_opensScope hopens] at hn
          cases hn
          exact hmem
  | scope hn _ hi _ ih =>
    rw [scopes_cons_of_opensScope hn]
    cases d with
    | zero =>
      cases hd
      exact ⟨_, _, _, _, rfl, rfl, hi.opened, hi.ready, hi.declared⟩
    | succ d => exact ih hd

/-- A place inside the first value of a variable that a scope declares, this many scopes further
in; and if there are any, inside a function literal there. -/
structure Pending (around : List Node) (d : Nat) (x : String) (inner : List Node) (name : Token)
    (initial : Expr Binding) (scope : Node) (outer : List Node) : Prop where
  around_eq : around = inner ++ .stmt (.varDecl name (some initial)) :: scope :: outer
  name_eq : name.lexeme = x
  opens : scope.opensScope
  distance : (scopes inner).length = d
  lambda : 0 < d → ∃ n ∈ inner, n.isLambda

theorem Pending.cons {d : Nat} {x : String} {inner : List Node} {name : Token}
    {initial : Expr Binding} {scope : Node} {outer : List Node} {n : Node}
    (h : Pending around d x inner name initial scope outer) (hn : n.opensScope = false) :
    Pending (n :: around) d x (n :: inner) name initial scope outer where
  around_eq := by rw [h.around_eq, List.cons_append]
  name_eq := h.name_eq
  opens := h.opens
  distance := by rw [scopes_cons_of_plain hn, h.distance]
  lambda := by
    intro hpos
    obtain ⟨n', hmem, hn'⟩ := h.lambda hpos
    exact ⟨n', List.mem_cons_of_mem _ hmem, hn'⟩

theorem Stands.pending (h : Stands m program around frames S) {d : Nat} {names : Names} {x : String}
    (hd : S[d]? = some names) (hx : isPending x names) :
    ∃ inner name initial scope outer, Pending around d x inner name initial scope outer := by
  induction h generalizing d names with
  | top => simp at hd
  | plain hn _ ih =>
    obtain ⟨inner, name, initial, scope, outer, hp⟩ := ih hd hx
    exact ⟨_, name, initial, scope, outer, hp.cons hn⟩
  | @initializer name initial around frames S hplaced hst ih =>
    obtain ⟨names', hd', -, -, hpending⟩ := declare_getElem? hd
    rcases hpending x hx with hx | ⟨rfl, rfl⟩
    · obtain ⟨inner, name', initial', scope, outer, hp⟩ := ih hd' hx
      exact ⟨_, name', initial', scope, outer, hp.cons rfl⟩
    · obtain ⟨_, _, _, _, -, hscope, -⟩ := hst.lookup hd'
      cases around with
      | nil => simp [scopes] at hscope
      | cons scope outer =>
        exact ⟨[], name, initial, scope, outer, rfl, rfl, (hplaced scope rfl).1, rfl, by simp⟩
  | @scope n around f frames names' S hn ho hi _ ih =>
    cases d with
    | zero =>
      cases hd
      simp [hi.settled x] at hx
    | succ d =>
      have hd' : S[d]? = some names := hd
      obtain ⟨inner, name, initial, scope, outer, hp⟩ := ih hd' hx
      refine ⟨n :: inner, name, initial, scope, outer, ?_, hp.name_eq, hp.opens, ?_, ?_⟩
      · rw [hp.around_eq, List.cons_append]
      · rw [scopes_cons_of_opensScope hn, List.length_cons, hp.distance]
      · intro _
        cases d with
        | succ d =>
          obtain ⟨n', hmem, hn'⟩ := hp.lambda (Nat.succ_pos d)
          exact ⟨n', List.mem_cons_of_mem _ hmem, hn'⟩
        | zero =>
          -- The innermost scope is not settled, so that only a literal can open one further in.
          rcases ho with ho | hn'
          · have hhead : names ∈ S.head? := by
              rw [List.head?_eq_getElem?, hd']
              rfl
            simp [ho names hhead x] at hx
          · exact ⟨n, List.mem_cons_self, hn'⟩

end Standing

end ScriptLang.Chronicle
