import Mathlib.Data.List.Nodup
import ScriptLang.Proofs.Chronicle.Memory
import ScriptLang.Proofs.Chronicle.Observation

namespace ScriptLang.Chronicle

open Scope

def Nothing : Nat → String → Prop :=
  fun _ _ => False

def Just (f : Nat) (x : String) : Nat → String → Prop :=
  fun g y => g = f ∧ y = x

namespace Memory

variable (m : Memory)

def use (place : Place) (n : Node) (machine : Machine) : Memory :=
  { m with events := .used place n machine :: m.events }

def make (n : Node) (place : Place) : Memory :=
  { m with events := .made m.nextId n place :: m.events, nextId := m.nextId + 1 }

def write (f : Nat) (x : String) (v : Value) (nextId : Nat) : Memory :=
  { m with store := m.store.define f x v, nextId := nextId }

def declare (f : Nat) (x : String) (s : Stmt Binding) (v : Value) : Memory :=
  { m with
    events := .defined f x :: .completed f (.stmt s) :: m.events
    store := m.store.define f x v }

def enter (n : Node) (place : Place) (parent : Nat) (bindings : List (String × Value)) : Memory :=
  { m with
    events := openingEvents n place (bindings.map Prod.fst) m.store.size ++ m.events
    store := (m.store.push (some parent)).defineAll m.store.size bindings }

end Memory

theorem mem_openingEvents {n : Node} {place : Place} {names : List String} {frame : Nat} {e : Event}
    (h : e ∈ openingEvents n place names frame) :
    (∃ x ∈ names, e = .defined frame x) ∨ e = .opened frame n place := by
  rcases List.mem_append.mp h with h | h
  · obtain ⟨x, hx, rfl⟩ := List.mem_map.mp (List.mem_reverse.mp h)
    exact .inl ⟨x, hx, rfl⟩
  · exact .inr (List.mem_singleton.mp h)

theorem origin?_append {es events : List Event} {id : Nat}
    (h : ∀ e ∈ es, Event.origin? id e = none) : origin? (es ++ events) id = origin? events id := by
  unfold origin?
  rw [List.findSome?_append, List.findSome?_eq_none_iff.mpr h, Option.none_or]

section Later

variable {m : Memory}

theorem Later.lax {D : Nat → String → Prop} {n : Memory} (h : Later Nothing m n) : Later D m n :=
  h.weaken fun _ _ _ _ hx => hx.elim

theorem later_use (place : Place) (n : Node) (machine : Machine) :
    Later Nothing m (m.use place n machine) :=
  { Later.refl Nothing m with
    events := List.suffix_cons _ _
    origins := fun _ _ => rfl }

theorem later_numbered : Later Nothing m { m with nextId := m.nextId + 1 } :=
  { Later.refl Nothing m with nextId := Nat.le_succ _ }

theorem later_make (n : Node) (place : Place) : Later Nothing m (m.make n place) :=
  { Later.refl Nothing m with
    events := List.suffix_cons _ _
    nextId := Nat.le_succ _
    origins := by
      intro id hid
      simp [Memory.make, origin?, Event.origin?, Nat.ne_of_gt hid] }

theorem later_define (f : Nat) (x : String) (v : Value) {events : List Event} {nextId : Nat}
    (he : m.events <:+ events) (hid : m.nextId ≤ nextId)
    (ho : ∀ id, origin? events id = origin? m.events id) :
    Later (Just f x) m ⟨events, m.store.define f x v, m.globals, nextId⟩ where
  events := he
  size := by simp
  parents := by simp
  binds g y hb := (m.store.binds_define g f y x v).mpr (.inl hb)
  kept g y _ _ hb := by
    rcases (m.store.binds_define g f y x v).mp hb with hb | ⟨hg, hy, -⟩
    · exact .inl hb
    · exact .inr ⟨hg, hy⟩
  globals := rfl
  nextId := hid
  origins id _ := ho id

theorem later_write {f : Nat} {x : String} {v : Value} {nextId : Nat}
    (hf : f = m.globals ∨ m.store.Binds f x) (hid : m.nextId ≤ nextId) :
    Later Nothing m (m.write f x v nextId) := by
  have h := later_define f x v (List.suffix_refl _) hid fun _ => rfl
  refine ⟨h.events, h.size, h.parents, h.binds, ?_, h.globals, h.nextId, h.origins⟩
  intro g y hlt hg hb
  rcases h.kept g y hlt hg hb with hb | ⟨rfl, rfl⟩
  · exact .inl hb
  · exact .inl (hf.resolve_left hg)

theorem later_declare (f : Nat) (x : String) (s : Stmt Binding) (v : Value) :
    Later (Just f x) m (m.declare f x s v) :=
  later_define f x v ((List.suffix_cons _ _).trans (List.suffix_cons _ _)) (Nat.le_refl _)
    fun _ => rfl

theorem later_enter (n : Node) (place : Place) (parent : Nat) (bindings : List (String × Value)) :
    Later Nothing m (m.enter n place parent bindings) where
  events := List.suffix_append _ _
  size := by simp [Memory.enter]
  parents f hf := by simp [Memory.enter, Store.parent?_push, Nat.ne_of_lt hf]
  binds f x hb := by
    apply (Store.binds_defineAll _ _ _ _ _ (by simp)).mpr
    exact .inl (by simpa [Store.Binds] using hb)
  kept f x hf _ hb := by
    rcases (Store.binds_defineAll _ _ _ _ _ (by simp)).mp hb with hb | ⟨rfl, -⟩
    · exact .inl (by simpa [Store.Binds] using hb)
    · exact absurd hf (Nat.lt_irrefl _)
  globals := rfl
  nextId := Nat.le_refl _
  origins id _ := by
    apply origin?_append
    intro e he
    rcases mem_openingEvents he with ⟨x, -, rfl⟩ | rfl <;> rfl

end Later

section Consistency

variable {P : List (Stmt Binding) → Prop} {m : Memory}

theorem Consistent.remark (h : Consistent P m) {e : Event} {nextId : Nat}
    (hd : e.definition? = none) (hf : e.frame? = none) (hc : ∀ f n, e ≠ .completed f n)
    (hl : Later Nothing m ⟨e :: m.events, m.store, m.globals, nextId⟩) :
    Consistent P ⟨e :: m.events, m.store, m.globals, nextId⟩ := by
  have hdefinitions : definitions (e :: m.events) = definitions m.events :=
    List.filterMap_cons_none hd
  have hopenings : openings (e :: m.events) = openings m.events := List.filterMap_cons_none hf
  constructor
  case globals => exact h.globals
  case root => exact h.root
  case opened =>
    intro f n place he
    rcases List.mem_cons.mp he with rfl | he
    · cases hf
    · exact h.opened f n place he
  case framed =>
    simp only [hopenings]
    exact h.framed
  case once =>
    simp only [hopenings]
    exact h.once
  case bound =>
    simp only [hdefinitions]
    exact h.bound
  case fresh =>
    simp only [hdefinitions]
    exact h.fresh
  case completed =>
    intro f s name he
    rcases List.mem_cons.mp he with rfl | he
    · exact absurd rfl (hc f (.stmt s))
    · exact h.completed f s name he
  case known =>
    intro f x v hv
    exact (h.known f x v hv).later hl

theorem Consistent.use (h : Consistent P m) (place : Place) (n : Node) (machine : Machine) :
    Consistent P (m.use place n machine) :=
  h.remark rfl rfl (by simp) (later_use place n machine)

theorem Consistent.make (h : Consistent P m) (n : Node) (place : Place) :
    Consistent P (m.make n place) :=
  h.remark rfl rfl (by simp) (later_make n place)

theorem Consistent.numbered (h : Consistent P m) :
    Consistent P { m with nextId := m.nextId + 1 } :=
  { h with known := fun f x v hv => (h.known f x v hv).later later_numbered }

theorem Consistent.write (h : Consistent P m) {f : Nat} {x : String} {v : Value} {nextId : Nat}
    (hf : f = m.globals ∨ m.store.Binds f x) (hid : m.nextId ≤ nextId) (hv : Known P m v) :
    Consistent P (m.write f x v nextId) := by
  have hl : Later Nothing m (m.write f x v nextId) := later_write hf hid
  have hsame : ∀ g y, g ≠ m.globals → ((m.store.define f x v).Binds g y ↔ m.store.Binds g y) := by
    intro g y hg
    rw [m.store.binds_define]
    constructor
    · rintro (hb | ⟨rfl, rfl, -⟩)
      · exact hb
      · exact hf.resolve_left hg
    · exact .inl
  constructor
  case globals => simpa [Memory.write] using h.globals
  case root => simpa [Memory.write] using h.root
  case opened =>
    intro g n place he
    obtain ⟨hlt, hg, hdecl⟩ := h.opened g n place he
    refine ⟨by simpa [Memory.write] using hlt, hg, ?_⟩
    intro y hy
    exact hdecl y ((hsame g y hg).mp hy)
  case framed =>
    intro g hlt hg
    exact h.framed g (by simpa [Memory.write] using hlt) hg
  case once => exact h.once
  case bound =>
    intro g y hg
    exact (hsame g y hg).trans (h.bound g y hg)
  case fresh => exact h.fresh
  case completed =>
    intro g s name he hs
    exact hl.binds g _ (h.completed g s name he hs)
  case known =>
    intro g y w hw
    have hw' : (m.store.define f x v).get? g y = some w := hw
    rw [Store.get?_define] at hw'
    by_cases hc : g = f ∧ y = x ∧ f < m.store.size
    · rw [if_pos hc] at hw'
      cases hw'
      exact hv.later hl
    · rw [if_neg hc] at hw'
      exact (h.known g y w hw').later hl

/-- A name can be declared in a frame: the scope of a local frame declares it, and there it is not
bound yet. -/
structure Declarable (m : Memory) (f : Nat) (x : String) : Prop where
  lt : f < m.store.size
  new : f ≠ m.globals → ¬ m.store.Binds f x
  listed : ∀ n place, .opened f n place ∈ m.events → x ∈ n.declares

theorem Declarable.make {f : Nat} {x : String} (h : Declarable m f x) (n : Node) (place : Place) :
    Declarable (m.make n place) f x :=
  ⟨h.lt, h.new, fun n' place' he => h.listed n' place' (by simpa [Memory.make] using he)⟩

theorem Consistent.declare (h : Consistent P m) {f : Nat} {name : Token} {s : Stmt Binding}
    {v : Value} (hs : s.declared? = some name) (hd : Declarable m f name.lexeme)
    (hv : Known P (m.declare f name.lexeme s v) v) :
    Consistent P (m.declare f name.lexeme s v) := by
  have hl : Later (Just f name.lexeme) m (m.declare f name.lexeme s v) := later_declare _ _ _ _
  have hbinds := m.store.binds_define
  constructor
  case globals => simpa [Memory.declare] using h.globals
  case root => simpa [Memory.declare] using h.root
  case opened =>
    intro g n place he
    have he' : .opened g n place ∈ m.events := by simpa [Memory.declare] using he
    obtain ⟨hg, hne, hold⟩ := h.opened g n place he'
    refine ⟨by simpa [Memory.declare] using hg, hne, ?_⟩
    intro y hy
    rcases (hbinds g f y name.lexeme v).mp hy with hb | ⟨rfl, rfl, -⟩
    · exact hold y hb
    · exact hd.listed n place he'
  case framed =>
    intro g hg hne
    exact h.framed g (by simpa [Memory.declare] using hg) hne
  case once => exact h.once
  case bound =>
    intro g y hg
    have hold := h.bound g y hg
    change (m.store.define f name.lexeme v).Binds g y ↔ (g, y) ∈ (f, name.lexeme) ::
      definitions m.events
    rw [hbinds, hold, List.mem_cons, Prod.mk.injEq, or_comm]
    simp [hd.lt]
  case fresh =>
    change (((f, name.lexeme) :: definitions m.events).filter (·.1 ≠ m.globals)).Nodup
    by_cases hf : f = m.globals
    · simpa [hf] using h.fresh
    · have hnot : (f, name.lexeme) ∉ definitions m.events := by
        intro hmem
        exact hd.new hf ((h.bound f name.lexeme hf).mpr hmem)
      rw [List.filter_cons_of_pos (by simpa using hf), List.nodup_cons]
      exact ⟨fun hmem => hnot (List.mem_of_mem_filter hmem), h.fresh⟩
  case completed =>
    intro g t other he ht
    have he' : .completed g (.stmt t) ∈ (.completed f (.stmt s) :: m.events : List Event) := by
      simpa [Memory.declare] using he
    rcases List.mem_cons.mp he' with heq | he'
    · cases heq
      cases hs.symm.trans ht
      exact (hbinds f f name.lexeme name.lexeme v).mpr (.inr ⟨rfl, rfl, hd.lt⟩)
    · exact hl.binds g _ (h.completed g t other he' ht)
  case known =>
    intro g y w hw
    have hw' : (m.store.define f name.lexeme v).get? g y = some w := hw
    rw [Store.get?_define] at hw'
    by_cases hc : g = f ∧ y = name.lexeme ∧ f < m.store.size
    · rw [if_pos hc] at hw'
      cases hw'
      exact hv
    · rw [if_neg hc] at hw'
      exact (h.known g y w hw').later hl

section Enter

variable (n : Node) (place : Place) (parent : Nat) (bindings : List (String × Value))

theorem definitions_enter : definitions (m.enter n place parent bindings).events =
    (bindings.map fun b => (m.store.size, b.1)).reverse ++ definitions m.events := by
  have hnames :
      (bindings.map Prod.fst).filterMap (Event.definition? ∘ Event.defined m.store.size) =
        bindings.map fun b => (m.store.size, b.1) := by
    rw [List.filterMap_map]
    exact congrFun (@List.filterMap_eq_map _ _ fun b : String × Value => (m.store.size, b.1)) _
  simp only [definitions, Memory.enter, openingEvents, List.filterMap_append,
    List.filterMap_reverse, List.filterMap_map] at hnames ⊢
  rw [hnames]
  simp [Event.definition?]

theorem openings_enter : openings (m.enter n place parent bindings).events =
    m.store.size :: openings m.events := by
  have hnames :
      (bindings.map Prod.fst).filterMap (Event.frame? ∘ Event.defined m.store.size) = [] :=
    List.filterMap_eq_nil_iff.mpr fun _ _ => rfl
  simp only [openings, Memory.enter, openingEvents, List.filterMap_append,
    List.filterMap_reverse, List.filterMap_map] at hnames ⊢
  rw [hnames]
  simp [Event.frame?]

theorem mem_events_enter {e : Event} (hd : e.definition? = none) :
    e ∈ (m.enter n place parent bindings).events ↔
      e = .opened m.store.size n place ∨ e ∈ m.events := by
  have hopening : e ∈ openingEvents n place (bindings.map Prod.fst) m.store.size ↔
      e = .opened m.store.size n place := by
    constructor
    · intro he
      rcases mem_openingEvents he with ⟨x, -, rfl⟩ | he
      · cases hd
      · exact he
    · rintro rfl
      simp [openingEvents]
  exact List.mem_append.trans (or_congr hopening Iff.rfl)

theorem binds_enter (f : Nat) (x : String) : (m.enter n place parent bindings).store.Binds f x ↔
    m.store.Binds f x ∨ f = m.store.size ∧ x ∈ bindings.map Prod.fst := by
  change ((m.store.push _).defineAll _ _).Binds f x ↔ _
  rw [Store.binds_defineAll _ _ _ _ _ (by simp)]
  simp [Store.Binds]

theorem Consistent.enter (h : Consistent P m) {bindings : List (String × Value)}
    (hnodup : (bindings.map Prod.fst).Nodup) (hdecl : ∀ x ∈ bindings.map Prod.fst, x ∈ n.declares)
    (hv : ∀ v ∈ bindings.map Prod.snd, Known P m v) :
    Consistent P (m.enter n place parent bindings) := by
  have hl : Later Nothing m (m.enter n place parent bindings) := later_enter n place parent bindings
  have hsize : (m.enter n place parent bindings).store.size = m.store.size + 1 := by
    simp [Memory.enter]
  have hglobal : m.store.size ≠ m.globals := Nat.ne_of_gt h.globals
  -- nothing can be bound yet in a frame with the next free number
  have hunbound : ∀ x, ¬ m.store.Binds m.store.size x := by
    intro x hb
    exact Nat.lt_irrefl _ (m.store.lt_size_of_binds _ x hb)
  constructor
  case globals =>
    rw [hsize]
    exact Nat.lt_succ_of_lt h.globals
  case root => exact (hl.parents _ h.globals).trans h.root
  case opened =>
    intro f n' place' he
    rw [hsize]
    rcases (mem_events_enter n place parent bindings rfl).mp he with heq | he
    · cases heq
      refine ⟨Nat.lt_succ_self _, hglobal, ?_⟩
      intro x hx
      rcases (binds_enter n place parent bindings _ x).mp hx with hb | ⟨-, hmem⟩
      · exact absurd hb (hunbound x)
      · exact hdecl x hmem
    · obtain ⟨hlt, hne, hold⟩ := h.opened f n' place' he
      refine ⟨Nat.lt_succ_of_lt hlt, hne, ?_⟩
      intro x hx
      rcases (binds_enter n place parent bindings f x).mp hx with hb | ⟨rfl, -⟩
      · exact hold x hb
      · exact absurd hlt (Nat.lt_irrefl _)
  case framed =>
    intro f hf hne
    rw [hsize] at hf
    rw [openings_enter, List.mem_cons]
    rcases Nat.lt_succ_iff_lt_or_eq.mp hf with hlt | rfl
    · exact .inr (h.framed f hlt hne)
    · exact .inl rfl
  case once =>
    rw [openings_enter, List.nodup_cons]
    refine ⟨?_, h.once⟩
    intro hmem
    obtain ⟨n', place', he⟩ := mem_openings hmem
    exact Nat.lt_irrefl _ (h.opened _ n' place' he).1
  case bound =>
    intro f x hf
    rw [binds_enter, definitions_enter, List.mem_append, h.bound f x hf]
    simp [or_comm, eq_comm, and_comm]
  case fresh =>
    have hmap : ((bindings.map fun b => (m.store.size, b.1)).reverse).Nodup := by
      have hinj : Function.Injective fun x : String => (m.store.size, x) := by
        intro x y hxy
        exact (Prod.mk.inj hxy).2
      have hpairs := hnodup.map hinj
      rw [List.map_map] at hpairs
      exact List.nodup_reverse.mpr hpairs
    rw [definitions_enter, List.filter_append]
    apply List.Nodup.append (hmap.filter _) h.fresh
    intro d hd hd'
    have hnew := List.mem_of_mem_filter hd
    obtain ⟨b, -, rfl⟩ := List.mem_map.mp (List.mem_reverse.mp hnew)
    have hold := (h.bound m.store.size b.1 hglobal).mpr (List.mem_of_mem_filter hd')
    exact hunbound _ hold
  case completed =>
    intro f s name he hs
    rcases (mem_events_enter n place parent bindings rfl).mp he with heq | he
    · cases heq
    · exact hl.binds f _ (h.completed f s name he hs)
  case known =>
    intro f x v hx
    rcases Store.get?_defineAll _ _ _ _ _ hx with hold | hnew
    · rw [Store.get?_push] at hold
      exact (h.known f x v hold).later hl
    · exact (hv v hnew).later hl

end Enter

end Consistency

end ScriptLang.Chronicle
