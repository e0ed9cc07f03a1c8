import ScriptLang.Proofs.Chronicle.Standing

namespace ScriptLang.Chronicle

open Scope

/-- One memory comes after another. Frames that are not global bind no other names than before,
except for those in `D`. -/
structure Later (D : Nat → String → Prop) (m n : Memory) : Prop where
  events : m.events <:+ n.events
  size : m.store.size ≤ n.store.size
  parents : ∀ f, f < m.store.size → n.store.parent? f = m.store.parent? f
  binds : ∀ f x, m.store.Binds f x → n.store.Binds f x
  kept : ∀ f x, f < m.store.size → f ≠ m.globals → n.store.Binds f x → m.store.Binds f x ∨ D f x
  globals : n.globals = m.globals
  nextId : m.nextId ≤ n.nextId
  origins : ∀ id, id < m.nextId → origin? n.events id = origin? m.events id

section Later

variable {D E : Nat → String → Prop} {m n k : Memory}

theorem Later.refl (D : Nat → String → Prop) (m : Memory) : Later D m m where
  events := List.suffix_refl _
  size := Nat.le_refl _
  parents _ _ := rfl
  binds _ _ h := h
  kept _ _ _ _ h := .inl h
  globals := rfl
  nextId := Nat.le_refl _
  origins _ _ := rfl

theorem Later.trans (h : Later D m n) (h' : Later D n k) : Later D m k where
  events := h.events.trans h'.events
  size := Nat.le_trans h.size h'.size
  parents f hf := (h'.parents f (Nat.lt_of_lt_of_le hf h.size)).trans (h.parents f hf)
  binds f x hb := h'.binds f x (h.binds f x hb)
  kept f x hf hg hb := by
    rcases h'.kept f x (Nat.lt_of_lt_of_le hf h.size) (by rwa [h.globals]) hb with hb | hD
    · exact h.kept f x hf hg hb
    · exact .inr hD
  globals := h'.globals.trans h.globals
  nextId := Nat.le_trans h.nextId h'.nextId
  origins id hid :=
    (h'.origins id (Nat.lt_of_lt_of_le hid h.nextId)).trans (h.origins id hid)

theorem Later.weaken (h : Later D m n)
    (hD : ∀ f x, f < m.store.size → f ≠ m.globals → D f x → E f x) : Later E m n where
  events := h.events
  size := h.size
  parents := h.parents
  binds := h.binds
  kept f x hf hg hb := (h.kept f x hf hg hb).imp_right (hD f x hf hg)
  globals := h.globals
  nextId := h.nextId
  origins := h.origins

variable {program : List (Stmt Binding)} {around : List Node} {frames : List Nat}

theorem Instance.later {node : Node} {f : Nat} {names : Names} (hl : Later D m n)
    (h : Instance m program node around f frames names) :
    Instance n program node around f frames names where
  opened := hl.events.subset h.opened
  parent := by
    rw [hl.parents f (m.store.lt_size_of_parent? f h.parent), hl.globals]
    exact h.parent
  ready x hx := hl.binds f x (h.ready x hx)
  declared := h.declared
  settled := h.settled

theorem Stands.later {S : Stack} (hl : Later D m n) (h : Stands m program around frames S) :
    Stands n program around frames S := by
  induction h with
  | top => exact .top
  | plain hn _ ih => exact .plain hn ih
  | initializer hp _ ih => exact .initializer hp ih
  | scope hn ho hi _ ih => exact .scope hn ho (hi.later hl) ih

end Later

section Consistency

variable (P : List (Stmt Binding) → Prop)

structure Made (m : Memory) (c : Closure) (n : Node) (place : Place) (S : Stack) : Prop where
  scope : n.scope? = some (c.params, c.body)
  frame : c.frame = place.frames.headD m.globals
  program : P place.program
  nested : Nested place.program place.around n
  stands : Stands m place.program place.around place.frames S
  resolved : FunctionScoped S c.params c.body
  outer : HeadSettled S ∨ n.isLambda

def Known (m : Memory) : Value → Prop
  | .closure c => c.id < m.nextId ∧
    ∃ n place S, origin? m.events c.id = some (n, place) ∧ Made P m c n place S
  | _ => True

/-- Every frame but that of global names was made for one scope and binds what the scope declares,
each name once; all functions are known. -/
structure Consistent (m : Memory) : Prop where
  globals : m.globals < m.store.size
  root : m.store.parent? m.globals = none
  opened : ∀ f n place, .opened f n place ∈ m.events →
    f < m.store.size ∧ f ≠ m.globals ∧ ∀ x, m.store.Binds f x → x ∈ n.declares
  framed : ∀ f, f < m.store.size → f ≠ m.globals → f ∈ openings m.events
  once : (openings m.events).Nodup
  bound : ∀ f x, f ≠ m.globals → (m.store.Binds f x ↔ (f, x) ∈ definitions m.events)
  fresh : ((definitions m.events).filter (·.1 ≠ m.globals)).Nodup
  completed : ∀ f s name, .completed f (.stmt s) ∈ m.events → s.declared? = some name →
    m.store.Binds f name.lexeme
  known : ∀ f x v, m.store.get? f x = some v → Known P m v

variable {P} {D : Nat → String → Prop} {m n : Memory}

theorem Made.later {c : Closure} {node : Node} {place : Place} {S : Stack} (hl : Later D m n)
    (h : Made P m c node place S) : Made P n c node place S where
  scope := h.scope
  frame := by rw [hl.globals, h.frame]
  program := h.program
  nested := h.nested
  stands := h.stands.later hl
  resolved := h.resolved
  outer := h.outer

theorem Known.later {v : Value} (hl : Later D m n) (h : Known P m v) : Known P n v := by
  cases v with
  | closure c =>
    obtain ⟨hid, node, place, S, horigin, hmade⟩ := h
    refine ⟨Nat.lt_of_lt_of_le hid hl.nextId, node, place, S, ?_, hmade.later hl⟩
    rw [hl.origins c.id hid, horigin]
  | _ => exact trivial

theorem mem_openings {events : List Event} {f : Nat} (h : f ∈ openings events) :
    ∃ n place, .opened f n place ∈ events := by
  obtain ⟨e, he, hf⟩ := List.mem_filterMap.mp h
  cases e with
  | opened g n place =>
    cases hf
    exact ⟨n, place, he⟩
  | _ => cases hf

theorem openings_of_mem {events : List Event} {f : Nat} {n : Node} {place : Place}
    (h : .opened f n place ∈ events) : f ∈ openings events :=
  List.mem_filterMap.mpr ⟨_, h, rfl⟩

theorem opened_unique {events : List Event} (h : (openings events).Nodup) {f : Nat} {n n' : Node}
    {place place' : Place} (hn : .opened f n place ∈ events)
    (hn' : .opened f n' place' ∈ events) : n = n' ∧ place = place' := by
  induction events with
  | nil => simp at hn
  | cons e events ih =>
    have htail : (openings events).Nodup := by
      cases e with
      | opened g _ _ => exact (List.nodup_cons.mp h).2
      | _ => exact h
    rcases List.mem_cons.mp hn with rfl | hold
    · rcases List.mem_cons.mp hn' with he | hold'
      · cases he
        exact ⟨rfl, rfl⟩
      · exact absurd (openings_of_mem hold') (List.nodup_cons.mp h).1
    · rcases List.mem_cons.mp hn' with rfl | hold'
      · exact absurd (openings_of_mem hold) (List.nodup_cons.mp h).1
      · exact ih htail hold hold'

end Consistency

end ScriptLang.Chronicle
