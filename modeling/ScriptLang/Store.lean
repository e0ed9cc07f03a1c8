namespace ScriptLang

structure Frame (α : Type) where
  parent : Option Nat
  bindings : List (String × α)
deriving Repr, DecidableEq

namespace Frame

variable {α : Type}

def get? (f : Frame α) (name : String) : Option α :=
  f.bindings.lookup name

def insert (name : String) (value : α) : List (String × α) → List (String × α)
  | [] => [(name, value)]
  | (n, v) :: rest => if n = name then (n, value) :: rest else (n, v) :: insert name value rest

def define (f : Frame α) (name : String) (value : α) : Frame α :=
  { f with bindings := insert name value f.bindings }

theorem lookup_insert (name other : String) (value : α) (bs : List (String × α)) :
    (insert name value bs).lookup other = if other = name then some value else bs.lookup other := by
  induction bs with
  | nil =>
    by_cases h : other = name
    · simp [insert, h]
    · simp [insert, List.lookup_cons, beq_eq_false_iff_ne.mpr h, h]
  | cons b bs ih =>
    obtain ⟨n, v⟩ := b
    by_cases hn : n = name
    · subst hn
      by_cases h : other = n
      · simp [insert, h]
      · simp [insert, List.lookup_cons, beq_eq_false_iff_ne.mpr h, h]
    · by_cases h : other = n
      · subst h
        simp [insert, hn]
      · simp [insert, List.lookup_cons, hn, beq_eq_false_iff_ne.mpr h, ih]

theorem get?_define (f : Frame α) (name other : String) (value : α) :
    (f.define name value).get? other = if other = name then some value else f.get? other :=
  lookup_insert name other value f.bindings

end Frame

structure Store (α : Type) where
  frames : Array (Frame α)
deriving Repr, DecidableEq

namespace Store

variable {α : Type}

def empty : Store α := ⟨#[]⟩

def size (s : Store α) : Nat := s.frames.size

/-- A new frame without bindings, numbered `s.size`. -/
def push (s : Store α) (parent : Option Nat) : Store α :=
  ⟨s.frames.push ⟨parent, []⟩⟩

def parent? (s : Store α) (frame : Nat) : Option Nat :=
  s.frames[frame]?.bind Frame.parent

def ancestor? (s : Store α) (frame : Nat) : (distance : Nat) → Option Nat
  | 0 => some frame
  | distance + 1 =>
    match s.parent? frame with
    | some parent => s.ancestor? parent distance
    | none => none

def get? (s : Store α) (frame : Nat) (name : String) : Option α :=
  s.frames[frame]?.bind (Frame.get? · name)

def define (s : Store α) (frame : Nat) (name : String) (value : α) : Store α :=
  ⟨s.frames.modify frame (Frame.define · name value)⟩

/-- Changes the value of a name that is bound in a frame, and tells whether it is. -/
def assign (s : Store α) (frame : Nat) (name : String) (value : α) : Bool × Store α :=
  if (s.get? frame name).isSome then (true, s.define frame name value) else (false, s)

def getAt? (s : Store α) (frame distance : Nat) (name : String) : Option α :=
  match s.ancestor? frame distance with
  | some target => s.get? target name
  | none => none

def assignAt (s : Store α) (frame distance : Nat) (name : String) (value : α) :
    Bool × Store α :=
  match s.ancestor? frame distance with
  | some target => s.assign target name value
  | none => (false, s)

end Store
end ScriptLang
