import ScriptLang.Syntax.Program
import Mathlib.Data.List.Infix

namespace ScriptLang.Parsing

open Syntax Syntax.Reader

variable {α β : Type}

structure Later (s t : State) : Prop where
  rest : t.rest <:+ s.rest
  loopDepth : t.loopDepth = s.loopDepth
  errors : s.errors <+: t.errors

theorem Later.refl (s : State) : Later s s :=
  ⟨List.suffix_refl _, rfl, List.prefix_refl _⟩

theorem Later.trans {s t u : State} (h : Later s t) (k : Later t u) : Later s u :=
  ⟨k.rest.trans h.rest, k.loopDepth.trans h.loopDepth, h.errors.trans k.errors⟩

theorem Later.length_le {s t : State} (h : Later s t) : t.rest.length ≤ s.rest.length :=
  h.rest.length_le

def Stays (n c : Nat) (s : State) : Outcome α → Prop
  | .done _ t => Later s t ∧ t.rest.length + c ≤ s.rest.length
  | .failed _ t => Later s t
  | .exhausted => n ≤ s.rest.length

/-- A reader only takes tokens off the front, keeps the errors recorded before and restores the
number of open loops. It takes `c` tokens when it succeeds, and has enough depth for lists shorter
than `n`. -/
def Tame (n c : Nat) (p : Reader α) : Prop :=
  ∀ eof s, Stays n c s (p eof s)

def TameAhead (n c : Nat) (p : Reader α) : Prop :=
  ∀ eof s, s.rest ≠ [] → Stays n c s (p eof s)

theorem Stays.mono {m n c d : Nat} {s : State} {o : Outcome α} (h : Stays m c s o)
    (hn : n ≤ m) (hc : d ≤ c) : Stays n d s o := by
  cases o with
  | done a t => exact ⟨h.1, by have := h.2; omega⟩
  | failed e t => exact h
  | exhausted => exact hn.trans h

theorem Stays.bind {m n c d e : Nat} {s : State} {p : Reader α} {f : α → Reader β} {eof : Token}
    (hp : Stays m c s (p eof s)) (hf : ∀ a t, p eof s = .done a t → Stays n d t (f a eof t))
    (hm : m ≤ n + c) (he : e ≤ c + d) : Stays m e s ((p >>= f) eof s) := by
  rw [bind_apply]
  cases ho : p eof s with
  | failed err t =>
    rw [ho] at hp
    exact hp
  | exhausted =>
    rw [ho] at hp
    exact hp
  | done a t =>
    rw [ho] at hp
    obtain ⟨hl, hc⟩ := hp
    have hk := hf a t ho
    simp only
    cases ht : f a eof t with
    | done b u =>
      rw [ht] at hk
      exact ⟨hl.trans hk.1, by have := hk.2; omega⟩
    | failed err u =>
      rw [ht] at hk
      exact hl.trans hk
    | exhausted =>
      rw [ht] at hk
      have hk' : n ≤ t.rest.length := hk
      change m ≤ s.rest.length
      omega

theorem Tame.mono {m n c d : Nat} {p : Reader α} (h : Tame m c p) (hn : n ≤ m) (hc : d ≤ c) :
    Tame n d p :=
  fun eof s => (h eof s).mono hn hc

theorem TameAhead.mono {m n c d : Nat} {p : Reader α} (h : TameAhead m c p)
    (hn : n ≤ m) (hc : d ≤ c) : TameAhead n d p :=
  fun eof s hs => (h eof s hs).mono hn hc

theorem Tame.bind {m n c d e : Nat} {p : Reader α} {f : α → Reader β} (hp : Tame m c p)
    (hm : m ≤ n + c) (he : e ≤ c + d) (hf : ∀ a, Tame n d (f a)) :
    Tame m e (p >>= f) :=
  fun eof s => (hp eof s).bind (fun a t _ => hf a eof t) hm he

theorem TameAhead.bind {m n c d e : Nat} {p : Reader α} {f : α → Reader β} (hp : TameAhead m c p)
    (hm : m ≤ n + c) (he : e ≤ c + d) (hf : ∀ a, Tame n d (f a)) :
    TameAhead m e (p >>= f) :=
  fun eof s hs => (hp eof s hs).bind (fun a t _ => hf a eof t) hm he

theorem Tame.ahead {n c : Nat} {p : Reader α} (h : Tame n c p) : TameAhead n c p :=
  fun eof s _ => h eof s

section Primitive

variable (n : Nat)

theorem pure_tame (a : α) : Tame n 0 (pure a : Reader α) :=
  fun _ s => ⟨.refl s, Nat.le_refl _⟩

theorem exhausted_tame (c : Nat) : Tame 0 c (exhausted : Reader α) :=
  fun _ _ => Nat.zero_le _

theorem fail_tame (c : Nat) (fault : Fault) (t : Token) : Tame n c (fail fault t : Reader α) :=
  fun _ s => .refl s

theorem peek_tame : Tame n 0 peek := fun _ s => ⟨.refl s, Nat.le_refl _⟩

theorem check_tame (kind : Kind) : Tame n 0 (check kind) := fun _ s => ⟨.refl s, Nat.le_refl _⟩

theorem loopDepth_tame : Tame n 0 loopDepth := fun _ s => ⟨.refl s, Nat.le_refl _⟩

theorem next_tame : TameAhead n 1 next := by
  intro eof s hs
  cases hr : s.rest with
  | nil => exact absurd hr hs
  | cons t ts =>
    simp only [next, hr]
    exact ⟨⟨by simp [hr], rfl, List.prefix_refl _⟩, by simp [hr]⟩

theorem record_tame (fault : Fault) (t : Token) : Tame n 0 (record fault t) :=
  fun _ _ => ⟨⟨List.suffix_refl _, rfl, List.prefix_append _ _⟩, Nat.le_refl _⟩

theorem recordIf_tame (b : Bool) (fault : Fault) : Tame n 0 (recordIf b fault) := by
  cases b with
  | false => exact pure_tame n ()
  | true => exact (peek_tame n).bind (by omega) (by omega) fun t => record_tame n fault t

theorem acceptAny_bind_tame {n c : Nat} {kinds : List Kind} {f : Option Token → Reader β}
    (hn : Tame n c (f none)) (hs : ∀ t, Tame (n - 1) (c - 1) (f (some t))) :
    Tame n c (acceptAny kinds >>= f) := by
  intro eof s
  rw [bind_apply]
  cases hr : s.rest with
  | nil =>
    simp only [acceptAny, hr]
    exact hn eof s
  | cons t ts =>
    by_cases hk : t.kind ∈ kinds
    · have ha : acceptAny kinds eof s = .done (some t) { s with rest := ts } := by
        simp [acceptAny, hr, hk]
      have hl : Stays n 1 s (acceptAny kinds eof s) := by
        rw [ha]
        exact ⟨⟨by simp [hr], rfl, List.prefix_refl _⟩, by simp [hr]⟩
      have hb := hl.bind (f := f) (n := n - 1) (d := c - 1) (e := c)
        (fun a u hu => by
          rw [ha] at hu
          cases hu
          exact hs t eof _) (by omega) (by omega)
      rwa [bind_apply] at hb
    · simp only [acceptAny, hr, hk, if_false]
      exact hn eof s

theorem accept_bind_tame {n c : Nat} {kind : Kind} {f : Option Token → Reader β}
    (hn : Tame n c (f none)) (hs : ∀ t, Tame (n - 1) (c - 1) (f (some t))) :
    Tame n c (accept kind >>= f) :=
  acceptAny_bind_tame hn hs

theorem expect_tame (kind : Kind) (fault : Fault) : Tame n 1 (expect kind fault) := by
  refine accept_bind_tame ?_ fun t => pure_tame _ t
  exact (peek_tame n).bind (by omega) (by omega) fun t => fail_tame n 1 fault t

/-- A choice by the next kind: at the end of the list, and where a token is left. -/
theorem peekKind_bind_tame {n c : Nat} {f : Option Kind → Reader β} (hn : Tame n c (f none))
    (hs : ∀ k, TameAhead n c (f (some k))) : Tame n c (peekKind >>= f) := by
  intro eof s
  rw [bind_apply]
  cases hr : s.rest with
  | nil =>
    simp only [peekKind, hr, List.head?_nil, Option.map_none]
    exact hn eof s
  | cons t ts =>
    simp only [peekKind, hr, List.head?_cons, Option.map_some]
    exact hs t.kind eof s (by simp [hr])

end Primitive

theorem leaving_stays {n c : Nat} {p : Reader α} {f : State → State} {eof : Token} {s s' : State}
    (h : Stays n c s' (p eof s')) (hr : s'.rest = s.rest) (he : s'.errors = s.errors)
    (hf : ∀ t, (f t).rest = t.rest ∧ (f t).errors = t.errors)
    (hd : ∀ t, t.loopDepth = s'.loopDepth → (f t).loopDepth = s.loopDepth) :
    Stays n c s (leaving p f eof s') := by
  unfold leaving
  cases ho : p eof s' with
  | done a t =>
    rw [ho] at h
    obtain ⟨hl, hc⟩ := h
    refine ⟨⟨?_, hd t hl.loopDepth, ?_⟩, ?_⟩
    · simpa only [(hf t).1, hr] using hl.rest
    · simpa only [(hf t).2, he] using hl.errors
    · simpa only [(hf t).1, hr] using hc
  | failed e t =>
    rw [ho] at h
    refine ⟨?_, hd t h.loopDepth, ?_⟩
    · simpa only [(hf t).1, hr] using h.rest
    · simpa only [(hf t).2, he] using h.errors
  | exhausted =>
    rw [ho] at h
    have hk : n ≤ s'.rest.length := h
    rwa [hr] at hk

theorem insideLoop_tame {n c : Nat} {p : Reader α} (h : Tame n c p) : Tame n c (insideLoop p) :=
  fun eof _ => leaving_stays (h eof _) rfl rfl (fun _ => ⟨rfl, rfl⟩) (fun t ht => by simp [ht])

theorem outsideLoops_tame {n c : Nat} {p : Reader α} (h : Tame n c p) :
    Tame n c (outsideLoops p) :=
  fun eof _ => leaving_stays (h eof _) rfl rfl (fun _ => ⟨rfl, rfl⟩) (fun _ _ => rfl)

end ScriptLang.Parsing
