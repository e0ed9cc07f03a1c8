import ScriptLang.Proofs.Desugaring.Simulation
import ScriptLang.Proofs.Running.Discipline

namespace ScriptLang

open Evaluation

/-- Every number of a frame that the machine keeps is that of a frame made before. -/
structure Machine.Closed (m : Machine) : Prop where
  globals : m.globals < m.store.size
  current : m.current < m.store.size
  older : ∀ {f p : Nat}, m.store.parent? f = some p → p < f
  closures : ∀ {f : Nat} {x : String} {c : Closure}, m.store.get? f x = some (.closure c) →
    c.frame < m.store.size

theorem Machine.Closed.push {m : Machine} (h : m.Closed) :
    Machine.Closed { m with store := m.store.push (some m.current) } := by
  have hgrown : m.store.size < (m.store.push (some m.current)).size := by
    rw [Store.size_push]
    exact Nat.lt_succ_self _
  refine ⟨Nat.lt_trans h.globals hgrown, Nat.lt_trans h.current hgrown, fun {f p} hp => ?_,
    fun {f x c} hv => ?_⟩
  · rw [Store.parent?_push] at hp
    split at hp
    · next hf =>
      cases hp
      exact hf ▸ h.current
    · exact h.older hp
  · rw [Store.get?_push] at hv
    exact Nat.lt_trans (h.closures hv) hgrown

namespace Desugaring

def selves (s : Store Value) : World :=
  (List.range s.size).map fun f => ⟨s.parent? f, f, true⟩

theorem getElem?_selves {s : Store Value} {f : Nat} {e : Entry} :
    (selves s)[f]? = some e ↔ f < s.size ∧ e = ⟨s.parent? f, f, true⟩ := by
  unfold selves
  rw [List.getElem?_map]
  by_cases h : f < s.size
  · rw [List.getElem?_range h]
    simp [h, eq_comm]
  · rw [List.getElem?_eq_none (by rw [List.length_range]; omega)]
    simp [h]

theorem frame?_selves {s : Store Value} {f : Nat} (h : f < s.size) :
    frame? (selves s) f = some f :=
  Option.map_eq_some_iff.mpr ⟨_, getElem?_selves.mpr ⟨h, rfl⟩, rfl⟩

theorem alike_self {s : Store Value} {v : Value}
    (h : ∀ c, v = .closure c → c.frame < s.size) : Alike s.size (selves s) v v := by
  cases v with
  | closure c =>
    have hbody : c.body = Stmt.allSkip (reach [true]) c.body := by
      change c.body = Stmt.allSkip (inward id) c.body
      rw [inward_id, Stmt.allSkip_id]
    exact .closure ⟨rfl, rfl, rfl, ⟨[], hbody, .start (h c rfl)⟩, frame?_selves (h c rfl)⟩
  | _ => exact .plain fun _ => nofun

variable {m : Machine}

theorem paired_selves (h : m.Closed) :
    Paired m.store.size (selves m.store) m.store m.store where
  size := by rw [selves, List.length_map, List.length_range]
  before f hf := ⟨_, getElem?_selves.mpr ⟨hf, rfl⟩⟩
  older he hp := by
    obtain ⟨-, rfl⟩ := getElem?_selves.mp he
    exact h.older hp
  parent he := by
    obtain ⟨-, rfl⟩ := getElem?_selves.mp he
    rfl
  extra he hcopy := by
    obtain ⟨-, rfl⟩ := getElem?_selves.mp he
    cases hcopy
  copy {f e} he _ := by
    obtain ⟨hlt, rfl⟩ := getElem?_selves.mp he
    refine ⟨hlt, ?_, fun x => ?_⟩
    · cases hp : m.store.parent? f with
      | none => rfl
      | some p => exact (frame?_selves (Nat.lt_trans (h.older hp) hlt)).symm
    · cases hv : m.store.get? f x with
      | none => exact .none
      | some v => exact .some (alike_self fun c hc => h.closures (hc ▸ hv))
  unique he he' _ _ hframe := by
    obtain ⟨-, rfl⟩ := getElem?_selves.mp he
    obtain ⟨-, rfl⟩ := getElem?_selves.mp he'
    exact hframe
  onto r hr := ⟨r, _, getElem?_selves.mpr ⟨hr, rfl⟩, rfl, rfl⟩

theorem related_selves (h : m.Closed) : Related m.store.size (selves m.store) m m :=
  ⟨paired_selves h, rfl, h.globals, rfl, rfl, rfl⟩

theorem stands_selves (h : m.Closed) : Stands m.store.size (selves m.store) [] m m :=
  ⟨.start h.current, frame?_selves h.current⟩

theorem evaluate_follows_itself (fuel base : Nat) (w : World) (e : Expr Binding) :
    Follows base w [] (Alike base) (evaluate fuel e) (evaluate fuel e) := by
  have h := (evaluate_execute_follow base fuel).1 w [] e
  rwa [reach, e.skip_id] at h

theorem execute_follows_itself (fuel base : Nat) (w : World) (s : Stmt Binding) :
    Follows base w [] (AlikeFlows base) (execute fuel s) (execute fuel s) := by
  have h := (evaluate_execute_follow base fuel).2 w [] s nofun
  rwa [reach, s.skip_id] at h

section Ends

/-- The same end of two runs that began on one machine: the same way to finish or the same error,
the same output, all frames that were there before with bindings that are alike, and both runs back
in the frame where they began. -/
def SameEnd (m : Machine) :
    EStateM.Result Stop Machine Flow → EStateM.Result Stop Machine Flow → Prop :=
  Ends m.store.size (selves m.store) m m (AlikeFlows m.store.size)

theorem SameEnd.seen {r r' : EStateM.Result Stop Machine Flow} (h : SameEnd m r r') :
    (Running.ending r).sink = (Running.ending r').sink ∧
      (Running.ending r).current = m.current ∧ (Running.ending r').current = m.current ∧
      ∃ w, ∀ f < m.store.size, ∀ x, Option.Rel (Alike m.store.size w)
        ((Running.ending r).store.get? f x) ((Running.ending r').store.get? f x) := by
  cases h with
  | ok hpasses _ | error hpasses _ =>
    obtain ⟨-, hrelated, hleft, hright⟩ := hpasses
    exact ⟨hrelated.sink, hleft, hright, _, fun f hf =>
      hrelated.store.get? (hrelated.store.copies_before hf)⟩

/-- Nothing that is executed after the same end tells the two machines apart. -/
theorem SameEnd.goes_on (hm : m.Closed) {flow flow' : Flow} {n n' : Machine}
    (h : SameEnd m (.ok flow n) (.ok flow' n')) (fuel : Nat) (s : Stmt Binding) :
    ∃ w, Ends m.store.size w n n' (AlikeFlows m.store.size) (execute fuel s n)
      (execute fuel s n') := by
  cases h with
  | @ok w _ _ _ _ hpasses _ =>
    exact ⟨w, execute_follows_itself fuel m.store.size w s (List.prefix_refl _) hpasses.related
      (hpasses.stands (stands_selves hm))⟩

end Ends

section Reachable

variable {base : Nat} {w : World}

theorem Related.base_le {m n : Machine} (h : Related base w m n) : base ≤ m.store.size := by
  cases base with
  | zero => exact Nat.zero_le _
  | succ b =>
    obtain ⟨parent, he⟩ := h.store.before b (Nat.lt_succ_self b)
    exact h.store.lt_size he

theorem Paired.entry {s t : Store Value} (h : Paired base w s t) {f : Nat} (hf : f < s.size) :
    ∃ e, w[f]? = some e :=
  ⟨_, List.getElem?_eq_getElem (h.size ▸ hf)⟩

theorem Related.closed {m n : Machine} (h : Related base w m n) (hcurrent : m.current < base) :
    m.Closed where
  globals := Nat.lt_of_lt_of_le h.globals_lt h.base_le
  current := Nat.lt_of_lt_of_le hcurrent h.base_le
  older {f p} hp := by
    obtain ⟨e, he⟩ := h.store.entry (m.store.lt_size_of_parent? f hp)
    exact h.store.older he ((h.store.parent he).symm.trans hp)
  closures {f x c} hv := by
    obtain ⟨e, he⟩ := h.store.entry (m.store.lt_size_of_binds f x (by rw [Store.Binds, hv]; rfl))
    cases hcopy : e.copy with
    | false =>
      have hnone := (h.store.extra he hcopy).1 x
      rw [hv] at hnone
      cases hnone
    | true =>
      have hget := (h.store.copy he hcopy).2.2 x
      rw [hv] at hget
      generalize n.store.get? e.frame x = o at hget
      cases hget with
      | some hlike =>
        cases hlike with
        | plain hp => exact absurd rfl (hp c)
        | closure hc => exact h.store.size ▸ lt_length_of_frame? hc.frame

/-- A computation that does the same among any frames keeps machines closed. -/
theorem Follows.closed {α β : Type} {A : Nat → World → α → β → Prop} {p : Run α} {q : Run β}
    (h : ∀ base w, Follows base w [] (A base) p q) (hm : m.Closed) :
    (Running.ending (p m)).Closed := by
  have hends := h m.store.size (selves m.store) (List.prefix_refl _) (related_selves hm)
    (stands_selves hm)
  generalize p m = r at hends
  generalize q m = r' at hends
  cases hends with
  | ok hpasses ha => exact hpasses.related.closed (hpasses.left ▸ hm.current)
  | error hpasses hstop => exact hpasses.related.closed (hpasses.left ▸ hm.current)

theorem executeProgram_follows_itself (fuel base : Nat) (w : World) (ss : List (Stmt Binding)) :
    Follows base w [] (fun _ _ _ => True) (executeProgram fuel ss) (executeProgram fuel ss) := by
  induction ss generalizing w with
  | nil => exact Follows.pure fun _ => trivial
  | cons s ss ih => exact (execute_follows_itself fuel base w s).bind fun _ _ => ih _

theorem interpret_closed (fuel : Nat) (program : List (Stmt Binding)) (hm : m.Closed) :
    (Running.ending (interpret fuel program m)).Closed := by
  have h := Follows.closed (A := fun _ _ _ _ => True)
    (fun base w => executeProgram_follows_itself fuel base w program) hm
  unfold interpret finish
  cases hrun : executeProgram fuel program m with
  | ok u n =>
    rw [hrun] at h
    dsimp only
    cases n.sink.flushFails with
    | true => exact h
    | false => exact h
  | error stop n =>
    rw [hrun] at h
    exact ⟨h.globals, h.globals, h.older, h.closures⟩

theorem runAll_closed (units : List (Nat × String)) (hm : m.Closed) :
    (Session.runAll units m).2.Closed := by
  induction units generalizing m with
  | nil => exact hm
  | cons u units ih =>
    apply ih
    unfold Session.run
    cases Session.compile u.2 with
    | error diagnostics => exact hm
    | ok program =>
      have h := interpret_closed u.1 program hm
      dsimp only
      generalize interpret u.1 program m = r at h
      cases r with
      | ok u n => exact h
      | error stop n => exact h

theorem start_closed (natives : List Native) (sink : Sink) :
    (Machine.start natives sink).Closed := by
  have hempty : Machine.Closed ⟨Store.empty.push none, 0, 0, 0, 0, sink⟩ := by
    refine ⟨Nat.zero_lt_one, Nat.zero_lt_one, fun {f p} hp => ?_, fun {f x c} hv => ?_⟩
    · rw [Store.parent?_push] at hp
      split at hp
      · cases hp
      · simp [Store.empty, Store.parent?] at hp
    · rw [Store.get?_push] at hv
      simp [Store.empty, Store.get?] at hv
  obtain ⟨hrelated, hcurrent, -⟩ := (related_selves hempty).defineNatives natives
  exact hrelated.closed (hcurrent ▸ Nat.zero_lt_one)

end Reachable

end Desugaring

end ScriptLang
