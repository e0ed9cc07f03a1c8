import ScriptLang.Proofs.Desugaring.Closed
import ScriptLang.Proofs.Running.Fuel

namespace ScriptLang.Desugaring

open Evaluation Scope
open Evaluation (bind_apply)
open Running (Prolongs RanOut evaluate_execute_prolong)

/-- Repeats a body, and what comes after it, as long as a test holds. A `break` ends the loop, a
`return` also what is around it, and both leave out what comes after the body. -/
def rounds (test : Run Value) (body : Run Flow) (next : Run Unit) : (bound : Nat) → Run Flow
  | 0 => throw .exhausted
  | bound + 1 => do
    let v ← test
    if v.holds then
      match ← body with
      | .normal => do
        next
        rounds test body next bound
      | .broken => pure .normal
      | .returned v => pure (.returned v)
    else pure .normal

/-- The clauses and the body of a `for`. -/
structure ForLoop (ρ : Type) where
  initial : Option (Stmt ρ)
  condition : Option (Expr ρ)
  increment : Option (Expr ρ)
  body : Stmt ρ

namespace ForLoop

/-- What the clauses and the body are read as. -/
def statement (l : ForLoop Unit) : Stmt Unit :=
  Syntax.forLoop l.initial l.condition l.increment l.body

def scopes (inFunction : Bool) (S : Stack) (l : ForLoop Unit) : Stack :=
  match l.initial with
  | none => S
  | some s => (s.resolve inFunction ([] :: S)).2.1

/-- Clauses and body with their names resolved where they stand. -/
def resolve (inFunction : Bool) (S : Stack) (l : ForLoop Unit) : ForLoop Binding where
  initial := l.initial.map fun s => (s.resolve inFunction ([] :: S)).1
  condition := l.condition.map fun e => (e.resolve (l.scopes inFunction S)).1
  increment := l.increment.map fun e => (e.resolve (l.scopes inFunction S)).1
  body := (l.body.resolve inFunction (l.scopes inFunction S)).1

variable (l : ForLoop Binding)

def test (ev : Evaluator) : Run Value :=
  match l.condition with
  | none => pure (.boolean true)
  | some e => ev e

def next (ev : Evaluator) : Run Unit :=
  match l.increment with
  | none => pure ()
  | some e => do
    let _ ← ev e
    pure ()

/-- The first clause, if there is one, in a new frame, and the rounds in the same frame. -/
def around (ex : Executor) (loop : Run Flow) : Run Flow :=
  match l.initial with
  | none => loop
  | some s => do
    let frame ← pushFrame (← get).current []
    inFrame frame do
      let _ ← ex s
      loop

def parts (testFuel bodyFuel nextFuel bound : Nat) : Run Flow :=
  rounds (l.test (evaluate testFuel)) (execute bodyFuel l.body) (l.next (evaluate nextFuel)) bound

def partsIn (frame fuel : Nat) : Run Flow :=
  rounds (inFrame frame (l.test (evaluate fuel))) (inFrame frame (execute fuel l.body))
    (inFrame frame (l.next (evaluate fuel))) fuel

def run (fuel : Nat) : Run Flow :=
  l.around (execute fuel) (l.parts fuel fuel fuel fuel)

/-- The machine on which the first clause is executed, or the rounds begin without one. -/
def entered (m : Machine) : Machine :=
  match l.initial with
  | none => m
  | some _ => { m with store := m.store.push (some m.current) }

def step : Stmt Binding :=
  match l.increment with
  | none => l.body
  | some e => .block [l.body.skip (reach [false]), .exprStmt (e.skip (reach [false]))]

def whileTree : Stmt Binding :=
  .whileStmt (l.condition.getD (.literal (.boolean true))) l.step

def tree : Stmt Binding :=
  match l.initial with
  | none => l.whileTree
  | some s => .block [s, l.whileTree]

end ForLoop

section Fuel

theorem rounds_prolongs {test test' : Run Value} {body body' : Run Flow} {next next' : Run Unit}
    (htest : Prolongs test test') (hbody : Prolongs body body') (hnext : Prolongs next next')
    {bound bound' : Nat} (h : bound ≤ bound') :
    Prolongs (rounds test body next bound) (rounds test' body' next' bound') := by
  induction bound generalizing bound' with
  | zero => exact Running.exhausted_prolongs _
  | succ bound ih =>
    obtain ⟨k, rfl⟩ := Nat.exists_eq_add_of_lt (Nat.lt_of_succ_le h)
    apply htest.bind
    intro v
    cases v.holds with
    | false => exact .refl _
    | true =>
      apply hbody.bind
      intro flow
      cases flow with
      | normal => exact hnext.bind fun _ => ih (by omega)
      | broken => exact .refl _
      | returned w => exact .refl _

variable (l : ForLoop Binding)

theorem test_prolongs {ev ev' : Evaluator} (h : ∀ e, Prolongs (ev e) (ev' e)) :
    Prolongs (l.test ev) (l.test ev') := by
  unfold ForLoop.test
  cases l.condition with
  | none => exact .refl _
  | some e => exact h e

theorem next_prolongs {ev ev' : Evaluator} (h : ∀ e, Prolongs (ev e) (ev' e)) :
    Prolongs (l.next ev) (l.next ev') := by
  unfold ForLoop.next
  cases l.increment with
  | none => exact .refl _
  | some e => exact (h e).bind fun _ => .refl _

theorem around_prolongs {ex ex' : Executor} {loop loop' : Run Flow}
    (h : ∀ s, Prolongs (ex s) (ex' s)) (hloop : Prolongs loop loop') :
    Prolongs (l.around ex loop) (l.around ex' loop') := by
  unfold ForLoop.around
  cases l.initial with
  | none => exact hloop
  | some s =>
    apply Prolongs.get
    intro m
    apply (Prolongs.refl _).bind
    intro frame
    exact ((h s).bind fun _ => hloop).inFrame frame

theorem parts_prolong {t t' b b' n n' bound bound' : Nat} (ht : t ≤ t') (hb : b ≤ b') (hn : n ≤ n')
    (hbound : bound ≤ bound') : Prolongs (l.parts t b n bound) (l.parts t' b' n' bound') :=
  rounds_prolongs (test_prolongs l (evaluate_execute_prolong ht).1)
    ((evaluate_execute_prolong hb).2 l.body) (next_prolongs l (evaluate_execute_prolong hn).1)
    hbound

end Fuel

section Frames

variable {α β : Type} {f : Nat}

def SameIn (f : Nat) (p q : Run α) : Prop :=
  ∀ m, m.current = f → p m = q m ∧ (Running.ending (p m)).current = f

theorem SameIn.pure (a : α) : SameIn f (pure a) (pure a) :=
  fun _ hm => ⟨rfl, hm⟩

theorem SameIn.bind {p q : Run α} {g h : α → Run β} (hp : SameIn f p q)
    (hg : ∀ a, SameIn f (g a) (h a)) : SameIn f (p >>= g) (q >>= h) := by
  intro m hm
  obtain ⟨heq, hcurrent⟩ := hp m hm
  rw [bind_apply, bind_apply, ← heq]
  cases hr : p m with
  | error stop n =>
    rw [hr] at hcurrent
    exact ⟨rfl, hcurrent⟩
  | ok a n =>
    rw [hr] at hcurrent
    exact hg a n hcurrent

theorem SameIn.inFrame {p : Run α} (hp : ∀ m, (Running.ending (p m)).current = m.current) :
    SameIn f p (inFrame f p) := by
  rintro m rfl
  have hcurrent := hp m
  refine ⟨?_, hcurrent⟩
  have hself : { m with current := m.current } = m := rfl
  unfold Evaluation.inFrame
  rw [hself]
  generalize p m = r at hcurrent ⊢
  cases r with
  | ok a n =>
    dsimp only
    rw [← hcurrent]
    rfl
  | error stop n =>
    dsimp only
    rw [← hcurrent]
    rfl

theorem SameIn.rounds {test test' : Run Value} {body body' : Run Flow} {next next' : Run Unit}
    (htest : SameIn f test test') (hbody : SameIn f body body') (hnext : SameIn f next next')
    (bound : Nat) :
    SameIn f (rounds test body next bound) (Desugaring.rounds test' body' next' bound) := by
  induction bound with
  | zero => exact fun m hm => ⟨rfl, hm⟩
  | succ bound ih =>
    apply htest.bind
    intro v
    cases v.holds with
    | false => exact SameIn.pure _
    | true =>
      apply hbody.bind
      intro flow
      cases flow with
      | normal => exact hnext.bind fun _ => ih
      | broken => exact SameIn.pure _
      | returned w => exact SameIn.pure _

theorem evaluate_stays (fuel : Nat) (e : Expr Binding) (m : Machine) :
    (Running.ending (evaluate fuel e m)).current = m.current := by
  have hroot : Running.AtHand [.expr e] m (.expr e) := Running.atHand_root (by simp)
  have hruns := (Running.evaluate_execute_conduct Running.atHand_hereditary fuel).1 e hroot
  exact hruns.restored.current

variable (l : ForLoop Binding)

theorem test_stays (fuel : Nat) (m : Machine) :
    (Running.ending (l.test (evaluate fuel) m)).current = m.current := by
  unfold ForLoop.test
  cases l.condition with
  | none => rfl
  | some e => exact evaluate_stays fuel e m

theorem next_stays (fuel : Nat) (m : Machine) :
    (Running.ending (l.next (evaluate fuel) m)).current = m.current := by
  unfold ForLoop.next
  cases l.increment with
  | none => rfl
  | some e =>
    have hstays := evaluate_stays fuel e m
    dsimp only
    rw [bind_apply]
    generalize evaluate fuel e m = r at hstays ⊢
    cases r with
    | ok v n => exact hstays
    | error stop n => exact hstays

/-- All rounds of a loop run in the frame in which the first one begins. -/
theorem rounds_share_frame (fuel : Nat) (m : Machine) :
    l.parts fuel fuel fuel fuel m = l.partsIn m.current fuel m := by
  have hbody : ∀ m, (Running.ending (execute fuel l.body m)).current = m.current :=
    fun m => (Running.execute_restores fuel l.body m).current
  have hsame := SameIn.rounds (f := m.current) (.inFrame (test_stays l fuel)) (.inFrame hbody)
    (.inFrame (next_stays l fuel)) fuel
  exact (hsame m rfl).1

end Frames

section Rounds

def once (body : Run Flow) (next : Run Unit) : Run Flow := do
  match ← body with
  | .normal => do
    next
    pure .normal
  | flow => pure flow

theorem once_apply (body : Run Flow) (next : Run Unit) (m : Machine) :
    once body next m =
      match body m with
      | .ok .normal n => (next >>= fun _ => pure .normal) n
      | r => r := by
  unfold once
  rw [bind_apply]
  cases body m with
  | ok flow n => cases flow <;> rfl
  | error stop n => rfl

theorem once_pure (body : Run Flow) : once body (pure ()) = body := by
  funext m
  rw [once_apply]
  cases body m with
  | ok flow n => cases flow <;> rfl
  | error stop n => rfl

theorem rounds_succ (test : Run Value) (body : Run Flow) (next : Run Unit) (bound : Nat) :
    rounds test body next (bound + 1) = (do
      let v ← test
      if v.holds then
        match ← once body next with
        | .normal => rounds test body next bound
        | .broken => pure .normal
        | .returned v => pure (.returned v)
      else pure .normal) := by
  rw [rounds]
  congr 1
  funext v
  cases v.holds with
  | false => rfl
  | true =>
    funext m
    rw [if_pos rfl, if_pos rfl, bind_apply, bind_apply, once_apply]
    cases body m with
    | error stop n => rfl
    | ok flow n =>
      cases flow with
      | normal =>
        simp only [bind_apply]
        cases next n <;> rfl
      | broken => rfl
      | returned w => rfl

theorem executeAll_single (ex : Executor) (s : Stmt Binding) : executeAll ex [s] = ex s := by
  funext m
  rw [executeAll, bind_apply]
  cases ex s m with
  | ok flow n => cases flow <;> rfl
  | error stop n => rfl

variable {base : Nat} {marks : List Bool}

theorem rounds_follows {ev : Evaluator} {ex : Executor} {condition : Expr Binding}
    {step : Stmt Binding} {test : Run Value} {body : Run Flow} {next : Run Unit}
    (htest : ∀ w, Follows base w marks (Alike base) (ev condition) test)
    (hstep : ∀ w, Follows base w marks (AlikeFlows base) (ex step) (once body next))
    (w : World) (bound : Nat) :
    Follows base w marks (AlikeFlows base) (repeatWhile ev ex condition step bound)
      (rounds test body next bound) := by
  induction bound generalizing w with
  | zero => exact Follows.throw .exhausted
  | succ bound ih =>
    rw [rounds_succ]
    apply (htest w).bind
    intro w' v v' _ hv
    rw [hv.holds]
    cases v'.holds with
    | false => exact Follows.pure fun _ => .normal
    | true =>
      apply (hstep w').bind
      intro w'' flow flow' _ hflow
      cases hflow with
      | normal => exact ih w''
      | broken => exact Follows.pure fun _ => .normal
      | returned hv => exact Follows.pure fun hw => .returned (hv.later hw)

theorem extraFrame_follows {α β : Type} {A : World → α → β → Prop} {p : Run α} {q : Run β}
    {w : World} (h : ∀ w, Follows base w (false :: marks) A p q) :
    Follows base w marks A
      (do
        let frame ← pushFrame (← get).current []
        inFrame frame p) q := by
  -- the other machine has no frame for the new one, which stands in front of its current frame
  intro w₁ m n _ hr hs
  have hgrown : w₁ <+: w₁ ++ [⟨some m.current, n.current, false⟩] := prefix_grown _
  have hentry : (w₁ ++ [⟨some m.current, n.current, false⟩])[m.store.size]? =
      some ⟨some m.current, n.current, false⟩ := getElem?_grown.mpr (.inr ⟨hr.store.size, rfl⟩)
  have hrelated : Related base (w₁ ++ [⟨some m.current, n.current, false⟩])
      { m with store := m.store.push (some m.current), current := m.store.size } n :=
    (hr.withStores (hr.store.pushExtra hs.frame)).atFrames m.store.size n.current
  have hinner := h _ (List.prefix_refl _) hrelated
    ⟨.link hentry rfl (hs.chain.later hgrown), Option.map_eq_some_iff.mpr ⟨_, hentry, rfl⟩⟩
  change Ends base w₁ m n A (inFrame m.store.size p
    { m with store := m.store.push (some m.current) }) (q n)
  unfold Evaluation.inFrame
  dsimp only
  generalize p { m with store := m.store.push (some m.current), current := m.store.size } = r
    at hinner
  generalize q n = r' at hinner
  cases hinner with
  | ok hpasses ha =>
    obtain ⟨hlater, hrelated', -, hright⟩ := hpasses
    exact .ok ⟨hgrown.trans hlater, hrelated'.atFrames m.current _, rfl, hright⟩ ha
  | error hpasses hstop =>
    obtain ⟨hlater, hrelated', -, hright⟩ := hpasses
    exact .error ⟨hgrown.trans hlater, hrelated'.atFrames m.current _, rfl, hright⟩ hstop

theorem block_follows (fuel : Nat) {body : Stmt Binding} (hbody : body.undeclaring = true)
    (e : Expr Binding) (w : World) :
    Follows base w [] (AlikeFlows base)
      (execute (fuel + 2) (.block [body.skip (reach [false]), .exprStmt (e.skip (reach [false]))]))
      (once (execute (fuel + 1) body) (evaluate fuel e >>= fun _ => pure ())) := by
  apply extraFrame_follows
  intro w'
  apply ((evaluate_execute_follow base (fuel + 1)).2 w' [false] body fun _ => hbody).bind
  intro w'' flow flow' _ hflow
  cases hflow with
  | broken => exact Follows.pure fun _ => .broken
  | returned hv => exact Follows.pure fun hw => .returned (hv.later hw)
  | normal =>
    rw [executeAll_single]
    change Follows base w'' [false] (AlikeFlows base)
      (evaluate fuel (e.skip (reach [false])) >>= fun _ => pure .normal)
      ((evaluate fuel e >>= fun _ => pure ()) >>= fun _ => pure .normal)
    rw [bind_assoc]
    apply ((evaluate_execute_follow base fuel).1 w'' [false] e).bind
    intro _ _ _ _ _
    exact Follows.pure fun _ => .normal

end Rounds

section Tree

variable (l : ForLoop Binding)

theorem condition_follows {base : Nat} (fuel : Nat) (w : World) :
    Follows base w [] (Alike base)
      (evaluate (fuel + 1) (l.condition.getD (.literal (.boolean true))))
      (l.test (evaluate (fuel + 1))) := by
  unfold ForLoop.test
  cases l.condition with
  | none => exact Follows.pure fun _ => alike_ofLiteral (.boolean true)
  | some e => exact evaluate_follows_itself (fuel + 1) base w e

/-- A round of the tree does what a round of the loop does. With an increment the body is one level
deeper in the tree, which takes fuel. -/
theorem step_follows (fuel : Nat) (hbody : l.body.undeclaring = true) :
    ∃ fuel', fuel < fuel' ∧ fuel' ≤ fuel + 2 ∧ ∀ base w,
      Follows base w [] (AlikeFlows base) (execute (fuel + 2) l.step)
        (once (execute fuel' l.body) (l.next (evaluate fuel))) := by
  unfold ForLoop.step ForLoop.next
  cases l.increment with
  | none =>
    refine ⟨fuel + 2, by omega, Nat.le_refl _, fun base w => ?_⟩
    rw [once_pure]
    exact execute_follows_itself (fuel + 2) base w l.body
  | some e => exact ⟨fuel + 1, by omega, by omega, fun _ => block_follows fuel hbody e⟩

/-- The `while` of the tree does what the rounds do, some parts of which have less fuel. -/
theorem while_follows (fuel : Nat) (hbody : l.body.undeclaring = true) :
    ∃ fuel', fuel < fuel' ∧ fuel' ≤ fuel + 2 ∧ ∀ base w,
      Follows base w [] (AlikeFlows base) (execute (fuel + 3) l.whileTree)
        (l.parts (fuel + 2) fuel' fuel (fuel + 2)) := by
  obtain ⟨fuel', hlt, hle, hstep⟩ := step_follows l fuel hbody
  exact ⟨fuel', hlt, hle, fun base w =>
    rounds_follows (condition_follows l (fuel + 1)) (hstep base) w (fuel + 2)⟩

theorem executeAll_clause (fuel : Nat) {s : Stmt Binding} (hs : s.isClause = true)
    (loop : Stmt Binding) :
    executeAll (execute fuel) [s, loop] = execute fuel s >>= fun _ => execute fuel loop := by
  rw [executeAll, executeAll_single]
  cases fuel with
  | zero => rfl
  | succ fuel =>
    cases s with
    | varDecl name initial =>
      change ((_ >>= fun _ => _ >>= fun _ => pure Flow.normal : Run Flow) >>= _) =
        (_ >>= fun _ => _ >>= fun _ => pure Flow.normal : Run Flow) >>= _
      simp only [bind_assoc, pure_bind]
    | exprStmt e =>
      change ((_ >>= fun _ => pure Flow.normal : Run Flow) >>= _) =
        (_ >>= fun _ => pure Flow.normal : Run Flow) >>= _
      simp only [bind_assoc, pure_bind]
    | _ => cases hs

theorem clause_follows (fuel : Nat) {s : Stmt Binding} (hs : s.isClause = true) {loop : Run Flow}
    {tree : Stmt Binding}
    (hloop : ∀ base w, Follows base w [] (AlikeFlows base) (execute fuel tree) loop) {m : Machine}
    (hm : m.Closed) :
    SameEnd { m with store := m.store.push (some m.current) }
      (execute (fuel + 1) (.block [s, tree]) m)
      ((do
        let frame ← pushFrame (← get).current []
        inFrame frame do
          let _ ← execute fuel s
          loop : Run Flow) m) := by
  have hgrown : m.store.size < (m.store.push (some m.current)).size := by
    rw [Store.size_push]
    exact Nat.lt_succ_self _
  change SameEnd { m with store := m.store.push (some m.current) }
    (inFrame m.store.size (executeAll (execute fuel) [s, tree])
      { m with store := m.store.push (some m.current) })
    (inFrame m.store.size (execute fuel s >>= fun _ => loop)
      { m with store := m.store.push (some m.current) })
  rw [executeAll_clause fuel hs]
  refine Follows.inFrame (.start hgrown) (frame?_selves hgrown) ?_ (List.prefix_refl _)
    (related_selves hm.push) (stands_selves hm.push)
  exact (execute_follows_itself fuel _ _ s).bind fun _ _ => hloop _ _

theorem tree_follows (fuel : Nat) (hbody : l.body.undeclaring = true)
    (hinitial : ∀ s ∈ l.initial, s.isClause = true) :
    ∃ run : Run Flow, Prolongs (l.run fuel) run ∧ Prolongs run (l.run (fuel + 4)) ∧
      ∀ {m : Machine}, m.Closed → SameEnd (l.entered m) (execute (fuel + 4) l.tree m) (run m) := by
  cases l with
  | mk initial condition increment body =>
    cases initial with
    -- without a first clause the `while` is the tree itself and has one more of the fuel
    | none =>
      let l : ForLoop Binding := ⟨none, condition, increment, body⟩
      obtain ⟨fuel', hlt, hle, hwhile⟩ := while_follows l (fuel + 1) hbody
      refine ⟨l.parts (fuel + 3) fuel' (fuel + 1) (fuel + 3), ?_, ?_, fun hm => ?_⟩
      · exact parts_prolong l (by omega) (by omega) (by omega) (by omega)
      · exact parts_prolong l (by omega) (by omega) (by omega) (by omega)
      · exact hwhile _ _ (List.prefix_refl _) (related_selves hm) (stands_selves hm)
    | some s =>
      let l : ForLoop Binding := ⟨some s, condition, increment, body⟩
      obtain ⟨fuel', hlt, hle, hwhile⟩ := while_follows l fuel hbody
      refine ⟨l.around (execute (fuel + 3)) (l.parts (fuel + 2) fuel' fuel (fuel + 2)), ?_, ?_,
        clause_follows (fuel + 3) (hinitial s rfl) hwhile⟩
      · exact around_prolongs l (evaluate_execute_prolong (by omega)).2
          (parts_prolong l (by omega) (by omega) (by omega) (by omega))
      · exact around_prolongs l (evaluate_execute_prolong (by omega)).2
          (parts_prolong l (by omega) (by omega) (by omega) (by omega))

end Tree

end ScriptLang.Desugaring
