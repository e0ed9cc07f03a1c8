import ScriptLang.Proofs.Running.Hosts

namespace ScriptLang.Running

open Evaluation
open Evaluation (bind_apply)

variable {α β : Type}

/-- A run that ran out of fuel. -/
def RanOut (r : EStateM.Result Stop Machine α) : Prop :=
  ∃ n, r = .error .exhausted n

def Prolongs (p q : Run α) : Prop :=
  ∀ m, RanOut (p m) ∨ p m = q m

section Combination

theorem Prolongs.refl (p : Run α) : Prolongs p p :=
  fun _ => .inr rfl

theorem exhausted_prolongs (q : Run α) : Prolongs (throw .exhausted) q :=
  fun m => .inl ⟨m, rfl⟩

theorem Prolongs.bind {p q : Run α} {f g : α → Run β} (h : Prolongs p q)
    (hf : ∀ a, Prolongs (f a) (g a)) : Prolongs (p >>= f) (q >>= g) := by
  intro m
  rw [bind_apply, bind_apply]
  obtain ⟨n, hn⟩ | heq := h m
  · rw [hn]
    exact .inl ⟨n, rfl⟩
  · rw [← heq]
    cases p m with
    | ok a n => exact hf a n
    | error stop n => exact .inr rfl

theorem Prolongs.inFrame {p q : Run α} (h : Prolongs p q) (frame : Nat) :
    Prolongs (inFrame frame p) (inFrame frame q) := by
  intro m
  unfold Evaluation.inFrame
  obtain ⟨n, hn⟩ | heq := h { m with current := frame }
  · rw [hn]
    exact .inl ⟨_, rfl⟩
  · rw [heq]
    exact .inr rfl

theorem Prolongs.inCall {p q : Run α} (h : Prolongs p q) : Prolongs (inCall p) (inCall q) := by
  intro m
  unfold Evaluation.inCall
  obtain ⟨n, hn⟩ | heq := h { m with depth := m.depth + 1 }
  · rw [hn]
    exact .inl ⟨_, rfl⟩
  · rw [heq]
    exact .inr rfl

theorem Prolongs.get {f g : Machine → Run α} (h : ∀ m, Prolongs (f m) (g m)) :
    Prolongs (get >>= f) (get >>= g) :=
  fun m => h m m

end Combination

theorem Prolongs.inBlock {p q : Run Flow} (h : Prolongs p q) :
    Prolongs (inBlock p) (inBlock q) := by
  unfold Evaluation.inBlock
  apply Prolongs.get
  intro m
  apply (Prolongs.refl _).bind
  intro frame
  exact h.inFrame frame

theorem Prolongs.inBody {p q : Run Flow} (h : Prolongs p q) (line : Nat) (c : Closure)
    (bindings : List (String × Value)) :
    Prolongs (inBody line c bindings p) (inBody line c bindings q) := by
  unfold Evaluation.inBody
  apply Prolongs.get
  intro m
  by_cases hdepth : Machine.maxDepth ≤ m.depth
  · rw [if_pos hdepth, if_pos hdepth]
    exact .refl _
  · rw [if_neg hdepth, if_neg hdepth]
    apply (Prolongs.refl _).bind
    intro frame
    exact (h.inFrame frame).inCall

theorem prolongs_congruence : Congruence (M := Run) (N := Run) fun _ p q => Prolongs p q where
  pure _ := .refl _
  throw _ := .refl _
  bind := .bind
  evaluating _ h := h
  executing _ h := h
  readVariable _ _ := .refl _
  writeVariable _ _ _ := .refl _
  defineVariable _ _ := .refl _
  makeClosure _ _ _ := .refl _
  printValue _ := .refl _
  callNative _ _ _ := .refl _
  inBlock := .inBlock
  inBody line c bindings h := h.inBody line c bindings

theorem repeatWhile_prolongs {ev ev' : Evaluator} {ex ex' : Executor}
    (hev : ∀ e, Prolongs (ev e) (ev' e)) (hex : ∀ s, Prolongs (ex s) (ex' s))
    (condition : Expr Binding) (body : Stmt Binding) {bound bound' : Nat} (h : bound ≤ bound') :
    Prolongs (repeatWhile ev ex condition body bound)
      (repeatWhile ev' ex' condition body bound') := by
  induction bound generalizing bound' with
  | zero => exact exhausted_prolongs _
  | succ bound ih =>
    obtain ⟨bound', rfl⟩ := Nat.exists_eq_add_of_lt (Nat.lt_of_succ_le h)
    apply (hev condition).bind
    intro v
    cases v.holds with
    | false => exact .refl _
    | true =>
      apply (hex body).bind
      intro flow
      cases flow with
      | normal => exact ih (by omega)
      | broken => exact .refl _
      | returned w => exact .refl _

theorem evaluate_execute_prolong {fuel fuel' : Nat} (h : fuel ≤ fuel') :
    (∀ e, Prolongs (evaluate fuel e) (evaluate fuel' e)) ∧
      ∀ s, Prolongs (execute fuel s) (execute fuel' s) := by
  induction fuel generalizing fuel' with
  | zero => exact ⟨fun _ => exhausted_prolongs _, fun _ => exhausted_prolongs _⟩
  | succ fuel ih =>
    -- with more fuel at the top there is as much more of it at every depth
    obtain ⟨k, rfl⟩ := Nat.exists_eq_add_of_lt (Nat.lt_of_succ_le h)
    obtain ⟨hev, hex⟩ := ih (show fuel ≤ fuel + k by omega)
    exact ⟨prolongs_congruence.evaluateStep hev hex fun _ _ _ h => h,
      prolongs_congruence.executeStep hev hex fun c b =>
        repeatWhile_prolongs hev hex c b (by omega)⟩

end ScriptLang.Running
