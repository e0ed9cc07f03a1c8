import Mathlib.Data.List.Forall2
import ScriptLang.Proofs.Running.Hosts
import ScriptLang.Proofs.Desugaring.Resolving
import ScriptLang.Proofs.Desugaring.Worlds

namespace ScriptLang.Desugaring

open Evaluation
open Evaluation (bind_apply)

variable {α β γ δ : Type} {base : Nat} {w w' : World} {marks : List Bool}

structure Related (base : Nat) (w : World) (m n : Machine) : Prop where
  store : Paired base w m.store n.store
  globals : m.globals = n.globals
  globals_lt : m.globals < base
  depth : m.depth = n.depth
  nextId : m.nextId = n.nextId
  sink : m.sink = n.sink

structure Stands (base : Nat) (w : World) (marks : List Bool) (m n : Machine) : Prop where
  chain : Chain base w m.current marks
  frame : frame? w m.current = some n.current

structure Passes (base : Nat) (w w' : World) (m m' n n' : Machine) : Prop where
  later : w <+: w'
  related : Related base w' m' n'
  left : m'.current = m.current
  right : n'.current = n.current

inductive Ends (base : Nat) (w : World) (m n : Machine) (A : World → α → β → Prop) :
    EStateM.Result Stop Machine α → EStateM.Result Stop Machine β → Prop
  | ok {w' : World} {a : α} {b : β} {m' n' : Machine} (h : Passes base w w' m m' n n')
      (ha : A w' a b) : Ends base w m n A (.ok a m') (.ok b n')
  | error {w' : World} {stop stop' : Stop} {m' n' : Machine} (h : Passes base w w' m m' n n')
      (hs : AlikeStops stop stop') : Ends base w m n A (.error stop m') (.error stop' n')

/-- What `p` does on a machine with extra frames `q` does on the machine without. The world grows as
frames are made, and in the end each machine is back in the frame where it began. -/
def Follows (base : Nat) (w : World) (marks : List Bool) (A : World → α → β → Prop) (p : Run α)
    (q : Run β) : Prop :=
  ∀ ⦃w₁ m n⦄, w <+: w₁ → Related base w₁ m n → Stands base w₁ marks m n →
    Ends base w₁ m n A (p m) (q n)

section Combination

variable {A : World → α → β → Prop} {B : World → γ → δ → Prop} {p : Run α} {q : Run β}

theorem Related.atFrames {m n : Machine} (h : Related base w m n) (f r : Nat) :
    Related base w { m with current := f } { n with current := r } :=
  ⟨h.store, h.globals, h.globals_lt, h.depth, h.nextId, h.sink⟩

theorem Related.withStores {m n : Machine} (h : Related base w m n) {s t : Store Value}
    (hs : Paired base w' s t) : Related base w' { m with store := s } { n with store := t } :=
  ⟨hs, h.globals, h.globals_lt, h.depth, h.nextId, h.sink⟩

theorem Stands.later {m n : Machine} (h : w <+: w') (hs : Stands base w marks m n) :
    Stands base w' marks m n :=
  ⟨hs.chain.later h, frame?_later h hs.frame⟩

theorem Passes.refl {m n : Machine} (h : Related base w m n) : Passes base w w m m n n :=
  ⟨List.prefix_refl w, h, rfl, rfl⟩

theorem Passes.stands {m m' n n' : Machine} (h : Passes base w w' m m' n n')
    (hs : Stands base w marks m n) : Stands base w' marks m' n' := by
  obtain ⟨hchain, hframe⟩ := hs.later h.later
  exact ⟨h.left ▸ hchain, by rw [h.left, h.right, hframe]⟩

theorem Ends.after {m m' n n' : Machine} (h : Passes base w w' m m' n n')
    {r : EStateM.Result Stop Machine α} {r' : EStateM.Result Stop Machine β}
    (hr : Ends base w' m' n' A r r') : Ends base w m n A r r' := by
  cases hr with
  | ok hpasses ha =>
    exact .ok ⟨h.later.trans hpasses.later, hpasses.related, hpasses.left.trans h.left,
      hpasses.right.trans h.right⟩ ha
  | error hpasses hs =>
    exact .error ⟨h.later.trans hpasses.later, hpasses.related, hpasses.left.trans h.left,
      hpasses.right.trans h.right⟩ hs

theorem Follows.pure {a : α} {b : β} (h : ∀ {w₁}, w <+: w₁ → A w₁ a b) :
    Follows base w marks A (pure a) (pure b) :=
  fun _ _ _ hw hr _ => .ok (.refl hr) (h hw)

theorem Follows.throw {stop stop' : Stop} (h : AlikeStops stop stop') :
    Follows base w marks A (throw stop) (throw stop') :=
  fun _ _ _ _ hr _ => .error (.refl hr) h

theorem Follows.bind {f : α → Run γ} {g : β → Run δ} (h : Follows base w marks A p q)
    (hf : ∀ {w' a b}, w <+: w' → A w' a b → Follows base w' marks B (f a) (g b)) :
    Follows base w marks B (p >>= f) (q >>= g) := by
  intro w₁ m n hw hr hs
  rw [bind_apply, bind_apply]
  have hfirst := h hw hr hs
  generalize p m = r at hfirst
  generalize q n = r' at hfirst
  cases hfirst with
  | ok hpasses ha =>
    exact .after hpasses (hf (hw.trans hpasses.later) ha (List.prefix_refl _) hpasses.related
      (hpasses.stands hs))
  | error hpasses hstop => exact .error hpasses hstop

theorem Follows.get {f : Machine → Run α} {g : Machine → Run β}
    (h : ∀ {w₁ m n}, w <+: w₁ → Related base w₁ m n → Stands base w₁ marks m n →
      Follows base w₁ marks A (f m) (g n)) :
    Follows base w marks A (get >>= f) (get >>= g) :=
  fun _ _ _ hw hr hs => h hw hr hs (List.prefix_refl _) hr hs

theorem Follows.inFrame {f r : Nat} {marks' : List Bool} (hc : Chain base w f marks')
    (hf : frame? w f = some r) (h : Follows base w marks' A p q) :
    Follows base w marks A (inFrame f p) (inFrame r q) := by
  intro w₁ m n hw hr hs
  have hinner := h (m := { m with current := f }) (n := { n with current := r }) hw
    (hr.atFrames f r) ⟨hc.later hw, frame?_later hw hf⟩
  unfold Evaluation.inFrame
  generalize p { m with current := f } = r at hinner
  generalize q { n with current := _ } = r' at hinner
  cases hinner with
  | ok hpasses ha =>
    exact .ok ⟨hpasses.later, hpasses.related.atFrames m.current n.current, rfl, rfl⟩ ha
  | error hpasses hstop =>
    exact .error ⟨hpasses.later, hpasses.related.atFrames m.current n.current, rfl, rfl⟩ hstop

theorem Follows.inCall (h : Follows base w marks A p q) :
    Follows base w marks A (inCall p) (inCall q) := by
  intro w₁ m n hw hr hs
  have hinner := h (m := { m with depth := m.depth + 1 }) (n := { n with depth := n.depth + 1 })
    hw ⟨hr.store, hr.globals, hr.globals_lt, congrArg (· + 1) hr.depth, hr.nextId, hr.sink⟩
    ⟨hs.chain, hs.frame⟩
  unfold Evaluation.inCall
  generalize p { m with depth := m.depth + 1 } = r at hinner
  generalize q { n with depth := n.depth + 1 } = r' at hinner
  cases hinner with
  | ok hpasses ha =>
    obtain ⟨hlater, hrel, hleft, hright⟩ := hpasses
    exact .ok ⟨hlater, ⟨hrel.store, hrel.globals, hrel.globals_lt, congrArg (· - 1) hrel.depth,
      hrel.nextId, hrel.sink⟩, hleft, hright⟩ ha
  | error hpasses hstop =>
    obtain ⟨hlater, hrel, hleft, hright⟩ := hpasses
    exact .error ⟨hlater, ⟨hrel.store, hrel.globals, hrel.globals_lt, congrArg (· - 1) hrel.depth,
      hrel.nextId, hrel.sink⟩, hleft, hright⟩ hstop

end Combination

section Primitives

variable {m n : Machine}

theorem raise_follows {A : World → α → β → Prop} (line : Nat) {fault fault' : RuntimeFault}
    (h : fault.message = fault'.message) :
    Follows base w marks A (raise line fault) (raise line fault') :=
  Follows.throw (.error rfl h)

theorem report_follows (line : Nat) {r r' : Except RuntimeFault Value} (h : AlikeResults r r') :
    Follows base w marks (Alike base) (report line r) (report line r') := by
  cases h with
  | ok h => exact Follows.pure fun _ => .plain h
  | error h => exact raise_follows line h

theorem Related.frameOf? (hr : Related base w m n) (hs : Stands base w marks m n)
    (binding : Binding) :
    Option.Rel (Copies w) (m.frameOf? (binding.skip (reach marks))) (n.frameOf? binding) := by
  cases binding with
  | global =>
    have hcopies := hr.store.copies_before hr.globals_lt
    exact .some (by rwa [← hr.globals])
  | hops distance => exact hr.store.ancestor hs.chain hs.frame distance

theorem readVariable_follows (binding : Binding) (name : Token) :
    Follows base w marks (Alike base) (readVariable (binding.skip (reach marks)) name)
      (readVariable binding name) := by
  intro w₁ m n _ hr hs
  have hframe := hr.frameOf? hs binding
  unfold Evaluation.readVariable
  generalize m.frameOf? (binding.skip (reach marks)) = o at hframe
  generalize n.frameOf? binding = o' at hframe
  cases hframe with
  | none => exact .error (.refl hr) (.error rfl rfl)
  | @some f r hcopies =>
    have hget := hr.store.get? hcopies name.lexeme
    simp only [Option.bind_some]
    generalize m.store.get? f name.lexeme = v at hget
    generalize n.store.get? r name.lexeme = v' at hget
    cases hget with
    | none => exact .error (.refl hr) (.error rfl rfl)
    | some hv => exact .ok (.refl hr) hv

theorem writeVariable_follows (binding : Binding) (name : Token) {v v' : Value}
    (hv : Alike base w v v') :
    Follows base w marks (fun _ _ _ => True) (writeVariable (binding.skip (reach marks)) name v)
      (writeVariable binding name v') := by
  intro w₁ m n hw hr hs
  have hframe := hr.frameOf? hs binding
  unfold Evaluation.writeVariable
  generalize m.frameOf? (binding.skip (reach marks)) = o at hframe
  generalize n.frameOf? binding = o' at hframe
  cases hframe with
  | none => exact .error (.refl hr) (.error rfl rfl)
  | @some f r hcopies =>
    obtain ⟨hsame, hstore⟩ := hr.store.assign hcopies name.lexeme (hv.later hw)
    simp only [Machine.onStore]
    generalize m.store.assign f name.lexeme v = a at hsame hstore
    generalize n.store.assign r name.lexeme v' = a' at hsame hstore
    obtain ⟨found, s⟩ := a
    obtain ⟨found', s'⟩ := a'
    obtain rfl : found = found' := hsame
    have hrelated : Related base w₁ { m with store := s } { n with store := s' } :=
      hr.withStores hstore
    cases found with
    | true => exact .ok ⟨List.prefix_refl _, hrelated, rfl, rfl⟩ trivial
    | false => exact .error ⟨List.prefix_refl _, hrelated, rfl, rfl⟩ (.error rfl rfl)

theorem Stands.copies (hr : Related base w m n) (hs : Stands base w marks m n)
    (h : marks.head? ≠ some false) : Copies w m.current n.current := by
  obtain ⟨e, he, hframe⟩ := Option.map_eq_some_iff.mp hs.frame
  cases hs.chain with
  | start hlt =>
    have hsame : m.current = n.current :=
      Option.some.inj ((hr.store.frame?_before hlt).symm.trans hs.frame)
    exact hsame ▸ hr.store.copies_before hlt
  | @link _ _ e' _ he' _ _ =>
    obtain rfl : e = e' := Option.some.inj (he.symm.trans he')
    have hcopy : e.copy = true := by
      cases hc : e.copy with
      | true => rfl
      | false => simp [hc] at h
    exact ⟨e, he, hcopy, hframe⟩

theorem defineVariable_follows (name : Token) {v v' : Value} (hv : Alike base w v v')
    (h : marks.head? ≠ some false) :
    Follows base w marks (fun _ _ _ => True) (defineVariable name v) (defineVariable name v') :=
  fun _ _ _ hw hr hs => .ok ⟨List.prefix_refl _,
    hr.withStores (hr.store.define (hs.copies hr h) name.lexeme (hv.later hw)), rfl, rfl⟩ trivial

theorem makeClosure_follows (name : String) (params : List Token) (body : List (Stmt Binding)) :
    Follows base w marks (Alike base)
      (makeClosure name params (Stmt.allSkip (reach (true :: marks)) body))
      (makeClosure name params body) :=
  fun _ _ _ _ hr hs => .ok ⟨List.prefix_refl _,
    ⟨hr.store, hr.globals, hr.globals_lt, hr.depth, congrArg (· + 1) hr.nextId, hr.sink⟩, rfl, rfl⟩
    (.closure ⟨hr.nextId, rfl, rfl, ⟨marks, rfl, hs.chain⟩, hs.frame⟩)

theorem printValue_follows {v v' : Value} (hv : Alike base w v v') :
    Follows base w marks (fun _ _ _ => True) (printValue v) (printValue v') := by
  intro w₁ m n _ hr _
  unfold Evaluation.printValue
  rw [hv.text, hr.sink]
  have hrelated : Related base w₁ { m with sink := n.sink.write (v'.text ++ "\n").toUTF8 }
      { n with sink := n.sink.write (v'.text ++ "\n").toUTF8 } :=
    ⟨hr.store, hr.globals, hr.globals_lt, hr.depth, hr.nextId, rfl⟩
  cases hfits : n.sink.fits (v'.text ++ "\n").toUTF8 with
  | true =>
    simp only [hfits, if_true]
    exact .ok ⟨List.prefix_refl _, hrelated, rfl, rfl⟩ trivial
  | false =>
    simp only [hfits]
    exact .error ⟨List.prefix_refl _, hrelated, rfl, rfl⟩ (.output _)

theorem pushFrame_follows {f r : Nat} {marks' : List Bool} (hc : Chain base w f marks')
    (hf : frame? w f = some r) (names : List String) {vs vs' : List Value}
    (hvs : List.Forall₂ (Alike base w) vs vs') :
    Follows base w marks
      (fun w' f r => Chain base w' f (true :: marks') ∧ frame? w' f = some r)
      (pushFrame f (names.zip vs)) (pushFrame r (names.zip vs')) := by
  intro w₁ m n hw hr hs
  have hgrown : w₁ <+: w₁ ++ [⟨some f, n.store.size, true⟩] := prefix_grown _
  have hentry : (w₁ ++ [⟨some f, n.store.size, true⟩])[m.store.size]? =
      some ⟨some f, n.store.size, true⟩ :=
    getElem?_grown.mpr (.inr ⟨hr.store.size, rfl⟩)
  have hstore := (hr.store.push (frame?_later hw hf)).defineAll ⟨_, hentry, rfl, rfl⟩ names
    (hvs.imp fun _ _ h => h.later (hw.trans hgrown))
  exact .ok ⟨hgrown, hr.withStores hstore, rfl, rfl⟩
    ⟨.link hentry rfl (hc.later (hw.trans hgrown)), Option.map_eq_some_iff.mpr ⟨_, hentry, rfl⟩⟩

theorem Follows.inBlock {p q : Run Flow} {A : World → Flow → Flow → Prop}
    (h : ∀ w₁, Follows base w₁ (true :: marks) A p q) :
    Follows base w marks A (inBlock p) (inBlock q) := by
  unfold Evaluation.inBlock
  apply Follows.get
  intro w₁ m n _ _ hstands
  apply (pushFrame_follows hstands.chain hstands.frame [] .nil).bind
  intro w₂ f r _ hframe
  exact (h w₂).inFrame hframe.1 hframe.2

/-- A body runs in front of the frames where its function was made, not of the caller's. -/
theorem Follows.inBody {p q : Run Flow} {A : World → Flow → Flow → Prop} {c d : Closure}
    {marks' : List Bool} (hc : Chain base w c.frame marks') (hf : frame? w c.frame = some d.frame)
    (line : Nat) (names : List String) {vs vs' : List Value}
    (hvs : List.Forall₂ (Alike base w) vs vs')
    (h : ∀ w₁, Follows base w₁ (true :: marks') A p q) :
    Follows base w marks A (inBody line c (names.zip vs) p) (inBody line d (names.zip vs') q) := by
  unfold Evaluation.inBody
  apply Follows.get
  intro w₁ m n hw hr _
  rw [hr.depth]
  by_cases hdepth : Machine.maxDepth ≤ n.depth
  · rw [if_pos hdepth, if_pos hdepth]
    exact raise_follows line rfl
  · rw [if_neg hdepth, if_neg hdepth]
    apply (pushFrame_follows (hc.later hw) (frame?_later hw hf) names
      (hvs.imp fun _ _ h => h.later hw)).bind
    intro w₂ f r _ hframe
    exact ((h w₂).inFrame hframe.1 hframe.2).inCall

theorem Related.defineNatives (hr : Related base w m n) (ns : List Native) :
    Related base w (ns.foldl Machine.defineNative m) (ns.foldl Machine.defineNative n) ∧
      (ns.foldl Machine.defineNative m).current = m.current ∧
      (ns.foldl Machine.defineNative n).current = n.current := by
  induction ns generalizing m n with
  | nil => exact ⟨hr, rfl, rfl⟩
  | cons f ns ih =>
    have hglobals : Copies w m.globals n.globals := by
      rw [← hr.globals]
      exact hr.store.copies_before hr.globals_lt
    have hv : Alike base w (.native m.nextId f) (.native n.nextId f) := by
      rw [hr.nextId]
      exact .plain fun _ => nofun
    exact ih ⟨hr.store.define hglobals f.name hv, hr.globals, hr.globals_lt, hr.depth,
      congrArg (· + 1) hr.nextId, hr.sink⟩

theorem Related.heed (hr : Related base w m n) (ns : List Native) :
    Related base w (m.heed ns) (n.heed ns) ∧ (m.heed ns).current = m.current ∧
      (n.heed ns).current = n.current :=
  Related.defineNatives (m := m.numbered) (n := n.numbered) ⟨hr.store, hr.globals, hr.globals_lt,
    hr.depth, congrArg (· + 1) hr.nextId, hr.sink⟩ ns

theorem callNative_follows (line : Nat) (f : Native) {vs vs' : List Value}
    (hvs : List.Forall₂ (Alike base w) vs vs') :
    Follows base w marks (Alike base) (callNative line f vs) (callNative line f vs') := by
  have hlength : vs.length = vs'.length := hvs.length_eq
  have harguments : vs.map Value.toArgument = vs'.map Value.toArgument := by
    induction hvs with
    | nil => rfl
    | cons hv _ ih => rw [List.map_cons, List.map_cons, hv.toArgument, ih (Nat.succ.inj hlength)]
  by_cases harity : vs.length = f.arity
  · intro w₁ m n hw hr _
    rw [callNative_apply m harity, callNative_apply n (hlength ▸ harity), harguments, hr.nextId]
    obtain ⟨hrelated, hleft, hright⟩ :=
      hr.heed (f.run n.nextId (vs'.map Value.toArgument)).defines
    cases (f.run n.nextId (vs'.map Value.toArgument)).result with
    | ok answer =>
      exact .ok ⟨List.prefix_refl _, hrelated, hleft, hright⟩
        ((alike_ofAnswer n.nextId hvs answer).later hw)
    | error message =>
      exact .error ⟨List.prefix_refl _, hrelated, hleft, hright⟩ (.error rfl rfl)
  · unfold Evaluation.callNative
    rw [if_pos harity, if_pos (hlength ▸ harity), hlength]
    exact raise_follows line rfl

end Primitives

def SameValues (base : Nat) (ev : Evaluator) : Prop :=
  ∀ w marks e, Follows base w marks (Alike base) (ev (e.skip (reach marks))) (ev e)

def Allowed (marks : List Bool) (s : Stmt Binding) : Prop :=
  marks.head? = some false → s.undeclaring = true

def SameFlows (base : Nat) (ex : Executor) : Prop :=
  ∀ w marks s, Allowed marks s →
    Follows base w marks (AlikeFlows base) (ex (s.skip (reach marks))) (ex s)

section Sequence

variable {ev : Evaluator} {ex : Executor}

theorem evaluateAll_follows (hev : SameValues base ev) (w : World) (marks : List Bool)
    (es : List (Expr Binding)) :
    Follows base w marks (fun w => List.Forall₂ (Alike base w))
      (evaluateAll ev (Expr.allSkip (reach marks) es)) (evaluateAll ev es) := by
  induction es generalizing w with
  | nil => exact Follows.pure fun _ => .nil
  | cons e es ih =>
    apply (hev w marks e).bind
    intro w' v v' _ hv
    apply (ih w').bind
    intro w'' vs vs' hw hvs
    exact Follows.pure fun hw' => .cons (hv.later (hw.trans hw'))
      (hvs.imp fun _ _ h => h.later hw')

theorem executeAll_follows (hex : SameFlows base ex) (w : World) (marks : List Bool)
    {ss : List (Stmt Binding)} (hss : ∀ s ∈ ss, Allowed marks s) :
    Follows base w marks (AlikeFlows base) (executeAll ex (Stmt.allSkip (reach marks) ss))
      (executeAll ex ss) := by
  induction ss generalizing w with
  | nil => exact Follows.pure fun _ => .normal
  | cons s ss ih =>
    obtain ⟨hs, hss⟩ := List.forall_mem_cons.mp hss
    apply (hex w marks s hs).bind
    intro w' flow flow' _ hflow
    cases hflow with
    | normal => exact ih w' hss
    | broken => exact Follows.pure fun _ => .broken
    | returned hv => exact Follows.pure fun hw => .returned (hv.later hw)

theorem body_follows (hex : SameFlows base ex) (w : World) (marks : List Bool)
    (ss : List (Stmt Binding)) :
    Follows base w (true :: marks) (AlikeFlows base)
      (executeAll ex (Stmt.allSkip (reach (true :: marks)) ss)) (executeAll ex ss) :=
  executeAll_follows hex w (true :: marks) fun _ _ h => by simp at h

theorem repeatWhile_follows (hev : SameValues base ev) (hex : SameFlows base ex) (w : World)
    (marks : List Bool) (condition : Expr Binding) {body : Stmt Binding}
    (hbody : Allowed marks body) (bound : Nat) :
    Follows base w marks (AlikeFlows base)
      (repeatWhile ev ex (condition.skip (reach marks)) (body.skip (reach marks)) bound)
      (repeatWhile ev ex condition body bound) := by
  induction bound generalizing w with
  | zero => exact Follows.throw .exhausted
  | succ bound ih =>
    apply (hev w marks condition).bind
    intro w' v v' _ hv
    rw [hv.holds]
    cases v'.holds with
    | false => exact Follows.pure fun _ => .normal
    | true =>
      apply (hex w' marks body hbody).bind
      intro w'' flow flow' _ hflow
      cases hflow with
      | normal => exact ih w''
      | broken => exact Follows.pure fun _ => .normal
      | returned hv => exact Follows.pure fun hw => .returned (hv.later hw)

end Sequence

section Step

variable {ev : Evaluator} {ex : Executor}

theorem callClosure_follows (hex : SameFlows base ex) (line : Nat) {c d : Closure}
    (hc : AlikeClosures base w c d) {vs vs' : List Value}
    (hvs : List.Forall₂ (Alike base w) vs vs') :
    Follows base w marks (Alike base) (callClosure ex line c vs) (callClosure ex line d vs') := by
  obtain ⟨marks', hbody, hchain⟩ := hc.body
  have hlength : vs.length = vs'.length := hvs.length_eq
  unfold Evaluation.callClosure
  rw [hlength, hc.params]
  by_cases harity : vs'.length ≠ d.params.length
  · rw [if_pos harity, if_pos harity]
    exact raise_follows line rfl
  · rw [if_neg harity, if_neg harity, hbody]
    apply (Follows.inBody hchain hc.frame line _ hvs fun w₁ =>
      body_follows hex w₁ marks' d.body).bind
    intro w' flow flow' _ hflow
    cases hflow with
    | returned hv => exact Follows.pure fun hw => hv.later hw
    | _ => exact Follows.pure fun _ => .plain fun _ => nofun

theorem invoke_follows (hex : SameFlows base ex) (line : Nat) {f f' : Value}
    (hf : Alike base w f f') {vs vs' : List Value} (hvs : List.Forall₂ (Alike base w) vs vs') :
    Follows base w marks (Alike base) (invoke ex line f vs) (invoke ex line f' vs') := by
  cases hf with
  | closure hc => exact callClosure_follows hex line hc hvs
  | plain hp =>
    cases f with
    | closure c => exact absurd rfl (hp c)
    | native id f => exact callNative_follows line f hvs
    | _ => exact raise_follows line rfl

theorem evaluateStep_follows (hev : SameValues base ev) (hex : SameFlows base ex) (w : World)
    (marks : List Bool) (e : Expr Binding) :
    Follows base w marks (Alike base) (evaluateStep ev ex (e.skip (reach marks)))
      (evaluateStep ev ex e) := by
  cases e with
  | literal value => exact Follows.pure fun _ => alike_ofLiteral value
  | group inner => exact hev w marks inner
  | unary operator right =>
    apply (hev w marks right).bind
    intro w' v v' _ hv
    exact report_follows _ (unary_alike _ hv)
  | binary left operator right =>
    apply (hev w marks left).bind
    intro w' v v' _ hv
    apply (hev w' marks right).bind
    intro w'' u u' hw hu
    exact report_follows _ (binary_alike _ (hv.later hw) hu)
  | logical left operator right =>
    apply (hev w marks left).bind
    intro w' v v' _ hv
    rw [decides_alike _ hv]
    cases Operator.decides operator.kind v' with
    | true => exact Follows.pure fun hw => hv.later hw
    | false => exact hev w' marks right
  | ident binding name => exact readVariable_follows binding name
  | assign binding name value =>
    apply (hev w marks value).bind
    intro w' v v' _ hv
    apply (writeVariable_follows binding name hv).bind
    intro w'' _ _ hw _
    exact Follows.pure fun hw' => hv.later (hw.trans hw')
  | call callee paren arguments =>
    apply (hev w marks callee).bind
    intro w' f f' _ hf
    apply (evaluateAll_follows hev w' marks arguments).bind
    intro w'' vs vs' hw hvs
    exact invoke_follows hex paren.line (hf.later hw) hvs
  | lambda params body => exact makeClosure_follows _ params body

theorem evaluateOptional_follows (hev : SameValues base ev) (w : World) (marks : List Bool)
    (o : Option (Expr Binding)) :
    Follows base w marks (Alike base) (evaluateOptional ev (o.map (Expr.skip (reach marks))))
      (evaluateOptional ev o) := by
  cases o with
  | none => exact Follows.pure fun _ => .plain fun _ => nofun
  | some e => exact hev w marks e

theorem executeStep_follows (hev : SameValues base ev) (hex : SameFlows base ex) (bound : Nat)
    (w : World) (marks : List Bool) {s : Stmt Binding} (hs : Allowed marks s) :
    Follows base w marks (AlikeFlows base) (executeStep bound ev ex (s.skip (reach marks)))
      (executeStep bound ev ex s) := by
  cases s with
  | exprStmt e =>
    apply (hev w marks e).bind
    intro w' _ _ _ _
    exact Follows.pure fun _ => .normal
  | printStmt e =>
    apply (hev w marks e).bind
    intro w' v v' _ hv
    apply (printValue_follows hv).bind
    intro _ _ _ _ _
    exact Follows.pure fun _ => .normal
  | varDecl name initial =>
    have hhead : marks.head? ≠ some false := fun h => Bool.false_ne_true (hs h)
    have hdefine : ∀ {w' v v'}, w <+: w' → Alike base w' v v' →
        Follows base w' marks (AlikeFlows base)
          (defineVariable name v >>= fun _ => pure Flow.normal)
          (defineVariable name v' >>= fun _ => pure Flow.normal) := by
      intro w' v v' _ hv
      apply (defineVariable_follows name hv hhead).bind
      intro _ _ _ _ _
      exact Follows.pure fun _ => .normal
    cases initial with
    | none => exact (evaluateOptional_follows hev w marks none).bind hdefine
    | some e => exact (evaluateOptional_follows hev w marks (some e)).bind hdefine
  | block body => exact Follows.inBlock fun w₁ => body_follows hex w₁ marks body
  | ifStmt condition yes no =>
    cases no with
    | none =>
      apply (hev w marks condition).bind
      intro w' v v' _ hv
      rw [hv.holds]
      cases v'.holds with
      | true => exact hex w' marks yes hs
      | false => exact Follows.pure fun _ => .normal
    | some no =>
      have hboth := fun h => Bool.and_eq_true_iff.mp (hs h)
      apply (hev w marks condition).bind
      intro w' v v' _ hv
      rw [hv.holds]
      cases v'.holds with
      | true => exact hex w' marks yes fun h => (hboth h).1
      | false => exact hex w' marks no fun h => (hboth h).2
  | whileStmt condition body =>
    have hbody : Allowed marks body := hs
    exact repeatWhile_follows hev hex w marks condition hbody bound
  | breakStmt keyword => exact Follows.pure fun _ => .broken
  | returnStmt keyword value =>
    have hreturn : ∀ {w' v v'}, w <+: w' → Alike base w' v v' →
        Follows base w' marks (AlikeFlows base) (pure (Flow.returned v))
          (pure (Flow.returned v')) := fun _ hv => Follows.pure fun hw => .returned (hv.later hw)
    cases value with
    | none => exact (evaluateOptional_follows hev w marks none).bind hreturn
    | some e => exact (evaluateOptional_follows hev w marks (some e)).bind hreturn
  | funDecl name params body =>
    have hhead : marks.head? ≠ some false := fun h => Bool.false_ne_true (hs h)
    apply (makeClosure_follows name.lexeme params body).bind
    intro w' f f' _ hf
    apply (defineVariable_follows name hf hhead).bind
    intro _ _ _ _ _
    exact Follows.pure fun _ => .normal

end Step

/-- Code with extra frames does what it does without, with the same fuel. -/
theorem evaluate_execute_follow (base fuel : Nat) :
    SameValues base (evaluate fuel) ∧ SameFlows base (execute fuel) := by
  -- both at once: statements evaluate, and calls execute
  induction fuel with
  | zero =>
    exact ⟨fun _ _ _ => Follows.throw .exhausted, fun _ _ _ _ => Follows.throw .exhausted⟩
  | succ fuel ih =>
    exact ⟨evaluateStep_follows ih.1 ih.2,
      fun w marks s hs => executeStep_follows ih.1 ih.2 fuel w marks hs⟩

end ScriptLang.Desugaring
