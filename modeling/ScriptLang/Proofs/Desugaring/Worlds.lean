import ScriptLang.Proofs.Chronicle.Declaring
import ScriptLang.Proofs.Chronicle.Frames
import ScriptLang.Proofs.Desugaring.Skipping

namespace ScriptLang.Desugaring

open Chronicle (Plain)

structure Entry where
  parent : Option Nat
  /-- The frame of the other store that this one is a copy of or stands in front of. -/
  frame : Nat
  /-- Whether it is a copy, and not extra. -/
  copy : Bool

abbrev World := List Entry

def frame? (w : World) (f : Nat) : Option Nat := w[f]?.map Entry.frame

/-- Which of the nearest frames are copies, from a frame outwards. Marks end at a frame that was
there from the start. -/
inductive Chain (base : Nat) (w : World) : Nat → List Bool → Prop
  | start {f : Nat} (h : f < base) : Chain base w f []
  | link {f p : Nat} {e : Entry} {marks : List Bool} (he : w[f]? = some e)
      (hp : e.parent = some p) (h : Chain base w p marks) : Chain base w f (e.copy :: marks)

variable {base : Nat} {w w' : World}

section Values

structure AlikeClosures (base : Nat) (w : World) (c d : Closure) : Prop where
  id : c.id = d.id
  name : c.name = d.name
  params : c.params = d.params
  body : ∃ marks, c.body = Stmt.allSkip (reach (true :: marks)) d.body ∧ Chain base w c.frame marks
  frame : frame? w c.frame = some d.frame

inductive Alike (base : Nat) (w : World) : Value → Value → Prop
  | plain {v : Value} (h : Plain v) : Alike base w v v
  | closure {c d : Closure} (h : AlikeClosures base w c d) :
      Alike base w (.closure c) (.closure d)

inductive AlikeFlows (base : Nat) (w : World) : Flow → Flow → Prop
  | normal : AlikeFlows base w .normal .normal
  | broken : AlikeFlows base w .broken .broken
  | returned {v v' : Value} (h : Alike base w v v') : AlikeFlows base w (.returned v) (.returned v')

/-- The same end: errors on the same line with the same message, or the same reason. -/
inductive AlikeStops : Stop → Stop → Prop
  | error {e e' : RuntimeError} (hline : e.line = e'.line)
      (hmessage : e.fault.message = e'.fault.message) : AlikeStops (.error e) (.error e')
  | output (f : OutputFault) : AlikeStops (.output f) (.output f)
  | exhausted : AlikeStops .exhausted .exhausted

inductive AlikeResults : Except RuntimeFault Value → Except RuntimeFault Value → Prop
  | ok {v : Value} (h : Plain v) : AlikeResults (.ok v) (.ok v)
  | error {fault fault' : RuntimeFault} (h : fault.message = fault'.message) :
      AlikeResults (.error fault) (.error fault')

variable {v v' u u' : Value}

theorem Alike.toArgument (h : Alike base w v v') : v.toArgument = v'.toArgument := by
  cases h with
  | plain h => rfl
  | closure h => simp only [Value.toArgument, h.id, h.name, h.params]

theorem Alike.holds (h : Alike base w v v') : v.holds = v'.holds :=
  congrArg Argument.holds h.toArgument

theorem Alike.text (h : Alike base w v v') : v.text = v'.text :=
  congrArg Argument.text h.toArgument

theorem Alike.described (h : Alike base w v v') : v.described = v'.described := by
  cases h with
  | plain h => rfl
  | closure h =>
    simp only [Value.described, Value.typeName, Value.text, Value.toArgument, h.id, h.name,
      h.params]

theorem alike_ofLiteral (value : Literal) : Alike base w (.ofLiteral value) (.ofLiteral value) :=
  .plain (Chronicle.plain_ofLiteral value)

theorem alike_ofAnswer (number : Nat) {vs vs' : List Value}
    (hvs : List.Forall₂ (Alike base w) vs vs') (answer : Answer Native) :
    Alike base w (.ofAnswer number vs answer) (.ofAnswer number vs' answer) := by
  cases answer with
  | plain value => exact alike_ofLiteral value
  | native n => exact .plain fun _ => nofun
  | argument index =>
    unfold Value.ofAnswer
    induction hvs generalizing index with
    | nil => exact .plain fun _ => nofun
    | cons hv _ ih =>
      cases index with
      | zero => exact hv
      | succ index => exact ih index

theorem AlikeResults.refl {r : Except RuntimeFault Value} (h : Chronicle.Harmless r) :
    AlikeResults r r := by
  cases r with
  | ok v => exact .ok h
  | error fault => exact .error rfl

def describing : List (Value → RuntimeFault) :=
  [.operandNotNumber, .operandsNotNumbers, .expectedString, .expectedNumber, .notAddable,
    .notCallable]

theorem message_alike {fault : Value → RuntimeFault} (hf : fault ∈ describing)
    (h : Alike base w v v') : (fault v).message = (fault v').message := by
  have hd := h.described
  simp only [describing, List.mem_cons, List.not_mem_nil, or_false] at hf
  obtain rfl | rfl | rfl | rfl | rfl | rfl := hf
  all_goals
    unfold RuntimeFault.message
    dsimp only
    rw [hd]

theorem error_alike {fault : Value → RuntimeFault} (hf : fault ∈ describing)
    (h : Alike base w v v') : AlikeResults (.error (fault v)) (.error (fault v')) :=
  .error (message_alike hf h)

theorem unary_alike (operator : Kind) (h : Alike base w v v') :
    AlikeResults (Operator.unary operator v) (Operator.unary operator v') := by
  cases h with
  | plain h => exact .refl (Chronicle.unary_harmless operator v)
  | closure h =>
    cases operator with
    | minus => exact error_alike (by simp [describing]) (.closure h)
    | bang => exact .ok (fun _ => nofun)
    | _ => exact .error rfl

theorem add_alike (h : Alike base w v v') (h' : Alike base w u u') :
    AlikeResults (Operator.add v u) (Operator.add v' u') := by
  cases h with
  | closure h => exact error_alike (by simp [describing]) (.closure h)
  | plain h =>
    cases h' with
    | plain h' => exact .refl (Chronicle.add_harmless v u)
    | closure h' =>
      cases v with
      | string s => exact error_alike (by simp [describing]) (.closure h')
      | number x => exact error_alike (by simp [describing]) (.closure h')
      | _ => exact .error rfl

theorem onNumbers_alike {f : Float → Float → Value} (hf : ∀ x y, Plain (f x y))
    (h : Alike base w v v') (h' : Alike base w u u') :
    AlikeResults (Operator.onNumbers f v u) (Operator.onNumbers f v' u') := by
  cases h with
  | closure h => exact error_alike (by simp [describing]) (.closure h)
  | plain h =>
    cases h' with
    | plain h' => exact .refl (Chronicle.onNumbers_harmless hf v u)
    | closure h' =>
      cases v with
      | number x => exact error_alike (by simp [describing]) (.closure h')
      | _ => exact .error rfl

theorem binary_alike (operator : Kind) (h : Alike base w v v') (h' : Alike base w u u') :
    AlikeResults (Operator.binary operator v u) (Operator.binary operator v' u') := by
  have hsame : v.same u = v'.same u' := by
    unfold Value.same
    rw [h.toArgument, h'.toArgument]
  cases operator with
  | plus => exact add_alike h h'
  | equalEqual =>
    simp only [Operator.binary, hsame]
    exact .ok (by simp [Plain])
  | bangEqual =>
    simp only [Operator.binary, hsame]
    exact .ok (by simp [Plain])
  | minus | star | slash | less | lessEqual | greater | greaterEqual =>
    exact onNumbers_alike (fun _ _ => by simp [Plain]) h h'
  | _ => exact .error rfl

theorem decides_alike (operator : Kind) (h : Alike base w v v') :
    Operator.decides operator v = Operator.decides operator v' := by
  unfold Operator.decides
  rw [h.holds]

end Values

section Growth

theorem getElem?_later (h : w <+: w') {f : Nat} {e : Entry} (he : w[f]? = some e) :
    w'[f]? = some e := by
  obtain ⟨t, rfl⟩ := h
  rw [List.getElem?_append_left (List.getElem?_eq_some_iff.mp he).1]
  exact he

theorem frame?_later (h : w <+: w') {f r : Nat} (hf : frame? w f = some r) :
    frame? w' f = some r := by
  obtain ⟨e, he, rfl⟩ := Option.map_eq_some_iff.mp hf
  exact Option.map_eq_some_iff.mpr ⟨e, getElem?_later h he, rfl⟩

theorem Chain.later (h : w <+: w') {f : Nat} {marks : List Bool} (hc : Chain base w f marks) :
    Chain base w' f marks := by
  induction hc with
  | start hf => exact .start hf
  | link he hp _ ih => exact .link (getElem?_later h he) hp ih

theorem AlikeClosures.later (h : w <+: w') {c d : Closure} (hc : AlikeClosures base w c d) :
    AlikeClosures base w' c d := by
  obtain ⟨marks, hbody, hchain⟩ := hc.body
  exact ⟨hc.id, hc.name, hc.params, ⟨marks, hbody, hchain.later h⟩, frame?_later h hc.frame⟩

theorem Alike.later (h : w <+: w') {v v' : Value} (hv : Alike base w v v') :
    Alike base w' v v' := by
  cases hv with
  | plain hp => exact .plain hp
  | closure hc => exact .closure (hc.later h)

end Growth

structure Paired (base : Nat) (w : World) (s t : Store Value) : Prop where
  size : s.size = w.length
  /-- The frames from the start have the same numbers. -/
  before : ∀ f < base, ∃ parent, w[f]? = some ⟨parent, f, true⟩
  older : ∀ {f p : Nat} {e : Entry}, w[f]? = some e → e.parent = some p → p < f
  parent : ∀ {f : Nat} {e : Entry}, w[f]? = some e → s.parent? f = e.parent
  extra : ∀ {f : Nat} {e : Entry}, w[f]? = some e → e.copy = false →
    (∀ x, s.get? f x = none) ∧ ∃ p, e.parent = some p ∧ frame? w p = some e.frame
  copy : ∀ {f : Nat} {e : Entry}, w[f]? = some e → e.copy = true →
    e.frame < t.size ∧ t.parent? e.frame = e.parent.bind (frame? w) ∧
      ∀ x, Option.Rel (Alike base w) (s.get? f x) (t.get? e.frame x)
  unique : ∀ {f g : Nat} {e e' : Entry}, w[f]? = some e → w[g]? = some e' → e.copy = true →
    e'.copy = true → e.frame = e'.frame → f = g
  onto : ∀ r < t.size, ∃ (f : Nat) (e : Entry), w[f]? = some e ∧ e.copy = true ∧ e.frame = r

section Frames

variable {s t : Store Value}

theorem Paired.lt_size (h : Paired base w s t) {f : Nat} {e : Entry} (he : w[f]? = some e) :
    f < s.size := by
  rw [h.size]
  exact (List.getElem?_eq_some_iff.mp he).1

theorem Paired.frame?_lt (h : Paired base w s t) {f p : Nat} {e : Entry} (he : w[f]? = some e)
    (hp : e.parent = some p) : ∃ q, frame? w p = some q := by
  have hlt : p < w.length :=
    Nat.lt_trans (h.older he hp) (List.getElem?_eq_some_iff.mp he).1
  exact ⟨w[p].frame, Option.map_eq_some_iff.mpr ⟨w[p], List.getElem?_eq_getElem hlt, rfl⟩⟩

theorem Paired.frame?_before (h : Paired base w s t) {f : Nat} (hf : f < base) :
    frame? w f = some f := by
  obtain ⟨parent, he⟩ := h.before f hf
  exact Option.map_eq_some_iff.mpr ⟨_, he, rfl⟩

def Copies (w : World) (f r : Nat) : Prop :=
  ∃ e, w[f]? = some e ∧ e.copy = true ∧ e.frame = r

theorem Paired.copies_before (h : Paired base w s t) {f : Nat} (hf : f < base) : Copies w f f := by
  obtain ⟨parent, he⟩ := h.before f hf
  exact ⟨_, he, rfl, rfl⟩

theorem Paired.ancestor_before (h : Paired base w s t) {f : Nat} (hf : f < base)
    (distance : Nat) :
    Option.Rel (Copies w) (s.ancestor? f distance) (t.ancestor? f distance) := by
  induction distance generalizing f with
  | zero => exact .some (h.copies_before hf)
  | succ distance ih =>
    obtain ⟨parent, he⟩ := h.before f hf
    have hs : s.parent? f = parent := h.parent he
    have ht : t.parent? f = parent.bind (frame? w) := (h.copy he rfl).2.1
    unfold Store.ancestor?
    rw [hs, ht]
    cases parent with
    | none => exact .none
    | some p =>
      have hp : p < base := Nat.lt_trans (h.older he rfl) hf
      rw [Option.bind_some, h.frame?_before hp]
      exact ih hp

/-- A distance leads to a copy of the frame to which the distance without extra frames leads. -/
theorem Paired.ancestor (h : Paired base w s t) {f r : Nat} {marks : List Bool}
    (hc : Chain base w f marks) (hf : frame? w f = some r) (distance : Nat) :
    Option.Rel (Copies w) (s.ancestor? f (reach marks distance)) (t.ancestor? r distance) := by
  -- along the chain: an extra frame is one link of the first store, a copy one link of both
  induction hc generalizing r distance with
  | @start f hlt =>
    obtain rfl : f = r := Option.some.inj ((h.frame?_before hlt).symm.trans hf)
    exact h.ancestor_before hlt distance
  | @link f p e marks he hp hc ih =>
    obtain ⟨e', he', rfl⟩ := Option.map_eq_some_iff.mp hf
    obtain rfl : e = e' := Option.some.inj (he.symm.trans he')
    have hs : s.parent? f = some p := (h.parent he).trans hp
    cases hcopy : e.copy with
    | false =>
      obtain ⟨p', hp', hframe⟩ := (h.extra he hcopy).2
      obtain rfl : p = p' := Option.some.inj (hp.symm.trans hp')
      change Option.Rel (Copies w) (s.ancestor? f (reach marks distance + 1)) _
      rw [Store.ancestor?, hs]
      exact ih hframe distance
    | true =>
      cases distance with
      | zero => exact .some ⟨e, he, hcopy, rfl⟩
      | succ distance =>
        obtain ⟨q, hq⟩ := h.frame?_lt he hp
        have ht : t.parent? e.frame = some q := by
          rw [(h.copy he hcopy).2.1, hp, Option.bind_some, hq]
        change Option.Rel (Copies w) (s.ancestor? f (reach marks distance + 1)) _
        rw [Store.ancestor?, Store.ancestor?, hs, ht]
        exact ih hq distance

end Frames

section Operations

variable {s t : Store Value}

theorem getElem?_grown {x e : Entry} {f : Nat} :
    (w ++ [x])[f]? = some e ↔ w[f]? = some e ∨ f = w.length ∧ x = e := by
  by_cases hlt : f < w.length
  · rw [List.getElem?_append_left hlt]
    simp [Nat.ne_of_lt hlt]
  · rw [List.getElem?_append_right (Nat.le_of_not_lt hlt),
      List.getElem?_eq_none (Nat.le_of_not_lt hlt)]
    by_cases heq : f = w.length
    · simp [heq]
    · have hpos : f - w.length ≠ 0 := by omega
      simp [heq, hpos]

theorem prefix_grown (x : Entry) : w <+: w ++ [x] :=
  List.prefix_append w [x]

theorem Alike.get?_later (h : w <+: w') {o o' : Option Value}
    (ho : Option.Rel (Alike base w) o o') : Option.Rel (Alike base w') o o' := by
  cases ho with
  | none => exact .none
  | some hv => exact .some (hv.later h)

theorem lt_length_of_frame? {f r : Nat} (h : frame? w f = some r) : f < w.length := by
  obtain ⟨e, he, -⟩ := Option.map_eq_some_iff.mp h
  exact (List.getElem?_eq_some_iff.mp he).1

section Old

variable {f : Nat} {e : Entry} (h : Paired base w s t) (he : w[f]? = some e) (x : Entry)
include h he

theorem Paired.frames_old : e.parent.bind (frame? (w ++ [x])) = e.parent.bind (frame? w) := by
  cases hp : e.parent with
  | none => rfl
  | some p =>
    obtain ⟨q, hq⟩ := h.frame?_lt he hp
    rw [Option.bind_some, Option.bind_some, hq, frame?_later (prefix_grown x) hq]

theorem Paired.extra_old (hcopy : e.copy = false) (parent : Option Nat) :
    (∀ y, (s.push parent).get? f y = none) ∧
      ∃ p, e.parent = some p ∧ frame? (w ++ [x]) p = some e.frame := by
  obtain ⟨hnone, p, hp, hframe⟩ := h.extra he hcopy
  exact ⟨fun y => by rw [Store.get?_push, hnone], p, hp, frame?_later (prefix_grown x) hframe⟩

end Old

section Grown

variable {x : Entry} {p q : Nat} (h : Paired base w s t)
include h

theorem Paired.size_grown (parent : Option Nat) : (s.push parent).size = (w ++ [x]).length := by
  rw [Store.size_push, h.size, List.length_append, List.length_singleton]

theorem Paired.before_grown (f : Nat) (hf : f < base) :
    ∃ parent, (w ++ [x])[f]? = some ⟨parent, f, true⟩ :=
  (h.before f hf).imp fun _ he => getElem?_later (prefix_grown x) he

variable (hx : x.parent = some p)
include hx

theorem Paired.older_grown (hp : frame? w p = some q) {f g : Nat} {e : Entry}
    (he : (w ++ [x])[f]? = some e) (hg : e.parent = some g) : g < f := by
  obtain hw | ⟨rfl, rfl⟩ := getElem?_grown.mp he
  · exact h.older hw hg
  · obtain rfl : p = g := Option.some.inj (hx.symm.trans hg)
    exact lt_length_of_frame? hp

theorem Paired.parent_grown {f : Nat} {e : Entry} (he : (w ++ [x])[f]? = some e) :
    (s.push (some p)).parent? f = e.parent := by
  rw [Store.parent?_push]
  obtain hw | ⟨rfl, rfl⟩ := getElem?_grown.mp he
  · rw [if_neg (Nat.ne_of_lt (h.lt_size hw)), h.parent hw]
  · rw [if_pos h.size.symm, hx]

end Grown

theorem Paired.pushExtra (h : Paired base w s t) {p q : Nat} (hp : frame? w p = some q) :
    Paired base (w ++ [⟨some p, q, false⟩]) (s.push (some p)) t where
  size := h.size_grown (some p)
  before := h.before_grown
  older := h.older_grown rfl hp
  parent := h.parent_grown rfl
  extra he hcopy := by
    obtain hw | ⟨rfl, rfl⟩ := getElem?_grown.mp he
    · exact h.extra_old hw _ hcopy _
    · refine ⟨fun x => ?_, p, rfl, frame?_later (prefix_grown _) hp⟩
      rw [Store.get?_push, Store.get?_new (Nat.le_of_eq h.size)]
  copy he hcopy := by
    obtain hw | ⟨rfl, rfl⟩ := getElem?_grown.mp he
    · obtain ⟨hlt, hparent, hget⟩ := h.copy hw hcopy
      refine ⟨hlt, hparent.trans (h.frames_old hw _).symm, fun x => ?_⟩
      rw [Store.get?_push]
      exact Alike.get?_later (prefix_grown _) (hget x)
    · cases hcopy
  unique he he' hcopy hcopy' hframe := by
    obtain hw | ⟨rfl, rfl⟩ := getElem?_grown.mp he
    · obtain hw' | ⟨rfl, rfl⟩ := getElem?_grown.mp he'
      · exact h.unique hw hw' hcopy hcopy' hframe
      · cases hcopy'
    · cases hcopy
  onto r hr := by
    obtain ⟨f, e, he, hcopy, hframe⟩ := h.onto r hr
    exact ⟨f, e, getElem?_later (prefix_grown _) he, hcopy, hframe⟩

theorem Paired.push (h : Paired base w s t) {p q : Nat} (hp : frame? w p = some q) :
    Paired base (w ++ [⟨some p, t.size, true⟩]) (s.push (some p)) (t.push (some q)) where
  size := h.size_grown (some p)
  before := h.before_grown
  older := h.older_grown rfl hp
  parent := h.parent_grown rfl
  extra he hcopy := by
    obtain hw | ⟨rfl, rfl⟩ := getElem?_grown.mp he
    · exact h.extra_old hw _ hcopy _
    · cases hcopy
  copy he hcopy := by
    obtain hw | ⟨rfl, rfl⟩ := getElem?_grown.mp he
    · obtain ⟨hlt, hparent, hget⟩ := h.copy hw hcopy
      refine ⟨by rw [Store.size_push]; omega, ?_, fun x => ?_⟩
      · rw [Store.parent?_push, if_neg (Nat.ne_of_lt hlt), hparent, h.frames_old hw]
      · rw [Store.get?_push, Store.get?_push]
        exact Alike.get?_later (prefix_grown _) (hget x)
    · refine ⟨by rw [Store.size_push]; exact Nat.lt_succ_self t.size, ?_, fun x => ?_⟩
      · rw [Store.parent?_push, if_pos rfl, Option.bind_some, frame?_later (prefix_grown _) hp]
      · rw [Store.get?_push, Store.get?_push, Store.get?_new (Nat.le_of_eq h.size),
          Store.get?_new (Nat.le_refl _)]
        exact .none
  unique he he' hcopy hcopy' hframe := by
    obtain hw | ⟨rfl, rfl⟩ := getElem?_grown.mp he
    · obtain hw' | ⟨rfl, rfl⟩ := getElem?_grown.mp he'
      · exact h.unique hw hw' hcopy hcopy' hframe
      · exact absurd hframe (Nat.ne_of_lt (h.copy hw hcopy).1)
    · obtain hw' | ⟨rfl, -⟩ := getElem?_grown.mp he'
      · exact absurd hframe.symm (Nat.ne_of_lt (h.copy hw' hcopy').1)
      · rfl
  onto r hr := by
    rw [Store.size_push] at hr
    by_cases hlt : r < t.size
    · obtain ⟨f, e, he, hcopy, hframe⟩ := h.onto r hlt
      exact ⟨f, e, getElem?_later (prefix_grown _) he, hcopy, hframe⟩
    · exact ⟨w.length, _, getElem?_grown.mpr (.inr ⟨rfl, rfl⟩), rfl, by
        change t.size = r
        omega⟩

theorem Paired.define (h : Paired base w s t) {f r : Nat} (hf : Copies w f r) (x : String)
    {v v' : Value} (hv : Alike base w v v') :
    Paired base w (s.define f x v) (t.define r x v') := by
  obtain ⟨c, hc, hcopies, rfl⟩ := hf
  refine
    { size := by rw [Store.size_define, h.size]
      before := h.before
      older := h.older
      parent := fun he => by rw [Store.parent?_define, h.parent he]
      extra := fun {g e} he hcopy => ?_
      copy := fun {g e} he hcopy => ?_
      unique := h.unique
      onto := fun r hr => h.onto r (by rwa [Store.size_define] at hr) }
  · obtain ⟨hnone, hframe⟩ := h.extra he hcopy
    refine ⟨fun y => ?_, hframe⟩
    have hne : g ≠ f := by
      rintro rfl
      obtain rfl : e = c := Option.some.inj (he.symm.trans hc)
      exact Bool.false_ne_true (hcopy.symm.trans hcopies)
    rw [Store.get?_define, if_neg fun hg => hne hg.1, hnone]
  · obtain ⟨hlt, hparent, hget⟩ := h.copy he hcopy
    refine ⟨by rwa [Store.size_define], by rwa [Store.parent?_define], fun y => ?_⟩
    have hsame : e.frame = c.frame ↔ g = f := by
      constructor
      · exact h.unique he hc hcopy hcopies
      · rintro rfl
        obtain rfl : e = c := Option.some.inj (he.symm.trans hc)
        rfl
    have hsize : f < s.size := h.lt_size hc
    have hsize' : c.frame < t.size := (h.copy hc hcopies).1
    rw [Store.get?_define, Store.get?_define]
    by_cases hg : g = f ∧ y = x
    · rw [if_pos ⟨hg.1, hg.2, hsize⟩, if_pos ⟨hsame.mpr hg.1, hg.2, hsize'⟩]
      exact .some hv
    · rw [if_neg fun h => hg ⟨h.1, h.2.1⟩, if_neg fun h => hg ⟨hsame.mp h.1, h.2.1⟩]
      exact hget y

theorem Paired.get? (h : Paired base w s t) {f r : Nat} (hf : Copies w f r) (x : String) :
    Option.Rel (Alike base w) (s.get? f x) (t.get? r x) := by
  obtain ⟨e, he, hcopy, rfl⟩ := hf
  exact (h.copy he hcopy).2.2 x

theorem Paired.assign (h : Paired base w s t) {f r : Nat} (hf : Copies w f r) (x : String)
    {v v' : Value} (hv : Alike base w v v') :
    (s.assign f x v).1 = (t.assign r x v').1 ∧
      Paired base w (s.assign f x v).2 (t.assign r x v').2 := by
  have hget := h.get? hf x
  unfold Store.assign
  generalize s.get? f x = o at hget
  generalize t.get? r x = o' at hget
  cases hget with
  | none => exact ⟨rfl, h⟩
  | some _ => exact ⟨rfl, h.define hf x hv⟩

theorem Paired.defineAll (h : Paired base w s t) {f r : Nat} (hf : Copies w f r)
    (names : List String) {vs vs' : List Value} (hvs : List.Forall₂ (Alike base w) vs vs') :
    Paired base w ((names.zip vs).foldl (fun s b => s.define f b.1 b.2) s)
      ((names.zip vs').foldl (fun s b => s.define r b.1 b.2) t) := by
  induction names generalizing s t vs vs' with
  | nil => exact h
  | cons x names ih =>
    cases hvs with
    | nil => exact h
    | cons hv hvs => exact ih (h.define hf x hv) hvs

end Operations

end ScriptLang.Desugaring
