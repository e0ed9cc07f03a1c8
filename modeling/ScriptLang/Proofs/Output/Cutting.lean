import ScriptLang.Proofs.Output.Sinks
import ScriptLang.Proofs.Output.Traced
import ScriptLang.Proofs.Running.Hosts

namespace ScriptLang

def Machine.into (m : Machine) (s : Sink) : Machine := { m with sink := s }

namespace Output

open Evaluation (Host Congruence bind_apply)
open Traced

variable {α β : Type}

section Moments

def Moment.text : Moment → ByteArray
  | ⟨.prints v, _⟩ => (v.text ++ "\n").toUTF8
  | _ => .empty

/-- What is printed in all. -/
def printed : List Moment → ByteArray
  | [] => .empty
  | t :: ts => t.text ++ printed ts

def Moment.sinkless (t : Moment) : Moment := ⟨t.act, t.machine.into .unlimited⟩

/-- The same acts, on machines that differ in their sinks alone. -/
def SameButSinks (ts us : List Moment) : Prop :=
  ts.map Moment.sinkless = us.map Moment.sinkless

theorem SameButSinks.append {ts us ts' us' : List Moment} (h : SameButSinks ts us)
    (h' : SameButSinks ts' us') : SameButSinks (ts ++ ts') (us ++ us') := by
  unfold SameButSinks at h h' ⊢
  rw [List.map_append, List.map_append, h, h']

theorem printed_append (ts us : List Moment) : printed (ts ++ us) = printed ts ++ printed us := by
  induction ts with
  | nil => exact ByteArray.empty_append.symm
  | cons t ts ih => rw [List.cons_append, printed, printed, ih, ByteArray.append_assoc]

end Moments

def withSink (s : Sink) : EStateM.Result Stop Machine α → EStateM.Result Stop Machine α
  | .ok a n => .ok a (n.into s)
  | .error stop n => .error stop (n.into s)

def Whole (p : Traced α) (m : Machine) (s : Sink) : Prop :=
  p.run (m.into s) = withSink (s.write (printed (p.moments m))) (p.run m) ∧
    SameButSinks (p.moments (m.into s)) (p.moments m)

/-- A run of which the sink does not take everything stops at the print that crosses the limit. That
print is the same for all sinks with so much room. -/
def Cut (p : Traced α) (m : Machine) (s : Sink) : Prop :=
  ∃ earlier v n later,
    p.moments m = earlier ++ ⟨.prints v, n⟩ :: later ∧
    s.fits (printed earlier) = true ∧
    s.fits (printed (earlier ++ [⟨.prints v, n⟩])) = false ∧
    ∀ t : Sink, t.room = s.room →
      p.run (m.into t) = .error (.output .sinkFull)
        { n with
          sink := t.write (printed (p.moments m))
          current := m.current
          depth := m.depth } ∧
      SameButSinks (p.moments (m.into t)) (earlier ++ [⟨.prints v, n⟩])

structure Cuts (p : Traced α) (q : Run α) : Prop where
  run : p.run = q
  stays : ∀ {m a n}, q m = .ok a n → n.current = m.current ∧ n.depth = m.depth
  whole : ∀ {m s}, m.sink.room = none → s.fits (printed (p.moments m)) = true → Whole p m s
  cut : ∀ {m s}, m.sink.room = none → s.fits (printed (p.moments m)) = false → Cut p m s

section Combination

structure Blind (q : Run α) : Prop where
  stays : ∀ {m a n}, q m = .ok a n → n.current = m.current ∧ n.depth = m.depth
  same : ∀ m s, q (m.into s) = withSink s (q m)

theorem Blind.cuts {q : Run α} (h : Blind q) : Cuts (silent q) q := by
  refine ⟨rfl, h.stays, fun {m s} _ _ => ⟨?_, rfl⟩, fun {m s} _ hfull => ?_⟩
  · change q (m.into s) = withSink (s.write .empty) (q m)
    rw [Sink.write_empty]
    exact h.same m s
  · change s.fits .empty = false at hfull
    rw [Sink.fits_empty] at hfull
    cases hfull

variable {p : Traced α} {q : Run α}

/-- Nothing limits the sink after a run that nothing limited before. -/
theorem Cuts.room (h : Cuts p q) {m n : Machine} {a : α} (hm : m.sink.room = none)
    (hn : q m = .ok a n) : n.sink.room = none := by
  have hfits : m.sink.fits (printed (p.moments m)) = true := by simp [Sink.fits, hm]
  have hrun := (h.whole hm hfits).1
  have hself : p.run m = .ok a n := by rw [h.run, hn]
  rw [show m.into m.sink = m from rfl, hself] at hrun
  injection hrun with _ hmachine
  rw [hmachine]
  simp [Machine.into, Sink.write, hm]

section Bind

variable {f : α → Traced β} {m n : Machine} {a : α}

theorem bind_run_ok (h : p.run m = .ok a n) : (p >>= f).run m = (f a).run n := by
  change (p.run >>= fun a => (f a).run) m = _
  rw [bind_apply, h]

theorem bind_run_error {stop : Stop} (h : p.run m = .error stop n) :
    (p >>= f).run m = .error stop n := by
  change (p.run >>= fun a => (f a).run) m = _
  rw [bind_apply, h]

theorem bind_moments_ok (h : p.run m = .ok a n) :
    (p >>= f).moments m = p.moments m ++ (f a).moments n := by
  change p.moments m ++ after _ (p.run m) = _
  rw [h]
  rfl

theorem bind_moments_error {stop : Stop} (h : p.run m = .error stop n) :
    (p >>= f).moments m = p.moments m := by
  change p.moments m ++ after _ (p.run m) = _
  rw [h]
  exact List.append_nil _

/-- Two runs one after the other, of which the sink takes everything. -/
theorem Whole.bind {s : Sink} (h : Whole p m s) (hp : p.run m = .ok a n)
    (hf : Whole (f a) n (s.write (printed (p.moments m)))) : Whole (p >>= f) m s := by
  obtain ⟨hrun, hmoments⟩ := h
  obtain ⟨hrun', hmoments'⟩ := hf
  rw [hp] at hrun
  unfold Whole
  rw [bind_run_ok hrun, bind_run_ok hp, bind_moments_ok hrun, bind_moments_ok hp, printed_append,
    ← Sink.write_write]
  exact ⟨hrun', hmoments.append hmoments'⟩

theorem Whole.stopped {s : Sink} {stop : Stop} (h : Whole p m s) (hp : p.run m = .error stop n) :
    Whole (p >>= f) m s := by
  obtain ⟨hrun, hmoments⟩ := h
  rw [hp] at hrun
  unfold Whole
  rw [bind_run_error hrun, bind_run_error hp, bind_moments_error hrun, bind_moments_error hp]
  exact ⟨rfl, hmoments⟩

theorem Cut.first {s : Sink} (h : Cut p m s) : Cut (p >>= f) m s := by
  obtain ⟨earlier, v, k, later, hmoments, hfits, hfull, hcut⟩ := h
  have hafter : (p >>= f).moments m =
      earlier ++ ⟨.prints v, k⟩ :: (later ++ after (fun a => (f a).moments) (p.run m)) := by
    change p.moments m ++ after _ (p.run m) = _
    rw [hmoments, List.append_assoc, List.cons_append]
  have hwritten : ∀ t : Sink, t.room = s.room →
      t.write (printed ((p >>= f).moments m)) = t.write (printed (p.moments m)) := by
    intro t ht
    rw [← Sink.fits_congr ht] at hfull
    have hmore : (p >>= f).moments m =
      (earlier ++ [⟨.prints v, k⟩]) ++ (later ++ after (fun a => (f a).moments) (p.run m)) := by
      rw [hafter, List.append_assoc, List.singleton_append]
    have hless : p.moments m = (earlier ++ [⟨.prints v, k⟩]) ++ later := by
      rw [hmoments, List.append_assoc, List.singleton_append]
    rw [hmore, hless, printed_append, printed_append _ later, Sink.write_append_of_not_fits hfull,
      Sink.write_append_of_not_fits hfull]
  refine ⟨earlier, v, k, _, hafter, hfits, hfull, fun t ht => ?_⟩
  obtain ⟨hrun, hsame⟩ := hcut t ht
  rw [bind_run_error hrun, bind_moments_error hrun, hwritten t ht]
  exact ⟨rfl, hsame⟩

theorem Cut.second {s : Sink} (h : ∀ t : Sink, t.room = s.room → Whole p m t)
    (hp : p.run m = .ok a n) (hstays : n.current = m.current ∧ n.depth = m.depth)
    (hfits : s.fits (printed (p.moments m)) = true)
    (hf : Cut (f a) n (s.write (printed (p.moments m)))) : Cut (p >>= f) m s := by
  obtain ⟨earlier, v, k, later, hmoments, hfits', hfull, hcut⟩ := hf
  refine ⟨p.moments m ++ earlier, v, k, later, ?_, ?_, ?_, fun t ht => ?_⟩
  · rw [bind_moments_ok hp, hmoments, List.append_assoc]
  · rw [printed_append, Sink.fits_append, hfits, hfits']
    rfl
  · rw [List.append_assoc, printed_append, Sink.fits_append, hfits, hfull]
    rfl
  · obtain ⟨hrun, hsame⟩ := h t ht
    rw [hp] at hrun
    obtain ⟨hrun', hsame'⟩ := hcut (t.write (printed (p.moments m))) (Sink.room_write_congr ht)
    rw [bind_run_ok hrun, bind_moments_ok hrun, bind_moments_ok hp, printed_append,
      ← Sink.write_write, ← hstays.1, ← hstays.2, List.append_assoc]
    exact ⟨hrun', hsame.append hsame'⟩

theorem Cuts.bind {g : α → Run β} (h : Cuts p q) (hf : ∀ a, Cuts (f a) (g a)) :
    Cuts (p >>= f) (q >>= g) := by
  refine ⟨?_, fun {m b n} hn => ?_, fun {m s} hm hfits => ?_, fun {m s} hm hfull => ?_⟩
  · change (p.run >>= fun a => (f a).run) = _
    rw [h.run]
    exact congrArg (q >>= ·) (funext fun a => (hf a).run)
  · rw [bind_apply] at hn
    cases hq : q m with
    | ok a k =>
      rw [hq] at hn
      obtain ⟨hcurrent, hdepth⟩ := h.stays hq
      obtain ⟨hcurrent', hdepth'⟩ := (hf a).stays hn
      exact ⟨hcurrent'.trans hcurrent, hdepth'.trans hdepth⟩
    | error stop k =>
      rw [hq] at hn
      cases hn
  · cases hq : p.run m with
    | ok a n =>
      have hroom := h.room hm (h.run ▸ hq)
      rw [bind_moments_ok hq, printed_append, Sink.fits_append, Bool.and_eq_true] at hfits
      exact (h.whole hm hfits.1).bind hq ((hf a).whole hroom hfits.2)
    | error stop n =>
      rw [bind_moments_error hq] at hfits
      exact (h.whole hm hfits).stopped hq
  · -- the limit is crossed in the first run already, or only in the second
    cases hfirst : s.fits (printed (p.moments m)) with
    | false => exact (h.cut hm hfirst).first
    | true =>
      have hwhole : ∀ t : Sink, t.room = s.room → Whole p m t := fun t ht =>
        h.whole hm ((Sink.fits_congr ht).trans hfirst)
      cases hq : p.run m with
      | ok a n =>
        have hqn : q m = .ok a n := h.run ▸ hq
        rw [bind_moments_ok hq, printed_append, Sink.fits_append, hfirst, Bool.true_and] at hfull
        exact .second hwhole hq (h.stays hqn) hfirst ((hf a).cut (h.room hm hqn) hfull)
      | error stop n =>
        rw [bind_moments_error hq, hfirst] at hfull
        cases hfull

end Bind

theorem Cuts.noted {act : Act} (h : Cuts p q) (hact : ∀ m, Moment.text ⟨act, m⟩ = .empty) :
    Cuts (noted act p) q := by
  have hprinted : ∀ m, printed ((Traced.noted act p).moments m) = printed (p.moments m) := by
    intro m
    change Moment.text ⟨act, m⟩ ++ _ = _
    rw [hact, ByteArray.empty_append]
  have hfirst : ∀ {m s us}, SameButSinks (p.moments (m.into s)) us →
      SameButSinks ((Traced.noted act p).moments (m.into s)) (⟨act, m⟩ :: us) :=
    fun h => congrArg (List.cons _) h
  refine ⟨h.run, h.stays, fun {m s} hm hfits => ?_, fun {m s} hm hfull => ?_⟩
  · rw [hprinted] at hfits
    obtain ⟨hrun, hsame⟩ := h.whole hm hfits
    unfold Whole
    rw [hprinted]
    exact ⟨hrun, hfirst hsame⟩
  · rw [hprinted] at hfull
    obtain ⟨earlier, v, n, later, hmoments, hfits, hcrossed, hcut⟩ := h.cut hm hfull
    have hskip : ∀ ts, printed (⟨act, m⟩ :: ts) = printed ts := by
      intro ts
      rw [printed, hact, ByteArray.empty_append]
    refine ⟨⟨act, m⟩ :: earlier, v, n, later, congrArg (List.cons _) hmoments, ?_, ?_,
      fun t ht => ?_⟩
    · rw [hskip]
      exact hfits
    · rw [List.cons_append, hskip]
      exact hcrossed
    · rw [hprinted]
      exact ⟨(hcut t ht).1, hfirst (hcut t ht).2⟩

def around (enter : Machine → Machine) (leave : Machine → Machine → Machine) (q : Run α) : Run α :=
  fun m =>
    match q (enter m) with
    | .ok a n => .ok a (leave m n)
    | .error stop n => .error stop (leave m n)

theorem Cuts.around {enter : Machine → Machine} {leave : Machine → Machine → Machine}
    (henter : ∀ m s, enter (m.into s) = (enter m).into s) (hroom : ∀ m, (enter m).sink = m.sink)
    (hleave : ∀ m n s t, leave (m.into s) (n.into t) = (leave m n).into t)
    (hback : ∀ m n : Machine,
      leave m { n with current := (enter m).current, depth := (enter m).depth } =
        { n with current := m.current, depth := m.depth }) (h : Cuts p q) :
    Cuts ⟨around enter leave p.run, fun m => p.moments (enter m)⟩ (around enter leave q) := by
  have hrun : p.run = q := h.run
  subst hrun
  refine ⟨rfl, fun {m a n} hn => ?_, fun {m s} hm hfits => ?_, fun {m s} hm hfull => ?_⟩
  · unfold Output.around at hn
    cases hq : p.run (enter m) with
    | ok b k =>
      rw [hq] at hn
      obtain ⟨hcurrent, hdepth⟩ := h.stays hq
      have hk := hback m k
      rw [← hcurrent, ← hdepth] at hk
      injection hn with _ hmachine
      rw [← hmachine, show leave m k = _ from hk]
      exact ⟨rfl, rfl⟩
    | error stop k =>
      rw [hq] at hn
      cases hn
  · obtain ⟨hinner, hsame⟩ := h.whole ((hroom m).symm ▸ hm) hfits
    refine ⟨?_, ?_⟩
    · change Output.around enter leave p.run (m.into s) =
        withSink _ (Output.around enter leave p.run m)
      unfold Output.around
      rw [henter, hinner]
      cases p.run (enter m) with
      | ok a n => exact congrArg (EStateM.Result.ok a) (hleave m n s _)
      | error stop n => exact congrArg (EStateM.Result.error stop) (hleave m n s _)
    · change SameButSinks (p.moments (enter (m.into s))) _
      rw [henter]
      exact hsame
  · obtain ⟨earlier, v, n, later, hmoments, hfits, hcrossed, hcut⟩ :=
      h.cut ((hroom m).symm ▸ hm) hfull
    refine ⟨earlier, v, n, later, hmoments, hfits, hcrossed, fun t ht => ?_⟩
    obtain ⟨hinner, hsame⟩ := hcut t ht
    refine ⟨?_, ?_⟩
    · change Output.around enter leave p.run (m.into t) = _
      unfold Output.around
      rw [henter, hinner]
      have hleft := hleave m { n with current := (enter m).current, depth := (enter m).depth } t
        (t.write (printed (p.moments (enter m))))
      rw [hback] at hleft
      exact congrArg (EStateM.Result.error _) hleft
    · change SameButSinks (p.moments (enter (m.into t))) _
      rw [henter]
      exact hsame

theorem Cuts.inFrame (h : Cuts p q) (frame : Nat) :
    Cuts (inFrame frame p) (Evaluation.inFrame frame q) :=
  .around (fun _ _ => rfl) (fun _ => rfl) (fun _ _ _ _ => rfl) (fun _ _ => rfl) h

theorem Cuts.inCall (h : Cuts p q) : Cuts (inCall p) (Evaluation.inCall q) :=
  .around (fun _ _ => rfl) (fun _ => rfl) (fun _ _ _ _ => rfl) (fun _ _ => rfl) h

theorem Cuts.reading {γ : Type} {look : Machine → γ} (hlook : ∀ m s, look (m.into s) = look m)
    {f : γ → Traced β} {g : Machine → Run β} (hf : ∀ m, Cuts (f (look m)) (g m)) :
    Cuts (reading look >>= f) (get >>= g) := by
  have hrun : ∀ m s, (Traced.reading look >>= f).run (m.into s) = (f (look m)).run (m.into s) := by
    intro m s
    rw [← hlook m s]
    rfl
  have hmoments : ∀ m s,
      (Traced.reading look >>= f).moments (m.into s) = (f (look m)).moments (m.into s) := by
    intro m s
    rw [← hlook m s]
    rfl
  refine ⟨funext fun m => congrFun (hf m).run m, fun {m _ _} h => (hf m).stays h,
    fun {m s} hm hfits => ?_, fun {m s} hm hfull => ?_⟩
  · obtain ⟨hwhole, hsame⟩ := (hf m).whole hm hfits
    exact ⟨(hrun m s).trans hwhole, hmoments m s ▸ hsame⟩
  · obtain ⟨earlier, v, n, later, hall, hfits, hcrossed, hcut⟩ := (hf m).cut hm hfull
    exact ⟨earlier, v, n, later, hall, hfits, hcrossed, fun t ht =>
      ⟨(hrun m t).trans (hcut t ht).1, hmoments m t ▸ (hcut t ht).2⟩⟩

end Combination

section Primitives

theorem pure_blind (a : α) : Blind (pure a : Run α) := by
  refine ⟨fun {m b n} h => ?_, fun _ _ => rfl⟩
  cases h
  exact ⟨rfl, rfl⟩

theorem throw_blind (stop : Stop) : Blind (throw stop : Run α) := by
  refine ⟨fun {m b n} h => ?_, fun _ _ => rfl⟩
  cases h

theorem frameOf?_into (m : Machine) (s : Sink) (binding : Binding) :
    (m.into s).frameOf? binding = m.frameOf? binding := by
  cases binding <;> rfl

theorem readVariable_blind (binding : Binding) (name : Token) :
    Blind (Evaluation.readVariable binding name) := by
  refine ⟨fun {m v n} h => ?_, fun m s => ?_⟩
  · unfold Evaluation.readVariable at h
    split at h
    · cases h
      exact ⟨rfl, rfl⟩
    · cases h
  · have hstore : (m.into s).store = m.store := rfl
    unfold Evaluation.readVariable
    rw [frameOf?_into, hstore]
    cases (m.frameOf? binding).bind (m.store.get? · name.lexeme) <;> rfl

theorem writeVariable_blind (binding : Binding) (name : Token) (v : Value) :
    Blind (Evaluation.writeVariable binding name v) := by
  refine ⟨fun {m u n} h => ?_, fun m s => ?_⟩
  · rcases Evaluation.writeVariable_cases binding name v m with ⟨-, hw⟩ | ⟨f, -, -, hw⟩
    · rw [hw] at h
      cases h
    · rw [hw] at h
      cases h
      exact ⟨rfl, rfl⟩
  · have hstore : (m.into s).store = m.store := rfl
    unfold Evaluation.writeVariable
    rw [frameOf?_into]
    cases m.frameOf? binding with
    | none => rfl
    | some frame =>
      simp only [Machine.onStore, hstore]
      cases (m.store.assign frame name.lexeme v).1 <;> rfl

theorem defineVariable_blind (name : Token) (v : Value) :
    Blind (Evaluation.defineVariable name v) := by
  refine ⟨fun {m u n} h => ?_, fun _ _ => rfl⟩
  cases h
  exact ⟨rfl, rfl⟩

theorem makeClosure_blind (name : String) (params : List Token) (body : List (Stmt Binding)) :
    Blind (Evaluation.makeClosure name params body) := by
  refine ⟨fun {m u n} h => ?_, fun _ _ => rfl⟩
  cases h
  exact ⟨rfl, rfl⟩

theorem pushFrame_blind (parent : Nat) (bindings : List (String × Value)) :
    Blind (Evaluation.pushFrame parent bindings) := by
  refine ⟨fun {m u n} h => ?_, fun _ _ => rfl⟩
  cases h
  exact ⟨rfl, rfl⟩

theorem heed_blind (m : Machine) (ns : List Native) :
    (m.heed ns).current = m.current ∧ (m.heed ns).depth = m.depth ∧
      ∀ s, (m.into s).heed ns = (m.heed ns).into s := by
  have hfold : ∀ m : Machine, (ns.foldl Machine.defineNative m).current = m.current ∧
      (ns.foldl Machine.defineNative m).depth = m.depth ∧
      ∀ s, ns.foldl Machine.defineNative (m.into s) =
        (ns.foldl Machine.defineNative m).into s := by
    induction ns with
    | nil => exact fun m => ⟨rfl, rfl, fun _ => rfl⟩
    | cons n ns ih => exact fun m => ih (m.defineNative n)
  exact hfold m.numbered

theorem callNative_blind (line : Nat) (n : Native) (arguments : List Value) :
    Blind (Evaluation.callNative line n arguments) := by
  by_cases harity : arguments.length = n.arity
  · refine ⟨fun {m v k} h => ?_, fun m s => ?_⟩
    · rw [Evaluation.callNative_apply m harity] at h
      cases hresult : (n.run m.nextId (arguments.map Value.toArgument)).result with
      | ok answer =>
        rw [hresult] at h
        cases h
        exact ⟨(heed_blind m _).1, (heed_blind m _).2.1⟩
      | error message =>
        rw [hresult] at h
        cases h
    · have hnumber : (m.into s).nextId = m.nextId := rfl
      rw [Evaluation.callNative_apply m harity, Evaluation.callNative_apply _ harity, hnumber,
        (heed_blind m _).2.2]
      cases (n.run m.nextId (arguments.map Value.toArgument)).result <;> rfl
  · unfold Evaluation.callNative
    rw [if_pos harity]
    exact throw_blind _

theorem pure_cuts (a : α) : Cuts (pure a) (pure a) :=
  (pure_blind a).cuts

theorem throw_cuts (stop : Stop) : Cuts (throw stop : Traced α) (throw stop) :=
  (throw_blind stop).cuts

theorem printValue_cuts (v : Value) : Cuts (printValue v) (Evaluation.printValue v) := by
  have hprinted : ∀ m : Machine, printed ((printValue v).moments m) = (v.text ++ "\n").toUTF8 :=
    fun _ => ByteArray.append_empty
  refine ⟨rfl, fun {m u n} h => ?_, fun {m s} hm hfits => ⟨?_, rfl⟩, fun {m s} hm hfull => ?_⟩
  · unfold Evaluation.printValue at h
    cases hf : m.sink.fits (v.text ++ "\n").toUTF8 with
    | true =>
      simp only [hf, if_true] at h
      cases h
      exact ⟨rfl, rfl⟩
    | false =>
      simp only [hf] at h
      cases h
  · have hwide : m.sink.fits (v.text ++ "\n").toUTF8 = true := by simp [Sink.fits, hm]
    rw [hprinted] at hfits ⊢
    change Evaluation.printValue v (m.into s) = withSink _ (Evaluation.printValue v m)
    unfold Evaluation.printValue
    simp only [hwide, show (m.into s).sink = s from rfl, hfits, if_true]
    rfl
  · rw [hprinted] at hfull
    refine ⟨[], v, m, [], rfl, Sink.fits_empty, ?_, fun t ht => ⟨?_, rfl⟩⟩
    · rw [show ([] : List Moment) ++ [⟨.prints v, m⟩] = (printValue v).moments m from rfl, hprinted]
      exact hfull
    · rw [← Sink.fits_congr ht] at hfull
      rw [hprinted]
      change Evaluation.printValue v (m.into t) = _
      unfold Evaluation.printValue
      simp only [show (m.into t).sink = t from rfl, hfull]
      rfl

end Primitives

section Evaluation

theorem inBlock_cuts {p : Traced Flow} {q : Run Flow} (h : Cuts p q) :
    Cuts (Host.inBlock p) (Evaluation.inBlock q) := by
  dsimp only [Host.inBlock, Evaluation.inBlock]
  apply Cuts.reading fun _ _ => rfl
  intro m
  apply (pushFrame_blind _ _).cuts.bind
  intro frame
  exact h.inFrame frame

theorem inBody_cuts {p : Traced Flow} {q : Run Flow} (h : Cuts p q) (line : Nat) (c : Closure)
    (bindings : List (String × Value)) :
    Cuts (Host.inBody line c bindings p) (Evaluation.inBody line c bindings q) := by
  dsimp only [Host.inBody, Evaluation.inBody]
  apply Cuts.reading fun _ _ => rfl
  intro m
  by_cases hdepth : Machine.maxDepth ≤ m.depth
  · rw [if_pos hdepth, if_pos hdepth]
    exact throw_cuts _
  · rw [if_neg hdepth, if_neg hdepth]
    apply (pushFrame_blind _ _).cuts.bind
    intro frame
    exact (h.inFrame frame).inCall

theorem cuts_congruence : Congruence (M := Traced) (N := Run) fun _ p q => Cuts p q where
  pure := pure_cuts
  throw := throw_cuts
  bind := .bind
  evaluating _ h := h.noted fun _ => rfl
  executing _ h := h.noted fun _ => rfl
  readVariable binding name := (readVariable_blind binding name).cuts
  writeVariable binding name v := (writeVariable_blind binding name v).cuts
  defineVariable name v := (defineVariable_blind name v).cuts
  makeClosure name params body := (makeClosure_blind name params body).cuts
  printValue := printValue_cuts
  callNative line n vs := (callNative_blind line n vs).cuts
  inBlock := inBlock_cuts
  inBody line c bindings h := inBody_cuts h line c bindings

theorem executeProgram_cuts (fuel : Nat) (program : List (Stmt Binding)) :
    Cuts (executeProgram fuel program) (Evaluation.executeProgram fuel program) :=
  cuts_congruence.executeProgramIn (fun _ _ _ _ h => h) fuel program

end Evaluation

end Output
end ScriptLang
