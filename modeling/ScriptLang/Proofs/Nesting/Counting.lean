import ScriptLang.Proofs.Nesting.Watched
import ScriptLang.Proofs.Parsing.Acceptance

namespace ScriptLang.Nesting

open Syntax (State Error Outcome Reader Host Fault Input)
open Syntax.Reader (bind_apply)
open Parsing Watched

variable {α β : Type}

section Statement

/-- The errors about a `break` outside of loops, in order. -/
def breakErrors (es : List Error) : List Error :=
  es.filter (·.fault = .breakOutsideLoop)

def Event.error? : Event → Option Error
  | .breaks word active _ => if openLoops active = 0 then some ⟨.breakOutsideLoop, word⟩ else none
  | .leaves _ => none

/-- The errors that have to be reported for some events, in order. -/
def misplaced (events : List Event) : List Error :=
  events.filterMap Event.error?

/-- The count is right at a `break`, and it can be taken down where a loop is left. -/
def Event.Sound : Event → Prop
  | .breaks word active counted => word.kind = .breakWord ∧ counted = openLoops active
  | .leaves counted => 0 < counted

/-- The way from `s` to `t` with some events on it, at the end of which `es` are all errors. -/
structure Counted (s t : State) (es : List Error) (events : List Event) : Prop where
  sound : ∀ e ∈ events, e.Sound
  loopDepth : t.loopDepth = s.loopDepth
  errors : breakErrors es = breakErrors s.errors ++ misplaced events

def Counts (s : State) (events : List Event) : Outcome α → Prop
  | .done _ t => Counted s t t.errors events
  | .failed e t => Counted s t (t.errors ++ [e]) events
  | .exhausted => True

/-- The watched reader `w` reads what `p` reads. Begun with the right count of open loops, `p` ends
with it again and reports a `break` exactly where no loop is open. -/
structure Watches (w : Watched α) (p : Reader α) : Prop where
  read : ∀ eof s, w.read eof s = p eof s
  counts : ∀ active eof s, s.loopDepth = openLoops active →
    Counts s (w.events active eof s) (p eof s)

structure WatchesRules (w : Syntax.Rules Watched Unit) (r : Syntax.Rules Reader Unit) : Prop where
  bound : w.bound = r.bound
  expression : Watches w.expression r.expression
  unary : Watches w.unary r.unary
  statement : Watches w.statement r.statement
  declaration : Watches w.declaration r.declaration

end Statement

section Combination

theorem misplaced_append (before after : List Event) :
    misplaced (before ++ after) = misplaced before ++ misplaced after :=
  List.filterMap_append

theorem Counted.of_rest (s : State) (ts : List Token) :
    Counted s { s with rest := ts } s.errors [] :=
  ⟨fun _ he => (List.not_mem_nil he).elim, rfl, (List.append_nil _).symm⟩

theorem Counted.refl (s : State) : Counted s s s.errors [] :=
  .of_rest s s.rest

theorem Counted.trans {s t u : State} {es : List Error} {before after : List Event}
    (h : Counted s t t.errors before) (h' : Counted t u es after) :
    Counted s u es (before ++ after) := by
  refine ⟨fun e he => ?_, h'.loopDepth.trans h.loopDepth, ?_⟩
  · exact (List.mem_append.mp he).elim (h.sound e) (h'.sound e)
  · rw [h'.errors, h.errors, misplaced_append, List.append_assoc]

theorem Counted.and {s t : State} {es : List Error} {events : List Event} {e : Error}
    (h : Counted s t es events) (he : e.fault ≠ .breakOutsideLoop) :
    Counted s t (es ++ [e]) events := by
  refine ⟨h.sound, h.loopDepth, ?_⟩
  rw [← h.errors, breakErrors, List.filter_append]
  simp [he, breakErrors]

theorem after_nothing (o : Outcome α) : after (fun _ _ => []) o = [] := by
  cases o <;> rfl

variable {p : Reader α} {g : α → Reader β}

theorem Counted.counts {s t : State} {before events : List Event} {o : Outcome α}
    (h : Counted s t t.errors before) (ho : Counts t events o) : Counts s (before ++ events) o := by
  cases o with
  | done a u => exact h.trans ho
  | failed e u => exact h.trans ho
  | exhausted => trivial

theorem Counts.bind {s : State} {eof : Token} {events : List Event}
    {more : α → State → List Event} (h : Counts s events (p eof s))
    (hg : ∀ a t, t.loopDepth = s.loopDepth → Counts t (more a t) (g a eof t)) :
    Counts s (events ++ after more (p eof s)) ((p >>= g) eof s) := by
  rw [bind_apply]
  cases ho : p eof s with
  | done a t =>
    rw [ho] at h
    exact Counted.counts h (hg a t h.loopDepth)
  | failed e t =>
    rw [ho] at h
    simp only [after, List.append_nil]
    exact h
  | exhausted => trivial

theorem Watches.bind {w : Watched α} {f : α → Watched β} (h : Watches w p)
    (hf : ∀ a, Watches (f a) (g a)) : Watches (w >>= f) (p >>= g) := by
  constructor
  · intro eof s
    change (w.read >>= fun a => (f a).read) eof s = _
    rw [bind_apply, bind_apply, h.read]
    cases p eof s with
    | done a t => exact (hf a).read eof t
    | failed e t => rfl
    | exhausted => rfl
  · intro active eof s hs
    change Counts s (w.events active eof s ++ after _ (w.read eof s)) _
    rw [h.read]
    exact (h.counts active eof s hs).bind fun a t ht => (hf a).counts active eof t (ht.trans hs)

def Quiet (p : Reader α) : Prop :=
  ∀ eof s, Counts s [] (p eof s)

theorem Quiet.bind (h : Quiet p) (hg : ∀ a, Quiet (g a)) : Quiet (p >>= g) := by
  intro eof s
  have hbind := (h eof s).bind fun a t _ => hg a eof t
  rwa [after_nothing] at hbind

theorem Quiet.watched (h : Quiet p) : Watches (silent p) p :=
  ⟨fun _ _ => rfl, fun _ eof s _ => h eof s⟩

theorem pure_quiet (a : α) : Quiet (pure a) := fun _ s => .refl s

theorem exhausted_quiet : Quiet (Reader.exhausted : Reader α) := fun _ _ => trivial

theorem check_quiet (kind : Kind) : Quiet (Reader.check kind) := fun _ s => .refl s

theorem atEnd_quiet : Quiet Reader.atEnd := fun _ s => .refl s

theorem peek_quiet : Quiet Reader.peek := fun _ s => .refl s

theorem acceptAny_quiet (kinds : List Kind) : Quiet (Reader.acceptAny kinds) := by
  intro eof s
  unfold Reader.acceptAny
  split
  · exact .refl s
  · next t ts hr =>
    split
    · exact .of_rest s ts
    · exact .refl s

theorem accept_quiet (kind : Kind) : Quiet (Reader.accept kind) :=
  acceptAny_quiet [kind]

theorem next_quiet : Quiet Reader.next := by
  intro eof s
  unfold Reader.next
  split
  · exact .refl s
  · next t ts hr => exact .of_rest s ts

theorem acceptFunctionName_quiet : Quiet Syntax.acceptFunctionName := by
  intro eof s
  unfold Syntax.acceptFunctionName
  split
  · next word name ts hr =>
    split
    · exact .of_rest s ts
    · exact .refl s
  · exact .refl s

section Faults

variable {fault : Fault} (h : fault ≠ .breakOutsideLoop)
include h

theorem fail_quiet (token : Token) : Quiet (Reader.fail fault token : Reader α) :=
  fun _ s => (Counted.refl s).and h

theorem record_quiet (token : Token) : Quiet (Reader.record fault token) :=
  fun _ s => ⟨(Counted.refl s).sound, rfl, ((Counted.refl s).and h).errors⟩

theorem recordIf_quiet (condition : Bool) : Quiet (Reader.recordIf condition fault) := by
  unfold Reader.recordIf
  split
  · exact peek_quiet.bind fun token => record_quiet h token
  · exact pure_quiet ()

theorem expect_quiet (kind : Kind) : Quiet (Reader.expect kind fault) := by
  refine (accept_quiet kind).bind fun token => ?_
  cases token with
  | some token => exact pure_quiet token
  | none => exact peek_quiet.bind fun token => fail_quiet h token

theorem expect_watches (kind : Kind) :
    Watches (silent (Reader.expect kind fault)) (Reader.expect kind fault) :=
  (expect_quiet h kind).watched

end Faults

theorem pure_watches (a : α) : Watches (pure a) (pure a) :=
  (pure_quiet a).watched

theorem mark_watches : Watches Host.mark (Host.mark : Reader Unit) :=
  (pure_quiet ()).watched

theorem assignTo_watches (equal : Token) (value target : Expr Unit) :
    Watches (Syntax.assignTo equal value target) (Syntax.assignTo equal value target) := by
  cases target with
  | ident note name => exact mark_watches.bind fun _ => pure_watches _
  | _ => exact (record_quiet (by decide) equal).watched.bind fun _ => pure_watches _

/-- A rule that looks at the next token before it takes it knows what kind it is of. -/
theorem peek_watches {f : Token → Option Kind → Watched α} {g : Token → Option Kind → Reader α}
    (h : ∀ token kind, (∀ k, kind = some k → token.kind = k) →
      Watches (f token kind) (g token kind)) :
    Watches (do let token ← silent Reader.peek; let kind ← silent Reader.peekKind; f token kind)
      (do let token ← Reader.peek; let kind ← Reader.peekKind; g token kind) := by
  have hkind (eof : Token) (s : State) : ∀ k, s.rest.head?.map Token.kind = some k →
      (s.rest.headD eof).kind = k := by
    intro k hk
    cases hr : s.rest with
    | nil => simp [hr] at hk
    | cons t ts => simpa [hr] using hk
  exact ⟨fun eof s => (h _ _ (hkind eof s)).read eof s,
    fun active eof s => (h _ _ (hkind eof s)).counts active eof s⟩

theorem leave_counts {s t : State} {es : List Error} {events : List Event}
    (h : Counted { s with loopDepth := s.loopDepth + 1 } t es events) :
    Counted s { t with loopDepth := t.loopDepth - 1 } es (events ++ [.leaves t.loopDepth]) := by
  have hd : t.loopDepth = s.loopDepth + 1 := h.loopDepth
  refine ⟨fun e he => ?_, ?_, ?_⟩
  · rcases List.mem_append.mp he with he | he
    · exact h.sound e he
    · rw [List.mem_singleton.mp he]
      exact hd ▸ Nat.succ_pos _
  · rw [hd]
    exact Nat.add_sub_cancel _ _
  · rw [misplaced_append]
    exact h.errors.trans (congrArg _ (List.append_nil _).symm)

theorem insideLoop_watches {w : Watched α} (h : Watches w p) :
    Watches (insideLoop w) (Reader.insideLoop p) := by
  have hread : w.read = p := funext fun eof => funext fun s => h.read eof s
  refine ⟨fun eof s => by rw [insideLoop, hread], fun active eof s hs => ?_⟩
  have hp := h.counts (.loop :: active) eof { s with loopDepth := s.loopDepth + 1 }
    (by simp [openLoops, hs])
  simp only [insideLoop, hread, Reader.insideLoop, Reader.leaving]
  cases ho : p eof { s with loopDepth := s.loopDepth + 1 } with
  | done a t =>
    rw [ho] at hp
    exact leave_counts hp
  | failed e t =>
    rw [ho] at hp
    exact leave_counts hp
  | exhausted => trivial

theorem outsideLoops_watches {w : Watched α} (h : Watches w p) :
    Watches (outsideLoops w) (Reader.outsideLoops p) := by
  have hread : w.read = p := funext fun eof => funext fun s => h.read eof s
  refine ⟨fun eof s => by rw [outsideLoops, hread], fun active eof s _ => ?_⟩
  have hp := h.counts (.body :: active) eof { s with loopDepth := 0 } rfl
  simp only [outsideLoops, Reader.outsideLoops, Reader.leaving]
  cases ho : p eof { s with loopDepth := 0 } with
  | done a t =>
    rw [ho] at hp
    exact ⟨hp.sound, rfl, hp.errors⟩
  | failed e t =>
    rw [ho] at hp
    exact ⟨hp.sound, rfl, hp.errors⟩
  | exhausted => trivial

theorem recovering_watches {w : Watched (Stmt Unit)} {p : Reader (Stmt Unit)} (h : Watches w p) :
    Watches (recovering w) (Syntax.recovering p) := by
  have hread : w.read = p := funext fun eof => funext fun s => h.read eof s
  refine ⟨fun eof s => by rw [recovering, hread], fun active eof s hs => ?_⟩
  have hp := h.counts active eof s hs
  simp only [recovering, Syntax.recovering]
  cases ho : p eof s with
  | done stmt t =>
    rw [ho] at hp
    exact hp
  | failed e t =>
    rw [ho] at hp
    exact ⟨hp.sound, hp.loopDepth, hp.errors⟩
  | exhausted => trivial

theorem breakStatement_watches {word : Token} (hk : word.kind = .breakWord) :
    Watches (breakStatement word) (Syntax.breakStatement word) := by
  refine ⟨fun _ _ => rfl, fun active eof s hs => ?_⟩
  have hsound : (Event.breaks word active s.loopDepth).Sound := ⟨hk, hs⟩
  have hend : Quiet (do
      let _ ← Reader.expect .semicolon .noSemicolonAfterBreak
      pure (.breakStmt word) : Reader (Stmt Unit)) :=
    (expect_quiet (by decide) _).bind fun _ => pure_quiet _
  have hopen (hz : s.loopDepth ≠ 0) : Counted s s s.errors [.breaks word active s.loopDepth] := by
    refine ⟨by simpa using hsound, rfl, ?_⟩
    rw [hs] at hz
    simp [misplaced, Event.error?, hz]
  change Counts s _ ((if s.loopDepth = 0 then Reader.fail .breakOutsideLoop word else _ :
    Reader (Stmt Unit)) eof s)
  split
  · next hz =>
    refine ⟨by simpa [breakStatement] using hsound, rfl, ?_⟩
    rw [hs] at hz
    simp [breakErrors, misplaced, Event.error?, breakStatement, hz]
  · next hz => exact (hopen hz).counts (hend eof s)

end Combination

end ScriptLang.Nesting
