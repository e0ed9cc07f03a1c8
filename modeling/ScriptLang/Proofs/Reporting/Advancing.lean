import ScriptLang.Proofs.Parsing.Termination

namespace ScriptLang.Reporting

open Syntax Syntax.Reader

variable {α β : Type}

def Ordered (input : Input) : Prop :=
  (input.tokens ++ [input.eof]).Pairwise fun s t => s.line ≤ t.line

/-- Behind the token stands an expression, and these errors are recorded while it is read. -/
def ReadsValue (input : Input) (equal : Token) (news : List Error) : Prop :=
  ∃ depth s value t, equal :: s.rest <:+ input.tokens ∧
    (rules depth).expression input.eof s = .done value t ∧ t.errors = s.errors ++ news

/-- The second error refuses an assignment; the first was recorded in the assigned value. -/
def InAssignedValue (input : Input) (e f : Error) : Prop :=
  f.fault = .invalidAssignmentTarget ∧ f.token.kind = .equal ∧
    ∃ news, ReadsValue input f.token news ∧ e ∈ news

def Follows (input : Input) (e f : Error) : Prop :=
  e.token.line ≤ f.token.line ∨ InAssignedValue input e f

def frontLine (input : Input) (s : State) : Nat :=
  (s.rest.headD input.eof).line

/-- From one state to a later one: tokens are taken, and errors are recorded on the lines between
the two, in order. -/
structure Advances (input : Input) (s t : State) : Prop where
  rest : t.rest <:+ s.rest
  le : frontLine input s ≤ frontLine input t
  errors : ∃ es, t.errors = s.errors ++ es ∧ es.Pairwise (Follows input) ∧
    ∀ e ∈ es, frontLine input s ≤ e.token.line ∧ e.token.line ≤ frontLine input t

variable {input : Input} {s t u : State}

theorem Advances.refl (s : State) : Advances input s s :=
  ⟨List.suffix_refl _, Nat.le_refl _, [], (List.append_nil _).symm, .nil, by simp⟩

theorem Advances.trans (h : Advances input s t) (k : Advances input t u) : Advances input s u := by
  obtain ⟨es, hes, hps, hbs⟩ := h.errors
  obtain ⟨fs, hfs, hpf, hbf⟩ := k.errors
  have hall : u.errors = s.errors ++ (es ++ fs) := by rw [hfs, hes, List.append_assoc]
  refine ⟨k.rest.trans h.rest, h.le.trans k.le, es ++ fs, hall, ?_, ?_⟩
  · refine List.pairwise_append.mpr ⟨hps, hpf, fun e he f hf => .inl ?_⟩
    exact (hbs e he).2.trans (hbf f hf).1
  · intro e he
    rcases List.mem_append.mp he with he | he
    · exact ⟨(hbs e he).1, (hbs e he).2.trans k.le⟩
    · exact ⟨h.le.trans (hbf e he).1, (hbf e he).2⟩

theorem Advances.of_rest (hi : Ordered input) (hs : s.rest <:+ input.tokens)
    (ht : t.rest <:+ s.rest) (he : t.errors = s.errors) : Advances input s t := by
  refine ⟨ht, ?_, [], by rw [he, List.append_nil], .nil, by simp⟩
  have hsorted : (s.rest ++ [input.eof]).Pairwise fun s t => s.line ≤ t.line :=
    hi.sublist (hs.sublist.append_right _)
  obtain ⟨taken, htaken⟩ := ht
  rw [frontLine, frontLine, ← htaken]
  cases taken with
  | nil => exact Nat.le_refl _
  | cons first taken =>
    -- the next token of the later state is one of those behind the first
    rw [← htaken, List.cons_append, List.cons_append, List.append_assoc] at hsorted
    refine (List.pairwise_cons.mp hsorted).1 _ (List.mem_append_right _ ?_)
    cases t.rest <;> simp

theorem Advances.of_next {word : Token} (hi : Ordered input) (hs : s.rest <:+ input.tokens)
    (hr : s.rest = word :: t.rest) (he : t.errors = s.errors) : Advances input s t :=
  .of_rest hi hs (hr ▸ List.suffix_cons word t.rest) he

theorem frontLine_of_next {word : Token} {ts : List Token} (hr : s.rest = word :: ts) :
    frontLine input s = word.line := by
  rw [frontLine, hr, List.headD_cons]

def withError (s : State) (e : Error) : State :=
  { s with errors := s.errors ++ [e] }

/-- An error at the first token of a way, recorded at its end: it has to follow what was recorded on
the way. -/
theorem Advances.recording {e : Error} (h : Advances input s t)
    (hline : e.token.line = frontLine input s)
    (hnews : ∀ news, t.errors = s.errors ++ news → ∀ d ∈ news, Follows input d e) :
    Advances input s (withError t e) := by
  obtain ⟨es, hes, hp, hb⟩ := h.errors
  refine ⟨h.rest, h.le, es ++ [e], ?_, ?_, ?_⟩
  · simp only [withError, hes, List.append_assoc]
  · refine List.pairwise_append.mpr ⟨hp, List.pairwise_singleton _ _, fun d hd f hf => ?_⟩
    obtain rfl := List.mem_singleton.mp hf
    exact hnews es hes d hd
  · intro d hd
    rcases List.mem_append.mp hd with hd | hd
    · exact hb d hd
    · obtain rfl := List.mem_singleton.mp hd
      exact ⟨hline.ge, hline.le.trans h.le⟩

theorem Advances.recording_next {e : Error} (hline : e.token.line = frontLine input s) :
    Advances input s (withError s e) := by
  refine (Advances.refl s).recording hline fun news hnews d hd => ?_
  rw [List.self_eq_append_right.mp hnews] at hd
  cases hd

def Reports (input : Input) (s : State) : Outcome α → Prop
  | .done _ t => Advances input s t
  | .failed e t => Advances input s (withError t e)
  | .exhausted => True

theorem Reports.after {o : Outcome α} (h : Advances input s t) (k : Reports input t o) :
    Reports input s o := by
  cases o with
  | done a u => exact h.trans k
  | failed e u => exact h.trans k
  | exhausted => trivial

/-- Wherever in the input it starts, a reader records its errors between its start and its end. -/
def Orderly (input : Input) (p : Reader α) : Prop :=
  ∀ s, s.rest <:+ input.tokens → Reports input s (p input.eof s)

theorem Orderly.bind {p : Reader α} {f : α → Reader β} (hp : Orderly input p)
    (hf : ∀ a, Orderly input (f a)) : Orderly input (p >>= f) := by
  intro s hs
  have hfirst := hp s hs
  rw [bind_apply]
  cases ho : p input.eof s with
  | failed e t =>
    rw [ho] at hfirst
    exact hfirst
  | exhausted => trivial
  | done a t =>
    rw [ho] at hfirst
    exact Reports.after hfirst (hf a t (hfirst.rest.trans hs))

section Primitive

theorem pure_orderly (a : α) : Orderly input (pure a : Reader α) :=
  fun s _ => .refl s

theorem exhausted_orderly : Orderly input (exhausted : Reader α) :=
  fun _ _ => trivial

theorem atEnd_orderly : Orderly input atEnd :=
  fun s _ => .refl s

theorem check_orderly (kind : Kind) : Orderly input (check kind) :=
  fun s _ => .refl s

theorem peek_bind_orderly {f : Token → Reader β}
    (h : ∀ s, s.rest <:+ input.tokens →
      Reports input s (f (s.rest.headD input.eof) input.eof s)) : Orderly input (peek >>= f) :=
  h

/-- A choice by the next kind, where it is the end of the input or the kind of the next token. -/
theorem peekKind_bind_reports {f : Option Kind → Reader β}
    (hn : s.rest = [] → Reports input s (f none input.eof s))
    (hf : ∀ t ts k, s.rest = t :: ts → t.kind = k → Reports input s (f (some k) input.eof s)) :
    Reports input s ((peekKind >>= f) input.eof s) := by
  change Reports input s (f (s.rest.head?.map Token.kind) input.eof s)
  cases hr : s.rest with
  | nil => exact hn hr
  | cons t ts => exact hf t ts t.kind hr rfl

theorem next_bind_reports {q : Reader β} {word : Token} {ts : List Token} (hr : s.rest = word :: ts)
    (h : ∀ t, t.rest = ts → t.errors = s.errors → Reports input s (q input.eof t)) :
    Reports input s ((do let _ ← next; q) input.eof s) := by
  have hnext : next input.eof s = .done (some word) { s with rest := ts } := by
    simp only [next, hr]
  rw [bind_apply, hnext]
  exact h _ rfl rfl

theorem accept_bind_reports {kind : Kind} {f : Option Token → Reader β}
    (hn : Reports input s (f none input.eof s))
    (hf : ∀ found t, found.kind = kind → s.rest = found :: t.rest → t.errors = s.errors →
      Reports input s (f (some found) input.eof t)) :
    Reports input s ((accept kind >>= f) input.eof s) := by
  rw [bind_apply]
  cases hr : s.rest with
  | nil =>
    simp only [accept, acceptAny, hr]
    exact hn
  | cons t ts =>
    by_cases hk : t.kind = kind
    · simp only [accept, acceptAny, hr, hk, List.mem_singleton, if_true]
      exact hf t _ hk hr rfl
    · simp only [accept, acceptAny, hr, hk, List.mem_singleton, if_false]
      exact hn

theorem fail_reports {fault : Fault} {token : Token} (h : token.line = frontLine input s) :
    Reports input s (fail fault token input.eof s : Outcome α) :=
  Advances.recording_next (e := ⟨fault, token⟩) h

theorem record_reports {fault : Fault} {token : Token} (h : token.line = frontLine input s) :
    Reports input s (record fault token input.eof s) :=
  Advances.recording_next (e := ⟨fault, token⟩) h

theorem recordIf_orderly (condition : Bool) (fault : Fault) :
    Orderly input (recordIf condition fault) := by
  cases condition with
  | false => exact pure_orderly ()
  | true => exact peek_bind_orderly fun s _ => record_reports rfl

variable (hi : Ordered input)
include hi

theorem next_orderly : Orderly input next := by
  intro s hs
  cases hr : s.rest with
  | nil =>
    simp only [next, hr]
    exact .refl s
  | cons t ts =>
    simp only [next, hr]
    exact .of_rest hi hs (hr ▸ List.suffix_cons t ts) rfl

theorem Orderly.after_next {p : Reader α} (h : Orderly input p) :
    Orderly input (do let _ ← next; p) :=
  (next_orderly hi).bind fun _ => h

theorem acceptAny_orderly (kinds : List Kind) : Orderly input (acceptAny kinds) := by
  intro s hs
  cases hr : s.rest with
  | nil =>
    simp only [acceptAny, hr]
    exact .refl s
  | cons t ts =>
    simp only [acceptAny, hr]
    split
    · exact .of_rest hi hs (hr ▸ List.suffix_cons t ts) rfl
    · exact .refl s

theorem accept_orderly (kind : Kind) : Orderly input (accept kind) :=
  acceptAny_orderly hi [kind]

theorem expect_orderly (kind : Kind) (fault : Fault) : Orderly input (expect kind fault) := by
  refine (accept_orderly hi kind).bind fun found => ?_
  cases found with
  | none => exact peek_bind_orderly fun s _ => fail_reports rfl
  | some t => exact pure_orderly t

theorem leaving_reports {p : Reader α} {f : State → State} {s' : State}
    (hs : s.rest <:+ input.tokens) (h : Reports input s' (p input.eof s'))
    (hr : s'.rest = s.rest) (he : s'.errors = s.errors)
    (hf : ∀ t, (f t).rest = t.rest ∧ (f t).errors = t.errors) :
    Reports input s (leaving p f input.eof s') := by
  have hsame : ∀ {t u : State}, t.rest <:+ input.tokens → u.rest = t.rest →
      u.errors = t.errors → Advances input t u :=
    fun ht hrest herrors => .of_rest hi ht (hrest ▸ List.suffix_refl _) herrors
  have hs' : s'.rest <:+ input.tokens := hr ▸ hs
  refine Reports.after (hsame hs hr he) ?_
  unfold leaving
  cases ho : p input.eof s' with
  | exhausted => trivial
  | done a t =>
    rw [ho] at h
    exact h.trans (hsame (h.rest.trans hs') (hf t).1 (hf t).2)
  | failed e t =>
    rw [ho] at h
    refine h.trans (hsame (h.rest.trans hs') (hf t).1 ?_)
    simp only [withError, (hf t).2]

theorem insideLoop_orderly {p : Reader α} (h : Orderly input p) : Orderly input (insideLoop p) :=
  fun _ hs => leaving_reports hi hs (h _ hs) rfl rfl fun _ => ⟨rfl, rfl⟩

theorem outsideLoops_orderly {p : Reader α} (h : Orderly input p) :
    Orderly input (outsideLoops p) :=
  fun _ hs => leaving_reports hi hs (h _ hs) rfl rfl fun _ => ⟨rfl, rfl⟩

end Primitive

end ScriptLang.Reporting
