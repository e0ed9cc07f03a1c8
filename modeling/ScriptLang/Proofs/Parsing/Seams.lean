import ScriptLang.Proofs.Grammar.Boundary
import ScriptLang.Syntax.Program

namespace ScriptLang

namespace Syntax

def State.extended (more : List Token) (past : List Error) (s : State) : State :=
  ⟨s.rest ++ more, s.loopDepth, past ++ s.errors⟩

end Syntax

namespace Parsing

open Syntax Syntax.Reader Grammar

variable {α β : Type} {more : List Token} {past : List Error}

/-- Kinds of tokens that do not stand before the semicolon of a plain statement. -/
def breaksUp : List Kind :=
  [.semicolon, .leftBrace, .rightBrace, .forWord]

/-- Tokens with a semicolon at their end, and none of the kinds that break statements up before. -/
def Closed (ts : List Token) : Prop :=
  ∃ us semi, ts = us ++ [semi] ∧ semi.kind = .semicolon ∧ ∀ t ∈ us, t.kind ∉ breaksUp

def Sealed (more ts : List Token) : Prop :=
  more = [] ∨ Closed ts

def Finished (more ts : List Token) : Prop :=
  more = [] ∨ ts = []

def Standing (more ts : List Token) : Prop :=
  Sealed more ts ∨ ts = []

section Sealing

variable {t : Token} {ts : List Token}

theorem closed_cons (h : Closed (t :: ts)) :
    t.kind = .semicolon ∧ ts = [] ∨ t.kind ∉ breaksUp ∧ Closed ts := by
  obtain ⟨us, semi, hts, hsemi, hus⟩ := h
  cases us with
  | nil =>
    cases hts
    exact .inl ⟨hsemi, rfl⟩
  | cons u us =>
    cases hts
    exact .inr ⟨hus t List.mem_cons_self, us, semi, rfl, hsemi,
      fun v hv => hus v (List.mem_cons_of_mem _ hv)⟩

theorem Closed.ne_nil (h : Closed ts) : ts ≠ [] := by
  obtain ⟨us, semi, rfl, -, -⟩ := h
  simp

theorem Sealed.tail (h : Sealed more (t :: ts)) (ht : t.kind ≠ .semicolon) : Sealed more ts := by
  refine h.imp_right fun hc => ?_
  obtain ⟨hk, -⟩ | ⟨-, hc⟩ := closed_cons hc
  · exact absurd hk ht
  · exact hc

theorem Sealed.finished (h : Sealed more (t :: ts)) (ht : t.kind = .semicolon) :
    Finished more ts := by
  refine h.imp_right fun hc => ?_
  obtain ⟨-, hts⟩ | ⟨hk, -⟩ := closed_cons hc
  · exact hts
  · exact absurd ht (by rintro hk'; simp [hk', breaksUp] at hk)

theorem Sealed.alone (h : Sealed more (t :: ts)) {kind : Kind} (ht : t.kind = kind)
    (hk : kind ∈ [.leftBrace, .rightBrace, .forWord]) : more = [] := by
  refine h.resolve_right fun hc => ?_
  subst ht
  obtain ⟨hs, -⟩ | ⟨hb, -⟩ := closed_cons hc
  · simp [hs] at hk
  · exact hb (List.mem_cons_of_mem _ hk)

theorem Sealed.ne_nil (h : Sealed more ts) : more = [] ∨ ts ≠ [] :=
  h.imp_right Closed.ne_nil

end Sealing

def Extended (more : List Token) (past : List Error) (Q : α → List Token → Prop) :
    Outcome α → Outcome α → Prop
  | .done a t, o => o = .done a (t.extended more past) ∧ Q a t.rest
  | .failed e t, o => o = .failed e (t.extended more past) ∧ Sealed more t.rest
  | .exhausted, _ => True

/-- The reader `q` does in front of more tokens, and after errors from before, what `p` does with
the tokens alone, wherever it ends. -/
def Extends (more : List Token) (past : List Error) (P : List Token → Prop)
    (Q : α → List Token → Prop) (p q : Reader α) : Prop :=
  ∀ eof s, P s.rest → Extended more past Q (p eof s) (q eof (s.extended more past))

abbrev Goes (more : List Token) (past : List Error) (p q : Reader α) : Prop :=
  Extends more past (Sealed more) (fun _ => Sealed more) p q

abbrev Closes (more : List Token) (past : List Error) (p q : Reader α) : Prop :=
  Extends more past (Sealed more) (fun _ => Finished more) p q

section Combination

variable {P P' : List Token → Prop} {Q Q' : α → List Token → Prop} {R : β → List Token → Prop}
  {p q : Reader α} {f g : α → Reader β}

theorem Extends.weaken (h : Extends more past P Q p q) (hP : ∀ ts, P' ts → P ts)
    (hQ : ∀ a ts, Q a ts → Q' a ts) : Extends more past P' Q' p q := by
  intro eof s hs
  have hp := h eof s (hP _ hs)
  cases ho : p eof s with
  | done a t =>
    rw [ho] at hp
    exact ⟨hp.1, hQ _ _ hp.2⟩
  | failed e t =>
    rw [ho] at hp
    exact hp
  | exhausted => trivial

theorem Extends.bind (hp : Extends more past P Q p q)
    (hf : ∀ a, Extends more past (Q a) R (f a) (g a)) :
    Extends more past P R (p >>= f) (q >>= g) := by
  intro eof s hs
  have hps := hp eof s hs
  rw [bind_apply, bind_apply]
  cases ho : p eof s with
  | done a t =>
    rw [ho] at hps
    rw [hps.1]
    exact hf a eof t hps.2
  | failed e t =>
    rw [ho] at hps
    rw [hps.1]
    exact ⟨rfl, hps.2⟩
  | exhausted => trivial

theorem pure_extends (a : α) (h : ∀ ts, P ts → Q a ts) :
    Extends more past P Q (pure a) (pure a) :=
  fun _ _ hs => ⟨rfl, h _ hs⟩

theorem exhausted_extends : Extends more past P Q exhausted q :=
  fun _ _ _ => trivial

theorem fail_extends (fault : Fault) (token : Token) (h : ∀ ts, P ts → Sealed more ts) :
    Extends more past P Q (fail fault token) (fail fault token) :=
  fun _ _ hs => ⟨rfl, h _ hs⟩

/-- Where nothing is behind, a semicolon that is taken changes nothing. -/
theorem Extends.reopened (hm : more = []) {P : List Token → Prop} {p q : Reader α}
    (h : Extends more past P (fun _ => Finished more) p q) :
    Extends more past P (fun _ => Sealed more) p q :=
  h.weaken (fun _ hP => hP) fun _ _ _ => .inl hm

theorem Extends.alone {p q : Reader α} (h : more = [] → Goes more past p q) :
    Extends more past (fun _ => more = []) (fun _ _ => more = []) p q :=
  fun eof s hm => (h hm).weaken (fun _ hs => hs) (fun _ _ _ => hm) eof s (.inl hm)

end Combination

section Primitive

theorem head_extended {s : State} (h : Sealed more s.rest) (eof : Token) :
    (s.extended more past).rest.headD eof = s.rest.headD eof := by
  obtain rfl | hne := h.ne_nil
  · simp [State.extended]
  · obtain ⟨t, ts, hr⟩ := List.exists_cons_of_ne_nil hne
    simp [State.extended, hr]

theorem head?_extended {s : State} (h : Sealed more s.rest) :
    (s.extended more past).rest.head? = s.rest.head? := by
  obtain rfl | hne := h.ne_nil
  · simp [State.extended]
  · obtain ⟨t, ts, hr⟩ := List.exists_cons_of_ne_nil hne
    simp [State.extended, hr]

theorem isEmpty_extended {s : State} (h : Sealed more s.rest) :
    (s.extended more past).rest.isEmpty = s.rest.isEmpty := by
  obtain rfl | hne := h.ne_nil
  · simp [State.extended]
  · obtain ⟨t, ts, hr⟩ := List.exists_cons_of_ne_nil hne
    simp [State.extended, hr]

theorem peek_extends : Goes more past peek peek :=
  fun eof _ hs => ⟨congrArg (Outcome.done · _) (head_extended hs eof), hs⟩

theorem peekKind_extends :
    Extends more past (Sealed more)
      (fun k ts => Sealed more ts ∧ ts.head?.map Token.kind = k) peekKind peekKind := by
  intro eof _ hs
  exact ⟨congrArg (fun t => Outcome.done (Option.map Token.kind t) _) (head?_extended hs), hs, rfl⟩

theorem atEnd_extends : Goes more past atEnd atEnd :=
  fun _ _ hs => ⟨congrArg (Outcome.done · _) (isEmpty_extended hs), hs⟩

theorem check_extends (kind : Kind) : Goes more past (check kind) (check kind) := by
  intro eof s hs
  have hhead : (s.extended more past).rest.head? = s.rest.head? := head?_extended hs
  refine ⟨?_, hs⟩
  simp only [check, hhead]

theorem loopDepth_extends : Goes more past loopDepth loopDepth :=
  fun _ _ hs => ⟨rfl, hs⟩

def LeftAfter (more : List Token) (kinds : List Kind) : Option Token → List Token → Prop
  | none, ts => Sealed more ts
  | some t, ts => t.kind ∈ kinds ∧ Sealed more (t :: ts)

theorem acceptAny_extends (kinds : List Kind) :
    Extends more past (Sealed more) (LeftAfter more kinds) (acceptAny kinds)
      (acceptAny kinds) := by
  rintro eof ⟨rest, depth, errors⟩ hs
  cases rest with
  | nil =>
    obtain rfl : more = [] := hs.ne_nil.resolve_right fun h => h rfl
    exact ⟨rfl, hs⟩
  | cons t ts =>
    by_cases ht : t.kind ∈ kinds
    · simp only [acceptAny, State.extended, List.cons_append, ht, if_true]
      exact ⟨rfl, ht, hs⟩
    · simp only [acceptAny, State.extended, List.cons_append, ht, if_false]
      exact ⟨rfl, hs⟩

theorem accept_extends (kind : Kind) :
    Extends more past (Sealed more) (LeftAfter more [kind]) (accept kind) (accept kind) :=
  acceptAny_extends [kind]

/-- A token of a kind that is no semicolon leaves the others sealed. -/
theorem LeftAfter.sealed {kinds : List Kind} {o : Option Token} {ts : List Token}
    (h : LeftAfter more kinds o ts) (hk : Kind.semicolon ∉ kinds) : Sealed more ts := by
  cases o with
  | none => exact h
  | some t => exact h.2.tail fun ht => hk (ht ▸ h.1)

theorem take_extends {kinds : List Kind} (hk : Kind.semicolon ∉ kinds) :
    Goes more past (acceptAny kinds) (acceptAny kinds) :=
  (acceptAny_extends kinds).weaken (fun _ h => h) fun _ _ h => h.sealed hk

theorem next_extends (kind : Kind) :
    Extends more past (fun ts => Sealed more ts ∧ ts.head?.map Token.kind = some kind)
      (fun _ ts => ∃ t, t.kind = kind ∧ Sealed more (t :: ts)) next next := by
  rintro eof ⟨rest, depth, errors⟩ ⟨hs, hk⟩
  cases rest with
  | nil => cases hk
  | cons t ts => exact ⟨rfl, t, Option.some.inj hk, hs⟩

theorem expect_extends (kind : Kind) (fault : Fault) :
    Extends more past (Sealed more) (fun t ts => t.kind = kind ∧ Sealed more (t :: ts))
      (expect kind fault) (expect kind fault) := by
  apply (accept_extends kind).bind
  intro o
  cases o with
  | none =>
    apply peek_extends.bind
    intro token
    exact fail_extends fault token fun _ h => h
  | some t => exact pure_extends t fun _ h => ⟨List.mem_singleton.mp h.1, h.2⟩

section Taking

variable {kind : Kind} {R : β → List Token → Prop} {p q : Reader β}

theorem expect_goes (fault : Fault) (hk : kind ≠ .semicolon) :
    Goes more past (expect kind fault) (expect kind fault) :=
  (expect_extends kind fault).weaken (fun _ h => h)
    fun _ _ h => h.2.tail fun ht => hk (h.1.symm.trans ht)

theorem expect_closes (fault : Fault) :
    Closes more past (expect .semicolon fault) (expect .semicolon fault) :=
  (expect_extends .semicolon fault).weaken (fun _ h => h) fun _ _ h => h.2.finished h.1

theorem expect_alone (fault : Fault) (hk : kind ∈ [.leftBrace, .rightBrace, .forWord]) :
    Extends more past (Sealed more) (fun _ _ => more = []) (expect kind fault)
      (expect kind fault) :=
  (expect_extends kind fault).weaken (fun _ h => h) fun _ _ h => h.2.alone h.1 hk

theorem next_goes (hk : kind ≠ .semicolon) (h : Extends more past (Sealed more) R p q) :
    Extends more past (fun ts => Sealed more ts ∧ ts.head?.map Token.kind = some kind) R
      (do let _ ← next; p) (do let _ ← next; q) := by
  apply (next_extends kind).bind
  intro _
  apply h.weaken ?_ fun _ _ hR => hR
  rintro ts ⟨t, ht, hs⟩
  exact hs.tail fun ht' => hk (ht.symm.trans ht')

theorem next_alone (hk : kind ∈ [.leftBrace, .rightBrace, .forWord])
    (h : Extends more past (fun _ => more = []) R p q) :
    Extends more past (fun ts => Sealed more ts ∧ ts.head?.map Token.kind = some kind) R
      (do let _ ← next; p) (do let _ ← next; q) := by
  apply (next_extends kind).bind
  intro _
  apply h.weaken ?_ fun _ _ hR => hR
  rintro ts ⟨t, ht, hs⟩
  exact hs.alone ht hk

end Taking

theorem acceptFunctionName_extends :
    Goes more past acceptFunctionName acceptFunctionName := by
  rintro eof ⟨rest, depth, errors⟩ hs
  cases rest with
  | nil =>
    obtain rfl : more = [] := hs.ne_nil.resolve_right fun h => h rfl
    exact ⟨rfl, hs⟩
  | cons word rest =>
    by_cases hw : word.kind = .funWord
    · have hrest : Sealed more rest := hs.tail (by simp [hw])
      cases rest with
      | nil =>
        obtain rfl : more = [] := hrest.ne_nil.resolve_right fun h => h rfl
        exact ⟨rfl, hs⟩
      | cons name ts =>
        by_cases hn : name.kind = .identifier
        · simp only [acceptFunctionName, State.extended, List.cons_append, hw, hn, and_self,
            if_true]
          exact ⟨rfl, hrest.tail (by simp [hn])⟩
        · simp only [acceptFunctionName, State.extended, List.cons_append, hn, and_false, if_false]
          exact ⟨rfl, hs⟩
    · have hnone : ∀ t : State, (∃ us, t.rest = word :: us) →
          acceptFunctionName eof t = .done none t := by
        rintro ⟨_, d, es⟩ ⟨us, rfl⟩
        cases us <;> simp [acceptFunctionName, hw]
      rw [hnone _ ⟨rest, rfl⟩, hnone _ ⟨rest ++ more, rfl⟩]
      exact ⟨rfl, hs⟩

theorem record_extends (fault : Fault) (token : Token) {P : List Token → Prop} :
    Extends more past P (fun _ => P) (record fault token) (record fault token) := by
  intro eof s hs
  refine ⟨?_, hs⟩
  simp [record, State.extended]

theorem recordIf_extends (condition : Bool) (fault : Fault) :
    Goes more past (recordIf condition fault) (recordIf condition fault) := by
  cases condition with
  | false => exact pure_extends () fun _ h => h
  | true =>
    apply peek_extends.bind
    intro token
    exact record_extends fault token

theorem leaving_extends {p q : Reader α} {Q : α → List Token → Prop}
    {f g : State → State} {eof : Token} {s : State}
    (h : Extended more past Q (p eof s) (q eof (s.extended more past)))
    (hf : ∀ t, (f t).rest = t.rest)
    (hg : ∀ t : State, g (t.extended more past) = (f t).extended more past) :
    Extended more past Q (leaving p f eof s) (leaving q g eof (s.extended more past)) := by
  unfold leaving
  cases ho : p eof s with
  | done a t =>
    rw [ho] at h
    rw [h.1]
    exact ⟨by simp only [hg], (hf t).symm ▸ h.2⟩
  | failed e t =>
    rw [ho] at h
    rw [h.1]
    exact ⟨by simp only [hg], (hf t).symm ▸ h.2⟩
  | exhausted => trivial

theorem insideLoop_extends {p q : Reader α} {P : List Token → Prop} {Q : α → List Token → Prop}
    (h : Extends more past P Q p q) : Extends more past P Q (insideLoop p) (insideLoop q) :=
  fun eof s hs => leaving_extends (h eof { s with loopDepth := s.loopDepth + 1 } hs)
    (fun _ => rfl) fun _ => rfl

theorem outsideLoops_extends {p q : Reader α} {P : List Token → Prop}
    {Q : α → List Token → Prop} (h : Extends more past P Q p q) :
    Extends more past P Q (outsideLoops p) (outsideLoops q) :=
  fun eof s hs => leaving_extends (h eof { s with loopDepth := 0 } hs)
    (fun _ => rfl) fun _ => rfl

end Primitive

section Recovery

theorem dropToBoundary_extends {ts : List Token} (h : Sealed more ts) (b : Bool) :
    dropToBoundary b (ts ++ more) = dropToBoundary b ts ++ more ∧
      Standing more (dropToBoundary b ts) := by
  obtain rfl | hc := h
  · simp [Standing, Sealed]
  · induction ts generalizing b with
    | nil => exact absurd rfl hc.ne_nil
    | cons t ts ih =>
      by_cases hb : b || startsStatement t.kind
      · simp only [List.cons_append, dropToBoundary, hb, if_true]
        exact ⟨trivial, .inl (.inr hc)⟩
      · simp only [List.cons_append, dropToBoundary, hb]
        obtain ⟨ht, rfl⟩ | ⟨-, hc'⟩ := closed_cons hc
        · -- behind the semicolon begins a declaration, if there is any token
          have hseam : dropToBoundary true more = more := by cases more <;> rfl
          simp [ht, hseam, dropToBoundary, Standing]
        · exact ih _ hc'

theorem recover_extends {ts : List Token} (h : Sealed more ts) :
    recover (ts ++ more) = recover ts ++ more ∧ Standing more (recover ts) := by
  obtain rfl | hc := h
  · simp [Standing, Sealed]
  · cases ts with
    | nil => exact absurd rfl hc.ne_nil
    | cons t ts =>
      obtain ⟨ht, rfl⟩ | ⟨-, hc'⟩ := closed_cons hc
      · have hseam : dropToBoundary true more = more := by cases more <;> rfl
        simp [recover, ht, hseam, dropToBoundary, Standing]
      · exact dropToBoundary_extends (.inr hc') _

theorem recovering_extends {p q : Reader (Stmt Unit)} (h : Extends more past (Sealed more)
    (fun _ => Finished more) p q) :
    Extends more past (Sealed more) (fun _ => Standing more) (recovering p) (recovering q) := by
  intro eof s hs
  have hps := h eof s hs
  unfold recovering
  cases ho : p eof s with
  | done stmt t =>
    rw [ho] at hps
    rw [hps.1]
    exact ⟨rfl, hps.2.imp .inl id⟩
  | failed e t =>
    rw [ho] at hps
    obtain ⟨hrest, hstanding⟩ := recover_extends hps.2
    rw [hps.1]
    refine ⟨?_, hstanding⟩
    simp [State.extended, hrest]
  | exhausted => trivial

end Recovery

end Parsing
end ScriptLang
