import ScriptLang.Proofs.Grammar.Boundary
import ScriptLang.Proofs.Parsing.Termination

namespace ScriptLang.Parsing

open Syntax Syntax.Reader Grammar

variable {α β : Type}

/-- If the outcome is a success without a new error, the tokens taken from `s`, the answer and the
tokens left are related by `R`. -/
def Spells (R : List Token → α → List Token → Prop) (s : State) : Outcome α → Prop
  | .done a t => Later s t ∧ (t.errors = s.errors → ∃ ts, s.rest = ts ++ t.rest ∧ R ts a t.rest)
  | _ => True

/-- No error is recorded on the whole way only if none is on either part of it. -/
theorem Later.errors_eq {s t u : State} (h : Later s t) (k : Later t u)
    (he : u.errors = s.errors) : t.errors = s.errors ∧ u.errors = t.errors := by
  have ht : t.errors <+: s.errors := he ▸ k.errors
  have hs : t.errors = s.errors := ht.eq_of_length_le h.errors.length_le
  exact ⟨hs, he.trans hs.symm⟩

theorem Spells.mono {R Q : List Token → α → List Token → Prop} {s : State} {o : Outcome α}
    (h : Spells R s o) (hq : ∀ ts a rest, R ts a rest → Q ts a rest) : Spells Q s o := by
  cases o with
  | done a t =>
    refine ⟨h.1, fun he => ?_⟩
    obtain ⟨ts, hr, ha⟩ := h.2 he
    exact ⟨ts, hr, hq ts a t.rest ha⟩
  | failed e t => trivial
  | exhausted => trivial

theorem Spells.bind {R : List Token → α → List Token → Prop}
    {Q : List Token → β → List Token → Prop} {p : Reader α} {f : α → Reader β} {eof : Token}
    {s : State} (hp : Spells R s (p eof s))
    (hf : ∀ a t, Spells (fun us b rest => ∀ ts, t.loopDepth = s.loopDepth → R ts a t.rest →
      Q (ts ++ us) b rest) t (f a eof t)) :
    Spells Q s ((p >>= f) eof s) := by
  rw [bind_apply]
  cases ho : p eof s with
  | failed e t => trivial
  | exhausted => trivial
  | done a t =>
    rw [ho] at hp
    have hk := hf a t
    simp only
    cases ht : f a eof t with
    | failed e u => trivial
    | exhausted => trivial
    | done b u =>
      rw [ht] at hk
      refine ⟨hp.1.trans hk.1, fun he => ?_⟩
      obtain ⟨hs, hu⟩ := hp.1.errors_eq hk.1 he
      obtain ⟨ts, hr, ha⟩ := hp.2 hs
      obtain ⟨us, hr', hb⟩ := hk.2 hu
      refine ⟨ts ++ us, by rw [hr, hr', List.append_assoc], ?_⟩
      exact hb ts hp.1.loopDepth ha

theorem pure_spells {R : List Token → α → List Token → Prop} {eof : Token} {s : State} {a : α}
    (h : R [] a s.rest) : Spells R s ((pure a : Reader α) eof s) :=
  ⟨.refl s, fun _ => ⟨[], rfl, h⟩⟩

theorem peek_bind_spells {Q : List Token → β → List Token → Prop} {f : Token → Reader β}
    {eof : Token} {s : State} (h : Spells Q s (f (s.rest.headD eof) eof s)) :
    Spells Q s ((peek >>= f) eof s) := h

theorem loopDepth_bind_spells {Q : List Token → β → List Token → Prop} {f : Nat → Reader β}
    {eof : Token} {s : State} (h : Spells Q s (f s.loopDepth eof s)) :
    Spells Q s ((loopDepth >>= f) eof s) := h

theorem check_eq (kind : Kind) (s : State) :
    (s.rest.head?.any fun t => t.kind = kind) = true ↔ NextIs kind s.rest := by
  cases hr : s.rest with
  | nil => simp [NextIs]
  | cons t ts => simp [NextIs]

theorem check_bind_spells {Q : List Token → β → List Token → Prop} {kind : Kind}
    {f : Bool → Reader β} {eof : Token} {s : State}
    (ht : NextIs kind s.rest → Spells Q s (f true eof s))
    (hf : ¬ NextIs kind s.rest → Spells Q s (f false eof s)) :
    Spells Q s ((check kind >>= f) eof s) := by
  change Spells Q s (f (s.rest.head?.any fun t => t.kind = kind) eof s)
  by_cases h : NextIs kind s.rest
  · rw [(check_eq kind s).mpr h]
    exact ht h
  · rw [Bool.eq_false_iff.mpr fun hc => h ((check_eq kind s).mp hc)]
    exact hf h

/-- Tokens that are taken stand in front of what is taken after them. -/
theorem taken_spells {Q : List Token → β → List Token → Prop} {q : Reader β} {eof : Token}
    {s : State} (vs : List Token) {ts : List Token} (hr : s.rest = vs ++ ts)
    (h : Spells (fun us b rest => Q (vs ++ us) b rest) { s with rest := ts }
      (q eof { s with rest := ts })) :
    Spells Q s (q eof { s with rest := ts }) := by
  have hl : Later s { s with rest := ts } := ⟨⟨vs, hr.symm⟩, rfl, List.prefix_refl _⟩
  cases ho : q eof { s with rest := ts } with
  | failed e u => trivial
  | exhausted => trivial
  | done b u =>
    rw [ho] at h
    refine ⟨hl.trans h.1, fun he => ?_⟩
    obtain ⟨us, hu, hb⟩ := h.2 he
    have hu' : ts = us ++ u.rest := hu
    exact ⟨vs ++ us, by rw [hr, hu', List.append_assoc], hb⟩

theorem acceptAny_bind_spells {Q : List Token → β → List Token → Prop} {kinds : List Kind}
    {f : Option Token → Reader β} {eof : Token} {s : State}
    (hn : (∀ k ∈ kinds, ¬ NextIs k s.rest) → Spells Q s (f none eof s))
    (hs : ∀ t u, t.kind ∈ kinds → s.rest = t :: u.rest ∧ u.loopDepth = s.loopDepth →
      Spells (fun us b rest => Q (t :: us) b rest) u (f (some t) eof u)) :
    Spells Q s ((acceptAny kinds >>= f) eof s) := by
  rw [bind_apply]
  cases hr : s.rest with
  | nil =>
    simp only [acceptAny, hr]
    refine hn fun k _ hk => ?_
    obtain ⟨t, ts, he, _⟩ := hk
    rw [hr] at he
    cases he
  | cons t ts =>
    by_cases hk : t.kind ∈ kinds
    · simp only [acceptAny, hr, hk, if_true]
      exact taken_spells [t] hr (hs t _ hk ⟨hr, rfl⟩)
    · simp only [acceptAny, hr, hk, if_false]
      refine hn fun k hm hk' => ?_
      obtain ⟨t', ts', he, ht⟩ := hk'
      rw [hr] at he
      cases he
      exact hk (ht ▸ hm)

theorem accept_bind_spells {Q : List Token → β → List Token → Prop} {kind : Kind}
    {f : Option Token → Reader β} {eof : Token} {s : State}
    (hn : ¬ NextIs kind s.rest → Spells Q s (f none eof s))
    (hs : ∀ t u, t.kind = kind → s.rest = t :: u.rest ∧ u.loopDepth = s.loopDepth →
      Spells (fun us b rest => Q (t :: us) b rest) u (f (some t) eof u)) :
    Spells Q s ((accept kind >>= f) eof s) :=
  acceptAny_bind_spells (fun h => hn (h kind (by simp)))
    (fun t u ht hu => hs t u (by simpa using ht) hu)

theorem expect_spells (kind : Kind) (fault : Fault) (eof : Token) (s : State) :
    Spells (fun ts t _ => ts = [t] ∧ t.kind = kind) s (expect kind fault eof s) :=
  accept_bind_spells (fun _ => trivial) (fun _ _ ht _ => pure_spells ⟨rfl, ht⟩)

theorem record_spells {Q : List Token → Unit → List Token → Prop} (fault : Fault) (t eof : Token)
    (s : State) : Spells Q s (record fault t eof s) := by
  refine ⟨⟨List.suffix_refl _, rfl, List.prefix_append _ _⟩, fun he => ?_⟩
  simp at he

theorem recordIf_spells (b : Bool) (fault : Fault) (eof : Token) (s : State) :
    Spells (fun ts _ _ => ts = [] ∧ b = false) s (recordIf b fault eof s) := by
  cases b with
  | false => exact pure_spells ⟨rfl, rfl⟩
  | true => exact peek_bind_spells (record_spells fault _ eof s)

/-- A choice by the next kind, where it is the end of the list or the kind of the next token. -/
theorem peekKind_bind_spells {Q : List Token → β → List Token → Prop}
    {f : Option Kind → Reader β} {eof : Token} {s : State}
    (hn : s.rest = [] → Spells Q s (f none eof s))
    (hs : ∀ t ts k, s.rest = t :: ts → t.kind = k → Spells Q s (f (some k) eof s)) :
    Spells Q s ((peekKind >>= f) eof s) := by
  change Spells Q s (f (s.rest.head?.map Token.kind) eof s)
  cases hr : s.rest with
  | nil => exact hn hr
  | cons t ts => exact hs t ts t.kind hr rfl

theorem next_bind_spells {Q : List Token → β → List Token → Prop} {q : Reader β} {eof : Token}
    {s : State} {t : Token} {ts : List Token} (hr : s.rest = t :: ts)
    (h : ∀ u, u.loopDepth = s.loopDepth →
      Spells (fun us b rest => Q (t :: us) b rest) u (q eof u)) :
    Spells Q s ((do let _ ← next; q) eof s) := by
  have hn : next eof s = .done (some t) { s with rest := ts } := by simp [next, hr]
  rw [bind_apply, hn]
  exact taken_spells [t] hr (h _ rfl)

theorem leaving_spells {Q : List Token → α → List Token → Prop} {p : Reader α}
    {f : State → State} {eof : Token} {s s' : State} (h : Spells Q s' (p eof s'))
    (hr : s'.rest = s.rest) (he : s'.errors = s.errors)
    (hf : ∀ t, (f t).rest = t.rest ∧ (f t).errors = t.errors)
    (hd : ∀ t, t.loopDepth = s'.loopDepth → (f t).loopDepth = s.loopDepth) :
    Spells Q s (leaving p f eof s') := by
  unfold leaving
  cases ho : p eof s' with
  | failed e t => trivial
  | exhausted => trivial
  | done a t =>
    rw [ho] at h
    obtain ⟨hl, hq⟩ := h
    refine ⟨⟨?_, hd t hl.loopDepth, ?_⟩, fun hc => ?_⟩
    · simpa only [(hf t).1, hr] using hl.rest
    · simpa only [(hf t).2, he] using hl.errors
    · rw [(hf t).2] at hc
      obtain ⟨ts, hts, ha⟩ := hq (hc.trans he.symm)
      exact ⟨ts, by rw [(hf t).1, ← hr, hts], by rwa [(hf t).1]⟩

theorem insideLoop_spells {Q : List Token → α → List Token → Prop} {p : Reader α} {eof : Token}
    {s : State} (h : ∀ u, u.loopDepth = s.loopDepth + 1 → Spells Q u (p eof u)) :
    Spells Q s (insideLoop p eof s) :=
  leaving_spells (h _ rfl) rfl rfl (fun _ => ⟨rfl, rfl⟩) (fun t ht => by simp [ht])

theorem outsideLoops_spells {Q : List Token → α → List Token → Prop} {p : Reader α} {eof : Token}
    {s : State} (h : ∀ u, u.loopDepth = 0 → Spells Q u (p eof u)) :
    Spells Q s (outsideLoops p eof s) :=
  leaving_spells (h _ rfl) rfl rfl (fun _ => ⟨rfl, rfl⟩) (fun _ _ => rfl)

end ScriptLang.Parsing
