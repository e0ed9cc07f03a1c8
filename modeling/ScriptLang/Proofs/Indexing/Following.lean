import ScriptLang.Syntax.Indexed

namespace ScriptLang.Indexing

open Syntax
open Syntax.Indexed (Parser Step Trap Action Rule Tokens)

variable {α β γ δ : Type}

section Trail

def cursorOf : Step → Nat
  | .looked c | .lookedBack c | .moved c => c
  | .declared _ after => after

/-- What has to hold for a step. -/
def Sound : Step → Prop
  | .lookedBack c => 1 ≤ c
  | .declared before after => before < after
  | _ => True

structure Forward (first last : Nat) (steps : List Step) : Prop where
  ordered : (steps.map cursorOf).Pairwise (· ≤ ·)
  within : ∀ step ∈ steps, first ≤ cursorOf step ∧ cursorOf step ≤ last
  sound : ∀ step ∈ steps, Sound step

structure Goes (p q : Parser) : Prop where
  cursor : p.cursor ≤ q.cursor
  trail : ∃ steps, q.trail = p.trail ++ steps ∧ Forward p.cursor q.cursor steps

theorem Forward.append {a b c : Nat} {steps others : List Step} (h : Forward a b steps)
    (h' : Forward b c others) (hab : a ≤ b) (hbc : b ≤ c) : Forward a c (steps ++ others) where
  ordered := by
    rw [List.map_append]
    refine List.pairwise_append.mpr ⟨h.ordered, h'.ordered, fun i hi j hj => ?_⟩
    obtain ⟨step, hstep, rfl⟩ := List.mem_map.mp hi
    obtain ⟨other, hother, rfl⟩ := List.mem_map.mp hj
    exact Nat.le_trans (h.within step hstep).2 (h'.within other hother).1
  within step hstep := by
    rcases List.mem_append.mp hstep with hstep | hstep
    · exact ⟨(h.within step hstep).1, Nat.le_trans (h.within step hstep).2 hbc⟩
    · exact ⟨Nat.le_trans hab (h'.within step hstep).1, (h'.within step hstep).2⟩
  sound step hstep := by
    rcases List.mem_append.mp hstep with hstep | hstep
    · exact h.sound step hstep
    · exact h'.sound step hstep

variable {p q k : Parser}

theorem Goes.of_trail_eq (hc : q.cursor = p.cursor) (ht : q.trail = p.trail) : Goes p q :=
  ⟨Nat.le_of_eq hc.symm, [], by simp [ht], ⟨List.Pairwise.nil, by simp, by simp⟩⟩

theorem Goes.refl (p : Parser) : Goes p p :=
  .of_trail_eq rfl rfl

theorem Goes.trans (h : Goes p q) (h' : Goes q k) : Goes p k := by
  obtain ⟨hpq, steps, hsteps, hforward⟩ := h
  obtain ⟨hqk, others, hothers, hforward'⟩ := h'
  exact ⟨Nat.le_trans hpq hqk, steps ++ others, by rw [hothers, hsteps, List.append_assoc],
    hforward.append hforward' hpq hqk⟩

theorem Goes.step {step : Step} (hc : p.cursor ≤ q.cursor) (ht : q.trail = p.trail ++ [step])
    (hstep : cursorOf step = q.cursor) (hsound : Sound step) : Goes p q :=
  ⟨hc, [step], ht, ⟨List.pairwise_singleton _ _, by simpa [hstep] using hc,
    by simpa using hsound⟩⟩

end Trail

section Relation

structure Ended (tokens : Tokens) (body : List Token) (eof : Token) : Prop where
  split : ∃ after, tokens.list = body ++ eof :: after
  eof_kind : eof.kind = .endOfFile
  body_kinds : ∀ t ∈ body, t.kind ≠ .endOfFile

/-- The tokens from the index of the parser up to the end of the file are those the reader has left.
-/
structure Stands (body : List Token) (p : Parser) (s : State) : Prop where
  cursor : p.cursor ≤ body.length
  rest : body.drop p.cursor = s.rest
  loopDepth : p.loopDepth = s.loopDepth
  errors : p.errors = s.errors

structure Still (p q : Parser) : Prop where
  cursor : q.cursor = p.cursor
  loopDepth : q.loopDepth = p.loopDepth
  errors : q.errors = p.errors

structure Before (tokens : Tokens) (p : Parser) (t : Token) : Prop where
  pos : 1 ≤ p.cursor
  token : tokens.list[p.cursor - 1]? = some t

def Lands (p : Parser) (a : Action γ) (Q : γ → Parser → Prop) : Prop :=
  ∃ x q, a p = some (.ok (x, q)) ∧ Goes p q ∧ Q x q

variable (tokens : Tokens) (body : List Token)

inductive Accepted (s : State) (kinds : List Kind) (q : Parser) : Bool → Prop where
  | taken {t : Token} {ts : List Token} (hr : s.rest = t :: ts) (hk : t.kind ∈ kinds)
    (hq : Stands body q { s with rest := ts }) (hb : Before tokens q t) : Accepted s kinds q true
  | missing (hnone : ∀ t ts, s.rest = t :: ts → t.kind ∉ kinds) (hq : Stands body q s) :
    Accepted s kinds q false

def EndsAs (p : Parser) (a : Rule α) : Outcome α → Prop
  | .done x s => Lands p a.run fun r q => r = .ok x ∧ Stands body q s
  | .failed e s => Lands p a.run fun r q => r = .error e ∧ Stands body q s
  | .exhausted => True

def ActsAs (p : Parser) (a : Action α) : Outcome α → Prop
  | .done x s => Lands p a fun y q => y = x ∧ Stands body q s
  | .failed _ _ => False
  | .exhausted => True

def Acts (eof : Token) (a : Action α) (r : Reader α) : Prop :=
  ∀ p s, Stands body p s → ActsAs body p a (r eof s)

/-- Wherever the parser stands at the state of a reader, the rule does what the reader does, without
a trap, if the reader has enough depth. -/
def Follows (eof : Token) (a : Rule α) (r : Reader α) : Prop :=
  ∀ p s, Stands body p s → EndsAs body p a (r eof s)

def FollowsAfter (eof t : Token) (a : Rule α) (r : Reader α) : Prop :=
  ∀ p s, Stands body p s → Before tokens p t → EndsAs body p a (r eof s)

end Relation

section Combination

variable {body : List Token} {eof : Token} {p q : Parser} {s : State}

theorem action_bind_apply (a : Action γ) (f : γ → Action δ) (p : Parser) :
    (a >>= f) p = match (a p : Option (Except Trap (γ × Parser))) with
      | some (.ok (x, q)) => f x q
      | some (.error t) => some (.error t)
      | none => none := by
  change Option.bind (a p) _ = _
  cases a p with
  | none => rfl
  | some r =>
    cases r with
    | error t => rfl
    | ok xq => rfl

theorem get_bind_apply (f : Parser → Action γ) (p : Parser) : (get >>= f) p = f p p :=
  rfl

theorem Lands.bind {a : Action γ} {f : γ → Action δ} {Q : γ → Parser → Prop}
    {Q' : δ → Parser → Prop} (h : Lands p a Q) (hf : ∀ x q, Q x q → Lands q (f x) Q') :
    Lands p (a >>= f) Q' := by
  obtain ⟨x, q, ha, hgo, hx⟩ := h
  obtain ⟨y, k, hfx, hgo', hy⟩ := hf x q hx
  refine ⟨y, k, ?_, hgo.trans hgo', hy⟩
  rw [action_bind_apply, ha]
  exact hfx

theorem Lands.weaken {a : Action γ} {Q Q' : γ → Parser → Prop} (h : Lands p a Q)
    (hQ : ∀ x q, Q x q → Q' x q) : Lands p a Q' := by
  obtain ⟨x, q, ha, hgo, hx⟩ := h
  exact ⟨x, q, ha, hgo, hQ x q hx⟩

theorem pure_lands {x : γ} {Q : γ → Parser → Prop} (h : Q x p) : Lands p (pure x) Q :=
  ⟨x, p, rfl, .refl p, h⟩

theorem EndsAs.of_done {a : Rule α} {o : Outcome α} {x : α} (h : EndsAs body p a o)
    (ho : o = .done x s) : Lands p a.run fun r q => r = .ok x ∧ Stands body q s := by
  subst ho
  exact h

theorem EndsAs.of_failed {a : Rule α} {o : Outcome α} {e : Error} (h : EndsAs body p a o)
    (ho : o = .failed e s) : Lands p a.run fun r q => r = .error e ∧ Stands body q s := by
  subst ho
  exact h

theorem ActsAs.of_done {a : Action α} {o : Outcome α} {x : α} (h : ActsAs body p a o)
    (ho : o = .done x s) : Lands p a fun y q => y = x ∧ Stands body q s := by
  subst ho
  exact h

theorem EndsAs.prepared {a : Action γ} {f : γ → Action (Except Error α)} {Q : γ → Parser → Prop}
    {o : Outcome α} (h : Lands p a Q) (hf : ∀ x q, Q x q → EndsAs body q (f x) o) :
    EndsAs body p (a >>= f : Action (Except Error α)) o := by
  cases o with
  | done x s => exact h.bind hf
  | failed e s => exact h.bind hf
  | exhausted => trivial

theorem EndsAs.after {a : Action γ} {f : γ → Rule α} {Q : γ → Parser → Prop} {o : Outcome α}
    (h : Lands p a Q) (hf : ∀ x q, Q x q → EndsAs body q (f x) o) :
    EndsAs body p (liftM a >>= f) o := by
  have hlift : (liftM a >>= f : Rule α) = (a >>= fun x => (f x).run : Action (Except Error α)) :=
    ExceptT.run_bind_lift a f
  rw [hlift]
  exact .prepared h hf

theorem rule_lands_of_ok {a : Rule α} {f : α → Rule β} {x : α} {Q : Parser → Prop}
    {Q' : Except Error β → Parser → Prop} (h : Lands p a.run fun r q => r = .ok x ∧ Q q)
    (hf : ∀ q, Q q → Lands q (f x).run Q') : Lands p (a >>= f).run Q' := by
  rw [ExceptT.run_bind]
  refine h.bind fun r q hr => ?_
  obtain ⟨rfl, hq⟩ := hr
  exact hf q hq

theorem rule_lands_of_error {a : Rule α} {f : α → Rule β} {e : Error} {Q : Parser → Prop}
    (h : Lands p a.run fun r q => r = .error e ∧ Q q) :
    Lands p (a >>= f).run fun r q => r = .error e ∧ Q q := by
  rw [ExceptT.run_bind]
  refine h.bind fun r q hr => ?_
  obtain ⟨rfl, hq⟩ := hr
  exact pure_lands ⟨rfl, hq⟩

theorem EndsAs.andThen {a : Rule α} {f : α → Rule β} {x : α} {o : Outcome β}
    (h : EndsAs body p a (.done x s)) (hf : ∀ q, Stands body q s → EndsAs body q (f x) o) :
    EndsAs body p (a >>= f) o := by
  cases o with
  | done y u => exact rule_lands_of_ok h hf
  | failed e u => exact rule_lands_of_ok h hf
  | exhausted => trivial

theorem EndsAs.bind {a : Rule α} {f : α → Rule β} {r : Reader α} {g : α → Reader β}
    (h : EndsAs body p a (r eof s))
    (hf : ∀ x q t, r eof s = .done x t → Stands body q t → EndsAs body q (f x) (g x eof t)) :
    EndsAs body p (a >>= f) ((r >>= g) eof s) := by
  rw [Reader.bind_apply]
  cases hr : r eof s with
  | failed e t =>
    rw [hr] at h
    exact rule_lands_of_error h
  | exhausted => trivial
  | done x t =>
    rw [hr] at h
    exact h.andThen fun q hq => hf x q t hr hq

theorem Follows.bind {a : Rule α} {f : α → Rule β} {r : Reader α} {g : α → Reader β}
    (h : Follows body eof a r) (hf : ∀ x, Follows body eof (f x) (g x)) :
    Follows body eof (a >>= f) (r >>= g) :=
  fun p s hs => (h p s hs).bind fun x q t _ hq => hf x q t hq

theorem pure_follows (x : α) : Follows body eof (pure x) (pure x) :=
  fun p _ hs => ⟨.ok x, p, rfl, .refl p, rfl, hs⟩

theorem throw_follows (fault : Fault) (t : Token) :
    Follows body eof (throw ⟨fault, t⟩ : Rule α) (Reader.fail fault t) :=
  fun p _ hs => ⟨.error ⟨fault, t⟩, p, rfl, .refl p, rfl, hs⟩

theorem Follows.after {tokens : Tokens} {t : Token} {a : Rule α} {r : Reader α}
    (h : Follows body eof a r) : FollowsAfter tokens body eof t a r :=
  fun p s hs _ => h p s hs

theorem ActsAs.prepared {a : Action γ} {f : γ → Action α} {Q : γ → Parser → Prop}
    {o : Outcome α} (h : Lands p a Q) (hf : ∀ x q, Q x q → ActsAs body q (f x) o) :
    ActsAs body p (a >>= f) o := by
  cases o with
  | done x s => exact h.bind hf
  | failed e s =>
    obtain ⟨x, q, -, -, hx⟩ := h
    exact hf x q hx
  | exhausted => trivial

theorem ActsAs.bind {a : Action α} {f : α → Action β} {r : Reader α} {g : α → Reader β}
    (h : ActsAs body p a (r eof s))
    (hf : ∀ x q t, r eof s = .done x t → Stands body q t → ActsAs body q (f x) (g x eof t)) :
    ActsAs body p (a >>= f) ((r >>= g) eof s) := by
  rw [Reader.bind_apply]
  cases hr : r eof s with
  | failed e t =>
    rw [hr] at h
    exact h
  | exhausted => trivial
  | done x t =>
    rw [hr] at h
    refine ActsAs.prepared h fun y q ⟨hy, hq⟩ => ?_
    subst hy
    exact hf y q t hr hq

theorem ActsAs.lift {a : Action α} {o : Outcome α} (h : ActsAs body p a o) :
    EndsAs body p (liftM a) o := by
  cases o with
  | failed e t => exact h.elim
  | exhausted => trivial
  | done x t =>
    rw [← bind_pure (liftM a : Rule α)]
    refine EndsAs.after (o := .done x t) h fun y q ⟨hy, hq⟩ => ?_
    subst hy
    exact ⟨.ok y, q, rfl, .refl q, rfl, hq⟩

theorem Acts.lift {a : Action α} {r : Reader α} (h : Acts body eof a r) :
    Follows body eof (liftM a) r :=
  fun p s hs => (h p s hs).lift

theorem exhausted_follows (a : Rule α) : Follows body eof a Reader.exhausted :=
  fun _ _ _ => trivial

end Combination

section Primitive

variable {tokens : Tokens} {body : List Token} {eof t : Token} {ts : List Token} {p q : Parser}
  {s : State}

theorem Stands.still (h : Stands body p s) (hq : Still p q) : Stands body q s :=
  ⟨hq.cursor ▸ h.cursor, hq.cursor ▸ h.rest, hq.loopDepth.trans h.loopDepth,
    hq.errors.trans h.errors⟩

theorem Before.still (h : Before tokens p t) (hq : Still p q) : Before tokens q t :=
  ⟨hq.cursor ▸ h.pos, hq.cursor ▸ h.token⟩

theorem Still.trans {k : Parser} (h : Still p q) (h' : Still q k) : Still p k :=
  ⟨h'.cursor.trans h.cursor, h'.loopDepth.trans h.loopDepth, h'.errors.trans h.errors⟩

theorem Stands.cursor_lt (h : Stands body p s) (hr : s.rest = t :: ts) :
    p.cursor < body.length := by
  have hlen := congrArg List.length (h.rest.trans hr)
  rw [List.length_drop, List.length_cons] at hlen
  omega

theorem Stands.token (h : Stands body p s) (hr : s.rest = t :: ts) : body[p.cursor]? = some t := by
  have hhead := congrArg List.head? (h.rest.trans hr)
  rwa [List.head?_drop] at hhead

theorem Stands.forward (h : Stands body p s) (hr : s.rest = t :: ts)
    (hq : q.cursor = p.cursor + 1) (hd : q.loopDepth = p.loopDepth) (hp : q.errors = p.errors) :
    Stands body q { s with rest := ts } := by
  refine ⟨hq ▸ h.cursor_lt hr, ?_, hd.trans h.loopDepth, hp.trans h.errors⟩
  rw [hq, ← List.drop_drop, h.rest, hr]
  rfl

variable (he : Ended tokens body eof)

include he

theorem Ended.next (h : Stands body p s) :
    tokens.list[p.cursor]? = some (s.rest.headD eof) := by
  obtain ⟨after, hsplit⟩ := he.split
  rw [hsplit]
  cases hr : s.rest with
  | nil =>
    have hlen : body.length ≤ p.cursor := List.drop_eq_nil_iff.mp (h.rest.trans hr)
    have hcursor : p.cursor = body.length := Nat.le_antisymm h.cursor hlen
    rw [hcursor, List.getElem?_append_right (Nat.le_refl _), Nat.sub_self]
    rfl
  | cons t ts =>
    rw [List.getElem?_append_left (h.cursor_lt hr)]
    exact h.token hr

theorem Ended.next_kind (h : Stands body p s) :
    (s.rest.headD eof).kind = .endOfFile ↔ s.rest = [] := by
  cases hr : s.rest with
  | nil => simpa using he.eof_kind
  | cons t ts => simpa using he.body_kinds t (List.mem_of_getElem? (h.token hr))

theorem peek_lands (h : Stands body p s) :
    Lands p tokens.peek fun t q => t = s.rest.headD eof ∧ Still p q := by
  refine ⟨s.rest.headD eof, { p with trail := p.trail ++ [.looked p.cursor] }, ?_,
    .step (Nat.le_refl _) rfl rfl trivial, rfl, ⟨rfl, rfl, rfl⟩⟩
  rw [Tokens.peek, get_bind_apply, he.next h]
  rfl

omit he in
theorem previous_lands (h : Before tokens p t) :
    Lands p tokens.previous fun x q => x = t ∧ Still p q := by
  refine ⟨t, { p with trail := p.trail ++ [.lookedBack p.cursor] }, ?_,
    .step (Nat.le_refl _) rfl rfl h.pos, rfl, ⟨rfl, rfl, rfl⟩⟩
  rw [Tokens.previous, get_bind_apply, if_neg (Nat.one_le_iff_ne_zero.mp h.pos), h.token]
  rfl

theorem atEnd_lands (h : Stands body p s) :
    Lands p tokens.atEnd fun b q => b = s.rest.isEmpty ∧ Still p q := by
  refine (peek_lands he h).bind fun t q ⟨ht, hq⟩ => pure_lands ⟨?_, hq⟩
  rw [ht, Bool.eq_iff_iff, decide_eq_true_iff, List.isEmpty_iff]
  exact he.next_kind h

theorem check_lands (h : Stands body p s) (kind : Kind) :
    Lands p (tokens.check kind) fun b q =>
      b = s.rest.head?.any (fun t => t.kind = kind) ∧ Still p q := by
  refine (atEnd_lands he h).bind fun b q ⟨hb, hq⟩ => ?_
  cases hr : s.rest with
  | nil =>
    rw [hr] at hb
    subst hb
    exact pure_lands ⟨rfl, hq⟩
  | cons t ts =>
    rw [hr] at hb
    subst hb
    refine (peek_lands he (h.still hq)).bind fun t' q' ⟨ht, hq'⟩ => pure_lands ⟨?_, hq.trans hq'⟩
    rw [ht, hr]
    rfl

theorem advance_lands (h : Stands body p s) (hr : s.rest = t :: ts) :
    Lands p tokens.advance fun x q =>
      x = t ∧ Stands body q { s with rest := ts } ∧ Before tokens q t := by
  refine (atEnd_lands he h).bind fun b q ⟨hb, hq⟩ => ?_
  rw [hr] at hb
  subst hb
  let k : Parser :=
    { q with cursor := q.cursor + 1, trail := q.trail ++ [.moved (q.cursor + 1)] }
  have hmove : Lands q Indexed.move fun _ q' => q' = k :=
    ⟨(), k, rfl, .step (Nat.le_succ _) rfl rfl trivial, rfl⟩
  have hstands := h.still hq
  have hk : Stands body k { s with rest := ts } := hstands.forward hr rfl rfl rfl
  have hbefore : Before tokens k t := by
    refine ⟨Nat.succ_pos _, ?_⟩
    change tokens.list[q.cursor]? = some t
    rw [he.next hstands, hr]
    rfl
  refine hmove.bind fun _ q' hq' => ?_
  subst hq'
  exact (previous_lands hbefore).weaken fun x q' ⟨hx, hq'⟩ =>
    ⟨hx, hk.still hq', hbefore.still hq'⟩

theorem advance_lands_at_end (h : Stands body p s) (hr : s.rest = []) (hb : Before tokens p t) :
    Lands p tokens.advance fun _ q => Still p q := by
  refine (atEnd_lands he h).bind fun b q ⟨hend, hq⟩ => ?_
  rw [hr] at hend
  subst hend
  exact (previous_lands (hb.still hq)).weaken fun _ q' h' => hq.trans h'.2

theorem accepts_lands (h : Stands body p s) (kind : Kind) :
    Lands p (tokens.accepts kind) fun b q => Accepted tokens body s [kind] q b := by
  refine (check_lands he h kind).bind fun b q ⟨hb, hq⟩ => ?_
  by_cases hk : ∃ t ts, s.rest = t :: ts ∧ t.kind = kind
  · obtain ⟨t, ts, hr, hk⟩ := hk
    have htrue : b = true := by simp [hb, hr, hk]
    subst htrue
    exact (advance_lands he (h.still hq) hr).bind fun _ q' ⟨_, hq', hbefore⟩ =>
      pure_lands (.taken hr (List.mem_singleton.mpr hk) hq' hbefore)
  · have hnone : ∀ t ts, s.rest = t :: ts → t.kind ∉ [kind] :=
      fun t ts hr hmem => hk ⟨t, ts, hr, List.mem_singleton.mp hmem⟩
    have hfalse : b = false := by
      cases hr : s.rest with
      | nil => simp [hb, hr]
      | cons t ts => simpa [hb, hr] using hnone t ts hr
    subst hfalse
    exact pure_lands (.missing hnone (h.still hq))

theorem acceptsAny_lands (h : Stands body p s) (kinds : List Kind) :
    Lands p (tokens.acceptsAny kinds) fun b q => Accepted tokens body s kinds q b := by
  induction kinds generalizing p with
  | nil => exact pure_lands (.missing (fun _ _ _ => List.not_mem_nil) h)
  | cons kind kinds ih =>
    refine (accepts_lands he h kind).bind fun b q hb => ?_
    cases hb with
    | taken hr hk hq hbefore =>
      have hmem := List.mem_singleton.mp hk
      exact pure_lands (.taken hr (hmem ▸ List.mem_cons_self) hq hbefore)
    | missing hnone hq =>
      refine (ih hq).weaken fun b k hb => ?_
      cases hb with
      | taken hr hk hq hbefore => exact .taken hr (List.mem_cons_of_mem _ hk) hq hbefore
      | missing hothers hq =>
        refine .missing (fun t ts hr hmem => ?_) hq
        rcases List.mem_cons.mp hmem with hmem | hmem
        · exact hnone t ts hr (List.mem_singleton.mpr hmem)
        · exact hothers t ts hr hmem

end Primitive

end ScriptLang.Indexing
