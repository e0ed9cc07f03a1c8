import ScriptLang.Proofs.Indexing.Following
import ScriptLang.Proofs.Parsing.Termination

namespace ScriptLang.Indexing

open Syntax
open Syntax.Indexed (Parser Action Rule Tokens)

variable {α β : Type} {tokens : Tokens} {body : List Token} {eof t : Token} {ts : List Token}
  {p q : Parser} {s : State}

section Reading

theorem bind_of_done {r : Reader α} {f : α → Reader β} {x : α} {u : State}
    (h : r eof s = .done x u) : (r >>= f) eof s = f x eof u := by
  simp only [Reader.bind_apply, h]

theorem acceptAny_hit {kinds : List Kind} (F : Option Token → Reader β) (hr : s.rest = t :: ts)
    (hk : t.kind ∈ kinds) :
    (Reader.acceptAny kinds >>= F) eof s = F (some t) eof { s with rest := ts } := by
  simp [Reader.bind_apply, Reader.acceptAny, hr, hk]

theorem acceptAny_miss {kinds : List Kind} (F : Option Token → Reader β)
    (hk : ∀ t ts, s.rest = t :: ts → t.kind ∉ kinds) :
    (Reader.acceptAny kinds >>= F) eof s = F none eof s := by
  cases hr : s.rest with
  | nil => simp [Reader.bind_apply, Reader.acceptAny, hr]
  | cons t ts => simp [Reader.bind_apply, Reader.acceptAny, hr, hk t ts hr]

end Reading

section Looking

variable (he : Ended tokens body eof)

include he

theorem check_acts (kind : Kind) :
    Acts body eof (tokens.check kind) (Reader.check kind) :=
  fun _ _ hs => (check_lands he hs kind).weaken fun _ _ ⟨hb, hq⟩ => ⟨hb, hs.still hq⟩

theorem atEnd_acts : Acts body eof tokens.atEnd Reader.atEnd :=
  fun _ _ hs => (atEnd_lands he hs).weaken fun _ _ ⟨hb, hq⟩ => ⟨hb, hs.still hq⟩

theorem peek_acts : Acts body eof tokens.peek Reader.peek :=
  fun _ _ hs => (peek_lands he hs).weaken fun _ _ ⟨ht, hq⟩ => ⟨ht, hs.still hq⟩

theorem Follows.look {f : Token → Rule α} {r : Reader α} (h : ∀ t, Follows body eof (f t) r) :
    Follows body eof (liftM tokens.peek >>= f) r :=
  fun _ _ hs => EndsAs.after (peek_lands he hs) fun t q ⟨_, hq⟩ => h t q _ (hs.still hq)

theorem failHere_follows (fault : Fault) :
    Follows body eof (tokens.failHere fault : Rule α)
      (Reader.peek >>= fun t => Reader.fail fault t) :=
  (peek_acts he).lift.bind fun t => throw_follows fault t

end Looking

section Recording

theorem record_lands (hs : Stands body p s) (e : Error) :
    Lands p (Indexed.record e) fun _ q =>
      Stands body q { s with errors := s.errors ++ [e] } ∧ q.cursor = p.cursor :=
  ⟨(), { p with errors := p.errors ++ [e] }, rfl, .of_trail_eq rfl rfl,
    ⟨hs.cursor, hs.rest, hs.loopDepth, congrArg (· ++ [e]) hs.errors⟩, rfl⟩

theorem record_acts (fault : Fault) (t : Token) :
    Acts body eof (Indexed.record ⟨fault, t⟩) (Reader.record fault t) :=
  fun _ _ hs => (record_lands hs ⟨fault, t⟩).weaken fun _ _ ⟨hq, _⟩ => ⟨rfl, hq⟩

theorem recordExcess_acts (he : Ended tokens body eof) (fault : Fault) (count : Nat) :
    Acts body eof (tokens.recordExcess fault count)
      (Reader.recordIf (255 ≤ count) fault) := by
  intro p s hs
  unfold Tokens.recordExcess Reader.recordIf
  by_cases hc : 255 ≤ count
  · rw [if_pos hc, if_pos (decide_eq_true hc)]
    exact (peek_acts he p s hs).bind fun t q s' _ hq => record_acts fault t q s' hq
  · rw [if_neg hc, if_neg (by simpa using hc)]
    exact pure_lands ⟨rfl, hs⟩

theorem getCursor_lands : Lands p Indexed.getCursor fun c q => c = p.cursor ∧ q = p :=
  ⟨p.cursor, p, rfl, .refl p, rfl, rfl⟩

theorem getLoopDepth_lands : Lands p Indexed.getLoopDepth fun d q => d = p.loopDepth ∧ q = p :=
  ⟨p.loopDepth, p, rfl, .refl p, rfl, rfl⟩

theorem loopDepth_acts : Acts body eof Indexed.getLoopDepth Reader.loopDepth :=
  fun _ _ hs => getLoopDepth_lands.weaken fun _ _ ⟨hd, hq⟩ =>
    ⟨hd.trans hs.loopDepth, hq ▸ hs⟩

end Recording

section Taking

theorem previous_follows {f : Token → Rule α} {r : Reader α} (h : Follows body eof (f t) r) :
    FollowsAfter tokens body eof t (liftM tokens.previous >>= f) r :=
  fun _ _ hs hb => EndsAs.after (previous_lands hb) fun _ q ⟨hx, hq⟩ =>
    hx ▸ h q _ (hs.still hq)

variable (he : Ended tokens body eof)

include he

omit he in
/-- Taking a token of some kinds, after which the rule may look back at it. -/
theorem accepted_follows {a : Action Bool} {kinds : List Kind} {f : Bool → Rule α}
    {F : Option Token → Reader α}
    (ha : ∀ p s, Stands body p s → Lands p a fun b q => Accepted tokens body s kinds q b)
    (hmiss : Follows body eof (f false) (F none))
    (hhit : ∀ t, FollowsAfter tokens body eof t (f true) (F (some t))) :
    Follows body eof (liftM a >>= f) (Reader.acceptAny kinds >>= F) := by
  refine fun p s hs => EndsAs.after (ha p s hs) fun b q hb => ?_
  cases hb with
  | taken hr hk hq hbefore =>
    rw [acceptAny_hit F hr hk]
    exact hhit _ q _ hq hbefore
  | missing hnone hq =>
    rw [acceptAny_miss F hnone]
    exact hmiss q s hq

theorem acceptsAny_follows {kinds : List Kind} {f : Bool → Rule α} {F : Option Token → Reader α}
    (hmiss : Follows body eof (f false) (F none))
    (hhit : ∀ t, FollowsAfter tokens body eof t (f true) (F (some t))) :
    Follows body eof (liftM (tokens.acceptsAny kinds) >>= f)
      (Reader.acceptAny kinds >>= F) :=
  accepted_follows (fun _ _ hs => acceptsAny_lands he hs kinds) hmiss hhit

theorem accepts_follows {kind : Kind} {f : Bool → Rule α} {F : Option Token → Reader α}
    (hmiss : Follows body eof (f false) (F none))
    (hhit : ∀ t, FollowsAfter tokens body eof t (f true) (F (some t))) :
    Follows body eof (liftM (tokens.accepts kind) >>= f) (Reader.accept kind >>= F) :=
  accepted_follows (fun _ _ hs => accepts_lands he hs kind) hmiss hhit

/-- A rule that goes on by itself with a token of a kind, or without one. -/
theorem accepts_ends {kind : Kind} {f : Bool → Rule α} {o : Outcome α} (hs : Stands body p s)
    (hhit : ∀ t ts q, s.rest = t :: ts → t.kind = kind → Stands body q { s with rest := ts } →
      Before tokens q t → EndsAs body q (f true) o)
    (hmiss : ∀ q, (∀ t ts, s.rest = t :: ts → t.kind ≠ kind) → Stands body q s →
      EndsAs body q (f false) o) :
    EndsAs body p (liftM (tokens.accepts kind) >>= f) o := by
  refine EndsAs.after (accepts_lands he hs kind) fun b q hb => ?_
  cases hb with
  | taken hr hk hq hbefore => exact hhit _ _ q hr (List.mem_singleton.mp hk) hq hbefore
  | missing hnone hq =>
    exact hmiss q (fun t ts hr heq => hnone t ts hr (List.mem_singleton.mpr heq)) hq

theorem consume_follows (kind : Kind) (fault : Fault) :
    Follows body eof (tokens.consume kind fault) (Reader.expect kind fault) := by
  intro p s hs
  refine EndsAs.after (check_lands he hs kind) fun b q ⟨hb, hq⟩ => ?_
  have hq' := hs.still hq
  by_cases hk : ∃ t ts, s.rest = t :: ts ∧ t.kind = kind
  · obtain ⟨t, ts, hr, hk⟩ := hk
    have htrue : b = true := by simp [hb, hr, hk]
    subst htrue
    rw [Reader.expect, Reader.accept, acceptAny_hit _ hr (by simp [hk])]
    exact ActsAs.lift (o := .done t { s with rest := ts })
      ((advance_lands he hq' hr).weaken fun _ _ h => ⟨h.1, h.2.1⟩)
  · have hnone : ∀ t ts, s.rest = t :: ts → t.kind ≠ kind :=
      fun t ts hr heq => hk ⟨t, ts, hr, heq⟩
    have hfalse : b = false := by
      cases hr : s.rest with
      | nil => simp [hb, hr]
      | cons t ts => simpa [hb, hr] using hnone t ts hr
    subst hfalse
    rw [Reader.expect, Reader.accept, acceptAny_miss _ fun t ts hr => by simpa using hnone t ts hr]
    exact failHere_follows he fault q s hq'

end Taking

section Loops

theorem Stands.setLoopDepth (hs : Stands body p s) (d : Nat) :
    Stands body { p with loopDepth := d } { s with loopDepth := d } :=
  ⟨hs.cursor, hs.rest, rfl, hs.errors⟩

theorem setLoopDepth_lands (f : Nat → Nat) :
    Lands p (Indexed.setLoopDepth f) fun _ q => q = { p with loopDepth := f p.loopDepth } :=
  ⟨(), _, rfl, .of_trail_eq rfl rfl, rfl⟩

theorem EndsAs.leaving {a : Rule α} {r : Reader α} (h : EndsAs body p a (r eof s))
    (f : Nat → Nat) :
    EndsAs body p (do
      let result ← ExceptT.run a
      Indexed.setLoopDepth f
      pure result : Action (Except Error α))
      (Reader.leaving r (fun t => { t with loopDepth := f t.loopDepth }) eof s) := by
  have hchanged : ∀ {x : Except Error α} {u : State},
      Lands p a.run (fun y q => y = x ∧ Stands body q u) →
      Lands p (do
        let result ← ExceptT.run a
        Indexed.setLoopDepth f
        pure result : Action (Except Error α)) fun y q =>
          y = x ∧ Stands body q { u with loopDepth := f u.loopDepth } := by
    intro x u hlands
    refine hlands.bind fun y q ⟨hy, hq⟩ => (setLoopDepth_lands f).bind fun _ k hk => ?_
    subst hk
    refine pure_lands ⟨hy, ?_⟩
    rw [hq.loopDepth]
    exact hq.setLoopDepth _
  unfold Reader.leaving
  cases hr : r eof s with
  | exhausted => trivial
  | done x u =>
    rw [hr] at h
    exact hchanged h
  | failed e u =>
    rw [hr] at h
    exact hchanged h

theorem insideLoop_follows {a : Rule α} {r : Reader α} (h : Follows body eof a r) :
    Follows body eof (do
      Indexed.setLoopDepth fun depth => depth + 1
      let result ← ExceptT.run a
      Indexed.setLoopDepth fun depth => depth - 1
      pure result : Action (Except Error α)) (Reader.insideLoop r) := by
  intro p s hs
  refine EndsAs.prepared (setLoopDepth_lands _) fun _ q hq => ?_
  subst hq
  have hinner := h _ _ (hs.setLoopDepth (p.loopDepth + 1))
  rw [Reader.insideLoop, ← hs.loopDepth]
  exact hinner.leaving fun depth => depth - 1

theorem outsideLoops_follows {a : Rule α} {r : Reader α} (h : Follows body eof a r) :
    Follows body eof (do
      let enclosing ← Indexed.getLoopDepth
      Indexed.setLoopDepth fun _ => 0
      let result ← ExceptT.run a
      Indexed.setLoopDepth fun _ => enclosing
      pure result : Action (Except Error α)) (Reader.outsideLoops r) := by
  intro p s hs
  refine EndsAs.prepared getLoopDepth_lands fun enclosing q ⟨hd, hq⟩ => ?_
  subst hd hq
  refine EndsAs.prepared (setLoopDepth_lands _) fun _ k hk => ?_
  subst hk
  have hinner := h _ _ (hs.setLoopDepth 0)
  rw [Reader.outsideLoops, ← hs.loopDepth]
  exact hinner.leaving fun _ => q.loopDepth

end Loops

section Recovery

variable (he : Ended tokens body eof)

include he

/-- After a token has been taken, the index goes on to a boundary. -/
theorem skipToBoundary_lands (hs : Stands body p s) (hb : Before tokens p t) :
    Lands p tokens.skipToBoundary fun _ q =>
      Stands body q { s with rest := dropToBoundary (t.kind = .semicolon) s.rest } := by
  obtain ⟨rest, depth, errors⟩ := s
  induction rest generalizing p t with
  | nil =>
    rw [Tokens.skipToBoundary]
    refine (atEnd_lands he hs).bind fun b q ⟨hend, hq⟩ => ?_
    subst hend
    exact pure_lands (hs.still hq)
  | cons u us ih =>
    rw [Tokens.skipToBoundary]
    refine (atEnd_lands he hs).bind fun b q ⟨hend, hq⟩ => ?_
    subst hend
    refine (previous_lands (hb.still hq)).bind fun last k ⟨hlast, hk⟩ => ?_
    subst hlast
    have hsk := (hs.still hq).still hk
    by_cases hsemi : last.kind = .semicolon
    · simp only [hsemi, if_true, dropToBoundary, decide_true, Bool.true_or]
      exact pure_lands hsk
    · simp only [hsemi, if_false, dropToBoundary, decide_false, Bool.false_or]
      refine (peek_lands he hsk).bind fun next l ⟨hnext, hl⟩ => ?_
      have hu : next = u := hnext
      subst hu
      by_cases hstart : startsStatement next.kind
      · simp only [hstart, if_true]
        exact pure_lands (hsk.still hl)
      · simp only [hstart]
        exact (advance_lands he (hsk.still hl) rfl).bind fun _ q' ⟨_, hq', hb'⟩ => ih hb' hq'

/-- Recovery takes at least one token if there is one, and needs none at the end of the file if
some token has been taken before. -/
theorem synchronize_lands (hs : Stands body p s) (hpos : s.rest = [] → 1 ≤ p.cursor) :
    Lands p tokens.synchronize fun _ q =>
      Stands body q { s with rest := recover s.rest } := by
  cases hr : s.rest with
  | nil =>
    have hcursor := hpos hr
    have hlt : p.cursor - 1 < tokens.list.length := by
      obtain ⟨after, hsplit⟩ := he.split
      have hle := hs.cursor
      rw [hsplit, List.length_append]
      omega
    have hb : Before tokens p tokens.list[p.cursor - 1] :=
      ⟨hcursor, List.getElem?_eq_getElem hlt⟩
    refine (advance_lands_at_end he hs hr hb).bind fun _ q hq => ?_
    have hskip := skipToBoundary_lands he (hs.still hq) (hb.still hq)
    rw [hr] at hskip
    exact hskip
  | cons u us =>
    exact (advance_lands he hs hr).bind fun _ q ⟨_, hq, hb⟩ => skipToBoundary_lands he hq hb

end Recovery

end ScriptLang.Indexing
