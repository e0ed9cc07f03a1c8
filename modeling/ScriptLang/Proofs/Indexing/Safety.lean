import ScriptLang.Proofs.Indexing.Rules
import ScriptLang.Proofs.Parsing.Acceptance

namespace ScriptLang.Indexing

open Syntax Parsing
open Syntax.Indexed (Parser Step Action Tokens)

variable {tokens : Tokens} {body : List Token} {eof : Token} {p : Parser} {s : State}

theorem program_acts (he : Ended tokens body eof) {r : Rules Reader Unit}
    (h : FollowsRules tokens body eof r) (bound : Nat) :
    Acts body eof tokens.program (Syntax.program (Syntax.declaration r) bound) := by
  induction bound with
  | zero => exact fun _ _ _ => trivial
  | succ bound ih =>
    intro p s hs
    rw [Tokens.program, Syntax.program]
    refine ActsAs.bind (atEnd_acts he p s hs) fun atEnd q u hu hq => ?_
    cases atEnd with
    | true => exact pure_lands ⟨rfl, hq⟩
    | false =>
      have hne : u.rest ≠ [] := by
        injection hu with hempty hsu
        subst hsu
        exact fun hnil => by simp [hnil] at hempty
      exact declared_acts (declaration_tame h.tame) hq hne (declaration_acts he h hq hne)
        fun first k v hk => (ih k v hk).bind fun others l w _ hl => pure_lands ⟨rfl, hl⟩

theorem takeErrors_lands (hs : Stands body p s) :
    Lands p Indexed.takeErrors fun errors q => errors = s.errors ∧ q.cursor ≤ body.length :=
  ⟨p.errors, { p with errors := [] }, rfl, .of_trail_eq rfl rfl, hs.errors, hs.cursor⟩

section Input

variable {input : Input} (he : Ended tokens input.tokens input.eof)

theorem initial_stands : Stands input.tokens Indexed.initial input.start :=
  ⟨Nat.zero_le _, rfl, rfl, rfl⟩

include he

theorem parse_lands :
    Lands Indexed.initial tokens.parse fun result q =>
      result = parseProgram input ∧ q.cursor ≤ input.tokens.length := by
  have hacts := program_acts he (rules_follow he (input.tokens.length + 1))
    (input.tokens.length + 1) Indexed.initial input.start initial_stands
  change ActsAs _ _ _ (program (declaration input.rules) _ _ _) at hacts
  unfold parseProgram Tokens.parse
  cases hr : program (declaration input.rules) (input.tokens.length + 1) input.eof input.start with
  | exhausted => exact absurd hr (program_never_exhausted input)
  | failed e s =>
    rw [hr] at hacts
    exact hacts.elim
  | done statements s =>
    refine (hacts.of_done hr).bind fun y q ⟨hy, hq⟩ => (takeErrors_lands hq).bind
      fun errors k ⟨herrors, hk⟩ => ?_
    subst hy herrors
    exact pure_lands ⟨rfl, hk⟩

omit he in
def wholeExpression (r : Rules Reader Unit) : Reader (Expr Unit) := do
  let e ← expression r
  if ← Reader.atEnd then pure e
  else do
    let t ← Reader.peek
    Reader.fail .noEndOfExpression t

theorem wholeExpression_follows (depth : Nat) :
    Follows input.tokens input.eof tokens.wholeExpression
      (wholeExpression (Syntax.rules depth)) := by
  refine (expression_follows he (rules_follow he depth)).bind fun e =>
    (atEnd_acts he).lift.bind fun atEnd => ?_
  cases atEnd with
  | true => exact pure_follows e
  | false => exact failHere_follows he .noEndOfExpression

omit he in
theorem wholeExpression_never_exhausted (input : Input) :
    wholeExpression input.rules input.eof input.start ≠ .exhausted := by
  have ht := expression_tame (rules_tame (input.tokens.length + 1)) input.eof input.start
  change Stays _ _ _ (expression input.rules input.eof input.start) at ht
  rw [wholeExpression, Reader.bind_apply]
  cases hr : expression input.rules input.eof input.start with
  | done e s =>
    simp only [Reader.bind_apply, Reader.atEnd]
    cases s.rest.isEmpty <;> simp [Reader.pure_apply, Reader.bind_apply, Reader.peek, Reader.fail]
  | failed e s => simp
  | exhausted =>
    rw [hr] at ht
    exact absurd ht (Nat.not_succ_le_self _)

omit he in
theorem parseExpression_eq (input : Input) :
    parseExpression input =
      match wholeExpression input.rules input.eof input.start with
      | .done e s => if s.errors.isEmpty then .ok e else .error s.errors
      | .failed e s => .error (s.errors ++ [e])
      | .exhausted => .error [] := by
  rw [parseExpression, wholeExpression, Reader.bind_apply]
  cases expression input.rules input.eof input.start with
  | done e s => cases hr : s.rest <;> simp [Reader.bind_apply, Reader.atEnd, Reader.pure_apply,
      Reader.peek, Reader.fail, hr]
  | failed e s => rfl
  | exhausted => rfl

theorem parseExpression_lands :
    Lands Indexed.initial tokens.parseExpression fun result q =>
      result = parseExpression input ∧ q.cursor ≤ input.tokens.length := by
  have hends := wholeExpression_follows he (input.tokens.length + 1) Indexed.initial input.start
    initial_stands
  rw [parseExpression_eq]
  unfold Tokens.parseExpression
  cases hr : wholeExpression input.rules input.eof input.start with
  | exhausted => exact absurd hr (wholeExpression_never_exhausted input)
  | done e s =>
    refine (hends.of_done hr).bind fun x q ⟨hx, hq⟩ => ?_
    subst hx
    exact (takeErrors_lands hq).bind fun errors k ⟨herrors, hk⟩ => by
      subst herrors
      exact pure_lands ⟨rfl, hk⟩
  | failed e s =>
    refine (hends.of_failed hr).bind fun x q ⟨hx, hq⟩ => ?_
    subst hx
    refine (record_lands hq e).bind fun _ k ⟨hk, _⟩ => (takeErrors_lands hk).bind
      fun errors l ⟨herrors, hl⟩ => ?_
    subst herrors
    exact pure_lands ⟨rfl, hl⟩

end Input

/-- What a trail shows if nothing went wrong: the index never goes back and never passes the first
token that ends the file, which is in the list. Where the token before is looked at there is one,
and each round of a loop over declarations gets forward. -/
structure Safe (tokens : Tokens) (trail : List Step) : Prop where
  forward : (trail.map cursorOf).Pairwise (· ≤ ·)
  bounded : ∀ step ∈ trail, cursorOf step ≤ tokens.list.findIdx (·.kind = .endOfFile)
  inside : tokens.list.findIdx (·.kind = .endOfFile) < tokens.list.length
  sound : ∀ step ∈ trail, Sound step

theorem Ended.findIdx_eq (he : Ended tokens body eof) :
    tokens.list.findIdx (·.kind = .endOfFile) = body.length ∧
      body.length < tokens.list.length := by
  obtain ⟨after, hsplit⟩ := he.split
  rw [hsplit]
  have hlt : body.length < (body ++ eof :: after).length := by simp
  refine ⟨(List.findIdx_eq hlt).mpr ⟨?_, fun i hi => ?_⟩, hlt⟩
  · simpa using he.eof_kind
  · rw [List.getElem_append_left hi]
    simpa using he.body_kinds body[i] (List.getElem_mem hi)

theorem Goes.safe (he : Ended tokens body eof) {q : Parser} (h : Goes Indexed.initial q)
    (hq : q.cursor ≤ body.length) : Safe tokens q.trail := by
  obtain ⟨-, steps, hsteps, hforward⟩ := h
  obtain ⟨hfirst, hlt⟩ := he.findIdx_eq
  have htrail : q.trail = steps := hsteps.trans (List.nil_append steps)
  rw [htrail]
  refine ⟨hforward.ordered, fun step hstep => ?_, hfirst ▸ hlt, hforward.sound⟩
  rw [hfirst]
  exact Nat.le_trans (hforward.within step hstep).2 hq

theorem Lands.safe {γ : Type} (he : Ended tokens body eof) {a : Action γ} {x : γ}
    (h : Lands Indexed.initial a fun y q => y = x ∧ q.cursor ≤ body.length) :
    ∃ q, a Indexed.initial = some (.ok (x, q)) ∧ Safe tokens q.trail := by
  obtain ⟨y, q, ha, hgo, rfl, hq⟩ := h
  exact ⟨q, ha, hgo.safe he hq⟩

/-- Parsing is safe and comes to an end. Whatever stands before the last of the tokens, a program
and a single expression are parsed from them without a trap, with the results of the readers, and
along a safe trail. -/
theorem parsing_is_safe (tokens : Tokens) :
    ∃ input, Input.ofTokens? tokens.list = some input ∧
      (∃ q, tokens.parse Indexed.initial = some (.ok (parseProgram input, q)) ∧
        Safe tokens q.trail) ∧
      ∃ q, tokens.parseExpression Indexed.initial =
          some (.ok (parseExpression input, q)) ∧ Safe tokens q.trail := by
  obtain ⟨last, hl, hk⟩ := tokens.ended
  obtain ⟨input, after, hinput, hsplit, heof, hbody⟩ := ofTokens_eq hl hk
  have he : Ended tokens input.tokens input.eof := ⟨⟨after, hsplit⟩, heof, hbody⟩
  exact ⟨input, hinput, (parse_lands he).safe he, (parseExpression_lands he).safe he⟩

theorem stray_paren_is_safe :
    let paren : Token := ⟨.rightParen, ")", 1⟩
    let eof : Token := ⟨.endOfFile, "", 1⟩
    let tokens : Tokens := ⟨[paren, eof, ⟨.leftBrace, "\x7b", 1⟩, eof], eof, rfl, rfl⟩
    ∃ q, tokens.parse Indexed.initial =
        some (.ok (.error [⟨.noExpression, paren⟩], q)) ∧ Safe tokens q.trail := by
  intro paren eof tokens
  obtain ⟨input, hinput, ⟨q, hq, hsafe⟩, -⟩ := parsing_is_safe tokens
  cases hinput
  exact ⟨q, hq, hsafe⟩

end ScriptLang.Indexing
