import ScriptLang.Proofs.Scanning.Rounds

namespace ScriptLang.Source.Comment

/-- What is read at once in a comment. -/
inductive Mark where
  | opening
  | closing
  | other (c : Char)
deriving DecidableEq

def Mark.text : Mark → List Char
  | opening => ['/', '*']
  | closing => ['*', '/']
  | other c => [c]

def Mark.texts (ms : List Mark) : List Char := ms.flatMap Mark.text

/-- The marks of a text, from left to right. -/
def marks : List Char → List Mark
  | '/' :: '*' :: rest => .opening :: marks rest
  | '*' :: '/' :: rest => .closing :: marks rest
  | c :: rest => .other c :: marks rest
  | [] => []

/-- How many more opening than closing marks there are. -/
def depth (ms : List Mark) : Int := ms.count .opening - ms.count .closing

def Balanced (ms : List Mark) : Prop := ms ≠ [] ∧ depth ms = 0

/-- The marks balance for the first time at the end of `inside`. -/
structure BalancesAt (ms inside : List Mark) : Prop where
  isPrefix : inside <+: ms
  balanced : Balanced inside
  first {before : List Mark} : before <+: inside → Balanced before → before = inside

def NeverBalances (ms : List Mark) : Prop := ∀ inside, inside <+: ms → ¬ Balanced inside

/-- Behind `before` stands an opening mark, and from there on the marks never balance. -/
def LeftOpen (ms before : List Mark) : Prop :=
  ∃ after, ms = before ++ .opening :: after ∧ NeverBalances (.opening :: after)

/-- The last opening mark that is left open stands behind `before`. -/
structure InnermostOpen (ms before : List Mark) : Prop where
  leftOpen : LeftOpen ms before
  isPrefix {other : List Mark} : LeftOpen ms other → other <+: before

section Reading

variable {c : Char} {body : List Char}

theorem marks_other (hclose : ¬ ['*', '/'] <+: c :: body) (hopen : ¬ ['/', '*'] <+: c :: body) :
    marks (c :: body) = .other c :: marks body := by
  rw [marks]
  · rintro rest rfl rfl
    exact hopen ⟨rest, rfl⟩
  · rintro rest rfl rfl
    exact hclose ⟨rest, rfl⟩

theorem texts_cons (m : Mark) (ms : List Mark) : Mark.texts (m :: ms) = m.text ++ Mark.texts ms :=
  List.flatMap_cons

theorem texts_append (ms ms' : List Mark) :
    Mark.texts (ms ++ ms') = Mark.texts ms ++ Mark.texts ms' :=
  List.flatMap_append

theorem texts_marks (body : List Char) : Mark.texts (marks body) = body := by
  fun_induction marks body with
  | case1 rest ih => rw [texts_cons, ih]; rfl
  | case2 rest ih => rw [texts_cons, ih]; rfl
  | case3 c rest _ _ ih => rw [texts_cons, ih]; rfl
  | case4 => rfl

example : marks ['/', '*', '/', '*', '*', '/'] = [.opening, .opening, .closing] :=
  rfl

end Reading

section Counting

variable {m : Mark} {ms inside before other : List Mark}

@[simp] theorem depth_nil : depth [] = 0 := rfl

@[simp] theorem depth_opening (ms : List Mark) : depth (.opening :: ms) = depth ms + 1 := by
  simp [depth]
  omega

@[simp] theorem depth_closing (ms : List Mark) : depth (.closing :: ms) = depth ms - 1 := by
  simp [depth]
  omega

@[simp] theorem depth_other (c : Char) (ms : List Mark) : depth (.other c :: ms) = depth ms := by
  simp [depth]

theorem depth_append (ms ms' : List Mark) : depth (ms ++ ms') = depth ms + depth ms' := by
  simp only [depth, List.count_append]
  omega

theorem exists_prefix_of_depth_le (n : Nat) (h : depth ms ≤ -n) :
    ∃ before, before <+: ms ∧ depth before = -n := by
  induction ms generalizing n with
  | nil => exact ⟨[], List.nil_prefix, by simp at h ⊢; omega⟩
  | cons m ms ih =>
    cases n with
    | zero => exact ⟨[], List.nil_prefix, rfl⟩
    | succ n =>
      have hstep (k : Nat) (hk : depth ms ≤ -k)
          (hm : ∀ before, depth before = -k → depth (m :: before) = -(n + 1 : Nat)) :
          ∃ before, before <+: m :: ms ∧ depth before = -(n + 1 : Nat) := by
        obtain ⟨before, hbefore, hdepth⟩ := ih k hk
        exact ⟨m :: before, List.cons_prefix_cons.mpr ⟨rfl, hbefore⟩, hm before hdepth⟩
      cases m with
      | opening => exact hstep (n + 2) (by simp at h; omega) (by simp; omega)
      | closing => exact hstep n (by simp at h; omega) (by simp; omega)
      | other c => exact hstep (n + 1) (by simpa using h) (by simp)

structure Falls (inside : List Mark) : Prop where
  depth_eq : depth inside = -1
  depth_nonneg {before : List Mark} : before <+: inside → before ≠ inside → 0 ≤ depth before

/-- An opening mark and what it takes to close it balance there, and not earlier. -/
theorem Falls.balancesAt (h : Falls inside) (ms : List Mark) :
    BalancesAt (.opening :: (inside ++ ms)) (.opening :: inside) where
  isPrefix := List.cons_prefix_cons.mpr ⟨rfl, List.prefix_append _ _⟩
  balanced := ⟨List.cons_ne_nil _ _, by simp [h.depth_eq]⟩
  first {before} hbefore hbalanced := by
    obtain rfl | ⟨before, rfl, hprefix⟩ := List.prefix_cons_iff.mp hbefore
    · exact absurd rfl hbalanced.1
    · by_contra hne
      have hdepth := h.depth_nonneg hprefix fun heq => hne (heq ▸ rfl)
      have hzero := hbalanced.2
      simp only [depth_opening] at hzero
      omega

/-- An opening mark in a part that is closed is closed in that part. -/
theorem Falls.not_leftOpen (h : Falls inside) {after : List Mark}
    (hsplit : .opening :: inside = other ++ .opening :: after) (ms : List Mark) :
    ¬ NeverBalances (.opening :: (after ++ ms)) := by
  have hother : 0 ≤ depth other := by
    cases other with
    | nil => simp
    | cons m other =>
      obtain ⟨rfl, hinside⟩ := List.cons.inj hsplit
      have hprefix : other <+: inside := ⟨_, hinside.symm⟩
      have hne : other ≠ inside := fun heq => by simp [heq] at hinside
      have hdepth := h.depth_nonneg hprefix hne
      simp only [depth_opening]
      omega
  have hall := congrArg depth hsplit
  rw [depth_append, depth_opening, depth_opening, h.depth_eq] at hall
  have hle : depth after ≤ -(1 : Nat) := by omega
  obtain ⟨before, hbefore, hdepth⟩ := exists_prefix_of_depth_le 1 hle
  intro hnever
  refine hnever (.opening :: before) ?_ ⟨List.cons_ne_nil _ _, by simp [hdepth]⟩
  exact List.cons_prefix_cons.mpr ⟨rfl, hbefore.trans (List.prefix_append _ _)⟩

theorem leftOpen_cons : LeftOpen (m :: ms) other ↔
    (other = [] ∧ m = .opening ∧ NeverBalances (m :: ms)) ∨
      ∃ others, other = m :: others ∧ LeftOpen ms others := by
  constructor
  · rintro ⟨after, hsplit, hnever⟩
    cases other with
    | nil =>
      obtain ⟨rfl, rfl⟩ := List.cons.inj hsplit
      exact .inl ⟨rfl, rfl, hnever⟩
    | cons m' others =>
      obtain ⟨rfl, hms⟩ := List.cons.inj hsplit
      exact .inr ⟨others, rfl, after, hms, hnever⟩
  · rintro (⟨rfl, rfl, hnever⟩ | ⟨others, rfl, after, rfl, hnever⟩)
    · exact ⟨ms, rfl, hnever⟩
    · exact ⟨after, rfl, hnever⟩

theorem Falls.leftOpen_iff (h : Falls inside) :
    LeftOpen (.opening :: (inside ++ ms)) other ↔
      ∃ others, other = .opening :: (inside ++ others) ∧ LeftOpen ms others := by
  constructor
  · rintro ⟨after, hsplit, hnever⟩
    rw [← List.cons_append] at hsplit
    obtain ⟨others, rfl, hms⟩ | ⟨more, hinside, hafter⟩ := List.append_eq_append_iff.mp hsplit
    · exact ⟨others, rfl, after, hms, hnever⟩
    · cases more with
      | nil =>
        rw [List.append_nil] at hinside
        exact ⟨[], by rw [← hinside]; simp, after, hafter.symm, hnever⟩
      | cons m more =>
        obtain ⟨rfl, rfl⟩ := List.cons.inj hafter
        exact absurd hnever (h.not_leftOpen hinside ms)
  · rintro ⟨others, rfl, after, rfl, hnever⟩
    exact ⟨after, by simp, hnever⟩

end Counting

section Agreement

variable {body rest : List Char} {ms before : List Mark} {opener read innermost : Nat}

/-- Within a closed part the depth is not below where it started; what is behind goes on there. -/
theorem Falls.depth_of_isPrefix {inside : List Mark} (h : Falls inside)
    (hbefore : before <+: .opening :: (inside ++ ms)) :
    0 ≤ depth before ∨
      ∃ more, before = .opening :: (inside ++ more) ∧ more <+: ms ∧ depth before = depth more := by
  obtain rfl | ⟨before, rfl, hprefix⟩ := List.prefix_cons_iff.mp hbefore
  · exact .inl (Int.le_refl 0)
  obtain hfirst | ⟨more, rfl⟩ := List.prefix_or_prefix_of_prefix hprefix
    (List.prefix_append inside ms)
  · left
    by_cases heq : before = inside
    · rw [heq, depth_opening, h.depth_eq]
      decide
    · have hdepth := h.depth_nonneg hfirst heq
      rw [depth_opening]
      omega
  · refine .inr ⟨more, rfl, (List.prefix_append_right_inj inside).mp hprefix, ?_⟩
    rw [depth_opening, depth_append, h.depth_eq]
    omega

theorem Falls.nested {inside inside' : List Mark} (h : Falls inside) (h' : Falls inside') :
    Falls (.opening :: (inside ++ inside')) where
  depth_eq := by simp [depth_append, h.depth_eq, h'.depth_eq]
  depth_nonneg {before} hbefore hne := by
    obtain hdepth | ⟨more, rfl, hmore, hdepth⟩ := h.depth_of_isPrefix hbefore
    · exact hdepth
    · rw [hdepth]
      exact h'.depth_nonneg hmore fun heq => hne (heq ▸ rfl)

/-- A comment that closes falls below its depth there and not earlier. -/
theorem Closes.falls (h : Closes body rest) :
    ∃ inside, marks body = inside ++ marks rest ∧ Falls inside := by
  induction h with
  | @mark rest =>
    refine ⟨[.closing], rfl, rfl, fun {before} hbefore hne => ?_⟩
    obtain rfl | ⟨others, rfl, hnil⟩ := List.prefix_cons_iff.mp hbefore
    · simp
    · exact absurd (congrArg _ (List.prefix_nil.mp hnil)) hne
  | nested _ _ ih ih' =>
    obtain ⟨inside, hinside, hfalls⟩ := ih
    obtain ⟨inside', hinside', hfalls'⟩ := ih'
    refine ⟨.opening :: (inside ++ inside'), ?_, hfalls.nested hfalls'⟩
    rw [marks, hinside, hinside', List.cons_append, List.append_assoc]
  | @other c body rest hclose hopen _ ih =>
    obtain ⟨inside, hinside, hfalls⟩ := ih
    refine ⟨.other c :: inside, ?_, ?_, fun {before} hbefore hne => ?_⟩
    · rw [marks_other hclose hopen, hinside, List.cons_append]
    · rw [depth_other, hfalls.depth_eq]
    · obtain rfl | ⟨before, rfl, hprefix⟩ := List.prefix_cons_iff.mp hbefore
      · simp
      · rw [depth_other]
        exact hfalls.depth_nonneg hprefix fun heq => hne (heq ▸ rfl)

/-- What is known of a comment that does not close. With the opening mark of the comment after
`opener` characters and its text after `read`, the innermost mark left open stands after
`innermost`. -/
structure Unfinished (opener read : Nat) (ms : List Mark) (innermost : Nat) : Prop where
  depth_nonneg {before : List Mark} : before <+: ms → 0 ≤ depth before
  innermost : (innermost = opener ∧ ∀ before, ¬ LeftOpen ms before) ∨
    ∃ before, InnermostOpen ms before ∧ innermost = read + (Mark.texts before).length

theorem Unfinished.neverBalances (h : Unfinished opener read ms innermost) :
    NeverBalances (.opening :: ms) := by
  rintro inside hinside ⟨hne, hzero⟩
  obtain rfl | ⟨before, rfl, hprefix⟩ := List.prefix_cons_iff.mp hinside
  · exact hne rfl
  · have hdepth := h.depth_nonneg hprefix
    rw [depth_opening] at hzero
    omega

/-- The opening mark of a comment that does not close is left open itself. -/
theorem Unfinished.innermostOpen (h : Unfinished opener (opener + 2) ms innermost) :
    ∃ before, InnermostOpen (.opening :: ms) before ∧
      innermost = opener + (Mark.texts before).length := by
  have hfirst : LeftOpen (.opening :: ms) [] := ⟨ms, rfl, h.neverBalances⟩
  obtain ⟨rfl, hnone⟩ | ⟨before, hbefore, rfl⟩ := h.innermost
  · refine ⟨[], ⟨hfirst, fun hother => ?_⟩, rfl⟩
    obtain ⟨rfl, -⟩ | ⟨others, -, hothers⟩ := leftOpen_cons.mp hother
    · exact List.nil_prefix
    · exact absurd hothers (hnone others)
  · refine ⟨.opening :: before, ⟨?_, fun hother => ?_⟩, ?_⟩
    · exact leftOpen_cons.mpr (.inr ⟨before, rfl, hbefore.leftOpen⟩)
    · obtain ⟨rfl, -⟩ | ⟨others, rfl, hothers⟩ := leftOpen_cons.mp hother
      · exact List.nil_prefix
      · exact List.cons_prefix_cons.mpr ⟨rfl, hbefore.isPrefix hothers⟩
    · rw [texts_cons, List.length_append]
      exact Nat.add_assoc opener 2 _

theorem Unfinished.inside (h : Unfinished read (read + 2) ms innermost) :
    Unfinished opener read (.opening :: ms) innermost where
  depth_nonneg {before} hbefore := by
    obtain rfl | ⟨before, rfl, hprefix⟩ := List.prefix_cons_iff.mp hbefore
    · simp
    · have hdepth := h.depth_nonneg hprefix
      rw [depth_opening]
      omega
  innermost := .inr h.innermostOpen

theorem Unfinished.other {c : Char} (h : Unfinished opener (read + 1) ms innermost) :
    Unfinished opener read (.other c :: ms) innermost where
  depth_nonneg {before} hbefore := by
    obtain rfl | ⟨before, rfl, hprefix⟩ := List.prefix_cons_iff.mp hbefore
    · simp
    · rw [depth_other]
      exact h.depth_nonneg hprefix
  innermost := by
    have hleft {other : List Mark} : LeftOpen (.other c :: ms) other ↔
        ∃ others, other = .other c :: others ∧ LeftOpen ms others := by
      rw [leftOpen_cons]
      simp
    obtain ⟨heq, hnone⟩ | ⟨before, hbefore, rfl⟩ := h.innermost
    · refine .inl ⟨heq, fun before hbefore => ?_⟩
      obtain ⟨others, -, hothers⟩ := hleft.mp hbefore
      exact hnone others hothers
    · refine .inr ⟨.other c :: before, ⟨hleft.mpr ⟨before, rfl, hbefore.leftOpen⟩, ?_⟩, ?_⟩
      · intro other hother
        obtain ⟨others, rfl, hothers⟩ := hleft.mp hother
        exact List.cons_prefix_cons.mpr ⟨rfl, hbefore.isPrefix hothers⟩
      · rw [texts_cons, List.length_append]
        exact Nat.add_assoc read 1 _

theorem Unfinished.after {inside : List Mark} (hfalls : Falls inside)
    (h : Unfinished opener (read + (Mark.texts (.opening :: inside)).length) ms innermost) :
    Unfinished opener read (.opening :: (inside ++ ms)) innermost where
  depth_nonneg {before} hbefore := by
    obtain hdepth | ⟨more, -, hmore, hdepth⟩ := hfalls.depth_of_isPrefix hbefore
    · exact hdepth
    · rw [hdepth]
      exact h.depth_nonneg hmore
  innermost := by
    obtain ⟨heq, hnone⟩ | ⟨before, hbefore, rfl⟩ := h.innermost
    · refine .inl ⟨heq, fun before hbefore => ?_⟩
      obtain ⟨others, -, hothers⟩ := hfalls.leftOpen_iff.mp hbefore
      exact hnone others hothers
    · refine .inr ⟨.opening :: (inside ++ before),
        ⟨hfalls.leftOpen_iff.mpr ⟨before, rfl, hbefore.leftOpen⟩, ?_⟩, ?_⟩
      · intro other hother
        obtain ⟨others, rfl, hothers⟩ := hfalls.leftOpen_iff.mp hother
        exact List.cons_prefix_cons.mpr
          ⟨rfl, (List.prefix_append_right_inj inside).mpr (hbefore.isPrefix hothers)⟩
      · rw [← List.cons_append, texts_append, List.length_append, Nat.add_assoc]

theorem Unclosed.unfinished (h : Unclosed opener read body innermost) :
    Unfinished opener read (marks body) innermost := by
  induction h with
  | finish =>
    refine ⟨fun hbefore => ?_, .inl ⟨rfl, ?_⟩⟩
    · rw [List.prefix_nil.mp hbefore]
      decide
    · rintro before ⟨after, hsplit, -⟩
      simp [marks] at hsplit
  | other hclose hopen _ ih =>
    rw [marks_other hclose hopen]
    exact ih.other
  | @after opener read innermost body middle hcloses _ ih =>
    obtain ⟨inside, hinside, hfalls⟩ := hcloses.falls
    have hlength : body.length = (Mark.texts inside).length + middle.length := by
      have htexts := congrArg (fun ms => (Mark.texts ms).length) hinside
      simpa only [texts_marks, texts_append, List.length_append] using htexts
    have hread : read + 2 + (body.length - middle.length) =
        read + (Mark.texts (.opening :: inside)).length := by
      rw [hlength, Nat.add_sub_cancel, texts_cons, List.length_append]
      exact Nat.add_assoc read 2 _
    rw [hread] at ih
    rw [marks, hinside]
    exact .after hfalls ih
  | inside _ ih =>
    rw [marks]
    exact ih.inside

end Agreement

end Comment

namespace Cursor

open Comment

/-- Wherever a comment opens, on whatever line, it is skipped up to the first place where its marks
balance, the one that opened it included. If they never balance, the cursor comes to the end of the
source, and the error has the line and the offset of the innermost opening mark left open. -/
theorem comment_ends_where_marks_balance (before body : List Char) (line : Nat) :
    let bytes := utf8 (before ++ '/' :: '*' :: body)
    let origin : Cursor := ⟨byteSize before, byteSize before, line⟩
    let ms := marks ('/' :: '*' :: body)
    let opened := (origin.past ['/', '*']).comment bytes [(origin.line, origin.position)]
    (∃ inside, BalancesAt ms inside ∧
      let stop := origin.past (Mark.texts inside)
      opened = ([], stop) ∧ (origin.past ['/']).slash bytes = .ok (.skipped, stop)) ∨
    NeverBalances ms ∧ ∃ outside outer, InnermostOpen ms outside ∧
      let found := origin.past (Mark.texts outside)
      let stop := origin.past ('/' :: '*' :: body)
      stop.position = bytes.length ∧ opened = ((found.line, found.position) :: outer, stop) ∧
        (origin.past ['/']).slash bytes =
          .ok (.error ⟨.unterminatedComment found.position, found.line⟩, stop) := by
  intro bytes origin ms opened
  have hat : At bytes origin.position ('/' :: '*' :: body) := ⟨before, rfl, rfl⟩
  have hslash := slash_eq_comment rfl hat
  have hends := ends_opened hat
  -- the nesting of comments decides, and the marks balance just where it closes
  rcases closes_or_unclosed body with ⟨rest, hcloses⟩ | hopens
  · left
    obtain ⟨inside, hmarks, hfalls⟩ := hcloses.falls
    have hms : ms = .opening :: (inside ++ marks rest) := by rw [← hmarks]; rfl
    refine ⟨.opening :: inside, hms ▸ hfalls.balancesAt (marks rest), ?_⟩
    have htext : '/' :: '*' :: body = Mark.texts (.opening :: inside) ++ rest := by
      rw [← texts_marks ('/' :: '*' :: body), ← texts_marks rest, ← texts_append]
      exact congrArg Mark.texts hms
    have htake : ('/' :: '*' :: body).take (body.length - rest.length + 2) =
        Mark.texts (.opening :: inside) := by
      have hlength := congrArg List.length htext
      have hlt := hcloses.length_lt
      simp only [List.length_append, List.length_cons] at hlength
      rw [htext]
      exact List.take_left' (by omega)
    rw [extent_of_closes hcloses, Ends, htake] at hends
    exact ⟨hends, by rw [hslash, hends]⟩
  · right
    obtain ⟨innermost, hunclosed⟩ := hopens 0 2
    have hunfinished := hunclosed.unfinished
    obtain ⟨outside, houtside, hinnermost⟩ := hunfinished.innermostOpen
    rw [extent_of_unclosed hunclosed, Ends] at hends
    obtain ⟨outer, hends⟩ := hends
    have htake : ('/' :: '*' :: body).take innermost = Mark.texts outside := by
      obtain ⟨after, hsplit, -⟩ := houtside.leftOpen
      have htext := congrArg Mark.texts hsplit
      rw [texts_append] at htext
      rw [← texts_marks ('/' :: '*' :: body)]
      refine (congrArg (List.take innermost) htext).trans (List.take_left' ?_)
      omega
    rw [marker, htake] at hends
    exact ⟨hunfinished.neverBalances, outside, outer, houtside, hat.length.symm, hends,
      by rw [hslash, hends]⟩

end Cursor

end ScriptLang.Source
