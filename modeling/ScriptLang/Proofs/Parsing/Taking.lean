import ScriptLang.Proofs.Grammar.Boundary
import ScriptLang.Syntax.Program

namespace ScriptLang.Parsing

open Syntax Syntax.Reader Grammar

variable {α β : Type}

/-- Inside `d` loops and in front of `rest`, the reader takes exactly `ts`, answers with `a` and
records nothing. -/
def Takes (p : Reader α) (d : Nat) (ts rest : List Token) (a : α) : Prop :=
  ∀ eof errors, p eof ⟨ts ++ rest, d, errors⟩ = .done a ⟨rest, d, errors⟩

section Combination

variable {p : Reader α} {f : α → Reader β} {d : Nat} {ts us rest : List Token} {a : α} {b : β}

theorem Takes.bind (hp : Takes p d ts (us ++ rest) a) (hf : Takes (f a) d us rest b) :
    Takes (p >>= f) d (ts ++ us) rest b := by
  intro eof errors
  rw [bind_apply, List.append_assoc, hp eof errors]
  exact hf eof errors

theorem pure_takes (a : α) : Takes (pure a : Reader α) d [] rest a :=
  fun _ _ => rfl

theorem Takes.last (hp : Takes p d ts rest a) (hf : Takes (f a) d [] rest b) :
    Takes (p >>= f) d ts rest b := by
  have h := hp.bind hf
  rwa [List.append_nil] at h

theorem Takes.first (hp : Takes p d [] (ts ++ rest) a) (hf : Takes (f a) d ts rest b) :
    Takes (p >>= f) d ts rest b :=
  hp.bind hf

end Combination

section Primitive

variable {d : Nat} {kind : Kind} {kinds : List Kind} {t : Token} {ts us rest : List Token} {b : β}

theorem look_takes (f : Token → Option Kind → Reader β) (hk : t.kind = kind)
    (h : Takes (f t (some kind)) d (t :: ts) rest b) :
    Takes (do let token ← peek; let k ← peekKind; f token k) d (t :: ts) rest b := by
  subst hk
  exact fun eof errors => h eof errors

theorem next_takes (q : Reader β) (h : Takes q d ts rest b) :
    Takes (do let _ ← next; q) d (t :: ts) rest b :=
  fun eof errors => h eof errors

theorem acceptAny_takes (f : Option Token → Reader β) (hk : t.kind ∈ kinds)
    (h : Takes (f (some t)) d ts rest b) : Takes (acceptAny kinds >>= f) d (t :: ts) rest b := by
  intro eof errors
  have ha : acceptAny kinds eof ⟨t :: ts ++ rest, d, errors⟩ =
      .done (some t) ⟨ts ++ rest, d, errors⟩ := by
    simp [acceptAny, hk]
  rw [bind_apply, ha]
  exact h eof errors

theorem acceptAny_passes (f : Option Token → Reader β)
    (hk : ∀ k ∈ kinds, ¬ NextIs k (ts ++ rest)) (h : Takes (f none) d ts rest b) :
    Takes (acceptAny kinds >>= f) d ts rest b := by
  intro eof errors
  have ha : acceptAny kinds eof ⟨ts ++ rest, d, errors⟩ = .done none ⟨ts ++ rest, d, errors⟩ := by
    cases hr : ts ++ rest with
    | nil => rfl
    | cons t us =>
      have ht : t.kind ∉ kinds := fun hm => hk t.kind hm ⟨t, us, hr, rfl⟩
      simp [acceptAny, ht]
  rw [bind_apply, ha]
  exact h eof errors

theorem accept_takes (f : Option Token → Reader β) (hk : t.kind = kind)
    (h : Takes (f (some t)) d ts rest b) : Takes (accept kind >>= f) d (t :: ts) rest b :=
  acceptAny_takes f (by simp [hk]) h

theorem accept_passes (f : Option Token → Reader β) (hk : ¬ NextIs kind (ts ++ rest))
    (h : Takes (f none) d ts rest b) : Takes (accept kind >>= f) d ts rest b :=
  acceptAny_passes f (by simpa using hk) h

theorem expect_takes (fault : Fault) (hk : t.kind = kind) :
    Takes (expect kind fault) d [t] rest t :=
  accept_takes _ hk (pure_takes t)

theorem Takes.expect (f : Token → Reader β) (fault : Fault) (hk : t.kind = kind)
    (h : Takes (f t) d ts rest b) : Takes (expect kind fault >>= f) d (t :: ts) rest b :=
  (expect_takes fault hk).bind h

theorem check_takes (f : Bool → Reader β) (hk : NextIs kind (ts ++ rest))
    (h : Takes (f true) d ts rest b) : Takes (check kind >>= f) d ts rest b := by
  intro eof errors
  obtain ⟨t, us, hr, ht⟩ := hk
  have hc : check kind eof ⟨ts ++ rest, d, errors⟩ = .done true ⟨ts ++ rest, d, errors⟩ := by
    simp [check, hr, ht]
  rw [bind_apply, hc]
  exact h eof errors

theorem check_passes (f : Bool → Reader β) (hk : ¬ NextIs kind (ts ++ rest))
    (h : Takes (f false) d ts rest b) : Takes (check kind >>= f) d ts rest b := by
  intro eof errors
  have hc : check kind eof ⟨ts ++ rest, d, errors⟩ = .done false ⟨ts ++ rest, d, errors⟩ := by
    cases hr : ts ++ rest with
    | nil => simp [check]
    | cons t us =>
      have ht : t.kind ≠ kind := fun he => hk ⟨t, us, hr, he⟩
      simp [check, ht]
  rw [bind_apply, hc]
  exact h eof errors

theorem atEnd_takes (f : Bool → Reader β) (h : Takes (f (ts ++ rest).isEmpty) d ts rest b) :
    Takes (atEnd >>= f) d ts rest b :=
  fun eof errors => h eof errors

theorem loopDepth_takes (f : Nat → Reader β) (h : Takes (f d) d ts rest b) :
    Takes (loopDepth >>= f) d ts rest b :=
  fun eof errors => h eof errors

theorem recordIf_passes (fault : Fault) : Takes (recordIf false fault) d [] rest () :=
  fun _ _ => rfl

theorem insideLoop_takes {p : Reader β} (h : Takes p (d + 1) ts rest b) :
    Takes (insideLoop p) d ts rest b := by
  intro eof errors
  simp only [insideLoop, leaving, h eof errors, Nat.add_sub_cancel]

theorem outsideLoops_takes {p : Reader β} (h : Takes p 0 ts rest b) :
    Takes (outsideLoops p) d ts rest b := by
  intro eof errors
  simp only [outsideLoops, leaving, h eof errors]

theorem acceptFunctionName_takes {word name : Token} (f : Option Token → Reader β)
    (hw : word.kind = .funWord) (hn : name.kind = .identifier)
    (h : Takes (f (some name)) d ts rest b) :
    Takes (acceptFunctionName >>= f) d (word :: name :: ts) rest b := by
  intro eof errors
  have ha : acceptFunctionName eof ⟨word :: name :: ts ++ rest, d, errors⟩ =
      .done (some name) ⟨ts ++ rest, d, errors⟩ := acceptFunctionName_hit rfl hw hn
  rw [bind_apply, ha]
  exact h eof errors

theorem acceptFunctionName_passes (f : Option Token → Reader β)
    (hk : ∀ word us, ts ++ rest = word :: us → word.kind = .funWord → ¬ NextIs .identifier us)
    (h : Takes (f none) d ts rest b) : Takes (acceptFunctionName >>= f) d ts rest b := by
  intro eof errors
  have ha : acceptFunctionName eof ⟨ts ++ rest, d, errors⟩ = .done none ⟨ts ++ rest, d, errors⟩ :=
    acceptFunctionName_miss fun word name us hr hw hn =>
      hk word (name :: us) hr hw (nextIs_cons.mpr hn)
  rw [bind_apply, ha]
  exact h eof errors

end Primitive

end ScriptLang.Parsing
