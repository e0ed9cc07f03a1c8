import Mathlib.Data.List.Basic

namespace ScriptLang.Grammar

inductive Ebnf (ν σ : Type) where
  | terminal (among : σ → Prop)
  | rule (name : ν)
  | seq (first second : Ebnf ν σ)
  | alt (left right : Ebnf ν σ)
  | optional (body : Ebnf ν σ)
  | many (body : Ebnf ν σ)
  /-- A body that is repeated, but not more often than the limit says. -/
  | upTo (limit : Nat) (body : Ebnf ν σ)

variable {ν σ τ : Type}

instance : Append (Ebnf ν σ) := ⟨.seq⟩

instance : OrOp (Ebnf ν σ) := ⟨.alt⟩

/-- The words that rules derive. -/
inductive Derives (rules : ν → Ebnf ν σ) : Ebnf ν σ → List σ → Prop where
  | terminal {c : σ → Prop} {a : σ} (h : c a) : Derives rules (.terminal c) [a]
  | rule {name : ν} {w : List σ} (h : Derives rules (rules name) w) : Derives rules (.rule name) w
  | seq {a b : Ebnf ν σ} {u v : List σ} (hu : Derives rules a u) (hv : Derives rules b v) :
      Derives rules (.seq a b) (u ++ v)
  | left {a b : Ebnf ν σ} {w : List σ} (h : Derives rules a w) : Derives rules (.alt a b) w
  | right {a b : Ebnf ν σ} {w : List σ} (h : Derives rules b w) : Derives rules (.alt a b) w
  | absent {a : Ebnf ν σ} : Derives rules (.optional a) []
  | present {a : Ebnf ν σ} {w : List σ} (h : Derives rules a w) : Derives rules (.optional a) w
  | none {a : Ebnf ν σ} : Derives rules (.many a) []
  | more {a : Ebnf ν σ} {u v : List σ} (hu : Derives rules a u) (hv : Derives rules (.many a) v) :
      Derives rules (.many a) (u ++ v)
  | noneUpTo {n : Nat} {a : Ebnf ν σ} : Derives rules (.upTo n a) []
  | moreUpTo {n : Nat} {a : Ebnf ν σ} {u v : List σ} (hu : Derives rules a u)
      (hv : Derives rules (.upTo n a) v) : Derives rules (.upTo (n + 1) a) (u ++ v)

/-- The words a right side stands for when each rule name stands for a set of words. The words are
over a type `τ` whose elements show a symbol. -/
def Ebnf.Holds (meaning : ν → List τ → Prop) (symbol : τ → σ) : Ebnf ν σ → List τ → Prop
  | .terminal c, w => ∃ t, w = [t] ∧ c (symbol t)
  | .rule name, w => meaning name w
  | .seq a b, w => ∃ u v, w = u ++ v ∧ a.Holds meaning symbol u ∧ b.Holds meaning symbol v
  | .alt a b, w => a.Holds meaning symbol w ∨ b.Holds meaning symbol w
  | .optional a, w => w = [] ∨ a.Holds meaning symbol w
  | .many a, w => ∃ ws : List (List τ), w = ws.flatten ∧ ∀ u ∈ ws, a.Holds meaning symbol u
  | .upTo n a, w =>
    ∃ ws : List (List τ), ws.length ≤ n ∧ w = ws.flatten ∧ ∀ u ∈ ws, a.Holds meaning symbol u

section

variable {rules : ν → Ebnf ν σ} {a b : Ebnf ν σ} {u v w : List σ}

theorem Derives.append (hu : Derives rules a u) (hv : Derives rules b v) :
    Derives rules (a ++ b) (u ++ v) := .seq hu hv

theorem Derives.orLeft (h : Derives rules a w) : Derives rules (a ||| b) w := .left h

theorem Derives.orRight (h : Derives rules b w) : Derives rules (a ||| b) w := .right h

end

/-- A meaning that is closed under the rules contains whatever they derive. -/
theorem Derives.holds {rules : ν → Ebnf ν σ} {meaning : ν → List τ → Prop} {symbol : τ → σ}
    (closed : ∀ name w, (rules name).Holds meaning symbol w → meaning name w)
    {e : Ebnf ν σ} {w : List σ} (h : Derives rules e w) (ts : List τ) (ht : ts.map symbol = w) :
    e.Holds meaning symbol ts := by
  -- along the derivation; closure is needed only where a rule is used
  induction h generalizing ts with
  | terminal h =>
    obtain ⟨t, rfl, rfl⟩ := List.map_eq_singleton_iff.mp ht
    exact ⟨t, rfl, h⟩
  | rule _ ih => exact closed _ _ (ih ts ht)
  | seq _ _ ihu ihv =>
    obtain ⟨us, vs, rfl, hu, hv⟩ := List.map_eq_append_iff.mp ht
    exact ⟨us, vs, rfl, ihu us hu, ihv vs hv⟩
  | left _ ih => exact .inl (ih ts ht)
  | right _ ih => exact .inr (ih ts ht)
  | absent => exact .inl (List.map_eq_nil_iff.mp ht)
  | present _ ih => exact .inr (ih ts ht)
  | none => exact ⟨[], by simpa using ht, by simp⟩
  | more _ _ ihu ihv =>
    obtain ⟨us, vs, rfl, hu, hv⟩ := List.map_eq_append_iff.mp ht
    obtain ⟨ws, rfl, hws⟩ := ihv vs hv
    exact ⟨us :: ws, rfl, List.forall_mem_cons.mpr ⟨ihu us hu, hws⟩⟩
  | noneUpTo => exact ⟨[], by simp, by simpa using ht, by simp⟩
  | moreUpTo _ _ ihu ihv =>
    obtain ⟨us, vs, rfl, hu, hv⟩ := List.map_eq_append_iff.mp ht
    obtain ⟨ws, hn, rfl, hws⟩ := ihv vs hv
    refine ⟨us :: ws, by simpa using hn, rfl, ?_⟩
    exact List.forall_mem_cons.mpr ⟨ihu us hu, hws⟩

end ScriptLang.Grammar
