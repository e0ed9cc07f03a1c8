import ScriptLang.Proofs.Numerals.Digits
import ScriptLang.Proofs.Parsing.EntryPoints
import ScriptLang.Proofs.Scanning.Respelling

namespace ScriptLang.Number

open Binary Source Grammar Parsing Syntax

/-- A source is one expression without any error, and its value is a number equal to this one. -/
structure ReadsBack (source : String) (x : Float) : Prop where
  scanned : Source.errors source = []
  value : ∃ e y, parseExpression (.ofSource source) = .ok e ∧
    (∀ fuel m, Evaluation.evaluate (fuel + 2) (e.map fun _ => .global) m = .ok (.number y) m) ∧
    y == x

section Sources

variable {source mark lexeme : String} {numeral : List Char} {x y : Float} {before line : Nat}

theorem items_numeral (h : Lexeme numeral (.number y)) (line offset : Nat) :
    ∃ n, itemsFrom line offset (pieces numeral) =
      [.token ⟨.number y, String.ofList numeral, n⟩] := by
  rw [pieces_of_lexeme h]
  exact ⟨_, rfl⟩

theorem items_unsigned (h : Lexeme numeral (.number y)) :
    ∃ n, items (String.ofList numeral) = [.token ⟨.number y, String.ofList numeral, n⟩] := by
  rw [items, String.toList_ofList]
  exact items_numeral h 1 0

theorem tokens_of_items (ts : List Token) (h : items source = ts.map Item.token) :
    tokens source = ts ∧ errors source = [] := by
  rw [tokens, errors, h, List.filterMap_map, List.filterMap_map]
  exact ⟨List.filterMap_some, List.filterMap_eq_nil_iff.mpr fun _ _ => rfl⟩

theorem items_signed (numeral : List Char) :
    items (String.ofList ('-' :: numeral)) =
      .token ⟨.minus, "-", 1⟩ :: itemsFrom 1 1 (pieces numeral) := by
  rw [items, String.toList_ofList, pieces_cons]
  rfl

theorem readsBack_number (h : items source = [.token ⟨.number y, lexeme, line⟩]) (hy : y == x) :
    ReadsBack source x := by
  obtain ⟨htokens, herrors⟩ := tokens_of_items [_] h
  have hreads : Reads (.expression (.literal (.number y))) (tokens source) := by
    rw [htokens]
    exact .plain (reads_level_of_primary (.literal rfl))
  exact ⟨herrors, _, y, parseExpression_ok_iff_reads.mpr hreads, fun _ _ => rfl, hy⟩

theorem readsBack_negated
    (h : items source = [.token ⟨.minus, mark, before⟩, .token ⟨.number y, lexeme, line⟩])
    (hy : -y == x) : ReadsBack source x := by
  obtain ⟨htokens, herrors⟩ := tokens_of_items [_, _] h
  have hnumber : Reads (.level .unary (.literal (.number y))) [⟨.number y, lexeme, line⟩] := by
    simpa using Reads.call (.literal rfl) .callsEnd
  have hminus : (⟨.minus, mark, before⟩ : Token).kind ∈ [Kind.bang, .minus] := by simp
  have hunary := Reads.unary hminus hnumber
  have hreads : Reads (.expression (.unary ⟨.minus, mark, before⟩ (.literal (.number y))))
      (tokens source) := by
    rw [htokens]
    exact .plain (reads_level_mono hunary (rank_pos .unary))
  exact ⟨herrors, _, -y, parseExpression_ok_iff_reads.mpr hreads, fun _ _ => rfl, hy⟩

end Sources

section Texts

variable {x y : Float} {negative other : Bool} {p q : Nat} {style : Style}

def Style.showsSign (style : Style) (negative : Bool) (p : Nat) : Bool :=
  negative && (p != 0 || style.signedZero)

theorem chars_of_shape (style : Style) (h : shape x = .finite negative p) :
    chars style x = signText (style.showsSign negative p) ++ magnitudeText style p := by
  rw [chars, h]
  rfl

/-- The text of a number, in every style that adds nothing to its value, reads back as it. -/
theorem readsBack_text (h : shape x = .finite negative p)
    (hend : style.integralEnd ∈ integralEnds) : ReadsBack (text style x) x := by
  have hp := lt_infinity_of_shape h
  have hnumeral := lexeme_magnitudeText hp hend
  rw [text, chars_of_shape style h]
  cases hsign : style.showsSign negative p with
  | false =>
    obtain ⟨n, hitems⟩ := items_unsigned hnumeral
    have hzero : false = negative ∨ p = 0 := by
      cases negative with
      | false => exact .inl rfl
      | true => exact .inr (by simp [Style.showsSign] at hsign; exact hsign.1)
    have hy : ofPattern p == x := (beq_iff (shape_ofPattern hp) h).mpr ⟨rfl, hzero⟩
    exact readsBack_number hitems hy
  | true =>
    obtain ⟨n, hitems⟩ := items_numeral hnumeral 1 1
    have hnegative : negative = true := by
      simp [Style.showsSign] at hsign
      exact hsign.1
    have hy : -ofPattern p == x :=
      (beq_iff (shape_neg (shape_ofPattern hp)) h).mpr ⟨rfl, .inl hnegative.symm⟩
    exact readsBack_negated ((items_signed _).trans (congrArg _ hitems)) hy

theorem lexeme_text (h : shape x = .finite false p) (hend : style.integralEnd ∈ integralEnds) :
    Lexeme (text style x).toList (.number x) := by
  have hp := lt_infinity_of_shape h
  have hlexeme := lexeme_magnitudeText hp hend
  rw [eq_of_shape (shape_ofPattern hp) h] at hlexeme
  rw [text, chars_of_shape style h, String.toList_ofList]
  exact hlexeme

theorem token_of_text (h : shape x = .finite false p) (hend : style.integralEnd ∈ integralEnds) :
    errors (text style x) = [] ∧ ∃ t, tokens (text style x) = [t] ∧ t.kind = .number x := by
  obtain ⟨n, hitems⟩ := items_unsigned (lexeme_text h hend)
  rw [String.ofList_toList] at hitems
  obtain ⟨htokens, herrors⟩ := tokens_of_items [_] hitems
  exact ⟨herrors, _, htokens, rfl⟩

/-- Equal numbers have one text: the sign of a zero is not written. -/
theorem text_congr (hx : shape x = .finite negative p) (hy : shape y = .finite other q)
    (h : x == y) : text valueStyle x = text valueStyle y := by
  rw [text, text, chars_of_shape _ hx, chars_of_shape _ hy]
  obtain ⟨rfl, hsign⟩ := (beq_iff hx hy).mp h
  rcases hsign with rfl | rfl
  · rfl
  · simp [Style.showsSign, valueStyle]

theorem ReadsBack.beq {source : String} (h : ReadsBack source x) (h' : ReadsBack source y)
    (hx : shape x = .finite negative p) (hy : shape y = .finite other q) : x == y := by
  obtain ⟨e, v, he, hv, hvx⟩ := h.value
  obtain ⟨e', v', he', hv', hvy⟩ := h'.value
  obtain rfl : e = e' := by
    rw [he] at he'
    exact Except.ok.inj he'
  have hsame := (hv 0 (.start [] .unlimited)).symm.trans (hv' 0 _)
  cases hsame
  obtain ⟨sign, r, hr⟩ := isFinite_iff.mp (isFinite_of_beq hvx (isFinite_iff.mpr ⟨_, _, hx⟩))
  obtain ⟨rfl, hsign⟩ := (beq_iff hr hx).mp hvx
  obtain ⟨rfl, hsign'⟩ := (beq_iff hr hy).mp hvy
  refine (beq_iff hx hy).mpr ⟨rfl, ?_⟩
  rcases hsign with rfl | hzero
  · exact hsign'
  · exact .inr hzero

end Texts

/-- A finite number is printed so that the text is scanned, parsed and evaluated without an error to
an equal number, as a value, in a listing of tokens and in a tree. Two finite values have the same
text exactly if they are equal numbers. A number without a sign comes back as a single token, with
just the bits it had. -/
theorem printed_numbers_read_back (x y : Float) (hx : x.isFinite) (hy : y.isFinite) :
    let printed (x : Float) : String := (Value.number x).text
    let listed : String := Token.literalText ⟨.number x, "", 1⟩
    let drawn : String := (Expr.literal (.number x) : Expr Unit).text
    (ReadsBack (printed x) x ∧ ReadsBack listed x ∧ ReadsBack drawn x) ∧
      (printed x = printed y ↔ x == y) ∧
      (x.toBits.toNat < 2 ^ 63 → ∀ source ∈ [printed x, listed, drawn],
        errors source = [] ∧ ∃ t, tokens source = [t] ∧ t.kind = .number x) := by
  intro printed listed drawn
  obtain ⟨negative, p, hp⟩ := isFinite_iff.mp hx
  obtain ⟨other, q, hq⟩ := isFinite_iff.mp hy
  have hvalue : valueStyle.integralEnd ∈ integralEnds := by decide
  have htoken : tokenStyle.integralEnd ∈ integralEnds := by decide
  have htree : treeStyle.integralEnd ∈ integralEnds := by decide
  have hprinted : ReadsBack (printed x) x := readsBack_text hp hvalue
  have hprinted' : ReadsBack (printed y) y := readsBack_text hq hvalue
  refine ⟨⟨hprinted, readsBack_text hp htoken, readsBack_text hp htree⟩,
    ⟨fun h => hprinted.beq (h ▸ hprinted') hp hq, text_congr hp hq⟩, fun hsign source hmem => ?_⟩
  obtain rfl : negative = false := by
    rw [(shape_eq_finite_iff.mp hp).2] at hsign
    cases negative with
    | false => rfl
    | true => exact absurd hsign (Nat.not_lt.mpr (Nat.le_add_right _ _))
  simp only [List.mem_cons, List.not_mem_nil, or_false] at hmem
  rcases hmem with rfl | rfl | rfl
  · exact token_of_text hp hvalue
  · exact token_of_text hp htoken
  · exact token_of_text hp htree

theorem negated_half_reads_back :
    let half : Float := ofPattern (1022 * fieldUnit)
    (-half).isFinite ∧ half.isFinite ∧ ReadsBack (Value.number (-half)).text (-half) ∧
      (Value.number (-half)).text ≠ (Value.number half).text := by
  intro half
  have hshape : shape half = .finite false (1022 * fieldUnit) := shape_ofPattern (by decide)
  have hhalf : half.isFinite := isFinite_iff.mpr ⟨_, _, hshape⟩
  have hnegated : (-half).isFinite := isFinite_iff.mpr ⟨_, _, shape_neg hshape⟩
  obtain ⟨⟨hprinted, -, -⟩, hiff, -⟩ := printed_numbers_read_back (-half) half hnegated hhalf
  refine ⟨hnegated, hhalf, hprinted, fun htext => ?_⟩
  have hsame := (beq_iff (shape_neg hshape) hshape).mp (hiff.mp htext)
  exact absurd hsame.2 (by decide)

end ScriptLang.Number
