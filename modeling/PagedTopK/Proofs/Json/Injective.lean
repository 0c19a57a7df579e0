import PagedTopK.Proofs.Binary64.Order
import PagedTopK.Proofs.Json.Document

set_option autoImplicit false

/-!
# Different values have different texts

A written double need not be read as itself, because reading rounds twice. Yet two finite doubles
have different texts, as their shortest decimals differ; and everything else is read as what it was.
So a text without white space writes one value only.

## Main definitions

* `Json.isExact` — whether a value without brackets is told by its text: integers have 64 bits and
  doubles are finite.

## Main results

* `Json.write_injOn` — different doubles have different texts.
* `Json.eq_of_flatMap_chars_eq` — different sequences of tokens have different texts.
* `Json.eq_of_compactChars_eq` — different values have different texts.
-/

namespace PagedTopK.Json

open Scanner (Separated)

/-! ## Numerals and doubles -/

namespace Numeral

lemma reversed_injective : Function.Injective reversed := by
  intro m n h
  cases m
  cases n
  simpa [reversed] using h

/-- **Different numerals have different texts**: the scanner ends with another one. -/
lemma eq_of_text_eq {m n : Numeral} (hm : m.WellFormed) (hn : n.WellFormed) {plus : Bool}
    (h : m.text plus = n.text plus) : m = n := by
  obtain ⟨part, -, hscan⟩ := foldl_step_numeral [] hm plus
  obtain ⟨part', -, hscan'⟩ := foldl_step_numeral [] hn plus
  rw [h, hscan'] at hscan
  injection hscan with _ hmode
  injection hmode with _ hreversed
  exact (reversed_injective hreversed).symm

lemma negative_ofDouble (x : Binary64) : (ofDouble x).negative = x.negative := by
  unfold ofDouble
  split
  · rfl
  · exact negative_ofDigits _ _ _

/-- The numeral of a zero has the value zero, and no other one has. -/
lemma isZero_eq_of_ofDouble_eq {x y : Binary64} (hy : y.isFinite = true)
    (h : ofDouble x = ofDouble y) (hzero : x.isZero = true) : y.isZero = true := by
  by_contra hne
  rw [Bool.not_eq_true] at hne
  have hvalue : (ofDouble x).value = 0 := by
    have hdigits : Digits.value (['0'] ++ ['0']) = 0 := rfl
    rw [ofDouble, if_pos hzero, value]
    simp only [hdigits]
    rw [Nat.cast_zero, zero_mul]
  rw [h, value_ofDouble hy hne, Decimal.value, mul_eq_zero, Nat.cast_eq_zero] at hvalue
  rcases hvalue with hvalue | hvalue
  · exact (Binary64.bounds_shortest .toEven hy hne).1 hvalue
  · exact (zpow_pos (by norm_num) _).ne' hvalue

end Numeral

/-- **Different doubles have different texts.** -/
theorem write_injOn {x y : Binary64} (hx : x.isFinite = true) (hy : y.isFinite = true)
    (h : Layout.json.write x = Layout.json.write y) : x = y := by
  rw [write_eq_text hx, write_eq_text hy] at h
  have hnumeral := Numeral.eq_of_text_eq (wellFormed_ofDouble hx) (wellFormed_ofDouble hy) h
  have hsign : x.negative = y.negative := by
    rw [← Numeral.negative_ofDouble, hnumeral, Numeral.negative_ofDouble]
  cases hzero : x.isZero with
  | true =>
    have hyzero := Numeral.isZero_eq_of_ofDouble_eq hy hnumeral hzero
    rw [Binary64.isZero, beq_iff_eq] at hzero hyzero
    cases x
    cases y
    cases hsign
    cases hzero
    cases hyzero
    rfl
  | false =>
    have hyzero : y.isZero = false := by
      by_contra hne
      rw [Bool.not_eq_false] at hne
      rw [Numeral.isZero_eq_of_ofDouble_eq hx hnumeral.symm hne] at hzero
      cases hzero
    have hvalue := value_ofDouble hx hzero
    rw [hnumeral, value_ofDouble hy hyzero] at hvalue
    exact Binary64.eq_of_value_shortest_eq hx hy hzero hyzero hsign hvalue.symm

/-! ## Tokens -/

/-- **Whether a scalar is told by its text**: it stands for a value, and what is written for it is
written for no other one. -/
def Scalar.isExact : Scalar → Bool
  | integer i => decide (-2 ^ 63 ≤ i ∧ i < 2 ^ 64)
  | double x => x.isFinite
  | tooGreat | loneSurrogate => false
  | _ => true

/-- Whether a token is told by its text. -/
def Token.isExact : Token → Bool
  | scalar s => s.isExact
  | invalid => false
  | _ => true

lemma Token.isReadable_of_isExact {t : Token} (h : t.isExact = true) : t.isReadable = true := by
  cases t with
  | scalar s =>
    cases s with
    | integer => exact h
    | null | bool | double | tooGreat | text | loneSurrogate => rfl
  | invalid => cases h
  | openArray | closeArray | openObject | closeObject | colon | comma => rfl

/-- Scalars that are read as the same scalar are the same, or both are doubles. -/
lemma Scalar.eq_or_of_rewritten_eq {s t : Scalar} (hs : s.isExact = true) (ht : t.isExact = true)
    (h : s.rewritten = t.rewritten) :
    s = t ∨ ∃ x y, s = .double x ∧ t = .double y := by
  have hdouble : ∀ {x : Binary64}, (double x).isExact = true →
      (double x).rewritten = double (reread x) := fun hx => if_pos hx
  cases s with
  | tooGreat | loneSurrogate => cases hs
  | double x =>
    rw [hdouble hs] at h
    cases t with
    | double y => exact .inr ⟨x, y, rfl, rfl⟩
    | tooGreat | loneSurrogate => cases ht
    | null | bool | integer | text => cases h
  | null | bool | integer | text =>
    cases t with
    | double y =>
      rw [hdouble ht] at h
      cases h
    | tooGreat | loneSurrogate => cases ht
    | null | bool | integer | text => exact .inl h

/-- Tokens that are read as the same token are the same, or both are doubles. -/
lemma Token.eq_or_of_rewritten_eq {t u : Token} (ht : t.isExact = true) (hu : u.isExact = true)
    (h : t.rewritten = u.rewritten) :
    t = u ∨ ∃ x y, t = .scalar (.double x) ∧ u = .scalar (.double y) := by
  cases t with
  | scalar s =>
    cases u with
    | scalar s' =>
      rcases Scalar.eq_or_of_rewritten_eq ht hu (Token.scalar.inj h) with rfl | ⟨x, y, rfl, rfl⟩
      · exact .inl rfl
      · exact .inr ⟨x, y, rfl, rfl⟩
    | openArray | closeArray | openObject | closeObject | colon | comma | invalid => cases h
  | openArray | closeArray | openObject | closeObject | colon | comma | invalid =>
    cases u with
    | scalar => cases h
    | openArray | closeArray | openObject | closeObject | colon | comma | invalid => exact .inl h

/-- Whether a character may be part of a numeral. -/
def isNumeralChar (c : Char) : Bool := c.isDigit || c == '-' || c == '+' || c == '.' || c == 'e'

/-- A delimiter is no part of a numeral. -/
lemma takeWhile_chars_of_isDelimiter {t : Token} (h : t.isDelimiter = true) (cs : List Char) :
    (t.chars ++ cs).takeWhile isNumeralChar = [] := by
  cases t with
  | closeArray | closeObject | colon | comma => exact List.takeWhile_cons_of_neg (by decide)
  | scalar | openArray | openObject | invalid => cases h

/-- **A written double ends with the next delimiter.** -/
lemma takeWhile_write_append {x : Binary64} (hx : x.isFinite = true) {ts : List Token}
    (hseparated : Separated (.scalar (.double x) :: ts)) :
    (Layout.json.write x ++ ts.flatMap Token.chars).takeWhile isNumeralChar =
      Layout.json.write x := by
  have hletter : isNumeralChar 'e' = true := rfl
  have hchars : ∀ c ∈ Layout.json.write x, isNumeralChar c = true := by
    rw [write_eq_text hx]
    exact (wellFormed_ofDouble hx).forall_mem_spelled (p := fun c => isNumeralChar c = true)
      (fun c hc => by simp [isNumeralChar, hc]) rfl rfl rfl hletter true
  have hrest : (ts.flatMap Token.chars).takeWhile isNumeralChar = [] := by
    cases ts with
    | nil => rfl
    | cons t ts =>
      exact takeWhile_chars_of_isDelimiter ((List.isChain_cons_cons.1 hseparated).1 rfl) _
  rw [List.takeWhile_append_of_pos hchars, hrest, List.append_nil]

/-- **Different sequences of tokens have different texts**, if only delimiters come after scalars.

**Proof sketch.** Both texts are scanned as the same tokens, so the sequences differ at most in
doubles. These are found again as what comes before the next delimiter, and different doubles have
different texts. -/
theorem eq_of_flatMap_chars_eq {ts us : List Token} (hts : Separated ts) (hus : Separated us)
    (htsexact : ∀ t ∈ ts, t.isExact = true) (husexact : ∀ u ∈ us, u.isExact = true)
    (h : ts.flatMap Token.chars = us.flatMap Token.chars) : ts = us := by
  have hread : ts.map Token.rewritten = us.map Token.rewritten := by
    rw [← tokenize_flatMap_chars hts fun t ht => Token.isReadable_of_isExact (htsexact t ht),
      ← tokenize_flatMap_chars hus fun u hu => Token.isReadable_of_isExact (husexact u hu), h]
  induction ts generalizing us with
  | nil => exact (List.map_eq_nil_iff.1 hread.symm).symm
  | cons t ts ih =>
    cases us with
    | nil => cases hread
    | cons u us =>
      obtain ⟨ht, htsrest⟩ := List.forall_mem_cons.1 htsexact
      obtain ⟨hu, husrest⟩ := List.forall_mem_cons.1 husexact
      rw [List.map_cons, List.map_cons, List.cons.injEq] at hread
      rw [List.flatMap_cons, List.flatMap_cons] at h
      have hfirst : t = u := by
        rcases Token.eq_or_of_rewritten_eq ht hu hread.1 with heq | ⟨x, y, rfl, rfl⟩
        · exact heq
        · have hx : Token.chars (.scalar (.double x)) = Layout.json.write x := if_pos ht
          have hy : Token.chars (.scalar (.double y)) = Layout.json.write y := if_pos hu
          have hwrite := congrArg (List.takeWhile isNumeralChar) h
          rw [hx, hy, takeWhile_write_append ht hts, takeWhile_write_append hu hus] at hwrite
          rw [write_injOn ht hu hwrite]
      subst hfirst
      have husseparated : Separated us := hus.tail
      rw [ih hts.tail husseparated htsrest husrest (List.append_cancel_left h) hread.2]

/-! ## Values -/

/-- **Whether a value without brackets is told by its text.** -/
def isExact : Json → Bool
  | integer i => decide (-2 ^ 63 ≤ i ∧ i < 2 ^ 64)
  | double x => x.isFinite
  | _ => true

lemma isNaN_of_isExact (x : Binary64) (h : (double x).isExact = true) : x.isNaN = false :=
  Binary64.isNaN_of_isFinite h

lemma all_isWord_of_isExact {v : Json} (h : v.all isExact = true) : v.all isWord = true := by
  refine all_mono (fun v hv => ?_) h
  cases v with
  | double x => rfl
  | null | bool | integer | text | array | object => exact hv

/-- The tokens of such a value are told by their texts. -/
lemma isExact_of_mem_emit {v : Json} (hv : v.all isExact = true) {rest : List Token}
    (hrest : ∀ t ∈ rest, t.isExact = true) : ∀ t ∈ emit v rest, t.isExact = true := by
  induction v using inductionOn generalizing rest with
  | null | bool | integer | double | text => exact List.forall_mem_cons.2 ⟨hv, hrest⟩
  | array items ih =>
    rw [all, allItems_iff] at hv
    have hclose : ∀ t ∈ Token.closeArray :: rest, t.isExact = true :=
      List.forall_mem_cons.2 ⟨rfl, hrest⟩
    cases items with
    | nil => exact List.forall_mem_cons.2 ⟨rfl, hclose⟩
    | cons v more =>
      have hmore : ∀ t ∈ more.foldr (fun w after => .comma :: emit w after) (.closeArray :: rest),
          t.isExact = true :=
        List.foldrRecOn (motive := fun ts : List Token => ∀ t ∈ ts, t.isExact = true) more _ hclose
          fun after hafter w hw => List.forall_mem_cons.2
            ⟨rfl, ih w (List.mem_cons_of_mem v hw) (hv w (List.mem_cons_of_mem v hw)) hafter⟩
      rw [emit, emitItems_cons]
      exact List.forall_mem_cons.2
        ⟨rfl, ih v List.mem_cons_self (hv v List.mem_cons_self) hmore⟩
  | object members ih =>
    rw [all, allMembers_iff] at hv
    have hclose : ∀ t ∈ Token.closeObject :: rest, t.isExact = true :=
      List.forall_mem_cons.2 ⟨rfl, hrest⟩
    have hmember : ∀ {m : String × Json}, m ∈ members → ∀ {after : List Token},
        (∀ t ∈ after, t.isExact = true) →
        ∀ t ∈ .scalar (.text m.1) :: .colon :: emit m.2 after, t.isExact = true :=
      fun hm _ hafter => List.forall_mem_cons.2
        ⟨rfl, List.forall_mem_cons.2 ⟨rfl, ih _ hm (hv _ hm) hafter⟩⟩
    cases members with
    | nil => exact List.forall_mem_cons.2 ⟨rfl, hclose⟩
    | cons m more =>
      have hmore : ∀ t ∈ more.foldr
          (fun n after => .comma :: .scalar (.text n.1) :: .colon :: emit n.2 after)
          (.closeObject :: rest), t.isExact = true :=
        List.foldrRecOn (motive := fun ts : List Token => ∀ t ∈ ts, t.isExact = true) more _ hclose
          fun after hafter n hn => List.forall_mem_cons.2
            ⟨rfl, hmember (List.mem_cons_of_mem m hn) hafter⟩
      rw [emit, emitMembers_cons]
      exact List.forall_mem_cons.2 ⟨rfl, hmember List.mem_cons_self hmore⟩

/-- **Different values have different texts.** -/
theorem eq_of_compactChars_eq {v w : Json} (hv : v.all isExact = true) (hw : w.all isExact = true)
    (h : v.compactChars = w.compactChars) : v = w := by
  have hseparated : ∀ {u : Json}, u.all isExact = true → Separated u.tokens := fun hu =>
    (scannable_emit (all_isWord_of_isExact hu) .nil).separated
  have hexact : ∀ {u : Json}, u.all isExact = true → ∀ t ∈ u.tokens, t.isExact = true := fun hu =>
    isExact_of_mem_emit hu (List.forall_mem_nil _)
  have htokens : v.tokens = w.tokens :=
    eq_of_flatMap_chars_eq (hseparated hv) (hseparated hw) (hexact hv) (hexact hw) h
  have hdocument : v.tokens.foldl Builder.step (.value []) = .done (document v) :=
    foldl_emit v [] []
  have hdocument' : w.tokens.foldl Builder.step (.value []) = .done (document w) :=
    foldl_emit w [] []
  rw [htokens, hdocument'] at hdocument
  exact (document_injective (Builder.done.inj hdocument)).symm

end PagedTopK.Json
