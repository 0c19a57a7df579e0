import PagedTopK.Proofs.Json.Double
import PagedTopK.Proofs.Json.Quoted

set_option autoImplicit false

/-!
# Scanning tokens

The characters of tokens are scanned as these tokens, one after the other. Only a numeral needs
what follows it to end, so scalars must be followed by a delimiter or by the end of the text.

## Main definitions

* `Json.Scalar.isReadable` — whether an integer has 64 bits.
* `Json.Scalar.rewritten` — the scalar as which a written scalar is read: a finite double is read
  again, and what stands for no number has become null.
* `Json.Scanner.After` — the scanner at the end of a token.
* `Json.Scanner.Separated` — tokens in which only delimiters come after scalars.

## Main results

* `Json.tokenize_flatMap_chars` — the tokens of the characters of tokens.
-/

namespace PagedTopK.Json

/-! ## Scalars -/

/-- **Whether what is written for a scalar is a scalar again.** -/
def Scalar.isReadable : Scalar → Bool
  | integer i => decide (-2 ^ 63 ≤ i ∧ i < 2 ^ 64)
  | _ => true

/-- **The scalar as which a written scalar is read.** -/
def Scalar.rewritten : Scalar → Scalar
  | double x => if x.isFinite then double (reread x) else null
  | tooGreat | loneSurrogate => null
  | s => s

/-- Whether what is written for a token is a token again. -/
def Token.isReadable : Token → Bool
  | scalar s => s.isReadable
  | invalid => false
  | _ => true

/-- **The token as which a written token is read.** -/
def Token.rewritten : Token → Token
  | scalar s => scalar s.rewritten
  | t => t

/-- Whether a token ends a scalar before it. -/
def Token.isDelimiter : Token → Bool
  | closeArray | closeObject | comma | colon => true
  | _ => false

/-- Whether a token is a scalar. -/
def Token.isScalar : Token → Bool
  | scalar _ => true
  | _ => false

/-! ## The scanner after a token -/

/-- **The scanner has read a token**, or is in a numeral that will be that token before anything but
a digit. -/
inductive Scanner.After (ts : List Token) (t : Token) : Scanner → Prop where
  /-- The token is complete. -/
  | complete : After ts t ⟨t :: ts, .between⟩
  /-- The token is a numeral that may go on. -/
  | pending {part : NumeralPart} {n : Numeral} (hpart : part.mayEnd = true)
      (hvalid : n.token = t) : After ts t ⟨ts, .numeral part n.reversed⟩

namespace Scanner

variable {ts : List Token} {t : Token} {s : Scanner}

/-- The tokens of numerals are not invalid. -/
lemma token_ne_invalid (n : Numeral) : n.token ≠ .invalid := by
  unfold Numeral.token
  split <;> exact nofun

/-- At the end of the text the token is the last one. -/
lemma After.finish (h : After ts t s) : s.finish = (t :: ts).reverse := by
  cases h with
  | complete => rfl
  | pending hpart hvalid =>
    show (numeralToken _ _ none :: ts).reverse = _
    rw [numeralToken_reversed hpart _ rfl, hvalid]

/-- A character that cannot continue a numeral begins another token. -/
lemma After.step (h : After ts t s) {c : Char} (hdigit : c.isDigit = false)
    (hpoint : c ≠ '.') (hlower : c ≠ 'e') (hupper : c ≠ 'E') :
    s.step c = begin ⟨t :: ts, .between⟩ c := by
  cases h with
  | complete => rfl
  | @pending part n hpart hvalid =>
    have hstop : continueNumeral? part n.reversed c = none := by
      cases part with
      | zero | whole | fraction | exponent =>
        simp [continueNumeral?, hdigit, hpoint, hlower, hupper]
      | sign | point | exponentSign | exponentStart => cases hpart
    have htoken : numeralToken part n.reversed (some c) = t :=
      (numeralToken_reversed hpart n (by simpa using hdigit)).trans hvalid
    have hne : t ≠ .invalid := hvalid ▸ token_ne_invalid n
    simp [Scanner.step, hstop, htoken, afterToken, emit, hne]

/-- A token that ends a numeral is read after any token. -/
lemma After.delimiter (h : After ts t s) {next : Token} (hnext : next.isDelimiter = true) :
    After (t :: ts) next.rewritten (next.chars.foldl Scanner.step s) := by
  have hstep : ∀ c : Char, c.isDigit = false → c ≠ '.' → c ≠ 'e' → c ≠ 'E' →
      [c].foldl Scanner.step s = begin ⟨t :: ts, .between⟩ c := fun c h1 h2 h3 h4 =>
    h.step h1 h2 h3 h4
  cases next with
  | closeArray =>
    rw [Token.chars, hstep ']' (by decide) (by decide) (by decide) (by decide)]
    exact .complete
  | closeObject =>
    rw [Token.chars, hstep '}' (by decide) (by decide) (by decide) (by decide)]
    exact .complete
  | colon =>
    rw [Token.chars, hstep ':' (by decide) (by decide) (by decide) (by decide)]
    exact .complete
  | comma =>
    rw [Token.chars, hstep ',' (by decide) (by decide) (by decide) (by decide)]
    exact .complete
  | scalar => cases hnext
  | openArray => cases hnext
  | openObject => cases hnext
  | invalid => cases hnext

variable (ts) in
/-- The characters of a well-formed numeral. -/
lemma after_numeral {n : Numeral} (hn : n.WellFormed) (plus : Bool) :
    After ts n.token ((n.text plus).foldl Scanner.step ⟨ts, .between⟩) := by
  obtain ⟨part, hpart, hfold⟩ := foldl_step_numeral ts hn plus
  rw [hfold]
  exact .pending hpart rfl

/-- **A scalar is read back.** -/
lemma after_scalar {v : Scalar} (hv : v.isReadable = true) :
    After ts (.scalar v.rewritten) (v.chars.foldl Scanner.step ⟨ts, .between⟩) := by
  cases v with
  | null => exact .complete
  | bool b => cases b <;> exact .complete
  | integer i =>
    have hbounds : -2 ^ 63 ≤ i ∧ i < 2 ^ 64 := of_decide_eq_true hv
    have htoken : (Numeral.ofInt i).token = .scalar (.integer i) := by
      rw [Numeral.token, number?_ofInt hbounds.1 hbounds.2]
    have h := after_numeral ts (wellFormed_ofInt i) true
    rw [text_ofInt, htoken] at h
    exact h
  | double x =>
    simp only [Scalar.chars, Scalar.rewritten]
    by_cases hx : x.isFinite = true
    · have htoken : (Numeral.ofDouble x).token = .scalar (.double (reread x)) := by
        rw [Numeral.token, number?_ofDouble hx]
      have h := after_numeral ts (wellFormed_ofDouble hx) true
      rw [htoken] at h
      rw [if_pos hx, if_pos hx, write_eq_text hx]
      exact h
    · rw [if_neg hx, if_neg hx]
      exact .complete
  | text s =>
    rw [Scalar.chars, foldl_step_quoted]
    exact .complete
  | tooGreat => exact .complete
  | loneSurrogate => exact .complete

variable (ts) in
/-- **A token is read back** after a complete one. -/
lemma after_token (ht : t.isReadable = true) :
    After ts t.rewritten (t.chars.foldl Scanner.step ⟨ts, .between⟩) := by
  cases t with
  | scalar v => exact after_scalar ht
  | openArray => exact .complete
  | closeArray => exact .complete
  | openObject => exact .complete
  | closeObject => exact .complete
  | colon => exact .complete
  | comma => exact .complete
  | invalid => cases ht

/-! ## Sequences of tokens -/

/-- Only delimiters come after scalars. -/
def Separated : List Token → Prop := List.IsChain fun a b => a.isScalar → b.isDelimiter

/-- After a bracket or a separator nothing is pending. -/
lemma After.eq_complete (h : After ts t s) (ht : t.isScalar = false) :
    s = ⟨t :: ts, .between⟩ := by
  cases h with
  | complete => rfl
  | @pending part n hpart hvalid =>
    exfalso
    unfold Numeral.token at hvalid
    split at hvalid <;> · rw [← hvalid] at ht; cases ht

/-- **The rest of a sequence of tokens**, after one of them. -/
lemma After.foldl {rest : List Token} {own : Token} (h : After ts own.rewritten s)
    (hseparated : Separated (own :: rest)) (hreadable : ∀ t ∈ rest, t.isReadable = true) :
    ((rest.flatMap Token.chars).foldl Scanner.step s).finish =
      ts.reverse ++ (own :: rest).map Token.rewritten := by
  induction rest generalizing ts own s with
  | nil =>
    rw [List.flatMap_nil, List.foldl_nil, h.finish, List.reverse_cons]
    rfl
  | cons next rest ih =>
    rw [Separated, List.isChain_cons_cons] at hseparated
    have hnext : After (own.rewritten :: ts) next.rewritten (next.chars.foldl Scanner.step s) := by
      by_cases hscalar : own.isScalar = true
      · exact h.delimiter (hseparated.1 hscalar)
      · have hown : own.rewritten.isScalar = false := by
          cases own <;> first | rfl | exact absurd rfl hscalar
        rw [h.eq_complete hown]
        exact after_token _ (hreadable next List.mem_cons_self)
    rw [List.flatMap_cons, List.foldl_append,
      ih hnext hseparated.2 fun t ht => hreadable t (List.mem_cons_of_mem _ ht)]
    simp

end Scanner

/-- **The characters of tokens are scanned as these tokens**, if only delimiters come after
scalars. -/
theorem tokenize_flatMap_chars {ts : List Token} (hseparated : Scanner.Separated ts)
    (hreadable : ∀ t ∈ ts, t.isReadable = true) :
    tokenize (ts.flatMap Token.chars) = ts.map Token.rewritten := by
  cases ts with
  | nil => rfl
  | cons t rest =>
    have hfirst := Scanner.after_token [] (hreadable t List.mem_cons_self)
    rw [tokenize, List.flatMap_cons, List.foldl_append]
    exact hfirst.foldl hseparated fun t ht => hreadable t (List.mem_cons_of_mem _ ht)

end PagedTopK.Json
