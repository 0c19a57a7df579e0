import Mathlib.Tactic.Lemma
import PagedTopK.Json.Scanner

set_option autoImplicit false

/-!
# Scanning numerals

The characters of a numeral lead the scanner to the end of that numeral, with its digits in reverse.
The token comes only with the next character, which must not continue the numeral.

## Main definitions

* `Json.Numeral.text`, `Json.Numeral.spelled` — how a numeral is written, and how it may be.
* `Json.Numeral.WellFormed` — whether its digits can stand where they are.
* `Json.Numeral.token` — the token that it makes.

## Main results

* `Json.foldl_step_spelled` — the scanner after the characters of a numeral.
-/

namespace PagedTopK.Json

namespace Numeral

/-- **How a numeral is written**, with or without a plus sign before a positive exponent. -/
def text (plus : Bool) (n : Numeral) : List Char :=
  (if n.negative then ['-'] else []) ++ n.whole ++
    (if n.fraction = [] then [] else '.' :: n.fraction) ++
    (if n.scaled then
      'e' :: (if n.exponentNegative then ['-'] else if plus then ['+'] else []) ++ n.exponent
    else [])

/-- **How a numeral may be written**: as before, with the letter of the exponent in either case. -/
def spelled (letter : Char) (plus : Bool) (n : Numeral) : List Char :=
  (if n.negative then ['-'] else []) ++ n.whole ++
    (if n.fraction = [] then [] else '.' :: n.fraction) ++
    (if n.scaled then
      letter :: (if n.exponentNegative then ['-'] else if plus then ['+'] else []) ++ n.exponent
    else [])

/-- **Whether the digits of a numeral can stand where they are**: there is no leading zero, and no
exponent without digits. -/
structure WellFormed (n : Numeral) : Prop where
  /-- The digits before the point begin with zero only if there are no others. -/
  whole : n.whole = ['0'] ∨
    ∃ d ds, n.whole = d :: ds ∧ d ≠ '0' ∧ d.isDigit = true ∧ ∀ c ∈ ds, c.isDigit = true
  /-- After the point there are digits. -/
  fraction : ∀ c ∈ n.fraction, c.isDigit = true
  /-- In the exponent there are digits. -/
  exponent : ∀ c ∈ n.exponent, c.isDigit = true
  /-- An exponent has digits. -/
  scaled : n.scaled = true → n.exponent ≠ []
  /-- Without exponent there is nothing of it. -/
  unscaled : n.scaled = false → n.exponent = [] ∧ n.exponentNegative = false

/-- A numeral with its digits in reverse, as the scanner keeps it. -/
def reversed (n : Numeral) : Numeral :=
  { n with
    whole := n.whole.reverse, fraction := n.fraction.reverse, exponent := n.exponent.reverse }

/-- **The characters of a numeral** are digits, signs, a point and the letter of the exponent. -/
lemma WellFormed.forall_mem_spelled {n : Numeral} (hn : n.WellFormed) {p : Char → Prop}
    (hdigit : ∀ c, c.isDigit = true → p c) (hminus : p '-') (hplus : p '+') (hpoint : p '.')
    {letter : Char} (hletter : p letter) (plus : Bool) : ∀ c ∈ n.spelled letter plus, p c := by
  have hsign : ∀ b plus : Bool, ∀ c ∈ (if b then ['-'] else if plus then ['+'] else []), p c := by
    rintro (_ | _) (_ | _) <;> simp [hminus, hplus]
  have hwhole : ∀ c ∈ n.whole, p c := by
    rcases hn.whole with hzero | ⟨d, ds, hdigits, -, hd, hds⟩
    · rw [hzero]
      exact List.forall_mem_singleton.2 (hdigit '0' rfl)
    · rw [hdigits]
      exact List.forall_mem_cons.2 ⟨hdigit d hd, fun c hc => hdigit c (hds c hc)⟩
  unfold spelled
  refine List.forall_mem_append.2 ⟨List.forall_mem_append.2 ⟨List.forall_mem_append.2
    ⟨hsign _ false, hwhole⟩, ?_⟩, ?_⟩
  · split
    · exact List.forall_mem_nil _
    · exact List.forall_mem_cons.2 ⟨hpoint, fun c hc => hdigit c (hn.fraction c hc)⟩
  · split
    · exact List.forall_mem_cons.2 ⟨hletter, List.forall_mem_append.2
        ⟨hsign _ plus, fun c hc => hdigit c (hn.exponent c hc)⟩⟩
    · exact List.forall_mem_nil _

/-- **The token of a numeral.** -/
def token (n : Numeral) : Token :=
  match n.number? with
  | some (.integer i) => .scalar (.integer i)
  | some (.double x) => .scalar (.double x)
  | none => .scalar .tooGreat

end Numeral

/-- The token of a numeral may come before anything but a digit. -/
lemma numeralToken_reversed {part : NumeralPart} (hpart : part.mayEnd = true) (n : Numeral)
    {next : Option Char} (hnext : next.any Char.isDigit = false) :
    numeralToken part n.reversed next = n.token := by
  have hback : ({ n.reversed with
      whole := n.reversed.whole.reverse
      fraction := n.reversed.fraction.reverse
      exponent := n.reversed.exponent.reverse } : Numeral) = n := by
    simp [Numeral.reversed]
  rw [numeralToken, hpart, hnext, Bool.and_false, Bool.not_false, Bool.and_true, if_pos rfl]
  simp only [hback]
  rfl

/-! ## Steps of the scanner -/

section Steps

variable {ts : List Token}

/-- A character that continues a numeral. -/
lemma step_continue {part part' : NumeralPart} {n n' : Numeral} {c : Char}
    (h : continueNumeral? part n c = some (part', n')) :
    Scanner.step ⟨ts, .numeral part n⟩ c = ⟨ts, .numeral part' n'⟩ := by
  simp only [Scanner.step, h]

variable (ts)

/-- Digits that continue a numeral in one and the same part; `store` is the numeral with given
digits in that part, in reverse. -/
lemma foldl_step_digits (part : NumeralPart) (store : List Char → Numeral)
    (hstore : ∀ soFar c, c.isDigit = true →
      continueNumeral? part (store soFar) c = some (part, store (c :: soFar)))
    {ds : List Char} (hds : ∀ c ∈ ds, c.isDigit = true) (soFar : List Char) :
    ds.foldl Scanner.step ⟨ts, .numeral part (store soFar)⟩ =
      ⟨ts, .numeral part (store (ds.reverse ++ soFar))⟩ := by
  induction ds generalizing soFar with
  | nil => rfl
  | cons d ds ih =>
    rw [List.foldl_cons, step_continue (hstore soFar d (hds d List.mem_cons_self)),
      ih fun c hc => hds c (List.mem_cons_of_mem _ hc), List.reverse_cons, List.append_assoc,
      List.singleton_append]

/-- A digit is none of the characters that begin another token. -/
lemma begin_digit {s : Scanner} {c : Char} (h : c.isDigit = true) :
    s.begin c =
      match continueNumeral? .sign ⟨false, [], [], false, false, []⟩ c with
      | some (part, n) => { s with mode := .numeral part n }
      | none => s.emit .invalid .stopped := by
  unfold Scanner.begin
  split <;> first | rfl | cases h

/-- The first digit, after a minus sign or without one. -/
lemma foldl_step_first (negative : Bool) {d : Char} (hd : d.isDigit = true) :
    ((if negative then ['-'] else []) ++ [d]).foldl Scanner.step ⟨ts, .between⟩ =
      ⟨ts, .numeral (if d = '0' then .zero else .whole) ⟨negative, [d], [], false, false, []⟩⟩ := by
  have hfirst : continueNumeral? .sign ⟨negative, [], [], false, false, []⟩ d =
      some (if d = '0' then .zero else .whole, ⟨negative, [d], [], false, false, []⟩) := by
    by_cases hzero : d = '0'
    · simp [continueNumeral?, hzero]
    · simp [continueNumeral?, hzero, hd]
  cases negative with
  | true => exact step_continue hfirst
  | false =>
    show Scanner.begin _ d = _
    rw [begin_digit hd, hfirst]

/-- The digits before the point. -/
lemma foldl_step_whole {n : Numeral} (hn : n.WellFormed) :
    ∃ part, (part = .zero ∨ part = .whole) ∧
      ((if n.negative then ['-'] else []) ++ n.whole).foldl Scanner.step ⟨ts, .between⟩ =
        ⟨ts, .numeral part ⟨n.negative, n.whole.reverse, [], false, false, []⟩⟩ := by
  rcases hn.whole with hwhole | ⟨d, ds, hwhole, hne, hd, hds⟩
  · refine ⟨.zero, .inl rfl, ?_⟩
    rw [hwhole, foldl_step_first ts n.negative (by decide), if_pos rfl]
    rfl
  · refine ⟨.whole, .inr rfl, ?_⟩
    have hsplit : (if n.negative then ['-'] else []) ++ n.whole =
        ((if n.negative then ['-'] else []) ++ [d]) ++ ds := by
      rw [hwhole, List.append_assoc, List.singleton_append]
    have hdigits := foldl_step_digits ts .whole
      (fun soFar => ⟨n.negative, soFar, [], false, false, []⟩)
      (fun soFar c hc => by simp [continueNumeral?, hc]) hds [d]
    rw [hsplit, List.foldl_append, foldl_step_first ts n.negative hd, if_neg hne, hdigits, hwhole,
      List.reverse_cons]

/-- The point and the digits after it. -/
lemma foldl_step_fraction {n : Numeral} (hn : n.WellFormed) {part : NumeralPart}
    (hpart : part = .zero ∨ part = .whole) (whole : List Char) :
    ∃ part', (part' = .zero ∨ part' = .whole ∨ part' = .fraction) ∧
      (if n.fraction = [] then [] else '.' :: n.fraction).foldl Scanner.step
          ⟨ts, .numeral part ⟨n.negative, whole, [], false, false, []⟩⟩ =
        ⟨ts, .numeral part' ⟨n.negative, whole, n.fraction.reverse, false, false, []⟩⟩ := by
  have hdigits := hn.fraction
  cases hfraction : n.fraction with
  | nil => exact ⟨part, hpart.imp_right .inl, rfl⟩
  | cons d ds =>
    refine ⟨.fraction, .inr (.inr rfl), ?_⟩
    rw [hfraction] at hdigits
    have hd := hdigits d List.mem_cons_self
    have hpoint : continueNumeral? part ⟨n.negative, whole, [], false, false, []⟩ '.' =
        some (.point, ⟨n.negative, whole, [], false, false, []⟩) := by
      rcases hpart with rfl | rfl <;> rfl
    have hfirst : continueNumeral? .point ⟨n.negative, whole, [], false, false, []⟩ d =
        some (.fraction, ⟨n.negative, whole, [d], false, false, []⟩) := by
      simp [continueNumeral?, hd]
    rw [if_neg (List.cons_ne_nil d ds), List.foldl_cons, step_continue hpoint, List.foldl_cons,
      step_continue hfirst, foldl_step_digits ts .fraction
        (fun soFar => ⟨n.negative, whole, soFar, false, false, []⟩)
        (fun soFar c hc => by simp [continueNumeral?, hc])
        (fun c hc => hdigits c (List.mem_cons_of_mem _ hc)), List.reverse_cons]

/-- The sign of the exponent, if there is one, and its first digit. The digit leads on from the
place before the sign as it does from the place after it. -/
lemma foldl_step_exponentFirst (n : Numeral) (plus : Bool) (whole fraction : List Char) {d : Char}
    (hd : d.isDigit = true) :
    ((if n.exponentNegative then ['-'] else if plus then ['+'] else []) ++ [d]).foldl Scanner.step
        ⟨ts, .numeral .exponentSign ⟨n.negative, whole, fraction, true, false, []⟩⟩ =
      ⟨ts, .numeral .exponent ⟨n.negative, whole, fraction, true, n.exponentNegative, [d]⟩⟩ := by
  have hsigned : ∀ negative, continueNumeral? .exponentStart
      ⟨n.negative, whole, fraction, true, negative, []⟩ d =
      some (.exponent, ⟨n.negative, whole, fraction, true, negative, [d]⟩) := by
    intro negative
    simp [continueNumeral?, hd]
  have hplain : continueNumeral? .exponentSign
      ⟨n.negative, whole, fraction, true, false, []⟩ d =
      some (.exponent, ⟨n.negative, whole, fraction, true, false, [d]⟩) := by
    have hplus : d ≠ '+' := by rintro rfl; cases hd
    have hminus : d ≠ '-' := by rintro rfl; cases hd
    simp [continueNumeral?, hd, hplus, hminus]
  cases n.exponentNegative with
  | true => exact step_continue (hsigned true)
  | false =>
    cases plus with
    | true => exact step_continue (hsigned false)
    | false => exact step_continue hplain

/-- The exponent. -/
lemma foldl_step_exponent {n : Numeral} (hn : n.WellFormed) {letter : Char}
    (hletter : letter = 'e' ∨ letter = 'E') (plus : Bool) {part : NumeralPart}
    (hpart : part = .zero ∨ part = .whole ∨ part = .fraction) (whole fraction : List Char) :
    ∃ part', part'.mayEnd = true ∧
      (if n.scaled then
          letter :: (if n.exponentNegative then ['-'] else if plus then ['+'] else []) ++ n.exponent
        else []).foldl Scanner.step
          ⟨ts, .numeral part ⟨n.negative, whole, fraction, false, false, []⟩⟩ =
        ⟨ts, .numeral part' ⟨n.negative, whole, fraction, n.scaled, n.exponentNegative,
          n.exponent.reverse⟩⟩ := by
  cases hscaled : n.scaled with
  | false =>
    obtain ⟨hexponent, hnegative⟩ := hn.unscaled hscaled
    rw [hexponent, hnegative]
    refine ⟨part, ?_, rfl⟩
    rcases hpart with rfl | rfl | rfl <;> rfl
  | true =>
    refine ⟨.exponent, rfl, ?_⟩
    have hscale : continueNumeral? part ⟨n.negative, whole, fraction, false, false, []⟩ letter =
        some (.exponentSign, ⟨n.negative, whole, fraction, true, false, []⟩) := by
      rcases hletter with rfl | rfl <;> rcases hpart with rfl | rfl | rfl <;> rfl
    have hdigits := hn.exponent
    obtain ⟨d, ds, hexponent⟩ := List.exists_cons_of_ne_nil (hn.scaled hscaled)
    rw [hexponent] at hdigits
    have hd := hdigits d List.mem_cons_self
    have hsplit : letter :: (if n.exponentNegative then ['-'] else if plus then ['+'] else []) ++
        d :: ds = letter :: (((if n.exponentNegative then ['-'] else if plus then ['+'] else []) ++
          [d]) ++ ds) := by
      simp
    rw [if_pos rfl, hexponent, hsplit, List.foldl_cons, step_continue hscale, List.foldl_append,
      foldl_step_exponentFirst ts n plus whole fraction hd, foldl_step_digits ts .exponent
        (fun soFar => ⟨n.negative, whole, fraction, true, n.exponentNegative, soFar⟩)
        (fun soFar c hc => by simp [continueNumeral?, hc])
        (fun c hc => hdigits c (List.mem_cons_of_mem _ hc)), List.reverse_cons]

/-- **The scanner after the characters of a numeral** is at a place where the numeral may end, and
has the numeral with its digits in reverse. -/
theorem foldl_step_spelled {n : Numeral} (hn : n.WellFormed) {letter : Char}
    (hletter : letter = 'e' ∨ letter = 'E') (plus : Bool) :
    ∃ part, part.mayEnd = true ∧
      (n.spelled letter plus).foldl Scanner.step ⟨ts, .between⟩ =
        ⟨ts, .numeral part n.reversed⟩ := by
  obtain ⟨part, hpart, hwhole⟩ := foldl_step_whole ts hn
  obtain ⟨part', hpart', hfraction⟩ := foldl_step_fraction ts hn hpart n.whole.reverse
  obtain ⟨part'', hend, hexponent⟩ :=
    foldl_step_exponent ts hn hletter plus hpart' n.whole.reverse n.fraction.reverse
  refine ⟨part'', hend, ?_⟩
  rw [Numeral.spelled, List.foldl_append, List.foldl_append, hwhole, hfraction, hexponent]
  rfl

/-- The scanner after a numeral as it is written. -/
theorem foldl_step_numeral {n : Numeral} (hn : n.WellFormed) (plus : Bool) :
    ∃ part, part.mayEnd = true ∧
      (n.text plus).foldl Scanner.step ⟨ts, .between⟩ = ⟨ts, .numeral part n.reversed⟩ :=
  foldl_step_spelled ts hn (.inl rfl) plus

end Steps

end PagedTopK.Json
