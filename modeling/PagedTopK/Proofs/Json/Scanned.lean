import PagedTopK.Proofs.Json.Spelling

set_option autoImplicit false

/-!
# What is scanned has been spelled

While the scanner has found no invalid token, its tokens and what it is in the middle of spell all
that it has seen.

## Main definitions

* `Json.NumeralPart.Begun`, `Json.Mode.Reads` — what has been seen of a numeral, and of any token.
* `Json.Scanner.Seen` — what the scanner has seen.

## Main results

* `Json.spelled_tokenize` — a text spells its tokens, if none of them is invalid.
-/

namespace PagedTopK.Json

/-! ## Numerals -/

/-- A numeral without its exponent. -/
def Numeral.mantissa (n : Numeral) : List Char :=
  (if n.negative then ['-'] else []) ++ n.whole ++
    (if n.fraction = [] then [] else '.' :: n.fraction)

/-- **What has been seen of a numeral** that has come so far. -/
inductive NumeralPart.Begun : NumeralPart → Numeral → List Char → Prop where
  /-- Perhaps a minus sign. -/
  | sign (negative : Bool) :
    Begun .sign ⟨negative, [], [], false, false, []⟩ (if negative then ['-'] else [])
  /-- A leading zero. -/
  | zero {n : Numeral} (h : n.WellFormed) (hscaled : n.scaled = false) (hfraction : n.fraction = [])
    (hwhole : n.whole = ['0']) : Begun .zero n n.mantissa
  /-- Whole digits. -/
  | whole {n : Numeral} (h : n.WellFormed) (hscaled : n.scaled = false)
    (hfraction : n.fraction = []) (hwhole : n.whole ≠ ['0']) : Begun .whole n n.mantissa
  /-- The point as well. -/
  | point {n : Numeral} (h : n.WellFormed) (hscaled : n.scaled = false)
    (hfraction : n.fraction = []) : Begun .point n (n.mantissa ++ ['.'])
  /-- Digits of the fraction. -/
  | fraction {n : Numeral} (h : n.WellFormed) (hscaled : n.scaled = false)
    (hfraction : n.fraction ≠ []) : Begun .fraction n n.mantissa
  /-- The letter of the exponent. -/
  | exponentSign {n : Numeral} (h : n.WellFormed) (hscaled : n.scaled = false) {letter : Char}
    (hletter : letter = 'e' ∨ letter = 'E') :
    Begun .exponentSign { n with scaled := true } (n.mantissa ++ [letter])
  /-- The sign of the exponent. -/
  | exponentStart {n : Numeral} (h : n.WellFormed) (hscaled : n.scaled = false) {letter : Char}
    (hletter : letter = 'e' ∨ letter = 'E') (negative : Bool) :
    Begun .exponentStart { n with scaled := true, exponentNegative := negative }
      (n.mantissa ++ [letter, if negative then '-' else '+'])
  /-- Digits of the exponent. -/
  | exponent {n : Numeral} (h : n.WellFormed) (hscaled : n.scaled = true) {letter : Char}
    (hletter : letter = 'e' ∨ letter = 'E') (plus : Bool) :
    Begun .exponent n (n.spelled letter plus)

namespace Numeral.WellFormed

variable {n : Numeral}

/-- A numeral of one digit. -/
lemma single (negative : Bool) {d : Char} (hd : d.isDigit = true) :
    (⟨negative, [d], [], false, false, []⟩ : Numeral).WellFormed where
  whole := by
    by_cases hzero : d = '0'
    · exact .inl (by rw [hzero])
    · exact .inr ⟨d, [], rfl, hzero, hd, List.forall_mem_nil _⟩
  fraction := List.forall_mem_nil _
  exponent := List.forall_mem_nil _
  scaled := nofun
  unscaled := fun _ => ⟨rfl, rfl⟩

/-- Another whole digit, unless there is a leading zero. -/
lemma whole_append (h : n.WellFormed) (hwhole : n.whole ≠ ['0']) {c : Char}
    (hc : c.isDigit = true) :
    ({ n with whole := n.whole ++ [c] } : Numeral).WellFormed ∧ n.whole ++ [c] ≠ ['0'] := by
  obtain ⟨d, ds, hcons, hd, hdigit, hds⟩ := h.whole.resolve_left hwhole
  refine ⟨{ h with whole := .inr ⟨d, ds ++ [c], ?_, hd, hdigit, ?_⟩ }, ?_⟩
  · rw [hcons, List.cons_append]
  · exact List.forall_mem_append.2 ⟨hds, List.forall_mem_singleton.2 hc⟩
  · simp [hcons]

/-- Another digit of the fraction. -/
lemma fraction_append (h : n.WellFormed) {c : Char} (hc : c.isDigit = true) :
    ({ n with fraction := n.fraction ++ [c] } : Numeral).WellFormed :=
  { h with fraction := List.forall_mem_append.2 ⟨h.fraction, List.forall_mem_singleton.2 hc⟩ }

/-- An exponent. -/
lemma withExponent (h : n.WellFormed) (negative : Bool) {ds : List Char} {c : Char}
    (hds : ∀ d ∈ ds, d.isDigit = true) (hc : c.isDigit = true) :
    ({ n with scaled := true, exponentNegative := negative, exponent := ds ++ [c] } :
      Numeral).WellFormed :=
  { h with
    exponent := List.forall_mem_append.2 ⟨hds, List.forall_mem_singleton.2 hc⟩
    scaled := fun _ => by simp
    unscaled := nofun }

end Numeral.WellFormed

lemma Numeral.spelled_of_unscaled {n : Numeral} (h : n.scaled = false) (letter : Char)
    (plus : Bool) : n.spelled letter plus = n.mantissa := by
  rw [spelled, h]
  exact List.append_nil _

namespace NumeralPart

variable {part next : NumeralPart} {n m : Numeral} {own : List Char} {c : Char}

/-- **A numeral that may end here has been spelled.** -/
lemma Begun.spells (h : Begun part n own) (hend : part.mayEnd = true) : n.Spells own := by
  have hunscaled : n.WellFormed → n.scaled = false → n.Spells n.mantissa := by
    intro hn hscaled
    rw [← Numeral.spelled_of_unscaled hscaled 'e' false]
    exact .mk hn (.inl rfl) false
  cases h with
  | zero h hscaled => exact hunscaled h hscaled
  | whole h hscaled => exact hunscaled h hscaled
  | fraction h hscaled => exact hunscaled h hscaled
  | exponent h _ hletter plus => exact .mk h hletter plus
  | sign | point | exponentSign | exponentStart => cases hend

/-- A letter that begins the exponent. -/
lemma Begun.letter (h : n.WellFormed) (hscaled : n.scaled = false) (hc : c = 'e' ∨ c = 'E')
    (hnext : some (NumeralPart.exponentSign, { n.reversed with scaled := true }) = some (next, m)) :
    ∃ n' : Numeral, m = n'.reversed ∧ Begun next n' (n.mantissa ++ [c]) := by
  cases hnext
  exact ⟨{ n with scaled := true }, rfl, .exponentSign h hscaled hc⟩

/-- The point. -/
lemma Begun.dot (h : n.WellFormed) (hscaled : n.scaled = false) (hfraction : n.fraction = [])
    (hnext : some (NumeralPart.point, n.reversed) = some (next, m)) :
    ∃ n' : Numeral, m = n'.reversed ∧ Begun next n' (n.mantissa ++ ['.']) := by
  cases hnext
  exact ⟨n, rfl, .point h hscaled hfraction⟩

/-- A digit of the fraction. -/
lemma Begun.fractionDigit (h : n.WellFormed) (hscaled : n.scaled = false) (hc : c.isDigit = true)
    (hnext : some (NumeralPart.fraction, { n.reversed with fraction := c :: n.reversed.fraction }) =
      some (next, m)) :
    ∃ n' : Numeral, m = n'.reversed ∧
      Begun next n' ((if n.negative then ['-'] else []) ++ n.whole ++
        '.' :: (n.fraction ++ [c])) := by
  cases hnext
  refine ⟨{ n with fraction := n.fraction ++ [c] }, by simp [Numeral.reversed], ?_⟩
  have hnext := Begun.fraction (h.fraction_append hc) hscaled (by simp)
  simpa [Numeral.mantissa] using hnext

/-- A digit of the exponent. -/
lemma Begun.exponentDigit (h : n.WellFormed) {letter : Char}
    (hletter : letter = 'e' ∨ letter = 'E') (negative plus : Bool) {ds : List Char}
    (hds : ∀ d ∈ ds, d.isDigit = true) (hc : c.isDigit = true) :
    Begun .exponent { n with scaled := true, exponentNegative := negative, exponent := ds ++ [c] }
      (n.mantissa ++ letter ::
        ((if negative then ['-'] else if plus then ['+'] else []) ++ (ds ++ [c]))) := by
  have hdigit := Begun.exponent (h.withExponent negative hds hc) rfl hletter plus
  simpa [Numeral.spelled, Numeral.mantissa] using hdigit

/-- The first digit of the whole part. -/
lemma Begun.firstDigit (negative : Bool)
    (hnext : continueNumeral? .sign ⟨negative, [], [], false, false, []⟩ c = some (next, m)) :
    ∃ n' : Numeral, m = n'.reversed ∧
      Begun next n' ((if negative then ['-'] else []) ++ [c]) := by
  simp only [continueNumeral?] at hnext
  split at hnext
  · next hc =>
    subst hc
    cases hnext
    exact ⟨⟨negative, ['0'], [], false, false, []⟩, rfl,
      by simpa [Numeral.mantissa] using Begun.zero (.single negative rfl) rfl rfl rfl⟩
  split at hnext
  · next hne hc =>
    cases hnext
    exact ⟨⟨negative, [c], [], false, false, []⟩, rfl,
      by simpa [Numeral.mantissa] using
        Begun.whole (.single negative hc) rfl rfl (by simpa using hne)⟩
  · cases hnext

/-- **One more character of a numeral.** -/
lemma Begun.step (h : Begun part n own)
    (hnext : continueNumeral? part n.reversed c = some (next, m)) :
    ∃ n' : Numeral, m = n'.reversed ∧ Begun next n' (own ++ [c]) := by
  cases h with
  | sign negative => exact Begun.firstDigit negative hnext
  | zero h hscaled hfraction hwhole =>
    simp only [continueNumeral?] at hnext
    split at hnext
    · next hc => exact hc ▸ Begun.dot h hscaled hfraction hnext
    split at hnext
    · next hc => exact Begun.letter h hscaled hc hnext
    · cases hnext
  | whole h hscaled hfraction hwhole =>
    simp only [continueNumeral?] at hnext
    split at hnext
    · next hc =>
      cases hnext
      obtain ⟨hwell, hne⟩ := h.whole_append hwhole hc
      exact ⟨{ n with whole := n.whole ++ [c] }, by simp [Numeral.reversed],
        by simpa [Numeral.mantissa, hfraction] using Begun.whole hwell hscaled hfraction hne⟩
    split at hnext
    · next hc => exact hc ▸ Begun.dot h hscaled hfraction hnext
    split at hnext
    · next hc => exact Begun.letter h hscaled hc hnext
    · cases hnext
  | point h hscaled hfraction =>
    simp only [continueNumeral?] at hnext
    split at hnext
    · next hc =>
      have hstep := Begun.fractionDigit h hscaled hc hnext
      simpa [Numeral.mantissa, hfraction] using hstep
    · simp at hnext
  | fraction h hscaled hfraction =>
    simp only [continueNumeral?] at hnext
    split at hnext
    · next hc =>
      have hstep := Begun.fractionDigit h hscaled hc hnext
      simpa [Numeral.mantissa, hfraction] using hstep
    split at hnext
    · next hc => exact Begun.letter h hscaled hc.2 hnext
    · cases hnext
  | @exponentSign n h hscaled letter hletter =>
    obtain ⟨hexponent, hnegative⟩ := h.unscaled hscaled
    simp only [continueNumeral?] at hnext
    split at hnext
    · next hc =>
      cases hnext
      refine ⟨{ n with scaled := true, exponentNegative := c == '-' }, rfl, ?_⟩
      have hsign := Begun.exponentStart h hscaled hletter (c == '-')
      rcases hc with rfl | rfl <;> simpa using hsign
    split at hnext
    · next hc =>
      cases hnext
      refine ⟨{ n with scaled := true, exponent := [c] }, by simp [Numeral.reversed, hexponent], ?_⟩
      have hdigit := Begun.exponentDigit h hletter false false (List.forall_mem_nil _) hc
      simpa [hnegative] using hdigit
    · cases hnext
  | @exponentStart n h hscaled letter hletter negative =>
    obtain ⟨hexponent, -⟩ := h.unscaled hscaled
    simp only [continueNumeral?] at hnext
    split at hnext
    · next hc =>
      cases hnext
      refine ⟨{ n with scaled := true, exponentNegative := negative, exponent := [c] },
        by simp [Numeral.reversed, hexponent], ?_⟩
      have hdigit := Begun.exponentDigit h hletter negative true (List.forall_mem_nil _) hc
      cases negative <;> simpa using hdigit
    · cases hnext
  | exponent h hscaled hletter plus =>
    simp only [continueNumeral?] at hnext
    split at hnext
    · next hc =>
      cases hnext
      refine ⟨{ n with exponent := n.exponent ++ [c] }, by simp [Numeral.reversed], ?_⟩
      have hdigit := Begun.exponentDigit h hletter n.exponentNegative plus h.exponent hc
      simpa [Numeral.spelled, Numeral.mantissa, hscaled] using hdigit
    · cases hnext

end NumeralPart

/-- The token of a numeral is that of what has been seen of it, or invalid. -/
lemma numeralToken_cases {part : NumeralPart} {n : Numeral} {own : List Char}
    (h : part.Begun n own) (next : Option Char) :
    (numeralToken part n.reversed next).Spells own ∨
      numeralToken part n.reversed next = .invalid := by
  have hback : ({ n.reversed with
      whole := n.reversed.whole.reverse
      fraction := n.reversed.fraction.reverse
      exponent := n.reversed.exponent.reverse } : Numeral) = n := by
    simp [Numeral.reversed]
  unfold numeralToken
  simp only [hback]
  split
  · next hend =>
    rw [Bool.and_eq_true] at hend
    obtain ⟨s, hs⟩ : ∃ s, n.token = .scalar s := by
      unfold Numeral.token
      split <;> exact ⟨_, rfl⟩
    have hspells : n.token.Spells own := hs ▸ .scalar (.numeral (h.spells hend.1) hs)
    exact .inl hspells
  · exact .inr rfl

/-! ## Tokens -/

/-- What is spelled is a token. -/
lemma Token.Spells.ne_invalid {t : Token} {cs : List Char} (h : t.Spells cs) : t ≠ .invalid := by
  cases h with
  | scalar => exact nofun
  | mark _ hvalid => exact hvalid

/-- **What has been seen of a token** in the middle of which the scanner is. -/
inductive Mode.Reads : Mode → List Char → Prop where
  /-- Nothing. -/
  | between : Reads .between []
  /-- The first letters of a word. -/
  | word {own rest : List Char} {v : Scalar} (h : v.Spells (own ++ rest)) :
    Reads (.word rest v) own
  /-- The first characters of a numeral. -/
  | numeral {part : NumeralPart} {n : Numeral} {own : List Char} (h : part.Begun n own) :
    Reads (.numeral part n.reversed) own
  /-- A quoted text without its end. -/
  | quoted {us : List Nat} {cs : List Char} (h : Joined WritesUnit us cs) :
    Reads (.quoted us.reverse) ('"' :: cs)
  /-- A backslash comes last. -/
  | escape {us : List Nat} {cs : List Char} (h : Joined WritesUnit us cs) :
    Reads (.escape us.reverse) ('"' :: cs ++ ['\\'])
  /-- Fewer than four digits come last. -/
  | hex {us : List Nat} {cs ds : List Char} {value missing : Nat} (h : Joined WritesUnit us cs)
    (hds : hexNumber? ds = some value) (hlength : ds.length + missing = 4) (hpos : 0 < missing) :
    Reads (.hex us.reverse value missing) ('"' :: cs ++ '\\' :: 'u' :: ds)

namespace Scanner

/-- **What the scanner has seen**: unless it has stopped, its tokens in some spelling, white space,
and the first characters of another token. -/
inductive Seen : Scanner → List Char → Prop where
  /-- The scanner has found no invalid token. -/
  | reading {ts : List Token} {mode : Mode} {cs gap own : List Char}
    (hcs : Joined Token.SpellsAfterGap ts.reverse cs) (hgap : ∀ c ∈ gap, IsGap c)
    (hown : mode.Reads own) : Seen ⟨ts, mode⟩ (cs ++ gap ++ own)
  /-- The scanner has stopped. -/
  | stopped {ts : List Token} {cs : List Char} (h : .invalid ∈ ts) : Seen ⟨ts, .stopped⟩ cs

variable {ts : List Token} {cs gap own : List Char}

/-- The scanner stops at an invalid token. -/
lemma seen_stop (seen : List Char) : Seen ⟨.invalid :: ts, .stopped⟩ seen :=
  .stopped List.mem_cons_self

/-- Another token comes after the tokens so far. -/
lemma joined_emit (hcs : Joined Token.SpellsAfterGap ts.reverse cs) (hgap : ∀ c ∈ gap, IsGap c)
    {t : Token} (ht : t.Spells own) :
    Joined Token.SpellsAfterGap (t :: ts).reverse (cs ++ gap ++ own) := by
  rw [List.reverse_cons, List.append_assoc]
  exact hcs.snoc (.mk hgap ht)

/-- Another token is complete. -/
lemma seen_emit (hcs : Joined Token.SpellsAfterGap ts.reverse cs) (hgap : ∀ c ∈ gap, IsGap c)
    {t : Token} (ht : t.Spells own) : Seen ⟨t :: ts, .between⟩ (cs ++ gap ++ own) := by
  have hseen := Seen.reading (joined_emit hcs hgap ht) (List.forall_mem_nil _) .between
  rw [List.append_nil, List.append_nil] at hseen
  exact hseen

/-- **A character between tokens.** -/
lemma seen_begin (hcs : Joined Token.SpellsAfterGap ts.reverse cs) (hgap : ∀ c ∈ gap, IsGap c)
    (mode : Mode) (c : Char) : Seen (begin ⟨ts, mode⟩ c) (cs ++ gap ++ [c]) := by
  have hblank : IsGap c → Seen ⟨ts, .between⟩ (cs ++ gap ++ [c]) := by
    intro hc
    have hseen := Seen.reading hcs
      (List.forall_mem_append.2 ⟨hgap, List.forall_mem_singleton.2 hc⟩) .between
    rw [List.append_nil, ← List.append_assoc] at hseen
    exact hseen
  have hmark : ∀ t : Token, t.isScalar = false → t ≠ .invalid → t.chars = [c] →
      Seen ⟨t :: ts, .between⟩ (cs ++ gap ++ [c]) := by
    intro t hscalar hvalid hchars
    exact seen_emit hcs hgap (hchars ▸ .mark hscalar hvalid)
  have hword : ∀ (v : Scalar) rest, v.Spells ([c] ++ rest) →
      Seen ⟨ts, .word rest v⟩ (cs ++ gap ++ [c]) := by
    intro v rest hv
    exact .reading hcs hgap (.word hv)
  unfold begin
  split
  · exact hblank (.inl rfl)
  · exact hblank (.inr (.inl rfl))
  · exact hblank (.inr (.inr (.inl rfl)))
  · exact hblank (.inr (.inr (.inr rfl)))
  · exact hmark .openArray rfl nofun rfl
  · exact hmark .closeArray rfl nofun rfl
  · exact hmark .openObject rfl nofun rfl
  · exact hmark .closeObject rfl nofun rfl
  · exact hmark .colon rfl nofun rfl
  · exact hmark .comma rfl nofun rfl
  · exact .reading hcs hgap (.quoted .nil)
  · exact hword .null _ .null
  · exact hword (.bool true) _ .true
  · exact hword (.bool false) _ .false
  · exact .reading hcs hgap (.numeral (.sign true))
  · split
    · next part n hnext =>
      obtain ⟨n', rfl, hn'⟩ := (NumeralPart.Begun.sign false).step hnext
      exact .reading hcs hgap (.numeral hn')
    · exact seen_stop _

/-- One more character in a word. -/
lemma seen_word (hcs : Joined Token.SpellsAfterGap ts.reverse cs) (hgap : ∀ c ∈ gap, IsGap c)
    {rest : List Char} {v : Scalar} (h : v.Spells (own ++ rest)) (c : Char) :
    Seen (step ⟨ts, .word rest v⟩ c) (cs ++ gap ++ (own ++ [c])) := by
  cases rest with
  | nil => exact seen_stop _
  | cons r more =>
    have hrest : v.Spells ((own ++ [r]) ++ more) := by
      rw [List.append_assoc]
      exact h
    by_cases hc : c = r
    · subst hc
      cases more with
      | nil =>
        rw [List.append_nil] at hrest
        have hseen := seen_emit hcs hgap (.scalar hrest)
        simpa [Scanner.step, emit] using hseen
      | cons r' more =>
        have hseen := Seen.reading hcs hgap (.word hrest)
        simpa [Scanner.step, emit] using hseen
    · cases more with
      | nil => simpa [Scanner.step, emit, hc] using seen_stop _
      | cons r' more => simpa [Scanner.step, emit, hc] using seen_stop _

/-- One more character in a numeral or behind it. -/
lemma seen_numeral (hcs : Joined Token.SpellsAfterGap ts.reverse cs) (hgap : ∀ c ∈ gap, IsGap c)
    {part : NumeralPart} {n : Numeral} (h : part.Begun n own) (c : Char) :
    Seen (step ⟨ts, .numeral part n.reversed⟩ c) (cs ++ gap ++ (own ++ [c])) := by
  cases hnext : continueNumeral? part n.reversed c with
  | some read =>
    obtain ⟨next, m⟩ := read
    obtain ⟨n', rfl, hn'⟩ := h.step hnext
    have hstep : step ⟨ts, .numeral part n.reversed⟩ c = ⟨ts, .numeral next n'.reversed⟩ :=
      step_continue hnext
    rw [hstep]
    exact .reading hcs hgap (.numeral hn')
  | none =>
    have hstep : step ⟨ts, .numeral part n.reversed⟩ c =
        let ended := afterToken ⟨ts, .numeral part n.reversed⟩
          (numeralToken part n.reversed (some c))
        if ended.mode = .stopped then ended else ended.begin c := by
      simp only [Scanner.step, hnext]
    rw [hstep, ← List.append_assoc]
    rcases numeralToken_cases h (some c) with hspells | hinvalid
    · have hseen := seen_begin (joined_emit hcs hgap hspells) (List.forall_mem_nil _) .between c
      rw [List.append_nil] at hseen
      simpa only [afterToken, emit, if_neg hspells.ne_invalid, reduceCtorEq, if_false] using hseen
    · simp only [hinvalid, afterToken, emit, if_true]
      exact seen_stop _

/-- One more character in a quoted text. -/
lemma seen_quoted (hcs : Joined Token.SpellsAfterGap ts.reverse cs) (hgap : ∀ c ∈ gap, IsGap c)
    {us : List Nat} (h : Joined WritesUnit us own) (c : Char) :
    Seen (step ⟨ts, .quoted us.reverse⟩ c) (cs ++ gap ++ ('"' :: own ++ [c])) := by
  unfold Scanner.step
  simp only
  split
  · next hc =>
    subst hc
    exact seen_emit hcs hgap (.scalar (spells_textOfUnits h))
  split
  · next hc =>
    subst hc
    exact .reading hcs hgap (.escape h)
  split
  · exact seen_stop _
  · next hquote hslash hcontrol =>
    have hnext := h.snoc (.plain hquote hslash (Nat.not_lt.1 hcontrol))
    have hseen := Seen.reading hcs hgap (.quoted hnext)
    rw [List.reverse_append] at hseen
    exact hseen

/-- The character after a backslash. -/
lemma seen_escape (hcs : Joined Token.SpellsAfterGap ts.reverse cs) (hgap : ∀ c ∈ gap, IsGap c)
    {us : List Nat} (h : Joined WritesUnit us own) (c : Char) :
    Seen (step ⟨ts, .escape us.reverse⟩ c) (cs ++ gap ++ ('"' :: own ++ ['\\'] ++ [c])) := by
  unfold Scanner.step
  simp only
  split
  · next hc =>
    subst hc
    have hzero : hexNumber? [] = some 0 := rfl
    have hfour : ([] : List Char).length + 4 = 4 := rfl
    have hseen := Seen.reading hcs hgap (.hex h hzero hfour (by decide))
    simpa using hseen
  split
  · next l hl =>
    have hseen := Seen.reading hcs hgap (.quoted (h.snoc (.letter hl)))
    simpa using hseen
  · exact seen_stop _

/-- One more digit of a code unit. -/
lemma seen_hex (hcs : Joined Token.SpellsAfterGap ts.reverse cs) (hgap : ∀ c ∈ gap, IsGap c)
    {us : List Nat} {ds : List Char} {value missing : Nat} (h : Joined WritesUnit us own)
    (hds : hexNumber? ds = some value) (hlength : ds.length + missing = 4) (hpos : 0 < missing)
    (c : Char) :
    Seen (step ⟨ts, .hex us.reverse value missing⟩ c)
      (cs ++ gap ++ ('"' :: own ++ '\\' :: 'u' :: ds ++ [c])) := by
  unfold Scanner.step
  simp only
  split
  · next d hd =>
    have hnext : hexNumber? (ds ++ [c]) = some (16 * value + d) := by
      have hvalue : ds.foldlM (fun n c => (hexValue? c).map (16 * n + ·)) 0 = some value := hds
      rw [hexNumber?, List.foldlM_append, hvalue]
      simp [hd]
    have hcount : (ds ++ [c]).length + (missing - 1) = 4 := by
      rw [List.length_append, List.length_singleton]
      omega
    split
    · next hlast =>
      have hfour : (ds ++ [c]).length = 4 := by omega
      have hseen := Seen.reading hcs hgap (.quoted (h.snoc (.code hfour hnext)))
      simpa using hseen
    · next hmore =>
      have hseen := Seen.reading hcs hgap (.hex h hnext hcount (by omega))
      simpa using hseen
  · exact seen_stop _

/-- **One more character.** -/
lemma Seen.step {s : Scanner} {seen : List Char} (h : Seen s seen) (c : Char) :
    Seen (s.step c) (seen ++ [c]) := by
  cases h with
  | stopped h => exact .stopped h
  | reading hcs hgap hown =>
    rw [List.append_assoc]
    cases hown with
    | between => exact seen_begin hcs hgap _ c
    | word h => exact seen_word hcs hgap h c
    | numeral h => exact seen_numeral hcs hgap h c
    | quoted h => exact seen_quoted hcs hgap h c
    | escape h => exact seen_escape hcs hgap h c
    | hex h hds hlength hpos => exact seen_hex hcs hgap h hds hlength hpos c

/-- **Any number of characters.** -/
lemma Seen.foldl {s : Scanner} {seen : List Char} (h : Seen s seen) (more : List Char) :
    Seen (more.foldl Scanner.step s) (seen ++ more) := by
  induction more generalizing s seen with
  | nil => exact (List.append_nil seen).symm ▸ h
  | cons c more ih =>
    have hnext := ih (h.step c)
    rw [List.append_assoc, List.singleton_append] at hnext
    exact hnext

/-- **At the end of the text** the tokens have been spelled, if none of them is invalid. -/
lemma Seen.finish {s : Scanner} {seen : List Char} (h : Seen s seen)
    (hvalid : .invalid ∉ s.finish) : Spelled s.finish seen := by
  cases h with
  | stopped h => exact absurd (List.mem_reverse.2 h) hvalid
  | @reading ts _ cs gap own hcs hgap hown =>
    cases hown with
    | between =>
      rw [List.append_nil]
      exact .mk hcs hgap
    | @numeral part n _ h =>
      rcases numeralToken_cases h none with hspells | hinvalid
      · have hall := joined_emit hcs hgap hspells
        have hspelled := Spelled.mk hall (List.forall_mem_nil _)
        rw [List.append_nil] at hspelled
        exact hspelled
      · refine absurd ?_ hvalid
        show Token.invalid ∈ (numeralToken part n.reversed none :: ts).reverse
        rw [hinvalid]
        exact List.mem_reverse.2 List.mem_cons_self
    | word | quoted | escape | hex => exact absurd (List.mem_reverse.2 List.mem_cons_self) hvalid

end Scanner

/-- **A text spells its tokens**, if none of them is invalid. -/
theorem spelled_tokenize {cs : List Char} (hvalid : .invalid ∉ tokenize cs) :
    Spelled (tokenize cs) cs := by
  have hstart : Scanner.start.Seen ([] ++ [] ++ []) :=
    .reading .nil (List.forall_mem_nil _) .between
  exact (hstart.foldl cs).finish hvalid

end PagedTopK.Json
