import PagedTopK.Proofs.Json.Scan

set_option autoImplicit false

/-!
# How tokens may be spelled

A token has one spelling in which it is written and many in which it may be read: the letter of an
exponent may be a capital, there may be zeros at the end of a fraction, any character of a text may
be given by its code, and there may be white space before it.

## Main definitions

* `Json.Joined` — a text in parts, each of which writes one thing of a list.
* `Json.WritesChar` — how a character may be spelled in a quoted text.
* `Json.Numeral.Spells`, `Json.Scalar.Spells`, `Json.Token.Spells` — how a numeral, a scalar and a
  token may be spelled.
* `Json.Spelled` — tokens in any spelling, with white space anywhere between them.

## Main results

* `Json.Spelled.isGap_or_le_toNat` — which control characters are in such a text.
* `Json.tokenize_of_spelled` — spelled tokens are scanned as these tokens.
-/

namespace PagedTopK.Json

/-! ## Texts in parts -/

/-- **A text in parts**, each of which writes one thing of a list. -/
inductive Joined {α : Type} (writes : α → List Char → Prop) : List α → List Char → Prop where
  /-- There are no parts. -/
  | nil : Joined writes [] []
  /-- One part comes first. -/
  | cons {a : α} {rest : List α} {part cs : List Char} (h : writes a part)
    (hrest : Joined writes rest cs) : Joined writes (a :: rest) (part ++ cs)

namespace Joined

variable {α : Type} {writes : α → List Char → Prop} {xs ys : List α} {cs ds : List Char}

lemma append (hx : Joined writes xs cs) (hy : Joined writes ys ds) :
    Joined writes (xs ++ ys) (cs ++ ds) := by
  induction hx with
  | nil => exact hy
  | @cons a rest part cs h _ ih =>
    rw [List.append_assoc]
    exact .cons h ih

/-- One more part at the end. -/
lemma snoc (hx : Joined writes xs cs) {a : α} (ha : writes a ds) :
    Joined writes (xs ++ [a]) (cs ++ ds) := by
  have hlast : Joined writes [a] (ds ++ []) := .cons ha .nil
  rw [List.append_nil] at hlast
  exact hx.append hlast

/-- Every thing has its part. -/
lemma exists_part (h : Joined writes xs cs) : ∀ a ∈ xs, ∃ part, writes a part := by
  induction h with
  | nil => exact List.forall_mem_nil _
  | cons h _ ih => exact List.forall_mem_cons.2 ⟨⟨_, h⟩, ih⟩

/-- What holds of the characters of all parts holds of those of the text. -/
lemma forall_mem (h : Joined writes xs cs) {p : Char → Prop}
    (hp : ∀ a ∈ xs, ∀ part, writes a part → ∀ c ∈ part, p c) : ∀ c ∈ cs, p c := by
  induction h with
  | nil => exact List.forall_mem_nil _
  | @cons a rest part cs h _ ih =>
    obtain ⟨ha, hrest⟩ := List.forall_mem_cons.1 hp
    exact List.forall_mem_append.2 ⟨ha part h, ih hrest⟩

end Joined

/-! ## Quoted texts -/

/-- The number that hexadecimal digits write. -/
def hexNumber? (ds : List Char) : Option Nat :=
  ds.foldlM (fun n c => (hexValue? c).map (16 * n + ·)) 0

/-- **How a code unit may be spelled**: by the character that has it as its code, by a letter, or
by four hexadecimal digits. -/
inductive WritesUnit : Nat → List Char → Prop where
  /-- A character that needs no escape. -/
  | plain {c : Char} (hquote : c ≠ '"') (hslash : c ≠ '\\') (hcontrol : 0x20 ≤ c.toNat) :
    WritesUnit c.toNat [c]
  /-- An escape of one letter. -/
  | letter {l c : Char} (h : simpleEscape? l = some c) : WritesUnit c.toNat ['\\', l]
  /-- An escape of four digits. -/
  | code {ds : List Char} {n : Nat} (hlength : ds.length = 4) (h : hexNumber? ds = some n) :
    WritesUnit n ('\\' :: 'u' :: ds)

/-- **How a character may be spelled**: as the code unit that it is, or as two code units. -/
inductive WritesChar : Char → List Char → Prop where
  /-- One code unit. -/
  | unit {c : Char} {cs : List Char} (h : WritesUnit c.toNat cs) : WritesChar c cs
  /-- A surrogate pair. -/
  | pair {c : Char} {high low : Nat} {cs ds : List Char} (hhigh : isHighSurrogate high = true)
    (hlow : isLowSurrogate low = true)
    (hc : c.toNat = 0x10000 + (high - 0xD800) * 0x400 + (low - 0xDC00))
    (hcs : WritesUnit high cs) (hds : WritesUnit low ds) : WritesChar c (cs ++ ds)

/-! ## Numerals and scalars -/

/-- **How a numeral may be spelled.** -/
inductive Numeral.Spells (n : Numeral) : List Char → Prop where
  /-- The letter of an exponent may be a capital, and a plus sign may come after it. -/
  | mk (h : n.WellFormed) {letter : Char} (hletter : letter = 'e' ∨ letter = 'E') (plus : Bool) :
    Spells n (n.spelled letter plus)

/-- **How a scalar may be spelled.** A text with half of a surrogate pair is one that spells no
characters. -/
inductive Scalar.Spells : Scalar → List Char → Prop where
  /-- The word `null`. -/
  | null : Spells .null "null".toList
  /-- The word `true`. -/
  | true : Spells (.bool true) "true".toList
  /-- The word `false`. -/
  | false : Spells (.bool false) "false".toList
  /-- A numeral. -/
  | numeral {n : Numeral} {cs : List Char} {s : Scalar} (h : n.Spells cs)
    (hs : n.token = .scalar s) : Spells s cs
  /-- A quoted text. -/
  | text {s : String} {cs : List Char} (h : Joined WritesChar s.toList cs) :
    Spells (.text s) ('"' :: cs ++ ['"'])
  /-- A quoted text with half of a surrogate pair. -/
  | loneSurrogate {units : List Nat} {cs : List Char} (h : Joined WritesUnit units cs)
    (hnone : ∀ chars, ¬ Joined WritesChar chars cs) : Spells .loneSurrogate ('"' :: cs ++ ['"'])

/-- **How a token may be spelled.** -/
inductive Token.Spells : Token → List Char → Prop where
  /-- A scalar. -/
  | scalar {s : Scalar} {cs : List Char} (h : s.Spells cs) : Spells (.scalar s) cs
  /-- Any other token has one spelling. -/
  | mark {t : Token} (hscalar : t.isScalar = false) (hvalid : t ≠ .invalid) : Spells t t.chars

/-! ## Texts -/

/-- **White space.** -/
def IsGap (c : Char) : Prop := c = ' ' ∨ c = '\n' ∨ c = '\t' ∨ c = '\r'

/-- A token with white space before it. -/
inductive Token.SpellsAfterGap (t : Token) : List Char → Prop where
  /-- The white space comes first. -/
  | mk {gap cs : List Char} (hgap : ∀ c ∈ gap, IsGap c) (h : t.Spells cs) :
    SpellsAfterGap t (gap ++ cs)

/-- **A text spells tokens**: it has them in order, with white space anywhere between them. -/
inductive Spelled (ts : List Token) : List Char → Prop where
  /-- White space may come last as well. -/
  | mk {cs gap : List Char} (h : Joined Token.SpellsAfterGap ts cs) (hgap : ∀ c ∈ gap, IsGap c) :
    Spelled ts (cs ++ gap)

/-- Every token is spelled somewhere. -/
lemma Spelled.exists_spells {ts : List Token} {cs : List Char} (h : Spelled ts cs) :
    ∀ t ∈ ts, ∃ own, t.Spells own := by
  obtain ⟨hcs, -⟩ := h
  intro t ht
  obtain ⟨_, hpart⟩ := hcs.exists_part t ht
  obtain ⟨-, hspells⟩ := hpart
  exact ⟨_, hspells⟩

/-! ## Control characters -/

/-- A check of known characters. -/
lemma le_toNat_of_all {cs : List Char} (h : cs.all (0x20 ≤ ·.toNat) = true) :
    ∀ c ∈ cs, 0x20 ≤ c.toNat :=
  fun c hc => of_decide_eq_true (List.all_eq_true.1 h c hc)

/-- Hexadecimal digits are no control characters. -/
lemma le_toNat_of_hexNumber? {ds : List Char} {value n : Nat}
    (h : ds.foldlM (fun n c => (hexValue? c).map (16 * n + ·)) value = some n) :
    ∀ c ∈ ds, 0x20 ≤ c.toNat := by
  induction ds generalizing value with
  | nil => exact List.forall_mem_nil _
  | cons d ds ih =>
    rw [List.foldlM_cons, Option.bind_eq_bind, Option.bind_eq_some_iff] at h
    obtain ⟨next, hnext, h⟩ := h
    obtain ⟨digit, hdigit, -⟩ := Option.map_eq_some_iff.1 hnext
    have hd : 0x20 ≤ d.toNat := by
      by_contra hcontrol
      have hnone : hexValue? d = none := by
        have hsmall : ∀ k < 0x20, hexValue? (Char.ofNat k) = none := by decide
        have hvalue := hsmall d.toNat (Nat.lt_of_not_le hcontrol)
        rwa [Char.ofNat_toNat] at hvalue
      rw [hnone] at hdigit
      cases hdigit
    exact List.forall_mem_cons.2 ⟨hd, ih h⟩

lemma WritesUnit.le_toNat {n : Nat} {cs : List Char} (h : WritesUnit n cs) :
    ∀ c ∈ cs, 0x20 ≤ c.toNat := by
  cases h with
  | plain _ _ hcontrol => exact List.forall_mem_singleton.2 hcontrol
  | @letter l c h =>
    have hl : 0x20 ≤ l.toNat := by
      unfold simpleEscape? at h
      split at h <;> first | decide | cases h
    exact List.forall_mem_cons.2 ⟨by decide, List.forall_mem_singleton.2 hl⟩
  | code _ h =>
    exact List.forall_mem_cons.2 ⟨by decide,
      List.forall_mem_cons.2 ⟨by decide, le_toNat_of_hexNumber? h⟩⟩

lemma WritesChar.le_toNat {c : Char} {cs : List Char} (h : WritesChar c cs) :
    ∀ c ∈ cs, 0x20 ≤ c.toNat := by
  cases h with
  | unit h => exact h.le_toNat
  | pair _ _ _ hcs hds => exact List.forall_mem_append.2 ⟨hcs.le_toNat, hds.le_toNat⟩

lemma le_toNat_of_isDigit {c : Char} (h : c.isDigit = true) : 0x20 ≤ c.toNat := by
  simp only [Char.isDigit, Bool.and_eq_true, decide_eq_true_eq] at h
  exact Nat.le_trans (by decide) (UInt32.le_iff_toNat_le.1 h.1)

lemma Numeral.Spells.le_toNat {n : Numeral} {cs : List Char} (h : n.Spells cs) :
    ∀ c ∈ cs, 0x20 ≤ c.toNat := by
  obtain ⟨hn, hletter, plus⟩ := h
  refine hn.forall_mem_spelled (p := fun c => 0x20 ≤ c.toNat) (fun _ => le_toNat_of_isDigit)
    (by decide) (by decide) (by decide) ?_ plus
  rcases hletter with rfl | rfl <;> decide

lemma Token.Spells.le_toNat {t : Token} {cs : List Char} (h : t.Spells cs) :
    ∀ c ∈ cs, 0x20 ≤ c.toNat := by
  have hquoted : ∀ {cs : List Char}, (∀ c ∈ cs, 0x20 ≤ c.toNat) →
      ∀ c ∈ '"' :: cs ++ ['"'], 0x20 ≤ c.toNat := fun hcs =>
    List.forall_mem_append.2 ⟨List.forall_mem_cons.2 ⟨by decide, hcs⟩, le_toNat_of_all rfl⟩
  cases h with
  | scalar h =>
    cases h with
    | null | true | false => exact le_toNat_of_all rfl
    | numeral h => exact h.le_toNat
    | text h => exact hquoted (h.forall_mem fun _ _ _ hpart => hpart.le_toNat)
    | loneSurrogate h => exact hquoted (h.forall_mem fun _ _ _ hpart => hpart.le_toNat)
  | mark hscalar hvalid =>
    cases t with
    | scalar => cases hscalar
    | invalid => exact absurd rfl hvalid
    | openArray | closeArray | openObject | closeObject | colon | comma =>
      exact le_toNat_of_all rfl

/-- **The only control characters of a text that spells tokens are white space.** -/
theorem Spelled.isGap_or_le_toNat {ts : List Token} {cs : List Char} (h : Spelled ts cs) :
    ∀ c ∈ cs, IsGap c ∨ 0x20 ≤ c.toNat := by
  obtain ⟨hcs, hgap⟩ := h
  refine List.forall_mem_append.2 ⟨hcs.forall_mem fun t _ part hpart => ?_,
    fun c hc => .inl (hgap c hc)⟩
  obtain ⟨hspace, hspells⟩ := hpart
  exact List.forall_mem_append.2 ⟨fun c hc => .inl (hspace c hc),
    fun c hc => .inr (hspells.le_toNat c hc)⟩

/-! ## Scanning quoted texts -/

section Quoted

variable {ts : List Token}

/-- The digits of a code unit. -/
lemma foldl_step_hex {ds : List Char} {value n : Nat} (hpos : 0 < ds.length)
    (h : ds.foldlM (fun n c => (hexValue? c).map (16 * n + ·)) value = some n)
    (units : List Nat) :
    ds.foldl Scanner.step ⟨ts, .hex units value ds.length⟩ = ⟨ts, .quoted (n :: units)⟩ := by
  induction ds generalizing value with
  | nil => cases hpos
  | cons d ds ih =>
    rw [List.foldlM_cons, Option.bind_eq_bind, Option.bind_eq_some_iff] at h
    obtain ⟨next, hnext, h⟩ := h
    obtain ⟨digit, hdigit, rfl⟩ := Option.map_eq_some_iff.1 hnext
    cases ds with
    | nil =>
      obtain rfl := Option.some.inj h
      simp [Scanner.step, hdigit]
    | cons e ds =>
      have hstep : Scanner.step ⟨ts, .hex units value (d :: e :: ds).length⟩ d =
          ⟨ts, .hex units (16 * value + digit) (e :: ds).length⟩ := by
        simp [Scanner.step, hdigit]
      rw [List.foldl_cons, hstep, ih (Nat.succ_pos _) h]

/-- A code unit in any spelling. -/
lemma WritesUnit.foldl_step {n : Nat} {cs : List Char} (h : WritesUnit n cs) (units : List Nat) :
    cs.foldl Scanner.step ⟨ts, .quoted units⟩ = ⟨ts, .quoted (n :: units)⟩ := by
  cases h with
  | plain hquote hslash hcontrol =>
    simp only [List.foldl_cons, List.foldl_nil, Scanner.step]
    rw [if_neg hquote, if_neg hslash, if_neg (Nat.not_lt.2 hcontrol)]
  | @letter l c h =>
    have hl : l ≠ 'u' := by
      rintro rfl
      cases h
    simp [Scanner.step, hl, h]
  | @code ds n hlength h =>
    have hopen : ['\\', 'u'].foldl Scanner.step ⟨ts, .quoted units⟩ =
        ⟨ts, .hex units 0 ds.length⟩ := by
      rw [hlength]
      rfl
    have hsplit : '\\' :: 'u' :: ds = ['\\', 'u'] ++ ds := rfl
    rw [hsplit, List.foldl_append, hopen, foldl_step_hex (by omega) h]

/-- Code units in any spellings. -/
lemma foldl_step_units {us : List Nat} {cs : List Char} (h : Joined WritesUnit us cs)
    (units : List Nat) :
    cs.foldl Scanner.step ⟨ts, .quoted units⟩ = ⟨ts, .quoted (us.reverse ++ units)⟩ := by
  induction h generalizing units with
  | nil => rfl
  | cons h _ ih =>
    rw [List.foldl_append, h.foldl_step, ih, List.reverse_cons, List.append_assoc]
    rfl

/-- A text spells its code units in one way only. -/
lemma Joined.units_unique {us vs : List Nat} {cs : List Char} (hu : Joined WritesUnit us cs)
    (hv : Joined WritesUnit vs cs) : us = vs := by
  have h : (⟨[], .quoted (us.reverse ++ [])⟩ : Scanner) = ⟨[], .quoted (vs.reverse ++ [])⟩ :=
    (foldl_step_units hu []).symm.trans (foldl_step_units hv [])
  simpa using h

/-- The characters of code units, and perhaps a second half of a pair before them. -/
def charsOfUnits (us : List Nat) : Option (List Char × Option Nat) :=
  us.foldr (fun n joined => joinUnit joined n) (some ([], none))

lemma textOfUnits_reverse_eq (us : List Nat) :
    textOfUnits us.reverse = match charsOfUnits us with
      | some (cs, none) => .text (String.ofList cs)
      | _ => .loneSurrogate := by
  rw [textOfUnits, List.foldl_reverse]
  rfl

/-- **The characters of a text are those of its code units.** -/
lemma Joined.exists_units {chars cs : List Char} (h : Joined WritesChar chars cs) :
    ∃ us, Joined WritesUnit us cs ∧ charsOfUnits us = some (chars, none) := by
  induction h with
  | nil => exact ⟨[], .nil, rfl⟩
  | @cons c rest part cs h _ ih =>
    obtain ⟨us, hus, hchars⟩ := ih
    cases h with
    | unit h =>
      refine ⟨c.toNat :: us, .cons h hus, ?_⟩
      rw [charsOfUnits, List.foldr_cons, ← charsOfUnits, hchars, joinUnit_char]
    | @pair high low _ _ hhigh hlow hc hcs hds =>
      refine ⟨high :: low :: us, ?_, ?_⟩
      · rw [List.append_assoc]
        exact .cons hcs (.cons hds hus)
      · rw [charsOfUnits, List.foldr_cons, List.foldr_cons, ← charsOfUnits, hchars]
        simp [joinUnit, hlow, hhigh, ← hc, Char.ofNat_toNat]

lemma hexValue?_lt {c : Char} {d : Nat} (h : hexValue? c = some d) : d < 16 := by
  unfold hexValue? at h
  simp only [Char.isDigit, Char.le_def, UInt32.le_iff_toNat_le, Bool.and_eq_true,
    decide_eq_true_eq] at h
  have hval : c.val.toNat = c.toNat := rfl
  have hzero : '0'.val.toNat = 48 ∧ '0'.toNat = 48 ∧ '9'.val.toNat = 57 := ⟨rfl, rfl, rfl⟩
  have hlower : 'a'.val.toNat = 97 ∧ 'a'.toNat = 97 ∧ 'f'.val.toNat = 102 := ⟨rfl, rfl, rfl⟩
  have hupper : 'A'.val.toNat = 65 ∧ 'A'.toNat = 65 ∧ 'F'.val.toNat = 70 := ⟨rfl, rfl, rfl⟩
  split at h
  · have := Option.some.inj h
    omega
  split at h
  · have := Option.some.inj h
    omega
  split at h
  · have := Option.some.inj h
    omega
  · cases h

/-- A code unit of four digits has sixteen bits. -/
lemma hexNumber?_lt {ds : List Char} {value n : Nat}
    (h : ds.foldlM (fun n c => (hexValue? c).map (16 * n + ·)) value = some n) :
    n < 16 ^ ds.length * (value + 1) := by
  induction ds generalizing value with
  | nil =>
    obtain rfl := Option.some.inj h
    simp
  | cons d ds ih =>
    rw [List.foldlM_cons, Option.bind_eq_bind, Option.bind_eq_some_iff] at h
    obtain ⟨next, hnext, h⟩ := h
    obtain ⟨digit, hdigit, rfl⟩ := Option.map_eq_some_iff.1 hnext
    have hlt := hexValue?_lt hdigit
    calc n < 16 ^ ds.length * (16 * value + digit + 1) := ih h
      _ ≤ 16 ^ ds.length * (16 * (value + 1)) := Nat.mul_le_mul_left _ (by omega)
      _ = 16 ^ (d :: ds).length * (value + 1) := by
        rw [List.length_cons, Nat.pow_succ, Nat.mul_assoc]

/-- A code unit is at most U+10FFFF. -/
lemma WritesUnit.lt {n : Nat} {cs : List Char} (h : WritesUnit n cs) : n < 0x110000 := by
  cases h with
  | @plain c =>
    have hc := Utf8.toNat_bounds c
    omega
  | @letter _ c =>
    have hc := Utf8.toNat_bounds c
    omega
  | @code ds n hlength h =>
    have hn := hexNumber?_lt h
    rw [hlength] at hn
    omega

/-- **What is written with code units**: with characters, and perhaps with a second half of a pair
before them.

**Proof sketch.** From the last code unit on. A second half of a pair waits for the first half,
which makes a character with it; any other code unit is that of a character. -/
lemma Joined.of_units {us : List Nat} {cs : List Char} (h : Joined WritesUnit us cs) :
    (∀ chars, charsOfUnits us = some (chars, none) → Joined WritesChar chars cs) ∧
    ∀ chars low, charsOfUnits us = some (chars, some low) → isLowSurrogate low = true ∧
      ∃ part rest, cs = part ++ rest ∧ WritesUnit low part ∧ Joined WritesChar chars rest := by
  induction h with
  | nil =>
    refine ⟨?_, by rintro _ _ ⟨⟩⟩
    rintro _ ⟨⟩
    exact .nil
  | @cons n us part cs hn _ ih =>
    obtain ⟨hchars, hlow⟩ := ih
    have hlt := hn.lt
    rw [charsOfUnits, List.foldr_cons, ← charsOfUnits]
    cases hus : charsOfUnits us with
    | none => exact ⟨by rintro _ ⟨⟩, by rintro _ _ ⟨⟩⟩
    | some read =>
      obtain ⟨chars, _ | low⟩ := read
      · simp only [joinUnit]
        split
        · next hn' =>
          refine ⟨by rintro _ ⟨⟩, ?_⟩
          rintro _ _ ⟨⟩
          exact ⟨hn', part, cs, rfl, hn, hchars chars hus⟩
        split
        · exact ⟨by rintro _ ⟨⟩, by rintro _ _ ⟨⟩⟩
        · next hlow' hhigh' =>
          refine ⟨?_, by rintro _ _ ⟨⟩⟩
          rintro _ ⟨⟩
          have hcode : (Char.ofNat n).toNat = n := Utf8.toNat_val_ofNat (by
            simp only [isLowSurrogate, isHighSurrogate, Bool.and_eq_true, decide_eq_true_eq,
              not_and] at hlow' hhigh'
            omega)
          exact .cons (.unit (hcode.symm ▸ hn)) (hchars chars hus)
      · obtain ⟨hlow', part', rest, rfl, hpart', hrest⟩ := hlow chars low hus
        simp only [joinUnit]
        split
        · next hhigh' =>
          refine ⟨?_, by rintro _ _ ⟨⟩⟩
          rintro _ ⟨⟩
          have hcode := Utf8.toNat_val_ofNat
            (n := 0x10000 + (n - 0xD800) * 0x400 + (low - 0xDC00)) (by
              simp only [isLowSurrogate, isHighSurrogate, Bool.and_eq_true,
                decide_eq_true_eq] at hlow' hhigh'
              omega)
          rw [← List.append_assoc]
          exact .cons (.pair hhigh' hlow' hcode hn hpart') hrest
        · exact ⟨by rintro _ ⟨⟩, by rintro _ _ ⟨⟩⟩

/-- Code units are those of a text or of none. -/
lemma textOfUnits_cases (us : List Nat) :
    (∃ s : String, textOfUnits us.reverse = .text s ∧ charsOfUnits us = some (s.toList, none)) ∨
      textOfUnits us.reverse = .loneSurrogate ∧ ∀ cs, charsOfUnits us ≠ some (cs, none) := by
  rw [textOfUnits_reverse_eq]
  cases hus : charsOfUnits us with
  | none => exact .inr ⟨rfl, nofun⟩
  | some read =>
    obtain ⟨chars, _ | low⟩ := read
    · have hback : (String.ofList chars).toList = chars := String.toList_ofList
      exact .inl ⟨String.ofList chars, rfl, by rw [hback]⟩
    · exact .inr ⟨rfl, by simp⟩

/-- **What a quoted text spells.** -/
theorem spells_textOfUnits {us : List Nat} {cs : List Char} (h : Joined WritesUnit us cs) :
    (textOfUnits us.reverse).Spells ('"' :: cs ++ ['"']) := by
  rcases textOfUnits_cases us with ⟨s, hs, hchars⟩ | ⟨hlone, hnone⟩
  · rw [hs]
    exact .text (h.of_units.1 _ hchars)
  · rw [hlone]
    refine .loneSurrogate h fun chars hchars => ?_
    obtain ⟨vs, hvs, hjoined⟩ := hchars.exists_units
    exact hnone chars (h.units_unique hvs ▸ hjoined)

/-- A quoted text is scanned as what its code units are. -/
lemma foldl_step_quotedUnits {us : List Nat} {cs : List Char} (h : Joined WritesUnit us cs) :
    ('"' :: cs ++ ['"']).foldl Scanner.step ⟨ts, .between⟩ =
      ⟨.scalar (textOfUnits us.reverse) :: ts, .between⟩ := by
  have hopen : Scanner.step ⟨ts, .between⟩ '"' = ⟨ts, .quoted []⟩ := rfl
  have hclose : ∀ units, Scanner.step ⟨ts, .quoted units⟩ '"' =
      ⟨.scalar (textOfUnits units) :: ts, .between⟩ := fun _ => rfl
  rw [List.cons_append, List.foldl_cons, hopen, List.foldl_append, foldl_step_units h,
    List.append_nil, List.foldl_cons, hclose, List.foldl_nil]

end Quoted

/-! ## Scanning tokens -/

namespace Scanner

variable {ts : List Token} {t : Token} {s : Scanner}

/-- A scalar in any spelling. -/
lemma after_spelledScalar {v : Scalar} {cs : List Char} (h : v.Spells cs) :
    After ts (.scalar v) (cs.foldl Scanner.step ⟨ts, .between⟩) := by
  cases h with
  | null => exact .complete
  | true => exact .complete
  | false => exact .complete
  | @numeral n _ _ h hs =>
    obtain ⟨hn, hletter, plus⟩ := h
    obtain ⟨part, hpart, hfold⟩ := foldl_step_spelled ts hn hletter plus
    rw [hfold]
    exact .pending hpart hs
  | @text s cs h =>
    obtain ⟨us, hus, hchars⟩ := h.exists_units
    have hs : textOfUnits us.reverse = .text s := by
      rw [textOfUnits_reverse_eq, hchars]
      simp
    rw [foldl_step_quotedUnits hus, hs]
    exact .complete
  | @loneSurrogate us cs h hnone =>
    have hs : textOfUnits us.reverse = .loneSurrogate := by
      rcases textOfUnits_cases us with ⟨s, -, hchars⟩ | ⟨hlone, -⟩
      · exact absurd (h.of_units.1 _ hchars) (hnone _)
      · exact hlone
    rw [foldl_step_quotedUnits h, hs]
    exact .complete

variable (ts) in
/-- **A token in any spelling** is read after a complete one. -/
lemma after_spelled {cs : List Char} (h : t.Spells cs) :
    After ts t (cs.foldl Scanner.step ⟨ts, .between⟩) := by
  cases h with
  | scalar h => exact after_spelledScalar h
  | mark hscalar hvalid =>
    have hrewritten : t.rewritten = t := by cases t <;> first | rfl | cases hscalar
    have hreadable : t.isReadable = true := by
      cases t <;> first | exact absurd rfl hvalid | rfl | cases hscalar
    have hafter := after_token ts hreadable
    rw [hrewritten] at hafter
    exact hafter

/-- White space leaves the scanner between tokens. -/
lemma foldl_gap {gap : List Char} (h : ∀ c ∈ gap, IsGap c) :
    gap.foldl Scanner.step ⟨ts, .between⟩ = ⟨ts, .between⟩ := by
  induction gap with
  | nil => rfl
  | cons c gap ih =>
    obtain ⟨hc, hgap⟩ := List.forall_mem_cons.1 h
    have hstep : Scanner.step ⟨ts, .between⟩ c = ⟨ts, .between⟩ := by
      rcases hc with rfl | rfl | rfl | rfl <;> rfl
    rw [List.foldl_cons, hstep, ih hgap]

/-- White space ends a token. -/
lemma After.gap (h : After ts t s) {c : Char} {gap : List Char} (hgap : ∀ d ∈ c :: gap, IsGap d) :
    (c :: gap).foldl Scanner.step s = ⟨t :: ts, .between⟩ := by
  obtain ⟨hc, hrest⟩ := List.forall_mem_cons.1 hgap
  have hstep : s.step c = ⟨t :: ts, .between⟩ := by
    rcases hc with rfl | rfl | rfl | rfl <;>
      exact h.step (by decide) (by decide) (by decide) (by decide)
  rw [List.foldl_cons, hstep, foldl_gap hrest]

/-- A token after another one, with white space between them or without any. -/
lemma After.next (h : After ts t s) {next : Token}
    (hnext : t.isScalar = true → next.isDelimiter = true) {cs : List Char}
    (hcs : next.SpellsAfterGap cs) :
    After (t :: ts) next (cs.foldl Scanner.step s) := by
  obtain ⟨hgap, hspells⟩ := hcs
  rename_i gap cs
  rw [List.foldl_append]
  cases gap with
  | cons c gap =>
    rw [h.gap hgap]
    exact after_spelled _ hspells
  | nil =>
    by_cases hscalar : t.isScalar = true
    · have hdelimiter := hnext hscalar
      cases hspells with
      | scalar => cases hdelimiter
      | mark hmark hvalid =>
        have hrewritten : next.rewritten = next := by cases next <;> first | rfl | cases hmark
        have hafter := h.delimiter hdelimiter
        rw [hrewritten] at hafter
        exact hafter
    · rw [h.eq_complete (Bool.eq_false_of_not_eq_true hscalar)]
      exact after_spelled _ hspells

/-- **The rest of spelled tokens**, after one of them. -/
lemma After.foldl_joined {rest : List Token} {cs gap : List Char} (h : After ts t s)
    (hseparated : Separated (t :: rest)) (hcs : Joined Token.SpellsAfterGap rest cs)
    (hgap : ∀ c ∈ gap, IsGap c) :
    ((cs ++ gap).foldl Scanner.step s).finish = ts.reverse ++ t :: rest := by
  induction hcs generalizing ts t s with
  | nil =>
    rw [List.nil_append]
    cases gap with
    | nil =>
      rw [List.foldl_nil, h.finish, List.reverse_cons]
    | cons c gap =>
      rw [h.gap hgap]
      exact List.reverse_cons
  | @cons next rest part cs hpart _ ih =>
    rw [Separated, List.isChain_cons_cons] at hseparated
    rw [List.append_assoc, List.foldl_append, ih (h.next hseparated.1 hpart) hseparated.2,
      List.reverse_cons, List.append_assoc, List.singleton_append]

end Scanner

/-- **Spelled tokens are scanned as these tokens**, if only delimiters come after scalars. -/
theorem tokenize_of_spelled {ts : List Token} (hseparated : Scanner.Separated ts) {cs : List Char}
    (h : Spelled ts cs) : tokenize cs = ts := by
  obtain ⟨hcs, hgap⟩ := h
  have hstart : Scanner.start = ⟨[], .between⟩ := rfl
  cases hcs with
  | nil =>
    rw [tokenize, List.nil_append, hstart, Scanner.foldl_gap hgap]
    rfl
  | cons hfirst hrest =>
    obtain ⟨hspace, hspells⟩ := hfirst
    rw [tokenize, List.append_assoc, List.append_assoc, List.foldl_append, hstart,
      Scanner.foldl_gap hspace, List.foldl_append]
    exact (Scanner.after_spelled [] hspells).foldl_joined hseparated hrest hgap

end PagedTopK.Json
