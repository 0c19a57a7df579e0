import PagedTopK.Encoding.Base64
import PagedTopK.Proofs.Encoding.Utf8
import PagedTopK.Text.Blank

set_option autoImplicit false

/-!
# Reading base64 that has been written

The symbols of bytes fall into groups of four. All groups but the last one are read symbol by
symbol; the last one may end in padding signs, and is looked at in its three forms.

## Main definitions

* `Base64.sextets` — the groups of six bits in whole groups of bytes.
* `Base64.LastGroup` — what is read of the symbols of a last group.
* `Base64.IsPlain` — the characters of base64 texts.

## Main results

* `Base64.decode_encode` — the symbols of bytes are read as these bytes.
* `Base64.trim_encode`, `Base64.length_utf8_encode` — a base64 text consists of visible ASCII
  characters.
-/

namespace PagedTopK.Base64

/-! ## Symbols -/

/-- The byte of the symbol of six bits. -/
def symbolByte (n : Nat) : UInt8 := UInt8.ofNat (symbol n).toNat

lemma forall_lt_64 {p : Nat → Prop} [DecidablePred p] (h : (List.range 64).all fun n => p n)
    {n : Nat} (hn : n < 64) : p n := by
  have hall := List.all_eq_true.1 h n (List.mem_range.2 hn)
  exact of_decide_eq_true hall

/-- A symbol is read as the six bits that it stands for. -/
lemma value?_symbolByte {n : Nat} (h : n < 64) : value? (symbolByte n) = some n :=
  forall_lt_64 (p := fun n => value? (symbolByte n) = some n) (by decide) h

lemma symbolByte_ne_padding {n : Nat} (h : n < 64) : symbolByte n ≠ padding :=
  forall_lt_64 (p := fun n => symbolByte n ≠ padding) (by decide) h

/-- **The characters of base64 texts** are visible ones of ASCII. -/
def IsPlain (c : Char) : Prop := 0x20 < c.toNat ∧ c.toNat < 0x7F

instance (c : Char) : Decidable (IsPlain c) := inferInstanceAs (Decidable (_ ∧ _))

lemma isPlain_symbol {n : Nat} (h : n < 64) : IsPlain (symbol n) :=
  forall_lt_64 (p := fun n => IsPlain (symbol n)) (by decide) h

lemma encode_symbol_cons {n : Nat} (h : n < 64) (cs : List Char) :
    Utf8.encode (symbol n :: cs) = symbolByte n :: Utf8.encode cs :=
  Utf8.encode_cons_ascii (by have hplain := isPlain_symbol h; unfold IsPlain at hplain; omega) cs

lemma encode_sign_cons (cs : List Char) : Utf8.encode ('=' :: cs) = padding :: Utf8.encode cs :=
  Utf8.encode_cons_ascii (by decide) cs

lemma encode_map_symbol {values : List Nat} (h : ∀ v ∈ values, v < 64) :
    Utf8.encode (values.map symbol) = values.map symbolByte := by
  induction values with
  | nil => rfl
  | cons v rest ih =>
    rw [List.map_cons, encode_symbol_cons (h v List.mem_cons_self),
      ih fun w hw => h w (List.mem_cons_of_mem _ hw), List.map_cons]

lemma filterMap_value? {values : List Nat} (h : ∀ v ∈ values, v < 64) :
    (values.map symbolByte).filterMap value? = values := by
  induction values with
  | nil => rfl
  | cons v rest ih =>
    rw [List.map_cons, List.filterMap_cons_some (value?_symbolByte (h v List.mem_cons_self)),
      ih fun w hw => h w (List.mem_cons_of_mem _ hw)]

/-- Symbols that stand for given bits are read as these. -/
lemma readSymbols_map {values : List Nat} (h : ∀ v ∈ values, v < 64) :
    readSymbols (values.map symbolByte) = .ok values := by
  have hnone : (values.map symbolByte).findIdx? (fun b => (value? b).isNone) = none := by
    rw [List.findIdx?_eq_none_iff]
    intro b hb
    obtain ⟨v, hv, rfl⟩ := List.mem_map.1 hb
    rw [value?_symbolByte (h v hv)]
    rfl
  simp only [readSymbols, hnone, filterMap_value? h]

/-! ## Whole groups -/

/-- **The groups of six bits** in whole groups of bytes. -/
def sextets : List UInt8 → List Nat
  | a :: b :: c :: rest =>
    a.toNat / 4 :: (a.toNat % 4 * 16 + b.toNat / 16) :: (b.toNat % 16 * 4 + c.toNat / 64) ::
      c.toNat % 64 :: sextets rest
  | _ => []

lemma sextets_lt (bytes : List UInt8) : ∀ v ∈ sextets bytes, v < 64 := by
  induction bytes using sextets.induct with
  | case1 a b c rest ih =>
    have ha := a.toNat_lt
    have hb := b.toNat_lt
    have hc := c.toNat_lt
    rw [sextets]
    simp only [List.forall_mem_cons]
    exact ⟨by omega, by omega, by omega, by omega, ih⟩
  | case2 bytes h =>
    rw [sextets.eq_2 bytes h]
    simp

lemma length_sextets_mod (bytes : List UInt8) : (sextets bytes).length % 4 = 0 := by
  induction bytes using sextets.induct with
  | case1 a b c rest ih =>
    rw [sextets]
    simp only [List.length_cons]
    omega
  | case2 bytes h =>
    rw [sextets.eq_2 bytes h]
    rfl

/-- What has been written before stays below. -/
lemma encodeOnto_append (written below : List Char) (bytes : List UInt8) :
    encodeOnto (written ++ below) bytes = encodeOnto written bytes ++ below := by
  induction written, bytes using encodeOnto.induct with
  | case1 written => rfl
  | case2 written a => rfl
  | case3 written a b => rfl
  | case4 written a b c rest ih =>
    rw [encodeOnto, encodeOnto, ← ih]
    rfl

lemma encode_group (a b c : UInt8) (rest : List UInt8) :
    encode (a :: b :: c :: rest) = (sextets [a, b, c]).map symbol ++ encode rest := by
  have h := encodeOnto_append [] (((sextets [a, b, c]).map symbol).reverse) rest
  have hstep : encodeOnto [] (a :: b :: c :: rest) =
      encodeOnto (((sextets [a, b, c]).map symbol).reverse) rest := rfl
  rw [encode, hstep, ← List.nil_append (((sextets [a, b, c]).map symbol).reverse), h]
  simp [encode]

/-- Less than one whole group makes no whole groups. -/
lemma eq_nil_of_short {front : List UInt8} (h : front.length % 3 = 0)
    (hshort : ∀ a b c rest, front = a :: b :: c :: rest → False) : front = [] := by
  match front with
  | [] => rfl
  | [a] => cases h
  | [a, b] => cases h
  | a :: b :: c :: rest => exact (hshort a b c rest rfl).elim

/-- Whole groups are written first. -/
lemma encode_append (front last : List UInt8) (h : front.length % 3 = 0) :
    encode (front ++ last) = (sextets front).map symbol ++ encode last := by
  induction front using sextets.induct with
  | case1 a b c rest ih =>
    have hrest : rest.length % 3 = 0 := by
      simp only [List.length_cons] at h
      omega
    have hsplit : sextets (a :: b :: c :: rest) = sextets [a, b, c] ++ sextets rest := rfl
    rw [List.cons_append, List.cons_append, List.cons_append, encode_group, ih hrest, hsplit,
      List.map_append, List.append_assoc]
  | case2 front hshort =>
    rw [eq_nil_of_short h hshort]
    rfl

/-- **The bits of whole groups are the bytes again.** -/
lemma joinOnto_sextets (read front : List UInt8) (h : front.length % 3 = 0) :
    joinOnto read (sextets front) = front.reverse ++ read := by
  induction front using sextets.induct generalizing read with
  | case1 a b c rest ih =>
    have hrest : rest.length % 3 = 0 := by
      simp only [List.length_cons] at h
      omega
    have ha := a.toNat_lt
    have hb := b.toNat_lt
    have hc := c.toNat_lt
    have hfirst : a.toNat / 4 * 4 + (a.toNat % 4 * 16 + b.toNat / 16) / 16 = a.toNat := by omega
    have hsecond : (a.toNat % 4 * 16 + b.toNat / 16) % 16 * 16 +
        (b.toNat % 16 * 4 + c.toNat / 64) / 4 = b.toNat := by omega
    have hthird : (b.toNat % 16 * 4 + c.toNat / 64) % 4 * 64 + c.toNat % 64 = c.toNat := by omega
    rw [sextets, joinOnto, ih _ hrest, hfirst, hsecond, hthird]
    simp
  | case2 front hshort =>
    rw [eq_nil_of_short h hshort]
    rfl

/-! ## The last group -/

/-- The bytes of a text, split into whole groups and the last one, which has one to three bytes. -/
lemma exists_last_group {bytes : List UInt8} (h : bytes ≠ []) :
    ∃ front last : List UInt8, bytes = front ++ last ∧ front.length % 3 = 0 ∧
      ((∃ a, last = [a]) ∨ (∃ a b, last = [a, b]) ∨ ∃ a b c, last = [a, b, c]) := by
  induction bytes using sextets.induct with
  | case1 a b c rest ih =>
    by_cases hrest : rest = []
    · exact ⟨[], [a, b, c], by rw [hrest]; rfl, rfl, .inr (.inr ⟨a, b, c, rfl⟩)⟩
    · obtain ⟨front, last, rfl, hfront, hlast⟩ := ih hrest
      refine ⟨a :: b :: c :: front, last, rfl, ?_, hlast⟩
      simp only [List.length_cons]
      omega
  | case2 bytes hshort =>
    match bytes with
    | [] => exact absurd rfl h
    | [a] => exact ⟨[], [a], rfl, rfl, .inl ⟨a, rfl⟩⟩
    | [a, b] => exact ⟨[], [a, b], rfl, rfl, .inr (.inl ⟨a, b, rfl⟩)⟩
    | a :: b :: c :: rest => exact (hshort a b c rest rfl).elim

/-- A symbol in the last group. -/
lemma readEnding_symbol {v : Nat} (h : v < 64) (offset index : Nat) (values : List Nat)
    (last : UInt8) (rest : List UInt8) :
    readEnding offset index ⟨values, last, 0⟩ (symbolByte v :: rest) =
      readEnding offset (index + 1) ⟨v :: values, symbolByte v, 0⟩ rest := by
  rw [readEnding, if_neg (symbolByte_ne_padding h), if_neg (Nat.lt_irrefl 0), value?_symbolByte h]

/-- A padding sign after two symbols. -/
lemma readEnding_sign {index : Nat} (h : 2 ≤ index) (offset : Nat) (soFar : Ending)
    (rest : List UInt8) :
    readEnding offset index soFar (padding :: rest) =
      readEnding offset (index + 1) { soFar with signs := soFar.signs + 1 } rest := by
  rw [readEnding, if_pos rfl, if_neg (by omega)]

/-- **What is read of the symbols of a last group.** -/
structure LastGroup (last : List UInt8) (ending : Ending) : Prop where
  /-- With the padding signs there are four symbols. -/
  length : (Utf8.encode (encode last)).length = 4
  /-- They are read. -/
  read : ∀ offset, readEnding offset 0 ⟨[], 0, 0⟩ (Utf8.encode (encode last)) = .ok ending
  /-- They stand for a byte at least. -/
  enough : 2 ≤ ending.values.length
  /-- Padding is complete. -/
  whole : ending.values.length + ending.signs = 4
  /-- No bits are left over. -/
  unused : unusedBits ending.values = 0
  /-- They stand for the bytes of the group. -/
  joined : ∀ read, joinOnto read ending.values.reverse = last.reverse ++ read

lemma exists_lastGroup_one (a : UInt8) : ∃ ending, LastGroup [a] ending := by
  have ha := a.toNat_lt
  have h1 : a.toNat / 4 < 64 := by omega
  have h2 : a.toNat % 4 * 16 < 64 := by omega
  have hbytes : Utf8.encode (encode [a]) =
      [symbolByte (a.toNat / 4), symbolByte (a.toNat % 4 * 16), padding, padding] := by
    have hsymbols : encode [a] = [symbol (a.toNat / 4), symbol (a.toNat % 4 * 16), '=', '='] := rfl
    rw [hsymbols, encode_symbol_cons h1, encode_symbol_cons h2, encode_sign_cons,
      encode_sign_cons, Utf8.encode_nil]
  refine ⟨⟨[a.toNat % 4 * 16, a.toNat / 4], symbolByte (a.toNat % 4 * 16), 2⟩, ?_⟩
  refine ⟨by rw [hbytes]; rfl, fun offset => ?_, le_refl 2, rfl, ?_, fun read => ?_⟩
  · rw [hbytes, readEnding_symbol h1, readEnding_symbol h2, readEnding_sign (le_refl 2),
      readEnding_sign (by omega), readEnding]
  · show a.toNat % 4 * 16 % 16 = 0
    omega
  · have hfirst : a.toNat / 4 * 4 + a.toNat % 4 * 16 / 16 = a.toNat := by omega
    show UInt8.ofNat (a.toNat / 4 * 4 + a.toNat % 4 * 16 / 16) :: read = a :: read
    rw [hfirst, UInt8.ofNat_toNat]

lemma exists_lastGroup_two (a b : UInt8) : ∃ ending, LastGroup [a, b] ending := by
  have ha := a.toNat_lt
  have hb := b.toNat_lt
  have h1 : a.toNat / 4 < 64 := by omega
  have h2 : a.toNat % 4 * 16 + b.toNat / 16 < 64 := by omega
  have h3 : b.toNat % 16 * 4 < 64 := by omega
  have hbytes : Utf8.encode (encode [a, b]) =
      [symbolByte (a.toNat / 4), symbolByte (a.toNat % 4 * 16 + b.toNat / 16),
        symbolByte (b.toNat % 16 * 4), padding] := by
    have hsymbols : encode [a, b] = [symbol (a.toNat / 4),
        symbol (a.toNat % 4 * 16 + b.toNat / 16), symbol (b.toNat % 16 * 4), '='] := rfl
    rw [hsymbols, encode_symbol_cons h1, encode_symbol_cons h2, encode_symbol_cons h3,
      encode_sign_cons, Utf8.encode_nil]
  refine ⟨⟨[b.toNat % 16 * 4, a.toNat % 4 * 16 + b.toNat / 16, a.toNat / 4],
    symbolByte (b.toNat % 16 * 4), 1⟩, ?_⟩
  refine ⟨by rw [hbytes]; rfl, fun offset => ?_, Nat.le_succ 2, rfl, ?_, fun read => ?_⟩
  · rw [hbytes, readEnding_symbol h1, readEnding_symbol h2, readEnding_symbol h3,
      readEnding_sign (by omega), readEnding]
  · show b.toNat % 16 * 4 % 4 = 0
    omega
  · have hfirst : a.toNat / 4 * 4 + (a.toNat % 4 * 16 + b.toNat / 16) / 16 = a.toNat := by omega
    have hsecond : (a.toNat % 4 * 16 + b.toNat / 16) % 16 * 16 + b.toNat % 16 * 4 / 4 =
        b.toNat := by omega
    show UInt8.ofNat ((a.toNat % 4 * 16 + b.toNat / 16) % 16 * 16 + b.toNat % 16 * 4 / 4) ::
      UInt8.ofNat (a.toNat / 4 * 4 + (a.toNat % 4 * 16 + b.toNat / 16) / 16) :: read =
        b :: a :: read
    rw [hfirst, hsecond, UInt8.ofNat_toNat, UInt8.ofNat_toNat]

/-- A whole group at the end is read as any other. -/
lemma exists_lastGroup_three (a b c : UInt8) : ∃ ending, LastGroup [a, b, c] ending := by
  have hlt := sextets_lt [a, b, c]
  have hbytes : Utf8.encode (encode [a, b, c]) = (sextets [a, b, c]).map symbolByte := by
    rw [← encode_map_symbol hlt, encode_group]
    exact congrArg Utf8.encode (List.append_nil _)
  simp only [sextets, List.forall_mem_cons] at hlt
  obtain ⟨h1, h2, h3, h4, -⟩ := hlt
  refine ⟨⟨(sextets [a, b, c]).reverse, symbolByte (c.toNat % 64), 0⟩, ?_⟩
  refine ⟨by rw [hbytes]; rfl, fun offset => ?_, by simp [sextets], rfl, rfl, fun read => ?_⟩
  · rw [hbytes]
    simp only [sextets, List.map_cons, List.map_nil]
    rw [readEnding_symbol h1, readEnding_symbol h2, readEnding_symbol h3, readEnding_symbol h4,
      readEnding]
    rfl
  · rw [List.reverse_reverse]
    exact joinOnto_sextets read [a, b, c] (by simp)

/-! ## Whole texts -/

/-- Reading goes through the whole groups and then looks at the last one. -/
lemma decode_append {front last : List UInt8} (hfront : front.length % 3 = 0) {ending : Ending}
    (h : LastGroup last ending) :
    decode ((sextets front).map symbolByte ++ Utf8.encode (encode last)) = .ok (front ++ last) := by
  obtain ⟨hlast, hread, henough, hwhole, hunused, hjoined⟩ := h
  generalize Utf8.encode (encode last) = tail at hlast hread
  have hmod := length_sextets_mod front
  have hlength : ((sextets front).map symbolByte ++ tail).length = (sextets front).length + 4 := by
    simp [hlast]
  have hoffset : ((sextets front).length + 4 - 1) / 4 * 4 = (sextets front).length := by omega
  have htake : ((sextets front).map symbolByte ++ tail).take (sextets front).length =
      (sextets front).map symbolByte := List.take_left' (by simp)
  have hdrop : ((sextets front).map symbolByte ++ tail).drop (sextets front).length = tail :=
    List.drop_left' (by simp)
  have hstray : ¬ ((sextets front).length + 4) % 4 = 1 := by omega
  have hshort : ¬ ((sextets front).length + 4 ≠ 0 ∧ ending.values.length < 2) := by omega
  have hpadding : ¬ (ending.values.length + ending.signs) % 4 ≠ 0 := by omega
  have hrest : ¬ unusedBits ending.values ≠ 0 := fun h => h hunused
  have hbytes : (joinOnto (joinOnto [] (sextets front)) ending.values.reverse).reverse =
      front ++ last := by
    rw [hjoined, joinOnto_sextets [] front hfront]
    simp
  unfold decode
  simp only [hlength, if_neg hstray, hoffset, htake, hdrop, readSymbols_map (sextets_lt front),
    hread, bind, Except.bind, if_neg hshort, if_neg hpadding, if_neg hrest, hbytes]
  rfl

/-- **The symbols of bytes are read as these bytes.**

**Proof sketch.** The whole groups are read symbol by symbol (`joinOnto_sextets`). In each of the
three forms of the last group its symbols are followed by the right number of padding signs, and the
unused bits of its last symbol are zero (`LastGroup`). -/
theorem decode_encode (bytes : List UInt8) : decode (Utf8.encode (encode bytes)) = .ok bytes := by
  by_cases hne : bytes = []
  · rw [hne]
    rfl
  obtain ⟨front, last, rfl, hfront, hlast⟩ := exists_last_group hne
  have hgroup : ∃ ending, LastGroup last ending := by
    rcases hlast with ⟨a, rfl⟩ | ⟨a, b, rfl⟩ | ⟨a, b, c, rfl⟩
    · exact exists_lastGroup_one a
    · exact exists_lastGroup_two a b
    · exact exists_lastGroup_three a b c
  obtain ⟨ending, hending⟩ := hgroup
  rw [encode_append front last hfront, Utf8.encode_append, encode_map_symbol (sextets_lt front)]
  exact decode_append hfront hending

/-! ## The characters of a text -/

lemma isPlain_of_mem_encodeOnto {written : List Char} {bytes : List UInt8} {c : Char}
    (h : c ∈ encodeOnto written bytes) : c ∈ written ∨ IsPlain c := by
  have hsign : IsPlain '=' := by decide
  induction written, bytes using encodeOnto.induct with
  | case1 written => exact .inl h
  | case2 written a =>
    have ha := a.toNat_lt
    simp only [encodeOnto, List.mem_cons] at h
    rcases h with rfl | rfl | rfl | rfl | h
    · exact .inr hsign
    · exact .inr hsign
    · exact .inr (isPlain_symbol (by omega))
    · exact .inr (isPlain_symbol (by omega))
    · exact .inl h
  | case3 written a b =>
    have ha := a.toNat_lt
    have hb := b.toNat_lt
    simp only [encodeOnto, List.mem_cons] at h
    rcases h with rfl | rfl | rfl | rfl | h
    · exact .inr hsign
    · exact .inr (isPlain_symbol (by omega))
    · exact .inr (isPlain_symbol (by omega))
    · exact .inr (isPlain_symbol (by omega))
    · exact .inl h
  | case4 written a b c rest ih =>
    have ha := a.toNat_lt
    have hb := b.toNat_lt
    have hc := c.toNat_lt
    rcases ih h with h | h
    · simp only [List.mem_cons] at h
      rcases h with rfl | rfl | rfl | rfl | h
      · exact .inr (isPlain_symbol (by omega))
      · exact .inr (isPlain_symbol (by omega))
      · exact .inr (isPlain_symbol (by omega))
      · exact .inr (isPlain_symbol (by omega))
      · exact .inl h
    · exact .inr h

/-- Base64 texts consist of visible ASCII characters. -/
lemma isPlain_of_mem_encode {bytes : List UInt8} {c : Char} (h : c ∈ encode bytes) :
    IsPlain c := by
  rcases isPlain_of_mem_encodeOnto (List.mem_reverse.1 h) with h | h
  · cases h
  · exact h

/-- Plain characters are one byte each. -/
lemma length_encode_of_isPlain {cs : List Char} (h : ∀ c ∈ cs, IsPlain c) :
    (Utf8.encode cs).length = cs.length := by
  induction cs with
  | nil => rfl
  | cons c rest ih =>
    have hc := h c List.mem_cons_self
    unfold IsPlain at hc
    rw [Utf8.encode_cons_ascii (by omega), List.length_cons, List.length_cons,
      ih fun d hd => h d (List.mem_cons_of_mem _ hd)]

/-- A base64 text is as long in bytes as in characters. -/
lemma length_utf8_encode (bytes : List UInt8) :
    (Utf8.encode (encode bytes)).length = (encode bytes).length :=
  length_encode_of_isPlain fun _ h => isPlain_of_mem_encode h

lemma length_encodeOnto (written : List Char) (bytes : List UInt8) :
    (encodeOnto written bytes).length = written.length + (bytes.length + 2) / 3 * 4 := by
  induction written, bytes using encodeOnto.induct with
  | case1 written => rfl
  | case2 written a => simp [encodeOnto]
  | case3 written a b => simp [encodeOnto]
  | case4 written a b c rest ih =>
    rw [encodeOnto, ih]
    simp only [List.length_cons]
    omega

/-- **How long a base64 text is**: four characters for three bytes, the last ones filled up. -/
lemma length_encode (bytes : List UInt8) : (encode bytes).length = (bytes.length + 2) / 3 * 4 := by
  rw [encode, List.length_reverse, length_encodeOnto, List.length_nil, Nat.zero_add]

/-- Plain characters are not blank. -/
lemma isBlank_of_isPlain {c : Char} (h : IsPlain c) : Text.isBlank c = false := by
  unfold IsPlain at h
  simp only [Text.isBlank, Bool.or_eq_false_iff, Bool.and_eq_false_iff, decide_eq_false_iff_not,
    beq_eq_false_iff_ne]
  omega

/-- There is nothing to trim in a base64 text. -/
lemma trim_encode (bytes : List UInt8) : Text.trim (encode bytes) = encode bytes := by
  have hstart : ∀ cs : List Char, (∀ c ∈ cs, IsPlain c) → cs.dropWhile Text.isBlank = cs := by
    intro cs h
    cases cs with
    | nil => rfl
    | cons c rest =>
      rw [List.dropWhile_cons_of_neg]
      simp [isBlank_of_isPlain (h c List.mem_cons_self)]
  have hplain : ∀ c ∈ encode bytes, IsPlain c := fun _ h => isPlain_of_mem_encode h
  rw [Text.trim, Text.trimStart, hstart _ hplain, Text.trimEnd, Text.dropWhileEnd,
    hstart _ fun c hc => hplain c (List.mem_reverse.1 hc), List.reverse_reverse]

end PagedTopK.Base64
