import PagedTopK.Proofs.Encoding.Base64
import PagedTopK.Proofs.Except

set_option autoImplicit false

/-!
# Encodings with a single form

Characters have one form in UTF-8 and bytes one form in base64: what is read without a fault is what
writing produces.

## Main definitions

* `Utf8.Begun` — the first bytes of a character.
* `Utf8.Decoder.Faithful` — what a decoder has read, written again, is what it has been given.

## Main results

* `Utf8.decode_eq_map_some_iff` — bytes without fault are those of the characters read.
* `Base64.decode_eq_ok_iff` — symbols that can be read are those of the bytes read.
* `Utf8.encode_injective`, `Base64.encode_injective` — nothing else has this form.
-/

namespace PagedTopK

/-! ## UTF-8 -/

namespace Utf8

/-- **The first bytes of a character**, with what is known after them. -/
inductive Begun : Pending → List UInt8 → Prop where
  /-- The first byte says how many are to come. -/
  | lead {byte : UInt8} {p : Pending} (h : lead byte.toNat = .more p) : Begun p [byte]
  /-- Another byte, but not the last one. -/
  | next {p : Pending} {own : List UInt8} {byte : UInt8} (h : Begun p own)
    (hlow : p.low ≤ byte.toNat) (hhigh : byte.toNat ≤ p.high) (hmissing : 1 < p.missing) :
    Begun ⟨p.bits * 64 + (byte.toNat - 0x80), p.missing - 1, 0x80, 0xBF⟩ (own ++ [byte])

/-- **A first byte that asks for more** is that of a character of two, three or four bytes. -/
lemma lead_eq_more {b : Nat} {p : Pending} (h : Utf8.lead b = .more p) :
    (0xC2 ≤ b ∧ b < 0xE0 ∧ p = ⟨b - 0xC0, 1, 0x80, 0xBF⟩) ∨
    (0xE0 ≤ b ∧ b < 0xF0 ∧
      p = ⟨b - 0xE0, 2, if b = 0xE0 then 0xA0 else 0x80, if b = 0xED then 0x9F else 0xBF⟩) ∨
    (0xF0 ≤ b ∧ b < 0xF5 ∧
      p = ⟨b - 0xF0, 3, if b = 0xF0 then 0x90 else 0x80, if b = 0xF4 then 0x8F else 0xBF⟩) := by
  unfold Utf8.lead at h
  split at h
  · cases h
  split at h
  · cases h
  split at h
  · rw [Lead.more.injEq] at h
    exact .inl ⟨by omega, by omega, h.symm⟩
  split at h
  · rw [Lead.more.injEq] at h
    exact .inr (.inl ⟨by omega, by omega, h.symm⟩)
  split at h
  · rw [Lead.more.injEq] at h
    exact .inr (.inr ⟨by omega, by omega, h.symm⟩)
  · cases h

/-- At most three bytes are to come. -/
lemma Begun.missing_le {p : Pending} {own : List UInt8} (h : Begun p own) : p.missing ≤ 3 := by
  induction h with
  | lead hlead => rcases lead_eq_more hlead with ⟨_, _, rfl⟩ | ⟨_, _, rfl⟩ | ⟨_, _, rfl⟩ <;> simp
  | next _ _ _ _ ih => exact Nat.le_trans (Nat.sub_le _ 1) ih

/-- A byte that is known by its number. -/
lemma ofNat_eq_byte {n : Nat} {b : UInt8} (h : n = b.toNat) : UInt8.ofNat n = b := by
  rw [h, UInt8.ofNat_toNat]

/-- A character of one byte. -/
lemma encode_single {a : UInt8} {c : Char} (h : Utf8.lead a.toNat = .single c) :
    String.utf8EncodeChar c = [a] := by
  unfold Utf8.lead at h
  split at h
  · next hascii =>
    obtain rfl := Lead.single.inj h
    unfold String.utf8EncodeChar
    simp only [toNat_val_ofNat (n := a.toNat) (by omega)]
    rw [if_pos (by omega), ofNat_eq_byte rfl]
  · repeat' split at h
    all_goals cases h

/-- A character of two bytes. -/
lemma encode_two {a b : UInt8} (ha : 0xC2 ≤ a.toNat) (ha' : a.toNat < 0xE0) (hb : 0x80 ≤ b.toNat)
    (hb' : b.toNat ≤ 0xBF) :
    String.utf8EncodeChar (Char.ofNat ((a.toNat - 0xC0) * 64 + (b.toNat - 0x80))) = [a, b] := by
  unfold String.utf8EncodeChar
  simp only [toNat_val_ofNat (n := (a.toNat - 0xC0) * 64 + (b.toNat - 0x80)) (by omega)]
  rw [if_neg (by omega), if_pos (by omega)]
  rw [ofNat_eq_byte (b := a) (by omega), ofNat_eq_byte (b := b) (by omega)]

/-- A character of three bytes. It is neither one that has fewer bytes nor half of a surrogate
pair. -/
lemma encode_three {a b c : UInt8} (ha : 0xE0 ≤ a.toNat) (ha' : a.toNat < 0xF0)
    (hb : (if a.toNat = 0xE0 then 0xA0 else 0x80) ≤ b.toNat)
    (hb' : b.toNat ≤ if a.toNat = 0xED then 0x9F else 0xBF) (hc : 0x80 ≤ c.toNat)
    (hc' : c.toNat ≤ 0xBF) :
    String.utf8EncodeChar (Char.ofNat
      (((a.toNat - 0xE0) * 64 + (b.toNat - 0x80)) * 64 + (c.toNat - 0x80))) = [a, b, c] := by
  have hlow : 0x80 ≤ b.toNat ∧ (a.toNat = 0xE0 → 0xA0 ≤ b.toNat) := by split at hb <;> omega
  have hhigh : b.toNat ≤ 0xBF ∧ (a.toNat = 0xED → b.toNat ≤ 0x9F) := by split at hb' <;> omega
  clear hb hb'
  unfold String.utf8EncodeChar
  simp only [toNat_val_ofNat
    (n := ((a.toNat - 0xE0) * 64 + (b.toNat - 0x80)) * 64 + (c.toNat - 0x80)) (by omega)]
  rw [if_neg (by omega), if_neg (by omega), if_pos (by omega)]
  rw [ofNat_eq_byte (b := a) (by omega), ofNat_eq_byte (b := b) (by omega),
    ofNat_eq_byte (b := c) (by omega)]

/-- A character of four bytes. It has no fewer bytes and is at most U+10FFFF. -/
lemma encode_four {a b c d : UInt8} (ha : 0xF0 ≤ a.toNat) (ha' : a.toNat < 0xF5)
    (hb : (if a.toNat = 0xF0 then 0x90 else 0x80) ≤ b.toNat)
    (hb' : b.toNat ≤ if a.toNat = 0xF4 then 0x8F else 0xBF) (hc : 0x80 ≤ c.toNat)
    (hc' : c.toNat ≤ 0xBF) (hd : 0x80 ≤ d.toNat) (hd' : d.toNat ≤ 0xBF) :
    String.utf8EncodeChar (Char.ofNat
      ((((a.toNat - 0xF0) * 64 + (b.toNat - 0x80)) * 64 + (c.toNat - 0x80)) * 64 +
        (d.toNat - 0x80))) = [a, b, c, d] := by
  have hlow : 0x80 ≤ b.toNat ∧ (a.toNat = 0xF0 → 0x90 ≤ b.toNat) := by split at hb <;> omega
  have hhigh : b.toNat ≤ 0xBF ∧ (a.toNat = 0xF4 → b.toNat ≤ 0x8F) := by split at hb' <;> omega
  clear hb hb'
  unfold String.utf8EncodeChar
  simp only [toNat_val_ofNat
    (n := (((a.toNat - 0xF0) * 64 + (b.toNat - 0x80)) * 64 + (c.toNat - 0x80)) * 64 +
      (d.toNat - 0x80)) (by omega)]
  rw [if_neg (by omega), if_neg (by omega), if_neg (by omega)]
  rw [ofNat_eq_byte (b := a) (by omega), ofNat_eq_byte (b := b) (by omega),
    ofNat_eq_byte (b := c) (by omega), ofNat_eq_byte (b := d) (by omega)]

/-- **The last byte completes the bytes of the character.**

**Proof sketch.** By how many bytes there are. The ranges of the first two bytes make the code that
of a character with just as many bytes, and the bits of the bytes are taken out of it again. -/
lemma Begun.encode_last {p : Pending} {own : List UInt8} {byte : UInt8} (h : Begun p own)
    (hlow : p.low ≤ byte.toNat) (hhigh : byte.toNat ≤ p.high) (hmissing : p.missing ≤ 1) :
    String.utf8EncodeChar (Char.ofNat (p.bits * 64 + (byte.toNat - 0x80))) = own ++ [byte] := by
  cases h with
  | lead hlead =>
    rcases lead_eq_more hlead with ⟨ha, ha', rfl⟩ | ⟨_, _, rfl⟩ | ⟨_, _, rfl⟩
    · exact encode_two ha ha' hlow hhigh
    · simp at hmissing
    · simp at hmissing
  | @next p own _ hbegun hlow' hhigh' hmissing' =>
    cases hbegun with
    | lead hlead =>
      rcases lead_eq_more hlead with ⟨_, _, rfl⟩ | ⟨ha, ha', rfl⟩ | ⟨_, _, rfl⟩
      · simp at hmissing'
      · exact encode_three ha ha' hlow' hhigh' hlow hhigh
      · simp at hmissing
    | @next p own _ hbegun hlow'' hhigh'' hmissing'' =>
      cases hbegun with
      | lead hlead =>
        rcases lead_eq_more hlead with ⟨_, _, rfl⟩ | ⟨_, _, rfl⟩ | ⟨ha, ha', rfl⟩
        · simp at hmissing''
        · simp at hmissing'
        · exact encode_four ha ha' hlow'' hhigh'' hlow' hhigh' hlow hhigh
      | @next p _ _ hbegun _ _ hmissing''' =>
        have hfour := hbegun.missing_le
        simp only at hmissing hmissing' hmissing''
        omega

/-- **What a decoder has read, written again, is what it has been given**, unless there was a
fault. -/
inductive Decoder.Faithful : Decoder → List UInt8 → Prop where
  /-- The bytes of some characters. -/
  | between {cs : List Char} : Faithful ⟨(cs.map some).reverse, none⟩ (encode cs)
  /-- The bytes of some characters and the first ones of another. -/
  | within {cs : List Char} {p : Pending} {own : List UInt8} (h : Begun p own) :
    Faithful ⟨(cs.map some).reverse, some p⟩ (encode cs ++ own)
  /-- There was a fault. -/
  | faulty {d : Decoder} {bytes : List UInt8} (h : none ∈ d.done) : Faithful d bytes

namespace Decoder

/-- Another character. -/
lemma Faithful.snoc {cs : List Char} {c : Char} {own : List UInt8}
    (h : String.utf8EncodeChar c = own) :
    Faithful ⟨some c :: (cs.map some).reverse, none⟩ (encode cs ++ own) := by
  have hnext : Faithful ⟨((cs ++ [c]).map some).reverse, none⟩ (encode (cs ++ [c])) := .between
  rw [encode_append, encode_cons, h, encode_nil, List.append_nil, List.map_append,
    List.reverse_append] at hnext
  exact hnext

/-- A byte after a fault. -/
lemma mem_done_step {d : Decoder} (h : none ∈ d.done) (byte : UInt8) :
    none ∈ (d.step byte).done := by
  have hbegin : ∀ {done : List (Option Char)}, none ∈ done → ∀ b, none ∈ (begin done b).done := by
    intro done hdone b
    unfold begin
    split
    · exact List.mem_cons_of_mem _ hdone
    · exact hdone
    · exact List.mem_cons_of_mem _ hdone
  unfold step
  simp only
  split
  · exact hbegin h _
  split
  · split
    · exact List.mem_cons_of_mem _ h
    · exact h
  · exact hbegin List.mem_cons_self _

/-- **One more byte.** -/
lemma Faithful.step {d : Decoder} {bytes : List UInt8} (h : Faithful d bytes) (byte : UInt8) :
    Faithful (d.step byte) (bytes ++ [byte]) := by
  cases h with
  | @between cs =>
    show Faithful (begin _ byte.toNat) _
    unfold begin
    cases hlead : lead byte.toNat with
    | single c => exact .snoc (encode_single hlead)
    | more p => exact .within (.lead hlead)
    | fault => exact .faulty List.mem_cons_self
  | @within cs p own hbegun =>
    unfold Decoder.step
    simp only
    split
    · next hrange =>
      rw [List.append_assoc]
      split
      · next hlast => exact .snoc (hbegun.encode_last hrange.1 hrange.2 hlast)
      · next hmore => exact .within (hbegun.next hrange.1 hrange.2 (Nat.not_le.1 hmore))
    · exact .faulty (mem_done_step (d := ⟨none :: _, none⟩) List.mem_cons_self byte)
  | faulty hnone => exact .faulty (mem_done_step hnone byte)

/-- **Any number of bytes.** -/
lemma Faithful.foldl {d : Decoder} {bytes : List UInt8} (h : Faithful d bytes)
    (more : List UInt8) : Faithful (more.foldl Decoder.step d) (bytes ++ more) := by
  induction more generalizing d bytes with
  | nil => exact (List.append_nil bytes).symm ▸ h
  | cons byte more ih =>
    have hnext := ih (h.step byte)
    rw [List.append_assoc, List.singleton_append] at hnext
    exact hnext

end Decoder

/-- **Bytes without fault are those of the characters read.** -/
theorem decode_eq_map_some_iff {bytes : List UInt8} {cs : List Char} :
    decode bytes = cs.map some ↔ bytes = encode cs := by
  constructor
  · intro h
    have hstart : Decoder.Faithful ⟨(([] : List Char).map some).reverse, none⟩ (encode []) :=
      .between
    have hfaithful : Decoder.Faithful (bytes.foldl Decoder.step ⟨[], none⟩) bytes :=
      hstart.foldl bytes
    unfold decode at h
    generalize bytes.foldl Decoder.step ⟨[], none⟩ = d at h hfaithful
    have hvalid : none ∉ d.finish := by simp [h]
    cases hfaithful with
    | @between own =>
      simp only [Decoder.finish, List.reverse_reverse] at h
      rw [(List.map_inj_right fun _ _ => Option.some.inj).1 h]
    | within => exact absurd (by simp [Decoder.finish]) hvalid
    | faulty hnone =>
      refine absurd ?_ hvalid
      unfold Decoder.finish
      split <;> simp [hnone]
  · rintro rfl
    exact decode_encode cs

/-- Where there are no faults nothing is lost. -/
lemma map_some_filterMap {items : List (Option Char)} (h : ∀ item ∈ items, item.isSome = true) :
    (items.filterMap id).map some = items := by
  induction items with
  | nil => rfl
  | cons item rest ih =>
    obtain ⟨hitem, hrest⟩ := List.forall_mem_cons.1 h
    obtain ⟨c, rfl⟩ := Option.isSome_iff_exists.1 hitem
    show some c :: (rest.filterMap id).map some = _
    rw [ih hrest]

/-- **A text in bytes is that of its characters**, if the mark of a fault is not among these. -/
lemma eq_encode_of_upToFault {mark : Char} {bytes : List UInt8} {cs : List Char}
    (h : upToFault mark bytes = cs) (hmark : mark ∉ cs) : bytes = encode cs := by
  rw [← decode_eq_map_some_iff]
  unfold upToFault at h
  simp only at h
  split at h
  · refine absurd ?_ hmark
    rw [← h]
    exact List.mem_append_right _ (List.mem_singleton_self mark)
  · next hlength =>
    have hshort := List.length_filterMap_le id ((decode bytes).takeWhile Option.isSome)
    have hwhole : (decode bytes).takeWhile Option.isSome = decode bytes :=
      (List.takeWhile_prefix _).eq_of_length_le (Nat.le_trans (Nat.not_lt.1 hlength) hshort)
    rw [hwhole] at h
    rw [← h, map_some_filterMap fun item hitem => List.takeWhile_eq_self_iff.1 hwhole item hitem]

end Utf8

/-! ## Base64 -/

namespace Base64

/-! ### Symbols -/

/-- A byte is the symbol of the six bits as which it is read. -/
lemma eq_symbolByte_of_value? {b : UInt8} {v : Nat} (h : value? b = some v) :
    v < 64 ∧ b = symbolByte v := by
  have hall : ∀ n < 256, ∀ v ∈ value? (UInt8.ofNat n), v < 64 ∧ UInt8.ofNat n = symbolByte v := by
    decide +kernel
  have hb := hall b.toNat b.toNat_lt v
  rw [UInt8.ofNat_toNat] at hb
  exact hb h

/-- What is read as symbols are the symbols of the bits read. -/
lemma eq_map_of_readSymbols {bytes : List UInt8} {values : List Nat}
    (h : readSymbols bytes = .ok values) :
    bytes = values.map symbolByte ∧ ∀ v ∈ values, v < 64 := by
  unfold readSymbols at h
  split at h
  · cases h
  next hnone =>
  obtain rfl := Except.ok.inj h
  rw [List.findIdx?_eq_none_iff] at hnone
  clear h
  induction bytes with
  | nil => exact ⟨rfl, List.forall_mem_nil _⟩
  | cons b rest ih =>
    obtain ⟨hb, hrest⟩ := List.forall_mem_cons.1 hnone
    obtain ⟨v, hv⟩ := Option.isSome_iff_exists.1 (by simpa using hb)
    obtain ⟨hlt, hsymbol⟩ := eq_symbolByte_of_value? hv
    obtain ⟨hmap, hall⟩ := ih hrest
    rw [List.filterMap_cons_some hv]
    exact ⟨by rw [List.map_cons, ← hsymbol, ← hmap], List.forall_mem_cons.2 ⟨hlt, hall⟩⟩

/-! ### Whole groups -/

/-- Bits that are those of a byte. -/
lemma toNat_ofNat_of_lt {n : Nat} (h : n < 256) : (UInt8.ofNat n).toNat = n := by
  rw [UInt8.toNat_ofNat', Nat.mod_eq_of_lt h]

/-- **Whole groups of six bits are those of bytes.** -/
lemma exists_sextets : ∀ {values : List Nat}, (∀ v ∈ values, v < 64) → values.length % 4 = 0 →
    ∃ front : List UInt8, front.length % 3 = 0 ∧ values = sextets front
  | [], _, _ => ⟨[], rfl, rfl⟩
  | [_], _, h => by cases h
  | [_, _], _, h => by cases h
  | [_, _, _], _, h => by cases h
  | a :: b :: c :: d :: rest, hall, h => by
    simp only [List.forall_mem_cons] at hall
    obtain ⟨ha, hb, hc, hd, hrest⟩ := hall
    obtain ⟨front, hfront, rfl⟩ :=
      exists_sextets hrest (by simp only [List.length_cons] at h; omega)
    refine ⟨UInt8.ofNat (a * 4 + b / 16) :: UInt8.ofNat (b % 16 * 16 + c / 4) ::
      UInt8.ofNat (c % 4 * 64 + d) :: front, by simp only [List.length_cons]; omega, ?_⟩
    rw [sextets, toNat_ofNat_of_lt (by omega), toNat_ofNat_of_lt (by omega),
      toNat_ofNat_of_lt (by omega)]
    congr 1
    · omega
    congr 1
    · omega
    congr 1
    · omega
    congr 1
    omega

/-! ### The last group -/

/-- **What is read as the last group** are symbols and padding signs after them. -/
lemma eq_map_of_readEnding {offset index : Nat} {soFar ending : Ending} {bytes : List UInt8}
    (h : readEnding offset index soFar bytes = .ok ending) :
    ∃ own signs, bytes = own.map symbolByte ++ List.replicate signs padding ∧
      (∀ v ∈ own, v < 64) ∧ ending.values = own.reverse ++ soFar.values ∧
      ending.signs = soFar.signs + signs ∧ (0 < soFar.signs → own = []) := by
  induction bytes generalizing index soFar with
  | nil =>
    obtain rfl := Except.ok.inj h
    exact ⟨[], 0, rfl, List.forall_mem_nil _, rfl, rfl, fun _ => rfl⟩
  | cons b rest ih =>
    unfold readEnding at h
    split at h
    · next hb =>
      split at h
      · cases h
      obtain ⟨own, signs, hrest, -, hvalues, hsigns, hnone⟩ := ih h
      obtain rfl := hnone (Nat.succ_pos _)
      refine ⟨[], signs + 1, ?_, List.forall_mem_nil _, hvalues, ?_, fun _ => rfl⟩
      · rw [hb, hrest]
        rfl
      · rw [hsigns]
        exact Nat.add_right_comm _ _ _
    split at h
    · cases h
    next hsigned =>
    split at h
    · cases h
    next v hv =>
    obtain ⟨hlt, hsymbol⟩ := eq_symbolByte_of_value? hv
    obtain ⟨own, signs, hrest, hall, hvalues, hsigns, -⟩ := ih h
    refine ⟨v :: own, signs, ?_, List.forall_mem_cons.2 ⟨hlt, hall⟩, ?_, hsigns,
      fun hpos => absurd hpos hsigned⟩
    · rw [hsymbol, hrest]
      rfl
    · rw [hvalues, List.reverse_cons, List.append_assoc]
      rfl

/-- **A last group without unused bits is that of its bytes.** -/
lemma exists_last_of_values {own : List Nat} {signs : Nat} (hall : ∀ v ∈ own, v < 64)
    (henough : 2 ≤ own.length) (hwhole : own.length + signs = 4)
    (hunused : unusedBits own.reverse = 0) :
    ∃ last : List UInt8,
      own.map symbolByte ++ List.replicate signs padding = Utf8.encode (encode last) ∧
        ∀ read, joinOnto read own = last.reverse ++ read := by
  match own with
  | [] | [_] => simp at henough
  | [a, b] =>
    obtain rfl : signs = 2 := by simp only [List.length_cons, List.length_nil] at hwhole; omega
    simp only [List.forall_mem_cons] at hall
    obtain ⟨ha, hb, -⟩ := hall
    have hzero : b % 16 = 0 := hunused
    have hbyte : (UInt8.ofNat (a * 4 + b / 16)).toNat = a * 4 + b / 16 :=
      toNat_ofNat_of_lt (by omega)
    have hfirst : (a * 4 + b / 16) / 4 = a := by omega
    have hsecond : (a * 4 + b / 16) % 4 * 16 = b := by omega
    refine ⟨[UInt8.ofNat (a * 4 + b / 16)], ?_, fun _ => rfl⟩
    show _ = Utf8.encode [symbol (_ / 4), symbol (_ % 4 * 16), '=', '=']
    rw [hbyte, hfirst, hsecond, encode_symbol_cons ha, encode_symbol_cons hb, encode_sign_cons,
      encode_sign_cons]
    rfl
  | [a, b, c] =>
    obtain rfl : signs = 1 := by simp only [List.length_cons, List.length_nil] at hwhole; omega
    simp only [List.forall_mem_cons] at hall
    obtain ⟨ha, hb, hc, -⟩ := hall
    have hzero : c % 4 = 0 := hunused
    have hbyte : (UInt8.ofNat (a * 4 + b / 16)).toNat = a * 4 + b / 16 :=
      toNat_ofNat_of_lt (by omega)
    have hbyte' : (UInt8.ofNat (b % 16 * 16 + c / 4)).toNat = b % 16 * 16 + c / 4 :=
      toNat_ofNat_of_lt (by omega)
    have hfirst : (a * 4 + b / 16) / 4 = a := by omega
    have hsecond : (a * 4 + b / 16) % 4 * 16 + (b % 16 * 16 + c / 4) / 16 = b := by omega
    have hthird : (b % 16 * 16 + c / 4) % 16 * 4 = c := by omega
    refine ⟨[UInt8.ofNat (a * 4 + b / 16), UInt8.ofNat (b % 16 * 16 + c / 4)], ?_, fun _ => rfl⟩
    show _ = Utf8.encode [symbol (_ / 4), symbol (_ % 4 * 16 + _ / 16), symbol (_ % 16 * 4), '=']
    rw [hbyte, hbyte', hfirst, hsecond, hthird, encode_symbol_cons ha, encode_symbol_cons hb,
      encode_symbol_cons hc, encode_sign_cons]
    rfl
  | [a, b, c, d] =>
    obtain rfl : signs = 0 := by simp only [List.length_cons, List.length_nil] at hwhole; omega
    obtain ⟨last, hlast, hvalues⟩ := exists_sextets hall (by simp)
    have hencode := encode_append last [] hlast
    have hempty : encode [] = [] := rfl
    rw [List.append_nil, hempty, List.append_nil] at hencode
    refine ⟨last, ?_, fun read => ?_⟩
    · rw [hencode, ← hvalues, encode_map_symbol hall]
      rfl
    · rw [hvalues, joinOnto_sextets read last hlast]
  | _ :: _ :: _ :: _ :: _ :: _ => simp only [List.length_cons] at hwhole; omega

/-- **Only the symbols of bytes are read as these bytes.**

**Proof sketch.** Whole groups of symbols are those of bytes (`exists_sextets`). The last group has
four symbols with the padding signs, at least two without these, and no unused bits, so that it is
that of one to three bytes (`exists_last_of_values`). -/
theorem decode_eq_ok_iff {symbols bytes : List UInt8} :
    decode symbols = .ok bytes ↔ symbols = Utf8.encode (encode bytes) := by
  constructor
  · intro h
    by_cases hempty : symbols = []
    · rw [hempty] at h ⊢
      obtain rfl := Except.ok.inj h
      rfl
    have hpos : 0 < symbols.length := List.length_pos_iff.2 hempty
    unfold decode at h
    simp only at h
    split at h
    · cases h
    rw [bind_eq_ok_iff] at h
    obtain ⟨values, hvalues, h⟩ := h
    rw [bind_eq_ok_iff] at h
    obtain ⟨ending, hending, h⟩ := h
    obtain ⟨hfront, hfrontall⟩ := eq_map_of_readSymbols hvalues
    obtain ⟨own, signs, hlast, hall, hown, hsigns, -⟩ := eq_map_of_readEnding hending
    rw [List.append_nil] at hown
    rw [Nat.zero_add] at hsigns
    rw [hown, List.reverse_reverse, hsigns, List.length_reverse] at h
    split at h
    · cases h
    next henough =>
    split at h
    · cases h
    next hpadding =>
    split at h
    · cases h
    next hunused =>
    obtain rfl := Except.ok.inj h
    have hfrontlength : values.length = (symbols.length - 1) / 4 * 4 := by
      have htaken := congrArg List.length hfront
      rw [List.length_take, List.length_map] at htaken
      omega
    have hlastlength : own.length + signs = symbols.length - (symbols.length - 1) / 4 * 4 := by
      have hdropped := congrArg List.length hlast
      rw [List.length_drop, List.length_append, List.length_map, List.length_replicate] at hdropped
      exact hdropped.symm
    obtain ⟨front, hwhole, rfl⟩ := exists_sextets hfrontall (by omega)
    rw [joinOnto_sextets [] front hwhole, ← List.take_append_drop _ symbols, hfront, hlast]
    have hfour : own.length + signs = 4 := by omega
    obtain ⟨last, hsymbols, hjoined⟩ := exists_last_of_values hall (by omega) hfour
      (not_not.1 hunused)
    rw [hsymbols, hjoined, List.reverse_append, List.reverse_reverse, List.append_nil,
      List.reverse_reverse, encode_append front last hwhole, Utf8.encode_append,
      encode_map_symbol hfrontall]
  · rintro rfl
    exact decode_encode bytes

/-- Bytes are given back by their symbols. -/
lemma encode_injective : Function.Injective encode := by
  intro bytes others h
  have hread : decode (Utf8.encode (encode bytes)) = .ok others := by rw [h, decode_encode]
  rw [decode_encode] at hread
  exact Except.ok.inj hread

end Base64

end PagedTopK
