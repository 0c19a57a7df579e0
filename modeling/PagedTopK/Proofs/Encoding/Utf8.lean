import Mathlib.Data.List.TakeWhile
import Mathlib.Tactic.Lemma
import PagedTopK.Encoding.Utf8

set_option autoImplicit false

/-!
# Reading UTF-8 that has been written

## Main results

* `Utf8.decode_encode` — the bytes of characters are read as these characters.
* `Utf8.upToFault_encode` — there is no fault among them.
-/

namespace PagedTopK.Utf8

/-! ## Writing -/

@[simp] lemma encode_nil : encode [] = [] := rfl

lemma encode_cons (c : Char) (cs : List Char) :
    encode (c :: cs) = String.utf8EncodeChar c ++ encode cs :=
  List.flatMap_cons

lemma encode_append (cs ds : List Char) : encode (cs ++ ds) = encode cs ++ encode ds :=
  List.flatMap_append

/-- A character has at most four bytes. -/
lemma length_encode_le (cs : List Char) : (encode cs).length ≤ 4 * cs.length := by
  induction cs with
  | nil => exact Nat.le_refl 0
  | cons c rest ih =>
    have hc := c.utf8Size_le_four
    rw [encode_cons, List.length_append, String.length_utf8EncodeChar, List.length_cons]
    omega

/-- A character has at least one byte. -/
lemma length_le_length_encode (cs : List Char) : cs.length ≤ (encode cs).length := by
  induction cs with
  | nil => exact Nat.le_refl 0
  | cons c rest ih =>
    have hc := c.utf8Size_pos
    rw [encode_cons, List.length_append, String.length_utf8EncodeChar, List.length_cons]
    omega

/-- An ASCII character is one byte. -/
lemma encode_cons_ascii {c : Char} (h : c.toNat < 0x80) (cs : List Char) :
    encode (c :: cs) = UInt8.ofNat c.toNat :: encode cs := by
  have hc : c.val.toNat ≤ 127 := by
    have hval : c.val.toNat = c.toNat := rfl
    omega
  rw [encode_cons, String.utf8EncodeChar, if_pos hc]
  rfl

/-! ## Reading -/

/-- The code of a character is not that of half of a surrogate pair, and is at most U+10FFFF. -/
lemma toNat_bounds (c : Char) :
    c.toNat < 0xD800 ∨ (0xDFFF < c.toNat ∧ c.toNat < 0x110000) :=
  c.valid

/-- The code of a character that is made of a number. -/
lemma toNat_val_ofNat {n : Nat} (h : n < 0xD800 ∨ (0xDFFF < n ∧ n < 0x110000)) :
    (Char.ofNat n).val.toNat = n := by
  have hvalid : n.isValidChar := h
  rw [Char.ofNat, dif_pos hvalid]
  exact UInt32.toNat_ofNatLT ..

variable {done : List (Option Char)}

/-- A first byte that asks for more. -/
lemma step_lead {byte : UInt8} {p : Pending} (h : lead byte.toNat = .more p) :
    Decoder.step ⟨done, none⟩ byte = ⟨done, some p⟩ := by
  simp only [Decoder.step, Decoder.begin, h]

/-- A byte in the middle of a character. -/
lemma step_middle {byte : UInt8} {p : Pending} (hlow : p.low ≤ byte.toNat)
    (hhigh : byte.toNat ≤ p.high) (hmissing : 1 < p.missing) :
    Decoder.step ⟨done, some p⟩ byte =
      ⟨done, some ⟨p.bits * 64 + (byte.toNat - 0x80), p.missing - 1, 0x80, 0xBF⟩⟩ := by
  simp only [Decoder.step]
  rw [if_pos ⟨hlow, hhigh⟩, if_neg (by omega)]

/-- The last byte of a character. -/
lemma step_last {byte : UInt8} {p : Pending} {c : Char} (hlow : p.low ≤ byte.toNat)
    (hhigh : byte.toNat ≤ p.high) (hmissing : p.missing ≤ 1)
    (hbits : p.bits * 64 + (byte.toNat - 0x80) = c.toNat) :
    Decoder.step ⟨done, some p⟩ byte = ⟨some c :: done, none⟩ := by
  simp only [Decoder.step]
  rw [if_pos ⟨hlow, hhigh⟩, if_pos hmissing, hbits, Char.ofNat_toNat]

/-- The byte that begins a character of two bytes. -/
lemma lead_two {bits : Nat} (hlow : 2 ≤ bits) (hhigh : bits < 32) :
    lead (UInt8.ofNat (bits % 32 + 192)).toNat = .more ⟨bits, 1, 0x80, 0xBF⟩ := by
  have hbits : bits % 32 + 192 - 0xC0 = bits := by omega
  rw [UInt8.toNat_ofNat', Nat.mod_eq_of_lt (by omega), lead, if_neg (by omega), if_neg (by omega),
    if_pos (by omega), hbits]

/-- The byte that begins a character of three bytes. -/
lemma lead_three {bits : Nat} (h : bits < 16) :
    lead (UInt8.ofNat (bits % 16 + 224)).toNat =
      .more ⟨bits, 2, if bits = 0 then 0xA0 else 0x80, if bits = 13 then 0x9F else 0xBF⟩ := by
  have hbits : bits % 16 + 224 - 0xE0 = bits := by omega
  have hlow : bits % 16 + 224 = 0xE0 ↔ bits = 0 := by omega
  have hhigh : bits % 16 + 224 = 0xED ↔ bits = 13 := by omega
  rw [UInt8.toNat_ofNat', Nat.mod_eq_of_lt (by omega), lead, if_neg (by omega), if_neg (by omega),
    if_neg (by omega), if_pos (by omega), hbits]
  simp only [hlow, hhigh]

/-- The byte that begins a character of four bytes. -/
lemma lead_four {bits : Nat} (h : bits < 5) :
    lead (UInt8.ofNat (bits % 8 + 240)).toNat =
      .more ⟨bits, 3, if bits = 0 then 0x90 else 0x80, if bits = 4 then 0x8F else 0xBF⟩ := by
  have hbits : bits % 8 + 240 - 0xF0 = bits := by omega
  have hlow : bits % 8 + 240 = 0xF0 ↔ bits = 0 := by omega
  have hhigh : bits % 8 + 240 = 0xF4 ↔ bits = 4 := by omega
  rw [UInt8.toNat_ofNat', Nat.mod_eq_of_lt (by omega), lead, if_neg (by omega), if_neg (by omega),
    if_neg (by omega), if_neg (by omega), if_pos (by omega), hbits]
  simp only [hlow, hhigh]

/-- A byte that continues a character. -/
lemma toNat_follow (n : Nat) : (UInt8.ofNat (n % 64 + 128)).toNat = n % 64 + 128 := by
  rw [UInt8.toNat_ofNat', Nat.mod_eq_of_lt (by omega)]

/-- **The decoder reads a character back**, whatever it has read before.

**Proof sketch.** By the number of bytes. The first byte says how many are to come and bounds the
next one so that only characters pass; the bits of the bytes add up to the code. -/
lemma foldl_step_char (done : List (Option Char)) (c : Char) :
    (String.utf8EncodeChar c).foldl Decoder.step ⟨done, none⟩ = ⟨some c :: done, none⟩ := by
  have hbounds := toNat_bounds c
  have hval : c.val.toNat = c.toNat := rfl
  unfold String.utf8EncodeChar
  simp only [hval]
  split
  · next h1 =>
    have hlead : lead (UInt8.ofNat c.toNat).toNat = .single c := by
      rw [UInt8.toNat_ofNat', Nat.mod_eq_of_lt (by omega), lead, if_pos (by omega),
        Char.ofNat_toNat]
    simp only [List.foldl_cons, List.foldl_nil, Decoder.step, Decoder.begin, hlead]
  split
  · next h1 h2 =>
    simp only [List.foldl_cons, List.foldl_nil]
    rw [step_lead (lead_two (by omega) (by omega))]
    refine step_last ?_ ?_ ?_ ?_ <;> simp only [toNat_follow] <;> omega
  split
  · next h1 h2 h3 =>
    simp only [List.foldl_cons, List.foldl_nil]
    rw [step_lead (lead_three (by omega)), step_middle]
    · refine step_last ?_ ?_ ?_ ?_ <;> simp only [toNat_follow] <;> omega
    · simp only [toNat_follow]
      split <;> omega
    · simp only [toNat_follow]
      split <;> omega
    · simp
  · next h1 h2 h3 =>
    simp only [List.foldl_cons, List.foldl_nil]
    rw [step_lead (lead_four (by omega)), step_middle, step_middle]
    · refine step_last ?_ ?_ ?_ ?_ <;> simp only [toNat_follow] <;> omega
    · simp only [toNat_follow]
      omega
    · simp only [toNat_follow]
      omega
    · simp
    · simp only [toNat_follow]
      split <;> omega
    · simp only [toNat_follow]
      split <;> omega
    · simp

lemma foldl_step_encode (done : List (Option Char)) (cs : List Char) :
    (encode cs).foldl Decoder.step ⟨done, none⟩ = ⟨(cs.map some).reverse ++ done, none⟩ := by
  induction cs generalizing done with
  | nil => rfl
  | cons c cs ih =>
    rw [encode_cons, List.foldl_append, foldl_step_char, ih]
    simp

/-- **The bytes of characters are read as these characters.** -/
theorem decode_encode (cs : List Char) : decode (encode cs) = cs.map some := by
  rw [decode, foldl_step_encode]
  simp [Decoder.finish]

/-- Characters are given back by their bytes. -/
lemma encode_injective : Function.Injective encode := by
  intro cs ds h
  have hread : cs.map some = ds.map some := by rw [← decode_encode, h, decode_encode]
  exact List.map_inj_right (fun _ _ => Option.some.inj) |>.1 hread

/-- There is no fault in the bytes of characters. -/
theorem upToFault_encode (mark : Char) (cs : List Char) : upToFault mark (encode cs) = cs := by
  have hall : (cs.map some).takeWhile Option.isSome = cs.map some :=
    List.takeWhile_eq_self_iff.2 (by simp)
  simp [upToFault, decode_encode, hall]

end PagedTopK.Utf8
