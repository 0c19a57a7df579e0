import Mathlib.Data.PFun
import Mathlib.Tactic.Lemma
import PagedTopK.Proofs.Encoding.Utf8

set_option autoImplicit false

/-!
# Slices of texts between bytes

A place in a text can be given by the number of bytes before it. Not every number is a place: it may
be past the end, or fall within a character. A slice between two numbers exists only if both are
places and they are in order.

## Main definitions

* `Text.byteLength` — how many bytes a text takes.
* `Text.cutAt?` — the two parts of a text before and behind a byte.
* `Text.slice` — the text between two bytes, which need not exist.
* `Text.firstOffset?`, `Text.lastOffset?` — where a character first or last stands.
* `Text.charIndices`, `Text.charAt?`, `Text.offsetAt` — the characters of a text by their number,
  each with the byte at which it begins.

## Main results

* `Text.cutAt?_eq_some_iff` — a text can be cut exactly where a character begins or the text ends.
* `Text.mem_slice_iff` — which slices exist, and what they are.
* `Text.slices_around` — the slices before and behind a character that was found.
* `Text.slice_of_drop` — the slice between two characters that are given by their number.
-/

namespace PagedTopK.Text

/-! ## Bytes -/

/-- How many bytes a text takes. -/
def byteLength (cs : List Char) : Nat := (Utf8.encode cs).length

@[simp] lemma byteLength_nil : byteLength [] = 0 := rfl

@[simp] lemma byteLength_cons (c : Char) (cs : List Char) :
    byteLength (c :: cs) = c.utf8Size + byteLength cs := by
  rw [byteLength, Utf8.encode_cons, List.length_append, String.length_utf8EncodeChar, byteLength]

@[simp] lemma byteLength_append (cs ds : List Char) :
    byteLength (cs ++ ds) = byteLength cs + byteLength ds := by
  rw [byteLength, Utf8.encode_append, List.length_append, byteLength, byteLength]

/-! ## Cuts and slices -/

/-- **Cut a text at a byte**: what stands before it and what stands from it on. There is no cut
within a character or past the end. -/
def cutAt? : Nat → List Char → Option (List Char × List Char)
  | 0, cs => some ([], cs)
  | _ + 1, [] => none
  | n + 1, c :: cs =>
    if c.utf8Size ≤ n + 1 then (cutAt? (n + 1 - c.utf8Size) cs).map fun r => (c :: r.1, r.2)
    else none

/-- **A text can be cut at a byte exactly if some of its characters take as many bytes.** -/
theorem cutAt?_eq_some_iff {text front back : List Char} {n : Nat} :
    cutAt? n text = some (front, back) ↔ text = front ++ back ∧ byteLength front = n := by
  induction text generalizing n front with
  | nil =>
    cases n with
    | zero =>
      simp only [cutAt?, Option.some.injEq, Prod.mk.injEq, List.nil_eq, List.append_eq_nil_iff]
      constructor
      · rintro ⟨rfl, rfl⟩
        exact ⟨⟨rfl, rfl⟩, rfl⟩
      · exact fun h => h.1
    | succ n =>
      refine iff_of_false nofun ?_
      rintro ⟨htext, hlength⟩
      rw [(List.nil_eq_append_iff.1 htext).1] at hlength
      cases hlength
  | cons c cs ih =>
    have hpos := c.utf8Size_pos
    cases n with
    | zero =>
      rw [cutAt?, Option.some.injEq, Prod.mk.injEq]
      constructor
      · rintro ⟨rfl, rfl⟩
        exact ⟨rfl, rfl⟩
      · rintro ⟨htext, hlength⟩
        cases front with
        | nil => exact ⟨rfl, htext⟩
        | cons d front =>
          have := d.utf8Size_pos
          rw [byteLength_cons] at hlength
          omega
    | succ n =>
      rw [cutAt?]
      constructor
      · intro h
        split at h
        · next hle =>
          obtain ⟨⟨kept, left⟩, hcut, heq⟩ := Option.map_eq_some_iff.1 h
          cases heq
          obtain ⟨rfl, hlength⟩ := ih.1 hcut
          refine ⟨rfl, ?_⟩
          rw [byteLength_cons, hlength]
          omega
        · cases h
      · rintro ⟨htext, hlength⟩
        cases front with
        | nil => cases hlength
        | cons d front =>
          obtain ⟨rfl, hcs⟩ := List.cons.inj htext
          rw [byteLength_cons] at hlength
          rw [if_pos (by omega), ih.2 ⟨hcs, by omega⟩]
          rfl

example : cutAt? 2 "é?".toList = some ("é".toList, "?".toList) ∧ cutAt? 1 "é?".toList = none := by
  decide

/-- **The text between two bytes.** It exists only if the bytes are in order and the text can be
cut at both. -/
def slice (text : List Char) (start stop : Nat) : Part (List Char) :=
  if start ≤ stop then
    (((cutAt? stop text).bind fun r => cutAt? start r.1).map (·.2) : Option (List Char))
  else Part.none

/-- **What a slice is**: the middle of three parts of the text, the first of which takes the bytes
before the slice. -/
theorem mem_slice_iff {text middle : List Char} {start stop : Nat} :
    middle ∈ slice text start stop ↔ ∃ front back, text = front ++ (middle ++ back) ∧
      byteLength front = start ∧ byteLength (front ++ middle) = stop := by
  unfold slice
  split
  · simp only [Part.mem_coe, Option.mem_def, Option.map_eq_some_iff, Option.bind_eq_some_iff]
    constructor
    · rintro ⟨⟨front, _⟩, ⟨⟨kept, back⟩, hcut, hcut'⟩, rfl⟩
      obtain ⟨rfl, hstop⟩ := cutAt?_eq_some_iff.1 hcut
      obtain ⟨rfl, hstart⟩ := cutAt?_eq_some_iff.1 hcut'
      exact ⟨front, back, List.append_assoc _ _ _, hstart, hstop⟩
    · rintro ⟨front, back, rfl, hstart, hstop⟩
      exact ⟨(front, middle), ⟨(front ++ middle, back),
        cutAt?_eq_some_iff.2 ⟨(List.append_assoc _ _ _).symm, hstop⟩,
        cutAt?_eq_some_iff.2 ⟨rfl, hstart⟩⟩, rfl⟩
  · next hlt =>
    refine iff_of_false (Part.notMem_none _) ?_
    rintro ⟨front, back, -, rfl, rfl⟩
    rw [byteLength_append] at hlt
    omega

lemma slice_eq_some {text front middle back : List Char} {start stop : Nat}
    (h : text = front ++ (middle ++ back)) (hstart : byteLength front = start)
    (hstop : byteLength (front ++ middle) = stop) : slice text start stop = Part.some middle :=
  Part.eq_some_iff.2 (mem_slice_iff.2 ⟨front, back, h, hstart, hstop⟩)

/-- The text before a byte. -/
lemma slice_front (front back : List Char) :
    slice (front ++ back) 0 (byteLength front) = Part.some front :=
  Part.eq_some_iff.2 (mem_slice_iff.2 ⟨[], back, rfl, rfl, rfl⟩)

/-- The text from a byte on. -/
lemma slice_back (front back : List Char) :
    slice (front ++ back) (byteLength front) (byteLength (front ++ back)) = Part.some back :=
  slice_eq_some (by rw [List.append_nil]) rfl rfl

/-- The end of a text that is cut twice by number. -/
lemma slice_take {i j : Nat} (h : i ≤ j) (text : List Char) :
    slice text (byteLength (text.take i)) (byteLength (text.take j)) =
      Part.some ((text.take j).drop i) := by
  have htake : text.take j = text.take i ++ (text.take j).drop i := by
    conv_lhs => rw [← List.take_append_drop i (text.take j), List.take_take, Nat.min_eq_left h]
  have htext : text = text.take i ++ ((text.take j).drop i ++ text.drop j) := by
    rw [← List.append_assoc, ← htake, List.take_append_drop]
  exact slice_eq_some htext rfl (by rw [← htake])

/-- Before and behind a character of one byte. -/
lemma slices_around {text front back : List Char} {c : Char} (h : text = front ++ c :: back)
    (hc : c.utf8Size = 1) :
    slice text 0 (byteLength front) = Part.some front ∧
      slice text (byteLength front + 1) (byteLength text) = Part.some back := by
  subst h
  refine ⟨slice_front _ _, ?_⟩
  have hback := slice_back (front ++ [c]) back
  rwa [List.append_assoc, byteLength_append front, byteLength_cons, hc] at hback

/-! ## Where a character stands -/

/-- The byte at which a character first stands. -/
def firstOffset? (c : Char) : List Char → Option Nat
  | [] => none
  | d :: ds => if d = c then some 0 else (firstOffset? c ds).map (d.utf8Size + ·)

/-- The byte at which a character last stands. -/
def lastOffset? (c : Char) : List Char → Option Nat
  | [] => none
  | d :: ds =>
    match lastOffset? c ds with
    | some n => some (d.utf8Size + n)
    | none => if d = c then some 0 else none

variable {c : Char}

lemma firstOffset?_eq_none {text : List Char} (h : c ∉ text) : firstOffset? c text = none := by
  induction text with
  | nil => rfl
  | cons d ds ih =>
    obtain ⟨hd, hds⟩ := List.ne_and_not_mem_of_not_mem_cons h
    rw [firstOffset?, if_neg (Ne.symm hd), ih hds]
    rfl

lemma firstOffset?_append {front : List Char} (h : c ∉ front) (back : List Char) :
    firstOffset? c (front ++ c :: back) = some (byteLength front) := by
  induction front with
  | nil => exact if_pos rfl
  | cons d ds ih =>
    obtain ⟨hd, hds⟩ := List.ne_and_not_mem_of_not_mem_cons h
    rw [List.cons_append, firstOffset?, if_neg (Ne.symm hd), ih hds, byteLength_cons]
    rfl

lemma lastOffset?_eq_none {text : List Char} (h : c ∉ text) : lastOffset? c text = none := by
  induction text with
  | nil => rfl
  | cons d ds ih =>
    obtain ⟨hd, hds⟩ := List.ne_and_not_mem_of_not_mem_cons h
    rw [lastOffset?, ih hds]
    exact if_neg (Ne.symm hd)

lemma lastOffset?_append {back : List Char} (h : c ∉ back) (front : List Char) :
    lastOffset? c (front ++ c :: back) = some (byteLength front) := by
  induction front with
  | nil =>
    rw [List.nil_append, lastOffset?, lastOffset?_eq_none h]
    exact if_pos rfl
  | cons d ds ih => rw [List.cons_append, lastOffset?, ih, byteLength_cons]

/-! ## Characters by number -/

/-- **The characters of a text** behind some bytes, each with the byte at which it begins. -/
def charIndices : Nat → List Char → List (Nat × Char)
  | _, [] => []
  | skipped, c :: cs => (skipped, c) :: charIndices (skipped + c.utf8Size) cs

/-- The character with a number, and the byte at which it begins. -/
def charAt? (text : List Char) (i : Nat) : Option (Nat × Char) := (charIndices 0 text)[i]?

/-- The byte at which the character with a number begins, or at which the text ends. -/
def offsetAt (text : List Char) (i : Nat) : Nat := (charAt? text i).elim (byteLength text) (·.1)

lemma getElem?_charIndices (skipped : Nat) (text : List Char) (i : Nat) :
    (charIndices skipped text)[i]? =
      text[i]?.map fun c => (skipped + byteLength (text.take i), c) := by
  induction text generalizing skipped i with
  | nil => rfl
  | cons d ds ih =>
    cases i with
    | zero => rfl
    | succ i =>
      rw [charIndices, List.getElem?_cons_succ, List.getElem?_cons_succ, ih, List.take_succ_cons,
        byteLength_cons, Nat.add_assoc]

lemma charAt?_eq (text : List Char) (i : Nat) :
    charAt? text i = text[i]?.map fun c => (byteLength (text.take i), c) := by
  rw [charAt?, getElem?_charIndices]
  simp only [Nat.zero_add]

lemma offsetAt_eq (text : List Char) (i : Nat) : offsetAt text i = byteLength (text.take i) := by
  rw [offsetAt, charAt?_eq]
  cases h : text[i]? with
  | none => rw [List.take_of_length_le (List.getElem?_eq_none_iff.1 h)]; rfl
  | some c => rfl

section Drop

variable {text run rest : List Char} {i : Nat}

lemma charAt?_of_drop_eq_nil (h : text.drop i = []) : charAt? text i = none := by
  rw [charAt?_eq, List.getElem?_eq_none (List.drop_eq_nil_iff.1 h)]
  rfl

lemma charAt?_of_drop (h : text.drop i = c :: rest) :
    charAt? text i = some (byteLength (text.take i), c) := by
  have hget : text[i]? = some c := by
    rw [← List.head?_drop, h]
    rfl
  rw [charAt?_eq, hget]
  rfl

lemma exists_drop_of_charAt? {start : Nat} (h : charAt? text i = some (start, c)) :
    start = byteLength (text.take i) ∧ ∃ rest, text.drop i = c :: rest := by
  cases hdrop : text.drop i with
  | nil =>
    rw [charAt?_of_drop_eq_nil hdrop] at h
    cases h
  | cons d rest =>
    rw [charAt?_of_drop hdrop] at h
    cases h
    exact ⟨rfl, rest, rfl⟩

/-- Behind a run of characters stands the rest. -/
lemma drop_add_length (h : text.drop i = run ++ rest) : text.drop (i + run.length) = rest := by
  rw [← List.drop_drop, h, List.drop_left]

/-- Behind one character, too. -/
lemma drop_succ (h : text.drop i = c :: rest) : text.drop (i + 1) = rest := by
  rw [← List.drop_drop, h, List.drop_one, List.tail_cons]

lemma take_add_length (h : text.drop i = run ++ rest) :
    text.take (i + run.length) = text.take i ++ run := by
  rw [List.take_add, h, List.take_left]

/-- A character of ASCII takes one byte. -/
lemma byteLength_take_succ (h : text.drop i = c :: rest) (hc : c.utf8Size = 1) :
    byteLength (text.take (i + 1)) = byteLength (text.take i) + 1 := by
  have htake : text.take (i + 1) = text.take i ++ [c] := by
    rw [List.take_add, h, List.take_succ_cons, List.take_zero]
  rw [htake, byteLength_append, byteLength_cons, hc, byteLength_nil]

/-- **The slice between two characters** that are given by their number. -/
lemma slice_of_drop (h : text.drop i = run ++ rest) :
    slice text (byteLength (text.take i)) (byteLength (text.take (i + run.length))) =
      Part.some run := by
  have htext : text = text.take i ++ (run ++ rest) := by rw [← h, List.take_append_drop]
  exact slice_eq_some htext rfl (by rw [take_add_length h])

end Drop

end PagedTopK.Text
