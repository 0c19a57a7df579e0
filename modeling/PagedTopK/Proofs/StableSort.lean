import Mathlib.Data.List.Induction
import Mathlib.Tactic.Lemma

set_option autoImplicit false

/-!
# Stable sorting, one element at a time

A stable sort of a list that grows at its end puts every new element behind all elements that rank
as good or better. So the first `k` elements of the sort can be kept up to date without looking at
the others again.

## Main definitions

* `insertBehind` — a sorted list with one more element, behind those that rank no worse.

## Main results

* `mergeSort_concat` — the stable sort of a list with one more element at its end.
* `take_insertBehind_take` — the first `k` elements after an insertion depend on the first `k`
  elements before it only.
-/

namespace PagedTopK

variable {α β : Type} {le : α → α → Bool}

/-- **A list with one more element**, behind the leading elements that rank no worse. -/
def insertBehind (le : α → α → Bool) (x : α) (l : List α) : List α :=
  l.takeWhile (le · x) ++ x :: l.dropWhile (le · x)

/-! ## Elements and order -/

lemma perm_insertBehind (x : α) (l : List α) : (insertBehind le x l).Perm (x :: l) := by
  have h : (x :: (l.takeWhile (le · x) ++ l.dropWhile (le · x))).Perm (x :: l) := by
    rw [List.takeWhile_append_dropWhile]
  exact List.perm_middle.trans h

@[simp] lemma length_insertBehind (x : α) (l : List α) :
    (insertBehind le x l).length = l.length + 1 := by
  rw [(perm_insertBehind x l).length_eq, List.length_cons]

/-- Every element from the first one that ranks worse on ranks no better than the new one. -/
lemma le_of_mem_dropWhile (trans : ∀ a b c, le a b → le b c → le a c)
    (total : ∀ a b, le a b || le b a) {x b : α} {l : List α} (hl : l.Pairwise fun a b => le a b)
    (hb : b ∈ l.dropWhile (le · x)) : le x b := by
  have hsorted := hl.sublist (List.dropWhile_sublist (le · x))
  cases hd : l.dropWhile (le · x) with
  | nil => simp [hd] at hb
  | cons head rest =>
    rw [hd] at hb hsorted
    have hne : l.dropWhile (le · x) ≠ [] := by simp [hd]
    have hworse : le head x = false := by
      have h := List.head_dropWhile_not (le · x) hne
      simpa only [hd, List.head_cons] using h
    have hhead : le x head := by simpa [hworse] using total x head
    rcases List.mem_cons.1 hb with rfl | hb
    · exact hhead
    · exact trans _ _ _ hhead (List.rel_of_pairwise_cons hsorted hb)

/-- An insertion keeps a list sorted. -/
lemma pairwise_insertBehind (trans : ∀ a b c, le a b → le b c → le a c)
    (total : ∀ a b, le a b || le b a) (x : α) {l : List α} (hl : l.Pairwise fun a b => le a b) :
    (insertBehind le x l).Pairwise fun a b => le a b := by
  have hbefore : ∀ a ∈ l.takeWhile (le · x), le a x := fun a ha =>
    List.all_eq_true.1 List.all_takeWhile a ha
  have hafter : ∀ b ∈ l.dropWhile (le · x), le x b := fun b hb =>
    le_of_mem_dropWhile trans total hl hb
  refine List.pairwise_append.2 ⟨hl.sublist (List.takeWhile_sublist _), ?_, ?_⟩
  · exact List.pairwise_cons.2 ⟨hafter, hl.sublist (List.dropWhile_sublist _)⟩
  · intro a ha b hb
    rcases List.mem_cons.1 hb with rfl | hb
    · exact hbefore a ha
    · exact trans _ _ _ (hbefore a ha) (hafter b hb)

/-- A list in a strict order stays in it if a new element goes behind all that it is not before. -/
lemma pairwise_insertBehind_of_strict {R : α → α → Prop} {x : α} {l : List α}
    (trans : ∀ {a b c}, R a b → R b c → R a c) (hl : l.Pairwise R)
    (hle : ∀ a ∈ l, le a x = true → R a x) (hgt : ∀ a ∈ l, le a x = false → R x a) :
    (insertBehind le x l).Pairwise R := by
  induction l with
  | nil => exact List.pairwise_singleton R x
  | cons a l ih =>
    obtain ⟨ha, hl'⟩ := List.pairwise_cons.1 hl
    cases hax : le a x with
    | true =>
      have hinsert : insertBehind le x (a :: l) = a :: insertBehind le x l := by
        simp only [insertBehind, List.takeWhile_cons, List.dropWhile_cons, hax, if_true,
          List.cons_append]
      rw [hinsert, List.pairwise_cons]
      refine ⟨fun b hb => ?_, ih hl' (fun b hb => hle b (List.mem_cons_of_mem a hb))
        fun b hb => hgt b (List.mem_cons_of_mem a hb)⟩
      rcases List.mem_cons.1 ((perm_insertBehind x l).subset hb) with rfl | hb
      · exact hle a List.mem_cons_self hax
      · exact ha b hb
    | false =>
      have hfirst := hgt a List.mem_cons_self hax
      have hinsert : insertBehind le x (a :: l) = x :: a :: l := by
        simp only [insertBehind, List.takeWhile_cons, List.dropWhile_cons, hax,
          Bool.false_eq_true, if_false, List.nil_append]
      rw [hinsert, List.pairwise_cons]
      refine ⟨fun b hb => ?_, hl⟩
      rcases List.mem_cons.1 hb with rfl | hb
      · exact hfirst
      · exact trans hfirst (ha b hb)

/-- The leading elements that pass a test, under a map that keeps the test. -/
lemma takeWhile_map_of_eq {p : α → Bool} {q : β → Bool} {f : α → β} {l : List α}
    (h : ∀ a ∈ l, p a = q (f a)) : (l.map f).takeWhile q = (l.takeWhile p).map f := by
  induction l with
  | nil => rfl
  | cons a rest ih =>
    have hrest := ih fun b hb => h b (List.mem_cons_of_mem _ hb)
    rw [List.map_cons, List.takeWhile_cons, List.takeWhile_cons, h a List.mem_cons_self, hrest]
    split <;> rfl

/-- An insertion commutes with a map that keeps the comparisons with the new element. -/
lemma map_insertBehind {le' : β → β → Bool} {f : α → β} {x : α} {l : List α}
    (h : ∀ a ∈ l, le a x = le' (f a) (f x)) :
    (insertBehind le x l).map f = insertBehind le' (f x) (l.map f) := by
  unfold insertBehind
  induction l with
  | nil => rfl
  | cons a rest ih =>
    have ha := h a List.mem_cons_self
    have hrest := ih fun b hb => h b (List.mem_cons_of_mem _ hb)
    cases hax : le a x with
    | true =>
      rw [hax] at ha
      simpa [List.takeWhile_cons, List.dropWhile_cons, hax, ← ha] using hrest
    | false =>
      rw [hax] at ha
      simp [hax, ← ha]

/-! ## The sort of a growing list -/

/-- Numbered elements that rank as good as each other have the same number. -/
lemma snd_eq_of_zipIdxLE {a b : α × Nat} (hab : List.zipIdxLE le a b)
    (hba : List.zipIdxLE le b a) : a.2 = b.2 := by
  unfold List.zipIdxLE at hab hba
  by_cases h1 : le a.1 b.1 <;> by_cases h2 : le b.1 a.1 <;> simp [h1, h2] at hab hba
  omega

/-- **The stable sort of a list with one more element at its end** is the sort of the list with the
new element behind all that rank no worse.

**Proof sketch.** Number the elements and break ties by the numbers, which does not change the sort
(`List.mergeSort_zipIdx`). The order of numbered elements is antisymmetric, so there is only one
sorted list with the same elements, and inserting the last element gives such a list. -/
theorem mergeSort_concat (trans : ∀ a b c, le a b → le b c → le a c)
    (total : ∀ a b, le a b || le b a) (xs : List α) (x : α) :
    (xs ++ [x]).mergeSort le = insertBehind le x (xs.mergeSort le) := by
  have ztrans := List.zipIdxLE_trans trans
  have ztotal := List.zipIdxLE_total total
  set numbered := xs.zipIdx.mergeSort (List.zipIdxLE le) with hnumbered
  have hsorted : numbered.Pairwise fun a b => List.zipIdxLE le a b :=
    List.pairwise_mergeSort ztrans ztotal _
  have hzip : (xs ++ [x]).zipIdx = xs.zipIdx ++ [(x, xs.length)] := by simp [List.zipIdx_append]
  have hinsert : (xs ++ [x]).zipIdx.mergeSort (List.zipIdxLE le) =
      insertBehind (List.zipIdxLE le) (x, xs.length) numbered := by
    refine List.Perm.eq_of_pairwise ?_ (List.pairwise_mergeSort ztrans ztotal _)
      (pairwise_insertBehind ztrans ztotal _ hsorted) ?_
    · intro a b ha hb hab hba
      have hmem : ∀ c ∈ insertBehind (List.zipIdxLE le) (x, xs.length) numbered,
          c ∈ (xs ++ [x]).zipIdx := by
        intro c hc
        rw [(perm_insertBehind _ _).mem_iff, List.mem_cons, hnumbered, List.mem_mergeSort] at hc
        rw [hzip, List.mem_append, List.mem_singleton]
        exact hc.symm
      have ha' := List.mem_zipIdx_iff_getElem?.1 (List.mem_mergeSort.1 ha)
      have hb' := List.mem_zipIdx_iff_getElem?.1 (hmem b hb)
      have hsnd := snd_eq_of_zipIdxLE hab hba
      rw [hsnd, hb'] at ha'
      exact Prod.ext (Option.some.inj ha').symm hsnd
    · rw [hzip]
      refine (List.mergeSort_perm _ _).trans ((List.perm_append_singleton _ _).trans ?_)
      exact ((List.mergeSort_perm _ _).symm.cons _).trans (perm_insertBehind _ _).symm
  have hlast : ∀ a ∈ numbered, List.zipIdxLE le a (x, xs.length) = le a.1 x := by
    intro a ha
    have hlt := List.snd_lt_of_mem_zipIdx (List.mem_mergeSort.1 ha)
    have hle : a.2 ≤ xs.length := by omega
    unfold List.zipIdxLE
    by_cases h1 : le a.1 x <;> simp [h1, hle]
  rw [← List.mergeSort_zipIdx, hinsert, map_insertBehind hlast, hnumbered, List.mergeSort_zipIdx]

/-! ## The first elements -/

/-- **The first `k` elements after an insertion** depend on the first `k` elements before it
only. -/
lemma take_insertBehind_take (x : α) (k : Nat) (l : List α) :
    (insertBehind le x (l.take k)).take k = (insertBehind le x l).take k := by
  unfold insertBehind
  induction l generalizing k with
  | nil => simp
  | cons a rest ih =>
    cases k with
    | zero => simp
    | succ k =>
      cases hax : le a x with
      | true => simpa [List.takeWhile_cons, List.dropWhile_cons, hax] using ih k
      | false =>
        simp only [List.take_succ_cons, List.takeWhile_cons, List.dropWhile_cons, hax]
        cases k <;> simp [List.take_take]

/-- A new element is among the first `k` if fewer than `k` elements rank no worse. -/
lemma mem_take_insertBehind {x : α} {l : List α} (k : Nat) (hx : x ∉ l) :
    x ∈ (insertBehind le x l).take k ↔ (l.takeWhile (le · x)).length < k := by
  have hbefore : x ∉ (l.takeWhile (le · x)).take k := fun h =>
    hx ((List.takeWhile_sublist _).subset (List.mem_of_mem_take h))
  unfold insertBehind
  rw [List.take_append, List.mem_append, or_iff_right hbefore]
  constructor
  · intro h
    by_contra hle
    have hzero : k - (l.takeWhile (le · x)).length = 0 := by omega
    simp [hzero] at h
  · intro h
    obtain ⟨n, hn⟩ : ∃ n, k - (l.takeWhile (le · x)).length = n + 1 :=
      ⟨k - (l.takeWhile (le · x)).length - 1, by omega⟩
    rw [hn, List.take_succ_cons]
    exact List.mem_cons_self

/-- If all of `k` elements rank no worse, a new one changes nothing among the first `k`. -/
lemma take_insertBehind_of_le {x : α} {l : List α} {k : Nat} (hl : l.length ≤ k)
    (h : k ≤ (l.takeWhile (le · x)).length) : (insertBehind le x l).take k = l := by
  have hle := (List.takeWhile_sublist (l := l) (le · x)).length_le
  have hall : l.takeWhile (le · x) = l :=
    (List.takeWhile_sublist _).eq_of_length (by omega)
  have hk : k = l.length := by omega
  unfold insertBehind
  rw [hall, hk, List.take_left]

/-- What passes a test in front goes no further than to a last element that fails it. -/
lemma takeWhile_concat_of_neg {p : α → Bool} {last : α} (h : p last = false) (l : List α) :
    (l ++ [last]).takeWhile p = l.takeWhile p := by
  induction l with
  | nil => simp [h]
  | cons a l ih => simp only [List.cons_append, List.takeWhile_cons, ih]

/-- A new element goes before a last element that ranks worse. -/
lemma insertBehind_concat {x last : α} (h : le last x = false) (l : List α) :
    insertBehind le x (l ++ [last]) = insertBehind le x l ++ [last] := by
  have hdrop : (l ++ [last]).dropWhile (le · x) = l.dropWhile (le · x) ++ [last] := by
    induction l with
    | nil => simp [h]
    | cons a l ih => cases hax : le a x <;> simp [hax, ih]
  have htake := takeWhile_concat_of_neg (p := (le · x)) h l
  rw [insertBehind, insertBehind, htake, hdrop, List.append_assoc, List.cons_append]

end PagedTopK
