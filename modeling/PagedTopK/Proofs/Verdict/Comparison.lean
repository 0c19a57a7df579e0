import Mathlib.Data.List.Forall2
import PagedTopK.Proofs.Verdict.Fingerprint
import PagedTopK.Proofs.Verdict.Tally

set_option autoImplicit false

/-!
# What a verdict says

A comparison goes by the fingerprints of rows, but unless two different texts have one digest its
verdict is about solutions: a result is correct if it has the same solutions as the reference, each
as many times, and otherwise the verdict counts what is missing and shows the first solution that
should not be there.

## Main definitions

* `Verdict.IsFirst` — whether a value shows the first solution of a kind.
* `Verdict.Describes` — what a verdict says about two lists of solutions.
* `Verdict.Progress.Checked` — where a comparison stands after some solutions.

## Main results

* `Verdict.Progress.Checked.check`, `Verdict.Progress.Checked.checkAll` — one row, and all rows.
* `Verdict.compare_describes` — the verdict on rows describes the solutions that they are rows of.
* `Verdict.compare_decides_multiset_equality` — neither the order of rows nor that of bindings
  counts, and neither does which side is the reference.
-/

namespace PagedTopK

namespace Verdict

/-! ## The first solution of a kind -/

/-- No solution is of a kind, in its place after those before it. -/
def Never (P : List Solution → Solution → Prop) (solutions : List Solution) : Prop :=
  ∀ before s after, solutions = before ++ s :: after → ¬P before s

/-- **A value shows the first solution of a kind**, or there is none of it. -/
def IsFirst (P : List Solution → Solution → Prop) (solutions : List Solution) :
    Option Json → Prop
  | none => Never P solutions
  | some value => ∃ before s after, solutions = before ++ s :: after ∧ P before s ∧
      Never P before ∧ value = Report.solutionJson s

/-- The reference does not have a solution at all. -/
def IsForeign (reference _before : List Solution) (s : Solution) : Prop := s ∉ reference

/-- The reference has a solution, but not as often as it has come by now. -/
def IsExcess (reference before : List Solution) (s : Solution) : Prop :=
  s ∈ reference ∧ reference.count s < (before ++ [s]).count s

/-- **What a verdict says about two lists of solutions.** -/
structure Describes (v : Verdict) (reference actual : List Solution) : Prop where
  /-- The result is correct if both have the same solutions, each as many times. -/
  correct_iff : v.correct = true ↔ (reference : Multiset Solution) = (actual : Multiset Solution)
  /-- What is missing is the difference of the two. -/
  missing : v.missingSolutions =
    Multiset.card ((reference : Multiset Solution) - (actual : Multiset Solution))
  /-- The first solution that the reference does not have. -/
  unexpected : IsFirst (IsForeign reference) actual v.firstUnexpected
  /-- The first solution that comes more often than in the reference. -/
  duplicated : IsFirst (IsExcess reference) actual v.firstDuplicated
  /-- The result is correct if there is nothing to show. -/
  correct_iff_nothing : v.correct = true ↔
    v.missingSolutions = 0 ∧ v.firstUnexpected = none ∧ v.firstDuplicated = none

variable {P : List Solution → Solution → Prop} {R A B : List Solution} {s : Solution}
  {shown : Option Json}

lemma never_nil : Never P [] := fun before s after h => by
  cases before <;> cases h

/-- One more solution at the end is one more place. -/
lemma never_concat : Never P (A ++ [s]) ↔ Never P A ∧ ¬P A s := by
  constructor
  · intro h
    refine ⟨fun before t after ht => ?_, h A s [] rfl⟩
    exact h before t (after ++ [s]) (by rw [ht, List.append_assoc, List.cons_append])
  · rintro ⟨hbefore, hs⟩ before t after ht
    rcases List.eq_nil_or_concat after with rfl | ⟨front, last, rfl⟩
    · obtain ⟨rfl, hst⟩ := List.append_inj' ht rfl
      cases hst
      exact hs
    · rw [List.concat_eq_append, ← List.cons_append, ← List.append_assoc] at ht
      exact hbefore before t front (List.append_inj' ht rfl).1

namespace IsFirst

lemma eq_none_iff (h : IsFirst P A shown) : shown = none ↔ Never P A := by
  cases shown with
  | none => exact iff_of_true rfl h
  | some value =>
    obtain ⟨before, s, after, hA, hs, -, -⟩ := h
    exact iff_of_false nofun fun hnever => hnever before s after hA hs

/-- **A solution of the kind** is shown if none was before. -/
lemma concat_of_holds (h : IsFirst P A shown) (hs : P A s) :
    IsFirst P (A ++ [s]) (shown.or (some (Report.solutionJson s))) := by
  cases shown with
  | none => exact ⟨A, s, [], rfl, hs, h, rfl⟩
  | some value =>
    obtain ⟨before, t, after, rfl, ht, hnever, hvalue⟩ := h
    exact ⟨before, t, after ++ [s], by rw [List.append_assoc, List.cons_append], ht, hnever, hvalue⟩

/-- **A solution that is not of the kind** changes nothing. -/
lemma concat_of_not (h : IsFirst P A shown) (hs : ¬P A s) : IsFirst P (A ++ [s]) shown := by
  cases shown with
  | none => exact never_concat.2 ⟨h, hs⟩
  | some value =>
    obtain ⟨before, t, after, rfl, ht, hnever, hvalue⟩ := h
    exact ⟨before, t, after ++ [s], by rw [List.append_assoc, List.cons_append], ht, hnever, hvalue⟩

end IsFirst

/-! ## Fingerprints instead of solutions -/

section Fingerprints

variable {S : Set Solution}

/-- A fingerprint comes as often as its solution. -/
lemma count_fingerprint (hS : Set.InjOn Solution.fingerprint S) (hA : ∀ t ∈ A, t ∈ S)
    (hs : s ∈ S) : (A.map Solution.fingerprint).count s.fingerprint = A.count s := by
  rw [List.count, List.countP_map, List.count]
  refine List.countP_congr fun t ht => ?_
  rw [Function.comp_apply, beq_iff_eq, beq_iff_eq]
  exact hS.eq_iff (hA t ht) hs

lemma fingerprint_mem_iff (hS : Set.InjOn Solution.fingerprint S) (hA : ∀ t ∈ A, t ∈ S)
    (hs : s ∈ S) : s.fingerprint ∈ A.map Solution.fingerprint ↔ s ∈ A := by
  rw [← List.count_pos_iff, count_fingerprint hS hA hs, List.count_pos_iff]

/-- The difference of the fingerprints is that of the solutions. -/
lemma fingerprint_sub (hS : Set.InjOn Solution.fingerprint S) {X Y : Multiset Solution}
    (hX : ∀ t ∈ X, t ∈ S) (hY : ∀ t ∈ Y, t ∈ S) :
    (X - Y).map Solution.fingerprint = X.map Solution.fingerprint - Y.map Solution.fingerprint := by
  induction Y using Multiset.induction generalizing X with
  | empty => simp
  | cons s Y ih =>
    obtain ⟨hs, hY⟩ := Multiset.forall_mem_cons.1 hY
    rw [Multiset.sub_cons, Multiset.map_cons, Multiset.sub_cons,
      ih (fun t ht => hX t (Multiset.mem_of_mem_erase ht)) hY]
    congr 1
    by_cases hmem : s ∈ X
    · exact Multiset.map_erase_of_mem _ _ hmem
    · have hprint : s.fingerprint ∉ X.map Solution.fingerprint := by
        rintro hprint
        obtain ⟨t, ht, heq⟩ := Multiset.mem_map.1 hprint
        exact hmem (hS (hX t ht) hs heq ▸ ht)
      rw [Multiset.erase_of_notMem hmem, Multiset.erase_of_notMem hprint]

end Fingerprints

/-! ## Checking off rows -/

namespace Progress

/-- **Where a comparison stands** after some solutions. -/
structure Checked (reference actual : List Solution) (p : Progress) : Prop where
  /-- What is still expected. -/
  expected : p.expected.Counts (reference.map Solution.fingerprint)
    (actual.map Solution.fingerprint)
  /-- The first row that the reference does not have. -/
  unexpected : IsFirst (IsForeign reference) actual (p.unexpected.map Row.canonical)
  /-- The first row that has come too often. -/
  duplicated : IsFirst (IsExcess reference) actual (p.duplicated.map Row.canonical)

variable {S : Set Solution} {p : Progress} {row : Row} {rows : List Row}

/-- Before the first row everything is expected. -/
lemma checked_nil (R : List Solution) :
    Checked R [] ⟨.ofNames (R.map Solution.fingerprint), none, none⟩ :=
  ⟨Tally.counts_ofNames _, never_nil, never_nil⟩

/-- **One more row.** -/
lemma Checked.check (h : Checked R A p) (hS : Set.InjOn Solution.fingerprint S)
    (hR : ∀ t ∈ R, t ∈ S) (hA : ∀ t ∈ A, t ∈ S) (hs : s ∈ S) (hrow : row.IsOf s) :
    Checked R (A ++ [s]) (p.check row) := by
  have hlookup := h.expected.lookup s.fingerprint
  rw [count_fingerprint hS hR hs, count_fingerprint hS hA hs] at hlookup
  have hnames : (A ++ [s]).map Solution.fingerprint =
      A.map Solution.fingerprint ++ [s.fingerprint] := List.map_append
  rw [Progress.check, hrow.fingerprint, hlookup]
  by_cases hmem : s ∈ R
  · have hexpected := (fingerprint_mem_iff hS hR hs).2 hmem
    have hcount : (A ++ [s]).count s = A.count s + 1 := by
      rw [List.count_append, List.count_singleton_self]
    rw [if_pos hexpected]
    refine ⟨hnames ▸ h.expected.checkOff hexpected,
      h.unexpected.concat_of_not fun hforeign => hforeign hmem, ?_⟩
    dsimp only
    split
    · next hlow =>
      rw [Option.map_or, Option.map_some, hrow.canonical]
      exact h.duplicated.concat_of_holds ⟨hmem, by omega⟩
    · next hleft =>
      refine h.duplicated.concat_of_not fun hexcess => hleft ?_
      have hlt := hexcess.2
      omega
  · have hforeign := (fingerprint_mem_iff hS hR hs).not.2 hmem
    rw [if_neg hforeign]
    refine ⟨hnames ▸ h.expected.skip hforeign, ?_,
      h.duplicated.concat_of_not fun hexcess => hmem hexcess.1⟩
    rw [Option.map_or, Option.map_some, hrow.canonical]
    exact h.unexpected.concat_of_holds hmem

/-- **All rows.** -/
lemma Checked.checkAll (h : Checked R A p) (hS : Set.InjOn Solution.fingerprint S)
    (hR : ∀ t ∈ R, t ∈ S) (hA : ∀ t ∈ A, t ∈ S) (hB : ∀ t ∈ B, t ∈ S)
    (hrows : List.Forall₂ Row.IsOf rows B) : Checked R (A ++ B) (rows.foldl Progress.check p) := by
  induction hrows generalizing A p with
  | nil => rwa [List.append_nil]
  | @cons row s rows B hrow _ ih =>
    obtain ⟨hs, hB⟩ := List.forall_mem_cons.1 hB
    rw [List.append_cons]
    refine ih (h.check hS hR hA hs hrow) (fun t ht => ?_) hB
    rcases List.mem_append.1 ht with ht | ht
    · exact hA t ht
    · exact List.mem_singleton.1 ht ▸ hs

end Progress

/-! ## The verdict -/

/-- Nothing in excess means that nothing comes more often than in the reference. -/
lemma count_le_of_never (h : Never (IsExcess R) A) (hs : s ∈ R) : A.count s ≤ R.count s := by
  induction A using List.reverseRecOn with
  | nil => exact Nat.zero_le _
  | append_singleton A t ih =>
    obtain ⟨hbefore, ht⟩ := never_concat.1 h
    by_cases hst : t = s
    · subst hst
      exact Nat.le_of_not_lt fun hlt => ht ⟨hs, hlt⟩
    · rw [List.count_append, List.count_singleton, if_neg (by simpa using hst), add_zero]
      exact ih hbefore

/-- Neither is there anything in excess where both have each solution as many times. -/
lemma never_excess_of_count_eq (h : ∀ s ∈ R, R.count s = A.count s) : Never (IsExcess R) A := by
  rintro before s after rfl ⟨hs, hlt⟩
  have hle : (before ++ [s]).count s ≤ (before ++ s :: after).count s := by
    rw [List.append_cons before s after]
    exact (List.sublist_append_left _ after).count_le s
  exact absurd (h s hs) (by omega)

lemma never_foreign_iff : Never (IsForeign R) A ↔ ∀ s ∈ A, s ∈ R := by
  constructor
  · intro h s hs
    obtain ⟨before, after, rfl⟩ := List.append_of_mem hs
    exact not_not.1 (h before s after rfl)
  · rintro h before s after rfl
    exact not_not.2 (h s (by simp))

/-- Two lists with the same solutions are equal as multisets if each comes as many times. -/
lemma coe_eq_coe_iff : (R : Multiset Solution) = (A : Multiset Solution) ↔
    (∀ s ∈ A, s ∈ R) ∧ ∀ s ∈ R, R.count s = A.count s := by
  rw [Multiset.coe_eq_coe, List.perm_iff_count]
  constructor
  · intro h
    refine ⟨fun s hs => ?_, fun s _ => h s⟩
    rw [← List.count_pos_iff, h s]
    exact List.count_pos_iff.2 hs
  · rintro ⟨hsubset, hcount⟩ s
    by_cases hs : s ∈ R
    · exact hcount s hs
    · rw [List.count_eq_zero_of_not_mem hs,
        List.count_eq_zero_of_not_mem fun hmem => hs (hsubset s hmem)]

variable {reference actual : List Row}

lemma fingerprints_eq (h : List.Forall₂ Row.IsOf reference R) :
    reference.map Row.fingerprint = R.map Solution.fingerprint := by
  induction h with
  | nil => rfl
  | cons hrow _ ih => rw [List.map_cons, List.map_cons, hrow.fingerprint, ih]

namespace Progress.Checked

variable {S : Set Solution} {p : Progress}

/-- What is still expected at the end is the difference of the two lists. -/
lemma missing_eq (h : Progress.Checked R A p) (hS : Set.InjOn Solution.fingerprint S)
    (hR : ∀ t ∈ R, t ∈ S) (hA : ∀ t ∈ A, t ∈ S) : p.expected.missing =
      Multiset.card ((R : Multiset Solution) - (A : Multiset Solution)) := by
  rw [h.expected.missing_eq, ← Multiset.map_coe, ← Multiset.map_coe, ← fingerprint_sub hS hR hA,
    Multiset.card_map]

/-- Nothing is left open if each solution of the reference has come as many times. -/
lemma isSettled_iff (h : Progress.Checked R A p) (hS : Set.InjOn Solution.fingerprint S)
    (hR : ∀ t ∈ R, t ∈ S) (hA : ∀ t ∈ A, t ∈ S) :
    p.expected.isSettled = true ↔ ∀ s ∈ R, R.count s = A.count s := by
  rw [h.expected.isSettled_iff, List.forall_mem_map]
  refine forall₂_congr fun s hs => ?_
  rw [count_fingerprint hS hR (hR s hs), count_fingerprint hS hA (hR s hs)]

/-- No row is unexpected if the reference has all of them. -/
lemma isNone_unexpected_iff (h : Progress.Checked R A p) :
    p.unexpected.isNone = true ↔ ∀ s ∈ A, s ∈ R := by
  rw [Option.isNone_iff_eq_none, ← Option.map_eq_none_iff, h.unexpected.eq_none_iff,
    never_foreign_iff]

end Progress.Checked

/-- **The verdict on rows describes the solutions that they are rows of**, unless texts collide.

**Proof sketch.** After all rows the comparison stands where `Progress.Checked` says. Nothing is
left open and nothing was unexpected exactly if each solution comes as many times on both sides. If
nothing is missing, unexpected or in excess, each comes at least and at most as many times. -/
theorem compare_describes (hR : List.Forall₂ Row.IsOf reference R)
    (hA : List.Forall₂ Row.IsOf actual A) (hfree : CollisionFree (R ++ A)) :
    (compare reference actual).Describes R A := by
  have hS := hfree.injOn
  have hRS : ∀ t ∈ R, t ∈ {s | s ∈ R ++ A} := fun t ht => List.mem_append_left A ht
  have hAS : ∀ t ∈ A, t ∈ {s | s ∈ R ++ A} := fun t ht => List.mem_append_right R ht
  have hchecked := (Progress.checked_nil R).checkAll hS hRS (List.forall_mem_nil _) hAS hA
  rw [← fingerprints_eq hR, List.nil_append] at hchecked
  have hmissing := hchecked.missing_eq hS hRS hAS
  have hcorrect : (compare reference actual).correct = true ↔
      (R : Multiset Solution) = (A : Multiset Solution) := by
    rw [compare, Bool.and_eq_true, hchecked.isNone_unexpected_iff,
      hchecked.isSettled_iff hS hRS hAS, coe_eq_coe_iff]
  refine ⟨hcorrect, hmissing, hchecked.unexpected, hchecked.duplicated, hcorrect.trans ?_⟩
  have hnothing : (compare reference actual).missingSolutions = 0 ↔
      (R : Multiset Solution) ≤ (A : Multiset Solution) := by
    rw [← tsub_eq_zero_iff_le, ← Multiset.card_eq_zero, ← hmissing]
    rfl
  have hunexpected : (compare reference actual).firstUnexpected = none ↔ ∀ s ∈ A, s ∈ R :=
    hchecked.unexpected.eq_none_iff.trans never_foreign_iff
  have hduplicated : (compare reference actual).firstDuplicated = none ↔ Never (IsExcess R) A :=
    hchecked.duplicated.eq_none_iff
  rw [hnothing, hunexpected, hduplicated]
  constructor
  · intro heq
    obtain ⟨hsubset, hcount⟩ := coe_eq_coe_iff.1 heq
    exact ⟨heq.le, hsubset, never_excess_of_count_eq hcount⟩
  · rintro ⟨hle, hsubset, hnever⟩
    refine coe_eq_coe_iff.2 ⟨hsubset, fun s hs => le_antisymm ?_ (count_le_of_never hnever hs)⟩
    exact (Multiset.coe_le.1 hle).count_le s

/-! ## Orders that do not count -/

/-- **A comparison decides equality of multisets of solutions**: its verdict describes the two lists
of solutions whose bindings the rows list, in any order; whether the result is correct depends
neither on the order of rows nor on which side is the reference. -/
theorem compare_decides_multiset_equality (hR : List.Forall₂ Row.IsOf reference R)
    (hA : List.Forall₂ Row.IsOf actual A) (hfree : CollisionFree (R ++ A)) :
    (compare reference actual).Describes R A ∧
    (compare actual reference).correct = (compare reference actual).correct ∧
    ∀ reference' actual' : List Row, reference'.Perm reference → actual'.Perm actual →
      (compare reference' actual').correct = (compare reference actual).correct := by
  have hdescribes := compare_describes hR hA hfree
  refine ⟨hdescribes, ?_, fun reference' actual' hreference hactual => ?_⟩
  · have hswapped := compare_describes hA hR (hfree.of_perm List.perm_append_comm)
    rw [Bool.eq_iff_iff, hswapped.correct_iff, hdescribes.correct_iff, eq_comm]
  · obtain ⟨R', hR', hperm⟩ := List.perm_comp_forall₂ hreference hR
    obtain ⟨A', hA', hperm'⟩ := List.perm_comp_forall₂ hactual hA
    have hmoved := compare_describes hR' hA' (hfree.of_perm (hperm.append hperm'))
    rw [Bool.eq_iff_iff, hmoved.correct_iff, hdescribes.correct_iff, Multiset.coe_eq_coe.2 hperm,
      Multiset.coe_eq_coe.2 hperm']

/-- A row that comes twice, with its bindings in either order, instead of another one. -/
theorem compare_decides_multiset_equality_of_doubledRow :
    let a : Solution := ⟨[("?s", "a"), ("?x", "1")], by decide⟩
    let b : Solution := ⟨[("?x", "2")], by decide⟩
    let reference : List Row := [[("?s", .text "a"), ("?x", .text "1")], [("?x", .text "2")]]
    let actual : List Row :=
      [[("?x", .text "1"), ("?s", .text "a")], [("?s", .text "a"), ("?x", .text "1")]]
    List.Forall₂ Row.IsOf reference [a, b] ∧ List.Forall₂ Row.IsOf actual [a, a] ∧
    CollisionFree ([a, b] ++ [a, a]) ∧
    (compare reference actual).Describes [a, b] [a, a] ∧
    (compare actual reference).correct = (compare reference actual).correct ∧
    ∀ reference' actual' : List Row, reference'.Perm reference → actual'.Perm actual →
      (compare reference' actual').correct = (compare reference actual).correct := by
  intro a b reference actual
  have hreference : List.Forall₂ Row.IsOf reference [a, b] :=
    .cons (.refl _) (.cons (.refl _) .nil)
  have hactual : List.Forall₂ Row.IsOf actual [a, a] :=
    .cons (.swap _ _ _) (.cons (.refl _) .nil)
  have hdigest : Sha256.digest a.bytes ≠ Sha256.digest b.bytes := by decide +kernel
  have hfree : CollisionFree ([a, b] ++ [a, a]) := by
    have hmem : ∀ s ∈ [a, b] ++ [a, a], s = a ∨ s = b := by simp
    intro s hs t ht heq
    obtain rfl | rfl := hmem s hs <;> obtain rfl | rfl := hmem t ht
    · rfl
    · exact absurd heq hdigest
    · exact absurd heq.symm hdigest
    · rfl
  exact ⟨hreference, hactual, hfree,
    compare_decides_multiset_equality hreference hactual hfree⟩

end Verdict

end PagedTopK
