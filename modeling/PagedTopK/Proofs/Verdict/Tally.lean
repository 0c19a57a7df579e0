import Mathlib.Algebra.BigOperators.Group.Finset.Basic
import PagedTopK.Proofs.Lookup
import PagedTopK.Verdict.Basic

set_option autoImplicit false

/-!
# Tallies

A tally starts with how often each of some names occurs. Every name that comes later is checked off,
if it is one of them, and its count is then how much more often it was expected than it came.

## Main definitions

* `Tally.Counts` — what a tally holds after some names have been checked off.

## Main results

* `Tally.counts_ofNames`, `Tally.Counts.checkOff`, `Tally.Counts.skip` — the first tally, and what
  one more name makes of it.
* `Tally.Counts.missing_eq` — what is missing is the difference of the two multisets of names.
* `Tally.Counts.isSettled_iff` — nothing is left open if every expected name came as often as
  expected.
-/

namespace PagedTopK.Tally

variable {t : Tally} {N M : List String} {name : String} {k : Int}

/-- **What a tally of the names `N` holds** after the names `M` have come: for each of `N` how much
more often it is there. -/
structure Counts (t : Tally) (N M : List String) : Prop where
  /-- No name is counted twice. -/
  nodup : (t.map (·.1)).Nodup
  /-- Names of `N` are counted, and no others. -/
  lookup (name : String) :
    t.lookup name = if name ∈ N then some ((N.count name : Int) - M.count name) else none

/-! ## Adding to a count -/

/-- What is found after a count has changed. -/
lemma lookup_add (t : Tally) (name other : String) (k : Int) :
    (t.add name k).lookup other =
      if other = name then some ((t.lookup name).getD 0 + k) else t.lookup other := by
  induction t with
  | nil => simp [add, lookup_cons_ite]
  | cons e rest ih =>
    obtain ⟨own, count⟩ := e
    by_cases hown : own = name
    · subst hown
      by_cases hother : other = own <;> simp [add, lookup_cons_ite, hother]
    · rw [add, if_neg hown, lookup_cons_ite, ih, lookup_cons_ite, lookup_cons_ite,
        if_neg (Ne.symm hown)]
      by_cases hother : other = own
      · rw [if_pos hother, if_pos hother, if_neg (hother ▸ hown)]
      · rw [if_neg hother, if_neg hother]

/-- A name that is counted already is not listed again. -/
lemma names_add (t : Tally) (name : String) (k : Int) :
    (t.add name k).map (·.1) =
      if name ∈ t.map (·.1) then t.map (·.1) else t.map (·.1) ++ [name] := by
  induction t with
  | nil => rfl
  | cons e rest ih =>
    by_cases hown : e.1 = name
    · simp [add, hown]
    · have hne : name ≠ e.1 := Ne.symm hown
      rw [add, if_neg hown, List.map_cons, List.map_cons, ih]
      by_cases hrest : name ∈ rest.map (·.1)
      · rw [if_pos hrest, if_pos (List.mem_cons_of_mem _ hrest)]
      · rw [if_neg hrest, if_neg (by rw [List.mem_cons, not_or]; exact ⟨hne, hrest⟩),
          List.cons_append]

lemma nodup_add (h : (t.map (·.1)).Nodup) : ((t.add name k).map (·.1)).Nodup := by
  rw [names_add]
  split
  · exact h
  · next hname => exact h.append (List.nodup_singleton name) (List.disjoint_singleton.2 hname)

/-! ## Tallies of names -/

lemma counts_nil : Counts [] [] [] := ⟨.nil, fun _ => rfl⟩

/-- One more name is expected. -/
lemma Counts.expect (h : t.Counts N []) (name : String) :
    (t.add name 1).Counts (N ++ [name]) [] := by
  refine ⟨nodup_add h.nodup, fun other => ?_⟩
  rw [lookup_add, h.lookup, h.lookup]
  by_cases hother : other = name
  · subst hother
    by_cases hmem : other ∈ N
    · simp [hmem, List.count_append]
    · simp [hmem, List.count_append, List.count_eq_zero_of_not_mem hmem]
  · simp [hother, List.count_append, Ne.symm hother]

/-- **The tally of names** before any of them has come. -/
lemma counts_ofNames (names : List String) : (ofNames names).Counts names [] := by
  induction names using List.reverseRecOn with
  | nil => exact counts_nil
  | append_singleton names name ih =>
    rw [ofNames, List.foldl_append, List.foldl_cons, List.foldl_nil]
    exact ih.expect name

/-- **An expected name has come.** -/
lemma Counts.checkOff (h : t.Counts N M) (hname : name ∈ N) :
    (t.add name (-1)).Counts N (M ++ [name]) := by
  refine ⟨nodup_add h.nodup, fun other => ?_⟩
  rw [lookup_add, h.lookup, h.lookup, if_pos hname]
  by_cases hother : other = name
  · subst hother
    rw [if_pos rfl, if_pos hname, List.count_append, List.count_singleton_self, Option.getD_some]
    congr 1
    omega
  · simp [hother, List.count_append, Ne.symm hother]

/-- **A name has come that is not expected.** -/
lemma Counts.skip (h : t.Counts N M) (hname : name ∉ N) : t.Counts N (M ++ [name]) := by
  refine ⟨h.nodup, fun other => ?_⟩
  rw [h.lookup]
  by_cases hmem : other ∈ N
  · have hne : name ≠ other := fun heq => hname (heq ▸ hmem)
    simp [hmem, List.count_append, hne]
  · rw [if_neg hmem, if_neg hmem]

/-! ## What is left over -/

lemma Counts.mem_names_iff (h : t.Counts N M) : name ∈ t.map (·.1) ↔ name ∈ N := by
  rw [← isSome_lookup, h.lookup]
  by_cases hmem : name ∈ N <;> simp [hmem]

lemma Counts.count_eq (h : t.Counts N M) {e : String × Int} (he : e ∈ t) :
    e.2 = (N.count e.1 : Int) - M.count e.1 := by
  have hfound := (lookup_eq_some_iff h.nodup).2 he
  rw [h.lookup, if_pos (h.mem_names_iff.1 (List.mem_map_of_mem he))] at hfound
  exact (Option.some.inj hfound).symm

/-- **What is missing** is the difference of the two multisets of names. -/
theorem Counts.missing_eq (h : t.Counts N M) :
    t.missing = Multiset.card ((N : Multiset String) - (M : Multiset String)) := by
  have hnames : (t.map (·.1)).toFinset = N.toFinset := by
    ext name
    rw [List.mem_toFinset, List.mem_toFinset, h.mem_names_iff]
  have hle : ∀ name ∈ (N : Multiset String) - (M : Multiset String), name ∈ N.toFinset := by
    intro name hname
    exact List.mem_toFinset.2 (Multiset.mem_of_le (Multiset.sub_le_self _ _) hname)
  calc t.missing
      = (t.map fun e => e.2.toNat).sum := by rw [missing, List.sum, List.foldr_map]
    _ = (t.map fun e => N.count e.1 - M.count e.1).sum := by
        refine congrArg List.sum (List.map_congr_left fun e he => ?_)
        rw [h.count_eq he]
        omega
    _ = ((t.map (·.1)).map fun name => N.count name - M.count name).sum := by
        rw [List.map_map]
        rfl
    _ = ∑ name ∈ N.toFinset, (N.count name - M.count name) := by
        rw [← List.sum_toFinset _ h.nodup, hnames]
    _ = ∑ name ∈ N.toFinset, ((N : Multiset String) - (M : Multiset String)).count name := by
        simp only [Multiset.count_sub, Multiset.coe_count]
    _ = Multiset.card ((N : Multiset String) - (M : Multiset String)) :=
        Multiset.sum_count_eq_card hle

/-- **Nothing is left open** if every expected name has come as often as expected. -/
theorem Counts.isSettled_iff (h : t.Counts N M) :
    t.isSettled = true ↔ ∀ name ∈ N, N.count name = M.count name := by
  rw [isSettled, List.all_eq_true]
  constructor
  · intro hall name hname
    obtain ⟨e, he, rfl⟩ := List.mem_map.1 (h.mem_names_iff.2 hname)
    have hzero := beq_iff_eq.1 (hall e he)
    rw [h.count_eq he] at hzero
    omega
  · intro hall e he
    have hcount := hall e.1 (h.mem_names_iff.1 (List.mem_map_of_mem he))
    rw [beq_iff_eq, h.count_eq he, hcount, sub_self]

end PagedTopK.Tally
