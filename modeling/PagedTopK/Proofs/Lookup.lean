import Mathlib.Logic.Basic
import Mathlib.Tactic.Lemma

set_option autoImplicit false

/-!
# Look-ups in lists of named values

The bindings of a solution, the members of an object and the counts of a tally are lists of values
with names. What is found under a name is the first value of that name.

## Main results

* `lookup_cons_ite`, `lookup_map`, `lookup_filter` — look-ups in longer, changed and filtered lists.
* `lookup_eq_some_iff`, `lookup_reverse` — where names are distinct, what is found is what stands in
  the list, from whichever end it is looked up.
-/

namespace PagedTopK

variable {α : Type} {values : List (String × α)} {name : String} {v : α}

/-- The first value is found under its own name. -/
lemma lookup_cons_ite (name own : String) (v : α) (rest : List (String × α)) :
    ((own, v) :: rest).lookup name = if name = own then some v else rest.lookup name := by
  by_cases h : name = own
  · simp [h]
  · simp [List.lookup_cons, beq_eq_false_iff_ne.2 h, h]

/-- A changed value is found under its old name. -/
lemma lookup_map {β : Type} (f : α → β) (name : String) (values : List (String × α)) :
    (values.map fun b => (b.1, f b.2)).lookup name = (values.lookup name).map f := by
  induction values with
  | nil => rfl
  | cons b rest ih =>
    obtain ⟨own, v⟩ := b
    rw [List.map_cons, lookup_cons_ite, lookup_cons_ite, ih]
    split <;> rfl

/-- Among the values that are kept a name is found as before. -/
lemma lookup_filter (keep : String → Bool) (name : String) (values : List (String × α)) :
    (values.filter fun b => keep b.1).lookup name =
      if keep name then values.lookup name else none := by
  induction values with
  | nil => simp
  | cons b rest ih =>
    obtain ⟨own, v⟩ := b
    rw [List.filter_cons]
    by_cases hname : name = own
    · subst hname
      by_cases hk : keep name <;> simp [hk, ih]
    · by_cases hk : keep own <;> simp [hk, hname, ih, lookup_cons_ite]

/-- What is found under a name stands there. -/
lemma mem_of_lookup (h : values.lookup name = some v) : (name, v) ∈ values := by
  obtain ⟨front, back, rfl, -⟩ := List.lookup_eq_some_iff.1 h
  simp

/-- Where names are distinct, what is found under a name is what stands there. -/
lemma lookup_eq_some_iff (h : (values.map (·.1)).Nodup) :
    values.lookup name = some v ↔ (name, v) ∈ values := by
  refine ⟨mem_of_lookup, fun hmem => ?_⟩
  induction values with
  | nil => cases hmem
  | cons m rest ih =>
    obtain ⟨own, w⟩ := m
    rw [List.map_cons, List.nodup_cons] at h
    rcases List.mem_cons.1 hmem with heq | hrest
    · cases heq
      exact List.lookup_cons_self
    · have hne : name ≠ own := fun hname => h.1 (List.mem_map.2 ⟨_, hrest, hname⟩)
      rw [List.lookup_cons, beq_eq_false_iff_ne.2 hne]
      exact ih h.2 hrest

/-- Where names are distinct, a name is found from either end. -/
lemma lookup_reverse (h : (values.map (·.1)).Nodup) (name : String) :
    values.reverse.lookup name = values.lookup name := by
  have hreverse : (values.reverse.map (·.1)).Nodup := by
    rw [List.map_reverse]
    exact List.pairwise_reverse.2 (h.imp Ne.symm)
  refine Option.ext fun v => ?_
  rw [lookup_eq_some_iff h, lookup_eq_some_iff hreverse, List.mem_reverse]

/-- A name under which something is found is the name of a value. -/
lemma isSome_lookup : (values.lookup name).isSome = true ↔ name ∈ values.map (·.1) := by
  rw [Option.isSome_iff_ne_none, ne_eq, List.lookup_eq_none_iff, List.mem_map]
  simp only [bne_iff_ne, ne_eq, not_forall, not_not, exists_prop]
  exact exists_congr fun m => and_congr_right fun _ => eq_comm

end PagedTopK
