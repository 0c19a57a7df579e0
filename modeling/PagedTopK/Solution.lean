set_option autoImplicit false

/-!
# Solutions

A solution is one row of query results: a finite map from variable names to terms, listed in the
order of the names. Two solutions with the same bindings are equal.

## Main definitions

* `Solution` — bindings in strictly increasing order of names.
* `Solution.get?`, `Solution.insert` — the map operations.
* `Solution.ofList` — the solution of a list of bindings, a later one replacing an earlier one.

## Main results

* `Solution.get?_insert` — what is found after an insertion.
-/

namespace PagedTopK

/-- **A row of results**: terms by variable name, in increasing order of names. -/
structure Solution where
  /-- The bindings, in order. -/
  bindings : List (String × String)
  /-- Each name is below every later one. -/
  increasing : bindings.Pairwise fun a b => compare a.1 b.1 = .lt
deriving DecidableEq

namespace Solution

/-- The solution that binds nothing. -/
def empty : Solution := ⟨[], .nil⟩

instance : Inhabited Solution := ⟨empty⟩

/-! ## Operations on lists of bindings -/

/-- Insert a binding at its place, over an old one of the same name. -/
def insertBinding (name term : String) : List (String × String) → List (String × String)
  | [] => [(name, term)]
  | b :: rest =>
    match compare name b.1 with
    | .lt => (name, term) :: b :: rest
    | .eq => (name, term) :: rest
    | .gt => b :: insertBinding name term rest

theorem mem_insertBinding {name term : String} {b : String × String}
    {bs : List (String × String)} (h : b ∈ insertBinding name term bs) :
    b = (name, term) ∨ b ∈ bs := by
  induction bs with
  | nil => simpa [insertBinding] using h
  | cons c rest ih =>
    unfold insertBinding at h
    split at h
    · simpa using h
    · rcases List.mem_cons.1 h with h | h
      · exact .inl h
      · exact .inr (List.mem_cons_of_mem _ h)
    · rcases List.mem_cons.1 h with h | h
      · exact .inr (h ▸ List.mem_cons_self)
      · exact (ih h).imp_right (List.mem_cons_of_mem _)

theorem pairwise_insertBinding {name term : String} {bs : List (String × String)}
    (h : bs.Pairwise fun a b => compare a.1 b.1 = .lt) :
    (insertBinding name term bs).Pairwise fun a b => compare a.1 b.1 = .lt := by
  induction bs with
  | nil => simp [insertBinding]
  | cons c rest ih =>
    obtain ⟨hc, hrest⟩ := List.pairwise_cons.1 h
    unfold insertBinding
    split
    · next hlt =>
      refine List.pairwise_cons.2 ⟨fun b hb => ?_, h⟩
      rcases List.mem_cons.1 hb with rfl | hb
      · exact hlt
      · exact Std.TransCmp.lt_trans hlt (hc b hb)
    · next heq =>
      have hname : name = c.1 := Std.LawfulEqCmp.eq_of_compare heq
      exact List.pairwise_cons.2 ⟨fun b hb => hname ▸ hc b hb, hrest⟩
    · next hgt =>
      refine List.pairwise_cons.2 ⟨fun b hb => ?_, ih hrest⟩
      rcases mem_insertBinding hb with rfl | hb
      · exact Std.OrientedCmp.gt_iff_lt.1 hgt
      · exact hc b hb

/-! ## The map operations -/

/-- The term bound to a name. -/
def get? (s : Solution) (name : String) : Option String :=
  s.bindings.lookup name

/-- Whether a name is bound. -/
def contains (s : Solution) (name : String) : Bool :=
  (s.get? name).isSome

/-- **Bind a name to a term**, over an old binding of that name. -/
def insert (s : Solution) (name term : String) : Solution :=
  ⟨insertBinding name term s.bindings, pairwise_insertBinding s.increasing⟩

/-- Keep the bindings whose name passes a test. -/
def filterNames (s : Solution) (keep : String → Bool) : Solution :=
  ⟨s.bindings.filter fun b => keep b.1, s.increasing.filter _⟩

/-- Change every term. -/
def mapTerms (s : Solution) (f : String → String) : Solution :=
  ⟨s.bindings.map fun b => (b.1, f b.2), List.pairwise_map.2 s.increasing⟩

/-- **The solution of a list of bindings**; of two with one name the later counts. -/
def ofList (bs : List (String × String)) : Solution :=
  bs.foldl (fun s b => s.insert b.1 b.2) empty

/-! ## Look-ups -/

theorem lookup_insertBinding (name term other : String) (bs : List (String × String)) :
    (insertBinding name term bs).lookup other =
      if other = name then some term else bs.lookup other := by
  induction bs with
  | nil => by_cases h : other = name <;> simp [insertBinding, h]
  | cons c rest ih =>
    obtain ⟨own, old⟩ := c
    by_cases h : other = name
    · subst h
      unfold insertBinding
      split
      · simp
      · simp
      · next hgt =>
        have hne : (other == own) = false := by
          refine beq_eq_false_iff_ne.2 fun he => ?_
          have hself : compare own own = .eq := Std.ReflCmp.compare_self
          rw [he, hself] at hgt
          cases hgt
        simpa only [List.lookup_cons, hne, if_true] using ih
    · have hb : (other == name) = false := beq_eq_false_iff_ne.2 h
      simp only [if_neg h] at ih ⊢
      unfold insertBinding
      split
      · simp only [List.lookup_cons, hb]
      · next heq =>
        have hname : name = own := Std.LawfulEqCmp.eq_of_compare heq
        simp only [List.lookup_cons, ← hname, hb]
      · simp only [List.lookup_cons, ih]

/-- After an insertion the name has the new term and every other name its old one. -/
theorem get?_insert (s : Solution) (name term other : String) :
    (s.insert name term).get? other = if other = name then some term else s.get? other :=
  lookup_insertBinding name term other s.bindings

end Solution

end PagedTopK
