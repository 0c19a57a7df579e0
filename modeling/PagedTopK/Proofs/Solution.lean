import Mathlib.Data.List.Induction
import PagedTopK.Proofs.Lookup
import PagedTopK.Ranking.Key

set_option autoImplicit false

/-!
# What is found in a changed solution

## Main definitions

* `Solution.overriddenBy` — the bindings of two solutions, those of the second one first.

## Main results

* `Solution.get?_filterNames`, `Solution.get?_mapTerms` — look-ups after fields have been removed
  and after terms have been changed.
* `Solution.ext_get?` — a solution is what is found in it.
* `Solution.get?_ofList` — look-ups in the solution of a list of bindings.
* `Solution.get?_overriddenBy` — look-ups in two solutions, one of which overrides the other.
* `RankingKey.valueIn_congr` — the sort value under a key depends on the field of the key only.
-/

namespace PagedTopK

namespace Solution

@[simp] lemma get?_filterNames (s : Solution) (keep : String → Bool) (name : String) :
    (s.filterNames keep).get? name = if keep name then s.get? name else none :=
  lookup_filter keep name s.bindings

@[simp] lemma get?_mapTerms (s : Solution) (f : String → String) (name : String) :
    (s.mapTerms f).get? name = (s.get? name).map f :=
  lookup_map f name s.bindings

/-- Increasing names are distinct. -/
lemma nodup_of_increasing {names : List String}
    (h : names.Pairwise fun a b => compare a b = .lt) : names.Nodup := by
  apply h.imp
  rintro a _ hlt rfl
  have hself : compare a a = .eq := Std.ReflCmp.compare_self
  rw [hself] at hlt
  cases hlt

/-- The names of a solution stand in increasing order. -/
lemma increasing_names (s : Solution) :
    (s.bindings.map (·.1)).Pairwise fun a b => compare a b = .lt :=
  List.pairwise_map.2 s.increasing

/-- In a list of increasing names the first one does not come again. -/
lemma lookup_eq_none_of_increasing {name term : String} {rest : List (String × String)}
    (h : ((name, term) :: rest).Pairwise fun a b => compare a.1 b.1 = .lt) :
    rest.lookup name = none := by
  rw [List.lookup_eq_none_iff]
  intro b hb
  have hlt : compare name b.1 = .lt := List.rel_of_pairwise_cons h hb
  have hself : compare name name = .eq := Std.ReflCmp.compare_self
  refine bne_iff_ne.2 ?_
  intro heq
  rw [← heq, hself] at hlt
  cases hlt

/-- A name below the first one of a list of increasing names does not come at all. -/
lemma lookup_eq_none_of_lt {name own term : String} {rest : List (String × String)}
    (hlt : compare name own = .lt)
    (h : ((own, term) :: rest).Pairwise fun a b => compare a.1 b.1 = .lt) :
    ((own, term) :: rest).lookup name = none := by
  have hall : ((name, term) :: (own, term) :: rest).Pairwise fun a b => compare a.1 b.1 = .lt := by
    refine List.pairwise_cons.2 ⟨fun b hb => ?_, h⟩
    rcases List.mem_cons.1 hb with rfl | hb
    · exact hlt
    · exact Std.TransCmp.lt_trans hlt (List.rel_of_pairwise_cons h hb)
  exact lookup_eq_none_of_increasing hall

/-- Lists of increasing names in which the same is found are the same. -/
lemma eq_of_lookup_eq {as bs : List (String × String)}
    (has : as.Pairwise fun a b => compare a.1 b.1 = .lt)
    (hbs : bs.Pairwise fun a b => compare a.1 b.1 = .lt)
    (h : ∀ name, as.lookup name = bs.lookup name) : as = bs := by
  induction as generalizing bs with
  | nil =>
    cases bs with
    | nil => rfl
    | cons b bs =>
      have hfound := h b.1
      rw [lookup_cons_ite, if_pos rfl] at hfound
      cases hfound
  | cons a as ih =>
    obtain ⟨name, term⟩ := a
    cases bs with
    | nil =>
      have hfound := h name
      rw [lookup_cons_ite, if_pos rfl] at hfound
      cases hfound
    | cons b bs =>
      obtain ⟨name', term'⟩ := b
      have hname : name = name' := by
        cases hcompare : compare name name' with
        | eq => exact Std.LawfulEqCmp.eq_of_compare hcompare
        | lt =>
          have hfound := h name
          rw [lookup_eq_none_of_lt hcompare hbs, lookup_cons_ite, if_pos rfl] at hfound
          cases hfound
        | gt =>
          have hfound := h name'
          rw [lookup_eq_none_of_lt (Std.OrientedCmp.gt_iff_lt.1 hcompare) has, lookup_cons_ite,
            if_pos rfl] at hfound
          cases hfound
      subst hname
      have hterm := h name
      rw [lookup_cons_ite, lookup_cons_ite, if_pos rfl, if_pos rfl, Option.some.injEq] at hterm
      subst hterm
      have hrest : as = bs := by
        refine ih has.of_cons hbs.of_cons fun other => ?_
        by_cases hother : other = name
        · rw [hother, lookup_eq_none_of_increasing has, lookup_eq_none_of_increasing hbs]
        · have hfound := h other
          rwa [lookup_cons_ite, lookup_cons_ite, if_neg hother, if_neg hother] at hfound
      rw [hrest]

/-- **Solutions in which the same is found are equal.** -/
theorem ext_get? {s t : Solution} (h : ∀ name, s.get? name = t.get? name) : s = t := by
  have hbindings := eq_of_lookup_eq s.increasing t.increasing h
  cases s
  cases t
  cases hbindings
  rfl

/-- In the solution of a list the last term of a name counts. -/
lemma get?_ofList (bs : List (String × String)) (name : String) :
    (ofList bs).get? name = bs.reverse.lookup name := by
  induction bs using List.reverseRecOn with
  | nil => rfl
  | append_singleton rest b ih =>
    have hlast : ofList (rest ++ [b]) = (ofList rest).insert b.1 b.2 := by
      simp [ofList, List.foldl_append]
    rw [hlast, get?_insert, ih, List.reverse_append, List.reverse_singleton, List.singleton_append,
      lookup_cons_ite]

/-! ## Bindings of two solutions -/

/-- **The bindings of two solutions**; where both bind a name, the second one counts. -/
def overriddenBy (s t : Solution) : Solution :=
  t.bindings.foldl (fun s b => s.insert b.1 b.2) s

lemma get?_foldl_insert {bs : List (String × String)}
    (h : bs.Pairwise fun a b => compare a.1 b.1 = .lt) (s : Solution) (name : String) :
    (bs.foldl (fun s b => s.insert b.1 b.2) s).get? name = (bs.lookup name).or (s.get? name) := by
  induction bs generalizing s with
  | nil => rfl
  | cons b rest ih =>
    obtain ⟨own, term⟩ := b
    rw [List.foldl_cons, ih h.of_cons, get?_insert, lookup_cons_ite]
    by_cases hname : name = own
    · subst hname
      simp [lookup_eq_none_of_increasing h]
    · simp [hname]

@[simp] lemma get?_overriddenBy (s t : Solution) (name : String) :
    (s.overriddenBy t).get? name = (t.get? name).or (s.get? name) :=
  get?_foldl_insert t.increasing s name

end Solution

/-- The sort value under a key depends on the field of the key only. -/
lemma RankingKey.valueIn_congr {key : RankingKey} {s t : Solution}
    (h : s.get? key.name = t.get? key.name) : key.valueIn s = key.valueIn t := by
  rw [valueIn, valueIn, h]

end PagedTopK
