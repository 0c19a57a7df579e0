import PagedTopK.Proofs.Plan.Change
import PagedTopK.Proofs.Plan.Threshold

set_option autoImplicit false

/-!
# Plans seen from their ranking operator

The outermost ranking operator of a plan stands below wrappers only. To see a plan from there is to
list the wrappers above it, the parts of the operator itself and the fields beside all operators;
giving the operator threshold values then changes one of these parts and no other.

## Main definitions

* `Wrapper`, `PlanNode.under` — wrappers without their sources, and an operator below them.
* `Plan.Located` — the parts of a plan that has a ranking operator below its wrappers.
* `Threshold.Overwritten` — a threshold before and after it has been given the values of a solution.

## Main results

* `PlanNode.under_cases` — below the wrappers stands a ranking operator, or one that is not looked
  into.
* `Plan.setThreshold_located` — giving threshold values changes the threshold alone.
* `Threshold.Overwritten.unique` — a threshold can be overwritten in one way only.
* `PlanNode.overwritten_withValues` — this is what giving values does.
-/

namespace PagedTopK

/-! ## Operators below wrappers -/

/-- **A wrapper without its source.** -/
structure Wrapper where
  /-- The kind of the operator. -/
  kind : WrapperKind
  /-- Its other fields. -/
  fields : Members

namespace PlanNode

variable {values : List (String × String)} {node : PlanNode}

/-- **An operator below wrappers**, the first of them the outermost. -/
def under (wrappers : List Wrapper) (inner : PlanNode) : PlanNode :=
  wrappers.foldr (fun w source => wrapper w.kind source w.fields) inner

@[simp] lemma under_nil (inner : PlanNode) : under [] inner = inner := rfl

@[simp] lemma under_cons (w : Wrapper) (wrappers : List Wrapper) (inner : PlanNode) :
    under (w :: wrappers) inner = wrapper w.kind (under wrappers inner) w.fields := rfl

/-- **Below the wrappers** stands a ranking operator, or one that is not looked into. -/
lemma under_cases (node : PlanNode) :
    (∃ wrappers kind t source fields, node = under wrappers (ranking kind t source fields)) ∨
      ∃ wrappers kind fields, node = under wrappers (leaf kind fields) := by
  induction node using threshold.induct with
  | case1 kind source fields ih =>
    rcases ih with ⟨wrappers, kind', t, below, own, rfl⟩ | ⟨wrappers, kind', own, rfl⟩
    · exact .inl ⟨⟨kind, fields⟩ :: wrappers, kind', t, below, own, rfl⟩
    · exact .inr ⟨⟨kind, fields⟩ :: wrappers, kind', own, rfl⟩
  | case2 kind t source fields => exact .inl ⟨[], kind, t, source, fields, rfl⟩
  | case3 kind fields => exact .inr ⟨[], kind, fields, rfl⟩

/-- Wrappers are not touched when the ranking operator below them is given values. -/
lemma setThreshold_under (wrappers : List Wrapper) (inner : PlanNode) :
    (under wrappers inner).setThreshold values =
      (inner.setThreshold values).map (under wrappers) := by
  induction wrappers with
  | nil =>
    rw [under_nil]
    cases inner.setThreshold values <;> rfl
  | cons w wrappers ih =>
    rw [under_cons, setThreshold, ih]
    cases inner.setThreshold values <;> rfl

lemma wrappers_under_ranking (wrappers : List Wrapper) (kind : RankingKind) (t : Members)
    (source : Option PlanNode) (fields : Members) :
    (under wrappers (ranking kind t source fields)).wrappers = wrappers.length := by
  induction wrappers with
  | nil => rfl
  | cons w wrappers ih => simp [PlanNode.wrappers, ih]

/-- An operator below wrappers in order is in order. -/
lemma Canonical.of_under {wrappers : List Wrapper} {inner : PlanNode}
    (h : (under wrappers inner).Canonical) : inner.Canonical := by
  induction wrappers with
  | nil => exact h
  | cons w wrappers ih => exact ih h.1

end PlanNode

/-! ## Plans with a ranking operator -/

/-- **The parts of a plan that has a ranking operator below its wrappers.** -/
structure Plan.Located where
  /-- The wrappers above the ranking operator, the outermost first. -/
  wrappers : List Wrapper
  /-- The kind of the ranking operator. -/
  kind : RankingKind
  /-- Its threshold. -/
  threshold : Members
  /-- What feeds it. -/
  source : Option PlanNode
  /-- Its other fields. -/
  fields : Members
  /-- The fields beside all operators. -/
  extra : Members

namespace Plan

/-- **The plan made of its parts.** -/
def Located.plan (l : Located) : Plan :=
  ⟨.under l.wrappers (.ranking l.kind l.threshold l.source l.fields), l.extra⟩

/-- A plan whose ranking operator has been given the values of a solution. -/
def Located.given (l : Located) (values : Solution) : Located :=
  { l with threshold := PlanNode.withValues l.threshold values.bindings }

/-- **Giving threshold values changes the threshold alone.** -/
lemma setThreshold_located (l : Located) (values : Solution) :
    Continuation.setThreshold l.plan values = .ok (l.given values).plan := by
  rw [Continuation.setThreshold, Located.plan, PlanNode.setThreshold_under]
  rfl

/-- Where there is no ranking operator below the wrappers, values are refused. -/
lemma setThreshold_leaf (wrappers : List Wrapper) (kind : LeafKind) (fields extra : Members)
    (values : Solution) :
    Continuation.setThreshold ⟨.under wrappers (.leaf kind fields), extra⟩ values =
      .error (.unexpectedNode (.leaf kind)) := by
  rw [Continuation.setThreshold, PlanNode.setThreshold_under]
  rfl

/-- A plan has a ranking operator below its wrappers, or one that is not looked into. -/
lemma located_cases (plan : Plan) : (∃ l : Located, plan = l.plan) ∨
    ∃ wrappers kind fields, plan = ⟨.under wrappers (.leaf kind fields), plan.extra⟩ := by
  obtain ⟨root, extra⟩ := plan
  rcases root.under_cases with ⟨wrappers, kind, t, source, fields, rfl⟩ |
    ⟨wrappers, kind, fields, rfl⟩
  · exact .inl ⟨⟨wrappers, kind, t, source, fields, extra⟩, rfl⟩
  · exact .inr ⟨wrappers, kind, fields, rfl⟩

/-- The threshold of a plan in order is in order. -/
lemma Canonical.threshold {l : Located} (h : l.plan.Canonical) : Carried [] l.threshold := by
  have hroot : (PlanNode.ranking l.kind l.threshold l.source l.fields).Canonical :=
    h.root.of_under
  exact (PlanNode.canonical_ranking_iff.1 hroot).1

end Plan

/-! ## Thresholds that have been overwritten -/

/-- Values with the same distinct names in the same order are the same if the same is found under
every name. -/
lemma eq_of_names_eq {α : Type} {as bs : List (String × α)}
    (hnames : as.map (·.1) = bs.map (·.1)) (hnodup : (as.map (·.1)).Nodup)
    (h : ∀ name, as.lookup name = bs.lookup name) : as = bs := by
  have hnodup' : (bs.map (·.1)).Nodup := hnames ▸ hnodup
  apply List.ext_getElem (by simpa using congrArg List.length hnames)
  intro i hi hi'
  have hname : as[i].1 = bs[i].1 := by
    have hget := List.getElem_of_eq hnames (by simpa using hi)
    simpa using hget
  have ha : as.lookup as[i].1 = some as[i].2 :=
    (lookup_eq_some_iff hnodup).2 (List.getElem_mem hi)
  have hb : bs.lookup bs[i].1 = some bs[i].2 :=
    (lookup_eq_some_iff hnodup').2 (List.getElem_mem hi')
  rw [h, hname, hb] at ha
  exact Prod.ext hname (Option.some.inj ha).symm

namespace Threshold

/-- **A threshold before and after it has been given the values of a solution.** -/
structure Overwritten (values : Solution) (t t' : Members) : Prop where
  /-- A name that the solution binds has its term. -/
  named : ∀ name term, values.get? name = some term → t'.lookup name = some (.text term)
  /-- Any other name has what it had. -/
  unnamed : ∀ name, values.get? name = none → t'.lookup name = t.lookup name
  /-- Old names keep their places, and those that are new follow in increasing order. -/
  names : ∃ added, t'.map (·.1) = t.map (·.1) ++ added ∧
    added.Pairwise (fun a b => compare a b = .lt) ∧
    ∀ name, name ∈ added ↔ (values.get? name).isSome = true ∧ name ∉ t.map (·.1)
  /-- No name occurs twice. -/
  nodup : (t'.map (·.1)).Nodup

variable {values : Solution} {t t' t'' : Members}

/-- What is found under a name afterwards. -/
lemma Overwritten.lookup (h : Overwritten values t t') (name : String) :
    t'.lookup name = ((values.get? name).map Json.text).or (t.lookup name) := by
  cases hterm : values.get? name with
  | none => simpa using h.unnamed name hterm
  | some term => simpa using h.named name term hterm

/-- **A threshold can be overwritten in one way only.** -/
theorem Overwritten.unique (h : Overwritten values t t') (h' : Overwritten values t t'') :
    t' = t'' := by
  obtain ⟨added, hnames, hsorted, hmem⟩ := h.names
  obtain ⟨added', hnames', hsorted', hmem'⟩ := h'.names
  have hadded : added = added' := by
    have hperm : added.Perm added' := by
      rw [List.perm_ext_iff_of_nodup (Solution.nodup_of_increasing hsorted)
        (Solution.nodup_of_increasing hsorted')]
      intro name
      rw [hmem, hmem']
    apply hperm.eq_of_pairwise _ hsorted hsorted'
    intro a b _ _ hab hba
    rw [Std.OrientedCmp.gt_iff_lt.2 hab] at hba
    cases hba
  apply eq_of_names_eq _ h.nodup
  · intro name
    rw [h.lookup, h'.lookup]
  · rw [hnames, hnames', hadded]

/-- **What has been overwritten stays as it is** when the same values are given again. -/
lemma Overwritten.again (h : Overwritten values t t') : Overwritten values t' t' := by
  refine ⟨h.named, fun _ _ => rfl, ⟨[], (List.append_nil _).symm, .nil, ?_⟩, h.nodup⟩
  intro name
  constructor
  · intro hmem
    cases hmem
  · rintro ⟨hsome, hnew⟩
    obtain ⟨term, hterm⟩ := Option.isSome_iff_exists.1 hsome
    rw [← isSome_lookup, h.named name term hterm] at hnew
    exact absurd rfl hnew

end Threshold

namespace PlanNode

/-- The names of a threshold that has been given values. -/
lemma names_withValues (t : Members) {values : List (String × String)}
    (h : (values.map (·.1)).Nodup) :
    (withValues t values).map (·.1) =
      t.map (·.1) ++ (values.map (·.1)).filter fun name => name ∉ t.map (·.1) := by
  induction values using List.reverseRecOn with
  | nil => simp [withValues]
  | append_singleton values v ih =>
    rw [List.map_append, List.nodup_append] at h
    obtain ⟨hnodup, -, hdisjoint⟩ := h
    have hnew : v.1 ∉ values.map (·.1) := fun hmem => hdisjoint _ hmem _ (by simp) rfl
    rw [withValues_concat, Json.names_setMember, ih hnodup, List.map_append, List.filter_append]
    by_cases hold : v.1 ∈ t.map (·.1)
    · rw [if_pos (List.mem_append_left _ hold)]
      simp only [List.map_cons, List.map_nil, List.filter_cons, hold, not_true_eq_false,
        decide_false, Bool.false_eq_true, if_false, List.filter_nil, List.append_nil]
    · have habsent : v.1 ∉ t.map (·.1) ++
          (values.map (·.1)).filter fun name => name ∉ t.map (·.1) := by
        rw [List.mem_append, List.mem_filter]
        rintro (hmem | ⟨hmem, -⟩)
        · exact hold hmem
        · exact hnew hmem
      rw [if_neg habsent]
      simp only [List.map_cons, List.map_nil, List.filter_cons, hold, not_false_eq_true,
        decide_true, if_true, List.filter_nil, List.append_assoc]

/-- **What giving values does** to a threshold. -/
theorem overwritten_withValues {t : Members} (h : (t.map (·.1)).Nodup) (values : Solution) :
    Threshold.Overwritten values t (withValues t values.bindings) := by
  have hsorted := values.increasing_names
  have hnames := Solution.nodup_of_increasing hsorted
  constructor
  · intro name term hterm
    rw [lookup_withValues, hterm]
    rfl
  · intro name hterm
    rw [lookup_withValues, hterm]
    rfl
  · refine ⟨_, names_withValues t hnames, hsorted.filter _, fun name => ?_⟩
    have hbound : (values.get? name).isSome = true ↔ name ∈ values.bindings.map (·.1) :=
      isSome_lookup
    rw [List.mem_filter, hbound, decide_eq_true_iff]
  · rw [names_withValues t hnames]
    refine List.nodup_append.2 ⟨h, hnames.filter _, ?_⟩
    rintro a ha _ hb rfl
    exact of_decide_eq_true (List.mem_filter.1 hb).2 ha

end PlanNode

end PagedTopK
