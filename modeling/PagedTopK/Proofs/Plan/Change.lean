import PagedTopK.Proofs.Plan.Writer

set_option autoImplicit false

/-!
# What changes a plan

A plan changes in two ways: it is given threshold values, and its doubles are read again after they
have been written. Both keep it in order.

## Main definitions

* `PlanNode.wrappers` — how many operators stand above the outermost ranking operator.
* `PlanNode.IsGiven` — operators with and without given values.
* `PlanNode.rewritten`, `Plan.rewritten` — a plan whose doubles have been read again.

## Main results

* `PlanNode.all_json_wrapper_iff`, `PlanNode.all_json_ranking_iff` — what holds of all values.
* `PlanNode.setThreshold_eq_ok_iff` — what giving values does.
* `PlanNode.Canonical.setThreshold` — operators stay in order.
* `PlanNode.depth_setThreshold_le`, `PlanNode.le_depth_setThreshold` — how deep a plan becomes.
* `Plan.json_rewritten`, `Plan.Canonical.rewritten` — a plan whose doubles have been read again.
-/

namespace PagedTopK

namespace PlanNode

/-! ## What holds of all values -/

section All

variable {p : Json → Bool} (htext : ∀ s, p (.text s) = true)

include htext

/-- What holds of all values of a wrapper. -/
lemma all_json_wrapper_iff {kind : WrapperKind} {source : PlanNode} {fields : Members} :
    (wrapper kind source fields).json.all p = true ↔
      source.json.all p = true ∧ ∀ m ∈ fields, m.2.all p = true := by
  rw [json_eq_object, Json.all, Json.allMembers_iff, members, List.forall_mem_append,
    List.forall_mem_cons, List.forall_mem_singleton]
  exact and_congr_left fun _ => and_iff_right (htext _)

/-- What holds of all values of a ranking operator. -/
lemma all_json_ranking_iff {kind : RankingKind} {t : Members} {source : Option PlanNode}
    {fields : Members} :
    (ranking kind t source fields).json.all p = true ↔
      (∀ m ∈ t, m.2.all p = true) ∧ (∀ below ∈ source, below.json.all p = true) ∧
        ∀ m ∈ fields, m.2.all p = true := by
  have hthreshold : (∀ m ∈ thresholdMembers t, m.2.all p = true) ↔ ∀ m ∈ t, m.2.all p = true := by
    cases t with
    | nil => exact iff_of_true (List.forall_mem_nil _) (List.forall_mem_nil _)
    | cons m rest => exact List.forall_mem_singleton.trans Json.allMembers_iff
  have hsource : (∀ m ∈ sourceMembers source, m.2.all p = true) ↔
      ∀ below ∈ source, below.json.all p = true := by
    cases source <;> simp [sourceMembers]
  rw [json_eq_object, Json.all, Json.allMembers_iff, members, List.forall_mem_append,
    List.forall_mem_cons, List.forall_mem_append, hthreshold, hsource, and_assoc, and_assoc]
  exact and_iff_right (htext _)

/-- What holds of all values of an operator that is not looked into. -/
lemma all_json_leaf_iff {kind : LeafKind} {fields : Members} :
    (leaf kind fields).json.all p = true ↔ ∀ m ∈ fields, m.2.all p = true := by
  rw [json_eq_object, Json.all, Json.allMembers_iff, members, List.forall_mem_append,
    List.forall_mem_singleton]
  exact and_iff_right (htext _)

end All

/-! ## Threshold values -/

/-- **How many operators stand above the outermost ranking operator.** -/
def wrappers : PlanNode → Nat
  | wrapper _ source _ => source.wrappers + 1
  | _ => 0

/-- What giving values does, one operator at a time. -/
lemma setThreshold_wrapper_eq_ok_iff {values : List (String × String)} {kind : WrapperKind}
    {source : PlanNode} {fields : Members} {changed : PlanNode} :
    (wrapper kind source fields).setThreshold values = .ok changed ↔
      ∃ below, source.setThreshold values = .ok below ∧ changed = wrapper kind below fields := by
  rw [setThreshold]
  cases source.setThreshold values with
  | error found => exact iff_of_false nofun (by rintro ⟨_, ⟨⟩, -⟩)
  | ok below =>
    constructor
    · rintro ⟨⟩
      exact ⟨below, rfl, rfl⟩
    · rintro ⟨_, ⟨⟩, rfl⟩
      rfl

/-- **Operators with and without given values**: the values are in the threshold of the outermost
ranking operator, and the wrappers above it are as they were. -/
inductive IsGiven (values : List (String × String)) : PlanNode → PlanNode → Prop where
  /-- An operator above the ranking operator. -/
  | wrapper {kind : WrapperKind} {source below : PlanNode} {fields : Members}
    (h : IsGiven values source below) :
    IsGiven values (wrapper kind source fields) (wrapper kind below fields)
  /-- The ranking operator. -/
  | ranking {kind : RankingKind} {t : Members} {source : Option PlanNode} {fields : Members} :
    IsGiven values (ranking kind t source fields) (ranking kind (withValues t values) source fields)

/-- **What giving values does.** -/
lemma setThreshold_eq_ok_iff {values : List (String × String)} {node changed : PlanNode} :
    node.setThreshold values = .ok changed ↔ IsGiven values node changed := by
  constructor
  · intro h
    induction node using wrappers.induct generalizing changed with
    | case1 kind source fields ih =>
      obtain ⟨below, hbelow, rfl⟩ := setThreshold_wrapper_eq_ok_iff.1 h
      exact .wrapper (ih hbelow)
    | case2 node hnode =>
      cases node with
      | wrapper kind source fields => exact absurd rfl (hnode kind source fields)
      | ranking kind t source fields =>
        cases h
        exact .ranking
      | leaf kind fields => cases h
  · intro h
    induction h with
    | wrapper _ ih => exact setThreshold_wrapper_eq_ok_iff.2 ⟨_, ih, rfl⟩
    | ranking => rfl

lemma withValues_concat (t : Members) (values : List (String × String)) (v : String × String) :
    withValues t (values ++ [v]) = Json.setMember v.1 (.text v.2) (withValues t values) := by
  simp [withValues, List.foldl_append]

/-- The values of a changed threshold are old ones or texts. -/
lemma forall_mem_withValues (p : Json → Prop) (htext : ∀ s, p (.text s)) {t : Members}
    (ht : ∀ m ∈ t, p m.2) (values : List (String × String)) : ∀ m ∈ withValues t values, p m.2 := by
  induction values using List.reverseRecOn with
  | nil => exact ht
  | append_singleton values v ih =>
    intro m hm
    rw [withValues_concat] at hm
    rcases Json.mem_setMember hm with rfl | hm
    · exact htext v.2
    · exact ih m hm

/-- A threshold stays in order. -/
lemma carried_withValues {t : Members} (h : Carried [] t) (values : List (String × String)) :
    Carried [] (withValues t values) where
  nodup := by
    induction values using List.reverseRecOn with
    | nil => exact h.nodup
    | append_singleton values v ih =>
      rw [withValues_concat]
      exact Json.nodup_names_setMember ih v.1 (.text v.2)
  distinct := forall_mem_withValues (fun v => v.isDistinct = true) (fun _ => rfl) h.distinct values
  foreign _ _ := List.not_mem_nil

/-- A threshold that has been given values is not empty. -/
lemma withValues_ne_nil (t : Members) {values : List (String × String)} (h : values ≠ []) :
    withValues t values ≠ [] := by
  rw [← List.dropLast_concat_getLast h, withValues_concat]
  intro hnil
  have hnames := Json.names_setMember (values.getLast h).1 (.text (values.getLast h).2)
    (withValues t values.dropLast)
  rw [hnil] at hnames
  split at hnames
  · next hmem =>
    rw [← hnames] at hmem
    cases hmem
  · exact List.append_ne_nil_of_right_ne_nil _ (List.cons_ne_nil _ _) hnames.symm

variable {values : List (String × String)} {node changed : PlanNode}

/-- **Operators stay in order** when the ranking operator is given values. -/
lemma Canonical.setThreshold (h : node.Canonical) (hset : node.setThreshold values = .ok changed) :
    changed.Canonical := by
  rw [setThreshold_eq_ok_iff] at hset
  induction hset with
  | wrapper _ ih => exact ⟨ih h.1, h.2⟩
  | ranking =>
    obtain ⟨ht, hrest⟩ := canonical_ranking_iff.1 h
    exact canonical_ranking_iff.2 ⟨carried_withValues ht values, hrest⟩

/-- What holds of texts and of all members of a ranking operator holds of its members when it has
been given values. -/
lemma forall_members_withValues (p : Json → Prop) {kind : RankingKind} {t : Members}
    {source : Option PlanNode} {fields : Members}
    (h : ∀ m ∈ (ranking kind t source fields).members, p m.2)
    (hthreshold : p (.object (withValues t values))) :
    ∀ m ∈ (ranking kind (withValues t values) source fields).members, p m.2 := by
  obtain ⟨hfront, hfields⟩ := List.forall_mem_append.1 h
  obtain ⟨hkind, hfront⟩ := List.forall_mem_cons.1 hfront
  obtain ⟨-, hsource⟩ := List.forall_mem_append.1 hfront
  refine List.forall_mem_append.2 ⟨List.forall_mem_cons.2 ⟨hkind,
    List.forall_mem_append.2 ⟨?_, hsource⟩⟩, hfields⟩
  unfold thresholdMembers
  split
  · exact List.forall_mem_nil _
  · exact List.forall_mem_singleton.2 hthreshold

/-- What writes an old threshold, if there is one. -/
lemma of_threshold_ne_nil (p : Json → Prop) {kind : RankingKind} {t : Members}
    {source : Option PlanNode} {fields : Members}
    (h : ∀ m ∈ (ranking kind t source fields).members, p m.2) (ht : t ≠ []) : p (.object t) :=
  h ("threshold", .object t) (by simp [members, thresholdMembers, ht])

/-- **Given values are texts**, so nothing else comes into the operators. -/
lemma all_json_setThreshold {p : Json → Bool} (htext : ∀ s, p (.text s) = true)
    (h : node.json.all p = true) (hset : node.setThreshold values = .ok changed) :
    changed.json.all p = true := by
  rw [setThreshold_eq_ok_iff] at hset
  induction hset with
  | wrapper _ ih =>
    obtain ⟨hsource, hfields⟩ := (all_json_wrapper_iff htext).1 h
    exact (all_json_wrapper_iff htext).2 ⟨ih hsource, hfields⟩
  | ranking =>
    obtain ⟨ht, hrest⟩ := (all_json_ranking_iff htext).1 h
    exact (all_json_ranking_iff htext).2
      ⟨forall_mem_withValues (fun v => v.all p = true) htext ht values, hrest⟩

/-- Texts do not make a threshold deeper. -/
lemma depthMembers_withValues_le (t : Members) (values : List (String × String)) :
    Json.depthMembers (withValues t values) ≤ Json.depthMembers t :=
  Json.depthMembers_le.2 (forall_mem_withValues (fun v => v.depth ≤ Json.depthMembers t)
    (fun _ => Nat.zero_le _) (fun _ => Json.depth_le_depthMembers) values)

/-- **How deep a plan becomes at most**: a threshold is two levels below the outermost operator, and
one more for every wrapper. -/
lemma depth_setThreshold_le (hset : node.setThreshold values = .ok changed) :
    changed.json.depth ≤ max node.json.depth (node.wrappers + 2) := by
  rw [setThreshold_eq_ok_iff] at hset
  induction hset with
  | @wrapper kind source below fields _ ih =>
    have hold : ∀ m ∈ (wrapper kind source fields).members, m.2.depth ≤ _ :=
      fun _ => Json.depth_le_depthMembers
    obtain ⟨hfront, hfields⟩ := List.forall_mem_append.1 hold
    have hsource : source.json.depth ≤ _ := hfront ("source", source.json) (by simp)
    rw [json_eq_object, json_eq_object, Json.depth, Json.depth, wrappers]
    have hnew : Json.depthMembers (wrapper kind below fields).members ≤
        max (Json.depthMembers (wrapper kind source fields).members) (source.wrappers + 2) := by
      refine Json.depthMembers_le.2 (List.forall_mem_append.2 ⟨List.forall_mem_cons.2
        ⟨Nat.zero_le _, List.forall_mem_singleton.2 ?_⟩, fun m hm =>
          Nat.le_trans (hfields m hm) (Nat.le_max_left _ _)⟩)
      show below.json.depth ≤ _
      omega
    omega
  | @ranking kind t source fields =>
    have hold : ∀ m ∈ (ranking kind t source fields).members, m.2.depth ≤ _ :=
      fun _ => Json.depth_le_depthMembers
    have hwrappers : (ranking kind t source fields).wrappers = 0 := rfl
    rw [json_eq_object, json_eq_object, Json.depth, Json.depth, hwrappers]
    have hnew : Json.depthMembers (ranking kind (withValues t values) source fields).members ≤
        max (Json.depthMembers (ranking kind t source fields).members) 1 := by
      refine Json.depthMembers_le.2 (forall_members_withValues
        (fun v => v.depth ≤ max (Json.depthMembers (ranking kind t source fields).members) 1)
        (fun m hm => Nat.le_trans (hold m hm) (Nat.le_max_left _ _)) ?_)
      have hle := depthMembers_withValues_le t values
      rw [Json.depth]
      by_cases ht : t = []
      · subst ht
        rw [Json.depthMembers] at hle
        omega
      · have hobject := of_threshold_ne_nil (fun v => v.depth ≤ Json.depthMembers _) hold ht
        rw [Json.depth] at hobject
        omega
    omega

/-- **How deep a plan becomes at least** when it has been given some value. -/
lemma le_depth_setThreshold (hset : node.setThreshold values = .ok changed) (hne : values ≠ []) :
    node.wrappers + 2 ≤ changed.json.depth := by
  rw [setThreshold_eq_ok_iff] at hset
  induction hset with
  | @wrapper kind source below fields _ ih =>
    have hsource : below.json.depth ≤ Json.depthMembers (wrapper kind below fields).members :=
      Json.depth_le_depthMembers (m := ("source", below.json)) (by simp [members])
    rw [json_eq_object, Json.depth, wrappers]
    omega
  | @ranking kind t source fields =>
    have hobject := of_threshold_ne_nil (fun v => v.depth ≤ Json.depthMembers
      (ranking kind (withValues t values) source fields).members)
      (fun _ => Json.depth_le_depthMembers) (withValues_ne_nil t hne)
    have hwrappers : (ranking kind t source fields).wrappers = 0 := rfl
    rw [Json.depth] at hobject
    rw [json_eq_object, Json.depth, hwrappers]
    omega

/-- Without any values nothing changes. -/
lemma setThreshold_nil (hset : node.setThreshold [] = .ok changed) : changed = node := by
  rw [setThreshold_eq_ok_iff] at hset
  induction hset with
  | wrapper _ ih => rw [ih]
  | ranking => rfl

/-! ## Doubles that have been read again -/

/-- **An operator whose doubles have been read again.** -/
def rewritten : PlanNode → PlanNode
  | wrapper kind source fields => wrapper kind source.rewritten (Json.rewrittenMembers fields)
  | ranking kind t none fields =>
    ranking kind (Json.rewrittenMembers t) none (Json.rewrittenMembers fields)
  | ranking kind t (some source) fields =>
    ranking kind (Json.rewrittenMembers t) (some source.rewritten) (Json.rewrittenMembers fields)
  | leaf kind fields => leaf kind (Json.rewrittenMembers fields)

end PlanNode

lemma rewrittenMembers_append (members others : Members) :
    Json.rewrittenMembers (members ++ others) =
      Json.rewrittenMembers members ++ Json.rewrittenMembers others := by
  simp only [Json.rewrittenMembers_eq_map, List.map_append]

/-- Members that are read as themselves. -/
lemma rewrittenMembers_of_isKept {members : Members}
    (h : ∀ m ∈ members, m.2.all Json.isKept = true) : Json.rewrittenMembers members = members := by
  have hobject : (Json.object members).all Json.isKept = true := by
    rw [Json.all, Json.allMembers_iff]
    exact h
  exact Json.object.inj (Json.rewritten_eq_self_iff.2 hobject)

/-- Fields stay in order. -/
lemma Carried.rewritten {own : List String} {fields : Members} (h : Carried own fields) :
    Carried own (Json.rewrittenMembers fields) where
  nodup := by
    rw [Json.names_rewrittenMembers]
    exact h.nodup
  distinct := by
    rw [Json.rewrittenMembers_eq_map]
    intro m hm
    obtain ⟨m', hm', rfl⟩ := List.mem_map.1 hm
    exact Json.isDistinct_rewritten (h.distinct m' hm')
  foreign := by
    rw [Json.rewrittenMembers_eq_map]
    intro m hm
    obtain ⟨m', hm', rfl⟩ := List.mem_map.1 hm
    exact h.foreign m' hm'

namespace PlanNode

lemma rewrittenMembers_thresholdMembers (t : Members) :
    Json.rewrittenMembers (thresholdMembers t) = thresholdMembers (Json.rewrittenMembers t) := by
  cases t <;> rfl

/-- **What writes an operator is rewritten with it.** -/
lemma json_rewritten (node : PlanNode) : node.json.rewritten = node.rewritten.json := by
  induction node using rewritten.induct with
  | case1 kind source fields ih =>
    rw [rewritten, json_eq_object, json_eq_object, Json.rewritten, members, members,
      rewrittenMembers_append]
    simp only [Json.rewrittenMembers, ih]
    rfl
  | case2 kind t fields =>
    rw [rewritten, json_eq_object, json_eq_object, Json.rewritten, members, members,
      rewrittenMembers_append, Json.rewrittenMembers, rewrittenMembers_append,
      rewrittenMembers_thresholdMembers]
    rfl
  | case3 kind t source fields ih =>
    rw [rewritten, json_eq_object, json_eq_object, Json.rewritten, members, members,
      rewrittenMembers_append, Json.rewrittenMembers, rewrittenMembers_append,
      rewrittenMembers_thresholdMembers]
    simp only [sourceMembers, Json.rewrittenMembers, ih]
    rfl
  | case4 kind fields =>
    rw [rewritten, json_eq_object, json_eq_object, Json.rewritten, members, members,
      rewrittenMembers_append]
    rfl

/-- **Operators whose doubles are read as themselves** are not changed by reading again. -/
lemma rewritten_of_isKept {node : PlanNode} (h : node.json.all Json.isKept = true) :
    node.rewritten = node := by
  have htext : ∀ s, Json.isKept (.text s) = true := fun _ => rfl
  induction node using rewritten.induct with
  | case1 kind source fields ih =>
    obtain ⟨hsource, hfields⟩ := (all_json_wrapper_iff htext).1 h
    rw [rewritten, ih hsource, rewrittenMembers_of_isKept hfields]
  | case2 kind t fields =>
    obtain ⟨ht, -, hfields⟩ := (all_json_ranking_iff htext).1 h
    rw [rewritten, rewrittenMembers_of_isKept ht, rewrittenMembers_of_isKept hfields]
  | case3 kind t source fields ih =>
    obtain ⟨ht, hsource, hfields⟩ := (all_json_ranking_iff htext).1 h
    rw [rewritten, rewrittenMembers_of_isKept ht, ih (hsource source rfl),
      rewrittenMembers_of_isKept hfields]
  | case4 kind fields =>
    rw [rewritten, rewrittenMembers_of_isKept ((all_json_leaf_iff htext).1 h)]

/-- Operators stay in order when their doubles are read again. -/
lemma Canonical.rewritten {node : PlanNode} (h : node.Canonical) : node.rewritten.Canonical := by
  induction node using rewritten.induct with
  | case1 kind source fields ih => exact ⟨ih h.1, h.2.rewritten⟩
  | case2 kind t fields => exact ⟨h.1.rewritten, h.2.rewritten⟩
  | case3 kind t source fields ih => exact ⟨h.1.rewritten, ih h.2.1, h.2.2.rewritten⟩
  | case4 kind fields => exact Carried.rewritten h

end PlanNode

/-! ## Plans -/

namespace Plan

/-- **A plan whose doubles have been read again.** -/
def rewritten (plan : Plan) : Plan := ⟨plan.root.rewritten, Json.rewrittenMembers plan.extra⟩

/-- **Given values are texts**, so nothing else comes into the plan. -/
lemma all_json_setThreshold {p : Json → Bool} (htext : ∀ s, p (.text s) = true) {plan : Plan}
    {values : List (String × String)} {root : PlanNode} (h : plan.json.all p = true)
    (hset : plan.root.setThreshold values = .ok root) :
    ({ plan with root := root } : Plan).json.all p = true := by
  rw [json, Json.all, Json.allMembers_iff, List.forall_mem_cons] at h ⊢
  exact ⟨PlanNode.all_json_setThreshold htext h.1 hset, h.2⟩

/-- **What writes a plan is rewritten with it.** -/
lemma json_rewritten (plan : Plan) : plan.json.rewritten = plan.rewritten.json := by
  rw [json, Json.rewritten, Json.rewrittenMembers, PlanNode.json_rewritten]
  rfl

/-- **Which plans are not changed** by reading again. -/
lemma rewritten_eq_self_iff {plan : Plan} :
    plan.rewritten = plan ↔ plan.json.all Json.isKept = true := by
  constructor
  · intro h
    rw [← Json.rewritten_eq_self_iff, json_rewritten, h]
  · intro h
    rw [json, Json.all, Json.allMembers_iff, List.forall_mem_cons] at h
    rw [rewritten, PlanNode.rewritten_of_isKept h.1, rewrittenMembers_of_isKept h.2]

/-- Without doubles nothing is changed by reading again. -/
lemma rewritten_of_isInteger {plan : Plan} (h : plan.json.all Json.isInteger = true) :
    plan.rewritten = plan :=
  rewritten_eq_self_iff.2 (Json.all_isKept_of_isInteger h)

/-- Plans stay in order when their doubles are read again. -/
lemma Canonical.rewritten {plan : Plan} (h : plan.Canonical) : plan.rewritten.Canonical :=
  ⟨h.root.rewritten, h.extra.rewritten⟩

/-- **What is read again of a plan that has been written**: the plan with its doubles read again, if
it is not too deep. -/
theorem Canonical.ofDocument_json {plan : Plan} (h : plan.Canonical) {read : Plan} :
    ofDocument (Json.document plan.json.rewritten) = .ok read ↔
      read = plan.rewritten ∧ plan.json.depth ≤ Json.maxDepth := by
  have hwrites := h.rewritten.writes_json
  rw [← json_rewritten] at hwrites
  have hdepth := Json.depth_rewritten plan.json
  constructor
  · intro hread
    obtain ⟨v, hv, hroom, -⟩ := ofDocument_eq_ok_iff.1 hread
    rw [← Json.document_injective hv] at hroom
    have hown := ofDocument_eq_ok_iff.2 ⟨_, rfl, hroom, hwrites⟩
    rw [hown] at hread
    cases hread
    exact ⟨rfl, hdepth ▸ hroom⟩
  · rintro ⟨rfl, hle⟩
    exact ofDocument_eq_ok_iff.2 ⟨_, rfl, hdepth.symm ▸ hle, hwrites⟩

end Plan

end PagedTopK
