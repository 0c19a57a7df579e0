import PagedTopK.Proofs.Plan.Reader

set_option autoImplicit false

/-!
# Plans that are read and written

What has been read is in order: no name occurs twice among carried fields, and none of them is a
field of the operator itself. An operator in order is read back from the value that writes it.

## Main definitions

* `Carried` — fields in order.
* `PlanNode.Canonical`, `Plan.Canonical` — operators and plans in order.

## Main results

* `Plan.Writes.canonical` — plans that have been read are in order.
* `Plan.Writes.depth_json_le`, `Plan.Writes.all_json` — what writes them again is not deeper than what
  they have been read from, and holds no other values.
* `Plan.Canonical.writes_json` — plans in order are read back.
-/

namespace PagedTopK

open Json (valuesOf without Found)

/-! ## Carried fields -/

/-- **Fields in order** beside those with a name in `own`. -/
structure Carried (own : List String) (fields : Members) : Prop where
  /-- No name occurs twice. -/
  nodup : (fields.map (·.1)).Nodup
  /-- Nor does one at any depth. -/
  distinct : ∀ m ∈ fields, m.2.isDistinct = true
  /-- None of the names is in `own`. -/
  foreign : ∀ m ∈ fields, m.1 ∉ own

lemma carried_nil (own : List String) : Carried own [] :=
  ⟨List.nodup_nil, List.forall_mem_nil _, List.forall_mem_nil _⟩

/-- Merged and collapsed members are in order. -/
lemma carried_merged (members : Members) {own : List String}
    (h : ∀ m ∈ members, m.1 ∉ own) :
    Carried own (Json.mergeMembers (Json.collapseMembers members)) where
  nodup := Json.nodup_names_mergeMembers _
  distinct m hm := by
    obtain ⟨source, -, rfl⟩ := Json.exists_of_mem_merged hm
    exact Json.isDistinct_collapse _
  foreign m hm := by
    obtain ⟨source, hsource, rfl⟩ := Json.exists_of_mem_merged hm
    exact h source hsource

namespace Carried

variable {own : List String} {fields : Members}

/-- There is nothing to merge or to collapse in fields in order. -/
lemma merged (h : Carried own fields) :
    Json.mergeMembers (Json.collapseMembers fields) = fields := by
  have hcollapse := Json.collapse_of_isDistinct
    (Json.isDistinct_object.2 ⟨h.nodup, h.distinct⟩)
  rw [Json.collapse, Json.object.injEq] at hcollapse
  exact hcollapse

/-- None of the fields has a name in `own`. -/
lemma valuesOf_eq_nil (h : Carried own fields) {name : String} (hname : name ∈ own) :
    valuesOf name fields = [] := by
  rw [Json.valuesOf_eq_nil_iff]
  intro hmem
  obtain ⟨m, hm, rfl⟩ := List.mem_map.1 hmem
  exact h.foreign m hm hname

/-- Own members before fields in order are left out again. -/
lemma otherMembers_append (h : Carried own fields) {front : Members}
    (hfront : ∀ m ∈ front, m.1 ∈ own) :
    PlanNode.otherMembers own (front ++ fields) = fields := by
  have hown : front.filter (fun m => !own.contains m.1) = [] := by
    rw [List.filter_eq_nil_iff]
    intro m hm
    simp [hfront m hm]
  have hfields : fields.filter (fun m => !own.contains m.1) = fields := by
    rw [List.filter_eq_self]
    intro m hm
    simp [h.foreign m hm]
  rw [PlanNode.otherMembers, List.filter_append, hown, hfields, List.nil_append, h.merged]

end Carried

lemma carried_otherMembers (own : List String) (members : Members) :
    Carried own (PlanNode.otherMembers own members) := by
  refine carried_merged _ fun m hm => ?_
  have hforeign := (List.mem_filter.1 hm).2
  simpa using hforeign

namespace PlanNode

/-! ## Members of an operator -/

/-- The members that write the threshold: none if it is empty. -/
def thresholdMembers (t : Members) : Members :=
  if t.isEmpty then [] else [("threshold", .object t)]

/-- The members that write the source: none if there is none. -/
def sourceMembers : Option PlanNode → Members
  | none => []
  | some source => [("source", source.json)]

/-- **The members that write an operator.** -/
def members : PlanNode → Members
  | wrapper kind source fields =>
    [("type", .text (Operator.wrapper kind).name), ("source", source.json)] ++ fields
  | ranking kind t source fields =>
    ("type", .text (Operator.ranking kind).name) :: (thresholdMembers t ++ sourceMembers source) ++
      fields
  | leaf kind fields => [("type", .text (Operator.leaf kind).name)] ++ fields

lemma json_eq_object (node : PlanNode) : node.json = .object node.members := by
  cases node with
  | wrapper kind source fields =>
    rw [json]
    rfl
  | ranking kind t source fields =>
    cases source <;> rw [json] <;> rfl
  | leaf kind fields =>
    rw [json]
    rfl

/-- A threshold is missing or holds the members of one object. -/
lemma threshold_cases {values : List Json} {t : Members}
    (h : Json.Found (fun v t => readThreshold v = .ok t) (· = []) none values t) :
    values = [] ∧ t = [] ∨
      ∃ own, values = [.object own] ∧ t = Json.mergeMembers (Json.collapseMembers own) := by
  cases h with
  | missing h => exact .inl ⟨rfl, h⟩
  | @read v t h =>
    cases v with
    | object own =>
      cases h
      exact .inr ⟨own, rfl, rfl⟩
    | null | bool | integer | double | text | array => cases h

/-- A source is missing or null, or it holds one operator. -/
lemma source_cases {values : List Json} {source : Option PlanNode}
    (h : Json.Found SourceOf (· = none) none values source) :
    (values = [] ∨ values = [.null]) ∧ source = none ∨
      ∃ v below, values = [v] ∧ ofJson v = .ok below ∧ source = some below := by
  cases h with
  | missing h => exact .inl ⟨.inl rfl, h⟩
  | @read v source h =>
    rcases h with ⟨rfl, rfl⟩ | ⟨below, hbelow, rfl⟩
    · exact .inl ⟨.inr rfl, rfl⟩
    · exact .inr ⟨v, below, rfl, hbelow, rfl⟩

/-- **What holds of a new operator's members**: they hold texts, what the members of the object hold,
without repeated names, and sources that have been read and are written again. -/
lemma Built.forall_members {given : Members} {op : Operator} {node : PlanNode}
    (h : Built given op node) {p : Json → Prop} (htext : ∀ s, p (.text s))
    (hvalue : ∀ m ∈ given, p m.2.collapse)
    (hsource : ∀ m ∈ given, ∀ source, ofJson m.2 = .ok source → p source.json) :
    ∀ m ∈ node.members, p m.2 := by
  have hfields : ∀ own, ∀ m ∈ otherMembers own given, p m.2 := by
    intro own m hm
    obtain ⟨m', hm', rfl⟩ := Json.exists_of_mem_merged hm
    exact hvalue m' (List.mem_filter.1 hm').1
  have hread : ∀ {v source}, valuesOf "source" given = [v] → ofJson v = .ok source →
      p source.json := by
    intro v source hv hread
    exact hsource ("source", v) (Json.mem_of_mem_valuesOf (hv ▸ List.mem_singleton_self v)) source
      hread
  cases h with
  | wrapper hv hs =>
    exact List.forall_mem_append.2 ⟨by simpa [htext] using hread hv hs, hfields _⟩
  | @ranking kind t source hthreshold hs =>
    have ht : ∀ m ∈ thresholdMembers t, p m.2 := by
      rcases threshold_cases hthreshold with ⟨-, rfl⟩ | ⟨own, hvalues, rfl⟩
      · exact List.forall_mem_nil _
      · have hmem : ("threshold", Json.object own) ∈ given :=
          Json.mem_of_mem_valuesOf (hvalues ▸ List.mem_singleton_self _)
        unfold thresholdMembers
        split
        · exact List.forall_mem_nil _
        · exact List.forall_mem_singleton.2 (hvalue _ hmem)
    have hs : ∀ m ∈ sourceMembers source, p m.2 := by
      rcases source_cases hs with ⟨-, rfl⟩ | ⟨v, below, hvalues, hbelow, rfl⟩
      · exact List.forall_mem_nil _
      · exact List.forall_mem_singleton.2 (hread hvalues hbelow)
    exact List.forall_mem_append.2 ⟨List.forall_mem_cons.2 ⟨htext _,
      List.forall_mem_append.2 ⟨ht, hs⟩⟩, hfields _⟩
  | leaf => exact List.forall_mem_append.2 ⟨List.forall_mem_singleton.2 (htext _), hfields _⟩

/-! ## Operators that have been read -/

/-- **What writes an operator again is not deeper** than what it has been read from. -/
lemma depth_json_le_of_ofJson {v : Json} {node : PlanNode} (h : ofJson v = .ok node) :
    node.json.depth ≤ v.depth := by
  induction v using Json.inductionOn generalizing node with
  | null | bool | integer | double | text => cases h
  | array items ih =>
    obtain ⟨_, _, _, ⟨⟩, -⟩ := ofJson_eq_ok_iff.1 h
  | object given ih =>
    obtain ⟨_, _, op, ⟨⟩, -, -, hbuilt⟩ := ofJson_eq_ok_iff.1 h
    rw [json_eq_object, Json.depth, Json.depth, Nat.add_le_add_iff_right, Json.depthMembers_le]
    exact hbuilt.forall_members (p := fun v => v.depth ≤ Json.depthMembers given)
      (fun _ => Nat.zero_le _)
      (fun m hm => Nat.le_trans (Json.depth_collapse_le m.2) (Json.depth_le_depthMembers hm))
      fun m hm source hs => Nat.le_trans (ih m hm hs) (Json.depth_le_depthMembers hm)

/-- **What writes an operator again holds no other values** than what it has been read from, apart
from texts. -/
lemma all_json_of_ofJson {p : Json → Bool} (htext : ∀ s, p (.text s) = true) {v : Json}
    {node : PlanNode} (h : ofJson v = .ok node) (hv : v.all p = true) :
    node.json.all p = true := by
  induction v using Json.inductionOn generalizing node with
  | null | bool | integer | double | text => cases h
  | array items ih =>
    obtain ⟨_, _, _, ⟨⟩, -⟩ := ofJson_eq_ok_iff.1 h
  | object given ih =>
    obtain ⟨_, _, op, ⟨⟩, -, -, hbuilt⟩ := ofJson_eq_ok_iff.1 h
    rw [Json.all, Json.allMembers_iff] at hv
    rw [json_eq_object, Json.all, Json.allMembers_iff]
    exact hbuilt.forall_members (p := fun v => v.all p = true) htext
      (fun m hm => Json.all_collapse (hv m hm)) fun m hm source hs => ih m hm hs (hv m hm)

/-- **Operators in order**: their fields are, and those of all sources. -/
def Canonical : PlanNode → Prop
  | wrapper _ source fields => source.Canonical ∧ Carried ["type", "source"] fields
  | ranking _ t none fields => Carried [] t ∧ Carried ["type", "threshold", "source"] fields
  | ranking _ t (some source) fields =>
    Carried [] t ∧ source.Canonical ∧ Carried ["type", "threshold", "source"] fields
  | leaf _ fields => Carried ["type"] fields

lemma canonical_ranking_iff {kind : RankingKind} {t : Members} {source : Option PlanNode}
    {fields : Members} :
    (ranking kind t source fields).Canonical ↔
      Carried [] t ∧ (∀ node ∈ source, node.Canonical) ∧
        Carried ["type", "threshold", "source"] fields := by
  cases source <;> simp [Canonical]

/-- **Operators that have been read are in order.** -/
lemma canonical_of_ofJson {v : Json} {node : PlanNode} (h : ofJson v = .ok node) :
    node.Canonical := by
  induction v using Json.inductionOn generalizing node with
  | null | bool | integer | double | text => cases h
  | array items ih =>
    obtain ⟨_, _, _, ⟨⟩, -⟩ := ofJson_eq_ok_iff.1 h
  | object given ih =>
    obtain ⟨_, _, op, ⟨⟩, -, -, hbuilt⟩ := ofJson_eq_ok_iff.1 h
    have hread : ∀ {v source}, valuesOf "source" given = [v] → ofJson v = .ok source →
        source.Canonical := fun {v source} hv hs =>
      ih ("source", v) (Json.mem_of_mem_valuesOf (hv ▸ List.mem_singleton_self v)) hs
    cases hbuilt with
    | wrapper hv hs => exact ⟨hread hv hs, carried_otherMembers _ _⟩
    | ranking ht hs =>
      refine canonical_ranking_iff.2 ⟨?_, ?_, carried_otherMembers _ _⟩
      · rcases threshold_cases ht with ⟨-, rfl⟩ | ⟨own, -, rfl⟩
        · exact carried_nil _
        · exact carried_merged own fun _ _ => List.not_mem_nil
      · rcases source_cases hs with ⟨-, rfl⟩ | ⟨v, below, hvalues, hbelow, rfl⟩
        · exact nofun
        · rintro _ ⟨⟩
          exact hread hvalues hbelow
    | leaf => exact carried_otherMembers _ _

/-! ## Operators that are written -/

/-- The kind is written once, by name. -/
lemma Canonical.valuesOf_type {node : PlanNode} (h : node.Canonical) :
    valuesOf "type" node.members = [.text node.operator.name] := by
  cases node with
  | wrapper kind source fields =>
    rw [members, Json.valuesOf_append, h.2.valuesOf_eq_nil (by decide)]
    rfl
  | ranking kind t source fields =>
    have hfields := (canonical_ranking_iff.1 h).2.2
    rw [members, Json.valuesOf_append, hfields.valuesOf_eq_nil (by decide)]
    unfold thresholdMembers
    cases t <;> cases source <;> rfl
  | leaf kind fields =>
    rw [members, Json.valuesOf_append, Carried.valuesOf_eq_nil h (by decide)]
    rfl

/-- The operator's own fields are left out of the others. -/
lemma Canonical.otherMembers_members {kind : RankingKind} {t : Members} {source : Option PlanNode}
    {fields : Members} (h : (ranking kind t source fields).Canonical) :
    otherMembers ["type", "threshold", "source"] (ranking kind t source fields).members =
      fields := by
  refine (canonical_ranking_iff.1 h).2.2.otherMembers_append ?_
  unfold thresholdMembers sourceMembers
  cases t <;> cases source <;> simp

/-- The threshold is written once, or not at all if it is empty. -/
lemma Canonical.found_threshold {kind : RankingKind} {t : Members} {source : Option PlanNode}
    {fields : Members} (h : (ranking kind t source fields).Canonical) :
    Found (fun v t => readThreshold v = .ok t) (· = []) none
      (valuesOf "threshold" (ranking kind t source fields).members) t := by
  obtain ⟨ht, -, hfields⟩ := canonical_ranking_iff.1 h
  rw [members, Json.valuesOf_append, hfields.valuesOf_eq_nil (by decide), List.append_nil]
  have hsource : valuesOf "threshold" (sourceMembers source) = [] := by cases source <;> rfl
  rw [Json.valuesOf_cons_of_ne (by decide), Json.valuesOf_append, hsource,
    List.append_nil]
  cases t with
  | nil => exact .missing rfl
  | cons m rest =>
    have hread : readThreshold (.object (m :: rest)) = .ok (m :: rest) :=
      congrArg Except.ok ht.merged
    exact .read hread

/-- The source is written once, or not at all if there is none. -/
lemma Canonical.found_source {kind : RankingKind} {t : Members} {source : Option PlanNode}
    {fields : Members} (h : (ranking kind t source fields).Canonical)
    (hsource : ∀ node ∈ source, ofJson node.json = .ok node) :
    Found SourceOf (· = none) none (valuesOf "source" (ranking kind t source fields).members)
      source := by
  obtain ⟨-, -, hfields⟩ := canonical_ranking_iff.1 h
  rw [members, Json.valuesOf_append, hfields.valuesOf_eq_nil (by decide), List.append_nil]
  have hthreshold : valuesOf "source" (thresholdMembers t) = [] := by cases t <;> rfl
  rw [Json.valuesOf_cons_of_ne (by decide), Json.valuesOf_append, hthreshold,
    List.nil_append]
  cases source with
  | none => exact .missing rfl
  | some node => exact .read (.inr ⟨node, hsource node rfl, rfl⟩)

/-- An operator in order is read back if it is made of the members that write it. -/
lemma Canonical.ofJson_json_of_built {node : PlanNode} (h : node.Canonical)
    (hbuilt : Built node.members node.operator node) : ofJson node.json = .ok node := by
  refine ofJson_eq_ok_iff.2 ⟨node.members, .text node.operator.name, node.operator,
    json_eq_object node, h.valuesOf_type, ?_, hbuilt⟩
  show Operator.choose node.operator.name = .ok node.operator
  rw [Operator.choose, Operator.ofName?_name]

/-- **Operators in order are made of the members that write them.** -/
lemma Canonical.built_members {node : PlanNode} (h : node.Canonical) :
    Built node.members node.operator node := by
  induction node using Canonical.induct with
  | case1 kind source fields ih =>
    have hother : otherMembers ["type", "source"] (wrapper kind source fields).members = fields :=
      h.2.otherMembers_append (by simp)
    have hvalue : valuesOf "source" (wrapper kind source fields).members = [source.json] := by
      rw [members, Json.valuesOf_append, h.2.valuesOf_eq_nil (by decide)]
      rfl
    have hbuilt : Built (wrapper kind source fields).members (.wrapper kind) _ :=
      .wrapper hvalue (h.1.ofJson_json_of_built (ih h.1))
    rwa [hother] at hbuilt
  | case2 kind t fields =>
    have hbuilt : Built (ranking kind t none fields).members (.ranking kind) _ :=
      .ranking h.found_threshold (h.found_source nofun)
    rwa [h.otherMembers_members] at hbuilt
  | case3 kind t source fields ih =>
    have hsource : ofJson source.json = .ok source := h.2.1.ofJson_json_of_built (ih h.2.1)
    have hbuilt : Built (ranking kind t (some source) fields).members (.ranking kind) _ :=
      .ranking h.found_threshold (h.found_source (by rintro _ ⟨⟩; exact hsource))
    rwa [h.otherMembers_members] at hbuilt
  | case4 kind fields =>
    have hother : otherMembers ["type"] (leaf kind fields).members = fields :=
      Carried.otherMembers_append h (by simp)
    have hbuilt : Built (leaf kind fields).members (.leaf kind) _ := .leaf
    rwa [hother] at hbuilt

/-- **Operators in order are read back.** -/
theorem Canonical.outermost_json {node : PlanNode} (h : node.Canonical) :
    Outermost node.json node :=
  ⟨node.members, node.operator.name, node.operator, json_eq_object node, h.valuesOf_type,
    Operator.ofName?_name node.operator, h.built_members⟩

end PlanNode

/-! ## Plans -/

namespace Plan

/-- **Plans in order**: their fields are, and their operators. -/
structure Canonical (plan : Plan) : Prop where
  /-- The operators are in order. -/
  root : plan.root.Canonical
  /-- The fields beside them are in order. -/
  extra : Carried ["root"] plan.extra

variable {v : Json} {plan : Plan}

/-- **Plans that have been read are in order.** -/
theorem Writes.canonical (h : Writes v plan) : plan.Canonical := by
  obtain ⟨given, rootValue, rfl, -, hroot, hextra⟩ := h
  refine ⟨PlanNode.canonical_of_ofJson hroot.ofJson_eq_ok, ?_⟩
  rw [hextra]
  refine carried_merged _ fun m hm => ?_
  have hne := (List.mem_filter.1 hm).2
  simpa using hne

/-- What holds of the members that write a plan again. -/
lemma Writes.forall_members (h : Writes v plan) {p : Json → Prop}
    (hvalue : ∀ given, v = .object given → ∀ m ∈ given, p m.2.collapse)
    (hroot : ∀ given, v = .object given → ∀ m ∈ given, PlanNode.ofJson m.2 = .ok plan.root →
      p plan.root.json) :
    ∀ m ∈ ("root", plan.root.json) :: plan.extra, p m.2 := by
  obtain ⟨given, rootValue, rfl, hrootValue, hread, hextra⟩ := h
  have hmem : ("root", rootValue) ∈ given :=
    Json.mem_of_mem_valuesOf (hrootValue ▸ List.mem_singleton_self rootValue)
  refine List.forall_mem_cons.2 ⟨hroot given rfl _ hmem hread.ofJson_eq_ok, ?_⟩
  rw [hextra]
  intro m hm
  obtain ⟨m', hm', rfl⟩ := Json.exists_of_mem_merged hm
  exact hvalue given rfl m' (List.mem_filter.1 hm').1

/-- **What writes a plan again is not deeper** than what it has been read from. -/
theorem Writes.depth_json_le (h : Writes v plan) : plan.json.depth ≤ v.depth := by
  obtain ⟨given, -, hv, -⟩ := id h
  rw [hv, Json.depth, json, Json.depth, Nat.add_le_add_iff_right, Json.depthMembers_le]
  refine h.forall_members (p := fun w => w.depth ≤ Json.depthMembers given) ?_ ?_
  · rintro _ hv' m hm
    obtain rfl := Json.object.inj (hv.symm.trans hv')
    exact Nat.le_trans (Json.depth_collapse_le m.2) (Json.depth_le_depthMembers hm)
  · rintro _ hv' m hm hroot
    obtain rfl := Json.object.inj (hv.symm.trans hv')
    exact Nat.le_trans (PlanNode.depth_json_le_of_ofJson hroot) (Json.depth_le_depthMembers hm)

/-- **What writes a plan again holds no other values** than what it has been read from, apart from
texts. -/
theorem Writes.all_json (h : Writes v plan) {p : Json → Bool} (htext : ∀ s, p (.text s) = true)
    (hv : v.all p = true) : plan.json.all p = true := by
  rw [json, Json.all, Json.allMembers_iff]
  refine h.forall_members (p := fun w => w.all p = true) ?_ ?_
  · rintro given rfl m hm
    rw [Json.all, Json.allMembers_iff] at hv
    exact Json.all_collapse (hv m hm)
  · rintro given rfl m hm hroot
    rw [Json.all, Json.allMembers_iff] at hv
    exact PlanNode.all_json_of_ofJson htext hroot (hv m hm)

/-- **Plans in order are read back.** -/
theorem Canonical.writes_json (h : plan.Canonical) : Writes plan.json plan := by
  refine ⟨("root", plan.root.json) :: plan.extra, plan.root.json, rfl, ?_, h.root.outermost_json, ?_⟩
  · rw [Json.valuesOf_cons_self, h.extra.valuesOf_eq_nil (by decide)]
  · have hextra : without "root" plan.extra = plan.extra := by
      refine List.filter_eq_self.2 fun m hm => decide_eq_true fun hname => ?_
      exact h.extra.foreign m hm (by simp [hname])
    rw [Json.without_cons_self, hextra, h.extra.merged]

end Plan

end PagedTopK
