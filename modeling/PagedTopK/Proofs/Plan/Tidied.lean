import PagedTopK.Proofs.Json.Same
import PagedTopK.Proofs.Plan.Writer
import PagedTopK.Proofs.Solution

set_option autoImplicit false

/-!
# What is lost when an operator is written again

An operator is not always written as it has been read. Its kind is written by name, even if it has
been read from a number. An empty threshold is not written, and neither is null in the place of a
source. Apart from that, and from the order of members, the value that is written is the value that
has been read.

## Main definitions

* `Operator.own`, `Operator.omits` — the members that an operator knows, and those that are left out.
* `Json.tidied` — an operator with its kind by name and without the members that are left out.
* `Json.operatorFields` — the other members of the operators from the outermost one down the sources.

## Main results

* `PlanNode.same_json_tidied` — what is written is the tidied operator.
* `PlanNode.same_json_iff` — and the operator that has been read exactly if that is tidy.
* `PlanNode.operatorFields_eq` — the other members keep their values and their order.
-/

namespace PagedTopK

open Json (valuesOf Found isInteger)

/-! ## The members of an operator -/

namespace Operator

/-- The names of the members that an operator knows. -/
def own : Operator → List String
  | wrapper _ => ["type", "source"]
  | ranking _ => ["type", "threshold", "source"]
  | leaf _ => ["type"]

/-- Whether members of a name hold the source. -/
def isSource : Operator → String → Bool
  | leaf _, _ => false
  | _, name => name == "source"

/-- **What is left out** when an operator is written again: an empty threshold, and null in the place
of a source. -/
def omits : Operator → String → Json → Bool
  | ranking _, name, .object [] => name == "threshold"
  | ranking _, name, .null => name == "source"
  | _, _, _ => false

end Operator

namespace Json

/-- The kind of the operator with the given members. -/
def operator? (members : Members) : Option Operator :=
  (members.lookup "type").bind fun v => (Operator.ofJson v).toOption

mutual

/-- **A tidied operator**: kinds are given by name, and what is left out when the operator is written
again is not there. -/
def tidied : Json → Json
  | object members =>
    match operator? members with
    | some op => object (tidiedMembers op members)
    | none => object members
  | v => v

/-- The members of a tidied operator. -/
def tidiedMembers (op : Operator) : Members → Members
  | [] => []
  | (name, v) :: rest =>
    if name = "type" then (name, text op.name) :: tidiedMembers op rest
    else if op.omits name v then tidiedMembers op rest
    else if op.isSource name then (name, tidied v) :: tidiedMembers op rest
    else (name, v) :: tidiedMembers op rest

end

/-- One member of a tidied operator. -/
def tidiedMember (op : Operator) (name : String) (v : Json) : Option Json :=
  if name = "type" then some (text op.name)
  else if op.omits name v then none
  else if op.isSource name then some (tidied v)
  else some v

mutual

/-- **The other members of operators**, from the outermost one down the sources. -/
def operatorFields : Json → List Members
  | object members =>
    match operator? members with
    | some op => members.filter (fun m => !op.own.contains m.1) :: fieldsBelow op members
    | none => []
  | _ => []

/-- The other members of the operators below one with the given members. -/
def fieldsBelow (op : Operator) : Members → List Members
  | [] => []
  | (name, v) :: rest => if op.isSource name then operatorFields v else fieldsBelow op rest

end

variable {members : Members} {name : String} {op : Operator} {v : Json}

lemma tidiedMembers_cons (m : String × Json) (rest : Members) : tidiedMembers op (m :: rest) =
    ((tidiedMember op m.1 m.2).map fun v => (m.1, v)).toList ++ tidiedMembers op rest := by
  rw [tidiedMembers, tidiedMember]
  split_ifs <;> rfl

lemma names_tidiedMembers (op : Operator) (members : Members) :
    ((tidiedMembers op members).map (·.1)).Sublist (members.map (·.1)) := by
  induction members with
  | nil => exact List.Sublist.slnil
  | cons m rest ih =>
    rw [tidiedMembers_cons]
    cases tidiedMember op m.1 m.2 with
    | none => exact ih.cons m.1
    | some v => exact ih.cons_cons m.1

/-- What is found under a name of a tidied operator. -/
lemma lookup_tidiedMembers (h : (members.map (·.1)).Nodup) :
    (tidiedMembers op members).lookup name = (members.lookup name).bind (tidiedMember op name) := by
  induction members with
  | nil => rfl
  | cons m rest ih =>
    obtain ⟨own, v⟩ := m
    rw [List.map_cons, List.nodup_cons] at h
    rw [tidiedMembers_cons, lookup_cons_ite, List.lookup_append, ih h.2]
    by_cases hname : name = own
    · subst hname
      have hrest : rest.lookup name = none := by
        rw [← Option.not_isSome_iff_eq_none, isSome_lookup]
        exact h.1
      rw [if_pos rfl, hrest, Option.bind_some]
      cases tidiedMember op name v <;> simp
    · rw [if_neg hname]
      cases tidiedMember op own v <;> simp [lookup_cons_ite, hname]

/-- Where nothing is to be tidied. -/
lemma tidiedMembers_eq_self (h : ∀ m ∈ members, tidiedMember op m.1 m.2 = some m.2) :
    tidiedMembers op members = members := by
  induction members with
  | nil => rfl
  | cons m rest ih =>
    obtain ⟨hm, hrest⟩ := List.forall_mem_cons.1 h
    rw [tidiedMembers_cons, hm, ih hrest]
    rfl

/-! ## Members with distinct names -/

lemma lookup_eq_head? (name : String) (members : Members) :
    members.lookup name = (valuesOf name members).head? := by
  induction members with
  | nil => rfl
  | cons m rest ih =>
    obtain ⟨own, v⟩ := m
    rw [lookup_cons_ite]
    split
    · next h =>
      subst h
      rw [valuesOf_cons_self]
      rfl
    · next h => rw [valuesOf_cons_of_ne (Ne.symm h), ih]

/-- What is found under a name that comes once. -/
lemma lookup_of_valuesOf (h : valuesOf name members = [v]) : members.lookup name = some v := by
  rw [lookup_eq_head?, h]
  rfl

/-- Members with distinct names need not be merged. -/
lemma merged_of_isDistinct (h : (object members).isDistinct = true) :
    mergeMembers (collapseMembers members) = members :=
  object.inj (collapse_of_isDistinct h)

/-- Some of the members. -/
lemma isDistinct_filter (h : (object members).isDistinct = true) (p : String × Json → Bool) :
    (object (members.filter p)).isDistinct = true := by
  obtain ⟨hnodup, hvalues⟩ := isDistinct_object.1 h
  refine isDistinct_object.2 ⟨?_, fun m hm => hvalues m (List.mem_filter.1 hm).1⟩
  exact ((List.filter_sublist (p := p)).map _).nodup hnodup

end Json

namespace PlanNode

variable {members : Members} {name : String} {op : Operator} {node : PlanNode} {v : Json}

lemma otherMembers_of_isDistinct (own : List String) (h : (Json.object members).isDistinct = true) :
    otherMembers own members = members.filter fun m => !own.contains m.1 :=
  Json.merged_of_isDistinct (Json.isDistinct_filter h _)

lemma lookup_otherMembers (own : List String) (h : (Json.object members).isDistinct = true)
    (name : String) : (otherMembers own members).lookup name =
      if own.contains name then none else members.lookup name := by
  rw [otherMembers_of_isDistinct own h, lookup_filter fun n => !own.contains n]
  cases own.contains name <;> rfl

/-- **How one member of an operator is written again.** -/
inductive WrittenAs (op : Operator) (name : String) : Option Json → Option Json → Prop where
  /-- It is not there. -/
  | absent : WrittenAs op name none none
  /-- It is left out. -/
  | omitted {v : Json} (h : op.omits name v = true) : WrittenAs op name (some v) none
  /-- It holds the source. -/
  | source {v : Json} {below : PlanNode} (hkeep : op.omits name v = false)
    (hname : op.isSource name = true) (h : ofJson v = .ok below) :
    WrittenAs op name (some v) (some below.json)
  /-- It is carried along. -/
  | kept {v : Json} (hkeep : op.omits name v = false) (hname : op.isSource name = false) :
    WrittenAs op name (some v) (some v)

/-- A member that the operator does not know is carried along. -/
lemma WrittenAs.of_notMem (homits : ∀ v, op.omits name v = false)
    (hsource : op.isSource name = false) : WrittenAs op name (members.lookup name)
      (members.lookup name) := by
  cases members.lookup name with
  | none => exact .absent
  | some v => exact .kept (homits v) hsource

/-- The threshold of a ranking operator. -/
lemma writtenAs_threshold {kind : RankingKind} {values : List Json} {t : Members}
    (h : Found (fun v t => readThreshold v = .ok t) (· = []) none values t)
    (hdistinct : ∀ v ∈ values, v.isDistinct = true) :
    WrittenAs (.ranking kind) "threshold" values.head?
      ((thresholdMembers t).lookup "threshold") := by
  rcases threshold_cases h with ⟨rfl, rfl⟩ | ⟨own, rfl, rfl⟩
  · exact .absent
  · rw [Json.merged_of_isDistinct (hdistinct _ List.mem_cons_self)]
    cases own with
    | nil => exact .omitted rfl
    | cons m rest => exact .kept rfl rfl

/-- The source of a ranking operator. -/
lemma writtenAs_source {kind : RankingKind} {values : List Json} {source : Option PlanNode}
    (h : Found SourceOf (· = none) none values source) :
    WrittenAs (.ranking kind) "source" values.head? ((sourceMembers source).lookup "source") := by
  rcases source_cases h with ⟨rfl | rfl, rfl⟩ | ⟨v, below, rfl, hbelow, rfl⟩
  · exact .absent
  · exact .omitted rfl
  · refine .source ?_ rfl hbelow
    obtain ⟨own, _, _, rfl, -⟩ := ofJson_eq_ok_iff.1 hbelow
    cases own <;> rfl

/-- **How the members of an operator are written again**, apart from its kind. -/
lemma Built.writtenAs (h : Built members op node)
    (hdistinct : (Json.object members).isDistinct = true) (hname : name ≠ "type") :
    WrittenAs op name (members.lookup name) (node.members.lookup name) := by
  cases h with
  | @wrapper kind source v hvalue hsource =>
    rw [PlanNode.members, List.cons_append, List.cons_append, List.nil_append,
      lookup_cons_ite, if_neg hname, lookup_cons_ite,
      lookup_otherMembers _ hdistinct]
    by_cases hs : name = "source"
    · subst hs
      rw [if_pos rfl, Json.lookup_of_valuesOf hvalue]
      exact .source rfl rfl hsource
    · have hown : ["type", "source"].contains name = false := by simp [hname, hs]
      rw [if_neg hs, hown, if_neg Bool.false_ne_true]
      exact .of_notMem (fun _ => rfl) (beq_eq_false_iff_ne.2 hs)
  | @ranking kind t source ht hsource =>
    rw [PlanNode.members, List.cons_append, lookup_cons_ite, if_neg hname,
      List.lookup_append, List.lookup_append, lookup_otherMembers _ hdistinct]
    by_cases hthreshold : name = "threshold"
    · subst hthreshold
      have hvalue : ∀ v ∈ valuesOf "threshold" members, v.isDistinct = true := fun v hv =>
        (Json.isDistinct_object.1 hdistinct).2 _ (Json.mem_of_mem_valuesOf hv)
      have hnone : (sourceMembers source).lookup "threshold" = none := by cases source <;> rfl
      have hown : ["type", "threshold", "source"].contains "threshold" = true := by decide
      rw [Json.lookup_eq_head?, hnone, if_pos hown, Option.or_none, Option.or_none]
      exact writtenAs_threshold ht hvalue
    by_cases hs : name = "source"
    · subst hs
      have hnone : (thresholdMembers t).lookup "source" = none := by cases t <;> rfl
      have hown : ["type", "threshold", "source"].contains "source" = true := by decide
      rw [Json.lookup_eq_head?, hnone, if_pos hown, Option.none_or, Option.or_none]
      exact writtenAs_source hsource
    · have hown : ["type", "threshold", "source"].contains name = false := by
        simp [hname, hthreshold, hs]
      have ht : (thresholdMembers t).lookup name = none := by
        cases t <;> simp [thresholdMembers, lookup_cons_ite, hthreshold]
      have hsource : (sourceMembers source).lookup name = none := by
        cases source <;> simp [sourceMembers, lookup_cons_ite, hs]
      rw [ht, hsource, hown, if_neg Bool.false_ne_true, Option.none_or, Option.none_or]
      refine .of_notMem (fun v => ?_) (beq_eq_false_iff_ne.2 hs)
      unfold Operator.omits
      split
      · exact beq_eq_false_iff_ne.2 hthreshold
      · exact beq_eq_false_iff_ne.2 hs
      · rfl
  | leaf =>
    rw [PlanNode.members, List.cons_append, List.nil_append, lookup_cons_ite,
      if_neg hname, lookup_otherMembers _ hdistinct]
    have hown : ["type"].contains name = false := by simp [hname]
    rw [hown, if_neg Bool.false_ne_true]
    exact .of_notMem (fun _ => rfl) rfl

/-! ## Operators in order -/

/-- Members that an operator knows, and fields that are carried along after them. -/
lemma isDistinct_append_carried {own : List String} {front fields : Members}
    (hfields : Carried own fields) (hnodup : (front.map (·.1)).Nodup)
    (hown : ∀ m ∈ front, m.1 ∈ own) (hvalues : ∀ m ∈ front, m.2.isDistinct = true) :
    (Json.object (front ++ fields)).isDistinct = true := by
  refine Json.isDistinct_object.2 ⟨?_, List.forall_mem_append.2 ⟨hvalues, hfields.distinct⟩⟩
  rw [List.map_append, List.nodup_append]
  refine ⟨hnodup, hfields.nodup, ?_⟩
  rintro _ ha _ hb rfl
  obtain ⟨m, hm, hname⟩ := List.mem_map.1 ha
  obtain ⟨n, hn, rfl⟩ := List.mem_map.1 hb
  exact hfields.foreign n hn (hname ▸ hown m hm)

/-- An operator in order is written with distinct names. -/
lemma Canonical.isDistinct_json (h : node.Canonical) : node.json.isDistinct = true := by
  have hthreshold : ∀ {t : Members}, Carried [] t → (Json.object t).isDistinct = true :=
    fun ht => Json.isDistinct_object.2 ⟨ht.nodup, ht.distinct⟩
  induction node using Canonical.induct with
  | case1 kind source fields ih =>
    rw [json_eq_object, PlanNode.members]
    exact isDistinct_append_carried h.2 (by simp) (by simp) (by simpa using ⟨rfl, ih h.1⟩)
  | case2 kind t fields =>
    rw [json_eq_object, PlanNode.members]
    refine isDistinct_append_carried h.2 ?_ ?_ ?_ <;>
      cases t <;> simp [thresholdMembers, sourceMembers]
    · rfl
    · exact ⟨rfl, hthreshold h.1⟩
  | case3 kind t source fields ih =>
    rw [json_eq_object, PlanNode.members]
    refine isDistinct_append_carried h.2.2 ?_ ?_ ?_ <;>
      cases t <;> simp [thresholdMembers, sourceMembers]
    · exact ⟨rfl, ih h.2.1⟩
    · exact ⟨rfl, hthreshold h.1, ih h.2.1⟩
  | case4 kind fields =>
    rw [json_eq_object, PlanNode.members]
    exact isDistinct_append_carried h (by simp) (by simp) (by simp; rfl)

/-! ## Equality of what is read and what is written -/

/-- An operator that has been read has a kind. -/
lemma exists_built (h : ofJson v = .ok node) : ∃ members kindValue op, v = .object members ∧
    valuesOf "type" members = [kindValue] ∧ Operator.ofJson kindValue = .ok op ∧
      Json.operator? members = some op ∧ Built members op node := by
  obtain ⟨members, kindValue, op, rfl, hvalue, hkind, hbuilt⟩ := ofJson_eq_ok_iff.1 h
  refine ⟨members, kindValue, op, rfl, hvalue, hkind, ?_, hbuilt⟩
  rw [Json.operator?, Json.lookup_of_valuesOf hvalue, Option.bind_some, hkind]
  rfl

/-- The kind of an operator is written first. -/
lemma Built.lookup_type (h : Built members op node) :
    node.members.lookup "type" = some (.text op.name) := by
  cases h <;> rfl

/-- A member that is written again is that of the tidied operator. -/
lemma WrittenAs.rel_tidiedMember {found written : Option Json} (h : WrittenAs op name found written)
    (hname : name ≠ "type") (hkept : ∀ v ∈ found, v.same v = true)
    (hsource : ∀ v ∈ found, ∀ below, ofJson v = .ok below → below.json.same v.tidied = true) :
    Option.Rel (fun v w => v.same w = true) written (found.bind (Json.tidiedMember op name)) := by
  cases h with
  | absent => exact .none
  | omitted homits =>
    rw [Option.bind_some, Json.tidiedMember, if_neg hname, if_pos homits]
    exact .none
  | source hkeep hholds hread =>
    rw [Option.bind_some, Json.tidiedMember, if_neg hname, hkeep, if_neg Bool.false_ne_true,
      if_pos hholds]
    exact .some (hsource _ rfl _ hread)
  | kept hkeep hholds =>
    rw [Option.bind_some, Json.tidiedMember, if_neg hname, hkeep, if_neg Bool.false_ne_true,
      hholds, if_neg Bool.false_ne_true]
    exact .some (hkept _ rfl)

/-- A member that is written again as it has been is tidy. -/
lemma WrittenAs.tidiedMember_eq {written : Option Json} (h : WrittenAs op name (some v) written)
    (hname : name ≠ "type") (hsame : Option.Rel (fun v w => v.same w = true) written (some v))
    (hsource : ∀ below, ofJson v = .ok below → below.json.same v = true → v.tidied = v) :
    Json.tidiedMember op name v = some v := by
  cases h with
  | omitted homits => cases hsame
  | source hkeep hholds hread =>
    obtain ⟨hsame⟩ := hsame
    rw [Json.tidiedMember, if_neg hname, hkeep, if_neg Bool.false_ne_true, if_pos hholds,
      hsource _ hread hsame]
  | kept hkeep hholds =>
    rw [Json.tidiedMember, if_neg hname, hkeep, if_neg Bool.false_ne_true, hholds,
      if_neg Bool.false_ne_true]

/-- An operator that has been read is written with distinct names. -/
lemma nodup_names_members (h : ofJson v = .ok node) : (node.members.map (·.1)).Nodup := by
  have hjson := (canonical_of_ofJson h).isDistinct_json
  rw [json_eq_object] at hjson
  exact (Json.isDistinct_object.1 hjson).1

/-- **What is written is the tidied operator.**

**Proof sketch.** By induction on the value that has been read. Both objects have distinct names, so
that they are compared name by name (`Json.same_object_iff`), and every member is written again in
one of four ways (`Built.writtenAs`). -/
theorem same_json_tidied (h : ofJson v = .ok node) (hdistinct : v.isDistinct = true)
    (hinteger : v.all isInteger = true) : node.json.same v.tidied = true := by
  induction v using Json.inductionOn generalizing node with
  | null | bool | integer | double | text => cases h
  | array items ih =>
    obtain ⟨_, _, _, ⟨⟩, -⟩ := exists_built h
  | object members ih =>
    have hwritten := nodup_names_members h
    obtain ⟨_, kindValue, op, ⟨⟩, hkindValue, hkind, hop, hbuilt⟩ := exists_built h
    obtain ⟨hnodup, hvalues⟩ := Json.isDistinct_object.1 hdistinct
    rw [Json.all, Json.allMembers_iff] at hinteger
    rw [Json.tidied, hop, json_eq_object, Json.same_object_iff hwritten
      ((Json.names_tidiedMembers op members).nodup hnodup)]
    intro name
    rw [Json.lookup_tidiedMembers hnodup]
    by_cases hname : name = "type"
    · subst hname
      rw [hbuilt.lookup_type, Json.lookup_of_valuesOf hkindValue]
      exact .some (Json.same_refl rfl rfl)
    have hmem : ∀ v ∈ members.lookup name, (name, v) ∈ members := fun v hv =>
      (lookup_eq_some_iff hnodup).1 hv
    refine (hbuilt.writtenAs hdistinct hname).rel_tidiedMember hname (fun v hv => ?_)
      fun v hv below hread => ?_
    · exact Json.same_refl (hvalues _ (hmem v hv)) (hinteger _ (hmem v hv))
    · exact ih _ (hmem v hv) hread (hvalues _ (hmem v hv)) (hinteger _ (hmem v hv))

/-- **What is written is what has been read** exactly if that is tidy. -/
theorem same_json_iff (h : ofJson v = .ok node) (hdistinct : v.isDistinct = true)
    (hinteger : v.all isInteger = true) : node.json.same v = true ↔ v.tidied = v := by
  refine ⟨fun hsame => ?_, fun htidy => htidy ▸ same_json_tidied h hdistinct hinteger⟩
  clear hinteger
  induction v using Json.inductionOn generalizing node with
  | null | bool | integer | double | text => cases h
  | array items ih =>
    obtain ⟨_, _, _, ⟨⟩, -⟩ := exists_built h
  | object members ih =>
    have hwritten := nodup_names_members h
    obtain ⟨_, kindValue, op, ⟨⟩, hkindValue, hkind, hop, hbuilt⟩ := exists_built h
    obtain ⟨hnodup, hvalues⟩ := Json.isDistinct_object.1 hdistinct
    rw [json_eq_object, Json.same_object_iff hwritten hnodup] at hsame
    rw [Json.tidied, hop]
    refine congrArg Json.object (Json.tidiedMembers_eq_self fun m hm => ?_)
    have hm' := (lookup_eq_some_iff hnodup).2 hm
    have hrel := hsame m.1
    rw [hm'] at hrel
    by_cases hname : m.1 = "type"
    · rw [hname, hbuilt.lookup_type] at hrel
      obtain ⟨hkindSame⟩ := hrel
      have htext : Json.text op.name = m.2 := by
        generalize m.2 = v at hkindSame
        cases v with
        | text s => exact congrArg Json.text (eq_of_beq hkindSame)
        | null | bool | integer | double | array | object => cases hkindSame
      rw [Json.tidiedMember, if_pos hname, htext]
    · have hform := hbuilt.writtenAs hdistinct hname
      rw [hm'] at hform
      exact hform.tidiedMember_eq hname hrel fun below hread hbelow =>
        ih m hm hread (hvalues m hm) hbelow

/-! ## The other members -/

/-- The fields that the operators carry, from the outermost one down the sources. -/
def fieldsAlong : PlanNode → List Members
  | wrapper _ source fields => fields :: source.fieldsAlong
  | ranking _ _ none fields => [fields]
  | ranking _ _ (some source) fields => fields :: source.fieldsAlong
  | leaf _ fields => [fields]

lemma fieldsBelow_leaf (kind : LeafKind) (members : Members) :
    Json.fieldsBelow (.leaf kind) members = [] := by
  induction members with
  | nil => rfl
  | cons m rest ih =>
    rw [Json.fieldsBelow, ← ih]
    rfl

lemma fieldsBelow_eq_lookup (hop : ∀ name, op.isSource name = (name == "source"))
    (members : Members) : Json.fieldsBelow op members =
      ((members.lookup "source").map Json.operatorFields).getD [] := by
  induction members with
  | nil => rfl
  | cons m rest ih =>
    obtain ⟨own, v⟩ := m
    rw [Json.fieldsBelow, hop, lookup_cons_ite]
    by_cases hname : own = "source"
    · simp [hname]
    · rw [beq_eq_false_iff_ne.2 hname, if_neg Bool.false_ne_true, if_neg (Ne.symm hname), ih]

/-- **The other members of operators are the fields that they carry**, in the same order. -/
theorem operatorFields_eq (h : ofJson v = .ok node) (hdistinct : v.isDistinct = true) :
    Json.operatorFields v = node.fieldsAlong := by
  induction v using Json.inductionOn generalizing node with
  | null | bool | integer | double | text => cases h
  | array items ih =>
    obtain ⟨_, _, _, ⟨⟩, -⟩ := exists_built h
  | object members ih =>
    obtain ⟨_, kindValue, op, ⟨⟩, -, -, hop, hbuilt⟩ := exists_built h
    have hvalues := (Json.isDistinct_object.1 hdistinct).2
    have hbelow : ∀ {v below}, valuesOf "source" members = [v] → ofJson v = .ok below →
        Json.operatorFields v = below.fieldsAlong := by
      intro v below hv hread
      have hmem := Json.mem_of_mem_valuesOf (hv ▸ List.mem_singleton_self v)
      exact ih _ hmem hread (hvalues _ hmem)
    rw [Json.operatorFields, hop]
    simp only
    cases hbuilt with
    | wrapper hvalue hsource =>
      rw [fieldsBelow_eq_lookup (fun _ => rfl), Json.lookup_of_valuesOf hvalue,
        otherMembers_of_isDistinct _ hdistinct, fieldsAlong, ← hbelow hvalue hsource]
      rfl
    | @ranking kind t source ht hsource =>
      rw [fieldsBelow_eq_lookup (fun _ => rfl), Json.lookup_eq_head?,
        otherMembers_of_isDistinct _ hdistinct]
      rcases source_cases hsource with ⟨hv | hv, rfl⟩ | ⟨v, below, hv, hread, rfl⟩
      · rw [hv]
        rfl
      · rw [hv]
        rfl
      · rw [hv, fieldsAlong, ← hbelow hv hread]
        rfl
    | leaf =>
      rw [fieldsBelow_leaf, otherMembers_of_isDistinct _ hdistinct]
      rfl

end PlanNode

end PagedTopK
