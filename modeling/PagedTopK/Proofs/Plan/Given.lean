import PagedTopK.Proofs.Plan.Change
import PagedTopK.Proofs.Plan.Tidied

set_option autoImplicit false

/-!
# Values that are given a threshold

The same change can be made to a plan and to the value that it is read from: there the threshold of
the outermost ranking operator is replaced, and nothing else is touched.

## Main definitions

* `Json.giveThreshold` — the value of an operator with another threshold.

## Main results

* `PlanNode.ofJson_giveThreshold` — the changed value is read as the changed operator.
* `Json.isDistinct_giveThreshold`, `Json.all_giveThreshold` — names stay distinct, and nothing but
  texts comes into the value.
-/

namespace PagedTopK

open Json (valuesOf Found isInteger)

namespace Json

/-- The threshold among the members of an operator, none being empty. -/
def thresholdOf (members : Members) : Members :=
  match members.lookup "threshold" with
  | some (object t) => t
  | _ => []

mutual

/-- **The value of an operator whose outermost ranking operator has been given threshold values.**
All other members stay where they are. -/
def giveThreshold (values : List (String × String)) : Json → Json
  | object members =>
    match operator? members with
    | some (.ranking _) =>
      object (setMember "threshold"
        (object (PlanNode.withValues (thresholdOf members) values)) members)
    | _ => object (giveBelow values members)
  | v => v

/-- The members of a wrapper, its source changed. -/
def giveBelow (values : List (String × String)) : Members → Members
  | [] => []
  | (name, v) :: rest =>
    (name, if name = "source" then giveThreshold values v else v) :: giveBelow values rest

end

variable {members : Members} {name other : String} {v : Json} {values : List (String × String)}

lemma giveBelow_eq_map (values : List (String × String)) (members : Members) :
    giveBelow values members =
      members.map fun m => (m.1, if m.1 = "source" then giveThreshold values m.2 else m.2) := by
  induction members with
  | nil => rfl
  | cons m rest ih => rw [giveBelow, ih, List.map_cons]

lemma filter_giveBelow (keep : String → Bool) (h : keep "source" = false) :
    (giveBelow values members).filter (fun m => keep m.1) = members.filter fun m => keep m.1 := by
  induction members with
  | nil => rfl
  | cons m rest ih =>
    obtain ⟨own, v⟩ := m
    by_cases hname : own = "source"
    · subst hname
      simp [giveBelow, h, ih]
    · simp [giveBelow, hname, ih, List.filter_cons]

lemma valuesOf_giveBelow_of_ne (h : name ≠ "source") :
    valuesOf name (giveBelow values members) = valuesOf name members := by
  rw [valuesOf, valuesOf, filter_giveBelow (fun n => n = name) (decide_eq_false (Ne.symm h))]

lemma valuesOf_giveBelow_source : valuesOf "source" (giveBelow values members) =
    (valuesOf "source" members).map (giveThreshold values) := by
  induction members with
  | nil => rfl
  | cons m rest ih =>
    obtain ⟨own, v⟩ := m
    by_cases hname : own = "source"
    · subst hname
      rw [giveBelow, if_pos rfl, valuesOf_cons_self, valuesOf_cons_self, ih, List.map_cons]
    · rw [giveBelow, valuesOf_cons_of_ne hname, valuesOf_cons_of_ne hname, ih]

lemma filter_setMember (keep : String → Bool) (h : keep name = false) (value : Json) :
    (setMember name value members).filter (fun m => keep m.1) =
      members.filter fun m => keep m.1 := by
  induction members with
  | nil => simp [setMember, h]
  | cons m rest ih =>
    unfold setMember
    split
    · next hname => simp [h, hname]
    · simp [List.filter_cons, ih]

lemma valuesOf_setMember_of_ne (h : other ≠ name) (value : Json) :
    valuesOf other (setMember name value members) = valuesOf other members := by
  rw [valuesOf, valuesOf, filter_setMember (fun n => n = other) (decide_eq_false (Ne.symm h))]

lemma valuesOf_setMember_self (h : (members.map (·.1)).Nodup) (value : Json) :
    valuesOf name (setMember name value members) = [value] := by
  induction members with
  | nil => simp [setMember]
  | cons m rest ih =>
    obtain ⟨own, v⟩ := m
    rw [List.map_cons, List.nodup_cons] at h
    unfold setMember
    split
    · next hname =>
      have hrest : valuesOf name rest = [] := valuesOf_eq_nil_iff.2 (hname ▸ h.1)
      rw [valuesOf_cons_self, hrest]
    · next hname => rw [valuesOf_cons_of_ne hname, ih h.2]

/-- The threshold of distinct members is in order. -/
lemma carried_thresholdOf (h : (object members).isDistinct = true) :
    Carried [] (thresholdOf members) := by
  unfold thresholdOf
  split
  · next t ht =>
    obtain ⟨hnodup, hvalues⟩ := isDistinct_object.1 h
    have hmem := (lookup_eq_some_iff hnodup).1 ht
    obtain ⟨hnames, hdistinct⟩ := isDistinct_object.1 (hvalues _ hmem)
    exact ⟨hnames, hdistinct, fun _ _ => List.not_mem_nil⟩
  · exact carried_nil _

/-- **Names stay distinct.** -/
lemma isDistinct_giveThreshold (h : v.isDistinct = true) :
    (giveThreshold values v).isDistinct = true := by
  induction v using inductionOn with
  | null | bool | integer | double | text | array => exact h
  | object members ih =>
    obtain ⟨hnodup, hvalues⟩ := isDistinct_object.1 h
    unfold giveThreshold
    split
    · obtain ⟨hnames, hdistinct, -⟩ :=
        PlanNode.carried_withValues (carried_thresholdOf h) values
      refine isDistinct_object.2 ⟨nodup_names_setMember hnodup _ _, fun m hm => ?_⟩
      rcases mem_setMember hm with rfl | hm
      · exact isDistinct_object.2 ⟨hnames, hdistinct⟩
      · exact hvalues m hm
    · rw [giveBelow_eq_map, isDistinct_object, List.map_map]
      refine ⟨hnodup, fun m hm => ?_⟩
      obtain ⟨own, hown, rfl⟩ := List.mem_map.1 hm
      simp only
      split
      · exact ih own hown (hvalues own hown)
      · exact hvalues own hown

/-- **Nothing but texts comes into the value.** -/
lemma all_giveThreshold {p : Json → Bool} (htext : ∀ s, p (text s) = true)
    (h : v.all p = true) : (giveThreshold values v).all p = true := by
  induction v using inductionOn with
  | null | bool | integer | double | text | array => exact h
  | object members ih =>
    rw [all, allMembers_iff] at h
    unfold giveThreshold
    split
    · rw [all, allMembers_iff]
      intro m hm
      rcases mem_setMember hm with rfl | hm
      · rw [all, allMembers_iff]
        refine PlanNode.forall_mem_withValues (fun v => v.all p = true) htext ?_ values
        unfold thresholdOf
        split
        · next t ht =>
          exact allMembers_iff.1 (h _ (mem_of_lookup ht))
        · exact List.forall_mem_nil _
      · exact h m hm
    · rw [giveBelow_eq_map, all, allMembers_iff]
      intro m hm
      obtain ⟨own, hown, rfl⟩ := List.mem_map.1 hm
      simp only
      split
      · exact ih own hown (h own hown)
      · exact h own hown

end Json

namespace PlanNode

open Json (giveThreshold giveBelow)

variable {members given : Members} {node changed : PlanNode} {v : Json}
  {values : List (String × String)}

/-- Members that differ only in what an operator knows carry the same fields. -/
lemma otherMembers_congr {own : List String} (h : given.filter (fun m => !own.contains m.1) =
      members.filter fun m => !own.contains m.1) :
    otherMembers own given = otherMembers own members := by
  rw [otherMembers, otherMembers, h]

/-- The threshold that has been read from distinct members. -/
lemma eq_thresholdOf {t : Members} (hdistinct : (Json.object members).isDistinct = true)
    (h : Found (fun v t => readThreshold v = .ok t) (· = []) none
      (valuesOf "threshold" members) t) : t = Json.thresholdOf members := by
  rw [Json.thresholdOf, Json.lookup_eq_head?]
  rcases threshold_cases h with ⟨hvalues, rfl⟩ | ⟨own, hvalues, rfl⟩
  · rw [hvalues]
    rfl
  · have hmem := Json.mem_of_mem_valuesOf (hvalues ▸ List.mem_singleton_self (Json.object own))
    rw [hvalues]
    exact Json.merged_of_isDistinct ((Json.isDistinct_object.1 hdistinct).2 _ hmem)

/-- **The changed value is read as the changed operator.** -/
theorem ofJson_giveThreshold (h : ofJson v = .ok node) (hdistinct : v.isDistinct = true)
    (hset : node.setThreshold values = .ok changed) :
    ofJson (giveThreshold values v) = .ok changed := by
  induction v using Json.inductionOn generalizing node changed with
  | null | bool | integer | double | text => cases h
  | array items ih =>
    obtain ⟨_, _, _, ⟨⟩, -⟩ := exists_built h
  | object members ih =>
    have hcanonical := canonical_of_ofJson h
    obtain ⟨_, kindValue, op, ⟨⟩, hkindValue, hkind, hop, hbuilt⟩ := exists_built h
    obtain ⟨hnodup, hvalues⟩ := Json.isDistinct_object.1 hdistinct
    cases hbuilt with
    | @wrapper kind source v hvalue hsource =>
      obtain ⟨below, hbelow, rfl⟩ := setThreshold_wrapper_eq_ok_iff.1 hset
      have hmem := Json.mem_of_mem_valuesOf (hvalue ▸ List.mem_singleton_self v)
      have hread := ih _ hmem hsource (hvalues _ hmem) hbelow
      have hbuilt : Built (giveBelow values members) (.wrapper kind) _ :=
        .wrapper (by rw [Json.valuesOf_giveBelow_source, hvalue, List.map_singleton]) hread
      rw [otherMembers_congr (Json.filter_giveBelow
        (fun n => !(["type", "source"].contains n)) (by decide))] at hbuilt
      have hgive : giveThreshold values (.object members) = .object (giveBelow values members) := by
        rw [giveThreshold, hop]
      have htype : valuesOf "type" (giveBelow values members) = [kindValue] := by
        rw [Json.valuesOf_giveBelow_of_ne (by decide), hkindValue]
      exact ofJson_eq_ok_iff.2 ⟨_, kindValue, _, hgive, htype, hkind, hbuilt⟩
    | @ranking kind t source ht hsource =>
      cases hset
      have hcarried := (canonical_ranking_iff.1 hcanonical).1
      set t' := withValues t values with ht'
      have hgive : giveThreshold values (.object members) =
          .object (Json.setMember "threshold" (.object t') members) := by
        rw [giveThreshold, hop, ← eq_thresholdOf hdistinct ht]
      have hthreshold : Found (fun v t => readThreshold v = .ok t) (· = []) none
          (valuesOf "threshold" (Json.setMember "threshold" (.object t') members)) t' := by
        rw [Json.valuesOf_setMember_self hnodup]
        exact .read (congrArg Except.ok (carried_withValues hcarried values).merged)
      have hbuilt : Built (Json.setMember "threshold" (.object t') members) (.ranking kind) _ :=
        .ranking hthreshold (by rwa [Json.valuesOf_setMember_of_ne (by decide)])
      rw [otherMembers_congr (Json.filter_setMember
        (fun n => !(["type", "threshold", "source"].contains n)) (by decide) _)] at hbuilt
      refine ofJson_eq_ok_iff.2 ⟨_, kindValue, _, hgive, ?_, hkind, hbuilt⟩
      rw [Json.valuesOf_setMember_of_ne (by decide), hkindValue]
    | leaf => cases hset

end PlanNode

end PagedTopK
