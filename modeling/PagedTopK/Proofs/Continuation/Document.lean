import PagedTopK.Proofs.Continuation.Bounds
import PagedTopK.Proofs.Plan.Given

set_option autoImplicit false

/-!
# What a threshold leaves untouched

A token that has been given threshold values holds the value of the old token with another
threshold, as far as operators are written as they have been read. What is lost of a value is never
a field that is carried along.

## Main definitions

* `Json.atRoot` — a plan with another outermost operator.
* `Json.planFields` — the fields of a plan that are carried along.

## Main results

* `Continuation.withThreshold_document` — what a token holds after it has been given threshold values.
* `Continuation.empty_members_lost` — a value that is not written again.
-/

namespace PagedTopK

open Json (valuesOf without isInteger giveThreshold tidied)

namespace Json

/-- **A plan whose outermost operator has been changed.** -/
def atRoot (f : Json → Json) : Json → Json
  | object members => object (members.map fun m => (m.1, if m.1 = "root" then f m.2 else m.2))
  | v => v

/-- **The fields of a plan that are carried along**: those beside the outermost operator, and those
of the operators from the outermost one down the sources. -/
def planFields : Json → List Members
  | object members =>
    without "root" members :: ((members.lookup "root").map operatorFields).getD []
  | _ => []

variable {given : Members} {name : String} {root v : Json} {f g : Json → Json}

lemma atRoot_atRoot (v : Json) : (v.atRoot g).atRoot f = v.atRoot (f ∘ g) := by
  cases v with
  | object members =>
    rw [atRoot, atRoot, atRoot, List.map_map]
    congr 2
    funext m
    by_cases hname : m.1 = "root" <;> simp [hname]
  | null | bool | integer | double | text | array => rfl

lemma lookup_atRoot (f : Json → Json) (given : Members) (name : String) :
    (given.map fun m => (m.1, if m.1 = "root" then f m.2 else m.2)).lookup name =
      (given.lookup name).map fun v => if name = "root" then f v else v := by
  induction given with
  | nil => rfl
  | cons m rest ih =>
    obtain ⟨own, v⟩ := m
    rw [List.map_cons, lookup_cons_ite, lookup_cons_ite, ih]
    split
    · next h =>
      subst h
      rfl
    · rfl

lemma atRoot_eq_atRoot_iff (h : valuesOf "root" given = [root]) :
    (object given).atRoot f = (object given).atRoot g ↔ f root = g root := by
  rw [atRoot, atRoot, object.injEq, List.map_inj_left]
  constructor
  · intro hall
    have hroot := hall _ (mem_of_mem_valuesOf (h ▸ List.mem_singleton_self root))
    rw [Prod.mk.injEq, if_pos rfl, if_pos rfl] at hroot
    exact hroot.2
  · rintro hroot ⟨name, v⟩ hm
    by_cases hname : name = "root"
    · subst hname
      have hv : v ∈ valuesOf "root" given :=
        List.mem_map.2 ⟨_, List.mem_filter.2 ⟨hm, decide_eq_true rfl⟩, rfl⟩
      rw [h, List.mem_singleton] at hv
      simp [hv, hroot]
    · simp [hname]

/-- A plan is compared with another one that differs in the outermost operator. -/
lemma same_atRoot_iff (h : valuesOf "root" given = [root])
    (hdistinct : (object given).isDistinct = true) (hinteger : (object given).all isInteger = true) :
    (object (("root", v) :: without "root" given)).same ((object given).atRoot f) = true ↔
      v.same (f root) = true := by
  obtain ⟨hnodup, hvalues⟩ := isDistinct_object.1 hdistinct
  rw [all, allMembers_iff] at hinteger
  have hnames : (List.map (·.1) (("root", v) :: without "root" given)).Nodup := by
    refine List.nodup_cons.2 ⟨?_, (List.filter_sublist.map _).nodup hnodup⟩
    rintro hmem
    obtain ⟨m, hm, hname⟩ := List.mem_map.1 hmem
    exact of_decide_eq_true (List.mem_filter.1 hm).2 hname
  have hgiven : ((given.map fun m => (m.1, if m.1 = "root" then f m.2 else m.2)).map
      (·.1)).Nodup := by
    rwa [List.map_map]
  rw [atRoot, same_object_iff hnames hgiven]
  constructor
  · intro hall
    have hrel := hall "root"
    rw [List.lookup_cons_self, lookup_atRoot, lookup_of_valuesOf h] at hrel
    obtain ⟨hsame⟩ := hrel
    exact hsame
  · intro hsame name
    rw [lookup_atRoot, lookup_cons_ite]
    by_cases hname : name = "root"
    · subst hname
      rw [if_pos rfl, lookup_of_valuesOf h]
      exact .some hsame
    · have hothers : (without "root" given).lookup name = given.lookup name := by
        rw [without, lookup_filter fun n => n ≠ "root"]
        exact if_pos (decide_eq_true hname)
      rw [if_neg hname, hothers]
      cases hv : given.lookup name with
      | none => exact .none
      | some w =>
        have hmem := mem_of_lookup hv
        simp only [Option.map_some, if_neg hname]
        exact .some (same_refl (hvalues _ hmem) (hinteger _ hmem))

end Json

/-- The fields beside the outermost operator of distinct members. -/
lemma Plan.Writes.exists_root {v : Json} {plan : Plan} (h : Writes v plan)
    (hdistinct : v.isDistinct = true) : ∃ given root, v = .object given ∧
      valuesOf "root" given = [root] ∧ PlanNode.ofJson root = .ok plan.root ∧
        plan.extra = without "root" given := by
  obtain ⟨given, root, rfl, hroot, hread, hextra⟩ := h
  refine ⟨given, root, rfl, hroot, hread.ofJson_eq_ok, ?_⟩
  rw [hextra, without, Json.merged_of_isDistinct (Json.isDistinct_filter hdistinct _)]

namespace PlanNode

/-- Giving values does not touch what is carried along. -/
lemma fieldsAlong_setThreshold {node changed : PlanNode} {values : List (String × String)}
    (h : node.setThreshold values = .ok changed) : changed.fieldsAlong = node.fieldsAlong := by
  rw [setThreshold_eq_ok_iff] at h
  induction h with
  | wrapper _ ih => rw [fieldsAlong, fieldsAlong, ih]
  | @ranking kind t source fields => cases source <;> rfl

end PlanNode

namespace Continuation

variable {token pushed : String} {values : Solution} {v : Json}

/-- **What a token holds after it has been given threshold values.** The value in the old token has
distinct names, and its numbers are integers. Then the new token holds the same value with another
threshold, tidied: that is the value itself unless some operator has its kind given by a number, or
is a ranking operator with null for its source or, below the first one, with an empty threshold. The
fields that are carried along keep their values and their order in any case.

**Proof sketch.** The changed value is read as the changed plan (`PlanNode.ofJson_giveThreshold`). What
writes that plan is the tidied value (`PlanNode.same_json_tidied`), and the value itself exactly if
it is tidy (`PlanNode.same_json_iff`). The fields that are carried along are those of the operators
(`PlanNode.operatorFields_eq`), which a threshold does not touch. -/
theorem withThreshold_document (hholds : Holds token v) (hdistinct : v.isDistinct = true)
    (hinteger : v.all isInteger = true) (hpushed : withThreshold token values = .ok pushed) :
    ∃ written, Holds pushed written ∧
      written.same ((v.atRoot (giveThreshold values.bindings)).atRoot tidied) = true ∧
      written.planFields = v.planFields ∧
      (written.same (v.atRoot (giveThreshold values.bindings)) = true ↔
        (v.atRoot (giveThreshold values.bindings)).atRoot tidied =
          v.atRoot (giveThreshold values.bindings)) := by
  obtain ⟨plan, root, hplan, hset, rfl⟩ := withThreshold_eq_ok_iff.1 hpushed
  obtain ⟨-, w, hw, -, hwrites⟩ := decode_eq_ok_iff.1 hplan
  obtain rfl := hholds.unique hw
  obtain ⟨given, old, rfl, hold, hread, hextra⟩ := hwrites.exists_root hdistinct
  have hvalues := (Json.isDistinct_object.1 hdistinct).2
  have hmem := Json.mem_of_mem_valuesOf (hold ▸ List.mem_singleton_self old)
  have holdInteger : old.all isInteger = true := by
    rw [Json.all, Json.allMembers_iff] at hinteger
    exact hinteger _ hmem
  have hgiven := PlanNode.ofJson_giveThreshold hread (hvalues _ hmem) hset
  have hgivenDistinct : (giveThreshold values.bindings old).isDistinct = true :=
    Json.isDistinct_giveThreshold (hvalues _ hmem)
  have hgivenInteger : (giveThreshold values.bindings old).all isInteger = true :=
    Json.all_giveThreshold (fun _ => rfl) holdInteger
  have hjson : (Plan.json { plan with root := root }) =
      .object (("root", root.json) :: without "root" given) := by
    rw [Plan.json, hextra]
  have hwritten : (Plan.json { plan with root := root }).all isInteger = true := by
    have hall := hwrites.all_json (fun _ => rfl) hinteger
    rw [Plan.json, Json.all, Json.allMembers_iff, List.forall_mem_cons] at hall ⊢
    exact ⟨PlanNode.all_json_setThreshold (fun _ => rfl) hall.1 hset, hall.2⟩
  refine ⟨Plan.json { plan with root := root }, ?_, ?_, ?_, ?_⟩
  · rw [holds_encode_iff (Json.all_isWord_of_isInteger hwritten),
      Json.rewritten_of_isInteger hwritten]
  · rw [hjson, Json.atRoot_atRoot, Json.same_atRoot_iff hold hdistinct hinteger]
    exact PlanNode.same_json_tidied hgiven hgivenDistinct hgivenInteger
  · have hcanonical := PlanNode.canonical_of_ofJson hgiven
    have hfields := PlanNode.operatorFields_eq hcanonical.outermost_json.ofJson_eq_ok
      hcanonical.isDistinct_json
    have hsame : root.json.operatorFields = old.operatorFields := by
      rw [hfields, PlanNode.fieldsAlong_setThreshold hset,
        PlanNode.operatorFields_eq hread (hvalues _ hmem)]
    have hothers : without "root" (without "root" given) = without "root" given := by
      rw [without, without, List.filter_filter]
      simp only [Bool.and_self]
    rw [hjson, Json.planFields, Json.planFields, Json.lookup_of_valuesOf hold,
      List.lookup_cons_self, Json.without_cons_self, hothers, Option.map_some, Option.map_some,
      hsame]
  · rw [hjson, Json.same_atRoot_iff hold hdistinct hinteger, Json.atRoot_atRoot,
      Json.atRoot_eq_atRoot_iff hold]
    exact PlanNode.same_json_iff hgiven hgivenDistinct hgivenInteger

/-- Nothing is lost of a plan without empty thresholds and null sources; its members change places. -/
theorem withThreshold_document_of_tidy :
    let v : Json := .object [("graph", .text "g"), ("root", .object [("n", .integer 3),
      ("source", .object [("threshold", .object [("b", .text "5"), ("a", .text "0")]),
        ("limit", .integer 10), ("type", .text "top_k")]), ("type", .text "limit")])]
    let given : Json := .object [("graph", .text "g"), ("root", .object [("n", .integer 3),
      ("source", .object [("threshold", .object [("b", .text "5"), ("a", .text "1")]),
        ("limit", .integer 10), ("type", .text "top_k")]), ("type", .text "limit")])]
    let values := Solution.ofList [("a", "1")]
    ∃ pushed written, withThreshold (ofText v.compactChars) values = .ok pushed ∧
      Holds pushed written ∧ written.same given = true ∧ written.planFields =
        [[("graph", .text "g")], [("n", .integer 3)], [("limit", .integer 10)]] := by
  intro v given values
  have hinteger : v.all isInteger = true := by decide +kernel
  have hsome : (withThreshold (ofText v.compactChars) values).toOption.isSome = true := by
    decide +kernel
  obtain ⟨pushed, hpushed⟩ := Option.isSome_iff_exists.1 hsome
  rw [toOption_eq_some_iff] at hpushed
  obtain ⟨written, hwritten, -, hfields, hsame⟩ := withThreshold_document
    (holds_ofText_compactChars hinteger) (by decide +kernel) hinteger hpushed
  have hgiven : v.atRoot (giveThreshold values.bindings) = given := rfl
  rw [hgiven] at hsame
  exact ⟨pushed, written, hpushed, hwritten, hsame.2 rfl, hfields.trans rfl⟩

/-- **A value that is not written again**: a ranking operator below the first one loses its empty
threshold and its null source. -/
theorem empty_members_lost :
    let v : Json := .object [("root", .object [("type", .text "top_k"),
      ("source", .object [("type", .text "partial_top_k"), ("threshold", .object []),
        ("source", .null)])])]
    let values := Solution.ofList [("a", "1")]
    Holds (ofText v.compactChars) v ∧ v.isDistinct = true ∧ v.all isInteger = true ∧
      ∃ pushed, withThreshold (ofText v.compactChars) values = .ok pushed ∧
        ∀ written, Holds pushed written →
          written.same (v.atRoot (giveThreshold values.bindings)) = false := by
  intro v values
  let below : PlanNode := .ranking .partialTopK [] none []
  let changed : Plan := ⟨.ranking .topK [("a", .text "1")] (some below) [], []⟩
  have hinteger : v.all isInteger = true := by decide +kernel
  have hpushed : withThreshold (ofText v.compactChars) values = .ok (encode changed) := by
    decide +kernel
  refine ⟨holds_ofText_compactChars hinteger, by decide +kernel, hinteger, _, hpushed,
    fun written hwritten => ?_⟩
  rw [holds_encode_iff (by decide +kernel)] at hwritten
  rw [hwritten]
  rfl

end Continuation

end PagedTopK
