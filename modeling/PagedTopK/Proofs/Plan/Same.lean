import PagedTopK.Proofs.Json.Rearranged
import PagedTopK.Proofs.Json.Same
import PagedTopK.Proofs.Plan.Located

set_option autoImplicit false

/-!
# Plans that are the same up to the order of their fields

## Main results

* `Plan.same_refl` — a plan in order and without doubles is the same as itself.
* `Plan.Located.same_plan` — so are plans whose thresholds hold the same under every name.
* `Plan.Located.perm_tokens` — plans whose thresholds have the same members in another order are
  written with the same tokens in another order.
-/

namespace PagedTopK

open Json (isInteger)

/-- Fields in order and without doubles are the same as themselves. -/
lemma Carried.same_refl {own : List String} {fields : Members} (h : Carried own fields)
    (hinteger : ∀ m ∈ fields, m.2.all isInteger = true) :
    (Json.object fields).same (.object fields) = true := by
  apply Json.same_refl (Json.isDistinct_object.2 ⟨h.nodup, h.distinct⟩)
  rw [Json.all, Json.allMembers_iff]
  exact hinteger

/-- Objects in which the same is found under every name are the same, if one of them is the same as
itself. -/
lemma Json.same_of_lookup_eq {a b : Members} (ha : (a.map (·.1)).Nodup)
    (hb : (b.map (·.1)).Nodup) (hself : (Json.object a).same (.object a) = true)
    (h : ∀ name, a.lookup name = b.lookup name) : (Json.object a).same (.object b) = true := by
  rw [Json.same_object_iff ha hb]
  intro name
  rw [← h]
  exact (Json.same_object_iff ha ha).1 hself name

namespace PlanNode

variable {node inner changed : PlanNode} {t t' : Members}

/-- An operator in order and without doubles is the same as itself. -/
lemma same_refl (hcanonical : node.Canonical) (hinteger : node.json.all isInteger = true) :
    node.same node = true := by
  have htext : ∀ s, isInteger (.text s) = true := fun _ => rfl
  induction node using rewritten.induct with
  | case1 kind source fields ih =>
    obtain ⟨hsource, hfields⟩ := (all_json_wrapper_iff htext).1 hinteger
    simp [same, ih hcanonical.1 hsource, hcanonical.2.same_refl hfields]
  | case2 kind t fields =>
    obtain ⟨ht, -, hfields⟩ := (all_json_ranking_iff htext).1 hinteger
    simp [same, hcanonical.1.same_refl ht, hcanonical.2.same_refl hfields]
  | case3 kind t source fields ih =>
    obtain ⟨ht, hsource, hfields⟩ := (all_json_ranking_iff htext).1 hinteger
    simp [same, hcanonical.1.same_refl ht, ih hcanonical.2.1 (hsource source rfl),
      hcanonical.2.2.same_refl hfields]
  | case4 kind fields =>
    have hfields := (all_json_leaf_iff htext).1 hinteger
    simp [same, Carried.same_refl hcanonical hfields]

/-- Ranking operators are the same if their thresholds are, and all else is. -/
lemma same_ranking {kind : RankingKind} {source : Option PlanNode} {fields : Members}
    (hself : (ranking kind t source fields).same (ranking kind t source fields) = true)
    (ht : (Json.object t).same (.object t') = true) :
    (ranking kind t source fields).same (ranking kind t' source fields) = true := by
  cases source with
  | none =>
    simp only [same, Bool.and_eq_true] at hself ⊢
    exact ⟨⟨hself.1.1, ht⟩, hself.2⟩
  | some source =>
    simp only [same, Bool.and_eq_true] at hself ⊢
    exact ⟨⟨⟨hself.1.1.1, ht⟩, hself.1.2⟩, hself.2⟩

/-- What is below wrappers decides whether they are the same. -/
lemma same_under {wrappers : List Wrapper} (hcanonical : (under wrappers inner).Canonical)
    (hinteger : (under wrappers inner).json.all isInteger = true)
    (h : inner.Canonical → inner.json.all isInteger = true → inner.same changed = true) :
    (under wrappers inner).same (under wrappers changed) = true := by
  induction wrappers with
  | nil => exact h hcanonical hinteger
  | cons w wrappers ih =>
    obtain ⟨hbelow, hfields⟩ := (all_json_wrapper_iff fun _ => rfl).1 hinteger
    simp [same, ih hcanonical.1 hbelow, hcanonical.2.same_refl hfields]

/-! ## The tokens of operators -/

/-- Another order of the threshold is another order of the tokens. -/
lemma perm_tokens_ranking (kind : RankingKind) (source : Option PlanNode) (fields : Members)
    (h : t.Perm t') : (ranking kind t source fields).json.tokens.Perm
      (ranking kind t' source fields).json.tokens := by
  rw [json_eq_object, json_eq_object]
  cases t with
  | nil => rw [h.nil_eq]
  | cons m rest =>
    have hne : t' ≠ [] := by
      rintro rfl
      cases h.eq_nil
    obtain ⟨m', rest', rfl⟩ := List.exists_cons_of_ne_nil hne
    exact Json.perm_tokens_of_member [("type", .text (Operator.ranking kind).name)]
      (sourceMembers source ++ fields) "threshold" (Json.perm_tokens_of_perm h)

/-- Wrappers are written around the tokens of what is below them. -/
lemma perm_tokens_under (wrappers : List Wrapper) (h : inner.json.tokens.Perm changed.json.tokens) :
    (under wrappers inner).json.tokens.Perm (under wrappers changed).json.tokens := by
  induction wrappers with
  | nil => exact h
  | cons w wrappers ih =>
    rw [under_cons, under_cons, json_eq_object, json_eq_object]
    exact Json.perm_tokens_of_member [("type", .text (Operator.wrapper w.kind).name)] w.fields
      "source" ih

end PlanNode

namespace Plan

/-- **A plan in order and without doubles is the same as itself.** -/
lemma same_refl {plan : Plan} (hcanonical : plan.Canonical)
    (hinteger : plan.json.all isInteger = true) : plan.same plan = true := by
  rw [json, Json.all, Json.allMembers_iff, List.forall_mem_cons] at hinteger
  obtain ⟨hroot, hextra⟩ := hinteger
  rw [same, Bool.and_eq_true]
  exact ⟨PlanNode.same_refl hcanonical.root hroot, hcanonical.extra.same_refl hextra⟩

/-- **Plans are the same** if their thresholds hold the same under every name, and all else is. -/
lemma Located.same_plan {l : Located} {t : Members} (hcanonical : l.plan.Canonical)
    (hinteger : l.plan.json.all isInteger = true) (hnodup : (t.map (·.1)).Nodup)
    (h : ∀ name, l.threshold.lookup name = t.lookup name) :
    l.plan.same ({ l with threshold := t } : Located).plan = true := by
  rw [json, Json.all, Json.allMembers_iff, List.forall_mem_cons] at hinteger
  obtain ⟨hroot, hextra⟩ := hinteger
  rw [same, Bool.and_eq_true]
  refine ⟨PlanNode.same_under hcanonical.root hroot ?_, hcanonical.extra.same_refl hextra⟩
  intro hranking hall
  obtain ⟨hold, -, -⟩ := (PlanNode.all_json_ranking_iff fun _ => rfl).1 hall
  have hcarried := (PlanNode.canonical_ranking_iff.1 hranking).1
  apply PlanNode.same_ranking (PlanNode.same_refl hranking hall)
  exact Json.same_of_lookup_eq hcarried.nodup hnodup (hcarried.same_refl hold) h

/-- **Plans are written with the same tokens** if their thresholds have the same members. -/
lemma Located.perm_tokens (l : Located) {t : Members} (h : l.threshold.Perm t) :
    l.plan.json.tokens.Perm ({ l with threshold := t } : Located).plan.json.tokens := by
  apply Json.perm_tokens_of_member [] l.extra "root"
  exact PlanNode.perm_tokens_under _ (PlanNode.perm_tokens_ranking _ _ _ h)

end Plan

end PagedTopK
