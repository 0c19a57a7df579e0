import PagedTopK.Proofs.Json.Value
import PagedTopK.Proofs.Plan.Reader

set_option autoImplicit false

/-!
# The grammar of plans

An operator is an object with one member `type`, which gives its kind. What else must be among its
members depends on the kind; all that is left is free. The outermost operator names its kind. The
operators below it may as well give its place among all operators, so that one and the same object
can be an operator there and be none where the plan begins.

## Main definitions

* `PlanNode.Position` — where an operator stands in a plan.
* `Operator.Named`, `Operator.Given` — the kind is given by its name, and as the readers accept it.
* `PlanNode.IsNode`, `Plan.IsPlan` — the grammar of operators and of plans.

## Main results

* `Plan.exists_writes_iff` — what writes a plan is what follows the grammar.
-/

namespace PagedTopK

open Json (valuesOf Found)

/-! ## Kinds -/

/-- **Where an operator stands in a plan.** -/
inductive PlanNode.Position where
  /-- It is the outermost operator. -/
  | outermost
  /-- It is the source of another one. -/
  | below

open PlanNode (Position)

namespace Operator

/-- **The kind of an operator is given by its name.** -/
def Named (_ : Position) (v : Json) (op : Operator) : Prop := v = .text op.name

/-- **The kind of an operator is given as the readers accept it**: by its name or, below the
outermost operator, by its place among all operators. -/
def Given : Position → Json → Operator → Prop
  | .outermost, v, op => v = .text op.name
  | .below, v, op => v = .text op.name ∨ ∃ i : Nat, v = .integer (.ofNat i) ∧ all[i]? = some op

/-- A name will do everywhere. -/
lemma Named.given {place : Position} {v : Json} {op : Operator} (h : Named place v op) :
    Given place v op := by
  cases place with
  | outermost => exact h
  | below => exact .inl h

lemma ofName?_eq_some_iff {n : String} {op : Operator} : ofName? n = some op ↔ n = op.name := by
  constructor
  · intro h
    have hname := List.find?_some h
    exact (eq_of_beq hname).symm
  · rintro rfl
    exact ofName?_name op

/-- **The kinds that are read from values.** -/
lemma ofJson_eq_ok_iff {v : Json} {op : Operator} : ofJson v = .ok op ↔ Given .below v op := by
  have hname : ∀ n, ofJson (.text n) = .ok op ↔ n = op.name := by
    intro n
    show choose n = .ok op ↔ _
    rw [← ofName?_eq_some_iff, choose]
    cases ofName? n <;> simp
  have hplace : ∀ i : Nat, ofJson (.integer (.ofNat i)) = .ok op ↔ all[i]? = some op := by
    intro i
    rw [ofJson]
    cases all[i]? <;> simp
  constructor
  · intro h
    cases v with
    | text n => exact .inl (congrArg Json.text ((hname n).1 h))
    | integer i =>
      cases i with
      | ofNat i => exact .inr ⟨i, rfl, (hplace i).1 h⟩
      | negSucc => cases h
    | null | bool | double | array | object => cases h
  · rintro (rfl | ⟨i, rfl, hi⟩)
    · exact (hname _).2 rfl
    · exact (hplace i).2 hi

end Operator

namespace PlanNode

/-! ## Operators -/

/-- **The threshold among the members of a ranking operator** is an object, if there is one. -/
def HasThreshold (members : Members) : Prop :=
  valuesOf "threshold" members = [] ∨ ∃ t, valuesOf "threshold" members = [.object t]

/-- **A value is an operator**, where the kinds of operators are given in some way. -/
inductive IsNode (kind : Position → Json → Operator → Prop) : Position → Json → Prop where
  /-- A wrapper has one source. -/
  | wrapper {place : Position} {members : Members} {tag source : Json} {k : WrapperKind}
    (htag : valuesOf "type" members = [tag]) (hkind : kind place tag (.wrapper k))
    (hsource : valuesOf "source" members = [source]) (hnode : IsNode kind .below source) :
    IsNode kind place (.object members)
  /-- A ranking operator may have no source, or null instead of one. -/
  | ranking {place : Position} {members : Members} {tag : Json} {k : RankingKind}
    (htag : valuesOf "type" members = [tag]) (hkind : kind place tag (.ranking k))
    (hthreshold : HasThreshold members)
    (hsource : valuesOf "source" members = [] ∨ valuesOf "source" members = [.null]) :
    IsNode kind place (.object members)
  /-- It may also have one source. -/
  | rankingOf {place : Position} {members : Members} {tag source : Json} {k : RankingKind}
    (htag : valuesOf "type" members = [tag]) (hkind : kind place tag (.ranking k))
    (hthreshold : HasThreshold members)
    (hsource : valuesOf "source" members = [source]) (hnode : IsNode kind .below source) :
    IsNode kind place (.object members)
  /-- Any other operator may have whatever members. -/
  | leaf {place : Position} {members : Members} {tag : Json} {k : LeafKind}
    (htag : valuesOf "type" members = [tag]) (hkind : kind place tag (.leaf k)) :
    IsNode kind place (.object members)

variable {kind kind' : Position → Json → Operator → Prop} {place : Position} {v : Json}
  {members : Members}

/-- If kinds may be given in more ways, there are more operators. -/
lemma IsNode.mono (h : IsNode kind place v)
    (hle : ∀ {place v op}, kind place v op → kind' place v op) : IsNode kind' place v := by
  induction h with
  | wrapper htag hkind hsource _ ih => exact .wrapper htag (hle hkind) hsource ih
  | ranking htag hkind hthreshold hsource => exact .ranking htag (hle hkind) hthreshold hsource
  | rankingOf htag hkind hthreshold hsource _ ih =>
    exact .rankingOf htag (hle hkind) hthreshold hsource ih
  | leaf htag hkind => exact .leaf htag (hle hkind)

/-- The threshold that is read. -/
lemma exists_threshold_iff :
    (∃ t, Found (fun v t => readThreshold v = .ok t) (· = []) none
      (valuesOf "threshold" members) t) ↔ HasThreshold members := by
  constructor
  · rintro ⟨t, hfound⟩
    generalize hvalues : valuesOf "threshold" members = values at hfound
    cases hfound with
    | missing => exact .inl hvalues
    | @read v _ h =>
      cases v with
      | object t => exact .inr ⟨t, hvalues⟩
      | null | bool | integer | double | text | array => cases h
  · rintro (hnone | ⟨t, hone⟩)
    · rw [hnone]
      exact ⟨[], .missing rfl⟩
    · rw [hone]
      exact ⟨_, .read rfl⟩

/-- **What is read as an operator is one**, if what is read as its source is one. -/
lemma Built.isNode {tag : Json} {op : Operator} {node : PlanNode} (h : Built members op node)
    (htag : valuesOf "type" members = [tag]) (hkind : kind place tag op)
    (hsources : ∀ v ∈ valuesOf "source" members, ∀ s, ofJson v = .ok s → IsNode kind .below v) :
    IsNode kind place (.object members) := by
  cases h with
  | wrapper hvalue hsource =>
    refine .wrapper htag hkind hvalue (hsources _ ?_ _ hsource)
    rw [hvalue]
    exact List.mem_singleton_self _
  | ranking hthreshold hsource =>
    have hthreshold := exists_threshold_iff.1 ⟨_, hthreshold⟩
    generalize hvalues : valuesOf "source" members = values at hsource hsources
    cases hsource with
    | missing => exact .ranking htag hkind hthreshold (.inl hvalues)
    | @read v _ h =>
      rcases h with ⟨rfl, -⟩ | ⟨s, hs, -⟩
      · exact .ranking htag hkind hthreshold (.inr hvalues)
      · exact .rankingOf htag hkind hthreshold hvalues (hsources v (List.mem_singleton_self v) s hs)
  | leaf => exact .leaf htag hkind

/-- What is read from a value is an operator. -/
lemma isNode_of_ofJson {node : PlanNode} (h : ofJson v = .ok node) :
    IsNode Operator.Given .below v := by
  induction v using Json.inductionOn generalizing node with
  | object members ih =>
    obtain ⟨own, tag, op, hown, htag, hkind, hbuilt⟩ := ofJson_eq_ok_iff.1 h
    cases hown
    exact hbuilt.isNode htag (Operator.ofJson_eq_ok_iff.1 hkind) fun v hv s hs =>
      ih _ (Json.mem_of_mem_valuesOf hv) hs
  | null | bool | integer | double | text | array =>
    obtain ⟨_, _, _, hown, -⟩ := ofJson_eq_ok_iff.1 h
    cases hown

/-- **An operator is made of the members of an object**, one of which gives its kind. -/
def IsBuilt (place : Position) (v : Json) (node : PlanNode) : Prop :=
  ∃ members tag op, v = .object members ∧ valuesOf "type" members = [tag] ∧
    Operator.Given place tag op ∧ Built members op node

lemma isBuilt_below_iff {node : PlanNode} : IsBuilt .below v node ↔ ofJson v = .ok node := by
  rw [ofJson_eq_ok_iff]
  simp only [Operator.ofJson_eq_ok_iff]
  rfl

lemma isBuilt_outermost_iff {node : PlanNode} : IsBuilt .outermost v node ↔ Outermost v node := by
  constructor
  · rintro ⟨members, tag, op, rfl, htag, rfl, hbuilt⟩
    exact ⟨members, op.name, op, rfl, htag, Operator.ofName?_name op, hbuilt⟩
  · rintro ⟨members, name, op, rfl, htag, hname, hbuilt⟩
    obtain rfl := Operator.ofName?_eq_some_iff.1 hname
    exact ⟨members, _, op, rfl, htag, rfl, hbuilt⟩

/-- **Every operator can be read.** -/
lemma IsNode.exists_isBuilt (h : IsNode Operator.Given place v) : ∃ node, IsBuilt place v node := by
  induction h with
  | wrapper htag hkind hsource _ ih =>
    obtain ⟨s, hs⟩ := ih
    exact ⟨_, _, _, _, rfl, htag, hkind, .wrapper hsource (isBuilt_below_iff.1 hs)⟩
  | @ranking _ members _ _ htag hkind hthreshold hsource =>
    obtain ⟨t, ht⟩ := exists_threshold_iff.2 hthreshold
    have hnone : Found SourceOf (· = none) none (valuesOf "source" members) none := by
      rcases hsource with hsource | hsource <;> rw [hsource]
      · exact .missing rfl
      · exact .read (.inl ⟨rfl, rfl⟩)
    exact ⟨_, _, _, _, rfl, htag, hkind, .ranking ht hnone⟩
  | @rankingOf _ members _ _ _ htag hkind hthreshold hsource _ ih =>
    obtain ⟨t, ht⟩ := exists_threshold_iff.2 hthreshold
    obtain ⟨s, hs⟩ := ih
    have hsome : Found SourceOf (· = none) none (valuesOf "source" members) (some s) := by
      rw [hsource]
      exact .read (.inr ⟨s, isBuilt_below_iff.1 hs, rfl⟩)
    exact ⟨_, _, _, _, rfl, htag, hkind, .ranking ht hsome⟩
  | leaf htag hkind => exact ⟨_, _, _, _, rfl, htag, hkind, .leaf⟩

/-- **What is read as the outermost operator is what follows the grammar.** -/
theorem exists_outermost_iff :
    (∃ node, Outermost v node) ↔ IsNode Operator.Given .outermost v := by
  constructor
  · rintro ⟨node, h⟩
    obtain ⟨members, tag, op, rfl, htag, hkind, hbuilt⟩ := isBuilt_outermost_iff.2 h
    exact hbuilt.isNode htag hkind fun _ _ _ hs => isNode_of_ofJson hs
  · intro h
    obtain ⟨node, hbuilt⟩ := h.exists_isBuilt
    exact ⟨node, isBuilt_outermost_iff.1 hbuilt⟩

end PlanNode

/-! ## Plans -/

namespace Plan

/-- **A value is a plan**, where the kinds of operators are given in some way: an object with one
member `root`, which holds the outermost operator. -/
def IsPlan (kind : Position → Json → Operator → Prop) (v : Json) : Prop :=
  ∃ members root, v = .object members ∧ valuesOf "root" members = [root] ∧
    PlanNode.IsNode kind .outermost root

variable {v : Json}

/-- Where names are required, fewer values are plans. -/
lemma IsPlan.given (h : IsPlan Operator.Named v) : IsPlan Operator.Given v := by
  obtain ⟨members, root, rfl, hroot, hnode⟩ := h
  exact ⟨members, root, rfl, hroot, hnode.mono Operator.Named.given⟩

/-- **What writes a plan is what follows the grammar.** -/
theorem exists_writes_iff : (∃ plan, Writes v plan) ↔ IsPlan Operator.Given v := by
  constructor
  · rintro ⟨plan, members, root, rfl, hroot, houtermost, -⟩
    exact ⟨members, root, rfl, hroot, PlanNode.exists_outermost_iff.1 ⟨_, houtermost⟩⟩
  · rintro ⟨members, root, rfl, hroot, hnode⟩
    obtain ⟨node, houtermost⟩ := PlanNode.exists_outermost_iff.2 hnode
    exact ⟨⟨node, _⟩, members, root, rfl, hroot, houtermost, rfl⟩

end Plan

end PagedTopK
