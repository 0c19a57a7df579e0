import Mathlib.Tactic.Lemma
import PagedTopK.Continuation
import PagedTopK.Proofs.Solution

set_option autoImplicit false

/-!
# Giving a plan threshold values

## Main definitions

* `Continuation.threshold?` — the threshold in a token.

## Main results

* `PlanNode.lookup_withValues` — what a threshold holds after it has been given the values of a
  solution.
* `Continuation.withThreshold_of_threshold?` — a token that has a threshold can be given threshold
  values.
-/

namespace PagedTopK

namespace PlanNode

/-- Each name that has a new value gets it; all other entries stay. -/
lemma lookup_withValues_of_increasing (threshold : Members) {values : List (String × String)}
    (h : values.Pairwise fun a b => compare a.1 b.1 = .lt) (name : String) :
    (withValues threshold values).lookup name =
      ((values.lookup name).map Json.text).or (threshold.lookup name) := by
  induction values generalizing threshold with
  | nil => rfl
  | cons v rest ih =>
    obtain ⟨own, term⟩ := v
    have hstep : withValues threshold ((own, term) :: rest) =
        withValues (Json.setMember own (.text term) threshold) rest := rfl
    rw [hstep, ih _ (List.pairwise_cons.1 h).2, Json.lookup_setMember]
    by_cases hname : name = own
    · subst hname
      simp [Solution.lookup_eq_none_of_increasing h]
    · have hb : (name == own) = false := beq_eq_false_iff_ne.2 hname
      simp only [if_neg hname, List.lookup_cons, hb]

/-- **What a threshold holds after it has been given the values of a solution**: the term where the
solution binds a name, the old entry elsewhere. -/
lemma lookup_withValues (threshold : Members) (s : Solution) (name : String) :
    (withValues threshold s.bindings).lookup name =
      ((s.get? name).map Json.text).or (threshold.lookup name) :=
  lookup_withValues_of_increasing threshold s.increasing name

/-- The outermost ranking operator can be given values, and then holds them. -/
lemma setThreshold_of_threshold {node : PlanNode} {t : Members} (h : node.threshold = .ok t)
    (values : List (String × String)) :
    ∃ changed, node.setThreshold values = .ok changed ∧
      changed.threshold = .ok (withValues t values) := by
  induction node using PlanNode.threshold.induct with
  | case1 kind source fields ih =>
    obtain ⟨changed, hset, hchanged⟩ := ih h
    refine ⟨.wrapper kind changed fields, ?_, hchanged⟩
    rw [setThreshold, hset]
    rfl
  | case2 kind own source fields =>
    cases h
    exact ⟨_, rfl, rfl⟩
  | case3 kind fields => cases h

end PlanNode

namespace Continuation

/-- **The threshold in a token**, if its plan has a ranking operator. -/
def threshold? (token : String) : Option Members :=
  match decode token with
  | .ok plan => plan.root.threshold.toOption
  | .error _ => none

lemma threshold?_eq_some_iff {token : String} {t : Members} :
    threshold? token = some t ↔
      ∃ plan : Plan, decode token = .ok plan ∧ plan.root.threshold = .ok t := by
  unfold threshold?
  cases decode token with
  | error fault => simp
  | ok plan => cases h : plan.root.threshold <;> simp [h, Except.toOption]

/-- **A token that has a threshold can be given threshold values.** -/
lemma withThreshold_of_threshold? {token : String} {t : Members} (h : threshold? token = some t)
    (values : Solution) :
    ∃ changed : Plan, withThreshold token values = .ok (encode changed) ∧
      changed.root.threshold = .ok (PlanNode.withValues t values.bindings) := by
  obtain ⟨plan, hplan, ht⟩ := threshold?_eq_some_iff.1 h
  obtain ⟨root, hset, hroot⟩ := PlanNode.setThreshold_of_threshold ht values.bindings
  refine ⟨{ plan with root }, ?_, hroot⟩
  have hchanged : setThreshold plan values = .ok { plan with root } := by
    rw [setThreshold, hset]
  rw [withThreshold, hplan]
  show (setThreshold plan values >>= fun changed => pure (encode changed)) = _
  rw [hchanged]
  rfl

end Continuation

end PagedTopK
