import PagedTopK.Proofs.Continuation.Codec
import PagedTopK.Proofs.Plan.Located

set_option autoImplicit false

/-!
# What becomes of a token that is given threshold values

Values can be given to the tokens whose plans have a ranking operator below their wrappers, and to
no other ones. They change the threshold of this operator; all other parts of the plan stay what
they are, ranking operators further down among them.

## Main results

* `Continuation.decode_cases` — a token is refused, or its plan is seen from below its wrappers.
* `Continuation.withThreshold_of_located` — what is written in the place of a token.
* `Continuation.withThreshold_changes_threshold_alone` — what becomes of every token.
-/

namespace PagedTopK.Continuation

variable {token pushed : String} {l : Plan.Located} {values : Solution}

/-- **A token is refused**, or its plan is seen from below its wrappers. -/
lemma decode_cases (token : String) : (∃ fault, decode token = .error fault) ∨
    (∃ l : Plan.Located, decode token = .ok l.plan) ∨
    ∃ wrappers kind fields extra,
      decode token = .ok ⟨.under wrappers (.leaf kind fields), extra⟩ := by
  cases hread : decode token with
  | error fault => exact .inl ⟨fault, rfl⟩
  | ok plan =>
    rcases plan.located_cases with ⟨l, rfl⟩ | ⟨wrappers, kind, fields, hleaf⟩
    · exact .inr (.inl ⟨l, rfl⟩)
    · exact .inr (.inr ⟨wrappers, kind, fields, plan.extra, congrArg _ hleaf⟩)

/-- A token that is refused is refused for the same reason when values are given. -/
lemma withThreshold_of_error {fault : TokenError} (h : decode token = .error fault) :
    withThreshold token values = .error fault := by
  rw [withThreshold, h]
  rfl

/-- **What is written in the place of a token.** -/
lemma withThreshold_of_located (h : decode token = .ok l.plan) (values : Solution) :
    withThreshold token values = .ok (encode (l.given values).plan) := by
  rw [withThreshold, h]
  show (setThreshold l.plan values >>= fun changed => pure (encode changed)) = _
  rw [Plan.setThreshold_located]
  rfl

/-- An operator that is not looked into gets no values. -/
lemma withThreshold_of_leaf {wrappers : List Wrapper} {kind : LeafKind} {fields extra : Members}
    (h : decode token = .ok ⟨.under wrappers (.leaf kind fields), extra⟩) :
    withThreshold token values = .error (.unexpectedNode (.leaf kind)) := by
  rw [withThreshold, h]
  show (setThreshold _ values >>= fun changed => pure (encode changed)) = _
  rw [Plan.setThreshold_leaf]
  rfl

/-- What has been written comes from a plan with a ranking operator below its wrappers. -/
lemma exists_located (h : withThreshold token values = .ok pushed) :
    ∃ l : Plan.Located, decode token = .ok l.plan ∧ pushed = encode (l.given values).plan := by
  rcases decode_cases token with ⟨fault, hfault⟩ | ⟨l, hl⟩ | ⟨wrappers, kind, fields, extra, hleaf⟩
  · rw [withThreshold_of_error hfault] at h
    cases h
  · rw [withThreshold_of_located hl] at h
    exact ⟨l, hl, (Except.ok.inj h).symm⟩
  · rw [withThreshold_of_leaf hleaf] at h
    cases h

/-- Why values are refused: for the token, or for the operator below its wrappers. -/
lemma withThreshold_eq_error_iff {fault : TokenError} :
    withThreshold token values = .error fault ↔
      decode token = .error fault ∨ ∃ wrappers kind fields extra,
        decode token = .ok ⟨.under wrappers (.leaf kind fields), extra⟩ ∧
          fault = .unexpectedNode (.leaf kind) := by
  constructor
  · intro h
    rcases decode_cases token with ⟨own, hown⟩ | ⟨l, hl⟩ | ⟨wrappers, kind, fields, extra, hleaf⟩
    · rw [withThreshold_of_error hown] at h
      rw [← Except.error.inj h]
      exact .inl hown
    · rw [withThreshold_of_located hl] at h
      cases h
    · rw [withThreshold_of_leaf hleaf] at h
      exact .inr ⟨wrappers, kind, fields, extra, hleaf, (Except.error.inj h).symm⟩
  · rintro (h | ⟨wrappers, kind, fields, extra, hleaf, rfl⟩)
    · exact withThreshold_of_error h
    · exact withThreshold_of_leaf hleaf

/-- **What becomes of every token that is given threshold values.** It is accepted exactly if its
plan has a ranking operator below its wrappers; if not, the fault is that of the token itself or
names the operator that stands there instead. The plan that is written has another threshold in that
operator and is the same in all other parts: wrappers, fields, what feeds the operator, and what
stands beside all operators. In the threshold the names of the solution have its terms, other names
have what they had, old names keep their places, and new ones follow in increasing order.

**Proof sketch.** Giving values goes down the wrappers and stops at the first operator that is none
(`Plan.setThreshold_located`, `Plan.setThreshold_leaf`). The names of a threshold that has been read
are distinct (`Plan.Canonical.threshold`), so each value that is given finds its name or comes last
(`PlanNode.overwritten_withValues`). -/
theorem withThreshold_changes_threshold_alone (token : String) (values : Solution) :
    ((∃ pushed, withThreshold token values = .ok pushed) ↔
      ∃ l : Plan.Located, decode token = .ok l.plan) ∧
    (∀ fault, withThreshold token values = .error fault ↔
      decode token = .error fault ∨ ∃ wrappers kind fields extra,
        decode token = .ok ⟨.under wrappers (.leaf kind fields), extra⟩ ∧
          fault = .unexpectedNode (.leaf kind)) ∧
    ∀ l : Plan.Located, decode token = .ok l.plan →
      ∃ t, Threshold.Overwritten values l.threshold t ∧
        setThreshold l.plan values = .ok ({ l with threshold := t } : Plan.Located).plan ∧
        withThreshold token values =
          .ok (encode ({ l with threshold := t } : Plan.Located).plan) := by
  refine ⟨⟨?_, ?_⟩, fun _ => withThreshold_eq_error_iff, fun l hl => ?_⟩
  · rintro ⟨pushed, hpushed⟩
    obtain ⟨l, hl, -⟩ := exists_located hpushed
    exact ⟨l, hl⟩
  · rintro ⟨l, hl⟩
    exact ⟨_, withThreshold_of_located hl values⟩
  · have hdistinct := (canonical_of_decode hl).threshold.nodup
    exact ⟨_, PlanNode.overwritten_withValues hdistinct values, Plan.setThreshold_located l values,
      withThreshold_of_located hl values⟩

/-- An old name keeps its place, and a new one follows. -/
example :
    let plan (t : Members) : Plan := ⟨.ranking .topK t none [], []⟩
    let values := Solution.ofList [("a", "1"), ("b", "2")]
    (withThreshold (encode (plan [("b", .null)])) values).toOption =
      some (encode (plan [("b", .text "2"), ("a", .text "1")])) := by
  decide +kernel

end PagedTopK.Continuation
