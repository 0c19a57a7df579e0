import PagedTopK.Proofs.Json.Grammar
import PagedTopK.Proofs.Json.Injective

set_option autoImplicit false

/-!
# Numbers that are read are finite

A numeral beyond every double is refused, and dividing by a power of ten makes no double greater. So
a value that has been read is told by the text that is written for it.

## Main results

* `Json.isFinite_of_double?` — the double that a numeral writes is finite.
* `Json.Spells.all_isExact` — the numbers of a value that a text writes are told by their texts.
* `Json.all_isExact_of_readWith` — so are those of a value that has been read.
-/

namespace PagedTopK

open Binary64 (unitsPerOne)

namespace Json

/-! ## Numerals -/

lemma isFinite_scaleDown {x : Binary64} (hx : x.isFinite = true) (k : Nat) :
    (scaleDown x k).isFinite = true := by
  unfold scaleDown
  have hdiv : ∀ {y : Binary64} {j : Nat}, y.isFinite = true → j ≤ 308 →
      (y / powerOfTen j).isFinite = true := fun hy hj =>
    Binary64.isFinite_div hy (powerOfTen_bounds hj).1 (powerOfTen_bounds hj).2
  split
  · next h => exact hdiv hx h
  split
  · exact hdiv (hdiv hx (Nat.le_refl _)) (by omega)
  · rfl

lemma isFinite_of_scale? {s : Nat} {e : Int} {x : Binary64} (hs : s < Digits.word64)
    (h : scale? s e = some x) : x.isFinite = true := by
  have hfinite := (Binary64.isNear_ofNat (cast_lt_overflow (Nat.le_trans hs.le
    (by decide : Digits.word64 ≤ 10 ^ 20)) (by decide))).1
  unfold scale? at h
  simp only at h
  split at h
  · cases h
    exact isFinite_scaleDown hfinite _
  split at h
  · split at h
    · next hy =>
      cases h
      exact hy
    · cases h
  split at h
  · cases h
    exact hfinite
  · cases h

/-- **The double that a numeral writes is finite.** -/
theorem isFinite_of_double? {n : Numeral} {x : Binary64} (h : n.double? = some x) :
    x.isFinite = true := by
  have hparts : n.parts.1 < Digits.word64 :=
    absorb_lt (absorb_lt (by decide) n.whole) n.fraction
  unfold Numeral.double? at h
  simp only [Option.map_eq_some_iff] at h
  obtain ⟨y, hy, rfl⟩ := h
  have hfinite : y.isFinite = true := by
    split at hy
    · exact isFinite_of_scale? hparts hy
    · split at hy
      · cases hy
        rfl
      · cases hy
  split
  · exact hfinite
  · exact hfinite

/-! ## Values -/

/-- Whether the value of a scalar, if it has one, is told by its text. -/
def Scalar.TellsValue (s : Scalar) : Prop := ∀ v, s.json? = some v → v.isExact = true

lemma Token.Spells.tellsValue {t : Token} {cs : List Char} (h : t.Spells cs) {s : Scalar}
    (ht : t = .scalar s) : s.TellsValue := by
  have hword := h.isWord s ht
  subst ht
  cases h with
  | mark hscalar => cases hscalar
  | scalar h =>
    rintro v hv
    cases h with
    | null | true | false | text =>
      cases hv
      rfl
    | loneSurrogate => cases hv
    | @numeral n _ _ _ hs =>
      unfold Numeral.token at hs
      split at hs
      · cases hs
        cases hv
        exact hword
      · next x hx =>
        cases hs
        cases hv
        unfold Numeral.number? at hx
        split at hx
        · cases hx
        · obtain ⟨y, hy, hyx⟩ := Option.map_eq_some_iff.1 hx
          cases hyx
          exact isFinite_of_double? hy
      · cases hs
        cases hv

lemma all_isExact_of_all {v : Json} (h : (document v).All Scalar.TellsValue) :
    v.all isExact = true := by
  induction v using inductionOn with
  | null | bool | integer | double | text => exact h _ rfl
  | array items ih =>
    rw [document, Document.All, allItems_iff_forall, documentItems_eq_map] at h
    rw [all, allItems_iff]
    exact fun v hv => ih v hv (h _ (List.mem_map_of_mem hv))
  | object members ih =>
    rw [document, Document.All, allMembers_iff_forall, documentMembers_eq_map] at h
    rw [all, allMembers_iff]
    exact fun m hm => ih m hm (h _ (List.mem_map_of_mem hm))

/-- **The numbers of a value that a text writes are told by their texts.** -/
theorem Spells.all_isExact {v : Json} {cs : List Char} (h : v.Spells cs) :
    v.all isExact = true := by
  have hall : (v.tokens.foldl Builder.step (.value [])).All Scalar.TellsValue :=
    List.foldlRecOn v.tokens Builder.step (List.forall_mem_nil _) fun _ hb t ht => by
      obtain ⟨_, hspells⟩ := h.exists_spells t ht
      exact hb.step fun _ => hspells.tellsValue
  have hdone : v.tokens.foldl Builder.step (.value []) = .done (document v) := foldl_emit v [] []
  rw [hdone] at hall
  exact all_isExact_of_all hall

/-- **What has been read** has distinct names, and its numbers are told by their texts. -/
theorem all_isExact_of_readWith {cs : List Char} {w : Json} (h : readWith .value cs = .ok w) :
    w.isDistinct = true ∧ w.all isExact = true := by
  rcases readWith_value cs with ⟨v, hv, -, hread⟩ | ⟨-, hread⟩
  · rw [hread] at h
    cases h
    exact ⟨isDistinct_collapse v, all_collapse hv.all_isExact⟩
  · rw [hread] at h
    cases h

end Json

end PagedTopK
