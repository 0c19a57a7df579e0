import PagedTopK.Proofs.Term.Written
import PagedTopK.Strategy.Kind

set_option autoImplicit false

/-!
# Selectors and their texts

The refresh rate of a selector is checked twice: when a strategy is asked for by its name, and when
the text of a selector is read. Both checks admit the same rates, and the text of a rate is read as
that rate, so a selector survives being written.

## Main results

* `Binary64.isRate_iff` — which doubles are refresh rates.
* `StrategyKind.ofName_shared_iff` — the rates that a strategy is given are admitted by this check.
* `Selector.parse_text_iff` — so are those that are read back.
* `Selector.parse_text_round_trip` — selectors of strategies and selectors that are read survive
  being written.
-/

namespace PagedTopK

/-- **The refresh rates**: the finite doubles that are not below zero. -/
lemma Binary64.isRate_iff {x : Binary64} :
    x.isRate = true ↔ x.isFinite = true ∧ 0 ≤ x.toRat := by
  rw [Binary64.isRate, Bool.and_eq_true, and_congr_right_iff]
  intro hx
  have hnonneg := x.units_div_nonneg
  have hnumber := isNaN_of_isFinite hx
  cases hsign : x.negative with
  | false =>
    refine iff_of_true ?_ ?_
    · rw [isBelowZero, hsign]
      rfl
    · rw [toRat_of_not_negative hsign]
      exact hnonneg
  | true =>
    have hnonpos : x.toRat ≤ 0 := by
      rw [toRat_of_negative hsign]
      exact neg_nonpos.2 hnonneg
    rw [hnonpos.ge_iff_eq, toRat_eq_zero_iff]
    simp [isBelowZero, hsign, hnumber, isZero]

/-! ## The rates of strategies -/

namespace StrategyKind

variable {name : String} {rate? : Option Binary64} {kind : StrategyKind}

/-- The names of the strategy that takes a refresh rate. -/
def rateNames : List String := ["periodic-refresh", "sage-topk-collab"]

lemma named?_of_mem_rateNames (h : name ∈ rateNames) (rate : Binary64) :
    named? name rate = some (periodicRefresh rate) := by
  simp only [rateNames, List.mem_cons, List.not_mem_nil, or_false] at h
  rcases h with rfl | rfl <;> rfl

/-- **Under the names that take a rate, the rates are what is admitted.** -/
lemma ofName_shared_iff (h : name ∈ rateNames) {rate : Binary64} :
    ofName name (some rate) = .ok (periodicRefresh rate) ↔ rate.isRate = true := by
  rw [ofName, Option.getD_some, named?_of_mem_rateNames h]
  dsimp only
  split
  · next hrate => exact iff_of_true rfl hrate
  · next hrate => exact iff_of_false nofun hrate

/-- A strategy with a refresh rate has got one that is admitted. -/
lemma isRate_of_ofName (h : ofName name rate? = .ok kind) {rate : Binary64}
    (hkind : kind = periodicRefresh rate) : rate.isRate = true := by
  subst hkind
  unfold ofName at h
  split at h
  · cases h
  · split at h
    · next hrate =>
      cases h
      exact hrate
    · cases h
  · next hne _ =>
    split at h
    · cases h
    · cases h
      exact absurd rfl (hne rate)

end StrategyKind

/-! ## The texts of selectors -/

namespace Selector

variable {s : Selector} {text : String}

/-- What is read as a selector has a rate that is admitted, if it has one. -/
lemma isRate_of_parse (h : parse text = .ok s) {rate : Binary64} (hrate : s.rate? = some rate) :
    rate.isRate = true := by
  unfold parse at h
  split at h
  · cases h
    cases hrate
  split at h
  · cases h
    cases hrate
  dsimp only at h
  split at h
  · next given hgiven =>
    cases h
    cases hrate
    exact (Option.filter_eq_some_iff.1 hgiven).2
  · cases h

/-- **A selector is read back from its text** exactly if its rate, should it have one, is
admitted. -/
lemma parse_text_iff : parse s.text = .ok s ↔ ∀ rate, s.rate? = some rate → rate.isRate = true := by
  refine ⟨fun h rate => isRate_of_parse h, fun h => ?_⟩
  cases s with
  | server => rfl
  | partialRanking => rfl
  | shared rate =>
    have hrate : rate.isRate = true := h rate rfl
    have hlist : (shared rate).text.toList =
        sharedStart.toList ++ Layout.selector.write rate := by
      rw [text, String.toList_append, String.toList_ofList]
    have hother : ∀ word : String, word.toList.head? ≠ some 'C' → (shared rate).text ≠ word := by
      intro word hword heq
      rw [← heq, hlist] at hword
      exact hword rfl
    rw [parse, if_neg (hother _ (by decide)), if_neg (hother _ (by decide)), hlist,
      Term.stripStart?_append]
    dsimp only
    rw [Option.bind_some, Layout.ofText?_write _ (Binary64.isRate_iff.1 hrate).1,
      Option.filter_some_pos hrate]

/-- **Selectors survive being written.** The selector of a strategy, whatever its name and rate, is
read back from its text. What is read as a selector is the same when it is written and read again,
and a strategy can be asked for with its rate. The rates that a strategy is given, those that are
read back and the finite doubles that are not below zero are the same. -/
theorem parse_text_round_trip :
    (∀ name rate? kind s, StrategyKind.ofName name rate? = .ok kind →
      kind.selector? = some s → parse s.text = .ok s) ∧
    (∀ text s, parse text = .ok s → parse s.text = .ok s ∧ ∀ rate, s.rate? = some rate →
      rate.isFinite = true ∧ 0 ≤ rate.toRat ∧ ∀ name ∈ StrategyKind.rateNames,
        StrategyKind.ofName name (some rate) = .ok (.periodicRefresh rate)) ∧
    ∀ rate : Binary64,
      (parse (shared rate).text = .ok (shared rate) ↔ rate.isFinite = true ∧ 0 ≤ rate.toRat) ∧
      ∀ name ∈ StrategyKind.rateNames,
        (StrategyKind.ofName name (some rate) = .ok (.periodicRefresh rate) ↔
          rate.isFinite = true ∧ 0 ≤ rate.toRat) := by
  refine ⟨fun name rate? kind s hname hselector => ?_, fun text s hparse => ?_, fun rate => ?_⟩
  · refine parse_text_iff.2 fun rate hrate => StrategyKind.isRate_of_ofName hname ?_
    cases kind <;> cases hselector <;> cases hrate
    rfl
  · refine ⟨parse_text_iff.2 fun rate hrate => isRate_of_parse hparse hrate, fun rate hrate => ?_⟩
    have hrate := isRate_of_parse hparse hrate
    obtain ⟨hfinite, hnonneg⟩ := Binary64.isRate_iff.1 hrate
    exact ⟨hfinite, hnonneg, fun name hname => (StrategyKind.ofName_shared_iff hname).2 hrate⟩
  · have hread : parse (shared rate).text = .ok (shared rate) ↔ rate.isRate = true :=
      parse_text_iff.trans ⟨fun h => h rate rfl, by rintro h _ ⟨⟩; exact h⟩
    exact ⟨hread.trans Binary64.isRate_iff,
      fun name hname => (StrategyKind.ofName_shared_iff hname).trans Binary64.isRate_iff⟩

/-- Negative zero is a rate that keeps its sign; a text that is not written so is read too. -/
theorem parse_text_round_trip_of_corners :
    (StrategyKind.ofName "sage-topk-collab" (some (.signedZero true)) =
        .ok (.periodicRefresh (.signedZero true)) ∧
      parse "ClientServer--0.0" = .ok (shared (.signedZero true))) ∧
    parse "ClientServer-+.05E1" = .ok (shared (.ofMagnitude false (1022 * 2 ^ 52))) ∧
      parse "ClientServer-0.5" = .ok (shared (.ofMagnitude false (1022 * 2 ^ 52))) := by
  have hname : StrategyKind.ofName "sage-topk-collab" (some (.signedZero true)) =
      .ok (.periodicRefresh (.signedZero true)) := rfl
  have hzero := parse_text_round_trip.1 _ _ _ _ hname rfl
  rw [show (shared (.signedZero true)).text = "ClientServer--0.0" from rfl] at hzero
  have hparse : parse "ClientServer-+.05E1" =
      .ok (shared (.ofMagnitude false (1022 * 2 ^ 52))) := by decide +kernel
  have hhalf := (parse_text_round_trip.2.1 _ _ hparse).1
  rw [show (shared (.ofMagnitude false (1022 * 2 ^ 52))).text = "ClientServer-0.5" by
    decide +kernel] at hhalf
  exact ⟨⟨hname, hzero⟩, hparse, hhalf⟩

/-- The least double above zero is a rate, written with an exponent. -/
example : (shared (.ofMagnitude false 1)).text = "ClientServer-5e-324" := by decide +kernel

end Selector

end PagedTopK
