import PagedTopK.Proofs.Continuation.Bounds
import PagedTopK.Proofs.Continuation.Grammar
import PagedTopK.Proofs.Continuation.Outcome
import PagedTopK.Proofs.Plan.Same

set_option autoImplicit false

/-!
# Tokens that are given threshold values twice

A token that has been given threshold values may be given others. Then the later ones count: the
plan is the one that the values of both would have led to at once. New names may stand in another
order, so that the two tokens differ in their characters, but not in their length. The same values,
given once more, change no character.

## Main definitions

* `Continuation.InBounds` — whether a token stays within the bounds of the reader.
* `Continuation.Fits` — whether a plan can be read back from its token.
* `Continuation.SameReading` — two tokens are read as the same plan, or refused alike.

## Main results

* `Threshold.Overwritten.lookup_twice` — what a threshold holds that has been overwritten twice.
* `Continuation.given_given` — the same values change nothing when they are given again.
* `Continuation.sameReading_of_length` — tokens of the same plan that are equally long.
* `Continuation.last_values_count` — what becomes of a token that is given values twice.
-/

namespace PagedTopK

/-! ## Thresholds that are overwritten twice -/

namespace Threshold

variable {earlier later : Solution} {t t' t'' both : Members}

/-- **What a threshold holds that has been overwritten twice** is what both solutions lead to at
once, the later one overriding the earlier one. -/
lemma Overwritten.lookup_twice (h : Overwritten earlier t t') (h' : Overwritten later t' t'')
    (hboth : Overwritten (earlier.overriddenBy later) t both) (name : String) :
    t''.lookup name = both.lookup name := by
  rw [h'.lookup, h.lookup, hboth.lookup, Solution.get?_overriddenBy]
  cases later.get? name <;> rfl

/-- So the members are the same, in some order. -/
lemma Overwritten.perm_twice (h : Overwritten earlier t t') (h' : Overwritten later t' t'')
    (hboth : Overwritten (earlier.overriddenBy later) t both) : t''.Perm both := by
  rw [List.perm_ext_iff_of_nodup h'.nodup.of_map hboth.nodup.of_map]
  intro m
  rw [← lookup_eq_some_iff h'.nodup, ← lookup_eq_some_iff hboth.nodup, h.lookup_twice h' hboth]

end Threshold

namespace Continuation

open Json (isInteger maxDepth)

variable {token first : String} {plan p q : Plan} {l : Plan.Located} {earlier : Solution}

/-! ## Bounds -/

/-- **A token stays within the bounds of the reader.** -/
structure InBounds (token : String) : Prop where
  /-- It is not too long. -/
  short : size token ≤ maxLength
  /-- The value in it is not too deep. -/
  shallow : ∀ v, Holds token v → v.depth ≤ maxDepth

/-- **A plan can be read back from its token** if that is not too long. -/
structure Fits (plan : Plan) : Prop where
  /-- It is in order. -/
  canonical : plan.Canonical
  /-- Its numbers are integers. -/
  integer : plan.json.all isInteger = true
  /-- It is not too deep. -/
  shallow : plan.json.depth ≤ maxDepth

lemma size_encode (plan : Plan) : size (encode plan) = (encode plan).length := by
  rw [encode_eq_ofText, size_ofText]

/-- The plan in a token that has no doubles. -/
lemma fits_of_decode (h : decode token = .ok plan) (hinteger : plan.json.all isInteger = true) :
    Fits plan :=
  ⟨canonical_of_decode h, hinteger, depth_le_of_decode h⟩

/-- The plan whose token stays within the bounds. -/
lemma InBounds.fits (h : InBounds (encode plan)) (hcanonical : plan.Canonical)
    (hinteger : plan.json.all isInteger = true) : Fits plan := by
  refine ⟨hcanonical, hinteger, h.shallow _ ?_⟩
  rw [holds_encode_iff (Json.all_isWord_of_isInteger hinteger),
    Json.rewritten_of_isInteger hinteger]

/-- **A plan is read back** if its token is not too long. -/
lemma Fits.decode_encode (h : Fits plan) (hlength : (encode plan).length ≤ maxLength) :
    decode (encode plan) = .ok plan := by
  rw [decode_encode_iff h.canonical (Json.all_isWord_of_isInteger h.integer)]
  exact ⟨(Plan.rewritten_of_isInteger h.integer).symm, hlength, h.shallow⟩

/-- A token that is too long is refused for its length. -/
lemma decode_encode_of_tooLong (h : maxLength < (encode plan).length) :
    decode (encode plan) = .error (.tooLong (encode plan).length) := by
  rw [(judged_decode _).tooLong_iff, size_encode]
  refine ⟨fun hbody => ?_, h, rfl⟩
  have hempty : (encode plan).length = 0 := by
    rw [← size_encode, size, symbols_eq_nil_iff.2 hbody, List.length_nil]
  omega

/-! ## Two tokens of one plan -/

/-- **Two tokens are read as the same plan, or refused alike.** -/
inductive SameReading : Except TokenError Plan → Except TokenError Plan → Prop where
  /-- Both are accepted. -/
  | accepted {p q : Plan} (h : p.same q = true) : SameReading (.ok p) (.ok q)
  /-- Both are refused. -/
  | refused (fault : TokenError) : SameReading (.error fault) (.error fault)

/-- One token is read in one way. -/
lemma sameReading_self (hcanonical : plan.Canonical) (hinteger : plan.json.all isInteger = true) :
    SameReading (decode (encode plan)) (decode (encode plan)) := by
  cases hread : decode (encode plan) with
  | error fault => exact .refused fault
  | ok read =>
    have hword := Json.all_isWord_of_isInteger hinteger
    obtain ⟨rfl, -⟩ := (decode_encode_iff hcanonical hword).1 hread
    rw [Plan.rewritten_of_isInteger hinteger]
    exact .accepted (Plan.same_refl hcanonical hinteger)

/-- **Tokens of the same plan that are equally long** are read as that plan, or refused for their
length. -/
lemma sameReading_of_length (hp : Fits p) (hq : Fits q)
    (hlength : (encode p).length = (encode q).length) (hsame : p.same q = true) :
    SameReading (decode (encode p)) (decode (encode q)) := by
  rcases Nat.lt_or_ge maxLength (encode p).length with hlong | hshort
  · rw [decode_encode_of_tooLong hlong, decode_encode_of_tooLong (hlength ▸ hlong), hlength]
    exact .refused _
  · rw [hp.decode_encode hshort, hq.decode_encode (hlength ▸ hshort)]
    exact .accepted hsame

/-- The tokens of plans whose thresholds have the same members are equally long. -/
lemma length_encode_of_perm (l : Plan.Located) {t : Members} (h : l.threshold.Perm t) :
    (encode l.plan).length = (encode ({ l with threshold := t } : Plan.Located).plan).length := by
  rw [encode_eq_ofText, encode_eq_ofText, ofText, ofText, String.length_ofList,
    String.length_ofList, Base64.length_encode, Base64.length_encode,
    Json.length_bytes_of_perm (l.perm_tokens h)]

/-! ## Plans that have been given values -/

/-- A plan stays in order. -/
lemma canonical_given (h : l.plan.Canonical) (values : Solution) :
    (l.given values).plan.Canonical := by
  obtain ⟨root, hroot, hplan⟩ := setThreshold_eq_ok_iff.1 (Plan.setThreshold_located l values)
  rw [hplan]
  exact ⟨h.root.setThreshold hroot, h.extra⟩

/-- It gets no doubles. -/
lemma all_isInteger_given (h : l.plan.json.all isInteger = true) (values : Solution) :
    (l.given values).plan.json.all isInteger = true := by
  obtain ⟨root, hroot, hplan⟩ := setThreshold_eq_ok_iff.1 (Plan.setThreshold_located l values)
  rw [hplan]
  exact Plan.all_json_setThreshold (fun _ => rfl) h hroot

/-- **It can still be read back** if there was room for the values, or there are none. -/
lemma fits_given_iff (h : Fits l.plan) (values : Solution) :
    Fits (l.given values).plan ↔
      values.bindings = [] ∨ l.wrappers.length + 3 ≤ maxDepth := by
  have hdepth : (l.given values).plan.json.depth ≤ maxDepth ↔
      values.bindings = [] ∨ l.wrappers.length + 3 ≤ maxDepth := by
    obtain ⟨root, hroot, hplan⟩ := setThreshold_eq_ok_iff.1 (Plan.setThreshold_located l values)
    have hwrappers : l.plan.root.wrappers = l.wrappers.length :=
      PlanNode.wrappers_under_ranking _ _ _ _ _
    have hroom : l.wrappers.length + 3 ≤ maxDepth ↔ l.wrappers.length + 2 ≤ maxDepth - 1 :=
      Nat.add_le_add_iff_right (n := 1)
    rw [hplan, hroom, ← hwrappers]
    exact depth_setThreshold_le_iff h.shallow hroot
  rw [← hdepth]
  constructor
  · intro hgiven
    exact hgiven.shallow
  · intro hshallow
    exact ⟨canonical_given h.canonical values, all_isInteger_given h.integer values, hshallow⟩

/-- Its threshold has been overwritten. -/
lemma overwritten_given (h : l.plan.Canonical) (values : Solution) :
    Threshold.Overwritten values l.threshold (l.given values).threshold :=
  PlanNode.overwritten_withValues h.threshold.nodup values

/-- **The same values change nothing** when they are given again. -/
lemma given_given (h : l.plan.Canonical) (values : Solution) :
    (l.given values).given values = l.given values := by
  have hfirst := overwritten_given h values
  have hagain := overwritten_given (canonical_given h values) values
  exact congrArg (fun t => { l with threshold := t }) (hagain.unique hfirst.again)

/-- Where no values are given first, all is as if there had been one solution only. -/
lemma given_of_bindings_eq_nil (h : earlier.bindings = []) (later : Solution) :
    l.given earlier = l ∧ earlier.overriddenBy later = later := by
  refine ⟨?_, Solution.ext_get? fun name => ?_⟩
  · rw [Plan.Located.given, h]
    rfl
  · have hnone : earlier.get? name = none := by
      rw [Solution.get?, h]
      rfl
    rw [Solution.get?_overriddenBy, hnone, Option.or_none]

/-- **Values given twice** lead to the same plan as the values of both given at once. -/
lemma same_given_given (h : Fits l.plan) (earlier later : Solution) :
    ((l.given earlier).given later).plan.same
      (l.given (earlier.overriddenBy later)).plan = true := by
  have hearlier := canonical_given h.canonical earlier
  have hboth := overwritten_given h.canonical (earlier.overriddenBy later)
  apply Plan.Located.same_plan (canonical_given hearlier later)
    (all_isInteger_given (all_isInteger_given h.integer earlier) later) hboth.nodup
  exact (overwritten_given h.canonical earlier).lookup_twice (overwritten_given hearlier later)
    hboth

/-- **The tokens of both are read alike**, if the values that are given first leave a plan that is
not too deep. -/
lemma sameReading_given_given (h : Fits l.plan) (hearlier : Fits (l.given earlier).plan)
    (later : Solution) : SameReading (decode (encode ((l.given earlier).given later).plan))
      (decode (encode (l.given (earlier.overriddenBy later)).plan)) := by
  -- Without earlier values there may be no room for the later ones, but the plans are equal.
  rcases (fits_given_iff h earlier).1 hearlier with hnone | hroom
  · obtain ⟨hgiven, hboth⟩ := @given_of_bindings_eq_nil l earlier hnone later
    rw [hgiven, hboth]
    exact sameReading_self (canonical_given h.canonical later) (all_isInteger_given h.integer later)
  · have hperm := (overwritten_given h.canonical earlier).perm_twice
      (overwritten_given hearlier.canonical later) (overwritten_given h.canonical _)
    apply sameReading_of_length _ _ (length_encode_of_perm _ hperm) (same_given_given h _ _)
    · exact (fits_given_iff hearlier later).2 (.inr hroom)
    · exact (fits_given_iff h _).2 (.inr hroom)

/-- **The later values count.** A token without doubles is given values twice, and stays within the
bounds of the reader in between. Then it holds the same plan as the token that is given the values
of both at once, the later ones overriding the earlier ones; these two tokens are read as the same
plan, or refused alike. Where both times the same values are given, the second time changes no
character.

**Proof sketch.** A threshold that has been overwritten twice holds the same under every name as
one that has been overwritten once (`Threshold.Overwritten.lookup_twice`), in some other order. So
the plans are the same (`same_given_given`), and their tokens are equally long
(`length_encode_of_perm`). Neither plan is too deep where the values of the first time have left
room. What has been overwritten is overwritten as it is (`Threshold.Overwritten.again`), and a
threshold can be overwritten in one way only. -/
theorem last_values_count (hplan : decode token = .ok plan)
    (hinteger : plan.json.all isInteger = true) (hfirst : withThreshold token earlier = .ok first)
    (hbounds : InBounds first) :
    (∀ later, ∃ p q : Plan, withThreshold first later = .ok (encode p) ∧
      withThreshold token (earlier.overriddenBy later) = .ok (encode q) ∧ p.same q = true ∧
      SameReading (decode (encode p)) (decode (encode q))) ∧
    withThreshold first earlier = .ok first := by
  obtain ⟨l, hl, rfl⟩ := exists_located hfirst
  obtain rfl := Except.ok.inj (hplan.symm.trans hl)
  have hfits := fits_of_decode hplan hinteger
  have hgiven : Fits (l.given earlier).plan :=
    hbounds.fits (canonical_given hfits.canonical earlier) (all_isInteger_given hinteger earlier)
  have hread : decode (encode (l.given earlier).plan) = .ok (l.given earlier).plan :=
    hgiven.decode_encode (size_encode (l.given earlier).plan ▸ hbounds.short)
  constructor
  · intro later
    exact ⟨_, _, withThreshold_of_located hread later, withThreshold_of_located hplan _,
      same_given_given hfits earlier later, sameReading_given_given hfits hgiven later⟩
  · rw [withThreshold_of_located hread, given_given hfits.canonical]

/-- A name that is new the second time comes last; given at once it comes in order. The two tokens
differ, and are read as the same plan. -/
theorem last_values_count_of_new_names :
    let token := encode ⟨wrapped bare 1, []⟩
    let first := encode ⟨wrapped bounded 1, []⟩
    let earlier := Solution.ofList [("a", "1")]
    let later := Solution.ofList [("A", "2")]
    let below (t : Members) : Plan := ⟨wrapped (.ranking .topK t none []) 1, []⟩
    let twice := encode (below [("a", .text "1"), ("A", .text "2")])
    let once := encode (below [("A", .text "2"), ("a", .text "1")])
    decode token = .ok ⟨wrapped bare 1, []⟩ ∧
      (Plan.json ⟨wrapped bare 1, []⟩).all isInteger = true ∧
      withThreshold token earlier = .ok first ∧ InBounds first ∧
      withThreshold first later = .ok twice ∧
      withThreshold token (earlier.overriddenBy later) = .ok once ∧ twice ≠ once ∧
      SameReading (decode twice) (decode once) ∧ withThreshold first earlier = .ok first := by
  intro token first earlier later below twice once
  have hplan : decode token = .ok ⟨wrapped bare 1, []⟩ := decode_encode_wrapped_bare (by decide)
  have hinteger : (Plan.json ⟨wrapped bare 1, []⟩).all isInteger = true := rfl
  have hfirst : withThreshold token earlier = .ok first := withThreshold_wrapped_bare (by decide)
  have hbounds : InBounds first := by
    constructor
    · rw [size_encode]
      exact length_encode_wrapped_le emit_bounded (by decide) (by decide)
    · intro v hv
      rw [(holds_encode_iff rfl).1 hv, Json.depth_rewritten]
      decide
  have htwice : withThreshold first later = .ok twice := by
    rw [← toOption_eq_some_iff]
    decide +kernel
  have honce : withThreshold token (earlier.overriddenBy later) = .ok once :=
    withThreshold_eq_ok_iff.2 ⟨_, _, hplan, setThreshold_wrapped rfl 1, rfl⟩
  obtain ⟨hboth, hagain⟩ := last_values_count hplan hinteger hfirst hbounds
  obtain ⟨p, q, hp, hq, -, hread⟩ := hboth later
  rw [← Except.ok.inj (htwice.symm.trans hp), ← Except.ok.inj (honce.symm.trans hq)] at hread
  exact ⟨hplan, hinteger, hfirst, hbounds, htwice, honce, by decide +kernel, hread, hagain⟩

end Continuation

end PagedTopK
