import PagedTopK.Proofs.Json.Accuracy
import PagedTopK.Proofs.Json.Finite

set_option autoImplicit false

/-!
# What becomes of doubles that are written and read

The text of a double is its shortest decimal, which tells it from every other double. Yet reading it
rounds the digits, the power of ten and the result one after the other, so that another double may
come out, at most sixteen parts in `2 ^ 53` away. With few digits and a moderate power of ten the
first two are exact, and the double is kept.

## Main definitions

* `Json.doubles` — the doubles of a value, at any depth and in order.
* `Json.HasFewDigits` — whether a double has few digits and is neither great nor small.

## Main results

* `Json.all_isKept_iff`, `Json.doubles_rewritten` — what is read again of the doubles of a value.
* `Json.reread_of_isZero`, `Json.reread_of_hasFewDigits` — doubles that are kept.
* `Json.abs_reread_sub_le` — how far other doubles drift.
-/

namespace PagedTopK.Json

open Binary64 (IsNear Nearest halfUnit shortest unitsPerOne)

/-! ## The doubles of a value -/

mutual

/-- **The doubles of a value**, at any depth and in order. -/
def doubles : Json → List Binary64
  | double x => [x]
  | array items => doublesItems items
  | object members => doublesMembers members
  | _ => []

/-- The doubles of items. -/
def doublesItems : List Json → List Binary64
  | [] => []
  | v :: rest => doubles v ++ doublesItems rest

/-- The doubles of members. -/
def doublesMembers : List (String × Json) → List Binary64
  | [] => []
  | (_, v) :: rest => doubles v ++ doublesMembers rest

end

lemma doublesItems_eq_flatMap (items : List Json) : doublesItems items = items.flatMap doubles := by
  induction items with
  | nil => rfl
  | cons v rest ih => rw [doublesItems, ih, List.flatMap_cons]

lemma doublesMembers_eq_flatMap (members : List (String × Json)) :
    doublesMembers members = members.flatMap fun m => m.2.doubles := by
  induction members with
  | nil => rfl
  | cons m rest ih => rw [doublesMembers, ih, List.flatMap_cons]

/-- A test that only doubles may fail. -/
def passes (p : Binary64 → Bool) : Json → Bool
  | double x => p x
  | _ => true

/-- **A test that only doubles may fail** is a test on the doubles of a value. -/
lemma all_passes_iff {p : Binary64 → Bool} {v : Json} :
    v.all (passes p) = true ↔ ∀ x ∈ v.doubles, p x = true := by
  induction v using inductionOn with
  | null | bool | integer | text => exact iff_of_true rfl (List.forall_mem_nil _)
  | double x => exact (List.forall_mem_singleton (p := fun x => p x = true)).symm
  | array items ih =>
    rw [all, allItems_iff, doubles, doublesItems_eq_flatMap]
    simp only [List.mem_flatMap, forall_exists_index, and_imp]
    exact ⟨fun h x v hv => (ih v hv).1 (h v hv) x, fun h v hv => (ih v hv).2 fun x => h x v hv⟩
  | object members ih =>
    rw [all, allMembers_iff, doubles, doublesMembers_eq_flatMap]
    simp only [List.mem_flatMap, forall_exists_index, and_imp]
    exact ⟨fun h x m hm => (ih m hm).1 (h m hm) x, fun h m hm => (ih m hm).2 fun x => h x m hm⟩

/-- The doubles of a value that is told by its text are finite. -/
lemma isFinite_of_all_isExact {v : Json} (h : v.all isExact = true) :
    ∀ x ∈ v.doubles, x.isFinite = true := by
  refine all_passes_iff.1 (all_mono (fun v hv => ?_) h)
  cases v with
  | double x => exact hv
  | null | bool | integer | text | array | object => rfl

/-- **Which values are read as themselves**: those whose doubles are. -/
lemma all_isKept_iff {v : Json} :
    v.all isKept = true ↔ ∀ x ∈ v.doubles, x.isFinite = true ∧ reread x = x := by
  have hkept : isKept = passes fun x => x.isFinite && reread x == x := by
    funext v
    cases v <;> rfl
  rw [hkept, all_passes_iff]
  simp only [Bool.and_eq_true, beq_iff_eq]

/-- **The doubles that are read** are those that have been written, each of them read again. -/
lemma doubles_rewritten {v : Json} (h : ∀ x ∈ v.doubles, x.isFinite = true) :
    v.rewritten.doubles = v.doubles.map reread := by
  induction v using inductionOn with
  | null | bool | integer | text => rfl
  | double x =>
    rw [rewritten, if_pos (h x List.mem_cons_self)]
    rfl
  | array items ih =>
    rw [doubles, doublesItems_eq_flatMap] at h
    rw [rewritten, doubles, doubles, doublesItems_eq_flatMap, doublesItems_eq_flatMap,
      rewrittenItems_eq_map, List.flatMap_map, List.map_flatMap]
    exact List.flatMap_congr fun v hv => ih v hv fun x hx => h x (List.mem_flatMap_of_mem hv hx)
  | object members ih =>
    rw [doubles, doublesMembers_eq_flatMap] at h
    rw [rewritten, doubles, doubles, doublesMembers_eq_flatMap, doublesMembers_eq_flatMap,
      rewrittenMembers_eq_map, List.flatMap_map, List.map_flatMap]
    exact List.flatMap_congr fun m hm => ih m hm fun x hx => h x (List.mem_flatMap_of_mem hm hx)

/-! ## Few digits -/

/-- **Whether a double has few digits and is neither great nor small**: at most 15 digits, from
`1e-8` up to `1e15`. Zeros are among them. -/
def HasFewDigits (x : Binary64) : Prop :=
  x.isZero = true ∨ (shortest .toEven x).digits.length ≤ 15 ∧
    -8 ≤ (shortest .toEven x).leadingExponent ∧ (shortest .toEven x).leadingExponent ≤ 14

instance (x : Binary64) : Decidable (HasFewDigits x) :=
  inferInstanceAs (Decidable (_ ∨ _))

/-- Zero is kept with its sign. -/
lemma reread_of_isZero {x : Binary64} (h : x.isZero = true) : reread x = x := by
  have hall : ∀ negative : Bool, reread (.signedZero negative) = .signedZero negative := by
    decide +kernel
  have hmagnitude : x.magnitude = 0 := by simpa [Binary64.isZero] using h
  have hx : x = .signedZero x.negative := by
    cases x
    cases hmagnitude
    rfl
  rw [hx]
  exact hall _

lemma toRat_powerOfTen {k : Nat} (hk : k ≤ 22) : (powerOfTen k).toRat = 10 ^ k := by
  have hfive : 5 ^ k < 2 ^ 53 :=
    Nat.lt_of_le_of_lt (Nat.pow_le_pow_right (by decide) hk) (by decide)
  have hten : 10 ^ k = 5 ^ k * 2 ^ k := by rw [← Nat.mul_pow]
  have hle : 5 ^ k * 2 ^ k ≤ 2 ^ 74 := by
    rw [← hten]
    exact Nat.le_trans (Nat.pow_le_pow_right (by decide) hk) (by decide)
  rw [powerOfTen_eq_ofNat (by omega), hten, Binary64.toRat_ofNat hfive (by decide) hle, ← hten,
    Nat.cast_pow, Nat.cast_ofNat]

/-- **A significand of 53 bits scaled by a power of ten that is a double** is rounded once. -/
lemma exists_nearest_scale? {n j : Nat} {e : Int} (hn : n < 2 ^ 53) (hj : n * 2 ^ j ≤ 2 ^ 64)
    (hlow : -22 ≤ e) (hhigh : e ≤ 22) :
    ∃ y, scale? (n * 2 ^ j) e = some y ∧ y.negative = false ∧
      Nearest y ((n * 2 ^ j : Nat) * (10 : ℚ) ^ e) := by
  have hbound := Binary64.isAtMost_ofNat (by decide) hj
  have hexact := Binary64.toRat_ofNat hn (by decide) hj
  unfold scale?
  generalize n * 2 ^ j = s at *
  dsimp only
  split
  · next hneg =>
    obtain ⟨k, rfl⟩ : ∃ k : Nat, e = -k := ⟨e.natAbs, by omega⟩
    rw [Int.natAbs_neg, Int.natAbs_natCast, scaleDown, if_pos (by omega)]
    obtain ⟨hpower, hone⟩ := powerOfTen_bounds (by omega : k ≤ 308)
    have hpos := Nat.lt_of_lt_of_le Binary64.unitsPerOne_pos hone
    have hfinite := Binary64.isFinite_div hbound.isFinite hpower hone
    have hnearest := Binary64.nearest_div hbound.isFinite hpower hpos hfinite
    rw [hexact, toRat_powerOfTen (by omega)] at hnearest
    refine ⟨_, rfl, ?_, ?_⟩
    · rw [Binary64.negative_div hbound.isFinite hpower hpos, Binary64.negative_ofNat,
        negative_powerOfTen]
      rfl
    · rwa [zpow_neg, zpow_natCast, ← div_eq_mul_inv]
  · next hnonneg =>
    obtain ⟨k, rfl⟩ : ∃ k : Nat, e = k := ⟨e.toNat, by omega⟩
    have hatMost : (powerOfTen k).IsAtMost 74 := by
      rw [powerOfTen_eq_ofNat (by omega)]
      exact Binary64.isAtMost_ofNat (by decide)
        (Nat.le_trans (Nat.pow_le_pow_right (by decide) (by omega : k ≤ 22)) (by decide))
    have hfinite := (Binary64.isAtMost_mul (by decide) hbound hatMost).isFinite
    have hnearest := Binary64.nearest_mul hbound.isFinite hatMost.isFinite hfinite
    rw [hexact, toRat_powerOfTen (by omega)] at hnearest
    rw [if_pos (by omega), Int.toNat_natCast, if_pos hfinite]
    refine ⟨_, rfl, ?_, ?_⟩
    · rw [Binary64.negative_mul hbound.isFinite hatMost.isFinite, Binary64.negative_ofNat,
        negative_powerOfTen]
      rfl
    · rwa [zpow_natCast]

/-- Few digits with few zeros behind them make a number of 53 bits, scaled by a power of two. -/
lemma significand_lt {m len zeros : Nat} (hm : m < 10 ^ len) (hlen : len ≤ 15)
    (h : zeros = 0 ∨ len + zeros ≤ 16) :
    m * 5 ^ zeros < 2 ^ 53 ∧ m * 5 ^ zeros * 2 ^ zeros ≤ 2 ^ 63 := by
  rcases Nat.eq_zero_or_pos zeros with rfl | hpos
  · have hpow : 10 ^ len ≤ 10 ^ 15 := Nat.pow_le_pow_right (by decide) hlen
    rw [Nat.pow_zero, Nat.pow_zero, Nat.mul_one, Nat.mul_one]
    constructor <;> omega
  · have hall : m * 5 ^ zeros * 2 ^ zeros < 10 ^ 16 := by
      calc m * 5 ^ zeros * 2 ^ zeros = m * 10 ^ zeros := by rw [Nat.mul_assoc, ← Nat.mul_pow]
        _ < 10 ^ len * 10 ^ zeros := Nat.mul_lt_mul_of_pos_right hm (Nat.pow_pos (by decide))
        _ = 10 ^ (len + zeros) := (Nat.pow_add _ _ _).symm
        _ ≤ 10 ^ 16 := Nat.pow_le_pow_right (by decide) (by omega)
    have htwo : m * 5 ^ zeros * 2 ≤ m * 5 ^ zeros * 2 ^ zeros :=
      Nat.mul_le_mul_left _ (Nat.le_self_pow (by omega) 2)
    constructor <;> omega

/-- **Few digits with a moderate power of ten are rounded once**: what is read is nearest to the
number that is written. -/
lemma exists_nearest_ofDigits (negative : Bool) {first : Char} {rest : List Char} {e : Int}
    (hdigits : ∀ c ∈ first :: rest, c.isDigit = true) (hfew : (first :: rest).length ≤ 15)
    (hlow : -8 ≤ e) (hhigh : e ≤ 14) {n : Numeral}
    (hn : n = Numeral.ofDigits negative (first :: rest) e) :
    ∃ y, scale? n.parts.1 (n.parts.2 + n.power) = some y ∧ y.negative = false ∧
      Nearest y n.value := by
  obtain ⟨zeros, hcoefficient, hpower, hzeros⟩ := exists_coefficient_ofDigits negative first rest e
  rw [← hn] at hcoefficient hpower
  rw [List.length_cons] at hfew
  have hlt := Digits.value_lt _ hdigits
  have hlength : zeros = 0 ∨ (first :: rest).length + zeros ≤ 16 := by
    rw [List.length_cons]
    omega
  obtain ⟨hfits, hbound⟩ := significand_lt hlt hfew hlength
  have hsplit : Digits.value (first :: rest) * 10 ^ zeros =
      Digits.value (first :: rest) * 5 ^ zeros * 2 ^ zeros := by
    rw [Nat.mul_assoc, ← Nat.mul_pow]
  obtain ⟨y, hy, hsign, hread⟩ := exists_nearest_scale? (e := e - rest.length - zeros) hfits
    (Nat.le_trans hbound (by decide)) (by omega) (by omega)
  rw [← hsplit, ← hcoefficient, ← hpower] at hy hread
  rw [← hsplit, ← hcoefficient] at hbound
  have hword : Digits.word64 = 2 ^ 64 := rfl
  refine ⟨y, ?_, hsign, hread⟩
  rw [parts_of_lt (by omega), ← hy]
  congr 1
  dsimp only
  omega

/-- **Doubles with few digits are kept.** Their digits are exact as a significand, and the power of
ten is exact.

**Proof sketch.** What is read is nearest to the number that is written (`exists_nearest_ofDigits`),
and so is the double that has been written. -/
theorem reread_of_hasFewDigits {x : Binary64} (hx : x.isFinite = true) (h : HasFewDigits x) :
    reread x = x := by
  cases hzero : x.isZero with
  | true => exact reread_of_isZero hzero
  | false =>
  obtain ⟨hfew, hlow, hhigh⟩ := h.resolve_left (by rw [hzero]; decide)
  obtain ⟨hc, -, -⟩ := Binary64.bounds_shortest .toEven hx hzero
  obtain ⟨first, rest, -, hdigits, -, hfirst, hrest, -⟩ := Decimal.exists_digits hc
  have hnumeral : Numeral.ofDouble x = Numeral.ofDigits x.negative (first :: rest)
      (shortest .toEven x).leadingExponent := by
    rw [Numeral.ofDouble, hzero, if_neg (by decide), hdigits]
  have hnearest := Binary64.nearest_shortest hx hzero
  rw [hdigits] at hfew
  obtain ⟨y, hscale, hsign, hread⟩ := exists_nearest_ofDigits x.negative
    (List.forall_mem_cons.2 ⟨hfirst, hrest⟩) hfew hlow hhigh hnumeral
  rw [value_ofDouble hx hzero] at hread
  rw [reread, double?_eq_scale? (value_whole_ofDouble hx).2, hscale, Option.map_some,
    Option.getD_some, Numeral.negative_ofDouble]
  cases hnegative : x.negative with
  | false =>
    rw [hnegative, if_neg (by decide)] at hnearest
    exact hread.eq hnearest (hsign.trans hnegative.symm)
  | true =>
    rw [hnegative, if_pos rfl] at hnearest
    refine hread.neg.eq hnearest ?_
    rw [Binary64.neg, hsign, hnegative]
    rfl

/-! ## All doubles -/

/-- Doubles of one sign are as far from each other as their absolute values. -/
lemma abs_toRat_sub {x y : Binary64} (h : x.negative = y.negative) :
    |x.toRat - y.toRat| = |(|x.toRat| - |y.toRat|)| := by
  rw [Binary64.toRat_eq_signValue_mul x, Binary64.toRat_eq_signValue_mul y, h, ← mul_sub, abs_mul,
    abs_mul, abs_mul, Binary64.abs_signValue, one_mul, one_mul, one_mul, abs_abs, abs_abs]

/-- A double is near its shortest decimal. -/
lemma isNear_shortest {x : Binary64} (hx : x.isFinite = true) (hzero : x.isZero = false) :
    IsNear 1 1 |x.toRat| (shortest .toEven x).value := by
  have hback : Binary64.ofDecimal x.negative (shortest .toEven x) = x :=
    eq_of_beq (Binary64.readsBack_shortest .toEven hx hzero)
  have hlt := (Binary64.isFinite_ofDecimal_iff x.negative (shortest .toEven x)).1 (hback.symm ▸ hx)
  have habs : |(if x.negative then -(shortest .toEven x).value else (shortest .toEven x).value)| =
      (shortest .toEven x).value := by
    rw [apply_ite abs, abs_neg, ite_self]
    exact abs_of_nonneg (Binary64.value_nonneg _)
  have hnear := (Binary64.nearest_shortest hx hzero).isNear_abs (by rwa [habs])
  rwa [habs] at hnear

/-- **How far doubles drift**: what a finite double is read as is finite and has its sign, and is
off by at most sixteen parts in `2 ^ 53` and three of the least positive doubles.

**Proof sketch.** Both doubles are near the shortest decimal: the one that has been written because
the decimal is read back if it is rounded once (`Binary64.Nearest.error_le`), the other one because
each step of reading it is (`isNear_double?`). -/
theorem abs_reread_sub_le {x : Binary64} (hx : x.isFinite = true) :
    (reread x).isFinite = true ∧ (reread x).negative = x.negative ∧
      |(reread x).toRat - x.toRat| ≤ |x.toRat| / 2 ^ 49 + 3 / unitsPerOne := by
  have hunits := Binary64.unitsPerOne_cast_pos
  cases hzero : x.isZero with
  | true =>
    rw [reread_of_isZero hzero, sub_self, abs_zero]
    exact ⟨hx, rfl, by positivity⟩
  | false =>
    obtain ⟨y, hy⟩ := exists_double?_ofDouble hx
    obtain ⟨hwhole, hexponent⟩ := value_whole_ofDouble hx
    obtain ⟨hsign, hread⟩ :=
      isNear_double? hwhole (wellFormed_ofDouble hx).fraction hexponent hy
    rw [Numeral.negative_ofDouble] at hsign
    rw [value_ofDouble hx hzero] at hread
    rw [reread, hy, Option.getD_some]
    refine ⟨isFinite_of_double? hy, hsign, ?_⟩
    have hwritten := isNear_shortest hx hzero
    have hnonneg := Binary64.value_nonneg (shortest .toEven x)
    have hhalf := Binary64.halfUnit_pos
    have hthree : 3 / (unitsPerOne : ℚ) = 6 * halfUnit := by
      unfold halfUnit
      field_simp
      norm_num
    rw [abs_toRat_sub hsign, hthree]
    generalize (shortest .toEven x).value = d at *
    unfold IsNear at hread hwritten
    have htriangle := abs_sub_le |y.toRat| d |x.toRat|
    rw [abs_sub_comm d] at htriangle
    have hle : d ≤ |x.toRat| * (1 + 1 / 2 ^ 52) + 2 * halfUnit := by
      have hlow := (abs_le.1 hwritten).1
      linarith
    linarith

end PagedTopK.Json
