import Mathlib.Data.Set.Function
import Mathlib.Data.String.Basic
import Mathlib.Order.Defs.Unbundled
import PagedTopK.Proofs.Binary64.Order
import PagedTopK.Proofs.Ranking.Order

set_option autoImplicit false

/-!
# The order of a ranking is total

Sort keys are ordered by kind, then by what the kind holds, and the directions of the keys of a
ranking carry this order over to lists of sort keys, the first difference deciding. Here both orders
are given by what they mean, without a comparison, and shown to be strict total orders: keys tie
only if they are the same, and ranked solutions with different arrivals never tie.

## Main definitions

* `SortValue.Below` — what stands below what among sort keys.
* `SortValue.Same` — when sort keys hold the same.
* `RankingKey.Precedes` — a list of sort keys is before another one at the first difference.
* `Ranked.Before` — a ranked solution is before another one.

## Main results

* `SortValue.order_eq_lt_iff`, `SortValue.order_eq_eq_iff_same` — what the comparison finds.
* `SortValue.isFinite_of_ofTerm` — a number that a term is read as is finite.
* `RankingKey.Precedes.trans`, `RankingKey.precedes_trichotomy` — the order of lists.
* `Ranked.order_lawful` — the laws of both orders.
-/

namespace PagedTopK

namespace SortValue

/-! ## Sort keys -/

/-- The comparison of what two terms are sorted by. -/
def orderTerms (s t : Option String) : Ordering := order (ofTerm s) (ofTerm t)

/-- **What stands below what**: an earlier kind below a later one, a text below one that is greater
in code points, and a smaller number below a greater one, where `-0` is below `0`. Literals are
ordered by their lexical forms, and by their tags if these agree. -/
inductive Below : SortValue → SortValue → Prop
  /-- Unbound, blank nodes, IRIs, numbers, other literals. -/
  | kind {a b : SortValue} : a.kind < b.kind → Below a b
  /-- Blank nodes by label. -/
  | blank {x y : String} : x < y → Below (blank x) (blank y)
  /-- IRIs by text. -/
  | iri {x y : String} : x < y → Below (iri x) (iri y)
  /-- Numbers by value. -/
  | number {x y : Binary64} : x.toRat < y.toRat → Below (numeric x) (numeric y)
  /-- The two zeros. -/
  | zero {x y : Binary64} : x.toRat = y.toRat → x.negative = true → y.negative = false →
    Below (numeric x) (numeric y)
  /-- Literals by lexical form. -/
  | lexical {x y : String} (tag tag' : String) : x < y → Below (literal x tag) (literal y tag')
  /-- Literals with the same lexical form by tag. -/
  | tag (lexical : String) {x y : String} : x < y → Below (literal lexical x) (literal lexical y)

/-- **When sort keys hold the same**: they are of one kind and have the same label, the same IRI, a
number with the same bits, or the same lexical form and tag. -/
inductive Same : SortValue → SortValue → Prop
  /-- Nothing to differ in. -/
  | unbound : Same unbound unbound
  /-- The same label. -/
  | blank (label : String) : Same (blank label) (blank label)
  /-- The same IRI. -/
  | iri (text : String) : Same (iri text) (iri text)
  /-- The same bits. -/
  | numeric {x y : Binary64} : x.bits = y.bits → Same (numeric x) (numeric y)
  /-- The same lexical form and tag. -/
  | literal (lexical tag : String) : Same (literal lexical tag) (literal lexical tag)

variable {a b c : SortValue}

lemma order_of_kind_ne (h : a.kind ≠ b.kind) : order a b = compare a.kind b.kind := by
  rcases Nat.lt_or_gt_of_ne h with hlt | hgt
  · rw [order, compare_lt_iff_lt.2 hlt]
    rfl
  · rw [order, compare_gt_iff_gt.2 hgt]
    rfl

lemma order_blank (x y : String) : order (blank x) (blank y) = compare x y := by
  simp [order, kind, numberPlace, mainText, tagText, Ordering.then_eq]

lemma order_iri (x y : String) : order (iri x) (iri y) = compare x y := by
  simp [order, kind, numberPlace, mainText, tagText, Ordering.then_eq]

lemma order_tagged (x y tag tag' : String) :
    order (literal x tag) (literal y tag') = (compare x y).then (compare tag tag') := by
  simp [order, kind, numberPlace, mainText, tagText]

lemma order_numeric_eq_lt_iff (x y : Binary64) :
    order (numeric x) (numeric y) = .lt ↔
      x.toRat < y.toRat ∨ x.toRat = y.toRat ∧ x.negative = true ∧ y.negative = false := by
  rw [order_numeric, Binary64.order_eq_compare_toRat, Ordering.then_eq_lt, compare_lt_iff_lt,
    compare_eq_iff_eq, compare_lt_iff_lt, Bool.lt_iff, and_comm (a := x.negative = true)]

/-- **The comparison finds what stands below what.** -/
theorem order_eq_lt_iff : order a b = .lt ↔ Below a b := by
  constructor
  · intro h
    by_cases hkind : a.kind = b.kind
    · cases a <;> cases b <;> cases hkind
      · cases h
      · exact .blank (compare_lt_iff_lt.1 (order_blank _ _ ▸ h))
      · exact .iri (compare_lt_iff_lt.1 (order_iri _ _ ▸ h))
      · rcases (order_numeric_eq_lt_iff _ _).1 h with hlt | ⟨heq, hminus, hplus⟩
        · exact .number hlt
        · exact .zero heq hminus hplus
      · rw [order_tagged, Ordering.then_eq_lt, compare_lt_iff_lt, compare_eq_iff_eq,
          compare_lt_iff_lt] at h
        rcases h with hlt | ⟨rfl, hlt⟩
        · exact .lexical _ _ hlt
        · exact .tag _ hlt
    · rw [order_of_kind_ne hkind, compare_lt_iff_lt] at h
      exact .kind h
  · intro h
    cases h with
    | kind h => rw [order_of_kind_ne h.ne, compare_lt_iff_lt.2 h]
    | blank h => rw [order_blank, compare_lt_iff_lt.2 h]
    | iri h => rw [order_iri, compare_lt_iff_lt.2 h]
    | number h => exact (order_numeric_eq_lt_iff _ _).2 (.inl h)
    | zero h hx hy => exact (order_numeric_eq_lt_iff _ _).2 (.inr ⟨h, hx, hy⟩)
    | lexical tag tag' h =>
      rw [order_tagged, compare_lt_iff_lt.2 h]
      rfl
    | tag lexical h =>
      rw [order_tagged, compare_eq_iff_eq.2 rfl, compare_lt_iff_lt.2 h]
      rfl

/-- Sort keys tie if they are equal, and only then. -/
lemma order_eq_eq_iff : order a b = .eq ↔ a = b :=
  Std.LawfulEqCmp.compare_eq_iff_eq

/-- Sort keys that hold the same are equal. -/
lemma same_iff_eq : Same a b ↔ a = b := by
  constructor
  · intro h
    cases h with
    | unbound => rfl
    | blank label => rfl
    | iri text => rfl
    | numeric h => rw [Binary64.bits_injective h]
    | literal lexical tag => rfl
  · rintro rfl
    cases a with
    | unbound => exact .unbound
    | blank label => exact .blank label
    | iri text => exact .iri text
    | numeric value => exact .numeric rfl
    | literal lexical tag => exact .literal lexical tag

/-- **The comparison finds a tie** where sort keys hold the same. -/
theorem order_eq_eq_iff_same : order a b = .eq ↔ Same a b :=
  order_eq_eq_iff.trans same_iff_eq.symm

example : orderTerms (some "<urn:a>") (some "urn:a") = .eq ∧
    orderTerms (some "-0") (some "0") = .lt := by
  decide

lemma order_swap (a b : SortValue) : order b a = (order a b).swap :=
  Std.OrientedCmp.eq_swap

lemma isLE_total (a b : SortValue) : (order a b).isLE = true ∨ (order b a).isLE = true := by
  rw [order_swap a b]
  cases order a b <;> decide

lemma isLE_trans (hab : (order a b).isLE = true) (hbc : (order b c).isLE = true) :
    (order a c).isLE = true :=
  Std.TransCmp.isLE_trans hab hbc

lemma eq_of_isLE (hab : (order a b).isLE = true) (hba : (order b a).isLE = true) : a = b := by
  refine order_eq_eq_iff.1 ?_
  rw [order_swap a b] at hba
  cases h : order a b with
  | eq => rfl
  | lt => rw [h] at hba; cases hba
  | gt => rw [h] at hab; cases hab

namespace Below

lemma trans (hab : Below a b) (hbc : Below b c) : Below a c :=
  order_eq_lt_iff.1
    (Std.TransCmp.lt_trans (order_eq_lt_iff.2 hab) (order_eq_lt_iff.2 hbc))

lemma irrefl (a : SortValue) : ¬Below a a := by
  intro h
  have hself : order a a = .eq := order_eq_eq_iff.2 rfl
  rw [order_eq_lt_iff.2 h] at hself
  cases hself

end Below

lemma below_trichotomy (a b : SortValue) : Below a b ∨ a = b ∨ Below b a := by
  cases h : order a b with
  | lt => exact .inl (order_eq_lt_iff.1 h)
  | eq => exact .inr (.inl (order_eq_eq_iff.1 h))
  | gt =>
    refine .inr (.inr (order_eq_lt_iff.1 ?_))
    rw [order_swap a b, h]
    rfl

/-! ## Numbers -/

lemma isFinite_of_number? {lexical : List Char} {x : Binary64} (h : number? lexical = some x) :
    x.isFinite = true :=
  (Option.filter_eq_some_iff.1 h).2

lemma isFinite_of_ofLiteral {term : List Char} {x : Binary64} (h : ofLiteral term = numeric x) :
    x.isFinite = true := by
  unfold ofLiteral at h
  split at h
  · next lexical tag _ =>
    split at h
    · next value hvalue =>
      cases h
      split at hvalue
      · exact isFinite_of_number? hvalue
      · cases hvalue
    · cases h
  · split at h
    · next value hvalue =>
      cases h
      exact isFinite_of_number? hvalue
    · cases h

/-- **A number that a term is read as is finite**: no infinity and no NaN. -/
theorem isFinite_of_ofTerm {term : Option String} {x : Binary64} (h : ofTerm term = numeric x) :
    x.isFinite = true := by
  cases term with
  | none => cases h
  | some term =>
    rw [ofTerm, ofText] at h
    split at h
    · cases h
    · split at h
      · cases h
      · split at h
        · cases h
        · exact isFinite_of_ofLiteral h

end SortValue

/-! ## Lists of sort keys -/

namespace RankingKey

/-- **A list of sort keys is before another one** at the first place where they differ: there it
has the lower key if the direction is ascending and the higher key if it is descending. -/
inductive Precedes : List Direction → List SortValue → List SortValue → Prop
  /-- The first keys decide. -/
  | ascending {ds : List Direction} {a b : SortValue} {as bs : List SortValue} :
    SortValue.Below a b → Precedes (.ascending :: ds) (a :: as) (b :: bs)
  /-- The first keys decide, turned round. -/
  | descending {ds : List Direction} {a b : SortValue} {as bs : List SortValue} :
    SortValue.Below b a → Precedes (.descending :: ds) (a :: as) (b :: bs)
  /-- The first keys are the same. -/
  | tie {d : Direction} {ds : List Direction} {a : SortValue} {as bs : List SortValue} :
    Precedes ds as bs → Precedes (d :: ds) (a :: as) (a :: bs)

variable {ds : List Direction} {as bs cs : List SortValue}

/-- **The comparison finds what precedes what.** -/
theorem order_eq_lt_iff : order ds as bs = .lt ↔ Precedes ds as bs := by
  constructor
  · intro h
    induction ds generalizing as bs with
    | nil => cases h
    | cons d ds ih =>
      cases as with
      | nil => cases h
      | cons a as =>
        cases bs with
        | nil => cases h
        | cons b bs =>
          rw [order, Ordering.then_eq_lt] at h
          rcases h with hfirst | ⟨hfirst, hrest⟩
          · cases d with
            | ascending => exact .ascending (SortValue.order_eq_lt_iff.1 hfirst)
            | descending =>
              refine .descending (SortValue.order_eq_lt_iff.1 ?_)
              rw [SortValue.order_swap a b]
              exact hfirst
          · have heq : a = b := by
              cases d with
              | ascending => exact SortValue.order_eq_eq_iff.1 hfirst
              | descending => exact SortValue.order_eq_eq_iff.1 (Ordering.swap_eq_eq.1 hfirst)
            subst heq
            exact .tie (ih hrest)
  · intro h
    induction h with
    | ascending h =>
      rw [order, Direction.orient, SortValue.order_eq_lt_iff.2 h]
      rfl
    | descending h =>
      rw [order, Direction.orient, ← SortValue.order_swap, SortValue.order_eq_lt_iff.2 h]
      rfl
    | @tie d ds a as bs _ ih =>
      have hself : d.orient (SortValue.order a a) = .eq := by
        rw [SortValue.order_eq_eq_iff.2 rfl]
        cases d <;> rfl
      rw [order, hself, ih]
      rfl

lemma order_swap (ds : List Direction) (as bs : List SortValue) :
    order ds bs as = (order ds as bs).swap := by
  induction ds generalizing as bs with
  | nil => rfl
  | cons d ds ih =>
    cases as with
    | nil => cases bs <;> rfl
    | cons a as =>
      cases bs with
      | nil => rfl
      | cons b bs =>
        have hfirst : d.orient (SortValue.order b a) = (d.orient (SortValue.order a b)).swap := by
          rw [SortValue.order_swap a b]
          cases d <;> rfl
        rw [order, order, hfirst, ih, Ordering.swap_then]

namespace Precedes

/-- **What comes first decides**, also along a chain. -/
theorem trans (hab : Precedes ds as bs) (hbc : Precedes ds bs cs) : Precedes ds as cs := by
  induction hab generalizing cs with
  | ascending h =>
    cases hbc with
    | ascending h' => exact .ascending (h.trans h')
    | tie _ => exact .ascending h
  | descending h =>
    cases hbc with
    | descending h' => exact .descending (h'.trans h)
    | tie _ => exact .descending h
  | tie _ ih =>
    cases hbc with
    | ascending h' => exact .ascending h'
    | descending h' => exact .descending h'
    | tie h' => exact .tie (ih h')

lemma irrefl (h : Precedes ds as as) : False := by
  induction as generalizing ds with
  | nil => cases h
  | cons a as ih =>
    cases h with
    | ascending h => exact SortValue.Below.irrefl a h
    | descending h => exact SortValue.Below.irrefl a h
    | tie h => exact ih h

end Precedes

/-- **Different lists of sort keys do not tie**, if there is a direction for each key. -/
theorem precedes_trichotomy (has : as.length = ds.length) (hbs : bs.length = ds.length) :
    Precedes ds as bs ∨ as = bs ∨ Precedes ds bs as := by
  induction ds generalizing as bs with
  | nil =>
    rw [List.length_eq_zero_iff.1 has, List.length_eq_zero_iff.1 hbs]
    exact .inr (.inl rfl)
  | cons d ds ih =>
    obtain ⟨a, as, rfl⟩ := List.exists_cons_of_length_eq_add_one has
    obtain ⟨b, bs, rfl⟩ := List.exists_cons_of_length_eq_add_one hbs
    rcases SortValue.below_trichotomy a b with hlt | rfl | hgt
    · cases d with
      | ascending => exact .inl (.ascending hlt)
      | descending => exact .inr (.inr (.descending hlt))
    · rcases ih (Nat.succ.inj has) (Nat.succ.inj hbs) with hlt | rfl | hgt
      · exact .inl (.tie hlt)
      · exact .inr (.inl rfl)
      · exact .inr (.inr (.tie hgt))
    · cases d with
      | ascending => exact .inr (.inr (.ascending hgt))
      | descending => exact .inl (.descending hgt)

/-- Lists of sort keys tie if they are equal, and only then. -/
lemma order_eq_eq_iff (has : as.length = ds.length) (hbs : bs.length = ds.length) :
    order ds as bs = .eq ↔ as = bs := by
  constructor
  · intro h
    rcases precedes_trichotomy has hbs with hlt | heq | hgt
    · rw [order_eq_lt_iff.2 hlt] at h
      cases h
    · exact heq
    · rw [order_swap ds bs as, order_eq_lt_iff.2 hgt] at h
      cases h
  · rintro rfl
    cases h : order ds as as with
    | lt => exact (order_eq_lt_iff.1 h).irrefl.elim
    | eq => rfl
    | gt =>
      have hswap := order_swap ds as as
      rw [h] at hswap
      cases hswap

end RankingKey

/-! ## Ranked solutions -/

namespace Ranked

/-- **A ranked solution is before another one** if its sort keys are, or if they are the same and it
arrived earlier. -/
def Before (directions : List Direction) (e f : Ranked) : Prop :=
  RankingKey.Precedes directions e.values f.values ∨ e.values = f.values ∧ e.arrival < f.arrival

open SortValue (ofTerm orderTerms)

variable {directions : List Direction} {e f g : Ranked}

/-- **The comparison finds what is before what.** -/
theorem order_eq_lt_iff (he : e.values.length = directions.length)
    (hf : f.values.length = directions.length) :
    order directions e f = .lt ↔ Before directions e f := by
  rw [order, Ordering.then_eq_lt, RankingKey.order_eq_lt_iff, RankingKey.order_eq_eq_iff he hf,
    compare_lt_iff_lt, Before]

/-- Ranked solutions tie if they have the same sort keys and the same arrival. -/
lemma order_eq_eq_iff (he : e.values.length = directions.length)
    (hf : f.values.length = directions.length) :
    order directions e f = .eq ↔ e.values = f.values ∧ e.arrival = f.arrival := by
  rw [order, Ordering.then_eq_eq, RankingKey.order_eq_eq_iff he hf, compare_eq_iff_eq]

namespace Before

lemma trans (hef : Before directions e f) (hfg : Before directions f g) :
    Before directions e g := by
  rcases hef with hef | ⟨hef, hlt⟩
  · rcases hfg with hfg | ⟨hfg, -⟩
    · exact .inl (hef.trans hfg)
    · exact .inl (hfg ▸ hef)
  · rcases hfg with hfg | ⟨hfg, hlt'⟩
    · exact .inl (hef.symm ▸ hfg)
    · exact .inr ⟨hef.trans hfg, hlt.trans hlt'⟩

lemma irrefl (e : Ranked) : ¬Before directions e e := by
  rintro (h | ⟨-, h⟩)
  · exact h.irrefl
  · exact lt_irrefl _ h

end Before

/-- Of two ranked solutions with different arrivals one is before the other. -/
lemma before_trichotomy (he : e.values.length = directions.length)
    (hf : f.values.length = directions.length) :
    Before directions e f ∨ e.arrival = f.arrival ∨ Before directions f e := by
  rcases RankingKey.precedes_trichotomy he hf with hlt | heq | hgt
  · exact .inl (.inl hlt)
  · rcases Nat.lt_trichotomy e.arrival f.arrival with hlt | harrival | hgt
    · exact .inl (.inr ⟨heq, hlt⟩)
    · exact .inr (.inl harrival)
    · exact .inr (.inr (.inr ⟨heq.symm, hgt⟩))
  · exact .inr (.inr (.inl hgt))

/-- **The laws of the order of a ranking.** The comparison of what terms are sorted by is total,
antisymmetric and transitive; it finds a tie exactly for equal keys, which are those of one kind
with the same label, IRI, bits of a number, or lexical form and tag; and the numbers are finite. On
ranked solutions with different arrivals, whatever the directions, the comparison is a strict total
order, and finds one before the other by the first key that differs, or else by arrival.

**Proof sketch.** Both comparisons find what stands below what (`SortValue.order_eq_lt_iff`,
`RankingKey.order_eq_lt_iff`). Along a chain of lists the first difference is that of the first two
or of the last two (`RankingKey.Precedes.trans`), and equal lists leave the arrivals to decide. -/
theorem order_lawful (directions : List Direction) (entries : Set Ranked)
    (hvalues : ∀ e ∈ entries, e.values.length = directions.length)
    (harrivals : entries.InjOn arrival) :
    (∀ s t : Option String,
      ((orderTerms s t).isLE = true ∨ (orderTerms t s).isLE = true) ∧
      orderTerms t s = (orderTerms s t).swap ∧
      ((orderTerms s t).isLE = true → (orderTerms t s).isLE = true → ofTerm s = ofTerm t) ∧
      (∀ u, (orderTerms s t).isLE = true → (orderTerms t u).isLE = true →
        (orderTerms s u).isLE = true) ∧
      (orderTerms s t = .eq ↔ ofTerm s = ofTerm t) ∧
      (orderTerms s t = .eq ↔ SortValue.Same (ofTerm s) (ofTerm t)) ∧
      (orderTerms s t = .lt ↔ SortValue.Below (ofTerm s) (ofTerm t))) ∧
    (∀ (s : Option String) (x : Binary64), ofTerm s = .numeric x →
      x.isFinite = true ∧ x.isNaN = false) ∧
    IsStrictTotalOrder entries (fun e f => order directions e f = .lt) ∧
    ∀ e ∈ entries, ∀ f ∈ entries,
      (order directions e f = .lt ↔ Before directions e f) ∧
      (order directions e f = .eq ↔ e = f) := by
  have hlt (e f : entries) : order directions e f = .lt ↔ Before directions e f :=
    order_eq_lt_iff (hvalues e e.2) (hvalues f f.2)
  refine ⟨fun s t => ⟨SortValue.isLE_total _ _, SortValue.order_swap _ _, SortValue.eq_of_isLE,
    fun u => SortValue.isLE_trans, SortValue.order_eq_eq_iff, SortValue.order_eq_eq_iff_same,
    SortValue.order_eq_lt_iff⟩, ?_, ?_, ?_⟩
  · intro s x h
    have hfinite := SortValue.isFinite_of_ofTerm h
    exact ⟨hfinite, Binary64.isNaN_of_isFinite hfinite⟩
  · refine { trichotomous := ?_, irrefl := ?_, trans := ?_ }
    · intro e f hef hfe
      rw [hlt] at hef hfe
      rcases before_trichotomy (hvalues e e.2) (hvalues f f.2) with h | h | h
      · exact absurd h hef
      · exact Subtype.ext (harrivals e.2 f.2 h)
      · exact absurd h hfe
    · intro e
      rw [hlt]
      exact Before.irrefl e.1
    · intro e f g hef hfg
      rw [hlt] at hef hfg ⊢
      exact hef.trans hfg
  · intro e he f hf
    refine ⟨hlt ⟨e, he⟩ ⟨f, hf⟩, ?_⟩
    rw [order_eq_eq_iff (hvalues e he) (hvalues f hf)]
    constructor
    · exact fun h => harrivals he hf h.2
    · rintro rfl
      exact ⟨rfl, rfl⟩

/-- A tie between the first and the last arrival, with a lower key between them that comes last in
a descending order. -/
theorem order_lawful_of_three_rows :
    let first : Ranked := ⟨[.iri "b"], 0, default⟩
    let second : Ranked := ⟨[.blank "a"], 1, default⟩
    let third : Ranked := ⟨[.iri "b"], 2, default⟩
    let entries : Set Ranked := {first, second, third}
    (∀ e ∈ entries, e.values.length = 1) ∧ entries.InjOn arrival ∧
      IsStrictTotalOrder entries (fun e f => order [.descending] e f = .lt) ∧
      order [.descending] first third = .lt ∧ order [.descending] third second = .lt := by
  intro first second third entries
  have hvalues : ∀ e ∈ entries, e.values.length = [Direction.descending].length := by
    rintro e (rfl | rfl | rfl) <;> rfl
  have harrivals : entries.InjOn arrival := by
    rintro e (rfl | rfl | rfl) f (rfl | rfl | rfl) h <;> first | rfl | cases h
  exact ⟨hvalues, harrivals, (order_lawful [.descending] entries hvalues harrivals).2.2.1,
    by decide, by decide⟩

end Ranked

end PagedTopK
