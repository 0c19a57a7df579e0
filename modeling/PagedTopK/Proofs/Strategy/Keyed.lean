import PagedTopK.Proofs.Ranking.Best
import PagedTopK.Strategy.State

set_option autoImplicit false

/-!
# The keys of a row

A client that ranks by conditions attaches the value of each to the row, in the order of the
conditions, unless the row already has a field of that name. A condition is evaluated in the row
with the earlier values attached. That makes a difference only if its variable has the name of such
a field.

## Main definitions

* `RankingKey.syntheticName` — the field for the condition with a given number.
* `OrderCondition.variable?` — the variable that a condition reads.
* `Strategy.keyTerms` — the terms that a row ranks by.
* `Strategy.byConditions` — whether a row ranks as good as another one or better.

## Main results

* `Strategy.getElem?_keyTerms` — a condition that reads no earlier key has its value in the row
  itself.
* `Strategy.noWorse_keyed` — rows with the values attached rank by these terms.
-/

namespace PagedTopK

/-! ## The names of the fields -/

namespace RankingKey

/-- **The field for the condition with a given number.** -/
def syntheticName (i : Nat) : String := syntheticStart ++ Digits.text i

lemma isSyntheticName_syntheticName (i : Nat) : isSyntheticName (syntheticName i) = true :=
  isSynthetic_synthetic i .ascending

/-- The number can be read off the name. -/
lemma syntheticName_injective {i j : Nat} (h : syntheticName i = syntheticName j) : i = j := by
  have hlists := congrArg String.toList h
  rw [syntheticName, syntheticName, String.toList_append, String.toList_append] at hlists
  have hdigits : Digits.ofNat i = Digits.ofNat j := by
    simpa [Digits.text] using List.append_cancel_left hlists
  have hvalues := congrArg (fun ds => Nat.ofDigitChars 10 ds 0) hdigits
  simpa [Digits.ofNat] using hvalues

/-- No such name starts with the sign of a variable. -/
lemma sign_append_ne_syntheticName (name : String) (i : Nat) : "?" ++ name ≠ syntheticName i := by
  intro h
  have hlists := congrArg String.toList h
  simp [syntheticName, syntheticStart, String.toList_append] at hlists

end RankingKey

open RankingKey (syntheticName)

/-! ## What a condition reads -/

/-- **The variable inside an expression.** -/
def OrderExpression.varName : OrderExpression → String
  | var name => name
  | str inner => inner.varName

/-- An expression depends on its variable only. -/
lemma OrderExpression.eval?_congr {e : OrderExpression} {s t : Solution}
    (hsigned : s.get? ("?" ++ e.varName) = t.get? ("?" ++ e.varName))
    (hplain : s.get? e.varName = t.get? e.varName) : e.eval? s = e.eval? t := by
  induction e with
  | var name =>
    unfold varName at hsigned hplain
    rw [eval?, eval?, hsigned, hplain]
  | str inner ih => rw [eval?, eval?, ih hsigned hplain]

/-- **The variable that a condition reads**, if its expression is understood. -/
def OrderCondition.variable? (c : OrderCondition) : Option String :=
  match OrderExpression.parse c.expression.toList with
  | .ok e => some e.varName
  | .error _ => none

namespace Strategy

/-! ## Attaching values -/

/-- What is found after a value has been filled in. -/
lemma get?_fill (s : Solution) (c : OrderCondition) (name other : String) :
    (fill s c name).get? other =
      if other = name then (s.get? name).or (c.eval? s) else s.get? other := by
  unfold fill Solution.contains
  cases hown : s.get? name with
  | some own =>
    by_cases h : other = name
    · simp [h, hown]
    · simp [h]
  | none =>
    cases hvalue : c.eval? s with
    | some value => simp [Solution.get?_insert]
    | none =>
      by_cases h : other = name
      · simp [h, hown]
      · simp [h]

/-- A condition that does not read a field has the same value after that has been filled in. -/
lemma eval?_fill {c : OrderCondition} {i : Nat} (h : c.variable? ≠ some (syntheticName i))
    (s : Solution) (filled : OrderCondition) :
    c.eval? (fill s filled (syntheticName i)) = c.eval? s := by
  unfold OrderCondition.variable? at h
  unfold OrderCondition.eval?
  cases hparse : OrderExpression.parse c.expression.toList with
  | error refusal => rfl
  | ok e =>
    rw [hparse] at h
    have hplain : e.varName ≠ syntheticName i := fun heq => h (congrArg some heq)
    refine OrderExpression.eval?_congr ?_ ?_
    · rw [get?_fill, if_neg (RankingKey.sign_append_ne_syntheticName _ i)]
    · rw [get?_fill, if_neg hplain]

/-- **The terms that a row ranks by**, for conditions from a given number on: the row's own field of
that number, or else the value of the condition in the row with the earlier values attached. -/
def keyTerms (row : Solution) (i : Nat) : List OrderCondition → List (Option String)
  | [] => []
  | c :: rest =>
    (row.get? (syntheticName i)).or (c.eval? row) ::
      keyTerms (fill row c (syntheticName i)) (i + 1) rest

/-- **A condition that reads no earlier key** has its value in the row itself. -/
lemma getElem?_keyTerms {conditions : List OrderCondition} {n : Nat} {c : OrderCondition}
    (hc : conditions[n]? = some c) (row : Solution) (i : Nat)
    (hfree : ∀ j, i ≤ j → j < i + n → c.variable? ≠ some (syntheticName j)) :
    (keyTerms row i conditions)[n]? =
      some ((row.get? (syntheticName (i + n))).or (c.eval? row)) := by
  induction conditions generalizing row i n with
  | nil => cases hc
  | cons first rest ih =>
    cases n with
    | zero =>
      cases hc
      rfl
    | succ n =>
      have hlater : ∀ j, i + 1 ≤ j → j < i + 1 + n → c.variable? ≠ some (syntheticName j) :=
        fun j hj hjn => hfree j (by omega) (by omega)
      have hrest := ih hc (fill row first (syntheticName i)) (i + 1) hlater
      have hne : syntheticName (i + 1 + n) ≠ syntheticName i := by
        intro heq
        have hnumber := RankingKey.syntheticName_injective heq
        omega
      have hnumber : i + (n + 1) = i + 1 + n := by omega
      rw [keyTerms, List.getElem?_cons_succ, hrest, get?_fill, if_neg hne,
        eval?_fill (hfree i (Nat.le_refl i) (by omega)), hnumber]

/-! ## The keys of the ranking -/

/-- The keys of conditions from a given number on. -/
def keysFrom (i : Nat) : List OrderCondition → List RankingKey
  | [] => []
  | c :: rest => .synthetic i c.direction :: keysFrom (i + 1) rest

lemma keysFrom_eq_mapIdx (i : Nat) (conditions : List OrderCondition) :
    keysFrom i conditions = conditions.mapIdx fun n c => .synthetic (i + n) c.direction := by
  induction conditions generalizing i with
  | nil => rfl
  | cons c rest ih =>
    have hnumbers : ∀ n, i + 1 + n = i + (n + 1) := fun n => by omega
    rw [keysFrom, ih, List.mapIdx_cons]
    simp only [hnumbers, Nat.add_zero]

lemma keysOf_eq_keysFrom (conditions : List OrderCondition) :
    keysOf conditions = keysFrom 0 conditions := by
  simp [keysFrom_eq_mapIdx, keysOf]

lemma directions_keysFrom (i : Nat) (conditions : List OrderCondition) :
    (keysFrom i conditions).map (·.direction) = conditions.map (·.direction) := by
  induction conditions generalizing i with
  | nil => rfl
  | cons c rest ih =>
    rw [keysFrom, List.map_cons, List.map_cons, ih]
    rfl

lemma keyed_cons (c : OrderCondition) (rest : List OrderCondition) (i : Nat) (s : Solution) :
    keyed (c :: rest) (keysFrom i (c :: rest)) s =
      keyed rest (keysFrom (i + 1) rest) (fill s c (syntheticName i)) :=
  rfl

/-- Only the fields of the conditions are filled in. -/
lemma get?_keyed_of_ne (conditions : List OrderCondition) {i : Nat} {name : String}
    (h : ∀ j, i ≤ j → name ≠ syntheticName j) (s : Solution) :
    (keyed conditions (keysFrom i conditions) s).get? name = s.get? name := by
  induction conditions generalizing i s with
  | nil => rfl
  | cons c rest ih =>
    rw [keyed_cons, ih (fun j hj => h j (by omega)), get?_fill, if_neg (h i (Nat.le_refl i))]

/-- A field that no condition has for its own is left as it is. -/
lemma get?_keyed (conditions : List OrderCondition) {name : String}
    (h : RankingKey.isSyntheticName name = false) (s : Solution) :
    (keyed conditions (keysOf conditions) s).get? name = s.get? name := by
  rw [keysOf_eq_keysFrom]
  refine get?_keyed_of_ne conditions ?_ s
  rintro j - rfl
  rw [RankingKey.isSyntheticName_syntheticName] at h
  cases h

/-- The attached values are the terms that the row ranks by. -/
lemma map_get?_keyed (conditions : List OrderCondition) (i : Nat) (s : Solution) :
    (keysFrom i conditions).map
        (fun key => (keyed conditions (keysFrom i conditions) s).get? key.name) =
      keyTerms s i conditions := by
  induction conditions generalizing i s with
  | nil => rfl
  | cons c rest ih =>
    have hfirst : (keyed rest (keysFrom (i + 1) rest) (fill s c (syntheticName i))).get?
        (syntheticName i) = (s.get? (syntheticName i)).or (c.eval? s) := by
      have hne : ∀ j, i + 1 ≤ j → syntheticName i ≠ syntheticName j := by
        intro j hj heq
        have hnumber := RankingKey.syntheticName_injective heq
        omega
      rw [get?_keyed_of_ne rest hne, get?_fill, if_pos rfl]
    rw [keyed_cons, keyTerms, ← hfirst, ← ih]
    rfl

/-- **Whether a row ranks as good as another one or better** by the conditions of a query. -/
def byConditions (conditions : List OrderCondition) (a b : Solution) : Bool :=
  (RankingKey.order (conditions.map (·.direction))
    ((keyTerms a 0 conditions).map SortValue.ofTerm)
    ((keyTerms b 0 conditions).map SortValue.ofTerm)).isLE

/-- **Rows with the values attached rank by the conditions.** -/
lemma noWorse_keyed (conditions : List OrderCondition) (a b : Solution) :
    Solution.noWorse (keysOf conditions) (keyed conditions (keysOf conditions) a)
        (keyed conditions (keysOf conditions) b) =
      byConditions conditions a b := by
  have hvalues : ∀ s, (keysOf conditions).map
      (·.valueIn (keyed conditions (keysOf conditions) s)) =
        (keyTerms s 0 conditions).map SortValue.ofTerm := by
    intro s
    rw [keysOf_eq_keysFrom, ← map_get?_keyed, List.map_map]
    rfl
  have hdirections : (keysOf conditions).map (·.direction) = conditions.map (·.direction) := by
    rw [keysOf_eq_keysFrom, directions_keysFrom]
  rw [Solution.noWorse, ← Solution.orderBy_eq_order, hvalues, hvalues, hdirections]
  rfl

end Strategy

end PagedTopK
