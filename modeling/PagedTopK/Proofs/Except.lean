import Mathlib.Tactic.Lemma

set_option autoImplicit false

/-!
# Results of steps that may fail

## Main results

* `bind_eq_ok_iff`, `map_eq_ok_iff` — a result of several steps comes from a result of the first.
* `map_eq_error_iff` — a failure is not touched by what is made of results.
* `toOption_eq_some_iff`, `exists_of_toOption_map` — what is known of a result if failures are left
  aside.
-/

namespace PagedTopK

variable {ε α β : Type} {x : Except ε α}

/-- What goes on after something that may fail. -/
lemma bind_eq_ok_iff {f : α → Except ε β} {b : β} :
    x >>= f = .ok b ↔ ∃ a, x = .ok a ∧ f a = .ok b := by
  cases x with
  | error e => exact iff_of_false nofun nofun
  | ok a => exact ⟨fun h => ⟨a, rfl, h⟩, by rintro ⟨_, ⟨⟩, h⟩; exact h⟩

/-- What is made of a result, if there is one. -/
lemma map_eq_ok_iff {f : α → β} {b : β} : x.map f = .ok b ↔ ∃ a, x = .ok a ∧ f a = b := by
  cases x <;> simp [Except.map]

/-- A failure stays what it is. -/
lemma map_eq_error_iff {f : α → β} {e : ε} : x.map f = .error e ↔ x = .error e := by
  cases x <;> simp [Except.map]

lemma toOption_eq_some_iff {a : α} : x.toOption = some a ↔ x = .ok a := by
  cases x <;> simp [Except.toOption]

/-- Where something is known of a result there is one. -/
lemma exists_of_toOption_map {f : α → β} {b : β} (h : x.toOption.map f = some b) :
    ∃ a, x = .ok a ∧ f a = b := by
  obtain ⟨a, ha, hb⟩ := Option.map_eq_some_iff.1 h
  exact ⟨a, toOption_eq_some_iff.1 ha, hb⟩

end PagedTopK
