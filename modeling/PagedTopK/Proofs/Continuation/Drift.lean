import Mathlib.Logic.Function.Iterate
import PagedTopK.Proofs.Continuation.Grammar
import PagedTopK.Proofs.Json.Drift

set_option autoImplicit false

/-!
# Plans that are resumed again and again

A plan is written as a token, and read again when the query is resumed. Nothing of it changes but
its doubles, each of which becomes the double as which its text is read. So a plan survives all
rounds if and only if all its doubles are kept; others drift, and some never settle.

## Main definitions

* `Continuation.resumed` — the plan after a number of rounds.

## Main results

* `Continuation.decode_encode_of_decode` — what one round does.
* `Continuation.resumed_eq_ok_iff` — what several rounds do.
* `Continuation.resumed_iff_doubles_kept` — which plans survive, and how far doubles drift.
* `Continuation.resumed_never_settles` — a plan that changes in every round.
-/

namespace PagedTopK

open Json (HasFewDigits reread)
open Binary64 (unitsPerOne)

/-! ## Doubles that are read again several times -/

lemma Json.isFinite_iterate_reread {x : Binary64} (h : x.isFinite = true) (n : Nat) :
    (reread^[n] x).isFinite = true := by
  induction n with
  | zero => exact h
  | succ n ih =>
    rw [Function.iterate_succ_apply']
    exact (Json.abs_reread_sub_le ih).1

/-- **The doubles of a plan after several rounds** are its doubles, each of them read as often. -/
lemma Plan.doubles_iterate_rewritten {plan : Plan}
    (h : ∀ x ∈ plan.json.doubles, x.isFinite = true) (n : Nat) :
    (Plan.rewritten^[n] plan).json.doubles = plan.json.doubles.map reread^[n] := by
  induction n with
  | zero => exact (List.map_id _).symm
  | succ n ih =>
    rw [Function.iterate_succ_apply', ← Plan.json_rewritten, Json.doubles_rewritten, ih,
      List.map_map, Function.iterate_succ']
    rw [ih]
    intro y hy
    obtain ⟨x, hx, rfl⟩ := List.mem_map.1 hy
    exact Json.isFinite_iterate_reread (h x hx) n

namespace Continuation

variable {token : String} {plan read : Plan}

/-! ## One round -/

/-- The doubles in a token are finite. -/
lemma isFinite_of_decode (h : decode token = .ok plan) :
    ∀ x ∈ plan.json.doubles, x.isFinite = true := by
  obtain ⟨-, v, hholds, -, hwrites⟩ := decode_eq_ok_iff.1 h
  obtain ⟨cs, -, hspells⟩ := holds_iff.1 hholds
  exact Json.isFinite_of_all_isExact (hwrites.all_json (fun _ => rfl) hspells.all_isExact)

/-- **What one round does**: the doubles are read again, unless the token is too long. -/
lemma decode_encode_of_decode (h : decode token = .ok plan) :
    decode (encode plan) = .ok read ↔
      read = plan.rewritten ∧ (encode plan).length ≤ maxLength := by
  rw [decode_encode_iff (canonical_of_decode h) (all_isWord_of_decode h)]
  exact ⟨fun h => ⟨h.1, h.2.1⟩, fun hread => ⟨hread.1, hread.2, depth_le_of_decode h⟩⟩

/-! ## Several rounds -/

/-- **The plan after a number of rounds** of being written as a token that is read again. -/
def resumed (plan : Plan) : Nat → Except TokenError Plan
  | 0 => .ok plan
  | n + 1 => resumed plan n >>= fun current => decode (encode current)

/-- What is resumed has been read from a token. -/
lemma exists_decode_of_resumed (h : decode token = .ok plan) {n : Nat}
    (hread : resumed plan n = .ok read) : ∃ token, decode token = .ok read := by
  cases n with
  | zero => exact ⟨token, h.trans hread⟩
  | succ n =>
    obtain ⟨current, -, hcurrent⟩ := bind_eq_ok_iff.1 hread
    exact ⟨_, hcurrent⟩

/-- **What several rounds do**: the doubles are read again in each of them, unless a token is too
long. -/
theorem resumed_eq_ok_iff (h : decode token = .ok plan) (n : Nat) (read : Plan) :
    resumed plan n = .ok read ↔ read = Plan.rewritten^[n] plan ∧
      ∀ i < n, (encode (Plan.rewritten^[i] plan)).length ≤ maxLength := by
  induction n generalizing read with
  | zero =>
    rw [resumed, Except.ok.injEq, eq_comm, Function.iterate_zero_apply, and_iff_left]
    exact fun i hi => absurd hi (Nat.not_lt_zero i)
  | succ n ih =>
    rw [resumed, bind_eq_ok_iff, Function.iterate_succ_apply', Nat.forall_lt_succ_right]
    constructor
    · rintro ⟨current, hcurrent, hread⟩
      obtain ⟨_, hdecode⟩ := exists_decode_of_resumed h hcurrent
      obtain ⟨rfl, hshort⟩ := (ih current).1 hcurrent
      obtain ⟨rfl, hlength⟩ := (decode_encode_of_decode hdecode).1 hread
      exact ⟨rfl, hshort, hlength⟩
    · rintro ⟨rfl, hshort, hlength⟩
      have hcurrent := (ih _).2 ⟨rfl, hshort⟩
      obtain ⟨_, hdecode⟩ := exists_decode_of_resumed h hcurrent
      exact ⟨_, hcurrent, (decode_encode_of_decode hdecode).2 ⟨rfl, hlength⟩⟩

/-- **Which plans survive one round**: those whose doubles are kept, if their tokens are not too
long. -/
lemma decode_encode_eq_self_iff (h : decode token = .ok plan) :
    decode (encode plan) = .ok plan ↔
      (∀ x ∈ plan.json.doubles, reread x = x) ∧ (encode plan).length ≤ maxLength := by
  have hfinite := isFinite_of_decode h
  rw [decode_encode_of_decode h, eq_comm, Plan.rewritten_eq_self_iff, Json.all_isKept_iff]
  exact and_congr_left fun _ => forall₂_congr fun x hx => and_iff_right (hfinite x hx)

/-- What survives one round survives all of them. -/
lemma forall_resumed_iff :
    (∀ n, resumed plan n = .ok plan) ↔ decode (encode plan) = .ok plan := by
  constructor
  · intro h
    obtain ⟨current, hcurrent, hread⟩ := bind_eq_ok_iff.1 (h 1)
    cases hcurrent
    exact hread
  · intro h n
    induction n with
    | zero => rfl
    | succ n ih => exact bind_eq_ok_iff.2 ⟨plan, ih, h⟩

/-- **What becomes of a plan in a token that is resumed again and again.** After any number of
rounds it is the same plan with each double read that often, if no token on the way is too long. It
survives one round, and then all of them, exactly if each of its doubles is kept and its token is
not too long. Doubles with few digits are kept; others stay finite, keep their sign and drift by at
most sixteen parts in `2 ^ 53` and three of the least positive doubles in each round.

**Proof sketch.** One round reads the doubles again (`decode_encode_of_decode`), and so does each of
several (`resumed_eq_ok_iff`). A double with few digits is read without any rounding but the last
(`Json.reread_of_hasFewDigits`); of others, the error of each step is added up
(`Json.abs_reread_sub_le`). -/
theorem resumed_iff_doubles_kept (h : decode token = .ok plan) :
    (∀ n read, resumed plan n = .ok read ↔ read = Plan.rewritten^[n] plan ∧
      ∀ i < n, (encode (Plan.rewritten^[i] plan)).length ≤ maxLength) ∧
    (∀ n, (Plan.rewritten^[n] plan).json.doubles = plan.json.doubles.map reread^[n]) ∧
    (decode (encode plan) = .ok plan ↔
      (∀ x ∈ plan.json.doubles, reread x = x) ∧ (encode plan).length ≤ maxLength) ∧
    ((∀ n, resumed plan n = .ok plan) ↔ decode (encode plan) = .ok plan) ∧
    ∀ x ∈ plan.json.doubles, x.isFinite = true ∧ (HasFewDigits x → reread x = x) ∧
      ∀ n, (reread^[n + 1] x).isFinite = true ∧
        (reread^[n + 1] x).negative = (reread^[n] x).negative ∧
        |(reread^[n + 1] x).toRat - (reread^[n] x).toRat| ≤
          |(reread^[n] x).toRat| / 2 ^ 49 + 3 / unitsPerOne := by
  have hfinite := isFinite_of_decode h
  refine ⟨resumed_eq_ok_iff h, Plan.doubles_iterate_rewritten hfinite, decode_encode_eq_self_iff h,
    forall_resumed_iff, fun x hx => ?_⟩
  refine ⟨hfinite x hx, Json.reread_of_hasFewDigits (hfinite x hx), fun n => ?_⟩
  rw [Function.iterate_succ_apply']
  exact Json.abs_reread_sub_le (Json.isFinite_iterate_reread (hfinite x hx) n)

/-- A plan with a cost of one tenth survives any number of rounds. -/
theorem resumed_of_one_tenth :
    let token := "eyJyb290Ijp7InR5cGUiOiJzY2FuIn0sImNvc3QiOjAuMX0="
    ∃ plan, decode token = .ok plan ∧ plan.json.doubles = [.ofBits 0x3fb999999999999a] ∧
      ∀ n, resumed plan n = .ok plan := by
  intro token
  have hseen : (decode token).toOption.map (fun plan =>
      (plan.json.doubles, decide ((encode plan).length ≤ maxLength))) =
        some ([.ofBits 0x3fb999999999999a], true) := by
    decide +kernel
  obtain ⟨plan, hplan, hfacts⟩ := exists_of_toOption_map hseen
  obtain ⟨hdoubles, hlength⟩ := Prod.mk.inj hfacts
  have hfew : HasFewDigits (.ofBits 0x3fb999999999999a) := by decide +kernel
  obtain ⟨-, -, hkept, hall, hdouble⟩ := resumed_iff_doubles_kept hplan
  refine ⟨plan, hplan, hdoubles, hall.2 (hkept.2 ⟨fun x hx => (hdouble x hx).2.1 ?_, ?_⟩)⟩
  · rw [hdoubles] at hx
    rwa [List.mem_singleton.1 hx]
  · exact of_decide_eq_true hlength

/-- **A plan that changes in every round**: its double becomes the one below it, and then itself
again. -/
theorem resumed_never_settles :
    let token := "eyJyb290Ijp7InR5cGUiOiJzY2FuIn0sImMiOjVlMzJ9"
    let x := Binary64.ofBits 0x46b8a6e32246c99d
    let y := Binary64.ofBits 0x46b8a6e32246c99c
    ∃ plan other, decode token = .ok plan ∧ plan.json.doubles = [x] ∧
      decode (encode plan) = .ok other ∧ other.json.doubles = [y] ∧ other ≠ plan ∧
      ∀ n, (Plan.rewritten^[n] plan).json.doubles = [if n % 2 = 0 then x else y] := by
  intro token x y
  have hseen : (decode token).toOption.map (fun plan =>
      (plan.json.doubles, decide ((encode plan).length ≤ maxLength))) = some ([x], true) := by
    decide +kernel
  obtain ⟨plan, hplan, hfacts⟩ := exists_of_toOption_map hseen
  obtain ⟨hdoubles, hlength⟩ := Prod.mk.inj hfacts
  have hdown : reread x = y := by decide +kernel
  have hup : reread y = x := by decide +kernel
  have hne : y ≠ x := by decide +kernel
  have hrounds : ∀ n, reread^[n] x = if n % 2 = 0 then x else y := by
    intro n
    induction n with
    | zero => rfl
    | succ n ih =>
      rw [Function.iterate_succ_apply', ih]
      split
      · rw [if_neg (by omega), hdown]
      · rw [if_pos (by omega), hup]
  have hall : ∀ n, (Plan.rewritten^[n] plan).json.doubles = [if n % 2 = 0 then x else y] := by
    intro n
    rw [Plan.doubles_iterate_rewritten (isFinite_of_decode hplan), hdoubles, List.map_singleton,
      hrounds]
  refine ⟨plan, plan.rewritten, hplan, hdoubles,
    (decode_encode_of_decode hplan).2 ⟨rfl, of_decide_eq_true hlength⟩, hall 1, fun hsame => ?_,
    hall⟩
  have hone := hall 1
  rw [Function.iterate_one, hsame, hdoubles] at hone
  exact hne (List.singleton_inj.1 hone).symm

end Continuation

end PagedTopK
