import PagedTopK.Proofs.Json.Writer
import PagedTopK.Proofs.Lookup

set_option autoImplicit false

/-!
# Equality that ignores the order of members

## Main results

* `Json.same_object_iff` — objects with distinct names are equal if the same is found in both under
  every name.
* `Json.same_self`, `Json.same_refl` — a value with distinct names and without NaNs equals itself.
-/

namespace PagedTopK.Json

variable {a b : List (String × Json)} {v : Json}

lemma sameMembers_iff : sameMembers a b = true ↔
    ∀ m ∈ a, ∃ w, b.lookup m.1 = some w ∧ m.2.same w = true := by
  induction a with
  | nil => simp [sameMembers]
  | cons m rest ih =>
    rw [sameMembers, Bool.and_eq_true, ih, List.forall_mem_cons]
    refine and_congr_left fun _ => ?_
    cases b.lookup m.1 <;> simp

/-- **Objects with distinct names are equal** if under every name the same is found in both. -/
theorem same_object_iff (ha : (a.map (·.1)).Nodup) (hb : (b.map (·.1)).Nodup) :
    (object a).same (object b) = true ↔
      ∀ name, Option.Rel (fun v w => v.same w = true) (a.lookup name) (b.lookup name) := by
  rw [same, Bool.and_eq_true, beq_iff_eq, sameMembers_iff]
  constructor
  · rintro ⟨hlength, hmembers⟩ name
    have hsubset : a.map (·.1) ⊆ b.map (·.1) := by
      intro own hown
      obtain ⟨m, hm, rfl⟩ := List.mem_map.1 hown
      obtain ⟨w, hw, -⟩ := hmembers m hm
      exact isSome_lookup.1 (hw ▸ rfl)
    have hperm : (a.map (·.1)).Perm (b.map (·.1)) :=
      (ha.subperm hsubset).perm_of_length_le (by simp [hlength])
    cases hv : a.lookup name with
    | some v =>
      obtain ⟨w, hw, hsame⟩ := hmembers _ ((lookup_eq_some_iff ha).1 hv)
      rw [hw]
      exact .some hsame
    | none =>
      have hnone : name ∉ b.map (·.1) := by
        rw [← hperm.mem_iff, ← isSome_lookup, hv]
        exact Bool.false_ne_true
      rw [← isSome_lookup, Option.not_isSome_iff_eq_none] at hnone
      rw [hnone]
      exact .none
  · intro h
    have hnames : ∀ name, name ∈ a.map (·.1) ↔ name ∈ b.map (·.1) := by
      intro name
      have hrel := h name
      rw [← isSome_lookup, ← isSome_lookup]
      generalize a.lookup name = v, b.lookup name = w at hrel ⊢
      cases hrel <;> simp
    have hperm := (List.perm_ext_iff_of_nodup ha hb).2 hnames
    refine ⟨by simpa using hperm.length_eq, fun m hm => ?_⟩
    have hrel := h m.1
    rw [(lookup_eq_some_iff ha).2 hm] at hrel
    generalize hfound : b.lookup m.1 = found at hrel
    cases hrel with
    | some hsame => exact ⟨_, rfl, hsame⟩

/-- **A value equals itself** if its names are distinct and a test on its doubles excludes NaNs,
which equal nothing. -/
lemma same_self {test : Json → Bool} (htest : ∀ x, test (double x) = true → x.isNaN = false)
    (hd : v.isDistinct = true) (hv : v.all test = true) : v.same v = true := by
  induction v using inductionOn with
  | null => rfl
  | bool b => exact beq_self_eq_true b
  | integer i => exact beq_self_eq_true i
  | double x =>
    show x.sameNumber x = true
    simp [Binary64.sameNumber, htest x hv]
  | text s => exact beq_self_eq_true s
  | array items ih =>
    rw [isDistinct, distinctItems_iff] at hd
    rw [all, allItems_iff] at hv
    rw [same]
    induction items with
    | nil => rfl
    | cons v rest ihrest =>
      obtain ⟨hfirst, hrest⟩ := List.forall_mem_cons.1 ih
      rw [List.forall_mem_cons] at hd hv
      rw [sameItems, hfirst hd.1 hv.1, ihrest hrest hd.2 hv.2]
      rfl
  | object members ih =>
    rw [isDistinct_object] at hd
    rw [all, allMembers_iff] at hv
    rw [same_object_iff hd.1 hd.1]
    intro name
    cases hfound : members.lookup name with
    | none => exact .none
    | some v =>
      have hmem := mem_of_lookup hfound
      exact .some (ih _ hmem (hd.2 _ hmem) (hv _ hmem))

/-- A value without doubles equals itself. -/
lemma same_refl (hd : v.isDistinct = true) (hi : v.all isInteger = true) : v.same v = true :=
  same_self (fun _ h => by cases h) hd hi

end PagedTopK.Json
