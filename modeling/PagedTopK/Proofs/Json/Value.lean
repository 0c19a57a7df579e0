import Mathlib.Data.List.Induction
import Mathlib.Data.List.Nodup
import Mathlib.Tactic.Lemma
import PagedTopK.Json.Basic
import PagedTopK.Proofs.Lookup

set_option autoImplicit false

/-!
# Values, their depth and their names

## Main definitions

* `Json.inductionOn` — induction on values, with one case for arrays and one for objects.
* `Json.depth` — how many brackets are open at once.
* `Json.all` — whether all values without brackets pass a test.
* `Json.isDistinct` — whether no object has two members of one name.
* `Json.last?` — the value that counts under a name.

## Main results

* `Json.isDistinct_collapse`, `Json.collapse_of_isDistinct` — merging repeated names makes the names
  distinct, and changes nothing where they are distinct.
* `Json.lookup_merged` — of repeated names the last value counts.
-/

namespace PagedTopK.Json

/-! ## Induction -/

mutual

/-- **Induction on values.** -/
@[elab_as_elim]
theorem inductionOn {motive : Json → Prop} (null : motive null) (bool : ∀ b, motive (bool b))
    (integer : ∀ i, motive (integer i)) (double : ∀ x, motive (double x))
    (text : ∀ s, motive (text s))
    (array : ∀ items, (∀ v ∈ items, motive v) → motive (array items))
    (object : ∀ members, (∀ m ∈ members, motive m.2) → motive (object members)) :
    ∀ v, motive v
  | .null => null
  | .bool b => bool b
  | .integer i => integer i
  | .double x => double x
  | .text s => text s
  | .array items =>
    array items (inductionOn_items null bool integer double text array object items)
  | .object members =>
    object members (inductionOn_members null bool integer double text array object members)

/-- The items of an array. -/
theorem inductionOn_items {motive : Json → Prop} (null : motive null)
    (bool : ∀ b, motive (bool b)) (integer : ∀ i, motive (integer i))
    (double : ∀ x, motive (double x)) (text : ∀ s, motive (text s))
    (array : ∀ items, (∀ v ∈ items, motive v) → motive (array items))
    (object : ∀ members, (∀ m ∈ members, motive m.2) → motive (object members)) :
    ∀ (items : List Json), ∀ v ∈ items, motive v
  | [] => List.forall_mem_nil _
  | v :: rest =>
    List.forall_mem_cons.2 ⟨inductionOn null bool integer double text array object v,
      inductionOn_items null bool integer double text array object rest⟩

/-- The members of an object. -/
theorem inductionOn_members {motive : Json → Prop} (null : motive null)
    (bool : ∀ b, motive (bool b)) (integer : ∀ i, motive (integer i))
    (double : ∀ x, motive (double x)) (text : ∀ s, motive (text s))
    (array : ∀ items, (∀ v ∈ items, motive v) → motive (array items))
    (object : ∀ members, (∀ m ∈ members, motive m.2) → motive (object members)) :
    ∀ (members : List (String × Json)), ∀ m ∈ members, motive m.2
  | [] => List.forall_mem_nil _
  | (_, v) :: rest =>
    List.forall_mem_cons.2 ⟨inductionOn null bool integer double text array object v,
      inductionOn_members null bool integer double text array object rest⟩

end

/-! ## Depth -/

mutual

/-- **How many brackets are open at once** in a value. -/
def depth : Json → Nat
  | array items => depthItems items + 1
  | object members => depthMembers members + 1
  | _ => 0

/-- The greatest depth of items. -/
def depthItems : List Json → Nat
  | [] => 0
  | v :: rest => max (depth v) (depthItems rest)

/-- The greatest depth of members. -/
def depthMembers : List (String × Json) → Nat
  | [] => 0
  | (_, v) :: rest => max (depth v) (depthMembers rest)

end

lemma depthItems_le {items : List Json} {n : Nat} :
    depthItems items ≤ n ↔ ∀ v ∈ items, v.depth ≤ n := by
  induction items with
  | nil => simp [depthItems]
  | cons v rest ih => rw [depthItems, Nat.max_le, ih, List.forall_mem_cons]

lemma depthMembers_le {members : List (String × Json)} {n : Nat} :
    depthMembers members ≤ n ↔ ∀ m ∈ members, m.2.depth ≤ n := by
  induction members with
  | nil => simp [depthMembers]
  | cons m rest ih => rw [depthMembers, Nat.max_le, ih, List.forall_mem_cons]

lemma depth_le_depthMembers {members : List (String × Json)} {m : String × Json}
    (h : m ∈ members) : m.2.depth ≤ depthMembers members :=
  depthMembers_le.1 (Nat.le_refl _) m h

/-! ## Tests on values without brackets -/

mutual

/-- **Whether all values without brackets pass a test.** -/
def all (p : Json → Bool) : Json → Bool
  | array items => allItems p items
  | object members => allMembers p members
  | v => p v

/-- The test on items. -/
def allItems (p : Json → Bool) : List Json → Bool
  | [] => true
  | v :: rest => all p v && allItems p rest

/-- The test on members. -/
def allMembers (p : Json → Bool) : List (String × Json) → Bool
  | [] => true
  | (_, v) :: rest => all p v && allMembers p rest

end

lemma allItems_iff {p : Json → Bool} {items : List Json} :
    allItems p items = true ↔ ∀ v ∈ items, all p v = true := by
  induction items with
  | nil => simp [allItems]
  | cons v rest ih => simp [allItems, ih]

lemma allMembers_iff {p : Json → Bool} {members : List (String × Json)} :
    allMembers p members = true ↔ ∀ m ∈ members, all p m.2 = true := by
  induction members with
  | nil => simp [allMembers]
  | cons m rest ih => simp [allMembers, ih]

/-! ## Distinct names -/

/-- Weaker tests are passed as well. -/
lemma all_mono {p q : Json → Bool} (h : ∀ v, p v = true → q v = true) {v : Json}
    (hv : v.all p = true) : v.all q = true := by
  induction v using inductionOn with
  | null | bool | integer | double | text => exact h _ hv
  | array items ih =>
    rw [all, allItems_iff] at hv ⊢
    exact fun v hmem => ih v hmem (hv v hmem)
  | object members ih =>
    rw [all, allMembers_iff] at hv ⊢
    exact fun m hmem => ih m hmem (hv m hmem)

mutual

/-- **Whether no object has two members of one name.** -/
def isDistinct : Json → Bool
  | array items => distinctItems items
  | object members => decide (members.map (·.1)).Nodup && distinctMembers members
  | _ => true

/-- Whether names are distinct in all items. -/
def distinctItems : List Json → Bool
  | [] => true
  | v :: rest => isDistinct v && distinctItems rest

/-- Whether names are distinct below all members. -/
def distinctMembers : List (String × Json) → Bool
  | [] => true
  | (_, v) :: rest => isDistinct v && distinctMembers rest

end

lemma distinctItems_iff {items : List Json} :
    distinctItems items = true ↔ ∀ v ∈ items, v.isDistinct = true := by
  induction items with
  | nil => simp [distinctItems]
  | cons v rest ih => simp [distinctItems, ih]

lemma distinctMembers_iff {members : List (String × Json)} :
    distinctMembers members = true ↔ ∀ m ∈ members, m.2.isDistinct = true := by
  induction members with
  | nil => simp [distinctMembers]
  | cons m rest ih => simp [distinctMembers, ih]

lemma isDistinct_object {members : List (String × Json)} :
    (object members).isDistinct = true ↔
      (members.map (·.1)).Nodup ∧ ∀ m ∈ members, m.2.isDistinct = true := by
  rw [isDistinct, Bool.and_eq_true, decide_eq_true_iff, distinctMembers_iff]

/-! ## Merging repeated names -/

lemma mem_setMember {name : String} {value : Json} {members : List (String × Json)}
    {m : String × Json} (h : m ∈ setMember name value members) :
    m = (name, value) ∨ m ∈ members := by
  induction members with
  | nil => exact .inl (List.mem_singleton.1 h)
  | cons first rest ih =>
    unfold setMember at h
    split at h
    · rcases List.mem_cons.1 h with h | h
      · exact .inl h
      · exact .inr (List.mem_cons_of_mem _ h)
    · rcases List.mem_cons.1 h with h | h
      · exact .inr (h ▸ List.mem_cons_self)
      · exact (ih h).imp_right (List.mem_cons_of_mem _)

/-- A member keeps the place of its name, and a new name comes last. -/
lemma names_setMember (name : String) (value : Json) (members : List (String × Json)) :
    (setMember name value members).map (·.1) =
      if name ∈ members.map (·.1) then members.map (·.1) else members.map (·.1) ++ [name] := by
  induction members with
  | nil => simp [setMember]
  | cons first rest ih =>
    unfold setMember
    split
    · next hname => simp [hname]
    · next hname =>
      have hne : name ≠ first.1 := fun h => hname h.symm
      rw [List.map_cons, ih]
      by_cases hrest : name ∈ rest.map (·.1)
      · simp [hrest]
      · have hall : name ∉ first.1 :: rest.map (·.1) := by simp [hne, hrest]
        rw [if_neg hrest, List.map_cons, if_neg hall, List.cons_append]

lemma setMember_of_notMem {name : String} {members : List (String × Json)} (value : Json)
    (h : name ∉ members.map (·.1)) : setMember name value members = members ++ [(name, value)] := by
  induction members with
  | nil => rfl
  | cons first rest ih =>
    rw [List.map_cons, List.mem_cons, not_or] at h
    rw [setMember, if_neg fun hname => h.1 hname.symm, ih h.2, List.cons_append]

lemma nodup_names_setMember {members : List (String × Json)} (h : (members.map (·.1)).Nodup)
    (name : String) (value : Json) : ((setMember name value members).map (·.1)).Nodup := by
  rw [names_setMember]
  split
  · exact h
  · next hname => exact List.nodup_append.2 ⟨h, List.nodup_singleton name, by
      rintro a ha b hb rfl
      exact hname (List.mem_singleton.1 hb ▸ ha)⟩

/-- The members are merged one after the other into those that stand before them. -/
lemma mergeMembers_concat (members : List (String × Json)) (m : String × Json) :
    mergeMembers (members ++ [m]) = setMember m.1 m.2 (mergeMembers members) := by
  simp [mergeMembers, List.foldl_append]

lemma nodup_names_mergeMembers (members : List (String × Json)) :
    ((mergeMembers members).map (·.1)).Nodup := by
  induction members using List.reverseRecOn with
  | nil => exact List.nodup_nil
  | append_singleton rest m ih =>
    rw [mergeMembers_concat]
    exact nodup_names_setMember ih m.1 m.2

/-- **The value that counts under a name**: the last one. -/
def last? (members : List (String × Json)) (name : String) : Option Json :=
  members.reverse.lookup name

lemma lookup_mergeMembers (members : List (String × Json)) (name : String) :
    (mergeMembers members).lookup name = last? members name := by
  induction members using List.reverseRecOn with
  | nil => rfl
  | append_singleton rest m ih =>
    rw [mergeMembers_concat, lookup_setMember, ih, last?, last?, List.reverse_append,
      List.reverse_singleton, List.singleton_append, lookup_cons_ite]

/-- Merging takes members from those that there are. -/
lemma mem_mergeMembers {members : List (String × Json)} {m : String × Json}
    (h : m ∈ mergeMembers members) : m ∈ members := by
  induction members using List.reverseRecOn with
  | nil => exact h
  | append_singleton rest last ih =>
    rw [mergeMembers_concat] at h
    rcases mem_setMember h with rfl | h
    · simp
    · exact List.mem_append_left _ (ih h)

/-- Where names are distinct there is nothing to merge. -/
lemma mergeMembers_of_nodup {members : List (String × Json)} (h : (members.map (·.1)).Nodup) :
    mergeMembers members = members := by
  induction members using List.reverseRecOn with
  | nil => rfl
  | append_singleton rest last ih =>
    rw [List.map_append, List.nodup_append] at h
    obtain ⟨hrest, -, hlast⟩ := h
    rw [mergeMembers_concat, ih hrest, setMember_of_notMem]
    intro hmem
    exact hlast last.1 hmem last.1 (by simp) rfl

/-! ## Collapsed values -/

lemma collapseItems_eq_map (items : List Json) : collapseItems items = items.map collapse := by
  induction items with
  | nil => rfl
  | cons v rest ih => rw [collapseItems, ih, List.map_cons]

lemma collapseMembers_eq_map (members : List (String × Json)) :
    collapseMembers members = members.map fun m => (m.1, m.2.collapse) := by
  induction members with
  | nil => rfl
  | cons m rest ih => rw [collapseMembers, ih, List.map_cons]

/-- The members that are left after merging are collapsed members. -/
lemma exists_of_mem_merged {members : List (String × Json)} {m : String × Json}
    (h : m ∈ mergeMembers (collapseMembers members)) :
    ∃ own ∈ members, m = (own.1, own.2.collapse) := by
  have hmem := mem_mergeMembers h
  rw [collapseMembers_eq_map] at hmem
  obtain ⟨own, hown, rfl⟩ := List.mem_map.1 hmem
  exact ⟨own, hown, rfl⟩

/-- **Of repeated names the last value counts.** -/
lemma lookup_merged (members : List (String × Json)) (name : String) :
    (mergeMembers (collapseMembers members)).lookup name = (last? members name).map collapse := by
  rw [lookup_mergeMembers, last?, collapseMembers_eq_map, ← List.map_reverse, lookup_map, last?]

/-- **Merging repeated names makes names distinct.** -/
lemma isDistinct_collapse (v : Json) : v.collapse.isDistinct = true := by
  induction v using inductionOn with
  | null | bool | integer | double | text => rfl
  | array items ih =>
    rw [collapse, collapseItems_eq_map, isDistinct, distinctItems_iff]
    intro v hv
    obtain ⟨own, hown, rfl⟩ := List.mem_map.1 hv
    exact ih own hown
  | object members ih =>
    rw [collapse, isDistinct_object]
    refine ⟨nodup_names_mergeMembers _, ?_⟩
    intro m hm
    obtain ⟨own, hown, rfl⟩ := exists_of_mem_merged hm
    exact ih own hown

/-- **Where names are distinct there is nothing to merge**, at any depth. -/
lemma collapse_of_isDistinct {v : Json} (h : v.isDistinct = true) : v.collapse = v := by
  induction v using inductionOn with
  | null | bool | integer | double | text => rfl
  | array items ih =>
    rw [isDistinct, distinctItems_iff] at h
    have hsame : items.map collapse = items :=
      (List.map_congr_left fun v hv => ih v hv (h v hv)).trans (List.map_id items)
    rw [collapse, collapseItems_eq_map, hsame]
  | object members ih =>
    rw [isDistinct_object] at h
    have hvalues : ∀ m ∈ members, (m.1, m.2.collapse) = id m := fun m hm =>
      Prod.ext rfl (ih m hm (h.2 m hm))
    have hsame : collapseMembers members = members := by
      rw [collapseMembers_eq_map, List.map_congr_left hvalues, List.map_id]
    rw [collapse, hsame, mergeMembers_of_nodup h.1]

lemma depth_collapse_le (v : Json) : v.collapse.depth ≤ v.depth := by
  induction v using inductionOn with
  | null | bool | integer | double | text => exact Nat.le_refl _
  | array items ih =>
    rw [collapse, collapseItems_eq_map, depth, depth, Nat.add_le_add_iff_right, depthItems_le]
    intro v hv
    obtain ⟨own, hown, rfl⟩ := List.mem_map.1 hv
    exact Nat.le_trans (ih own hown) (depthItems_le.1 (Nat.le_refl _) own hown)
  | object members ih =>
    rw [collapse, depth, depth, Nat.add_le_add_iff_right, depthMembers_le]
    intro m hm
    obtain ⟨own, hown, rfl⟩ := exists_of_mem_merged hm
    exact Nat.le_trans (ih own hown) (depth_le_depthMembers hown)

lemma all_collapse {p : Json → Bool} {v : Json} (h : v.all p = true) :
    v.collapse.all p = true := by
  induction v using inductionOn with
  | null | bool | integer | double | text => exact h
  | array items ih =>
    rw [all, allItems_iff] at h
    rw [collapse, collapseItems_eq_map, all, allItems_iff]
    intro v hv
    obtain ⟨own, hown, rfl⟩ := List.mem_map.1 hv
    exact ih own hown (h own hown)
  | object members ih =>
    rw [all, allMembers_iff] at h
    rw [collapse, all, allMembers_iff]
    intro m hm
    obtain ⟨own, hown, rfl⟩ := exists_of_mem_merged hm
    exact ih own hown (h own hown)

end PagedTopK.Json
