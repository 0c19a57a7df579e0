import PagedTopK.Proofs.Json.Finite
import PagedTopK.Proofs.Json.Same
import PagedTopK.Proofs.Lookup
import PagedTopK.Proofs.Verdict.Fingerprint
import PagedTopK.Verdict.Basic
import PagedTopK.Verdict.ResultFile

set_option autoImplicit false

/-!
# Fingerprints of rows with any values

A row of a result file may hold any values, not only texts. Its members are sorted before they are
digested, so rows with the same members have the same fingerprint and give the same verdict. What
is inside the values is written as it stands: the order of the members of an object in a row counts,
and so does the sign of zero.

## Main definitions

* `Row.bytes` — what is digested for a row.
* `Row.IsLoaded` — what is known of the rows of a result file.

## Main results

* `ResultFile.isLoaded_of_load` — the rows of a result file have distinct names, and their values
  are told by their texts.
* `Row.IsLoaded.bytes_eq_iff` — rows have the same text exactly if they have the same members.
* `Verdict.compare_map` — a verdict depends on the fingerprints and the sorted rows only.
* `Row.fingerprint_identifies_members` — what a fingerprint says of a row, and a verdict of the
  order of its members.
-/

namespace PagedTopK

namespace Row

variable {a b : Row}

/-- **What is digested for a row**, in bytes. -/
def bytes (row : Row) : List UInt8 := Utf8.encode row.canonical.compactChars

/-- **What is known of the rows of a result file.** -/
structure IsLoaded (row : Row) : Prop where
  /-- No two members have one name. -/
  nodup : (row.map (·.1)).Nodup
  /-- Nor have two members of one name any objects inside the values. -/
  isDistinct : ∀ m ∈ row, m.2.isDistinct = true
  /-- The values are told by their texts. -/
  isExact : ∀ m ∈ row, m.2.all Json.isExact = true

/-- Rows are sorted into one exactly if they have the same members. -/
lemma IsLoaded.sorted_eq_iff (h : b.IsLoaded) : a.sorted = b.sorted ↔ a.Perm b := by
  constructor
  · intro hsorted
    exact a.sorted_perm.symm.trans (hsorted ▸ b.sorted_perm)
  · intro hperm
    have hnames : (b.sorted.map (·.1)).Nodup := (b.sorted_perm.map _).nodup_iff.2 h.nodup
    exact sorted_eq_of_perm (hperm.trans b.sorted_perm.symm) hnames b.pairwise_sorted

/-- The values of a sorted row are told by their texts. -/
lemma IsLoaded.all_canonical (h : a.IsLoaded) : a.canonical.all Json.isExact = true := by
  rw [canonical, Json.all, Json.allMembers_iff]
  exact fun m hm => h.isExact m (a.sorted_perm.subset hm)

/-- **Rows have the same text exactly if they have the same members.** -/
theorem IsLoaded.bytes_eq_iff (ha : a.IsLoaded) (hb : b.IsLoaded) :
    a.bytes = b.bytes ↔ a.Perm b := by
  rw [← hb.sorted_eq_iff]
  constructor
  · intro h
    exact Json.object.inj
      (Json.eq_of_compactChars_eq ha.all_canonical hb.all_canonical (Utf8.encode_injective h))
  · intro h
    rw [bytes, canonical, h, bytes, canonical]

/-- Rows with the same members are equal as objects. -/
lemma IsLoaded.same_of_perm (ha : a.IsLoaded) (hb : b.IsLoaded) (h : a.Perm b) :
    (Json.object a).same (.object b) = true := by
  rw [Json.same_object_iff ha.nodup hb.nodup]
  intro name
  have hlookup : b.lookup name = a.lookup name := Option.ext fun v => by
    rw [lookup_eq_some_iff hb.nodup, lookup_eq_some_iff ha.nodup, h.mem_iff]
  rw [hlookup]
  cases hv : a.lookup name with
  | none => exact .none
  | some v =>
    have hmem := mem_of_lookup hv
    exact .some (Json.same_self Json.isNaN_of_isExact (ha.isDistinct _ hmem) (ha.isExact _ hmem))

end Row

/-! ## Result files -/

namespace ResultFile

lemma eq_map_of_rows {path : String} {index : Nat} {items : List Json} {rs : List Row}
    (h : rows path index items = .ok rs) : items = rs.map .object := by
  induction items generalizing index rs with
  | nil =>
    cases h
    rfl
  | cons v rest ih =>
    cases v with
    | object members =>
      rw [rows] at h
      cases hrest : rows path (index + 1) rest with
      | error e =>
        rw [hrest] at h
        cases h
      | ok others =>
        rw [hrest] at h
        cases h
        rw [List.map_cons, ← ih hrest]
    | null | bool | integer | double | text | array => cases h

lemma rows_map (path : String) (index : Nat) (rs : List Row) :
    rows path index (rs.map .object) = .ok rs := by
  induction rs generalizing index with
  | nil => rfl
  | cons row rest ih =>
    rw [List.map_cons, rows, ih]
    rfl

/-- The rows of a file whose text has the tokens of an array of them. -/
lemma load_of_tokenize_eq {contents path : String} {rs : List Row}
    (h : Json.tokenize contents.toList = (Json.array (rs.map .object)).tokens)
    (hdistinct : (Json.array (rs.map .object)).isDistinct = true)
    (hdepth : (Json.array (rs.map .object)).depth ≤ Json.maxDepth) :
    load (fun _ => .ok contents) path = .ok rs := by
  simp only [load, parse, Json.readWith_of_tokenize_eq h hdistinct hdepth, rows_map]

/-- **The rows of a result file** have distinct names, and their values are told by their texts. -/
theorem isLoaded_of_load {read : String → Except FileError String} {path : String}
    {rs : List Row} (h : load read path = .ok rs) : ∀ row ∈ rs, row.IsLoaded := by
  rw [load] at h
  split at h
  · cases h
  rw [parse] at h
  split at h
  · cases h
  · next items hread =>
    obtain ⟨hdistinct, hexact⟩ := Json.all_isExact_of_readWith hread
    rw [eq_map_of_rows h] at hdistinct hexact
    rw [Json.isDistinct, Json.distinctItems_iff, List.forall_mem_map] at hdistinct
    rw [Json.all, Json.allItems_iff, List.forall_mem_map] at hexact
    intro row hrow
    obtain ⟨hnames, hbelow⟩ := Json.isDistinct_object.1 (hdistinct row hrow)
    exact ⟨hnames, hbelow, Json.allMembers_iff.1 (hexact row hrow)⟩
  · cases h

end ResultFile

/-! ## Verdicts -/

namespace Verdict

/-- A comparison in which other rows are shown. -/
def Progress.map (f : Row → Row) (p : Progress) : Progress :=
  { p with unexpected := p.unexpected.map f, duplicated := p.duplicated.map f }

section Map

variable {f : Row → Row} (hname : ∀ row, (f row).fingerprint = row.fingerprint)

include hname

lemma Progress.check_map (p : Progress) (row : Row) :
    (p.map f).check (f row) = (p.check row).map f := by
  unfold Progress.check
  rw [hname]
  simp only [Progress.map]
  cases p.expected.lookup row.fingerprint with
  | none => cases h : p.unexpected <;> rfl
  | some count =>
    by_cases hcount : count < 1
    · cases h : p.duplicated <;> simp [hcount]
    · simp [hcount]

lemma Progress.foldl_check_map (p : Progress) (rows : List Row) :
    (rows.map f).foldl Progress.check (p.map f) = (rows.foldl Progress.check p).map f := by
  induction rows generalizing p with
  | nil => rfl
  | cons row rest ih => rw [List.map_cons, List.foldl_cons, List.foldl_cons, p.check_map hname, ih]

/-- **A verdict depends on the fingerprints and the sorted rows only.** -/
theorem compare_map (hcanonical : ∀ row, (f row).canonical = row.canonical)
    (reference actual : List Row) :
    compare (reference.map f) (actual.map f) = compare reference actual := by
  have hnames : (reference.map f).map Row.fingerprint = reference.map Row.fingerprint := by
    rw [List.map_map]
    exact List.map_congr_left fun row _ => hname row
  have hshown : ∀ row? : Option Row, (row?.map f).map Row.canonical = row?.map Row.canonical := by
    rintro (_ | row)
    · rfl
    · exact congrArg some (hcanonical row)
  have hfold (t : Tally) : (actual.map f).foldl Progress.check ⟨t, none, none⟩ =
      (actual.foldl Progress.check ⟨t, none, none⟩).map f :=
    Progress.foldl_check_map hname ⟨t, none, none⟩ actual
  simp only [compare, hnames, hfold, Progress.map, Option.isNone_map, hshown, List.length_map]

end Map

/-- A verdict is that on the sorted rows. -/
lemma compare_sorted (reference actual : List Row) :
    compare (reference.map Row.sorted) (actual.map Row.sorted) = compare reference actual := by
  have hcanonical : ∀ row : Row, row.sorted.canonical = row.canonical := fun row => by
    rw [Row.canonical, Row.sorted_sorted, Row.canonical]
  exact compare_map (fun row => by rw [Row.fingerprint, hcanonical, Row.fingerprint]) hcanonical
    reference actual

end Verdict

namespace Row

/-- Rows with the same members, one by one, are sorted into the same rows. -/
lemma map_sorted_eq {rows rows' : List Row} (h : List.Forall₂ List.Perm rows rows')
    (hloaded : ∀ row ∈ rows, row.IsLoaded) : rows.map sorted = rows'.map sorted := by
  induction h with
  | nil => rfl
  | cons hperm _ ih =>
    obtain ⟨hrow, hrest⟩ := List.forall_mem_cons.1 hloaded
    rw [List.map_cons, List.map_cons, ih hrest, hrow.sorted_eq_iff.2 hperm.symm]

/-- **Fingerprints identify the members of rows**: without a collision of their digests, rows of
result files have the same fingerprint exactly if they have the same members in any order, and then
they are equal as objects. So a verdict does not depend on the order of the members of any row.

**Proof sketch.** Rows with the same members are sorted into one row, and the text of a sorted row
tells its members. A verdict is that on the sorted rows. -/
theorem fingerprint_identifies_members :
    (∀ read path rows read' path' rows', ResultFile.load read path = .ok rows →
      ResultFile.load read' path' = .ok rows' → ∀ a ∈ rows, ∀ b ∈ rows',
        (Sha256.digest a.bytes = Sha256.digest b.bytes → a.bytes = b.bytes) →
          (a.fingerprint = b.fingerprint ↔ a.Perm b) ∧
          (a.fingerprint = b.fingerprint → (Json.object a).same (.object b) = true)) ∧
    ∀ read path rows read' path' rows', ResultFile.load read path = .ok rows →
      ResultFile.load read' path' = .ok rows' → ∀ reference actual : List Row,
        List.Forall₂ List.Perm rows reference → List.Forall₂ List.Perm rows' actual →
          Verdict.compare reference actual = Verdict.compare rows rows' := by
  constructor
  · intro read path rows read' path' rows' hrows hrows' a ha b hb hfree
    have ha := ResultFile.isLoaded_of_load hrows a ha
    have hb := ResultFile.isLoaded_of_load hrows' b hb
    have hperm : a.fingerprint = b.fingerprint ↔ a.Perm b := by
      rw [← ha.bytes_eq_iff hb]
      exact ⟨fun h => hfree (Sha256.hexDigest_inj h), congrArg Sha256.hexDigest⟩
    exact ⟨hperm, fun h => ha.same_of_perm hb (hperm.1 h)⟩
  · intro read path rows read' path' rows' hrows hrows' reference actual hreference hactual
    rw [← Verdict.compare_sorted reference, ← Verdict.compare_sorted rows,
      map_sorted_eq hreference (ResultFile.isLoaded_of_load hrows),
      map_sorted_eq hactual (ResultFile.isLoaded_of_load hrows')]

/-- A row with its members in either order, one of which holds an object and numbers of both
kinds. -/
theorem fingerprint_identifies_members_of_swapped :
    let text := "[\x7b\"x\":\"é\",\"y\":[\x7b\"p\":1\x7d,0.5]\x7d]"
    let text' := "[\x7b\"y\":[\x7b\"p\":1\x7d,5e-1],\"x\":\"é\"\x7d]"
    let half : Binary64 := ⟨false, 1022 * Nat.pow 2 52, by decide⟩
    let y : Json := .array [.object [("p", .integer 1)], .double half]
    let a : Row := [("x", .text "é"), ("y", y)]
    let b : Row := [("y", y), ("x", .text "é")]
    ResultFile.load (fun _ => .ok text) "a.json" = .ok [a] ∧
      ResultFile.load (fun _ => .ok text') "b.json" = .ok [b] ∧
      (a.fingerprint = b.fingerprint ↔ a.Perm b) ∧
      Verdict.compare [b] [b] = Verdict.compare [a] [a] := by
  intro text text' half y a b
  have ha : ResultFile.load (fun _ => .ok text) "a.json" = .ok [a] :=
    ResultFile.load_of_tokenize_eq (by decide +kernel) (by decide +kernel) (by decide +kernel)
  have hb : ResultFile.load (fun _ => .ok text') "b.json" = .ok [b] :=
    ResultFile.load_of_tokenize_eq (by decide +kernel) (by decide +kernel) (by decide +kernel)
  have hperm : b.Perm a := .swap _ _ _
  have hbytes : a.bytes = b.bytes :=
    ((ResultFile.isLoaded_of_load ha a (List.mem_singleton_self a)).bytes_eq_iff
      (ResultFile.isLoaded_of_load hb b (List.mem_singleton_self b))).2 hperm.symm
  obtain ⟨hprint, hverdict⟩ := fingerprint_identifies_members
  refine ⟨ha, hb, ?_, ?_⟩
  · exact (hprint _ _ _ _ _ _ ha hb a (List.mem_singleton_self a) b (List.mem_singleton_self b)
      fun _ => hbytes).1
  · exact hverdict _ _ _ _ _ _ ha ha [b] [b] (.cons hperm.symm .nil) (.cons hperm.symm .nil)

/-- **The order of the members of an object inside a row counts**, although it is no part of the
object: the fingerprints differ, and the verdict says that the rows do. -/
theorem fingerprint_of_nested_order :
    let text := "[\x7b\"x\":\x7b\"p\":1,\"q\":2\x7d\x7d]"
    let text' := "[\x7b\"x\":\x7b\"q\":2,\"p\":1\x7d\x7d]"
    let a : Row := [("x", .object [("p", .integer 1), ("q", .integer 2)])]
    let b : Row := [("x", .object [("q", .integer 2), ("p", .integer 1)])]
    ResultFile.load (fun _ => .ok text) "a.json" = .ok [a] ∧
      ResultFile.load (fun _ => .ok text') "b.json" = .ok [b] ∧
      (Json.object a).same (.object b) = true ∧
      Sha256.digest a.bytes ≠ Sha256.digest b.bytes ∧
      a.fingerprint ≠ b.fingerprint ∧ (Verdict.compare [a] [b]).correct = false := by
  intro text text' a b
  exact ⟨ResultFile.load_of_tokenize_eq (by decide +kernel) (by decide +kernel) (by decide +kernel),
    ResultFile.load_of_tokenize_eq (by decide +kernel) (by decide +kernel) (by decide +kernel),
    by decide, by decide +kernel, by decide +kernel, by decide +kernel⟩

end Row

end PagedTopK
