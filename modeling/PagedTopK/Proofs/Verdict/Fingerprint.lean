import Mathlib.Data.List.Nodup
import PagedTopK.Proofs.Encoding.Sha256
import PagedTopK.Proofs.Encoding.Utf8
import PagedTopK.Proofs.Json.Injective
import PagedTopK.Report
import PagedTopK.Verdict.Fingerprint

set_option autoImplicit false

/-!
# Fingerprints of solutions

A row of a result file lists the bindings of a solution in some order. Its fingerprint is the digest
of the JSON text of the solution, so rows have the same fingerprint exactly if they are rows of the
same solution, unless two texts have one digest.

## Main definitions

* `Row.IsOf` — whether a row lists the bindings of a solution.
* `Solution.bytes`, `Solution.fingerprint` — the JSON text of a solution and its digest.
* `CollisionFree` — the assumption that different texts have different digests.

## Main results

* `Row.IsOf.canonical`, `Row.IsOf.fingerprint` — what a row amounts to.
* `Solution.bytes_injective` — different solutions have different texts.
-/

namespace PagedTopK

/-- The bindings of a solution as members of an object. -/
def Solution.members (s : Solution) : Row := s.bindings.map fun b => (b.1, .text b.2)

/-- **The JSON text of a solution**, in bytes. -/
def Solution.bytes (s : Solution) : List UInt8 := Utf8.encode (Report.solutionJson s).compactChars

/-- The digest of a solution, in hexadecimal digits. -/
def Solution.fingerprint (s : Solution) : String := Sha256.hexDigest s.bytes

/-- **A row lists the bindings of a solution**, in any order. -/
def Row.IsOf (row : Row) (s : Solution) : Prop := row.Perm s.members

namespace Row

/-! ## The order of members -/

/-- The order of members, by their names. -/
def byName (a b : String × Json) : Bool := (compare a.1 b.1).isLE

lemma byName_trans (a b c : String × Json) (hab : byName a b = true) (hbc : byName b c = true) :
    byName a c = true :=
  Std.TransCmp.isLE_trans hab hbc

lemma byName_total (a b : String × Json) : (byName a b || byName b a) = true := by
  rw [Bool.or_eq_true, byName, byName]
  cases h : compare a.1 b.1 with
  | lt => exact .inl rfl
  | eq => exact .inl rfl
  | gt =>
    right
    rw [Std.OrientedCmp.gt_iff_lt.1 h]
    rfl

lemma sorted_perm (row : Row) : row.sorted.Perm row := List.mergeSort_perm row _

lemma pairwise_sorted (row : Row) : row.sorted.Pairwise fun a b => byName a b = true :=
  List.pairwise_mergeSort byName_trans byName_total row

lemma sorted_sorted (row : Row) : row.sorted.sorted = row.sorted :=
  List.mergeSort_of_pairwise row.pairwise_sorted

lemma name_eq_of_byName {a b : String × Json} (hab : byName a b = true)
    (hba : byName b a = true) : a.1 = b.1 := by
  cases h : compare a.1 b.1 with
  | eq => exact Std.LawfulEqCmp.eq_of_compare h
  | lt =>
    rw [byName, Std.OrientedCmp.gt_iff_lt.2 h] at hba
    cases hba
  | gt =>
    rw [byName, h] at hab
    cases hab

/-- Members of one name are the same where no two have one name. -/
lemma eq_of_name_eq {row : Row} (h : (row.map (·.1)).Nodup) {a b : String × Json} (ha : a ∈ row)
    (hb : b ∈ row) (hname : a.1 = b.1) : a = b :=
  List.inj_on_of_nodup_map h ha hb hname

/-- **Members that come in any order are sorted into one.** -/
lemma sorted_eq_of_perm {row members : Row} (h : row.Perm members)
    (hnames : (members.map (·.1)).Nodup) (hsorted : members.Pairwise fun a b => byName a b = true) :
    row.sorted = members := by
  have hperm : row.sorted.Perm members := row.sorted_perm.trans h
  refine hperm.eq_of_pairwise (fun a b ha hb hab hba => ?_) row.pairwise_sorted hsorted
  exact eq_of_name_eq hnames (hperm.subset ha) hb (name_eq_of_byName hab hba)

end Row

/-! ## Rows of solutions -/

namespace Solution

lemma pairwise_members (s : Solution) :
    s.members.Pairwise fun a b => compare a.1 b.1 = .lt :=
  List.pairwise_map.2 s.increasing

lemma nodup_members (s : Solution) : (s.members.map (·.1)).Nodup := by
  refine List.pairwise_map.2 (s.pairwise_members.imp fun {a b} hlt heq => ?_)
  have hself : compare b.1 b.1 = .eq := Std.ReflCmp.compare_self
  rw [heq, hself] at hlt
  cases hlt

end Solution

namespace Row

variable {row : Row} {s : Solution}

/-- A row amounts to the object of its solution. -/
lemma IsOf.canonical (h : row.IsOf s) : row.canonical = Report.solutionJson s := by
  have hsorted : s.members.Pairwise fun a b => byName a b = true :=
    s.pairwise_members.imp fun {a b} hlt => by rw [byName, hlt]; rfl
  rw [Row.canonical, sorted_eq_of_perm h s.nodup_members hsorted]
  rfl

/-- **The fingerprint of a row** is that of its solution. -/
lemma IsOf.fingerprint (h : row.IsOf s) : row.fingerprint = s.fingerprint := by
  rw [Row.fingerprint, h.canonical, Solution.fingerprint, Solution.bytes]

end Row

/-! ## Texts of solutions -/

namespace Report

lemma all_isExact_solutionJson (s : Solution) :
    (solutionJson s).all Json.isExact = true := by
  rw [solutionJson, Json.all, Json.allMembers_iff]
  intro m hm
  obtain ⟨b, -, rfl⟩ := List.mem_map.1 hm
  rfl

/-- Different solutions are different objects. -/
lemma solutionJson_injective : Function.Injective solutionJson := by
  intro s t h
  have hmembers : s.members = t.members := Json.object.inj h
  have hbindings : s.bindings = t.bindings := by
    refine List.map_injective_iff.2 ?_ hmembers
    rintro ⟨a, x⟩ ⟨b, y⟩ hab
    cases hab
    rfl
  cases s
  cases t
  cases hbindings
  rfl

end Report

/-- **Different solutions have different texts.** -/
theorem Solution.bytes_injective : Function.Injective Solution.bytes := by
  intro s t h
  have hs := Report.all_isExact_solutionJson s
  have ht := Report.all_isExact_solutionJson t
  exact Report.solutionJson_injective
    (Json.eq_of_compactChars_eq hs ht (Utf8.encode_injective h))

/-! ## Collisions -/

/-- **No two texts of some solutions have one digest.** -/
def CollisionFree (solutions : List Solution) : Prop :=
  ∀ s ∈ solutions, ∀ t ∈ solutions,
    Sha256.digest s.bytes = Sha256.digest t.bytes → s.bytes = t.bytes

/-- Without collisions a fingerprint is that of one solution only. -/
lemma CollisionFree.injOn {solutions : List Solution} (h : CollisionFree solutions) :
    Set.InjOn Solution.fingerprint {s | s ∈ solutions} := fun s hs t ht hprint =>
  Solution.bytes_injective (h s hs t ht (Sha256.hexDigest_inj hprint))

lemma CollisionFree.of_perm {X Y : List Solution} (h : CollisionFree X) (hperm : Y.Perm X) :
    CollisionFree Y := fun s hs t ht => h s (hperm.subset hs) t (hperm.subset ht)

end PagedTopK
