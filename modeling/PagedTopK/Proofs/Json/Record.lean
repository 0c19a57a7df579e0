import PagedTopK.Proofs.Json.Document
import PagedTopK.Proofs.Lookup

set_option autoImplicit false

/-!
# Records that are read back

A record is written as an object with one member for every field that it gives. Reading that object
gives the fields back, whatever the text of their values, so a reader of records is checked field by
field.

## Main definitions

* `Json.FitsWord` — whether a number has 64 bits, if there is one.
* `Json.Given.ofValues` — the fields that the members of an object give.

## Main results

* `Json.readWith_compactChars` — a written value without doubles is read from its own document.
* `Json.Given.ofDocument_object` — the fields of a written object.
* `Json.Given.required_ofValues`, `Json.Given.possible_ofValues` — the values of these fields.
-/

namespace PagedTopK.Json

variable {α : Type} {read : Reader α}

/-! ## Written values -/

/-- **A written value is read from its own document**, if it holds no doubles and its integers have
64 bits. -/
theorem readWith_compactChars {v : Json} (hv : v.all isInteger = true) (read : Reader α) :
    readWith read v.compactChars = read (document v) := by
  rw [readWith, readText_compactChars (all_isWord_of_isInteger hv), rewritten_of_isInteger hv]
  cases h : read (document v) <;> simp [h]

namespace Reader

@[simp] lemma text_document (s : String) : text (document (.text s)) = .ok s := rfl

@[simp] lemma flag_document (b : Bool) : flag (document (.bool b)) = .ok b := rfl

/-- A value that may be missing is read back if it cannot be taken for null. -/
lemma optional_document {write : α → Json} (hnull : ∀ a, document (write a) ≠ .scalar .null)
    (h : ∀ a, read (document (write a)) = .ok a) (o : Option α) :
    read.optional (document (Json.optional write o)) = .ok o := by
  cases o with
  | none => rfl
  | some a =>
    show read.optional (document (write a)) = .ok (some a)
    unfold Reader.optional
    split
    · next hd => exact absurd hd (hnull a)
    · rw [h]
      rfl

@[simp] lemma optional_text_document (s? : Option String) :
    text.optional (document (Json.optional .text s?)) = .ok s? :=
  optional_document nofun (fun _ => rfl) s?

@[simp] lemma optional_natural_document (n? : Option Nat) :
    natural.optional (document (Json.optional .natural n?)) = .ok n? :=
  optional_document nofun (fun _ => rfl) n?

end Reader

/-! ## Numbers of 64 bits -/

/-- **A number of 64 bits**, if there is one. -/
def FitsWord (n? : Option Nat) : Prop := ∀ n ∈ n?, n < 2 ^ 64

lemma all_isInteger_optional_natural {n? : Option Nat} (h : FitsWord n?) :
    (Json.optional natural n?).all isInteger = true := by
  cases n? with
  | none => rfl
  | some n =>
    have hn := h n rfl
    rw [Json.optional]
    simp only [natural, all, isInteger, isWord, decide_eq_true_eq]
    constructor <;> omega

lemma all_isInteger_optional_text (s? : Option String) :
    (Json.optional text s?).all isInteger = true := by
  cases s? <;> rfl

namespace Given

/-! ## Fields -/

/-- **The fields that the members of an object give.** -/
def ofValues (members : List (String × Json)) : Given := members.map fun m => (m.1, document m.2)

variable {table : List Field} {members : List (String × Json)} {name : String} {v : Json} {a : α}

lemma ofMembers_documentMembers {seen : List String} (hnames : (members.map (·.1)).Nodup)
    (hseen : ∀ m ∈ members, m.1 ∉ seen)
    (h : ∀ m ∈ members, ∃ field, table.find? (·.name == m.1) = some field ∧
      field.check (document m.2) = .ok ()) :
    ofMembers table seen true (documentMembers members) = .ok (ofValues members) := by
  induction members generalizing seen with
  | nil => rfl
  | cons m rest ih =>
    obtain ⟨⟨field, hfield, hcheck⟩, hrest⟩ := List.forall_mem_cons.1 h
    obtain ⟨hfirst, hlater⟩ := List.forall_mem_cons.1 hseen
    rw [List.map_cons, List.nodup_cons] at hnames
    have hnext : ∀ n ∈ rest, n.1 ∉ m.1 :: seen := by
      intro n hn hmem
      rcases List.mem_cons.1 hmem with heq | hmem
      · exact hnames.1 (heq ▸ List.mem_map_of_mem hn)
      · exact hlater n hn hmem
    simp only [documentMembers, ofMembers, hfield, if_neg hfirst, hcheck,
      ih hnames.2 hnext hrest]
    rfl

/-- **The fields of a written object** are its members, if each of them is a field of the record
whose value has no objection. -/
theorem ofDocument_object (hnames : (members.map (·.1)).Nodup)
    (h : ∀ m ∈ members, ∃ field, table.find? (·.name == m.1) = some field ∧
      field.check (document m.2) = .ok ()) :
    ofDocument table (document (.object members)) = .ok (ofValues members) :=
  ofMembers_documentMembers hnames (fun _ _ => List.not_mem_nil) h

lemma lookup_ofValues (members : List (String × Json)) (name : String) :
    (ofValues members).lookup name = (members.lookup name).map document :=
  lookup_map document name members

/-- A field that must be there. -/
lemma required_ofValues (members : List (String × Json)) (name : String) (read : Reader α) :
    (ofValues members).required name read =
      (members.lookup name).elim (.error (.missingField name)) fun v => read (document v) := by
  rw [required, lookup_ofValues]
  cases members.lookup name <;> rfl

/-- A field that may be missing or null. -/
lemma possible_ofValues (members : List (String × Json)) (name : String) (read : Reader α) :
    (ofValues members).possible name read =
      (members.lookup name).elim (.ok none) fun v => read.optional (document v) := by
  rw [possible, lookup_ofValues]
  cases members.lookup name <;> rfl

end Given

end PagedTopK.Json
