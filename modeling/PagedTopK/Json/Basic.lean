import PagedTopK.Binary64.Basic

set_option autoImplicit false

/-!
# JSON values

A JSON value keeps the members of its objects in the order in which they were written. A number
written without point and exponent is an integer, any other a double.

## Main definitions

* `Json` — a JSON value.
* `Json.setMember` — members after one of them has been given a value.
* `Json.collapse` — a value whose objects have no two members of one name.
* `Json.same` — equality that ignores the order of members.
-/

namespace PagedTopK

/-- **A JSON value.** -/
inductive Json where
  /-- The null value. -/
  | null
  /-- A truth value. -/
  | bool (value : Bool)
  /-- A number written without point and exponent. -/
  | integer (value : Int)
  /-- Any other number. -/
  | double (value : Binary64)
  /-- A text. -/
  | text (value : String)
  /-- An array. -/
  | array (items : List Json)
  /-- An object, its members in the order of writing. -/
  | object (members : List (String × Json))
deriving Inhabited

namespace Json

/-- A natural number as a JSON value. -/
def natural (n : Nat) : Json := integer n

/-- The value of an optional one; none is null. -/
def optional {α : Type} (write : α → Json) : Option α → Json
  | none => null
  | some a => write a

/-- **Give a member a value**: in its place if there is a member of that name, else at the end. -/
def setMember (name : String) (value : Json) : List (String × Json) → List (String × Json)
  | [] => [(name, value)]
  | m :: rest => if m.1 = name then (name, value) :: rest else m :: setMember name value rest

/-- Members without repeated names: of two with one name the later gives the value and the earlier
the place. -/
def mergeMembers (members : List (String × Json)) : List (String × Json) :=
  members.foldl (fun merged m => setMember m.1 m.2 merged) []

mutual

/-- **Merge repeated names** in all objects of a value. -/
def collapse : Json → Json
  | array items => array (collapseItems items)
  | object members => object (mergeMembers (collapseMembers members))
  | value => value

/-- Merge repeated names in the items of an array. -/
def collapseItems : List Json → List Json
  | [] => []
  | item :: rest => collapse item :: collapseItems rest

/-- Merge repeated names below the members of an object. -/
def collapseMembers : List (String × Json) → List (String × Json)
  | [] => []
  | (name, value) :: rest => (name, collapse value) :: collapseMembers rest

end

mutual

/-- **Equality that ignores the order of members.** Doubles are equal as numbers, and an integer
equals no double. -/
def same : Json → Json → Bool
  | null, null => true
  | bool a, bool b => a == b
  | integer a, integer b => a == b
  | double a, double b => a.sameNumber b
  | text a, text b => a == b
  | array a, array b => sameItems a b
  | object a, object b => a.length == b.length && sameMembers a b
  | _, _ => false

/-- Whether the items of two arrays are the same, one by one. -/
def sameItems : List Json → List Json → Bool
  | [], [] => true
  | a :: as, b :: bs => same a b && sameItems as bs
  | _, _ => false

/-- Whether each of the first members is among the second ones. -/
def sameMembers : List (String × Json) → List (String × Json) → Bool
  | [], _ => true
  | (name, value) :: rest, others =>
    (match others.lookup name with
      | some other => same value other
      | none => false) && sameMembers rest others

end

/-! ## Setting a member -/

theorem lookup_setMember (name other : String) (value : Json) (members : List (String × Json)) :
    (setMember name value members).lookup other =
      if other = name then some value else members.lookup other := by
  induction members with
  | nil => by_cases h : other = name <;> simp [setMember, h]
  | cons m rest ih =>
    obtain ⟨own, old⟩ := m
    unfold setMember
    split
    · next hm =>
      by_cases h : other = name
      · simp [h]
      · have hb : (other == own) = false := beq_eq_false_iff_ne.2 fun he => h (he.trans hm)
        have hb' : (other == name) = false := beq_eq_false_iff_ne.2 h
        simp only [List.lookup_cons, hb, hb', if_neg h]
    · next hm =>
      by_cases h : other = own
      · have hne : ¬ other = name := fun he => hm (h.symm.trans he)
        simp [h, hm]
      · have hb : (other == own) = false := beq_eq_false_iff_ne.2 h
        simp only [List.lookup_cons, hb, ih]

end Json

end PagedTopK
