import PagedTopK.Binary64.Decimal
import PagedTopK.Term.Lexical

set_option autoImplicit false

/-!
# What a term is sorted by

Terms are ordered by kind first: unbound, blank nodes, IRIs, numbers, other literals. Within a kind
blank nodes and IRIs are ordered by their text, numbers by the total order on doubles, and literals
by their lexical form and then by their tag.

A literal counts as a number if its datatype is one of the numeric types of XML Schema and its
lexical form writes a finite double; plain text counts as a number if it writes one.

## Main definitions

* `SortValue` — the sort key of one term.
* `SortValue.ofTerm` — the sort key of a term; an absent term is unbound.
* `SortValue.order` — the order of sort keys.

## Main results

* `SortValue.eq_of_order_eq` — keys that compare as equal are equal.
* The order is a total preorder: `Std.TransCmp SortValue.order`.
-/

namespace PagedTopK

/-- **The sort key of a term.** -/
inductive SortValue where
  /-- No term. -/
  | unbound
  /-- A blank node, by its label. -/
  | blank (label : String)
  /-- An IRI, without brackets. -/
  | iri (text : String)
  /-- A finite number. -/
  | numeric (value : Binary64)
  /-- Any other literal, by its lexical form and what follows the closing quote. -/
  | literal (lexical tag : String)
deriving DecidableEq

namespace SortValue

/-! ## From terms -/

/-- The local names of the numeric datatypes. -/
def numericTypes : List String :=
  ["integer", "decimal", "double", "float", "int", "long", "short", "byte", "nonNegativeInteger",
    "nonPositiveInteger", "positiveInteger", "negativeInteger", "unsignedInt", "unsignedLong",
    "unsignedShort", "unsignedByte"]

/-- The namespace of the datatypes. -/
def datatypeNamespace : String := "http://www.w3.org/2001/XMLSchema#"

/-- **Whether a tag names a numeric datatype**: `^^` and the type, by full name, by `xsd:` or by
its local name alone, with any number of angle brackets around it. -/
def isNumericTag (tag : List Char) : Bool :=
  match Text.stripStart? "^^".toList tag with
  | none => false
  | some datatype =>
    let bare := Text.dropWhileEnd (· == '>') (datatype.dropWhile (· == '<'))
    let name :=
      match Text.stripStart? datatypeNamespace.toList bare with
      | some rest => rest
      | none => (Text.stripStart? "xsd:".toList bare).getD bare
    numericTypes.contains (String.ofList name)

/-- The finite number that a lexical form writes, blanks around it aside. -/
def number? (lexical : List Char) : Option Binary64 :=
  (Binary64.ofText? (Text.trim lexical)).filter Binary64.isFinite

/-- Whether a bare term is an IRI by its scheme. -/
def hasIriScheme (term : List Char) : Bool :=
  ["http://", "https://", "urn:"].any fun scheme => scheme.toList.isPrefixOf term

/-- The sort key of a term that is neither a blank node nor an IRI. -/
def ofLiteral (term : List Char) : SortValue :=
  match Term.quotedParts? term with
  | some (lexical, tag) =>
    match (if isNumericTag tag then number? lexical else none) with
    | some value => numeric value
    | none => literal (String.ofList lexical) (String.ofList tag)
  | none =>
    match number? term with
    | some value => numeric value
    | none => literal (String.ofList term) ""

/-- The sort key of a bound term. -/
def ofText (term : String) : SortValue :=
  match Text.stripStart? "_:".toList term.toList with
  | some label => blank (String.ofList label)
  | none =>
    match Term.bracketed? term.toList with
    | some text => iri (String.ofList text)
    | none => if hasIriScheme term.toList then iri term else ofLiteral term.toList

/-- **The sort key of a term**, unbound if there is none. -/
def ofTerm : Option String → SortValue
  | none => unbound
  | some term => ofText term

/-! ## Order -/

/-- The place of each kind in the order. -/
def kind : SortValue → Nat
  | unbound => 0
  | blank _ => 1
  | iri _ => 2
  | numeric _ => 3
  | literal _ _ => 4

/-- The number in a key; zero stands for the kinds without one. -/
def numberPlace : SortValue → Int
  | numeric value => value.place
  | _ => 0

/-- The first text in a key, empty for the kinds without one. -/
def mainText : SortValue → String
  | blank label => label
  | iri text => text
  | literal lexical _ => lexical
  | _ => ""

/-- The tag in a key, empty for the kinds without one. -/
def tagText : SortValue → String
  | literal _ tag => tag
  | _ => ""

/-- **The order of sort keys**: by kind, then by what the kind holds. A part that a kind does not
hold is the same for all keys of the kind and decides nothing. -/
def order (a b : SortValue) : Ordering :=
  (compare a.kind b.kind).then <| (compare a.numberPlace b.numberPlace).then <|
    (compare a.mainText b.mainText).then (compare a.tagText b.tagText)

theorem order_eq_compareLex :
    order = compareLex (compareOn kind) (compareLex (compareOn numberPlace)
      (compareLex (compareOn mainText) (compareOn tagText))) := by
  funext a b
  simp [order, compareLex, compareOn]

instance : Std.TransCmp order := by
  rw [order_eq_compareLex]
  infer_instance

/-- Keys that compare as equal are equal. -/
theorem eq_of_order_eq {a b : SortValue} (h : order a b = .eq) : a = b := by
  simp only [order, Ordering.then_eq_eq, Std.LawfulEqOrd.compare_eq_iff_eq] at h
  obtain ⟨hkind, hnumber, hmain, htag⟩ := h
  cases a <;> cases b <;> simp_all [kind, numberPlace, mainText, tagText]
  exact Binary64.place_injective hnumber

instance : Std.LawfulEqCmp order := ⟨eq_of_order_eq⟩

/-- Numbers are ordered by the total order on doubles. -/
theorem order_numeric (x y : Binary64) : order (numeric x) (numeric y) = x.order y := by
  simp [order, kind, numberPlace, mainText, tagText, Binary64.order, Ordering.then_eq]

end SortValue

end PagedTopK
