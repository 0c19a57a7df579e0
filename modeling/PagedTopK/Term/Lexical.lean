import PagedTopK.Text.Blank

set_option autoImplicit false

/-!
# Written forms of terms

A term of a result is text: a blank node `_:label`, an IRI in angle brackets or bare, a literal in
double quotes with an optional datatype or language tag, or plain text. A quoted literal ends at
the last quote of the term, so its lexical form may hold quotes.

## Main definitions

* `Term.quotedParts?` — the lexical form and the tag of a quoted literal.
* `Term.bracketed?` — the IRI between angle brackets.
* `Term.lexicalForm` — the text of a term without brackets, quotes and tag.
* `Term.unquoted` — a literal without tag, freed of its quotes; any other term as it is.
-/

namespace PagedTopK.Term

/-- **The two parts of a quoted literal**: what stands between the first and the last quote, and
the tag after the last quote. -/
def quotedParts? : List Char → Option (List Char × List Char)
  | '"' :: rest =>
    let backward := rest.reverse
    match backward.dropWhile (· ≠ '"') with
    | _ :: lexical => some (lexical.reverse, (backward.takeWhile (· ≠ '"')).reverse)
    | [] => none
  | _ => none

/-- The text between angle brackets that enclose a term. -/
def bracketed? : List Char → Option (List Char)
  | '<' :: rest => Text.stripEnd? '>' rest
  | _ => none

/-- **The lexical form of a term**, as the query function `STR` gives it. -/
def lexicalForm (term : String) : String :=
  match bracketed? term.toList with
  | some iri => String.ofList iri
  | none =>
    match quotedParts? term.toList with
    | some (lexical, _) => String.ofList lexical
    | none => term

/-- **A term without its quotes**, if it starts and ends with one; any other term as it is. -/
def unquoted (term : String) : String :=
  match term.toList with
  | '"' :: rest =>
    match Text.stripEnd? '"' rest with
    | some inner => String.ofList inner
    | none => term
  | _ => term

/-- A literal in quotes is read back, with any quotes inside it, if the tag holds no quote. -/
theorem quotedParts?_append {lexical tag : List Char} (h : '"' ∉ tag) :
    quotedParts? ('"' :: (lexical ++ '"' :: tag)) = some (lexical, tag) := by
  have hall : ∀ c ∈ tag.reverse, decide (c ≠ '"') = true := fun c hc => by
    have : c ≠ '"' := fun he => h (he ▸ List.mem_reverse.1 hc)
    simpa using this
  simp only [quotedParts?, List.reverse_append, List.reverse_cons, List.append_assoc,
    List.dropWhile_append_of_pos hall, List.takeWhile_append_of_pos hall]
  simp

end PagedTopK.Term
