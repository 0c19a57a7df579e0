import PagedTopK.Query.Error
import PagedTopK.Ranking.Key
import PagedTopK.Text.Alphanumeric

set_option autoImplicit false

/-!
# Order conditions

The body of an `ORDER BY` clause is a sequence of conditions. A condition is a bare variable, or a
group in parentheses with an optional word before it. The word `ASC` or `DESC` gives the direction
of what the group holds; any other word is part of the expression. An expression is a variable,
`STR` of an expression, or an expression in parentheses.

## Main definitions

* `OrderExpression` — what a condition computes from a solution.
* `OrderExpression.parse` — the expression that a text writes.
* `OrderExpression.eval?` — its value in a solution.
* `OrderCondition.parseAll` — the conditions of an order clause.
-/

namespace PagedTopK

/-- **An order expression.** -/
inductive OrderExpression where
  /-- A variable, by its name without sign. -/
  | var (name : String)
  /-- The lexical form of an expression. -/
  | str (of : OrderExpression)
deriving DecidableEq

namespace OrderExpression

/-! ## Parts of an expression -/

/-- The name after the sign of a variable. -/
def afterSign? : List Char → Option (List Char)
  | '?' :: name => some name
  | '$' :: name => some name
  | _ => none

/-- What stands between the parentheses that open and end a text. -/
def enclosed? : List Char → Option (List Char)
  | '(' :: rest => Text.stripEnd? ')' rest
  | _ => none

/-- A function and its argument: the text before the first parenthesis, and what stands between it
and a parenthesis at the end. -/
def call? (text : List Char) : Option (List Char × List Char) :=
  match text.dropWhile (· ≠ '(') with
  | _ :: rest => (Text.stripEnd? ')' rest).map (text.takeWhile (· ≠ '('), ·)
  | [] => none

theorem length_dropWhileEnd_le (p : Char → Bool) (cs : List Char) :
    (Text.dropWhileEnd p cs).length ≤ cs.length := by
  have h := (List.dropWhile_suffix (l := cs.reverse) p).length_le
  simpa [Text.dropWhileEnd] using h

theorem length_trim_le (cs : List Char) : (Text.trim cs).length ≤ cs.length :=
  Nat.le_trans (length_dropWhileEnd_le _ _) (List.dropWhile_suffix _).length_le

theorem length_of_stripEnd? {last : Char} {cs inner : List Char}
    (h : Text.stripEnd? last cs = some inner) : inner.length ≤ cs.length := by
  unfold Text.stripEnd? at h
  split at h
  · cases h
    simp
  · cases h

theorem length_of_enclosed? {text inner : List Char} (h : enclosed? text = some inner) :
    inner.length < text.length := by
  unfold enclosed? at h
  split at h
  · exact Nat.lt_succ_of_le (length_of_stripEnd? h)
  · cases h

theorem length_of_call? {text function argument : List Char}
    (h : call? text = some (function, argument)) : argument.length < text.length := by
  unfold call? at h
  split at h
  · next heq =>
    obtain ⟨inner, hinner, hpair⟩ := Option.map_eq_some_iff.1 h
    cases hpair
    have hlen := (List.dropWhile_suffix (l := text) (· ≠ '(')).length_le
    rw [heq, List.length_cons] at hlen
    have := length_of_stripEnd? hinner
    omega
  · cases h

/-! ## Reading -/

/-- **The expression that a text writes.** The text is trimmed at every level, and a refusal names
the trimmed text of the level that is not understood. -/
def parse (text : List Char) : Except QueryError OrderExpression :=
  let trimmed := Text.trim text
  let refused := QueryError.unsupported (String.ofList trimmed)
  match afterSign? trimmed with
  | some name =>
    if name ≠ [] ∧ name.all Text.isNameChar then .ok (var (String.ofList name))
    else .error refused
  | none =>
    match _hin : enclosed? trimmed with
    | some inner => parse inner
    | none =>
      match _hcall : call? trimmed with
      | some (function, argument) =>
        if (Text.trim function).map Char.toLower = "str".toList then (parse argument).map str
        else .error refused
      | none => .error refused
termination_by text.length
decreasing_by
  · exact Nat.lt_of_lt_of_le (length_of_enclosed? _hin) (length_trim_le text)
  · exact Nat.lt_of_lt_of_le (length_of_call? _hcall) (length_trim_le text)

/-! ## Evaluation -/

/-- **The value of an expression in a solution.** A variable is looked up with its question mark
first and then without; the lexical form of a term is quoted. -/
def eval? (s : Solution) : OrderExpression → Option String
  | var name => (s.get? ("?" ++ name)).or (s.get? name)
  | str inner => (inner.eval? s).map fun term => "\"" ++ Term.lexicalForm term ++ "\""

end OrderExpression

/-- **An order condition**: the text of its expression and its direction. -/
structure OrderCondition where
  /-- The expression as written, without the word for its direction. -/
  expression : String
  /-- The direction. -/
  direction : Direction
deriving DecidableEq

namespace OrderCondition

/-- A condition whose expression is understood. -/
def ofText (expression : List Char) (direction : Direction) : Except QueryError OrderCondition :=
  (OrderExpression.parse expression).map fun _ => ⟨String.ofList expression, direction⟩

/-- The value of a condition in a solution; none if the expression is not understood or holds an
unbound variable. -/
def eval? (condition : OrderCondition) (s : Solution) : Option String :=
  match OrderExpression.parse condition.expression.toList with
  | .ok e => e.eval? s
  | .error _ => none

/-- **Close a group**: the text up to the parenthesis that closes it and the text after that;
`depth` groups are open inside it. -/
def closeGroup? : Nat → List Char → Option (List Char × List Char)
  | _, [] => none
  | depth, c :: cs =>
    if c = ')' then
      match depth with
      | 0 => some ([], cs)
      | d + 1 => (closeGroup? d cs).map fun r => (c :: r.1, r.2)
    else
      (closeGroup? (if c = '(' then depth + 1 else depth) cs).map fun r => (c :: r.1, r.2)

theorem length_of_closeGroup? {depth : Nat} {cs inside rest : List Char}
    (h : closeGroup? depth cs = some (inside, rest)) : rest.length < cs.length := by
  induction cs generalizing depth inside rest with
  | nil => simp [closeGroup?] at h
  | cons c cs ih =>
    unfold closeGroup? at h
    split at h
    · split at h
      · cases h
        simp
      · obtain ⟨r, hr, heq⟩ := Option.map_eq_some_iff.1 h
        cases heq
        exact Nat.lt_succ_of_lt (ih hr)
    · obtain ⟨r, hr, heq⟩ := Option.map_eq_some_iff.1 h
      cases heq
      exact Nat.lt_succ_of_lt (ih hr)

/-- A group with the word before it, as a condition. -/
def ofGroup (word gap inside : List Char) : Except QueryError OrderCondition :=
  match Direction.ofName? (String.ofList word) with
  | some direction => ofText (Text.trim inside) direction
  | none => ofText (Text.trim (word ++ gap ++ '(' :: inside ++ [')'])) .ascending

/-- **The conditions of an order clause**, in order. The first fault is the one reported. -/
def parseAll (clause : List Char) : Except QueryError (List OrderCondition) :=
  match clause with
  | [] => .ok []
  | c :: cs =>
    if Text.isBlank c then parseAll cs
    else if c = '?' ∨ c = '$' then
      match ofText (c :: cs.takeWhile Text.isNameChar) .ascending with
      | .error e => .error e
      | .ok condition => (parseAll (cs.dropWhile Text.isNameChar)).map (condition :: ·)
    else
      let word := (c :: cs).takeWhile Text.isNameChar
      let after := (c :: cs).dropWhile Text.isNameChar
      match _hopen : after.dropWhile Text.isBlank with
      | '(' :: body =>
        match _hclose : closeGroup? 0 body with
        | none => .error .unbalanced
        | some (inside, rest) =>
          match ofGroup word (after.takeWhile Text.isBlank) inside with
          | .error e => .error e
          | .ok condition => (parseAll rest).map (condition :: ·)
      | _ => .error (.unexpectedToken (String.ofList (Text.trim (c :: cs))))
termination_by clause.length
decreasing_by
  · simp
  · exact Nat.lt_succ_of_le (List.dropWhile_suffix _).length_le
  · have h1 := length_of_closeGroup? _hclose
    have h2 := (List.dropWhile_suffix (l := after) Text.isBlank).length_le
    have h3 := (List.dropWhile_suffix (l := c :: cs) Text.isNameChar).length_le
    rw [_hopen, List.length_cons] at h2
    simp only [after] at h2 h3 ⊢
    omega

end OrderCondition

end PagedTopK
