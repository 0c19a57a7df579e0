import PagedTopK.Proofs.Query.Conditions
import PagedTopK.Proofs.Strategy.Keyed
import PagedTopK.Query.Clauses

set_option autoImplicit false

/-!
# What a condition stands for

A condition keeps the text of its expression, which is read again in every row. That never fails,
and the value is that of the one expression that the text writes: the term that its variable is
bound to, or, with the function anywhere around it, the lexical form of that term in quotes.

The quotes are put around a lexical form as it is. Since a literal ends at its last quote, they are
what comes off again, whatever stands between them. So the function applied twice is the function
applied once, and its values are sorted as literals without tag.

## Main definitions

* `Term.quoted` — a text in quotes.
* `Term.codePoints` — the characters of a text as numbers.
* `OrderExpression.bound?` — the term that the variable of an expression is bound to.
* `OrderExpression.applications` — how often an expression applies the function.

## Main results

* `SortValue.ofText_quoted` — a text in quotes is sorted as a literal without tag.
* `OrderExpression.eval?_eq` — the value of an expression.
* `Query.condition_meaning` — the value of a condition of a query, and its place in the order.
-/

namespace PagedTopK

/-! ## Texts in quotes -/

namespace Term

/-- **A text in quotes.** -/
def quoted (text : String) : String := "\"" ++ text ++ "\""

variable (text : String)

lemma toList_quoted : (quoted text).toList = '"' :: (text.toList ++ ['"']) := by
  simp [quoted, String.toList_append]

/-- The quotes around a text are the first and the last one. -/
lemma quotedParts?_quoted : quotedParts? (quoted text).toList = some (text.toList, []) := by
  rw [toList_quoted]
  exact quotedParts?_append List.not_mem_nil

lemma bracketed?_quoted : bracketed? (quoted text).toList = none := by
  rw [toList_quoted]
  rfl

/-- **The quotes come off again.** -/
theorem lexicalForm_quoted : lexicalForm (quoted text) = text := by
  rw [lexicalForm, bracketed?_quoted, quotedParts?_quoted]
  exact String.ofList_toList

/-- **The characters of a text as numbers.** -/
def codePoints : List Nat := text.toList.map Char.toNat

/-- Texts are compared by their characters. -/
lemma lt_iff_codePoints_lt {a b : String} : a < b ↔ codePoints a < codePoints b := by
  have hlists (cs ds : List Char) : cs < ds ↔ cs.map Char.toNat < ds.map Char.toNat := by
    induction cs generalizing ds with
    | nil => cases ds <;> simp
    | cons c cs ih =>
      cases ds with
      | nil => simp
      | cons d ds =>
        rw [List.map_cons, List.map_cons, List.cons_lt_cons_iff, List.cons_lt_cons_iff, ih]
        exact or_congr Iff.rfl (and_congr Char.toNat_inj.symm Iff.rfl)
  rw [String.lt_iff_toList_lt, hlists, codePoints, codePoints]

end Term

open Term (quoted codePoints)

namespace SortValue

/-- **A text in quotes is sorted as a literal without tag**, whatever the text. -/
theorem ofText_quoted (text : String) : ofText (quoted text) = .literal text "" := by
  have hblank : Text.stripStart? "_:".toList (quoted text).toList = none := by
    rw [Term.toList_quoted]
    rfl
  have hscheme : hasIriScheme (quoted text).toList = false := by
    rw [Term.toList_quoted]
    rfl
  have htag : isNumericTag [] = false := rfl
  rw [ofText, hblank, Term.bracketed?_quoted, hscheme, ofLiteral, Term.quotedParts?_quoted]
  simp [htag]

/-- Literals without tag are ordered by their texts. -/
lemma order_literal (a b : String) : order (.literal a "") (.literal b "") = compare a b := by
  simp [order, kind, numberPlace, mainText, tagText]

/-- The order of texts is that of their characters. -/
lemma order_literal_eq_lt_iff {a b : String} :
    order (.literal a "") (.literal b "") = .lt ↔ codePoints a < codePoints b := by
  rw [order_literal, ← Term.lt_iff_codePoints_lt]
  exact compareOfLessAndEq_eq_lt

/-- Only a text itself has its place. -/
lemma order_literal_eq_eq_iff {a b : String} :
    order (.literal a "") (.literal b "") = .eq ↔ a = b := by
  rw [order_literal, Std.LawfulEqOrd.compare_eq_iff_eq]

end SortValue

/-! ## Values of expressions -/

namespace OrderExpression

/-- **The term that the variable of an expression is bound to**, with the question mark first and
then without. -/
def bound? (e : OrderExpression) (s : Solution) : Option String :=
  (s.get? ("?" ++ e.varName)).or (s.get? e.varName)

/-- **How often an expression applies the function.** -/
def applications : OrderExpression → Nat
  | var _ => 0
  | str inner => inner.applications + 1

/-- **The value of an expression**: the bound term, or its lexical form in quotes if the function is
applied at all. -/
theorem eval?_eq (e : OrderExpression) (s : Solution) :
    e.eval? s = if e.applications = 0 then e.bound? s
      else (e.bound? s).map fun term => quoted (Term.lexicalForm term) := by
  induction e with
  | var name => rfl
  | str inner ih =>
    rw [applications, if_neg (Nat.succ_ne_zero _), eval?, ih]
    change Option.map (fun term => quoted (Term.lexicalForm term)) _ =
      (inner.bound? s).map fun term => quoted (Term.lexicalForm term)
    split
    · rfl
    · -- The quotes of the inner application come off first.
      rw [Option.map_map]
      refine congrArg (Option.map · _) (funext fun term => ?_)
      rw [Function.comp_apply, Term.lexicalForm_quoted]

/-- Only an unbound variable has no value. -/
lemma eval?_eq_none_iff {e : OrderExpression} {s : Solution} :
    e.eval? s = none ↔ s.get? ("?" ++ e.varName) = none ∧ s.get? e.varName = none := by
  rw [eval?_eq, ← Option.or_eq_none_iff]
  split
  · rfl
  · exact Option.map_eq_none_iff

end OrderExpression

namespace OrderCondition

/-- The value of a condition is that of the expression that its text writes. -/
lemma eval?_of_written {condition : OrderCondition} {e : OrderExpression}
    (h : e.Written condition.expression.toList) (s : Solution) : condition.eval? s = e.eval? s := by
  rw [eval?, h.parse]

end OrderCondition

/-! ## Conditions of a query -/

namespace Query

/-- The text of a condition writes an expression. -/
lemma exists_expression_of_orderConditions {query : String} {conditions : List OrderCondition}
    (h : orderConditions query = .ok conditions) {condition : OrderCondition}
    (hmem : condition ∈ conditions) :
    ∃ e : OrderExpression, e.Written condition.expression.toList := by
  rcases orderConditions_cases h with rfl | ⟨-, clause, -, hclause⟩
  · cases hmem
  · obtain ⟨text, hwritten⟩ := (OrderCondition.allWritten_of_parseAll hclause).exists_written hmem
    exact hwritten.exists_expression

/-- **What a condition of a query stands for.** Its text writes one expression and no other, and in
every row the condition has the value of that: none exactly if the variable is not bound, with or
without its question mark; the bound term if the function is not applied; and the lexical form of
the bound term in quotes if it is, however often. In the order of rows such a value is a literal
without tag, so two of them compare as the code points of the lexical forms.

**Proof sketch.** What is read off a query is written, so the text of a condition is read again. The
value goes by induction on the expression: inside another application the quotes of the inner one
come off, since they are the first and the last. -/
theorem condition_meaning {query : String} {conditions : List OrderCondition}
    (h : orderConditions query = .ok conditions) {condition : OrderCondition}
    (hmem : condition ∈ conditions) :
    ∃ e : OrderExpression,
      (∀ other : OrderExpression, other.Written condition.expression.toList ↔ other = e) ∧
      (∀ s, condition.eval? s = none ↔
        s.get? ("?" ++ e.varName) = none ∧ s.get? e.varName = none) ∧
      (e.applications = 0 → ∀ s, condition.eval? s = e.bound? s) ∧
      (0 < e.applications →
        (∀ s, condition.eval? s =
          (e.bound? s).map fun term => quoted (Term.lexicalForm term)) ∧
        (∀ s term, e.bound? s = some term →
          SortValue.ofTerm (condition.eval? s) = .literal (Term.lexicalForm term) "") ∧
        ∀ s t a b, e.bound? s = some a → e.bound? t = some b →
          (SortValue.order (SortValue.ofTerm (condition.eval? s))
              (SortValue.ofTerm (condition.eval? t)) = .lt ↔
            codePoints (Term.lexicalForm a) < codePoints (Term.lexicalForm b)) ∧
          (SortValue.order (SortValue.ofTerm (condition.eval? s))
              (SortValue.ofTerm (condition.eval? t)) = .eq ↔
            Term.lexicalForm a = Term.lexicalForm b)) := by
  obtain ⟨e, he⟩ := exists_expression_of_orderConditions h hmem
  have hvalue (s : Solution) : condition.eval? s = e.eval? s := OrderCondition.eval?_of_written he s
  have hunique (other : OrderExpression) :
      other.Written condition.expression.toList ↔ other = e := by
    rw [← OrderExpression.parse_eq_ok_iff, he.parse, Except.ok.injEq, eq_comm]
  refine ⟨e, hunique, fun s => ?_, fun hplain s => ?_, fun happlied => ?_⟩
  · rw [hvalue, OrderExpression.eval?_eq_none_iff]
  · rw [hvalue, OrderExpression.eval?_eq, if_pos hplain]
  · have hquoted (s : Solution) : condition.eval? s =
        (e.bound? s).map fun term => quoted (Term.lexicalForm term) := by
      rw [hvalue, OrderExpression.eval?_eq, if_neg happlied.ne']
    have hkey (s : Solution) (term : String) (hterm : e.bound? s = some term) :
        SortValue.ofTerm (condition.eval? s) = .literal (Term.lexicalForm term) "" := by
      rw [hquoted, hterm, Option.map_some, SortValue.ofTerm, SortValue.ofText_quoted]
    refine ⟨hquoted, hkey, fun s t a b ha hb => ?_⟩
    rw [hkey s a ha, hkey t b hb]
    exact ⟨SortValue.order_literal_eq_lt_iff, SortValue.order_literal_eq_eq_iff⟩

/-- A condition that applies the function twice. -/
def nestedCalls : OrderCondition := ⟨"str( (STR(?x)) )", .ascending⟩

lemma toList_nestedCalls : nestedCalls.expression.toList =
    "str".toList ++ [] ++ '(' :: (" (STR(?x)) ".toList ++ [')']) := by
  decide +kernel

/-- The function of a variable, in parentheses and between blanks. -/
lemma written_parenthesizedCall :
    (OrderExpression.str (.var "x")).Written " (STR(?x)) ".toList := by
  have hvar : (OrderExpression.var "x").Written "?x".toList :=
    .var (.inl rfl) (List.cons_ne_nil _ _) (List.all_eq_true.1 (by decide +kernel))
  have hblank : ∀ c ∈ [' '], Text.isBlank c = true := List.forall_mem_singleton.2 (by decide)
  have hcall : (OrderExpression.str (.var "x")).Written
      ([' '] ++ '(' :: ("STR".toList ++ [] ++ '(' :: ("?x".toList ++ [')']) ++ [')']) ++ [' ']) :=
    .padded hblank hblank (.group (.str (by decide) (List.forall_mem_nil _) hvar))
  have htext : " (STR(?x)) ".toList =
      [' '] ++ '(' :: ("STR".toList ++ [] ++ '(' :: ("?x".toList ++ [')']) ++ [')']) ++ [' '] := by
    decide +kernel
  rwa [htext]

/-- The condition is read off a query. -/
lemma orderConditions_nestedCalls :
    orderConditions "SELECT ?x WHERE \x7b ?s ?p ?x \x7d ORDER BY str( (STR(?x)) )" =
      .ok [nestedCalls] := by
  have hsearch : search orderBy
      (tail "SELECT ?x WHERE \x7b ?s ?p ?x \x7d ORDER BY str( (STR(?x)) )") =
        some (1, ' ' :: nestedCalls.expression.toList) := by decide +kernel
  have hbefore : beforeModifier? (' ' :: nestedCalls.expression.toList) = none := by
    decide +kernel
  have hword : "str".toList.map Char.toLower = "str".toList := by decide
  have hcall := OrderCondition.Written.str hword (List.forall_mem_nil _) written_parenthesizedCall
  rw [← toList_nestedCalls, String.ofList_toList] at hcall
  have hclause : OrderCondition.AllWritten [nestedCalls] (' ' :: nestedCalls.expression.toList) :=
    .blank (by decide) (.single hcall)
  rw [orderConditions, hsearch]
  simp only [hbefore, Option.getD_none, hclause.parseAll]

/-- **The function applied twice to a number** gives its digits in quotes, which are sorted as a
literal. -/
theorem condition_meaning_of_nestedCalls :
    let row := Solution.ofList [("x", "\"7\"^^xsd:integer")]
    orderConditions "SELECT ?x WHERE \x7b ?s ?p ?x \x7d ORDER BY str( (STR(?x)) )" =
      .ok [nestedCalls] ∧
    nestedCalls ∈ [nestedCalls] ∧
    nestedCalls.eval? row = some "\"7\"" ∧
    SortValue.ofTerm (nestedCalls.eval? row) = .literal "7" "" := by
  intro row
  have hmem : nestedCalls ∈ [nestedCalls] := List.mem_singleton_self _
  obtain ⟨e, hunique, -, -, happlied⟩ := condition_meaning orderConditions_nestedCalls hmem
  have htree : (OrderExpression.str (.str (.var "x"))).Written nestedCalls.expression.toList := by
    rw [toList_nestedCalls]
    exact .str (by decide) (List.forall_mem_nil _) written_parenthesizedCall
  obtain rfl := (hunique _).1 htree
  obtain ⟨hvalue, hkey, -⟩ := happlied (by decide)
  have hbound : (OrderExpression.str (.str (.var "x"))).bound? row =
      some "\"7\"^^xsd:integer" := by decide +kernel
  refine ⟨orderConditions_nestedCalls, hmem, ?_, ?_⟩
  · rw [hvalue, hbound]
    decide +kernel
  · rw [hkey row _ hbound]
    decide +kernel

end Query

end PagedTopK
