import PagedTopK.Proofs.Query.Offsets
import PagedTopK.Proofs.Query.Projection
import PagedTopK.Proofs.Query.Remainder

set_option autoImplicit false

/-!
# Queries read by offsets

The operations on a query cut it at places of three kinds: behind the last closing brace, where a
pattern matches in a part of the query, and where characters with some number begin. They are
written here with all their cuts as slices between bytes. A place found in a part counts from the
start of the part, so it is a place of the query only together with the place of the part.

## Main definitions

* `Query.ByOffset.tailStart`, `Query.ByOffset.modifierStart?`, `Query.ByOffset.limitSpan?`,
  `Query.ByOffset.projectionSpan?` — the places.
* `Query.ByOffset.orderConditions`, `Query.ByOffset.limit?`, `Query.ByOffset.withoutModifiers`,
  `Query.ByOffset.setLimit`, `Query.ByOffset.projectAll`, `Query.ByOffset.eval?` — the operations.

## Main results

* `Query.ByOffset.operations_defined` — every operation has a value on every text.
-/

namespace PagedTopK.Query.ByOffset

open Text (byteLength slice lastOffset?)

/-! ## Places -/

/-- Where solution modifiers are looked for: behind the last closing brace. -/
def tailStart (query : List Char) : ℕ := (lastOffset? '\x7d' query).elim 0 (· + 1)

/-- The byte at which the last part of a text begins. -/
def restStart (text rest : List Char) : ℕ := byteLength text - byteLength rest

/-- Where the first solution modifier begins. -/
def modifierStart? (text : List Char) : Option ℕ :=
  (search modifier text).map fun found => byteLength (text.take found.1)

/-- **Where a limit stands**: the place before the character that has to stand before the keyword,
where the keyword begins, where its number begins, and where it ends. -/
structure LimitSpan where
  /-- The start of the match. -/
  start : ℕ
  /-- The start of the keyword. -/
  keyword : ℕ
  /-- The start of the number. -/
  number : ℕ
  /-- The end of the match. -/
  stop : ℕ

/-- Where the first limit stands. -/
def limitSpan? (text : List Char) : Option LimitSpan :=
  (search limit text).map fun (place, digits, rest) =>
    { start := byteLength (text.take (place - 1))
      keyword := byteLength (text.take place)
      number := restStart text (digits ++ rest)
      stop := restStart text rest }

/-- Where the projection begins and ends. -/
def projectionSpan? (query : List Char) : Option (ℕ × ℕ) :=
  (search select query).map fun (_, body, length) =>
    (restStart query body, restStart query (body.drop length))

/-! ## Operations -/

/-- The text behind the last closing brace. -/
def tail (query : String) : Part (List Char) :=
  slice query.toList (tailStart query.toList) (byteLength query.toList)

/-- The order conditions of a query. -/
def orderConditions (query : String) : Part (Except QueryError (List OrderCondition)) := do
  let tail ← tail query
  match search orderBy tail with
  | none => return .ok []
  | some (_, rest) =>
    let clause ← slice tail (restStart tail rest) (byteLength tail)
    let body ← slice clause 0 ((modifierStart? clause).getD (byteLength clause))
    match ← splitConditions body with
    | .ok [] => return .error .noConditions
    | result => return result

/-- The limit of a query. -/
def limit? (query : String) : Part (Except QueryError (Option ℕ)) := do
  let tail ← tail query
  match limitSpan? tail with
  | none => return .ok none
  | some span =>
    let digits ← slice tail span.number span.stop
    match Digits.natBelow? Digits.word64 digits with
    | some n => return .ok (some n)
    | none => return .error (.limitTooLarge (String.ofList digits))

/-- A query without its solution modifiers. -/
def withoutModifiers (query : String) : Part String := do
  let tail ← tail query
  match modifierStart? tail with
  | none => return query
  | some modifier =>
    let kept ← slice query.toList 0 (tailStart query.toList + modifier)
    return String.ofList (Text.trimEnd kept)

/-- A text without its first limit. The character before the keyword is cut out with it and put
back. -/
def withoutLimit (text : List Char) : Part (List Char) :=
  match limitSpan? text with
  | none => return text
  | some span => do
    let front ← slice text 0 span.start
    let before ← slice text span.start span.keyword
    let rest ← slice text span.stop (byteLength text)
    return front ++ before ++ rest

/-- A query with another limit. -/
def setLimit (query : String) (n : ℕ) : Part String := do
  let head ← slice query.toList 0 (tailStart query.toList)
  let tail ← tail query
  let without ← withoutLimit tail
  return String.ofList (Text.trimEnd (head ++ Text.trimEnd without)) ++ " LIMIT " ++ Digits.text n

/-- A query that asks for every bound variable. -/
def projectAll (query : String) : Part (Except QueryError String) :=
  match projectionSpan? query.toList with
  | none => return .error .noProjection
  | some (start, stop) => do
    let front ← slice query.toList 0 start
    let back ← slice query.toList stop (byteLength query.toList)
    return .ok (String.ofList (front ++ '*' :: back))

/-- The two parts of a quoted literal. -/
def quotedParts? : List Char → Part (Option (List Char × List Char))
  | '"' :: rest =>
    match lastOffset? '"' rest with
    | none => return none
    | some closing => do
      let lexical ← slice rest 0 closing
      let tag ← slice rest (closing + 1) (byteLength rest)
      return some (lexical, tag)
  | _ => return none

/-- The lexical form of a term. -/
def lexicalForm (term : String) : Part String :=
  match Term.bracketed? term.toList with
  | some iri => return String.ofList iri
  | none => do
    match ← quotedParts? term.toList with
    | some (lexical, _) => return String.ofList lexical
    | none => return term

/-- The value of an expression in a solution. -/
def valueIn? (s : Solution) : OrderExpression → Part (Option String)
  | .var name => return (s.get? ("?" ++ name)).or (s.get? name)
  | .str inner => do
    match ← valueIn? s inner with
    | none => return none
    | some term =>
      let lexical ← lexicalForm term
      return some ("\"" ++ lexical ++ "\"")

/-- The value of a condition in a solution. -/
def eval? (condition : OrderCondition) (s : Solution) : Part (Option String) := do
  match ← parseExpression condition.expression.toList with
  | .ok e => valueIn? s e
  | .error _ => return none

/-! ## Parts of a query -/

lemma restStart_append (front rest : List Char) :
    restStart (front ++ rest) rest = byteLength front := by
  rw [restStart, Text.byteLength_append, Nat.add_sub_cancel]

/-- A part of a text with only the rest behind it is a slice of it. -/
lemma slice_rests {text middle rest : List Char} (h : middle ++ rest <:+ text) :
    slice text (restStart text (middle ++ rest)) (restStart text rest) = Part.some middle := by
  obtain ⟨front, rfl⟩ := h
  rw [restStart_append, ← List.append_assoc, restStart_append, List.append_assoc]
  exact Text.slice_eq_some rfl rfl rfl

/-- So is the last part of a text. -/
lemma slice_rest {text rest : List Char} (h : rest <:+ text) :
    slice text (restStart text rest) (byteLength text) = Part.some rest := by
  obtain ⟨front, rfl⟩ := h
  rw [restStart_append, Text.slice_back]

/-- Behind the last closing brace a character begins, or the query ends. -/
lemma tailStart_append {head text : List Char} (hhead : ∀ c ∈ head.getLast?, c = '\x7d')
    (htext : '\x7d' ∉ text) : tailStart (head ++ text) = byteLength head := by
  cases hlast : head.getLast? with
  | none =>
    rw [List.getLast?_eq_none_iff.1 hlast, List.nil_append, tailStart,
      Text.lastOffset?_eq_none htext]
    rfl
  | some c =>
    obtain rfl := hhead c hlast
    obtain ⟨front, rfl⟩ := List.getLast?_eq_some_iff.1 hlast
    rw [List.append_assoc, tailStart, List.singleton_append, Text.lastOffset?_append htext,
      Text.byteLength_append]
    rfl

/-- **The two parts of a query**, and where the second one begins. -/
lemma exists_parts (query : String) : ∃ head text, query.toList = head ++ text ∧
    splitTail query.toList = (head, text) ∧ tailStart query.toList = byteLength head := by
  obtain ⟨head, text, hquery, hsplit, hhead, htext⟩ := exists_splitTail query
  have hlist : query.toList = head ++ text := by rw [hquery, String.toList_ofList]
  exact ⟨head, text, hlist, hsplit, by rw [hlist, tailStart_append hhead htext]⟩

/-- **The text behind the last closing brace** is a slice of the query. -/
lemma tail_eq (query : String) : tail query = Part.some (Query.tail query) := by
  obtain ⟨head, text, hquery, hsplit, hstart⟩ := exists_parts query
  rw [tail, hstart, Query.tail, hsplit, hquery, Text.slice_back]

/-! ## Places of matches -/

section Matches

variable {text : List Char} {place : ℕ}

/-- The first modifier begins behind what stands before it. -/
lemma modifierStart?_eq (text : List Char) :
    modifierStart? text = (beforeModifier? text).map byteLength := by
  rw [modifierStart?, beforeModifier?, Option.map_map]
  rfl

/-- What stands before the first modifier begins the text. -/
lemma prefix_of_beforeModifier? {before : List Char} (h : beforeModifier? text = some before) :
    before <+: text := by
  obtain ⟨found, -, rfl⟩ := Option.map_eq_some_iff.1 h
  exact List.take_prefix _ _

/-- What stands behind the keyword of an order clause ends the text. -/
lemma suffix_of_search_orderBy {rest : List Char} (h : search orderBy text = some (place, rest)) :
    rest <:+ text := by
  obtain ⟨front, back, rfl, -, hmatch⟩ := exists_of_search h
  obtain ⟨-, hwords, -⟩ := orderBy_eq_some_iff.1 hmatch
  obtain ⟨gap, second, hfirst, hgap, hsecond⟩ := exists_of_stripTwoWords? hwords
  obtain ⟨spelling, -, rfl⟩ := stripWord?_eq_some_iff.1 hfirst
  obtain ⟨spaces, rfl, -⟩ := exists_of_stripSpaces? hgap
  obtain ⟨spelling', -, rfl⟩ := stripWord?_eq_some_iff.1 hsecond
  exact ⟨front ++ spelling ++ spaces ++ spelling', by simp only [List.append_assoc]⟩

/-- The number of a limit and what stands behind it end the text. -/
lemma suffix_of_search_limit {digits rest : List Char}
    (h : search limit text = some (place, digits, rest)) : digits ++ rest <:+ text := by
  obtain ⟨front, back, rfl, -, hmatch⟩ := exists_of_search h
  obtain ⟨-, gap, number, hword, hgap, rfl, -, rfl⟩ := limit_eq_some_iff.1 hmatch
  obtain ⟨spelling, -, rfl⟩ := stripWord?_eq_some_iff.1 hword
  obtain ⟨spaces, rfl, -⟩ := exists_of_stripSpaces? hgap
  rw [List.takeWhile_append_dropWhile]
  exact ⟨front ++ spelling ++ spaces, by simp only [List.append_assoc]⟩

lemma suffix_of_afterDuplicates? {rest : List Char} (h : afterDuplicates? text = some rest) :
    rest <:+ text := by
  obtain ⟨gap, hword, hgap⟩ := Option.bind_eq_some_iff.1 h
  have hsuffix : gap <:+ text := by
    rcases Option.or_eq_some_iff.1 hword with hword | ⟨-, hword⟩
    all_goals
      obtain ⟨spelling, -, rfl⟩ := stripWord?_eq_some_iff.1 hword
      exact List.suffix_append _ _
  obtain ⟨spaces, rfl, -⟩ := exists_of_stripSpaces? hgap
  exact (List.suffix_append spaces rest).trans hsuffix

/-- The projection and what stands behind it end the query. -/
lemma suffix_of_search_select {body : List Char} {length : ℕ}
    (h : search select text = some (place, body, length)) : body <:+ text := by
  obtain ⟨front, back, rfl, -, hmatch⟩ := exists_of_search h
  obtain ⟨-, gap, rest, hword, hgap, rfl, -⟩ := select_eq_some_iff.1 hmatch
  obtain ⟨spelling, -, rfl⟩ := stripWord?_eq_some_iff.1 hword
  obtain ⟨spaces, rfl, -⟩ := exists_of_stripSpaces? hgap
  have hrest : rest <:+ front ++ (spelling ++ (spaces ++ rest)) :=
    ⟨front ++ spelling ++ spaces, by simp only [List.append_assoc]⟩
  cases hmore : afterDuplicates? rest with
  | none => exact hrest
  | some more => exact (suffix_of_afterDuplicates? hmore).trans hrest

end Matches

/-! ## Values -/

section Values

variable (query : String)

/-- **The order conditions read by offsets** are those that are read without. -/
theorem orderConditions_eq :
    orderConditions query = Part.some (Query.orderConditions query) := by
  rw [orderConditions, tail_eq, Part.bind_eq_bind, Part.bind_some, Query.orderConditions]
  cases hsearch : search orderBy (Query.tail query) with
  | none => rfl
  | some found =>
    obtain ⟨place, clause⟩ := found
    have hbody : slice clause 0 ((modifierStart? clause).getD (byteLength clause)) =
        Part.some ((beforeModifier? clause).getD clause) := by
      rw [modifierStart?_eq]
      cases hbefore : beforeModifier? clause with
      | none =>
        have hwhole := Text.slice_front clause []
        rwa [List.append_nil] at hwhole
      | some before =>
        obtain ⟨behind, rfl⟩ := prefix_of_beforeModifier? hbefore
        exact Text.slice_front before behind
    simp only [slice_rest (suffix_of_search_orderBy hsearch), hbody, splitConditions_eq,
      Part.bind_eq_bind, Part.bind_some]
    generalize OrderCondition.parseAll ((beforeModifier? clause).getD clause) = result
    rcases result with e | _ | ⟨condition, more⟩ <;> rfl

/-- **The limit read by offsets** is the one that is read without. -/
theorem limit?_eq : limit? query = Part.some (Query.limit? query) := by
  rw [limit?, tail_eq, Part.bind_eq_bind, Part.bind_some, Query.limit?, limitSpan?]
  cases hsearch : search limit (Query.tail query) with
  | none => rfl
  | some found =>
    obtain ⟨place, digits, rest⟩ := found
    simp only [Option.map_some, slice_rests (suffix_of_search_limit hsearch), Part.bind_eq_bind,
      Part.bind_some]
    cases Digits.natBelow? Digits.word64 digits <;> rfl

/-- **The cut at the first modifier** is a place of the query. -/
theorem withoutModifiers_eq :
    withoutModifiers query = Part.some (Query.withoutModifiers query) := by
  obtain ⟨head, text, hquery, hsplit, hstart⟩ := exists_parts query
  rw [withoutModifiers, tail_eq, Part.bind_eq_bind, Part.bind_some, Query.withoutModifiers, hstart,
    Query.tail, hsplit, modifierStart?_eq]
  cases hbefore : beforeModifier? text with
  | none =>
    simp only [hbefore]
    rfl
  | some before =>
    obtain ⟨behind, rfl⟩ := prefix_of_beforeModifier? hbefore
    have hkept : slice query.toList 0 (byteLength head + byteLength before) =
        Part.some (head ++ before) := by
      rw [hquery, ← List.append_assoc, ← Text.byteLength_append, Text.slice_front]
    simp only [hbefore, Option.map_some, hkept, Part.bind_eq_bind, Part.bind_some]
    rfl

/-- **The cuts at a limit** are places of the text. -/
lemma withoutLimit_eq (text : List Char) :
    withoutLimit text = Part.some
      (match search limit text with
      | none => text
      | some (start, _, rest) => text.take start ++ rest) := by
  rw [withoutLimit, limitSpan?]
  cases hsearch : search limit text with
  | none => rfl
  | some found =>
    obtain ⟨place, digits, rest⟩ := found
    have hfront := Text.slice_take (Nat.zero_le (place - 1)) text
    have hbefore := Text.slice_take (Nat.sub_le place 1) text
    have hrest : slice text (restStart text rest) (byteLength text) = Part.some rest :=
      slice_rest ((List.suffix_append digits rest).trans (suffix_of_search_limit hsearch))
    have htake : text.take (place - 1) ++ (text.take place).drop (place - 1) = text.take place := by
      conv_rhs => rw [← List.take_append_drop (place - 1) (text.take place), List.take_take,
        Nat.min_eq_left (Nat.sub_le place 1)]
    rw [List.take_zero, Text.byteLength_nil, List.drop_zero] at hfront
    simp only [Option.map_some, hfront, hbefore, hrest, Part.bind_eq_bind, Part.bind_some]
    rw [htake]
    rfl

/-- **A limit set by offsets** is set as it is without. -/
theorem setLimit_eq (n : ℕ) : setLimit query n = Part.some (Query.setLimit query n) := by
  obtain ⟨head, text, hquery, hsplit, hstart⟩ := exists_parts query
  have hhead : slice query.toList 0 (tailStart query.toList) = Part.some head := by
    rw [hstart, hquery, Text.slice_front]
  rw [setLimit, hhead, tail_eq, Query.setLimit, Query.tail, hsplit]
  simp only [withoutLimit_eq, Part.bind_eq_bind, Part.bind_some]
  rfl

/-- **The ends of a projection** are places of the query. -/
theorem projectAll_eq : projectAll query = Part.some (Query.projectAll query) := by
  rw [projectAll, projectionSpan?, Query.projectAll]
  cases hsearch : search select query.toList with
  | none => rfl
  | some found =>
    obtain ⟨place, body, length⟩ := found
    obtain ⟨front, hquery⟩ := suffix_of_search_select hsearch
    have hback := slice_rest ((List.drop_suffix length body).trans ⟨front, hquery⟩)
    have hfront : slice query.toList 0 (restStart query.toList body) = Part.some front := by
      rw [← hquery, restStart_append, Text.slice_front]
    have htake : query.toList.take (query.toList.length - body.length) = front := by
      rw [← hquery, List.length_append, Nat.add_sub_cancel, List.take_left]
    simp only [Option.map_some, hfront, hback, htake, Part.bind_eq_bind, Part.bind_some]
    rfl

end Values

/-! ## Evaluation -/

lemma quotedParts?_eq (term : List Char) :
    quotedParts? term = Part.some (Term.quotedParts? term) := by
  unfold quotedParts?
  split
  · next rest =>
    by_cases hquote : '"' ∈ rest
    · obtain ⟨tag, lexical, hreverse, htag⟩ :=
        List.eq_append_cons_of_mem (List.mem_reverse.2 hquote)
      have hrest : rest = lexical.reverse ++ '"' :: tag.reverse := by
        rw [← List.reverse_reverse rest, hreverse]
        simp
      have hquote : '"' ∉ tag.reverse := by rwa [List.mem_reverse]
      obtain ⟨hlexical, hbehind⟩ := Text.slices_around hrest (by decide)
      have hoffset := Text.lastOffset?_append hquote lexical.reverse
      rw [← hrest] at hoffset
      simp only [hoffset, hlexical, hbehind, Part.bind_eq_bind, Part.bind_some]
      rw [hrest, Term.quotedParts?_append hquote]
      rfl
    · have hdrop : rest.reverse.dropWhile (· ≠ '"') = [] := by
        rw [List.dropWhile_eq_nil_iff]
        intro c hc
        rw [decide_eq_true_eq]
        rintro rfl
        exact hquote (List.mem_reverse.1 hc)
      simp only [Text.lastOffset?_eq_none hquote, Term.quotedParts?, hdrop]
      rfl
  · next hplain =>
    rw [Term.quotedParts?]
    · rfl
    · exact hplain

lemma lexicalForm_eq (term : String) : lexicalForm term = Part.some (Term.lexicalForm term) := by
  rw [lexicalForm, Term.lexicalForm]
  cases Term.bracketed? term.toList with
  | some iri => rfl
  | none =>
    simp only [quotedParts?_eq, Part.bind_eq_bind, Part.bind_some]
    cases Term.quotedParts? term.toList <;> rfl

lemma valueIn?_eq (s : Solution) (e : OrderExpression) :
    valueIn? s e = Part.some (e.eval? s) := by
  induction e with
  | var name => rfl
  | str inner ih =>
    rw [valueIn?, ih, Part.bind_eq_bind, Part.bind_some, OrderExpression.eval?]
    cases inner.eval? s with
    | none => rfl
    | some term =>
      simp only [lexicalForm_eq, Part.bind_eq_bind, Part.bind_some]
      rfl

/-- **A condition evaluated by offsets** has the value that it has without. -/
theorem eval?_eq (condition : OrderCondition) (s : Solution) :
    eval? condition s = Part.some (condition.eval? s) := by
  rw [eval?, parseExpression_eq, Part.bind_eq_bind, Part.bind_some, OrderCondition.eval?]
  cases OrderExpression.parse condition.expression.toList with
  | ok e => exact valueIn?_eq s e
  | error e => rfl

/-- **Every operation has a value on every text.** For any query, however malformed, any limit, any
condition and any solution: all loops of the operations end, all their slices exist, and no group is
closed that is not open; and the values are those of the operations without offsets.

**Proof sketch.** A loop ends because every step of it leaves less to read
(`fix_eq_some`), and the count of open groups stays above zero inside a group
(`progresses_closingStep`). A slice exists because its ends are the ends of parts of the text: the
parts around a character that is found, around a match, or between characters of some number. -/
theorem operations_defined (query : String) (n : ℕ) (condition : OrderCondition) (s : Solution) :
    orderConditions query = Part.some (Query.orderConditions query) ∧
      limit? query = Part.some (Query.limit? query) ∧
      withoutModifiers query = Part.some (Query.withoutModifiers query) ∧
      setLimit query n = Part.some (Query.setLimit query n) ∧
      projectAll query = Part.some (Query.projectAll query) ∧
      eval? condition s = Part.some (condition.eval? s) :=
  ⟨orderConditions_eq query, limit?_eq query, withoutModifiers_eq query, setLimit_eq query n,
    projectAll_eq query, eval?_eq condition s⟩

end PagedTopK.Query.ByOffset
