import PagedTopK.Proofs.Query.Conditions

set_option autoImplicit false

/-!
# Keywords in the names of variables

A variable is a sign and the longest run of characters of names behind it, in any script. The
patterns for keywords look at one character before the keyword, and tell words of ASCII only. So a
keyword inside a variable is passed over exactly if an ASCII character or, for modifiers, the sign
goes before it.

## Main definitions

* `Query.CutsVariable` — a cut of a text that goes through a variable.
* `Query.EndsBeyondAscii`, `Query.EndsInSign` — what may stand before such a cut.

## Main results

* `Query.modifier_of_cutsVariable`, `Query.limit_of_cutsVariable`, `Query.orderBy_of_cutsVariable` —
  when a keyword is read inside a variable.
* `Query.keywords_in_variables` — what this does to the operations on a query.
* `Query.keyword_splits_variable` — a variable that is split.
-/

namespace PagedTopK

namespace Query

/-! ## Cuts through variables -/

/-- **A cut that goes through a variable**: a sign and perhaps some of the name before it, the rest
of the name behind it. -/
def CutsVariable (xs ys : List Char) : Prop :=
  ∃ before sign kept lost after, xs = before ++ sign :: kept ∧ ys = lost ++ after ∧ IsSign sign ∧
    (∀ c ∈ kept ++ lost, Text.isNameChar c = true) ∧ lost ≠ [] ∧
    ∀ c ∈ after.head?, Text.isNameChar c = false

/-- **A text that ends in a character of names beyond ASCII.** -/
def EndsBeyondAscii (xs : List Char) : Prop :=
  ∃ c ∈ xs.getLast?, Text.isNameChar c = true ∧ isWordChar c = false

/-- **A text that ends in the sign of a variable.** -/
def EndsInSign (xs : List Char) : Prop := ∃ c ∈ xs.getLast?, IsSign c

/-- No word goes on behind a sign. -/
lemma isWordChar_of_isSign {c : Char} (h : IsSign c) : isWordChar c = false := by
  rcases h with rfl | rfl <;> rfl

section Cut

variable {xs ys : List Char}

/-- Before the cut stands the sign or a character of the name. -/
lemma CutsVariable.exists_getLast? (h : CutsVariable xs ys) :
    ∃ c, xs.getLast? = some c ∧ (IsSign c ∨ Text.isNameChar c = true) := by
  obtain ⟨before, sign, kept, lost, after, rfl, -, hsign, hname, -, -⟩ := h
  rw [List.getLast?_append, List.getLast?_cons, Option.some_or]
  cases hlast : kept.getLast? with
  | none => exact ⟨sign, rfl, .inl hsign⟩
  | some c =>
    exact ⟨c, rfl, .inr (hname c (List.mem_append_left _ (List.mem_of_getLast? hlast)))⟩

/-- A text before a cut through a variable. -/
lemma CutsVariable.append_left (h : CutsVariable xs ys) (front : List Char) :
    CutsVariable (front ++ xs) ys := by
  obtain ⟨before, sign, kept, lost, after, rfl, hys, hrest⟩ := h
  exact ⟨front ++ before, sign, kept, lost, after, by rw [List.append_assoc], hys, hrest⟩

/-- Behind a cut through a variable the name goes on. -/
lemma CutsVariable.isNameChar_head {c : Char} (h : CutsVariable xs (c :: ys)) :
    Text.isNameChar c = true := by
  obtain ⟨before, sign, kept, lost, after, -, hys, -, hname, hlost, -⟩ := h
  obtain ⟨d, lost, rfl⟩ := List.exists_cons_of_ne_nil hlost
  cases hys
  exact hname c (List.mem_append_right _ List.mem_cons_self)

/-- No white space stands before the cut. -/
lemma CutsVariable.eq_nil_of_isSpace {gap : List Char} (h : CutsVariable (xs ++ gap) ys)
    (hgap : ∀ c ∈ gap, isSpace c = true) : gap = [] := by
  by_contra hne
  obtain ⟨c, hlast, hkind⟩ := h.exists_getLast?
  rw [List.getLast?_append_of_ne_nil _ hne] at hlast
  have hspace := hgap c (List.mem_of_getLast? hlast)
  rcases hkind with (rfl | rfl) | hname
  · cases hspace
  · cases hspace
  · rw [isNameChar_of_isSpace hspace] at hname
    cases hname

/-- Where a name goes on behind some of it, it is cut. -/
lemma cutsVariable_of_head? {before name : List Char} {sign : Char} (hsign : IsSign sign)
    (hname : ∀ c ∈ name, Text.isNameChar c = true) {d : Char} (hd : ys.head? = some d)
    (hgoes : Text.isNameChar d = true) : CutsVariable (before ++ sign :: name) ys := by
  refine ⟨before, sign, name, ys.takeWhile Text.isNameChar, ys.dropWhile Text.isNameChar, rfl,
    List.takeWhile_append_dropWhile.symm, hsign, fun c hc => ?_, ?_, fun c hc => ?_⟩
  · exact (List.mem_append.1 hc).elim (hname c) (List.all_eq_true.1 List.all_takeWhile c)
  · obtain ⟨rest, rfl⟩ := List.head?_eq_some_iff.1 hd
    rw [List.takeWhile_cons_of_pos hgoes]
    exact List.cons_ne_nil _ _
  · have hnot := List.head?_dropWhile_not Text.isNameChar ys
    rw [Option.mem_def.1 hc] at hnot
    simpa using hnot

/-- Inside a variable a modifier may begin only behind a character beyond ASCII. -/
lemma notVariable_of_cutsVariable (h : CutsVariable xs ys) :
    notVariable xs.getLast? = true ↔ EndsBeyondAscii xs := by
  obtain ⟨c, hc, hkind⟩ := h.exists_getLast?
  rw [EndsBeyondAscii, hc]
  constructor
  · intro hguard
    rw [notVariable, Bool.and_eq_true, Bool.and_eq_true, Bool.not_eq_true', bne_iff_ne,
      bne_iff_ne] at hguard
    have hname := hkind.resolve_left fun hsign => hsign.elim hguard.1.2 hguard.2
    exact ⟨c, rfl, hname, hguard.1.1⟩
  · rintro ⟨d, hd, hname, hword⟩
    cases hd
    have hsign (sign : Char) (h : IsSign sign) : c ≠ sign := by
      rintro rfl
      rw [h.isNameChar] at hname
      cases hname
    simp [notVariable, hword, hsign '?' (.inl rfl), hsign '$' (.inr rfl)]

/-- A word may begin behind the sign as well. -/
lemma boundary_of_cutsVariable (h : CutsVariable xs ys) :
    boundary xs.getLast? = true ↔ EndsBeyondAscii xs ∨ EndsInSign xs := by
  obtain ⟨c, hc, hkind⟩ := h.exists_getLast?
  rw [EndsBeyondAscii, EndsInSign, hc, boundary, Bool.not_eq_true']
  constructor
  · intro hword
    exact hkind.elim (fun hsign => .inr ⟨c, rfl, hsign⟩) fun hname => .inl ⟨c, rfl, hname, hword⟩
  · rintro (⟨d, hd, -, hword⟩ | ⟨d, hd, hsign⟩)
    · cases hd
      exact hword
    · cases hd
      exact isWordChar_of_isSign hsign

/-! ## Patterns inside variables -/

/-- **The beginning of a modifier is read inside a variable** exactly behind a character beyond
ASCII. -/
theorem modifier_of_cutsVariable (h : CutsVariable xs ys) :
    modifier xs.getLast? ys = some () ↔ EndsBeyondAscii xs ∧ modifier none ys = some () := by
  rw [modifier_eq_some_iff, modifier_eq_some_iff, notVariable_of_cutsVariable h]
  exact and_congr_right fun _ => (and_iff_right rfl).symm

/-- So is a limit. -/
theorem limit_of_cutsVariable (h : CutsVariable xs ys) (found : List Char × List Char) :
    limit xs.getLast? ys = some found ↔ EndsBeyondAscii xs ∧ limit none ys = some found := by
  obtain ⟨digits, rest⟩ := found
  rw [limit_eq_some_iff, limit_eq_some_iff, notVariable_of_cutsVariable h]
  exact and_congr_right fun _ => (and_iff_right rfl).symm

/-- An order clause is read behind the sign as well. -/
theorem orderBy_of_cutsVariable (h : CutsVariable xs ys) (clause : List Char) :
    orderBy xs.getLast? ys = some clause ↔
      (EndsBeyondAscii xs ∨ EndsInSign xs) ∧ orderBy none ys = some clause := by
  rw [orderBy_eq_some_iff, orderBy_eq_some_iff, boundary_of_cutsVariable h]
  exact and_congr_right fun _ => (and_iff_right rfl).symm

end Cut

/-! ## Where clauses end -/

/-- **The end of a clause goes through a variable** only behind a character beyond ASCII. -/
theorem beforeModifier?_cut {text before : List Char} (h : beforeModifier? text = some before) :
    ∃ rest, text = before ++ rest ∧ (CutsVariable before rest → EndsBeyondAscii before) := by
  obtain ⟨⟨place, found⟩, hsearch, rfl⟩ := Option.map_eq_some_iff.1 h
  obtain ⟨front, back, rfl, rfl, hmatch⟩ := exists_of_search hsearch
  refine ⟨back, by rw [List.take_left], fun hcut => ?_⟩
  rw [List.take_left] at hcut ⊢
  exact ((modifier_of_cutsVariable hcut).1 hmatch).1

end Query

/-! ## Conditions are whole variables -/

/-- **A text that holds a variable whole**: the name does not go on behind it. -/
def HoldsVariable (cs : List Char) (sign : Char) (name : List Char) : Prop :=
  ∃ before after, cs = before ++ sign :: name ++ after ∧ name ≠ [] ∧
    (∀ c ∈ name, Text.isNameChar c = true) ∧ ∀ c ∈ after.head?, Text.isNameChar c = false

lemma HoldsVariable.append_left {cs name : List Char} {sign : Char} (h : HoldsVariable cs sign name)
    (front : List Char) : HoldsVariable (front ++ cs) sign name := by
  obtain ⟨before, after, rfl, hname⟩ := h
  exact ⟨front ++ before, after, by simp only [List.append_assoc], hname⟩

namespace OrderCondition

/-- **A condition that is a variable is a whole one** of the text before which its name ends. -/
lemma Written.holdsVariable {condition : OrderCondition} {text rest name : List Char} {sign : Char}
    (h : condition.Written text)
    (hend : ∀ c ∈ text.getLast?, Text.isNameChar c = true →
      ∀ d ∈ rest.head?, Text.isNameChar d = false)
    (hexpression : condition.expression = String.ofList (sign :: name)) (hsign : IsSign sign) :
    HoldsVariable (text ++ rest) sign name := by
  cases h with
  | bare _ hne hname =>
    cases String.ofList_injective hexpression
    refine ⟨[], rest, rfl, hne, hname, hend _ ?_ (hname _ (List.getLast_mem hne))⟩
    rw [List.getLast?_cons_of_ne_nil hne]
    exact List.getLast?_eq_some_getLast hne
  | @directed e direction word gap inner hdirection hgap hinner =>
    have htrim : Text.trim inner = sign :: name := String.ofList_injective hexpression
    obtain ⟨hne, hname⟩ := OrderExpression.name_of_parse hinner.parse htrim hsign
    obtain ⟨before, after, hparts, hbefore, hafter⟩ := Text.exists_trim inner
    rw [htrim] at hparts
    refine ⟨word ++ gap ++ '(' :: before, after ++ ')' :: rest, ?_, hne, hname, fun c hc => ?_⟩
    · rw [hparts]
      simp only [List.append_assoc, List.cons_append, List.nil_append]
    · cases after with
      | nil =>
        cases hc
        decide
      | cons a after =>
        cases hc
        exact Text.isNameChar_of_isBlank (hafter _ List.mem_cons_self)
  | @str e word gap inner hword hgap hinner =>
    -- The expression begins with a letter.
    have htext : word ++ gap ++ '(' :: (inner ++ [')']) = sign :: name :=
      String.ofList_injective hexpression
    cases word with
    | nil => exact absurd hword (by decide)
    | cons w word =>
      cases htext
      have hletter := Query.isNameChar_of_map_toLower hword (by simp) sign List.mem_cons_self
      rw [hsign.isNameChar] at hletter
      cases hletter
  | group hinner =>
    cases String.ofList_injective hexpression
    rcases hsign with h | h <;> exact absurd h (by decide)

/-- **Every condition that is a variable is one whole variable** of the clause it is read from. -/
theorem AllWritten.holdsVariable {cs : List Char} {conditions : List OrderCondition}
    (h : AllWritten conditions cs) {condition : OrderCondition} (hmem : condition ∈ conditions)
    {sign : Char} {name : List Char} (hsign : IsSign sign)
    (hexpression : condition.expression = String.ofList (sign :: name)) :
    HoldsVariable cs sign name := by
  induction h with
  | nil => cases hmem
  | @blank c conditions text hc h ih => exact (ih hmem).append_left [c]
  | cons hcondition hend h ih =>
    rcases List.mem_cons.1 hmem with rfl | hmem
    · exact hcondition.holdsVariable hend hexpression hsign
    · exact (ih hmem).append_left _

end OrderCondition

namespace Query

/-! ## Operations on queries -/

variable (query : String)

/-- The clause that is found is the end of the text. -/
lemma exists_of_search_orderBy {cs clause : List Char} {place : Nat}
    (h : search orderBy cs = some (place, clause)) : ∃ front, cs = front ++ clause := by
  obtain ⟨front, back, rfl, -, hmatch⟩ := exists_of_search h
  obtain ⟨-, hwords, -⟩ := orderBy_eq_some_iff.1 hmatch
  obtain ⟨gap, second, hfirst, hgap, hsecond⟩ := exists_of_stripTwoWords? hwords
  obtain ⟨spelling, -, rfl⟩ := stripWord?_eq_some_iff.1 hfirst
  obtain ⟨spaces, rfl, -, -⟩ := exists_of_stripSpaces? hgap
  obtain ⟨spelling', -, rfl⟩ := stripWord?_eq_some_iff.1 hsecond
  exact ⟨front ++ spelling ++ spaces ++ spelling', by simp only [List.append_assoc]⟩

/-- A limit that is found is cut out without a sign. -/
lemma exists_of_limit {before : Option Char} {cs digits rest : List Char}
    (h : limit before cs = some (digits, rest)) :
    ∃ removed, cs = removed ++ rest ∧ ∀ c ∈ removed, ¬IsSign c := by
  obtain ⟨-, gap, number, hword, hgap, -, -, hrest⟩ := limit_eq_some_iff.1 h
  obtain ⟨spelling, hspelling, rfl⟩ := stripWord?_eq_some_iff.1 hword
  obtain ⟨spaces, rfl, -, hspaces⟩ := exists_of_stripSpaces? hgap
  refine ⟨spelling ++ spaces ++ number.takeWhile Char.isDigit, ?_, fun c hc => ?_⟩
  · rw [hrest]
    simp only [List.append_assoc, List.takeWhile_append_dropWhile]
  · rw [List.mem_append, List.mem_append] at hc
    intro hsign
    rcases hc with (hc | hc) | hc
    · have hletter := isAlpha_of_map_toLower hspelling (by simp) _ hc
      rcases hsign with rfl | rfl <;> exact absurd hletter (by decide)
    · have hspace := hspaces _ hc
      rcases hsign with rfl | rfl <;> exact absurd hspace (by decide)
    · have hdigit := List.all_eq_true.1 List.all_takeWhile _ hc
      rcases hsign with rfl | rfl <;> exact absurd hdigit (by decide)

/-- **A condition that is a variable is a variable of the query**, or ends where a keyword is read
behind a character beyond ASCII. -/
theorem orderConditions_variable {conditions : List OrderCondition}
    (h : orderConditions query = .ok conditions) {condition : OrderCondition}
    (hmem : condition ∈ conditions) {sign : Char} {name : List Char} (hsign : IsSign sign)
    (hexpression : condition.expression = String.ofList (sign :: name)) :
    ∃ before after, tail query = before ++ sign :: name ++ after ∧ name ≠ [] ∧
      (∀ c ∈ name, Text.isNameChar c = true) ∧
      ∀ c ∈ after.head?, Text.isNameChar c = true → EndsBeyondAscii name := by
  rcases orderConditions_cases h with rfl | ⟨place, clause, hsearch, hparse⟩
  · cases hmem
  · obtain ⟨front, htail⟩ := exists_of_search_orderBy hsearch
    -- The clause is what is read and a rest, and the cut between them may go through the variable.
    obtain ⟨rest, hclause, hcut⟩ : ∃ rest, clause = (beforeModifier? clause).getD clause ++ rest ∧
        (CutsVariable ((beforeModifier? clause).getD clause) rest →
          EndsBeyondAscii ((beforeModifier? clause).getD clause)) := by
      cases hbefore : beforeModifier? clause with
      | some body => exact beforeModifier?_cut hbefore
      | none =>
        refine ⟨[], (List.append_nil clause).symm, ?_⟩
        rintro ⟨-, -, -, lost, after, -, hnil, -, -, hlost, -⟩
        exact absurd (List.append_eq_nil_iff.1 hnil.symm).1 hlost
    obtain ⟨before, after, hbody, hne, hname, hafter⟩ :=
      (OrderCondition.allWritten_of_parseAll hparse).holdsVariable hmem hsign hexpression
    rw [hbody] at hclause hcut
    refine ⟨front ++ before, after ++ rest, ?_, hne, hname, fun c hc hgoes => ?_⟩
    · rw [htail, hclause]
      simp only [List.append_assoc]
    · cases after with
      | cons a after =>
        rw [hafter c hc] at hgoes
        cases hgoes
      | nil =>
        rw [List.append_nil] at hcut
        obtain ⟨d, hd, hbeyond⟩ := hcut (cutsVariable_of_head? hsign hname hc hgoes)
        rw [List.getLast?_append, List.getLast?_cons_of_ne_nil hne,
          List.getLast?_eq_some_getLast hne, Option.some_or,
          ← List.getLast?_eq_some_getLast hne] at hd
        exact ⟨d, hd, hbeyond⟩

/-- **What is left without modifiers** ends in a part of a variable only behind a character beyond
ASCII. -/
theorem withoutModifiers_cut :
    withoutModifiers query = query ∨ ∃ kept cut, tail query = kept ++ cut ∧
      withoutModifiers query =
        String.ofList (Text.trimEnd ((splitTail query.toList).1 ++ kept)) ∧
      (CutsVariable kept cut → EndsBeyondAscii kept) := by
  rw [withoutModifiers]
  cases hbefore : beforeModifier? (splitTail query.toList).2 with
  | none =>
    left
    simp only [hbefore]
  | some kept =>
    right
    obtain ⟨cut, htail, hcut⟩ := beforeModifier?_cut hbefore
    exact ⟨kept, cut, htail, by simp only [hbefore], hcut⟩

/-- **What a new limit removes** begins in a variable only behind a character beyond ASCII, and no
variable begins in it. -/
theorem setLimit_cut (n : Nat) :
    ∃ front removed back, tail query = front ++ (removed ++ back) ∧
      setLimit query n = String.ofList
        (Text.trimEnd ((splitTail query.toList).1 ++ Text.trimEnd (front ++ back))) ++
          " LIMIT " ++ Digits.text n ∧
      (∀ c ∈ removed, ¬IsSign c) ∧
      (CutsVariable front (removed ++ back) → EndsBeyondAscii front) := by
  rw [setLimit]
  cases hsearch : search limit (splitTail query.toList).2 with
  | none =>
    refine ⟨tail query, [], [], by simp, ?_, List.forall_mem_nil _, ?_⟩
    · rw [List.append_nil]
      simp only [hsearch]
      rfl
    · rintro ⟨-, -, -, lost, after, -, hnil, -, -, hlost, -⟩
      exact absurd (List.append_eq_nil_iff.1 hnil.symm).1 hlost
  | some found =>
    obtain ⟨place, digits, back⟩ := found
    obtain ⟨front, text, htail, rfl, hmatch⟩ := exists_of_search hsearch
    obtain ⟨removed, rfl, hremoved⟩ := exists_of_limit hmatch
    refine ⟨front, removed, back, htail, ?_, hremoved, fun hcut =>
      ((limit_of_cutsVariable hcut _).1 hmatch).1⟩
    rw [htail] at hsearch
    simp only [htail, hsearch, List.take_left]

/-- **Keywords in the names of variables.** A pattern reads a keyword inside a variable exactly if
it would read it at the start of a text and the character before it is one of names beyond ASCII or,
for an order clause, the sign. So the end of an order clause, the end of a query without modifiers
and the beginning of a limit that is replaced go through a variable only behind such a character,
and a condition that is a variable is a whole variable of the query unless it ends in one.

**Proof sketch.** The character before the keyword is the sign or a character of the name, and the
guards of the patterns refuse it unless it is no character of an ASCII word. A search stops only
where its pattern matches. Conditions are read off the clause from the front, each variable as far
as its name goes. -/
theorem keywords_in_variables :
    (∀ xs ys, CutsVariable xs ys →
      (modifier xs.getLast? ys = some () ↔ EndsBeyondAscii xs ∧ modifier none ys = some ()) ∧
      (∀ found, limit xs.getLast? ys = some found ↔
        EndsBeyondAscii xs ∧ limit none ys = some found) ∧
      (∀ clause, orderBy xs.getLast? ys = some clause ↔
        (EndsBeyondAscii xs ∨ EndsInSign xs) ∧ orderBy none ys = some clause)) ∧
    (∀ clause body, beforeModifier? clause = some body →
      ∃ rest, clause = body ++ rest ∧ (CutsVariable body rest → EndsBeyondAscii body)) ∧
    (∀ conditions, orderConditions query = .ok conditions → ∀ condition ∈ conditions,
      ∀ sign name, IsSign sign → condition.expression = String.ofList (sign :: name) →
      ∃ before after, tail query = before ++ sign :: name ++ after ∧ name ≠ [] ∧
        (∀ c ∈ name, Text.isNameChar c = true) ∧
        ∀ c ∈ after.head?, Text.isNameChar c = true → EndsBeyondAscii name) ∧
    (withoutModifiers query = query ∨ ∃ kept cut, tail query = kept ++ cut ∧
      withoutModifiers query =
        String.ofList (Text.trimEnd ((splitTail query.toList).1 ++ kept)) ∧
      (CutsVariable kept cut → EndsBeyondAscii kept)) ∧
    (∀ n, ∃ front removed back, tail query = front ++ (removed ++ back) ∧
      setLimit query n = String.ofList
        (Text.trimEnd ((splitTail query.toList).1 ++ Text.trimEnd (front ++ back))) ++
          " LIMIT " ++ Digits.text n ∧
      (∀ c ∈ removed, ¬IsSign c) ∧
      (CutsVariable front (removed ++ back) → EndsBeyondAscii front)) :=
  ⟨fun _ _ h => ⟨modifier_of_cutsVariable h, limit_of_cutsVariable h, orderBy_of_cutsVariable h⟩,
    fun _ _ h => beforeModifier?_cut h,
    fun _ h _ hmem _ _ hsign hexpression =>
      orderConditions_variable query h hmem hsign hexpression,
    withoutModifiers_cut query, setLimit_cut query⟩

/-- **A variable that is split**: its name holds a keyword behind a letter beyond ASCII. The order
clause ends there, and the query is ordered by another variable. -/
theorem keyword_splits_variable :
    CutsVariable " ?pré".toList "limit LIMIT 10".toList ∧
    modifier " ?pré".toList.getLast? "limit LIMIT 10".toList = some () ∧
    orderConditions
      "SELECT ?s WHERE \x7b ?s ?p ?prélimit \x7d ORDER BY ?prélimit LIMIT 10" =
        .ok [⟨"?pré", .ascending⟩] := by
  have hname : ∀ c ∈ "pré".toList ++ "limit".toList, Text.isNameChar c = true :=
    List.all_eq_true.1 (by decide +kernel)
  have hkept : ∀ c ∈ "pré".toList, Text.isNameChar c = true := fun c hc =>
    hname c (List.mem_append_left _ hc)
  refine ⟨⟨" ".toList, '?', "pré".toList, "limit".toList, " LIMIT 10".toList, by decide +kernel,
    by decide +kernel, .inl rfl, hname, by decide +kernel, ?_⟩, by decide +kernel, ?_⟩
  · intro c hc
    cases hc
    decide +kernel
  · have hsearch : search orderBy (tail
        "SELECT ?s WHERE \x7b ?s ?p ?prélimit \x7d ORDER BY ?prélimit LIMIT 10") =
          some (1, " ?prélimit LIMIT 10".toList) := by decide +kernel
    have hbefore : beforeModifier? " ?prélimit LIMIT 10".toList = some " ?pré".toList := by
      decide +kernel
    have hcondition : OrderCondition.Written ⟨"?pré", .ascending⟩ ('?' :: "pré".toList) :=
      .bare (.inl rfl) (by decide +kernel) hkept
    have hwritten : OrderCondition.AllWritten [⟨"?pré", .ascending⟩]
        (' ' :: '?' :: "pré".toList) :=
      .blank (by decide) (.single hcondition)
    have htext : " ?pré".toList = ' ' :: '?' :: "pré".toList := by decide +kernel
    have hparse := hwritten.parseAll
    rw [← htext] at hparse
    rw [orderConditions, hsearch]
    simp only [hbefore, Option.getD_some, hparse]

end Query

end PagedTopK
