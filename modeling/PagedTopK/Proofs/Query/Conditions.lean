import PagedTopK.Proofs.Except
import PagedTopK.Proofs.Query.OrderClause

set_option autoImplicit false

/-!
# What an order clause may hold

Reading takes the parentheses off an expression from outside, whereas the conditions of a clause are
separated from the front, by counting parentheses. Both agree with the written forms: what is read
without a fault is what the text writes, and there is no other reading.

## Main results

* `OrderExpression.parse_eq_ok_iff` — an expression is read from exactly the texts that write it.
* `OrderCondition.parseAll_eq_ok_iff` — so are the conditions of a clause.
* `OrderCondition.parseAll_follows_grammar` — every other clause is refused, and every expression
  that is read off a clause is one by itself.
-/

namespace PagedTopK

/-! ## Expressions -/

namespace OrderExpression

/-- A text that is read behind a sign begins with it. -/
lemma exists_of_afterSign? {text name : List Char} (h : afterSign? text = some name) :
    ∃ sign, IsSign sign ∧ text = sign :: name := by
  unfold afterSign? at h
  split at h
  · cases h
    exact ⟨'?', .inl rfl, rfl⟩
  · cases h
    exact ⟨'$', .inr rfl, rfl⟩
  · cases h

lemma eq_append_of_stripEnd? {last : Char} {cs inner : List Char}
    (h : Text.stripEnd? last cs = some inner) : cs = inner ++ [last] := by
  unfold Text.stripEnd? at h
  split at h
  · next hlast =>
    cases h
    exact (List.dropLast_append_getLast? last hlast).symm
  · cases h

/-- What is enclosed stands between two parentheses. -/
lemma eq_of_enclosed? {text inner : List Char} (h : enclosed? text = some inner) :
    text = '(' :: (inner ++ [')']) := by
  unfold enclosed? at h
  split at h
  · rw [eq_append_of_stripEnd? h]
  · cases h

/-- A function stands before its argument. -/
lemma eq_of_call? {text function argument : List Char}
    (h : call? text = some (function, argument)) :
    text = function ++ '(' :: (argument ++ [')']) := by
  unfold call? at h
  split at h
  · next c rest hdrop =>
    obtain ⟨inner, hinner, heq⟩ := Option.map_eq_some_iff.1 h
    cases heq
    have hparen : c = '(' := by
      have hnot := List.head?_dropWhile_not (· ≠ '(') text
      rw [hdrop] at hnot
      simpa using hnot
    subst hparen
    rw [← eq_append_of_stripEnd? hinner, ← hdrop, List.takeWhile_append_dropWhile]
  · cases h

/-- What is read as a variable is one. -/
lemma name_of_parse {text name : List Char} {sign : Char} {e : OrderExpression}
    (h : parse text = .ok e) (htrim : Text.trim text = sign :: name) (hsign : IsSign sign) :
    name ≠ [] ∧ ∀ c ∈ name, Text.isNameChar c = true := by
  have hafter : afterSign? (Text.trim text) = some name := by
    rw [htrim]
    rcases hsign with rfl | rfl <;> rfl
  rw [parse] at h
  simp only [hafter] at h
  split at h
  · next hname => exact ⟨hname.1, List.all_eq_true.1 hname.2⟩
  · cases h

/-- **What is read at one level of an expression**: a variable, an expression in parentheses, or the
function of one. -/
lemma parse_cases {text : List Char} {e : OrderExpression} (h : parse text = .ok e) :
    (∃ sign name, Text.trim text = sign :: name ∧ IsSign sign ∧ name ≠ [] ∧
      (∀ c ∈ name, Text.isNameChar c = true) ∧ e = .var (String.ofList name)) ∨
    (∃ inner, enclosed? (Text.trim text) = some inner ∧ parse inner = .ok e) ∨
    (∃ function argument of, call? (Text.trim text) = some (function, argument) ∧
      (Text.trim function).map Char.toLower = "str".toList ∧ parse argument = .ok of ∧
      e = .str of) := by
  rw [parse] at h
  split at h
  · next name hafter =>
    obtain ⟨sign, hsign, htext⟩ := exists_of_afterSign? hafter
    split at h
    · next hname =>
      cases h
      exact .inl ⟨sign, name, htext, hsign, hname.1, List.all_eq_true.1 hname.2, rfl⟩
    · cases h
  · split at h
    · next inner henclosed => exact .inr (.inl ⟨inner, henclosed, h⟩)
    · split at h
      · next function argument hcall =>
        split at h
        · next hword =>
          obtain ⟨of, hof, rfl⟩ := map_eq_ok_iff.1 h
          exact .inr (.inr ⟨function, argument, of, hcall, hword, hof, rfl⟩)
        · cases h
      · cases h

/-- Blanks around a text do not matter. -/
lemma written_of_trim {text : List Char} {e : OrderExpression} (h : e.Written (Text.trim text)) :
    e.Written text := by
  obtain ⟨before, after, htext, hbefore, hafter⟩ := Text.exists_trim text
  rw [htext]
  exact .padded hbefore hafter h

/-- **What is read is written.** -/
theorem written_of_parse {text : List Char} {e : OrderExpression} (h : parse text = .ok e) :
    e.Written text := by
  induction hlength : text.length using Nat.strong_induction_on generalizing text e with
  | _ n ih =>
    refine written_of_trim ?_
    have hshort := length_trim_le text
    rcases parse_cases h with ⟨sign, name, htrim, hsign, hne, hname, rfl⟩ |
      ⟨inner, henclosed, hinner⟩ | ⟨function, argument, of, hcall, hword, hof, rfl⟩
    · rw [htrim]
      exact .var hsign hne hname
    · have hlt := length_of_enclosed? henclosed
      rw [eq_of_enclosed? henclosed]
      exact .group (ih inner.length (by omega) hinner rfl)
    · have hlt := length_of_call? hcall
      have hargument := ih argument.length (by omega) hof rfl
      obtain ⟨lead, gap, hfunction, hlead, hgap⟩ := Text.exists_trim function
      have hcase : Text.trim text =
          lead ++ (Text.trim function ++ gap ++ '(' :: (argument ++ [')'])) ++ [] := by
        rw [eq_of_call? hcall, List.append_nil, ← List.append_assoc, ← List.append_assoc,
          ← hfunction]
      rw [hcase]
      exact .padded hlead (List.forall_mem_nil _) (.str hword hgap hargument)

/-- **An expression is read from exactly the texts that write it.** -/
theorem parse_eq_ok_iff {e : OrderExpression} {text : List Char} :
    parse text = .ok e ↔ e.Written text :=
  ⟨written_of_parse, Written.parse⟩

end OrderExpression

/-! ## Conditions -/

namespace OrderCondition

open OrderExpression

/-- A group ends with the parenthesis that closes it. -/
lemma eq_append_of_closeGroup? {depth : Nat} {cs inside rest : List Char}
    (h : closeGroup? depth cs = some (inside, rest)) : cs = inside ++ ')' :: rest := by
  induction cs generalizing depth inside rest with
  | nil => cases h
  | cons c cs ih =>
    unfold closeGroup? at h
    split at h
    · next hclose =>
      subst hclose
      split at h
      · cases h
        rfl
      · obtain ⟨⟨inside', rest'⟩, hr, heq⟩ := Option.map_eq_some_iff.1 h
        cases heq
        rw [ih hr, List.cons_append]
    · obtain ⟨⟨inside', rest'⟩, hr, heq⟩ := Option.map_eq_some_iff.1 h
      cases heq
      rw [ih hr, List.cons_append]

/-- What is read of a sign and a name is a variable. -/
lemma written_of_ofText_variable {sign : Char} {name : List Char} {condition : OrderCondition}
    (hsign : IsSign sign) (hname : ∀ c ∈ name, Text.isNameChar c = true)
    (h : ofText (sign :: name) .ascending = .ok condition) : condition.Written (sign :: name) := by
  obtain ⟨e, he, rfl⟩ := map_eq_ok_iff.1 h
  exact .bare hsign (name_of_parse he (trim_var hsign hname) hsign).1 hname

/-- **What is read of a group** and the word before it is a condition. -/
lemma written_of_ofGroup {word gap inside : List Char} {condition : OrderCondition}
    (hword : ∀ c ∈ word, Text.isNameChar c = true) (hgap : ∀ c ∈ gap, Text.isBlank c = true)
    (hstart : word = [] → gap = []) (h : ofGroup word gap inside = .ok condition) :
    condition.Written (word ++ gap ++ '(' :: (inside ++ [')'])) := by
  unfold ofGroup at h
  split at h
  · next direction hdirection =>
    obtain ⟨e, he, rfl⟩ := map_eq_ok_iff.1 h
    exact .directed hdirection hgap (written_of_trim (written_of_parse he))
  · -- Without a direction the expression is the whole text.
    have hsame : word ++ gap ++ '(' :: inside ++ [')'] =
        word ++ gap ++ '(' :: (inside ++ [')']) := by simp
    rw [hsame] at h
    cases word with
    | nil =>
      have htrim : Text.trim ('(' :: (inside ++ [')'])) = '(' :: (inside ++ [')']) :=
        trim_closed ('(' :: inside) fun c hc => by
          cases hc
          decide
      rw [hstart rfl, List.nil_append, List.nil_append] at h ⊢
      rw [htrim] at h
      obtain ⟨e, he, rfl⟩ := map_eq_ok_iff.1 h
      have hsign : afterSign? (Text.trim ('(' :: (inside ++ [')']))) = none := by
        rw [htrim]
        rfl
      have hgroup : enclosed? (Text.trim ('(' :: (inside ++ [')']))) = some inside := by
        rw [htrim, enclosed?, stripEnd?_append]
      rw [parse_of_enclosed? hsign hgroup] at he
      exact .group (written_of_parse he)
    | cons w word =>
      have htrim : Text.trim (w :: word ++ gap ++ '(' :: (inside ++ [')'])) =
          w :: word ++ gap ++ '(' :: (inside ++ [')']) := trim_call (List.cons_ne_nil w word) hword
      rw [htrim] at h
      obtain ⟨e, he, rfl⟩ := map_eq_ok_iff.1 h
      obtain ⟨hquestion, hdollar, hparen⟩ := not_sign_of_isNameChar (hword w List.mem_cons_self)
      rcases parse_cases he with ⟨sign, name, hcase, hsign, -⟩ | ⟨inner, hcase, -⟩ |
        ⟨function, argument, of, hcall, hlower, hof, rfl⟩
      · rw [htrim] at hcase
        cases hcase
        exact absurd hsign (not_or.2 ⟨hquestion, hdollar⟩)
      · have hcons := eq_of_enclosed? hcase
        rw [htrim] at hcons
        exact absurd (List.cons.inj hcons).1 hparen
      · rw [htrim, call?_append hword hgap] at hcall
        cases hcall
        rw [trim_function hword hgap] at hlower
        exact .str hlower hgap (written_of_parse hof)

/-- **What is read at the start of a clause**: a blank, or a condition that goes on as far as its
name does. -/
lemma parseAll_cases {c : Char} {cs : List Char} {conditions : List OrderCondition}
    (h : parseAll (c :: cs) = .ok conditions) :
    (Text.isBlank c = true ∧ parseAll cs = .ok conditions) ∨
    ∃ condition text rest more, condition.Written text ∧ c :: cs = text ++ rest ∧ text ≠ [] ∧
      (∀ c ∈ text.getLast?, Text.isNameChar c = true →
        ∀ d ∈ rest.head?, Text.isNameChar d = false) ∧
      parseAll rest = .ok more ∧ conditions = condition :: more := by
  have hhead (xs : List Char) : ∀ d ∈ (xs.dropWhile Text.isNameChar).head?,
      Text.isNameChar d = false := by
    intro d hd
    have hnot := List.head?_dropWhile_not Text.isNameChar xs
    rw [Option.mem_def.1 hd] at hnot
    simpa using hnot
  rw [parseAll] at h
  split at h
  · next hblank => exact .inl ⟨hblank, h⟩
  · next hblank =>
    right
    split at h
    · next hsign =>
      split at h
      · cases h
      · next condition hof =>
        obtain ⟨more, hmore, rfl⟩ := map_eq_ok_iff.1 h
        have hwritten := written_of_ofText_variable hsign
          (List.all_eq_true.1 List.all_takeWhile) hof
        refine ⟨condition, _, _, more, hwritten, ?_, List.cons_ne_nil _ _,
          fun _ _ _ => hhead cs, hmore, rfl⟩
        rw [List.cons_append, List.takeWhile_append_dropWhile]
    · next hsign =>
      dsimp only at h
      split at h
      · next body hopen =>
        split at h
        · cases h
        · next inside rest hclose =>
          split at h
          · cases h
          · next condition hof =>
            obtain ⟨more, hmore, rfl⟩ := map_eq_ok_iff.1 h
            -- Without a word the group begins with its parenthesis.
            have hstart : (c :: cs).takeWhile Text.isNameChar = [] →
                ((c :: cs).dropWhile Text.isNameChar).takeWhile Text.isBlank = [] := by
              intro hword
              have hall := List.takeWhile_append_dropWhile (p := Text.isNameChar) (l := c :: cs)
              rw [hword, List.nil_append] at hall
              rw [hall, List.takeWhile_cons_of_neg hblank]
            have hwritten := written_of_ofGroup (List.all_eq_true.1 List.all_takeWhile)
              (List.all_eq_true.1 List.all_takeWhile) hstart hof
            refine ⟨condition, _, rest, more, hwritten, ?_, ?_, ?_, hmore, rfl⟩
            · simp only [List.append_assoc, List.cons_append, List.nil_append]
              rw [← eq_append_of_closeGroup? hclose, ← hopen, List.takeWhile_append_dropWhile,
                List.takeWhile_append_dropWhile]
            · simp
            · intro d hd hname
              rw [List.getLast?_append, List.getLast?_cons_of_ne_nil (by simp),
                List.getLast?_concat, Option.some_or] at hd
              cases hd
              exact absurd hname (by decide)
      · cases h

/-- **What is read of a clause is written there.** -/
theorem allWritten_of_parseAll {clause : List Char} {conditions : List OrderCondition}
    (h : parseAll clause = .ok conditions) : AllWritten conditions clause := by
  induction hlength : clause.length using Nat.strong_induction_on
    generalizing clause conditions with
  | _ n ih =>
    cases clause with
    | nil =>
      rw [parseAll] at h
      cases h
      exact .nil
    | cons c cs =>
      rcases parseAll_cases h with ⟨hblank, hrest⟩ |
        ⟨condition, text, rest, more, hwritten, htext, hne, hend, hmore, rfl⟩
      · exact .blank hblank (ih cs.length (by simp [← hlength]) hrest rfl)
      · have hshort : rest.length < n := by
          have hpos := List.length_pos_of_ne_nil hne
          rw [← hlength, htext, List.length_append]
          omega
        rw [htext]
        exact .cons hwritten hend (ih rest.length hshort hmore rfl)

/-- Every condition of a clause is written somewhere. -/
lemma AllWritten.exists_written {conditions : List OrderCondition} {clause : List Char}
    (h : AllWritten conditions clause) {condition : OrderCondition}
    (hmem : condition ∈ conditions) : ∃ text, condition.Written text := by
  induction h with
  | nil => cases hmem
  | blank hc h ih => exact ih hmem
  | @cons own conditions text rest hwritten hend h ih =>
    rcases List.mem_cons.1 hmem with rfl | hmem
    · exact ⟨text, hwritten⟩
    · exact ih hmem

/-- The expression of a condition is one by itself. -/
lemma Written.exists_expression {condition : OrderCondition} {text : List Char}
    (h : condition.Written text) :
    ∃ e : OrderExpression, e.Written condition.expression.toList := by
  cases h with
  | bare hsign hne hname =>
    rw [String.toList_ofList]
    exact ⟨_, .var hsign hne hname⟩
  | @directed e direction word gap inner hdirection hgap hinner =>
    rw [String.toList_ofList]
    exact ⟨e, written_of_parse (hinner.parse_of_trim_eq _ (Text.trim_trim inner))⟩
  | str hword hgap hinner =>
    rw [String.toList_ofList]
    exact ⟨_, .str hword hgap hinner⟩
  | group hinner =>
    rw [String.toList_ofList]
    exact ⟨_, .group hinner⟩

end OrderCondition

/-! ## Conditions of a query -/

namespace Query

/-- Conditions of a query are read off its order clause. -/
lemma orderConditions_cases {query : String} {conditions : List OrderCondition}
    (h : orderConditions query = .ok conditions) :
    conditions = [] ∨ ∃ place clause, search orderBy (tail query) = some (place, clause) ∧
      OrderCondition.parseAll ((beforeModifier? clause).getD clause) = .ok conditions := by
  rw [orderConditions] at h
  split at h
  · cases h
    exact .inl rfl
  · next place clause hsearch =>
    refine .inr ⟨place, clause, hsearch, ?_⟩
    split at h
    · cases h
    · exact h

end Query

end PagedTopK
