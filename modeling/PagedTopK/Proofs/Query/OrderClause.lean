import Mathlib
import PagedTopK.Proofs.Query.Search
import PagedTopK.Proofs.Text.Blank

set_option autoImplicit false

/-!
# Order clauses as they are written

How expressions, conditions and lists of conditions may be written, as relations between a text and
what it stands for. Blanks may stand around every expression, and between conditions; they have to
where the name of a variable would go on otherwise.

## Main definitions

* `OrderExpression.Written`, `OrderCondition.Written` — the texts of an expression and of a
  condition.
* `OrderCondition.AllWritten` — the texts of a list of conditions.

## Main results

* `OrderCondition.AllWritten.parseAll` — whatever is written is read back.
* `OrderCondition.AllWritten.quiet` — among ASCII names no keyword of a modifier begins.
-/

namespace PagedTopK

/-- **The sign of a variable.** -/
def IsSign (c : Char) : Prop := c = '?' ∨ c = '$'

/-! ## Texts -/

/-- **A text of an expression.** -/
inductive OrderExpression.Written : OrderExpression → List Char → Prop
  /-- A variable has a sign and a name. -/
  | var {sign : Char} {name : List Char} : IsSign sign → name ≠ [] →
    (∀ c ∈ name, Text.isNameChar c = true) → Written (.var (String.ofList name)) (sign :: name)
  /-- An expression may stand in parentheses. -/
  | group {e : OrderExpression} {inner : List Char} : Written e inner →
    Written e ('(' :: (inner ++ [')']))
  /-- The function `STR` is written in letters of either case. -/
  | str {e : OrderExpression} {word gap inner : List Char} :
    word.map Char.toLower = "str".toList → (∀ c ∈ gap, Text.isBlank c = true) → Written e inner →
    Written (.str e) (word ++ gap ++ '(' :: (inner ++ [')']))
  /-- Blanks may stand around an expression. -/
  | padded {e : OrderExpression} {before text after : List Char} :
    (∀ c ∈ before, Text.isBlank c = true) → (∀ c ∈ after, Text.isBlank c = true) →
    Written e text → Written e (before ++ text ++ after)

/-- **A text of a condition.** -/
inductive OrderCondition.Written : OrderCondition → List Char → Prop
  /-- A bare variable ascends. -/
  | bare {sign : Char} {name : List Char} : IsSign sign → name ≠ [] →
    (∀ c ∈ name, Text.isNameChar c = true) →
    Written ⟨String.ofList (sign :: name), .ascending⟩ (sign :: name)
  /-- The word for a direction goes before the expression in parentheses. -/
  | directed {e : OrderExpression} {direction : Direction} {word gap inner : List Char} :
    Direction.ofName? (String.ofList word) = some direction →
    (∀ c ∈ gap, Text.isBlank c = true) → e.Written inner →
    Written ⟨String.ofList (Text.trim inner), direction⟩ (word ++ gap ++ '(' :: (inner ++ [')']))
  /-- Without such a word the function is part of the expression, which ascends. -/
  | str {e : OrderExpression} {word gap inner : List Char} :
    word.map Char.toLower = "str".toList → (∀ c ∈ gap, Text.isBlank c = true) → e.Written inner →
    Written ⟨String.ofList (word ++ gap ++ '(' :: (inner ++ [')'])), .ascending⟩
      (word ++ gap ++ '(' :: (inner ++ [')']))
  /-- And so are the parentheses. -/
  | group {e : OrderExpression} {inner : List Char} : e.Written inner →
    Written ⟨String.ofList ('(' :: (inner ++ [')'])), .ascending⟩ ('(' :: (inner ++ [')']))

/-- **A text of conditions**, one after the other. Nothing has to stand between them unless a name
would go on. -/
inductive OrderCondition.AllWritten : List OrderCondition → List Char → Prop
  /-- No condition, no text. -/
  | nil : AllWritten [] []
  /-- Blanks may stand anywhere between conditions. -/
  | blank {c : Char} {conditions : List OrderCondition} {text : List Char} :
    Text.isBlank c = true → AllWritten conditions text → AllWritten conditions (c :: text)
  /-- A condition, and others behind it. -/
  | cons {condition : OrderCondition} {conditions : List OrderCondition} {text rest : List Char} :
    condition.Written text →
    (∀ c ∈ text.getLast?, Text.isNameChar c = true →
      ∀ d ∈ rest.head?, Text.isNameChar d = false) →
    AllWritten conditions rest → AllWritten (condition :: conditions) (text ++ rest)

/-! ## Characters of words -/

namespace Query

/-- Characters of a word are ASCII letters, digits and the underscore. -/
lemma isNameChar_of_isWordChar {c : Char} (h : isWordChar c = true) :
    Text.isNameChar c = true := by
  rw [isWordChar, Bool.or_eq_true] at h
  rw [Text.isNameChar, Bool.or_eq_true]
  refine h.imp_left fun halnum => ?_
  have hascii : c.toNat < 128 := by
    simp only [Char.isAlphanum, Char.isAlpha, Char.isUpper, Char.isLower, Char.isDigit,
      Bool.or_eq_true, Bool.and_eq_true, decide_eq_true_eq, ge_iff_le, UInt32.le_iff_toNat_le]
      at halnum
    change c.val.toNat < 128
    have hbounds : 'Z'.val.toNat < 128 ∧ 'z'.val.toNat < 128 ∧ '9'.val.toNat < 128 := by decide
    omega
  rwa [Text.isAlphanumeric_of_isAlphanum hascii]

/-- A letter is a character of a word. -/
lemma isWordChar_of_isAlpha {c : Char} (h : c.isAlpha = true) : isWordChar c = true := by
  simp [isWordChar, Char.isAlphanum, h]

/-- A letter may stand in a name. -/
lemma isNameChar_of_isAlpha {c : Char} (h : c.isAlpha = true) : Text.isNameChar c = true :=
  isNameChar_of_isWordChar (isWordChar_of_isAlpha h)

/-- The spelling of a keyword consists of letters. -/
lemma isAlpha_of_map_toLower {word spelling : List Char} (h : spelling.map Char.toLower = word)
    (hword : ∀ c ∈ word, c.isAlpha = true) : ∀ c ∈ spelling, c.isAlpha = true := by
  intro c hc
  have hlower := hword c.toLower (h ▸ List.mem_map_of_mem hc)
  rwa [Char.isAlpha_toLower_eq_isAlpha] at hlower

/-- So it may stand in a name. -/
lemma isNameChar_of_map_toLower {word spelling : List Char} (h : spelling.map Char.toLower = word)
    (hword : ∀ c ∈ word, c.isAlpha = true) : ∀ c ∈ spelling, Text.isNameChar c = true :=
  fun c hc => isNameChar_of_isAlpha (isAlpha_of_map_toLower h hword c hc)

end Query

open Query (isNameChar_of_isWordChar isNameChar_of_isAlpha isAlpha_of_map_toLower
  isNameChar_of_map_toLower)

/-- Without a word there is no direction. -/
lemma ofName?_nil : Direction.ofName? (String.ofList []) = none := by decide

/-- The word for a direction, in lower case. -/
lemma map_toLower_of_ofName? {word : List Char} {direction : Direction}
    (h : Direction.ofName? (String.ofList word) = some direction) :
    word.map Char.toLower = "asc".toList ∨ word.map Char.toLower = "desc".toList := by
  have hlower : word.map Char.toLower = (word.map Char.toUpper).map Char.toLower := by
    rw [List.map_map]
    exact List.map_congr_left fun c _ => (Char.toLower_toUpper_eq_toLower c).symm
  rw [Direction.ofName?, String.toList_ofList] at h
  rw [hlower]
  split at h
  · next hasc => exact .inl (by rw [hasc]; decide)
  · next hdesc => exact .inr (by rw [hdesc]; decide)
  · cases h

/-- The word for a direction is a name. -/
lemma isNameChar_of_ofName? {word : List Char} {direction : Direction}
    (h : Direction.ofName? (String.ofList word) = some direction) :
    ∀ c ∈ word, Text.isNameChar c = true := by
  rcases map_toLower_of_ofName? h with hword | hword
  · exact isNameChar_of_map_toLower hword (by simp)
  · exact isNameChar_of_map_toLower hword (by simp)

/-- The sign of a variable is no character of its name. -/
lemma IsSign.isNameChar {c : Char} (h : IsSign c) : Text.isNameChar c = false := by
  rcases h with rfl | rfl <;> decide

lemma IsSign.isBlank {c : Char} (h : IsSign c) : Text.isBlank c = false := by
  rcases h with rfl | rfl <;> decide

lemma isBlank_of_isNameChar {c : Char} (h : Text.isNameChar c = true) :
    Text.isBlank c = false := by
  by_contra hblank
  rw [Bool.not_eq_false] at hblank
  rw [Text.isNameChar_of_isBlank hblank] at h
  cases h

/-- Blanks end a word. -/
lemma isWordChar_of_isBlank {c : Char} (h : Text.isBlank c = true) :
    Query.isWordChar c = false := by
  by_contra hword
  have hname := isNameChar_of_isWordChar (Bool.eq_true_of_not_eq_false hword)
  rw [Text.isNameChar_of_isBlank h] at hname
  cases hname

/-! ## Expressions are read back -/

namespace OrderExpression

/-- A text is read as a variable. -/
lemma parse_of_afterSign? {text name : List Char} (h : afterSign? (Text.trim text) = some name)
    (hne : name ≠ []) (hname : ∀ c ∈ name, Text.isNameChar c = true) :
    parse text = .ok (.var (String.ofList name)) := by
  rw [parse]
  simp only [h]
  rw [if_pos ⟨hne, List.all_eq_true.2 hname⟩]

/-- A text in parentheses is read as what stands between them. -/
lemma parse_of_enclosed? {text inner : List Char} (hsign : afterSign? (Text.trim text) = none)
    (h : enclosed? (Text.trim text) = some inner) : parse text = parse inner := by
  rw [parse]
  simp only [hsign]
  split
  · next own hown =>
    rw [h] at hown
    cases hown
    rfl
  · next hown =>
    rw [h] at hown
    cases hown

/-- A text is read as a function of what stands between the parentheses. -/
lemma parse_of_call? {text function argument : List Char}
    (hsign : afterSign? (Text.trim text) = none) (hgroup : enclosed? (Text.trim text) = none)
    (h : call? (Text.trim text) = some (function, argument))
    (hword : (Text.trim function).map Char.toLower = "str".toList) :
    parse text = (parse argument).map str := by
  rw [parse]
  simp only [hsign]
  split
  · next own hown =>
    rw [hgroup] at hown
    cases hown
  · split
    · next function' argument' hown =>
      rw [h] at hown
      cases hown
      rw [if_pos hword]
    · next hown =>
      rw [h] at hown
      cases hown

/-- The text before a closing parenthesis. -/
lemma stripEnd?_append (inner : List Char) : Text.stripEnd? ')' (inner ++ [')']) = some inner := by
  rw [Text.stripEnd?, List.getLast?_concat, if_pos rfl, List.dropLast_concat]

/-- A variable has no blanks at its ends. -/
lemma trim_var {sign : Char} {name : List Char} (hsign : IsSign sign)
    (hname : ∀ c ∈ name, Text.isNameChar c = true) : Text.trim (sign :: name) = sign :: name := by
  refine Text.trim_eq_self (fun c hc => ?_) (fun c hc => ?_)
  · cases hc
    exact hsign.isBlank
  · rcases List.mem_cons.1 (List.mem_of_getLast? hc) with rfl | hc
    · exact hsign.isBlank
    · exact isBlank_of_isNameChar (hname c hc)

/-- Nor has a text that begins in no blank and ends in a closing parenthesis. -/
lemma trim_closed (front : List Char) (h : ∀ c ∈ (front ++ [')']).head?, Text.isBlank c = false) :
    Text.trim (front ++ [')']) = front ++ [')'] := by
  refine Text.trim_eq_self h fun c hc => ?_
  rw [List.getLast?_concat, Option.mem_def, Option.some.injEq] at hc
  rw [← hc]
  decide

/-- Nor has a function with its argument. -/
lemma trim_call {word gap inner : List Char} (hne : word ≠ [])
    (hword : ∀ c ∈ word, Text.isNameChar c = true) :
    Text.trim (word ++ gap ++ '(' :: (inner ++ [')'])) =
      word ++ gap ++ '(' :: (inner ++ [')']) := by
  obtain ⟨w, ws, rfl⟩ := List.exists_cons_of_ne_nil hne
  have hblank := isBlank_of_isNameChar (hword w List.mem_cons_self)
  have hclosed := trim_closed (w :: (ws ++ gap ++ '(' :: inner)) fun c hc => by
    cases hc
    exact hblank
  simpa [List.append_assoc] using hclosed

/-- A name is not the start of a variable nor of a group. -/
lemma not_sign_of_isNameChar {c : Char} (h : Text.isNameChar c = true) :
    c ≠ '?' ∧ c ≠ '$' ∧ c ≠ '(' := by
  refine ⟨?_, ?_, ?_⟩ <;> rintro rfl <;> exact absurd h (by decide)

/-- The function and its argument are found again. -/
lemma call?_append {word gap inner : List Char} (hword : ∀ c ∈ word, Text.isNameChar c = true)
    (hgap : ∀ c ∈ gap, Text.isBlank c = true) :
    call? (word ++ gap ++ '(' :: (inner ++ [')'])) = some (word ++ gap, inner) := by
  have hfront : ∀ c ∈ word ++ gap, decide (c ≠ '(') = true := by
    intro c hc
    rw [decide_eq_true_eq]
    rcases List.mem_append.1 hc with hc | hc
    · exact (not_sign_of_isNameChar (hword c hc)).2.2
    · rintro rfl
      exact absurd (hgap _ hc) (by decide)
  rw [call?, List.dropWhile_append_of_pos hfront, List.takeWhile_append_of_pos hfront,
    List.dropWhile_cons_of_neg (by decide), List.takeWhile_cons_of_neg (by decide),
    List.append_nil]
  simp only [stripEnd?_append, Option.map_some]

/-- The word of a function is what is left without the blanks behind it. -/
lemma trim_function {word gap : List Char} (hword : ∀ c ∈ word, Text.isNameChar c = true)
    (hgap : ∀ c ∈ gap, Text.isBlank c = true) : Text.trim (word ++ gap) = word := by
  have hown : Text.trim word = word := Text.trim_eq_self
    (fun c hc => isBlank_of_isNameChar (hword c (List.mem_of_mem_head? hc)))
    (fun c hc => isBlank_of_isNameChar (hword c (List.mem_of_getLast? hc)))
  have hpadded := Text.trim_padded (List.forall_mem_nil _) hgap word
  rwa [hown] at hpadded

/-- **What is written is read back**, whatever blanks are put around it. -/
theorem Written.parse_of_trim_eq {e : OrderExpression} {text : List Char} (h : e.Written text) :
    ∀ padded, Text.trim padded = Text.trim text → parse padded = .ok e := by
  induction h with
  | @var sign name hsign hne hname =>
    intro padded hpadded
    rw [trim_var hsign hname] at hpadded
    refine parse_of_afterSign? ?_ hne hname
    rw [hpadded]
    rcases hsign with rfl | rfl <;> rfl
  | @group e inner h ih =>
    intro padded hpadded
    have htrim : Text.trim ('(' :: (inner ++ [')'])) = '(' :: (inner ++ [')']) :=
      trim_closed ('(' :: inner) fun c hc => by
        cases hc
        decide
    rw [htrim] at hpadded
    have hsign : afterSign? (Text.trim padded) = none := by
      rw [hpadded]
      rfl
    have hgroup : enclosed? (Text.trim padded) = some inner := by
      rw [hpadded, enclosed?, stripEnd?_append]
    rw [parse_of_enclosed? hsign hgroup, ih inner rfl]
  | @str e word gap inner hword hgap h ih =>
    intro padded hpadded
    have hne : word ≠ [] := by
      rintro rfl
      exact absurd hword (by decide)
    have hname := isNameChar_of_map_toLower hword (by simp)
    rw [trim_call hne hname] at hpadded
    have htrim := trim_function hname hgap
    obtain ⟨w, ws, rfl⟩ := List.exists_cons_of_ne_nil hne
    obtain ⟨hquestion, hdollar, hparen⟩ := not_sign_of_isNameChar (hname w List.mem_cons_self)
    have hsign : afterSign? (Text.trim padded) = none := by
      rw [hpadded]
      simp [afterSign?, hquestion, hdollar]
    have hgroup : enclosed? (Text.trim padded) = none := by
      rw [hpadded]
      simp [enclosed?, hparen]
    have hcall : call? (Text.trim padded) = some (w :: ws ++ gap, inner) := by
      rw [hpadded, call?_append hname hgap]
    rw [parse_of_call? hsign hgroup hcall (by rw [htrim, hword]), ih inner rfl]
    rfl
  | padded hbefore hafter h ih =>
    intro padded hpadded
    refine ih padded ?_
    rw [hpadded, Text.trim_padded hbefore hafter]

/-- What is written is read back. -/
theorem Written.parse {e : OrderExpression} {text : List Char} (h : e.Written text) :
    OrderExpression.parse text = .ok e :=
  h.parse_of_trim_eq text rfl

end OrderExpression

/-! ## Groups are closed where they end -/

namespace OrderCondition

/-! How the end of a group is searched for, character by character. -/

lemma closeGroup?_open (depth : Nat) (cs : List Char) :
    closeGroup? depth ('(' :: cs) =
      (closeGroup? (depth + 1) cs).map fun r => ('(' :: r.1, r.2) := by
  simp [closeGroup?]

lemma closeGroup?_close (depth : Nat) (cs : List Char) :
    closeGroup? (depth + 1) (')' :: cs) =
      (closeGroup? depth cs).map fun r => (')' :: r.1, r.2) := by
  simp [closeGroup?]

lemma closeGroup?_end (cs : List Char) : closeGroup? 0 (')' :: cs) = some ([], cs) := by
  simp [closeGroup?]

lemma closeGroup?_other {c : Char} (hopen : c ≠ '(') (hclose : c ≠ ')') (depth : Nat)
    (cs : List Char) :
    closeGroup? depth (c :: cs) = (closeGroup? depth cs).map fun r => (c :: r.1, r.2) := by
  simp [closeGroup?, hopen, hclose]

end OrderCondition

/-- **A text in which every parenthesis is closed**: the search for the end of a group passes over
it. -/
def Balanced (cs : List Char) : Prop :=
  ∀ depth rest, OrderCondition.closeGroup? depth (cs ++ rest) =
    (OrderCondition.closeGroup? depth rest).map fun r => (cs ++ r.1, r.2)

namespace Balanced

lemma nil : Balanced [] := by
  intro depth rest
  rw [List.nil_append]
  cases OrderCondition.closeGroup? depth rest <;> rfl

lemma append {cs ds : List Char} (hcs : Balanced cs) (hds : Balanced ds) : Balanced (cs ++ ds) := by
  intro depth rest
  rw [List.append_assoc, hcs, hds, Option.map_map]
  congr 1
  funext r
  simp

/-- A character other than a parenthesis changes nothing. -/
lemma cons {c : Char} {cs : List Char} (hopen : c ≠ '(') (hclose : c ≠ ')') (h : Balanced cs) :
    Balanced (c :: cs) := by
  intro depth rest
  rw [List.cons_append, OrderCondition.closeGroup?_other hopen hclose, h, Option.map_map]
  rfl

lemma of_forall {cs : List Char} (h : ∀ c ∈ cs, c ≠ '(' ∧ c ≠ ')') : Balanced cs := by
  induction cs with
  | nil => exact nil
  | cons c cs ih =>
    obtain ⟨hc, hcs⟩ := List.forall_mem_cons.1 h
    exact cons hc.1 hc.2 (ih hcs)

/-- The end of a group is found. -/
lemma closeGroup? {cs : List Char} (h : Balanced cs) (rest : List Char) :
    OrderCondition.closeGroup? 0 (cs ++ ')' :: rest) = some (cs, rest) := by
  rw [h, OrderCondition.closeGroup?_end, Option.map_some, List.append_nil]

lemma group {cs : List Char} (h : Balanced cs) : Balanced ('(' :: (cs ++ [')'])) := by
  intro depth rest
  have hsplit : '(' :: (cs ++ [')']) ++ rest = '(' :: (cs ++ ')' :: rest) := by simp
  rw [hsplit, OrderCondition.closeGroup?_open, h, OrderCondition.closeGroup?_close, Option.map_map,
    Option.map_map]
  congr 1
  funext r
  simp

/-- Names and blanks have no parentheses. -/
lemma of_isNameChar {cs : List Char} (h : ∀ c ∈ cs, Text.isNameChar c = true) : Balanced cs := by
  refine of_forall fun c hc => ⟨?_, ?_⟩ <;> rintro rfl <;> exact absurd (h _ hc) (by decide)

lemma of_isBlank {cs : List Char} (h : ∀ c ∈ cs, Text.isBlank c = true) : Balanced cs := by
  refine of_forall fun c hc => ⟨?_, ?_⟩ <;> rintro rfl <;> exact absurd (h _ hc) (by decide)

end Balanced

/-- Every parenthesis of an expression is closed. -/
lemma OrderExpression.Written.balanced {e : OrderExpression} {text : List Char}
    (h : e.Written text) : Balanced text := by
  induction h with
  | var hsign hne hname =>
    refine .cons ?_ ?_ (.of_isNameChar hname)
    · rcases hsign with rfl | rfl <;> decide
    · rcases hsign with rfl | rfl <;> decide
  | group h ih => exact ih.group
  | str hword hgap h ih =>
    have hname : Balanced _ := .of_isNameChar (isNameChar_of_map_toLower hword (by simp))
    exact (hname.append (.of_isBlank hgap)).append ih.group
  | padded hbefore hafter h ih =>
    exact ((Balanced.of_isBlank hbefore).append ih).append (.of_isBlank hafter)

/-! ## Conditions are read back -/

namespace OrderCondition

/-- A group and the word before it are read as one condition. -/
lemma parseAll_group (word gap : List Char) {inner rest : List Char} {condition : OrderCondition}
    (hword : ∀ c ∈ word, Text.isNameChar c = true) (hgap : ∀ c ∈ gap, Text.isBlank c = true)
    (hstart : word = [] → gap = []) (hinner : Balanced inner)
    (h : ofGroup word gap inner = .ok condition) :
    parseAll (word ++ gap ++ '(' :: (inner ++ [')']) ++ rest) =
      (parseAll rest).map (condition :: ·) := by
  have hsplit : word ++ gap ++ '(' :: (inner ++ [')']) ++ rest =
      word ++ (gap ++ '(' :: (inner ++ ')' :: rest)) := by simp
  -- Behind the word stands a blank or the parenthesis.
  have hend : ∀ c ∈ (gap ++ '(' :: (inner ++ ')' :: rest)).head?, Text.isNameChar c = false := by
    intro c hc
    rcases gap with _ | ⟨g, gap⟩
    · cases hc
      decide
    · cases hc
      exact Text.isNameChar_of_isBlank (hgap _ List.mem_cons_self)
  have htake := Text.takeWhile_run hword hend
  have hdrop := Text.dropWhile_run hword hend
  have hparen : ∀ c ∈ ('(' :: (inner ++ ')' :: rest)).head?, Text.isBlank c = false := by
    intro c hc
    cases hc
    decide
  have hgapTake := Text.takeWhile_run hgap hparen
  have hgapDrop := Text.dropWhile_run hgap hparen
  rw [hsplit]
  -- The first character is one of the word or the parenthesis.
  obtain ⟨c, cs, hcs, hblank, hsign⟩ : ∃ c cs,
      word ++ (gap ++ '(' :: (inner ++ ')' :: rest)) = c :: cs ∧ Text.isBlank c = false ∧
        ¬(c = '?' ∨ c = '$') := by
    rcases word with _ | ⟨w, word⟩
    · rw [hstart rfl]
      exact ⟨'(', _, rfl, by decide, by decide⟩
    · have hw := hword w List.mem_cons_self
      obtain ⟨hquestion, hdollar, -⟩ := OrderExpression.not_sign_of_isNameChar hw
      exact ⟨w, _, rfl, isBlank_of_isNameChar hw, by tauto⟩
  rw [hcs] at htake hdrop ⊢
  rw [← hdrop] at hgapDrop
  rw [parseAll, if_neg (by simp [hblank]), if_neg hsign]
  simp only [htake, hdrop, hgapTake]
  split
  · next body hbody =>
    rw [hgapDrop] at hbody
    cases hbody
    split
    · next hclose =>
      rw [hinner.closeGroup?] at hclose
      cases hclose
    · next inside rest' hclose =>
      rw [hinner.closeGroup?] at hclose
      cases hclose
      rw [h]
  · next hbody => exact absurd hgapDrop (hbody _)

/-- A condition is read off the start of a text, unless the name of a variable goes on. -/
theorem Written.parseAll_append {condition : OrderCondition} {text rest : List Char}
    (h : condition.Written text)
    (hend : ∀ c ∈ text.getLast?, Text.isNameChar c = true →
      ∀ d ∈ rest.head?, Text.isNameChar d = false) :
    parseAll (text ++ rest) = (parseAll rest).map (condition :: ·) := by
  cases h with
  | @bare sign name hsign hne hname =>
    have hrest : ∀ d ∈ rest.head?, Text.isNameChar d = false := by
      rw [List.getLast?_cons_of_ne_nil hne] at hend
      have hlast := List.getLast?_eq_some_getLast hne
      exact hend _ hlast (hname _ (List.getLast_mem hne))
    have hof : ofText (sign :: name) .ascending =
        .ok ⟨String.ofList (sign :: name), .ascending⟩ := by
      rw [ofText, (OrderExpression.Written.var hsign hne hname).parse]
      rfl
    rw [List.cons_append, parseAll, if_neg (by simp [hsign.isBlank]),
      if_pos (show sign = '?' ∨ sign = '$' from hsign), Text.takeWhile_run hname hrest,
      Text.dropWhile_run hname hrest, hof]
  | @directed e direction word gap inner hdirection hgap hinner =>
    have hname := isNameChar_of_ofName? hdirection
    have hne : word ≠ [] := by
      rintro rfl
      rw [ofName?_nil] at hdirection
      cases hdirection
    refine parseAll_group word gap hname hgap (fun h => absurd h hne) hinner.balanced ?_
    rw [ofGroup, hdirection]
    simp only [ofText]
    rw [hinner.parse_of_trim_eq _ (Text.trim_trim inner)]
    rfl
  | @str e word gap inner hword hgap hinner =>
    have hletters := isNameChar_of_map_toLower hword (by simp)
    have hne : word ≠ [] := by
      rintro rfl
      exact absurd hword (by decide)
    have hname : Direction.ofName? (String.ofList word) = none := by
      by_contra hsome
      obtain ⟨direction, hdirection⟩ := Option.ne_none_iff_exists'.1 hsome
      rcases map_toLower_of_ofName? hdirection with hlower | hlower
      · exact absurd (hword.symm.trans hlower) (by decide)
      · exact absurd (hword.symm.trans hlower) (by decide)
    have hsame : word ++ gap ++ '(' :: inner ++ [')'] = word ++ gap ++ '(' :: (inner ++ [')']) := by
      simp
    refine parseAll_group word gap hletters hgap (fun h => absurd h hne) hinner.balanced ?_
    rw [ofGroup, hname]
    simp only [ofText]
    rw [hsame, OrderExpression.trim_call hne hletters,
      (OrderExpression.Written.str hword hgap hinner).parse]
    rfl
  | @group e inner hinner =>
    have hsame : [] ++ [] ++ '(' :: inner ++ [')'] = '(' :: (inner ++ [')']) := by simp
    have htrim : Text.trim ('(' :: (inner ++ [')'])) = '(' :: (inner ++ [')']) :=
      OrderExpression.trim_closed ('(' :: inner) fun c hc => by
        cases hc
        decide
    refine parseAll_group [] [] (List.forall_mem_nil _) (List.forall_mem_nil _) (fun _ => rfl)
      hinner.balanced ?_
    rw [ofGroup, ofName?_nil]
    simp only [ofText]
    rw [hsame, htrim, (OrderExpression.Written.group hinner).parse]
    rfl

/-- **What is written is read back.** -/
theorem AllWritten.parseAll {conditions : List OrderCondition} {text : List Char}
    (h : AllWritten conditions text) : OrderCondition.parseAll text = .ok conditions := by
  induction h with
  | nil => rw [OrderCondition.parseAll]
  | blank hc h ih => rw [OrderCondition.parseAll, if_pos hc, ih]
  | cons hcondition hend h ih =>
    rw [hcondition.parseAll_append hend, ih]
    rfl

/-- One condition, with nothing behind it. -/
lemma AllWritten.single {condition : OrderCondition} {text : List Char}
    (h : condition.Written text) : AllWritten [condition] text := by
  rw [← List.append_nil text]
  refine .cons h (fun _ _ _ d hd => ?_) .nil
  cases hd

/-- Blanks may stand behind all conditions. -/
lemma AllWritten.append_blanks {conditions : List OrderCondition} {text blanks : List Char}
    (h : AllWritten conditions text) (hblanks : ∀ c ∈ blanks, Text.isBlank c = true) :
    AllWritten conditions (text ++ blanks) := by
  induction h with
  | nil =>
    induction blanks with
    | nil => exact .nil
    | cons c blanks ih =>
      obtain ⟨hc, hmore⟩ := List.forall_mem_cons.1 hblanks
      exact .blank hc (ih hmore)
  | blank hc h ih => exact .blank hc ih
  | @cons condition conditions text rest hcondition hend h ih =>
    rw [List.append_assoc]
    refine .cons hcondition (fun c hc hname d hd => ?_) ih
    cases rest with
    | nil => exact Text.isNameChar_of_isBlank (hblanks d (List.mem_of_mem_head? hd))
    | cons r rest => exact hend c hc hname d hd

end OrderCondition

/-! ## Characters of a clause -/

/-- **A character that an order clause may hold**: of a name, a blank, a sign or a parenthesis. -/
def IsClauseChar (c : Char) : Prop :=
  Text.isNameChar c = true ∨ Text.isBlank c = true ∨ IsSign c ∨ c = '(' ∨ c = ')'

lemma isClauseChar_call (word gap : List Char) {inner : List Char}
    (hword : ∀ c ∈ word, Text.isNameChar c = true)
    (hgap : ∀ c ∈ gap, Text.isBlank c = true) (hinner : ∀ c ∈ inner, IsClauseChar c) :
    ∀ c ∈ word ++ gap ++ '(' :: (inner ++ [')']), IsClauseChar c := by
  intro c hc
  simp only [List.mem_append, List.mem_cons, List.not_mem_nil, or_false] at hc
  rcases hc with (hc | hc) | rfl | hc | rfl
  · exact .inl (hword c hc)
  · exact .inr (.inl (hgap c hc))
  · exact .inr (.inr (.inr (.inl rfl)))
  · exact hinner c hc
  · exact .inr (.inr (.inr (.inr rfl)))

lemma isClauseChar_variable {sign : Char} {name : List Char} (hsign : IsSign sign)
    (hname : ∀ c ∈ name, Text.isNameChar c = true) : ∀ c ∈ sign :: name, IsClauseChar c :=
  List.forall_mem_cons.2 ⟨.inr (.inr (.inl hsign)), fun c hc => .inl (hname c hc)⟩

lemma OrderExpression.Written.isClauseChar {e : OrderExpression} {text : List Char}
    (h : e.Written text) : ∀ c ∈ text, IsClauseChar c := by
  induction h with
  | var hsign hne hname => exact isClauseChar_variable hsign hname
  | group h ih => exact isClauseChar_call [] [] (List.forall_mem_nil _) (List.forall_mem_nil _) ih
  | str hword hgap h ih =>
    exact isClauseChar_call _ _ (isNameChar_of_map_toLower hword (by simp)) hgap ih
  | padded hbefore hafter h ih =>
    intro c hc
    rcases List.mem_append.1 hc with hc | hc
    · exact (List.mem_append.1 hc).elim (fun hc => .inr (.inl (hbefore c hc))) (ih c)
    · exact .inr (.inl (hafter c hc))

lemma OrderCondition.Written.isClauseChar {condition : OrderCondition} {text : List Char}
    (h : condition.Written text) : ∀ c ∈ text, IsClauseChar c := by
  cases h with
  | bare hsign hne hname => exact isClauseChar_variable hsign hname
  | directed hdirection hgap hinner =>
    exact isClauseChar_call _ _ (isNameChar_of_ofName? hdirection) hgap hinner.isClauseChar
  | str hword hgap hinner =>
    exact isClauseChar_call _ _ (isNameChar_of_map_toLower hword (by simp)) hgap
      hinner.isClauseChar
  | group hinner =>
    exact isClauseChar_call [] [] (List.forall_mem_nil _) (List.forall_mem_nil _)
      hinner.isClauseChar

/-- **What stands in an order clause.** -/
theorem OrderCondition.AllWritten.isClauseChar {conditions : List OrderCondition}
    {text : List Char} (h : AllWritten conditions text) : ∀ c ∈ text, IsClauseChar c := by
  induction h with
  | nil => exact List.forall_mem_nil _
  | blank hc h ih => exact List.forall_mem_cons.2 ⟨.inr (.inl hc), ih⟩
  | cons hcondition hend h ih =>
    intro c hc
    exact (List.mem_append.1 hc).elim (hcondition.isClauseChar c) (ih c)

/-! ## No keyword begins in a clause -/

/-- **A text whose names are ASCII.** -/
def AsciiNames (cs : List Char) : Prop :=
  ∀ c ∈ cs, Text.isNameChar c = true → Query.isWordChar c = true

instance (cs : List Char) : Decidable (AsciiNames cs) :=
  List.decidableBAll (fun c => Text.isNameChar c = true → Query.isWordChar c = true) cs

namespace Query

/-- Nothing begins where there are no letters. -/
lemma quiet_of_not_isAlpha {guard : Option Char → Bool} {initials : List Char}
    {before : Option Char} {cs : List Char} (hinitials : ∀ c ∈ initials, c.isAlpha = true)
    (h : ∀ c ∈ cs, c.isAlpha = false) : Quiet guard initials before cs := by
  refine quiet_of_forall fun c hc hmem => ?_
  have hletter := hinitials _ hmem
  rw [Char.isAlpha_toLower_eq_isAlpha, h c hc] at hletter
  cases hletter

lemma isAlpha_of_isBlank {c : Char} (h : Text.isBlank c = true) : c.isAlpha = false := by
  by_contra hletter
  rw [Bool.not_eq_false] at hletter
  rw [isBlank_of_isNameChar (isNameChar_of_isAlpha hletter)] at h
  cases h

/-- Nothing begins in a word that holds none of the letters. -/
lemma quiet_of_map_toLower {guard : Option Char → Bool} {initials : List Char}
    {before : Option Char} {word spelling : List Char} (h : spelling.map Char.toLower = word)
    (hword : ∀ c ∈ word, c ∉ initials) : Quiet guard initials before spelling :=
  quiet_of_forall fun _ hc => hword _ (h ▸ List.mem_map_of_mem hc)

/-- **Nothing begins in a variable**, whatever its name is. -/
lemma quiet_variable {before : Option Char} {sign : Char} {name : List Char} (hsign : IsSign sign)
    (hname : ∀ c ∈ name, isWordChar c = true) :
    Quiet notVariable ['o', 'l'] before (sign :: name) := by
  refine ⟨fun _ => ?_, quiet_of_closed ?_ fun c hc => ?_⟩
  · rcases hsign with rfl | rfl <;> decide
  · rcases hsign with rfl | rfl <;> rfl
  · simp [notVariable, hname c hc]

lemma quiet_call {before : Option Char} (word gap : List Char) {inner : List Char}
    (hword : ∀ before, Quiet notVariable ['o', 'l'] before word)
    (hgap : ∀ c ∈ gap, Text.isBlank c = true)
    (hinner : ∀ before, Quiet notVariable ['o', 'l'] before inner) :
    Quiet notVariable ['o', 'l'] before (word ++ gap ++ '(' :: (inner ++ [')'])) := by
  refine quiet_append (quiet_append (hword _) ?_) ⟨fun _ => by decide, quiet_append (hinner _) ?_⟩
  · exact quiet_of_not_isAlpha (by simp) fun c hc => isAlpha_of_isBlank (hgap c hc)
  · exact ⟨fun _ => by decide, trivial⟩

end Query

lemma OrderExpression.Written.quiet {e : OrderExpression} {text : List Char} (h : e.Written text)
    (hascii : AsciiNames text) :
    ∀ before, Query.Quiet Query.notVariable ['o', 'l'] before text := by
  induction h with
  | var hsign hne hname =>
    intro before
    exact Query.quiet_variable hsign fun c hc =>
      hascii c (List.mem_cons_of_mem _ hc) (hname c hc)
  | group h ih =>
    intro before
    exact Query.quiet_call [] [] (fun _ => trivial) (List.forall_mem_nil _)
      (ih fun c hc => hascii c (by simp [hc]))
  | str hword hgap h ih =>
    intro before
    exact Query.quiet_call _ _ (fun _ => Query.quiet_of_map_toLower hword (by simp)) hgap
      (ih fun c hc => hascii c (by simp [hc]))
  | padded hbefore hafter h ih =>
    intro before
    have hblanks {blanks : List Char} {before : Option Char}
        (h : ∀ c ∈ blanks, Text.isBlank c = true) :
        Query.Quiet Query.notVariable ['o', 'l'] before blanks :=
      Query.quiet_of_not_isAlpha (by simp) fun c hc => Query.isAlpha_of_isBlank (h c hc)
    exact Query.quiet_append
      (Query.quiet_append (hblanks hbefore) (ih (fun c hc => hascii c (by simp [hc])) _))
      (hblanks hafter)

lemma OrderCondition.Written.quiet {condition : OrderCondition} {text : List Char}
    (h : condition.Written text) (hascii : AsciiNames text) :
    ∀ before, Query.Quiet Query.notVariable ['o', 'l'] before text := by
  intro before
  cases h with
  | bare hsign hne hname =>
    exact (OrderExpression.Written.var hsign hne hname).quiet hascii before
  | directed hdirection hgap hinner =>
    refine Query.quiet_call _ _ (fun _ => ?_) hgap
      (hinner.quiet fun c hc => hascii c (by simp [hc]))
    rcases map_toLower_of_ofName? hdirection with hword | hword
    · exact Query.quiet_of_map_toLower hword (by simp)
    · exact Query.quiet_of_map_toLower hword (by simp)
  | str hword hgap hinner =>
    exact (OrderExpression.Written.str hword hgap hinner).quiet hascii before
  | group hinner => exact (OrderExpression.Written.group hinner).quiet hascii before

/-- **No keyword begins in an order clause** whose names are ASCII. -/
theorem OrderCondition.AllWritten.quiet {conditions : List OrderCondition} {text : List Char}
    (h : AllWritten conditions text) (hascii : AsciiNames text) :
    ∀ before, Query.Quiet Query.notVariable ['o', 'l'] before text := by
  induction h with
  | nil => exact fun _ => trivial
  | @blank c _ _ hc h ih =>
    intro before
    have hblank : Query.Quiet Query.notVariable ['o', 'l'] before [c] :=
      Query.quiet_of_not_isAlpha (by simp) (by simp [Query.isAlpha_of_isBlank hc])
    exact ⟨hblank.1, ih (fun d hd => hascii d (List.mem_cons_of_mem _ hd)) _⟩
  | cons hcondition hend h ih =>
    intro before
    exact Query.quiet_append (hcondition.quiet (fun c hc => hascii c (by simp [hc])) _)
      (ih (fun c hc => hascii c (by simp [hc])) _)

end PagedTopK
