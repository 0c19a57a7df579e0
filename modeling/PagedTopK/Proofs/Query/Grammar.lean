import PagedTopK.Proofs.Query.OrderClause

set_option autoImplicit false

/-!
# Solution modifiers as they are written

The text behind the last closing brace of a query, put together from its clauses: an order clause, a
limit and an offset in either order, and white space. For every part this file says where a search
for a keyword stops in it.

## Main definitions

* `Query.NumberClause`, `Query.LimitClause`, `Query.OrderClause` — the clauses.
* `Query.Slice` — the clauses that say which part of the answers is asked for.
* `Query.Modifiers` — all solution modifiers of a query.

## Main results

* `Query.Modifiers.search_orderBy`, `Query.Modifiers.search_orderBy_eq_none` — the order clause is
  found where it stands.
* `Query.Modifiers.beforeModifier?_text` — so is the first modifier.
* `Query.Slice.search_limit` — so is the limit.
-/

namespace PagedTopK.Query

/-! ## White space -/

/-- **White space of ASCII**, perhaps none. -/
structure Spaces where
  /-- The characters. -/
  text : List Char
  /-- All of them are white space. -/
  forall_isSpace : ∀ c ∈ text, isSpace c = true

/-- **White space between two words.** -/
structure Gap extends Spaces where
  /-- There is some. -/
  text_ne : text ≠ []

/-- No white space. -/
def Spaces.none : Spaces := ⟨[], List.forall_mem_nil _⟩

/-- White space and more of it. -/
def Spaces.append (a b : Spaces) : Spaces where
  text := a.text ++ b.text
  forall_isSpace := fun c hc =>
    (List.mem_append.1 hc).elim (a.forall_isSpace c) (b.forall_isSpace c)

/-- One space. -/
def Gap.single : Gap where
  text := [' ']
  forall_isSpace := by simp [isSpace]
  text_ne := by simp

/-- A space is no character of a name. -/
lemma isWordChar_of_isSpace {c : Char} (h : isSpace c = true) : isWordChar c = false :=
  isWordChar_of_isBlank (isBlank_of_isSpace h)

/-- Nor is a letter a space. -/
lemma isSpace_of_isAlpha {c : Char} (h : c.isAlpha = true) : isSpace c = false := by
  by_contra hspace
  rw [isAlpha_of_isBlank (isBlank_of_isSpace (Bool.eq_true_of_not_eq_false hspace))] at h
  cases h

/-- So no space begins a keyword. -/
lemma isSpace_of_spelled {word spelling : List Char} (h : spelling.map Char.toLower = word)
    (hword : ∀ c ∈ word, c.isAlpha = true) (hne : word ≠ []) (rest : List Char) :
    ∀ c ∈ (spelling ++ rest).head?, isSpace c = false := by
  have hspelling : spelling ≠ [] := by
    rintro rfl
    exact hne h.symm
  intro c hc
  rw [List.head?_append_of_ne_nil _ hspelling] at hc
  exact isSpace_of_isAlpha (isAlpha_of_map_toLower h hword c (List.mem_of_mem_head? hc))

/-- A modifier may begin behind a space. -/
lemma notVariable_of_isSpace {c : Char} (h : isSpace c = true) : notVariable (some c) = true := by
  have hquestion : c ≠ '?' := by
    rintro rfl
    exact absurd h (by decide)
  have hdollar : c ≠ '$' := by
    rintro rfl
    exact absurd h (by decide)
  simp [notVariable, isWordChar_of_isSpace h, hquestion, hdollar]

namespace Spaces

variable (spaces : Spaces)

lemma quiet {guard : Option Char → Bool} {initials : List Char} {before : Option Char}
    (hinitials : ∀ c ∈ initials, c.isAlpha = true) : Quiet guard initials before spaces.text :=
  quiet_of_not_isAlpha hinitials fun c hc =>
    isAlpha_of_isBlank (isBlank_of_isSpace (spaces.forall_isSpace c hc))

lemma isClauseChar : ∀ c ∈ spaces.text, IsClauseChar c := fun c hc =>
  .inr (.inl (isBlank_of_isSpace (spaces.forall_isSpace c hc)))

/-- Behind white space a modifier may begin if it may begin before. -/
lemma notVariable_getLast? {before : Option Char} (h : notVariable before = true) :
    notVariable (spaces.text.getLast?.or before) = true := by
  cases hlast : spaces.text.getLast? with
  | none => exact h
  | some c => exact notVariable_of_isSpace (spaces.forall_isSpace c (List.mem_of_getLast? hlast))

end Spaces

namespace Gap

variable (gap : Gap)

/-- Behind a gap a modifier may begin. -/
lemma notVariable_getLast? {before : Option Char} :
    notVariable (gap.text.getLast?.or before) = true := by
  rw [List.getLast?_eq_some_getLast gap.text_ne]
  exact notVariable_of_isSpace (gap.forall_isSpace _ (List.getLast_mem gap.text_ne))

/-- A word ends where a gap begins. -/
lemma boundary_append (rest : List Char) : boundary (gap.text ++ rest).head? = true := by
  obtain ⟨c, more, hcs⟩ := List.exists_cons_of_ne_nil gap.text_ne
  have hc := gap.forall_isSpace c (hcs ▸ List.mem_cons_self)
  rw [hcs, List.cons_append, List.head?_cons, boundary, isWordChar_of_isSpace hc]
  rfl

end Gap

/-! ## Numbers -/

/-- **A clause of a keyword and a number**, the keyword in letters of either case. -/
structure NumberClause (keyword : String) where
  /-- The keyword as it is spelled. -/
  word : List Char
  /-- What stands between keyword and number. -/
  gap : Gap
  /-- The digits of the number. -/
  digits : List Char
  /-- The spelling is one of the keyword. -/
  spelled : word.map Char.toLower = keyword.toList
  /-- A number has a digit. -/
  digits_ne : digits ≠ []
  /-- A number has nothing but digits. -/
  forall_isDigit : ∀ c ∈ digits, c.isDigit = true

/-- **A limit**, by a number that fits in 64 bits. -/
structure LimitClause extends NumberClause "limit" where
  /-- The number fits. -/
  value_lt : Digits.value digits < Digits.word64

/-- **An offset.** -/
abbrev OffsetClause := NumberClause "offset"

lemma isAlpha_of_isDigit {c : Char} (h : c.isDigit = true) : c.isAlpha = false := by
  by_contra hletter
  rw [Bool.not_eq_false] at hletter
  simp only [Char.isDigit, Char.isAlpha, Char.isUpper, Char.isLower, Bool.or_eq_true,
    Bool.and_eq_true, decide_eq_true_eq, ge_iff_le, UInt32.le_iff_toNat_le] at h hletter
  have hbounds : '9'.val.toNat < 'A'.val.toNat ∧ '9'.val.toNat < 'a'.val.toNat := by decide
  omega

lemma isWordChar_of_isDigit {c : Char} (h : c.isDigit = true) : isWordChar c = true := by
  simp [isWordChar, Char.isAlphanum, h]

lemma isNameChar_of_isDigit {c : Char} (h : c.isDigit = true) : Text.isNameChar c = true :=
  isNameChar_of_isWordChar (isWordChar_of_isDigit h)

/-- A space is no digit. -/
lemma isDigit_of_isSpace {c : Char} (h : isSpace c = true) : c.isDigit = false := by
  by_contra hdigit
  have hword := isWordChar_of_isDigit (Bool.eq_true_of_not_eq_false hdigit)
  rw [isWordChar_of_isSpace h] at hword
  cases hword

namespace NumberClause

variable {keyword : String} (clause : NumberClause keyword)

/-- The text of a clause. -/
def text : List Char := clause.word ++ clause.gap.text ++ clause.digits

lemma stripWord?_append (rest : List Char) :
    stripWord? keyword.toList (clause.text ++ rest) =
      some (clause.gap.text ++ (clause.digits ++ rest)) := by
  rw [text, List.append_assoc, List.append_assoc]
  exact Query.stripWord?_append clause.spelled _

/-- Every letter of a clause is a letter of its keyword. -/
lemma toLower_mem {c : Char} (hc : c ∈ clause.text) (hletter : c.isAlpha = true) :
    c.toLower ∈ keyword.toList := by
  rw [text, List.mem_append, List.mem_append] at hc
  rcases hc with (hc | hc) | hc
  · exact clause.spelled ▸ List.mem_map_of_mem hc
  · have hspace := isAlpha_of_isBlank (isBlank_of_isSpace (clause.gap.forall_isSpace c hc))
    rw [hspace] at hletter
    cases hletter
  · rw [isAlpha_of_isDigit (clause.forall_isDigit c hc)] at hletter
    cases hletter

lemma isClauseChar (hkeyword : ∀ c ∈ keyword.toList, c.isAlpha = true) :
    ∀ c ∈ clause.text, IsClauseChar c := by
  intro c hc
  rw [text, List.mem_append, List.mem_append] at hc
  rcases hc with (hc | hc) | hc
  · exact .inl (isNameChar_of_isAlpha (isAlpha_of_map_toLower clause.spelled hkeyword c hc))
  · exact clause.gap.isClauseChar c hc
  · exact .inl (isNameChar_of_isDigit (clause.forall_isDigit c hc))

/-- A clause is quiet for letters that its keyword does not have. -/
lemma quiet {guard : Option Char → Bool} {initials : List Char} {before : Option Char}
    (hinitials : ∀ c ∈ initials, c.isAlpha = true) (hkeyword : ∀ c ∈ initials, c ∉ keyword.toList) :
    Quiet guard initials before clause.text := by
  refine quiet_of_forall fun c hc hmem => hkeyword _ hmem (clause.toLower_mem hc ?_)
  rw [← Char.isAlpha_toLower_eq_isAlpha]
  exact hinitials _ hmem

/-- A clause ends in a digit. -/
lemma getLast?_text : ∃ d, clause.text.getLast? = some d ∧ d.isDigit = true := by
  have hlast := List.getLast?_eq_some_getLast clause.digits_ne
  refine ⟨_, ?_, clause.forall_isDigit _ (List.getLast_mem clause.digits_ne)⟩
  rw [text, List.getLast?_append, hlast, Option.some_or]

end NumberClause

/-- A limit begins a modifier. -/
lemma LimitClause.modifier (clause : LimitClause) {before : Option Char}
    (hbefore : notVariable before = true) (rest : List Char) :
    modifier before (clause.text ++ rest) = some () :=
  modifier_eq_some_iff.2 ⟨hbefore, _, clause.gap.boundary_append _,
    .inr (.inl (clause.stripWord?_append rest))⟩

/-- So does an offset. -/
lemma OffsetClause.modifier (clause : OffsetClause) {before : Option Char}
    (hbefore : notVariable before = true) (rest : List Char) :
    modifier before (clause.text ++ rest) = some () :=
  modifier_eq_some_iff.2 ⟨hbefore, _, clause.gap.boundary_append _,
    .inr (.inr (clause.stripWord?_append rest))⟩

/-- A limit is read. -/
lemma LimitClause.limit (clause : LimitClause) {before : Option Char}
    (hbefore : notVariable before = true) {rest : List Char}
    (hrest : ∀ c ∈ rest.head?, c.isDigit = false) :
    limit before (clause.text ++ rest) = some (clause.digits, rest) := by
  have hdigits : ∀ c ∈ (clause.digits ++ rest).head?, isSpace c = false := by
    obtain ⟨d, ds, hcons⟩ := List.exists_cons_of_ne_nil clause.digits_ne
    have hd := clause.forall_isDigit d (hcons ▸ List.mem_cons_self)
    intro c hc
    rw [hcons, List.cons_append, List.head?_cons, Option.mem_def, Option.some.injEq] at hc
    subst hc
    by_contra hspace
    rw [isDigit_of_isSpace (Bool.eq_true_of_not_eq_false hspace)] at hd
    cases hd
  refine limit_eq_some_iff.2 ⟨hbefore, _, clause.digits ++ rest, clause.stripWord?_append rest,
    stripSpaces?_append clause.gap.text_ne clause.gap.forall_isSpace hdigits, ?_,
    clause.digits_ne, ?_⟩
  · rw [Text.takeWhile_run clause.forall_isDigit hrest]
  · rw [Text.dropWhile_run clause.forall_isDigit hrest]

/-! ## Conditions -/

/-- **An order clause**: both words in letters of either case, and conditions over ASCII names. -/
structure OrderClause where
  /-- The first word as it is spelled. -/
  first : List Char
  /-- What stands between the words. -/
  gap : Gap
  /-- The second word as it is spelled. -/
  second : List Char
  /-- The conditions. -/
  conditions : List OrderCondition
  /-- The text of the conditions. -/
  body : List Char
  /-- The first word is `ORDER`. -/
  spelled_first : first.map Char.toLower = "order".toList
  /-- The second word is `BY`. -/
  spelled_second : second.map Char.toLower = "by".toList
  /-- There is a condition. -/
  conditions_ne : conditions ≠ []
  /-- The text writes the conditions. -/
  written : OrderCondition.AllWritten conditions body
  /-- The variables have ASCII names. -/
  ascii : AsciiNames body
  /-- The second word does not go on. -/
  boundary_body : boundary body.head? = true
  /-- Blanks behind the last condition are not part of the clause. -/
  ends : ∀ c ∈ body.getLast?, Text.isBlank c = false

/-- The second word in capital letters. -/
lemma spelled_by : "BY".toList.map Char.toLower = "by".toList := by decide

namespace OrderClause

variable (clause : OrderClause)

/-- The text of a clause. -/
def text : List Char := clause.first ++ clause.gap.text ++ clause.second ++ clause.body

lemma body_ne : clause.body ≠ [] := by
  intro hnil
  have hread := clause.written.parseAll
  rw [hnil, OrderCondition.parseAll] at hread
  exact clause.conditions_ne (Except.ok.inj hread).symm

lemma boundary_append (rest : List Char) : boundary (clause.body ++ rest).head? = true := by
  rw [List.head?_append_of_ne_nil _ clause.body_ne]
  exact clause.boundary_body

/-- Both words are read. -/
lemma stripTwoWords? (rest : List Char) :
    stripTwoWords? "order".toList "by".toList (clause.text ++ rest) =
      some (clause.body ++ rest) := by
  rw [text, List.append_assoc]
  exact stripTwoWords?_append clause.spelled_first clause.gap.text_ne clause.gap.forall_isSpace
    clause.spelled_second (isSpace_of_spelled clause.spelled_second (by simp) (by simp) _)

/-- An order clause is read. -/
lemma orderBy {before : Option Char} (hbefore : boundary before = true) (rest : List Char) :
    orderBy before (clause.text ++ rest) = some (clause.body ++ rest) :=
  orderBy_eq_some_iff.2 ⟨hbefore, clause.stripTwoWords? rest, clause.boundary_append rest⟩

/-- An order clause begins a modifier. -/
lemma modifier {before : Option Char} (hbefore : notVariable before = true) (rest : List Char) :
    modifier before (clause.text ++ rest) = some () :=
  modifier_eq_some_iff.2
    ⟨hbefore, _, clause.boundary_append rest, .inl (clause.stripTwoWords? rest)⟩

/-- No keyword begins in the conditions. -/
lemma quiet_body (before : Option Char) : Quiet notVariable ['o', 'l'] before clause.body :=
  clause.written.quiet clause.ascii before

/-- No limit begins in an order clause. -/
lemma quiet (before : Option Char) : Quiet notVariable ['l'] before clause.text := by
  refine quiet_append (quiet_append (quiet_append ?_ ?_) ?_)
    ((clause.quiet_body _).mono (by simp))
  · exact quiet_of_map_toLower clause.spelled_first (by simp)
  · exact clause.gap.quiet (by simp)
  · exact quiet_of_map_toLower clause.spelled_second (by simp)

lemma isClauseChar : ∀ c ∈ clause.text, IsClauseChar c := by
  intro c hc
  rw [text, List.mem_append, List.mem_append, List.mem_append] at hc
  rcases hc with ((hc | hc) | hc) | hc
  · exact .inl (isNameChar_of_isAlpha
      (isAlpha_of_map_toLower clause.spelled_first (by simp) c hc))
  · exact clause.gap.isClauseChar c hc
  · exact .inl (isNameChar_of_isAlpha
      (isAlpha_of_map_toLower clause.spelled_second (by simp) c hc))
  · exact clause.written.isClauseChar c hc

end OrderClause

/-! ## Parts of the answers -/

/-- **Which part of the answers is asked for**: a limit and an offset, either, or neither. -/
inductive Slice
  /-- All of them. -/
  | all
  /-- The first ones. -/
  | limit (limit : LimitClause)
  /-- All but the first ones. -/
  | offset (offset : OffsetClause)
  /-- A part of them. -/
  | limitOffset (limit : LimitClause) (gap : Gap) (offset : OffsetClause)
  /-- A part of them, written the other way round. -/
  | offsetLimit (offset : OffsetClause) (gap : Gap) (limit : LimitClause)

namespace Slice

/-- The text of the clauses. -/
def text : Slice → List Char
  | all => []
  | limit l => l.text
  | offset o => o.text
  | limitOffset l gap o => l.text ++ gap.text ++ o.text
  | offsetLimit o gap l => o.text ++ gap.text ++ l.text

/-- The limit, if there is one. -/
def limit? : Slice → Option LimitClause
  | limit l | limitOffset l _ _ | offsetLimit _ _ l => some l
  | all | offset _ => none

/-- The offset, if there is one. -/
def offset? : Slice → Option OffsetClause
  | offset o | limitOffset _ _ o | offsetLimit o _ _ => some o
  | all | limit _ => none

/-- The text before the limit; all of it, if there is none. -/
def front : Slice → List Char
  | offset o => o.text
  | offsetLimit o gap _ => o.text ++ gap.text
  | all | limit _ | limitOffset _ _ _ => []

/-- The text behind the limit. -/
def back : Slice → List Char
  | limitOffset _ gap o => gap.text ++ o.text
  | all | limit _ | offset _ | offsetLimit _ _ _ => []

lemma text_eq_append (slice : Slice) :
    slice.text = slice.front ++ (slice.limit?.elim [] fun l => l.text) ++ slice.back := by
  cases slice <;> simp [text, front, back, limit?]

lemma isClauseChar (slice : Slice) : ∀ c ∈ slice.text, IsClauseChar c := by
  have hlimit (l : LimitClause) : ∀ c ∈ l.text, IsClauseChar c := l.isClauseChar (by simp)
  have hoffset (o : OffsetClause) : ∀ c ∈ o.text, IsClauseChar c := o.isClauseChar (by simp)
  cases slice with
  | all => exact List.forall_mem_nil _
  | limit l => exact hlimit l
  | offset o => exact hoffset o
  | limitOffset l gap o =>
    intro c hc
    rw [text, List.mem_append, List.mem_append] at hc
    exact hc.elim (fun hc => hc.elim (hlimit l c) (gap.isClauseChar c)) (hoffset o c)
  | offsetLimit o gap l =>
    intro c hc
    rw [text, List.mem_append, List.mem_append] at hc
    exact hc.elim (fun hc => hc.elim (hoffset o c) (gap.isClauseChar c)) (hlimit l c)

/-- Any clause begins a modifier. -/
lemma modifier {slice : Slice} (hslice : slice ≠ all) {before : Option Char}
    (hbefore : notVariable before = true) (rest : List Char) :
    modifier before (slice.text ++ rest) = some () := by
  cases slice with
  | all => exact absurd rfl hslice
  | limit l => exact l.modifier hbefore rest
  | offset o => exact OffsetClause.modifier o hbefore rest
  | limitOffset l gap o =>
    rw [text, List.append_assoc, List.append_assoc]
    exact l.modifier hbefore _
  | offsetLimit o gap l =>
    rw [text, List.append_assoc, List.append_assoc]
    exact OffsetClause.modifier o hbefore _

/-- Nothing but the limit begins with its letter. -/
lemma quiet_front (slice : Slice) (before : Option Char) :
    Quiet notVariable ['l'] before slice.front := by
  cases slice with
  | offset o => exact o.quiet (by simp) (by simp)
  | offsetLimit o gap l => exact quiet_append (o.quiet (by simp) (by simp)) (gap.quiet (by simp))
  | all => trivial
  | limit _ => trivial
  | limitOffset _ _ _ => trivial

lemma notVariable_front {slice : Slice} (hlimit : slice.limit?.isSome = true)
    {before : Option Char} (hbefore : notVariable before = true) :
    notVariable (slice.front.getLast?.or before) = true := by
  cases slice with
  | all => cases hlimit
  | offset _ => cases hlimit
  | limit _ => exact hbefore
  | limitOffset _ _ _ => exact hbefore
  | offsetLimit o gap l =>
    rw [front, List.getLast?_append, Option.or_assoc]
    exact gap.notVariable_getLast?

/-- No digit follows the limit. -/
lemma head?_back (slice : Slice) (trail : Spaces) :
    ∀ c ∈ (slice.back ++ trail.text).head?, c.isDigit = false := by
  have htrail : ∀ c ∈ trail.text.head?, c.isDigit = false := fun c hc =>
    isDigit_of_isSpace (trail.forall_isSpace c (List.mem_of_mem_head? hc))
  cases slice with
  | limitOffset l gap o =>
    intro c hc
    rw [back, List.append_assoc, List.head?_append_of_ne_nil _ gap.text_ne] at hc
    exact isDigit_of_isSpace (gap.forall_isSpace c (List.mem_of_mem_head? hc))
  | all => exact htrail
  | limit _ => exact htrail
  | offset _ => exact htrail
  | offsetLimit _ _ _ => exact htrail

/-- **The limit is found where it stands**, behind a text in which none begins. -/
theorem search_limit (slice : Slice) (trail : Spaces) {before : List Char}
    (hquiet : Quiet notVariable ['l'] none before)
    (hbefore : slice ≠ all → notVariable before.getLast? = true) :
    search Query.limit (before ++ (slice.text ++ trail.text)) = slice.limit?.map fun l =>
      ((before ++ slice.front).length, l.digits, slice.back ++ trail.text) := by
  have hfront := quiet_append hquiet (slice.quiet_front _)
  rw [text_eq_append]
  cases hlimit : slice.limit? with
  | none =>
    have hback : slice.back = [] := by
      cases slice <;> first | rfl | cases hlimit
    have hall := quiet_append hfront (trail.quiet (by simp))
    rw [hback, Option.elim_none, List.append_nil, List.append_nil, ← List.append_assoc]
    exact search_eq_none guarded_limit hall
  | some l =>
    have hne : slice ≠ all := by
      rintro rfl
      cases hlimit
    have hlast : notVariable (before ++ slice.front).getLast? = true := by
      rw [List.getLast?_append]
      exact notVariable_front (by rw [hlimit]; rfl) (hbefore hne)
    have hfound := search_append guarded_limit hfront (l.limit hlast (slice.head?_back trail))
    rw [Option.map_some, ← hfound]
    simp [List.append_assoc]

end Slice

/-! ## All modifiers -/

/-- **The solution modifiers of a query**, in the order in which a query has them. -/
structure Modifiers where
  /-- White space at the beginning. -/
  lead : Spaces
  /-- The order clause, if there is one. -/
  order : Option OrderClause
  /-- White space behind the order clause. -/
  gap : Spaces
  /-- The limit and the offset. -/
  slice : Slice
  /-- White space at the end. -/
  trail : Spaces
  /-- The clauses do not touch. -/
  separated : order ≠ none → slice ≠ .all → gap.text ≠ []

namespace Modifiers

variable (m : Modifiers)

/-- The text of the order clause. -/
def orderText : List Char := m.order.elim [] fun clause => clause.text

/-- The text before the limit and the offset. -/
def front : List Char := m.lead.text ++ m.orderText ++ m.gap.text

/-- **The text of the modifiers.** -/
def text : List Char := m.front ++ (m.slice.text ++ m.trail.text)

/-- The order conditions. -/
def conditions : List OrderCondition := m.order.elim [] fun clause => clause.conditions

/-- The limit, if there is one. -/
def limit? : Option Nat := m.slice.limit?.map fun l => Digits.value l.digits

/-- Whether there is anything but white space. -/
def HasClause : Prop := m.order ≠ none ∨ m.slice ≠ .all

/-- **What stands in modifiers.** -/
lemma isClauseChar : ∀ c ∈ m.text, IsClauseChar c := by
  intro c hc
  rw [text, front, List.mem_append, List.mem_append, List.mem_append, List.mem_append] at hc
  rcases hc with ((hc | hc) | hc) | hc | hc
  · exact m.lead.isClauseChar c hc
  · cases horder : m.order with
    | none =>
      rw [orderText, horder] at hc
      cases hc
    | some clause =>
      rw [orderText, horder] at hc
      exact clause.isClauseChar c hc
  · exact m.gap.isClauseChar c hc
  · exact m.slice.isClauseChar c hc
  · exact m.trail.isClauseChar c hc

/-- No limit begins before the limit. -/
lemma quiet_front : Quiet notVariable ['l'] none m.front := by
  refine quiet_append (quiet_append (m.lead.quiet (by simp)) ?_) (m.gap.quiet (by simp))
  rw [orderText]
  cases m.order with
  | none => trivial
  | some clause => exact clause.quiet _

/-- Limit and offset begin where a modifier may. -/
lemma notVariable_front (hslice : m.slice ≠ .all) : notVariable m.front.getLast? = true := by
  rw [front, List.getLast?_append]
  by_cases horder : m.order = none
  · have htext : m.orderText = [] := by rw [orderText, horder, Option.elim_none]
    rw [htext, List.append_nil]
    have hlead := m.lead.notVariable_getLast? (show notVariable none = true from rfl)
    rw [Option.or_none] at hlead
    exact m.gap.notVariable_getLast? hlead
  · exact Gap.notVariable_getLast? ⟨m.gap, m.separated horder hslice⟩

/-- The order clause begins where a modifier may, and a word. -/
lemma notVariable_lead : notVariable m.lead.text.getLast? = true := by
  have hlead := m.lead.notVariable_getLast? (show notVariable none = true from rfl)
  rwa [Option.or_none] at hlead

/-! ## Where searches stop -/

variable {m} {clause : OrderClause}

lemma text_of_order (h : m.order = some clause) :
    m.text = m.lead.text ++
      (clause.text ++ (m.gap.text ++ (m.slice.text ++ m.trail.text))) := by
  rw [text, front, orderText, h, Option.elim_some, List.append_assoc, List.append_assoc]

lemma text_of_order_eq_none (h : m.order = none) :
    m.text = (m.lead.append m.gap).text ++ (m.slice.text ++ m.trail.text) := by
  rw [text, front, orderText, h, Option.elim_none, List.append_nil]
  rfl

/-- **The order clause is found where it stands.** -/
theorem search_orderBy (h : m.order = some clause) :
    search Query.orderBy m.text = some (m.lead.text.length,
      clause.body ++ (m.gap.text ++ (m.slice.text ++ m.trail.text))) := by
  rw [text_of_order h]
  exact search_append guarded_orderBy (m.lead.quiet (by simp))
    (clause.orderBy (boundary_of_notVariable m.notVariable_lead) _)

/-- Limit and offset have no letter of the first word of an order clause. -/
lemma toLower_ne_of_mem_slice {slice : Slice} {c : Char} (hc : c ∈ slice.text) :
    c.toLower ≠ 'r' := by
  intro hlower
  have hletter : c.isAlpha = true := by
    rw [← Char.isAlpha_toLower_eq_isAlpha, hlower]
    decide
  have hlimit (l : LimitClause) (h : c ∈ l.text) : False := by
    have hmem := l.toLower_mem h hletter
    rw [hlower] at hmem
    exact absurd hmem (by simp)
  have hoffset (o : OffsetClause) (h : c ∈ o.text) : False := by
    have hmem := o.toLower_mem h hletter
    rw [hlower] at hmem
    exact absurd hmem (by simp)
  have hgap (gap : Gap) (h : c ∈ gap.text) : False := by
    rw [isAlpha_of_isBlank (isBlank_of_isSpace (gap.forall_isSpace c h))] at hletter
    cases hletter
  cases slice with
  | all => cases hc
  | limit l => exact hlimit l hc
  | offset o => exact hoffset o hc
  | limitOffset l gap o =>
    rw [Slice.text, List.mem_append, List.mem_append] at hc
    exact hc.elim (fun hc => hc.elim (hlimit l) (hgap gap)) (hoffset o)
  | offsetLimit o gap l =>
    rw [Slice.text, List.mem_append, List.mem_append] at hc
    exact hc.elim (fun hc => hc.elim (hoffset o) (hgap gap)) (hlimit l)

/-- **Where there is no order clause none is found.** -/
theorem search_orderBy_eq_none (h : m.order = none) : search Query.orderBy m.text = none := by
  by_contra hsome
  obtain ⟨⟨place, rest⟩, hfound⟩ := Option.ne_none_iff_exists'.1 hsome
  obtain ⟨before, back, htext, -, hmatch⟩ := exists_of_search hfound
  obtain ⟨-, hwords, -⟩ := orderBy_eq_some_iff.1 hmatch
  obtain ⟨gap, -, hword, -⟩ := exists_of_stripTwoWords? hwords
  obtain ⟨spelling, hspelling, rfl⟩ := stripWord?_eq_some_iff.1 hword
  -- The word has an `r`, which is nowhere in the text.
  obtain ⟨c, hc, hlower⟩ : ∃ c ∈ spelling, c.toLower = 'r' := by
    have hr : 'r' ∈ spelling.map Char.toLower := by
      rw [hspelling]
      simp
    exact List.mem_map.1 hr
  have hspace (spaces : Spaces) (hmem : c ∈ spaces.text) : False := by
    have hnone := isAlpha_of_isBlank (isBlank_of_isSpace (spaces.forall_isSpace c hmem))
    rw [← Char.isAlpha_toLower_eq_isAlpha, hlower] at hnone
    cases hnone
  have hmem : c ∈ m.text := by
    rw [htext]
    simp [hc]
  rw [text_of_order_eq_none h, List.mem_append, List.mem_append] at hmem
  rcases hmem with hmem | hmem | hmem
  · exact hspace _ hmem
  · exact toLower_ne_of_mem_slice hmem hlower
  · exact hspace _ hmem

/-- Behind a text without keywords limit and offset are the first modifiers. -/
lemma beforeModifier?_append {slice : Slice} {before : List Char} (trail : Spaces)
    (hquiet : Quiet notVariable ['o', 'l'] none before)
    (hslice : slice ≠ .all) (hbefore : notVariable before.getLast? = true) :
    beforeModifier? (before ++ (slice.text ++ trail.text)) = some before := by
  rw [beforeModifier?, search_append guarded_modifier hquiet (slice.modifier hslice hbefore _),
    Option.map_some, List.take_left]

/-- Without limit and offset no modifier follows. -/
lemma beforeModifier?_append_all {before : List Char} (trail : Spaces)
    (hquiet : Quiet notVariable ['o', 'l'] none before) :
    beforeModifier? (before ++ (Slice.text .all ++ trail.text)) = none := by
  have hall : Quiet notVariable ['o', 'l'] none (before ++ (Slice.text .all ++ trail.text)) :=
    quiet_append hquiet (trail.quiet (by simp))
  rw [beforeModifier?, search_eq_none guarded_modifier hall]
  rfl

/-- **Before the first modifier stands white space.** -/
theorem beforeModifier?_text (h : m.HasClause) :
    ∃ spaces : Spaces, beforeModifier? m.text = some spaces.text := by
  cases horder : m.order with
  | some clause =>
    refine ⟨m.lead, ?_⟩
    rw [text_of_order horder, beforeModifier?, search_append guarded_modifier
      (m.lead.quiet (by simp)) (clause.modifier m.notVariable_lead _), Option.map_some,
      List.take_left]
  | none =>
    have hslice : m.slice ≠ .all := h.resolve_left (absurd horder)
    have hbefore := m.notVariable_front hslice
    rw [front, orderText, horder, Option.elim_none, List.append_nil] at hbefore
    refine ⟨m.lead.append m.gap, ?_⟩
    rw [text_of_order_eq_none horder]
    exact beforeModifier?_append m.trail ((m.lead.append m.gap).quiet (by simp)) hslice hbefore

/-- White space is no modifier. -/
lemma beforeModifier?_eq_none (h : ¬m.HasClause) : beforeModifier? m.text = none := by
  rw [HasClause, not_or, not_not, not_not] at h
  rw [text_of_order_eq_none h.1, h.2]
  exact beforeModifier?_append_all m.trail ((m.lead.append m.gap).quiet (by simp))

/-- **Up to the next modifier stand the conditions**, all of them. -/
theorem parseAll_body (h : m.order = some clause) :
    let rest := clause.body ++ (m.gap.text ++ (m.slice.text ++ m.trail.text))
    OrderCondition.parseAll ((beforeModifier? rest).getD rest) = .ok clause.conditions := by
  have hblanks (spaces : Spaces) : ∀ c ∈ spaces.text, Text.isBlank c = true := fun c hc =>
    isBlank_of_isSpace (spaces.forall_isSpace c hc)
  have hquiet : Quiet notVariable ['o', 'l'] none (clause.body ++ m.gap.text) :=
    quiet_append (clause.quiet_body none) (m.gap.quiet (by simp))
  have hsplit : clause.body ++ (m.gap.text ++ (m.slice.text ++ m.trail.text)) =
      clause.body ++ m.gap.text ++ (m.slice.text ++ m.trail.text) := by
    rw [List.append_assoc]
  intro rest
  by_cases hslice : m.slice = .all
  · have hnone : beforeModifier? rest = none := by
      change beforeModifier? (_ ++ _) = none
      rw [hsplit, hslice]
      exact beforeModifier?_append_all m.trail hquiet
    have hrest : rest = clause.body ++ (m.gap.append m.trail).text := by
      change _ ++ _ = _
      rw [hslice]
      rfl
    rw [hnone, Option.getD_none, hrest]
    exact (clause.written.append_blanks (hblanks _)).parseAll
  · have hlast : notVariable (clause.body ++ m.gap.text).getLast? = true := by
      rw [List.getLast?_append]
      exact Gap.notVariable_getLast? ⟨m.gap, m.separated (by simp [h]) hslice⟩
    have hsome : beforeModifier? rest = some (clause.body ++ m.gap.text) := by
      change beforeModifier? (_ ++ _) = _
      rw [hsplit]
      exact beforeModifier?_append m.trail hquiet hslice hlast
    rw [hsome, Option.getD_some]
    exact (clause.written.append_blanks (hblanks _)).parseAll

end Modifiers

end PagedTopK.Query
