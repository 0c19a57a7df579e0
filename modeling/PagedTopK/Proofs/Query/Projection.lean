import PagedTopK.Proofs.Query.Grammar
import PagedTopK.Proofs.Query.Variables

set_option autoImplicit false

/-!
# The projection of a query

A list of variables between `SELECT` and the body of a query is replaced by a star. The body begins
with a brace or with the word `WHERE`, which is looked for without regard to variables: a sign may
stand before it, and it is a word of ASCII. So a variable whose name begins with that word, or goes
on with it behind a letter beyond ASCII, ends the projection too early, and what is behind stays.

## Main definitions

* `Query.BeginsWithWhere`, `Query.WhereAt` — the word, at the start of a text and at a cut.
* `Query.WritesVariables` — a list of variables.
* `Query.DuplicateWord` — what is said about duplicates.
* `Query.Projection` — a query with a list of variables as its projection.

## Main results

* `Query.WritesVariables.projectionEnd_iff_whereAt` — where a list of variables seems to end.
* `Query.Projection.exists_cut` — what is found of the list.
* `Query.Projection.projectAll_query` — what becomes of the query.
* `Query.Projection.where_splits_projection` — a query that is spoilt.
-/

namespace PagedTopK.Query

/-! ## The word at the end of a projection -/

/-- **The word `WHERE`** at the start of a text. -/
def BeginsWithWhere (cs : List Char) : Prop :=
  ∃ word rest, cs = word ++ rest ∧ word.map Char.toLower = "where".toList ∧
    boundary rest.head? = true

/-- **The word `WHERE`** at a cut of a text, as a word of ASCII. -/
def WhereAt (xs ys : List Char) : Prop := boundary xs.getLast? = true ∧ BeginsWithWhere ys

lemma any_stripWord?_where {cs : List Char} :
    ((stripWord? "where".toList cs).any fun rest => boundary rest.head?) = true ↔
      BeginsWithWhere cs := by
  simp only [Option.any_eq_true, stripWord?_eq_some_iff, BeginsWithWhere]
  constructor
  · rintro ⟨rest, ⟨word, hword, hcs⟩, hrest⟩
    exact ⟨word, rest, hcs, hword, hrest⟩
  · rintro ⟨word, rest, hcs, hword, hrest⟩
    exact ⟨rest, ⟨word, hword, hcs⟩, hrest⟩

/-- The word begins with one of its letters. -/
lemma BeginsWithWhere.exists_cons {cs : List Char} (h : BeginsWithWhere cs) :
    ∃ c rest, cs = c :: rest ∧ c.toLower = 'w' ∧ c.isAlpha = true := by
  obtain ⟨_ | ⟨c, word⟩, rest, rfl, hword, -⟩ := h
  · cases hword
  · exact ⟨c, word ++ rest, rfl, (List.cons.inj hword).1,
      isAlpha_of_map_toLower hword (by simp) c List.mem_cons_self⟩

/-- **What ends a projection**: white space aside, a brace or the word. -/
lemma projectionEnd_eq_some_iff {before : Option Char} {cs : List Char} :
    projectionEnd before cs = some () ↔
      ∃ gap rest, cs = gap ++ rest ∧ (∀ c ∈ gap, isSpace c = true) ∧
        (rest.head? = some '\x7b' ∨
          boundary (gap.getLast?.or before) = true ∧ BeginsWithWhere rest) := by
  have hsplit := (List.takeWhile_append_dropWhile (p := isSpace) (l := cs)).symm
  have hgap : ∀ c ∈ cs.takeWhile isSpace, isSpace c = true := List.all_eq_true.1 List.all_takeWhile
  unfold projectionEnd
  split
  · next more heq =>
    exact iff_of_true rfl ⟨_, _, hsplit, hgap, .inl (by rw [heq]; rfl)⟩
  · next hbrace =>
    simp only [Bool.and_eq_true, any_stripWord?_where, ite_eq_left_iff, reduceCtorEq, imp_false,
      not_not]
    constructor
    · exact fun h => ⟨_, _, hsplit, hgap, .inr h⟩
    · rintro ⟨gap, rest, rfl, hspaces, hrest⟩
      have hstart : ∀ c ∈ rest.head?, isSpace c = false := by
        intro c hc
        rcases hrest with hopen | ⟨-, hword⟩
        · rw [hopen] at hc
          cases hc
          rfl
        · obtain ⟨d, more, rfl, -, hletter⟩ := hword.exists_cons
          cases hc
          exact isSpace_of_isAlpha hletter
      rw [Text.dropWhile_run hspaces hstart] at hbrace ⊢
      rw [Text.takeWhile_run hspaces hstart]
      refine hrest.resolve_left fun hopen => ?_
      obtain ⟨more, rfl⟩ := List.head?_eq_some_iff.1 hopen
      exact hbrace more rfl

/-- Elsewhere a projection goes on. -/
lemma projectionEnd_eq_none {c : Char} (hspace : isSpace c = false) (hbrace : c ≠ '\x7b')
    (hletter : c.toLower ≠ 'w') (before : Option Char) (cs : List Char) :
    projectionEnd before (c :: cs) = none := by
  rw [Option.eq_none_iff_forall_ne_some]
  rintro ⟨⟩ hmatch
  obtain ⟨_ | ⟨g, gap⟩, rest, hcs, hgap, hrest⟩ := projectionEnd_eq_some_iff.1 hmatch
  · rw [List.nil_append] at hcs
    subst hcs
    rcases hrest with hopen | ⟨-, hword⟩
    · exact hbrace (Option.some.inj hopen)
    · obtain ⟨d, more, heq, hd, -⟩ := hword.exists_cons
      cases heq
      exact hletter hd
  · cases hcs
    rw [hgap c List.mem_cons_self] at hspace
    cases hspace

/-- **A text that ends a projection**: a brace, or the word behind white space. -/
inductive EndsProjection : List Char → Prop
  /-- White space may stand before a brace. -/
  | brace {spaces rest : List Char} : (∀ c ∈ spaces, isSpace c = true) →
    EndsProjection (spaces ++ '\x7b' :: rest)
  /-- White space stands before the word. -/
  | word {gap rest : List Char} : gap ≠ [] → (∀ c ∈ gap, isSpace c = true) →
    BeginsWithWhere rest → EndsProjection (gap ++ rest)

namespace EndsProjection

variable {back : List Char}

/-- The pattern matches there, whatever stands before. -/
lemma projectionEnd (h : EndsProjection back) (before : Option Char) :
    projectionEnd before back = some () := by
  rw [projectionEnd_eq_some_iff]
  cases h with
  | brace hspaces => exact ⟨_, _, rfl, hspaces, .inl rfl⟩
  | @word gap rest hne hgap hword =>
    have hlast := hgap _ (List.getLast_mem hne)
    refine ⟨gap, rest, rfl, hgap, .inr ⟨?_, hword⟩⟩
    rw [List.getLast?_eq_some_getLast hne, Option.some_or, boundary, isWordChar_of_isSpace hlast]
    rfl

/-- Words and names end before it. -/
lemma isNameChar_head? (h : EndsProjection back) :
    ∀ c ∈ back.head?, Text.isNameChar c = false := by
  cases h with
  | @brace spaces rest hspaces =>
    cases spaces with
    | nil =>
      rintro c ⟨⟩
      decide
    | cons s spaces =>
      rintro c ⟨⟩
      exact isNameChar_of_isSpace (hspaces s List.mem_cons_self)
  | @word gap rest hne hgap hword =>
    obtain ⟨s, gap, rfl⟩ := List.exists_cons_of_ne_nil hne
    rintro c ⟨⟩
    exact isNameChar_of_isSpace (hgap s List.mem_cons_self)

lemma boundary_head? (h : EndsProjection back) : boundary back.head? = true := by
  cases hhead : back.head? with
  | none => rfl
  | some c =>
    have hname := h.isNameChar_head? c hhead
    rw [boundary, Bool.not_eq_true']
    by_contra hword
    rw [isNameChar_of_isWordChar (Bool.eq_true_of_not_eq_false hword)] at hname
    cases hname

/-- The word is not put together from what stands before the end and what stands behind. -/
lemma beginsWithWhere_append (h : EndsProjection back) {ys : List Char} :
    BeginsWithWhere (ys ++ back) ↔ BeginsWithWhere ys := by
  constructor
  · rintro ⟨word, rest, hsplit, hword, hrest⟩
    rcases List.append_eq_append_iff.1 hsplit with ⟨more, rfl, hback⟩ | ⟨more, rfl, rfl⟩
    · cases more with
      | nil => exact ⟨ys, [], (List.append_nil ys).symm, by rwa [List.append_nil] at hword, rfl⟩
      | cons d more =>
        have hletter := isAlpha_of_map_toLower hword (by simp) d
          (List.mem_append_right _ List.mem_cons_self)
        have hname := h.isNameChar_head? d (by rw [hback]; rfl)
        rw [isNameChar_of_isAlpha hletter] at hname
        cases hname
    · refine ⟨word, more, rfl, hword, ?_⟩
      cases more with
      | nil => rfl
      | cons d more => exact hrest
  · rintro ⟨word, rest, rfl, hword, hrest⟩
    refine ⟨word, rest ++ back, List.append_assoc _ _ _, hword, ?_⟩
    cases rest with
    | nil => exact h.boundary_head?
    | cons d rest => exact hrest

end EndsProjection

/-! ## Lists of variables -/

/-- **A text of variables** with blanks between them. -/
inductive WritesVariables : List Char → Prop
  /-- A variable has a sign and a name. -/
  | single {sign : Char} {name : List Char} : IsSign sign → name ≠ [] →
    (∀ c ∈ name, Text.isNameChar c = true) → WritesVariables (sign :: name)
  /-- Blanks stand before the next one. -/
  | cons {sign : Char} {name gap rest : List Char} : IsSign sign → name ≠ [] →
    (∀ c ∈ name, Text.isNameChar c = true) → gap ≠ [] → (∀ c ∈ gap, Text.isBlank c = true) →
    WritesVariables rest → WritesVariables (sign :: name ++ (gap ++ rest))

/-- A cut of one variable stands before the sign or goes through the variable. -/
lemma cases_of_variable {sign : Char} {name xs ys after : List Char} {c : Char}
    (hsign : IsSign sign) (hname : ∀ d ∈ name, Text.isNameChar d = true)
    (hafter : ∀ d ∈ after.head?, Text.isNameChar d = false)
    (hsplit : sign :: name = xs ++ c :: ys) : IsSign c ∨ CutsVariable xs (c :: ys ++ after) := by
  cases xs with
  | nil =>
    cases hsplit
    exact .inl hsign
  | cons x kept =>
    obtain ⟨rfl, rfl⟩ := List.cons.inj hsplit
    exact .inr ⟨[], sign, kept, c :: ys, after, rfl, rfl, hsign, hname, List.cons_ne_nil c ys,
      hafter⟩

namespace WritesVariables

variable {text : List Char}

/-- **A cut of a list of variables** stands before a blank or a sign, or goes through a variable. -/
lemma cases_of_append (h : WritesVariables text) {xs ys after : List Char} {c : Char}
    (hsplit : text = xs ++ c :: ys) (hafter : ∀ d ∈ after.head?, Text.isNameChar d = false) :
    Text.isBlank c = true ∨ IsSign c ∨ CutsVariable xs (c :: ys ++ after) := by
  induction h generalizing xs with
  | single hsign hne hname => exact .inr (cases_of_variable hsign hname hafter hsplit)
  | @cons sign name gap rest hsign hne hname hgapne hgap hrest ih =>
    rcases cases_of_append_eq_append_cons hsplit with ⟨more, hown, rfl⟩ | ⟨behind, rfl, hbehind⟩
    · have hend : ∀ d ∈ (gap ++ rest ++ after).head?, Text.isNameChar d = false := by
        obtain ⟨g, gap, rfl⟩ := List.exists_cons_of_ne_nil hgapne
        rintro d ⟨⟩
        exact Text.isNameChar_of_isBlank (hgap g List.mem_cons_self)
      rw [List.cons_append, List.append_assoc]
      exact .inr (cases_of_variable hsign hname hend hown)
    · rcases cases_of_append_eq_append_cons hbehind with ⟨more, rfl, -⟩ | ⟨later, rfl, hlater⟩
      · exact .inl (hgap c (List.mem_append_right _ List.mem_cons_self))
      · rw [← List.append_assoc]
        exact (ih hlater).imp_right fun h => h.imp_right fun hcut => hcut.append_left _

/-- The list begins with a sign. -/
lemma exists_cons (h : WritesVariables text) : ∃ sign rest, text = sign :: rest ∧ IsSign sign := by
  cases h with
  | single hsign => exact ⟨_, _, rfl, hsign⟩
  | cons hsign => exact ⟨_, _, rfl, hsign⟩

/-- The list ends in a name. -/
lemma isNameChar_getLast? (h : WritesVariables text) :
    ∀ c ∈ text.getLast?, Text.isNameChar c = true := by
  induction h with
  | single hsign hne hname =>
    intro c hc
    rw [List.getLast?_cons_of_ne_nil hne] at hc
    exact hname c (List.mem_of_getLast? hc)
  | @cons sign name gap rest hsign hne hname hgapne hgap hrest ih =>
    obtain ⟨s, more, rfl, -⟩ := hrest.exists_cons
    intro c hc
    rw [← List.append_assoc, List.getLast?_append_of_ne_nil _ (List.cons_ne_nil s more)] at hc
    exact ih c hc

/-- A letter of the list stands inside a variable. -/
lemma cutsVariable_of_isAlpha (h : WritesVariables text) {back : List Char}
    (hback : EndsProjection back) {xs ys : List Char} {c : Char} (hsplit : text = xs ++ c :: ys)
    (hletter : c.isAlpha = true) : CutsVariable xs (c :: ys ++ back) := by
  rcases h.cases_of_append hsplit hback.isNameChar_head? with hblank | hsign | hcut
  · rw [isAlpha_of_isBlank hblank] at hletter
    cases hletter
  · rcases hsign with rfl | rfl <;> cases hletter
  · exact hcut

/-- No brace stands in the list. -/
lemma ne_brace (h : WritesVariables text) {xs ys : List Char} {c : Char}
    (hsplit : text = xs ++ c :: ys) : c ≠ '\x7b' := by
  rintro rfl
  have hend : ∀ d ∈ ([] : List Char).head?, Text.isNameChar d = false := nofun
  rcases h.cases_of_append hsplit hend with hblank | hsign | hcut
  · cases hblank
  · rcases hsign with hsign | hsign <;> cases hsign
  · exact absurd hcut.isNameChar_head (by decide)

/-- The list does not end in white space. -/
lemma not_forall_isSpace (h : WritesVariables text) {xs ys : List Char} {c : Char}
    (hsplit : text = xs ++ c :: ys) : ¬∀ d ∈ c :: ys, isSpace d = true := by
  intro hspace
  have hne := List.cons_ne_nil c ys
  have hname := h.isNameChar_getLast? ((c :: ys).getLast hne) (by
    rw [hsplit, List.getLast?_append_of_ne_nil _ hne]
    exact List.getLast?_eq_some_getLast hne)
  rw [isNameChar_of_isSpace (hspace _ (List.getLast_mem hne))] at hname
  cases hname

/-- **Where a list of variables seems to end**: at the word `WHERE` in one of them. -/
theorem projectionEnd_iff_whereAt (h : WritesVariables text) {back : List Char}
    (hback : EndsProjection back) {xs ys : List Char} {c : Char} (hsplit : text = xs ++ c :: ys)
    (before : Option Char) :
    projectionEnd (xs.getLast?.or before) (c :: ys ++ back) = some () ↔ WhereAt xs (c :: ys) := by
  rw [projectionEnd_eq_some_iff]
  constructor
  · rintro ⟨gap, rest, hcs, hgap, hrest⟩
    rcases List.append_eq_append_iff.1 hcs with ⟨behind, rfl, -⟩ | ⟨inside, hinside, rfl⟩
    · exact absurd (fun d hd => hgap d (List.mem_append_left _ hd)) (h.not_forall_isSpace hsplit)
    · cases inside with
      | nil =>
        rw [List.append_nil] at hinside
        exact absurd (hinside ▸ hgap) (h.not_forall_isSpace hsplit)
      | cons d more =>
        have hplace : text = (xs ++ gap) ++ d :: more := by
          rw [hsplit, hinside, List.append_assoc]
        rcases hrest with hopen | ⟨hbefore, hword⟩
        · exact absurd (Option.some.inj hopen) (h.ne_brace hplace)
        · obtain ⟨w, tail, heq, -, hletter⟩ := hword.exists_cons
          cases heq
          have hcut := h.cutsVariable_of_isAlpha hback hplace hletter
          obtain rfl := hcut.eq_nil_of_isSpace hgap
          obtain ⟨last, hlast, -⟩ := hcut.exists_getLast?
          rw [List.append_nil] at hlast
          rw [List.getLast?_nil, Option.none_or, hlast] at hbefore
          rw [List.nil_append] at hinside
          rw [hinside, WhereAt, hlast]
          exact ⟨hbefore, hback.beginsWithWhere_append.1 hword⟩
  · rintro ⟨hbefore, hword⟩
    obtain ⟨w, tail, heq, -, hletter⟩ := hword.exists_cons
    cases heq
    obtain ⟨last, hlast, -⟩ := (h.cutsVariable_of_isAlpha hback hsplit hletter).exists_getLast?
    rw [hlast] at hbefore ⊢
    exact ⟨[], _, rfl, List.forall_mem_nil _, .inr ⟨hbefore, hback.beginsWithWhere_append.2 hword⟩⟩

end WritesVariables

/-! ## What is said about duplicates -/

/-- **A word for duplicates**, in letters of either case. -/
def SpellsDuplicates (word : List Char) : Prop :=
  word.map Char.toLower = "distinct".toList ∨ word.map Char.toLower = "reduced".toList

/-- **What is said about duplicates** before a list of variables. -/
inductive DuplicateWord where
  /-- Nothing. -/
  | absent
  /-- A word and white space. -/
  | spaced (word : List Char) (gap : Gap) (spelled : SpellsDuplicates word)
  /-- A word with the first variable right behind it. -/
  | glued (word : List Char) (spelled : SpellsDuplicates word)

/-- The text after a word for duplicates and white space. -/
def afterDuplicates? (cs : List Char) : Option (List Char) :=
  ((stripWord? "distinct".toList cs).or (stripWord? "reduced".toList cs)).bind stripSpaces?

/-- **What the pattern for a projection matches**: the keyword, a gap, perhaps a word for
duplicates, and a text in which a projection ends. -/
lemma select_eq_some_iff {before : Option Char} {cs body : List Char} {length : Nat} :
    select before cs = some (body, length) ↔ boundary before = true ∧
      ∃ gap rest, stripWord? "select".toList cs = some gap ∧ stripSpaces? gap = some rest ∧
        body = (afterDuplicates? rest).getD rest ∧
        searchFrom projectionEnd 0 none body = some (length, ()) := by
  unfold select
  split
  · next hbefore =>
    simp only [Option.bind_eq_some_iff, Option.map_eq_some_iff, hbefore, true_and]
    constructor
    · rintro ⟨rest, ⟨gap, hgap, hrest⟩, ⟨place, ⟨⟩⟩, hsearch, heq⟩
      cases heq
      exact ⟨gap, rest, hgap, hrest, rfl, hsearch⟩
    · rintro ⟨gap, rest, hgap, hrest, rfl, hsearch⟩
      exact ⟨rest, ⟨gap, hgap, hrest⟩, (length, ()), hsearch, rfl⟩
  · next hbefore => simp [hbefore]

namespace SpellsDuplicates

variable {word : List Char}

/-- Its letters do not begin the word that ends a projection. -/
lemma letters (h : SpellsDuplicates word) : ∀ c ∈ word, c.isAlpha = true ∧ c.toLower ≠ 'w' := by
  have hletters {keyword : String} (hkeyword : ∀ d ∈ keyword.toList, d.isAlpha = true ∧ d ≠ 'w')
      (hword : word.map Char.toLower = keyword.toList) :
      ∀ c ∈ word, c.isAlpha = true ∧ c.toLower ≠ 'w' := by
    intro c hc
    rw [← Char.isAlpha_toLower_eq_isAlpha]
    exact hkeyword _ (hword ▸ List.mem_map_of_mem hc)
  exact h.elim (hletters (by simp)) (hletters (by simp))

lemma isSpace_head? (h : SpellsDuplicates word) (rest : List Char) :
    ∀ c ∈ (word ++ rest).head?, isSpace c = false :=
  h.elim (fun h => isSpace_of_spelled h (by simp) (by simp) rest)
    fun h => isSpace_of_spelled h (by simp) (by simp) rest

/-- It is read with the white space behind it. -/
lemma afterDuplicates?_append (h : SpellsDuplicates word) (rest : List Char) :
    afterDuplicates? (word ++ rest) = stripSpaces? rest := by
  unfold afterDuplicates?
  rcases h with h | h
  · rw [stripWord?_append h, Option.some_or, Option.bind_some]
  · have hother : stripWord? "distinct".toList (word ++ rest) = none := by
      obtain ⟨c, more, hcons, hr⟩ :=
        exists_cons_of_stripWord? (stripWord?_append h rest) (show _ = some 'r' by decide)
      refine stripWord?_eq_none (show _ = some 'd' by decide) ?_
      rw [hcons]
      rintro d ⟨⟩
      rw [hr]
      decide
    rw [hother, Option.none_or, stripWord?_append h, Option.bind_some]

end SpellsDuplicates

/-- Without a letter at the start there is no such word. -/
lemma afterDuplicates?_eq_none {cs : List Char} (h : ∀ c ∈ cs.head?, c.isAlpha = false) :
    afterDuplicates? cs = none := by
  have hother {w : Char} (hw : w.isAlpha = true) : ∀ c ∈ cs.head?, c.toLower ≠ w := by
    rintro c hc rfl
    rw [Char.isAlpha_toLower_eq_isAlpha, h c hc] at hw
    cases hw
  rw [afterDuplicates?, stripWord?_eq_none (show _ = some 'd' by decide) (hother (by decide)),
    stripWord?_eq_none (show _ = some 'r' by decide) (hother (by decide))]
  rfl

namespace DuplicateWord

/-- The part that is no part of the projection. -/
def stays : DuplicateWord → List Char
  | absent => []
  | spaced word gap _ => word ++ gap.text
  | glued _ _ => []

/-- The part that is taken for a part of the projection. -/
def goes : DuplicateWord → List Char
  | absent => []
  | spaced _ _ _ => []
  | glued word _ => word

variable (duplicates : DuplicateWord)

/-- No projection ends in a word for duplicates. -/
lemma letters_goes : ∀ c ∈ duplicates.goes, c.isAlpha = true ∧ c.toLower ≠ 'w' := by
  cases duplicates with
  | absent => exact List.forall_mem_nil _
  | spaced word gap spelled => exact List.forall_mem_nil _
  | glued word spelled => exact spelled.letters

/-- Neither white space nor a word for duplicates with white space begins a list of variables, even
with a word right before it. -/
lemma goes_append {sign : Char} (hsign : IsSign sign) (cs : List Char) :
    (∀ c ∈ (duplicates.goes ++ sign :: cs).head?, isSpace c = false) ∧
      afterDuplicates? (duplicates.goes ++ sign :: cs) = none := by
  have hspace : isSpace sign = false := by rcases hsign with rfl | rfl <;> rfl
  have hletter : sign.isAlpha = false := by rcases hsign with rfl | rfl <;> rfl
  have hplain : (∀ c ∈ (sign :: cs).head?, isSpace c = false) ∧
      afterDuplicates? (sign :: cs) = none :=
    ⟨by rintro c ⟨⟩; exact hspace, afterDuplicates?_eq_none (by rintro c ⟨⟩; exact hletter)⟩
  cases duplicates with
  | absent => exact hplain
  | spaced word gap spelled => exact hplain
  | glued word spelled =>
    refine ⟨spelled.isSpace_head? _, ?_⟩
    rw [goes, spelled.afterDuplicates?_append, stripSpaces?, hspace]
    rfl

variable {body : List Char}

/-- What stays does not begin with a space. -/
lemma isSpace_head? (hbody : ∀ c ∈ body.head?, isSpace c = false) :
    ∀ c ∈ (duplicates.stays ++ body).head?, isSpace c = false := by
  cases duplicates with
  | absent => exact hbody
  | spaced word gap spelled =>
    rw [stays, List.append_assoc]
    exact spelled.isSpace_head? _
  | glued word spelled => exact hbody

/-- **The projection is read** from behind the part that stays. -/
lemma getD_afterDuplicates? (hbody : ∀ c ∈ body.head?, isSpace c = false)
    (hplain : afterDuplicates? body = none) :
    (afterDuplicates? (duplicates.stays ++ body)).getD (duplicates.stays ++ body) = body := by
  cases duplicates with
  | absent =>
    rw [stays, List.nil_append, hplain]
    rfl
  | spaced word gap spelled =>
    rw [stays, List.append_assoc, spelled.afterDuplicates?_append,
      stripSpaces?_append gap.text_ne gap.forall_isSpace hbody]
    rfl
  | glued word spelled =>
    rw [stays, List.nil_append, hplain]
    rfl

end DuplicateWord

/-! ## Projections -/

/-- **A query with a list of variables as its projection.** -/
structure Projection where
  /-- What stands before the keyword. -/
  prologue : List Char
  /-- The keyword as it is spelled. -/
  word : List Char
  /-- What stands behind the keyword. -/
  gap : Gap
  /-- What is said about duplicates. -/
  duplicates : DuplicateWord
  /-- The text of the variables. -/
  vars : List Char
  /-- The rest of the query. -/
  back : List Char
  /-- The keyword is a word of its own. -/
  boundary_prologue : boundary prologue.getLast? = true
  /-- It is the first one that white space follows. -/
  first : ∀ before spelling c after, prologue = before ++ (spelling ++ c :: after) →
    boundary before.getLast? = true → spelling.map Char.toLower = "select".toList →
    isSpace c = false
  /-- The keyword is `SELECT`. -/
  spelled : word.map Char.toLower = "select".toList
  /-- The text writes variables. -/
  written : WritesVariables vars
  /-- The projection ends behind them. -/
  ends : EndsProjection back

namespace Projection

variable (p : Projection)

/-- What stands before the projection. -/
def front : List Char := p.prologue ++ (p.word ++ (p.gap.text ++ p.duplicates.stays))

/-- **The query.** -/
def query : String :=
  String.ofList (p.front ++ (p.duplicates.goes ++ (p.vars ++ p.back)))

/-- **The query with a star** in place of the projection, but for a last part of it that is left. -/
def starred (lost : List Char) : String := String.ofList (p.front ++ '*' :: (lost ++ p.back))

/-- The keyword is not found in the prologue. -/
lemma select_prologue {xs ys : List Char} (hsplit : p.prologue = xs ++ ys) (hys : ys ≠ [])
    (behind : List Char) : select xs.getLast? (ys ++ behind) = none := by
  rw [Option.eq_none_iff_forall_ne_some]
  rintro ⟨body, length⟩ hmatch
  obtain ⟨hbefore, gap, rest, hword, hspaces, -⟩ := select_eq_some_iff.1 hmatch
  obtain ⟨spelling, hspelling, hcs⟩ := stripWord?_eq_some_iff.1 hword
  obtain ⟨spaces, rfl, hne, hall⟩ := exists_of_stripSpaces? hspaces
  obtain ⟨s, spaces, rfl⟩ := List.exists_cons_of_ne_nil hne
  have hs := hall s List.mem_cons_self
  rcases cases_of_append_eq_append_cons hcs with ⟨more, rfl, -⟩ | ⟨more, rfl, -⟩
  · rw [p.first xs spelling s more hsplit hbefore hspelling] at hs
    cases hs
  · -- The word would go on beyond the prologue, which does not end in a letter.
    have hlast := List.getLast_mem hys
    have hletter := isAlpha_of_map_toLower hspelling (by simp) _ (List.mem_append_left _ hlast)
    have hboundary := p.boundary_prologue
    rw [hsplit, List.getLast?_append_of_ne_nil _ hys, List.getLast?_eq_some_getLast hys, boundary,
      isWordChar_of_isAlpha hletter] at hboundary
    cases hboundary

/-- **The projection is found** behind the first part of the query. -/
lemma search_select {body : List Char} {length : Nat}
    (hbody : ∀ c ∈ body.head?, isSpace c = false) (hplain : afterDuplicates? body = none)
    (hend : searchFrom projectionEnd 0 none body = some (length, ())) :
    search select (p.front ++ body) = some (p.prologue.length, body, length) := by
  have hmatch : select p.prologue.getLast?
      (p.word ++ (p.gap.text ++ (p.duplicates.stays ++ body))) = some (body, length) :=
    select_eq_some_iff.2 ⟨p.boundary_prologue, _, _, stripWord?_append p.spelled _,
      stripSpaces?_append p.gap.text_ne p.gap.forall_isSpace (p.duplicates.isSpace_head? hbody),
      (p.duplicates.getD_afterDuplicates? hbody hplain).symm, hend⟩
  refine search_eq_some_iff.2 ⟨p.prologue, _, ?_, rfl, hmatch, fun xs ys hxs hys =>
    p.select_prologue hxs hys _⟩
  simp only [front, List.append_assoc]

/-- What is found is replaced. -/
lemma projectAll_front {removed rest : List Char}
    (hbody : ∀ c ∈ (removed ++ rest).head?, isSpace c = false)
    (hplain : afterDuplicates? (removed ++ rest) = none)
    (hend : searchFrom projectionEnd 0 none (removed ++ rest) = some (removed.length, ())) :
    projectAll (String.ofList (p.front ++ (removed ++ rest))) =
      .ok (String.ofList (p.front ++ '*' :: rest)) := by
  rw [projectAll, String.toList_ofList, p.search_select hbody hplain hend]
  simp only [List.length_append, Nat.add_sub_cancel, List.take_left, List.drop_left]

/-- **What is found of the list of variables** ends at the first word `WHERE` in one of them, if
there is one. -/
theorem exists_cut : ∃ kept lost, p.vars = kept ++ lost ∧
    searchFrom projectionEnd 0 none (p.duplicates.goes ++ kept ++ (lost ++ p.back)) =
      some ((p.duplicates.goes ++ kept).length, ()) ∧
    (lost ≠ [] → WhereAt kept lost) ∧
    ∀ xs ys, kept = xs ++ ys → ys ≠ [] → ¬WhereAt xs (ys ++ lost) := by
  obtain ⟨kept, lost, hvars, hcut, hfirst⟩ := exists_first_cut WhereAt p.vars
  -- Inside the list the pattern matches at the word only.
  have hinside {xs ys : List Char} {c : Char} (hsplit : p.vars = xs ++ c :: ys) :
      projectionEnd ((p.duplicates.goes ++ xs).getLast?.or none) (c :: ys ++ p.back) = some () ↔
        WhereAt xs (c :: ys) := by
    rw [List.getLast?_append, Option.or_none]
    exact p.written.projectionEnd_iff_whereAt p.ends hsplit _
  refine ⟨kept, lost, hvars, searchFrom_eq_some_iff.2
    ⟨p.duplicates.goes ++ kept, lost ++ p.back, rfl, (Nat.zero_add _).symm, ?_, ?_⟩, hcut, hfirst⟩
  · cases lost with
    | nil => exact p.ends.projectionEnd _
    | cons d lost => exact (hinside hvars).2 (hcut (List.cons_ne_nil d lost))
  · intro xs ys hsplit hys
    obtain ⟨c, ys, rfl⟩ := List.exists_cons_of_ne_nil hys
    rcases cases_of_append_eq_append_cons hsplit with ⟨more, hgoes, -⟩ | ⟨xs, rfl, rfl⟩
    · have hmem : c ∈ p.duplicates.goes := hgoes ▸ List.mem_append_right _ List.mem_cons_self
      obtain ⟨hletter, hw⟩ := p.duplicates.letters_goes c hmem
      have hbrace : c ≠ '\x7b' := by
        rintro rfl
        cases hletter
      exact projectionEnd_eq_none (isSpace_of_isAlpha hletter) hbrace hw _ _
    · rw [List.append_assoc, List.cons_append] at hvars
      rw [Option.eq_none_iff_forall_ne_some]
      rintro ⟨⟩ hmatch
      rw [List.cons_append, ← List.append_assoc, ← List.cons_append] at hmatch
      exact hfirst xs (c :: ys) rfl (List.cons_ne_nil c ys) ((hinside hvars).1 hmatch)

/-- A word in the list that ends it goes through a variable. -/
lemma cutsVariable_of_whereAt {kept lost : List Char} (hvars : p.vars = kept ++ lost)
    (hword : BeginsWithWhere lost) : CutsVariable kept (lost ++ p.back) := by
  obtain ⟨c, rest, rfl, -, hletter⟩ := hword.exists_cons
  exact p.written.cutsVariable_of_isAlpha p.ends hvars hletter

/-- The query is rewritten up to the word. -/
lemma projectAll_of_cut {kept lost : List Char} (hvars : p.vars = kept ++ lost)
    (hsearch : searchFrom projectionEnd 0 none (p.duplicates.goes ++ kept ++ (lost ++ p.back)) =
      some ((p.duplicates.goes ++ kept).length, ())) :
    projectAll p.query = .ok (p.starred lost) := by
  obtain ⟨sign, rest, hcons, hsign⟩ := p.written.exists_cons
  have hbody : p.duplicates.goes ++ kept ++ (lost ++ p.back) =
      p.duplicates.goes ++ sign :: (rest ++ p.back) := by
    rw [List.append_assoc, ← List.append_assoc kept, ← hvars, hcons, List.cons_append]
  obtain ⟨hspace, hplain⟩ := p.duplicates.goes_append hsign (rest ++ p.back)
  rw [← hbody] at hspace hplain
  rw [query, hvars, List.append_assoc kept, ← List.append_assoc p.duplicates.goes]
  exact p.projectAll_front hspace hplain hsearch

/-- **A star stays a star.** -/
lemma projectAll_starred {lost : List Char} (hlost : lost ≠ [] → BeginsWithWhere lost) :
    projectAll (p.starred lost) = .ok (p.starred lost) := by
  have hend : projectionEnd (some '*') (lost ++ p.back) = some () := by
    by_cases hnil : lost = []
    · rw [hnil]
      exact p.ends.projectionEnd _
    · exact projectionEnd_eq_some_iff.2 ⟨[], _, rfl, List.forall_mem_nil _,
        .inr ⟨rfl, p.ends.beginsWithWhere_append.2 (hlost hnil)⟩⟩
  have hsearch : searchFrom projectionEnd 0 none (['*'] ++ (lost ++ p.back)) =
      some (['*'].length, ()) := by
    rw [List.cons_append, List.nil_append, searchFrom,
      projectionEnd_eq_none (by decide) (by decide) (by decide)]
    exact searchFrom_of_eq_some hend _
  have hspace : ∀ c ∈ (['*'] ++ (lost ++ p.back)).head?, isSpace c = false := by
    rintro c ⟨⟩
    rfl
  have hplain : afterDuplicates? (['*'] ++ (lost ++ p.back)) = none := by
    refine afterDuplicates?_eq_none ?_
    rintro c ⟨⟩
    rfl
  have hall := p.projectAll_front hspace hplain hsearch
  rw [List.cons_append, List.nil_append] at hall
  exact hall

/-- **What becomes of a query with a list of variables.** The list is replaced by a star up to the
first word `WHERE` in one of the variables, which goes through that variable: it stands behind the
sign or a character of names beyond ASCII. A word for duplicates with no white space behind it is
replaced as well. All the rest is kept, and doing it again changes nothing.

**Proof sketch.** The keyword is the first one that white space follows, since a word does not go on
where the prologue ends. Inside the list a letter stands inside a variable, so the pattern for the
end matches there only at the word; it matches at the end of the list. In the result it matches
right behind the star. -/
theorem projectAll_query : ∃ kept lost, p.vars = kept ++ lost ∧
    projectAll p.query = .ok (p.starred lost) ∧
    projectAll (p.starred lost) = .ok (p.starred lost) ∧
    (lost = [] ↔ ∀ xs ys, p.vars = xs ++ ys → ¬WhereAt xs ys) ∧
    (lost ≠ [] → WhereAt kept lost ∧ CutsVariable kept (lost ++ p.back) ∧
      (EndsBeyondAscii kept ∨ EndsInSign kept)) ∧
    ∀ xs ys, kept = xs ++ ys → ys ≠ [] → ¬WhereAt xs (ys ++ lost) := by
  obtain ⟨kept, lost, hvars, hsearch, hcut, hfirst⟩ := p.exists_cut
  refine ⟨kept, lost, hvars, p.projectAll_of_cut hvars hsearch,
    p.projectAll_starred fun hlost => (hcut hlost).2, ⟨?_, fun hnowhere => ?_⟩, fun hlost => ?_,
    hfirst⟩
  · rintro rfl xs ys hsplit hwhere
    obtain ⟨c, rest, rfl, -⟩ := hwhere.2.exists_cons
    rw [List.append_nil] at hvars
    refine hfirst xs (c :: rest) (hvars.symm.trans hsplit) (List.cons_ne_nil c rest) ?_
    rwa [List.append_nil]
  · by_contra hlost
    exact hnowhere kept lost hvars (hcut hlost)
  · have hthrough := p.cutsVariable_of_whereAt hvars (hcut hlost).2
    exact ⟨hcut hlost, hthrough, (boundary_of_cutsVariable hthrough).1 (hcut hlost).1⟩

/-- A word for duplicates with no white space behind it is lost. -/
example : (projectAll "SELECT DISTINCT?x WHERE \x7b ?s ?p ?x \x7d").toOption =
    some "SELECT * WHERE \x7b ?s ?p ?x \x7d" := by
  decide +kernel

/-- A query for a variable with the name of the word. -/
def ofWhere : Projection where
  prologue := []
  word := "SELECT".toList
  gap := Gap.single
  duplicates := .absent
  vars := "?where".toList
  back := " WHERE \x7b ?s ?p ?where \x7d".toList
  boundary_prologue := rfl
  first := by
    rintro before spelling c after hsplit - -
    simp at hsplit
  spelled := by decide
  written := .single (.inl rfl) (by decide) (List.all_eq_true.1 (by decide +kernel))
  ends := .word (List.cons_ne_nil _ _) Gap.single.forall_isSpace
    ⟨"WHERE".toList, " \x7b ?s ?p ?where \x7d".toList, rfl, by decide, by decide⟩

/-- **A query that is spoilt**: the name of the variable it asks for is left behind the star. -/
theorem where_splits_projection :
    ofWhere.query = "SELECT ?where WHERE \x7b ?s ?p ?where \x7d" ∧
    projectAll ofWhere.query = .ok "SELECT *where WHERE \x7b ?s ?p ?where \x7d" ∧
    projectAll ofWhere.query ≠ .ok "SELECT * WHERE \x7b ?s ?p ?where \x7d" := by
  have hall : projectAll ofWhere.query = .ok "SELECT *where WHERE \x7b ?s ?p ?where \x7d" :=
    toOption_eq_some_iff.1 (by decide +kernel)
  refine ⟨by decide +kernel, hall, fun hstar => ?_⟩
  rw [hall, Except.ok.injEq] at hstar
  exact absurd hstar (by decide +kernel)

end Projection

end PagedTopK.Query
