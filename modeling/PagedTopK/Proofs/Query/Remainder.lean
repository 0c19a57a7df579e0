import PagedTopK.Proofs.Query.Modifiers

set_option autoImplicit false

/-!
# What is left of a query

Dropping the solution modifiers and setting a limit, on any text whatever. Both leave alone what
stands up to the last closing brace. A query is cut at its first modifier, and the cut makes no new
one: before the keyword stands no character of a word, and blanks are no part of a keyword.

## Main definitions

* `Query.SpellsModifier` — the keywords that begin a modifier, as they are spelled.

## Main results

* `Query.search_modifier_of_cut` — before the first modifier there is none, blanks aside.
* `Query.exists_withoutModifiers` — what is left without the modifiers has none.
* `Query.remainder_of_any_text` — dropping modifiers and setting a limit on any text.
-/

namespace PagedTopK.Query

/-! ## Keywords as they are spelled -/

/-- **A spelling of a keyword** that begins a modifier. -/
inductive SpellsModifier : List Char → Prop
  /-- Two words with white space between them. -/
  | orderBy {first gap second : List Char} : first.map Char.toLower = "order".toList → gap ≠ [] →
    (∀ c ∈ gap, isSpace c = true) → second.map Char.toLower = "by".toList →
    SpellsModifier (first ++ gap ++ second)
  /-- The word for a limit. -/
  | limit {word : List Char} : word.map Char.toLower = "limit".toList → SpellsModifier word
  /-- The word for an offset. -/
  | offset {word : List Char} : word.map Char.toLower = "offset".toList → SpellsModifier word

/-- A spelling of a word ends in a letter. -/
lemma exists_getLast?_of_map_toLower {word spelling : List Char}
    (h : spelling.map Char.toLower = word) (hword : ∀ c ∈ word, c.isAlpha = true)
    (hne : word ≠ []) : ∃ c, spelling.getLast? = some c ∧ isWordChar c = true := by
  have hspelling : spelling ≠ [] := by
    rintro rfl
    exact hne h.symm
  exact ⟨_, List.getLast?_eq_some_getLast hspelling, isWordChar_of_isAlpha
    (isAlpha_of_map_toLower h hword _ (List.getLast_mem hspelling))⟩

/-- So does every keyword. -/
lemma SpellsModifier.exists_getLast? {word : List Char} (h : SpellsModifier word) :
    ∃ c, word.getLast? = some c ∧ isWordChar c = true := by
  cases h with
  | orderBy hfirst hne hgap hsecond =>
    obtain ⟨c, hc, hletter⟩ := exists_getLast?_of_map_toLower hsecond (by simp) (by simp)
    exact ⟨c, by rw [List.getLast?_append, hc, Option.some_or], hletter⟩
  | limit h => exact exists_getLast?_of_map_toLower h (by simp) (by simp)
  | offset h => exact exists_getLast?_of_map_toLower h (by simp) (by simp)

/-- **A modifier begins** with a keyword behind which the word does not go on. -/
theorem modifier_iff_spells {before : Option Char} {cs : List Char} :
    modifier before cs = some () ↔ notVariable before = true ∧
      ∃ word rest, cs = word ++ rest ∧ SpellsModifier word ∧ boundary rest.head? = true := by
  rw [modifier_eq_some_iff]
  refine and_congr_right fun _ => ⟨?_, ?_⟩
  · rintro ⟨rest, hrest, hwords | hword | hword⟩
    · obtain ⟨gap, back, hfirst, hgap, hsecond⟩ := exists_of_stripTwoWords? hwords
      obtain ⟨first, hlower, rfl⟩ := stripWord?_eq_some_iff.1 hfirst
      obtain ⟨spaces, rfl, hne, hspaces⟩ := exists_of_stripSpaces? hgap
      obtain ⟨second, hlower', rfl⟩ := stripWord?_eq_some_iff.1 hsecond
      exact ⟨first ++ spaces ++ second, rest, by simp only [List.append_assoc],
        .orderBy hlower hne hspaces hlower', hrest⟩
    · obtain ⟨word, hlower, rfl⟩ := stripWord?_eq_some_iff.1 hword
      exact ⟨word, rest, rfl, .limit hlower, hrest⟩
    · obtain ⟨word, hlower, rfl⟩ := stripWord?_eq_some_iff.1 hword
      exact ⟨word, rest, rfl, .offset hlower, hrest⟩
  · rintro ⟨word, rest, rfl, hword, hrest⟩
    refine ⟨rest, hrest, ?_⟩
    cases hword with
    | orderBy hfirst hne hgap hsecond =>
      exact .inl (stripTwoWords?_append hfirst hne hgap hsecond
        (isSpace_of_spelled hsecond (by simp) (by simp) rest))
    | limit h => exact .inr (.inl (stripWord?_append h rest))
    | offset h => exact .inr (.inr (stripWord?_append h rest))

/-- A modifier goes on being one if more text follows, unless its keyword goes on. -/
lemma modifier_append {before : Option Char} {cs ds : List Char}
    (h : modifier before cs = some ())
    (hends : boundary cs.getLast? = false → boundary ds.head? = true) :
    modifier before (cs ++ ds) = some () := by
  obtain ⟨hbefore, word, rest, rfl, hword, hrest⟩ := modifier_iff_spells.1 h
  refine modifier_iff_spells.2
    ⟨hbefore, word, rest ++ ds, List.append_assoc _ _ _, hword, ?_⟩
  cases rest with
  | cons c rest => exact hrest
  | nil =>
    obtain ⟨c, hc, hletter⟩ := hword.exists_getLast?
    refine hends ?_
    rw [List.append_nil, hc, boundary, hletter]
    rfl

/-- A limit is a modifier. -/
lemma modifier_of_limit {before : Option Char} {cs : List Char} {found : List Char × List Char}
    (h : limit before cs = some found) : modifier before cs = some () := by
  obtain ⟨digits, rest⟩ := found
  obtain ⟨hbefore, gap, number, hword, hgap, -⟩ := limit_eq_some_iff.1 h
  obtain ⟨spaces, rfl, hne, hspaces⟩ := exists_of_stripSpaces? hgap
  exact modifier_eq_some_iff.2
    ⟨hbefore, _, Gap.boundary_append ⟨⟨spaces, hspaces⟩, hne⟩ number, .inr (.inl hword)⟩

/-! ## Cutting at a modifier -/

/-- **Before the first modifier there is none**, also when the blanks before it are taken off. -/
theorem search_modifier_of_cut {kept blanks cut : List Char}
    (hblanks : ∀ c ∈ blanks, Text.isBlank c = true)
    (hcut : notVariable (kept ++ blanks).getLast? = true)
    (hfirst : ∀ xs ys, kept ++ blanks = xs ++ ys → ys ≠ [] →
      modifier xs.getLast? (ys ++ cut) = none) : search modifier kept = none := by
  refine search_eq_none_iff.2 fun xs ys hkept => ?_
  by_contra hsome
  have hmatch : modifier xs.getLast? ys = some () :=
    Option.eq_some_of_isSome (Option.isSome_iff_ne_none.2 hsome)
  obtain ⟨-, c, more, hys, -⟩ := guarded_modifier _ _ (Option.isSome_iff_ne_none.2 hsome)
  have hne : ys ≠ [] := hys ▸ List.cons_ne_nil c more
  -- With what was cut off the modifier would have been found where it stands.
  have hnone := hfirst xs (ys ++ blanks) (by rw [hkept, List.append_assoc])
    (List.append_ne_nil_of_left_ne_nil hne _)
  rw [List.append_assoc, modifier_append hmatch] at hnone
  · cases hnone
  · intro hends
    cases blanks with
    | cons b blanks =>
      have hb := isWordChar_of_isBlank (hblanks b List.mem_cons_self)
      rw [List.cons_append, List.head?_cons, boundary, hb]
      rfl
    | nil =>
      have hlast := boundary_of_notVariable hcut
      rw [List.append_nil, hkept, List.getLast?_append_of_ne_nil _ hne, hends] at hlast
      cases hlast

variable (query : String)

/-- **The two parts of a query**: the first ends in the last closing brace, if there is one. -/
lemma exists_splitTail : ∃ head text, query = String.ofList (head ++ text) ∧
    splitTail query.toList = (head, text) ∧ (∀ c ∈ head.getLast?, c = '\x7d') ∧
    '\x7d' ∉ text := by
  refine ⟨_, _, ?_, rfl, fun c hc => ?_, fun hmem => ?_⟩
  · rw [← List.reverse_append, List.takeWhile_append_dropWhile, List.reverse_reverse,
      String.ofList_toList]
  · rw [List.getLast?_reverse] at hc
    have hnot := List.head?_dropWhile_not (· ≠ '\x7d') query.toList.reverse
    rw [Option.mem_def.1 hc] at hnot
    simpa using hnot
  · have hall := List.all_eq_true.1 List.all_takeWhile _ (List.mem_reverse.1 hmem)
    simp at hall

/-- A closing brace is no blank. -/
lemma isBlank_of_eq_brace {head : List Char} (h : ∀ c ∈ head.getLast?, c = '\x7d') :
    ∀ c ∈ head.getLast?, Text.isBlank c = false := by
  intro c hc
  rw [h c hc]
  decide

/-- **What is left without the modifiers**: the part up to the last closing brace, and some of the
other part that holds no modifier. -/
theorem exists_withoutModifiers : ∃ head kept cut,
    query = String.ofList (head ++ (kept ++ cut)) ∧
    withoutModifiers query = String.ofList (head ++ kept) ∧
    (∀ c ∈ head.getLast?, c = '\x7d') ∧ '\x7d' ∉ kept ++ cut ∧ search modifier kept = none := by
  obtain ⟨head, text, hquery, hsplit, hhead, htext⟩ := exists_splitTail query
  rw [withoutModifiers, hsplit]
  cases hbefore : beforeModifier? text with
  | none =>
    refine ⟨head, text, [], ?_, ?_, hhead, ?_, Option.map_eq_none_iff.1 hbefore⟩
    · rw [List.append_nil, hquery]
    · simp only [hbefore]
      exact hquery
    · rwa [List.append_nil]
  | some before =>
    obtain ⟨⟨place, found⟩, hsearch, rfl⟩ := Option.map_eq_some_iff.1 hbefore
    obtain ⟨front, cut, rfl, rfl, hmatch, hfirst⟩ := search_eq_some_iff.1 hsearch
    obtain ⟨blanks, hfront, hblanks⟩ := Text.exists_trimEnd front
    rw [List.take_left] at hbefore
    refine ⟨head, Text.trimEnd front, blanks ++ cut, ?_, ?_, hhead, ?_, ?_⟩
    · rw [hquery, ← List.append_assoc (Text.trimEnd front), ← hfront]
    · simp only [hbefore]
      rw [Text.trimEnd_append_of_getLast? (isBlank_of_eq_brace hhead)]
    · rwa [← List.append_assoc, ← hfront]
    · rw [hfront] at hmatch hfirst
      exact search_modifier_of_cut hblanks (modifier_iff_spells.1 hmatch).1 hfirst

/-- Where there is no modifier there is no limit. -/
lemma limit?_of_search_modifier (h : search modifier (tail query) = none) :
    limit? query = .ok none := by
  have hnone : search limit (tail query) = none := by
    refine search_eq_none_iff.2 fun front back htail => ?_
    by_contra hsome
    obtain ⟨found, hfound⟩ := Option.ne_none_iff_exists'.1 hsome
    have hmodifier := search_eq_none_iff.1 h front back htail
    rw [modifier_of_limit hfound] at hmodifier
    cases hmodifier
  rw [limit?, hnone]

/-- A text that ends in a closing brace and begins a query begins the first part of it. -/
lemma prefix_head {pattern head text : List Char} (htext : '\x7d' ∉ text)
    (h : pattern ++ ['\x7d'] <+: head ++ text) : pattern ++ ['\x7d'] <+: head := by
  obtain ⟨rest, hrest⟩ := h
  rw [List.append_assoc] at hrest
  rcases cases_of_append_eq_append_cons hrest.symm with ⟨more, rfl, -⟩ | ⟨more, -, rfl⟩
  · exact ⟨more, List.append_assoc _ _ _⟩
  · exact absurd (List.mem_append_right _ List.mem_cons_self) htext

/-- **What is left of any text.** Without its modifiers a query is its own beginning, has none left
and so no limit. Nothing up to the last closing brace is touched, neither by dropping the modifiers
nor by setting a limit: whatever begins the query and ends in a closing brace begins the result.

**Proof sketch.** The cut stands at the first modifier, before which no word goes on. A modifier in
what is left would end before the cut or before the blanks that are trimmed off, and would have been
found first. A limit is a modifier, and a closing brace is no blank. -/
theorem remainder_of_any_text (n : Nat) :
    (withoutModifiers query).toList <+: query.toList ∧
    withoutModifiers (withoutModifiers query) = withoutModifiers query ∧
    limit? (withoutModifiers query) = .ok none ∧
    ∀ pattern, pattern ++ ['\x7d'] <+: query.toList →
      pattern ++ ['\x7d'] <+: (withoutModifiers query).toList ∧
      pattern ++ ['\x7d'] <+: (setLimit query n).toList := by
  obtain ⟨head, kept, cut, hquery, hwithout, hhead, hbrace, hnone⟩ := exists_withoutModifiers query
  have hkept : '\x7d' ∉ kept := fun hmem => hbrace (List.mem_append_left _ hmem)
  have hsplit : splitTail (withoutModifiers query).toList = (head, kept) := by
    rw [hwithout, String.toList_ofList, splitTail_of_getLast? hhead hkept]
  have htail : search modifier (tail (withoutModifiers query)) = none := by
    rw [tail, hsplit]
    exact hnone
  refine ⟨?_, ?_, limit?_of_search_modifier _ htail, fun pattern hpattern => ?_⟩
  · rw [hwithout, hquery, String.toList_ofList, String.toList_ofList, ← List.append_assoc]
    exact List.prefix_append _ _
  · have hbefore : beforeModifier? kept = none := by rw [beforeModifier?, hnone, Option.map_none]
    rw [withoutModifiers, hsplit]
    simp only [hbefore]
  · rw [hquery, String.toList_ofList] at hpattern
    have hprefix := prefix_head hbrace hpattern
    constructor
    · rw [hwithout, String.toList_ofList]
      exact hprefix.trans (List.prefix_append _ _)
    · refine hprefix.trans ?_
      rw [setLimit, hquery, String.toList_ofList, splitTail_of_getLast? hhead hbrace]
      dsimp only
      rw [Text.trimEnd_append_of_getLast? (isBlank_of_eq_brace hhead)]
      simp only [String.toList_append, String.toList_ofList, List.append_assoc]
      exact List.prefix_append _ _

end PagedTopK.Query
