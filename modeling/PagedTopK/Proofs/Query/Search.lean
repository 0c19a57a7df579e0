import Mathlib.Data.List.Basic
import Mathlib.Tactic.Lemma
import PagedTopK.Proofs.Text.Blank
import PagedTopK.Query.Clauses

set_option autoImplicit false

/-!
# Where keywords are found

A pattern that looks for a keyword can match only where a word may begin and the first letter is
that of the keyword. A text without such a place is passed over.

## Main definitions

* `Query.Quiet` — a text in which no word begins with one of some letters.
* `Query.Guarded` — a pattern that matches only where such a word begins.

## Main results

* `Query.stripWord?_eq_some_iff` — what a keyword at the start of a text is.
* `Query.search_append`, `Query.search_eq_none` — a search passes over a quiet text.
* `Query.search_eq_some_iff`, `Query.search_eq_none_iff` — a search stops at the first place where
  the pattern matches.
-/

namespace PagedTopK.Query

/-! ## Words and spaces -/

/-- **A word at the start of a text** is any spelling of it in letters of either case. -/
lemma stripWord?_eq_some_iff {word cs rest : List Char} :
    stripWord? word cs = some rest ↔
      ∃ spelling, spelling.map Char.toLower = word ∧ cs = spelling ++ rest := by
  induction word generalizing cs with
  | nil => simp [stripWord?, eq_comm]
  | cons w ws ih =>
    cases cs with
    | nil =>
      refine ⟨nofun, ?_⟩
      rintro ⟨spelling, hword, hcs⟩
      rw [(List.nil_eq_append_iff.1 hcs).1] at hword
      cases hword
    | cons c cs =>
      rw [stripWord?]
      split
      · next hc =>
        rw [ih]
        constructor
        · rintro ⟨spelling, hword, rfl⟩
          exact ⟨c :: spelling, by rw [List.map_cons, hc, hword], rfl⟩
        · rintro ⟨_ | ⟨d, spelling⟩, hword, hcs⟩
          · cases hword
          · cases hcs
            exact ⟨spelling, (List.cons.inj hword).2, rfl⟩
      · next hc =>
        refine ⟨nofun, ?_⟩
        rintro ⟨_ | ⟨d, spelling⟩, hword, hcs⟩
        · cases hword
        · cases hcs
          exact absurd (List.cons.inj hword).1 hc

lemma stripWord?_append {word spelling : List Char} (h : spelling.map Char.toLower = word)
    (rest : List Char) : stripWord? word (spelling ++ rest) = some rest :=
  stripWord?_eq_some_iff.2 ⟨spelling, h, rfl⟩

/-- A gap is read as far as it goes. -/
lemma stripSpaces?_append {gap rest : List Char} (hne : gap ≠ [])
    (hgap : ∀ c ∈ gap, isSpace c = true) (hrest : ∀ c ∈ rest.head?, isSpace c = false) :
    stripSpaces? (gap ++ rest) = some rest := by
  obtain ⟨c, more, rfl⟩ := List.exists_cons_of_ne_nil hne
  obtain ⟨hc, hmore⟩ := List.forall_mem_cons.1 hgap
  rw [List.cons_append, stripSpaces?, if_pos hc, Text.dropWhile_run hmore hrest]

/-- What is read of a gap is white space. -/
lemma exists_of_stripSpaces? {cs rest : List Char} (h : stripSpaces? cs = some rest) :
    ∃ gap, cs = gap ++ rest ∧ gap ≠ [] ∧ ∀ c ∈ gap, isSpace c = true := by
  cases cs with
  | nil => cases h
  | cons c more =>
    rw [stripSpaces?] at h
    split at h
    · next hc =>
      cases h
      refine ⟨c :: more.takeWhile isSpace, ?_, List.cons_ne_nil _ _,
        List.forall_mem_cons.2 ⟨hc, ?_⟩⟩
      · rw [List.cons_append, List.takeWhile_append_dropWhile]
      · exact List.all_eq_true.1 List.all_takeWhile
    · cases h

/-- Every space of ASCII is a blank. -/
lemma isBlank_of_isSpace {c : Char} (h : isSpace c = true) : Text.isBlank c = true := by
  rw [isSpace, Bool.or_eq_true, beq_iff_eq, Bool.and_eq_true, decide_eq_true_eq,
    decide_eq_true_eq] at h
  rcases h with rfl | ⟨hlow, hhigh⟩
  · rfl
  · simp only [Text.isBlank, Bool.or_eq_true, Bool.and_eq_true, decide_eq_true_eq, beq_iff_eq]
    omega

/-- White space ends a name. -/
lemma isNameChar_of_isSpace {c : Char} (h : isSpace c = true) : Text.isNameChar c = false :=
  Text.isNameChar_of_isBlank (isBlank_of_isSpace h)

/-- A keyword that is no variable begins where a word begins. -/
lemma boundary_of_notVariable {before : Option Char} (h : notVariable before = true) :
    boundary before = true := by
  cases before with
  | none => rfl
  | some c =>
    rw [notVariable, Bool.and_eq_true, Bool.and_eq_true] at h
    exact h.1.1

/-! ## Cuts of texts -/

/-- A character of two texts in a row stands in one of them. -/
lemma cases_of_append_eq_append_cons {as bs xs ys : List Char} {c : Char}
    (h : as ++ bs = xs ++ c :: ys) :
    (∃ more, as = xs ++ c :: more ∧ ys = more ++ bs) ∨
      ∃ more, xs = as ++ more ∧ bs = more ++ c :: ys := by
  rcases List.append_eq_append_iff.1 h with ⟨more, hxs, hbs⟩ | ⟨more, has, hys⟩
  · exact .inr ⟨more, hxs, hbs⟩
  · cases more with
    | nil => exact .inr ⟨[], by rw [has, List.append_nil, List.append_nil], hys.symm⟩
    | cons d more =>
      cases hys
      exact .inl ⟨more, has, rfl⟩

/-- **The first cut** of a text with a property, or the end of the text if there is none. -/
lemma exists_first_cut (P : List Char → List Char → Prop) (text : List Char) :
    ∃ kept lost, text = kept ++ lost ∧ (lost ≠ [] → P kept lost) ∧
      ∀ xs ys, kept = xs ++ ys → ys ≠ [] → ¬P xs (ys ++ lost) := by
  induction text generalizing P with
  | nil =>
    exact ⟨[], [], rfl, fun h => absurd rfl h, fun xs ys hsplit hys =>
      absurd (List.append_eq_nil_iff.1 hsplit.symm).2 hys⟩
  | cons c cs ih =>
    by_cases h : P [] (c :: cs)
    · exact ⟨[], c :: cs, rfl, fun _ => h, fun xs ys hsplit hys =>
        absurd (List.append_eq_nil_iff.1 hsplit.symm).2 hys⟩
    · obtain ⟨kept, lost, rfl, hcut, hfirst⟩ := ih (fun xs ys => P (c :: xs) ys)
      refine ⟨c :: kept, lost, rfl, hcut, fun xs ys hsplit hys => ?_⟩
      cases xs with
      | nil =>
        cases hsplit
        exact h
      | cons x xs =>
        obtain ⟨rfl, hkept⟩ := List.cons.inj hsplit
        exact hfirst xs ys hkept hys

/-! ## Quiet texts -/

/-- **A text in which no word begins with one of some letters**, where a word begins only behind a
character that the guard lets pass. The character before the text is given. -/
def Quiet (guard : Option Char → Bool) (initials : List Char) : Option Char → List Char → Prop
  | _, [] => True
  | before, c :: cs =>
    (guard before = true → c.toLower ∉ initials) ∧ Quiet guard initials (some c) cs

/-- **A pattern that matches only where a word begins** with one of some letters. -/
def Guarded {α : Type} (guard : Option Char → Bool) (initials : List Char)
    (pattern : Pattern α) : Prop :=
  ∀ before cs, (pattern before cs).isSome = true →
    guard before = true ∧ ∃ c rest, cs = c :: rest ∧ c.toLower ∈ initials

/-- The last character of a text, or else the one before it. -/
lemma getLast?_cons_or (c : Char) (cs : List Char) (before : Option Char) :
    (c :: cs).getLast?.or before = cs.getLast?.or (some c) := by
  rw [List.getLast?_cons]
  cases cs.getLast? <;> rfl

section Quiet

variable {guard : Option Char → Bool} {initials : List Char} {before : Option Char}
  {cs ds : List Char}

lemma quiet_append (hcs : Quiet guard initials before cs)
    (hds : Quiet guard initials (cs.getLast?.or before) ds) :
    Quiet guard initials before (cs ++ ds) := by
  induction cs generalizing before with
  | nil => exact hds
  | cons c cs ih =>
    rw [getLast?_cons_or] at hds
    exact ⟨hcs.1, ih hcs.2 hds⟩

/-- Where fewer letters count a text is the more quiet. -/
lemma Quiet.mono {fewer : List Char} (h : Quiet guard initials before cs)
    (hsub : fewer ⊆ initials) : Quiet guard fewer before cs := by
  induction cs generalizing before with
  | nil => trivial
  | cons c cs ih => exact ⟨fun hguard hc => h.1 hguard (hsub hc), ih h.2⟩

/-- A text without these letters is quiet. -/
lemma quiet_of_forall (h : ∀ c ∈ cs, c.toLower ∉ initials) : Quiet guard initials before cs := by
  induction cs generalizing before with
  | nil => trivial
  | cons c cs ih =>
    obtain ⟨hc, hcs⟩ := List.forall_mem_cons.1 h
    exact ⟨fun _ => hc, ih hcs⟩

/-- So is a text in which no word begins at all. -/
lemma quiet_of_closed (hbefore : guard before = false) (h : ∀ c ∈ cs, guard (some c) = false) :
    Quiet guard initials before cs := by
  induction cs generalizing before with
  | nil => trivial
  | cons c cs ih =>
    obtain ⟨hc, hcs⟩ := List.forall_mem_cons.1 h
    exact ⟨fun hguard => absurd hguard (by simp [hbefore]), ih hc hcs⟩

variable {α : Type} {pattern : Pattern α}

/-- A search passes over a quiet text. -/
lemma searchFrom_append (hpattern : Guarded guard initials pattern)
    (hcs : Quiet guard initials before cs) (skipped : Nat) (ds : List Char) :
    searchFrom pattern skipped before (cs ++ ds) =
      searchFrom pattern (skipped + cs.length) (cs.getLast?.or before) ds := by
  induction cs generalizing before skipped with
  | nil => rfl
  | cons c cs ih =>
    have hnone : pattern before (c :: (cs ++ ds)) = none := by
      by_contra hsome
      obtain ⟨hguard, d, rest, hd, hmem⟩ :=
        hpattern _ _ (Option.isSome_iff_ne_none.2 hsome)
      cases hd
      exact hcs.1 hguard hmem
    have hskipped : skipped + 1 + cs.length = skipped + (c :: cs).length := by
      rw [List.length_cons]
      omega
    rw [List.cons_append, searchFrom, hnone, ih hcs.2, getLast?_cons_or, hskipped]

/-- A search stops where the pattern matches. -/
lemma searchFrom_of_eq_some {a : α} (h : pattern before cs = some a) (skipped : Nat) :
    searchFrom pattern skipped before cs = some (skipped, a) := by
  cases cs with
  | nil => rw [searchFrom, h]; rfl
  | cons c cs => rw [searchFrom, h]

/-- **A search passes over a quiet text** and stops at the match behind it. -/
theorem search_append {a : α} (hpattern : Guarded guard initials pattern)
    (hcs : Quiet guard initials none cs) (hmatch : pattern cs.getLast? ds = some a) :
    search pattern (cs ++ ds) = some (cs.length, a) := by
  rw [search, searchFrom_append hpattern hcs, Option.or_none, searchFrom_of_eq_some hmatch,
    Nat.zero_add]

/-- In a quiet text nothing is found. -/
theorem search_eq_none (hpattern : Guarded guard initials pattern)
    (hcs : Quiet guard initials none cs) : search pattern cs = none := by
  have hend : pattern cs.getLast? [] = none := by
    by_contra hsome
    obtain ⟨-, d, rest, hd, -⟩ := hpattern _ _ (Option.isSome_iff_ne_none.2 hsome)
    cases hd
  have happend := searchFrom_append hpattern hcs 0 []
  rw [List.append_nil, Option.or_none] at happend
  rw [search, happend, searchFrom, hend]
  rfl

end Quiet

/-! ## The patterns for modifiers -/

/-- A word at the start of a text begins with its first letter. -/
lemma exists_cons_of_stripWord? {w : Char} {word cs rest : List Char}
    (h : stripWord? word cs = some rest) (hw : word.head? = some w) :
    ∃ c more, cs = c :: more ∧ c.toLower = w := by
  obtain ⟨_ | ⟨c, spelling⟩, rfl, rfl⟩ := stripWord?_eq_some_iff.1 h
  · cases hw
  · exact ⟨c, spelling ++ rest, rfl, Option.some.inj hw⟩

/-- Where another letter stands there is no such word. -/
lemma stripWord?_eq_none {w : Char} {word cs : List Char} (hw : word.head? = some w)
    (h : ∀ c ∈ cs.head?, c.toLower ≠ w) : stripWord? word cs = none := by
  rw [Option.eq_none_iff_forall_ne_some]
  intro rest hrest
  obtain ⟨c, more, rfl, hc⟩ := exists_cons_of_stripWord? hrest hw
  exact h c rfl hc

/-- Two words are read with the gap between them. -/
lemma stripTwoWords?_append {first second spelling gap spelling' rest : List Char}
    (hfirst : spelling.map Char.toLower = first) (hne : gap ≠ [])
    (hgap : ∀ c ∈ gap, isSpace c = true) (hsecond : spelling'.map Char.toLower = second)
    (hstart : ∀ c ∈ (spelling' ++ rest).head?, isSpace c = false) :
    stripTwoWords? first second (spelling ++ gap ++ spelling' ++ rest) = some rest := by
  rw [List.append_assoc, List.append_assoc, stripTwoWords?, stripWord?_append hfirst,
    Option.bind_some, stripSpaces?_append hne hgap hstart, Option.bind_some,
    stripWord?_append hsecond]

/-- Two words begin with the first one. -/
lemma exists_of_stripTwoWords? {first second cs rest : List Char}
    (h : stripTwoWords? first second cs = some rest) :
    ∃ gap back, stripWord? first cs = some gap ∧ stripSpaces? gap = some back ∧
      stripWord? second back = some rest := by
  obtain ⟨gap, hgap, hrest⟩ := Option.bind_eq_some_iff.1 h
  obtain ⟨back, hback, hsecond⟩ := Option.bind_eq_some_iff.1 hrest
  exact ⟨gap, back, hgap, hback, hsecond⟩

/-- **What the pattern for modifiers matches**: one of the keywords, where no variable goes on and
no word. -/
lemma modifier_eq_some_iff {before : Option Char} {cs : List Char} :
    modifier before cs = some () ↔ notVariable before = true ∧ ∃ rest, boundary rest.head? = true ∧
      (stripTwoWords? "order".toList "by".toList cs = some rest ∨
        stripWord? "limit".toList cs = some rest ∨ stripWord? "offset".toList cs = some rest) := by
  unfold modifier
  simp only [Option.any_eq_true, ite_eq_left_iff, reduceCtorEq, imp_false, not_not,
    Bool.and_eq_true, Bool.or_eq_true]
  refine and_congr_right fun _ => ?_
  constructor
  · rintro ((⟨rest, h, hb⟩ | ⟨rest, h, hb⟩) | ⟨rest, h, hb⟩)
    · exact ⟨rest, hb, .inl h⟩
    · exact ⟨rest, hb, .inr (.inl h)⟩
    · exact ⟨rest, hb, .inr (.inr h)⟩
  · rintro ⟨rest, hb, h | h | h⟩
    · exact .inl (.inl ⟨rest, h, hb⟩)
    · exact .inl (.inr ⟨rest, h, hb⟩)
    · exact .inr ⟨rest, h, hb⟩

lemma guarded_modifier : Guarded notVariable ['o', 'l'] modifier := by
  intro before cs h
  obtain ⟨hbefore, rest, -, hword⟩ := modifier_eq_some_iff.1 (Option.eq_some_of_isSome h)
  refine ⟨hbefore, ?_⟩
  have hinitial : ∃ w ∈ ['o', 'l'], ∃ c more, cs = c :: more ∧ c.toLower = w := by
    rcases hword with hword | hword | hword
    · obtain ⟨gap, -, hgap, -⟩ := exists_of_stripTwoWords? hword
      exact ⟨'o', by decide, exists_cons_of_stripWord? hgap (by decide)⟩
    · exact ⟨'l', by decide, exists_cons_of_stripWord? hword (by decide)⟩
    · exact ⟨'o', by decide, exists_cons_of_stripWord? hword (by decide)⟩
  obtain ⟨w, hw, c, more, hcs, rfl⟩ := hinitial
  exact ⟨c, more, hcs, hw⟩

/-- **What the pattern for a limit matches**: the keyword, a gap and digits. -/
lemma limit_eq_some_iff {before : Option Char} {cs digits rest : List Char} :
    limit before cs = some (digits, rest) ↔ notVariable before = true ∧
      ∃ gap number, stripWord? "limit".toList cs = some gap ∧ stripSpaces? gap = some number ∧
        digits = number.takeWhile Char.isDigit ∧ digits ≠ [] ∧
        rest = number.dropWhile Char.isDigit := by
  unfold limit
  split
  · next hbefore =>
    simp only [Option.bind_eq_some_iff, hbefore, true_and]
    constructor
    · rintro ⟨number, ⟨gap, hgap, hnumber⟩, h⟩
      split at h
      · cases h
      · next hne =>
        cases h
        exact ⟨gap, number, hgap, hnumber, rfl, hne, rfl⟩
    · rintro ⟨gap, number, hgap, hnumber, rfl, hne, rfl⟩
      exact ⟨number, ⟨gap, hgap, hnumber⟩, if_neg hne⟩
  · next hbefore => simp [hbefore]

lemma guarded_limit : Guarded notVariable ['l'] limit := by
  intro before cs h
  obtain ⟨hbefore, gap, -, hgap, -⟩ := limit_eq_some_iff.1 (Option.eq_some_of_isSome h)
  obtain ⟨c, more, hcs, hc⟩ :=
    exists_cons_of_stripWord? hgap (show _ = some 'l' by decide)
  exact ⟨hbefore, c, more, hcs, List.mem_singleton.2 hc⟩

/-- **What the pattern for an order clause matches**: both words as words of their own. -/
lemma orderBy_eq_some_iff {before : Option Char} {cs rest : List Char} :
    orderBy before cs = some rest ↔ boundary before = true ∧
      stripTwoWords? "order".toList "by".toList cs = some rest ∧ boundary rest.head? = true := by
  unfold orderBy
  split
  · next hbefore => simp [Option.filter_eq_some_iff, hbefore]
  · next hbefore => simp [hbefore]

lemma guarded_orderBy : Guarded boundary ['o'] orderBy := by
  intro before cs h
  obtain ⟨hbefore, hwords, -⟩ := orderBy_eq_some_iff.1 (Option.eq_some_of_isSome h)
  obtain ⟨gap, -, hgap, -⟩ := exists_of_stripTwoWords? hwords
  obtain ⟨c, more, hcs, hc⟩ :=
    exists_cons_of_stripWord? hgap (show _ = some 'o' by decide)
  exact ⟨hbefore, c, more, hcs, List.mem_singleton.2 hc⟩

/-! ## Where a search stops -/

section Stops

variable {α : Type} {pattern : Pattern α} {skipped : Nat} {before : Option Char} {cs : List Char}
  {place : Nat} {a : α}

lemma searchFrom_eq_some_iff :
    searchFrom pattern skipped before cs = some (place, a) ↔
      ∃ front back, cs = front ++ back ∧ place = skipped + front.length ∧
        pattern (front.getLast?.or before) back = some a ∧
        ∀ xs ys, front = xs ++ ys → ys ≠ [] →
          pattern (xs.getLast?.or before) (ys ++ back) = none := by
  induction cs generalizing skipped before with
  | nil =>
    rw [searchFrom, Option.map_eq_some_iff]
    constructor
    · rintro ⟨b, hb, heq⟩
      cases heq
      refine ⟨[], [], rfl, rfl, hb, fun xs ys hxs hys => ?_⟩
      exact absurd (List.append_eq_nil_iff.1 hxs.symm).2 hys
    · rintro ⟨front, back, hcs, rfl, hback, -⟩
      obtain ⟨rfl, rfl⟩ := List.append_eq_nil_iff.1 hcs.symm
      exact ⟨a, hback, rfl⟩
  | cons c cs ih =>
    rw [searchFrom]
    split
    · next b hb =>
      constructor
      · intro h
        cases h
        refine ⟨[], c :: cs, rfl, rfl, hb, fun xs ys hxs hys => ?_⟩
        exact absurd (List.append_eq_nil_iff.1 hxs.symm).2 hys
      · rintro ⟨front, back, hcs, rfl, hback, hfirst⟩
        cases front with
        | nil =>
          cases hcs
          cases hb.symm.trans hback
          rfl
        | cons d front =>
          have hnone := hfirst [] (d :: front) rfl (List.cons_ne_nil d front)
          rw [← hcs] at hnone
          cases hb.symm.trans hnone
    · next hnone =>
      rw [ih]
      constructor
      · rintro ⟨front, back, rfl, rfl, hback, hfirst⟩
        refine ⟨c :: front, back, rfl, ?_, ?_, fun xs ys hxs hys => ?_⟩
        · rw [List.length_cons]
          omega
        · rwa [getLast?_cons_or]
        · cases xs with
          | nil =>
            cases hxs
            exact hnone
          | cons x xs =>
            obtain ⟨rfl, hfront⟩ := List.cons.inj hxs
            rw [getLast?_cons_or]
            exact hfirst xs ys hfront hys
      · rintro ⟨front, back, hcs, rfl, hback, hfirst⟩
        cases front with
        | nil =>
          cases hcs
          cases hnone.symm.trans hback
        | cons d front =>
          obtain ⟨rfl, rfl⟩ := List.cons.inj hcs
          rw [getLast?_cons_or] at hback
          refine ⟨front, back, rfl, ?_, hback, fun xs ys hxs hys => ?_⟩
          · rw [List.length_cons]
            omega
          · have hnone := hfirst (c :: xs) ys (by rw [hxs, List.cons_append]) hys
            rwa [getLast?_cons_or] at hnone

/-- **A search stops at the first place where the pattern matches.** -/
theorem search_eq_some_iff :
    search pattern cs = some (place, a) ↔
      ∃ front back, cs = front ++ back ∧ place = front.length ∧
        pattern front.getLast? back = some a ∧
        ∀ xs ys, front = xs ++ ys → ys ≠ [] → pattern xs.getLast? (ys ++ back) = none := by
  rw [search, searchFrom_eq_some_iff]
  simp only [Nat.zero_add, Option.or_none]

/-- A search stops only where the pattern matches. -/
theorem exists_of_search (h : search pattern cs = some (place, a)) :
    ∃ front back, cs = front ++ back ∧ place = front.length ∧
      pattern front.getLast? back = some a := by
  obtain ⟨front, back, hcs, hplace, hback, -⟩ := search_eq_some_iff.1 h
  exact ⟨front, back, hcs, hplace, hback⟩

lemma searchFrom_eq_none_iff :
    searchFrom pattern skipped before cs = none ↔
      ∀ front back, cs = front ++ back → pattern (front.getLast?.or before) back = none := by
  induction cs generalizing skipped before with
  | nil =>
    rw [searchFrom, Option.map_eq_none_iff]
    constructor
    · intro hnone front back hcs
      obtain ⟨rfl, rfl⟩ := List.append_eq_nil_iff.1 hcs.symm
      exact hnone
    · exact fun h => h [] [] rfl
  | cons c cs ih =>
    rw [searchFrom]
    split
    · next b hb =>
      refine iff_of_false (Option.some_ne_none _) fun h => ?_
      cases hb.symm.trans (h [] (c :: cs) rfl)
    · next hnone =>
      rw [ih]
      constructor
      · intro h front back hcs
        cases front with
        | nil =>
          cases hcs
          exact hnone
        | cons d front =>
          obtain ⟨rfl, rfl⟩ := List.cons.inj hcs
          rw [getLast?_cons_or]
          exact h front back rfl
      · intro h front back hcs
        rw [← getLast?_cons_or]
        exact h (c :: front) back (by rw [hcs, List.cons_append])

/-- **A search finds nothing where the pattern matches nowhere.** -/
theorem search_eq_none_iff :
    search pattern cs = none ↔
      ∀ front back, cs = front ++ back → pattern front.getLast? back = none := by
  rw [search, searchFrom_eq_none_iff]
  simp only [Option.or_none]

end Stops

end PagedTopK.Query
