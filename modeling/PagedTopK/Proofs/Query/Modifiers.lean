import PagedTopK.Proofs.Query.Grammar
import PagedTopK.Proofs.Text.Digits

set_option autoImplicit false

/-!
# Operations on solution modifiers

Reading the order conditions, reading the limit, dropping the modifiers and setting a limit agree on
where the clauses of a query are.

## Main definitions

* `Query.withTail` — a query with given modifiers.
* `Query.Modifiers.withLimit` — modifiers with another limit, which stands at the end.

## Main results

* `Query.orderConditions_withTail`, `Query.limit?_withTail`, `Query.withoutModifiers_withTail`,
  `Query.setLimit_withTail` — one operation each.
* `Query.operations_agree` — all of them, also after a limit has been set.
-/

namespace PagedTopK.Query

/-! ## Heads and tails -/

/-- **A query with given modifiers**: a text, a closing brace, and the modifiers. -/
def withTail (pattern : List Char) (m : Modifiers) : String :=
  String.ofList (pattern ++ '\x7d' :: m.text)

/-- The query up to its last closing brace. -/
def headOf (pattern : List Char) : String := String.ofList (pattern ++ ['\x7d'])

/-- A closing brace stands in no modifier. -/
lemma not_isClauseChar_brace : ¬IsClauseChar '\x7d' := by
  rintro (h | h | h | h | h)
  · exact absurd h (by decide)
  · exact absurd h (by decide)
  · rcases h with h | h <;> exact absurd h (by decide)
  · exact absurd h (by decide)
  · exact absurd h (by decide)

/-- The last closing brace is found, if there is one. -/
lemma splitTail_of_getLast? {head text : List Char} (hhead : ∀ c ∈ head.getLast?, c = '\x7d')
    (h : '\x7d' ∉ text) : splitTail (head ++ text) = (head, text) := by
  have hrun : ∀ c ∈ text.reverse, decide (c ≠ '\x7d') = true := by
    intro c hc
    rw [decide_eq_true_eq]
    rintro rfl
    exact h (List.mem_reverse.1 hc)
  have hend : ∀ c ∈ head.reverse.head?, decide (c ≠ '\x7d') = false := by
    intro c hc
    rw [List.head?_reverse] at hc
    simpa using hhead c hc
  rw [splitTail]
  simp only [List.reverse_append]
  rw [Text.dropWhile_run hrun hend, Text.takeWhile_run hrun hend]
  simp

variable (pattern : List Char) (m : Modifiers)

lemma splitTail_withTail :
    splitTail (withTail pattern m).toList = (pattern ++ ['\x7d'], m.text) := by
  have hsplit : pattern ++ '\x7d' :: m.text = pattern ++ ['\x7d'] ++ m.text := by simp
  rw [withTail, String.toList_ofList, hsplit]
  refine splitTail_of_getLast? (fun c hc => ?_)
    fun hmem => not_isClauseChar_brace (m.isClauseChar _ hmem)
  rw [List.getLast?_concat] at hc
  cases hc
  rfl

lemma tail_withTail : tail (withTail pattern m) = m.text := by
  rw [tail, splitTail_withTail]

/-! ## Reading -/

/-- **The order conditions are read**, all of them and in their order. -/
theorem orderConditions_withTail :
    orderConditions (withTail pattern m) = .ok m.conditions := by
  rw [orderConditions, tail_withTail, Modifiers.conditions]
  cases horder : m.order with
  | none => rw [Modifiers.search_orderBy_eq_none horder, Option.elim_none]
  | some clause =>
    rw [Modifiers.search_orderBy horder, Option.elim_some]
    simp only [Modifiers.parseAll_body horder]
    split
    · next hnil => exact absurd (Except.ok.inj hnil) clause.conditions_ne
    · rfl

/-- A number is read if it fits. -/
lemma natBelow?_digits (l : LimitClause) :
    Digits.natBelow? Digits.word64 l.digits = some (Digits.value l.digits) := by
  have hsign : ∀ rest, l.digits ≠ '+' :: rest := by
    intro rest hplus
    exact absurd (l.forall_isDigit '+' (hplus ▸ List.mem_cons_self)) (by decide)
  rw [Digits.natBelow?]
  · exact if_pos ⟨l.digits_ne, List.all_eq_true.2 l.forall_isDigit, l.value_lt⟩
  · exact hsign

/-- **The limit is read.** -/
theorem limit?_withTail : limit? (withTail pattern m) = .ok m.limit? := by
  rw [limit?, tail_withTail, Modifiers.text,
    Slice.search_limit m.slice m.trail m.quiet_front m.notVariable_front, Modifiers.limit?]
  cases m.slice.limit? with
  | none => rfl
  | some l => simp only [Option.map_some, natBelow?_digits l]

/-! ## Dropping -/

/-- A head ends in no blank. -/
lemma isBlank_of_mem_getLast?_head :
    ∀ c ∈ (pattern ++ ['\x7d']).getLast?, Text.isBlank c = false := by
  intro c hc
  rw [List.getLast?_concat, Option.mem_def, Option.some.injEq] at hc
  rw [← hc]
  decide

/-- **All modifiers are dropped**, and the white space before them. -/
theorem withoutModifiers_withTail :
    (m.HasClause → withoutModifiers (withTail pattern m) = headOf pattern) ∧
      (¬m.HasClause → withoutModifiers (withTail pattern m) = withTail pattern m) := by
  rw [withoutModifiers, splitTail_withTail]
  constructor
  · intro hclause
    obtain ⟨spaces, hspaces⟩ := m.beforeModifier?_text hclause
    simp only [hspaces]
    rw [Text.trimEnd_append _ fun c hc => isBlank_of_isSpace (spaces.forall_isSpace c hc),
      Text.trimEnd_eq_self (isBlank_of_mem_getLast?_head pattern), headOf]
  · intro hnone
    simp only [m.beforeModifier?_eq_none hnone]

/-! ## Setting a limit -/

/-- A limit as it is set. -/
def LimitClause.plain (n : Nat) (hn : n < Digits.word64) : LimitClause where
  word := "LIMIT".toList
  gap := Gap.single
  digits := Digits.ofNat n
  spelled := by decide
  digits_ne := by
    have hlength : 0 < (Digits.ofNat n).length := Nat.length_toDigits_pos
    exact List.ne_nil_of_length_pos hlength
  forall_isDigit := fun _ => Digits.isDigit_of_mem_ofNat
  value_lt := by rwa [Digits.value_ofNat]

/-- White space that goes before the offset once the limit is cut out. -/
def Slice.gapBefore : Slice → Spaces
  | limitOffset _ gap _ => gap.toSpaces
  | all | limit _ | offset _ | offsetLimit _ _ _ => Spaces.none

/-- White space that stays behind the offset once the limit is cut out. -/
def Slice.gapAfter : Slice → Spaces
  | offsetLimit _ gap _ => gap.toSpaces
  | all | limit _ | offset _ | limitOffset _ _ _ => Spaces.none

/-- What is left once the limit is cut out. -/
lemma Slice.front_append_back (slice : Slice) :
    slice.front ++ slice.back = slice.gapBefore.text ++
      ((slice.offset?.elim [] fun o => o.text) ++ slice.gapAfter.text) := by
  cases slice <;> simp [front, back, gapBefore, gapAfter, offset?, Spaces.none]

/-- A limit and an offset are more than nothing. -/
lemma Slice.ne_all_of_offset? {slice : Slice} {o : OffsetClause} (h : slice.offset? = some o) :
    slice ≠ .all := by
  rintro rfl
  cases h

/-- The offset, and a limit behind it. -/
def Slice.withLimit (slice : Slice) (l : LimitClause) : Slice :=
  slice.offset?.elim (.limit l) fun o => .offsetLimit o Gap.single l

/-- **Modifiers with another limit.** The offset stays, and the limit goes to the end. -/
def Modifiers.withLimit (m : Modifiers) (l : LimitClause) : Modifiers where
  lead := m.order.elim (m.slice.offset?.elim Spaces.none fun _ => m.lead) fun _ => m.lead
  order := m.order
  gap := m.slice.offset?.elim Gap.single.toSpaces fun _ => m.gap.append m.slice.gapBefore
  slice := m.slice.withLimit l
  trail := Spaces.none
  separated := by
    intro horder _
    cases hoffset : m.slice.offset? with
    | none => exact Gap.single.text_ne
    | some o =>
      exact List.append_ne_nil_of_left_ne_nil
        (m.separated horder (Slice.ne_all_of_offset? hoffset)) _

section WithLimit

variable {m} (l : LimitClause)

lemma Slice.withLimit_offset? (slice : Slice) :
    (slice.withLimit l).offset? = slice.offset? := by
  rw [Slice.withLimit]
  cases h : slice.offset? <;> rfl

lemma Slice.withLimit_limit? (slice : Slice) : (slice.withLimit l).limit? = some l := by
  rw [Slice.withLimit]
  cases slice.offset? <;> rfl

lemma Modifiers.hasClause_withLimit : (m.withLimit l).HasClause := by
  refine .inr fun hall => ?_
  have hlimit := m.slice.withLimit_limit? l
  rw [show m.slice.withLimit l = .all from hall] at hlimit
  cases hlimit

/-- Without an offset the limit follows the order clause. -/
lemma Modifiers.withLimit_text_of_none (h : m.slice.offset? = none) :
    (m.withLimit l).text =
      (m.order.elim [] fun clause => m.lead.text ++ clause.text) ++ ' ' :: l.text := by
  cases horder : m.order <;>
    simp [text, front, orderText, withLimit, Slice.withLimit, Slice.text, Gap.single, Spaces.none,
      horder, h]

/-- With an offset the limit follows that. -/
lemma Modifiers.withLimit_text_of_some {o : OffsetClause} (h : m.slice.offset? = some o) :
    (m.withLimit l).text = m.front ++ m.slice.gapBefore.text ++ o.text ++ ' ' :: l.text := by
  cases horder : m.order <;>
    simp [text, front, orderText, withLimit, Slice.withLimit, Slice.text, Gap.single, Spaces.none,
      Spaces.append, horder, h]

/-- A limit that stands at the end is replaced there. -/
lemma Modifiers.withLimit_withLimit :
    ((m.withLimit l).withLimit l).text = (m.withLimit l).text := by
  cases hoffset : m.slice.offset? with
  | none =>
    have hagain : (m.withLimit l).slice.offset? = none :=
      (m.slice.withLimit_offset? l).trans hoffset
    rw [withLimit_text_of_none l hagain, withLimit_text_of_none l hoffset]
    cases horder : m.order <;> simp [withLimit, horder]
  | some o =>
    have hagain : (m.withLimit l).slice.offset? = some o :=
      (m.slice.withLimit_offset? l).trans hoffset
    rw [withLimit_text_of_some l hagain, withLimit_text_of_some l hoffset]
    cases horder : m.order <;>
      simp [front, orderText, withLimit, Slice.withLimit, Slice.gapBefore, Spaces.append,
        Spaces.none, horder, hoffset]

end WithLimit

/-- What trimming leaves of a head and a text behind it. -/
lemma trimEnd_head_append {text blanks : List Char}
    (htext : ∀ c ∈ text.getLast?, Text.isBlank c = false)
    (hblanks : ∀ c ∈ blanks, Text.isBlank c = true) :
    Text.trimEnd (pattern ++ ['\x7d'] ++ Text.trimEnd (text ++ blanks)) =
      pattern ++ ['\x7d'] ++ text := by
  rw [Text.trimEnd_append _ hblanks, Text.trimEnd_eq_self htext,
    Text.trimEnd_append_of_getLast? (isBlank_of_mem_getLast?_head pattern),
    Text.trimEnd_eq_self htext]

/-- **The old limit is cut out where it stands.** -/
lemma setLimit_eq (n : Nat) :
    setLimit (withTail pattern m) n =
      String.ofList (Text.trimEnd (pattern ++ ['\x7d'] ++
        Text.trimEnd (m.front ++ (m.slice.front ++ m.slice.back ++ m.trail.text)))) ++
        " LIMIT " ++ Digits.text n := by
  have hsearch := Slice.search_limit m.slice m.trail m.quiet_front m.notVariable_front
  rw [← Modifiers.text] at hsearch
  rw [setLimit, splitTail_withTail]
  simp only [hsearch]
  cases hlimit : m.slice.limit? with
  | none =>
    have htext := m.slice.text_eq_append
    rw [hlimit, Option.elim_none, List.append_nil] at htext
    rw [Option.map_none, ← htext, ← Modifiers.text]
  | some l =>
    have htext := m.slice.text_eq_append
    rw [hlimit, Option.elim_some] at htext
    have htake : m.text.take (m.front ++ m.slice.front).length = m.front ++ m.slice.front := by
      have hsplit : m.text =
          m.front ++ m.slice.front ++ (l.text ++ (m.slice.back ++ m.trail.text)) := by
        rw [Modifiers.text, htext]
        simp only [List.append_assoc]
      rw [hsplit, List.take_left]
    simp only [Option.map_some, htake, List.append_assoc]

/-- A limit as it is written at the end. -/
lemma LimitClause.plain_text {n : Nat} (hn : n < Digits.word64) :
    ' ' :: (LimitClause.plain n hn).text = " LIMIT ".toList ++ (Digits.text n).toList := by
  simp [LimitClause.plain, NumberClause.text, Gap.single, Digits.text]

/-- **A limit is set**: the modifiers are the same but for the limit, which stands at the end. -/
theorem setLimit_withTail {n : Nat} (hn : n < Digits.word64) :
    setLimit (withTail pattern m) n = withTail pattern (m.withLimit (.plain n hn)) := by
  have hblanks (spaces : Spaces) : ∀ c ∈ spaces.text, Text.isBlank c = true := fun c hc =>
    isBlank_of_isSpace (spaces.forall_isSpace c hc)
  -- What is trimmed off is the white space that the limit leaves at the end.
  obtain ⟨kept, blanks, hkept, hlast, hall, htext⟩ : ∃ kept blanks : List Char,
      m.front ++ (m.slice.front ++ m.slice.back ++ m.trail.text) = kept ++ blanks ∧
      (∀ c ∈ kept.getLast?, Text.isBlank c = false) ∧ (∀ c ∈ blanks, Text.isBlank c = true) ∧
      (m.withLimit (.plain n hn)).text = kept ++ ' ' :: (LimitClause.plain n hn).text := by
    rw [Slice.front_append_back]
    cases hoffset : m.slice.offset? with
    | none =>
      let blanks := m.gap.append (m.slice.gapBefore.append (m.slice.gapAfter.append m.trail))
      rw [Modifiers.withLimit_text_of_none _ hoffset]
      cases horder : m.order with
      | none =>
        refine ⟨[], (m.lead.append blanks).text, ?_, nofun, hblanks _, rfl⟩
        simp [Modifiers.front, Modifiers.orderText, horder, blanks, Spaces.append]
      | some clause =>
        refine ⟨m.lead.text ++ clause.text, blanks.text, ?_, fun c hc => ?_, hblanks _, rfl⟩
        · simp [Modifiers.front, Modifiers.orderText, horder, blanks, Spaces.append]
        · rw [OrderClause.text, List.getLast?_append, List.getLast?_append,
            List.getLast?_eq_some_getLast clause.body_ne, Option.some_or, Option.some_or,
            ← List.getLast?_eq_some_getLast clause.body_ne] at hc
          exact clause.ends c hc
    | some o =>
      refine ⟨m.front ++ m.slice.gapBefore.text ++ o.text,
        (m.slice.gapAfter.append m.trail).text, ?_, ?_, hblanks _,
        Modifiers.withLimit_text_of_some _ hoffset⟩
      · simp [Spaces.append]
      · obtain ⟨d, hd, hdigit⟩ := o.getLast?_text
        intro c hc
        rw [List.getLast?_append, hd, Option.some_or] at hc
        cases hc
        exact isBlank_of_isNameChar (isNameChar_of_isDigit hdigit)
  rw [setLimit_eq, hkept, trimEnd_head_append pattern hlast hall, withTail, htext,
    LimitClause.plain_text, ← String.toList_inj]
  simp

/-! ## All operations -/

/-- **The operations agree on where the clauses are.** The order conditions and the limit are those
that the modifiers write, and all modifiers are dropped together. A limit that is set is read back;
the order clause and the offset stay, the modifiers are dropped as before, and setting the limit
again changes nothing.

**Proof sketch.** Every keyword pattern matches only where a word begins with one of a few letters.
No such place is in white space or, because a sign or a character of the name goes before every
letter of a variable, among conditions. So every search passes over what stands before its clause
and stops there. A query with a limit set is again a query with modifiers. -/
theorem operations_agree {k : Nat} (hk : k < Digits.word64) :
    let query := withTail pattern m
    orderConditions query = .ok m.conditions ∧
    limit? query = .ok m.limit? ∧
    (m.HasClause → withoutModifiers query = headOf pattern) ∧
    (¬m.HasClause → withoutModifiers query = query) ∧
    ∃ changed : Modifiers, setLimit query k = withTail pattern changed ∧
      changed.order = m.order ∧ changed.slice.offset? = m.slice.offset? ∧
      limit? (setLimit query k) = .ok (some k) ∧
      orderConditions (setLimit query k) = orderConditions query ∧
      withoutModifiers (setLimit query k) = headOf pattern ∧
      setLimit (setLimit query k) k = setLimit query k := by
  have hset := setLimit_withTail pattern m hk
  refine ⟨orderConditions_withTail pattern m, limit?_withTail pattern m,
    (withoutModifiers_withTail pattern m).1, (withoutModifiers_withTail pattern m).2,
    m.withLimit (.plain k hk), hset, rfl, m.slice.withLimit_offset? _, ?_, ?_, ?_, ?_⟩
  · rw [hset, limit?_withTail, Modifiers.limit?]
    have hlimit : (m.withLimit (.plain k hk)).slice.limit? = some (.plain k hk) :=
      m.slice.withLimit_limit? _
    rw [hlimit, Option.map_some]
    exact congrArg (fun n => Except.ok (some n)) (Digits.value_ofNat k)
  · rw [hset, orderConditions_withTail, orderConditions_withTail]
    rfl
  · rw [hset]
    exact (withoutModifiers_withTail pattern _).1 (Modifiers.hasClause_withLimit _)
  · rw [hset, setLimit_withTail _ _ hk, withTail, Modifiers.withLimit_withLimit]
    rfl

/-- Two conditions over variables that are named like keywords, a limit and an offset. -/
def Modifiers.likeKeywords : Modifiers where
  lead := Gap.single.toSpaces
  order := some
    { first := "Order".toList
      gap := Gap.single
      second := "BY".toList
      conditions := [⟨"?limit", .descending⟩, ⟨"$order", .ascending⟩]
      body := ' ' :: ("DESC".toList ++ [] ++ '(' :: ("?limit".toList ++ [')']) ++
        ' ' :: "$order".toList)
      spelled_first := by decide
      spelled_second := spelled_by
      conditions_ne := List.cons_ne_nil _ _
      written := by
        have hlimit : OrderExpression.Written (.var "limit") "?limit".toList :=
          @OrderExpression.Written.var '?' "limit".toList (.inl rfl) (by decide)
            (List.all_eq_true.1 (by decide))
        have horder : OrderCondition.Written ⟨"$order", .ascending⟩ "$order".toList :=
          @OrderCondition.Written.bare '$' "order".toList (.inr rfl) (by decide)
            (List.all_eq_true.1 (by decide))
        have hfirst := @OrderCondition.Written.directed _ .descending "DESC".toList [] _ (by decide)
          (List.forall_mem_nil _) hlimit
        refine .blank (by decide) (.cons hfirst ?_
          (.blank (by decide) (.single horder)))
        intro _ _ _ d hd
        cases hd
        decide
      ascii := by decide
      boundary_body := by decide
      ends := by
        intro c hc
        cases hc
        decide }
  gap := Gap.single.toSpaces
  slice := .limitOffset (.plain 10 (by decide)) Gap.single
    { word := "offset".toList
      gap := Gap.single
      digits := ['3']
      spelled := by decide
      digits_ne := List.cons_ne_nil _ _
      forall_isDigit := List.all_eq_true.1 (by decide) }
  trail := Spaces.none
  separated := fun _ _ => Gap.single.text_ne

/-- All operations on a query with two conditions, a limit and an offset, and again after its limit
has been set to seven. -/
theorem operations_agree_of_likeKeywords :
    let pattern := "SELECT ?x WHERE \x7b ?x ?p ?limit ".toList
    let query := withTail pattern .likeKeywords
    let conditions : List OrderCondition := [⟨"?limit", .descending⟩, ⟨"$order", .ascending⟩]
    7 < Digits.word64 ∧
    orderConditions query = .ok conditions ∧
    limit? query = .ok (some 10) ∧
    withoutModifiers query = headOf pattern ∧
    ∃ changed : Modifiers, setLimit query 7 = withTail pattern changed ∧
      changed.order = Modifiers.likeKeywords.order ∧
      changed.slice.offset?.map (·.text) = some "offset 3".toList ∧
      limit? (setLimit query 7) = .ok (some 7) ∧
      orderConditions (setLimit query 7) = .ok conditions ∧
      withoutModifiers (setLimit query 7) = headOf pattern ∧
      setLimit (setLimit query 7) 7 = setLimit query 7 := by
  intro pattern query conditions
  have hk : 7 < Digits.word64 := by decide
  have hclause : Modifiers.likeKeywords.HasClause := .inl (Option.some_ne_none _)
  obtain ⟨hconditions, hlimit, hdrop, -, changed, hset, horder, hoffset, hagain, hsame, hrest⟩ :=
    operations_agree pattern .likeKeywords hk
  exact ⟨hk, hconditions, hlimit, hdrop hclause, changed, hset, horder,
    congrArg (Option.map (·.text)) hoffset, hagain, hsame.trans hconditions, hrest⟩

end PagedTopK.Query
