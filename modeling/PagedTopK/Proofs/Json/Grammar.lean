import PagedTopK.Proofs.Json.Scanned
import PagedTopK.Proofs.Json.Words

set_option autoImplicit false

/-!
# The grammar of JSON

A text writes a value if it spells the tokens of that value in order, with white space anywhere
between them. Nothing else is read as a document without fault.

## Main definitions

* `Json.Spells` — whether a text writes a value.
* `Json.Document.tokens`, `Json.Builder.tokens?` — the tokens of a document, and those that a
  builder has been given.
* `Json.Builder.Given` — what a builder has been given, unless there has been a fault.

## Main results

* `Json.readText_eq_document_iff` — the texts that are read as the document of a value.
* `Json.readWith_value` — what any text is read as.
-/

namespace PagedTopK.Json

/-- **A text writes a value** if it spells its tokens. -/
def Spells (v : Json) (cs : List Char) : Prop := Spelled v.tokens cs

/-! ## The tokens of documents -/

/-- The token of a name. -/
def nameToken : Option String → Token
  | some name => .scalar (.text name)
  | none => .scalar .loneSurrogate

mutual

/-- **The tokens of a document** without fault. -/
def Document.tokens : Document → List Token
  | .scalar s => [.scalar s]
  | .array items _ => .openArray :: ([.comma].intercalate (itemTokens items) ++ [.closeArray])
  | .object members _ =>
    .openObject :: ([.comma].intercalate (memberTokens members) ++ [.closeObject])
  | .broken => []

/-- The tokens of items, one by one. -/
def itemTokens : List Document → List (List Token)
  | [] => []
  | d :: rest => d.tokens :: itemTokens rest

/-- The tokens of members, one by one. -/
def memberTokens : List (Option String × Document) → List (List Token)
  | [] => []
  | (name, d) :: rest => (nameToken name :: .colon :: d.tokens) :: memberTokens rest

end

lemma itemTokens_append (items more : List Document) :
    itemTokens (items ++ more) = itemTokens items ++ itemTokens more := by
  induction items with
  | nil => rfl
  | cons d rest ih => rw [List.cons_append, itemTokens, itemTokens, ih, List.cons_append]

lemma memberTokens_append (members more : List (Option String × Document)) :
    memberTokens (members ++ more) = memberTokens members ++ memberTokens more := by
  induction members with
  | nil => rfl
  | cons m rest ih => rw [List.cons_append, memberTokens, memberTokens, ih, List.cons_append]

/-- Parts with a comma after each. -/
def followed (parts : List (List Token)) : List Token := parts.flatMap (· ++ [.comma])

/-- The last part has no comma after it. -/
lemma intercalate_concat (parts : List (List Token)) (last : List Token) :
    [.comma].intercalate (parts ++ [last]) = followed parts ++ last := by
  induction parts with
  | nil => exact List.intercalate_singleton
  | cons part rest ih =>
    have hsplit : [Token.comma].intercalate (part :: (rest ++ [last])) =
        part ++ [.comma] ++ [.comma].intercalate (rest ++ [last]) := by
      cases rest <;> exact List.intercalate_cons_cons
    rw [List.cons_append, hsplit, ih, followed, followed, List.flatMap_cons]
    simp only [List.append_assoc]

/-- With another comma all parts have one. -/
lemma intercalate_comma {parts : List (List Token)} (h : parts ≠ []) :
    [.comma].intercalate parts ++ [.comma] = followed parts := by
  rw [← List.dropLast_concat_getLast h, intercalate_concat, followed, followed,
    List.flatMap_append, List.append_assoc]
  simp

/-- The tokens of an open bracket. -/
def Frame.tokens : Frame → List Token
  | .array items => .openArray :: followed (itemTokens items.reverse)
  | .object members name =>
    .openObject :: (followed (memberTokens members.reverse) ++ [nameToken name, .colon])

/-- The tokens of all open brackets. -/
def frameTokens (outer : List Frame) : List Token := outer.reverse.flatMap Frame.tokens

lemma frameTokens_cons (f : Frame) (outer : List Frame) :
    frameTokens (f :: outer) = frameTokens outer ++ f.tokens := by
  rw [frameTokens, List.reverse_cons, List.flatMap_append]
  simp [frameTokens]

namespace Builder

/-- **The tokens that a builder has been given**, while there has been no fault. -/
def tokens? : Builder → Option (List Token)
  | value outer => some (frameTokens outer)
  | array items outer =>
    some (frameTokens outer ++ .openArray :: [.comma].intercalate (itemTokens items.reverse))
  | object members outer =>
    some (frameTokens outer ++ .openObject :: [.comma].intercalate (memberTokens members.reverse))
  | nextMember members outer =>
    some (frameTokens outer ++ .openObject :: followed (memberTokens members.reverse))
  | colon members name outer =>
    some (frameTokens outer ++
      .openObject :: (followed (memberTokens members.reverse) ++ [nameToken name]))
  | done d => some d.tokens
  | ended _ _ => none

/-- **What a builder has been given**: the tokens that it stands for, unless there has been a fault
or something after the document. -/
inductive Given (ts : List Token) : Builder → Prop where
  /-- There has been no fault. -/
  | going {b : Builder} (h : b.tokens? = some ts) : Given ts b
  /-- The document has a fault, or something follows it. -/
  | ended {d : Document} {whole : Bool} (h : whole = true ∨ d.isWhole = false) :
    Given ts (.ended d whole)

variable {ts : List Token} {d : Document} {outer : List Frame}

/-- A fault stays one inside open brackets. -/
lemma isWhole_enclose (h : d.isWhole = false) : (enclose d outer).isWhole = false := by
  induction outer generalizing d with
  | nil => exact h
  | cons f outer ih => cases f <;> exact ih rfl

/-- A fault. -/
lemma given_fault (h : d.isWhole = false) : (fault d outer).Given ts :=
  .ended (.inr (isWhole_enclose h))

/-- A complete value. -/
lemma given_complete (h : frameTokens outer ++ d.tokens = ts) : (complete d outer).Given ts := by
  subst h
  cases outer with
  | nil => exact .going rfl
  | cons f outer =>
    rw [frameTokens_cons]
    cases f with
    | array items =>
      refine .going ?_
      rw [complete, tokens?, List.reverse_cons, itemTokens_append, itemTokens, itemTokens,
        intercalate_concat, Frame.tokens]
      simp
    | object members name =>
      refine .going ?_
      rw [complete, tokens?, List.reverse_cons, memberTokens_append, memberTokens, memberTokens,
        intercalate_concat, Frame.tokens]
      simp

/-- Where a value must come. -/
lemma given_beginValue (t : Token) : (beginValue outer t).Given (frameTokens outer ++ [t]) := by
  cases t with
  | scalar s => exact given_complete rfl
  | openArray => exact .going rfl
  | openObject => exact .going rfl
  | closeArray | closeObject | colon | comma | invalid => exact given_fault rfl

/-- Where the name of a member must come. -/
lemma given_beginMember (members : List (Option String × Document)) (t : Token) :
    (beginMember members outer t).Given
      (frameTokens outer ++ .openObject :: (followed (memberTokens members.reverse) ++ [t])) := by
  unfold beginMember
  split
  · next name hname =>
    have ht : nameToken name = t := by
      unfold nameOf? at hname
      split at hname <;> cases hname <;> rfl
    exact .going (by rw [tokens?, ht])
  · exact given_fault rfl

/-- In an array. -/
lemma given_array (items : List Document) (t : Token) :
    ((array items outer).step t).Given
      (frameTokens outer ++
        .openArray :: [.comma].intercalate (itemTokens items.reverse) ++ [t]) := by
  unfold Builder.step
  simp only
  split
  · refine given_complete ?_
    rw [Document.tokens, List.append_assoc, List.cons_append]
  · next d rest =>
    refine .going ?_
    have hitems : itemTokens (d :: rest).reverse ≠ [] := by
      rw [List.reverse_cons, itemTokens_append]
      simp [itemTokens]
    rw [tokens?, frameTokens_cons, Frame.tokens, ← intercalate_comma hitems,
      List.append_assoc, List.cons_append]
  · have hbegin : (beginValue (.array [] :: outer) t).Given _ := given_beginValue t
    rw [frameTokens_cons] at hbegin
    exact hbegin
  · exact given_fault rfl

/-- In an object. -/
lemma given_object (members : List (Option String × Document)) (t : Token) :
    ((object members outer).step t).Given
      (frameTokens outer ++
        .openObject :: [.comma].intercalate (memberTokens members.reverse) ++ [t]) := by
  unfold Builder.step
  simp only
  split
  · refine given_complete ?_
    rw [Document.tokens, List.append_assoc, List.cons_append]
  · next m rest =>
    refine .going ?_
    have hmembers : memberTokens (m :: rest).reverse ≠ [] := by
      rw [List.reverse_cons, memberTokens_append]
      simp [memberTokens]
    rw [tokens?, ← intercalate_comma hmembers, List.append_assoc, List.cons_append]
  · have hbegin : (beginMember [] outer t).Given _ := given_beginMember [] t
    rw [List.append_assoc, List.cons_append]
    exact hbegin
  · exact given_fault rfl

/-- After the name of a member. -/
lemma given_colon (members : List (Option String × Document)) (name : Option String) (t : Token) :
    ((colon members name outer).step t).Given
      (frameTokens outer ++
        .openObject :: (followed (memberTokens members.reverse) ++ [nameToken name]) ++ [t]) := by
  unfold Builder.step
  simp only
  split
  · refine .going ?_
    rw [tokens?, frameTokens_cons, Frame.tokens]
    simp
  · exact given_fault rfl

/-- **One more token.** -/
lemma Given.step {b : Builder} (h : b.Given ts) (t : Token) : (b.step t).Given (ts ++ [t]) := by
  cases h with
  | ended h => exact .ended h
  | going h =>
    cases b with
    | ended d whole => cases h
    | done d => exact .ended (.inl rfl)
    | value outer =>
      obtain rfl := Option.some.inj h
      exact given_beginValue t
    | array items outer =>
      obtain rfl := Option.some.inj h
      exact given_array items t
    | object members outer =>
      obtain rfl := Option.some.inj h
      exact given_object members t
    | nextMember members outer =>
      obtain rfl := Option.some.inj h
      rw [List.append_assoc, List.cons_append]
      exact given_beginMember members t
    | colon members name outer =>
      obtain rfl := Option.some.inj h
      exact given_colon members name t

/-- **Any number of tokens.** -/
lemma Given.foldl {b : Builder} (h : b.Given ts) (more : List Token) :
    (more.foldl Builder.step b).Given (ts ++ more) := by
  induction more generalizing b ts with
  | nil => exact (List.append_nil ts).symm ▸ h
  | cons t more ih =>
    have hnext := ih (h.step t)
    rw [List.append_assoc, List.singleton_append] at hnext
    exact hnext

/-- **A document without fault has the tokens that were given**, if nothing follows it. -/
lemma Given.finish {b : Builder} (h : b.Given ts) (hfinish : b.finish = (d, false))
    (hwhole : d.isWhole = true) : ts = d.tokens := by
  have hopen : ∀ {e : Document} {outer : List Frame}, e.isWhole = false →
      (enclose e outer, false) = (d, false) → ts = d.tokens := by
    intro e outer he hd
    cases hd
    rw [isWhole_enclose he] at hwhole
    cases hwhole
  cases h with
  | ended h =>
    cases hfinish
    rcases h with h | h
    · cases h
    · rw [h] at hwhole
      cases hwhole
  | going h =>
    cases b with
    | value | array | object | nextMember | colon => exact hopen rfl hfinish
    | done d' =>
      cases hfinish
      exact (Option.some.inj h).symm
    | ended => cases h

end Builder

/-! ## The tokens of values -/

/-- The document of a value has no fault. -/
lemma isWhole_document (v : Json) : (document v).isWhole = true := by
  induction v using inductionOn with
  | null | bool | integer | double | text => rfl
  | array items ih =>
    rw [document, Document.isWhole, Bool.true_and]
    induction items with
    | nil => rfl
    | cons v rest ihrest =>
      obtain ⟨hv, hrest⟩ := List.forall_mem_cons.1 ih
      rw [documentItems, Document.itemsWhole, hv, ihrest hrest, Bool.and_true]
  | object members ih =>
    rw [document, Document.isWhole, Bool.true_and]
    induction members with
    | nil => rfl
    | cons m rest ihrest =>
      obtain ⟨hm, hrest⟩ := List.forall_mem_cons.1 ih
      rw [documentMembers, Document.membersWhole, hm, ihrest hrest, Bool.and_true]

/-- **The tokens of a value are those of its document.** -/
lemma emit_eq (v : Json) (rest : List Token) : emit v rest = (document v).tokens ++ rest := by
  induction v using inductionOn generalizing rest with
  | null | bool | integer | double | text => rfl
  | array items ih =>
    have hitems : ∀ rest, emitItems items rest =
        [.comma].intercalate (itemTokens (documentItems items)) ++ rest := by
      induction items with
      | nil => exact fun _ => rfl
      | cons v more ihmore =>
        obtain ⟨hv, hmore⟩ := List.forall_mem_cons.1 ih
        intro rest
        cases more with
        | nil =>
          rw [emitItems, hv, documentItems, documentItems, itemTokens, itemTokens,
            List.intercalate_singleton]
        | cons w more =>
          have hparts : itemTokens (documentItems (v :: w :: more)) =
              (document v).tokens :: (document w).tokens :: itemTokens (documentItems more) := rfl
          rw [emitItems, hv, ihmore hmore, hparts, List.intercalate_cons_cons]
          simp [documentItems, itemTokens]
    rw [emit, hitems, document, Document.tokens, List.cons_append, List.append_assoc,
      List.singleton_append]
  | object members ih =>
    have hmembers : ∀ rest, emitMembers members rest =
        [.comma].intercalate (memberTokens (documentMembers members)) ++ rest := by
      induction members with
      | nil => exact fun _ => rfl
      | cons m more ihmore =>
        obtain ⟨hm, hmore⟩ := List.forall_mem_cons.1 ih
        intro rest
        cases more with
        | nil =>
          rw [emitMembers, hm, documentMembers, documentMembers, memberTokens, memberTokens,
            List.intercalate_singleton]
          rfl
        | cons n more =>
          have hparts : memberTokens (documentMembers (m :: n :: more)) =
              (nameToken (some m.1) :: .colon :: (document m.2).tokens) ::
                (nameToken (some n.1) :: .colon :: (document n.2).tokens) ::
                  memberTokens (documentMembers more) := rfl
          rw [emitMembers, hm, ihmore hmore, hparts, List.intercalate_cons_cons]
          simp [documentMembers, memberTokens, nameToken]
    rw [emit, hmembers, document, Document.tokens, List.cons_append, List.append_assoc,
      List.singleton_append]

/-- Integers that are spelled have 64 bits. -/
lemma Token.Spells.isWord {t : Token} {cs : List Char} (h : t.Spells cs) : t.IsWord := by
  rintro s rfl
  cases h with
  | mark hscalar => cases hscalar
  | scalar h =>
    cases h with
    | null | true | false | text | loneSurrogate => rfl
    | @numeral n _ _ _ hs =>
      have hpart : NumeralPart.whole.mayEnd = true := rfl
      have hword := isWord_numeralToken .whole n.reversed none
      rw [numeralToken_reversed hpart n rfl] at hword
      exact hword s hs

/-- **The texts that are read as the document of a value** are those that write the value.

**Proof sketch.** Without a fault the builder has been given the tokens of the document
(`Builder.Given.finish`), and without an invalid token the text spells its tokens
(`spelled_tokenize`). The other way round only delimiters come after the scalars of a value, so that
its tokens are scanned in any spelling (`tokenize_of_spelled`). -/
theorem readText_eq_document_iff {cs : List Char} {v : Json} :
    readText cs = (document v, false) ↔ v.Spells cs := by
  constructor
  · intro h
    have hread : (readText cs).1.json? v.depth = some v := by
      rw [h, json?_document, if_pos (Nat.le_refl _)]
    have hscannable := scannable_emit (all_isWord_of_readText hread) .nil
    have hstart : (Builder.value []).Given [] := .going rfl
    have htokens : tokenize cs = v.tokens := by
      rw [tokens, emit_eq, List.append_nil]
      exact (hstart.foldl (tokenize cs)).finish h (isWhole_document v)
    rw [Spells, ← htokens]
    refine spelled_tokenize fun hinvalid => ?_
    rw [htokens] at hinvalid
    cases hscannable.readable .invalid hinvalid
  · intro h
    have hdone : v.tokens.foldl Builder.step (.value []) = .done (document v) := foldl_emit v [] []
    have hall : (v.tokens.foldl Builder.step (.value [])).All fun s => s.isReadable = true :=
      List.foldlRecOn v.tokens Builder.step (List.forall_mem_nil _) fun _ hb t ht => by
        obtain ⟨_, hspells⟩ := h.exists_spells t ht
        exact hb.step hspells.isWord
    rw [hdone] at hall
    have hscannable := scannable_emit (all_isWord_of_all hall) .nil
    rw [readText, tokenize_of_spelled hscannable.separated h]
    exact congrArg Builder.finish hdone

/-- A text writes at most one value. -/
lemma Spells.unique {v w : Json} {cs : List Char} (hv : v.Spells cs) (hw : w.Spells cs) : v = w := by
  rw [← readText_eq_document_iff] at hv hw
  rw [hv] at hw
  exact document_injective (Prod.ext_iff.1 hw).1

/-- **What any text is read as**: the value that it writes, unless that is too deep, and nothing
else. -/
theorem readWith_value (cs : List Char) :
    (∃ v : Json, v.Spells cs ∧ v.depth ≤ maxDepth ∧ readWith .value cs = .ok v.collapse) ∨
      (∀ v : Json, v.Spells cs → maxDepth < v.depth) ∧ readWith .value cs = .error .grammar := by
  rcases hread : readText cs with ⟨d, more⟩
  have hrefused {e : ReadError} (h : Reader.value d = .error e) :
      readWith .value cs = .error e := by
    rw [readWith, hread]
    simp only [h]
  cases hd : d.json? maxDepth with
  | none =>
    have herror : Reader.value d = .error .grammar := by rw [Reader.value, hd]
    refine .inr ⟨fun v hv => ?_, hrefused herror⟩
    rw [← readText_eq_document_iff, hread, Prod.mk.injEq] at hv
    rw [hv.1, json?_document] at hd
    by_contra hdepth
    rw [if_pos (Nat.le_of_not_lt hdepth)] at hd
    cases hd
  | some v =>
    have hvalue : Reader.value d = .ok v.collapse := by rw [Reader.value, hd]
    obtain ⟨rfl, hdepth⟩ := json?_eq_some_iff.1 hd
    have hresult : readWith .value cs = if more then .error .grammar else .ok v.collapse := by
      rw [readWith, hread]
      simp only [hvalue]
    cases more with
    | false => exact .inl ⟨v, readText_eq_document_iff.1 hread, hdepth, hresult⟩
    | true =>
      refine .inr ⟨fun w hw => ?_, hresult⟩
      rw [← readText_eq_document_iff, hread, Prod.mk.injEq] at hw
      cases hw.2

end PagedTopK.Json
