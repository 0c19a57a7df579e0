import PagedTopK.Json.Reader
import PagedTopK.Proofs.Json.Writer

set_option autoImplicit false

/-!
# Documents of written values

## Main definitions

* `Json.document` — the document of a value, without any fault.

## Main results

* `Json.readText_compactChars` — the document of a written value.
* `Json.json?_document` — a document without fault is read as its value if that is not too deep.
* `Json.eq_document_of_json?` — only the document of a value is read as that value.
-/

namespace PagedTopK.Json

mutual

/-- **The document of a value.** -/
def document : Json → Document
  | null => .scalar .null
  | bool b => .scalar (.bool b)
  | integer i => .scalar (.integer i)
  | double x => .scalar (.double x)
  | text s => .scalar (.text s)
  | array items => .array (documentItems items) true
  | object members => .object (documentMembers members) true

/-- The documents of items. -/
def documentItems : List Json → List Document
  | [] => []
  | v :: rest => document v :: documentItems rest

/-- The documents of members, with their names. -/
def documentMembers : List (String × Json) → List (Option String × Document)
  | [] => []
  | (name, v) :: rest => (some name, document v) :: documentMembers rest

end

lemma documentItems_eq_map (items : List Json) : documentItems items = items.map document := by
  induction items with
  | nil => rfl
  | cons v rest ih => rw [documentItems, ih, List.map_cons]

lemma documentMembers_eq_map (members : List (String × Json)) :
    documentMembers members = members.map fun m => (some m.1, document m.2) := by
  induction members with
  | nil => rfl
  | cons m rest ih => rw [documentMembers, ih, List.map_cons]

/-- The members of a document without any. -/
lemma exists_documentMembers_eq_nil {p : List (String × Json) → Prop} :
    (∃ members, [] = documentMembers members ∧ p members) ↔ p [] := by
  constructor
  · rintro ⟨_ | m, h, hp⟩
    · exact hp
    · cases h
  · exact fun hp => ⟨[], rfl, hp⟩

/-- Members without a name are those of no value. -/
lemma exists_documentMembers_eq_none {p : List (String × Json) → Prop} {d : Document}
    {rest : List (Option String × Document)} :
    ¬ ∃ members, (none, d) :: rest = documentMembers members ∧ p members := by
  rintro ⟨_ | m, h, -⟩ <;> cases h

/-- The first member of a document is that of the first member of the value. -/
lemma exists_documentMembers_eq_cons {p : List (String × Json) → Prop} {name : String}
    {d : Document} {rest : List (Option String × Document)} :
    (∃ members, (some name, d) :: rest = documentMembers members ∧ p members) ↔
      ∃ v more, d = document v ∧ rest = documentMembers more ∧ p ((name, v) :: more) := by
  constructor
  · rintro ⟨_ | ⟨⟨own, v⟩, more⟩, h, hp⟩
    · cases h
    · rw [documentMembers, List.cons.injEq, Prod.mk.injEq, Option.some.injEq] at h
      obtain ⟨⟨rfl, hd⟩, hrest⟩ := h
      exact ⟨v, more, hd, hrest, hp⟩
  · rintro ⟨v, more, rfl, rfl, hp⟩
    exact ⟨_, rfl, hp⟩

/-! ## Building -/

section Builder

open Builder (step complete)

/-- After the opening bracket a value begins as anywhere else. -/
lemma foldl_emit_array (v : Json) (rest : List Token) (outer : List Frame) :
    (emit v rest).foldl step (.array [] outer) =
      (emit v rest).foldl step (.value (.array [] :: outer)) := by
  cases v <;> rfl

/-- The items after the first one, and the closing bracket. -/
lemma foldl_items {more : List Json}
    (h : ∀ w ∈ more, ∀ (rest : List Token) (outer : List Frame),
      (emit w rest).foldl step (.value outer) = rest.foldl step (complete (document w) outer))
    (d : Document) (items : List Document) (rest : List Token) (outer : List Frame) :
    (more.foldr (fun w after => .comma :: emit w after) (.closeArray :: rest)).foldl step
        (.array (d :: items) outer) =
      rest.foldl step (complete (.array ((d :: items).reverse ++ documentItems more) true)
        outer) := by
  induction more generalizing d items with
  | nil =>
    rw [documentItems, List.append_nil]
    rfl
  | cons w more ih =>
    have hstep : step (.array (d :: items) outer) .comma = .value (.array (d :: items) :: outer) :=
      rfl
    have hcomplete : complete (document w) (.array (d :: items) :: outer) =
        .array (document w :: d :: items) outer := rfl
    rw [List.foldr_cons, List.foldl_cons, hstep, h w List.mem_cons_self, hcomplete,
      ih (fun u hu => h u (List.mem_cons_of_mem w hu)), documentItems,
      List.reverse_cons (a := document w), List.append_assoc, List.singleton_append]

/-- The members after the first one, and the closing brace. -/
lemma foldl_members {more : List (String × Json)}
    (h : ∀ m ∈ more, ∀ (rest : List Token) (outer : List Frame),
      (emit m.2 rest).foldl step (.value outer) = rest.foldl step (complete (document m.2) outer))
    (d : Option String × Document) (members : List (Option String × Document))
    (rest : List Token) (outer : List Frame) :
    (more.foldr (fun n after => .comma :: .scalar (.text n.1) :: .colon :: emit n.2 after)
        (.closeObject :: rest)).foldl step (.object (d :: members) outer) =
      rest.foldl step (complete (.object ((d :: members).reverse ++ documentMembers more) true)
        outer) := by
  induction more generalizing d members with
  | nil =>
    rw [documentMembers, List.append_nil]
    rfl
  | cons m more ih =>
    have hstep : ∀ ts : List Token,
        (.comma :: .scalar (.text m.1) :: .colon :: ts).foldl step (.object (d :: members) outer) =
          ts.foldl step (.value (.object (d :: members) (some m.1) :: outer)) := fun _ => rfl
    have hcomplete : complete (document m.2) (.object (d :: members) (some m.1) :: outer) =
        .object ((some m.1, document m.2) :: d :: members) outer := rfl
    rw [List.foldr_cons, hstep, h m List.mem_cons_self, hcomplete,
      ih (fun u hu => h u (List.mem_cons_of_mem m hu)), documentMembers,
      List.reverse_cons (a := (some m.1, document m.2)), List.append_assoc, List.singleton_append]

/-- **The tokens of a value complete its document** wherever a value may come. -/
lemma foldl_emit (v : Json) (rest : List Token) (outer : List Frame) :
    (emit v rest).foldl step (.value outer) = rest.foldl step (complete (document v) outer) := by
  induction v using inductionOn generalizing rest outer with
  | null | bool | integer | double | text => rfl
  | array items ih =>
    cases items with
    | nil => rfl
    | cons v more =>
      rw [emit, emitItems_cons, List.foldl_cons]
      show (emit v _).foldl step (.array [] outer) = _
      rw [foldl_emit_array, ih v List.mem_cons_self]
      exact foldl_items (fun w hw => ih w (List.mem_cons_of_mem v hw)) (document v) [] rest outer
  | object members ih =>
    cases members with
    | nil => rfl
    | cons m more =>
      rw [emit, emitMembers_cons]
      show (emit m.2 _).foldl step (.value (.object [] (some m.1) :: outer)) = _
      rw [ih m List.mem_cons_self]
      exact foldl_members (fun n hn => ih n (List.mem_cons_of_mem m hn))
        (some m.1, document m.2) [] rest outer

end Builder

/-- **The document of a written value** is that of the rewritten value, and nothing follows it. -/
theorem readText_compactChars {v : Json} (hv : v.all isWord = true) :
    readText v.compactChars = (document v.rewritten, false) := by
  rw [readText, tokenize_compactChars hv, tokens, foldl_emit]
  rfl

/-! ## Reading -/

/-- **A document without fault is read as its value** if there is room for its brackets. -/
theorem json?_document (v : Json) (room : Nat) :
    (document v).json? room = if v.depth ≤ room then some v else none := by
  induction v using inductionOn generalizing room with
  | null | bool | integer | double | text => cases room <;> rfl
  | array items ih =>
    cases room with
    | zero => rfl
    | succ room =>
      have hitems : Document.items? room (documentItems items) =
          if depthItems items ≤ room then some items else none := by
        induction items with
        | nil => rfl
        | cons v more ihmore =>
          rw [documentItems, Document.items?, ih v List.mem_cons_self,
            ihmore fun w hw => ih w (List.mem_cons_of_mem v hw)]
          by_cases hv : v.depth ≤ room <;> by_cases hmore : depthItems more ≤ room <;>
            simp [depthItems, hv, hmore]
      rw [document, Document.json?, hitems, depth]
      by_cases h : depthItems items ≤ room <;> simp [h]
  | object members ih =>
    cases room with
    | zero => rfl
    | succ room =>
      have hmembers : Document.members? room (documentMembers members) =
          if depthMembers members ≤ room then some members else none := by
        induction members with
        | nil => rfl
        | cons m more ihmore =>
          rw [documentMembers, Document.members?, ih m List.mem_cons_self,
            ihmore fun w hw => ih w (List.mem_cons_of_mem m hw)]
          by_cases hm : m.2.depth ≤ room <;> by_cases hmore : depthMembers more ≤ room <;>
            simp [depthMembers, hm, hmore]
      rw [document, Document.json?, hmembers, depth]
      by_cases h : depthMembers members ≤ room <;> simp [h]

/-- **A text with the tokens of a value is read as that value**, if its names are distinct and it is
not too deep. -/
lemma readWith_of_tokenize_eq {v : Json} {cs : List Char} (h : tokenize cs = v.tokens)
    (hdistinct : v.isDistinct = true) (hdepth : v.depth ≤ maxDepth) :
    readWith .value cs = .ok v := by
  have hread : readText cs = (document v, false) := by
    rw [readText, h, tokens, foldl_emit]
    rfl
  have hvalue : Reader.value (document v) = .ok v := by
    rw [Reader.value, json?_document, if_pos hdepth]
    exact congrArg Except.ok (collapse_of_isDistinct hdistinct)
  rw [readWith, hread]
  simp only [hvalue]
  rfl

mutual

/-- **Only the document of a value is read as that value.** -/
theorem eq_document_of_json? {room : Nat} {v : Json} :
    ∀ {d : Document}, d.json? room = some v → d = document v
  | .scalar s, h => by
    have hs : s.json? = some v := by simpa [Document.json?] using h
    cases s <;> cases hs <;> rfl
  | .array items closed, h => by
    cases room with
    | zero => cases closed <;> cases h
    | succ room =>
      cases closed with
      | false => cases h
      | true =>
        rw [Document.json?, Option.map_eq_some_iff] at h
        obtain ⟨values, hvalues, rfl⟩ := h
        rw [document, eq_documentItems_of_items? hvalues]
  | .object members closed, h => by
    cases room with
    | zero => cases closed <;> cases h
    | succ room =>
      cases closed with
      | false => cases h
      | true =>
        rw [Document.json?, Option.map_eq_some_iff] at h
        obtain ⟨values, hvalues, rfl⟩ := h
        rw [document, eq_documentMembers_of_members? hvalues]
  | .broken, h => by cases room <;> cases h

/-- The items of an array. -/
theorem eq_documentItems_of_items? {room : Nat} :
    ∀ {items : List Document} {values : List Json},
      Document.items? room items = some values → items = documentItems values
  | [], values, h => by
    cases h
    rfl
  | d :: rest, values, h => by
    rw [Document.items?] at h
    split at h
    · next v hv =>
      rw [Option.map_eq_some_iff] at h
      obtain ⟨others, hothers, rfl⟩ := h
      rw [documentItems, ← eq_document_of_json? hv, ← eq_documentItems_of_items? hothers]
    · cases h

/-- The members of an object. -/
theorem eq_documentMembers_of_members? {room : Nat} :
    ∀ {members : List (Option String × Document)} {values : List (String × Json)},
      Document.members? room members = some values → members = documentMembers values
  | [], values, h => by
    cases h
    rfl
  | (some name, d) :: rest, values, h => by
    rw [Document.members?] at h
    split at h
    · next v hv =>
      rw [Option.map_eq_some_iff] at h
      obtain ⟨others, hothers, rfl⟩ := h
      rw [documentMembers, ← eq_document_of_json? hv, ← eq_documentMembers_of_members? hothers]
    · cases h
  | (none, d) :: rest, values, h => by cases h

end

/-- **What a document is read as**, exactly. -/
theorem json?_eq_some_iff {d : Document} {room : Nat} {v : Json} :
    d.json? room = some v ↔ d = document v ∧ v.depth ≤ room := by
  constructor
  · intro h
    have hd := eq_document_of_json? h
    rw [hd, json?_document] at h
    refine ⟨hd, ?_⟩
    by_contra hdeep
    rw [if_neg hdeep] at h
    cases h
  · rintro ⟨rfl, hv⟩
    rw [json?_document, if_pos hv]

/-- Different values have different documents. -/
lemma document_injective {v w : Json} (h : document v = document w) : v = w := by
  have hv : (document w).json? v.depth = some v := by
    rw [← h, json?_document, if_pos (Nat.le_refl _)]
  rw [json?_document] at hv
  split at hv
  · exact (Option.some.inj hv).symm
  · cases hv

end PagedTopK.Json
