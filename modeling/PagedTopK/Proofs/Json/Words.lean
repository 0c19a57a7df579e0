import PagedTopK.Proofs.Json.Document

set_option autoImplicit false

/-!
# Integers of 64 bits

Whatever a text holds, the integers that are read from it have 64 bits. Greater ones are read as
doubles.

## Main definitions

* `Json.Document.All` — whether all scalars of a document pass a test.

## Main results

* `Json.all_isWord_of_readText` — the integers of a value that has been read have 64 bits.
-/

namespace PagedTopK.Json

/-! ## Tokens -/

/-- A numeral that is read as an integer is read as one of 64 bits. -/
lemma bounds_of_integer? {n : Numeral} {i : Int} (h : n.integer? = some i) :
    -2 ^ 63 ≤ i ∧ i < 2 ^ 64 := by
  have hword : Digits.word64 = 2 ^ 64 := rfl
  have hhalf : Nat.pow 2 63 = 2 ^ 63 := rfl
  have hlt := absorb_lt (n := 0) (by decide) n.whole
  unfold Numeral.integer? at h
  split at h
  · split at h
    · next s hs =>
      rw [hs] at hlt
      split at h
      · cases h
        omega
      split at h
      · cases h
        omega
      · cases h
    · cases h
  · cases h

/-- Whether an integer that a token writes has 64 bits. -/
def Token.IsWord (t : Token) : Prop := ∀ s, t = .scalar s → s.isReadable = true

lemma isWord_numeralToken (part : NumeralPart) (n : Numeral) (next : Option Char) :
    (numeralToken part n next).IsWord := by
  unfold numeralToken
  simp only
  split
  · split
    · next i hi =>
      rintro _ ⟨⟩
      unfold Numeral.number? at hi
      split at hi
      · next j hj =>
        cases hi
        exact decide_eq_true (bounds_of_integer? hj)
      · rw [Option.map_eq_some_iff] at hi
        obtain ⟨_, -, hi⟩ := hi
        cases hi
    · rintro _ ⟨⟩
      rfl
    · rintro _ ⟨⟩
      rfl
  · exact nofun

lemma isReadable_textOfUnits (units : List Nat) : (textOfUnits units).isReadable = true := by
  unfold textOfUnits
  split <;> rfl

/-! ## The scanner -/

namespace Scanner

/-- Whether the integers of all tokens have 64 bits, also that of a word being read. -/
structure Words (s : Scanner) : Prop where
  /-- The tokens so far. -/
  tokens : ∀ t ∈ s.tokens, t.IsWord
  /-- The word being read. -/
  mode : ∀ rest v, s.mode = .word rest v → v.isReadable = true

variable {s : Scanner}

/-- A token that comes with no word after it. -/
lemma Words.emit (h : s.Words) {t : Token} (ht : t.IsWord) : (s.emit t .between).Words :=
  ⟨List.forall_mem_cons.2 ⟨ht, h.tokens⟩, nofun⟩

/-- A bracket or a separator. -/
lemma Words.mark (h : s.Words) {t : Token} (ht : t.isScalar = false) :
    (s.emit t .between).Words :=
  h.emit (by rintro _ rfl; cases ht)

/-- An invalid token. -/
lemma Words.stop (h : s.Words) : (s.emit .invalid .stopped).Words :=
  ⟨List.forall_mem_cons.2 ⟨nofun, h.tokens⟩, nofun⟩

/-- The end of a numeral. -/
lemma Words.afterToken (h : s.Words) {t : Token} (ht : t.IsWord) : (s.afterToken t).Words :=
  ⟨List.forall_mem_cons.2 ⟨ht, h.tokens⟩, by
    intro rest v hmode
    simp only [Scanner.afterToken, Scanner.emit] at hmode
    split at hmode <;> cases hmode⟩

/-- Something other than a word. -/
lemma Words.withMode (h : s.Words) {mode : Mode} (hmode : ∀ rest v, mode ≠ .word rest v) :
    Words { s with mode := mode } :=
  ⟨h.tokens, fun rest v hv => absurd hv (hmode rest v)⟩

/-- A word. -/
lemma Words.withWord (h : s.Words) (rest : List Char) {v : Scalar} (hv : v.isReadable = true) :
    Words { s with mode := .word rest v } :=
  ⟨h.tokens, by rintro _ _ ⟨⟩; exact hv⟩

lemma Words.begin (h : s.Words) (c : Char) : (s.begin c).Words := by
  unfold Scanner.begin
  split
  case h_16 =>
    split
    · exact h.withMode (by simp)
    · exact h.stop
  all_goals first
    | exact h.mark rfl
    | exact h.withWord _ rfl
    | exact h.withMode (by simp)

/-- **One more character.** -/
lemma Words.step (h : s.Words) (c : Char) : (s.step c).Words := by
  unfold Scanner.step
  split
  · exact h.begin c
  · next rest value hmode =>
    have hvalue := h.mode rest value hmode
    split
    · split
      · exact h.emit (by rintro _ ⟨⟩; exact hvalue)
      · exact h.stop
    · split
      · exact h.withWord _ hvalue
      · exact h.stop
    · exact h.stop
  · next part n _ =>
    split
    · exact h.withMode (by simp)
    · have hended := h.afterToken (isWord_numeralToken part n (some c))
      simp only
      split
      · exact hended
      · exact hended.begin c
  · next units _ =>
    split
    · exact h.emit (by rintro _ ⟨⟩; exact isReadable_textOfUnits units)
    split
    · exact h.withMode (by simp)
    split
    · exact h.stop
    · exact h.withMode (by simp)
  · split
    · exact h.withMode (by simp)
    split
    · exact h.withMode (by simp)
    · exact h.stop
  · split
    · simp only
      split
      · exact h.withMode (by simp)
      · exact h.withMode (by simp)
    · exact h.stop
  · exact h

end Scanner

/-- **The integers among the tokens of a text have 64 bits.** -/
theorem isWord_of_mem_tokenize {cs : List Char} {t : Token} (h : t ∈ tokenize cs) : t.IsWord := by
  have hstart : Scanner.start.Words := ⟨List.forall_mem_nil _, nofun⟩
  have hfinal : (cs.foldl Scanner.step Scanner.start).Words :=
    List.foldlRecOn cs Scanner.step hstart fun s hs c _ => hs.step c
  unfold tokenize Scanner.finish at h
  split at h
  · exact hfinal.tokens t (List.mem_reverse.1 h)
  · exact hfinal.tokens t (List.mem_reverse.1 h)
  · next part n _ =>
    rcases List.mem_cons.1 (List.mem_reverse.1 h) with rfl | h
    · exact isWord_numeralToken part n none
    · exact hfinal.tokens t h
  · rcases List.mem_cons.1 (List.mem_reverse.1 h) with rfl | h
    · exact nofun
    · exact hfinal.tokens t h

/-! ## Documents -/

mutual

/-- **Whether all scalars of a document pass a test.** -/
def Document.All (p : Scalar → Prop) : Document → Prop
  | .scalar s => p s
  | .array items _ => Document.AllItems p items
  | .object members _ => Document.AllMembers p members
  | .broken => True

/-- Whether all scalars of items pass a test. -/
def Document.AllItems (p : Scalar → Prop) : List Document → Prop
  | [] => True
  | d :: rest => Document.All p d ∧ Document.AllItems p rest

/-- Whether all scalars of members pass a test. -/
def Document.AllMembers (p : Scalar → Prop) : List (Option String × Document) → Prop
  | [] => True
  | (_, d) :: rest => Document.All p d ∧ Document.AllMembers p rest

end

section Builder

variable {p : Scalar → Prop}

lemma allItems_iff_forall {items : List Document} :
    Document.AllItems p items ↔ ∀ d ∈ items, d.All p := by
  induction items with
  | nil => simp [Document.AllItems]
  | cons d rest ih => rw [Document.AllItems, ih, List.forall_mem_cons]

lemma allMembers_iff_forall {members : List (Option String × Document)} :
    Document.AllMembers p members ↔ ∀ m ∈ members, m.2.All p := by
  induction members with
  | nil => simp [Document.AllMembers]
  | cons m rest ih => rw [Document.AllMembers, ih, List.forall_mem_cons]

lemma all_array_reverse {items : List Document} (h : Document.AllItems p items) (closed : Bool) :
    (Document.array items.reverse closed).All p := by
  rw [Document.All, allItems_iff_forall]
  exact fun d hd => allItems_iff_forall.1 h d (List.mem_reverse.1 hd)

lemma all_object_reverse {members : List (Option String × Document)}
    (h : Document.AllMembers p members) (closed : Bool) :
    (Document.object members.reverse closed).All p := by
  rw [Document.All, allMembers_iff_forall]
  exact fun m hm => allMembers_iff_forall.1 h m (List.mem_reverse.1 hm)

/-- The scalars of an open bracket. -/
def Frame.All (p : Scalar → Prop) : Frame → Prop
  | .array items => Document.AllItems p items
  | .object members _ => Document.AllMembers p members

namespace Builder

/-- The scalars of what has been seen. -/
def All (p : Scalar → Prop) : Builder → Prop
  | value outer => ∀ f ∈ outer, f.All p
  | array items outer => Document.AllItems p items ∧ ∀ f ∈ outer, f.All p
  | object members outer | nextMember members outer | colon members _ outer =>
    Document.AllMembers p members ∧ ∀ f ∈ outer, f.All p
  | done d | ended d _ => d.All p

variable {d : Document} {outer : List Frame}

lemma all_complete (hd : d.All p) (houter : ∀ f ∈ outer, f.All p) : (complete d outer).All p := by
  cases outer with
  | nil => exact hd
  | cons f outer =>
    obtain ⟨hf, hrest⟩ := List.forall_mem_cons.1 houter
    cases f with
    | array items => exact ⟨⟨hd, hf⟩, hrest⟩
    | object members name => exact ⟨⟨hd, hf⟩, hrest⟩

lemma all_enclose (hd : d.All p) (houter : ∀ f ∈ outer, f.All p) : (enclose d outer).All p := by
  induction outer generalizing d with
  | nil => exact hd
  | cons f outer ih =>
    obtain ⟨hf, hrest⟩ := List.forall_mem_cons.1 houter
    refine ih ?_ hrest
    cases f with
    | array items =>
      have hitems : Document.AllItems p (d :: items) := ⟨hd, hf⟩
      exact all_array_reverse hitems false
    | object members name =>
      have hmembers : Document.AllMembers p ((name, d) :: members) := ⟨hd, hf⟩
      exact all_object_reverse hmembers false

lemma all_beginValue (houter : ∀ f ∈ outer, f.All p) {t : Token} (ht : ∀ s, t = .scalar s → p s) :
    (beginValue outer t).All p := by
  cases t with
  | scalar s => exact all_complete (ht s rfl) houter
  | openArray | openObject => exact ⟨trivial, houter⟩
  | closeArray | closeObject | colon | comma | invalid => exact all_enclose trivial houter

lemma all_beginMember {members : List (Option String × Document)}
    (hmembers : Document.AllMembers p members) (houter : ∀ f ∈ outer, f.All p) (t : Token) :
    (beginMember members outer t).All p := by
  unfold beginMember
  split
  · exact ⟨hmembers, houter⟩
  · exact all_enclose (all_object_reverse hmembers false) houter

/-- **One more token.** -/
lemma All.step {b : Builder} (h : b.All p) {t : Token} (ht : ∀ s, t = .scalar s → p s) :
    (b.step t).All p := by
  cases b with
  | value outer => exact all_beginValue h ht
  | array items outer =>
    obtain ⟨hitems, houter⟩ := h
    unfold Builder.step
    simp only
    split
    · exact all_complete (all_array_reverse hitems true) houter
    · exact List.forall_mem_cons.2 ⟨hitems, houter⟩
    · have hempty : (Frame.array []).All p := trivial
      exact all_beginValue (List.forall_mem_cons.2 ⟨hempty, houter⟩) ht
    · exact all_enclose (all_array_reverse hitems false) houter
  | object members outer =>
    obtain ⟨hmembers, houter⟩ := h
    unfold Builder.step
    simp only
    split
    · exact all_complete (all_object_reverse hmembers true) houter
    · exact ⟨hmembers, houter⟩
    · exact all_beginMember hmembers houter t
    · exact all_enclose (all_object_reverse hmembers false) houter
  | nextMember members outer => exact all_beginMember h.1 h.2 t
  | colon members name outer =>
    obtain ⟨hmembers, houter⟩ := h
    have hnext : Document.AllMembers p ((name, .broken) :: members) := ⟨trivial, hmembers⟩
    unfold Builder.step
    simp only
    split
    · exact List.forall_mem_cons.2 ⟨hmembers, houter⟩
    · exact all_enclose (all_object_reverse hnext false) houter
  | done d => exact h
  | ended d whole => exact h

lemma All.finish {b : Builder} (h : b.All p) : b.finish.1.All p := by
  cases b with
  | value outer => exact all_enclose trivial h
  | array items outer => exact all_enclose (all_array_reverse h.1 false) h.2
  | object members outer => exact all_enclose (all_object_reverse h.1 false) h.2
  | nextMember members outer => exact all_enclose (all_object_reverse h.1 false) h.2
  | colon members name outer =>
    have hnext : Document.AllMembers p ((name, .broken) :: members) := ⟨trivial, h.1⟩
    exact all_enclose (all_object_reverse hnext false) h.2
  | done d => exact h
  | ended d whole => exact h

end Builder

end Builder

/-- The scalars of a document are among the tokens of the text. -/
lemma all_readText (cs : List Char) :
    (readText cs).1.All fun s => s.isReadable = true := by
  have hall : ((tokenize cs).foldl Builder.step (.value [])).All fun s => s.isReadable = true :=
    List.foldlRecOn (tokenize cs) Builder.step (List.forall_mem_nil _) fun _ hb t ht =>
      hb.step (isWord_of_mem_tokenize ht)
  exact hall.finish

lemma all_isWord_of_all {v : Json} (h : (document v).All fun s => s.isReadable = true) :
    v.all isWord = true := by
  induction v using inductionOn with
  | null | bool | integer | double | text => exact h
  | array items ih =>
    rw [document, Document.All, allItems_iff_forall, documentItems_eq_map] at h
    rw [all, allItems_iff]
    exact fun v hv => ih v hv (h _ (List.mem_map_of_mem hv))
  | object members ih =>
    rw [document, Document.All, allMembers_iff_forall, documentMembers_eq_map] at h
    rw [all, allMembers_iff]
    exact fun m hm => ih m hm (h _ (List.mem_map_of_mem hm))

/-- **The integers of a value that has been read have 64 bits.** -/
theorem all_isWord_of_readText {cs : List Char} {room : Nat} {v : Json}
    (h : (readText cs).1.json? room = some v) : v.all isWord = true := by
  have hall := all_readText cs
  rw [eq_document_of_json? h] at hall
  exact all_isWord_of_all hall

end PagedTopK.Json
