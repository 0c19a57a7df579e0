import PagedTopK.Json.Writer
import PagedTopK.Proofs.Json.Scan
import PagedTopK.Proofs.Json.Value

set_option autoImplicit false

/-!
# The tokens of a value

## Main definitions

* `Json.isWord` — whether an integer has 64 bits.
* `Json.rewritten` — the value as which a written value is read: finite doubles are read again, and
  the others have become null.

## Main results

* `Json.tokenize_compactChars` — a written value is scanned as the tokens of the rewritten value.
* `Json.rewritten_eq_self_iff` — which values are read as themselves.
-/

namespace PagedTopK.Json

/-! ## Items and members one by one -/

lemma emitItems_cons (v : Json) (more : List Json) (rest : List Token) :
    emitItems (v :: more) rest =
      emit v (more.foldr (fun w after => .comma :: emit w after) rest) := by
  induction more generalizing v with
  | nil => rw [emitItems, List.foldr_nil]
  | cons w more ih => rw [emitItems, ih, List.foldr_cons]

lemma emitMembers_cons (m : String × Json) (more : List (String × Json)) (rest : List Token) :
    emitMembers (m :: more) rest = .scalar (.text m.1) :: .colon :: emit m.2
      (more.foldr (fun n after => .comma :: .scalar (.text n.1) :: .colon :: emit n.2 after)
        rest) := by
  induction more generalizing m with
  | nil => rw [emitMembers, List.foldr_nil]
  | cons n more ih => rw [emitMembers, ih, List.foldr_cons]

/-! ## Tokens that can be scanned -/

/-- **Tokens that can be scanned.** -/
structure Scannable (ts : List Token) : Prop where
  /-- Only delimiters come after scalars. -/
  separated : Scanner.Separated ts
  /-- All of them can be read back. -/
  readable : ∀ t ∈ ts, t.isReadable = true

/-- **Tokens that can be scanned after a value**: the first one is a delimiter. -/
structure Follows (ts : List Token) : Prop extends Scannable ts where
  /-- The first one is a delimiter. -/
  delimiter : ∀ t ∈ ts.head?, t.isDelimiter = true

variable {ts : List Token}

namespace Scannable

/-- A token after which anything may come. -/
lemma cons (h : Scannable ts) {t : Token} (hscalar : t.isScalar = false)
    (hreadable : t.isReadable = true) : Scannable (t :: ts) where
  separated := by
    cases ts with
    | nil => exact List.isChain_singleton t
    | cons next rest =>
      refine List.isChain_cons_cons.2 ⟨fun h => ?_, h.separated⟩
      rw [hscalar] at h
      cases h
  readable := List.forall_mem_cons.2 ⟨hreadable, h.readable⟩

/-- A comma may come after a value. -/
lemma comma (h : Scannable ts) : Follows (.comma :: ts) where
  toScannable := h.cons rfl rfl
  delimiter := by
    rintro _ ⟨⟩
    rfl

end Scannable

namespace Follows

lemma nil : Follows [] := ⟨⟨List.isChain_nil, List.forall_mem_nil _⟩, nofun⟩

/-- A scalar may stand before a delimiter. -/
lemma scalar (h : Follows ts) {s : Scalar} (hs : s.isReadable = true) :
    Scannable (.scalar s :: ts) where
  separated := by
    cases ts with
    | nil => exact List.isChain_singleton _
    | cons next rest => exact List.isChain_cons_cons.2 ⟨fun _ => h.delimiter next rfl, h.separated⟩
  readable := List.forall_mem_cons.2 ⟨hs, h.readable⟩

/-- A closing bracket may come after a value. -/
lemma close (h : Follows ts) {t : Token} (ht : t = .closeArray ∨ t = .closeObject) :
    Follows (t :: ts) where
  toScannable := by rcases ht with rfl | rfl <;> exact h.toScannable.cons rfl rfl
  delimiter := by
    rintro _ ⟨⟩
    rcases ht with rfl | rfl <;> rfl

end Follows

/-- The name of a member stands before its value. -/
lemma Scannable.member (h : Scannable ts) (name : String) :
    Scannable (.scalar (.text name) :: .colon :: ts) := by
  have hcolon : Follows (.colon :: ts) := ⟨h.cons rfl rfl, by rintro _ ⟨⟩; rfl⟩
  exact hcolon.scalar rfl

/-- Whether an integer has 64 bits; any other value without brackets will do. -/
def isWord : Json → Bool
  | integer i => decide (-2 ^ 63 ≤ i ∧ i < 2 ^ 64)
  | _ => true

/-- **The tokens of a value can be scanned**, if its integers have 64 bits. -/
lemma scannable_emit {v : Json} (hv : v.all isWord = true) {rest : List Token}
    (hrest : Follows rest) : Scannable (emit v rest) := by
  induction v using inductionOn generalizing rest with
  | null => exact hrest.scalar rfl
  | bool b => exact hrest.scalar rfl
  | integer i => exact hrest.scalar hv
  | double x => exact hrest.scalar rfl
  | text s => exact hrest.scalar rfl
  | array items ih =>
    rw [all, allItems_iff] at hv
    have hclose := hrest.close (.inl rfl)
    cases items with
    | nil => exact hclose.toScannable.cons rfl rfl
    | cons v more =>
      have hmore : Follows (more.foldr (fun w after => .comma :: emit w after)
          (.closeArray :: rest)) :=
        List.foldrRecOn more _ hclose fun after hafter w hw =>
          (ih w (List.mem_cons_of_mem v hw) (hv w (List.mem_cons_of_mem v hw)) hafter).comma
      rw [emit, emitItems_cons]
      exact (ih v List.mem_cons_self (hv v List.mem_cons_self) hmore).cons rfl rfl
  | object members ih =>
    rw [all, allMembers_iff] at hv
    have hclose := hrest.close (.inr rfl)
    cases members with
    | nil => exact hclose.toScannable.cons rfl rfl
    | cons m more =>
      have hmore : Follows (more.foldr
          (fun n after => .comma :: .scalar (.text n.1) :: .colon :: emit n.2 after)
          (.closeObject :: rest)) :=
        List.foldrRecOn more _ hclose fun after hafter n hn =>
          ((ih n (List.mem_cons_of_mem m hn) (hv n (List.mem_cons_of_mem m hn))
            hafter).member n.1).comma
      rw [emit, emitMembers_cons]
      exact ((ih m List.mem_cons_self (hv m List.mem_cons_self) hmore).member m.1).cons rfl rfl

/-! ## Values that have been read again -/

mutual

/-- **The value as which a written value is read.** -/
def rewritten : Json → Json
  | double x => if x.isFinite then double (reread x) else null
  | array items => array (rewrittenItems items)
  | object members => object (rewrittenMembers members)
  | v => v

/-- The items as which written items are read. -/
def rewrittenItems : List Json → List Json
  | [] => []
  | v :: rest => rewritten v :: rewrittenItems rest

/-- The members as which written members are read. -/
def rewrittenMembers : List (String × Json) → List (String × Json)
  | [] => []
  | (name, v) :: rest => (name, rewritten v) :: rewrittenMembers rest

end

lemma rewrittenItems_eq_map (items : List Json) : rewrittenItems items = items.map rewritten := by
  induction items with
  | nil => rfl
  | cons v rest ih => rw [rewrittenItems, ih, List.map_cons]

lemma rewrittenMembers_eq_map (members : List (String × Json)) :
    rewrittenMembers members = members.map fun m => (m.1, m.2.rewritten) := by
  induction members with
  | nil => rfl
  | cons m rest ih => rw [rewrittenMembers, ih, List.map_cons]

lemma names_rewrittenMembers (members : List (String × Json)) :
    (rewrittenMembers members).map (·.1) = members.map (·.1) := by
  rw [rewrittenMembers_eq_map, List.map_map]
  rfl

/-- Doubles have no brackets. -/
lemma depth_rewritten (v : Json) : v.rewritten.depth = v.depth := by
  induction v using inductionOn with
  | null | bool | integer | text => rfl
  | double x =>
    unfold rewritten
    split <;> rfl
  | array items ih =>
    rw [rewritten, depth, depth]
    congr 1
    induction items with
    | nil => rfl
    | cons v rest ihrest =>
      rw [rewrittenItems, depthItems, depthItems, ih v List.mem_cons_self,
        ihrest fun w hw => ih w (List.mem_cons_of_mem v hw)]
  | object members ih =>
    rw [rewritten, depth, depth]
    congr 1
    induction members with
    | nil => rfl
    | cons m rest ihrest =>
      rw [rewrittenMembers, depthMembers, depthMembers, ih m List.mem_cons_self,
        ihrest fun n hn => ih n (List.mem_cons_of_mem m hn)]

/-- Names stay distinct. -/
lemma isDistinct_rewritten {v : Json} (h : v.isDistinct = true) :
    v.rewritten.isDistinct = true := by
  induction v using inductionOn with
  | null | bool | integer | text => rfl
  | double x =>
    unfold rewritten
    split <;> rfl
  | array items ih =>
    rw [isDistinct, distinctItems_iff] at h
    rw [rewritten, rewrittenItems_eq_map, isDistinct, distinctItems_iff]
    intro v hv
    obtain ⟨own, hown, rfl⟩ := List.mem_map.1 hv
    exact ih own hown (h own hown)
  | object members ih =>
    rw [isDistinct_object] at h
    rw [rewritten, isDistinct_object, names_rewrittenMembers]
    refine ⟨h.1, ?_⟩
    rw [rewrittenMembers_eq_map]
    intro m hm
    obtain ⟨own, hown, rfl⟩ := List.mem_map.1 hm
    exact ih own hown (h.2 own hown)

/-- **Whether a value without brackets is read as itself** once it has been written. Doubles need
not be. -/
def isKept : Json → Bool
  | double x => x.isFinite && reread x == x
  | _ => true

/-- A function that changes none of the items changes nothing. -/
lemma map_eq_self_iff {α : Type} {f : α → α} {xs : List α} :
    xs.map f = xs ↔ ∀ a ∈ xs, f a = a := by
  conv_lhs => rhs; rw [← List.map_id xs]
  exact List.map_inj_left

/-- **Which values are read as themselves** once they have been written. -/
lemma rewritten_eq_self_iff {v : Json} : v.rewritten = v ↔ v.all isKept = true := by
  induction v using inductionOn with
  | null | bool | integer | text => exact iff_of_true rfl rfl
  | double x =>
    have hall : (double x).all isKept = (x.isFinite && reread x == x) := rfl
    rw [rewritten, hall, Bool.and_eq_true, beq_iff_eq]
    split
    · next h => rw [double.injEq, and_iff_right h]
    · next h => exact iff_of_false nofun fun hkept => h hkept.1
  | array items ih =>
    rw [rewritten, rewrittenItems_eq_map, array.injEq, map_eq_self_iff, all, allItems_iff]
    exact forall₂_congr ih
  | object members ih =>
    rw [rewritten, rewrittenMembers_eq_map, object.injEq, map_eq_self_iff, all, allMembers_iff]
    exact forall₂_congr fun m hm => by rw [← ih m hm, Prod.ext_iff, and_iff_right rfl]

/-- Whether a number is an integer of 64 bits; any other value without brackets will do. -/
def isInteger : Json → Bool
  | double _ => false
  | v => isWord v

lemma all_isWord_of_isInteger {v : Json} (h : v.all isInteger = true) : v.all isWord = true := by
  refine all_mono (fun v hv => ?_) h
  cases v with
  | double x => rfl
  | null | bool | integer | text | array | object => exact hv

lemma all_isKept_of_isInteger {v : Json} (h : v.all isInteger = true) : v.all isKept = true := by
  refine all_mono (fun v hv => ?_) h
  cases v with
  | double x => cases hv
  | null | bool | integer | text | array | object => rfl

/-- **Without doubles nothing changes.** -/
lemma rewritten_of_isInteger {v : Json} (h : v.all isInteger = true) : v.rewritten = v :=
  rewritten_eq_self_iff.2 (all_isKept_of_isInteger h)

/-- What is written one item after the other is mapped item by item. -/
lemma map_foldr_write {α : Type} {f : Token → Token} {write g : α → List Token → List Token}
    {xs : List α} (h : ∀ a ∈ xs, ∀ rest, (write a rest).map f = g a (rest.map f))
    (rest : List Token) : (xs.foldr write rest).map f = xs.foldr g (rest.map f) := by
  induction xs with
  | nil => rfl
  | cons a more ih =>
    rw [List.foldr_cons, List.foldr_cons, h a List.mem_cons_self,
      ih fun b hb => h b (List.mem_cons_of_mem a hb)]

lemma map_rewritten_emit (v : Json) (rest : List Token) :
    (emit v rest).map Token.rewritten = emit v.rewritten (rest.map Token.rewritten) := by
  induction v using inductionOn generalizing rest with
  | null | bool | integer | text => rfl
  | double x =>
    unfold rewritten
    by_cases hx : x.isFinite = true
    · simp [emit, Token.rewritten, Scalar.rewritten, hx]
    · simp [emit, Token.rewritten, Scalar.rewritten, hx]
  | array items ih =>
    rw [rewritten, rewrittenItems_eq_map, emit, emit, List.map_cons]
    cases items with
    | nil => rfl
    | cons v more =>
      obtain ⟨ihfirst, ihmore⟩ := List.forall_mem_cons.1 ih
      rw [emitItems_cons, List.map_cons, emitItems_cons, ihfirst, List.foldr_map]
      rw [map_foldr_write (g := fun w after => .comma :: emit w.rewritten after)]
      · rfl
      · intro w hw rest
        rw [List.map_cons, ihmore w hw]
        rfl
  | object members ih =>
    rw [rewritten, rewrittenMembers_eq_map, emit, emit, List.map_cons]
    cases members with
    | nil => rfl
    | cons m more =>
      obtain ⟨ihfirst, ihmore⟩ := List.forall_mem_cons.1 ih
      rw [emitMembers_cons]
      simp only [List.map_cons]
      rw [emitMembers_cons, ihfirst, List.foldr_map]
      rw [map_foldr_write (g := fun n after =>
        .comma :: .scalar (.text n.1) :: .colon :: emit n.2.rewritten after)]
      · rfl
      · intro n hn rest
        rw [List.map_cons, List.map_cons, List.map_cons, ihmore n hn]
        rfl

/-- **A written value is scanned as the tokens of the rewritten value**, if its integers have 64
bits. -/
theorem tokenize_compactChars {v : Json} (hv : v.all isWord = true) :
    tokenize v.compactChars = v.rewritten.tokens := by
  have h := scannable_emit hv .nil
  rw [compactChars, tokens, tokenize_flatMap_chars h.separated h.readable, map_rewritten_emit]
  rfl

end PagedTopK.Json
