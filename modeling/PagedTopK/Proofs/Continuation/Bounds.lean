import PagedTopK.Proofs.Continuation.Codec

set_option autoImplicit false

/-!
# Tokens at the bounds

A token is read within bounds on its length and on the depth of its plan, and written without any.
What is written may be longer than what has been read: numbers may be written in a longer form, and
threshold values take room. It may also be deeper, but only by the threshold.

## Main definitions

* `Continuation.wrapped` — operators one around the other.
* `Continuation.zeros`, `Continuation.zerosText` — a plan, and a text that writes it in a shorter form.

## Main results

* `Continuation.decode_again_iff` — when the tokens that are sent can be read again.
* `Continuation.refused_again` — tokens at the bounds.
-/

namespace PagedTopK.Continuation

open Json (document maxDepth readText Scanner Token)

variable {token pushed : String} {plan : Plan} {values : Solution}

/-! ## When tokens are accepted -/

/-- A token that has been given threshold values is the token of a changed plan. -/
lemma withThreshold_eq_ok_iff :
    withThreshold token values = .ok pushed ↔
      ∃ plan root, decode token = .ok plan ∧ plan.root.setThreshold values.bindings = .ok root ∧
        pushed = encode { plan with root := root } := by
  have hsteps : withThreshold token values = decode token >>= fun plan =>
      setThreshold plan values >>= fun changed => pure (encode changed) := rfl
  rw [hsteps]
  simp only [bind_eq_ok_iff, setThreshold_eq_ok_iff]
  constructor
  · rintro ⟨plan, hplan, _, ⟨root, hroot, rfl⟩, ⟨⟩⟩
    exact ⟨plan, root, hplan, hroot, rfl⟩
  · rintro ⟨plan, root, hplan, hroot, rfl⟩
    exact ⟨plan, hplan, _, ⟨root, hroot, rfl⟩, rfl⟩

/-- The token of a plan in order is accepted if it is neither too long nor too deep. -/
lemma exists_decode_encode_iff (hcanonical : plan.Canonical)
    (hword : plan.json.all Json.isWord = true) :
    (∃ read, decode (encode plan) = .ok read) ↔
      (encode plan).length ≤ maxLength ∧ plan.json.depth ≤ maxDepth := by
  simp only [decode_encode_iff hcanonical hword, exists_eq_left]

lemma depth_json_le_iff (plan : Plan) {n : Nat} :
    plan.json.depth ≤ n + 1 ↔ plan.root.json.depth ≤ n ∧ ∀ m ∈ plan.extra, m.2.depth ≤ n := by
  rw [Plan.json, Json.depth, Nat.add_le_add_iff_right, Json.depthMembers_le,
    List.forall_mem_cons]

/-- **How deep a plan may have been** to be given threshold values. -/
lemma depth_setThreshold_le_iff {n : Nat} {root : PlanNode} (hdepth : plan.json.depth ≤ n + 1)
    (hroot : plan.root.setThreshold values.bindings = .ok root) :
    ({ plan with root := root } : Plan).json.depth ≤ n + 1 ↔
      values.bindings = [] ∨ plan.root.wrappers + 2 ≤ n := by
  obtain ⟨hrootDepth, hextra⟩ := (depth_json_le_iff plan).1 hdepth
  rw [depth_json_le_iff]
  constructor
  · rintro ⟨hnew, -⟩
    by_cases hvalues : values.bindings = []
    · exact .inl hvalues
    · have hle := PlanNode.le_depth_setThreshold hroot hvalues
      exact .inr (Nat.le_trans hle hnew)
  · intro h
    refine ⟨?_, hextra⟩
    rcases h with hvalues | hwrappers
    · rw [hvalues] at hroot
      rw [PlanNode.setThreshold_nil hroot]
      exact hrootDepth
    · refine Nat.le_trans (PlanNode.depth_setThreshold_le hroot) ?_
      exact Nat.max_le.2 ⟨hrootDepth, hwrappers⟩

/-- The token of a plan that has been read. -/
lemma exists_decode_encode_of_decode (hplan : decode token = .ok plan) :
    (∃ read, decode (encode plan) = .ok read) ↔ (encode plan).length ≤ maxLength := by
  rw [exists_decode_encode_iff (canonical_of_decode hplan) (all_isWord_of_decode hplan)]
  exact and_iff_left (depth_le_of_decode hplan)

/-- A token that has been given threshold values. -/
lemma exists_decode_withThreshold (hplan : decode token = .ok plan)
    (hpushed : withThreshold token values = .ok pushed) :
    (∃ read, decode pushed = .ok read) ↔ pushed.length ≤ maxLength ∧
      (values.bindings = [] ∨ plan.root.wrappers + 3 ≤ maxDepth) := by
  obtain ⟨own, root, hown, hroot, rfl⟩ := withThreshold_eq_ok_iff.1 hpushed
  obtain rfl := Except.ok.inj (hplan.symm.trans hown)
  have hreach : Reachable { plan with root := root } :=
    .given (.decoded hplan) (setThreshold_eq_ok_iff.2 ⟨root, hroot, rfl⟩)
  have hword := Plan.all_json_setThreshold (fun _ => rfl) (all_isWord_of_decode hplan) hroot
  have hroom : plan.root.wrappers + 3 ≤ maxDepth ↔ plan.root.wrappers + 2 ≤ maxDepth - 1 :=
    Nat.add_le_add_iff_right (n := 1)
  rw [exists_decode_encode_iff hreach.canonical hword, hroom]
  exact and_congr_right fun _ => depth_setThreshold_le_iff (depth_le_of_decode hplan) hroot

/-! ## Operators one around the other -/

/-- An operator below wrappers. -/
def wrapped (inner : PlanNode) : Nat → PlanNode
  | 0 => inner
  | n + 1 => .wrapper .filter (wrapped inner n) []

section Wrapped

variable {inner : PlanNode}

lemma canonical_wrapped (h : inner.Canonical) (n : Nat) : (wrapped inner n).Canonical := by
  induction n with
  | zero => exact h
  | succ n ih => exact ⟨ih, carried_nil _⟩

lemma wrappers_wrapped (inner : PlanNode) (n : Nat) :
    (wrapped inner n).wrappers = inner.wrappers + n := by
  induction n with
  | zero => rfl
  | succ n ih => rw [wrapped, PlanNode.wrappers, ih, Nat.add_assoc]

lemma all_isInteger_wrapped (h : inner.json.all Json.isInteger = true) (n : Nat) :
    (wrapped inner n).json.all Json.isInteger = true := by
  induction n with
  | zero => exact h
  | succ n ih => simp [wrapped, PlanNode.json, Json.all, Json.allMembers, Json.isInteger,
      Json.isWord, ih]

lemma depth_json_wrapped (inner : PlanNode) (n : Nat) :
    (wrapped inner n).json.depth = inner.json.depth + n := by
  induction n with
  | zero => rfl
  | succ n ih =>
    simp [wrapped, PlanNode.json, Json.depth, Json.depthMembers, ih, Nat.add_assoc]

lemma setThreshold_wrapped {given : List (String × String)} {changed : PlanNode}
    (h : inner.setThreshold given = .ok changed) (n : Nat) :
    (wrapped inner n).setThreshold given = .ok (wrapped changed n) := by
  induction n with
  | zero => exact h
  | succ n ih => exact PlanNode.setThreshold_wrapper_eq_ok_iff.2 ⟨_, ih, rfl⟩

/-- A wrapper is written with 27 characters around its source. -/
lemma length_emit_wrapped {cs : List Char} (h : ∀ rest : List Token,
      (Json.emit inner.json rest).flatMap Token.chars = cs ++ rest.flatMap Token.chars)
    (n : Nat) (rest : List Token) :
    ((Json.emit (wrapped inner n).json rest).flatMap Token.chars).length =
      27 * n + cs.length + (rest.flatMap Token.chars).length := by
  induction n generalizing rest with
  | zero =>
    rw [wrapped, h, List.length_append]
    omega
  | succ n ih =>
    have htext : (Json.emit (wrapped inner (n + 1)).json rest).flatMap Token.chars =
      "\x7b\"type\":\"filter\",\"source\":".toList ++
        (Json.emit (wrapped inner n).json (.closeObject :: rest)).flatMap Token.chars := rfl
    have hfront : "\x7b\"type\":\"filter\",\"source\":".toList.length = 26 := by decide
    have hback : ((Token.closeObject :: rest).flatMap Token.chars).length =
        1 + (rest.flatMap Token.chars).length := Nat.add_comm _ 1
    rw [htext, List.length_append, ih, hfront, hback]
    omega

/-- Short operators below some wrappers have a short token. -/
lemma length_encode_wrapped_le {cs : List Char} (h : ∀ rest : List Token,
      (Json.emit inner.json rest).flatMap Token.chars = cs ++ rest.flatMap Token.chars)
    {n : Nat} (hn : n ≤ 125) (hcs : cs.length ≤ 100) :
    (encode ⟨wrapped inner n, []⟩).length ≤ maxLength := by
  have htext : (Plan.json ⟨wrapped inner n, []⟩).compactChars = "\x7b\"root\":".toList ++
      (Json.emit (wrapped inner n).json [.closeObject]).flatMap Token.chars := rfl
  have hfront : "\x7b\"root\":".toList.length = 8 := by decide
  have hback : ([Token.closeObject].flatMap Token.chars).length = 1 := rfl
  have hchars : (Plan.json ⟨wrapped inner n, []⟩).compactChars.length = 27 * n + cs.length + 9 := by
    rw [htext, List.length_append, length_emit_wrapped h, hfront, hback]
    omega
  have hbytes := Utf8.length_encode_le (Plan.json ⟨wrapped inner n, []⟩).compactChars
  have hbound : maxLength = 1048576 := rfl
  rw [encode_eq_ofText, ofText, String.length_ofList, Base64.length_encode, hbound]
  omega

/-- A ranking operator without a threshold. -/
def bare : PlanNode := .ranking .topK [] none []

/-- A ranking operator with a threshold. -/
def bounded : PlanNode := .ranking .topK [("a", .text "1")] none []

lemma canonical_bare : bare.Canonical := ⟨carried_nil _, carried_nil _⟩

lemma emit_bare (rest : List Token) : (Json.emit bare.json rest).flatMap Token.chars =
    "\x7b\"type\":\"top_k\"\x7d".toList ++ rest.flatMap Token.chars := rfl

lemma emit_bounded (rest : List Token) : (Json.emit bounded.json rest).flatMap Token.chars =
    "\x7b\"type\":\"top_k\",\"threshold\":\x7b\"a\":\"1\"\x7d\x7d".toList ++
      rest.flatMap Token.chars := rfl

/-- A ranking operator may stand below 125 wrappers. -/
lemma decode_encode_wrapped_bare {n : Nat} (hn : n ≤ 125) :
    decode (encode ⟨wrapped bare n, []⟩) = .ok ⟨wrapped bare n, []⟩ := by
  have hinteger : (Plan.json ⟨wrapped bare n, []⟩).all Json.isInteger = true := by
    have hbare : bare.json.all Json.isInteger = true := rfl
    have hroot := all_isInteger_wrapped hbare n
    simp [Plan.json, Json.all, Json.allMembers, hroot]
  have hbare : bare.json.depth = 1 := rfl
  have hdepth : (Plan.json ⟨wrapped bare n, []⟩).depth = n + 2 := by
    simp only [Plan.json, Json.depth, Json.depthMembers, depth_json_wrapped, hbare]
    omega
  have hcanonical : Plan.Canonical ⟨wrapped bare n, []⟩ :=
    ⟨canonical_wrapped canonical_bare n, carried_nil _⟩
  rw [decode_encode_iff hcanonical (Json.all_isWord_of_isInteger hinteger),
    Plan.rewritten_of_isInteger hinteger, hdepth]
  exact ⟨rfl, length_encode_wrapped_le emit_bare hn (by decide), Nat.add_le_add_right hn 2⟩

/-- It can then be given a threshold. -/
lemma withThreshold_wrapped_bare {n : Nat} (hn : n ≤ 125) :
    withThreshold (encode ⟨wrapped bare n, []⟩) (Solution.ofList [("a", "1")]) =
      .ok (encode ⟨wrapped bounded n, []⟩) :=
  withThreshold_eq_ok_iff.2
    ⟨_, _, decode_encode_wrapped_bare hn, setThreshold_wrapped rfl n, rfl⟩

end Wrapped

/-! ## Plans and their tokens -/

/-- **When the tokens that are sent can be read again.** The token of a plan that has been read is
accepted exactly if it is not too long. A token that has been given threshold values is accepted
exactly if it is not too long and there was room for them in the plan, or there were none: the new
values stand three levels below the top, and one more for every wrapper.

**Proof sketch.** Both are tokens of plans in order, for which only length and depth count
(`exists_decode_encode_iff`). Reading does not add any depth (`depth_le_of_decode`). Giving values
makes a plan as deep as the threshold stands (`PlanNode.le_depth_setThreshold`), and no deeper unless
it was (`PlanNode.depth_setThreshold_le`). -/
theorem decode_again_iff (hplan : decode token = .ok plan) :
    ((∃ read, decode (encode plan) = .ok read) ↔ (encode plan).length ≤ maxLength) ∧
    ∀ (values : Solution) (pushed : String), withThreshold token values = .ok pushed →
      ((∃ read, decode pushed = .ok read) ↔ pushed.length ≤ maxLength ∧
        (values.bindings = [] ∨ plan.root.wrappers + 3 ≤ maxDepth)) :=
  ⟨exists_decode_encode_of_decode hplan, fun _ _ => exists_decode_withThreshold hplan⟩

/-- A plan with 124 wrappers just has room for a threshold. -/
theorem decode_again_of_wrapped :
    let token := encode ⟨wrapped bare 124, []⟩
    let pushed := encode ⟨wrapped bounded 124, []⟩
    decode token = .ok ⟨wrapped bare 124, []⟩ ∧ (∃ read, decode token = .ok read) ∧
      withThreshold token (Solution.ofList [("a", "1")]) = .ok pushed ∧
      ∃ read, decode pushed = .ok read := by
  intro token pushed
  have hplan : decode token = .ok ⟨wrapped bare 124, []⟩ := decode_encode_wrapped_bare (by decide)
  have hpushed : withThreshold token (Solution.ofList [("a", "1")]) = .ok pushed :=
    withThreshold_wrapped_bare (by decide)
  have hroom : (wrapped bare 124).wrappers + 3 ≤ maxDepth := by
    rw [wrappers_wrapped]
    decide
  obtain ⟨hagain, hthen⟩ := decode_again_iff hplan
  refine ⟨hplan, hagain.2 (length_encode_wrapped_le emit_bare (by decide) (by decide)), hpushed, ?_⟩
  exact (hthen _ pushed hpushed).2
    ⟨length_encode_wrapped_le emit_bounded (by decide) (by decide), .inr hroom⟩

/-! ## A plan whose numbers are written in a longer form -/

/-- A negative zero. -/
def negativeZero : Json := .double (.signedZero true)

/-- A plan with an array of negative zeros that ends in a plain zero. -/
def zeros (n : Nat) : Plan :=
  ⟨.ranking .topK [] none [], [("zeros", .array (List.replicate n negativeZero ++ [.integer 0]))]⟩

/-- What stands before the zeros. -/
def zerosFront : List Char := "\x7b\"root\":\x7b\"type\":\"top_k\"\x7d,\"zeros\":[".toList

/-- **A text that writes the plan**, the negative zeros without a fraction. -/
def zerosText (n : Nat) : List Char :=
  zerosFront ++ ((List.replicate n ['-', '0', ',']).flatten ++ ['0', ']', '\x7d'])

/-- The tokens of one negative zero after the other. -/
def zeroTokens (n : Nat) : List Token :=
  (List.replicate n [.scalar (.double (.signedZero true)), .comma]).flatten

/-- A negative zero without a fraction is read as a double. -/
lemma foldl_step_zero (ts : List Token) :
    ['-', '0', ','].foldl Scanner.step ⟨ts, .between⟩ =
      ⟨.comma :: .scalar (.double (.signedZero true)) :: ts, .between⟩ := by
  have htoken : (Json.Numeral.mk true ['0'] [] false false []).token =
      .scalar (.double (.signedZero true)) := by
    decide +kernel
  have hpending : Scanner.After ts (.scalar (.double (.signedZero true)))
      (['-', '0'].foldl Scanner.step ⟨ts, .between⟩) :=
    @Scanner.After.pending _ _ .zero _ rfl htoken
  have hchars : ['-', '0', ','] = ['-', '0'] ++ Token.comma.chars := rfl
  rw [hchars, List.foldl_append]
  exact (hpending.delimiter rfl).eq_complete rfl

lemma foldl_step_zeros (n : Nat) (ts : List Token) :
    (List.replicate n ['-', '0', ',']).flatten.foldl Scanner.step ⟨ts, .between⟩ =
      ⟨(zeroTokens n).reverse ++ ts, .between⟩ := by
  induction n generalizing ts with
  | zero => rfl
  | succ n ih =>
    rw [zeroTokens, List.replicate_succ, List.replicate_succ, List.flatten_cons, List.flatten_cons,
      List.foldl_append, foldl_step_zero, ih, List.reverse_append, List.append_assoc]
    rfl

/-- The tokens of an array of negative zeros. -/
lemma emitItems_zeros (n : Nat) (rest : List Token) :
    Json.emitItems (List.replicate n negativeZero ++ [.integer 0]) rest =
      zeroTokens n ++ .scalar (.integer 0) :: rest := by
  induction n with
  | zero => rfl
  | succ n ih =>
    obtain ⟨first, more, hitems⟩ : ∃ first more,
        List.replicate n negativeZero ++ [Json.integer 0] = first :: more := by
      cases n with
      | zero => exact ⟨_, _, rfl⟩
      | succ n => exact ⟨_, _, rfl⟩
    rw [List.replicate_succ, List.cons_append, hitems, Json.emitItems, ← hitems, ih]
    rfl

/-- The tokens before the zeros. -/
def zerosFrontTokens : List Token :=
  [.openObject, .scalar (.text "root"), .colon, .openObject, .scalar (.text "type"), .colon,
    .scalar (.text "top_k"), .closeObject, .comma, .scalar (.text "zeros"), .colon, .openArray]

lemma tokens_zeros (n : Nat) : (zeros n).json.tokens =
    zerosFrontTokens ++ (zeroTokens n ++ [.scalar (.integer 0), .closeArray, .closeObject]) := by
  have htokens : (zeros n).json.tokens = zerosFrontTokens ++
      Json.emitItems (List.replicate n negativeZero ++ [.integer 0])
        [.closeArray, .closeObject] := rfl
  rw [htokens, emitItems_zeros]

/-- **The text writes the plan.** -/
lemma tokenize_zerosText (n : Nat) : Json.tokenize (zerosText n) = (zeros n).json.tokens := by
  have hfront : zerosFront.foldl Scanner.step Scanner.start =
      ⟨zerosFrontTokens.reverse, .between⟩ := by
    decide +kernel
  have hback : ∀ ts, (['0', ']', '\x7d'].foldl Scanner.step ⟨ts, .between⟩).finish =
      ts.reverse ++ [.scalar (.integer 0), .closeArray, .closeObject] := by
    intro ts
    have htoken : (Json.Numeral.mk false ['0'] [] false false []).token =
        .scalar (.integer 0) := by
      decide +kernel
    have hpending : Scanner.After ts (.scalar (.integer 0))
        (['0'].foldl Scanner.step ⟨ts, .between⟩) :=
    @Scanner.After.pending _ _ .zero _ rfl htoken
    have hchars : ['0', ']', '\x7d'] =
        ['0'] ++ (Token.closeArray.chars ++ Token.closeObject.chars) := rfl
    rw [hchars, List.foldl_append, List.foldl_append, (hpending.delimiter rfl).eq_complete rfl]
    show (Token.closeObject :: .closeArray :: .scalar (.integer 0) :: ts).reverse = _
    simp
  rw [Json.tokenize, zerosText, List.foldl_append, List.foldl_append, hfront, foldl_step_zeros,
    hback, tokens_zeros, List.reverse_append, List.reverse_reverse, List.reverse_reverse,
    List.append_assoc]

lemma all_json_zeros (n : Nat) : (zeros n).json.all Json.isWord = true := by
  have hitems : Json.allItems Json.isWord (List.replicate n negativeZero ++ [.integer 0]) =
      true := by
    rw [Json.allItems_iff, List.forall_mem_append]
    refine ⟨fun v hv => ?_, List.forall_mem_singleton.2 rfl⟩
    rw [List.eq_of_mem_replicate hv]
    rfl
  simp [zeros, Plan.json, PlanNode.json, Json.all, Json.allMembers, Json.isWord, hitems]

lemma canonical_zeros (n : Nat) : (zeros n).Canonical where
  root := ⟨carried_nil _, carried_nil _⟩
  extra := by
    refine ⟨List.nodup_singleton _, List.forall_mem_singleton.2 ?_,
      List.forall_mem_singleton.2 (by simp)⟩
    rw [Json.isDistinct, Json.distinctItems_iff, List.forall_mem_append]
    refine ⟨fun v hv => ?_, List.forall_mem_singleton.2 rfl⟩
    rw [List.eq_of_mem_replicate hv]
    rfl

lemma depth_json_zeros (n : Nat) : (zeros n).json.depth ≤ maxDepth := by
  have hroot : (PlanNode.ranking .topK [] none []).json.depth ≤ 126 := by decide
  refine (depth_json_le_iff (zeros n)).2 ⟨hroot, List.forall_mem_singleton.2 ?_⟩
  rw [Json.depth]
  refine Nat.add_le_add_right (m := 125) ?_ 1
  rw [Json.depthItems_le, List.forall_mem_append]
  refine ⟨fun v hv => ?_, List.forall_mem_singleton.2 (Nat.zero_le _)⟩
  rw [List.eq_of_mem_replicate hv]
  exact Nat.zero_le _

/-- Three characters are read for each negative zero. -/
lemma length_zerosText (n : Nat) : (zerosText n).length = 3 * n + 37 := by
  have hfront : zerosFront.length = 34 := by decide
  have hzeros : (List.replicate n ['-', '0', ',']).flatten.length = n * 3 := by simp
  have hback : ['0', ']', '\x7d'].length = 3 := rfl
  rw [zerosText, List.length_append, List.length_append, hfront, hzeros, hback]
  omega

/-- Five characters are written for each negative zero. -/
lemma length_compactChars_zeros (n : Nat) : (zeros n).json.compactChars.length = 5 * n + 37 := by
  have hfront : (zerosFrontTokens.flatMap Token.chars).length = 34 := by decide +kernel
  have hzeros : ((zeroTokens n).flatMap Token.chars).length = 5 * n := by
    induction n with
    | zero => rfl
    | succ n ih =>
      have hzero : ([Token.scalar (.double (.signedZero true)), .comma].flatMap
          Token.chars).length = 5 := by
        decide +kernel
      rw [zeroTokens, List.replicate_succ, List.flatten_cons, List.flatMap_append,
        List.length_append, hzero, ← zeroTokens, ih]
      omega
  have hback : ([Token.scalar (.integer 0), .closeArray, .closeObject].flatMap
      Token.chars).length = 3 := by
    decide +kernel
  rw [Json.compactChars, tokens_zeros, List.flatMap_append, List.flatMap_append,
    List.length_append, List.length_append, hfront, hzeros, hback]
  omega

lemma isPlain_of_mem_zerosText {n : Nat} {c : Char} (h : c ∈ zerosText n) : Base64.IsPlain c := by
  have hplain : ∀ cs : List Char, (cs.all fun c => decide (Base64.IsPlain c)) = true →
      ∀ c ∈ cs, Base64.IsPlain c := by
    simp
  have hfront := hplain zerosFront (by decide)
  have hzero := hplain ['-', '0', ','] (by decide)
  have hback := hplain ['0', ']', '\x7d'] (by decide)
  rcases List.mem_append.1 h with h | h
  · exact hfront c h
  rcases List.mem_append.1 h with h | h
  · obtain ⟨zero, hmem, hc⟩ := List.mem_flatten.1 h
    rw [List.eq_of_mem_replicate hmem] at hc
    exact hzero c hc
  · exact hback c h

/-- The text is read as the plan. -/
lemma decode_ofText_zerosText {n : Nat} (hsize : (ofText (zerosText n)).length ≤ maxLength) :
    decode (ofText (zerosText n)) = .ok (zeros n) := by
  have hread : readText (zerosText n) = (document (zeros n).json, false) := by
    rw [readText, tokenize_zerosText, Json.tokens, Json.foldl_emit]
    rfl
  refine decode_eq_ok_iff.2 ⟨?_, _, holds_ofText hread, depth_json_zeros n,
    (canonical_zeros n).writes_json⟩
  rw [size_ofText]
  exact hsize

/-- **Two tokens that are accepted, but not when they are sent again.** The first one has no room for
a threshold. The second one has nothing to be changed, but its numbers are written in a longer form
than they had. -/
theorem refused_again :
    (decode (encode ⟨wrapped bare 125, []⟩) = .ok ⟨wrapped bare 125, []⟩ ∧
      withThreshold (encode ⟨wrapped bare 125, []⟩) (Solution.ofList [("a", "1")]) =
        .ok (encode ⟨wrapped bounded 125, []⟩) ∧
      ∀ read, decode (encode ⟨wrapped bounded 125, []⟩) ≠ .ok read) ∧
    decode (ofText (zerosText 200000)) = .ok (zeros 200000) ∧
      ∀ read, decode (encode (zeros 200000)) ≠ .ok read := by
  have hbound : maxLength = 1048576 := rfl
  have hplan := decode_encode_wrapped_bare (Nat.le_refl 125)
  have hpushed := withThreshold_wrapped_bare (Nat.le_refl 125)
  refine ⟨⟨hplan, hpushed, fun read hread => ?_⟩, ?_, fun read hread => ?_⟩
  · obtain ⟨-, hnone | hroom⟩ := (exists_decode_withThreshold hplan hpushed).1 ⟨read, hread⟩
    · revert hnone
      decide
    · rw [wrappers_wrapped] at hroom
      revert hroom
      decide
  · refine decode_ofText_zerosText ?_
    rw [ofText, String.length_ofList, Base64.length_encode,
      Base64.length_encode_of_isPlain fun c => isPlain_of_mem_zerosText, length_zerosText, hbound]
    omega
  · have hread' := (exists_decode_encode_iff (canonical_zeros 200000)
      (all_json_zeros 200000)).1 ⟨read, hread⟩
    have hbytes := Utf8.length_le_length_encode (zeros 200000).json.compactChars
    rw [length_compactChars_zeros] at hbytes
    rw [encode_eq_ofText, ofText, String.length_ofList, Base64.length_encode, hbound] at hread'
    omega

end PagedTopK.Continuation
