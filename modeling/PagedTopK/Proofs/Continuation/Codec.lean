import PagedTopK.Continuation
import PagedTopK.Proofs.Encoding.Base64
import PagedTopK.Proofs.Except
import PagedTopK.Proofs.Json.Words
import PagedTopK.Proofs.Plan.Change

set_option autoImplicit false

/-!
# Tokens that are written and read again

A token is read in three layers: symbols, a JSON text, a plan. What is written can always be read
through the first two of them, and the third one asks only for a plan that is not too deep. So
nothing but length and depth stands between a plan and its way back.

## Main definitions

* `Continuation.size` — the length of a token as far as it counts.
* `Continuation.Holds` — the JSON value in a token.
* `Continuation.Reachable` — the plans that tokens and threshold values lead to.

## Main results

* `Continuation.decode_eq_ok_iff` — what is accepted as a token.
* `Continuation.holds_encode_iff` — what the token of a plan holds.
* `Continuation.decode_encode_iff` — what the token of a plan is read as.
* `Continuation.decode_encode_of_reachable` — reachable plans without doubles are read back.
-/

namespace PagedTopK.Continuation

open Json (document maxDepth readText)

variable {token : String} {v w : Json} {plan read : Plan}

/-! ## What a token holds -/

/-- The symbols of a token. -/
def symbols (token : String) : List UInt8 := Utf8.encode (Text.trim token.toList)

/-- **The length of a token** in bytes, without the white space around it. -/
def size (token : String) : Nat := (symbols token).length

/-- **A token holds a value** if its symbols stand for the bytes of a JSON text that writes it. There
is no bound on the length of the token or on the depth of the value. -/
def Holds (token : String) (v : Json) : Prop :=
  ∃ bytes, Base64.decode (symbols token) = .ok bytes ∧
    readText (Utf8.upToFault '\x01' bytes) = (document v, false)

/-- A token holds at most one value. -/
lemma Holds.unique (hv : Holds token v) (hw : Holds token w) : v = w := by
  obtain ⟨bytes, hbytes, hv⟩ := hv
  obtain ⟨bytes', hbytes', hw⟩ := hw
  rw [hbytes] at hbytes'
  obtain rfl := Except.ok.inj hbytes'
  rw [hv] at hw
  exact Json.document_injective (Prod.ext_iff.1 hw).1

/-- The integers in a token have 64 bits. -/
lemma Holds.all_isWord (h : Holds token v) : v.all Json.isWord = true := by
  obtain ⟨bytes, -, hv⟩ := h
  have hread : (readText (Utf8.upToFault '\x01' bytes)).1.json? v.depth = some v := by
    rw [hv, Json.json?_document, if_pos (Nat.le_refl _)]
  exact Json.all_isWord_of_readText hread

/-- Nothing is held by no symbols. -/
lemma Holds.symbols_ne_nil (h : Holds token v) : symbols token ≠ [] := by
  intro hnil
  obtain ⟨bytes, hbytes, hv⟩ := h
  have hempty : Base64.decode [] = .ok [] := rfl
  rw [hnil, hempty] at hbytes
  obtain rfl := Except.ok.inj hbytes
  have hbroken : (readText (Utf8.upToFault '\x01' [])).1 = .broken := rfl
  rw [hv] at hbroken
  cases v <;> cases hbroken

lemma planOfBytes_eq_ok_iff {bytes : List UInt8} :
    planOfBytes bytes = .ok plan ↔
      ∃ v, readText (Utf8.upToFault '\x01' bytes) = (document v, false) ∧ v.depth ≤ maxDepth ∧
        Plan.Writes v plan := by
  rcases hread : readText (Utf8.upToFault '\x01' bytes) with ⟨d, more⟩
  rw [planOfBytes, Json.readWith, hread]
  have hplan : Plan.ofDocument d = .ok plan ↔ _ := Plan.ofDocument_eq_ok_iff
  simp only [Prod.mk.injEq]
  constructor
  · intro h
    cases hd : Plan.ofDocument d with
    | error e =>
      rw [hd] at h
      cases h
    | ok found =>
      rw [hd] at h
      cases more with
      | true => cases h
      | false =>
        cases h
        obtain ⟨v, hv, hdepth, hwrites⟩ := hplan.1 hd
        exact ⟨v, ⟨hv, rfl⟩, hdepth, hwrites⟩
  · rintro ⟨v, ⟨hv, rfl⟩, hdepth, hwrites⟩
    rw [hplan.2 ⟨v, hv, hdepth, hwrites⟩]
    rfl

/-- **What is accepted as a token.** -/
theorem decode_eq_ok_iff :
    decode token = .ok plan ↔ size token ≤ maxLength ∧
      ∃ v, Holds token v ∧ v.depth ≤ maxDepth ∧ Plan.Writes v plan := by
  constructor
  · intro h
    unfold decode at h
    change (if symbols token = [] then _ else if maxLength < size token then _ else _) = _ at h
    split at h
    · cases h
    split at h
    · cases h
    next _ hsize =>
    split at h
    · cases h
    next bytes hbytes =>
    split at h
    · cases h
    next found hfound =>
    cases h
    obtain ⟨v, hv, hdepth, hwrites⟩ := planOfBytes_eq_ok_iff.1 hfound
    exact ⟨Nat.not_lt.1 hsize, v, ⟨bytes, hbytes, hv⟩, hdepth, hwrites⟩
  · rintro ⟨hsize, v, hholds, hdepth, hwrites⟩
    have hne := hholds.symbols_ne_nil
    obtain ⟨bytes, hbytes, hv⟩ := hholds
    unfold decode
    change (if symbols token = [] then _ else if maxLength < size token then _ else _) = _
    rw [if_neg hne, if_neg (Nat.not_lt.2 hsize)]
    unfold symbols at hbytes
    simp only [hbytes, planOfBytes_eq_ok_iff.2 ⟨v, hv, hdepth, hwrites⟩]

/-! ## The token of a plan -/

/-- **The token of a text.** -/
def ofText (cs : List Char) : String := String.ofList (Base64.encode (Utf8.encode cs))

lemma encode_eq_ofText (plan : Plan) : encode plan = ofText plan.json.compactChars := rfl

lemma symbols_ofText (cs : List Char) :
    symbols (ofText cs) = Utf8.encode (Base64.encode (Utf8.encode cs)) := by
  rw [symbols, ofText, String.toList_ofList, Base64.trim_encode]

/-- Every character of a written token counts. -/
lemma size_ofText (cs : List Char) : size (ofText cs) = (ofText cs).length := by
  rw [size, symbols_ofText, Base64.length_utf8_encode, ofText, String.length_ofList]

/-- The token of a text holds what the text writes. -/
lemma holds_ofText {cs : List Char} (h : readText cs = (document v, false)) :
    Holds (ofText cs) v :=
  ⟨Utf8.encode cs, by rw [symbols_ofText, Base64.decode_encode], by rw [Utf8.upToFault_encode, h]⟩

/-- The token of what writes a value without doubles holds that value. -/
lemma holds_ofText_compactChars (h : v.all Json.isInteger = true) :
    Holds (ofText v.compactChars) v := by
  have hread := Json.readText_compactChars (Json.all_isWord_of_isInteger h)
  rw [Json.rewritten_of_isInteger h] at hread
  exact holds_ofText hread

/-- **What the token of a plan holds**: the value that writes the plan, its doubles read again. -/
theorem holds_encode_iff (hword : plan.json.all Json.isWord = true) :
    Holds (encode plan) v ↔ v = plan.json.rewritten := by
  have hholds : Holds (encode plan) plan.json.rewritten :=
    holds_ofText (Json.readText_compactChars hword)
  exact ⟨fun h => h.unique hholds, fun h => h ▸ hholds⟩

/-- **What the token of a plan is read as**: the plan with its doubles read again, if it is neither
too long nor too deep. -/
theorem decode_encode_iff (hcanonical : plan.Canonical)
    (hword : plan.json.all Json.isWord = true) :
    decode (encode plan) = .ok read ↔
      read = plan.rewritten ∧ (encode plan).length ≤ maxLength ∧ plan.json.depth ≤ maxDepth := by
  have hread : _ ↔ read = plan.rewritten ∧ _ :=
    Plan.ofDocument_eq_ok_iff.symm.trans hcanonical.ofDocument_json
  rw [decode_eq_ok_iff, encode_eq_ofText, size_ofText, ← encode_eq_ofText]
  constructor
  · rintro ⟨hsize, v, hholds, hdepth, hwrites⟩
    obtain rfl := (holds_encode_iff hword).1 hholds
    obtain ⟨rfl, hplan⟩ := hread.1 ⟨_, rfl, hdepth, hwrites⟩
    exact ⟨rfl, hsize, hplan⟩
  · rintro ⟨rfl, hsize, hdepth⟩
    obtain ⟨v, hv, hroom, hwrites⟩ := hread.2 ⟨rfl, hdepth⟩
    obtain rfl := Json.document_injective hv
    exact ⟨hsize, _, (holds_encode_iff hword).2 rfl, hroom, hwrites⟩

/-! ## Reachable plans -/

/-- **The plans that tokens and threshold values lead to.** -/
inductive Reachable : Plan → Prop where
  /-- The plan in a token. -/
  | decoded {token : String} {plan : Plan} (h : decode token = .ok plan) : Reachable plan
  /-- A plan whose ranking operator has been given threshold values. -/
  | given {plan changed : Plan} {threshold : Solution} (hplan : Reachable plan)
    (h : setThreshold plan threshold = .ok changed) : Reachable changed

lemma setThreshold_eq_ok_iff {changed : Plan} {threshold : Solution} :
    setThreshold plan threshold = .ok changed ↔
      ∃ root, plan.root.setThreshold threshold.bindings = .ok root ∧
        changed = { plan with root := root } := by
  rw [setThreshold]
  cases plan.root.setThreshold threshold.bindings <;> simp [eq_comm]

/-- Plans that have been read are in order. -/
lemma canonical_of_decode (h : decode token = .ok plan) : plan.Canonical := by
  obtain ⟨-, v, -, -, hwrites⟩ := decode_eq_ok_iff.1 h
  exact hwrites.canonical

/-- Their integers have 64 bits. -/
lemma all_isWord_of_decode (h : decode token = .ok plan) :
    plan.json.all Json.isWord = true := by
  obtain ⟨-, v, hholds, -, hwrites⟩ := decode_eq_ok_iff.1 h
  exact hwrites.all_json (fun _ => rfl) hholds.all_isWord

/-- They are not too deep. -/
lemma depth_le_of_decode (h : decode token = .ok plan) : plan.json.depth ≤ maxDepth := by
  obtain ⟨-, v, -, hdepth, hwrites⟩ := decode_eq_ok_iff.1 h
  exact Nat.le_trans hwrites.depth_json_le hdepth

/-- **Reachable plans are in order.** -/
lemma Reachable.canonical (h : Reachable plan) : plan.Canonical := by
  induction h with
  | decoded h => exact canonical_of_decode h
  | given _ h ih =>
    obtain ⟨root, hroot, rfl⟩ := setThreshold_eq_ok_iff.1 h
    exact ⟨ih.root.setThreshold hroot, ih.extra⟩

/-- **Reachable plans without doubles are read back** from their tokens, if these are neither too
long nor too deep. The plan in a token is never too deep, so that its own token is read back if it
is not too long.

**Proof sketch.** Reading puts a plan in order and giving it values keeps it so
(`Reachable.canonical`); a plan in order is read back with its doubles read again
(`decode_encode_iff`), and it has none. Neither does reading add any depth
(`Plan.Writes.depth_json_le`). -/
theorem decode_encode_of_reachable (h : Reachable plan)
    (hinteger : plan.json.all Json.isInteger = true) :
    (∀ read, decode (encode plan) = .ok read ↔
      read = plan ∧ (encode plan).length ≤ maxLength ∧ plan.json.depth ≤ maxDepth) ∧
    (∀ token, decode token = .ok plan →
      (decode (encode plan) = .ok plan ↔ (encode plan).length ≤ maxLength)) := by
  have hread : ∀ read, decode (encode plan) = .ok read ↔
      read = plan ∧ (encode plan).length ≤ maxLength ∧ plan.json.depth ≤ maxDepth := by
    intro read
    rw [decode_encode_iff h.canonical (Json.all_isWord_of_isInteger hinteger),
      Plan.rewritten_of_isInteger hinteger]
  refine ⟨hread, fun token hplan => ?_⟩
  rw [hread]
  exact ⟨fun h => h.2.1, fun hlength => ⟨rfl, hlength, depth_le_of_decode hplan⟩⟩

/-- A plan that has not been written as its token is, and has been given a value. -/
theorem decode_encode_of_reachable_given :
    let token := "eyJyb290IjogeyJzb3VyY2UiOiB7InR5cGUiOiA1LCAic291cmNlIjogbnVsbH0sICJ0eXBlIjogImxpbWl0IiwgIm4iOiAxMH0sICJncmFwaCI6ICJnIn0="
    let values := Solution.ofList [("x", "7")]
    let written := "eyJyb290Ijp7InR5cGUiOiJsaW1pdCIsInNvdXJjZSI6eyJ0eXBlIjoicGFydGlhbF90b3BfayIsInRocmVzaG9sZCI6eyJ4IjoiNyJ9fSwibiI6MTB9LCJncmFwaCI6ImcifQ=="
    ∃ plan changed : Plan, decode token = .ok plan ∧ setThreshold plan values = .ok changed ∧
      encode changed = written ∧ changed.json.all Json.isInteger = true ∧
      decode written = .ok changed := by
  intro token values written
  have hseen : (decode token >>= fun plan => setThreshold plan values).toOption.map
      (fun changed => (encode changed, changed.json.all Json.isInteger, changed.json.depth)) =
        some (written, true, 4) := by
    decide +kernel
  obtain ⟨changed, hchanged, hfacts⟩ := Option.map_eq_some_iff.1 hseen
  obtain ⟨hwritten, hinteger, hdepth⟩ : encode changed = written ∧
      changed.json.all Json.isInteger = true ∧ changed.json.depth = 4 := by
    simpa using hfacts
  obtain ⟨plan, hplan, hset⟩ := bind_eq_ok_iff.1 (toOption_eq_some_iff.1 hchanged)
  have hreach : Reachable changed := .given (.decoded hplan) hset
  have hread := ((decode_encode_of_reachable hreach hinteger).1 changed).2
    ⟨rfl, by rw [hwritten]; decide +kernel, by rw [hdepth]; decide⟩
  exact ⟨plan, changed, hplan, hset, hwritten, hinteger, hwritten ▸ hread⟩

end PagedTopK.Continuation
