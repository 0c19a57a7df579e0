import PagedTopK.Proofs.Continuation.Codec
import PagedTopK.Proofs.Encoding.Canonical
import PagedTopK.Proofs.Json.Grammar
import PagedTopK.Proofs.Plan.Grammar

set_option autoImplicit false

/-!
# The grammar of tokens

A token is accepted if and only if it follows a grammar in three layers: the base64 form of the
UTF-8 form of a JSON text that writes a plan. If it does not, the first of these that it misses says
why it is refused.

A JSON text here is one that writes a value: a numeral beyond every double and half of a surrogate
pair have no value.

## Main definitions

* `Continuation.body` — a token without the white space around it.
* `Continuation.IsPlanText` — whether bytes are the text of a plan.
* `Continuation.Follows` — whether a token follows the grammar.
* `Continuation.Judged` — what becomes of a token, by the first thing that it misses.

## Main results

* `Continuation.holds_iff` — the value that a token holds is the one that its text writes.
* `Continuation.judged_decode` — every token is judged by the first thing that it misses.
* `Continuation.decode_follows_grammar` — what is accepted, and why anything else is refused.
* `Continuation.accepted_without_name` — an accepted token one of whose operators has no name.
-/

namespace PagedTopK.Continuation

open Json (maxDepth readText document)
open PlanNode (Position)

/-- **A token without the white space around it.** -/
def body (token : String) : List Char := Text.trim token.toList

/-- **Bytes are the text of a plan** that is not too deep, where the kinds of its operators are
given in some way. -/
def IsPlanText (kind : Position → Json → Operator → Prop) (bytes : List UInt8) : Prop :=
  ∃ cs v, bytes = Utf8.encode cs ∧ v.Spells cs ∧ v.depth ≤ maxDepth ∧ Plan.IsPlan kind v

/-- **A token follows the grammar**, where the kinds of operators are given in some way. -/
structure Follows (kind : Position → Json → Operator → Prop) (token : String) : Prop where
  /-- There is something in it. -/
  nonempty : body token ≠ []
  /-- It is not too long. -/
  short : size token ≤ maxLength
  /-- It is the base64 form of the text of a plan. -/
  plan : ∃ bytes, body token = Base64.encode bytes ∧ IsPlanText kind bytes

variable {token : String} {v : Json} {bytes : List UInt8}

/-- Where names are required, fewer tokens follow the grammar. -/
lemma Follows.given (h : Follows Operator.Named token) : Follows Operator.Given token := by
  obtain ⟨bytes, hbytes, cs, v, hcs, hv, hdepth, hplan⟩ := h.plan
  exact ⟨h.nonempty, h.short, bytes, hbytes, cs, v, hcs, hv, hdepth, hplan.given⟩

/-! ## The layers of a token -/

lemma symbols_eq_nil_iff : symbols token = [] ↔ body token = [] := by
  rw [symbols, ← Utf8.encode_nil, Utf8.encode_injective.eq_iff, body]

/-- **Base64 texts are read as their bytes**, and there are no other ones. -/
lemma decode_symbols_eq_ok_iff :
    Base64.decode (symbols token) = .ok bytes ↔ body token = Base64.encode bytes := by
  rw [Base64.decode_eq_ok_iff, symbols, Utf8.encode_injective.eq_iff, body]

/-- **Bytes that are read as a value are the UTF-8 form of a text that writes it.** The mark of a
fault is a control character, which no such text has. -/
lemma readText_upToFault_iff :
    readText (Utf8.upToFault '\x01' bytes) = (document v, false) ↔
      ∃ cs, bytes = Utf8.encode cs ∧ v.Spells cs := by
  rw [Json.readText_eq_document_iff]
  constructor
  · intro h
    have hmark : '\x01' ∉ Utf8.upToFault '\x01' bytes := by
      intro hmem
      have hcontrol := h.isGap_or_le_toNat _ hmem
      revert hcontrol
      unfold Json.IsGap
      decide
    exact ⟨_, Utf8.eq_encode_of_upToFault rfl hmark, h⟩
  · rintro ⟨cs, rfl, h⟩
    rw [Utf8.upToFault_encode]
    exact h

/-- **The value that a token holds** is the one that its text writes. -/
theorem holds_iff :
    Holds token v ↔ ∃ cs, body token = Base64.encode (Utf8.encode cs) ∧ v.Spells cs := by
  unfold Holds
  simp only [decode_symbols_eq_ok_iff, readText_upToFault_iff]
  constructor
  · rintro ⟨bytes, hbytes, cs, rfl, h⟩
    exact ⟨cs, hbytes, h⟩
  · rintro ⟨cs, hbytes, h⟩
    exact ⟨_, hbytes, cs, rfl, h⟩

/-- **Texts of plans** are read as plans, and no other bytes are. -/
lemma exists_planOfBytes_iff :
    (∃ plan, planOfBytes bytes = .ok plan) ↔ IsPlanText Operator.Given bytes := by
  simp only [planOfBytes_eq_ok_iff, readText_upToFault_iff]
  constructor
  · rintro ⟨plan, v, ⟨cs, hcs, hv⟩, hdepth, hwrites⟩
    exact ⟨cs, v, hcs, hv, hdepth, Plan.exists_writes_iff.1 ⟨plan, hwrites⟩⟩
  · rintro ⟨cs, v, hcs, hv, hdepth, hplan⟩
    obtain ⟨plan, hwrites⟩ := Plan.exists_writes_iff.2 hplan
    exact ⟨plan, v, ⟨cs, hcs, hv⟩, hdepth, hwrites⟩

/-! ## What becomes of a token -/

/-- **What becomes of a token**, by the first thing that it misses. -/
inductive Judged (token : String) : Except TokenError Plan → Prop where
  /-- There is nothing in it. -/
  | empty (hbody : body token = []) : Judged token (.error .empty)
  /-- It is too long. -/
  | tooLong (hbody : body token ≠ []) (hsize : maxLength < size token) :
    Judged token (.error (.tooLong (size token)))
  /-- It is not the base64 form of any bytes. -/
  | base64 {fault : Base64.Fault} (hbody : body token ≠ []) (hsize : size token ≤ maxLength)
    (hbytes : ∀ bytes, body token ≠ Base64.encode bytes) : Judged token (.error (.base64 fault))
  /-- The bytes are not the text of a plan. -/
  | malformed {cause : Json.ReadError} {bytes : List UInt8} (hbody : body token ≠ [])
    (hsize : size token ≤ maxLength) (hbytes : body token = Base64.encode bytes)
    (hplan : ¬ IsPlanText Operator.Given bytes) : Judged token (.error (.malformed cause))
  /-- It misses nothing. -/
  | accepted {plan : Plan} (h : Follows Operator.Given token) : Judged token (.ok plan)

/-- **Every token is judged by the first thing that it misses.** -/
theorem judged_decode (token : String) : Judged token (decode token) := by
  unfold decode
  change Judged token (if symbols token = [] then _ else if maxLength < size token then _ else _)
  split
  · next hnil => exact .empty (symbols_eq_nil_iff.1 hnil)
  next hnil =>
  have hbody := fun h => hnil (symbols_eq_nil_iff.2 h)
  split
  · next hsize => exact .tooLong hbody hsize
  next hsize =>
  have hshort := Nat.not_lt.1 hsize
  split
  · next fault hfault =>
    refine .base64 hbody hshort fun bytes hbytes => ?_
    have hread := decode_symbols_eq_ok_iff.2 hbytes
    cases hfault.symm.trans hread
  next bytes hbytes =>
  have hencode := decode_symbols_eq_ok_iff.1 hbytes
  split
  · next cause hcause =>
    refine .malformed hbody hshort hencode fun hplan => ?_
    obtain ⟨plan, hread⟩ := exists_planOfBytes_iff.2 hplan
    rw [hread] at hcause
    cases hcause
  · next plan hread =>
    exact .accepted ⟨hbody, hshort, bytes, hencode, exists_planOfBytes_iff.1 ⟨plan, hread⟩⟩

namespace Judged

variable {result : Except TokenError Plan}

lemma exists_ok_iff (h : Judged token result) :
    (∃ plan, result = .ok plan) ↔ Follows Operator.Given token := by
  cases h with
  | empty hbody => exact iff_of_false nofun fun h => h.nonempty hbody
  | tooLong _ hsize => exact iff_of_false nofun fun h => Nat.not_le.2 hsize h.short
  | base64 _ _ hbytes =>
    refine iff_of_false nofun fun h => ?_
    obtain ⟨bytes, hencode, -⟩ := h.plan
    exact hbytes bytes hencode
  | malformed _ _ hbytes hplan =>
    refine iff_of_false nofun fun h => ?_
    obtain ⟨others, hencode, htext⟩ := h.plan
    exact hplan (Base64.encode_injective (hbytes.symm.trans hencode) ▸ htext)
  | accepted h => exact iff_of_true ⟨_, rfl⟩ h

lemma empty_iff (h : Judged token result) : result = .error .empty ↔ body token = [] := by
  cases h with
  | empty hbody => exact iff_of_true rfl hbody
  | tooLong hbody | base64 hbody | malformed hbody => exact iff_of_false nofun hbody
  | accepted h => exact iff_of_false nofun h.nonempty

lemma tooLong_iff (h : Judged token result) {n : Nat} :
    result = .error (.tooLong n) ↔ body token ≠ [] ∧ maxLength < size token ∧ n = size token := by
  cases h with
  | empty hbody => exact iff_of_false nofun fun h => h.1 hbody
  | tooLong hbody hsize =>
    constructor
    · rintro ⟨⟩
      exact ⟨hbody, hsize, rfl⟩
    · rintro ⟨-, -, rfl⟩
      rfl
  | base64 _ hsize | malformed _ hsize => exact iff_of_false nofun fun h => Nat.not_lt.2 hsize h.2.1
  | accepted h => exact iff_of_false nofun fun hlong => Nat.not_lt.2 h.short hlong.2.1

lemma exists_base64_iff (h : Judged token result) :
    (∃ fault, result = .error (.base64 fault)) ↔
      body token ≠ [] ∧ size token ≤ maxLength ∧ ∀ bytes, body token ≠ Base64.encode bytes := by
  cases h with
  | empty hbody => exact iff_of_false nofun fun h => h.1 hbody
  | tooLong _ hsize => exact iff_of_false nofun fun h => Nat.not_le.2 hsize h.2.1
  | base64 hbody hsize hbytes => exact iff_of_true ⟨_, rfl⟩ ⟨hbody, hsize, hbytes⟩
  | malformed _ _ hbytes => exact iff_of_false nofun fun h => h.2.2 _ hbytes
  | accepted h =>
    obtain ⟨bytes, hbytes, -⟩ := h.plan
    exact iff_of_false nofun fun h => h.2.2 bytes hbytes

lemma exists_malformed_iff (h : Judged token result) :
    (∃ cause, result = .error (.malformed cause)) ↔ body token ≠ [] ∧ size token ≤ maxLength ∧
      ∃ bytes, body token = Base64.encode bytes ∧ ¬ IsPlanText Operator.Given bytes := by
  cases h with
  | empty hbody => exact iff_of_false nofun fun h => h.1 hbody
  | tooLong _ hsize => exact iff_of_false nofun fun h => Nat.not_le.2 hsize h.2.1
  | base64 _ _ hbytes =>
    refine iff_of_false nofun fun h => ?_
    obtain ⟨-, -, bytes, hencode, -⟩ := h
    exact hbytes bytes hencode
  | malformed hbody hsize hbytes hplan =>
    exact iff_of_true ⟨_, rfl⟩ ⟨hbody, hsize, _, hbytes, hplan⟩
  | accepted h =>
    obtain ⟨bytes, hbytes, htext⟩ := h.plan
    refine iff_of_false nofun fun h => ?_
    obtain ⟨-, -, others, hencode, hplan⟩ := h
    exact hplan (Base64.encode_injective (hbytes.symm.trans hencode) ▸ htext)

end Judged

/-- **What is accepted as a token, and why anything else is refused.** The tokens that are accepted
are those that follow the grammar in which operators below the outermost one may give their place
instead of their name; all tokens with names only are among them. Any other token is refused for the
first thing that it misses: something in it, the bound on its length, base64, the text of a plan.

**Proof sketch.** The reader looks for these in the same order (`judged_decode`), and no two of its
answers go together. -/
theorem decode_follows_grammar (token : String) :
    ((∃ plan, decode token = .ok plan) ↔ Follows Operator.Given token) ∧
    (Follows Operator.Named token → ∃ plan, decode token = .ok plan) ∧
    (decode token = .error .empty ↔ body token = []) ∧
    (∀ n, decode token = .error (.tooLong n) ↔
      body token ≠ [] ∧ maxLength < size token ∧ n = size token) ∧
    ((∃ fault, decode token = .error (.base64 fault)) ↔
      body token ≠ [] ∧ size token ≤ maxLength ∧ ∀ bytes, body token ≠ Base64.encode bytes) ∧
    ((∃ cause, decode token = .error (.malformed cause)) ↔
      body token ≠ [] ∧ size token ≤ maxLength ∧
        ∃ bytes, body token = Base64.encode bytes ∧ ¬ IsPlanText Operator.Given bytes) ∧
    ∀ op, decode token ≠ .error (.unexpectedNode op) := by
  have hjudged := judged_decode token
  refine ⟨hjudged.exists_ok_iff, fun h => hjudged.exists_ok_iff.2 h.given, hjudged.empty_iff,
    fun _ => hjudged.tooLong_iff, hjudged.exists_base64_iff, hjudged.exists_malformed_iff, ?_⟩
  intro op hop
  rw [hop] at hjudged
  cases hjudged

/-- The value of a plan with an operator that gives its place instead of its name. -/
def numbered : Json :=
  .object [("root", .object [("type", .text "projection"),
    ("source", .object [("type", .integer 6)])])]

/-- Where names are required it is no plan: its outermost operator is a projection, and what is
below that has no name. -/
lemma not_isPlan_numbered : ¬ Plan.IsPlan Operator.Named numbered := by
  rintro ⟨_, _, ⟨⟩, ⟨⟩, hnode⟩
  have hkind : ∀ {op : Operator}, Operator.Named .outermost (.text "projection") op →
      op = .wrapper .projection := by
    intro op hop
    have hname := Operator.ofName?_eq_some_iff.2 (Json.text.inj hop)
    exact (Option.some.inj hname).symm
  cases hnode with
  | ranking htag hop | rankingOf htag hop | leaf htag hop =>
    cases htag
    cases hkind hop
  | wrapper _ _ hsource hbelow =>
    cases hsource
    cases hbelow with
    | wrapper htag hop | ranking htag hop | rankingOf htag hop | leaf htag hop =>
      cases htag
      cases hop

/-- **An accepted token one of whose operators has no name**: it gives its place among all
operators, which the outermost operator must not do. -/
theorem accepted_without_name :
    let token := "eyJyb290Ijp7InR5cGUiOiJwcm9qZWN0aW9uIiwic291cmNlIjp7InR5cGUiOjZ9fX0="
    (∃ plan, decode token = .ok plan) ∧ ¬ Follows Operator.Named token := by
  intro token
  have hseen : (decode token).toOption.map (fun plan => plan.root.chain) =
      some [.wrapper .projection, .leaf .scan] := by
    decide +kernel
  obtain ⟨plan, hplan, -⟩ := exists_of_toOption_map hseen
  have hwritten : token = ofText numbered.compactChars := by decide +kernel
  have hholds : Holds token numbered := hwritten ▸ holds_ofText_compactChars rfl
  refine ⟨⟨plan, hplan⟩, fun h => ?_⟩
  obtain ⟨_, hbytes, cs, v, rfl, hspells, -, hnamed⟩ := h.plan
  obtain rfl := (holds_iff.2 ⟨cs, hbytes, hspells⟩).unique hholds
  exact not_isPlan_numbered hnamed

end PagedTopK.Continuation
