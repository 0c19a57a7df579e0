import PagedTopK.Execution.Options
import PagedTopK.Proofs.Except
import PagedTopK.Proofs.Json.Record
import PagedTopK.Ranking.KeyJson
import PagedTopK.Service.Request

set_option autoImplicit false

/-!
# Records on the wire

Requests, options and ranking keys are written as JSON objects, and what is written is read back, so
that no two of them have one text. The only fields that come and go are those of a selector: a
request without one does not mention it, while a token, a quota or a bound on results that is absent
is written as null.

## Main definitions

* `Request.Fits`, `Options.Fits` — whether all numbers have 64 bits.
* `Request.members` — the members of a request.

## Main results

* `Request.ofDocument_document`, `Options.ofDocument_document`, `RankingKey.ofDocument_document` —
  each record is read back from its own document.
* `Request.parse?_body` — the object that the text of a request writes.
* `Request.wire_round_trip` — all of them are read back from their texts.
-/

namespace PagedTopK

open Json (Reader Field Given FitsWord document readWith isInteger readWith_compactChars
  all_isInteger_optional_natural all_isInteger_optional_text)

/-! ## Requests -/

namespace Request

/-- **Whether the numbers of a request have 64 bits.** -/
structure Fits (r : Request) : Prop where
  /-- How long the round may take. -/
  quota : FitsWord r.quota
  /-- How many results it may give. -/
  maxLimit : FitsWord r.maxLimit

/-- **The members of a request.** -/
def members (r : Request) : List (String × Json) :=
  [("query", .text r.query),
    ("defaultGraph", .text r.defaultGraph),
    ("next", Json.optional .text r.next),
    ("quota", Json.optional .natural r.quota),
    ("forceOrder", .bool r.forceOrder),
    ("earlyPruning", .bool r.earlyPruning),
    ("stateless", .bool r.stateless),
    ("maxLimit", Json.optional .natural r.maxLimit)] ++
    (r.topkStrategy.map fun s => ("topkStrategy", Json.text s)).toList

lemma json_eq_object (r : Request) : r.json = .object r.members := rfl

lemma nodup_members (r : Request) : (r.members.map (·.1)).Nodup := by
  cases h : r.topkStrategy <;> simp [members, h]

/-- A selector is there exactly if the request has one. -/
lemma lookup_selector (r : Request) :
    r.members.lookup "topkStrategy" = r.topkStrategy.map .text := by
  cases h : r.topkStrategy <;> simp [members, h, List.lookup_cons]

lemma given_document (r : Request) :
    Given.ofDocument fields (document r.json) = .ok (Given.ofValues r.members) := by
  rw [json_eq_object]
  refine Given.ofDocument_object r.nodup_members ?_
  have hselector : ∀ s, (Reader.text.optional (document (.text s))) = .ok (some s) := fun _ => rfl
  cases h : r.topkStrategy <;>
    simp [members, h, fields, Field.reads, Except.map, hselector]

/-- **A request is read back from its document.** -/
theorem ofDocument_document (r : Request) : ofDocument (document r.json) = .ok r := by
  have hselector : ∀ s, (Reader.text.optional (document (.text s))) = .ok (some s) := fun _ => rfl
  have hgiven := r.given_document
  obtain ⟨query, graph, next, quota, forceOrder, earlyPruning, stateless, maxLimit, selector⟩ := r
  rw [ofDocument, hgiven]
  cases selector <;>
    simp [members, Given.required_ofValues, Given.possible_ofValues, List.lookup_cons, bind,
      Except.bind, pure, Except.pure, hselector]

variable {r : Request}

lemma all_isInteger_json (h : r.Fits) : r.json.all isInteger = true := by
  rw [json_eq_object, Json.all, Json.allMembers_iff]
  have hselector : ∀ m ∈ (r.topkStrategy.map fun s => ("topkStrategy", Json.text s)).toList,
      m.2.all isInteger = true := by
    cases r.topkStrategy <;> simp [Json.all, isInteger, Json.isWord]
  simp only [members, List.forall_mem_append, List.forall_mem_cons]
  exact ⟨⟨rfl, rfl, all_isInteger_optional_text _, all_isInteger_optional_natural h.quota, rfl, rfl,
    rfl, all_isInteger_optional_natural h.maxLimit, List.forall_mem_nil _⟩, hselector⟩

/-- **A request is read back from its text.** -/
theorem readWith_body (h : r.Fits) : readWith ofDocument r.body.toList = .ok r := by
  rw [body, Json.compact, String.toList_ofList, readWith_compactChars (all_isInteger_json h),
    ofDocument_document]

/-- A request has no brackets inside its own. -/
lemma depth_json (r : Request) : r.json.depth = 1 := by
  have htext : ∀ s? : Option String, (Json.optional .text s?).depth = 0 := by
    rintro (_ | s) <;> rfl
  have hnumber : ∀ n? : Option Nat, (Json.optional .natural n?).depth = 0 := by
    rintro (_ | n) <;> rfl
  cases h : r.topkStrategy <;>
    simp [json_eq_object, members, h, Json.depth, Json.depthMembers, htext, hnumber]

lemma isDistinct_json (r : Request) : r.json.isDistinct = true := by
  have htext : ∀ s? : Option String, (Json.optional .text s?).isDistinct = true := by
    rintro (_ | s) <;> rfl
  have hnumber : ∀ n? : Option Nat, (Json.optional .natural n?).isDistinct = true := by
    rintro (_ | n) <;> rfl
  rw [json_eq_object, Json.isDistinct_object]
  refine ⟨r.nodup_members, ?_⟩
  cases h : r.topkStrategy <;>
    simp [members, h, Json.isDistinct, htext, hnumber]

/-- **The object that the text of a request writes.** -/
theorem parse?_body (h : r.Fits) : Json.parse? r.body.toList = some (.object r.members) := by
  have hroom : r.json.depth ≤ Json.maxDepth := by
    rw [depth_json]
    decide
  have hvalue : Reader.value (document r.json) = .ok r.json := by
    rw [Reader.value, Json.json?_document, if_pos hroom]
    exact congrArg Except.ok (Json.collapse_of_isDistinct r.isDistinct_json)
  rw [Json.parse?, body, Json.compact, String.toList_ofList,
    readWith_compactChars (all_isInteger_json h), hvalue]
  rfl

end Request

/-! ## Options -/

namespace Options

/-- **Whether the numbers of options have 64 bits.** -/
structure Fits (o : Options) : Prop where
  /-- How many results are wanted. -/
  limit : FitsWord o.limit
  /-- How long one round may take. -/
  quota : FitsWord o.quota
  /-- How many results one round may give. -/
  maxLimit : FitsWord o.maxLimit

/-- **Options are read back from their document.** -/
theorem ofDocument_document (o : Options) : ofDocument (document o.json) = .ok o := by
  rw [ofDocument, json, Given.ofDocument_object (by simp)
    (by simp [fields, Field.reads, Except.map])]
  simp [Given.required_ofValues, Given.possible_ofValues, List.lookup_cons, bind, Except.bind, pure,
    Except.pure]

lemma all_isInteger_json {o : Options} (h : o.Fits) : o.json.all isInteger = true := by
  rw [json, Json.all, Json.allMembers_iff]
  simp only [List.forall_mem_cons]
  exact ⟨rfl, all_isInteger_optional_natural h.limit, all_isInteger_optional_natural h.quota,
    all_isInteger_optional_natural h.maxLimit, rfl, rfl, rfl, List.forall_mem_nil _⟩

end Options

/-! ## Ranking keys -/

@[simp] lemma Direction.ofDocument_document (d : Direction) :
    ofDocument (document (.text d.name)) = .ok d := by
  cases d <;> rfl

namespace RankingKey

/-- **A key is read back from its document.** -/
theorem ofDocument_document (key : RankingKey) : ofDocument (document key.json) = .ok key := by
  rw [ofDocument, json, Given.ofDocument_object (by simp) (by simp [Field.reads, Except.map])]
  simp [Given.required_ofValues, List.lookup_cons, bind, Except.bind, pure, Except.pure]

lemma all_isInteger_json (key : RankingKey) : key.json.all isInteger = true := rfl

end RankingKey

/-! ## All of them -/

/-- **Requests, options and keys are read back from their texts.** So no two requests have one text,
and a request says whether it has a selector, but always mentions the token and the bounds.

**Proof sketch.** A written value without doubles is read from its own document, so every reader is
checked on the members of its record. Two requests with one text are both what that text is read
as. -/
theorem Request.wire_round_trip :
    (∀ r : Request, r.Fits → readWith Request.ofDocument r.body.toList = .ok r ∧
      ∃ members, Json.parse? r.body.toList = some (.object members) ∧
        members.lookup "topkStrategy" = r.topkStrategy.map .text ∧
        members.lookup "next" = some (Json.optional .text r.next) ∧
        members.lookup "quota" = some (Json.optional .natural r.quota) ∧
        members.lookup "maxLimit" = some (Json.optional .natural r.maxLimit)) ∧
    (∀ r s : Request, r.Fits → s.Fits → r.body = s.body → r = s) ∧
    (∀ o : Options, o.Fits → readWith Options.ofDocument o.json.compact.toList = .ok o) ∧
    ∀ key : RankingKey, readWith RankingKey.ofDocument key.json.compact.toList = .ok key := by
  refine ⟨fun r h => ⟨readWith_body h, r.members, parse?_body h, r.lookup_selector, rfl, rfl, rfl⟩,
    ?_, ?_, ?_⟩
  · intro r s hr hs hbody
    have hread := readWith_body hr
    rw [hbody, readWith_body hs] at hread
    exact (Except.ok.inj hread).symm
  · intro o ho
    rw [Json.compact, String.toList_ofList, readWith_compactChars (Options.all_isInteger_json ho),
      Options.ofDocument_document]
  · intro key
    rw [Json.compact, String.toList_ofList, readWith_compactChars key.all_isInteger_json,
      RankingKey.ofDocument_document]

/-- A first request with a selector, a time of 64 bits and a text outside of the Latin alphabet, and
one that goes on without a selector. -/
theorem Request.wire_round_trip_of_two_rounds :
    let query := "α \"β\"\n😀"
    let first : Request :=
      ⟨query, "", none, some (2 ^ 64 - 1), false, true, true, none, some "s"⟩
    let second : Request := ⟨query, "", some "t\u0000", none, true, false, true, some 0, none⟩
    let options : Options := ⟨"g", some 3, none, some (2 ^ 64 - 1), true, false, true⟩
    let key : RankingKey := ⟨"x", .descending⟩
    readWith Request.ofDocument first.body.toList = .ok first ∧
      readWith Request.ofDocument second.body.toList = .ok second ∧
      first.body ≠ second.body ∧
      (∃ members, Json.parse? second.body.toList = some (.object members) ∧
        members.lookup "topkStrategy" = none ∧ members.lookup "quota" = some .null) ∧
      readWith Options.ofDocument options.json.compact.toList = .ok options ∧
      readWith RankingKey.ofDocument key.json.compact.toList = .ok key := by
  intro query first second options key
  have hmax : FitsWord (some (2 ^ 64 - 1)) := by
    rintro _ ⟨⟩
    decide
  have hnone : FitsWord none := nofun
  have hzero : FitsWord (some 0) := by
    rintro _ ⟨⟩
    decide
  have hlimit : FitsWord (some 3) := by
    rintro _ ⟨⟩
    decide
  have hfirst : first.Fits := ⟨hmax, hnone⟩
  have hsecond : second.Fits := ⟨hnone, hzero⟩
  have hoptions : options.Fits := ⟨hlimit, hnone, hmax⟩
  obtain ⟨hrequest, hdistinct, hread, hkey⟩ := Request.wire_round_trip
  obtain ⟨hback, members, hparse, hselector, -, hquota, -⟩ := hrequest second hsecond
  refine ⟨(hrequest first hfirst).1, hback, ?_, ⟨members, hparse, hselector, hquota⟩,
    hread options hoptions, hkey key⟩
  intro hbody
  exact absurd (congrArg Request.next (hdistinct _ _ hfirst hsecond hbody)) (by decide)

end PagedTopK
