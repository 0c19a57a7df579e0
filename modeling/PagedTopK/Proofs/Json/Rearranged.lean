import PagedTopK.Encoding.Utf8
import PagedTopK.Proofs.Json.Grammar

set_option autoImplicit false

/-!
# Members in another order

Objects that have the same members in another order are written with the same tokens, in another
order. So neither text nor token is longer than the other.

## Main definitions

* `Json.namedTokens` — the tokens of one member with its name.

## Main results

* `Json.perm_tokens_object` — the tokens of an object, in some order.
* `Json.perm_tokens_of_perm`, `Json.perm_tokens_of_member` — other members, or other values in them.
* `Json.length_bytes_of_perm` — how many bytes a text has.
-/

namespace PagedTopK.Json

variable {members others : List (String × Json)} {v w : Json}

/-- The tokens of one member with its name. -/
def namedTokens (m : String × Json) : List Token :=
  .scalar (.text m.1) :: .colon :: m.2.tokens

lemma emit_eq_tokens (v : Json) (rest : List Token) : emit v rest = v.tokens ++ rest := by
  rw [tokens, emit_eq, emit_eq, List.append_nil]

/-- The tokens of members are those of each of them, and the commas. -/
lemma perm_emitMembers (members : List (String × Json)) (rest : List Token) :
    (emitMembers members rest).Perm
      (members.flatMap namedTokens ++ (List.replicate (members.length - 1) .comma ++ rest)) := by
  cases members with
  | nil => simp [emitMembers]
  | cons m more =>
    simp only [emitMembers_cons, emit_eq_tokens, List.flatMap_cons, List.length_cons,
      Nat.add_sub_cancel, namedTokens, List.cons_append, List.append_assoc]
    refine .cons _ (.cons _ (.append_left _ ?_))
    induction more with
    | nil => simp
    | cons n more ih =>
      -- The comma before the member goes behind all members.
      have hcomma := (@List.perm_middle _ Token.comma (namedTokens n ++ more.flatMap namedTokens)
        (List.replicate more.length .comma ++ rest)).symm
      have hrest := (((ih.append_left n.2.tokens).cons Token.colon).cons
        (.scalar (.text n.1))).cons .comma
      simp only [namedTokens, List.cons_append, List.append_assoc] at hcomma
      simpa [namedTokens, List.replicate_succ] using hrest.trans hcomma

/-- **The tokens of an object**, in some order: those of each member, the commas and the braces. -/
lemma perm_tokens_object (members : List (String × Json)) :
    (object members).tokens.Perm (.openObject ::
      (members.flatMap namedTokens ++ (List.replicate (members.length - 1) .comma ++
        [.closeObject]))) := by
  rw [tokens, emit]
  exact (perm_emitMembers members _).cons _

/-- **Members in another order** have the same tokens. -/
lemma perm_tokens_of_perm (h : members.Perm others) :
    (object members).tokens.Perm (object others).tokens := by
  refine (perm_tokens_object members).trans (List.Perm.trans ?_ (perm_tokens_object others).symm)
  rw [h.length_eq]
  exact ((h.flatMap_right namedTokens).append_right _).cons _

/-- **Another value of the same tokens** may stand in the place of a member. -/
lemma perm_tokens_of_member (before after : List (String × Json)) (name : String)
    (h : v.tokens.Perm w.tokens) :
    (object (before ++ (name, v) :: after)).tokens.Perm
      (object (before ++ (name, w) :: after)).tokens := by
  have hlength : (before ++ (name, v) :: after).length = (before ++ (name, w) :: after).length := by
    simp
  have hmember : (namedTokens (name, v)).Perm (namedTokens (name, w)) := (h.cons _).cons _
  refine (perm_tokens_object _).trans (List.Perm.trans ?_ (perm_tokens_object _).symm)
  rw [hlength, List.flatMap_append, List.flatMap_append, List.flatMap_cons, List.flatMap_cons]
  exact (((hmember.append_right _).append_left _).append_right _).cons _

/-- **Texts of the same tokens** have the same number of bytes. -/
lemma length_bytes_of_perm (h : v.tokens.Perm w.tokens) :
    (Utf8.encode v.compactChars).length = (Utf8.encode w.compactChars).length := by
  have hchars : v.compactChars.Perm w.compactChars := h.flatMap_right Token.chars
  exact (hchars.flatMap_right String.utf8EncodeChar).length_eq

end PagedTopK.Json
