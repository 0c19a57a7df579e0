import Mathlib.Data.Prod.Lex
import PagedTopK.Execution.Run
import PagedTopK.Proofs.Except
import PagedTopK.Proofs.Json.Grammar
import PagedTopK.Proofs.Solution

set_option autoImplicit false

/-!
# What a response must be

A response is checked completely before anything of it is used. What it writes is said of the value
as it stands in the text, where of repeated names the last value counts. What can be objected to it
is said without an order; the objection that is reported is the first one in the order of the
solutions, the token and the times.

## Main definitions

* `Response.Writes` — whether a value writes a response.
* `Response.Objection` — all that can be objected to a value.
* `ResponseError.place` — where an objection comes in the order of reports.
* `Response.Decides` — whether a check finds what is right, or else the first objection.

## Main results

* `Response.decides_ofJson` — the check of a whole value, put together from those of its parts.
* `Response.writes_filter` — members of other names are of no account.
* `Response.parse_decides` — what any text is read as.
-/

namespace PagedTopK

open Json (last? collapse)

/-! ## The order of reports -/

/-- **Where an objection comes in the order of reports**: those to the whole value, those to the
solutions from the first row on, those to the token and those to the times. -/
def ResponseError.place : ResponseError → ℕ ×ₗ ℕ
  | notJson _ | notObject => toLex (0, 0)
  | noBindings | bindingsNotArray => toLex (1, 0)
  | bindingNotObject index | termNotText index _ => toLex (1, index)
  | noNext | nextNotText => toLex (2, 0)
  | statsNotObject => toLex (3, 0)
  | statNotNumber name => toLex (3, if name = "resuming_time" then 0 else 1)

namespace Response

/-! ## What a value writes -/

/-- **A row writes a solution** if it is an object in which the term of every name counts. -/
inductive IsRow : Json → Solution → Prop where
  /-- An object. -/
  | mk {members : List (String × Json)} {s : Solution}
    (h : ∀ name, last? members name = (s.get? name).map .text) : IsRow (.object members) s

/-- **A time**; missing or null it is zero. -/
inductive IsTime : Option Json → Binary64 → Prop where
  /-- There is no time. -/
  | missing : IsTime none .zero
  /-- The time is null. -/
  | null : IsTime (some .null) .zero
  /-- An integer is rounded to a double. -/
  | integer (i : Int) : IsTime (some (.integer i)) (Binary64.ofInt i)
  /-- A double. -/
  | double (x : Binary64) : IsTime (some (.double x)) x

/-- **The reported times**; missing or null they are zero. -/
inductive IsStats : Option Json → ServiceStats → Prop where
  /-- There are no times. -/
  | missing : IsStats none .none
  /-- The times are null. -/
  | null : IsStats (some .null) .none
  /-- An object with the times. -/
  | object {members : List (String × Json)} {stats : ServiceStats}
    (hresuming : IsTime (last? members "resuming_time") stats.resumingTime)
    (hsaving : IsTime (last? members "saving_time") stats.savingTime) :
    IsStats (some (.object members)) stats

/-- **A value writes a response** if it is an object with the rows, the token and the times. -/
inductive Writes : Json → Response → Prop where
  /-- An object. -/
  | mk {members : List (String × Json)} {rows : List Json} {r : Response}
    (hrows : last? members "bindings" = some (.array rows))
    (hbindings : List.Forall₂ IsRow rows r.bindings)
    (hnext : last? members "next" = some (Json.optional .text r.next))
    (hstats : IsStats (last? members "stats") r.stats) : Writes (.object members) r

/-! ## What can be objected -/

/-- **What can be objected to a row.** -/
inductive RowObjection (index : Nat) : Json → ResponseError → Prop where
  /-- It is not an object. -/
  | notObject {v : Json} (h : ∀ members, v ≠ .object members) :
    RowObjection index v (.bindingNotObject index)
  /-- A value in it is not a text. -/
  | notText {members : List (String × Json)} {name : String} {v : Json}
    (h : last? members name = some v) (hv : ∀ s, v ≠ .text s) :
    RowObjection index (.object members) (.termNotText index name)

/-- **What can be objected to the solutions.** -/
inductive BindingsObjection : Option Json → ResponseError → Prop where
  /-- They are missing. -/
  | missing : BindingsObjection none .noBindings
  /-- They are not an array. -/
  | notArray {v : Json} (h : ∀ rows, v ≠ .array rows) : BindingsObjection (some v) .bindingsNotArray
  /-- Something is wrong with a row. -/
  | row {rows : List Json} {index : Nat} {v : Json} {e : ResponseError}
    (hv : rows[index]? = some v) (h : RowObjection index v e) :
    BindingsObjection (some (.array rows)) e

/-- **What can be objected to the token.** -/
inductive NextObjection : Option Json → ResponseError → Prop where
  /-- It is missing. -/
  | missing : NextObjection none .noNext
  /-- It is neither null nor a text. -/
  | notText {v : Json} (h : ∀ token, v ≠ Json.optional .text token) :
    NextObjection (some v) .nextNotText

/-- **What can be objected to a time.** -/
inductive TimeObjection (name : String) : Option Json → ResponseError → Prop where
  /-- It is neither null nor a number. -/
  | mk {v : Json} (h : ∀ x, ¬ IsTime (some v) x) : TimeObjection name (some v) (.statNotNumber name)

/-- **What can be objected to the times.** -/
inductive StatsObjection : Option Json → ResponseError → Prop where
  /-- They are neither null nor an object. -/
  | notObject {v : Json} (hnull : v ≠ .null) (h : ∀ members, v ≠ .object members) :
    StatsObjection (some v) .statsNotObject
  /-- Something is wrong with the first time. -/
  | resuming {members : List (String × Json)} {e : ResponseError}
    (h : TimeObjection "resuming_time" (last? members "resuming_time") e) :
    StatsObjection (some (.object members)) e
  /-- Something is wrong with the second time. -/
  | saving {members : List (String × Json)} {e : ResponseError}
    (h : TimeObjection "saving_time" (last? members "saving_time") e) :
    StatsObjection (some (.object members)) e

/-- **All that can be objected to a value.** -/
inductive Objection : Json → ResponseError → Prop where
  /-- It is not an object. -/
  | notObject {v : Json} (h : ∀ members, v ≠ .object members) : Objection v .notObject
  /-- Something is wrong with the solutions. -/
  | bindings {members : List (String × Json)} {e : ResponseError}
    (h : BindingsObjection (last? members "bindings") e) : Objection (.object members) e
  /-- Something is wrong with the token. -/
  | next {members : List (String × Json)} {e : ResponseError}
    (h : NextObjection (last? members "next") e) : Objection (.object members) e
  /-- Something is wrong with the times. -/
  | stats {members : List (String × Json)} {e : ResponseError}
    (h : StatsObjection (last? members "stats") e) : Objection (.object members) e

/-! ## Checks -/

/-- **A check decides** if it finds the one thing that is right when there is no objection, and
otherwise the first objection when nothing is right. -/
inductive Decides {α : Type} (right : α → Prop) (objection : ResponseError → Prop) :
    Except ResponseError α → Prop where
  /-- There is no objection. -/
  | ok {a : α} (h : ∀ b, right b ↔ b = a) (hnone : ∀ e, ¬ objection e) :
    Decides right objection (.ok a)
  /-- The first objection. -/
  | error {e : ResponseError} (hwrong : ∀ a, ¬ right a) (h : objection e)
    (hfirst : ∀ other, objection other → e.place ≤ other.place) :
    Decides right objection (.error e)

namespace Decides

variable {α β : Type} {right right' : α → Prop} {objection objection' : ResponseError → Prop}
  {x : Except ResponseError α}

/-- What is found is right, and there is nothing else that is right. -/
lemma eq_ok_iff (h : Decides right objection x) {a : α} : x = .ok a ↔ right a := by
  cases h with
  | @ok b h _ => rw [h a, Except.ok.injEq, eq_comm]
  | error hwrong => simp [hwrong a]

/-- What is reported is the first objection. -/
lemma of_eq_error (h : Decides right objection x) {e : ResponseError} (hx : x = .error e) :
    objection e ∧ ∀ other, objection other → e.place ≤ other.place := by
  cases h with
  | ok => cases hx
  | error _ h hfirst =>
    cases hx
    exact ⟨h, hfirst⟩

/-- Something is right exactly if there is no objection. -/
lemma exists_iff (h : Decides right objection x) : (∃ a, right a) ↔ ∀ e, ¬ objection e := by
  cases h with
  | @ok a h hnone => exact ⟨fun _ => hnone, fun _ => ⟨a, (h a).2 rfl⟩⟩
  | @error e hwrong h _ =>
    exact ⟨fun ⟨a, ha⟩ => absurd ha (hwrong a), fun hnone => absurd h (hnone e)⟩

/-- Other words for what is right and what can be objected. -/
lemma congr (h : Decides right objection x) (hright : ∀ a, right' a ↔ right a)
    (hobjection : ∀ e, objection' e ↔ objection e) : Decides right' objection' x := by
  have hr : right' = right := funext fun a => propext (hright a)
  have ho : objection' = objection := funext fun e => propext (hobjection e)
  rw [hr, ho]
  exact h

/-- The only objection is reported. -/
lemma sole {e : ResponseError} (hwrong : ∀ a, ¬ right a) (h : objection e)
    (honly : ∀ other, objection other → other = e) : Decides right objection (.error e) :=
  .error hwrong h fun other hother => honly other hother ▸ le_refl _

/-- **One check after the other**: what can be objected to the first part comes before what can be
objected to the second one. -/
lemma bind {f : α → Except ResponseError β} {rightThen : α → β → Prop}
    (hx : Decides right objection x) (hf : ∀ a, Decides (rightThen a) objection' (f a))
    (hplace : ∀ e e', objection e → objection' e' → e.place ≤ e'.place) :
    Decides (fun b => ∃ a, right a ∧ rightThen a b) (fun e => objection e ∨ objection' e)
      (x >>= f) := by
  cases hx with
  | @error e hwrong h hfirst =>
    refine .error (fun b ⟨a, ha, _⟩ => hwrong a ha) (.inl h) ?_
    rintro other (hother | hother)
    · exact hfirst other hother
    · exact hplace e other h hother
  | @ok a h hnone =>
    have hright : ∀ b, (∃ a', right a' ∧ rightThen a' b) ↔ rightThen a b := fun b =>
      ⟨fun ⟨a', ha, hb⟩ => (h a').1 ha ▸ hb, fun hb => ⟨a, (h a).2 rfl, hb⟩⟩
    exact (hf a).congr hright fun e => or_iff_right (hnone e)

/-- What is found is put into another form. -/
lemma map {f : α → β} {rightThen : β → Prop} (hx : Decides right objection x)
    (hf : ∀ b, rightThen b ↔ ∃ a, right a ∧ b = f a) :
    Decides rightThen objection (x >>= fun a => .ok (f a)) := by
  have hpure : ∀ a, Decides (· = f a) (fun _ => False) (.ok (f a) : Except ResponseError β) :=
    fun a => .ok (fun _ => Iff.rfl) fun _ => not_false
  exact (hx.bind hpure fun _ _ _ => False.elim).congr hf fun e => (or_iff_left not_false).symm

end Decides

/-! ## The checks of the parts -/

lemma decides_readTerms (index : Nat) (members : List (String × Json)) :
    Decides (fun bs => members = bs.map fun b => (b.1, .text b.2))
      (fun e => ∃ m ∈ members, (∀ s, m.2 ≠ .text s) ∧ e = .termNotText index m.1)
      (readTerms index members) := by
  induction members with
  | nil => exact .ok (fun bs => by rw [eq_comm, List.map_eq_nil_iff]) (by simp)
  | cons m rest ih =>
    obtain ⟨name, v⟩ := m
    by_cases hv : ∃ term, v = .text term
    · obtain ⟨term, rfl⟩ := hv
      have hstep : readTerms index ((name, .text term) :: rest) =
          readTerms index rest >>= fun bs => .ok ((name, term) :: bs) := by
        rw [readTerms]
        cases readTerms index rest <;> rfl
      rw [hstep]
      refine (ih.map fun bs => ⟨fun h => ?_, ?_⟩).congr (fun _ => Iff.rfl) (by simp)
      · rcases bs with _ | ⟨⟨own, own'⟩, bs⟩
        · cases h
        · simp only [List.map_cons, List.cons.injEq, Prod.mk.injEq, Json.text.injEq] at h
          obtain ⟨⟨rfl, rfl⟩, hrest⟩ := h
          exact ⟨bs, hrest, rfl⟩
      · rintro ⟨bs, rfl, rfl⟩
        rfl
    · have hstep : readTerms index ((name, v) :: rest) = .error (.termNotText index name) := by
        cases v <;> first | rfl | exact absurd ⟨_, rfl⟩ hv
      rw [hstep]
      refine .error ?_ ⟨(name, v), List.mem_cons_self, fun s h => hv ⟨s, h⟩, rfl⟩ ?_
      · rintro (_ | ⟨b, bs⟩) h
        · cases h
        · cases h
          exact hv ⟨_, rfl⟩
      · rintro _ ⟨m, -, -, rfl⟩
        exact le_refl _

/-- The solution of one row. -/
def readRow (index : Nat) : Json → Except ResponseError Solution
  | .object members => readTerms index members >>= fun bs => .ok (Solution.ofList bs)
  | _ => .error (.bindingNotObject index)

lemma RowObjection.place_eq {index : Nat} {v : Json} {e : ResponseError}
    (h : RowObjection index v e) : e.place = toLex (1, index) := by
  cases h <;> rfl

lemma map_collapse_eq_map_text {v? : Option Json} {s? : Option String} :
    v?.map collapse = s?.map .text ↔ v? = s?.map .text := by
  cases v? with
  | none => cases s? <;> simp
  | some v => cases s? <;> cases v <;> simp [collapse]

/-- **A row is checked** as its members with the values that count.

**Proof sketch.** The names of the members are distinct, so that a term is found for a name exactly
where a text counts. -/
lemma decides_readRow (index : Nat) (v : Json) :
    Decides (IsRow v) (RowObjection index v) (readRow index v.collapse) := by
  cases v with
  | object row =>
    have hfound := Json.lookup_merged row
    have hnodup := Json.nodup_names_mergeMembers (Json.collapseMembers row)
    rw [collapse, readRow]
    generalize Json.mergeMembers (Json.collapseMembers row) = members at hfound hnodup ⊢
    have hterms := decides_readTerms index members
    cases hread : readTerms index members with
    | ok bs =>
      obtain rfl := hterms.eq_ok_iff.1 hread
      rw [List.map_map] at hnodup
      have hrow : ∀ name, last? row name = ((Solution.ofList bs).get? name).map .text := by
        intro name
        rw [← map_collapse_eq_map_text, ← hfound, lookup_map, Solution.get?_ofList,
          lookup_reverse hnodup]
      refine .ok (fun s => ⟨?_, ?_⟩) ?_
      · rintro ⟨h⟩
        refine Solution.ext_get? fun name => Option.map_injective (fun _ _ => Json.text.inj) ?_
        rw [← h, hrow]
      · rintro rfl
        exact .mk hrow
      · rintro _ (⟨h⟩ | ⟨h, hv⟩)
        · exact h row rfl
        · rw [hrow, Option.map_eq_some_iff] at h
          obtain ⟨term, -, hterm⟩ := h
          exact hv term hterm.symm
    | error e =>
      obtain ⟨⟨m, hm, htext, rfl⟩, -⟩ := hterms.of_eq_error hread
      have hlast : (last? row m.1).map collapse = some m.2 := by
        rw [← hfound, lookup_eq_some_iff hnodup]
        exact hm
      obtain ⟨v, hv, hcollapse⟩ := Option.map_eq_some_iff.1 hlast
      have hvalue : ∀ s, v ≠ .text s := by
        rintro s rfl
        exact htext s hcollapse.symm
      refine .error ?_ (.notText hv hvalue) ?_
      · rintro s ⟨h⟩
        rw [h, Option.map_eq_some_iff] at hv
        obtain ⟨term, -, hterm⟩ := hv
        exact hvalue term hterm.symm
      · intro other hother
        rw [hother.place_eq]
        exact le_refl _
  | null | bool | integer | double | text | array =>
    exact .sole (by rintro _ ⟨⟩) (.notObject (by rintro _ ⟨⟩)) (by rintro _ ⟨⟩; rfl)

lemma readBindings_cons (index : Nat) (v : Json) (rest : List Json) :
    readBindings index (v :: rest) = readRow index v >>= fun s =>
      readBindings (index + 1) rest >>= fun others => .ok (s :: others) := by
  cases v with
  | object members =>
    rw [readBindings, readRow]
    cases readTerms index members <;> rfl
  | null | bool | integer | double | text | array => rfl

lemma decides_readBindings (index : Nat) (rows : List Json) :
    Decides (List.Forall₂ IsRow rows)
      (fun e => ∃ (i : Nat) (v : Json), rows[i]? = some v ∧ RowObjection (index + i) v e)
      (readBindings index (rows.map collapse)) := by
  induction rows generalizing index with
  | nil => exact .ok (fun _ => List.forall₂_nil_left_iff) (by simp)
  | cons v rest ih =>
    rw [List.map_cons, readBindings_cons]
    refine ((decides_readRow index v).bind (fun s => (ih (index + 1)).map fun _ => Iff.rfl)
      ?_).congr (fun bs => ?_) ?_
    · rintro e e' he ⟨i, w, -, he'⟩
      rw [he.place_eq, he'.place_eq, Prod.Lex.toLex_le_toLex]
      exact .inr ⟨rfl, by omega⟩
    · simp only [List.forall₂_cons_left_iff, exists_and_left]
    · intro e
      have hindex : ∀ i, index + (i + 1) = index + 1 + i := fun i => by omega
      constructor
      · rintro ⟨_ | i, w, hw, he⟩
        · cases hw
          exact .inl he
        · exact .inr ⟨i, w, hw, hindex i ▸ he⟩
      · rintro (he | ⟨i, w, hw, he⟩)
        · exact ⟨0, v, rfl, he⟩
        · exact ⟨i + 1, w, hw, hindex i ▸ he⟩

/-! ## The checks of all parts in order -/

variable {v? : Option Json}

/-- The solutions of a page. -/
def readPage : Option Json → Except ResponseError (List Solution)
  | some (.array rows) => readBindings 0 rows
  | some _ => .error .bindingsNotArray
  | none => .error .noBindings

/-- The token. -/
def readNext : Option Json → Except ResponseError (Option String)
  | some .null => .ok none
  | some (.text token) => .ok (some token)
  | some _ => .error .nextNotText
  | none => .error .noNext

/-- The times. -/
def readStats : Option Json → Except ResponseError ServiceStats
  | none | some .null => .ok ServiceStats.none
  | some (.object stats) => readTime stats "resuming_time" >>= fun resumingTime =>
      readTime stats "saving_time" >>= fun savingTime => .ok ⟨resumingTime, savingTime⟩
  | some _ => .error .statsNotObject

lemma ofJson_object (members : List (String × Json)) :
    ofJson (.object members) = readPage (members.lookup "bindings") >>= fun bindings =>
      readNext (members.lookup "next") >>= fun next =>
        readStats (members.lookup "stats") >>= fun stats => .ok ⟨bindings, next, stats⟩ := by
  rw [ofJson]
  generalize members.lookup "bindings" = bindings?, members.lookup "next" = next?,
    members.lookup "stats" = stats?
  rcases bindings? with _ | v
  · rfl
  cases v with
  | array rows =>
    dsimp only [readPage]
    cases readBindings 0 rows with
    | error e => rfl
    | ok bindings =>
      rcases next? with _ | w
      · rfl
      cases w with
      | null | text =>
        rcases stats? with _ | u
        · rfl
        cases u with
        | object stats =>
          dsimp only [readStats]
          cases readTime stats "resuming_time" with
          | error e => rfl
          | ok => cases readTime stats "saving_time" <;> rfl
        | null | bool | integer | double | text | array => rfl
      | bool | integer | double | array | object => rfl
  | null | bool | integer | double | text | object => rfl

lemma decides_readPage (v? : Option Json) :
    Decides (fun bs => ∃ rows, v? = some (.array rows) ∧ List.Forall₂ IsRow rows bs)
      (BindingsObjection v?) (readPage (v?.map collapse)) := by
  rcases v? with _ | v
  · exact .sole (by rintro _ h; simp at h) .missing (by rintro _ ⟨⟩; rfl)
  cases v with
  | array rows =>
    rw [Option.map_some, collapse, Json.collapseItems_eq_map]
    refine (decides_readBindings 0 rows).congr (by simp) fun e => ⟨?_, ?_⟩
    · rintro (_ | h | ⟨hv, he⟩)
      · exact absurd rfl (h rows)
      · exact ⟨_, _, hv, by rwa [Nat.zero_add]⟩
    · rintro ⟨i, v, hv, he⟩
      rw [Nat.zero_add] at he
      exact .row hv he
  | null | bool | integer | double | text | object =>
    exact .sole (by rintro _ ⟨_, ⟨⟩, _⟩) (.notArray (by rintro _ ⟨⟩)) (by rintro _ ⟨⟩; rfl)

lemma decides_readNext (v? : Option Json) :
    Decides (fun next => v? = some (Json.optional .text next)) (NextObjection v?)
      (readNext (v?.map collapse)) := by
  rcases v? with _ | v
  · exact .sole (by rintro _ h; simp at h) .missing (by rintro _ ⟨⟩; rfl)
  cases v with
  | null =>
    refine .ok (fun next => ?_) ?_
    · cases next <;> simp [Json.optional]
    · rintro _ (_ | h)
      exact h none rfl
  | text token =>
    refine .ok (fun next => ?_) ?_
    · cases next <;> simp [Json.optional, eq_comm]
    · rintro _ (_ | h)
      exact h (some token) rfl
  | bool | integer | double | array | object =>
    refine .sole ?_ (.notText ?_) (by rintro _ ⟨⟩; rfl) <;> rintro (_ | _) ⟨⟩

/-- A time that is one gives no objection. -/
lemma decides_time {name : String} {x : Binary64} (h : IsTime v? x)
    (hunique : ∀ y, IsTime v? y → y = x) :
    Decides (IsTime v?) (TimeObjection name v?) (.ok x) := by
  refine .ok (fun y => ⟨hunique y, fun hy => hy ▸ h⟩) ?_
  rintro _ ⟨hnone⟩
  exact hnone x h

lemma decides_readTime (members : List (String × Json)) (name : String) :
    Decides (IsTime (last? members name)) (TimeObjection name (last? members name))
      (readTime (Json.mergeMembers (Json.collapseMembers members)) name) := by
  rw [readTime, Json.lookup_merged]
  rcases last? members name with _ | v
  · exact decides_time .missing (by rintro _ ⟨⟩; rfl)
  cases v with
  | null => exact decides_time .null (by rintro _ ⟨⟩; rfl)
  | integer i => exact decides_time (.integer i) (by rintro _ ⟨⟩; rfl)
  | double x => exact decides_time (.double x) (by rintro _ ⟨⟩; rfl)
  | bool | text | array | object =>
    exact .sole (by rintro _ ⟨⟩) (.mk (by rintro _ ⟨⟩)) (by rintro _ ⟨⟩; rfl)

lemma TimeObjection.eq {name : String} {e : ResponseError} (h : TimeObjection name v? e) :
    e = .statNotNumber name := by
  cases h
  rfl

lemma decides_readStats (v? : Option Json) :
    Decides (IsStats v?) (StatsObjection v?) (readStats (v?.map collapse)) := by
  rcases v? with _ | v
  · exact .ok (fun stats => ⟨by rintro ⟨⟩; rfl, by rintro rfl; exact .missing⟩) (by rintro _ ⟨⟩)
  cases v with
  | null =>
    refine .ok (fun stats => ⟨by rintro ⟨⟩; rfl, by rintro rfl; exact .null⟩) ?_
    rintro _ ⟨hnull⟩
    exact hnull rfl
  | object stats =>
    rw [Option.map_some, collapse, readStats]
    have hsecond : ∀ resuming, Decides _ _ _ := fun resuming =>
      (decides_readTime stats "saving_time").map (f := ServiceStats.mk resuming) fun _ => Iff.rfl
    refine ((decides_readTime stats "resuming_time").bind hsecond ?_).congr
      (fun times => ⟨?_, ?_⟩) fun e => ⟨?_, ?_⟩
    · intro e e' he he'
      rw [he.eq, he'.eq]
      decide
    · rintro (_ | _ | ⟨hresuming, hsaving⟩)
      exact ⟨_, hresuming, _, hsaving, rfl⟩
    · rintro ⟨resuming, hresuming, saving, hsaving, rfl⟩
      exact .object hresuming hsaving
    · rintro (⟨hnull, h⟩ | h | h)
      · exact absurd rfl (h stats)
      · exact .inl h
      · exact .inr h
    · rintro (h | h)
      · exact .resuming h
      · exact .saving h
  | bool | integer | double | text | array =>
    exact .sole (by rintro _ ⟨⟩) (.notObject (by rintro ⟨⟩) (by rintro _ ⟨⟩)) (by rintro _ ⟨⟩; rfl)

/-! ## Whole values -/

lemma BindingsObjection.place_eq {e : ResponseError} (h : BindingsObjection v? e) :
    ∃ index, e.place = toLex (1, index) := by
  cases h with
  | missing | notArray => exact ⟨0, rfl⟩
  | row _ h => exact ⟨_, h.place_eq⟩

lemma NextObjection.place_eq {e : ResponseError} (h : NextObjection v? e) :
    e.place = toLex (2, 0) := by
  cases h <;> rfl

lemma StatsObjection.place_eq {e : ResponseError} (h : StatsObjection v? e) :
    ∃ index, e.place = toLex (3, index) := by
  cases h with
  | notObject => exact ⟨0, rfl⟩
  | resuming h | saving h =>
    rw [h.eq]
    exact ⟨_, rfl⟩

/-- **A value is checked** in the order of its parts. -/
theorem decides_ofJson (v : Json) : Decides (Writes v) (Objection v) (ofJson v.collapse) := by
  cases v with
  | object members =>
    have hstats : ∀ bindings next, Decides _ _ _ := fun bindings next =>
      (decides_readStats (last? members "stats")).map (f := Response.mk bindings next)
        fun _ => Iff.rfl
    have hnext : ∀ bindings, Decides _ _ _ := fun bindings =>
      (decides_readNext (last? members "next")).bind (hstats bindings) fun e e' he he' => by
        obtain ⟨index, hindex⟩ := he'.place_eq
        rw [he.place_eq, hindex, Prod.Lex.toLex_le_toLex]
        exact .inl (by simp)
    have hall := (decides_readPage (last? members "bindings")).bind hnext fun e e' he he' => by
      obtain ⟨index, hindex⟩ := he.place_eq
      rw [hindex]
      rcases he' with he' | he'
      · rw [he'.place_eq, Prod.Lex.toLex_le_toLex]
        exact .inl (by simp)
      · obtain ⟨index', hindex'⟩ := he'.place_eq
        rw [hindex', Prod.Lex.toLex_le_toLex]
        exact .inl (by simp)
    rw [collapse, ofJson_object, Json.lookup_merged, Json.lookup_merged, Json.lookup_merged]
    refine hall.congr (fun r => ⟨?_, ?_⟩) fun e => ⟨?_, ?_⟩
    · rintro ⟨hrows, hbindings, hnext, hstats⟩
      exact ⟨_, ⟨_, hrows, hbindings⟩, _, hnext, _, hstats, rfl⟩
    · rintro ⟨bindings, ⟨rows, hrows, hbindings⟩, next, hnext, stats, hstats, rfl⟩
      exact .mk hrows hbindings hnext hstats
    · rintro (h | h | h | h)
      · exact absurd rfl (h members)
      · exact .inl h
      · exact .inr (.inl h)
      · exact .inr (.inr h)
    · rintro (h | h | h)
      · exact .bindings h
      · exact .next h
      · exact .stats h
  | null | bool | integer | double | text | array =>
    exact .sole (by rintro _ ⟨⟩) (.notObject (by rintro _ ⟨⟩)) (by rintro _ ⟨⟩; rfl)

/-! ## Whole texts -/

/-- The value that a body writes, if it is not too deep to be read. -/
def Legible (body : String) (v : Json) : Prop :=
  v.Spells body.toList ∧ v.depth ≤ Json.maxDepth

/-- **What a body is read as.** -/
lemma parse_cases (body : String) :
    (∃ v, Legible body v ∧ parse body = ofJson v.collapse) ∨
      (∀ v, ¬ Legible body v) ∧ parse body = .error (.notJson .grammar) := by
  rcases Json.readWith_value body.toList with ⟨v, hv, hdepth, hread⟩ | ⟨hnone, hread⟩
  · exact .inl ⟨v, ⟨hv, hdepth⟩, by rw [parse, hread]⟩
  · exact .inr ⟨fun v hv => absurd hv.2 (Nat.not_le_of_lt (hnone v hv.1)), by rw [parse, hread]⟩

/-- **Members of other names are of no account.** -/
lemma writes_filter {members : List (String × Json)} {r : Response} :
    Writes (.object (members.filter fun m => m.1 ∈ ["bindings", "next", "stats"])) r ↔
      Writes (.object members) r := by
  have hlast : ∀ name ∈ ["bindings", "next", "stats"],
      last? (members.filter fun m => m.1 ∈ ["bindings", "next", "stats"]) name =
        last? members name := by
    intro name hname
    rw [last?, ← List.filter_reverse,
      lookup_filter (fun name => decide (name ∈ ["bindings", "next", "stats"])),
      if_pos (decide_eq_true hname), last?]
  have hbindings := hlast "bindings" (by simp)
  have hnext := hlast "next" (by simp)
  have hstats := hlast "stats" (by simp)
  constructor
  · rintro ⟨h, hrows, h', h''⟩
    exact .mk (hbindings ▸ h) hrows (hnext ▸ h') (hstats ▸ h'')
  · rintro ⟨h, hrows, h', h''⟩
    exact .mk (hbindings ▸ h) hrows (hnext ▸ h') (hstats ▸ h'')

/-- **A body is checked completely before anything of it is used.** It is accepted exactly if it
writes a response; otherwise the first objection is reported, and it ends the execution.

**Proof sketch.** Every part is decided by its own check (`Decides`), and the parts one after the
other (`Decides.bind`), as what can be objected to a part comes before what can be objected to the
next one. -/
theorem parse_decides (body : String) :
    (∀ r, parse body = .ok r ↔ ∃ v, Legible body v ∧ Writes v r) ∧
    (∀ e, parse body = .error e →
      (e = .notJson .grammar ∧ ∀ v, ¬ Legible body v) ∨
        ∃ v, Legible body v ∧ Objection v e ∧
          ∀ other, Objection v other → e.place ≤ other.place) ∧
    (∀ v, Legible body v → ((∃ r, Writes v r) ↔ ∀ e, ¬ Objection v e)) ∧
    (∀ members r, Writes (.object (members.filter fun m => m.1 ∈ ["bindings", "next", "stats"])) r ↔
      Writes (.object members) r) ∧
    ∀ e, parse body = .error e → ∀ state metrics request later,
      Execution.rounds state metrics request (.ok body :: later) =
        ([request], .error (.protocol (.response e))) := by
  refine ⟨fun r => ?_, fun e he => ?_, fun v _ => (decides_ofJson v).exists_iff,
    fun _ _ => writes_filter, fun e he state metrics request later => ?_⟩
  · rcases parse_cases body with ⟨v, hv, hparse⟩ | ⟨hnone, hparse⟩
    · rw [hparse, (decides_ofJson v).eq_ok_iff]
      refine ⟨fun h => ⟨v, hv, h⟩, ?_⟩
      rintro ⟨w, hw, h⟩
      exact hv.1.unique hw.1 ▸ h
    · rw [hparse]
      refine ⟨by rintro ⟨⟩, ?_⟩
      rintro ⟨v, hv, -⟩
      exact absurd hv (hnone v)
  · rcases parse_cases body with ⟨v, hv, hparse⟩ | ⟨hnone, hparse⟩
    · obtain ⟨h, hfirst⟩ := (decides_ofJson v).of_eq_error (hparse ▸ he)
      exact .inr ⟨v, hv, h, hfirst⟩
    · exact .inl ⟨(Except.error.inj (hparse ▸ he)).symm, hnone⟩
  · rw [Execution.rounds, he]

/-- A name that is given twice, the first time with a number; and a number in the second row of a
page without a token. -/
theorem parse_decides_of_two_pages :
    let good := "\x7b\"bindings\":[\x7b\"x\":1,\"x\":\"é\"\x7d],\"next\":\"t\",\"more\":0\x7d"
    let bad := "\x7b\"bindings\":[\x7b\x7d,\x7b\"x\":1\x7d],\"stats\":7\x7d"
    (∃ v r, Legible good v ∧ Writes v r ∧ r.next = some "t") ∧
      ∃ v, Legible bad v ∧ Objection v (.termNotText 1 "x") ∧
        ∀ other, Objection v other → toLex (1, 1) ≤ other.place := by
  intro good bad
  have hgood : (parse good).toOption.map (·.next) = some (some "t") := by decide +kernel
  have hbad : parse bad = .error (.termNotText 1 "x") := by decide +kernel
  obtain ⟨r, hr, hnext⟩ := exists_of_toOption_map hgood
  obtain ⟨v, hv, hwrites⟩ := ((parse_decides good).1 r).1 hr
  refine ⟨⟨v, r, hv, hwrites, hnext⟩, ?_⟩
  rcases (parse_decides bad).2.1 _ hbad with ⟨h, -⟩ | h
  · cases h
  · exact h

/-- Arrays inside one another. -/
def nested : Nat → Json
  | 0 => .array []
  | n + 1 => .array [nested n]

lemma depth_nested (n : Nat) : (nested n).depth = n + 1 := by
  induction n with
  | zero => rfl
  | succ n ih => rw [nested, Json.depth, Json.depthItems, Json.depthItems, ih, Nat.max_zero]

lemma all_nested (n : Nat) : (nested n).all Json.isInteger = true := by
  induction n with
  | zero => rfl
  | succ n ih => rw [nested, Json.all, Json.allItems, Json.allItems, ih, Bool.and_self]

/-- A page without solutions, and a member of another name with one bracket too many. -/
def deepPage : Json :=
  .object [("bindings", .array []), ("next", .null), ("x", nested 126)]

/-- **An object with all parts of a response may be too deep to be read**, even in a member of
another name. -/
theorem parse_deepPage :
    deepPage.Spells deepPage.compact.toList ∧ Writes deepPage ⟨[], none, .none⟩ ∧
      parse deepPage.compact = .error (.notJson .grammar) := by
  have hinteger : deepPage.all Json.isInteger = true := by
    rw [deepPage, Json.all, Json.allMembers_iff]
    simp only [List.forall_mem_cons]
    exact ⟨rfl, rfl, all_nested 126, List.forall_mem_nil _⟩
  have hdepth : deepPage.depth = 128 := by
    rw [deepPage, Json.depth]
    simp only [Json.depthMembers, depth_nested]
    rfl
  have hspells : deepPage.Spells deepPage.compact.toList := by
    rw [← Json.readText_eq_document_iff, Json.compact, String.toList_ofList,
      Json.readText_compactChars (Json.all_isWord_of_isInteger hinteger),
      Json.rewritten_of_isInteger hinteger]
  refine ⟨hspells, .mk rfl .nil rfl .missing, ?_⟩
  rcases parse_cases deepPage.compact with ⟨v, hv, -⟩ | ⟨-, hparse⟩
  · have hlegible := hv.2
    rw [hv.1.unique hspells, hdepth] at hlegible
    exact absurd hlegible (by decide)
  · exact hparse

end Response

end PagedTopK
