import PagedTopK.Plan.Reader
import PagedTopK.Proofs.Except
import PagedTopK.Proofs.Json.Document

set_option autoImplicit false

/-!
# What the readers of plans accept

The readers go through the members of an operator and keep what they have found. What they accept in
the end is said here without any order: which members of a name there are, and what each of them
must hold.

## Main definitions

* `Json.valuesOf` — the values of all members of one name.
* `Json.Found` — what a reader has found under a name that may come once.
* `PlanNode.Writes` — whether a value writes an operator.
* `Plan.Writes` — whether a value writes a plan.

## Main results

* `PlanNode.ofJson_eq_ok_iff` — what the reader of operators accepts.
* `Plan.ofDocument_eq_ok_iff` — what the reader of plans accepts.
-/

namespace PagedTopK

/-! ## Members of one name -/

namespace Json

/-- **The values of all members of one name**, in order. -/
def valuesOf (name : String) (members : Members) : List Json :=
  (members.filter fun m => m.1 = name).map (·.2)

/-- The members of all other names. -/
def without (name : String) (members : Members) : Members :=
  members.filter fun m => m.1 ≠ name

variable {name other : String} {value : Json} {members : Members}

@[simp] lemma valuesOf_nil : valuesOf name [] = [] := rfl

@[simp] lemma valuesOf_cons_self :
    valuesOf name ((name, value) :: members) = value :: valuesOf name members := by
  simp [valuesOf]

lemma valuesOf_cons_of_ne (h : other ≠ name) :
    valuesOf name ((other, value) :: members) = valuesOf name members := by
  simp [valuesOf, h]

lemma valuesOf_append (others : Members) :
    valuesOf name (members ++ others) = valuesOf name members ++ valuesOf name others := by
  simp [valuesOf]

lemma valuesOf_eq_nil_iff : valuesOf name members = [] ↔ name ∉ members.map (·.1) := by
  simp only [valuesOf, List.map_eq_nil_iff, List.filter_eq_nil_iff, decide_eq_true_eq,
    List.mem_map, not_exists, not_and]

lemma mem_of_mem_valuesOf (h : value ∈ valuesOf name members) : (name, value) ∈ members := by
  obtain ⟨⟨own, v⟩, hmem, rfl⟩ := List.mem_map.1 h
  rw [List.mem_filter, decide_eq_true_eq] at hmem
  exact hmem.2 ▸ hmem.1

lemma valuesOf_without (h : other ≠ name) : valuesOf name (without other members) =
    valuesOf name members := by
  unfold valuesOf without
  rw [List.filter_filter]
  congr 2
  funext m
  by_cases hm : m.1 = name
  · simp [hm, h.symm]
  · simp [hm]

lemma without_cons_self : without name ((name, value) :: members) = without name members := by
  simp [without]

lemma without_cons_of_ne (h : other ≠ name) :
    without name ((other, value) :: members) = (other, value) :: without name members := by
  simp [without, h]

/-- **What a reader has found under a name** that may come once: what it had found before, or what
the single member of that name holds, or what stands for a missing member. -/
inductive Found {α : Type} (read : Json → α → Prop) (missing : α → Prop) :
    Option α → List Json → α → Prop where
  /-- There is no such member, and there need not be one. -/
  | missing {a : α} (h : missing a) : Found read missing none [] a
  /-- The member came before. -/
  | before {a : α} : Found read missing (some a) [] a
  /-- There is one member. -/
  | read {v : Json} {a : α} (h : read v a) : Found read missing none [v] a

namespace Found

variable {α : Type} {read : Json → α → Prop} {missing : α → Prop} {v : Json} {rest : List Json}
  {a b : α}

lemma none_nil_iff : Found read missing none [] a ↔ missing a :=
  ⟨fun h => by cases h; assumption, .missing⟩

lemma some_nil_iff : Found read missing (some b) [] a ↔ a = b :=
  ⟨fun h => by cases h; rfl, fun h => h ▸ .before⟩

lemma none_cons_iff :
    Found read missing none (v :: rest) a ↔ ∃ b, read v b ∧ Found read missing (some b) rest a := by
  constructor
  · rintro ⟨⟩
    exact ⟨a, by assumption, .before⟩
  · rintro ⟨b, hb, ⟨⟩⟩
    exact .read hb

lemma not_some_cons : ¬ Found read missing (some b) (v :: rest) a := nofun

/-- Without a member that may be missing, there is one. -/
lemma none_iff (hmissing : ∀ a, ¬ missing a) {values : List Json} :
    Found read missing none values a ↔ ∃ v, values = [v] ∧ read v a := by
  constructor
  · rintro (h | _ | h)
    · exact absurd h (hmissing a)
    · exact ⟨_, rfl, h⟩
  · rintro ⟨v, rfl, h⟩
    exact .read h

end Found

end Json

open Json (valuesOf without Found Document document)

/-! ## Kinds -/

lemma Operator.ofMembers_eq_ok_iff {found : Option Operator} {members : Members} {op : Operator} :
    ofMembers found members = .ok op ↔
      Found (fun v op => ofJson v = .ok op) (fun _ => False) found (valuesOf "type" members) op := by
  induction members generalizing found with
  | nil =>
    cases found with
    | none => simp [ofMembers, Found.none_nil_iff]
    | some old => simp [ofMembers, Found.some_nil_iff, eq_comm]
  | cons m rest ih =>
    obtain ⟨name, value⟩ := m
    by_cases hname : name = "type"
    · subst hname
      rw [Json.valuesOf_cons_self, ofMembers.eq_def]
      simp only [if_true]
      cases found with
      | some old => simp [Found.not_some_cons]
      | none =>
        rw [Found.none_cons_iff]
        cases hvalue : ofJson value with
        | ok kind => simp [ih]
        | error e => simp
    · rw [Json.valuesOf_cons_of_ne hname, ← ih]
      cases found <;> rw [ofMembers.eq_def] <;> simp only [if_neg hname]

namespace PlanNode

/-! ## Operators from values -/

/-- What the source of a ranking operator may hold. -/
def SourceOf (v : Json) (source : Option PlanNode) : Prop :=
  v = .null ∧ source = none ∨ ∃ node, ofJson v = .ok node ∧ source = some node

lemma ofWrapper_eq_ok_iff {kind : WrapperKind} {found : Option PlanNode} {all members : Members}
    {node : PlanNode} :
    ofWrapper kind found all members = .ok node ↔
      ∃ source, node = wrapper kind source (otherMembers ["type", "source"] all) ∧
        Found (fun v s => ofJson v = .ok s) (fun _ => False) found (valuesOf "source" members)
          source := by
  induction members generalizing found with
  | nil =>
    cases found with
    | none => simp [ofWrapper, Found.none_nil_iff]
    | some old => simp [ofWrapper, Found.some_nil_iff, eq_comm]
  | cons m rest ih =>
    obtain ⟨name, value⟩ := m
    by_cases hname : name = "source"
    · subst hname
      rw [Json.valuesOf_cons_self, ofWrapper.eq_def]
      simp only [if_true]
      cases found with
      | some old => simp [Found.not_some_cons]
      | none =>
        simp only [Found.none_cons_iff]
        cases hvalue : ofJson value with
        | ok source => simp [ih]
        | error e => simp
    · rw [Json.valuesOf_cons_of_ne hname, ← ih]
      rw [ofWrapper.eq_def]
      simp only [if_neg hname]

lemma ofRanking_eq_ok_iff {kind : RankingKind} {threshold : Option Members}
    {source : Option (Option PlanNode)} {all members : Members} {node : PlanNode} :
    ofRanking kind threshold source all members = .ok node ↔
      ∃ t s, node = ranking kind t s (otherMembers ["type", "threshold", "source"] all) ∧
        Found (fun v t => readThreshold v = .ok t) (· = []) threshold
          (valuesOf "threshold" members) t ∧
        Found SourceOf (· = none) source (valuesOf "source" members) s := by
  induction members generalizing threshold source with
  | nil =>
    cases threshold <;> cases source <;>
      simp [ofRanking, Found.none_nil_iff, Found.some_nil_iff, eq_comm]
  | cons m rest ih =>
    obtain ⟨name, value⟩ := m
    by_cases hthreshold : name = "threshold"
    · subst hthreshold
      rw [Json.valuesOf_cons_self, Json.valuesOf_cons_of_ne (by decide), ofRanking.eq_def]
      simp only [if_true]
      cases threshold with
      | some old => simp [Found.not_some_cons]
      | none =>
        simp only [Found.none_cons_iff]
        cases hvalue : readThreshold value with
        | ok t => simp [ih]
        | error e => simp
    by_cases hsource : name = "source"
    · subst hsource
      rw [Json.valuesOf_cons_self, Json.valuesOf_cons_of_ne (by decide), ofRanking.eq_def]
      simp only [if_neg hthreshold, if_true]
      cases source with
      | some old => simp [Found.not_some_cons]
      | none =>
        simp only [Found.none_cons_iff]
        split
        · next h => cases h
        · have hrefuse : ofJson .null = .error .wrongType := rfl
          simp [ih, SourceOf, hrefuse]
        · next value _ _ _ hnull =>
          have hne : value ≠ .null := hnull
          cases hvalue : ofJson value with
          | ok source => simp [ih, SourceOf, hne, hvalue]
          | error e => simp [SourceOf, hne, hvalue]
    · rw [Json.valuesOf_cons_of_ne hthreshold, Json.valuesOf_cons_of_ne hsource, ← ih]
      rw [ofRanking.eq_def]
      simp only [if_neg hthreshold, if_neg hsource]

/-- **An operator of a known kind is made of members**, in whatever order they stand. -/
inductive Built (members : Members) : Operator → PlanNode → Prop where
  /-- A wrapper has a source. -/
  | wrapper {kind : WrapperKind} {source : PlanNode} {v : Json}
    (hvalue : valuesOf "source" members = [v]) (hsource : ofJson v = .ok source) :
    Built members (.wrapper kind)
      (.wrapper kind source (otherMembers ["type", "source"] members))
  /-- A ranking operator may have a threshold and a source. -/
  | ranking {kind : RankingKind} {t : Members} {source : Option PlanNode}
    (hthreshold : Found (fun v t => readThreshold v = .ok t) (· = []) none
      (valuesOf "threshold" members) t)
    (hsource : Found SourceOf (· = none) none (valuesOf "source" members) source) :
    Built members (.ranking kind)
      (.ranking kind t source (otherMembers ["type", "threshold", "source"] members))
  /-- Any other operator keeps its members. -/
  | leaf {kind : LeafKind} : Built members (.leaf kind) (.leaf kind (otherMembers ["type"] members))

/-- **What is accepted as an operator of a known kind.** -/
lemma ofKind_eq_ok_iff {op : Operator} {members : Members} {node : PlanNode} :
    ofKind op members = .ok node ↔ Built members op node := by
  cases op with
  | wrapper kind =>
    rw [ofKind, ofWrapper_eq_ok_iff]
    constructor
    · rintro ⟨source, rfl, hfound⟩
      obtain ⟨v, hvalue, hsource⟩ := (Found.none_iff fun _ h => h).1 hfound
      exact .wrapper hvalue hsource
    · rintro ⟨hvalue, hsource⟩
      exact ⟨_, rfl, (Found.none_iff fun _ h => h).2 ⟨_, hvalue, hsource⟩⟩
  | ranking kind =>
    rw [ofKind, ofRanking_eq_ok_iff]
    constructor
    · rintro ⟨t, source, rfl, hthreshold, hsource⟩
      exact .ranking hthreshold hsource
    · rintro ⟨⟩
      exact ⟨_, _, rfl, by assumption, by assumption⟩
  | leaf kind =>
    constructor
    · rintro ⟨⟩
      exact .leaf
    · rintro ⟨⟩
      rfl

/-- **What is accepted as an operator.** -/
theorem ofJson_eq_ok_iff {v : Json} {node : PlanNode} :
    ofJson v = .ok node ↔
      ∃ members kindValue op, v = .object members ∧ valuesOf "type" members = [kindValue] ∧
        Operator.ofJson kindValue = .ok op ∧ Built members op node := by
  have hobject : ∀ members, ofJson (.object members) =
      Operator.ofMembers none members >>= fun op => ofKind op members := by
    intro members
    rw [ofJson.eq_def]
    rfl
  have hkind : ∀ {members op}, Operator.ofMembers none members = .ok op ↔
      ∃ kindValue, valuesOf "type" members = [kindValue] ∧ Operator.ofJson kindValue = .ok op :=
    Operator.ofMembers_eq_ok_iff.trans (Found.none_iff fun _ h => h)
  constructor
  · intro h
    cases v with
    | object members =>
      rw [hobject] at h
      cases hop : Operator.ofMembers none members with
      | error e =>
        rw [hop] at h
        cases h
      | ok op =>
        rw [hop] at h
        obtain ⟨kindValue, hvalue, hread⟩ := hkind.1 hop
        exact ⟨members, kindValue, op, rfl, hvalue, hread, ofKind_eq_ok_iff.1 h⟩
    | array items =>
      cases items with
      | nil => cases h
      | cons first rest =>
        rw [ofJson.eq_def] at h
        simp only at h
        split at h <;> cases h
    | null | bool | integer | double | text => cases h
  · rintro ⟨members, kindValue, op, rfl, hvalue, hread, hbuilt⟩
    rw [hobject, hkind.2 ⟨kindValue, hvalue, hread⟩]
    exact ofKind_eq_ok_iff.2 hbuilt

/-! ## The outermost operator -/

/-- The kind counts for nothing once it is known. -/
lemma built_without_type_iff {members : Members} {op : Operator} {node : PlanNode} :
    Built (without "type" members) op node ↔ Built members op node := by
  have hothers : ∀ own : List String, "type" ∈ own →
      otherMembers own (without "type" members) = otherMembers own members := by
    intro own hown
    unfold otherMembers without
    rw [List.filter_filter]
    congr 3
    funext m
    by_cases hm : m.1 = "type"
    · simp [hm, hown]
    · simp [hm]
  have hsource : valuesOf "source" (without "type" members) = valuesOf "source" members :=
    Json.valuesOf_without (by decide)
  have hthreshold : valuesOf "threshold" (without "type" members) = valuesOf "threshold" members :=
    Json.valuesOf_without (by decide)
  constructor
  · intro h
    cases h with
    | wrapper hvalue hread =>
      rw [hothers _ (by decide)]
      exact .wrapper (hsource ▸ hvalue) hread
    | ranking ht hs =>
      rw [hothers _ (by decide)]
      exact .ranking (hthreshold ▸ ht) (hsource ▸ hs)
    | leaf =>
      rw [hothers _ (by decide)]
      exact .leaf
  · intro h
    cases h with
    | wrapper hvalue hread =>
      rw [← hothers _ (by decide)]
      exact .wrapper (hsource.trans hvalue) hread
    | ranking ht hs =>
      rw [← hothers _ (by decide)]
      exact .ranking (hthreshold.symm ▸ ht) (hsource.symm ▸ hs)
    | leaf =>
      rw [← hothers _ (by decide)]
      exact .leaf

/-- **A value writes the outermost operator of a plan**: its kind must be given by name. -/
def Outermost (v : Json) (node : PlanNode) : Prop :=
  ∃ members name op, v = .object members ∧ valuesOf "type" members = [.text name] ∧
    Operator.ofName? name = some op ∧ Built members op node

/-- The outermost operator could stand below another one as well. -/
lemma Outermost.ofJson_eq_ok {v : Json} {node : PlanNode} (h : Outermost v node) :
    ofJson v = .ok node := by
  obtain ⟨members, name, op, rfl, hvalue, hname, hbuilt⟩ := h
  refine ofJson_eq_ok_iff.2 ⟨members, .text name, op, rfl, hvalue, ?_, hbuilt⟩
  show Operator.choose name = .ok op
  rw [Operator.choose, hname]

end PlanNode

lemma Operator.ofDocument_eq_ok_iff {d : Document} {op : Operator} :
    ofDocument d = .ok op ↔ ∃ name, d = document (.text name) ∧ ofName? name = some op := by
  have htext : ∀ name, ofDocument (document (.text name)) = .ok op ↔ ofName? name = some op := by
    intro name
    show choose name = .ok op ↔ _
    unfold choose
    cases ofName? name <;> simp
  constructor
  · intro h
    cases d with
    | scalar s =>
      cases s with
      | text name => exact ⟨name, rfl, (htext name).1 h⟩
      | null | bool | integer | double | tooGreat | loneSurrogate => cases h
    | array | object | broken => cases h
  · rintro ⟨name, rfl, hname⟩
    exact (htext name).2 hname

/-! ## Members in the order of the text -/

namespace Json

lemma readValue_eq_ok_iff {room : Nat} {d : Document} {v : Json} :
    PlanNode.readValue room d = .ok v ↔ d = document v ∧ v.depth ≤ room := by
  rw [← json?_eq_some_iff, PlanNode.readValue]
  cases d.json? room <;> simp

/-- **The members of an object with one special member**, in the order of the text: that one is read
where it stands, and the others are read as values. -/
def readAround {α : Type} (key : String) (room : Nat) (read : Reader α) (closed : Bool) :
    Option α → List (Option String × Document) → Except ReadError (α × Members)
  | _, (none, _) :: _ => .error .grammar
  | found, (some name, d) :: rest => do
    if name = key then
      if found.isSome then throw (.duplicateField key)
      let a ← read d
      readAround key room read closed (some a) rest
    else
      let value ← PlanNode.readValue room d
      let (a, others) ← readAround key room read closed found rest
      return (a, (name, value) :: others)
  | found, [] =>
    if !closed then .error .grammar
    else match found with
      | some a => .ok (a, [])
      | none => .error (.missingField key)

/-- **What the reader of members accepts.** -/
lemma readAround_eq_ok_iff {α : Type} {key : String} {room : Nat} {read : Reader α}
    {holds : Json → α → Prop}
    (hread : ∀ d a, read d = .ok a ↔ ∃ v, d = document v ∧ holds v a) {closed : Bool}
    {found : Option α} {given : List (Option String × Document)} {a : α} {others : Members} :
    readAround key room read closed found given = .ok (a, others) ↔
      closed = true ∧ ∃ members, given = documentMembers members ∧ others = without key members ∧
        (∀ m ∈ others, m.2.depth ≤ room) ∧
        Found holds (fun _ => False) found (valuesOf key members) a := by
  induction given generalizing found others with
  | nil =>
    rw [exists_documentMembers_eq_nil]
    cases closed with
    | false => simp [readAround]
    | true =>
      cases found with
      | none => simp [readAround, Found.none_nil_iff]
      | some old =>
        simp only [readAround, valuesOf_nil, Found.some_nil_iff]
        constructor
        · rintro ⟨⟩
          exact ⟨trivial, rfl, List.forall_mem_nil _, rfl⟩
        · rintro ⟨-, rfl, -, rfl⟩
          rfl
  | cons m rest ih =>
    obtain ⟨_ | name, d⟩ := m
    · refine iff_of_false (by simp [readAround]) fun h => ?_
      exact exists_documentMembers_eq_none h.2
    rw [exists_documentMembers_eq_cons]
    by_cases hname : name = key
    · subst hname
      simp only [valuesOf_cons_self, without_cons_self]
      cases found with
      | some old =>
        refine iff_of_false (fun h => by simp [readAround] at h; cases h) fun h => ?_
        obtain ⟨-, v, more, -, -, -, -, hfound⟩ := h
        exact Found.not_some_cons hfound
      | none =>
        have hstep : readAround name room read closed none ((some name, d) :: rest) =
            read d >>= fun a => readAround name room read closed (some a) rest := by
          simp only [readAround, if_true]
          rfl
        rw [hstep, bind_eq_ok_iff]
        simp only [hread, ih, Found.none_cons_iff]
        constructor
        · rintro ⟨b, ⟨v, rfl, hv⟩, rfl, members, rfl, rfl, hdepth, hfound⟩
          exact ⟨rfl, v, members, rfl, rfl, rfl, hdepth, b, hv, hfound⟩
        · rintro ⟨rfl, v, members, rfl, rfl, rfl, hdepth, b, hv, hfound⟩
          exact ⟨b, ⟨v, rfl, hv⟩, rfl, members, rfl, rfl, hdepth, hfound⟩
    · simp only [valuesOf_cons_of_ne hname, without_cons_of_ne hname]
      have hstep : readAround key room read closed found ((some name, d) :: rest) =
          PlanNode.readValue room d >>= fun value =>
            readAround key room read closed found rest >>= fun more =>
              pure (more.1, (name, value) :: more.2) := by
        cases found <;> simp only [readAround, if_neg hname]
      rw [hstep, bind_eq_ok_iff]
      simp only [bind_eq_ok_iff, readValue_eq_ok_iff]
      constructor
      · rintro ⟨value, ⟨rfl, hvalue⟩, ⟨b, more⟩, hmore, ⟨⟩⟩
        obtain ⟨rfl, members, rfl, rfl, hdepth, hfound⟩ := ih.1 hmore
        exact ⟨rfl, value, members, rfl, rfl, rfl, List.forall_mem_cons.2 ⟨hvalue, hdepth⟩, hfound⟩
      · rintro ⟨rfl, value, members, rfl, rfl, rfl, hdepth, hfound⟩
        obtain ⟨hvalue, hdepth⟩ := List.forall_mem_cons.1 hdepth
        exact ⟨value, ⟨rfl, hvalue⟩, (a, without key members),
          ih.2 ⟨rfl, members, rfl, rfl, hdepth, hfound⟩, rfl⟩

/-- The depth of an object, in terms of its members but one. -/
lemma depth_object_le_iff (name : String) {members : Members} {room : Nat} :
    (object members).depth ≤ room + 1 ↔
      (∀ m ∈ without name members, m.2.depth ≤ room) ∧
        ∀ v ∈ valuesOf name members, v.depth ≤ room := by
  rw [depth, Nat.add_le_add_iff_right, depthMembers_le]
  constructor
  · exact fun h => ⟨fun m hm => h m (List.mem_filter.1 hm).1,
      fun v hv => h _ (mem_of_mem_valuesOf hv)⟩
  · rintro ⟨hothers, hvalues⟩ m hm
    by_cases hname : m.1 = name
    · exact hvalues m.2 (List.mem_map_of_mem (List.mem_filter.2 ⟨hm, decide_eq_true hname⟩))
    · exact hothers m (List.mem_filter.2 ⟨hm, decide_eq_true hname⟩)

/-- What is accepted as an object around a special member. -/
lemma readAround_object_iff {α : Type} (key : String) {room : Nat} {read : Reader α}
    {holds : Json → α → Prop}
    (hread : ∀ d a, read d = .ok a ↔ ∃ v, d = document v ∧ v.depth ≤ room ∧ holds v a)
    {closed : Bool} {given : List (Option String × Document)} {a : α} {others : Members} :
    readAround key room read closed none given = .ok (a, others) ↔
      ∃ members v, Document.object given closed = document (object members) ∧
        (object members).depth ≤ room + 1 ∧ others = without key members ∧
        valuesOf key members = [v] ∧ holds v a := by
  rw [readAround_eq_ok_iff hread]
  simp only [Found.none_iff fun _ h => h]
  constructor
  · rintro ⟨rfl, members, rfl, rfl, hdepth, v, hvalue, hv, ha⟩
    refine ⟨members, v, rfl, (depth_object_le_iff key).2 ⟨hdepth, ?_⟩, rfl, hvalue, ha⟩
    rw [hvalue]
    exact List.forall_mem_singleton.2 hv
  · rintro ⟨members, v, hobject, hdepth, rfl, hvalue, ha⟩
    rw [document, Document.object.injEq] at hobject
    obtain ⟨rfl, rfl⟩ := hobject
    obtain ⟨hothers, hvalues⟩ := (depth_object_le_iff key).1 hdepth
    rw [hvalue] at hvalues
    exact ⟨rfl, members, rfl, rfl, hothers, v, hvalue, hvalues v List.mem_cons_self, ha⟩

end Json

namespace PlanNode

lemma readMembers_eq_readAround (room : Nat) (closed : Bool) (found : Option Operator)
    (given : List (Option String × Document)) :
    readMembers room closed found given =
      Json.readAround "type" room Operator.ofDocument closed found given := by
  induction given generalizing found with
  | nil => cases found <;> rfl
  | cons m rest ih =>
    obtain ⟨_ | name, d⟩ := m
    · cases found <;> rfl
    · cases found <;> simp only [readMembers, Json.readAround, ih]

/-- **What is accepted as the outermost operator.** -/
theorem ofDocument_eq_ok_iff {room : Nat} {d : Document} {node : PlanNode} :
    ofDocument (room + 1) d = .ok node ↔
      ∃ v, d = document v ∧ v.depth ≤ room + 1 ∧ Outermost v node := by
  have hkind : ∀ d op, Operator.ofDocument d = .ok op ↔ ∃ v, d = document v ∧ v.depth ≤ room ∧
      ∃ name, v = .text name ∧ Operator.ofName? name = some op := by
    intro d op
    rw [Operator.ofDocument_eq_ok_iff]
    constructor
    · rintro ⟨name, rfl, hname⟩
      exact ⟨_, rfl, Nat.zero_le room, name, rfl, hname⟩
    · rintro ⟨_, rfl, -, name, rfl, hname⟩
      exact ⟨name, rfl, hname⟩
  have hobject : ∀ given closed, ofDocument (room + 1) (.object given closed) =
      Json.readAround "type" room Operator.ofDocument closed none given >>= fun read =>
        ofKind read.1 read.2 := by
    intro given closed
    rw [← readMembers_eq_readAround]
    rfl
  constructor
  · intro h
    cases d with
    | object given closed =>
      rw [hobject, bind_eq_ok_iff] at h
      obtain ⟨⟨op, others⟩, hread, hbuilt⟩ := h
      obtain ⟨members, _, hd, hdepth, rfl, hvalue, name, rfl, hname⟩ :=
        (Json.readAround_object_iff "type" hkind).1 hread
      exact ⟨.object members, hd, hdepth, members, name, op, rfl, hvalue, hname,
        built_without_type_iff.1 (ofKind_eq_ok_iff.1 hbuilt)⟩
    | array items closed =>
      cases items with
      | nil => cases h
      | cons first rest =>
        have hstep : ofDocument (room + 1) (.array (first :: rest) closed) =
            Operator.ofDocument first >>= fun _ => rest.mapM (readValue room) >>= fun _ =>
              .error (if closed then .wrongType else .grammar) := rfl
        rw [hstep, bind_eq_ok_iff] at h
        obtain ⟨_, -, h⟩ := h
        rw [bind_eq_ok_iff] at h
        obtain ⟨_, -, h⟩ := h
        cases h
    | scalar => cases h
    | broken => cases h
  · rintro ⟨_, rfl, hdepth, members, name, op, rfl, hvalue, hname, hbuilt⟩
    rw [document, hobject, bind_eq_ok_iff]
    exact ⟨(op, without "type" members), (Json.readAround_object_iff "type" hkind).2
      ⟨members, .text name, rfl, hdepth, rfl, hvalue, name, rfl, hname⟩,
      ofKind_eq_ok_iff.2 (built_without_type_iff.2 hbuilt)⟩

end PlanNode

/-! ## Plans -/

namespace Plan

/-- **A value writes a plan.** -/
def Writes (v : Json) (plan : Plan) : Prop :=
  ∃ members rootValue, v = .object members ∧ valuesOf "root" members = [rootValue] ∧
    PlanNode.Outermost rootValue plan.root ∧
    plan.extra = Json.mergeMembers (Json.collapseMembers (without "root" members))

lemma readMembers_eq_readAround (closed : Bool) (found : Option PlanNode)
    (given : List (Option String × Document)) :
    readMembers closed found given = Json.readAround "root" (Json.maxDepth - 1)
      (PlanNode.ofDocument (Json.maxDepth - 1)) closed found given := by
  induction given generalizing found with
  | nil => cases found <;> rfl
  | cons m rest ih =>
    obtain ⟨_ | name, d⟩ := m
    · cases found <;> rfl
    · cases found <;> simp only [readMembers, Json.readAround, ih]

/-- **What is accepted as a plan.** -/
theorem ofDocument_eq_ok_iff {d : Document} {plan : Plan} :
    ofDocument d = .ok plan ↔ ∃ v, d = document v ∧ v.depth ≤ Json.maxDepth ∧ Writes v plan := by
  have hroot : ∀ d root, PlanNode.ofDocument (Json.maxDepth - 1) d = .ok root ↔
      ∃ v, d = document v ∧ v.depth ≤ Json.maxDepth - 1 ∧ PlanNode.Outermost v root :=
    fun _ _ => PlanNode.ofDocument_eq_ok_iff
  have hobject : ∀ given closed, ofDocument (.object given closed) =
      Json.readAround "root" (Json.maxDepth - 1) (PlanNode.ofDocument (Json.maxDepth - 1)) closed
        none given >>= fun read =>
          pure ⟨read.1, Json.mergeMembers (Json.collapseMembers read.2)⟩ := by
    intro given closed
    rw [← readMembers_eq_readAround]
    rfl
  constructor
  · intro h
    cases d with
    | object given closed =>
      rw [hobject, bind_eq_ok_iff] at h
      obtain ⟨⟨root, others⟩, hread, ⟨⟩⟩ := h
      obtain ⟨members, v, hd, hdepth, rfl, hvalue, hv⟩ :=
        (Json.readAround_object_iff "root" hroot).1 hread
      exact ⟨.object members, hd, hdepth, members, v, rfl, hvalue, hv, rfl⟩
    | array => cases h
    | scalar => cases h
    | broken => cases h
  · rintro ⟨_, rfl, hdepth, members, v, rfl, hvalue, hv, hextra⟩
    rw [document, hobject, bind_eq_ok_iff]
    refine ⟨(plan.root, without "root" members), (Json.readAround_object_iff "root" hroot).2
      ⟨members, v, rfl, hdepth, rfl, hvalue, hv⟩, ?_⟩
    show Except.ok (⟨plan.root, _⟩ : Plan) = .ok plan
    rw [← hextra]

end Plan

end PagedTopK
