import PagedTopK.Proofs.Query.Conditions
import PagedTopK.Proofs.Text.Slice

set_option autoImplicit false

/-!
# Order clauses read by offsets

An order clause is read here as a scanner reads it that knows places in the text by their offsets:
it cuts slices between bytes, walks over characters by their number, counts open groups and loops
until it is done. A slice need not exist, the count has no value below zero, and a loop need not
end; reading for which one of these happens has no value. None of it does: any text is read as it is
without offsets.

## Main definitions

* `Query.ByOffset.Progresses` — what a step of a loop has to do.
* `Query.ByOffset.parseExpression` — an expression, read by a loop over its levels.
* `Query.ByOffset.splitConditions` — the body of an order clause, read by a loop over its
  characters.

## Main results

* `Query.ByOffset.fix_eq_some` — a loop whose steps progress has a value.
* `Query.ByOffset.progresses_closingStep` — inside a group the count of open groups is above zero.
* `Query.ByOffset.parseExpression_eq`, `Query.ByOffset.splitConditions_eq` — reading by offsets has
  a value, and it is the one of reading without.
-/

namespace PagedTopK

/-! ## One level of an expression, one condition of a clause -/

/-- One level of an expression is read without regard to how much text is left. -/
lemma OrderExpression.parse_eq (text : List Char) :
    parse text =
      match afterSign? (Text.trim text) with
      | some name =>
        if name ≠ [] ∧ name.all Text.isNameChar then .ok (var (String.ofList name))
        else .error (.unsupported (String.ofList (Text.trim text)))
      | none =>
        match enclosed? (Text.trim text) with
        | some inner => parse inner
        | none =>
          match call? (Text.trim text) with
          | some (function, argument) =>
            if (Text.trim function).map Char.toLower = "str".toList then (parse argument).map str
            else .error (.unsupported (String.ofList (Text.trim text)))
          | none => .error (.unsupported (String.ofList (Text.trim text))) := by
  rw [parse]
  cases afterSign? (Text.trim text) with
  | some name => rfl
  | none =>
    cases enclosed? (Text.trim text) with
    | some inner => rfl
    | none => cases call? (Text.trim text) <;> rfl

namespace OrderCondition

variable {c : Char} {cs : List Char}

lemma parseAll_blank (h : Text.isBlank c = true) : parseAll (c :: cs) = parseAll cs := by
  rw [parseAll, if_pos h]

lemma parseAll_variable (hblank : Text.isBlank c = false) (hsign : c = '?' ∨ c = '$') :
    parseAll (c :: cs) =
      match ofText (c :: cs.takeWhile Text.isNameChar) .ascending with
      | .error e => .error e
      | .ok condition =>
        (parseAll (cs.dropWhile Text.isNameChar)).map (condition :: ·) := by
  cases hof : ofText (c :: cs.takeWhile Text.isNameChar) .ascending with
  | error e => rw [parseAll, if_neg (by simp [hblank]), if_pos hsign, hof]
  | ok condition => rw [parseAll, if_neg (by simp [hblank]), if_pos hsign, hof]

lemma parseAll_open {body : List Char} (hblank : Text.isBlank c = false)
    (hsign : ¬(c = '?' ∨ c = '$'))
    (hopen : ((c :: cs).dropWhile Text.isNameChar).dropWhile Text.isBlank = '(' :: body) :
    parseAll (c :: cs) =
      match closeGroup? 0 body with
      | none => .error .unbalanced
      | some (inside, rest) =>
        match ofGroup ((c :: cs).takeWhile Text.isNameChar)
          (((c :: cs).dropWhile Text.isNameChar).takeWhile Text.isBlank) inside with
        | .error e => .error e
        | .ok condition => (parseAll rest).map (condition :: ·) := by
  rw [parseAll, if_neg (by simp [hblank]), if_neg hsign]
  dsimp only
  split
  · next body' hbody =>
    obtain rfl := (List.cons.inj (hbody.symm.trans hopen)).2
    cases closeGroup? 0 body' <;> rfl
  · next hother => exact absurd hopen (hother body)

lemma parseAll_other (hblank : Text.isBlank c = false) (hsign : ¬(c = '?' ∨ c = '$'))
    (hother : ∀ body,
      ((c :: cs).dropWhile Text.isNameChar).dropWhile Text.isBlank ≠ '(' :: body) :
    parseAll (c :: cs) = .error (.unexpectedToken (String.ofList (Text.trim (c :: cs)))) := by
  rw [parseAll, if_neg (by simp [hblank]), if_neg hsign]
  dsimp only
  split
  · next body hbody => exact absurd hbody (hother body)
  · rfl

end OrderCondition

namespace Query.ByOffset

open Text (byteLength slice charAt? offsetAt firstOffset? lastOffset?)

/-! ## Loops -/

/-- **What a step of a loop has to do**: stop with the answer, or go on to a state that keeps what
has to be kept and has the same answer and less to do. -/
def Progresses {σ α : Type} (Keeps : σ → Prop) (answer : σ → α) (distance : σ → ℕ) (s : σ)
    (result : Part (α ⊕ σ)) : Prop :=
  result = Part.some (.inl (answer s)) ∨
    ∃ t, result = Part.some (.inr t) ∧ Keeps t ∧ answer t = answer s ∧ distance t < distance s

/-- **A loop whose steps progress has a value**, and it is the answer. -/
theorem fix_eq_some {σ α : Type} {step : σ →. α ⊕ σ} {Keeps : σ → Prop} {answer : σ → α}
    {distance : σ → ℕ} (hstep : ∀ s, Keeps s → Progresses Keeps answer distance s (step s))
    {s : σ} (hs : Keeps s) : step.fix s = Part.some (answer s) := by
  induction hn : distance s using Nat.strong_induction_on generalizing s with
  | _ n ih =>
    rcases hstep s hs with hstop | ⟨t, hgo, ht, hanswer, hlt⟩
    · exact Part.eq_some_iff.2 (PFun.fix_stop (hstop ▸ Part.mem_some _))
    · rw [PFun.fix_fwd_eq (hgo ▸ Part.mem_some _), ih _ (hn ▸ hlt) ht rfl, hanswer]

/-! ## Expressions -/

/-- **One level of an expression**: the text that is left to read, and how many functions wait for
its value. -/
def expressionStep :
    List Char × ℕ →. Except QueryError OrderExpression ⊕ List Char × ℕ := fun (text, waiting) =>
  let trimmed := Text.trim text
  let refused := .inl (.error (.unsupported (String.ofList trimmed)))
  match OrderExpression.afterSign? trimmed with
  | some name =>
    if name ≠ [] ∧ name.all Text.isNameChar then
      return .inl (.ok (OrderExpression.str^[waiting] (.var (String.ofList name))))
    else return refused
  | none =>
    match OrderExpression.enclosed? trimmed with
    | some inner => return .inr (inner, waiting)
    | none =>
      match firstOffset? '(' trimmed with
      | none => return refused
      | some opening => do
        let function ← slice trimmed 0 opening
        let behind ← slice trimmed (opening + 1) (byteLength trimmed)
        match Text.stripEnd? ')' behind with
        | none => return refused
        | some argument =>
          if (Text.trim function).map Char.toLower = "str".toList then
            return .inr (argument, waiting + 1)
          else return refused

/-- The expression that a text writes. -/
def parseExpression (text : List Char) : Part (Except QueryError OrderExpression) :=
  expressionStep.fix (text, 0)

/-- What a text with functions waiting for its value is read as in the end. -/
def waitingExpression (state : List Char × ℕ) : Except QueryError OrderExpression :=
  (OrderExpression.parse state.1).map OrderExpression.str^[state.2]

lemma call?_eq_none {text : List Char} (h : '(' ∉ text) : OrderExpression.call? text = none := by
  have hdrop : text.dropWhile (· ≠ '(') = [] := by
    rw [List.dropWhile_eq_nil_iff]
    intro c hc
    rw [decide_eq_true_eq]
    rintro rfl
    exact h hc
  rw [OrderExpression.call?, hdrop]

lemma call?_of_append {front back : List Char} (h : '(' ∉ front) :
    OrderExpression.call? (front ++ '(' :: back) =
      (Text.stripEnd? ')' back).map (front, ·) := by
  have hfront : ∀ c ∈ front, decide (c ≠ '(') = true := by
    intro c hc
    rw [decide_eq_true_eq]
    rintro rfl
    exact h hc
  rw [OrderExpression.call?, List.dropWhile_append_of_pos hfront,
    List.takeWhile_append_of_pos hfront, List.dropWhile_cons_of_neg (by decide),
    List.takeWhile_cons_of_neg (by decide), List.append_nil]

lemma progresses_expressionStep (state : List Char × ℕ) :
    Progresses (fun _ => True) waitingExpression (fun state => state.1.length) state
      (expressionStep state) := by
  obtain ⟨text, waiting⟩ := state
  have hshort := OrderExpression.length_trim_le text
  unfold waitingExpression expressionStep
  simp only [Progresses, OrderExpression.parse_eq text]
  cases OrderExpression.afterSign? (Text.trim text) with
  | some name =>
    left
    dsimp only
    split <;> rfl
  | none =>
    dsimp only
    cases hinner : OrderExpression.enclosed? (Text.trim text) with
    | some inner =>
      have hlt : inner.length < text.length :=
        (OrderExpression.length_of_enclosed? hinner).trans_le hshort
      exact .inr ⟨_, rfl, trivial, rfl, hlt⟩
    | none =>
      dsimp only
      by_cases hparen : '(' ∈ Text.trim text
      · obtain ⟨front, back, htrim, hfront⟩ := List.eq_append_cons_of_mem hparen
        obtain ⟨hbefore, hbehind⟩ := Text.slices_around htrim (by decide)
        have hoffset : firstOffset? '(' (Text.trim text) = some (byteLength front) := by
          rw [htrim, Text.firstOffset?_append hfront]
        have hcall : OrderExpression.call? (Text.trim text) =
            (Text.stripEnd? ')' back).map (front, ·) := by
          rw [htrim, call?_of_append hfront]
        simp only [hoffset, hbefore, hbehind, hcall, Part.bind_eq_bind, Part.bind_some]
        cases hargument : Text.stripEnd? ')' back with
        | none => exact .inl rfl
        | some argument =>
          have hlt : argument.length < text.length := by
            rw [hargument, Option.map_some] at hcall
            exact (OrderExpression.length_of_call? hcall).trans_le hshort
          simp only [Option.map_some]
          split
          · refine .inr ⟨_, rfl, trivial, ?_, hlt⟩
            cases OrderExpression.parse argument <;> rfl
          · exact .inl rfl
      · left
        rw [Text.firstOffset?_eq_none hparen, call?_eq_none hparen]
        rfl

/-- **An expression read by offsets** is the one that is read without. -/
theorem parseExpression_eq (text : List Char) :
    parseExpression text = Part.some (OrderExpression.parse text) := by
  rw [parseExpression, fix_eq_some (fun state _ => progresses_expressionStep state) trivial,
    waitingExpression]
  cases OrderExpression.parse text <;> rfl

/-! ## Conditions -/

/-- One look at a run of characters: it ends before a character of another kind. -/
def runStep (p : Char → Bool) (text : List Char) : ℕ →. ℕ ⊕ ℕ := fun i =>
  match charAt? text i with
  | some (_, c) => return if p c then .inr (i + 1) else .inl i
  | none => return .inl i

/-- The number of the character that ends a run. -/
def runEnd (p : Char → Bool) (text : List Char) (i : ℕ) : Part ℕ := (runStep p text).fix i

/-- **One look at a group**: how many groups are open, and the number of the character looked at. A
group can be closed only if one is open. -/
def closingStep (text : List Char) : ℕ × ℕ →. ℕ ⊕ ℕ × ℕ := fun (depth, i) =>
  match charAt? text i with
  | some (_, c) =>
    if c = '(' then return .inr (depth + 1, i + 1)
    else if c = ')' then
      if depth = 0 then Part.none
      else if depth = 1 then return .inl i
      else return .inr (depth - 1, i + 1)
    else return .inr (depth, i + 1)
  | none => return .inl i

/-- The number of the parenthesis that closes the group opened by another one. -/
def closing (text : List Char) (opening : ℕ) : Part ℕ := (closingStep text).fix (0, opening)

/-- **How far an order clause has been read**: the number of the next character and the conditions
found. -/
structure Scan where
  /-- The number of the next character. -/
  index : ℕ
  /-- The conditions before it. -/
  found : List OrderCondition

/-- A further condition, if its expression is understood. -/
def Scan.take (scan : Scan) (expression : List Char) (direction : Direction) (index : ℕ) :
    Part (Except QueryError (List OrderCondition) ⊕ Scan) := do
  match ← parseExpression expression with
  | .ok _ => return .inr ⟨index, scan.found ++ [⟨String.ofList expression, direction⟩]⟩
  | .error e => return .inl (.error e)

/-- A group and the word before it, which begins at `start` and may name a direction. The group is
opened by the character with number `opening`, which begins at `groupStart`. -/
def groupStep (clause : List Char) (scan : Scan) (start : ℕ) (word : List Char)
    (opening groupStart : ℕ) : Part (Except QueryError (List OrderCondition) ⊕ Scan) := do
  let close ← closing clause opening
  match charAt? clause close with
  | none => return .inl (.error .unbalanced)
  | some (groupEnd, _) =>
    match Direction.ofName? (String.ofList word) with
    | some direction => do
      let inside ← slice clause (groupStart + 1) groupEnd
      scan.take (Text.trim inside) direction (close + 1)
    | none => do
      let group ← slice clause start (groupEnd + 1)
      scan.take (Text.trim group) .ascending (close + 1)

/-- **One look at an order clause**: a blank, a variable, or a group with the word before it. -/
def conditionStep (clause : List Char) :
    Scan →. Except QueryError (List OrderCondition) ⊕ Scan := fun scan =>
  match charAt? clause scan.index with
  | none => return .inl (.ok scan.found)
  | some (start, c) =>
    if Text.isBlank c then return .inr { scan with index := scan.index + 1 }
    else if c = '?' ∨ c = '$' then do
      let stop ← runEnd Text.isNameChar clause (scan.index + 1)
      let expression ← slice clause start (offsetAt clause stop)
      scan.take expression .ascending stop
    else do
      let wordEnd ← runEnd Text.isNameChar clause scan.index
      let word ← slice clause start (offsetAt clause wordEnd)
      let opening ← runEnd Text.isBlank clause wordEnd
      match charAt? clause opening with
      | some (groupStart, '(') => groupStep clause scan start word opening groupStart
      | _ => do
        let near ← slice clause start (byteLength clause)
        return .inl (.error (.unexpectedToken (String.ofList (Text.trim near))))

/-- The conditions of an order clause. -/
def splitConditions (clause : List Char) : Part (Except QueryError (List OrderCondition)) :=
  (conditionStep clause).fix ⟨0, []⟩

section Scan

variable {clause : List Char} {i : ℕ}

/-- The number of the character at which the search for the end of a run stops. -/
def runStop (p : Char → Bool) (clause : List Char) (i : ℕ) : ℕ :=
  i + ((clause.drop i).takeWhile p).length

lemma progresses_runStep (p : Char → Bool) (clause : List Char) (i : ℕ) :
    Progresses (fun _ => True) (runStop p clause) (fun i => (clause.drop i).length) i
      (runStep p clause i) := by
  unfold runStep Progresses runStop
  cases hrest : clause.drop i with
  | nil =>
    left
    rw [Text.charAt?_of_drop_eq_nil hrest]
    rfl
  | cons c rest =>
    have hnext : clause.drop (i + 1) = rest := Text.drop_succ hrest
    rw [Text.charAt?_of_drop hrest]
    by_cases hc : p c = true
    · refine .inr ⟨i + 1, by simp [hc], trivial, ?_, ?_⟩
      · rw [hnext, List.takeWhile_cons_of_pos hc, List.length_cons]
        omega
      · simp only [hnext, hrest]
        exact Nat.lt_succ_self _
    · left
      simp [hc]

lemma runEnd_eq (p : Char → Bool) (clause : List Char) (i : ℕ) :
    runEnd p clause i = Part.some (runStop p clause i) :=
  fix_eq_some (fun i _ => progresses_runStep p clause i) trivial

/-- Behind a run stands what is left of the text. -/
lemma drop_runStop (p : Char → Bool) (clause : List Char) (i : ℕ) :
    clause.drop (runStop p clause i) = (clause.drop i).dropWhile p :=
  Text.drop_add_length (List.takeWhile_append_dropWhile).symm

/-- The number of the character at which the search for the end of a group stops. -/
def groupEnd (clause : List Char) (state : ℕ × ℕ) : ℕ :=
  state.2 + (OrderCondition.closeGroup? (state.1 - 1) (clause.drop state.2)).elim
    (clause.drop state.2).length (·.1.length)

lemma groupEnd_succ (clause : List Char) (depth i : ℕ) :
    groupEnd clause (depth + 1, i) =
      i + (OrderCondition.closeGroup? depth (clause.drop i)).elim (clause.drop i).length
        (·.1.length) := rfl

/-- **While a group is open the count of open groups is above zero**, so that it never has to go
below. -/
lemma progresses_closingStep (clause : List Char) (state : ℕ × ℕ) (h : 0 < state.1) :
    Progresses (fun state => 0 < state.1) (groupEnd clause)
      (fun state => (clause.drop state.2).length) state (closingStep clause state) := by
  obtain ⟨_ | depth, i⟩ := state
  · exact absurd h (Nat.lt_irrefl 0)
  simp only [closingStep, Progresses, groupEnd_succ]
  cases hrest : clause.drop i with
  | nil =>
    left
    rw [Text.charAt?_of_drop_eq_nil hrest]
    rfl
  | cons c rest =>
    have hnext : clause.drop (i + 1) = rest := Text.drop_succ hrest
    have hlt : (clause.drop (i + 1)).length < (c :: rest).length := hnext ▸ Nat.lt_succ_self _
    -- A further character inside the group moves the place where the search stops by one.
    have hlonger (x : Option (List Char × List Char)) :
        i + 1 + x.elim rest.length (·.1.length) =
          i + (x.map fun r => (c :: r.1, r.2)).elim (c :: rest).length (·.1.length) := by
      cases x with
      | none => simp only [Option.elim_none, Option.map_none, List.length_cons]; omega
      | some r => simp only [Option.elim_some, Option.map_some, List.length_cons]; omega
    rw [Text.charAt?_of_drop hrest]
    by_cases hopen : c = '('
    · subst hopen
      refine .inr ⟨(depth + 2, i + 1), rfl, Nat.succ_pos _, ?_, hlt⟩
      rw [groupEnd_succ, OrderCondition.closeGroup?_open, ← hlonger, hnext]
    · by_cases hclose : c = ')'
      · subst hclose
        cases depth with
        | zero => exact .inl rfl
        | succ depth =>
          refine .inr ⟨(depth + 1, i + 1), rfl, Nat.succ_pos _, ?_, hlt⟩
          rw [groupEnd_succ, OrderCondition.closeGroup?_close, ← hlonger, hnext]
      · refine .inr ⟨(depth + 1, i + 1), by simp [hopen, hclose], Nat.succ_pos _, ?_, hlt⟩
        rw [groupEnd_succ, OrderCondition.closeGroup?_other hopen hclose, ← hlonger, hnext]

/-- **The end of a group is found** where the parenthesis that closes it stands, or at the end of
the text if there is none. -/
lemma closing_eq {body : List Char} (h : clause.drop i = '(' :: body) :
    closing clause i = Part.some
      (i + 1 + (OrderCondition.closeGroup? 0 body).elim body.length (·.1.length)) := by
  have hnext : clause.drop (i + 1) = body := Text.drop_succ h
  have hfirst : closingStep clause (0, i) = Part.some (.inr (1, i + 1)) := by
    simp only [closingStep, Text.charAt?_of_drop h]
    rfl
  have hvalue : closing clause i = Part.some (groupEnd clause (1, i + 1)) := by
    rw [closing, PFun.fix_fwd_eq (hfirst ▸ Part.mem_some _)]
    exact fix_eq_some (progresses_closingStep clause) Nat.one_pos
  rw [hvalue, groupEnd_succ, hnext]

/-- What an order clause is read as in the end. -/
def scanned (clause : List Char) (scan : Scan) : Except QueryError (List OrderCondition) :=
  (OrderCondition.parseAll (clause.drop scan.index)).map (scan.found ++ ·)

/-- How much of an order clause is left. -/
def unread (clause : List Char) (scan : Scan) : ℕ := (clause.drop scan.index).length

variable {scan : Scan}

/-- A further condition is progress if reading goes on behind it. -/
lemma progresses_take {expression : List Char} {direction : Direction} {index : ℕ}
    (hvalue : OrderCondition.parseAll (clause.drop scan.index) =
      match OrderCondition.ofText expression direction with
      | .error e => .error e
      | .ok condition => (OrderCondition.parseAll (clause.drop index)).map (condition :: ·))
    (hlt : (clause.drop index).length < unread clause scan) :
    Progresses (fun _ => True) (scanned clause) (unread clause) scan
      (scan.take expression direction index) := by
  rw [Progresses, scanned, hvalue, Scan.take, parseExpression_eq, Part.bind_eq_bind, Part.bind_some,
    OrderCondition.ofText]
  cases OrderExpression.parse expression with
  | error e => exact .inl rfl
  | ok e =>
    refine .inr ⟨_, rfl, trivial, ?_, hlt⟩
    simp only [scanned, Except.map]
    cases OrderCondition.parseAll (clause.drop index) with
    | error e => rfl
    | ok more => simp

/-- A variable ends where its name does. -/
lemma progresses_variable {c : Char} {cs : List Char} (hrest : clause.drop scan.index = c :: cs)
    (hblank : Text.isBlank c = false) (hsign : c = '?' ∨ c = '$') :
    Progresses (fun _ => True) (scanned clause) (unread clause) scan
      (conditionStep clause scan) := by
  have hnext : clause.drop (scan.index + 1) = cs := Text.drop_succ hrest
  have hstop : runStop Text.isNameChar clause (scan.index + 1) =
      scan.index + (c :: cs.takeWhile Text.isNameChar).length := by
    rw [runStop, hnext, List.length_cons]
    omega
  have hsplit : clause.drop scan.index =
      (c :: cs.takeWhile Text.isNameChar) ++ cs.dropWhile Text.isNameChar := by
    rw [hrest, List.cons_append, List.takeWhile_append_dropWhile]
  have hslice := Text.slice_of_drop hsplit
  have hdrop := Text.drop_add_length hsplit
  simp only [conditionStep, Text.charAt?_of_drop hrest, hblank, Bool.false_eq_true, if_false,
    if_pos hsign, runEnd_eq, Part.bind_eq_bind, Part.bind_some, Text.offsetAt_eq, hstop, hslice]
  refine progresses_take ?_ ?_
  · rw [hrest, OrderCondition.parseAll_variable hblank hsign, hdrop]
  · rw [hdrop, unread, hrest, List.length_cons]
    exact Nat.lt_succ_of_le (List.dropWhile_suffix _).length_le

/-- The slices at a group: what stands inside it, and the group with what stands before it. -/
lemma slices_of_group {opening : ℕ} {before inside more : List Char}
    (hstart : clause.drop i = before ++ '(' :: (inside ++ ')' :: more))
    (hopening : opening = i + before.length) :
    slice clause (byteLength (clause.take opening) + 1)
        (byteLength (clause.take (opening + 1 + inside.length))) = Part.some inside ∧
      slice clause (byteLength (clause.take i))
        (byteLength (clause.take (opening + 1 + inside.length)) + 1) =
          Part.some (before ++ '(' :: inside ++ [')']) ∧
      clause.drop (opening + 1 + inside.length) = ')' :: more ∧
      clause.drop (opening + 1 + inside.length + 1) = more := by
  subst hopening
  have hgroup : clause.drop (i + before.length) = '(' :: (inside ++ ')' :: more) :=
    Text.drop_add_length hstart
  have hinside : clause.drop (i + before.length + 1) = inside ++ ')' :: more :=
    Text.drop_succ hgroup
  have hclose : clause.drop (i + before.length + 1 + inside.length) = ')' :: more :=
    Text.drop_add_length hinside
  have hwhole : clause.drop i = (before ++ '(' :: inside ++ [')']) ++ more := by
    rw [hstart]
    simp only [List.append_assoc, List.cons_append, List.nil_append]
  have hend : i + (before ++ '(' :: inside ++ [')']).length =
      i + before.length + 1 + inside.length + 1 := by
    simp only [List.length_append, List.length_cons, List.length_nil]
    omega
  have hslice := Text.slice_of_drop hwhole
  rw [hend] at hslice
  refine ⟨?_, ?_, hclose, Text.drop_succ hclose⟩
  · rw [← Text.byteLength_take_succ hgroup (by decide)]
    exact Text.slice_of_drop hinside
  · rw [← Text.byteLength_take_succ hclose (by decide)]
    exact hslice

/-- **A group** is read with the word before it, or refused if nothing closes it. -/
lemma progresses_groupStep {opening : ℕ} {word gap body : List Char}
    (hstart : clause.drop scan.index = word ++ gap ++ '(' :: body)
    (hopening : opening = scan.index + (word ++ gap).length)
    (hvalue : OrderCondition.parseAll (clause.drop scan.index) =
      match OrderCondition.closeGroup? 0 body with
      | none => .error .unbalanced
      | some (inside, rest) =>
        match OrderCondition.ofGroup word gap inside with
        | .error e => .error e
        | .ok condition => (OrderCondition.parseAll rest).map (condition :: ·)) :
    Progresses (fun _ => True) (scanned clause) (unread clause) scan
      (groupStep clause scan (byteLength (clause.take scan.index)) word opening
        (byteLength (clause.take opening))) := by
  have hbody : clause.drop opening = '(' :: body := hopening ▸ Text.drop_add_length hstart
  rw [groupStep, closing_eq hbody, Part.bind_eq_bind, Part.bind_some]
  cases hclose : OrderCondition.closeGroup? 0 body with
  | none =>
    have hinside : clause.drop (opening + 1) = body ++ [] := by
      rw [List.append_nil, Text.drop_succ hbody]
    have hend : clause.drop (opening + 1 + body.length) = [] := Text.drop_add_length hinside
    simp only [hclose] at hvalue
    simp only [Option.elim_none, Text.charAt?_of_drop_eq_nil hend]
    left
    rw [scanned, hvalue]
    rfl
  | some closed =>
    obtain ⟨inside, more⟩ := closed
    simp only [hclose] at hvalue
    rw [OrderCondition.eq_append_of_closeGroup? hclose] at hstart
    obtain ⟨hinside, hwhole, hcloseDrop, hmore⟩ := slices_of_group hstart hopening
    have hlt : (clause.drop (opening + 1 + inside.length + 1)).length < unread clause scan := by
      rw [hmore, unread, hstart]
      simp only [List.length_append, List.length_cons]
      omega
    simp only [Option.elim_some, Text.charAt?_of_drop hcloseDrop, hinside, hwhole]
    cases hdirection : Direction.ofName? (String.ofList word) with
    | some direction =>
      simp only [Part.bind_eq_bind, Part.bind_some]
      refine progresses_take ?_ hlt
      rw [hvalue, hmore, OrderCondition.ofGroup, hdirection]
    | none =>
      simp only [Part.bind_eq_bind, Part.bind_some]
      refine progresses_take ?_ hlt
      rw [hvalue, hmore, OrderCondition.ofGroup, hdirection]

/-- **What is neither blank nor a variable** is a group with the word before it, or refused. -/
lemma progresses_word {c : Char} {cs : List Char} (hrest : clause.drop scan.index = c :: cs)
    (hblank : Text.isBlank c = false) (hsign : ¬(c = '?' ∨ c = '$')) :
    Progresses (fun _ => True) (scanned clause) (unread clause) scan
      (conditionStep clause scan) := by
  -- The word, the gap behind it, and where they end.
  set word := (c :: cs).takeWhile Text.isNameChar with hword
  set after := (c :: cs).dropWhile Text.isNameChar with hafter
  set gap := after.takeWhile Text.isBlank with hgap
  set wordEnd := runStop Text.isNameChar clause scan.index with hwordEnd
  set opening := runStop Text.isBlank clause wordEnd with hopening
  have hwordSplit : clause.drop scan.index = word ++ after := by
    rw [hrest, hword, hafter, List.takeWhile_append_dropWhile]
  have hwordPlace : wordEnd = scan.index + word.length := by rw [hwordEnd, runStop, hrest]
  have hafterDrop : clause.drop wordEnd = after := by rw [hwordEnd, drop_runStop, hrest]
  have hgapPlace : opening = wordEnd + gap.length := by rw [hopening, runStop, hafterDrop]
  have hbehindDrop : clause.drop opening = after.dropWhile Text.isBlank := by
    rw [hopening, drop_runStop, hafterDrop]
  have hgapSplit : after = gap ++ clause.drop opening := by
    rw [hbehindDrop, hgap, List.takeWhile_append_dropWhile]
  have hwordSlice := Text.slice_of_drop hwordSplit
  rw [← hwordPlace] at hwordSlice
  simp only [conditionStep, Text.charAt?_of_drop hrest, hblank, Bool.false_eq_true, if_false,
    if_neg hsign, runEnd_eq, Part.bind_eq_bind, Part.bind_some, Text.offsetAt_eq, ← hwordEnd,
    ← hopening, hwordSlice]
  split
  · next groupStart hgroup =>
    obtain ⟨rfl, body, hbody⟩ := Text.exists_drop_of_charAt? hgroup
    have hstart : clause.drop scan.index = word ++ gap ++ '(' :: body := by
      rw [hwordSplit, List.append_assoc, ← hbody, ← hgapSplit]
    have hplace : opening = scan.index + (word ++ gap).length := by
      rw [hgapPlace, hwordPlace, List.length_append, Nat.add_assoc]
    refine progresses_groupStep hstart hplace ?_
    rw [hrest]
    exact OrderCondition.parseAll_open hblank hsign (hbehindDrop.symm.trans hbody)
  · next hgroup =>
    left
    have hnear : slice clause (byteLength (clause.take scan.index)) (byteLength clause) =
        Part.some (c :: cs) := by
      have hback := Text.slice_back (clause.take scan.index) (clause.drop scan.index)
      rwa [List.take_append_drop, hrest] at hback
    have hrefused := OrderCondition.parseAll_other hblank hsign fun body hbody =>
      hgroup _ (Text.charAt?_of_drop (hbehindDrop.trans hbody))
    rw [hnear, Part.bind_some, scanned, hrest, hrefused]
    rfl

/-- **Every look at an order clause is progress.** -/
lemma progresses_conditionStep (clause : List Char) (scan : Scan) :
    Progresses (fun _ => True) (scanned clause) (unread clause) scan
      (conditionStep clause scan) := by
  cases hrest : clause.drop scan.index with
  | nil =>
    left
    simp only [conditionStep, Text.charAt?_of_drop_eq_nil hrest]
    rw [scanned, hrest, OrderCondition.parseAll]
    simp [Except.map]
  | cons c cs =>
    cases hblank : Text.isBlank c with
    | true =>
      have hnext : clause.drop (scan.index + 1) = cs := Text.drop_succ hrest
      refine .inr ⟨{ scan with index := scan.index + 1 }, ?_, trivial, ?_, ?_⟩
      · simp only [conditionStep, Text.charAt?_of_drop hrest, hblank, if_true]
        rfl
      · rw [scanned, scanned, hrest, OrderCondition.parseAll_blank hblank, hnext]
      · rw [unread, unread, hrest, hnext]
        exact Nat.lt_succ_self _
    | false =>
      by_cases hsign : c = '?' ∨ c = '$'
      · exact progresses_variable hrest hblank hsign
      · exact progresses_word hrest hblank hsign

/-- **An order clause read by offsets** has the conditions that are read without. -/
theorem splitConditions_eq (clause : List Char) :
    splitConditions clause = Part.some (OrderCondition.parseAll clause) := by
  rw [splitConditions, fix_eq_some (fun scan _ => progresses_conditionStep clause scan) trivial,
    scanned, List.drop_zero]
  cases OrderCondition.parseAll clause <;> rfl

end Scan

end Query.ByOffset

end PagedTopK
