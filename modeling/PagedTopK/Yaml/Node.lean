import PagedTopK.Yaml.Scanner

set_option autoImplicit false

/-!
# YAML nodes

A document is one node: a scalar, a sequence or a mapping. A node may be given a name, under which
it is used again later, or within itself.

A name is known by a number: as many names as were known before it was given. A name that is given
again gets a new number in this way, which may be that of another name; then what the number means
is the node that begins last.

## Main definitions

* `Yaml.Node` — a node.
* `Yaml.Node.labelled` — the nodes that have been given names.
* `Yaml.parse?` — the node of a text that holds one document.
-/

namespace PagedTopK.Yaml

/-- **A node.** -/
inductive Node where
  /-- A scalar, with the bytes of its tag in full. One that is not there is plain and empty. -/
  | scalar (text : String) (style : Style) (tag : Option (List UInt8))
  /-- A sequence. -/
  | sequence (items : List Node)
  /-- A mapping; two members may have one key. -/
  | mapping (members : List (Node × Node))
  /-- A node with the number of its name. -/
  | label (number : Nat) (node : Node)
  /-- Another use of the node with a name of some number. -/
  | alias (number : Nat)
deriving Inhabited

/-- The node that stands where nothing is written. -/
def Node.empty : Node := .scalar "" .plain none

mutual

/-- **The nodes that have been given names**, with the numbers of these, in the order in which they
begin. -/
def Node.labelled : Node → List (Nat × Node)
  | .scalar _ _ _ | .alias _ => []
  | .sequence items => labelledItems items
  | .mapping members => labelledMembers members
  | .label number node => (number, node) :: node.labelled

/-- The same for items. -/
def labelledItems : List Node → List (Nat × Node)
  | [] => []
  | item :: rest => item.labelled ++ labelledItems rest

/-- The same for members. -/
def labelledMembers : List (Node × Node) → List (Nat × Node)
  | [] => []
  | (key, value) :: rest => key.labelled ++ value.labelled ++ labelledMembers rest

end

/-- **What is left to read**, with what has been said about it. -/
structure Source where
  /-- The tokens. -/
  tokens : List Token
  /-- What the handles of tags stand for. -/
  handles : List (List Char × List UInt8)
  /-- The names that have been given, with their numbers. -/
  names : List (List Char × Nat)

namespace Source

/-- The source after its first token. -/
def tail (s : Source) : Source := { s with tokens := s.tokens.tail }

/-- The first token. -/
def head? (s : Source) : Option Token := s.tokens.head?

/-- Whether a source goes on with one of some tokens. -/
def «at» (s : Source) (ts : List Token) : Bool := s.head?.any ts.contains

/-- A tag in full, if its handle stands for something. -/
def fullTag? (s : Source) (t : Tag) : Option (List UInt8) :=
  if t.handle = [] then some t.suffix else (s.handles.lookup t.handle).map (· ++ t.suffix)

/-- Give a name; its number is the number of names that were known before. -/
def give (s : Source) (name : List Char) : Source :=
  { s with names := (name, s.names.length) :: s.names.filter (·.1 ≠ name) }

end Source

/-! ## Before a node -/

/-- **What comes before a node.** -/
structure Properties where
  /-- Its name. -/
  name : Option (List Char)
  /-- Its tag in full. -/
  tag : Option (List UInt8)
deriving DecidableEq

namespace Properties

/-- A scalar with these properties. -/
def scalar (p : Properties) (text : List Char) (style : Style) : Node :=
  .scalar (String.ofList text) style p.tag

/-- The node that stands where only properties are written; where nothing at all is written there is
none. -/
def alone? (p : Properties) : Option Node :=
  if p.name.isNone && p.tag.isNone then none else some (p.scalar [] .plain)

/-- Read a node with these properties: its name is known from its beginning on. -/
def around? (p : Properties) (s : Source) (read : Source → Option (Node × Source)) :
    Option (Node × Source) :=
  match p.name with
  | none => read s
  | some name => (read (s.give name)).map fun r => (.label s.names.length r.1, r.2)

end Properties

/-- The properties before a node: a name and a tag, in either order. -/
def readProperties? (s : Source) : Option (Properties × Source) :=
  match s.head?, s.tail.head? with
  | some (.anchor n), some (.tag t) | some (.tag t), some (.anchor n) =>
    (s.fullTag? t).map fun tag => (⟨some n, some tag⟩, s.tail.tail)
  | some (.anchor n), _ => some (⟨some n, none⟩, s.tail)
  | some (.tag t), _ => (s.fullTag? t).map fun tag => (⟨none, some tag⟩, s.tail)
  | _, _ => some (⟨none, none⟩, s)

/-! ## Nodes -/

mutual

/-- **A node.** In a block it may be a block; as a member of a block it may be a list of items that
is not indented. -/
def readNode? (inBlock unindented : Bool) : Nat → Source → Option (Node × Source)
  | 0, _ => none
  | fuel + 1, s =>
    match s.head? with
    | some (.alias name) => (s.names.lookup name).map fun n => (.alias n, s.tail)
    | _ =>
      (readProperties? s).bind fun (p, s) => p.around? s fun s =>
        let alone := p.alone?.map fun node => (node, s)
        match s.head? with
        | some (.scalar text style) => some (p.scalar text style, s.tail)
        | some .flowSequenceStart => readFlowItems? true fuel s.tail []
        | some .flowMappingStart => readFlowMembers? true fuel s.tail []
        | some .blockSequenceStart =>
          if inBlock then readBlockItems? fuel s.tail []
          else alone
        | some .blockMappingStart =>
          if inBlock then readBlockMembers? fuel s.tail []
          else alone
        | some .blockEntry =>
          if unindented then readUnindentedItems? fuel s []
          else alone
        | _ => alone

/-- The items of a block up to its end. -/
def readBlockItems? : Nat → Source → List Node → Option (Node × Source)
  | 0, _, _ => none
  | fuel + 1, s, items =>
    match s.head? with
    | some .blockEntry =>
      if s.tail.at [.blockEntry, .blockEnd] then
        readBlockItems? fuel s.tail (.empty :: items)
      else (readNode? true false fuel s.tail).bind fun r => readBlockItems? fuel r.2 (r.1 :: items)
    | some .blockEnd => some (.sequence items.reverse, s.tail)
    | _ => none

/-- Items that are not indented. -/
def readUnindentedItems? : Nat → Source → List Node → Option (Node × Source)
  | 0, _, _ => none
  | fuel + 1, s, items =>
    match s.head? with
    | some .blockEntry =>
      if s.tail.at [.blockEntry, .key, .value, .blockEnd] then
        readUnindentedItems? fuel s.tail (.empty :: items)
      else
        (readNode? true false fuel s.tail).bind fun r =>
          readUnindentedItems? fuel r.2 (r.1 :: items)
    | _ => some (.sequence items.reverse, s)

/-- The members of a block up to its end. -/
def readBlockMembers? : Nat → Source → List (Node × Node) → Option (Node × Source)
  | 0, _, _ => none
  | fuel + 1, s, members =>
    match s.head? with
    | some .key =>
      (if s.tail.at [.key, .value, .blockEnd] then some (.empty, s.tail)
        else readNode? true true fuel s.tail).bind fun k =>
        (if k.2.at [.value] then
          (if k.2.tail.at [.key, .value, .blockEnd] then some (.empty, k.2.tail)
            else readNode? true true fuel k.2.tail)
          else some (.empty, k.2)).bind fun v =>
          readBlockMembers? fuel v.2 ((k.1, v.1) :: members)
    | some .blockEnd => some (.mapping members.reverse, s.tail)
    | _ => none

/-- The items of a sequence in brackets up to its end. An item may be a single member. -/
def readFlowItems? (isFirst : Bool) : Nat → Source → List Node → Option (Node × Source)
  | 0, _, _ => none
  | fuel + 1, s, items =>
    if s.at [.flowSequenceEnd] then some (.sequence items.reverse, s.tail)
    else if !isFirst && !s.at [.flowEntry] then none
    else
      let s := if isFirst then s else s.tail
      if s.at [.flowSequenceEnd] then some (.sequence items.reverse, s.tail)
      else
        (readFlowItem? fuel s).bind fun r => readFlowItems? false fuel r.2 (r.1 :: items)

/-- An item of a sequence in brackets. If a key is announced and there is none, the sign that comes
in its place is passed over. -/
def readFlowItem? : Nat → Source → Option (Node × Source)
  | 0, _ => none
  | fuel + 1, s =>
    if s.at [.key] then
      (if s.tail.at [.value, .flowEntry, .flowSequenceEnd] then some (.empty, s.tail.tail)
        else readNode? false false fuel s.tail).bind fun k =>
        (if k.2.at [.value] then
          (if k.2.tail.at [.flowEntry, .flowSequenceEnd] then some (.empty, k.2.tail)
            else readNode? false false fuel k.2.tail)
          else some (.empty, k.2)).map fun v => (.mapping [(k.1, v.1)], v.2)
    else readNode? false false fuel s

/-- The members of a mapping in braces up to its end. A key may be without a value. -/
def readFlowMembers? (isFirst : Bool) :
    Nat → Source → List (Node × Node) → Option (Node × Source)
  | 0, _, _ => none
  | fuel + 1, s, members =>
    if s.at [.flowMappingEnd] then some (.mapping members.reverse, s.tail)
    else if !isFirst && !s.at [.flowEntry] then none
    else
      let s := if isFirst then s else s.tail
      if s.at [.flowMappingEnd] then some (.mapping members.reverse, s.tail)
      else
        let hasKey := s.at [.key]
        let s := if hasKey then s.tail else s
        (if hasKey && s.at [.value, .flowEntry, .flowMappingEnd] then some (.empty, s)
          else readNode? false false fuel s).bind fun k =>
          (if hasKey && k.2.at [.value] then
            (if k.2.tail.at [.flowEntry, .flowMappingEnd] then some (.empty, k.2.tail)
              else readNode? false false fuel k.2.tail)
            else some (.empty, k.2)).bind fun v =>
            readFlowMembers? false fuel v.2 ((k.1, v.1) :: members)

end

/-! ## Documents -/

/-- The directives before a document, and what comes after them. -/
def splitDirectives : List Token → List Directive × List Token
  | .directive d :: rest => let r := splitDirectives rest; (d :: r.1, r.2)
  | ts => ([], ts)

/-- The versions that directives give. -/
def versions (ds : List Directive) : List (Nat × Nat) :=
  ds.filterMap fun | .version major minor => some (major, minor) | .handle _ _ => none

/-- The handles of which directives say what they stand for. -/
def handleMeanings (ds : List Directive) : List (List Char × List UInt8) :=
  ds.filterMap fun | .handle h meaning => some (h, meaning) | .version _ _ => none

/-- The handles that stand for something without being told. -/
def standardHandles : List (List Char × List UInt8) :=
  [(['!'], Utf8.encode ['!']), (['!', '!'], Utf8.encode "tag:yaml.org,2002:".toList)]

/-- **What the handles stand for under some directives.** The version may be given once, and must be
one that is known; the meaning of a handle may be given once. -/
def handlesOf? (ds : List Directive) : Option (List (List Char × List UInt8)) :=
  let meanings := handleMeanings ds
  let versionsKnown := (versions ds).all fun v => v.1 == 1 && (v.2 == 1 || v.2 == 2)
  if (versions ds).length ≤ 1 ∧ versionsKnown ∧ (meanings.map Prod.fst).Nodup then
    some (meanings ++ standardHandles)
  else none

/-- The node of a document after its directives and its first mark, and the tokens after it. -/
def readDocument? (handles : List (List Char × List UInt8)) (tokens : List Token) :
    Option (Node × List Token) :=
  match tokens with
  | [] | .directive _ :: _ | .documentStart :: _ | .documentEnd :: _ => some (.empty, tokens)
  | _ => (readNode? true false (4 * tokens.length + 4) ⟨tokens, handles, []⟩).map fun r =>
    (r.1, r.2.tokens)

/-- **The node of the only document** among some tokens. A document without directives may begin
without its mark. -/
def ofTokens? (tokens : List Token) : Option Node := do
  let (ds, rest) := splitDirectives tokens
  let handles ← handlesOf? ds
  let (node, after) ←
    match rest with
    | .documentStart :: content => readDocument? handles content
    | .documentEnd :: _ | [] => none
    | content => if ds.isEmpty then readDocument? handles content else none
  if after.all (· == .documentEnd) then return node else none

/-- **The node of a text** that holds one document. -/
def parse? (cs : List Char) : Option Node := (tokenize? cs).bind ofTokens?

end PagedTopK.Yaml
