import PagedTopK.Yaml.Scalar
import PagedTopK.Yaml.Tag

set_option autoImplicit false

/-!
# From text to YAML tokens

A block begins where a line is indented deeper than the block around it, and ends where one is
indented less. That a token begins a key shows only at the colon after it: until then the scanner
remembers where the key would begin, and puts the tokens for it there afterwards.

## Main definitions

* `Yaml.Scanner` — the tokens so far, the indentation and the keys that may have begun.
* `Yaml.Scanner.step?` — one more token.
* `Yaml.tokenize?` — the tokens of a text.
-/

namespace PagedTopK.Yaml

/-- **A place where a key may have begun.** -/
structure KeyStart where
  /-- How many tokens come before. -/
  tokens : Nat
  /-- Where it is. -/
  place : Cursor
  /-- Whether nothing but a key may begin there. -/
  required : Bool
deriving DecidableEq

/-- **The state of the scanner.** -/
structure Scanner where
  /-- Where the scanner is. -/
  cursor : Cursor
  /-- The tokens so far, in reverse. -/
  tokens : List Token
  /-- How many there are. -/
  count : Nat
  /-- The indentation of the innermost block, -1 outside of all blocks. -/
  indent : Int
  /-- The indentations of the blocks around it. -/
  outer : List Int
  /-- Whether a key may begin here. -/
  keyAllowed : Bool
  /-- The key that may have begun, outside of brackets or in the innermost ones. -/
  key : Option KeyStart
  /-- The same for the brackets around them; how many brackets are open. -/
  outerKeys : List (Option KeyStart)

namespace Scanner

/-- The scanner before a text. -/
def start (cs : List Char) : Scanner := ⟨.start cs, [], 0, -1, [], true, none, []⟩

/-- Whether brackets are open. -/
def inFlow (s : Scanner) : Bool := !s.outerKeys.isEmpty

/-- Add a token. -/
def emit (s : Scanner) (t : Token) : Scanner :=
  { s with tokens := t :: s.tokens, count := s.count + 1 }

/-- Add a token where `before` tokens come before it. -/
def insert (s : Scanner) (before : Nat) (t : Token) : Scanner :=
  let later := s.count - before
  { s with
    tokens := s.tokens.take later ++ t :: s.tokens.drop later
    count := s.count + 1 }

/-- Go on. -/
def skip (s : Scanner) (n : Nat) : Scanner := { s with cursor := s.cursor.skip n }

/-- The column as an integer. -/
def column (s : Scanner) : Int := s.cursor.column

/-! ## Blocks -/

/-- End all blocks that are indented deeper than a column. -/
def unroll (s : Scanner) (column : Int) : Scanner :=
  if s.inFlow then s else go s.outer s
where
  /-- End blocks, the given ones being around them. -/
  go : List Int → Scanner → Scanner
    | [], s => s
    | i :: rest, s =>
      if s.indent > column then go rest { s.emit .blockEnd with indent := i, outer := rest } else s

/-- Begin a block at a column if that is deeper than the innermost one; its token goes where
`before` tokens come before it. -/
def roll (s : Scanner) (column : Int) (before : Nat) (t : Token) : Scanner :=
  if s.inFlow || !(s.indent < column) then s
  else { s.insert before t with indent := column, outer := s.indent :: s.outer }

/-! ## Keys -/

/-- Forget the key that may have begun; none may be forgotten that is required. -/
def dropKey? (s : Scanner) : Option Scanner :=
  if s.key.any (·.required) then none else some { s with key := none }

/-- Note that a key may begin here. -/
def saveKey? (s : Scanner) : Option Scanner :=
  if s.keyAllowed then
    s.dropKey?.map fun s =>
      { s with key := some ⟨s.count, s.cursor, !s.inFlow && s.indent == s.column⟩ }
  else some s

/-- Forget the key that may have begun if it has gone on too long: a key stays on its line and has
at most 1024 bytes. The keys around open brackets are looked at when those are closed. -/
def dropStaleKey? (s : Scanner) : Option Scanner :=
  if s.key.any fun k => k.place.line < s.cursor.line || k.place.index + 1024 < s.cursor.index then
    s.dropKey?
  else some s

/-! ## Single tokens -/

/-- The byte order mark. -/
def byteOrderMark : Char := '\uFEFF'

/-- Skip blanks, comments and line breaks, and a byte order mark at the beginning of a line. Outside
of brackets a key may begin on every line, and a tab may stand only where no key may begin. -/
def skipGap : Nat → Scanner → Scanner
  | 0, s => s
  | fuel + 1, s =>
    match s.cursor.head? with
    | some ' ' => skipGap fuel (s.skip 1)
    | some '\t' => if s.inFlow || !s.keyAllowed then skipGap fuel (s.skip 1) else s
    | some '#' => skipGap fuel { s with cursor := (s.cursor.span (!isBreak ·)).2 }
    | some c =>
      if isBreak c then skipGap fuel { s.skip 1 with keyAllowed := s.keyAllowed || !s.inFlow }
      else if c = byteOrderMark ∧ s.cursor.column = 0 then skipGap fuel (s.skip 1)
      else s
    | none => s

/-- A token between documents. -/
def documentToken? (s : Scanner) (t : Token) (length : Nat) : Option Scanner :=
  ((s.unroll (-1)).dropKey?).map fun s => { (s.emit t).skip length with keyAllowed := false }

/-- An opening bracket. -/
def openFlow? (s : Scanner) (t : Token) : Option Scanner :=
  s.saveKey?.map fun s =>
    { (s.emit t).skip 1 with keyAllowed := true, key := none, outerKeys := s.key :: s.outerKeys }

/-- A closing bracket. -/
def closeFlow? (s : Scanner) (t : Token) : Option Scanner :=
  s.dropKey?.map fun s =>
    { (s.emit t).skip 1 with
      keyAllowed := false
      key := s.outerKeys.head?.getD none
      outerKeys := s.outerKeys.tail }

/-- A comma. -/
def flowEntry? (s : Scanner) : Option Scanner :=
  s.dropKey?.map fun s => { (s.emit .flowEntry).skip 1 with keyAllowed := true }

/-- The hyphen before an item. -/
def blockEntry? (s : Scanner) : Option Scanner :=
  if !s.inFlow && !s.keyAllowed then none
  else (s.roll s.column s.count .blockSequenceStart).dropKey?.map fun s =>
    { (s.emit .blockEntry).skip 1 with keyAllowed := true }

/-- The sign of a key that may be of any kind. -/
def explicitKey? (s : Scanner) : Option Scanner :=
  if !s.inFlow && !s.keyAllowed then none
  else (s.roll s.column s.count .blockMappingStart).dropKey?.map fun s =>
    { (s.emit .key).skip 1 with keyAllowed := !s.inFlow }

/-- **The colon after a key.** If a key may have begun, it began there. -/
def value? (s : Scanner) : Option Scanner :=
  match s.key with
  | some k =>
    let s := (s.insert k.tokens .key).roll k.place.column k.tokens .blockMappingStart
    some { (s.emit .value).skip 1 with key := none, keyAllowed := false }
  | none =>
    if !s.inFlow && !s.keyAllowed then none
    else
      let s := s.roll s.column s.count .blockMappingStart
      some { (s.emit .value).skip 1 with keyAllowed := !s.inFlow }

/-- A token at which a key may begin, given with the place after it. -/
def leaf? (s : Scanner) (t : Token) (after : Cursor) (keyAllowed : Bool) : Option Scanner :=
  s.saveKey?.map fun s => { s.emit t with cursor := after, keyAllowed := keyAllowed }

/-- The name of an anchor or of its use. -/
def named? (s : Scanner) (t : List Char → Token) : Option Scanner :=
  let (name, after) := s.cursor.next.span isNameChar
  if name = [] ∨ !(isGap after.head? || after.head?.any "?:,]\x7d%@\x60".toList.contains) then none
  else s.leaf? (t name) after false

/-- A tag. -/
def tag? (s : Scanner) : Option Scanner :=
  (readTag? s.cursor).bind fun (tag, after) =>
    if isGap after.head? || (s.inFlow && after.head? == some ',') then
      s.leaf? (.tag tag) after false
    else none

/-- A block scalar. -/
def block? (s : Scanner) (isLiteral : Bool) : Option Scanner :=
  s.dropKey?.bind fun s =>
    (blockScalar? isLiteral s.indent s.cursor).map fun r =>
      { s.emit (.scalar r.1 (if isLiteral then .literal else .folded)) with
        cursor := r.2, keyAllowed := true }

/-- A quoted scalar. -/
def quoted? (s : Scanner) (single : Bool) : Option Scanner :=
  (quotedScalar? single s.cursor).bind fun r => s.leaf? (.scalar r.1 .quoted) r.2 false

/-- Whether a plain scalar may begin with a character before another one. -/
def beginsPlain (inFlow : Bool) (c : Char) (next : Option Char) : Bool :=
  if c == '-' then !(next.any isBlank)
  else if c == '?' || c == ':' then !inFlow && !isGap next
  else !(isGap (some c) || ",[]\x7b\x7d#&*!|>\x27\x22%@\x60".toList.contains c)

/-- A plain scalar. -/
def plain? (s : Scanner) : Option Scanner :=
  if s.cursor.head?.any fun c => beginsPlain s.inFlow c s.cursor.second? then
    (plainScalar? s.inFlow (s.indent + 1).toNat s.cursor).bind fun r =>
      s.leaf? (.scalar r.1 .plain) r.2.1 r.2.2
  else none

/-- **One more token**, from a place where nothing is left to skip. -/
def token? (s : Scanner) (c : Char) : Option Scanner :=
  let gapFollows := isGap s.cursor.second?
  if s.cursor.column = 0 ∧ c = '%' then
    (readDirective? s.cursor).bind fun (content, after) =>
      (s.documentToken? (.directive content) 0).map fun s => { s with cursor := after }
  else if s.cursor.column = 0 ∧ s.cursor.hasMark '-' then s.documentToken? .documentStart 3
  else if s.cursor.column = 0 ∧ s.cursor.hasMark '.' then s.documentToken? .documentEnd 3
  else match c with
    | '[' => s.openFlow? .flowSequenceStart
    | '{' => s.openFlow? .flowMappingStart
    | ']' => s.closeFlow? .flowSequenceEnd
    | '}' => s.closeFlow? .flowMappingEnd
    | ',' => s.flowEntry?
    | '*' => s.named? .alias
    | '&' => s.named? .anchor
    | '!' => s.tag?
    | '\'' => s.quoted? true
    | '"' => s.quoted? false
    | _ =>
      if c = '-' ∧ gapFollows then s.blockEntry?
      else if c = '?' ∧ (s.inFlow ∨ gapFollows) then s.explicitKey?
      else if c = ':' ∧ (s.inFlow ∨ gapFollows) then s.value?
      else if c = '|' ∧ !s.inFlow then s.block? true
      else if c = '>' ∧ !s.inFlow then s.block? false
      else s.plain?

/-- All tokens from here on. -/
def scan? : Nat → Scanner → Option (List Token)
  | 0, _ => none
  | fuel + 1, s =>
    (skipGap fuel s).dropStaleKey?.bind fun s =>
      match s.cursor.head? with
      | none => (s.unroll (-1)).dropKey?.map fun s => s.tokens.reverse
      | some c => ((s.unroll s.column).token? c).bind (scan? fuel)

end Scanner

/-- Carriage returns and next lines as line feeds. -/
def normalBreaks : List Char → List Char
  | '\r' :: '\n' :: rest => '\n' :: normalBreaks rest
  | '\r' :: rest => '\n' :: normalBreaks rest
  | c :: rest => (if c = '\u0085' then '\n' else c) :: normalBreaks rest
  | [] => []

/-- Whether a character may be in a YAML text. -/
def isAllowed (c : Char) : Bool :=
  let n := c.toNat
  c == '\t' || c == '\n' || c == '\r' || (0x20 ≤ n && n ≤ 0x7E) || n == 0x85 ||
    (0xA0 ≤ n && n < 0xFFFE) || 0x10000 ≤ n

/-- **The tokens of a text.** -/
def tokenize? (cs : List Char) : Option (List Token) :=
  if cs.all isAllowed then Scanner.scan? (cs.length + 1) (.start (normalBreaks cs)) else none

end PagedTopK.Yaml
