import Chronicle.Yaml.Node
import Chronicle.Yaml.Scalar

/-!
# Reading YAML

The reader from texts with one document to nodes.

## Implementation notes

Outside brackets the column of a token decides where it belongs: readers are told the least column of
what they may read and leave the rest alone. Whether a node is the first key of a mapping is only seen at
the colon behind it, so that it is read once as a node and, if a colon follows on its line, once more as
a key.

The readers call each other through nesting and take an amount of fuel; `Node.ofText?` gives them more
than the text can use.
-/

namespace Chronicle

namespace Yaml

/-- What is left of a text, and the nodes that were given names so far. -/
structure Reading where
  cursor : Cursor
  anchors : List (String × Node) := []

namespace Reading

/-- The reading at another place. -/
def moved (r : Reading) (cursor : Cursor) : Reading := { r with cursor := cursor }

end Reading

/-- What stands before a node. -/
structure Properties where
  anchor : Option String := none
  tag : Option String := none

namespace Properties

/-- A node with its tag. -/
def tagged (p : Properties) : Node → Node
  | .scalar style tag text => .scalar style (p.tag.or tag) text
  | node => node

/-- A node with its tag, and the reading after it is given its name. -/
def complete (p : Properties) (node : Node) (r : Reading) : Node × Reading :=
  let node := p.tagged node
  match p.anchor with
  | some name => (node, { r with anchors := (name, node) :: r.anchors })
  | none => (node, r)

end Properties

/-- Whether a character may stand in the name of an anchor. -/
def isNameChar (c : Char) : Bool := c.isAlphanum || c = '_' || c = '-'

/-- Whether a character may stand in a tag. -/
def isTagChar (c : Char) : Bool :=
  isNameChar c || [';', '/', '?', ':', '@', '&', '=', '+', '$', '.', '!', '~', '*', '\'', '(', ')',
    '%'].contains c

/-- The name of an anchor after its mark, and the place after it. -/
def name? (c : Cursor) : Option (String × Cursor) :=
  let name := c.rest.takeWhile isNameChar
  let c := c.skip name.length
  if name.isEmpty then none
  else if endsWord c.rest || c.rest.head?.any fun next =>
      ['?', ':', ',', ']', '\x7d', '%', '@'].contains next || next.toNat = 96 then
    some (String.ofList name, c)
  else none

/-- The tag that begins at a place, and the place after it. -/
def tag? (c : Cursor) : Option (String × Cursor) :=
  let ended (tag : String) (c : Cursor) : Option (String × Cursor) :=
    if endsWord c.rest || c.rest.head? = some ',' then some (tag, c) else none
  match c.rest with
  | '!' :: '<' :: rest =>
    let uri := rest.takeWhile isTagChar
    let c := c.skip (uri.length + 2)
    if !uri.isEmpty && c.rest.head? = some '>' then ended (String.ofList uri) (c.skip 1) else none
  | '!' :: '!' :: rest =>
    let suffix := rest.takeWhile isTagChar
    if suffix.isEmpty then none
    else ended ("tag:yaml.org,2002:" ++ String.ofList suffix) (c.skip (suffix.length + 2))
  | '!' :: rest =>
    let suffix := rest.takeWhile isTagChar
    if suffix.contains '!' then none
    else ended ("!" ++ String.ofList suffix) (c.skip (suffix.length + 1))
  | _ => none

/-- The properties at a place and the place of what follows them: at most one anchor and one tag. -/
def properties? (toNext : Cursor → Cursor) (c : Cursor) : Option (Properties × Cursor) :=
  let anchor? (c : Cursor) : Option (Option String × Cursor) :=
    if c.rest.head? = some '&' then
      (name? (c.skip 1)).map fun (name, c) => (some name, toNext c)
    else some (none, c)
  let optionalTag? (c : Cursor) : Option (Option String × Cursor) :=
    if c.rest.head? = some '!' then (tag? c).map fun (tag, c) => (some tag, toNext c)
    else some (none, c)
  do
    let (anchor, c) ← anchor? c
    let (tag, c) ← optionalTag? c
    match anchor with
    | some _ => some (⟨anchor, tag⟩, c)
    | none =>
      match tag with
      | some _ => do
        let (anchor, c) ← anchor? c
        some (⟨anchor, tag⟩, c)
      | none => some (⟨none, none⟩, c)

/-- Whether a plain scalar may begin at a place. -/
def beginsPlain (flow : Bool) (s : List Char) : Bool :=
  match s with
  | [] => false
  | c :: rest =>
    if c = '-' then !rest.head?.any isBlank
    else if c = '?' || c = ':' then !flow && !endsWord rest
    else
      !(isBlank c || c = '\n' || isFlowMark c || c.toNat = 96 ||
        ['#', '&', '*', '!', '|', '>', '\'', '"', '%', '@'].contains c)

/-- Reads a scalar without properties, or an alias. -/
def leaf? (flow : Bool) (least : Nat) (r : Reading) : Option (Node × Reading) :=
  let c := r.cursor
  let scalar (style : ScalarStyle) : Option (List Char × Cursor) → Option (Node × Reading)
    | some (text, c) => some (.scalar style none (String.ofList text), r.moved c)
    | none => none
  match c.rest with
  | '*' :: _ => do
    let (name, c) ← name? (c.skip 1)
    some (← r.anchors.lookup name, r.moved c)
  | '\'' :: rest => scalar .quoted (singleQuoted? [] .none rest c.line (c.column + 1))
  | '"' :: rest => scalar .quoted (doubleQuoted? [] .none rest c.line (c.column + 1))
  | s =>
    if beginsPlain flow s then scalar .plain (plain? flow least [] .none s c.line c.column) else none

/-! ### Nodes in brackets -/

/-- Whether something is left out before a mark inside brackets. -/
def isFlowEnd (c : Cursor) : Bool :=
  c.rest.isEmpty || c.rest.head?.any fun next => [',', ']', '\x7d', ':'].contains next

mutual

/-- Reads a node inside brackets, which may be left out. -/
def flowNode? : Nat → Nat → Reading → Option (Node × Reading)
  | 0, _, _ => none
  | fuel + 1, least, r => do
    let (p, c) ← properties? Cursor.toFlowToken r.cursor
    let r := r.moved c
    if isFlowEnd c then some (p.complete .absent r)
    else
      let (node, r) ← collection? fuel true least r
      some (p.complete node r)

/-- Reads a scalar, an alias or what stands in brackets. -/
def collection? : Nat → Bool → Nat → Reading → Option (Node × Reading)
  | 0, _, _, _ => none
  | fuel + 1, flow, least, r =>
    match r.cursor.rest with
    | '[' :: _ => do
      let (items, r) ← flowItems? fuel ']' least (r.moved (r.cursor.skip 1))
      some (.sequence (items.map fun (key, value) =>
        match value with
        | some value => .mapping [(key, value)]
        | none => key), r)
    | '\x7b' :: _ => do
      let (items, r) ← flowItems? fuel '\x7d' least (r.moved (r.cursor.skip 1))
      some (.mapping (items.map fun (key, value) => (key, value.getD .absent)), r)
    | _ => leaf? flow least r

/-- Reads the items in brackets up to the closing one; each is a node or a key with a value. -/
def flowItems? : Nat → Char → Nat → Reading → Option (List (Node × Option Node) × Reading)
  | 0, _, _, _ => none
  | fuel + 1, closing, least, r => do
    let r := r.moved r.cursor.toFlowToken
    match r.cursor.rest with
    | [] => none
    | first :: _ =>
      if r.cursor.isAtEnd then none
      else if first = closing then some ([], r.moved (r.cursor.skip 1))
      else if first = ',' then none
      else
        let (isExplicit, r) :=
          if first = '?' then (true, r.moved (r.cursor.skip 1).toFlowToken) else (false, r)
        let line := r.cursor.line
        let (key, r) ← flowNode? fuel least r
        let r := r.moved r.cursor.toFlowToken
        let (value, r) ←
          if r.cursor.rest.head? = some ':' && (isExplicit || r.cursor.line = line) then do
            let (value, r) ← flowNode? fuel least (r.moved (r.cursor.skip 1).toFlowToken)
            some (some value, r)
          else some (if isExplicit then some .absent else none, r)
        let r := r.moved r.cursor.toFlowToken
        match r.cursor.rest with
        | [] => none
        | next :: _ =>
          if next = closing then some ([(key, value)], r.moved (r.cursor.skip 1))
          else if next = ',' then do
            let (items, r) ← flowItems? fuel closing least (r.moved (r.cursor.skip 1))
            some ((key, value) :: items, r)
          else none

end

/-! ### Nodes outside brackets -/

/-- Reads a key on one line with the colon behind it. -/
def key? (fuel least : Nat) (r : Reading) : Option (Node × Reading) := do
  let (p, c) ← properties? Cursor.afterBlanks r.cursor
  let inner := r.moved c
  let (node, after) ←
    if c.isAt ':' then some (p.complete .absent inner)
    else (collection? fuel false least inner).map fun (node, r) => p.complete node r
  let c := after.cursor.afterBlanks
  if c.line = r.cursor.line && c.isAt ':' then some (node, after.moved (c.skip 1)) else none

/-- What may be read at a place. -/
structure Permission where
  /-- The least column. -/
  least : Nat
  /-- Whether a sequence may also begin one column before. -/
  isValue : Bool := false
  /-- Whether a mapping or a sequence may begin here. -/
  mayNest : Bool := true

mutual

/-- Reads a node with its properties, which may be left out. -/
def block? : Nat → Permission → Reading → Option (Node × Reading)
  | 0, _, _ => none
  | fuel + 1, may, r =>
    let c := r.cursor
    let isIndentless := may.isValue && may.mayNest && c.column + 1 = may.least && c.isAt '-'
    if c.isAtEnd || (c.column < may.least && !isIndentless) then some (.absent, r)
    else
      match if may.mayNest then key? fuel may.least r else none with
      | some _ => do
        let (members, r) ← members? fuel c.column r
        some (.mapping members, r)
      | none => do
        let (p, c') ← properties? (·.toToken true) c
        let hasMoved := c'.line ≠ c.line
        let hasProperties := p.anchor.isSome || p.tag.isSome
        let (node, r) ←
          content? fuel { may with mayNest := hasMoved || (may.mayNest && !hasProperties) } (r.moved c')
        some (p.complete node r)

/-- Reads a node after its properties. -/
def content? : Nat → Permission → Reading → Option (Node × Reading)
  | 0, _, _ => none
  | fuel + 1, may, r =>
    let c := r.cursor
    let isIndentless := may.isValue && c.column + 1 = may.least && c.isAt '-'
    if c.isAtEnd || (c.column < may.least && !isIndentless) then some (.absent, r)
    else if c.isAt '-' then
      if may.mayNest then do
        let (items, r) ← items? fuel c.column isIndentless r
        some (.sequence items, r)
      else none
    else
      match if may.mayNest then key? fuel may.least r else none with
      | some _ => do
        let (members, r) ← members? fuel c.column r
        some (.mapping members, r)
      | none =>
        match c.rest with
        | '|' :: _ =>
          (blockScalar? false may.least (c.skip 1)).map fun (text, c) =>
            (.scalar .literal none (String.ofList text), r.moved c)
        | '>' :: _ =>
          (blockScalar? true may.least (c.skip 1)).map fun (text, c) =>
            (.scalar .folded none (String.ofList text), r.moved c)
        | _ =>
          if c.isAt '?' then
            if may.mayNest then do
              let (members, r) ← members? fuel c.column r
              some (.mapping members, r)
            else none
          else collection? fuel false may.least r

/-- Reads the items of a sequence whose marks stand in a column. -/
def items? : Nat → Nat → Bool → Reading → Option (List Node × Reading)
  | 0, _, _, _ => none
  | fuel + 1, column, isIndentless, r => do
    let (item, r) ← block? fuel ⟨column + 1, false, true⟩ (r.moved ((r.cursor.skip 1).toToken false))
    let r := r.moved (r.cursor.toToken true)
    let c := r.cursor
    if c.isAtEnd || c.column < column then some ([item], r)
    else if c.column = column && c.isAt '-' then do
      let (items, r) ← items? fuel column isIndentless r
      some (item :: items, r)
    else if c.column = column && isIndentless then some ([item], r)
    else none

/-- Reads the members of a mapping whose keys stand in a column. -/
def members? : Nat → Nat → Reading → Option (List (Node × Node) × Reading)
  | 0, _, _ => none
  | fuel + 1, column, r => do
    let (key, value, r) ←
      if r.cursor.isAt '?' then do
        let (key, r) ←
          block? fuel ⟨column + 1, false, true⟩ (r.moved ((r.cursor.skip 1).toToken false))
        let r := r.moved (r.cursor.toToken true)
        if r.cursor.column = column && r.cursor.isAt ':' then do
          let (value, r) ←
            block? fuel ⟨column + 1, true, true⟩ (r.moved ((r.cursor.skip 1).toToken false))
          some (key, value, r)
        else some (key, .absent, r)
      else do
        let (key, r) ← key? fuel (column + 1) r
        let line := r.cursor.line
        let r := r.moved (r.cursor.toToken true)
        let (value, r) ← block? fuel ⟨column + 1, true, r.cursor.line ≠ line⟩ r
        some (key, value, r)
    let r := r.moved (r.cursor.toToken true)
    let c := r.cursor
    if c.isAtEnd || c.column < column then some ([(key, value)], r)
    else if c.column = column then do
      let (members, r) ← members? fuel column r
      some ((key, value) :: members, r)
    else none

end

/-! ### Documents -/

/-- A text with every line break written as one character. -/
def unifyBreaks : List Char → List Char
  | '\r' :: '\n' :: rest => '\n' :: unifyBreaks rest
  | c :: rest =>
    (if c = '\r' || c.toNat = 0x85 || c.toNat = 0x2028 || c.toNat = 0x2029 then '\n' else c) ::
      unifyBreaks rest
  | [] => []

/-- Whether a character may stand in a document. -/
def isAllowed (c : Char) : Bool :=
  let code := c.toNat
  code = 9 || code = 10 || code = 13 || (32 ≤ code && code ≤ 126) || code = 0x85 ||
    (0xA0 ≤ code && code ≤ 0xFFFD && code ≠ 0xFEFF) || 0x10000 ≤ code

/-- The place after a directive that tells the version, if one stands at a place. -/
def afterVersion? (c : Cursor) : Option Cursor :=
  match c.rest with
  | '%' :: rest =>
    let line := rest.takeWhile (· ≠ '\n')
    let words := (String.ofList line).splitOn " " |>.filter (!·.isEmpty)
    match words with
    | "YAML" :: version :: others =>
      if ["1.1", "1.2"].contains version && others.head?.all (·.startsWith "#") then
        some ((c.skip (line.length + 1)).toToken false)
      else none
    | _ => none
  | _ => some c

/-- Whether nothing but the end of the document is left. -/
def isFinished : Nat → Cursor → Bool
  | 0, _ => false
  | fuel + 1, c =>
    let c := c.toToken true
    if c.rest.isEmpty then true
    else if c.column = 0 && hasMark '.' c.rest then isFinished fuel (c.skip 3)
    else false

/-- The node of the only document in a text; an empty text writes what is left out. -/
def Node.ofText? (text : String) : Option Node := do
  let s :=
    match text.toList with
    | c :: rest => if c.toNat = 0xFEFF then rest else c :: rest
    | [] => []
  if !s.all isAllowed then none
  else
    let s := unifyBreaks s
    let fuel := 4 * s.length + 8
    let first := (⟨s, 0, 0⟩ : Cursor).toToken false
    let start ← afterVersion? first
    let (c, mayNest) : Cursor × Bool ←
      if start.column = 0 && hasMark '-' start.rest then
        let c := (start.skip 3).toToken true
        some (c, c.line ≠ start.line)
      else if start.line ≠ first.line then none
      else some (start, true)
    let (node, r) ← block? fuel ⟨0, false, mayNest⟩ ⟨c, []⟩
    if isFinished fuel r.cursor then some node else none

end Yaml

end Chronicle
