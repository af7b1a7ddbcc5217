import Nftables.Yaml.Lexer
import Nftables.Yaml.Tag

/-!
# Nodes

The tree that the tokens of a document form. An alias stands for the node with its anchor; within
that node itself it is left as it is. There is one document at most, and an anchor is given once.
-/

namespace Nftables.Yaml

inductive Node where
  | scalar (tag : Tag) (text : String)
  | sequence (tag : Tag) (items : List Node)
  | mapping (tag : Tag) (entries : List (Node × Node))
  /-- the sequence or mapping, by its tag, in which the alias stands -/
  | enclosing (tag : Tag) (isMapping : Bool)

namespace Node

/-- The null that stands where a node is missing. -/
def empty : Node :=
  .scalar .null ""

instance : Inhabited Node := ⟨empty⟩

/-- What is left of a document, and what is known of it. -/
structure Source where
  tokens : List Token
  /-- the tags that handles stand for -/
  handles : List (String × String)
  /-- the nodes of the anchors so far -/
  anchors : List (String × Node) := []

def defaultHandles : List (String × String) :=
  [("!", "!"), ("!!", Tag.standard)]

abbrev Reader := StateT Source (Except Fault)

def peek : Reader (Option Token) :=
  return (← get).tokens.head?

def skip : Reader Unit :=
  modify fun s => { s with tokens := s.tokens.tail }

/-- Is one of some tokens next? -/
def atAny (ts : List Token) : Reader Bool :=
  return (← peek).any ts.contains

/-- Skips a token that has to be next. -/
def expect (t : Token) : Reader Unit := do
  if (← peek) = some t then skip else throw .malformed

/-! ## Properties -/

/-- The anchor and the tag in front of a node. The tag is given in full; an exclamation mark alone
lets the node have the tag of its form. -/
structure Properties where
  anchor : Option String := none
  tag : Option String := none

namespace Properties

def isEmpty (p : Properties) : Bool :=
  p.anchor.isNone && p.tag.isNone

/-- The tag of a collection. -/
def tagOr (p : Properties) (t : Tag) : Tag :=
  match p.tag with
  | none | some "!" => t
  | some name => Tag.ofName name

/-- The tag of a scalar: plain ones have the tag of their form, others are texts. -/
def scalarTag (p : Properties) (text : String) (plain : Bool) : Tag :=
  match p.tag with
  | none => if plain then Tag.ofPlain text.toList else .text
  | some "!" => Tag.ofPlain text.toList
  | some name => Tag.ofName name

end Properties

/-- A tag without its handle. -/
def fullTag (t : TagName) : Reader String := do
  match t.handle with
  | none => return t.suffix
  | some h =>
    match (← get).handles.lookup h with
    | some tag => return tag ++ t.suffix
    | none => throw .malformed

/-- An anchor, which is given once only. -/
def anchor? : Reader (Option String) := do
  match ← peek with
  | some (.anchor a) =>
    skip
    if ((← get).anchors.lookup a).isSome then throw .malformed
    return some a
  | _ => return none

def tag? : Reader (Option String) := do
  match ← peek with
  | some (.tag t) =>
    skip
    return some (← fullTag t)
  | _ => return none

/-- The properties in front of a node, in either order. -/
def properties : Reader Properties := do
  match ← anchor? with
  | some a => return { anchor := some a, tag := ← tag? }
  | none =>
    match ← tag? with
    | some t => return { anchor := ← anchor?, tag := some t }
    | none => return {}

/-- Gives a node an anchor. -/
def note (p : Properties) (n : Node) : Reader Unit :=
  match p.anchor with
  | some a => modify fun s => { s with anchors := (a, n) :: s.anchors }
  | none => return

/-- Properties alone make an empty scalar; without any a node has to follow. -/
def missing (p : Properties) : Reader Node :=
  if p.isEmpty then throw .malformed else return .scalar (p.scalarTag "" true) ""

/-! ## Nodes -/

/-- The tokens at which an entry of a mapping in block style ends. -/
def entryEnds : List Token :=
  [.key, .value, .blockEnd]

mutual

/-- A node. Collections in block style may stand where `block` is true, and a sequence that is not
indented where `unindented` is. -/
def node (block unindented : Bool) : Nat → Reader Node
  | 0 => throw .malformed
  | fuel + 1 => do
    match ← peek with
    | some (.alias a) =>
      skip
      match (← get).anchors.lookup a with
      | some n => return n
      | none => throw .malformed
    | _ =>
      let p ← properties
      let n ← content block unindented p fuel
      note p n
      return n

/-- A node after its properties. -/
def content (block unindented : Bool) (p : Properties) : Nat → Reader Node
  | 0 => throw .malformed
  | fuel + 1 => do
    let sequenceTag := p.tagOr .sequence
    let mappingTag := p.tagOr .mapping
    match ← peek, block, unindented with
    | some (.scalar text plain), _, _ =>
      skip
      return .scalar (p.scalarTag text plain) text
    | some .flowSequenceStart, _, _ =>
      skip
      note p (.enclosing sequenceTag false)
      return .sequence sequenceTag (← flowItems true fuel)
    | some .flowMappingStart, _, _ =>
      skip
      note p (.enclosing mappingTag true)
      return .mapping mappingTag (← flowEntries true fuel)
    | some .blockSequenceStart, true, _ =>
      skip
      note p (.enclosing sequenceTag false)
      return .sequence sequenceTag (← blockItems fuel)
    | some .blockMappingStart, true, _ =>
      skip
      note p (.enclosing mappingTag true)
      return .mapping mappingTag (← blockEntries fuel)
    | some .blockEntry, _, true =>
      note p (.enclosing sequenceTag false)
      return .sequence sequenceTag (← unindentedItems fuel)
    | _, _, _ => missing p

/-- A node, or an empty one if a token that ends it is next. -/
def nodeBefore (ends : List Token) (block unindented : Bool) : Nat → Reader Node
  | 0 => throw .malformed
  | fuel + 1 => do
    if ← atAny ends then return empty else node block unindented fuel

/-- The items of a sequence in block style, each after its sign. -/
def blockItems : Nat → Reader (List Node)
  | 0 => throw .malformed
  | fuel + 1 => do
    match ← peek with
    | some .blockEntry =>
      skip
      let n ← nodeBefore [.blockEntry, .blockEnd] true false fuel
      return n :: (← blockItems fuel)
    | _ =>
      expect .blockEnd
      return []

/-- The items of a sequence that is not indented: it ends without a sign of its own. -/
def unindentedItems : Nat → Reader (List Node)
  | 0 => throw .malformed
  | fuel + 1 => do
    match ← peek with
    | some .blockEntry =>
      skip
      let n ← nodeBefore (.blockEntry :: entryEnds) true false fuel
      return n :: (← unindentedItems fuel)
    | _ => return []

/-- The entries of a mapping in block style. Keys and values may be missing. -/
def blockEntries : Nat → Reader (List (Node × Node))
  | 0 => throw .malformed
  | fuel + 1 => do
    match ← peek with
    | some .key =>
      skip
      let k ← nodeBefore entryEnds true true fuel
      let v ← blockValue fuel
      return (k, v) :: (← blockEntries fuel)
    | _ =>
      expect .blockEnd
      return []

/-- The value of an entry in block style. -/
def blockValue : Nat → Reader Node
  | 0 => throw .malformed
  | fuel + 1 => do
    if ← atAny [.value] then
      skip
      nodeBefore entryEnds true true fuel
    else return empty

/-- The items of a sequence in flow style; a single entry is a mapping of its own. -/
def flowItems (first : Bool) : Nat → Reader (List Node)
  | 0 => throw .malformed
  | fuel + 1 => do
    if ← atAny [.flowSequenceEnd] then
      skip
      return []
    if !first then expect .flowEntry
    match ← peek with
    | some .flowSequenceEnd =>
      skip
      return []
    | some .key =>
      skip
      let e ← flowEntry .flowSequenceEnd fuel
      return .mapping .mapping [e] :: (← flowItems false fuel)
    | _ =>
      let n ← node false false fuel
      return n :: (← flowItems false fuel)

/-- The entries of a mapping in flow style; a node that is no key has no value. -/
def flowEntries (first : Bool) : Nat → Reader (List (Node × Node))
  | 0 => throw .malformed
  | fuel + 1 => do
    if ← atAny [.flowMappingEnd] then
      skip
      return []
    if !first then expect .flowEntry
    match ← peek with
    | some .flowMappingEnd =>
      skip
      return []
    | some .key =>
      skip
      let e ← flowEntry .flowMappingEnd fuel
      return e :: (← flowEntries false fuel)
    | _ =>
      let k ← node false false fuel
      return (k, empty) :: (← flowEntries false fuel)

/-- A key and its value in a collection in flow style with a given end; both may be missing. -/
def flowEntry (close : Token) : Nat → Reader (Node × Node)
  | 0 => throw .malformed
  | fuel + 1 => do
    let k ← nodeBefore [.value, .flowEntry, close] false false fuel
    if ← atAny [.value] then
      skip
      let v ← nodeBefore [.flowEntry, close] false false fuel
      return (k, v)
    else return (k, empty)

end

/-! ## Documents -/

/-- What may stand in front of a document or after it. -/
def isDocumentToken : Token → Bool
  | .versionDirective _ | .tagDirective .. | .unknownDirective | .documentStart | .documentEnd
  | .streamEnd => true
  | _ => false

/-- The directives in front of a document: the handles they give, the others having their defaults.
The major version has to be 1. -/
def directives : List Token → Bool → List (String × String) →
    Except Fault (List (String × String) × List Token)
  | .versionDirective major :: ts, versioned, handles =>
    if versioned ∨ major ≠ 1 then .error .malformed else directives ts true handles
  | .tagDirective handle tag :: ts, versioned, handles =>
    if (handles.lookup handle).isSome then .error .malformed
    else directives ts versioned ((handle, tag) :: handles)
  | .unknownDirective :: ts, versioned, handles => directives ts versioned handles
  | ts, _, handles => .ok (handles ++ defaultHandles, ts)

/-- The node at the top of a document, and the tokens after it. -/
def root (handles : List (String × String)) (ts : List Token) :
    Except Fault (Node × List Token) := do
  let (n, s) ← (node true false (6 * ts.length + 6)).run { tokens := ts, handles }
  .ok (n, s.tokens)

/-- A document that begins with directives or with a marker; nothing need follow the marker. -/
def explicitDocument (ts : List Token) : Except Fault (Node × List Token) := do
  let (handles, ts) ← directives ts false []
  match ts with
  | .documentStart :: ts =>
    if ts.head?.any isDocumentToken then .ok (empty, ts) else root handles ts
  | _ => .error .malformed

/-- The only document of a text; nothing if there is none. -/
def ofTokens (ts : List Token) : Except Fault (Option Node) := do
  match ts with
  | [.streamEnd] => .ok none
  | t :: _ =>
    let (n, rest) ←
      if isDocumentToken t && t ≠ .documentEnd then explicitDocument ts
      else root defaultHandles ts
    if rest.dropWhile (· = .documentEnd) = [.streamEnd] then .ok (some n) else .error .malformed
  | [] => .ok none

def parse (text : List Char) : Except Fault (Option Node) := do
  ofTokens (← tokens text)

end Node

end Nftables.Yaml
