import Refuter.Json.Printer
import Refuter.Json.Reader
import Refuter.Settings.Line
import Refuter.Settings.Plain

/-! # Settings documents

Settings are kept in a small part of YAML: mappings of `key: value` lines and
lists of `- value` lines, which stand inside one another by indentation. A
value is a text in quotes, a list or mapping in brackets as in JSON, or plain;
a plain one may go on over deeper lines. Anchors, tags, merge keys, blocks of text, several
documents in one and everything else in brackets are refused as a notation that is not read.

**Two passes.** The lines are first put together to a tree of texts; only then
is each plain text read as what it looks like. So a document that is not put
together well is refused for that before any of its values is looked at.
-/

namespace Refuter.Settings.Document

/-- A part of a document. -/
inductive Node where
  /-- A plain text. -/
  | plain (text : List Char)
  /-- A value that is read already. -/
  | value (v : Json)
  /-- A list. -/
  | list (items : List Node)
  /-- A mapping. -/
  | mapping (members : List (Node × Node))

/-! ### Single values -/

/-- Does a plain text start in a way that means something else, and what is then
    wrong? Anchors, tags and blocks of text are not read. -/
def startFault? : List Char → Option Error
  | '&' :: _ | '*' :: _ | '!' :: _ | '|' :: _ | '>' :: _ => some .unsupported
  | '@' :: _ | '%' :: _ | '\x60' :: _ => some .unscannable
  | ['-'] | '-' :: ' ' :: _ | ['?'] | '?' :: ' ' :: _ => some .unscannable
  | ',' :: _ | ']' :: _ | '\x7d' :: _ => some .unparsable
  | _ => none

/-- A plain text as a part of a document. It holds no tab and no colon before a
    blank. -/
def plainNode (text : List Char) : Except Error Node :=
  match startFault? text with
  | some e => .error e
  | none =>
    if text.contains '\t' || (Line.cutAtColon? text).isSome then .error .unscannable
    else .ok (.plain text)

/-- The value of a text in brackets, if it is one in JSON too. Decimal numbers, escapes and
    tabs are not the same there. -/
def bracketed? (text : List Char) : Option Json :=
  if text.contains '\\' || text.contains '\t' then none
  else if (Json.tokens text).any fun | .scalar (.decimal _) => true | _ => false then none
  else Json.parse? (String.ofList text)

/-- The part that a text makes by itself. -/
def single (text : List Char) : Except Error Node :=
  let bare := Line.trim (Line.beforeComment text)
  match readQuotation text with
  | some read => do
    let (s, behind) ← read
    if Line.isSilent behind then return .value (.str (String.ofList s))
    else throw (if behind.contains '\t' then .unscannable else .unparsable)
  | none =>
    if Line.isBracketed text then
      match bracketed? text <|> bracketed? bare with
      | some v => .ok (.value v)
      | none => .error .unsupported
    else plainNode bare

/-- The part that a text makes together with the deeper lines behind it. Only a
    plain text goes on there, and no member can start in it. -/
def continued (text : List Char) (lines : List Line) : Except Error Node :=
  if lines.isEmpty then single text
  else if Line.isBracketed text then .error .unsupported
  else if (readQuotation text).isSome then .error .unparsable
  else if lines.any fun line => (Line.keyed? line.content).isSome then .error .unscannable
  else single (lines.foldl (fun text line => text ++ ' ' :: line.content) text)

/-- The part that a key makes. A dash or a question mark in front of the colon is a key like
    any other. -/
def ofKey : Line.Key → Except Error Node
  | .quoted text => .ok (.value (.str (String.ofList text)))
  | .plain text =>
    match startFault? (text ++ [':']) with
    | some e => .error e
    | none => .ok (.plain text)

/-! ### Blocks

A block is a run of lines of which none is indented less than the first. -/

/-- The weight of lines, by which putting them together ends. -/
def weight : List Line → Nat
  | [] => 0
  | line :: rest => line.content.length + 1 + weight rest

theorem weight_takeWhile_le (p : Line → Bool) (lines : List Line) :
    weight (lines.takeWhile p) ≤ weight lines := by
  induction lines with
  | nil => simp
  | cons line rest ih =>
    rw [List.takeWhile_cons]
    split
    · simpa [weight] using ih
    · simp [weight]

theorem weight_dropWhile_le (p : Line → Bool) (lines : List Line) :
    weight (lines.dropWhile p) ≤ weight lines := by
  induction lines with
  | nil => simp
  | cons line rest ih =>
    rw [List.dropWhile_cons]
    split
    · exact Nat.le_trans ih (Nat.le_add_left _ _)
    · exact Nat.le_refl _

/-- The lines of the item whose text is given: that text, as far as it says
    something, and the deeper lines. -/
def itemLines (indent : Nat) (text : List Char) (deeper : List Line) : List Line :=
  if Line.isSilent text then deeper else { indent, content := text } :: deeper

theorem weight_itemLines_le (indent : Nat) (text : List Char) (deeper : List Line) :
    weight (itemLines indent text deeper) ≤ text.length + 1 + weight deeper := by
  unfold itemLines
  split <;> simp [weight]

/-- Does a list start at an indentation? -/
def startsList (indent : Nat) : List Line → Bool
  | [] => false
  | line :: _ => indent = line.indent && line.isItem

/-- Does a line belong to the member that stands at an indentation and has the
    given text and lines behind it? It is indented more, or it is an item of a
    list right below a key without a text. -/
def belongs (indent : Nat) (text : List Char) (behind : List Line) (line : Line) : Bool :=
  indent < line.indent
    || (Line.isSilent text && startsList indent behind && indent = line.indent && line.isItem)

mutual

/-- Puts a block together. -/
def block : List Line → Except Error Node
  | [] => .ok (.plain [])
  | first :: rest =>
    if first.isItem then return .list (← items first.indent (first :: rest))
    else if (Line.keyed? first.content).isSome then
      return .mapping (← members first.indent (first :: rest))
    else continued first.content rest
termination_by lines => 2 * weight lines + 1

/-- Puts the items of a list together. -/
def items (indent : Nat) : List Line → Except Error (List Node)
  | [] => .ok []
  | line :: rest =>
    if line.indent ≠ indent then .error .unparsable
    else match _h : Line.item? line.content with
      | none => .error .unparsable
      | some text => do
        let item ← block (itemLines (indent + (line.content.length - text.length)) text
          (rest.takeWhile fun l => indent < l.indent))
        return item :: (← items indent (rest.dropWhile fun l => indent < l.indent))
termination_by lines => 2 * weight lines
decreasing_by
  · have h₁ := Line.length_item? _h
    have h₂ := weight_itemLines_le (indent + (line.content.length - text.length)) text
      (rest.takeWhile fun l => indent < l.indent)
    have h₃ := weight_takeWhile_le (fun l => indent < l.indent) rest
    simp only [weight]
    omega
  · have := weight_dropWhile_le (fun l => indent < l.indent) rest
    simp only [weight]
    omega

/-- Puts the members of a mapping together. -/
def members (indent : Nat) : List Line → Except Error (List (Node × Node))
  | [] => .ok []
  | line :: rest =>
    if line.indent ≠ indent then .error .unparsable
    else match Line.keyed? line.content with
      | none => .error (if line.isItem then .unparsable else .unscannable)
      | some (.error e) => .error e
      | some (.ok (key, text)) => do
        let key ← ofKey key
        let value ←
          if Line.isSilent text then block (rest.takeWhile (belongs indent text rest))
          else continued text (rest.takeWhile (belongs indent text rest))
        return (key, value) :: (← members indent (rest.dropWhile (belongs indent text rest)))
termination_by lines => 2 * weight lines
decreasing_by
  all_goals
    have h₁ := weight_takeWhile_le (belongs indent text rest) rest
    have h₂ := weight_dropWhile_le (belongs indent text rest) rest
    simp only [weight]
    omega

end

/-! ### Values -/

/-- The name that a value makes as a key. -/
def keyName : Json → String
  | .str s => s
  | v => v.render none

mutual

/-- The value of a part. -/
def Node.read : Node → Except Error Json
  | .plain text => Plain.value text
  | .value v => .ok v
  | .list items => do return .arr (← readItems items)
  | .mapping members => do return .obj (Members.ofList (← readMembers members))

/-- The values of several parts. -/
def readItems : List Node → Except Error (List Json)
  | [] => .ok []
  | node :: rest => do
    let v ← node.read
    return v :: (← readItems rest)

/-- The members of a mapping. -/
def readMembers : List (Node × Node) → Except Error (List (String × Json))
  | [] => .ok []
  | (key, node) :: rest => do
    let name ← key.read
    let v ← node.read
    return (keyName name, v) :: (← readMembers rest)

end

/-- Drops the line that may open a document. -/
def dropOpening : List Line → List Line
  | ⟨0, ['-', '-', '-']⟩ :: rest => rest
  | lines => lines

/-- Does a line end a document, or start a further one? -/
def isMark (line : Line) : Bool :=
  line.indent = 0 && match line.content with
    | ['-', '-', '-'] | '-' :: '-' :: '-' :: ' ' :: _ => true
    | ['.', '.', '.'] | '.' :: '.' :: '.' :: ' ' :: _ => true
    | _ => false

/-- The value of a document; nothing said is the absent value. -/
def parse (text : String) : Except Error Json := do
  let lines := dropOpening (← Line.ofDocument text)
  if lines.any isMark then throw .unsupported
  let node ← block lines
  node.read

end Refuter.Settings.Document
