import Refuter.Json.Lexer

/-! # Reading JSON

Tokens are consumed one by one by a machine with a stack: the stack holds the
lists and objects that are still open, the mode says what may come next. Each
token costs one step, so reading is a fold over the token list and always ends.

**Inside out.** An object is handed to `Reading.obj` at its closing brace,
before anything behind it is looked at. A reading may refuse it, and that
refusal wins over whatever is wrong further on.
-/

namespace Refuter.Json

/-- What a reader makes of each kind of value. -/
structure Reading (ε α : Type) where
  /-- A value without parts. -/
  scalar : Scalar → α
  /-- A list, from what was made of its items. -/
  arr : List α → α
  /-- An object, from what was made of its members; may be refused. -/
  obj : Members α → Except ε α

/-- Why a text could not be read. -/
inductive ReadError (ε : Type) where
  /-- The text is not JSON. -/
  | malformed
  /-- A whole number has too many digits. -/
  | oversized (digits : Nat)
  /-- An object was refused. -/
  | refused (reason : ε)

/-- A list or object that is still open, with what it holds so far (last first). -/
inductive Frame (α : Type) where
  /-- A list waiting for its next item. -/
  | items (before : List α)
  /-- An object waiting for the value under `name`. -/
  | member (before : List (String × α)) (name : String)

/-- What may come next. -/
inductive Mode (α : Type) where
  /-- A value. -/
  | value
  /-- A first item or the end of the list just opened. -/
  | arrayStart
  /-- A first name or the end of the object just opened. -/
  | objectStart
  /-- A further name. -/
  | name (before : List (String × α))
  /-- The colon behind a name. -/
  | colon (before : List (String × α)) (name : String)
  /-- Whatever may follow the value just completed. -/
  | after (value : α)

/-- The reading machine. -/
structure Machine (α : Type) where
  /-- What is still open, innermost first. -/
  stack : List (Frame α)
  /-- What may come next. -/
  mode : Mode α

namespace Machine

variable {ε α : Type}

/-- Nothing read yet. -/
def start : Machine α :=
  ⟨[], .value⟩

/-- A token at a place where a value must start. -/
def stepValue (r : Reading ε α) (stack : List (Frame α)) : Token → Except (ReadError ε) (Machine α)
  | .scalar s => .ok ⟨stack, .after (r.scalar s)⟩
  | .openArray => .ok ⟨stack, .arrayStart⟩
  | .openObject => .ok ⟨stack, .objectStart⟩
  | .oversized digits => .error (.oversized digits)
  | _ => .error .malformed

/-- Closes an object. -/
def closeObject (r : Reading ε α) (stack : List (Frame α)) (before : List (String × α)) :
    Except (ReadError ε) (Machine α) :=
  match r.obj (Members.ofList before.reverse) with
  | .ok value => .ok ⟨stack, .after value⟩
  | .error reason => .error (.refused reason)

/-- One token. -/
def step (r : Reading ε α) (m : Machine α) (token : Token) : Except (ReadError ε) (Machine α) :=
  match m.mode, token with
  | .value, t => stepValue r m.stack t
  | .arrayStart, .closeArray => .ok ⟨m.stack, .after (r.arr [])⟩
  | .arrayStart, t => stepValue r (.items [] :: m.stack) t
  | .objectStart, .closeObject => closeObject r m.stack []
  | .objectStart, .scalar (.str name) => .ok ⟨m.stack, .colon [] name⟩
  | .name before, .scalar (.str name) => .ok ⟨m.stack, .colon before name⟩
  | .colon before name, .colon => .ok ⟨.member before name :: m.stack, .value⟩
  | .after v, t =>
    match m.stack, t with
    | .items before :: stack, .comma => .ok ⟨.items (v :: before) :: stack, .value⟩
    | .items before :: stack, .closeArray => .ok ⟨stack, .after (r.arr (v :: before).reverse)⟩
    | .member before name :: stack, .comma => .ok ⟨stack, .name ((name, v) :: before)⟩
    | .member before name :: stack, .closeObject => closeObject r stack ((name, v) :: before)
    | _, _ => .error .malformed
  | _, _ => .error .malformed

/-- The value of a machine that has read one whole value. -/
def result : Machine α → Except (ReadError ε) α
  | ⟨[], .after value⟩ => .ok value
  | _ => .error .malformed

end Machine

/-- Reads a text that is one JSON value and nothing else. -/
def readWith {ε α : Type} (r : Reading ε α) (text : List Char) : Except (ReadError ε) α := do
  let machine ← (tokens text).foldlM (Machine.step r) Machine.start
  machine.result

/-- The reading that keeps every value as it is. -/
def plain : Reading Empty Json where
  scalar := .scalar
  arr := .arr
  obj members := .ok (.obj members)

/-- The value of a JSON text, if it is one. -/
def parse? (text : String) : Option Json :=
  (readWith plain text.toList).toOption

end Refuter.Json
