import Refuter.Number.Shortest
import Refuter.Text.Quoted

/-! # JSON values

Clauses, derivations, traces and settings are exchanged as JSON. A value is a
scalar, a list or an object. Objects keep the order in which their members
were written, because that order shows in every text made from them; a name
occurs once.

Whole numbers are unbounded and stay apart from decimal ones, which are kept
to the digits of the double format.
-/

namespace Refuter

/-- Values that hold no other values. -/
inductive Scalar where
  /-- The absent value. -/
  | null
  /-- A truth value. -/
  | bool (value : Bool)
  /-- A whole number of any size. -/
  | int (value : Int)
  /-- A number written with a point or an exponent, or without digits. -/
  | decimal (value : Double)
  /-- A text. -/
  | str (value : String)
  deriving Repr, DecidableEq, Inhabited

/-- A JSON value. -/
inductive Json where
  /-- A value without parts. -/
  | scalar (value : Scalar)
  /-- A list of values. -/
  | arr (items : List Json)
  /-- Named values in the order written. -/
  | obj (members : List (String × Json))
  deriving Repr, BEq, Inhabited

namespace Json

/-- The absent value. -/
@[match_pattern] abbrev null : Json := .scalar .null

/-- A truth value. -/
@[match_pattern] abbrev bool (b : Bool) : Json := .scalar (.bool b)

/-- A whole number. -/
@[match_pattern] abbrev int (n : Int) : Json := .scalar (.int n)

/-- A decimal number. -/
@[match_pattern] abbrev decimal (x : Double) : Json := .scalar (.decimal x)

/-- A text. -/
@[match_pattern] abbrev str (s : String) : Json := .scalar (.str s)

/-- A natural number as a value. -/
def nat (n : Nat) : Json := .int n

/-- A value that may be absent. -/
def ofOption {α : Type} (f : α → Json) : Option α → Json
  | none => .null
  | some a => f a

end Json

/-! ### Members -/

/-- Named values in the order of their first appearance. -/
abbrev Members (α : Type) := List (String × α)

namespace Members

variable {α : Type}

/-- The value under a name. -/
def get? (members : Members α) (name : String) : Option α :=
  members.lookup name

/-- Sets the value under a name: a known name keeps its place, a new one goes
    to the end. -/
def set (members : Members α) (name : String) (value : α) : Members α :=
  match members with
  | [] => [(name, value)]
  | (n, v) :: rest => if n = name then (n, value) :: rest else (n, v) :: set rest name value

/-- Members read in order; of a repeated name the last value wins. -/
def ofList (pairs : List (String × α)) : Members α :=
  pairs.foldl (fun members (name, value) => set members name value) []

/-- **Read after write.** -/
theorem get?_set_self (members : Members α) (name : String) (value : α) :
    get? (set members name value) name = some value := by
  induction members with
  | nil => simp [set, get?]
  | cons m rest ih =>
    obtain ⟨n, v⟩ := m
    by_cases h : n = name
    · simp [set, get?, h]
    · have h' : (name == n) = false := by simpa using fun e => h (Eq.symm e)
      simpa [set, get?, h, List.lookup_cons, h'] using ih

/-- **Writing one name leaves the others.** -/
theorem get?_set_of_ne (members : Members α) {name other : String} (value : α) (h : other ≠ name) :
    get? (set members name value) other = get? members other := by
  induction members with
  | nil =>
    have h' : (other == name) = false := by simpa using h
    simp [set, get?, List.lookup_cons, h']
  | cons m rest ih =>
    obtain ⟨n, v⟩ := m
    by_cases hn : n = name
    · subst hn
      have h' : (other == n) = false := by simpa using h
      simp [set, get?, List.lookup_cons, h']
    · simp only [set, hn, if_false, get?, List.lookup_cons]
      split
      · rfl
      · exact ih

theorem mem_names_set {members : Members α} {name other : String} {value : α}
    (h : other ∈ (members.set name value).map (·.1)) :
    other ∈ members.map (·.1) ∨ other = name := by
  induction members with
  | nil => exact .inr (List.mem_singleton.1 h)
  | cons m rest ih =>
    obtain ⟨n, v⟩ := m
    unfold set at h
    split at h
    · exact .inl h
    · rcases List.mem_cons.1 h with rfl | h
      · exact .inl List.mem_cons_self
      · exact (ih h).imp_left (List.mem_cons_of_mem n)

/-- Setting a value makes no name occur twice. -/
theorem nodup_set {members : Members α} (h : (members.map (·.1)).Nodup) (name : String)
    (value : α) : ((members.set name value).map (·.1)).Nodup := by
  induction members with
  | nil => exact List.nodup_cons.2 ⟨List.not_mem_nil, List.nodup_nil⟩
  | cons m rest ih =>
    obtain ⟨n, v⟩ := m
    rw [List.map_cons, List.nodup_cons] at h
    unfold set
    split
    · exact List.nodup_cons.2 h
    · rename_i hne
      refine List.nodup_cons.2 ⟨?_, ih h.2⟩
      intro hmem
      rcases mem_names_set hmem with hold | hnew
      · exact h.1 hold
      · exact hne hnew

end Members

/-! ### The text of a value

Messages show a value the way it would be written down in a program: texts
quoted, the absent value and the truth values by name. -/

namespace Scalar

/-- The most digits of a whole number that is read from a text or written to one. -/
def maxDigits : Nat := 4300

/-- The digits of a whole number, with its sign. -/
def intText : Int → List Char
  | .ofNat n => natText n
  | .negSucc n => '-' :: natText (n + 1)

/-- Can a scalar be written? A whole number must not have too many digits. -/
def isWritable : Scalar → Bool
  | .int n => (natText n.natAbs).length ≤ maxDigits
  | _ => true

/-- The whole number that a scalar stands for: a truth value counts as one or
    zero. -/
def whole? : Scalar → Option Int
  | .bool b => some (if b then 1 else 0)
  | .int n => some n
  | .decimal x => x.whole?
  | _ => none

/-- The numerator and the denominator of a finite number or a truth value. -/
def ratio? : Scalar → Option (Int × Nat)
  | .bool b => some (if b then 1 else 0, 1)
  | .int n => some (n, 1)
  | .decimal x => x.ratio?
  | _ => none

/-- Is the first of two numbers the larger one? An infinite number is larger or
    smaller than all finite ones. -/
def exceeds (a b : Scalar) : Bool :=
  match a.ratio?, b.ratio? with
  | some (n, d), some (m, e) => m * d < n * e
  | some _, none => b = .decimal (.infinite true)
  | none, some _ => a = .decimal (.infinite false)
  | none, none => a = .decimal (.infinite false) && b = .decimal (.infinite true)

/-- The word for the kind of a scalar. -/
def kindName : Scalar → String
  | .null => "NoneType"
  | .bool _ => "bool"
  | .int _ => "int"
  | .decimal _ => "float"
  | .str _ => "str"

/-- How messages name the numbers without digits. -/
def shownWords : Double.Words where
  infinite := "inf"
  nan := "nan"

/-- Is it absent, false, zero or without content? -/
def isVoid : Scalar → Bool
  | .null | .bool false | .int 0 | .str "" => true
  | .decimal x => x.isZero
  | _ => false

/-- How a message shows a scalar. -/
def shown : Scalar → String
  | .null => "None"
  | .bool true => "True"
  | .bool false => "False"
  | .int n => String.ofList (intText n)
  | .decimal x => String.ofList (x.text shownWords)
  | .str s => Text.quoted s

/-- Two scalars count as the same when they have the same key: a number is the
    same whether it is written with a point or not. -/
def key (s : Scalar) : String :=
  match s.whole? with
  | some n => String.ofList (intText n)
  | none => s.shown

end Scalar

namespace Json

mutual

/-- How a message shows a value. -/
def shown : Json → String
  | .scalar s => s.shown
  | .arr items => "[" ++ ", ".intercalate (shownItems items) ++ "]"
  | .obj members => "\x7b" ++ ", ".intercalate (shownMembers members) ++ "\x7d"

/-- The items of a list, each as a message shows it. -/
def shownItems : List Json → List String
  | [] => []
  | v :: rest => v.shown :: shownItems rest

/-- The members of an object, each as a message shows it. -/
def shownMembers : List (String × Json) → List String
  | [] => []
  | (name, v) :: rest => (Text.quoted name ++ ": " ++ v.shown) :: shownMembers rest

end

/-- The word for the kind of a value. -/
def kindName : Json → String
  | .scalar s => s.kindName
  | .arr _ => "list"
  | .obj _ => "dict"

end Json

end Refuter
