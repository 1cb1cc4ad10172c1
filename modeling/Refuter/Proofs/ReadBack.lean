import Refuter.Exchange.Decode
import Refuter.Exchange.Encode
import Refuter.Proofs.Members

/-! # Clauses are read back

An object is recognised by its member `_type` alone, so reading it back comes down to
its members: they have different names, each is read back, and the tag leads to the
right reader. `ReadsBack` says so of one value; there is one lemma for each kind.

**Mappings.** The bindings of a substitution are written as a plain object whose names
are variables, and one of these may be called `_type` too. It is bound to a term, which
is no tag.

**Numbers.** Everything can be written but a whole number of more than `Scalar.maxDigits`
digits (`Value.checkWhole`). So a list of clauses comes back as it was unless a clause has
such a number (`clauses_exchanged`).
-/

namespace Refuter

namespace Value

theorem itemsToJson_eq_map (items : List Value) : itemsToJson items = items.map toJson := by
  induction items with
  | nil => rw [itemsToJson, List.map_nil]
  | cons v rest ih => rw [itemsToJson, List.map_cons, ih]

end Value

namespace Exchange

/-! ### Readings -/

/-- The reading that treats objects in the given way. -/
def reading (object : Members Value → Except Error Value) : Json.Reading Error Value where
  scalar := .scalar
  arr := .arr
  obj := object

/-- An object that is no derivation is read as in a list of clauses. -/
def ReadsClauses (object : Members Value → Except Error Value) : Prop :=
  ∀ members, members.get? tagField ≠ some (.str "Proof") → object members = readObject members

theorem readsClauses_readAnyObject : ReadsClauses readAnyObject := by
  intro members h
  unfold readAnyObject
  split
  · rename_i htag
    exact absurd htag h
  · rfl

/-- **A text that was written** is read as the value behind it is. -/
theorem readTextWith_render (object : Members Value → Except Error Value) {v : Json}
    (h : v.IsExact) (indent : Option Nat) :
    readTextWith object (v.render indent) = (reading object).make v := by
  unfold readTextWith
  rw [show ({ scalar := .scalar, arr := .arr, obj := object } : Json.Reading Error Value)
    = reading object from rfl, Json.readWith_render h indent]
  cases (reading object).make v with
  | error e => rfl
  | ok w => rfl

section

variable {object : Members Value → Except Error Value}

/-- The value comes back from what is written. -/
def ReadsBack (object : Members Value → Except Error Value) (v : Value) : Prop :=
  (reading object).make v.toJson = .ok v

theorem make_scalar (s : Scalar) : (reading object).make (.scalar s) = .ok (.scalar s) := by
  rw [Json.Reading.make]
  rfl

theorem readsBack_scalar (s : Scalar) : ReadsBack object (.scalar s) := by
  unfold ReadsBack
  rw [Value.toJson]
  exact make_scalar s

/-- **Items** are read one by one, whatever each of them is read as. -/
theorem makeItems_map {α : Type} {as : List α} {g : α → Json} {f : α → Value}
    (h : ∀ a ∈ as, (reading object).make (g a) = .ok (f a)) :
    (reading object).makeItems (as.map g) = .ok (as.map f) := by
  induction as with
  | nil =>
    rw [List.map_nil, Json.Reading.makeItems]
    rfl
  | cons a rest ih =>
    obtain ⟨ha, hrest⟩ := List.forall_mem_cons.1 h
    rw [List.map_cons, Json.Reading.makeItems, ha, ih hrest]
    rfl

theorem make_arr {items : List Value} (h : ∀ v ∈ items, ReadsBack object v) :
    (reading object).make (.arr (Value.itemsToJson items)) = .ok (.arr items) := by
  rw [Json.Reading.make, Value.itemsToJson_eq_map, makeItems_map (f := id) h, List.map_id]
  rfl

theorem makeMembers_nil : (reading object).makeMembers [] = .ok [] := by
  rw [Json.Reading.makeMembers]

theorem makeMembers_cons {name : String} {v : Json} {a : Value} {rest : List (String × Json)}
    {as : List (String × Value)} (hv : (reading object).make v = .ok a)
    (hrest : (reading object).makeMembers rest = .ok as) :
    (reading object).makeMembers ((name, v) :: rest) = .ok ((name, a) :: as) := by
  rw [Json.Reading.makeMembers, hv, hrest]
  rfl

/-- **An object with different names** is handed over as it was written. -/
theorem make_obj {members : List (String × Json)} {values : List (String × Value)}
    (h : (reading object).makeMembers members = .ok values) (hnames : (values.map (·.1)).Nodup) :
    (reading object).make (.obj members) = object values := by
  rw [Json.Reading.make, h]
  show object (Members.ofList values) = _
  rw [Members.ofList_of_nodup hnames]

/-- An object without a known tag stays as it is. -/
theorem readObject_plain {members : Members Value}
    (h : ∀ tag ∈ ["Term", "Predicate", "Clause", "Substitution"],
      members.get? tagField ≠ some (.str tag)) : readObject members = .ok (.obj members) := by
  unfold readObject
  split
  · exact absurd ‹_› (h "Term" (by simp))
  · exact absurd ‹_› (h "Predicate" (by simp))
  · exact absurd ‹_› (h "Clause" (by simp))
  · exact absurd ‹_› (h "Substitution" (by simp))
  · rfl

/-- **A tagged object** goes to the reader of its tag, members and all. -/
theorem make_tagged (hobject : ReadsClauses object) {tag : String} (htag : tag ≠ "Proof")
    {members : List (String × Json)} {values : List (String × Value)}
    (h : (reading object).makeMembers members = .ok values)
    (hnames : (tagField :: values.map (·.1)).Nodup) :
    (reading object).make (.obj ((tagField, .str tag) :: members))
      = readObject ((tagField, .str tag) :: values) := by
  have hvalues : (reading object).makeMembers ((tagField, .str tag) :: members)
      = .ok ((tagField, .str tag) :: values) := makeMembers_cons (make_scalar (.str tag)) h
  rw [make_obj hvalues hnames, hobject]
  rw [Members.get?_cons_self]
  simpa using htag

/-! ### Terms, literals, clauses -/

theorem readsBack_term (hobject : ReadsClauses object) {name isVariable : Value}
    (hname : ReadsBack object name) (hvariable : ReadsBack object isVariable) :
    ReadsBack object (.term name isVariable) := by
  unfold ReadsBack
  rw [Value.toJson, make_tagged hobject (by decide)
    (makeMembers_cons hname (makeMembers_cons hvariable makeMembers_nil)) (by simp [tagField])]
  rfl

theorem readsBack_literal (hobject : ReadsClauses object) {name negated : Value}
    {terms : List Value} (hname : ReadsBack object name) (hterms : ∀ t ∈ terms, ReadsBack object t)
    (hnegated : ReadsBack object negated) : ReadsBack object (.literal name terms negated) := by
  unfold ReadsBack
  rw [Value.toJson, make_tagged hobject (by decide) (makeMembers_cons hname (makeMembers_cons
    (make_arr hterms) (makeMembers_cons hnegated makeMembers_nil))) (by simp [tagField])]
  rfl

theorem readsBack_clause (hobject : ReadsClauses object) {id : Value} {literals : List Value}
    (hid : ReadsBack object id) (hliterals : ∀ l ∈ literals, ReadsBack object l) :
    ReadsBack object (.clause id literals) := by
  unfold ReadsBack
  rw [Value.toJson, make_tagged hobject (by decide) (makeMembers_cons hid (makeMembers_cons
    (make_arr hliterals) makeMembers_nil)) (by simp [tagField])]
  rfl

theorem readsBack_ofTerm (hobject : ReadsClauses object) (t : Term) :
    ReadsBack object (.ofTerm t) :=
  readsBack_term hobject (readsBack_scalar _) (readsBack_scalar _)

theorem readsBack_ofLiteral (hobject : ReadsClauses object) (l : Literal) :
    ReadsBack object (.ofLiteral l) := by
  apply readsBack_literal hobject (readsBack_scalar _) _ (readsBack_scalar _)
  intro v hv
  obtain ⟨t, _, rfl⟩ := List.mem_map.1 hv
  exact readsBack_ofTerm hobject t

/-- **A clause is read back,** with or without a number. -/
theorem readsBack_ofClause (hobject : ReadsClauses object) (c : LabelledClause) :
    ReadsBack object (.ofClause c) := by
  apply readsBack_clause hobject
  · cases c.id with
    | none => exact readsBack_scalar _
    | some id => exact readsBack_scalar _
  · intro v hv
    obtain ⟨l, _, rfl⟩ := List.mem_map.1 hv
    exact readsBack_ofLiteral hobject l

/-! ### Substitutions -/

theorem makeMembers_bindings (hobject : ReadsClauses object) (bindings : Members Term) :
    (reading object).makeMembers (Value.bindingsToJson
        (bindings.map fun (name, t) => (Value.str name, .ofTerm t)))
      = .ok (bindings.map fun (name, t) => (name, .ofTerm t)) := by
  induction bindings with
  | nil =>
    rw [List.map_nil, Value.bindingsToJson]
    exact makeMembers_nil
  | cons b rest ih =>
    rw [List.map_cons, Value.bindingsToJson]
    exact makeMembers_cons (readsBack_ofTerm hobject b.2) ih

/-- A mapping stays a plain object. A variable may be called like the tag, but a term is
    no tag. -/
theorem make_mapping (hobject : ReadsClauses object) {bindings : Members Term}
    (h : (bindings.map (·.1)).Nodup) :
    (reading object).make (.obj (Value.bindingsToJson
        (bindings.map fun (name, t) => (Value.str name, .ofTerm t))))
      = .ok (.obj (bindings.map fun (name, t) => (name, .ofTerm t))) := by
  have htag : ∀ tag, Members.get? (bindings.map fun (name, t) => (name, Value.ofTerm t)) tagField
      ≠ some (.str tag) := by
    intro tag
    rw [Members.get?_map]
    cases bindings.get? tagField with
    | none => simp
    | some t => simp [Value.ofTerm]
  rw [make_obj (makeMembers_bindings hobject bindings) (by rw [List.map_map]; exact h),
    hobject _ (htag "Proof"), readObject_plain fun tag _ => htag tag]

theorem readSubstitution_obj {members bindings : Members Value}
    (h : members.get? "mapping" = some (.obj bindings)) :
    readSubstitution members
      = .ok (.substitution (bindings.map fun (name, v) => (.str name, v))) := by
  unfold readSubstitution field
  rw [h]
  cases bindings with
  | nil => rfl
  | cons b rest => rfl

/-- **A substitution is read back** if it binds each name once. -/
theorem readsBack_ofSubstitution (hobject : ReadsClauses object) {σ : Substitution}
    (h : (σ.bindings.map (·.1)).Nodup) : ReadsBack object (.ofSubstitution σ) := by
  unfold ReadsBack Value.ofSubstitution
  rw [Value.toJson, make_tagged hobject (by decide)
    (makeMembers_cons (make_mapping hobject h) makeMembers_nil) (by simp [tagField])]
  show readSubstitution _ = _
  rw [readSubstitution_obj rfl, List.map_map]
  rfl

end

end Exchange

/-! ### What can be written -/

namespace Value

open Json

theorem isExact_map {α : Type} {f : α → Value} {as : List α} (h : ∀ a ∈ as, (f a).toJson.IsExact) :
    (Json.arr (itemsToJson (as.map f))).IsExact := by
  apply Json.IsExact.arr
  rw [itemsToJson_eq_map, List.map_map]
  intro j hj
  obtain ⟨a, ha, rfl⟩ := List.mem_map.1 hj
  exact h a ha

theorem isExact_ofTerm (t : Term) : (ofTerm t).toJson.IsExact := by
  simp only [ofTerm, toJson]
  exact .obj_cons (isExact_str _) (.obj_cons (isExact_str _) (.obj_cons (isExact_bool _) .obj_nil))

theorem isExact_ofLiteral (l : Literal) : (ofLiteral l).toJson.IsExact := by
  simp only [ofLiteral, toJson]
  exact .obj_cons (isExact_str _) (.obj_cons (isExact_str _) (.obj_cons
    (isExact_map fun t _ => isExact_ofTerm t) (.obj_cons (isExact_bool _) .obj_nil)))

theorem isExact_ofClause {c : LabelledClause}
    (h : ∀ id ∈ c.id, id.natAbs < 10 ^ Scalar.maxDigits) : (ofClause c).toJson.IsExact := by
  have hid : (ofOption .int c.id).toJson.IsExact := by
    cases hid : c.id with
    | none => exact isExact_null
    | some id => exact isExact_int (h id hid)
  simp only [ofClause, toJson]
  exact .obj_cons (isExact_str _) (.obj_cons hid (.obj_cons
    (isExact_map fun l _ => isExact_ofLiteral l) .obj_nil))

theorem isExact_ofSubstitution (σ : Substitution) : (ofSubstitution σ).toJson.IsExact := by
  have hmapping : ∀ bindings : List (String × Term), (Json.obj (bindingsToJson
      (bindings.map fun (name, t) => (Value.str name, ofTerm t)))).IsExact := by
    intro bindings
    induction bindings with
    | nil =>
      rw [List.map_nil, bindingsToJson]
      exact .obj_nil
    | cons b rest ih =>
      rw [List.map_cons, bindingsToJson]
      exact .obj_cons (isExact_ofTerm b.2) ih
  simp only [ofSubstitution, toJson]
  exact .obj_cons (isExact_str _) (.obj_cons (hmapping σ.bindings) .obj_nil)

/-! Only numbers can be too long to be written; names and signs never are. -/

theorem checkWritable_str (s : String) : (Value.str s).checkWritable = .ok () := by
  rw [checkWritable]
  rfl

theorem checkWritable_bool (b : Bool) : (Value.bool b).checkWritable = .ok () := by
  rw [checkWritable]
  rfl

theorem checkWritableItems_map {α : Type} {f : α → Value} {as : List α}
    (h : ∀ a ∈ as, (f a).checkWritable = .ok ()) : checkWritableItems (as.map f) = .ok () := by
  induction as with
  | nil => rw [List.map_nil, checkWritableItems]
  | cons a rest ih =>
    obtain ⟨ha, hrest⟩ := List.forall_mem_cons.1 h
    rw [List.map_cons, checkWritableItems, ha]
    exact ih hrest

theorem checkWritable_ofTerm (t : Term) : (ofTerm t).checkWritable = .ok () := by
  rw [ofTerm, checkWritable, checkWritable_str, checkWritable_bool]
  rfl

theorem checkWritable_ofLiteral (l : Literal) : (ofLiteral l).checkWritable = .ok () := by
  rw [ofLiteral, checkWritable, checkWritable_str, checkWritable_bool,
    checkWritableItems_map fun t _ => checkWritable_ofTerm t]
  rfl

theorem checkWritable_ofSubstitution (σ : Substitution) :
    (ofSubstitution σ).checkWritable = .ok () := by
  rw [ofSubstitution, checkWritable]
  induction σ.bindings with
  | nil => rw [List.map_nil, checkWritableBindings]
  | cons b rest ih =>
    rw [List.map_cons, checkWritableBindings, checkWritable_ofTerm]
    exact ih

/-- A clause can be written if its number can. -/
theorem checkWritable_ofClause (c : LabelledClause) :
    (ofClause c).checkWritable = (ofOption .int c.id).checkWritable := by
  rw [ofClause, checkWritable, checkWritableItems_map fun l _ => checkWritable_ofLiteral l]
  cases (ofOption .int c.id).checkWritable with
  | error e => rfl
  | ok _ => rfl

/-- Checks that whole numbers can be written. -/
def checkWhole (numbers : List Int) : Except Error Unit :=
  if ∀ n ∈ numbers, n.natAbs < 10 ^ Scalar.maxDigits then .ok () else .error .unwritable

theorem checkWhole_nil : checkWhole [] = .ok () :=
  if_pos (by simp)

theorem checkWhole_append (ms ns : List Int) :
    checkWhole (ms ++ ns) = (do checkWhole ms; checkWhole ns) := by
  unfold checkWhole
  by_cases hm : ∀ n ∈ ms, n.natAbs < 10 ^ Scalar.maxDigits
  · simp only [List.forall_mem_append, eq_true hm, true_and]
    rfl
  · rw [if_neg hm, if_neg]
    · rfl
    · intro hall
      exact hm (List.forall_mem_append.1 hall).1

theorem checkWritable_int (n : Int) : (Value.int n).checkWritable = checkWhole [n] := by
  unfold checkWhole
  rw [checkWritable]
  simp only [Scalar.isWritable_int, List.forall_mem_singleton]

/-- Items can be written if their numbers can. -/
theorem checkWritableItems_eq {α : Type} {f : α → Value} {g : α → List Int}
    (h : ∀ a, (f a).checkWritable = checkWhole (g a)) (as : List α) :
    checkWritableItems (as.map f) = checkWhole (as.flatMap g) := by
  induction as with
  | nil => rw [List.map_nil, checkWritableItems, List.flatMap_nil, checkWhole_nil]
  | cons a rest ih =>
    rw [List.map_cons, checkWritableItems, List.flatMap_cons, checkWhole_append, h, ih]

end Value

/-! ### Lists of clauses -/

namespace Value

/-- Clauses can be written if their numbers can. -/
theorem checkWritableItems_ofClause (clauses : List LabelledClause) :
    checkWritableItems (clauses.map ofClause) = checkWhole (clauses.flatMap (·.id.toList)) := by
  apply checkWritableItems_eq
  intro c
  rw [checkWritable_ofClause]
  cases c.id with
  | none => exact checkWhole_nil.symm
  | some n => exact checkWritable_int n

end Value

/-- **A list of clauses is written** unless one of its numbers has too many digits. -/
theorem writeClauses_eq (clauses : List LabelledClause) (indent : Option Nat) :
    writeClauses clauses indent
      = if ∀ c ∈ clauses, ∀ n ∈ c.id, n.natAbs < 10 ^ Scalar.maxDigits then
        .ok ((Value.arr (clauses.map .ofClause)).toJson.render indent) else .error .unwritable := by
  have hnumbers : (∀ n ∈ clauses.flatMap (·.id.toList), n.natAbs < 10 ^ Scalar.maxDigits)
      ↔ ∀ c ∈ clauses, ∀ n ∈ c.id, n.natAbs < 10 ^ Scalar.maxDigits := by
    simp only [List.mem_flatMap, Option.mem_toList]
    exact ⟨fun h c hc n hn => h n ⟨c, hc, hn⟩, fun h n ⟨c, hc, hn⟩ => h c hc n hn⟩
  unfold writeClauses Value.written
  rw [Value.checkWritable, Value.checkWritableItems_ofClause, Value.checkWhole,
    if_congr hnumbers rfl rfl]
  split
  · rfl
  · rfl

/-- **A list of clauses survives the exchange.** If its numbers can be written at all, it
    is written, in any layout, and the text is read back as the same clauses: the same
    literals in the same order, and the same numbers. With a longer number it is not
    written. -/
theorem clauses_exchanged (clauses : List LabelledClause) (indent : Option Nat) :
    ((∀ c ∈ clauses, ∀ n ∈ c.id, n.natAbs < 10 ^ Scalar.maxDigits) →
      ∃ text items, writeClauses clauses indent = .ok text ∧
        Exchange.readClauses text = .ok (.arr items) ∧
        items.mapM Value.clause? = some clauses) ∧
    ((∃ c ∈ clauses, ∃ n ∈ c.id, 10 ^ Scalar.maxDigits ≤ n.natAbs) →
      writeClauses clauses indent = .error .unwritable) := by
  constructor
  · intro hshort
    refine ⟨_, clauses.map .ofClause, by rw [writeClauses_eq, if_pos hshort], ?_,
      Value.mapM_map_eq_some Value.clause?_ofClause clauses⟩
    have hexact : (Value.arr (clauses.map .ofClause)).toJson.IsExact := by
      rw [Value.toJson]
      exact Value.isExact_map fun c hc => Value.isExact_ofClause (hshort c hc)
    unfold Exchange.readClauses
    rw [Exchange.readTextWith_render _ hexact, Value.toJson]
    apply Exchange.make_arr
    intro v hv
    obtain ⟨c, _, rfl⟩ := List.mem_map.1 hv
    exact Exchange.readsBack_ofClause (fun _ _ => rfl) c
  · rintro ⟨c, hc, n, hn, hlong⟩
    rw [writeClauses_eq, if_neg]
    intro hshort
    exact Nat.not_lt.2 hlong (hshort c hc n hn)

/-- Names made of a quote, a backslash, control characters and the tag, a repeated literal,
    an empty clause, and numbers below zero, repeated and missing. -/
def oddClauses : List LabelledClause :=
  [{ literals := [{ name := "_type", args := [.var "\"\\", .const "\x00\n"], negated := true },
      { name := "Clause" }, { name := "Clause" }], id := some (-3) },
    { literals := [] }, { literals := [{ name := "", args := [.var ""] }], id := some (-3) }]

theorem clauses_exchanged_oddClauses :
    ∃ text items, writeClauses oddClauses (some 2) = .ok text ∧
      Exchange.readClauses text = .ok (.arr items) ∧ items.mapM Value.clause? = some oddClauses :=
  (clauses_exchanged oddClauses (some 2)).1 (by decide +kernel)

/-- The empty clause under the first number that is too long. -/
def longNumber : List LabelledClause :=
  [{ literals := [], id := some (10 ^ Scalar.maxDigits) }]

/-- **Not every list of clauses is exchanged:** a number of too many digits is not written
    in any layout. -/
theorem not_written_longNumber :
    ¬ ∃ indent text, writeClauses longNumber indent = .ok text := by
  rintro ⟨indent, text, htext⟩
  rw [writeClauses_eq, if_neg] at htext
  · cases htext
  · intro hshort
    have hlt := hshort _ (List.mem_singleton_self _) _ rfl
    have hten : (10 : Int).natAbs = 10 := rfl
    rw [Int.natAbs_pow, hten] at hlt
    exact Nat.lt_irrefl _ hlt

end Refuter
