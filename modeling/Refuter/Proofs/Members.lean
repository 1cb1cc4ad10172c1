import Refuter.Proofs.JsonText

/-! # Members with different names

An object is a list of named values, and its text is read by setting one name after the
other. As long as the names are different nothing is overwritten, and what was written
comes back as it was.

- **Members:** setting new names in order gives the list (`Members.ofList_of_nodup`), and each
  name leads to its own value (`Members.get?_of_mem`).
- **Values:** `Json.NamesOnce` says this of every object inside a value.

**Key result.** A value with different names whose numbers can be written is read back from
its text (`Json.parse?_render`).
-/

namespace Refuter

/-! ### Members -/

namespace Members

variable {α : Type}

@[simp] theorem get?_cons_self (name : String) (value : α) (rest : Members α) :
    get? ((name, value) :: rest) name = some value := by
  simp [get?]

@[simp] theorem get?_cons_of_ne {name other : String} (h : other ≠ name) (value : α)
    (rest : Members α) : get? ((name, value) :: rest) other = get? rest other := by
  have hother : (other == name) = false := beq_false_of_ne h
  simp [get?, List.lookup_cons, hother]

theorem get?_map {β : Type} (f : α → β) (members : Members α) (name : String) :
    get? (members.map fun (n, a) => (n, f a)) name = (get? members name).map f := by
  induction members with
  | nil => rfl
  | cons m rest ih =>
    obtain ⟨n, a⟩ := m
    rw [List.map_cons]
    by_cases h : name = n
    · rw [h, get?_cons_self, get?_cons_self, Option.map_some]
    · rw [get?_cons_of_ne h, get?_cons_of_ne h, ih]

/-- A new name goes to the end. -/
theorem set_of_not_mem {members : Members α} {name : String} (h : name ∉ members.map (·.1))
    (value : α) : set members name value = members ++ [(name, value)] := by
  induction members with
  | nil => rfl
  | cons m rest ih =>
    rw [List.map_cons, List.mem_cons, not_or] at h
    rw [set, if_neg (Ne.symm h.1), ih h.2]
    rfl

/-- **Members with different names** are kept as they are. -/
theorem ofList_of_nodup {pairs : List (String × α)} (h : (pairs.map (·.1)).Nodup) :
    ofList pairs = pairs := by
  -- what was placed before stays in front, since every further name is new
  have hfold : ∀ rest before : List (String × α), ((before ++ rest).map (·.1)).Nodup →
      rest.foldl (fun members (name, value) => set members name value) before = before ++ rest := by
    intro rest
    induction rest with
    | nil =>
      intro before _
      exact (List.append_nil before).symm
    | cons m rest ih =>
      intro before hnodup
      obtain ⟨name, value⟩ := m
      have hnew : name ∉ before.map (·.1) := by
        intro hmem
        rw [List.map_append, List.nodup_append] at hnodup
        exact hnodup.2.2 name hmem name List.mem_cons_self rfl
      rw [List.foldl_cons]
      dsimp only
      rw [set_of_not_mem hnew, ih]
      · exact List.append_assoc before [(name, value)] rest
      · rwa [List.append_assoc]
  exact hfold pairs [] h

theorem mem_of_get? {members : Members α} {name : String} {value : α}
    (h : get? members name = some value) : (name, value) ∈ members := by
  induction members with
  | nil => cases h
  | cons m rest ih =>
    obtain ⟨n, a⟩ := m
    by_cases hn : name = n
    · obtain rfl := hn
      rw [get?_cons_self] at h
      rw [Option.some.inj h]
      exact List.mem_cons_self
    · rw [get?_cons_of_ne hn] at h
      exact List.mem_cons_of_mem _ (ih h)

theorem get?_eq_none_iff {members : Members α} {name : String} :
    get? members name = none ↔ name ∉ members.map (·.1) := by
  induction members with
  | nil => simp [get?]
  | cons m rest ih =>
    obtain ⟨n, a⟩ := m
    by_cases h : name = n
    · rw [h, get?_cons_self]
      simp
    · rw [get?_cons_of_ne h, ih]
      simp [h]

/-- Of different names each leads to its own value. -/
theorem get?_of_mem {members : Members α} (h : (members.map (·.1)).Nodup) {name : String}
    {value : α} (hm : (name, value) ∈ members) : get? members name = some value := by
  induction members with
  | nil => cases hm
  | cons m rest ih =>
    obtain ⟨n, a⟩ := m
    rw [List.map_cons, List.nodup_cons] at h
    rcases List.mem_cons.1 hm with heq | hm
    · obtain ⟨rfl, rfl⟩ := Prod.mk.inj heq
      exact get?_cons_self name value rest
    · have hne : name ≠ n := fun heq => h.1 (heq ▸ List.mem_map.2 ⟨_, hm, rfl⟩)
      rw [get?_cons_of_ne hne, ih h.2 hm]

/-- Setting a name to the value that it has changes nothing. -/
theorem set_of_get? {members : Members α} {name : String} {value : α}
    (h : get? members name = some value) : set members name value = members := by
  induction members with
  | nil => cases h
  | cons m rest ih =>
    obtain ⟨n, a⟩ := m
    by_cases hn : n = name
    · obtain rfl := hn
      rw [get?_cons_self] at h
      rw [set, if_pos rfl, Option.some.inj h]
    · rw [get?_cons_of_ne (Ne.symm hn)] at h
      rw [set, if_neg hn, ih h]

end Members

/-! ### Values -/

namespace Json

/-- In every object inside the value each name occurs once. -/
inductive NamesOnce : Json → Prop where
  | scalar (s : Scalar) : NamesOnce (.scalar s)
  | arr {items : List Json} (h : ∀ v ∈ items, NamesOnce v) : NamesOnce (.arr items)
  | obj {members : List (String × Json)} (hnames : (members.map (·.1)).Nodup)
      (h : ∀ m ∈ members, NamesOnce m.2) : NamesOnce (.obj members)

theorem makeItems_plain {items : List Json} (h : ∀ v ∈ items, plain.make v = .ok v) :
    plain.makeItems items = .ok items := by
  induction items with
  | nil => rfl
  | cons v rest ih =>
    obtain ⟨hv, hrest⟩ := List.forall_mem_cons.1 h
    rw [Reading.makeItems, hv, ih hrest]
    rfl

theorem makeMembers_plain {members : List (String × Json)}
    (h : ∀ m ∈ members, plain.make m.2 = .ok m.2) : plain.makeMembers members = .ok members := by
  induction members with
  | nil => rfl
  | cons m rest ih =>
    obtain ⟨hm, hrest⟩ := List.forall_mem_cons.1 h
    rw [Reading.makeMembers, hm, ih hrest]
    rfl

/-- The plain reading keeps a value as it is. -/
theorem make_plain {v : Json} (h : v.NamesOnce) : plain.make v = .ok v := by
  induction h with
  | scalar s => rfl
  | arr _ ih =>
    rw [Reading.make, makeItems_plain ih]
    rfl
  | obj hnames _ ih =>
    rw [Reading.make, makeMembers_plain ih]
    show Except.ok (Json.obj (Members.ofList _)) = _
    rw [Members.ofList_of_nodup hnames]

/-- **A written value is read back.** -/
theorem parse?_render {v : Json} (hexact : v.IsExact) (hnames : v.NamesOnce)
    (indent : Option Nat) : parse? (v.render indent) = some v := by
  rw [parse?, readWith_render hexact, make_plain hnames]
  rfl

end Json

end Refuter
