import Refuter.Proofs.Members
import Refuter.Settings.Basic

/-! # Settings laid over one another

Updates are a tree of named values like the settings they are laid over. Which value is found
under a dotted key afterwards is decided by where the key leads in the updates: to a value,
to a mapping that lacks the next name, or up against a value that has no names below it
(`Settings.Reached`).

- **One level.** A name of the updates is laid over what stood under it, any other name keeps
  its value (`Settings.get?_mergeMembers`).
- **All levels.** By induction on the names, for any old value or none
  (`Settings.walk_mergeValue`). There may be a mapping on one side and something else on the
  other at any depth; then nothing of the old value is left below.
- **Twice.** A value laid over what it made finds everything as it would leave it
  (`Settings.mergeMembers_of_laid`).

**Key result.** `update_layers`.
-/

namespace Refuter

namespace Settings

/-! ### Following a key -/

/-- Where the names of a key lead. -/
inductive Reached where
  /-- To a value. -/
  | value (v : Json)
  /-- To a mapping that lacks the next name. -/
  | lacking
  /-- To a value that is no mapping, with names left. -/
  | blocked

/-- Follows names down a value. -/
def follow (value : Json) : List String → Reached
  | [] => .value value
  | name :: rest =>
    match value with
    | .obj members =>
      match Members.get? members name with
      | some v => follow v rest
      | none => .lacking
    | _ => .blocked

/-! ### One level -/

/-- Only over a mapping a mapping is not put as it is. -/
theorem mergeValue_obj_of_ne {old : Option Json} (h : ∀ members, old ≠ some (.obj members))
    (updates : Members Json) : mergeValue old (.obj updates) = .obj updates := by
  rw [mergeValue]
  exact h

theorem mergeValue_none (v : Json) : mergeValue none v = v := by
  cases v with
  | scalar s => rw [mergeValue]
  | arr items => rw [mergeValue]
  | obj updates => exact mergeValue_obj_of_ne (by simp) updates

/-- **Names of the updates** are laid over what stood under them, the others keep their
    values. -/
theorem get?_mergeMembers {updates : Members Json} (h : (updates.map (·.1)).Nodup)
    (base : Members Json) (name : String) :
    Members.get? (mergeMembers base updates) name =
      match Members.get? updates name with
      | some v => some (mergeValue (Members.get? base name) v)
      | none => Members.get? base name := by
  induction updates generalizing base with
  | nil => rw [mergeMembers]; rfl
  | cons m rest ih =>
    obtain ⟨n, v⟩ := m
    rw [List.map_cons, List.nodup_cons] at h
    rw [mergeMembers, ih h.2]
    by_cases hn : name = n
    · obtain rfl := hn
      rw [Members.get?_cons_self, Members.get?_eq_none_iff.2 h.1, Members.get?_set_self]
    · rw [Members.get?_cons_of_ne hn, Members.get?_set_of_ne base _ hn]

/-! ### All levels -/

/-- **What is found below** a value that was laid over an old one. -/
theorem walk_mergeValue (names : List String) : ∀ {v : Json}, v.NamesOnce → ∀ old : Option Json,
    walk (mergeValue old v) names =
      match follow v names with
      | .value w => some (mergeValue (old.bind (walk · names)) w)
      | .lacking => old.bind (walk · names)
      | .blocked => none := by
  induction names with
  | nil =>
    intro v _ old
    have hold : old.bind (walk · []) = old := by cases old <;> rfl
    rw [follow, hold]
    rfl
  | cons name rest ih =>
    intro v hv old
    cases hv with
    | scalar s => rw [mergeValue]; rfl
    | arr _ => rw [mergeValue]; rfl
    | @obj updates hnames hvalues =>
      by_cases hold : ∃ members, old = some (.obj members)
      · obtain ⟨members, rfl⟩ := hold
        have hget := get?_mergeMembers hnames members name
        rw [mergeValue, follow]
        simp only [walk, Option.bind_some]
        cases hup : Members.get? updates name with
        | some w =>
          have hw : w.NamesOnce := hvalues _ (Members.mem_of_get? hup)
          rw [hget, hup]
          exact ih hw (Members.get? members name)
        | none =>
          rw [hget, hup]
      · -- the updates take the place of the old value, so nothing stood below
        have hbelow : old.bind (walk · (name :: rest)) = none := by
          cases old with
          | none => rfl
          | some v => cases v <;> first | rfl | exact absurd ⟨_, rfl⟩ hold
        rw [mergeValue_obj_of_ne (fun members h => hold ⟨members, h⟩), follow, hbelow]
        simp only [walk]
        cases hup : Members.get? updates name with
        | some w =>
          have hw : w.NamesOnce := hvalues _ (Members.mem_of_get? hup)
          have hrest := ih hw none
          rw [mergeValue_none] at hrest
          exact hrest
        | none => rfl

/-! ### Twice -/

/-- **Members that were laid already** change nothing. -/
theorem mergeMembers_of_laid {updates : Members Json} {members : Members Json}
    (h : ∀ m ∈ updates, ∃ v, Members.get? members m.1 = some v ∧ mergeValue (some v) m.2 = v) :
    mergeMembers members updates = members := by
  induction updates with
  | nil => rw [mergeMembers]
  | cons m rest ih =>
    obtain ⟨⟨v, hget, hlaid⟩, hrest⟩ := List.forall_mem_cons.1 h
    rw [mergeMembers, hget, hlaid, Members.set_of_get? hget, ih hrest]

/-- **A value laid over what it made** leaves that as it is. -/
theorem mergeValue_mergeValue {v : Json} (h : v.NamesOnce) :
    ∀ old : Option Json, mergeValue (some (mergeValue old v)) v = mergeValue old v := by
  induction h with
  | scalar s => intro old; rw [mergeValue, mergeValue]
  | arr _ => intro old; rw [mergeValue, mergeValue]
  | @obj updates hnames _ ih =>
    intro old
    by_cases hold : ∃ members, old = some (.obj members)
    · obtain ⟨members, rfl⟩ := hold
      rw [mergeValue, mergeValue]
      congr 1
      -- what stands under a name was laid there by the first time
      refine mergeMembers_of_laid fun m hm => ?_
      obtain ⟨name, w⟩ := m
      refine ⟨mergeValue (Members.get? members name) w, ?_, ih _ hm _⟩
      rw [get?_mergeMembers hnames, Members.get?_of_mem hnames hm]
    · rw [mergeValue_obj_of_ne (fun members h => hold ⟨members, h⟩), mergeValue]
      congr 1
      refine mergeMembers_of_laid fun m hm => ?_
      obtain ⟨name, w⟩ := m
      have hlaid := ih _ hm none
      rw [mergeValue_none] at hlaid
      exact ⟨w, Members.get?_of_mem hnames hm, hlaid⟩

/-! ### Updating settings -/

theorem obj_tree_update (settings : Settings) (updates : Members Json) :
    Json.obj (settings.update updates).tree
      = mergeValue (some (.obj settings.tree)) (.obj updates) := by
  rw [mergeValue]
  rfl

/-- **What is found after an update** is decided by where the key leads in the updates. -/
theorem get?_update (settings : Settings) {updates : Members Json}
    (h : (Json.obj updates).NamesOnce) (key : String) :
    (settings.update updates).get? key =
      match follow (.obj updates) (keyParts key) with
      | .value v => some (mergeValue (settings.get? key) v)
      | .lacking => settings.get? key
      | .blocked => none := by
  rw [get?, obj_tree_update, walk_mergeValue _ h]
  rfl

end Settings

/-- **Updates are laid over settings.** Let updates be given in which every mapping names each
    member once. For every settings and every dotted key, what is found under the key after
    the update is

    - the value to which the key leads in the updates, if that is no mapping;
    - what was found before, if the key leads to a mapping of the updates that lacks the next
      name;
    - if the key leads to a mapping of the updates, that mapping laid over the one found
      before, or a copy of it if none was found;
    - nothing, if the key has names left where the updates have no mapping.

    The same update once more changes nothing. -/
theorem update_layers (settings : Settings) {updates : Members Json}
    (h : (Json.obj updates).NamesOnce) :
    (∀ key default,
      (∀ v, Settings.follow (.obj updates) (Settings.keyParts key) = .value v →
        (∀ members, v ≠ .obj members) → (settings.update updates).get key default = v) ∧
      (Settings.follow (.obj updates) (Settings.keyParts key) = .lacking →
        (settings.update updates).get key default = settings.get key default) ∧
      (∀ members, Settings.follow (.obj updates) (Settings.keyParts key) = .value (.obj members) →
        (∀ old, settings.get? key = some (.obj old) →
          (settings.update updates).get key default = .obj (Settings.mergeMembers old members)) ∧
        ((∀ old, settings.get? key ≠ some (.obj old)) →
          (settings.update updates).get key default = .obj members)) ∧
      (Settings.follow (.obj updates) (Settings.keyParts key) = .blocked →
        (settings.update updates).get key default = default)) ∧
    (settings.update updates).update updates = settings.update updates := by
  refine ⟨fun key default => ?_, ?_⟩
  · have hget := settings.get?_update h key
    unfold Settings.get
    refine ⟨fun v hv hne => ?_, fun hlacking => ?_,
      fun members hm => ⟨fun old hold => ?_, fun hold => ?_⟩, fun hblocked => ?_⟩
    · rw [hget, hv]
      show Settings.mergeValue _ v = v
      cases v with
      | scalar s => rw [Settings.mergeValue]
      | arr items => rw [Settings.mergeValue]
      | obj members => exact absurd rfl (hne members)
    · rw [hget, hlacking]
    · rw [hget, hm]
      show Settings.mergeValue _ (.obj members) = _
      rw [hold, Settings.mergeValue]
    · rw [hget, hm]
      exact Settings.mergeValue_obj_of_ne hold members
    · rw [hget, hblocked]
      rfl
  · have htwice := Settings.mergeValue_mergeValue h (some (.obj settings.tree))
    rw [← settings.obj_tree_update, ← Settings.obj_tree_update] at htwice
    injection htwice with htree
    exact congrArg Settings.mk htree

/-- Settings in which a section is no mapping. -/
def flatTrace : Settings :=
  ⟨[("prover", .obj [("loop", .str "basic"), ("max_steps", .null)]), ("trace", .str "t.json")]⟩

/-- Updates that change one member of a section and make a mapping of another. -/
def deeperTrace : Members Json :=
  [("trace", .obj [("path", .obj [("name", .arr [.null])])]),
    ("prover", .obj [("max_steps", .int 3)])]

theorem update_layers_flatTrace :
    (Json.obj deeperTrace).NamesOnce ∧
    (flatTrace.update deeperTrace).get "prover.max_steps" .null = .int 3 ∧
    (flatTrace.update deeperTrace).get "prover.loop" .null = flatTrace.get "prover.loop" .null ∧
    (flatTrace.update deeperTrace).get "prover" .null
      = .obj [("loop", .str "basic"), ("max_steps", .int 3)] ∧
    (flatTrace.update deeperTrace).get "trace.path" .null = .obj [("name", .arr [.null])] ∧
    (flatTrace.update deeperTrace).get "prover.max_steps.unit" (.bool true) = .bool true ∧
    (flatTrace.update deeperTrace).update deeperTrace = flatTrace.update deeperTrace := by
  have hnames : (Json.obj deeperTrace).NamesOnce := by
    refine .obj (by decide) fun m hm => ?_
    simp only [deeperTrace, List.mem_cons, List.not_mem_nil, or_false] at hm
    rcases hm with rfl | rfl
    · refine .obj (by decide) fun m hm => ?_
      rw [List.mem_singleton.1 hm]
      refine .obj (by decide) fun m hm => ?_
      rw [List.mem_singleton.1 hm]
      exact .arr fun v hv => by rw [List.mem_singleton.1 hv]; exact .scalar _
    · refine .obj (by decide) fun m hm => ?_
      rw [List.mem_singleton.1 hm]
      exact .scalar _
  obtain ⟨hkeys, htwice⟩ := update_layers flatTrace hnames
  refine ⟨hnames, ?_, ?_, ?_, ?_, ?_, htwice⟩
  · exact (hkeys "prover.max_steps" .null).1 _ rfl nofun
  · exact (hkeys "prover.loop" .null).2.1 rfl
  · exact ((hkeys "prover" .null).2.2.1 _ rfl).1 _ rfl
  · exact ((hkeys "trace.path" .null).2.2.1 _ rfl).2 nofun
  · exact (hkeys "prover.max_steps.unit" (.bool true)).2.2.2 rfl

end Refuter
