import Refuter.Exchange.Transcript
import Refuter.Proofs.ReadBack
import Refuter.Proofs.Replay

/-! # Derivations are exchanged

A derivation is written with its clauses once and everything else by their numbers. So
it can be read back if numbers name clauses: no two clauses have the same one, and the
negated query and the steps use no others (`Derivation.SelfContained`). Every derivation
of an engine is of this kind.

- **Reading** checks just that, and finds nothing wrong (`Exchange.readsBack_ofDerivation`).
- **What was read** stands for a derivation with the same clauses and the same steps
  (`Exchange.Transcript.derivation?_ofDerivation`).

A whole number of more than `Scalar.maxDigits` digits is not written at all; that is
the one thing that can go wrong (`Derivation.write_eq`).

**Key result.** `exchange_restores`.
-/

namespace Refuter

/-- A derivation whose numbers name its clauses. -/
structure Derivation.SelfContained (d : Derivation) : Prop where
  /-- Clauses have different numbers. -/
  distinct : (d.working.clauses.map (·.id)).Nodup
  /-- The negated query has the number of a clause. -/
  negated : ∀ q ∈ d.negatedQuery, ∃ c ∈ d.working.clauses, c.id = q.id
  /-- Steps are between clauses. -/
  between : ∀ s ∈ d.steps, ∀ c ∈ [s.left, s.right, s.resolvent], c ∈ d.working.clauses
  /-- Unifiers bind a name once. -/
  bound : ∀ s ∈ d.steps, (s.unifier.bindings.map (·.1)).Nodup

namespace Exchange

/-! ### Numbers as keys -/

/-- The key of a number is its digits. -/
theorem key_int (n : Int) : (Value.int n).key = .ok (String.ofList (Scalar.intText n)) := by
  rw [Value.key]
  rfl

theorem key?_int_inj {m n : Int} (h : (Value.int m).key? = (Value.int n).key?) : m = n := by
  unfold Value.key? at h
  rw [key_int, key_int] at h
  exact Scalar.intText_inj (String.ofList_injective (Option.some.inj h))

/-! ### The checks of a clause list -/

/-- A numbered clause as a value. -/
def clauseValue (c : NumberedClause) : Value :=
  .ofClause c.labelled

theorem clauseValue_eq (c : NumberedClause) :
    clauseValue c = .clause (.int c.id) (c.toClause.literals.map .ofLiteral) := rfl

theorem checkNumbers_map {clauses : List NumberedClause} : ∀ seen : List String,
    (clauses.map (·.id)).Nodup →
    (∀ c ∈ clauses, String.ofList (Scalar.intText c.id) ∉ seen) →
    checkNumbers seen (clauses.map clauseValue) = .ok () := by
  induction clauses with
  | nil =>
    intro seen _ _
    rfl
  | cons c rest ih =>
    intro seen hids hseen
    obtain ⟨hc, hrest⟩ := List.forall_mem_cons.1 hseen
    rw [List.map_cons, List.nodup_cons] at hids
    rw [List.map_cons, clauseValue_eq, checkNumbers]
    · rw [key_int]
      show (if String.ofList (Scalar.intText c.id) ∈ seen then _ else checkNumbers _ _) = _
      rw [if_neg hc]
      apply ih _ hids.2
      intro e he hmem
      rcases List.mem_cons.1 hmem with hkey | hmem
      · have hid : e.id = c.id := Scalar.intText_inj (String.ofList_injective hkey)
        exact hids.1 (hid ▸ List.mem_map_of_mem he)
      · exact hrest e he hmem
    · simp

/-- Each of some values has a key if what it is made of has. -/
theorem exists_keys_map {α : Type} {f : α → Value} {as : List α}
    (h : ∀ a ∈ as, ∃ key, (f a).key = .ok key) : ∃ keys, Value.keys (as.map f) = .ok keys := by
  induction as with
  | nil => exact ⟨[], by rw [List.map_nil, Value.keys]⟩
  | cons a rest ih =>
    obtain ⟨⟨key, hkey⟩, hrest⟩ := List.forall_mem_cons.1 h
    obtain ⟨keys, hkeys⟩ := ih hrest
    refine ⟨key :: keys, ?_⟩
    rw [List.map_cons, Value.keys, hkey, hkeys]
    rfl

theorem exists_key_ofTerm (t : Term) : ∃ key, (Value.ofTerm t).key = .ok key := by
  unfold Value.ofTerm
  rw [Value.key, Value.key, Value.key]
  exact ⟨_, rfl⟩

theorem exists_key_ofLiteral (l : Literal) : ∃ key, (Value.ofLiteral l).key = .ok key := by
  obtain ⟨keys, hkeys⟩ := exists_keys_map fun t (_ : t ∈ l.args) => exists_key_ofTerm t
  unfold Value.ofLiteral
  rw [Value.key, Value.key, Value.key, hkeys]
  exact ⟨_, rfl⟩

theorem exists_key_clauseValue (c : NumberedClause) : ∃ key, (clauseValue c).key = .ok key := by
  obtain ⟨keys, hkeys⟩ := exists_keys_map
    fun l (_ : l ∈ c.toClause.literals) => exists_key_ofLiteral l
  rw [clauseValue_eq, Value.key, hkeys]
  exact ⟨_, rfl⟩

theorem checkLiterals_map (clauses : List NumberedClause) :
    checkLiterals (clauses.map clauseValue) = .ok () := by
  induction clauses with
  | nil => rfl
  | cons c rest ih =>
    obtain ⟨key, hkey⟩ := exists_key_clauseValue c
    rw [List.map_cons, checkLiterals, hkey]
    exact ih

/-- Whole numbers can be compared. -/
theorem exists_larger (ids : List Int) : ∀ first : Int,
    ∃ last : Int, (ids.map Value.int).foldlM larger (.int first) = .ok (.int last) := by
  induction ids with
  | nil =>
    intro first
    exact ⟨first, rfl⟩
  | cons id rest ih =>
    intro first
    rw [List.map_cons, List.foldlM_cons]
    have hlarger : larger (.int first) (.int id)
        = .ok (if (Scalar.int id).exceeds (.int first) then .int id else .int first) := rfl
    rw [hlarger]
    split
    · exact ih id
    · exact ih first

theorem checkKinds_map (clauses : List NumberedClause) :
    checkKinds (clauses.map clauseValue) = .ok () := by
  have hids : ∀ f : Value → Option Value, (∀ id literals, f (.clause id literals) = some id) →
      (clauses.map clauseValue).filterMap f = (clauses.map (·.id)).map Value.int := by
    intro f hf
    induction clauses with
    | nil => rfl
    | cons c rest ih =>
      rw [List.map_cons, clauseValue_eq, List.filterMap_cons, ih, hf]
      rfl
  unfold checkKinds
  dsimp only
  rw [hids _ fun _ _ => rfl]
  cases clauses with
  | nil => rfl
  | cons c rest =>
    obtain ⟨last, hlast⟩ := exists_larger (rest.map (·.id)) c.id
    rw [List.map_cons, List.map_cons]
    dsimp only
    rw [hlast]
    rfl

/-- **Clauses with different numbers** pass all checks. -/
theorem readClauseList_map {clauses : List NumberedClause} (h : (clauses.map (·.id)).Nodup) :
    readClauseList (.arr (clauses.map clauseValue)) = .ok (clauses.map clauseValue) := by
  unfold readClauseList
  show (checkNumbers [] _).bind (fun _ => (checkLiterals _).bind fun _ => (checkKinds _).bind _) = _
  rw [checkNumbers_map [] h (by simp), checkLiterals_map, checkKinds_map]
  rfl

/-- **A number leads to its clause.** -/
theorem numberAt_int {clauses : List NumberedClause} {c : NumberedClause} (hc : c ∈ clauses) :
    numberAt (clauses.map clauseValue) (.int c.id) = .ok (.int c.id) := by
  unfold numberAt
  rw [key_int]
  dsimp only [bind, Except.bind]
  cases hfind : (clauses.map clauseValue).find? (hasKey (String.ofList (Scalar.intText c.id))) with
  | none =>
    -- the clause itself has the key
    have hnot := List.find?_eq_none.1 hfind (clauseValue c) (List.mem_map_of_mem hc)
    rw [clauseValue_eq] at hnot
    simp [hasKey, Value.key?, key_int, Except.toOption] at hnot
  | some v =>
    -- the clause found has the same key, and keys tell numbers apart
    obtain ⟨e, _, rfl⟩ := List.mem_map.1 (List.mem_of_find?_eq_some hfind)
    have hkey := List.find?_some hfind
    rw [clauseValue_eq] at hkey ⊢
    have hid : (Value.int e.id).key? = (Value.int c.id).key? := by
      simpa [hasKey, Value.key?, key_int, Except.toOption] using hkey
    rw [key?_int_inj hid]
    rfl

/-! ### Steps -/

/-- What a step is read as before its clauses are looked up. -/
def stepMembers (s : Step) : List (String × Value) :=
  [(tagField, .str "ProofStep"), ("step_number", .int s.number), ("left", .int s.left.id),
    ("right", .int s.right.id), ("resolvent", .int s.resolvent.id),
    ("substitution", .ofSubstitution s.unifier)]

theorem make_ofStep {s : Step} (h : (s.unifier.bindings.map (·.1)).Nodup) :
    (reading readAnyObject).make (Value.ofStep s).toJson = .ok (.obj (stepMembers s)) := by
  have hunifier := readsBack_ofSubstitution readsClauses_readAnyObject h
  unfold Value.ofStep
  rw [Value.toJson, make_tagged readsClauses_readAnyObject (by decide) (makeMembers_cons
    (readsBack_scalar _) (makeMembers_cons (readsBack_scalar _) (makeMembers_cons
    (readsBack_scalar _) (makeMembers_cons (readsBack_scalar _) (makeMembers_cons hunifier
    makeMembers_nil))))) (by simp [tagField])]
  rfl

/-- **A step is read back** once its clauses are known. -/
theorem readStep_stepMembers {clauses : List NumberedClause} {s : Step}
    (h : ∀ c ∈ [s.left, s.right, s.resolvent], c ∈ clauses) :
    readStep (clauses.map clauseValue) (.obj (stepMembers s)) = .ok (.ofStep s) := by
  simp only [List.forall_mem_cons, List.not_mem_nil, false_imp_iff, implies_true, and_true] at h
  obtain ⟨hleft, hright, hresolvent⟩ := h
  show (numberAt _ (.int s.left.id)).bind (fun left => (numberAt _ (.int s.right.id)).bind
    fun right => (numberAt _ (.int s.resolvent.id)).bind _) = _
  rw [numberAt_int hleft, numberAt_int hright, numberAt_int hresolvent]
  rfl

theorem mapM_readStep {clauses : List NumberedClause} {steps : List Step}
    (h : ∀ s ∈ steps, ∀ c ∈ [s.left, s.right, s.resolvent], c ∈ clauses) :
    (steps.map fun s => Value.obj (stepMembers s)).mapM (readStep (clauses.map clauseValue))
      = .ok (steps.map .ofStep) := by
  induction steps with
  | nil => rfl
  | cons s rest ih =>
    obtain ⟨hs, hrest⟩ := List.forall_mem_cons.1 h
    rw [List.map_cons, List.mapM_cons, readStep_stepMembers hs, ih hrest]
    rfl

/-! ### Derivations -/

theorem readOutcome_ofOption (outcome : Option Outcome) :
    readOutcome (Value.ofOption (fun o => .str o.name) outcome) = .ok outcome := by
  cases outcome with
  | none => rfl
  | some o => simp only [Value.ofOption, readOutcome, Outcome.ofName?_name]

theorem make_outcome (object : Members Value → Except Error Value) (outcome : Option Outcome) :
    (reading object).make (.ofOption (fun o => .str o.name) outcome)
      = .ok (.ofOption (fun o => .str o.name) outcome) := by
  cases outcome with
  | none => exact make_scalar _
  | some o => exact make_scalar _

/-- The members of a derivation as they are read, its steps not yet looked up. -/
def derivationMembers (d : Derivation) : List (String × Value) :=
  [(tagField, .str "Proof"), ("query", .ofOption .str d.query),
    ("negated_query", .ofOption (fun c => .int c.id) d.negatedQuery),
    ("outcome", .ofOption (fun o => .str o.name) d.outcome), ("passes", .int d.passes),
    ("clauses", .arr (d.working.clauses.map clauseValue)),
    ("steps", .arr (d.steps.map fun s => .obj (stepMembers s)))]

theorem make_ofDerivation {d : Derivation} (h : d.SelfContained) :
    (reading readAnyObject).make (Value.ofDerivation d).toJson
      = readDerivation (derivationMembers d) := by
  have hquery : ReadsBack readAnyObject (.ofOption .str d.query) := by
    cases d.query with
    | none => exact readsBack_scalar _
    | some query => exact readsBack_scalar _
  have hnegated : ReadsBack readAnyObject (.ofOption (fun c => .int c.id) d.negatedQuery) := by
    cases d.negatedQuery with
    | none => exact readsBack_scalar _
    | some q => exact readsBack_scalar _
  have hclauses : ∀ v ∈ d.working.clauses.map clauseValue, ReadsBack readAnyObject v := by
    intro v hv
    obtain ⟨c, _, rfl⟩ := List.mem_map.1 hv
    exact readsBack_ofClause readsClauses_readAnyObject c.labelled
  have hsteps : (reading readAnyObject).make (.arr (Value.itemsToJson (d.steps.map .ofStep)))
      = .ok (.arr (d.steps.map fun s => .obj (stepMembers s))) := by
    rw [Json.Reading.make, Value.itemsToJson_eq_map, List.map_map,
      makeItems_map (g := Value.toJson ∘ Value.ofStep) fun s hs => make_ofStep (h.bound s hs)]
    rfl
  obtain ⟨members, hjson, hmembers⟩ : ∃ members, (Value.ofDerivation d).toJson = .obj members ∧
      (reading readAnyObject).makeMembers members = .ok (derivationMembers d) :=
    ⟨_, by rw [Value.ofDerivation, Value.toJson, Value.toJson]; rfl, makeMembers_cons (make_scalar _)
      (makeMembers_cons hquery (makeMembers_cons hnegated (makeMembers_cons (make_outcome _ _)
      (makeMembers_cons (readsBack_scalar _) (makeMembers_cons (make_arr hclauses)
      (makeMembers_cons hsteps makeMembers_nil))))))⟩
  rw [hjson, make_obj hmembers (by simp [derivationMembers, tagField])]
  rfl

/-- The number of the negated query is that of a clause. -/
theorem readNegated_ofOption {d : Derivation} (h : d.SelfContained) :
    readNegated (d.working.clauses.map clauseValue) (.ofOption (fun c => .int c.id) d.negatedQuery)
      = .ok (.ofOption (fun c => .int c.id) d.negatedQuery) := by
  cases hq : d.negatedQuery with
  | none => rfl
  | some q =>
    obtain ⟨c, hc, hid⟩ := h.negated q hq
    have hnumber := numberAt_int hc
    rw [hid] at hnumber
    exact hnumber

/-- **A derivation is read back.** -/
theorem readsBack_ofDerivation {d : Derivation} (h : d.SelfContained) :
    ReadsBack readAnyObject (.ofDerivation d) := by
  have hfield : ∀ name v, Members.get? (derivationMembers d) name = some v →
      field (derivationMembers d) name = .ok v := by
    intro name v hv
    rw [field, hv]
  unfold ReadsBack
  rw [make_ofDerivation h]
  unfold readDerivation
  rw [hfield "clauses" _ rfl, hfield "negated_query" _ rfl, hfield "query" _ rfl,
    hfield "passes" _ rfl, hfield "steps" _ rfl, hfield "outcome" _ rfl]
  show (readClauseList _).bind _ = _
  rw [readClauseList_map h.distinct]
  show (readNegated _ _).bind _ = _
  rw [readNegated_ofOption h]
  show Except.bind (List.mapM _ (d.steps.map _)) _ = _
  rw [mapM_readStep h.between]
  show (readOutcome _).bind _ = _
  rw [readOutcome_ofOption]
  rfl

end Exchange

/-! ### What can be written -/

/-- The whole numbers of a derivation: of the negated query, the passes, the clauses and
    the steps. -/
def Derivation.numbers (d : Derivation) : List Int :=
  (d.negatedQuery.map (·.id)).toList ++ d.passes :: d.working.clauses.map (·.id) ++
    d.steps.flatMap fun s => [s.number, s.left.id, s.right.id, s.resolvent.id]

namespace Value

theorem checkWritable_ofStep (s : Step) : (ofStep s).checkWritable
    = checkWhole [s.number, s.left.id, s.right.id, s.resolvent.id] := by
  have hsplit : [s.number, s.left.id, s.right.id, s.resolvent.id]
      = [s.number] ++ ([s.left.id] ++ ([s.right.id] ++ ([s.resolvent.id] ++ []))) := rfl
  rw [hsplit, ofStep, checkWritable, checkWritable_ofSubstitution]
  simp only [checkWritable_int, checkWhole_append, checkWhole_nil]

theorem checkWritable_ofDerivation (d : Derivation) :
    (ofDerivation d).checkWritable = checkWhole d.numbers := by
  have hquery : (ofOption .str d.query).checkWritable = .ok () := by
    cases d.query with
    | none => rfl
    | some query => exact checkWritable_str query
  have hnegated : (ofOption (fun c : NumberedClause => .int c.id) d.negatedQuery).checkWritable
      = checkWhole (d.negatedQuery.map (·.id)).toList := by
    cases d.negatedQuery with
    | none => exact checkWhole_nil.symm
    | some q => exact checkWritable_int q.id
  have hclauses : checkWritableItems (d.working.clauses.map fun c => ofClause c.labelled)
      = checkWhole (d.working.clauses.map (·.id)) := by
    rw [checkWritableItems_eq (g := fun c => [c.id]), List.map_eq_flatMap]
    intro c
    rw [checkWritable_ofClause]
    exact checkWritable_int c.id
  have hsplit : d.numbers = (d.negatedQuery.map (·.id)).toList ++ ([d.passes] ++
      (d.working.clauses.map (·.id) ++
        d.steps.flatMap fun s => [s.number, s.left.id, s.right.id, s.resolvent.id])) := by
    simp [Derivation.numbers]
  rw [hsplit, ofDerivation, checkWritable, hquery, hnegated, checkWritable_int, hclauses,
    checkWritableItems_eq checkWritable_ofStep, checkWhole_append, checkWhole_append,
    checkWhole_append]
  rfl

end Value

/-- **A derivation is written** unless one of its numbers has too many digits. -/
theorem Derivation.write_eq (d : Derivation) (indent : Option Nat) :
    d.write indent = if ∀ n ∈ d.numbers, n.natAbs < 10 ^ Scalar.maxDigits then
      .ok (d.toJson.render indent) else .error .unwritable := by
  unfold Derivation.write Value.written
  rw [Value.checkWritable_ofDerivation, Value.checkWhole]
  split
  · rfl
  · rfl

namespace Value

open Json

theorem isExact_ofStep {s : Step}
    (h : ∀ n ∈ [s.number, s.left.id, s.right.id, s.resolvent.id], n.natAbs < 10 ^ Scalar.maxDigits) :
    (ofStep s).toJson.IsExact := by
  simp only [List.forall_mem_cons, List.not_mem_nil, false_imp_iff, implies_true, and_true] at h
  obtain ⟨hnumber, hleft, hright, hresolvent⟩ := h
  simp only [ofStep, toJson]
  exact .obj_cons (isExact_str _) (.obj_cons (isExact_int hnumber) (.obj_cons (isExact_int hleft)
    (.obj_cons (isExact_int hright) (.obj_cons (isExact_int hresolvent)
    (.obj_cons (isExact_ofSubstitution s.unifier) .obj_nil)))))

/-- **What is written of a derivation** can be read back. -/
theorem isExact_ofDerivation {d : Derivation}
    (h : ∀ n ∈ d.numbers, n.natAbs < 10 ^ Scalar.maxDigits) :
    (ofDerivation d).toJson.IsExact := by
  simp only [Derivation.numbers, List.forall_mem_append, List.forall_mem_cons] at h
  obtain ⟨⟨hnegated, hpasses, hids⟩, hsteps⟩ := h
  have hqueryExact : (ofOption .str d.query).toJson.IsExact := by
    cases d.query with
    | none => exact isExact_null
    | some query => exact isExact_str query
  have hnegatedExact : (ofOption (fun c => .int c.id) d.negatedQuery).toJson.IsExact := by
    cases hq : d.negatedQuery with
    | none => exact isExact_null
    | some q => exact isExact_int (hnegated q.id (by simp [hq]))
  have houtcome : (Json.ofOption (fun o : Outcome => .str o.name) d.outcome).IsExact := by
    cases d.outcome with
    | none => exact isExact_null
    | some o => exact isExact_str o.name
  have hclauses : ∀ c ∈ d.working.clauses, (ofClause c.labelled).toJson.IsExact := by
    intro c hc
    apply isExact_ofClause
    intro id hid
    obtain rfl := Option.some.inj hid
    exact hids c.id (List.mem_map_of_mem hc)
  have hstep : ∀ s ∈ d.steps, (ofStep s).toJson.IsExact := by
    intro s hs
    apply isExact_ofStep
    intro n hn
    exact hsteps n (List.mem_flatMap.2 ⟨s, hs, hn⟩)
  rw [ofDerivation, toJson]
  exact .obj_cons (isExact_str _) (.obj_cons hqueryExact (.obj_cons hnegatedExact
    (.obj_cons houtcome (.obj_cons (isExact_int hpasses) (.obj_cons (isExact_map hclauses)
    (.obj_cons (isExact_map hstep) .obj_nil))))))

end Value

/-! ### What was read -/

/-- The derivation for which a text stands: the working set starts afresh, and the
    negated query is the clause of its number. -/
def Derivation.restored (d : Derivation) : Derivation where
  working := .initial d.working.clauses
  query := d.query
  negatedQuery := d.negatedQuery.bind fun q => (WorkingSet.initial d.working.clauses).get? q.id
  steps := d.steps
  outcome := d.outcome
  passes := d.passes

namespace Exchange.Transcript

theorem step?_ofStep {ws : WorkingSet} {s : Step}
    (h : ∀ c ∈ [s.left, s.right, s.resolvent], ws.get? c.id = some c) :
    step? ws (.ofStep s) = some s := by
  simp only [List.forall_mem_cons, List.not_mem_nil, false_imp_iff, implies_true, and_true] at h
  obtain ⟨hleft, hright, hresolvent⟩ := h
  simp [step?, Value.ofStep, hleft, hright, hresolvent, Value.substitution?_ofSubstitution]

theorem mapM_step? {ws : WorkingSet} {steps : List Step}
    (h : ∀ s ∈ steps, ∀ c ∈ [s.left, s.right, s.resolvent], ws.get? c.id = some c) :
    (steps.map Value.ofStep).mapM (step? ws) = some steps := by
  induction steps with
  | nil => rfl
  | cons s rest ih =>
    obtain ⟨hs, hrest⟩ := List.forall_mem_cons.1 h
    rw [List.map_cons, List.mapM_cons, step?_ofStep hs, ih hrest]
    rfl

theorem query?_ofOption (query : Option String) : query? (.ofOption .str query) = some query := by
  cases query with
  | none => rfl
  | some query => rfl

theorem negatedQuery?_ofOption {ws : WorkingSet} {negated : Option NumberedClause}
    (h : ∀ q ∈ negated, ∃ c, ws.get? q.id = some c) :
    negatedQuery? ws (.ofOption (fun c => .int c.id) negated)
      = some (negated.bind fun q => ws.get? q.id) := by
  cases negated with
  | none => rfl
  | some q =>
    obtain ⟨c, hc⟩ := h q rfl
    show (ws.get? q.id).map some = some (ws.get? q.id)
    rw [hc]
    rfl

/-- **What was read stands for a derivation.** -/
theorem derivation?_ofDerivation {d : Derivation} (h : d.SelfContained) :
    ∃ t, ofValue? (.ofDerivation d) = some t ∧ t.derivation? = some d.restored := by
  refine ⟨_, rfl, ?_⟩
  have hget : ∀ c ∈ d.working.clauses,
      (WorkingSet.initial d.working.clauses).get? c.id = some c := by
    intro c hc
    exact (WorkingSet.kept_initial h.distinct).get?_eq hc
  have hclauses : (d.working.clauses.map fun c => Value.ofClause c.labelled).mapM Value.clause?
      = some (d.working.clauses.map NumberedClause.labelled) := by
    have hall := Value.mapM_map_eq_some Value.clause?_ofClause
      (d.working.clauses.map NumberedClause.labelled)
    rwa [List.map_map] at hall
  have hnegated : ∀ q ∈ d.negatedQuery,
      ∃ c, (WorkingSet.initial d.working.clauses).get? q.id = some c := by
    intro q hq
    obtain ⟨c, hc, hid⟩ := h.negated q hq
    exact ⟨c, hid ▸ hget c hc⟩
  unfold derivation?
  dsimp only
  rw [hclauses]
  show (WorkingSet.ofClauses (d.working.clauses.map NumberedClause.labelled)).toOption.bind _ = _
  rw [ofClauses_labelled h.distinct]
  show (query? _).bind _ = _
  rw [query?_ofOption]
  show (negatedQuery? _ _).bind _ = _
  rw [negatedQuery?_ofOption hnegated]
  show Option.bind (List.mapM _ (d.steps.map Value.ofStep)) _ = _
  rw [mapM_step? fun s hs c hc => hget c (h.between s hs c hc)]
  rfl

end Exchange.Transcript

/-! ### The derivations of an engine -/

theorem nodup_of_checkNumbers {clauses : List NumberedClause} : ∀ {seen : List Int}
    {numbered : List NumberedClause},
    WorkingSet.checkNumbers seen (clauses.map NumberedClause.labelled) = .ok numbered →
      (clauses.map (·.id)).Nodup ∧ ∀ c ∈ clauses, c.id ∉ seen := by
  induction clauses with
  | nil =>
    intro seen numbered _
    exact ⟨List.nodup_nil, by simp⟩
  | cons c rest ih =>
    intro seen numbered h
    rw [List.map_cons, WorkingSet.checkNumbers] at h
    dsimp only [NumberedClause.labelled] at h
    split at h
    · cases h
    · rename_i hnew
      split at h
      · cases h
      · rename_i hrest
        obtain ⟨hnodup, hseen⟩ := ih hrest
        refine ⟨List.nodup_cons.2 ⟨?_, hnodup⟩, List.forall_mem_cons.2 ⟨hnew, ?_⟩⟩
        · intro hmem
          obtain ⟨e, he, hid⟩ := List.mem_map.1 hmem
          exact hseen e he (hid ▸ List.mem_cons_self)
        · intro e he hmem
          exact hseen e he (List.mem_cons_of_mem _ hmem)

namespace Engine

/-- **A derivation is only returned** for an accepted query on a base whose clauses have
    different numbers. -/
theorem of_prove_eq_ok {engine : Engine} {query : String} {d : Derivation}
    (h : (engine.prove query).result = .ok d) :
    (engine.base.map (·.id)).Nodup ∧
      ∃ negated builder, Build.negate query engine.builder = (.ok negated, builder) := by
  rw [prove] at h
  split at h
  · cases h
  · rename_i negated builder hneg
    refine ⟨?_, negated, builder, hneg⟩
    rw [search] at h
    split at h
    · cases h
    · rename_i ws hws
      unfold WorkingSet.ofClauses at hws
      split at hws
      · cases hws
      · rename_i hnumbers
        exact (nodup_of_checkNumbers hnumbers).1

/-- **Every derivation of an engine** can be exchanged: its numbers name its clauses. The
    one with the number of the negated query has the same literals. -/
theorem selfContained_prove {engine : Engine} {query : String} {d : Derivation}
    (h : (engine.prove query).result = .ok d) :
    d.SelfContained ∧ d.working.nextId = WorkingSet.nextAfter (d.working.clauses.map (·.id)) ∧
      ∃ q, d.negatedQuery = some q ∧ ∃ c ∈ d.working.clauses, c.id = q.id ∧
        c.toClause.same q.toClause = true := by
  obtain ⟨hids, negated, builder, hneg⟩ := of_prove_eq_ok h
  obtain ⟨e, outcome, hresult, _, hkept, hext, _⟩ := prove_replays hids hneg
  rw [hresult] at h
  obtain rfl := Except.ok.inj h
  obtain ⟨hquery, c, hc, hid, hsame⟩ := place_mem engine.base negated
  -- clauses given at the start are never lost
  have hpresent : c ∈ e.working.clauses := by
    rw [hext.clauses]
    apply List.mem_append_left
    show c ∈ (start engine.base negated).clauses
    rw [clauses_start]
    exact hc
  have hchecks : ∀ s ∈ e.steps, ∃ given k, s.Checks e.working.clauses given k := by
    intro s hs
    obtain ⟨k, hk⟩ := List.getElem?_of_mem hs
    exact ⟨_, k, hext.checks k s hk⟩
  refine ⟨⟨hkept.distinct, ?_, ?_, ?_⟩, hkept.next, _, hext.negatedQuery, c, hpresent, hid, ?_⟩
  · intro q hq
    have hq : q ∈ e.negatedQuery := hq
    rw [hext.negatedQuery] at hq
    obtain rfl := Option.some.inj hq
    exact ⟨c, hpresent, hid⟩
  · intro s hs clause hclause
    obtain ⟨given, k, hstep⟩ := hchecks s hs
    obtain ⟨i, j, _, _, hleft, hright⟩ := hstep.parents
    simp only [List.mem_cons, List.not_mem_nil, or_false] at hclause
    rcases hclause with rfl | rfl | rfl
    · exact List.mem_of_getElem? hleft
    · exact List.mem_of_getElem? hright
    · exact List.mem_of_getElem? hstep.placed
  · intro s hs
    obtain ⟨given, k, hstep⟩ := hchecks s hs
    obtain ⟨r, hres, _, hunifier⟩ := hstep.applied
    obtain ⟨l, _, m, _, hclash, _⟩ := exists_of_resolve hres
    rw [← hunifier]
    exact unify_nodup (clash?_eq_some hclash).2
  · rw [hquery]
    exact hsame

end Engine

/-! ### The main result -/

/-- A derivation that tells the same as another. -/
structure Derivation.Restores (d d' : Derivation) : Prop where
  /-- The query is the same. -/
  query : d'.query = d.query
  /-- The outcome is the same. -/
  outcome : d'.outcome = d.outcome
  /-- The number of passes is the same. -/
  passes : d'.passes = d.passes
  /-- The clauses are the same, with their numbers, in the same order. -/
  clauses : d'.working.clauses = d.working.clauses
  /-- The next number is the same. -/
  nextId : d'.working.nextId = d.working.nextId
  /-- The steps are the same, with their clauses and unifiers. -/
  steps : d'.steps = d.steps
  /-- The contradiction depends on the same steps. -/
  refutation : d'.refutation = d.refutation
  /-- The negated query has the same number, and the same literals up to order and
      repetition. -/
  negatedQuery : ∃ q q', d.negatedQuery = some q ∧ d'.negatedQuery = some q' ∧ q'.id = q.id ∧
    q'.toClause.same q.toClause = true

namespace Engine

theorem restores_restored {engine : Engine} {query : String} {d : Derivation}
    (h : (engine.prove query).result = .ok d) : d.Restores d.restored := by
  obtain ⟨hself, hnext, q, hq, c, hc, hid, hsame⟩ := selfContained_prove h
  have hfound := (WorkingSet.kept_initial hself.distinct).get?_eq hc
  -- only the next number and the negated query are not copied from the text
  refine ⟨rfl, rfl, rfl, rfl, hnext.symm, rfl, rfl, q, c, hq, ?_, hid, hsame⟩
  show d.negatedQuery.bind _ = _
  rw [hq, Option.bind_some, ← hid]
  exact hfound

end Engine

/-- A derivation and what it is restored as are written alike. -/
theorem Derivation.SelfContained.write_restored {d : Derivation} (h : d.SelfContained)
    (indent : Option Nat) : d.restored.write indent = d.write indent := by
  have hnegated : Value.ofOption (fun c => Value.int c.id) d.restored.negatedQuery
      = .ofOption (fun c => .int c.id) d.negatedQuery := by
    cases hq : d.negatedQuery with
    | none => simp [Derivation.restored, hq, Value.ofOption]
    | some q =>
      obtain ⟨c, hc, hid⟩ := h.negated q hq
      have hfound := (WorkingSet.kept_initial h.distinct).get?_eq hc
      rw [hid] at hfound
      simp [Derivation.restored, hq, hfound, Value.ofOption, hid]
  have hvalue : Value.ofDerivation d.restored = .ofDerivation d := by
    unfold Value.ofDerivation
    rw [hnegated]
    rfl
  unfold Derivation.write
  rw [hvalue]

/-- **A derivation survives the exchange.** Whatever an engine returns for a query, if its
    whole numbers can be written at all, it is written, in any layout; the text is read
    back as a derivation that tells the same; and that one is written as the same text.
    With a longer number it is not written. -/
theorem exchange_restores {engine : Engine} {query : String} {d : Derivation}
    (h : (engine.prove query).result = .ok d) (indent : Option Nat) :
    ((∀ n ∈ d.numbers, n.natAbs < 10 ^ Scalar.maxDigits) →
      ∃ text v t d', d.write indent = .ok text ∧ Exchange.readDerivations text = .ok v ∧
        Exchange.Transcript.ofValue? v = some t ∧ t.derivation? = some d' ∧
        d.Restores d' ∧ d'.write indent = .ok text) ∧
    ((∃ n ∈ d.numbers, 10 ^ Scalar.maxDigits ≤ n.natAbs) →
      d.write indent = .error .unwritable) := by
  obtain ⟨hself, _⟩ := Engine.selfContained_prove h
  constructor
  · intro hnumbers
    have hwritten : d.write indent = .ok (d.toJson.render indent) := by
      rw [Derivation.write_eq, if_pos hnumbers]
    have hread : Exchange.readDerivations (d.toJson.render indent) = .ok (.ofDerivation d) := by
      unfold Exchange.readDerivations Derivation.toJson
      rw [Exchange.readTextWith_render _ (Value.isExact_ofDerivation hnumbers)]
      exact Exchange.readsBack_ofDerivation hself
    obtain ⟨t, ht, hderivation⟩ := Exchange.Transcript.derivation?_ofDerivation hself
    refine ⟨d.toJson.render indent, _, t, d.restored, hwritten, hread, ht, hderivation,
      Engine.restores_restored h, ?_⟩
    rw [hself.write_restored]
    exact hwritten
  · intro hlong
    obtain ⟨n, hn, hle⟩ := hlong
    rw [Derivation.write_eq, if_neg]
    intro hall
    exact Nat.not_lt.2 hle (hall n hn)

/-- A base with a variable called like the tag, and a name made of a quote and a line
    end. -/
def oddNames : Engine :=
  .ofClauses [{ literals := [{ name := "P", args := [.var "_type"] }, { name := "\"\n" }],
                id := some (-3) },
    { literals := [{ name := "\"\n", negated := true }] }] ⟨.exhaustive, none⟩ none

theorem exchange_restores_oddNames :
    ∃ d, (oddNames.prove "P(A)").result = .ok d ∧
      d.steps.map (·.unifier.bindings) = [[], [("_type", .const "A")], []] ∧
      (∀ n ∈ d.numbers, n.natAbs < 10 ^ Scalar.maxDigits) ∧
      ∃ text v t d', d.write (some 2) = .ok text ∧ Exchange.readDerivations text = .ok v ∧
        Exchange.Transcript.ofValue? v = some t ∧ t.derivation? = some d' ∧
        d.Restores d' ∧ d'.write (some 2) = .ok text := by
  have hrun : (oddNames.prove "P(A)").result.toOption.map
      (fun d => (d.steps.map (·.unifier.bindings), d.numbers))
      = some ([[], [("_type", .const "A")], []],
        [2, 1, -3, 1, 2, 3, 4, 5, 1, -3, 1, 3, 2, -3, 2, 4, 3, 1, 4, 5]) := by
    decide +kernel
  obtain ⟨d, hd, hvalues⟩ := Option.map_eq_some_iff.1 hrun
  have hd := ok_of_toOption hd
  obtain ⟨hunifiers, hnumbers⟩ := Prod.mk.inj hvalues
  have hshort : ∀ n ∈ d.numbers, n.natAbs < 10 ^ Scalar.maxDigits := by
    rw [hnumbers]
    decide +kernel
  exact ⟨d, hd, hunifiers, hshort, (exchange_restores hd (some 2)).1 hshort⟩

/-! ### Numbers that are too long -/

/-- A base of one fact, with a number of its own. -/
def numberedFact (n : Int) : Engine :=
  .ofClauses [{ literals := [{ name := "Q" }], id := some n }] ⟨.incremental, none⟩ none

/-- The negated query has the next number. -/
theorem succ_mem_numbers (n : Int) :
    ∃ d, ((numberedFact n).prove "P").result = .ok d ∧ n + 1 ∈ d.numbers := by
  let negated : Clause := ⟨[{ name := "P", negated := true }]⟩
  have hneg : Build.negate "P" (numberedFact n).builder
      = (.ok negated, { symbols := ["Q", "P"] }) := by
    show Build.negate "P" (numberedFact 0).builder = _
    exact eq_ok_of_toOption (by decide +kernel)
  have hnew : (WorkingSet.initial (numberedFact n).base).contains negated = false := rfl
  have hids : ((numberedFact n).base.map (·.id)).Nodup := List.nodup_singleton n
  obtain ⟨d, outcome, hresult, _, _, hext, _⟩ := Engine.prove_replays hids hneg
  have hid : d.negatedQuery = some (negated.withId (n + 1)) := by
    rw [hext.negatedQuery]
    show some (Engine.place _ negated).1 = _
    rw [Engine.place, WorkingSet.add_of_not_contains hnew]
    rfl
  refine ⟨d.close outcome, hresult, ?_⟩
  show n + 1 ∈ ((d.negatedQuery.map (·.id)).toList ++ _) ++ _
  rw [hid]
  apply List.mem_append_left
  apply List.mem_append_left
  exact List.mem_singleton_self _

/-- **Not everything is written.** The longest number that can be written is that of a
    fact; the negated query gets the next one, and the derivation cannot be exchanged. -/
theorem exchange_refuses_numberedFact :
    ∃ d, ((numberedFact (10 ^ Scalar.maxDigits - 1)).prove "P").result = .ok d ∧
      ∀ indent, d.write indent = .error .unwritable := by
  obtain ⟨d, hd, hmem⟩ := succ_mem_numbers (10 ^ Scalar.maxDigits - 1)
  refine ⟨d, hd, ?_⟩
  intro indent
  rw [Derivation.write_eq, if_neg]
  intro hall
  have hlt := hall _ hmem
  have hten : (10 : Int).natAbs = 10 := rfl
  rw [Int.sub_add_cancel, Int.natAbs_pow, hten] at hlt
  exact Nat.lt_irrefl _ hlt

end Refuter
