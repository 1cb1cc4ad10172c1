import Refuter.Engine
import Refuter.Proofs.Horn
import Refuter.Proofs.Reading
import Refuter.Proofs.Renaming

/-! # When "not entailed" can be trusted

From sentences and a query without quantifiers to a structure, and back.

- The clauses of a base are true in a structure exactly when its sentences are,
  and the negated query exactly when the query has no answer there
  (`Build.sentences_ok`, `Build.negate_ok`).
- A query is a search from the base with the negated query (`Engine.prove_cases`).

A query that is proved follows from the sentences. One that is found saturated
need not fail to follow: clauses derived later are not renamed apart, and a
clause given with a repeated literal stands in the way of its own shorter form.
The main result says exactly when the answer is right: when the same loop also
finds the ground instances saturated. Ground clauses without repetition and safe
Horn clauses need no such check.
-/

namespace Refuter

universe u

open Sentence

/-! ### Sentences and queries in a structure -/

/-- The universal closure of a sentence is true. -/
def Structure.Models (M : Structure.{u}) (sentence : String) : Prop :=
  ∃ text, Sentence.normalize sentence = .ok text ∧ ∀ v, Holds (M.atoms v) text

/-- The existential closure of a query is true. -/
def Structure.Answers (M : Structure.{u}) (query : String) : Prop :=
  ∃ text, Sentence.normalize query = .ok text ∧ ∃ v, conjunctionHolds (M.atoms v) text

/-- A structure that shows that a query does not follow from sentences. -/
def Structure.IsCountermodel (M : Structure.{u}) (sentences : List String) (query : String) :
    Prop :=
  (∀ s ∈ sentences, M.Models s) ∧ ¬ M.Answers query

/-! ### The builder -/

namespace Build

variable {b b' : Builder}

theorem normalize_ok {sentence : String} {text : List Char}
    (h : normalize sentence b = (.ok text, b')) : Sentence.normalize sentence = .ok text := by
  rw [normalize] at h
  cases hnorm : Sentence.normalize sentence with
  | error fault =>
    rw [hnorm] at h
    exact absurd h throw_ne_ok
  | ok text' =>
    rw [hnorm] at h
    obtain ⟨_, _, _, hpure⟩ := bind_eq_ok h
    rw [(pure_eq_ok hpure).1]

theorem convert_ok {α : Type} {sentence : String} {conversion : Conversion α} {a : α}
    {σ : Substitution} (h : convert sentence conversion b = (.ok (a, σ), b')) :
    ∃ scope, conversion { builder := b } = (.ok a, scope) ∧ σ = ⟨scope.skolems⟩ := by
  unfold convert at h
  split at h
  · rename_i value scope hconv
    cases h
    exact ⟨scope, hconv, rfl⟩
  · cases h

theorem apply_empty (c : Clause) : Substitution.apply {} c = c := by
  have hlit : ∀ l : Literal, Substitution.applyLiteral {} l = l := by
    intro l
    have hargs : l.args.map (Substitution.resolve {}) = l.args := List.map_id _
    simp [Substitution.applyLiteral, Literal.mapArgs, hargs]
  rw [Substitution.apply, List.map_congr_left fun l _ => hlit l, List.map_id']

/-- **A sentence and its clauses** are true together. -/
theorem sentence_ok {s : String} {clauses : List Clause} (hq : QuantifierFree s.toList)
    (h : sentence s b = (.ok clauses, b')) (M : Structure.{u}) :
    (∀ c ∈ clauses, M.Satisfies c) ↔ M.Models s := by
  obtain ⟨text, _, htext, h₁⟩ := bind_eq_ok h
  obtain ⟨⟨lists, σ⟩, _, hconv, hpure⟩ := bind_eq_ok h₁
  have hnorm := normalize_ok htext
  obtain ⟨scope, hformula, rfl⟩ := convert_ok hconv
  obtain ⟨rfl, hmeaning⟩ := Conversion.formula_ok (hq.normalize hnorm) hformula
  obtain ⟨rfl, rfl⟩ := pure_eq_ok hpure
  have hmodels : M.Models s ↔ ∀ v, Holds (M.atoms v) text := by
    rw [Structure.Models, hnorm]
    simp
  have happly : ∀ ls : List Literal, Substitution.apply ⟨[]⟩ ⟨ls⟩ = ⟨ls⟩ :=
    fun ls => apply_empty ⟨ls⟩
  simp only [hmodels, hmeaning, List.mem_map, happly, Structure.Satisfies]
  constructor
  · exact fun hall v ls hls => hall _ ⟨ls, hls, rfl⟩ v
  · rintro hall _ ⟨ls, hls, rfl⟩ v
    exact hall v ls hls

theorem standardize_ok {c c' : Clause} (h : standardize c b = (.ok c', b')) (M : Structure.{u}) :
    M.Satisfies c' ↔ M.Satisfies c := by
  obtain rfl : (b.supply.standardize c).1 = c' := by cases h; rfl
  exact Supply.satisfies_standardize _ c

/-- **A base and its sentences** are true together. -/
theorem sentences_ok {texts : List String} {clauses : List NumberedClause}
    (hq : ∀ s ∈ texts, QuantifierFree s.toList) (h : sentences texts b = (.ok clauses, b')) :
    (clauses.map (·.id)).Nodup ∧ ∀ M : Structure.{u},
      (∀ c ∈ clauses, M.Satisfies c.toClause) ↔ ∀ s ∈ texts, M.Models s := by
  obtain ⟨_, _, _, h₁⟩ := bind_eq_ok h
  obtain ⟨lists, _, hlists, h₂⟩ := bind_eq_ok h₁
  obtain ⟨renamed, _, hrenamed, hpure⟩ := bind_eq_ok h₂
  obtain ⟨rfl, rfl⟩ := pure_eq_ok hpure
  -- each sentence is true with its clauses, and each clause with its renamed form
  obtain ⟨_, hlists⟩ := mapM_eq_ok (I := fun _ => True)
    (R := fun s clauses => ∀ M : Structure.{u}, M.Models s ↔ ∀ c ∈ clauses, M.Satisfies c)
    (fun s hs _ _ _ _ hsentence => ⟨trivial, fun M => (sentence_ok (hq s hs) hsentence M).symm⟩)
    trivial hlists
  obtain ⟨_, hrenamed⟩ := mapM_eq_ok (I := fun _ => True)
    (R := fun c c' => ∀ M : Structure.{u}, M.Satisfies c ↔ M.Satisfies c')
    (fun c _ _ _ _ _ hc => ⟨trivial, fun M => (standardize_ok hc M).symm⟩) trivial hrenamed
  refine ⟨nodup_numberedFromOne renamed, fun M => ?_⟩
  rw [forall₂_forall_iff hlists fun hR => hR M]
  refine (forall_numberedFromOne (P := M.Satisfies)).trans ?_
  rw [← forall₂_forall_iff hrenamed fun hR => hR M]
  simp only [List.mem_flatten, forall_exists_index, and_imp]
  exact ⟨fun hall cls hcls c hc => hall c cls hcls hc, fun hall c cls hcls hc => hall cls hcls c hc⟩

/-- **A negated query** is true exactly where the query has no answer. -/
theorem negate_ok {query : String} {negated : Clause} (hq : QuantifierFree query.toList)
    (h : negate query b = (.ok negated, b')) (M : Structure.{u}) :
    M.Satisfies negated ↔ ¬ M.Answers query := by
  obtain ⟨text, _, htext, h₁⟩ := bind_eq_ok h
  obtain ⟨⟨literals, σ⟩, _, hconv, hstd⟩ := bind_eq_ok h₁
  have hnorm := normalize_ok htext
  obtain ⟨scope, hliterals, rfl⟩ := convert_ok hconv
  obtain ⟨rfl, hmeaning⟩ := queryLiterals_ok (hq.normalize hnorm) hliterals
  have hanswers : M.Answers query ↔ ∃ v, conjunctionHolds (M.atoms v) text := by
    rw [Structure.Answers, hnorm]
    simp
  rw [standardize_ok hstd M, hanswers]
  simp only [hmeaning, not_exists, not_not]
  rw [show Substitution.apply ⟨[]⟩ ⟨literals⟩ = ⟨literals⟩ from apply_empty _]
  rfl

end Build

/-! ### The engine -/

namespace Engine

theorem numberFrom_labelled (clauses : List NumberedClause) :
    ∀ next, numberFrom next (clauses.map NumberedClause.labelled) = clauses := by
  induction clauses with
  | nil => exact fun _ => rfl
  | cons c rest ih =>
    intro next
    rw [List.map_cons, numberFrom, ih]
    rfl

theorem base_ofSentences (clauses : List NumberedClause) (loop : Loop) (builder : Builder) :
    (ofSentences clauses loop builder).base = clauses :=
  numberFrom_labelled clauses 1

/-- The working set of a query: the base, and the negated query unless it is
    there already. -/
def start (base : List NumberedClause) (negated : Clause) : WorkingSet :=
  (place (.initial base) negated).2

theorem start_of_contains {base : List NumberedClause} {negated : Clause}
    (h : (WorkingSet.initial base).contains negated = true) : start base negated = .initial base := by
  rw [start, place, WorkingSet.add_of_contains h]
  dsimp only
  split <;> rfl

theorem start_of_not_contains {base : List NumberedClause} {negated : Clause}
    (h : (WorkingSet.initial base).contains negated = false) :
    start base negated = (WorkingSet.initial base).join negated := by
  rw [start, place, WorkingSet.add_of_not_contains h]

theorem start_cases (base : List NumberedClause) (negated : Clause) :
    ((WorkingSet.initial base).contains negated = true ∧ start base negated = .initial base) ∨
      start base negated = (WorkingSet.initial base).join negated := by
  cases hcon : (WorkingSet.initial base).contains negated with
  | true => exact .inl ⟨rfl, start_of_contains hcon⟩
  | false => exact .inr (start_of_not_contains hcon)

theorem kept_start {base : List NumberedClause} (h : (base.map (·.id)).Nodup) (negated : Clause) :
    (start base negated).Kept := by
  rcases start_cases base negated with ⟨_, hstart⟩ | hstart
  · rw [hstart]
    exact WorkingSet.kept_initial h
  · rw [hstart]
    exact (WorkingSet.kept_initial h).join negated

/-- A property of base and negated query is one of all clauses at the start. -/
theorem forall_start {P : Clause → Prop} {base : List NumberedClause} {negated : Clause}
    (h : ∀ c ∈ base.map (·.toClause) ++ [negated], P c) :
    ∀ c ∈ (start base negated).clauses, P c.toClause := by
  have hbase : ∀ c ∈ base, P c.toClause := fun c hc =>
    h _ (List.mem_append_left _ (List.mem_map.2 ⟨c, hc, rfl⟩))
  rcases start_cases base negated with ⟨_, hstart⟩ | hstart
  · rw [hstart]
    exact hbase
  · rw [hstart, WorkingSet.clauses_join]
    intro c hc
    rcases List.mem_append.1 hc with hc | hc
    · exact hbase c hc
    · rw [List.mem_singleton.1 hc]
      exact h _ (List.mem_append_right _ (List.mem_singleton_self _))

/-- A structure satisfies the start exactly when it satisfies base and negated
    query: a clause that is there already is satisfied as another. -/
theorem satisfies_start {M : Structure.{u}} {base : List NumberedClause} {negated : Clause} :
    (∀ c ∈ (start base negated).clauses, M.Satisfies c.toClause) ↔
      ∀ c ∈ base.map (·.toClause) ++ [negated], M.Satisfies c := by
  refine ⟨fun h => ?_, forall_start⟩
  have hbase : ∀ c ∈ base, c ∈ (start base negated).clauses := by
    intro c hc
    rcases start_cases base negated with ⟨_, hstart⟩ | hstart
    · rw [hstart]
      exact hc
    · rw [hstart]
      exact List.mem_append_left _ hc
  have hneg : M.Satisfies negated := by
    rcases start_cases base negated with ⟨hcon, _⟩ | hstart
    · -- the negated query is not added, but a clause like it is in the base
      obtain ⟨c, hc, hsame⟩ := WorkingSet.contains_iff.1 hcon
      exact (h c (hbase c hc)).of_same hsame
    · have hmem : negated.withId (WorkingSet.initial base).nextId
          ∈ (start base negated).clauses := by
        rw [hstart]
        exact List.mem_append_right _ (List.mem_singleton_self _)
      exact h _ hmem
  intro c hc
  rcases List.mem_append.1 hc with hc | hc
  · obtain ⟨n, hn, rfl⟩ := List.mem_map.1 hc
    exact h n (hbase n hn)
  · rw [List.mem_singleton.1 hc]
    exact hneg

/-- The derivation with which a query begins. -/
def opening (base : List NumberedClause) (query : String) (negated : Clause)
    (trace : List Record := []) : Derivation :=
  { working := start base negated
    query := some query
    negatedQuery := some (place (.initial base) negated).1
    trace }

/-- **A query is a search** from its opening. -/
theorem result_prove (engine : Engine) (hids : (engine.base.map (·.id)).Nodup)
    {builder' : Builder} {query : String} {negated : Clause}
    (hneg : Build.negate query engine.builder = (.ok negated, builder'))
    (trace : List Record := []) :
    (engine.prove query trace).result
      = (engine.loop.run (opening engine.base query negated trace)).result.map
        fun _ => (engine.loop.run (opening engine.base query negated trace)).derivation := by
  rw [prove, hneg]
  dsimp only
  rw [search]
  dsimp only
  rw [ofClauses_labelled hids]
  simp only [opening, start]
  -- the answer of the run is passed on, whether it is a derivation or an error
  split
  · rename_i hrun
    rw [hrun]
    rfl
  · rename_i hrun
    rw [hrun]
    rfl

/-- **What a query can come to:** without a cap it is decided, and the answer is
    `true` or `false` as the search proves or saturates. -/
theorem prove_cases {loop : Loop} (hcap : loop.cap = none) {base : List NumberedClause}
    (hids : (base.map (·.id)).Nodup) {builder builder' : Builder} {query : String}
    {negated : Clause} (hneg : Build.negate query builder = (.ok negated, builder')) :
    ∃ d, ((ofSentences base loop builder).prove query).result = .ok d ∧
      ((verdict loop d = .ok true ∧
          (loop.run (opening base query negated)).result = .ok .proved) ∨
        (verdict loop d = .ok false ∧
          (loop.run (opening base query negated)).result = .ok .saturated)) := by
  obtain ⟨e, he⟩ : ∃ e, e = opening base query negated := ⟨_, rfl⟩
  have hopen : e.outcome = none := by rw [he]; rfl
  have hbase := base_ofSentences base loop builder
  have hresult := result_prove (ofSentences base loop builder) (hbase.symm ▸ hids) hneg
  rw [hbase, ← he] at hresult
  rw [← he]
  change _ = (loop.run e).result.map fun _ => (loop.run e).derivation at hresult
  have hdecided := Loop.result_of_uncapped hcap hopen
  -- the outcome is entered in the derivation
  have houtcome : ∀ o, (loop.run e).result = .ok o → (loop.run e).derivation.outcome = some o := by
    intro o ho
    rcases loop.run_cases hopen with ⟨_, hrun⟩ | ⟨_, _, _, o', _, _, _, _, hrun⟩
    · rw [hrun] at ho ⊢
      obtain rfl : Outcome.proved = o := Except.ok.inj ho
      rfl
    · rw [hrun] at ho ⊢
      obtain rfl : o' = o := Except.ok.inj ho
      rfl
  refine ⟨(loop.run e).derivation, ?_, ?_⟩
  · rcases hdecided with h | h
    · rw [hresult, h]
      rfl
    · rw [hresult, h]
      rfl
  · rcases hdecided with h | h
    · exact .inl ⟨by rw [verdict, houtcome _ h], h⟩
    · exact .inr ⟨by rw [verdict, houtcome _ h], h⟩

end Engine

/-! ### The main result -/

/-- A structure satisfies base and negated query exactly when it is a
    countermodel. -/
theorem Structure.isCountermodel_iff {M : Structure.{u}} {sentences : List String}
    {query : String} {fresh builder builder' : Builder} {clauses : List NumberedClause}
    {negated : Clause} (hsentences : ∀ s ∈ sentences, QuantifierFree s.toList)
    (hquery : QuantifierFree query.toList)
    (hbuild : Build.sentences sentences fresh = (.ok clauses, builder))
    (hnegate : Build.negate query builder = (.ok negated, builder')) :
    (∀ c ∈ clauses.map (·.toClause) ++ [negated], M.Satisfies c) ↔
      M.IsCountermodel sentences query := by
  rw [IsCountermodel, ← (Build.sentences_ok hsentences hbuild).2 M,
    ← Build.negate_ok hquery hnegate M, List.forall_mem_append, List.forall_mem_map,
    List.forall_mem_singleton]

/-- **The exact worth of an answer.** For accepted sentences and an accepted query
    without quantifiers, a loop without a cap gives an answer. If it is `true`
    there is no countermodel. If it is `false` there is one exactly when the same
    loop finds the ground instances of the clauses saturated, and certainly when
    the clauses are safe Horn clauses or are ground and repeat no literal. -/
theorem answer_exact {loop : Loop} (hcap : loop.cap = none) {sentences : List String}
    {query : String} (hsentences : ∀ s ∈ sentences, QuantifierFree s.toList)
    (hquery : QuantifierFree query.toList) {fresh builder builder' : Builder}
    {clauses : List NumberedClause} {negated : Clause}
    (hbuild : Build.sentences sentences fresh = (.ok clauses, builder))
    (hnegate : Build.negate query builder = (.ok negated, builder')) :
    ∃ d answer, ((Engine.ofSentences clauses loop builder).prove query).result = .ok d ∧
      Engine.verdict loop d = .ok answer ∧
      (answer = true → ¬ ∃ M : Structure.{u}, M.IsCountermodel sentences query) ∧
      (answer = false →
        ((∃ M : Structure.{0}, M.IsCountermodel sentences query) ↔
          (loop.run { working := .initial (numberedFromOne
            (groundInstances (clauses.map (·.toClause) ++ [negated]))) }).result
              = .ok .saturated) ∧
        ((∀ c ∈ clauses.map (·.toClause) ++ [negated], c.IsSafeHorn) ∨
          (∀ c ∈ clauses.map (·.toClause) ++ [negated], c.IsGround ∧ c.literals.Nodup) →
            ∃ M : Structure.{0}, M.IsCountermodel sentences query)) := by
  have hids := (Build.sentences_ok.{0} hsentences hbuild).1
  have hkept := Engine.kept_start hids negated
  obtain ⟨d, hresult, hverdict⟩ := Engine.prove_cases hcap hids hnegate
  rcases hverdict with ⟨htrue, hproved⟩ | ⟨hfalse, hsat⟩
  · -- a countermodel would satisfy all clauses at the start, and none survives `proved`
    refine ⟨d, true, hresult, htrue, fun _ => ?_, by simp⟩
    rintro ⟨M, hM⟩
    have hall := (Structure.isCountermodel_iff hsentences hquery hbuild hnegate).2 hM
    exact loop.not_proved_of_satisfied (d := Engine.opening clauses query negated) rfl
      (Engine.satisfies_start.2 hall) hproved
  · refine ⟨d, false, hresult, hfalse, by simp, fun _ => ⟨?_, ?_⟩⟩
    · -- the instances decide whether the clauses have a structure at all
      rw [Loop.saturated_instances_iff hcap]
      exact exists_congr fun M =>
        (Structure.isCountermodel_iff hsentences hquery hbuild hnegate).symm
    · have found : (∃ M : Structure.{0}, ∀ c ∈ (Engine.start clauses negated).clauses,
          M.Satisfies c.toClause) → ∃ M : Structure.{0}, M.IsCountermodel sentences query := by
        rintro ⟨M, hM⟩
        exact ⟨M, (Structure.isCountermodel_iff hsentences hquery hbuild hnegate).1
          (Engine.satisfies_start.1 hM)⟩
      rintro (hhorn | hplain)
      · exact found (loop.exists_structure_of_saturated_horn rfl hkept
          (Engine.forall_start hhorn) hsat)
      · have hstart : (Engine.start clauses negated).Plain :=
          Engine.forall_start (P := fun c => c.IsGround ∧ c.literals.Nodup) hplain
        obtain ⟨τ, hτ⟩ := loop.exists_assignment_of_saturated
          (d := Engine.opening clauses query negated) rfl hkept hstart hsat
        exact found ⟨τ.toStructure, fun c hc v =>
          (Assignment.trueIn_toStructure (hstart c hc).1 v).2 (hτ c hc)⟩

/-- The builder that knows the names of a rule and a fact. -/
def afterSocrates : Builder :=
  { supply := { counter := 1 }, symbols := ["Man", "x", "Mortal", "Socrates"] }

/-- The clauses of a rule and a fact. -/
def socrates : List NumberedClause :=
  [{ literals := [{ name := "Man", args := [.var "v1"], negated := true },
      { name := "Mortal", args := [.var "v1"] }], id := 1 },
   { literals := [{ name := "Man", args := [.const "Socrates"] }], id := 2 }]

theorem answer_exact_socrates :
    Build.sentences ["Man(x) => Mortal(x)", "Man(Socrates)"] {} = (.ok socrates, afterSocrates) ∧
    ∃ d answer, ((Engine.ofSentences socrates ⟨.incremental, none⟩ afterSocrates).prove
        "Mortal(Zeus)").result = .ok d ∧
      Engine.verdict ⟨.incremental, none⟩ d = .ok answer ∧
      (answer = false → ∃ M : Structure.{0},
        M.IsCountermodel ["Man(x) => Mortal(x)", "Man(Socrates)"] "Mortal(Zeus)") := by
  have hbuild : Build.sentences ["Man(x) => Mortal(x)", "Man(Socrates)"] {}
      = (.ok socrates, afterSocrates) := eq_ok_of_toOption (by decide +kernel)
  have hnegate : Build.negate "Mortal(Zeus)" afterSocrates
      = (.ok ⟨[{ name := "Mortal", args := [.const "Zeus"], negated := true }]⟩,
        { afterSocrates with symbols := afterSocrates.symbols ++ ["Zeus"] }) :=
    eq_ok_of_toOption (by decide +kernel)
  have hcap : (Loop.mk .incremental none).cap = none := rfl
  obtain ⟨d, answer, hresult, hverdict, _, hfalse⟩ :=
    answer_exact.{0} hcap (by decide) (by decide) hbuild hnegate
  exact ⟨hbuild, d, answer, hresult, hverdict, fun h => (hfalse h).2 (.inl (by decide))⟩

/-! ### Wrong answers -/

/-- The engine answers that a query does not follow, and there is no
    countermodel. -/
def WrongAnswer (sentences : List String) (query : String) : Prop :=
  ∃ clauses builder d, Build.sentences sentences {} = (.ok clauses, builder) ∧
    ((Engine.ofSentences clauses ⟨.incremental, none⟩ builder).prove query).result = .ok d ∧
    Engine.verdict ⟨.incremental, none⟩ d = .ok false ∧
    ¬ ∃ M : Structure.{0}, M.IsCountermodel sentences query

/-- To see a wrong answer it is enough to look at the clauses. -/
theorem WrongAnswer.of_clauses {sentences : List String} {query : String}
    {builder builder' : Builder} {clauses : List NumberedClause} {negated : Clause}
    (hsentences : ∀ s ∈ sentences, QuantifierFree s.toList)
    (hbuild : Build.sentences sentences {} = (.ok clauses, builder))
    (hnegate : Build.negate query builder = (.ok negated, builder')) {n : Nat} {p : Pass}
    (hempty : (Engine.start clauses negated).hasEmpty = false)
    (hdec : Decides ⟨.incremental, none⟩ (Engine.opening clauses query negated) n p)
    (hp : p.verdict = some .saturated)
    (hunsat : ∀ M : Structure.{0}, ¬ ∀ c ∈ clauses, M.Satisfies c.toClause) :
    WrongAnswer sentences query := by
  obtain ⟨hids, hmodels⟩ := Build.sentences_ok.{0} hsentences hbuild
  have hsat := Loop.result_of_decides (d := Engine.opening clauses query negated) rfl hempty hdec hp
  have hcap : (Loop.mk .incremental none).cap = none := rfl
  obtain ⟨d, hresult, ⟨_, hproved⟩ | ⟨hfalse, _⟩⟩ := Engine.prove_cases hcap hids hnegate
  · rw [hsat] at hproved
    cases hproved
  · refine ⟨clauses, builder, d, hbuild, hresult, hfalse, ?_⟩
    rintro ⟨M, hM, _⟩
    exact hunsat M ((hmodels M).2 hM)

/-- Two Horn clauses without a structure, the fact not safe. -/
def unsafePair : List NumberedClause :=
  [{ literals := [{ name := "E", args := [.var "v1", .const "A"], negated := true },
      { name := "E", args := [.const "B", .var "v1"], negated := true }], id := 1 },
   { literals := [{ name := "E", args := [.var "v2", .const "A"] }], id := 2 }]

/-- Two ground clauses without a structure, each with a literal repeated. -/
def repeatedPair : List NumberedClause :=
  [{ literals := [{ name := "P" }, { name := "P" }], id := 1 },
   { literals := [{ name := "P", negated := true }, { name := "P", negated := true }], id := 2 }]

/-- **Neither condition can be dropped:** Horn clauses that are not safe and ground
    clauses that repeat a literal are reported as not entailing what they do. -/
theorem wrongAnswer_unsafe_and_repeated :
    WrongAnswer ["~E(x,A) | ~E(B,x)", "E(x,A)"] "Q" ∧ WrongAnswer ["P | P", "~P | ~P"] "Q" := by
  constructor
  · have hbuild : Build.sentences ["~E(x,A) | ~E(B,x)", "E(x,A)"] {} = (.ok unsafePair,
        { supply := { counter := 2 }, symbols := ["E", "x", "A", "B"] }) :=
      eq_ok_of_toOption (by decide +kernel)
    have hnegate : Build.negate "Q" { supply := { counter := 2 }, symbols := ["E", "x", "A", "B"] }
        = (.ok ⟨[{ name := "Q", negated := true }]⟩,
          { supply := { counter := 2 }, symbols := ["E", "x", "A", "B", "Q"] }) :=
      eq_ok_of_toOption (by decide +kernel)
    refine WrongAnswer.of_clauses (by decide) hbuild hnegate (by decide +kernel)
      (.next (by decide +kernel) (.last (o := .saturated) (by decide +kernel)))
      (by decide +kernel) fun M hM => ?_
    -- both literals of the first clause are false when the variable is `A`
    let v : String → M.Domain := fun _ => M.const "A"
    have hfact : ∀ a, M.holds "E" [a, M.const "A"] := fun a => by
      have h := hM _ (List.mem_cons_of_mem _ (List.mem_cons_self ..)) fun _ => a
      simpa [Clause.TrueIn, Literal.TrueIn, Structure.atoms, Structure.eval] using h
    have hrule := hM _ (List.mem_cons_self ..) v
    simp [Clause.TrueIn, Literal.TrueIn, Structure.atoms, Structure.eval, v, hfact] at hrule
  · have hbuild : Build.sentences ["P | P", "~P | ~P"] {} = (.ok repeatedPair,
        { symbols := ["P"] }) := eq_ok_of_toOption (by decide +kernel)
    have hnegate : Build.negate "Q" { symbols := ["P"] }
        = (.ok ⟨[{ name := "Q", negated := true }]⟩, { symbols := ["P", "Q"] }) :=
      eq_ok_of_toOption (by decide +kernel)
    refine WrongAnswer.of_clauses (by decide) hbuild hnegate (by decide +kernel)
      (.next (by decide +kernel) (.last (o := .saturated) (by decide +kernel)))
      (by decide +kernel) fun M hM => ?_
    -- `P` is false by one clause and true by the other
    obtain ⟨a⟩ := M.nonempty
    have hpos := hM _ (List.mem_cons_self ..) fun _ => a
    have hneg := hM _ (List.mem_cons_of_mem _ (List.mem_cons_self ..)) fun _ => a
    simp_all [Clause.TrueIn, Literal.TrueIn, Structure.atoms]

end Refuter
