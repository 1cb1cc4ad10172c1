import Refuter.Proofs.Bookkeeping
import Refuter.Proofs.BoundNames
import Refuter.Proofs.Notation
import Refuter.Proofs.Skolemization

/-! # Queries about witnesses

An `∃` is replaced by a constant that is written in none of the sentences. What can be
proved of this constant is true of some individual, but of none in particular.

- Sentences that are true in a structure have clauses that are true in an expansion of it:
  only the constants that were introduced get other individuals
  (`Build.sentences_expandsTo`).
- A query that is proved has an answer in every such expansion. If it names none of the
  constants that were introduced, it has an answer in the structure itself.

**Why the condition is needed.** The constants of the sentences are chosen when the engine
is made. A query may come later and name one of them.
-/

namespace Refuter

universe u

open Sentence Formula

/-! ### Sentences with witnesses -/

namespace Formula

/-- Nothing in a formula without quantifiers is Skolemized. -/
theorem Unquantified.grounded {F : Formula} (h : F.Unquantified) (m : Marker)
    (outer : List String) : F.Grounded m outer := by
  induction F generalizing m with
  | literal => rw [Grounded]; trivial
  | joined j parts ih =>
    rw [Unquantified] at h
    rw [Grounded]
    exact fun F hF => ih F hF (h F hF) m
  | implies A C ihA ihC =>
    rw [Unquantified] at h
    rw [Grounded]
    exact ⟨ihA h.1 m.dual, ihC h.2 m⟩
  | quantified => rw [Unquantified] at h; exact h.elim

/-- A formula without quantifiers, or one whose variables are all bound by an `∃` in front,
    each by one of its own. -/
def Witnessed (F : Formula) : Prop :=
  F.Unquantified ∨ ∃ (names : List String) (G : Formula),
    F = close (names.map (Marker.existential, ·)) G ∧ names.Nodup ∧ G.Unquantified ∧
      ∀ x ∈ G.free, x ∈ names

section Close

variable {G : Formula} {names : List String}

theorem close_cons (name : String) (rest : List String) (G : Formula) :
    close ((name :: rest).map (Marker.existential, ·)) G
      = .quantified .existential name (close (rest.map (Marker.existential, ·)) G) :=
  rfl

theorem mem_free_close {x : String} :
    x ∈ (close (names.map (Marker.existential, ·)) G).free ↔ x ∈ G.free ∧ x ∉ names := by
  induction names with
  | nil => simp [close]
  | cons name rest ih =>
    rw [close_cons, free, List.mem_filter, ih, List.mem_cons, not_or]
    simp only [decide_eq_true_eq]
    exact ⟨fun h => ⟨h.1.1, h.2, h.1.2⟩, fun h => ⟨⟨h.1, h.2.2⟩, h.2.1⟩⟩

theorem skolems_close (hG : G.Unquantified) :
    (close (names.map (Marker.existential, ·)) G).skolems .existential = names := by
  induction names with
  | nil => exact hG.skolems_eq _
  | cons name rest ih => rw [close_cons, skolems, if_pos rfl, ih]

theorem grounded_close (hG : G.Unquantified) : ∀ {outer : List String},
    (∀ x ∈ G.free, x ∈ names ∨ x ∈ outer) →
      (close (names.map (Marker.existential, ·)) G).Grounded .existential outer := by
  induction names with
  | nil => exact fun {outer} _ => hG.grounded _ outer
  | cons name rest ih =>
    intro outer h
    rw [close_cons, Grounded, if_pos rfl]
    constructor
    · intro y hy
      rw [← close_cons] at hy
      obtain ⟨hfree, hnot⟩ := mem_free_close.1 hy
      exact (h y hfree).resolve_left hnot
    · -- the name in front is one of those around the rest
      refine ih fun x hx => ?_
      rcases h x hx with hmem | hmem
      · rcases List.mem_cons.1 hmem with rfl | hmem
        · exact .inr (List.mem_cons_self ..)
        · exact .inl hmem
      · exact .inr (List.mem_cons_of_mem _ hmem)

end Close

/-- **Witnesses of their own** are enough. -/
theorem Witnessed.separate {F : Formula} (h : F.Witnessed) : F.Separate := by
  obtain hplain | ⟨names, G, rfl, hnodup, hG, hfree⟩ := h
  · refine ⟨?_, hplain.grounded _ _⟩
    rw [hplain.skolems_eq]
    exact List.nodup_nil
  · refine ⟨?_, grounded_close hG fun x hx => .inl (hfree x hx)⟩
    rw [skolems_close hG]
    exact hnodup

end Formula

/-! ### Sentences and their constants -/

/-- The sentence spells a formula without quantifiers, or one whose variables are all bound
    by an `∃` in front. -/
def Sentence.Witnessed (s : String) : Prop :=
  ∃ text F, Reads s text F ∧ F.Witnessed

/-- The universal closure of the formula that a sentence spells is true. -/
def Structure.Validates (M : Structure.{u}) (s : String) : Prop :=
  ∃ text F, Reads s text F ∧ ∀ v, F.Holds M v

/-- A constant that a builder knows although no sentence names it. -/
def Builder.Invents (builder : Builder) (sentences : List String) (k : String) : Prop :=
  k ∈ builder.symbols ∧ ∀ s ∈ sentences, ∀ text, Sentence.normalize s = .ok text → k ∉ words text

/-- A constant that is an argument in a conjunction of literals. -/
def Sentence.Mentions (text : List Char) (k : String) : Prop :=
  ∃ part ∈ splitTop '∧' (unwrap text), ∃ l, readLiteral false part = .ok l ∧ Term.const k ∈ l.args

/-! ### Other individuals for constants -/

section Expansion

variable {M : Structure.{u}} {κ : String → M.Domain}

/-- Only the constants that occur matter for a literal. -/
theorem Literal.trueIn_expansion {l : Literal}
    (h : ∀ k, Term.const k ∈ l.args → κ k = M.const k) (v : String → M.Domain) :
    l.TrueIn (Structure.atoms { M with const := κ } v) ↔ l.TrueIn (M.atoms v) := by
  have hargs : l.args.map (Structure.eval { M with const := κ } v) = l.args.map (M.eval v) := by
    refine List.map_congr_left fun t ht => ?_
    cases t with
    | var x => rfl
    | const k => exact h k ht
  show (M.holds l.name (l.args.map (Structure.eval { M with const := κ } v)) ↔ _) ↔
    (M.holds l.name (l.args.map (M.eval v)) ↔ _)
  rw [hargs]

theorem Structure.satisfies_expansion {c : Clause}
    (h : ∀ k, Term.const k ∈ c.terms → κ k = M.const k) :
    Structure.Satisfies { M with const := κ } c ↔ M.Satisfies c :=
  forall_congr' fun v => exists_congr fun _ => and_congr_right fun hl =>
    Literal.trueIn_expansion (fun k hk => h k (Clause.mem_terms.2 ⟨_, hl, hk⟩)) v

theorem Structure.answers_expansion {query : String}
    (h : ∀ text, Sentence.normalize query = .ok text → ∀ k, Mentions text k → κ k = M.const k) :
    Structure.Answers { M with const := κ } query ↔ M.Answers query := by
  refine exists_congr fun text => and_congr_right fun htext => exists_congr fun v =>
    forall₂_congr fun part hpart => exists_congr fun l => and_congr_right fun hl => ?_
  exact Literal.trueIn_expansion (fun k hk => h text htext k ⟨part, hpart, l, hl, hk⟩) v

end Expansion

/-- A variant is satisfied with the clause. -/
theorem Clause.Variant.satisfies_iff {M : Structure.{u}} {c d : Clause} (h : c.Variant id d) :
    M.Satisfies d ↔ M.Satisfies c := by
  obtain ⟨g, hinj, rfl⟩ := h
  exact Structure.satisfies_rename (f := (Renaming.mk g id).term) (fun _ => rfl)
    (fun _ _ => rfl) hinj

/-- Individuals for constants, where different names have different constants. -/
theorem exists_individuals {α : Type u} {names : List String} {constant : String → String}
    (hinj : Set.InjOn constant {x | x ∈ names}) (e κ : String → α) : ∃ κ' : String → α,
      (∀ x ∈ names, κ' (constant x) = e x) ∧
      ∀ k, (∀ x ∈ names, constant x ≠ k) → κ' k = κ k := by
  let assigned : {x // x ∈ names} → String := fun x => constant x
  have hassigned : Function.Injective assigned := fun x y hxy => Subtype.ext (hinj x.2 y.2 hxy)
  refine ⟨Function.extend assigned (fun x => e x) κ, fun x hx => ?_, fun k hk => ?_⟩
  · exact hassigned.extend_apply _ _ ⟨x, hx⟩
  · exact Function.extend_apply' _ _ _ fun ⟨x, hx⟩ => hk x x.2 hx

namespace Build

variable {M : Structure.{u}}

/-- **One sentence that is true.** The constants made for it can be given individuals so that
    its clauses are satisfied. All other constants keep theirs. -/
theorem exists_expansion {s : String} {text : List Char} {F : Formula} (hs : Reads s text F)
    (hsep : F.Separate) (htrue : ∀ v, F.Holds M v) {b b' : Builder} {clauses : List Clause}
    (h : sentence s b = (.ok clauses, b')) {κ : String → M.Domain}
    (hknown : ∀ k ∈ words text, k ∈ b.symbols ∧ κ k = M.const k) :
    ∃ κ' : String → M.Domain, (∀ k, k ∈ b.symbols ∨ k ∉ b'.symbols → κ' k = κ k) ∧
      ∀ c ∈ clauses, Structure.Satisfies { M with const := κ' } c := by
  obtain ⟨text', F', hnorm, ⟨hparse, hfact⟩, rfl, rfl⟩ := sentence_ok_iff.1 h
  obtain rfl : text = text' := Except.ok.inj (hs.1.symm.trans hnorm)
  obtain rfl : F = F' := Option.some.inj (hs.2.symm.trans hparse)
  obtain ⟨constant, hinj, hnew, hresolve⟩ :=
    Scope.exists_skolems (b.noteSymbols text) (F.skolems .existential)
  obtain ⟨e, he⟩ := hsep.exists_values htrue
  obtain ⟨κ', hvalue, hother⟩ := exists_individuals hinj e κ
  -- a constant that is known already is none of those made
  have hkeep : ∀ k ∈ b.symbols, κ' k = κ k := by
    intro k hk
    refine hother k fun x hx hxk => (hnew x hx).1 ?_
    rw [hxk]
    exact Builder.mem_noteSymbols.2 (.inl hk)
  refine ⟨κ', fun k hk => ?_, (Structure.satisfies_skolemized_iff hresolve hfact ?_).2 ?_⟩
  · rcases hk with hk | hk
    · exact hkeep k hk
    · exact hother k fun x hx hxk => hk (hxk ▸ (hnew x hx).2.2)
  · intro l hl k hk
    have hword : k ∈ words text := mem_words_of_written (parse_written hparse l hl _ hk)
    obtain ⟨hmem, hk⟩ := hknown k hword
    rw [hkeep k hmem, hk]
  · intro v hv
    refine he v fun x hx => ?_
    rw [hv x hx, hvalue x hx]

/-- **Sentences in a row.** The constants made for one are known when the next is converted,
    so they keep their individuals. -/
theorem exists_expansions {texts : List String} : ∀ {b b' : Builder} {lists : List (List Clause)}
    {κ : String → M.Domain},
    (∀ s ∈ texts, ∃ text F, Reads s text F ∧ F.Separate ∧ (∀ v, F.Holds M v) ∧
      ∀ k ∈ words text, k ∈ b.symbols ∧ κ k = M.const k) →
    texts.mapM sentence b = (.ok lists, b') →
    ∃ κ' : String → M.Domain, (∀ k, k ∈ b.symbols ∨ k ∉ b'.symbols → κ' k = κ k) ∧
      ∀ clauses ∈ lists, ∀ c ∈ clauses, Structure.Satisfies { M with const := κ' } c := by
  induction texts with
  | nil =>
    intro b b' lists κ _ h
    rw [List.mapM_nil] at h
    obtain ⟨rfl, rfl⟩ := pure_eq_ok h
    exact ⟨κ, fun _ _ => rfl, List.forall_mem_nil _⟩
  | cons s rest ih =>
    intro b b' lists κ hall h
    rw [List.mapM_cons] at h
    obtain ⟨clauses, b₁, hs, h⟩ := bind_ok_iff.1 h
    obtain ⟨lists', hrest, rfl⟩ := bind_pure_ok_iff.1 h
    obtain ⟨hgrows, hconsts⟩ := sentence_known hs
    obtain ⟨text, F, hreads, hsep, htrue, hknown⟩ := hall s (List.mem_cons_self ..)
    obtain ⟨κ₁, hκ₁, hsat₁⟩ := exists_expansion hreads hsep htrue hs hknown
    have hrest' : ∀ s ∈ rest, ∃ text F, Reads s text F ∧ F.Separate ∧ (∀ v, F.Holds M v) ∧
        ∀ k ∈ words text, k ∈ b₁.symbols ∧ κ₁ k = M.const k := by
      intro s hs
      obtain ⟨text, F, hreads, hsep, htrue, hknown⟩ := hall s (List.mem_cons_of_mem _ hs)
      refine ⟨text, F, hreads, hsep, htrue, fun k hk => ?_⟩
      obtain ⟨hmem, hk⟩ := hknown k hk
      exact ⟨hgrows.symbols hmem, (hκ₁ k (.inl hmem)).trans hk⟩
    obtain ⟨κ', hκ', hsat⟩ := ih hrest' hrest
    have hgrows' : b₁.Grows b' :=
      (mapM_grows (P := fun _ _ => True) (fun _ _ => trivial)
        (fun h => ⟨(sentence_known h).1, trivial⟩) rest hrest).1
    refine ⟨κ', fun k hk => ?_, List.forall_mem_cons.2 ⟨fun c hc => ?_, hsat⟩⟩
    · rcases hk with hk | hk
      · rw [hκ' k (.inl (hgrows.symbols hk)), hκ₁ k (.inl hk)]
      · rw [hκ' k (.inr hk), hκ₁ k (.inr fun hmem => hk (hgrows'.symbols hmem))]
    · have hsame := Structure.satisfies_expansion (M := { M with const := κ₁ }) (κ := κ')
        fun k hk => hκ' k (.inl (hconsts c hc k hk))
      exact hsame.2 (hsat₁ c hc)

/-- **All sentences are true** in a structure: their clauses are in an expansion. -/
theorem sentences_expandsTo {texts : List String} {clauses : List NumberedClause}
    {b b' : Builder} (h : sentences texts b = (.ok clauses, b'))
    (htrue : ∀ s ∈ texts, ∃ text F, Reads s text F ∧ F.Separate ∧ ∀ v, F.Holds M v) :
    M.ExpandsTo (b'.Invents texts) (clauses.map (·.toClause)) := by
  obtain ⟨b₁, lists, b₂, renamed, hforM, hlists, hsymbols, rfl, hvariants⟩ := exists_of_sentences h
  obtain ⟨hnotes, hall⟩ := run_forM texts b
  rw [hforM] at hnotes hall
  -- all sentences are noted before the first is converted
  have hwords : ∀ s ∈ texts, ∀ text, Sentence.normalize s = .ok text → words text ⊆ b₁.symbols := by
    intro s hs text hnorm k hk
    obtain ⟨text', htext', hnorm'⟩ := hall rfl s hs
    obtain rfl : text = text' := Except.ok.inj (hnorm.symm.trans hnorm')
    by_contra hnot
    exact (hnotes.not_symbol hnot).2 text htext' hk
  have hknown : ∀ s ∈ texts, ∃ text F, Reads s text F ∧ F.Separate ∧ (∀ v, F.Holds M v) ∧
      ∀ k ∈ words text, k ∈ b₁.symbols ∧ M.const k = M.const k := by
    intro s hs
    obtain ⟨text, F, hreads, hsep, hF⟩ := htrue s hs
    exact ⟨text, F, hreads, hsep, hF, fun k hk => ⟨hwords s hs text hreads.1 hk, rfl⟩⟩
  obtain ⟨κ, hκ, hsat⟩ := exists_expansions hknown hlists
  refine ⟨κ, fun k hk => hκ k ?_, ?_⟩
  · by_cases hmem : k ∈ b₂.symbols
    · -- the constant is named by some sentence, so it was noted
      refine .inl (by_contra fun hnot => hk ⟨hsymbols ▸ hmem, fun s hs text htext hword => ?_⟩)
      exact hnot (hwords s hs text htext hword)
    · exact .inr hmem
  · rw [toClause_numberedFromOne]
    refine (forall₂_forall_iff hvariants fun hvariant => hvariant.satisfies_iff.symm).1 ?_
    intro c hc
    obtain ⟨cs, hcs, hmem⟩ := List.mem_flatten.1 hc
    exact hsat cs hcs c hmem

end Build

/-! ### Answers -/

/-- **A query that is proved** has an answer wherever the base is satisfied. -/
theorem Engine.answers_of_proved {engine : Engine} (hids : (engine.base.map (·.id)).Nodup)
    {query : String} (hquery : QuantifierFree query.toList) {d : Derivation}
    (hresult : (engine.prove query).result = .ok d) (hproved : d.outcome = some .proved)
    {M : Structure.{u}} (hM : ∀ c ∈ engine.base, M.Satisfies c.toClause) : M.Answers query := by
  rcases hneg : Build.negate query engine.builder with ⟨e | negated, builder⟩
  · -- a query that is refused is not proved
    rw [prove, hneg] at hresult
    cases hresult
  · rw [result_prove engine hids hneg] at hresult
    obtain ⟨o, ho, houtcome⟩ := engine.loop.exists_outcome
      (d := opening engine.base query negated) rfl
    rw [ho] at hresult
    obtain rfl : _ = d := Except.ok.inj hresult
    obtain rfl : o = .proved := Option.some.inj (houtcome.symm.trans hproved)
    by_contra hno
    have hstart : ∀ c ∈ (opening engine.base query negated).working.clauses,
        M.Satisfies c.toClause := by
      refine satisfies_start.2 (List.forall_mem_append.2 ⟨List.forall_mem_map.2 hM, ?_⟩)
      exact List.forall_mem_singleton.2 ((Build.negate_ok hquery hneg M).2 hno)
    exact engine.loop.not_proved_of_satisfied rfl hstart ho

/-- **What is proved of witnesses.** Let sentences be true in a structure. A query that is
    proved, after whatever other queries, has an answer once the constants that were invented
    for the sentences are given suitable individuals. If it mentions none of them, it has an
    answer in the structure itself. -/
theorem answers_of_witnesses {texts : List String} (hwitnessed : ∀ s ∈ texts, Witnessed s)
    {clauses : List NumberedClause} {builder : Builder}
    (hbuild : Build.sentences texts {} = (.ok clauses, builder)) (loop : Loop)
    (history : List Engine.Call) {query : String} (hquery : QuantifierFree query.toList)
    {d : Derivation}
    (hresult : (((Engine.ofSentences clauses loop builder).after history).prove query).result
      = .ok d) (hproved : d.outcome = some .proved)
    (M : Structure.{u}) (hM : ∀ s ∈ texts, M.Validates s) :
    (∃ κ : String → M.Domain, (∀ k, ¬ builder.Invents texts k → κ k = M.const k) ∧
      Structure.Answers { M with const := κ } query) ∧
    ((∀ text, Sentence.normalize query = .ok text →
        ∀ k, Mentions text k → ¬ builder.Invents texts k) → M.Answers query) := by
  have htrue : ∀ s ∈ texts, ∃ text F, Reads s text F ∧ F.Separate ∧ ∀ v, F.Holds M v := by
    intro s hs
    obtain ⟨text, F, ⟨hnorm, hparse⟩, hF⟩ := hwitnessed s hs
    obtain ⟨text', F', ⟨hnorm', hparse'⟩, hholds⟩ := hM s hs
    obtain rfl : text = text' := Except.ok.inj (hnorm.symm.trans hnorm')
    obtain rfl : F = F' := Option.some.inj (hparse.symm.trans hparse')
    exact ⟨text, F, ⟨hnorm, hparse⟩, hF.separate, hholds⟩
  obtain ⟨κ, hκ, hsat⟩ := Build.sentences_expandsTo hbuild htrue
  -- the base is the same after any history
  have hbase : ((Engine.ofSentences clauses loop builder).after history).base = clauses :=
    (Engine.keeps_after history _).base.trans (Engine.base_ofSentences clauses loop builder)
  have hids := (Build.sentences_known hbuild).1
  rw [List.forall_mem_map] at hsat
  have hanswers : Structure.Answers { M with const := κ } query :=
    Engine.answers_of_proved (by rwa [hbase]) hquery hresult hproved (by rwa [hbase])
  refine ⟨⟨κ, hκ, hanswers⟩, fun hmentions => ?_⟩
  exact (Structure.answers_expansion fun text htext k hk => hκ k (hmentions text htext k hk)).1
    hanswers

/-- `∃x P(x)`. -/
def someP : Formula :=
  close (["x"].map (Marker.existential, ·)) (.literal { name := "P", args := [.var "x"] })

/-- `¬P(A)`. -/
def notPA : Formula :=
  .literal { name := "P", args := [.const "A"], negated := true }

theorem reads_someP : Reads "∃x P(x)" "∃x P(x)".toList someP := by
  have hlegal : someP.Legal := by
    simp [someP, close, Formula.Legal, Literal.Legal, Term.Legal, IsBoundName]
    decide
  have htext : someP.render = "∃x P(x)".toList := by
    simp [someP, close, render, Marker.symbol]
    decide
  have := hlegal.reads
  rwa [htext] at this

theorem reads_notPA : Reads "¬P(A)" "¬P(A)".toList notPA := by
  have hlegal : notPA.Legal := by
    simp [notPA, Formula.Legal, Literal.Legal, Term.Legal]
    decide
  have htext : notPA.render = "¬P(A)".toList := by
    simp [notPA, render]
    decide
  have := hlegal.reads
  rwa [htext] at this

theorem witnessed_someP_notPA : ∀ s ∈ ["∃x P(x)", "¬P(A)"], Witnessed s := by
  refine List.forall_mem_cons.2 ⟨⟨_, _, reads_someP, .inr ⟨["x"], _, rfl, ?_, ?_, ?_⟩⟩,
    List.forall_mem_singleton.2 ⟨_, _, reads_notPA, .inl ?_⟩⟩
  · exact List.nodup_singleton _
  · rw [Unquantified]
    trivial
  · simp [free, Literal.vars, Term.vars]
  · rw [notPA, Unquantified]
    trivial

/-- The individuals are two, `P` is true of one of them, and all constants are the other. -/
def unnamedWitness : Structure.{0} :=
  { twoIndividuals with const := fun _ => false }

theorem holds_someP {M : Structure.{u}} {v : String → M.Domain} :
    someP.Holds M v ↔ ∃ a, M.holds "P" [a] := by
  simp [someP, close, Formula.Holds, Literal.TrueIn, Structure.atoms, Structure.eval]

theorem holds_notPA {M : Structure.{u}} {v : String → M.Domain} :
    notPA.Holds M v ↔ ¬ M.holds "P" [M.const "A"] := by
  simp [notPA, Formula.Holds, Literal.TrueIn, Structure.atoms, Structure.eval]

theorem validates_unnamedWitness : ∀ s ∈ ["∃x P(x)", "¬P(A)"], unnamedWitness.Validates s := by
  refine List.forall_mem_cons.2 ⟨⟨_, _, reads_someP, fun v => holds_someP.2 ⟨true, rfl⟩⟩,
    List.forall_mem_singleton.2 ⟨_, _, reads_notPA, fun v => holds_notPA.2 ?_⟩⟩
  exact Bool.false_ne_true

/-- The clauses of both sentences. -/
def someonesClauses : List NumberedClause :=
  [{ literals := [{ name := "P", args := [.const "Sk1"] }], id := 1 },
   { literals := [{ name := "P", args := [.const "A"], negated := true }], id := 2 }]

/-- The builder that has converted both sentences. -/
def afterSomeone : Builder :=
  { skolems := 1, symbols := ["x", "P", "A", "Sk1"] }

theorem build_someone :
    Build.sentences ["∃x P(x)", "¬P(A)"] {} = (.ok someonesClauses, afterSomeone) :=
  eq_ok_of_toOption (by decide +kernel)

/-- The engine of both sentences, with no cap. -/
def someone : Engine :=
  .ofSentences someonesClauses ⟨.incremental, none⟩ afterSomeone

/-- The only constant that the query mentions is named by a sentence. -/
theorem not_invents_someone : ∀ text, Sentence.normalize "P(z) ∧ ¬P(A)" = .ok text →
    ∀ k, Mentions text k → ¬ afterSomeone.Invents ["∃x P(x)", "¬P(A)"] k := by
  intro text htext k hmentions hinvents
  have hnorm : Sentence.normalize "P(z) ∧ ¬P(A)" = .ok "P(z) ∧ ¬P(A)".toList :=
    ok_of_toOption (by decide +kernel)
  obtain rfl := Except.ok.inj (hnorm.symm.trans htext)
  have hparts : splitTop '∧' (unwrap "P(z) ∧ ¬P(A)".toList) = ["P(z)".toList, "¬P(A)".toList] := by
    decide +kernel
  have hfirst : readLiteral false "P(z)".toList = .ok { name := "P", args := [.var "z"] } :=
    ok_of_toOption (by decide +kernel)
  have hsecond : readLiteral false "¬P(A)".toList
      = .ok { name := "P", args := [.const "A"], negated := true } :=
    ok_of_toOption (by decide +kernel)
  obtain ⟨part, hpart, l, hl, hk⟩ := hmentions
  rw [hparts] at hpart
  rcases List.mem_pair.1 hpart with rfl | rfl
  · obtain rfl := Except.ok.inj (hfirst.symm.trans hl)
    simp at hk
  · obtain rfl := Except.ok.inj (hsecond.symm.trans hl)
    obtain rfl : k = "A" := by simpa using hk
    exact hinvents.2 "¬P(A)" (by simp) _ reads_notPA.1 (by decide)

theorem answers_of_witnesses_someone :
    (∀ s ∈ ["∃x P(x)", "¬P(A)"], unnamedWitness.Validates s) ∧
    Build.sentences ["∃x P(x)", "¬P(A)"] {} = (.ok someonesClauses, afterSomeone) ∧
    (∃ d, ((someone.after [.resolve (.str "P(Sk1)")]).prove "P(z) ∧ ¬P(A)").result = .ok d ∧
      d.outcome = some .proved) ∧
    unnamedWitness.Answers "P(z) ∧ ¬P(A)" := by
  have hrun : ((someone.after [.resolve (.str "P(Sk1)")]).prove
      "P(z) ∧ ¬P(A)").result.toOption.bind (·.outcome) = some .proved := by decide +kernel
  obtain ⟨d, hd, hproved⟩ := Option.bind_eq_some_iff.1 hrun
  have hresult := ok_of_toOption hd
  obtain ⟨_, hanswers⟩ := answers_of_witnesses witnessed_someP_notPA build_someone
    ⟨.incremental, none⟩ [.resolve (.str "P(Sk1)")] (by decide) hresult hproved unnamedWitness
    validates_unnamedWitness
  exact ⟨validates_unnamedWitness, build_someone, ⟨d, hresult, hproved⟩,
    hanswers not_invents_someone⟩

/-- **The condition cannot be dropped:** the builder has called its witness `Sk1`, and a query
    that comes later names it. It is proved, and it has no answer in a structure where the
    sentences are true. -/
theorem proved_without_answer :
    Build.sentences ["∃x P(x)", "¬P(A)"] {} = (.ok someonesClauses, afterSomeone) ∧
    (∀ s ∈ ["∃x P(x)", "¬P(A)"], Witnessed s ∧ unnamedWitness.Validates s) ∧
    QuantifierFree "P(Sk1)".toList ∧
    (∃ d, (someone.prove "P(Sk1)").result = .ok d ∧ d.outcome = some .proved) ∧
    ¬ unnamedWitness.Answers "P(Sk1)" := by
  have hrun : (someone.prove "P(Sk1)").result.toOption.bind (·.outcome) = some .proved := by
    decide +kernel
  obtain ⟨d, hd, hproved⟩ := Option.bind_eq_some_iff.1 hrun
  refine ⟨build_someone, fun s hs => ⟨witnessed_someP_notPA s hs, validates_unnamedWitness s hs⟩,
    by decide, ⟨d, ok_of_toOption hd, hproved⟩, ?_⟩
  rintro ⟨text, htext, v, hholds⟩
  have hnorm : Sentence.normalize "P(Sk1)" = .ok "P(Sk1)".toList :=
    ok_of_toOption (by decide +kernel)
  obtain rfl := Except.ok.inj (hnorm.symm.trans htext)
  have hparts : splitTop '∧' (unwrap "P(Sk1)".toList) = ["P(Sk1)".toList] := by decide +kernel
  have hread : readLiteral false "P(Sk1)".toList = .ok { name := "P", args := [.const "Sk1"] } :=
    ok_of_toOption (by decide +kernel)
  obtain ⟨l, hl, htrue⟩ := hholds _ (hparts ▸ List.mem_singleton_self _)
  obtain rfl := Except.ok.inj (hread.symm.trans hl)
  -- the constant is the individual of which `P` is false
  simp [Literal.TrueIn, Structure.atoms, Structure.eval, unnamedWitness, twoIndividuals] at htrue

end Refuter
