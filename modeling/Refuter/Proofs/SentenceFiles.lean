import Refuter.File.KnowledgeBase
import Refuter.Proofs.Bookkeeping
import Refuter.Proofs.BoundNames

/-! # Clauses written to a sentence file

The text of a clause is a sentence, and a clause that was made from a sentence can be
written: it has literals, and the spelling of each of its terms shows whether it is a
variable (`Clause.Legal`). So the clauses of a file can be read as a file of sentences.

- **Lines.** A comment gives nothing, and a clause gives its text
  (`KnowledgeBase.ofText_write`).
- **Sentences.** The text of a clause is read as that clause alone, and needs no constants
  (`Build.sentence_text`).
- **Names.** Renaming apart once more, from the same supply, hands out the same names in the
  same order (`Supply.standardize_standardize`).

**Key result.** `sentences_written_read_back`.
-/

namespace Refuter

open Sentence Formula

/-! ### Clauses that can be written -/

/-- A clause whose text is a sentence. -/
structure Clause.Legal (c : Clause) : Prop where
  /-- It is not the contradiction, which has a sign of its own. -/
  nonempty : c.literals ≠ []
  /-- Its literals can be written. -/
  literals : ∀ l ∈ c.literals, l.Legal

namespace Formula

/-- **The literals of a formula** make up a clause that can be written. -/
theorem legal_literals {F : Formula} (h : F.Legal) : Clause.Legal ⟨F.literals⟩ := by
  induction F with
  | literal l =>
    rw [Formula.Legal] at h
    rw [Formula.literals]
    exact ⟨List.cons_ne_nil _ _, List.forall_mem_singleton.2 h⟩
  | joined j parts ih =>
    rw [Formula.Legal] at h
    rw [Formula.literals]
    constructor
    · -- what is joined has a part, and the part has literals
      obtain ⟨F, hF⟩ := List.exists_mem_of_length_pos (Nat.zero_lt_of_lt h.1)
      intro hnil
      exact (ih F hF (h.2 F hF)).nonempty (List.flatMap_eq_nil_iff.1 hnil F hF)
    · intro l hl
      obtain ⟨F, hF, hl⟩ := List.mem_flatMap.1 hl
      exact (ih F hF (h.2 F hF)).literals l hl
  | implies A C ihA ihC =>
    rw [Formula.Legal] at h
    rw [Formula.literals]
    constructor
    · intro hnil
      exact (ihA h.1).nonempty (List.append_eq_nil_iff.1 hnil).1
    · exact List.forall_mem_append.2 ⟨(ihA h.1).literals, (ihC h.2).literals⟩
  | quantified m x G ih =>
    rw [Formula.Legal] at h
    rw [Formula.literals]
    exact ih h.2

theorem ne_nil_of_mem_clauses {F : Formula} (h : F.Legal) : ∀ ls ∈ F.clauses, ls ≠ [] := by
  induction F with
  | literal l =>
    have hne := (legal_literals h).nonempty
    simp only [Formula.clauses]
    exact List.forall_mem_singleton.2 hne
  | joined j parts ih =>
    cases j with
    | and =>
      rw [Formula.Legal] at h
      rw [Formula.clauses]
      intro ls hls
      obtain ⟨F, hF, hls⟩ := List.mem_flatMap.1 hls
      exact ih F hF (h.2 F hF) ls hls
    | or =>
      have hne := (legal_literals h).nonempty
      simp only [Formula.clauses]
      exact List.forall_mem_singleton.2 hne
  | implies A C _ ihC =>
    rw [Formula.Legal] at h
    rw [Formula.clauses]
    intro ls hls
    obtain ⟨p, _, hls⟩ := List.mem_flatMap.1 hls
    obtain ⟨c, hc, rfl⟩ := List.mem_map.1 hls
    -- the part behind the arrow is enough
    exact fun hnil => ihC h.2 c hc (List.append_eq_nil_iff.1 hnil).2
  | quantified m x G ih =>
    rw [Formula.Legal] at h
    rw [Formula.clauses]
    exact ih h.2

/-- **The clauses of a formula** can be written if the formula can. -/
theorem legal_of_mem_clauses {F : Formula} (h : F.Legal) {ls : List Literal}
    (hls : ls ∈ F.clauses) : Clause.Legal ⟨ls⟩ := by
  refine ⟨ne_nil_of_mem_clauses h ls hls, ?_⟩
  intro l hl
  obtain ⟨k, hk, rfl | rfl⟩ := mem_literals_of_mem_clauses hls hl
  · exact (legal_literals h).literals _ hk
  · -- the sign of a literal does not matter
    exact (legal_literals h).literals k hk

end Formula

/-- New terms that can be written leave a clause so. -/
theorem Clause.Legal.mapTerms {f : Term → Term} {c : Clause} (h : c.Legal)
    (hf : ∀ t ∈ c.terms, t.Legal → (f t).Legal) : (c.mapTerms f).Legal := by
  refine ⟨fun hnil => h.nonempty (List.map_eq_nil_iff.1 hnil), ?_⟩
  intro l hl
  obtain ⟨k, hk, rfl⟩ := List.mem_map.1 hl
  refine ⟨(h.literals k hk).1, ?_⟩
  intro t ht
  obtain ⟨u, hu, rfl⟩ := List.mem_map.1 ht
  exact hf u (Clause.mem_terms.2 ⟨k, hk, hu⟩) ((h.literals k hk).2 u hu)

/-- A name made of a stem and a number can be written if the stem can, and has its first
    letter. -/
theorem isName_numberedName {first : Char → Bool} {stem : String} (h : IsName isWord first stem)
    (n : Nat) : IsName isWord first (numberedName stem n) := by
  obtain ⟨c, rest, hcons, hfirst⟩ := h.cons
  rw [IsName, numberedName, String.toList_append, String.toList_ofList]
  refine ⟨?_, by rw [hcons]; exact congrArg some hfirst⟩
  intro d hd
  rcases List.mem_append.1 hd with hd | hd
  · exact h.1 d hd
  · have hdigit : d.isDigit = true :=
      Nat.isDigit_of_mem_toDigits (b := 10) (by decide) (by decide) hd
    simp [isWord, Char.isAlphanum, hdigit]

/-! ### The text of a clause -/

namespace Clause

/-- A clause as a formula. -/
def formula (c : Clause) : Formula :=
  match c.literals with
  | [l] => .literal l
  | ls => .joined .or (ls.map .literal)

theorem formula_cases (c : Clause) :
    (∃ l, c.literals = [l] ∧ c.formula = .literal l) ∨
      c.literals.length ≠ 1 ∧ c.formula = .joined .or (c.literals.map .literal) := by
  unfold formula
  split
  · rename_i l heq
    exact .inl ⟨l, heq, rfl⟩
  · rename_i hne
    refine .inr ⟨?_, rfl⟩
    intro hlength
    obtain ⟨l, hl⟩ := List.length_eq_one_iff.1 hlength
    exact hne l hl

theorem literals_formula (c : Clause) : c.formula.literals = c.literals := by
  rcases c.formula_cases with ⟨l, hl, hc⟩ | ⟨_, hc⟩
  · rw [hc, hl, Formula.literals]
  · rw [hc, Formula.literals, List.flatMap_map]
    simp only [Formula.literals, List.flatMap_singleton']

theorem skolems_formula (m : Marker) (c : Clause) : c.formula.skolems m = [] := by
  rcases c.formula_cases with ⟨l, hl, hc⟩ | ⟨_, hc⟩
  · rw [hc, Formula.skolems]
  · rw [hc, Formula.skolems, List.flatMap_map]
    simp only [Formula.skolems, List.flatMap_eq_nil_iff, implies_true]

theorem disjunction_formula (inScope : Bool) (c : Clause) : c.formula.Disjunction inScope := by
  rcases c.formula_cases with ⟨l, hl, hc⟩ | ⟨_, hc⟩
  · rw [hc]
    exact ⟨inScope, rfl, .inl ⟨l, rfl⟩⟩
  · rw [hc]
    refine ⟨inScope, rfl, .inr ⟨_, rfl, ?_⟩⟩
    intro G hG
    obtain ⟨l, _, rfl⟩ := List.mem_map.1 hG
    exact IsLiteral.disjunct ⟨l, rfl⟩

theorem Legal.formula {c : Clause} (h : c.Legal) : c.formula.Legal := by
  rcases c.formula_cases with ⟨l, hl, hc⟩ | ⟨hne, hc⟩
  · rw [hc, Formula.Legal]
    exact h.literals l (by rw [hl]; exact List.mem_singleton_self l)
  · have hpos := List.length_pos_iff.2 h.nonempty
    rw [hc, Formula.Legal, List.length_map]
    refine ⟨by omega, ?_⟩
    intro F hF
    obtain ⟨l, hl, rfl⟩ := List.mem_map.1 hF
    rw [Formula.Legal]
    exact h.literals l hl

/-- **The text of a clause** is the formula written out. -/
theorem Legal.render_formula {c : Clause} (h : c.Legal) : c.formula.render = c.text.toList := by
  have htext : c.text.toList
      = List.intercalate [' ', '∨', ' '] (c.literals.map fun l => l.text.toList) := by
    rw [Clause.text, if_neg (by simpa using h.nonempty), String.toList_intercalate, List.map_map]
    rfl
  rw [htext]
  rcases c.formula_cases with ⟨l, hl, hc⟩ | ⟨_, hc⟩
  · rw [hc, hl, Formula.render, List.map_singleton, List.intercalate_singleton]
  · rw [hc, Formula.render, List.map_map]
    congr 1
    refine List.map_congr_left fun l _ => ?_
    show wrap (.literal l) (Formula.literal l).render = _
    rw [wrap_literal, Formula.render]

theorem Legal.reads {c : Clause} (h : c.Legal) : Reads c.text c.text.toList c.formula := by
  have hreads := h.formula.reads
  rwa [h.render_formula, String.ofList_toList] at hreads

end Clause

namespace Build

/-- **The text of a clause is read as the clause,** and as nothing else. -/
theorem sentence_text {c : Clause} (h : c.Legal) (b : Builder) :
    sentence c.text b = (.ok [c], b.noteSymbols c.text.toList) := by
  obtain ⟨hnorm, hparse⟩ := h.reads
  have hshape := c.disjunction_formula false
  -- nothing is quantified, so no constants are made and none are put in
  refine sentence_ok_iff.2 ⟨_, _, hnorm, ⟨hparse, .disjunction hshape⟩, ?_, ?_⟩
  · rw [c.skolems_formula, hshape.clauses_eq, c.literals_formula]
    exact (congrArg (fun d => [d]) (apply_empty c)).symm
  · rw [c.skolems_formula]
    rfl

/-- Noting names takes none from the supply, -/
theorem supply_of_forM_normalize {texts : List String} : ∀ {b b' : Builder} {u : Unit},
    texts.forM (fun s => discard (normalize s)) b = (.ok u, b') → b'.supply = b.supply := by
  induction texts with
  | nil =>
    intro b b' u h
    cases h
    rfl
  | cons s rest ih =>
    intro b b' u h
    obtain ⟨_, b₁, hfirst, hrest⟩ := bind_ok_iff.1 h
    obtain ⟨text, hnorm, _⟩ := bind_pure_ok_iff.1 hfirst
    obtain ⟨_, rfl⟩ := normalize_ok_iff.1 hnorm
    have hrest : b'.supply = (b.noteSymbols text).supply := ih hrest
    exact hrest

/-- and neither does converting sentences. -/
theorem supply_of_mapM_sentence {texts : List String} {b b' : Builder}
    {lists : List (List Clause)} (h : texts.mapM sentence b = (.ok lists, b')) :
    b'.supply = b.supply := by
  refine (mapM_eq_ok (I := fun b' => b'.supply = b.supply) (R := fun _ _ => True) ?_ rfl h).1
  intro s _ b₁ cs b₂ hb hs
  obtain ⟨text, F, _, _, _, rfl⟩ := sentence_ok_iff.1 hs
  exact ⟨(Scope.supply_bindAll _ _).trans hb, trivial⟩

theorem exists_forM_normalize {cs : List Clause} (h : ∀ c ∈ cs, c.Legal) : ∀ b : Builder,
    ∃ b', (cs.map Clause.text).forM (fun s => discard (normalize s)) b = (.ok (), b') := by
  induction cs with
  | nil => exact fun b => ⟨b, rfl⟩
  | cons c rest ih =>
    intro b
    obtain ⟨hc, hrest⟩ := List.forall_mem_cons.1 h
    obtain ⟨b', hrun⟩ := ih hrest (b.noteSymbols c.text.toList)
    have hnoted : discard (normalize c.text) b = (.ok (), b.noteSymbols c.text.toList) :=
      bind_pure_ok_iff.2 ⟨_, normalize_ok_iff.2 ⟨hc.reads.1, rfl⟩, rfl⟩
    exact ⟨b', bind_ok_iff.2 ⟨(), _, hnoted, hrun⟩⟩

/-- **Texts of clauses are read one by one,** each as its clause. -/
theorem exists_mapM_sentence {cs : List Clause} (h : ∀ c ∈ cs, c.Legal) : ∀ b : Builder,
    ∃ b', (cs.map Clause.text).mapM sentence b = (.ok (cs.map fun c => [c]), b') := by
  induction cs with
  | nil => exact fun b => ⟨b, rfl⟩
  | cons c rest ih =>
    intro b
    obtain ⟨hc, hrest⟩ := List.forall_mem_cons.1 h
    obtain ⟨b', hrun⟩ := ih hrest (b.noteSymbols c.text.toList)
    refine ⟨b', ?_⟩
    rw [List.map_cons, List.mapM_cons]
    exact bind_ok_iff.2 ⟨_, _, sentence_text hc b, bind_pure_ok_iff.2 ⟨_, hrun, rfl⟩⟩

end Build

/-! ### Renaming apart once more -/

namespace Supply

/-- Which names are handed out depends only on how many are asked for. -/
theorem freshFor_congr : ∀ {names names' : List String}, names.length = names'.length →
    ∀ supply : Supply, (freshFor names supply).1.map (·.2) = (freshFor names' supply).1.map (·.2) ∧
      (freshFor names supply).2 = (freshFor names' supply).2 := by
  intro names
  induction names with
  | nil =>
    intro names' hlength supply
    obtain rfl := List.length_eq_zero_iff.1 hlength.symm
    exact ⟨rfl, rfl⟩
  | cons name rest ih =>
    intro names' hlength supply
    cases names' with
    | nil => cases hlength
    | cons name' rest' =>
      -- the name in front is the same, whatever it is asked for
      obtain ⟨hmap, hsupply⟩ := ih (Nat.succ.inj hlength) supply.fresh.2
      exact ⟨congrArg (Term.var supply.fresh.1 :: ·) hmap, hsupply⟩

theorem map_fst_freshFor (names : List String) : ∀ supply : Supply,
    (freshFor names supply).1.map (·.1) = names := by
  induction names with
  | nil => exact fun _ => rfl
  | cons name rest ih => exact fun supply => congrArg (name :: ·) (ih supply.fresh.2)

/-- **Renaming apart once more** changes nothing: a supply in the same state hands out the
    names that the variables have by now. -/
theorem standardize_standardize (supply : Supply) (c : Clause) :
    supply.standardize (supply.standardize c).1 = supply.standardize c := by
  generalize hd : (supply.standardize c).1 = d
  have hnames : (freshFor (Finite.distinct c.vars) supply).1.map (·.2)
      = (Finite.distinct d.vars).map .var := by
    rw [← hd]
    exact supply.map_freshFor_vars c
  have hlength : (Finite.distinct c.vars).length = (Finite.distinct d.vars).length := by
    have hcount := congrArg List.length (map_fst_freshFor (Finite.distinct c.vars) supply)
    have hnames := congrArg List.length hnames
    rw [List.length_map] at hcount
    rw [List.length_map, List.length_map] at hnames
    rw [← hcount, hnames]
  obtain ⟨hsame, hsupply⟩ := freshFor_congr hlength supply
  -- every variable of `d` is renamed to itself
  have hself : ∀ p ∈ (freshFor (Finite.distinct d.vars) supply).1, p.2 = .var p.1 := by
    rw [← List.map_inj_left, ← hsame, hnames]
    conv_lhs => rw [← map_fst_freshFor (Finite.distinct d.vars) supply, List.map_map]
    rfl
  have hid : d.mapTerms (renameTerm (freshFor (Finite.distinct d.vars) supply).1) = d := by
    refine (Clause.mapTerms_eq_iff.2 fun t _ => ?_).trans d.mapTerms_id
    cases t with
    | const k => rfl
    | var x =>
      show ((Members.get? _ x).getD (.var x)) = Term.var x
      cases hget : Members.get? (freshFor (Finite.distinct d.vars) supply).1 x with
      | none => rfl
      | some u => exact hself _ (Substitution.mem_of_get? hget)
  refine Prod.ext ?_ hsupply.symm
  rw [hd]
  exact hid

end Supply

namespace Build

theorem standardize_ok_iff {c d : Clause} {b b' : Builder} :
    standardize c b = (.ok d, b') ↔
      d = (b.supply.standardize c).1 ∧ b' = { b with supply := (b.supply.standardize c).2 } := by
  have hrun : standardize c b = (.ok (b.supply.standardize c).1,
      { b with supply := (b.supply.standardize c).2 }) := rfl
  rw [hrun, Prod.mk.injEq, Except.ok.injEq]
  exact and_congr eq_comm eq_comm

/-- **Renaming clauses apart once more,** with a supply in the state in which they were
    first renamed. -/
theorem exists_mapM_standardize (cs : List Clause) : ∀ {b b' b₁ : Builder} {ds : List Clause},
    cs.mapM standardize b = (.ok ds, b') → b₁.supply = b.supply →
      ∃ b₂, ds.mapM standardize b₁ = (.ok ds, b₂) := by
  -- the two runs go through the same supplies
  induction cs with
  | nil =>
    intro b b' b₁ ds h _
    rw [List.mapM_nil] at h
    obtain ⟨rfl, rfl⟩ := pure_eq_ok h
    exact ⟨b₁, rfl⟩
  | cons c rest ih =>
    intro b b' b₁ ds h hsupply
    rw [List.mapM_cons] at h
    obtain ⟨d, b₀, hd, h⟩ := bind_ok_iff.1 h
    obtain ⟨ds', hrest, rfl⟩ := bind_pure_ok_iff.1 h
    obtain ⟨rfl, rfl⟩ := standardize_ok_iff.1 hd
    have hagain : b₁.supply.standardize (b.supply.standardize c).1 = b.supply.standardize c := by
      rw [hsupply, Supply.standardize_standardize]
    let next : Builder := { b₁ with supply := (b.supply.standardize c).2 }
    obtain ⟨b₂, hrun⟩ := @ih _ _ next _ hrest rfl
    have hfirst : standardize (b.supply.standardize c).1 b₁
        = (.ok (b.supply.standardize c).1, next) :=
      standardize_ok_iff.2 (by rw [hagain]; exact ⟨rfl, rfl⟩)
    refine ⟨b₂, ?_⟩
    rw [List.mapM_cons]
    exact bind_ok_iff.2 ⟨_, next, hfirst, bind_pure_ok_iff.2 ⟨_, hrun, rfl⟩⟩

/-- **Clauses that are renamed apart** are read back from their texts, with their numbers. -/
theorem exists_sentences {cs renamed : List Clause} {b b₀ b' : Builder}
    (h : ∀ c ∈ renamed, c.Legal) (hsupply : b₀.supply = b.supply)
    (hrun : cs.mapM standardize b₀ = (.ok renamed, b')) :
    ∃ b'', sentences (renamed.map Clause.text) b = (.ok (numberedFromOne renamed), b'') := by
  obtain ⟨b₁, hnoted⟩ := exists_forM_normalize h b
  obtain ⟨b₂, hread⟩ := exists_mapM_sentence h b₁
  -- renaming starts where it started the first time
  have hsame : b₂.supply = b₀.supply := by
    rw [supply_of_mapM_sentence hread, supply_of_forM_normalize hnoted, hsupply]
  obtain ⟨b₃, hagain⟩ := exists_mapM_standardize cs hrun hsame
  have hflatten : (renamed.map fun c => [c]).flatten = renamed := by
    rw [← List.flatMap_def, List.flatMap_singleton']
  rw [← hflatten] at hagain
  refine ⟨b₃, ?_⟩
  rw [sentences]
  refine bind_ok_iff.2 ⟨(), b₁, hnoted, bind_ok_iff.2 ⟨_, b₂, hread, ?_⟩⟩
  refine bind_pure_ok_iff.2 ⟨_, hagain, ?_⟩
  rw [hflatten]
  rfl

end Build

/-! ### Clauses that were built -/

namespace Build

/-- **The clauses of a sentence can be written.** -/
theorem sentence_legal {s : String} {b b' : Builder} {cs : List Clause}
    (h : sentence s b = (.ok cs, b')) : ∀ c ∈ cs, c.Legal := by
  obtain ⟨text, F, _, ⟨hparse, _⟩, rfl, rfl⟩ := sentence_ok_iff.1 h
  intro c hc
  obtain ⟨ls, hls, rfl⟩ := List.mem_map.1 hc
  obtain ⟨constant, _, hnew, hresolve⟩ :=
    Scope.exists_skolems (b.noteSymbols text) (F.skolems .existential)
  have hlegal := legal_of_mem_clauses (legal_of_parse hparse) hls
  show (Clause.mapTerms (Substitution.resolve _) ⟨ls⟩).Legal
  rw [hresolve]
  refine hlegal.mapTerms fun t _ ht => ?_
  cases t with
  | const k => exact ht
  | var x =>
    rw [Term.skolemize]
    split
    · rename_i hx
      obtain ⟨_, ⟨n, hn⟩, _⟩ := hnew x hx
      show IsName isWord (fun c => c.isLower == false) (constant x)
      rw [hn]
      exact isName_numberedName (by decide) n
    · exact ht

/-- **Renamed clauses can be written,** if the names that are handed out are variables. -/
theorem standardize_legal {b b' : Builder} {c d : Clause} (hstem : b.supply.stem = "v")
    (h : c.Legal) (hrun : standardize c b = (.ok d, b')) : b'.supply.stem = "v" ∧ d.Legal := by
  obtain ⟨rfl, rfl⟩ := standardize_ok_iff.1 hrun
  refine ⟨(b.grows_standardize c).stem.trans hstem, ?_⟩
  obtain ⟨fresh, heq, _, hfresh⟩ := b.supply.standardize_spec c
  rw [heq]
  refine h.mapTerms fun t ht htLegal => ?_
  cases t with
  | const k => exact htLegal
  | var x =>
    obtain ⟨_, n, hn, _⟩ := hfresh x (Clause.mem_vars_iff.2 ht)
    show IsName isWord (fun c => c.isLower == true) (fresh x)
    rw [hn, hstem]
    exact isName_numberedName (by decide) n

/-- **Accepted sentences** give clauses that can be written, renamed apart with the supply as
    it was at first. -/
theorem exists_legal_of_sentences {texts : List String} {clauses : List NumberedClause}
    {b b' : Builder} (hstem : b.supply.stem = "v") (h : sentences texts b = (.ok clauses, b')) :
    ∃ (cs renamed : List Clause) (b₀ : Builder), clauses = numberedFromOne renamed ∧
      (∀ c ∈ renamed, c.Legal) ∧ b₀.supply = b.supply ∧
      cs.mapM standardize b₀ = (.ok renamed, b') := by
  obtain ⟨_, b₁, hnoted, h⟩ := bind_ok_iff.1 h
  obtain ⟨lists, b₂, hlists, h⟩ := bind_ok_iff.1 h
  obtain ⟨renamed, hrenamed, rfl⟩ := bind_pure_ok_iff.1 h
  have hsupply : b₂.supply = b.supply := by
    rw [supply_of_mapM_sentence hlists, supply_of_forM_normalize hnoted]
  have hlegal : ∀ c ∈ lists.flatten, c.Legal := by
    obtain ⟨_, hall⟩ := mapM_eq_ok (I := fun _ => True) (R := fun _ cs => ∀ c ∈ cs, c.Legal)
      (fun _ _ _ _ _ _ hs => ⟨trivial, sentence_legal hs⟩) trivial hlists
    intro c hc
    obtain ⟨cs, hcs, hc⟩ := List.mem_flatten.1 hc
    obtain ⟨_, _, hcs⟩ := forall₂_mem_right hall hcs
    exact hcs c hc
  obtain ⟨_, hall⟩ := mapM_eq_ok (I := fun b => b.supply.stem = "v") (R := fun _ d => d.Legal)
    (fun c hc _ _ _ hb hd => standardize_legal hb (hlegal c hc) hd) (hsupply ▸ hstem) hrenamed
  refine ⟨lists.flatten, renamed, b₂, rfl, ?_, hsupply, hrenamed⟩
  intro c hc
  obtain ⟨_, _, hc⟩ := forall₂_mem_right hall hc
  exact hc

end Build

/-! ### Lines of a file -/

namespace Text

theorem isLineBreak_of_isBlank {c : Char} (h : isBlank c = false) : isLineBreak c = false := by
  simp only [isBlank, isLineBreak, Bool.or_eq_false_iff, Bool.and_eq_false_iff,
    decide_eq_false_iff_not, beq_eq_false_iff_ne] at h ⊢
  omega

theorem linesFrom_append {text : List Char} (h : ∀ c ∈ text, isLineBreak c = false)
    (rest : List Char) : ∀ line : List Char,
    linesFrom line (text ++ '\n' :: rest) = (line.reverse ++ text) :: linesFrom [] rest := by
  induction text with
  | nil =>
    intro line
    rw [List.nil_append, List.append_nil, linesFrom, if_pos (by decide)]
    simp
  | cons c text ih =>
    intro line
    obtain ⟨hc, htext⟩ := List.forall_mem_cons.1 h
    have hreturn : c ≠ '\r' := by
      rintro rfl
      exact absurd hc (by decide)
    rw [List.cons_append, linesFrom, if_neg (by rw [hc]; decide), ih htext]
    · simp
    · exact fun _ heq _ => hreturn heq

/-- **Lines that were ended one by one** are found again. -/
theorem lines_flatMap {ls : List (List Char)} (h : ∀ l ∈ ls, ∀ c ∈ l, isLineBreak c = false) :
    lines (ls.flatMap (· ++ ['\n'])) = ls := by
  induction ls with
  | nil => rfl
  | cons l ls ih =>
    obtain ⟨hl, hls⟩ := List.forall_mem_cons.1 h
    rw [List.flatMap_cons, List.append_assoc, List.singleton_append, lines, linesFrom_append hl]
    exact congrArg (l :: ·) (ih hls)

/-- Entries that are joined, with one more separator behind, are ended one by one. -/
theorem intercalate_append_sep {sep : List Char} {ls : List (List Char)} (h : ls ≠ []) :
    List.intercalate sep ls ++ sep = ls.flatMap (· ++ sep) := by
  induction ls with
  | nil => exact absurd rfl h
  | cons l ls ih =>
    cases ls with
    | nil => simp
    | cons l' ls =>
      rw [List.intercalate_cons_cons, List.flatMap_cons, ← ih (List.cons_ne_nil _ _)]
      simp only [List.append_assoc]

end Text

namespace KnowledgeBase

/-- The comment in front of a clause. -/
def comment (n : Int) : List Char :=
  '#' :: ' ' :: Scalar.intText n

theorem isLineBreak_comment (n : Int) : ∀ c ∈ comment n, Text.isLineBreak c = false := by
  have hdigits : ∀ m : Nat, ∀ c ∈ natText m, Text.isLineBreak c = false := by
    intro m c hc
    have hdigit : c.isDigit = true :=
      Nat.isDigit_of_mem_toDigits (b := 10) (by decide) (by decide) hc
    refine Text.isLineBreak_of_isBlank (isBlank_of_isWord ?_)
    simp [isWord, Char.isAlphanum, hdigit]
  refine List.forall_mem_cons.2 ⟨by decide, List.forall_mem_cons.2 ⟨by decide, ?_⟩⟩
  cases n with
  | ofNat m => exact hdigits m
  | negSucc m => exact List.forall_mem_cons.2 ⟨by decide, hdigits (m + 1)⟩

/-- A clause takes two lines. -/
theorem toList_clauseLines (c : LabelledClause) (position : Nat) :
    (clauseLines c position).toList
      = comment (c.id.getD position) ++ '\n' :: c.toClause.text.toList := by
  simp [clauseLines, comment, intText]

theorem toList_write (clauses : List LabelledClause) :
    (write clauses).toList = (clauses.zipIdx.flatMap fun p =>
      [comment (p.1.id.getD (p.2 + 1 : Nat)), p.1.toClause.text.toList]).flatMap (· ++ ['\n']) := by
  unfold write
  split
  · rename_i hempty
    rw [List.isEmpty_iff.1 hempty]
    rfl
  · rename_i hne
    have hne : (clauses.zipIdx.map fun p => (clauseLines p.1 (p.2 + 1)).toList) ≠ [] := by
      simpa using hne
    rw [String.toList_append, String.toList_intercalate, List.map_map]
    refine (Text.intercalate_append_sep hne).trans ?_
    rw [List.flatMap_map, List.flatMap_assoc]
    refine List.flatMap_congr fun p _ => ?_
    rw [toList_clauseLines]
    simp

section Legal

variable {c : Clause} (h : c.Legal)
include h

theorem plain_clauseText : Plain c.text.toList := by
  rw [← h.render_formula]
  exact plain_render h.formula

theorem isLineBreak_clauseText : ∀ d ∈ c.text.toList, Text.isLineBreak d = false := by
  intro d hd
  rcases plain_clauseText h d hd with hword | hother
  · exact Text.isLineBreak_of_isBlank (isBlank_of_isWord hword)
  · simp only [List.mem_cons, List.not_mem_nil, or_false] at hother
    rcases hother with rfl | rfl | rfl | rfl | rfl | rfl | rfl | rfl | rfl | rfl <;> decide

/-- The text of a clause has no comment in it, and no blanks at its ends. -/
theorem content_clauseText : content c.text.toList = c.text.toList := by
  have htrimmed : Trimmed c.text.toList := by
    rw [← h.render_formula]
    exact trimmed_render h.formula
  have hsign : ∀ d ∈ c.text.toList, (decide (d ≠ '#')) = true := by
    intro d hd
    rw [decide_eq_true_iff]
    rintro rfl
    exact (plain_clauseText h).not_mem (by decide) hd
  rw [content, List.takeWhile_eq_self_iff.2 hsign, htrimmed.trim_eq]

theorem exists_clauseText : ∃ d rest, c.text.toList = d :: rest ∧ d ≠ '?' := by
  obtain ⟨d, rest, hcons⟩ := List.exists_cons_of_ne_nil (trimmed_render h.formula).ne_nil
  rw [h.render_formula] at hcons
  refine ⟨d, rest, hcons, ?_⟩
  rintro rfl
  have hmem : '?' ∈ c.text.toList := by
    rw [hcons]
    exact List.mem_cons_self
  exact (plain_clauseText h).not_mem (by decide) hmem

/-- **The line of a clause** holds its text as a sentence, -/
theorem sentence?_clauseText : sentence? c.text.toList = some c.text := by
  obtain ⟨d, rest, hcons, hd⟩ := exists_clauseText h
  unfold sentence?
  rw [content_clauseText h]
  split
  · rename_i hnil
    rw [hcons] at hnil
    cases hnil
  · rename_i hquery
    rw [hcons] at hquery
    exact absurd (List.cons.inj hquery).1 hd
  · rw [String.ofList_toList]

/-- and no query. -/
theorem query?_clauseText : query? c.text.toList = none := by
  cases hquery : query? c.text.toList with
  | none => rfl
  | some query =>
    have hnone := sentence?_eq_none_of_query? hquery
    rw [sentence?_clauseText h] at hnone
    cases hnone

end Legal

/-- **What is written of clauses** is a knowledge base of their texts, without queries. -/
theorem ofText_write {clauses : List LabelledClause} (h : ∀ c ∈ clauses, c.toClause.Legal) :
    ofText (write clauses) = { sentences := clauses.map (·.toClause.text), queries := [] } := by
  have hlegal : ∀ p ∈ clauses.zipIdx, p.1.toClause.Legal :=
    fun p hp => h p.1 (List.fst_mem_of_mem_zipIdx hp)
  have hlines : Text.lines (write clauses).toList = clauses.zipIdx.flatMap fun p =>
      [comment (p.1.id.getD (p.2 + 1 : Nat)), p.1.toClause.text.toList] := by
    rw [toList_write]
    apply Text.lines_flatMap
    intro l hl
    obtain ⟨p, hp, hl⟩ := List.mem_flatMap.1 hl
    rcases List.mem_cons.1 hl with rfl | hl
    · exact isLineBreak_comment _
    · rw [List.mem_singleton.1 hl]
      exact isLineBreak_clauseText (hlegal p hp)
  have hcomment : ∀ n, sentence? (comment n) = none ∧ query? (comment n) = none :=
    fun n => ⟨rfl, rfl⟩
  rw [ofText, hlines, ofLines, List.filterMap_flatMap, List.filterMap_flatMap]
  congr 1
  · -- one sentence for each clause, at its place
    have hfirst : clauses.map (·.toClause.text)
        = clauses.zipIdx.flatMap fun p => [p.1.toClause.text] := by
      rw [← List.map_eq_flatMap]
      conv_lhs => rw [← List.zipIdx_map_fst 0 clauses, List.map_map]
      rfl
    rw [hfirst]
    refine List.flatMap_congr fun p hp => ?_
    rw [List.filterMap_cons, (hcomment _).1]
    simp [sentence?_clauseText (hlegal p hp)]
  · rw [List.flatMap_eq_nil_iff]
    intro p hp
    simp [hcomment, query?_clauseText (hlegal p hp)]

end KnowledgeBase

/-! ### The main result -/

/-- **Written clauses are read back.** The clauses of any accepted sentences, written to a
    file, make a knowledge base without queries whose sentences are their texts; and these
    are accepted as the same clauses, with the same numbers. -/
theorem sentences_written_read_back {texts : List String} {clauses : List NumberedClause}
    {builder : Builder} (h : Build.sentences texts {} = (.ok clauses, builder)) :
    let read := KnowledgeBase.ofText (KnowledgeBase.write (clauses.map (·.labelled)))
    read.queries = [] ∧ read.sentences = clauses.map (·.toClause.text) ∧
      ∃ builder', Build.sentences read.sentences {} = (.ok clauses, builder') := by
  obtain ⟨cs, renamed, b₀, rfl, hlegal, hsupply, hrun⟩ := Build.exists_legal_of_sentences rfl h
  have hwritten : ∀ c ∈ (numberedFromOne renamed).map (·.labelled), c.toClause.Legal := by
    rw [List.forall_mem_map]
    exact forall_numberedFromOne.2 hlegal
  have hread := KnowledgeBase.ofText_write hwritten
  have htexts : (numberedFromOne renamed).map (·.toClause.text) = renamed.map Clause.text := by
    conv_rhs => rw [← toClause_numberedFromOne renamed, List.map_map]
    rfl
  intro read
  have hsentences : read.sentences = (numberedFromOne renamed).map (·.toClause.text) := by
    show KnowledgeBase.sentences (KnowledgeBase.ofText _) = _
    rw [hread, List.map_map]
    rfl
  refine ⟨?_, hsentences, ?_⟩
  · show KnowledgeBase.queries (KnowledgeBase.ofText _) = _
    rw [hread]
  · rw [hsentences, htexts]
    exact Build.exists_sentences hlegal hsupply hrun

/-- A constant is made although the first one is written already, an arrow gives two clauses,
    and a literal without arguments is repeated. -/
def mixedSentences : List String :=
  ["∃x (P(x) ∧ Q(x, Sk1))", "P(x) | Q(x, y) => ~R(y)", "¬N | N() | N"]

theorem sentences_written_read_back_mixed :
    ∃ clauses builder, Build.sentences mixedSentences {} = (.ok clauses, builder) ∧
      clauses.map (·.toClause.text) = ["P(Sk2)", "Q(Sk2, Sk1)", "¬P(v1) ∨ ¬R(v2)",
        "¬Q(v3, v4) ∨ ¬R(v4)", "¬N ∨ N ∨ N"] ∧
      let read := KnowledgeBase.ofText (KnowledgeBase.write (clauses.map (·.labelled)))
      read.queries = [] ∧ read.sentences = clauses.map (·.toClause.text) ∧
        ∃ builder', Build.sentences read.sentences {} = (.ok clauses, builder') := by
  have hrun : (Build.sentences mixedSentences {}).1.toOption.map
      (fun clauses => clauses.map (·.toClause.text)) = some ["P(Sk2)", "Q(Sk2, Sk1)",
        "¬P(v1) ∨ ¬R(v2)", "¬Q(v3, v4) ∨ ¬R(v4)", "¬N ∨ N ∨ N"] := by
    decide +kernel
  obtain ⟨clauses, hclauses, htexts⟩ := Option.map_eq_some_iff.1 hrun
  have hbuilt : Build.sentences mixedSentences {} = (.ok clauses, _) :=
    Prod.ext (ok_of_toOption hclauses) rfl
  exact ⟨clauses, _, hbuilt, htexts, sentences_written_read_back hbuilt⟩

end Refuter
