import Refuter.Proofs.Parsing

/-! # Conversion, formula by formula

Each routine of the conversion succeeds exactly on the texts of formulas of its shape, and
then its result is read off the formula: the literals, and the names for which constants
are made, in the order of their quantifiers. There is one lemma for each routine, from the
literal up to the sentence, and none of them looks into the routines it calls.

**Key result.** A sentence is accepted exactly when it spells a fact, and its clauses are
those of the fact with Skolem constants for the names that have been bound
(`Build.sentence_ok_iff`).
-/

namespace Refuter

open Sentence Formula

/-! ### Computations with all their successes -/

section Succeeding

variable {ε σ α β : Type} {s t : σ}

theorem bind_ok_iff {x : ExceptT ε (StateM σ) α} {f : α → ExceptT ε (StateM σ) β} {b : β} :
    (x >>= f) s = (.ok b, t) ↔ ∃ a s', x s = (.ok a, s') ∧ f a s' = (.ok b, t) := by
  refine ⟨bind_eq_ok, fun ⟨a, s', hx, hf⟩ => ?_⟩
  show (match x s with | (r, t) => ExceptT.bindCont f r t) = _
  rw [hx]
  exact hf

theorem pure_ok_iff {a b : α} :
    (pure a : ExceptT ε (StateM σ) α) s = (.ok b, t) ↔ a = b ∧ s = t :=
  ⟨pure_eq_ok, fun ⟨ha, hs⟩ => by rw [ha, hs]; rfl⟩

theorem bind_pure_ok_iff {x : ExceptT ε (StateM σ) α} {f : α → β} {b : β} :
    (x >>= fun a => pure (f a)) s = (.ok b, t) ↔ ∃ a, x s = (.ok a, t) ∧ f a = b := by
  rw [bind_ok_iff]
  constructor
  · rintro ⟨a, s', hx, hpure⟩
    obtain ⟨rfl, rfl⟩ := pure_eq_ok hpure
    exact ⟨a, hx, rfl⟩
  · rintro ⟨a, hx, rfl⟩
    exact ⟨a, t, hx, rfl⟩

/-- A sequence that fails does so in one of its halves. -/
theorem bind_eq_error {x : ExceptT ε (StateM σ) α} {f : α → ExceptT ε (StateM σ) β} {e : ε}
    (h : (x >>= f) s = (.error e, t)) :
    x s = (.error e, t) ∨ ∃ a s', x s = (.ok a, s') ∧ f a s' = (.error e, t) := by
  change (match x s with | (r, t) => ExceptT.bindCont f r t) = _ at h
  rcases hx : x s with ⟨e' | a, s'⟩
  · rw [hx] at h
    cases h
    exact .inl rfl
  · rw [hx] at h
    exact .inr ⟨a, s', rfl, h⟩

theorem throw_ok_iff {e : ε} {a : α} :
    (throw e : ExceptT ε (StateM σ) α) s = (.ok a, t) ↔ False :=
  ⟨throw_ne_ok, False.elim⟩

theorem guard_ok_iff {c : Prop} [Decidable c] {e : ε} {k : Unit → ExceptT ε (StateM σ) β} {b : β} :
    (if c then throw e >>= k else k ()) s = (.ok b, t) ↔ ¬ c ∧ k () s = (.ok b, t) :=
  ⟨guard_eq_ok, fun ⟨hc, hk⟩ => by rw [if_neg hc]; exact hk⟩

end Succeeding

/-! ### Skolem constants bound in a row -/

/-- A scope in which a variable is replaced by a new Skolem constant. -/
def Scope.bind (scope : Scope) (name : String) : Scope :=
  { builder := scope.builder.skolem.2, skolems := scope.skolems.set name scope.builder.skolem.1 }

/-- A scope in which variables are replaced one after the other. -/
def Scope.bindAll (scope : Scope) (names : List String) : Scope :=
  names.foldl Scope.bind scope

theorem Scope.bindAll_append (scope : Scope) (ns ms : List String) :
    scope.bindAll (ns ++ ms) = (scope.bindAll ns).bindAll ms :=
  List.foldl_append

namespace Conversion

variable {s t : Scope}

theorem forM_bindSkolem (names : List String) : ∀ s : Scope,
    names.forM bindSkolem s = (.ok (), s.bindAll names) := by
  induction names with
  | nil => exact fun _ => rfl
  | cons name rest ih => exact fun s => ih (s.bind name)

theorem scopeBehind_block (m k : Marker) {names : List String} (h : names ≠ []) (inScope : Bool) :
    scopeBehind m inScope (names.map (k, ·))
      = if k = m then if inScope then none else some inScope else some true := by
  induction names generalizing inScope with
  | nil => exact absurd rfl h
  | cons name rest ih =>
    rw [List.map_cons, scopeBehind]
    cases rest with
    | nil => cases inScope <;> simp [scopeBehind]
    | cons other rest =>
      rw [ih (by simp), ih (by simp)]
      by_cases hk : k = m <;> cases inScope <;> simp [hk]

theorem namesBy_block (m k : Marker) (names : List String) :
    namesBy m (names.map (k, ·)) = if k = m then names else [] := by
  by_cases hk : k = m <;> simp [namesBy, List.filterMap_map, hk]

/-- **Entering quantifiers** binds the names of one marker, and is refused for those
    inside the scope of the other. -/
theorem enter_iff {m : Marker} {blocks : List Block} (hnames' : ∀ b ∈ blocks, b.names ≠ []) :
    ∀ {inScope b : Bool} {s t : Scope}, enter m inScope blocks s = (.ok b, t) ↔
      scopeBehind m inScope (quantifiersOf blocks) = some b ∧
        t = s.bindAll (namesBy m (quantifiersOf blocks)) := by
  induction blocks with
  | nil =>
    intro inScope b s t
    rw [enter, pure_ok_iff]
    simp [quantifiersOf, scopeBehind, namesBy, Scope.bindAll, eq_comm]
  | cons block rest ih =>
    intro inScope b s t
    have hrest := @ih fun b hb => hnames' b (List.mem_cons_of_mem _ hb)
    have hqs : quantifiersOf (block :: rest)
        = block.names.map (block.marker, ·) ++ quantifiersOf rest := rfl
    have hnames : namesBy m (quantifiersOf (block :: rest))
        = namesBy m (block.names.map (block.marker, ·)) ++ namesBy m (quantifiersOf rest) := by
      rw [hqs]
      exact List.filterMap_append
    rw [enter, hnames, hqs, scopeBehind_append, Scope.bindAll_append, namesBy_block,
      scopeBehind_block m block.marker (hnames' block (List.mem_cons_self ..))]
    by_cases hm : block.marker = m
    · cases inScope with
      | true => simp [hm, throw_ok_iff]
      | false =>
        simp only [hm, if_true, Bool.false_eq_true, if_false, bind_ok_iff, forM_bindSkolem]
        constructor
        · rintro ⟨_, _, heq, henter⟩
          cases heq
          exact hrest.1 henter
        · exact fun h => ⟨(), _, rfl, hrest.2 h⟩
    · simp [hm, hrest, Scope.bindAll]

/-- **A conversion for each part:** if each gives what the formulas of its part say,
    all together give what the lists of such formulas say. -/
theorem mapM_iff {α β : Type} {f : α → Conversion β} {P : α → Formula → Prop}
    {g : Formula → β} {h : Formula → List String} {l : List α}
    (step : ∀ a ∈ l, ∀ {s b t}, f a s = (.ok b, t) ↔
      ∃ F, P a F ∧ b = g F ∧ t = s.bindAll (h F)) :
    ∀ {s bs t}, l.mapM f s = (.ok bs, t) ↔
      ∃ Fs, List.Forall₂ P l Fs ∧ bs = Fs.map g ∧ t = s.bindAll (Fs.flatMap h) := by
  induction l with
  | nil =>
    intro s bs t
    rw [List.mapM_nil, pure_ok_iff]
    constructor
    · rintro ⟨rfl, rfl⟩
      exact ⟨[], .nil, rfl, rfl⟩
    · rintro ⟨Fs, hFs, rfl, rfl⟩
      cases hFs
      exact ⟨rfl, rfl⟩
  | cons a rest ih =>
    intro s bs t
    have hrest := @ih fun a ha => step a (List.mem_cons_of_mem _ ha)
    simp only [List.mapM_cons, bind_ok_iff, step a (List.mem_cons_self ..), hrest, pure_ok_iff]
    constructor
    · rintro ⟨_, _, ⟨F, hF, rfl, rfl⟩, _, _, ⟨Fs, hFs, rfl, rfl⟩, rfl, rfl⟩
      refine ⟨F :: Fs, .cons hF hFs, rfl, ?_⟩
      rw [List.flatMap_cons, Scope.bindAll_append]
    · rintro ⟨_, hFs, rfl, rfl⟩
      cases hFs with
      | cons hF hFs =>
        refine ⟨_, _, ⟨_, hF, rfl, rfl⟩, _, _, ⟨_, hFs, rfl, rfl⟩, rfl, ?_⟩
        rw [List.flatMap_cons, Scope.bindAll_append]

/-! ### Literals -/

theorem literal_ok_iff {negated : Bool} {text : List Char} {l : Literal} :
    literal negated text s = (.ok l, t) ↔ readLiteral negated text = .ok l ∧ s = t := by
  rw [literal]
  cases readLiteral negated text with
  | ok k => rw [pure_ok_iff]; simp
  | error fault => rw [throw_ok_iff]; simp

/-- A negated literal. -/
theorem negatedLiteral_iff {text : List Char} {l : Literal} :
    literal true text s = (.ok l, t) ↔ ∃ F, (parse .or text = some F ∧ F.IsLiteral) ∧
      l = F.firstLiteral.negate ∧ t = s.bindAll [] := by
  have hnot := readLiteral_not false text
  rw [literal_ok_iff]
  constructor
  · rintro ⟨hread, rfl⟩
    rw [Bool.not_false, hread] at hnot
    cases hplain : readLiteral false text with
    | error e => rw [hplain] at hnot; cases hnot
    | ok k =>
      rw [hplain] at hnot
      cases hnot
      refine ⟨_, ⟨parse_eq_literal_iff.2 hplain, k, rfl⟩, ?_, rfl⟩
      rw [firstLiteral_of_body rfl]
  · rintro ⟨_, ⟨hparse, k, rfl⟩, rfl, rfl⟩
    rw [parse_eq_literal_iff] at hparse
    rw [hparse] at hnot
    rw [firstLiteral_of_body rfl]
    exact ⟨hnot, rfl⟩

/-! ### Disjunctions -/

theorem disjunct_iff {inScope : Bool} {text : List Char} {l : Literal} :
    disjunct inScope text s = (.ok l, t) ↔ ∃ F, (parse .and text = some F ∧ F.Disjunct inScope) ∧
      l = F.firstLiteral ∧ t = s.bindAll (F.skolems .existential) := by
  rw [disjunct]
  simp only [bind_ok_iff, guard_ok_iff, enter_iff (names_ne_nil_of_mem_leading _), literal_ok_iff]
  constructor
  · rintro ⟨b, _, ⟨henter, rfl⟩, _, hread, rfl⟩
    have hspells : Spells .and (leading text).2 (.literal l) := .literal hread
    obtain ⟨F, hparse, hlead, hbody⟩ := exists_parse hspells
    have hshape : F.Disjunct inScope := ⟨b, by rw [hlead]; exact henter, l, hbody⟩
    refine ⟨F, ⟨hparse, hshape⟩, ?_, ?_⟩
    · rw [firstLiteral_of_body hbody]
    · rw [Disjunct.skolems_eq hshape, hlead]
  · rintro ⟨F, ⟨hparse, hshape⟩, rfl, rfl⟩
    obtain ⟨hlead, hspells⟩ := parse_iff.1 hparse
    obtain ⟨b, henter, l, hl⟩ := hshape
    have hskolems := Disjunct.skolems_eq ⟨b, henter, l, hl⟩
    have hfirst := firstLiteral_of_body hl
    rw [hl] at hspells
    cases hspells with
    | literal read =>
      rw [hlead] at henter
      refine ⟨b, _, ⟨henter, rfl⟩, ?_, ?_, ?_⟩
      · rw [splitTop_of_operatorFree (by decide) (readLiteral_operatorFree read)]
        simp
      · rw [hfirst]
        exact read
      · rw [hskolems, hlead]

theorem flatMap_literals {inScope : Bool} {parts : List Formula}
    (h : ∀ F ∈ parts, F.Disjunct inScope) : parts.flatMap literals = parts.map firstLiteral := by
  rw [← List.flatMap_singleton' (parts.map firstLiteral), List.flatMap_map]
  exact List.flatMap_congr fun F hF => Disjunct.literals_eq (h F hF)

theorem disjuncts_iff {b : Bool} {texts : List (List Char)} {ls : List Literal} :
    texts.mapM (disjunct b) s = (.ok ls, t) ↔
      ∃ Fs, List.Forall₂ (fun part F => parse .and part = some F ∧ F.Disjunct b) texts Fs ∧
        ls = Fs.map firstLiteral ∧ t = s.bindAll (Fs.flatMap (skolems .existential)) :=
  mapM_iff (P := fun part F => parse .and part = some F ∧ F.Disjunct b) fun _ _ => disjunct_iff

/-- The parts of a disjunction, all of them disjuncts. -/
theorem disjunctParts_iff {b : Bool} {text : List Char} {Fs : List Formula} :
    List.Forall₂ (fun part F => parse .and part = some F ∧ F.Disjunct b)
        (splitTop '∨' (leading text).2) Fs ↔
      ∃ G, parse .and (leading text).2 = some G ∧
        (G.Disjunct b ∧ Fs = [G] ∨ G = .joined .or Fs ∧ ∀ F ∈ Fs, F.Disjunct b) := by
  refine parts_iff (j := .or) (leading_leading text) (trim_leading text) (fun _ hFs => ?_) ?_
  · -- disjuncts have no connectives, so the text has none but the one that joins them
    have hfree : ∀ c, isConnective c = true → c ≠ '∨' → c ∉ (leading text).2 := by
      intro c hconn hne
      refine not_mem_of_parts hne (isOperator_of_isConnective hconn) fun part hpart hc => ?_
      obtain ⟨F, _, hparse, hshape⟩ := forall₂_mem_left hFs hpart
      rw [connectiveFree_of_disjunct hshape hparse c hc] at hconn
      cases hconn
    refine ⟨?_, .inr ?_⟩
    · rw [splitTop_of_not_mem (hfree _ (by decide) (by decide))]
      simp
    · rw [Splits, Junctor.symbol, splitTop_of_not_mem (hfree _ (by decide) (by decide))]
      simp
  · intro G hparse hshape
    have hfree := connectiveFree_of_disjunct hshape hparse
    rw [Splits, Junctor.symbol, splitTop_of_not_mem fun hmem => absurd (hfree _ hmem) (by decide)]
    simp

/-- **Disjunctions** give the literals of their disjuncts. -/
theorem disjunction_iff {inScope : Bool} {text : List Char} {ls : List Literal} :
    disjunction inScope text s = (.ok ls, t) ↔
      ∃ F, (parse .and text = some F ∧ F.Disjunction inScope) ∧
        ls = F.literals ∧ t = s.bindAll (F.skolems .existential) := by
  rw [disjunction]
  simp only [bind_ok_iff, enter_iff (names_ne_nil_of_mem_leading _), disjuncts_iff,
    disjunctParts_iff]
  constructor
  · rintro ⟨b, _, ⟨henter, rfl⟩, Fs, ⟨G, hG, hshape⟩, rfl, rfl⟩
    obtain ⟨F, hparse, hlead, rfl⟩ := exists_parse_body hG
    rw [← hlead] at henter
    refine ⟨F, ⟨hparse, b, henter, ?_⟩, ?_⟩
    · rcases hshape with ⟨⟨_, _, hone⟩, _⟩ | hjoined
      · exact .inl (body_body F ▸ hone)
      · exact .inr ⟨Fs, hjoined⟩
    · rw [skolems_eq, Scope.bindAll_append, hlead, ← literals_body]
      rcases hshape with ⟨hone, rfl⟩ | ⟨hbody, hparts⟩
      · rw [Disjunct.literals_eq hone, List.flatMap_singleton]
        exact ⟨rfl, rfl⟩
      · rw [hbody, literals, skolems, flatMap_literals hparts]
        exact ⟨rfl, rfl⟩
  · rintro ⟨F, ⟨hparse, b, henter, hshape⟩, rfl, rfl⟩
    obtain ⟨hlead, hbody⟩ := parse_body_iff.1 hparse
    rw [skolems_eq, Scope.bindAll_append, ← literals_body]
    rw [hlead] at henter ⊢
    refine ⟨b, _, ⟨henter, rfl⟩, ?_⟩
    rcases hshape with hone | ⟨parts, hjoined, hparts⟩
    · have hdisjunct : F.body.Disjunct b := ⟨b, by rw [lead_body]; rfl, by rwa [body_body]⟩
      refine ⟨[F.body], ⟨_, hbody, .inl ⟨hdisjunct, rfl⟩⟩, ?_, ?_⟩
      · exact Disjunct.literals_eq hdisjunct
      · rw [List.flatMap_singleton]
    · refine ⟨parts, ⟨_, hbody, .inr ⟨hjoined, hparts⟩⟩, ?_, ?_⟩
      · rw [hjoined, literals, flatMap_literals hparts]
      · rw [hjoined, skolems]

/-! ### Premises -/

theorem flatMap_literals_of_isLiteral {parts : List Formula} (h : ∀ F ∈ parts, F.IsLiteral) :
    parts.flatMap literals = parts.map firstLiteral :=
  flatMap_literals fun F hF => (IsLiteral.disjunct (h F hF) : F.Disjunct false)

theorem negatedLiterals_iff {texts : List (List Char)} {ls : List Literal} :
    texts.mapM (literal true) s = (.ok ls, t) ↔
      ∃ Fs, List.Forall₂ (fun part F => parse .or part = some F ∧ F.IsLiteral) texts Fs ∧
        ls = Fs.map (fun F => F.firstLiteral.negate) ∧ t = s.bindAll (Fs.flatMap fun _ => []) :=
  mapM_iff (P := fun part F => parse .or part = some F ∧ F.IsLiteral) fun _ _ => negatedLiteral_iff

theorem skolems_of_premise {m : Marker} {F : Formula} (h : F.Premise) : F.skolems m = [] := by
  obtain ⟨l, rfl⟩ | ⟨parts, rfl, hparts⟩ := h
  · rw [skolems]
  · rw [skolems, List.flatMap_eq_nil_iff]
    intro F hF
    obtain ⟨l, rfl⟩ := hparts F hF
    rw [skolems]

/-- Literals joined have no operators but the one that joins them. -/
theorem not_mem_of_literalParts {text : List Char} {Fs : List Formula}
    (hFs : List.Forall₂ (fun part F => parse .or part = some F ∧ F.IsLiteral)
      (splitTop '∧' text) Fs) {c : Char} (hop : isOperator c = true) (hne : c ≠ '∧') :
    c ∉ text := by
  refine not_mem_of_parts hne hop fun part hpart hc => ?_
  obtain ⟨F, _, hparse, hshape⟩ := forall₂_mem_left hFs hpart
  rw [operatorFree_of_isLiteral hshape hparse c hc] at hop
  cases hop

/-- The parts of an alternative, all of them literals. -/
theorem literalParts_iff {text : List Char} {Fs : List Formula} :
    List.Forall₂ (fun part F => parse .or part = some F ∧ F.IsLiteral)
        (splitTop '∧' (unwrap text)) Fs ↔
      ∃ G, parse .or text = some G ∧
        (G.IsLiteral ∧ Fs = [G] ∨ G = .joined .and Fs ∧ ∀ F ∈ Fs, F.IsLiteral) := by
  rw [← parse_unwrap]
  -- seen from either side, no quantifier stands in front
  suffices hparts : leading (unwrap text) = ([], unwrap text) → (_ ↔ _) by
    refine ⟨fun hFs => (hparts ?_).1 hFs, fun hG => (hparts ?_).2 hG⟩
    · rw [leading_of_operatorFree, unwrap_unwrap]
      intro c hc
      rw [unwrap_unwrap] at hc
      constructor
      · rintro rfl
        exact not_mem_of_literalParts hFs (by decide) (by decide) hc
      · rintro rfl
        exact not_mem_of_literalParts hFs (by decide) (by decide) hc
    · obtain ⟨G, hparse, hG⟩ := hG
      have hlead : G.lead = [] := by
        rcases hG with ⟨⟨l, rfl⟩, _⟩ | ⟨rfl, _⟩
        · rfl
        · rfl
      have := eq_nil_of_quantifiersOf (hlead ▸ (parse_iff.1 hparse).1.symm)
      rwa [unwrap_unwrap] at this
  refine fun hlead => parts_iff (P := IsLiteral) (j := .and) hlead (trim_unwrap text)
    (fun _ hFs => ⟨?_, .inr ?_⟩) fun G hparse hshape => ?_
  · rw [splitTop_of_not_mem (not_mem_of_literalParts hFs (by decide) (by decide))]
    simp
  · rw [Splits, splitTop_of_not_mem (not_mem_of_literalParts hFs (by decide) (by decide))]
    simp
  · rw [Splits, splitTop_of_operatorFree (by decide) (operatorFree_of_isLiteral hshape hparse)]
    simp

/-- **An alternative** gives its literals, negated. -/
theorem premise_iff {text : List Char} {ls : List Literal} :
    premise text s = (.ok ls, t) ↔ ∃ F, (parse .or text = some F ∧ F.Premise) ∧
      ls = F.literals.map Literal.negate ∧ t = s.bindAll [] := by
  have hnone : ∀ Fs : List Formula, (Fs.flatMap fun _ => ([] : List String)) = [] := by simp
  rw [premise]
  simp only [negatedLiterals_iff, literalParts_iff, hnone]
  constructor
  · rintro ⟨Fs, ⟨G, hparse, hshape⟩, rfl, rfl⟩
    refine ⟨G, ⟨hparse, ?_⟩, ?_, rfl⟩
    · exact hshape.imp (fun h => h.1) fun h => ⟨Fs, h⟩
    · rcases hshape with ⟨⟨l, rfl⟩, rfl⟩ | ⟨rfl, hparts⟩
      · simp [literals]
      · rw [literals, flatMap_literals_of_isLiteral hparts, List.map_map]
        rfl
  · rintro ⟨F, ⟨hparse, ⟨l, rfl⟩ | ⟨parts, rfl, hparts⟩⟩, rfl, rfl⟩
    · refine ⟨_, ⟨_, hparse, .inl ⟨⟨l, rfl⟩, rfl⟩⟩, ?_, rfl⟩
      simp [literals]
    · refine ⟨parts, ⟨_, hparse, .inr ⟨rfl, hparts⟩⟩, ?_, rfl⟩
      rw [literals, flatMap_literals_of_isLiteral hparts, List.map_map]
      rfl

/-! ### Implications -/

theorem checkSide_iff {text : List Char} {u : Unit} :
    checkSide text s = (.ok u, t) ↔
      text.isEmpty = false ∧ (splitTop '⇒' text).length ≤ 1 ∧ s = t := by
  rw [checkSide, guard_ok_iff, Bool.not_eq_true]
  refine and_congr_right fun _ => ?_
  by_cases hc : 1 < (splitTop '⇒' text).length
  · simp only [hc, if_true, throw_ok_iff, false_iff, not_and]
    exact fun h => absurd hc (Nat.not_lt.2 h)
  · simp only [hc, if_false, pure_ok_iff, true_and, Nat.le_of_not_lt hc]

/-- **What stands in front of an arrow.** -/
theorem antecedent_iff {inScope : Bool} {text : List Char} {alts : List (List Literal)}
    (hplain : (splitTop '⇒' (leading text).2).length ≤ 1) :
    ((∃ b, scopeBehind .universal inScope (quantifiersOf (leading text).1) = some b) ∧
        ∃ Fs, List.Forall₂ (fun part F => parse .or part = some F ∧ F.Premise)
          (splitTop '∨' (leading text).2) Fs ∧ alts = Fs.map literals) ↔
      ∃ A, parse .or text = some A ∧ A.Antecedent inScope ∧ alts = A.alternatives := by
  have hparts : ∀ Fs, List.Forall₂ (fun part F => parse .or part = some F ∧ F.Premise)
      (splitTop '∨' (leading text).2) Fs ↔ _ := fun Fs =>
    parts_iff (P := Premise) (j := .or) (leading_leading text) (trim_leading text)
      (fun _ _ => ⟨hplain, .inl rfl⟩) fun G hparse hshape hsplit => by
        obtain ⟨parts, hG⟩ := exists_joined_of_splits (leading_leading text) hplain hsplit hparse
        rcases hshape with ⟨l, rfl⟩ | ⟨_, rfl, _⟩
        · cases hG
        · cases hG
  simp only [hparts]
  constructor
  · rintro ⟨⟨b, henter⟩, Fs, ⟨G, hG, hshape⟩, rfl⟩
    obtain ⟨A, hparse, hlead, rfl⟩ := exists_parse_body hG
    rw [← hlead] at henter
    refine ⟨A, hparse, ⟨b, henter, ?_⟩, ?_⟩
    · exact hshape.imp (fun h => h.1) fun h => ⟨Fs, h⟩
    · rw [← alternatives_body]
      rcases hshape with ⟨hone, rfl⟩ | ⟨hjoined, _⟩
      · rw [hone.alternatives_eq]
        rfl
      · rw [hjoined, alternatives]
  · rintro ⟨A, hparse, ⟨b, henter, hshape⟩, rfl⟩
    obtain ⟨hlead, hbody⟩ := parse_body_iff.1 hparse
    rw [hlead] at henter
    refine ⟨⟨b, henter⟩, ?_⟩
    rw [← alternatives_body]
    rcases hshape with hone | ⟨parts, hjoined, hparts⟩
    · refine ⟨[A.body], ⟨_, hbody, .inl ⟨hone, rfl⟩⟩, ?_⟩
      rw [hone.alternatives_eq]
      rfl
    · refine ⟨parts, ⟨_, hbody, .inr ⟨hjoined, hparts⟩⟩, ?_⟩
      rw [hjoined, alternatives]

theorem flatMap_clauses {inScope : Bool} {parts : List Formula}
    (h : ∀ F ∈ parts, F.Disjunction inScope) : parts.flatMap clauses = parts.map literals := by
  rw [← List.flatMap_singleton' (parts.map literals), List.flatMap_map]
  exact List.flatMap_congr fun F hF => (h F hF).clauses_eq

/-- **What stands behind an arrow.** -/
theorem consequent_iff {inScope : Bool} {text : List Char} {cls : List (List Literal)}
    {ns : List String} (hplain : (splitTop '⇒' (leading text).2).length ≤ 1) :
    (∃ b, scopeBehind .existential inScope (quantifiersOf (leading text).1) = some b ∧
        ∃ Fs, List.Forall₂ (fun part F => parse .and part = some F ∧ F.Disjunction b)
          (splitTop '∧' (leading text).2) Fs ∧ cls = Fs.map literals ∧
          ns = namesBy .existential (quantifiersOf (leading text).1)
            ++ Fs.flatMap (skolems .existential)) ↔
      ∃ C, parse .and text = some C ∧ C.Consequent inScope ∧ cls = C.clauses ∧
        ns = C.skolems .existential := by
  have hparts : ∀ b Fs, List.Forall₂ (fun part F => parse .and part = some F ∧ F.Disjunction b)
      (splitTop '∧' (leading text).2) Fs ↔ _ := fun b Fs =>
    parts_iff (P := Disjunction b) (j := .and) (leading_leading text) (trim_leading text)
      (fun _ _ => ⟨hplain, .inl rfl⟩) fun G hparse hshape hsplit => by
        obtain ⟨parts, hG⟩ := exists_joined_of_splits (leading_leading text) hplain hsplit hparse
        obtain ⟨_, _, ⟨l, hl⟩ | ⟨_, hl, _⟩⟩ := hshape
        · rw [hG] at hl
          cases hl
        · rw [hG] at hl
          cases hl
  simp only [hparts]
  constructor
  · rintro ⟨b, henter, Fs, ⟨G, hG, hshape⟩, rfl, rfl⟩
    obtain ⟨C, hparse, hlead, rfl⟩ := exists_parse_body hG
    rw [← hlead] at henter ⊢
    refine ⟨C, hparse, ⟨b, henter, ?_⟩, ?_⟩
    · exact hshape.imp (fun h => h.1) fun h => ⟨Fs, h⟩
    · rw [← clauses_body, skolems_eq]
      rcases hshape with ⟨hone, rfl⟩ | ⟨hjoined, hparts⟩
      · rw [hone.clauses_eq, List.flatMap_singleton]
        exact ⟨rfl, rfl⟩
      · rw [hjoined, clauses, skolems, flatMap_clauses hparts]
        exact ⟨rfl, rfl⟩
  · rintro ⟨C, hparse, ⟨b, henter, hshape⟩, rfl, rfl⟩
    obtain ⟨hlead, hbody⟩ := parse_body_iff.1 hparse
    rw [← clauses_body, skolems_eq]
    rw [hlead] at henter ⊢
    refine ⟨b, henter, ?_⟩
    rcases hshape with hone | ⟨parts, hjoined, hparts⟩
    · refine ⟨[C.body], ⟨_, hbody, .inl ⟨hone, rfl⟩⟩, ?_⟩
      rw [hone.clauses_eq, List.flatMap_singleton]
      exact ⟨rfl, rfl⟩
    · refine ⟨parts, ⟨_, hbody, .inr ⟨hjoined, hparts⟩⟩, ?_⟩
      rw [hjoined, clauses, skolems, flatMap_clauses hparts]
      exact ⟨rfl, rfl⟩

theorem skolems_of_antecedent {inScope : Bool} {F : Formula} (h : F.Antecedent inScope) :
    F.skolems .universal = namesBy .universal F.lead := by
  obtain ⟨_, _, hone | ⟨parts, hbody, hparts⟩⟩ := h
  · rw [skolems_eq, skolems_of_premise hone, List.append_nil]
  · have hnone : parts.flatMap (skolems .universal) = [] :=
      List.flatMap_eq_nil_iff.2 fun F hF => skolems_of_premise (hparts F hF)
    rw [skolems_eq, hbody, skolems, hnone, List.append_nil]

theorem premises_iff {texts : List (List Char)} {ps : List (List Literal)} :
    texts.mapM premise s = (.ok ps, t) ↔
      ∃ Fs, List.Forall₂ (fun part F => parse .or part = some F ∧ F.Premise) texts Fs ∧
        ps = Fs.map (fun F => F.literals.map Literal.negate) ∧
        t = s.bindAll (Fs.flatMap fun _ => []) :=
  mapM_iff (P := fun part F => parse .or part = some F ∧ F.Premise) fun _ _ => premise_iff

theorem disjunctions_iff {b : Bool} {texts : List (List Char)} {cs : List (List Literal)} :
    texts.mapM (disjunction b) s = (.ok cs, t) ↔
      ∃ Fs, List.Forall₂ (fun part F => parse .and part = some F ∧ F.Disjunction b) texts Fs ∧
        cs = Fs.map literals ∧ t = s.bindAll (Fs.flatMap (skolems .existential)) :=
  mapM_iff (P := fun part F => parse .and part = some F ∧ F.Disjunction b)
    fun _ _ => disjunction_iff

theorem ne_nil_of_parse {outer : Junctor} {text : List Char} {F : Formula}
    (h : parse outer text = some F) : (leading text).2.isEmpty = false := by
  have hspells := (parse_iff.1 h).2
  cases hbody : (leading text).2 with
  | cons c rest => rfl
  | nil =>
    rw [hbody] at hspells
    generalize F.body = body at hspells
    cases hspells with
    | arrow cut => cases cut
    | joined _ _ splits _ => exact absurd splits (by cases ‹Junctor› <;> decide)
    | literal read =>
      have hnone : (readLiteral false []).toOption = none := by decide +kernel
      rw [read] at hnone
      cases hnone

theorem plain_of_parse {outer : Junctor} {text : List Char} {F : Formula}
    (h : parse outer text = some F) (hne : ∀ A C, F.body ≠ .implies A C) :
    (splitTop '⇒' (leading text).2).length ≤ 1 := by
  have hspells := (parse_iff.1 h).2
  generalize F.body = body at hspells hne
  cases hspells with
  | arrow cut => exact absurd rfl (hne _ _)
  | joined plain => exact plain
  | literal read =>
    rw [splitTop_of_operatorFree (by decide) (readLiteral_operatorFree read)]
    simp

theorem body_ne_implies_of_antecedent {inScope : Bool} {F : Formula} (h : F.Antecedent inScope) :
    ∀ A C, F.body ≠ .implies A C := by
  intro A C heq
  obtain ⟨_, _, (⟨l, hl⟩ | ⟨_, hl, _⟩) | ⟨_, hl, _⟩⟩ := h <;> rw [heq] at hl <;> cases hl

theorem body_ne_implies_of_consequent {inScope : Bool} {F : Formula} (h : F.Consequent inScope) :
    ∀ A C, F.body ≠ .implies A C := by
  intro A C heq
  obtain ⟨_, _, ⟨_, _, ⟨l, hl⟩ | ⟨_, hl, _⟩⟩ | ⟨_, hl, _⟩⟩ := h <;>
    simp [heq, body] at hl

/-- **Implications.** -/
theorem implication_iff {inScope : Bool} {a c : List Char} {cls : List (List Literal)} :
    implication inScope a c s = (.ok cls, t) ↔
      ∃ A C, (parse .or a = some A ∧ A.Antecedent inScope) ∧
        (parse .and c = some C ∧ C.Consequent inScope) ∧
        cls = (Formula.implies A C).clauses ∧
        t = s.bindAll ((Formula.implies A C).skolems .existential) := by
  have hdual : Marker.existential.dual = .universal := rfl
  have hnone : ∀ Fs : List Formula, (Fs.flatMap fun _ => ([] : List String)) = [] := by simp
  rw [implication]
  simp only [bind_ok_iff, enter_iff (names_ne_nil_of_mem_leading _), checkSide_iff, premises_iff,
    disjunctions_iff, pure_ok_iff, clauses, skolems]
  constructor
  · rintro ⟨b, _, ⟨hb, rfl⟩, b', _, ⟨hb', rfl⟩, _, _, ⟨_, hplainA, rfl⟩, _, _, ⟨_, hplainC, rfl⟩,
      _, _, ⟨Ps, hPs, rfl, rfl⟩, _, _, ⟨Cs, hCs, rfl, rfl⟩, rfl, rfl⟩
    obtain ⟨A, hA, hshapeA, halts⟩ := (antecedent_iff hplainA).1 ⟨⟨b, hb⟩, Ps, hPs, rfl⟩
    obtain ⟨C, hC, hshapeC, hcls, hns⟩ := (consequent_iff hplainC).1 ⟨b', hb', Cs, hCs, rfl, rfl⟩
    refine ⟨A, C, ⟨hA, hshapeA⟩, ⟨hC, hshapeC⟩, ?_, ?_⟩
    · rw [← halts, ← hcls, List.flatMap_map, List.flatMap_map]
    · rw [hdual, skolems_of_antecedent hshapeA, (parse_iff.1 hA).1, ← hns, hnone Ps]
      simp only [Scope.bindAll_append]
      rfl
  · rintro ⟨A, C, ⟨hA, hshapeA⟩, ⟨hC, hshapeC⟩, rfl, rfl⟩
    have hplainA := plain_of_parse hA (body_ne_implies_of_antecedent hshapeA)
    have hplainC := plain_of_parse hC (body_ne_implies_of_consequent hshapeC)
    obtain ⟨⟨b, hb⟩, Ps, hPs, halts⟩ := (antecedent_iff hplainA).2 ⟨A, hA, hshapeA, rfl⟩
    obtain ⟨b', hb', Cs, hCs, hcls, hns⟩ := (consequent_iff hplainC).2 ⟨C, hC, hshapeC, rfl, rfl⟩
    refine ⟨b, _, ⟨hb, rfl⟩, b', _, ⟨hb', rfl⟩, (), _, ⟨ne_nil_of_parse hA, hplainA, rfl⟩,
      (), _, ⟨ne_nil_of_parse hC, hplainC, rfl⟩, _, _, ⟨Ps, hPs, rfl, rfl⟩,
      _, _, ⟨Cs, hCs, rfl, rfl⟩, ?_, ?_⟩
    · rw [halts, hcls, List.flatMap_map, List.flatMap_map]
    · rw [hdual, skolems_of_antecedent hshapeA, (parse_iff.1 hA).1, hns, hnone Ps]
      simp only [Scope.bindAll_append]
      rfl

/-! ### Sentences -/

/-- **What a conversion can be,** seen from the text: behind the quantifiers an
    implication, a conjunction of sentences or a single disjunction. -/
theorem formula_ok_iff {inScope : Bool} {text : List Char} {cls : List (List Literal)} :
    formula inScope text s = (.ok cls, t) ↔
      ∃ b s', scopeBehind .existential inScope (quantifiersOf (leading text).1) = some b ∧
        s' = s.bindAll (namesBy .existential (quantifiersOf (leading text).1)) ∧
        (leading text).2.isEmpty = false ∧
        ((∃ a c, splitTop '⇒' (leading text).2 = [a, c] ∧ implication b a c s' = (.ok cls, t)) ∨
        ((splitTop '⇒' (leading text).2).length ≤ 1 ∧ Splits .and (leading text).2 ∧
          ∃ lists, (splitTop '∧' (leading text).2).mapM (formula b) s' = (.ok lists, t) ∧
            lists.flatten = cls) ∨
        ((splitTop '⇒' (leading text).2).length ≤ 1 ∧ ¬ Splits .and (leading text).2 ∧
          ∃ ls, disjunction b (leading text).2 s' = (.ok ls, t) ∧ [ls] = cls)) := by
  rw [formula]
  simp only [bind_ok_iff, guard_ok_iff, enter_iff (names_ne_nil_of_mem_leading _),
    Bool.not_eq_true, and_assoc]
  refine exists_congr fun b => exists_congr fun s' => and_congr_right fun _ =>
    and_congr_right fun _ => and_congr_right fun _ => ?_
  -- what happens without an arrow
  have plain : ∀ {x : Conversion (List (List Literal))},
      (x = if _h : 1 < (splitTop '∧' (leading text).2).length then do
          return (← (splitTop '∧' (leading text).2).attach.mapM
            fun ⟨part, _⟩ => formula b part).flatten
        else do return [← disjunction b (leading text).2]) →
      (x s' = (.ok cls, t) ↔
        (Splits .and (leading text).2 ∧
          ∃ lists, (splitTop '∧' (leading text).2).mapM (formula b) s' = (.ok lists, t) ∧
            lists.flatten = cls) ∨
        (¬ Splits .and (leading text).2 ∧
          ∃ ls, disjunction b (leading text).2 s' = (.ok ls, t) ∧ [ls] = cls)) := by
    rintro _ rfl
    by_cases hc : 1 < (splitTop '∧' (leading text).2).length
    · have hsplit : Splits .and (leading text).2 := hc
      rw [dif_pos hc, mapM_attach (formula b), bind_pure_ok_iff]
      simp [hsplit]
    · have hsplit : ¬ Splits .and (leading text).2 := hc
      rw [dif_neg hc, bind_pure_ok_iff]
      simp [hsplit]
  match hcut : splitTop '⇒' (leading text).2 with
  | [] => exact absurd hcut (splitTop_ne_nil _ _)
  | [_] => exact (plain rfl).trans (by simp)
  | [a, c] => simp
  | _ :: _ :: _ :: _ => simp [throw_ok_iff]

/-- **The conversion, formula by formula:** it succeeds exactly for the facts, gives the
    literals of their clauses, and binds the names that they Skolemize. -/
theorem formula_iff {inScope : Bool} {text : List Char} {cls : List (List Literal)} :
    formula inScope text s = (.ok cls, t) ↔
      ∃ F, (parse .and text = some F ∧ F.Fact inScope) ∧ cls = F.clauses ∧
        t = s.bindAll (F.skolems .existential) := by
  -- by strong induction on the length, as the conversion itself
  induction hn : text.length using Nat.strongRecOn generalizing inScope text cls s t with
  | ind n ih =>
    subst hn
    have hparts : Splits .and (leading text).2 → ∀ {b : Bool} {s t : Scope} {lists},
        (splitTop '∧' (leading text).2).mapM (formula b) s = (.ok lists, t) ↔
          ∃ Fs, List.Forall₂ (fun part F => parse .and part = some F ∧ F.Fact b)
            (splitTop '∧' (leading text).2) Fs ∧ lists = Fs.map clauses ∧
            t = s.bindAll (Fs.flatMap (skolems .existential)) := by
      intro hsplit b s t lists
      refine mapM_iff (P := fun part F => parse .and part = some F ∧ F.Fact b) fun part hpart => ?_
      have hless := Nat.lt_of_lt_of_le (length_lt_of_mem_splitTop hpart hsplit)
        (length_leading_le text)
      exact fun {_ _ _} => ih _ hless rfl
    rw [formula_ok_iff]
    constructor
    · rintro ⟨b, _, henter, rfl, _, himp | ⟨hplain, hsplit, lists, hlists, rfl⟩ |
        ⟨hplain, hsplit, ls, hls, rfl⟩⟩
      · obtain ⟨a, c, hcut, himp⟩ := himp
        obtain ⟨A, C, ⟨hA, hshapeA⟩, ⟨hC, hshapeC⟩, rfl, rfl⟩ := implication_iff.1 himp
        obtain ⟨F, hparse, hlead, hbody⟩ := exists_parse (.arrow hcut hA hC)
        refine ⟨F, ⟨hparse, .implication (by rwa [hlead]) hbody hshapeA hshapeC⟩, ?_, ?_⟩
        · rw [← clauses_body F, hbody]
        · rw [skolems_eq _ F, hlead, hbody, Scope.bindAll_append]
      · obtain ⟨Fs, hFs, rfl, rfl⟩ := (hparts hsplit).1 hlists
        obtain ⟨hread, hfacts⟩ := forall₂_and_right.1 hFs
        obtain ⟨F, hparse, hlead, hbody⟩ := exists_parse (.joined hplain (.inl rfl) hsplit hread)
        refine ⟨F, ⟨hparse, .conjunction (by rwa [hlead]) hbody hfacts⟩, ?_, ?_⟩
        · rw [← clauses_body, hbody, clauses, List.flatMap_def]
        · rw [skolems_eq, hlead, hbody, skolems, Scope.bindAll_append]
      · obtain ⟨G, ⟨hG, hshape⟩, rfl, rfl⟩ := disjunction_iff.1 hls
        obtain ⟨F, hparse, hlead, rfl⟩ := exists_parse_body hG
        have hdisj : F.Disjunction inScope := disjunction_body_iff.2 ⟨b, by rwa [hlead], hshape⟩
        refine ⟨F, ⟨hparse, .disjunction hdisj⟩, ?_, ?_⟩
        · rw [hdisj.clauses_eq, literals_body]
        · rw [skolems_eq _ F, hlead, Scope.bindAll_append]
    · rintro ⟨F, ⟨hparse, hfact⟩, rfl, rfl⟩
      have hempty := ne_nil_of_parse hparse
      obtain ⟨hlead, hspells⟩ := parse_iff.1 hparse
      rw [skolems_eq, Scope.bindAll_append, hlead, ← clauses_body]
      cases hfact with
      | implication enter shape antecedent consequent =>
        rw [shape] at hspells ⊢
        rw [hlead] at enter
        cases hspells with
        | arrow cut hA hC =>
          exact ⟨_, _, enter, rfl, hempty, .inl ⟨_, _, cut,
            implication_iff.2 ⟨_, _, ⟨hA, antecedent⟩, ⟨hC, consequent⟩, rfl, rfl⟩⟩⟩
      | conjunction enter shape facts =>
        rw [shape] at hspells ⊢
        rw [hlead] at enter
        cases hspells with
        | joined hplain _ hsplit hread =>
          refine ⟨_, _, enter, rfl, hempty, .inr (.inl ⟨hplain, hsplit, _,
            (hparts hsplit).2 ⟨_, forall₂_and_right.2 ⟨hread, facts⟩, rfl, ?_⟩, ?_⟩)⟩
          · rw [skolems]
          · rw [clauses, List.flatMap_def]
      | disjunction shape =>
        obtain ⟨b, enter, hbody⟩ := disjunction_body_iff.1 shape
        rw [hlead] at enter
        have hplain := plain_of_parse hparse
          (body_ne_implies_of_consequent ⟨b, by rwa [hlead], .inl hbody⟩)
        have hsplit : ¬ Splits .and (leading text).2 := fun hsplit => by
          obtain ⟨parts, hjoined⟩ := exists_joined_of_splits (leading_leading text) hplain hsplit
            (parse_body_iff.1 hparse).2
          rw [body_body] at hjoined
          obtain ⟨_, _, ⟨l, hl⟩ | ⟨_, hl, _⟩⟩ := shape <;> rw [hjoined] at hl <;> cases hl
        refine ⟨b, _, enter, rfl, hempty, .inr (.inr ⟨hplain, hsplit, _,
          disjunction_iff.2 ⟨_, ⟨(parse_body_iff.1 hparse).2, hbody⟩, rfl, rfl⟩, ?_⟩)⟩
        rw [hbody.clauses_eq]

end Conversion

/-! ### The clauses of a sentence -/

namespace Build

variable {b b' : Builder}

/-- A sentence that is normal is noted. -/
theorem normalize_ok_iff {sentence : String} {text : List Char} :
    normalize sentence b = (.ok text, b') ↔
      Sentence.normalize sentence = .ok text ∧ b' = b.noteSymbols text := by
  rw [normalize]
  cases Sentence.normalize sentence with
  | error fault => simp [throw_ok_iff]
  | ok text' =>
    have hrun : (do
        modify (·.noteSymbols text')
        return text' : Build (List Char)) b = (.ok text', b.noteSymbols text') := rfl
    dsimp only
    rw [hrun, Prod.mk.injEq, Except.ok.injEq, Except.ok.injEq]
    exact ⟨fun ⟨ht, hb⟩ => ⟨ht, by rw [← hb, ht]⟩, fun ⟨ht, hb⟩ => ⟨ht, by rw [hb, ht]⟩⟩

theorem convert_ok_iff {α : Type} {sentence : String} {conversion : Conversion α} {a : α}
    {σ : Substitution} :
    convert sentence conversion b = (.ok (a, σ), b') ↔
      ∃ scope, conversion { builder := b } = (.ok a, scope) ∧ σ = ⟨scope.skolems⟩ ∧
        b' = scope.builder := by
  rw [convert]
  constructor
  · intro h
    split at h
    · rename_i value scope hconversion
      cases h
      exact ⟨scope, hconversion, rfl, rfl⟩
    · cases h
  · rintro ⟨scope, hconversion, rfl, rfl⟩
    rw [hconversion]

/-- **The clauses of a sentence** are those of the fact that it spells, with a Skolem
    constant for each name that is Skolemized. -/
theorem sentence_ok_iff {s : String} {clauses : List Clause} :
    sentence s b = (.ok clauses, b') ↔
      ∃ text F, Sentence.normalize s = .ok text ∧ (parse .and text = some F ∧ F.Fact false) ∧
        clauses = F.clauses.map (fun ls => Substitution.apply
          ⟨(Scope.bindAll { builder := b.noteSymbols text } (F.skolems .existential)).skolems⟩
          ⟨ls⟩) ∧
        b' = (Scope.bindAll { builder := b.noteSymbols text } (F.skolems .existential)).builder := by
  rw [sentence, bind_ok_iff]
  constructor
  · rintro ⟨text, _, hnorm, hrest⟩
    obtain ⟨htext, rfl⟩ := normalize_ok_iff.1 hnorm
    obtain ⟨⟨lists, σ⟩, hconvert, rfl⟩ := bind_pure_ok_iff.1 hrest
    obtain ⟨scope, hformula, rfl, rfl⟩ := convert_ok_iff.1 hconvert
    obtain ⟨F, hF, rfl, rfl⟩ := Conversion.formula_iff.1 hformula
    exact ⟨text, F, htext, hF, rfl, rfl⟩
  · rintro ⟨text, F, hnorm, hF, rfl, rfl⟩
    refine ⟨text, _, normalize_ok_iff.2 ⟨hnorm, rfl⟩, bind_pure_ok_iff.2 ⟨(F.clauses, _), ?_, rfl⟩⟩
    exact convert_ok_iff.2 ⟨_, Conversion.formula_iff.2 ⟨F, hF, rfl, rfl⟩, rfl, rfl⟩

/-- A sentence is refused with the sentence named. -/
theorem sentence_error {s : String} {e : Error} (h : sentence s b = (.error e, b')) :
    ∃ fault, e = .malformed s fault := by
  rw [sentence] at h
  rcases bind_eq_error h with hnorm | ⟨text, b₁, _, h⟩
  · rw [normalize] at hnorm
    cases htext : Sentence.normalize s with
    | error fault =>
      rw [htext] at hnorm
      cases hnorm
      exact ⟨fault, rfl⟩
    | ok text =>
      rw [htext] at hnorm
      cases hnorm
  · rcases bind_eq_error h with hconvert | ⟨_, _, _, hpure⟩
    · rw [convert] at hconvert
      split at hconvert
      · cases hconvert
      · rename_i fault _ _
        cases hconvert
        exact ⟨fault, rfl⟩
    · cases hpure

end Build

end Refuter
