import Refuter.Proofs.Conversion
import Refuter.Proofs.Cutting
import Refuter.Proofs.Entailment

/-! # A formula as a fact and in front of an arrow

A fact is cut at its conjunctions first and the parts at their disjunctions; in front of an
arrow it is the other way round. Both readings see the same literals in the same order, but
they group them in two ways: as rows and as columns.

- A fact says that every row has a true literal. In front of an arrow the same text says
  that all literals of some column are true. So the fact is never the weaker one, and a
  rule may be applied to it.
- The two say the same when the text falls apart at one of the connectives only. When it
  falls apart at both and repeats no atom, some interpretation tells them apart.

The pieces of an accepted text are literals in both readings (`Conversion.pieces_spell`),
which fixes its clauses (`readings_of_accepted`).
-/

namespace Refuter

universe u

open Sentence

/-! ### Pieces that are literals -/

namespace Sentence

theorem readLiteral_trim (negated : Bool) (text : List Char) :
    readLiteral negated (Text.trim text) = readLiteral negated text := by
  rw [← readLiteral_unwrap, unwrap_trim, readLiteral_unwrap]

/-- A text spells a literal. -/
def SpellsLiteral (text : List Char) : Prop :=
  ∃ l, readLiteral false text = .ok l

/-- The literal that a text spells. -/
def literalOf (text : List Char) : Literal :=
  match readLiteral false text with
  | .ok l => l
  | .error _ => default

theorem literalOf_eq {text : List Char} {l : Literal} (h : readLiteral false text = .ok l) :
    literalOf text = l := by
  rw [literalOf, h]

theorem SpellsLiteral.holds_iff {τ : Assignment} {text : List Char} (h : SpellsLiteral text) :
    literalHolds τ text ↔ (literalOf text).TrueIn τ := by
  obtain ⟨l, hl⟩ := h
  rw [literalOf_eq hl]
  exact literalHolds_iff hl

theorem SpellsLiteral.of_negated {text : List Char} {l : Literal}
    (h : readLiteral true text = .ok l) : SpellsLiteral text := by
  have hnot := readLiteral_not true text
  rw [h] at hnot
  exact ⟨l.negate, hnot⟩

/-- Parentheses around a text whose parts are literals make no difference to them: if there
    are any, it is a single literal. -/
theorem map_readLiteral_unwrap {connective : Char} (hop : isOperator connective = true)
    {text : List Char} (h : ∀ part ∈ splitTop connective text, SpellsLiteral part) :
    (splitTop connective (unwrap text)).map (readLiteral false)
      = (splitTop connective text).map (readLiteral false) := by
  by_cases hsplit : 1 < (splitTop connective text).length
  · rw [unwrap_of_splits hop hsplit, splitTop_trim hop]
  · have hone := splitTop_eq_singleton (Nat.le_of_not_lt hsplit)
    obtain ⟨l, hl⟩ := h (Text.trim text) (by rw [hone]; exact List.mem_cons_self ..)
    rw [readLiteral_trim] at hl
    have hfree := readLiteral_operatorFree hl
    rw [hone, splitTop_of_operatorFree hop fun c hc => hfree c (unwrap_subset text hc),
      List.map_singleton, List.map_singleton, readLiteral_trim, readLiteral_trim,
      readLiteral_unwrap]

/-- Texts that are read alike spell literals that are true together. -/
theorem forall_literalHolds_congr {τ : Assignment} {ps qs : List (List Char)}
    (h : ps.map (readLiteral false) = qs.map (readLiteral false)) :
    (∀ p ∈ ps, literalHolds τ p) ↔ ∀ q ∈ qs, literalHolds τ q := by
  have hread : ∀ ps : List (List Char), (∀ p ∈ ps, literalHolds τ p) ↔
      ∀ r ∈ ps.map (readLiteral false), ∃ l, r = .ok l ∧ l.TrueIn τ := by
    intro ps
    simp only [List.forall_mem_map, literalHolds]
  rw [hread, hread, h]

/-! ### Rows and columns -/

/-- The pieces of a text by rows: conjunctions are cut first. -/
def rows (text : List Char) : List (List (List Char)) :=
  (splitTop '∧' (unwrap text)).map (splitTop '∨')

/-- The pieces of a text by columns: disjunctions are cut first. -/
def cols (text : List Char) : List (List (List Char)) :=
  (splitTop '∨' (unwrap text)).map (splitTop '∧')

theorem regrouped_rows (text : List Char) : Regrouped (rows text) (cols text) :=
  regrouped_splitTop (by decide) (by decide) (by decide) (unwrap text)

/-- The literals of the rows. -/
def rowLiterals (text : List Char) : List (List Literal) :=
  (rows text).map (List.map literalOf)

/-- The literals of the columns. -/
def colLiterals (text : List Char) : List (List Literal) :=
  (cols text).map (List.map literalOf)

/-- Both connectives stand outside all parentheses. -/
def Mixed (text : List Char) : Prop :=
  Splits .and (unwrap text) ∧ Splits .or (unwrap text)

instance (text : List Char) : Decidable (Mixed text) :=
  inferInstanceAs (Decidable (1 < (splitTop '∧' (unwrap text)).length ∧
    1 < (splitTop '∨' (unwrap text)).length))

/-- There are several rows and several columns then. -/
theorem mixed_iff {text : List Char} :
    Mixed text ↔ 1 < (rowLiterals text).length ∧ 1 < (colLiterals text).length := by
  simp only [rowLiterals, rows, colLiterals, cols, List.length_map]
  exact Iff.rfl

/-- **In front of an arrow** all literals of some column are true. -/
theorem antecedentHolds_iff {τ : Assignment} {text : List Char}
    (h : ∀ col ∈ cols text, ∀ p ∈ col, SpellsLiteral p) :
    antecedentHolds τ text ↔ ∃ col ∈ colLiterals text, ∀ l ∈ col, l.TrueIn τ := by
  rw [antecedentHolds, colLiterals, cols, List.map_map]
  simp only [List.mem_map, exists_exists_and_eq_and]
  refine exists_congr fun part => and_congr_right fun hpart => ?_
  have hlits := h (splitTop '∧' part) (List.mem_map.2 ⟨part, hpart, rfl⟩)
  rw [conjunctionHolds, forall_literalHolds_congr (map_readLiteral_unwrap (by decide) hlits),
    Function.comp_apply, List.forall_mem_map]
  exact forall₂_congr fun p hp => (hlits p hp).holds_iff

end Sentence

/-! ### What an accepted text looks like -/

namespace Conversion

variable {s t : Scope}

/-- The parts of a disjunction spell its literals. -/
theorem disjunction_reads {inScope : Bool} {text : List Char} {ls : List Literal}
    (hq : QuantifierFree text) (h : disjunction inScope text s = (.ok ls, t)) :
    (splitTop '∨' (unwrap text)).map (readLiteral false) = ls.map .ok := by
  rw [disjunction, hq.leading_eq] at h
  obtain ⟨_, _, henter, hparts⟩ := bind_eq_ok h
  obtain ⟨rfl, rfl⟩ := enter_nil henter
  obtain ⟨_, hread⟩ := mapM_eq_ok (I := fun _ => True)
    (R := fun part l => readLiteral false part = .ok l)
    (fun part hpart _ _ _ _ hl => by
      obtain ⟨_, hread⟩ := disjunct_ok (hq.unwrap.part hpart) hl
      rw [readLiteral_unwrap] at hread
      exact ⟨trivial, hread⟩) trivial hparts
  clear hparts h
  generalize splitTop '∨' (unwrap text) = parts at hread
  induction hread with
  | nil => rfl
  | cons hp _ ih => rw [List.map_cons, List.map_cons, hp, ih]

theorem disjunction_spells {inScope : Bool} {text : List Char} {ls : List Literal}
    (hq : QuantifierFree text) (h : disjunction inScope text s = (.ok ls, t)) :
    ∀ part ∈ splitTop '∨' (unwrap text), SpellsLiteral part := by
  intro part hpart
  have hmem : readLiteral false part ∈ ls.map .ok := by
    rw [← disjunction_reads hq h]
    exact List.mem_map.2 ⟨part, hpart, rfl⟩
  obtain ⟨l, _, hl⟩ := List.mem_map.1 hmem
  exact ⟨l, hl.symm⟩

/-- **What stands in front of an arrow:** no further arrow, and alternatives whose
    conjuncts are literals. -/
theorem implication_spells {inScope : Bool} {a c : List Char} {cls : List (List Literal)}
    (ha : QuantifierFree a) (hc : QuantifierFree c)
    (h : implication inScope a c s = (.ok cls, t)) :
    (splitTop '⇒' (unwrap a)).length ≤ 1 ∧
      ∀ part ∈ splitTop '∨' (unwrap a), ∀ p ∈ splitTop '∧' (unwrap part), SpellsLiteral p := by
  rw [implication, ha.leading_eq, hc.leading_eq] at h
  obtain ⟨_, _, henter, h₁⟩ := bind_eq_ok h
  obtain ⟨rfl, rfl⟩ := enter_nil henter
  obtain ⟨_, _, henter, h₂⟩ := bind_eq_ok h₁
  obtain ⟨rfl, rfl⟩ := enter_nil henter
  obtain ⟨_, _, hside, h₃⟩ := bind_eq_ok h₂
  obtain ⟨_, _, _, h₄⟩ := bind_eq_ok h₃
  obtain ⟨premises, _, hprem, _⟩ := bind_eq_ok h₄
  refine ⟨(checkSide_iff.1 hside).2.1, ?_⟩
  obtain ⟨_, hparts⟩ := mapM_eq_ok (I := fun _ => True)
    (R := fun part _ => ∀ p ∈ splitTop '∧' (unwrap part), SpellsLiteral p)
    (fun part _ _ _ _ _ hpremise => by
      obtain ⟨_, hread⟩ := mapM_eq_ok (I := fun _ => True)
        (R := fun p l => readLiteral true p = .ok l)
        (fun p _ _ _ _ _ hl => ⟨trivial, (literal_ok hl).2⟩) trivial hpremise
      refine ⟨trivial, fun p hp => ?_⟩
      obtain ⟨l, _, hl⟩ := forall₂_mem_left hread hp
      exact .of_negated hl) trivial hprem
  intro part hpart
  obtain ⟨_, _, hspell⟩ := forall₂_mem_left hparts hpart
  exact hspell

/-- A part that falls apart at its disjunctions spells literals there. -/
theorem row_spells {inScope : Bool} {text : List Char} {cls : List (List Literal)}
    (hq : QuantifierFree text) (hplain : (splitTop '⇒' (unwrap text)).length ≤ 1)
    (h : formula inScope text s = (.ok cls, t)) :
    ∀ row ∈ rows text, 1 < row.length → ∀ p ∈ row, SpellsLiteral p := by
  intro row hrow hlong
  obtain ⟨part, hpart, rfl⟩ := List.mem_map.1 hrow
  have hor : isOperator '∨' = true := by decide
  rcases formula_cases hq h with ⟨a, c, hcut, _⟩ | ⟨_, hsplit, lists, hlists, rfl⟩ |
    ⟨_, hsplit, ls, hls, rfl⟩
  · simp [hcut] at hplain
  · -- the part is a sentence of its own, without an arrow and without a conjunction
    obtain ⟨_, hparts⟩ := mapM_eq_ok (I := fun _ => True)
      (R := fun part _ => ∃ s t cls, formula inScope part.1 s = (.ok cls, t))
      (fun part _ s cls t _ hl => ⟨trivial, s, t, cls, hl⟩) trivial hlists
    obtain ⟨_, _, s', t', cls', hformula⟩ :=
      forall₂_mem_left hparts (List.mem_attach _ ⟨part, hpart⟩)
    have hunwrap : unwrap part = Text.trim part := unwrap_of_splits hor hlong
    have harrow : (splitTop '⇒' (unwrap part)).length = 1 := by
      rw [hunwrap, splitTop_trim (by decide)]
      exact length_splitTop_part (by decide) (by decide) (by decide) hplain hpart
    have hand : (splitTop '∧' (unwrap part)).length = 1 := by
      rw [hunwrap, splitTop_trim (by decide)]
      exact length_splitTop_of_mem (by decide) hpart
    have hqpart := hq.unwrap.part hpart
    rcases formula_cases hqpart hformula with ⟨a, c, hcut, _⟩ | ⟨_, hcut, _⟩ | ⟨_, _, ls, hls, _⟩
    · simp [hcut] at harrow
    · omega
    · have hspell := disjunction_spells hqpart.unwrap hls
      rwa [unwrap_unwrap, hunwrap, splitTop_trim hor] at hspell
  · have hone := splitTop_eq_singleton (Nat.le_of_not_lt hsplit)
    rw [hone, List.mem_singleton, trim_unwrap] at hpart
    subst hpart
    have hspell := disjunction_spells hq.unwrap hls
    rwa [unwrap_unwrap] at hspell

/-- **All pieces are literals,** if a text is accepted both as a fact and in front of an
    arrow. -/
theorem pieces_spell {inScope : Bool} {text : List Char} {cls : List (List Literal)}
    (hq : QuantifierFree text) (hplain : (splitTop '⇒' (unwrap text)).length ≤ 1)
    (hfact : formula inScope text s = (.ok cls, t))
    (hante : ∀ part ∈ splitTop '∨' (unwrap text), ∀ p ∈ splitTop '∧' (unwrap part),
      SpellsLiteral p) : ∀ row ∈ rows text, ∀ p ∈ row, SpellsLiteral p := by
  have hand : isOperator '∧' = true := by decide
  -- a part in front of an arrow that falls apart at its conjunctions
  have hcols : ∀ col ∈ cols text, 1 < col.length → ∀ p ∈ col, SpellsLiteral p := by
    intro col hcol hlong
    obtain ⟨part, hpart, rfl⟩ := List.mem_map.1 hcol
    have hspell := hante part hpart
    rwa [unwrap_of_splits hand hlong, splitTop_trim hand] at hspell
  rcases (regrouped_rows text).forall_pieces (row_spells hq hplain hfact) hcols with
    hall | ⟨p, hrow, hcol⟩
  · exact hall
  · -- one piece: neither connective cuts, so the premise is the text itself
    have hor : (splitTop '∨' (unwrap text)).length ≤ 1 := by
      have := congrArg List.length hcol
      rw [cols, List.length_map] at this
      exact Nat.le_of_eq this
    have hone := splitTop_eq_singleton hor
    rw [trim_unwrap] at hone
    have hspell := hante (unwrap text) (by rw [hone]; exact List.mem_cons_self ..)
    rw [unwrap_unwrap] at hspell
    rw [rows] at hrow
    rw [cols, hone, List.map_singleton, List.cons.injEq] at hcol
    rw [rows, hrow]
    rw [hcol.1] at hspell
    simpa using hspell

/-- A disjunction of literals reads the literals that its pieces spell. -/
theorem eq_map_literalOf {part : List Char} {ls : List Literal}
    (hlits : ∀ p ∈ splitTop '∨' part, SpellsLiteral p)
    (hls : (splitTop '∨' (unwrap part)).map (readLiteral false) = ls.map .ok) :
    ls = (splitTop '∨' part).map literalOf := by
  rw [map_readLiteral_unwrap (by decide) hlits] at hls
  have hmap : (splitTop '∨' part).map (readLiteral false)
      = ((splitTop '∨' part).map literalOf).map .ok := by
    rw [List.map_map]
    refine List.map_congr_left fun p hp => ?_
    obtain ⟨l, hl⟩ := hlits p hp
    rw [Function.comp_apply, literalOf_eq hl, hl]
  rw [hmap] at hls
  exact (List.map_injective_iff.2 (fun _ _ => Except.ok.inj) hls).symm

/-- Literals have no connective, so a disjunction of them has none but the one that joins
    them. -/
theorem not_mem_of_spellsLiteral {part : List Char} {c : Char}
    (hlits : ∀ p ∈ splitTop '∨' part, SpellsLiteral p) (hop : isOperator c = true)
    (hne : c ≠ '∨') : c ∉ part := by
  apply not_mem_of_parts hne hop
  intro p hp hmem
  obtain ⟨l, hl⟩ := hlits p hp
  rw [readLiteral_operatorFree hl c hmem] at hop
  cases hop

/-- **A row is one clause,** if its pieces are literals. -/
theorem clauses_of_row {inScope : Bool} {part : List Char} {cls : List (List Literal)}
    (hq : QuantifierFree part) (hlits : ∀ p ∈ splitTop '∨' part, SpellsLiteral p)
    (h : formula inScope part s = (.ok cls, t)) : [(splitTop '∨' part).map literalOf] = cls := by
  have hone : ∀ {c : Char}, isOperator c = true → c ≠ '∨' →
      (splitTop c (unwrap part)).length = 1 := by
    intro c hop hne
    have hnot := not_mem_of_spellsLiteral hlits hop hne
    rw [splitTop_of_not_mem fun hmem => hnot (unwrap_subset _ hmem)]
    rfl
  rcases formula_cases hq h with ⟨a, c, hcut, _⟩ | ⟨_, hcut, _⟩ | ⟨_, _, ls, hls, rfl⟩
  · have harrow := hone (c := '⇒') (by decide) (by decide)
    simp [hcut] at harrow
  · have hand := hone (c := '∧') (by decide) (by decide)
    omega
  · have hls := disjunction_reads hq.unwrap hls
    rw [unwrap_unwrap] at hls
    rw [eq_map_literalOf hlits hls]

/-- **The clauses of a fact are its rows,** if its pieces are literals. -/
theorem clauses_eq_rowLiterals {inScope : Bool} {text : List Char} {cls : List (List Literal)}
    (hq : QuantifierFree text) (hplain : (splitTop '⇒' (unwrap text)).length ≤ 1)
    (hspell : ∀ row ∈ rows text, ∀ p ∈ row, SpellsLiteral p)
    (h : formula inScope text s = (.ok cls, t)) : cls = rowLiterals text := by
  rcases formula_cases hq h with ⟨a, c, hcut, _⟩ | ⟨_, hsplit, lists, hlists, rfl⟩ |
    ⟨_, hsplit, ls, hls, rfl⟩
  · simp [hcut] at hplain
  · rw [mapM_attach (formula inScope)] at hlists
    obtain ⟨_, hparts⟩ := mapM_eq_ok (I := fun _ => True)
      (R := fun part cls => [(splitTop '∨' part).map literalOf] = cls)
      (fun part hpart s cls t _ hl => by
        have hlits := hspell _ (List.mem_map.2 ⟨part, hpart, rfl⟩)
        exact ⟨trivial, clauses_of_row (hq.unwrap.part hpart) hlits hl⟩) trivial hlists
    have hlists : (splitTop '∧' (unwrap text)).map
        (fun part => [(splitTop '∨' part).map literalOf]) = lists := by
      rw [← List.forall₂_eq_eq_eq, List.forall₂_map_left_iff]
      exact hparts
    rw [← hlists, rowLiterals, rows, List.map_map, ← List.flatMap_def, ← List.map_eq_flatMap]
    rfl
  · have hone := splitTop_eq_singleton (Nat.le_of_not_lt hsplit)
    rw [trim_unwrap] at hone
    have hls := disjunction_reads hq.unwrap hls
    have hlits := hspell (splitTop '∨' (unwrap text)) (by rw [rows, hone]; simp)
    rw [rowLiterals, rows, hone, List.map_singleton, List.map_singleton,
      eq_map_literalOf hlits hls]

end Conversion

/-! ### A name behind an arrow -/

namespace Sentence

/-- Behind an arrow a literal says what it says. -/
theorem consequentHolds_of_literal {τ : Assignment} {text : List Char} {l : Literal}
    (h : readLiteral false text = .ok l) : consequentHolds τ text ↔ l.TrueIn τ := by
  have hfree := readLiteral_operatorFree h
  have hunwrap : ∀ c ∈ unwrap text, isOperator c = false :=
    fun c hc => hfree c (unwrap_subset text hc)
  rw [consequentHolds, splitTop_of_operatorFree (by decide) hunwrap, trim_unwrap,
    List.forall_mem_singleton, disjunctionHolds, unwrap_unwrap,
    splitTop_of_operatorFree (by decide) hunwrap, trim_unwrap]
  rw [← readLiteral_unwrap] at h
  simp [literalHolds_iff h]

/-- The literal that a bare name spells. -/
theorem readLiteral_name {name : String} (h : IsName isWord isNameStart name) :
    readLiteral false name.toList = .ok { name } := by
  have hlegal : Literal.Legal { name } := ⟨h, List.forall_mem_nil _⟩
  have htext : ({ name } : Literal).text = name := by simp [Literal.text]
  have := readLiteral_text hlegal
  rwa [htext] at this

/-- **The two sides of a rule** whose antecedent is a text of its own. -/
theorem splitTop_rule {a g : List Char} (ha : balanced a = true)
    (hg : ∀ c ∈ g, isWord c = true) :
    splitTop '⇒' (a ++ ' ' :: '⇒' :: ' ' :: g) = splitTop '⇒' a ++ [g] := by
  have hspace : Blank [' '] := by simp [Blank]; decide
  have hnothing : Blank [] := List.forall_mem_nil _
  have hopen : '⇒' ≠ '(' := by decide
  have hclose : '⇒' ≠ ')' := by decide
  have harrow : isOperator '⇒' = true := by decide
  have hcut : cutFrom '⇒' 0 (a ++ ' ' :: '⇒' :: ' ' :: g)
      = cutFrom '⇒' 0 (a ++ [' ']) ++ cutFrom '⇒' 0 (' ' :: g) := by
    have hgrouped : Grouped (a ++ [' ']) :=
      (balanced_iff_grouped.1 ha).append (grouped_singleton (by decide) (by decide))
    have := hgrouped.cutFrom_append_cut hopen hclose (' ' :: g)
    simpa using this
  have hfront : splitTop '⇒' (a ++ [' ']) = splitTop '⇒' a :=
    splitTop_pad harrow hnothing hspace a
  have hback : splitTop '⇒' (' ' :: g) = splitTop '⇒' g := by
    have := splitTop_pad harrow hspace hnothing g
    simpa using this
  have hnone : '⇒' ∉ g := fun hmem => absurd (hg _ hmem) (by decide)
  rw [splitTop, hcut, List.map_append, ← splitTop, ← splitTop, hfront, hback,
    splitTop_of_not_mem hnone, trim_word hg]

/-- A rule falls apart at its arrow, so no parentheses are peeled off. -/
theorem splitTop_unwrap_rule {a g : List Char} (ha : balanced a = true)
    (hg : ∀ c ∈ g, isWord c = true) :
    splitTop '⇒' (unwrap (Text.trim (a ++ ' ' :: '⇒' :: ' ' :: g))) = splitTop '⇒' a ++ [g] := by
  have harrow : isOperator '⇒' = true := by decide
  have hlong : 1 < (splitTop '⇒' (a ++ ' ' :: '⇒' :: ' ' :: g)).length := by
    have := List.length_pos_iff.2 (splitTop_ne_nil '⇒' a)
    rw [splitTop_rule ha hg, List.length_append, List.length_singleton]
    omega
  rw [unwrap_trim, unwrap_of_splits harrow hlong, splitTop_trim harrow, splitTop_rule ha hg]

end Sentence

/-! ### Values that tell two readings apart -/

/-- An assignment is what its structure makes of the variables that stand for themselves. -/
theorem Assignment.atoms_toStructure (τ : Assignment) : τ.toStructure.atoms .var = τ := by
  funext name args
  have hargs : args.map (τ.toStructure.eval .var) = args :=
    (List.map_congr_left fun t _ => by cases t <;> rfl).trans (List.map_id _)
  exact congrArg (τ name) hargs

/-- **Literals of different atoms are independent:** some interpretation makes true exactly
    the chosen ones, and no atom with a name that they lack. -/
theorem exists_trueIn_iff {ls : List Literal} (hatoms : (ls.map Literal.atom).Nodup)
    (P : Literal → Prop) : ∃ (M : Structure.{0}) (v : String → M.Domain),
      (∀ l ∈ ls, l.TrueIn (M.atoms v) ↔ P l) ∧
      ∀ name args, (∀ l ∈ ls, l.name ≠ name) → ¬ M.atoms v name args := by
  let τ : Assignment := fun name args =>
    ∃ l ∈ ls, l.atom = (name, args) ∧ (P l ↔ l.negated = false)
  have hvalue := τ.atoms_toStructure
  refine ⟨τ.toStructure, .var, fun l hl => ?_, fun name args hname => ?_⟩
  · have hatom : τ l.name l.args ↔ (P l ↔ l.negated = false) := by
      constructor
      · rintro ⟨k, hk, hkl, hP⟩
        obtain rfl : k = l := List.inj_on_of_nodup_map hatoms hk hl hkl
        exact hP
      · exact fun hP => ⟨l, hl, rfl, hP⟩
    rw [hvalue, Literal.TrueIn, hatom]
    tauto
  · rw [hvalue]
    rintro ⟨l, hl, hatom, _⟩
    exact hname l hl (congrArg Prod.fst hatom)

/-! ### The main result -/

namespace Build

variable {b b' : Builder}

/-- The clauses of a sentence without quantifiers are what the conversion gives. -/
theorem sentence_formula {s : String} {clauses : List Clause} (hq : QuantifierFree s.toList)
    (h : sentence s b = (.ok clauses, b')) : ∃ text scope scope',
      Sentence.normalize s = .ok text ∧ QuantifierFree text ∧
        Conversion.formula false text scope = (.ok (clauses.map Clause.literals), scope') := by
  obtain ⟨text, _, htext, h₁⟩ := bind_eq_ok h
  obtain ⟨⟨lists, σ⟩, _, hconv, hpure⟩ := bind_eq_ok h₁
  have hnorm := normalize_ok htext
  obtain ⟨scope, hformula, rfl⟩ := convert_ok hconv
  obtain ⟨rfl, _⟩ := Conversion.formula_ok (hq.normalize hnorm) hformula
  obtain ⟨rfl, rfl⟩ := pure_eq_ok hpure
  have hlists : (lists.map fun ls => Substitution.apply ⟨[]⟩ ⟨ls⟩).map Clause.literals = lists := by
    rw [List.map_map]
    exact (List.map_congr_left fun ls _ => congrArg Clause.literals (apply_empty ⟨ls⟩)).trans
      (List.map_id _)
  exact ⟨text, _, _, hnorm, hq.normalize hnorm, by rw [hlists]; exact hformula⟩

end Build

/-- The text of a rule, normal up to blanks at its ends. -/
theorem canonical_rule (a : String) {g : String} (hg : ∀ c ∈ g.toList, isWord c = true) :
    canonical (a ++ " ⇒ " ++ g).toList = canonical a.toList ++ ' ' :: '⇒' :: ' ' :: g.toList := by
  have hlist : (a ++ " ⇒ " ++ g).toList = a.toList ++ ' ' :: '⇒' :: ' ' :: g.toList := by
    simp [String.toList_append]
  have hplain : Formula.Plain (' ' :: '⇒' :: ' ' :: g.toList) := by
    intro c hc
    simp only [List.mem_cons] at hc
    rcases hc with rfl | rfl | rfl | hc
    · simp
    · simp
    · simp
    · exact .inl (hg c hc)
  rw [hlist, canonical_append _ (by simp), Formula.canonical_of_plain hplain]

theorem quantifierFree_rule {a g : String} (ha : QuantifierFree a.toList)
    (hg : ∀ c ∈ g.toList, isWord c = true) : QuantifierFree (a ++ " ⇒ " ++ g).toList := by
  have hnot : ∀ {c : Char}, c ∉ a.toList → isWord c = false → c ≠ ' ' → c ≠ '⇒' →
      c ∉ (a ++ " ⇒ " ++ g).toList := by
    intro c hc hword hspace harrow hmem
    simp only [String.toList_append, List.mem_append] at hmem
    rcases hmem with (hmem | hmem) | hmem
    · exact hc hmem
    · simp [hspace, harrow] at hmem
    · rw [hg c hmem] at hword
      cases hword
  exact ⟨hnot ha.1 (by decide) (by decide) (by decide),
    hnot ha.2 (by decide) (by decide) (by decide)⟩

/-- **The two readings of an accepted text.** Its clauses as a fact are its rows; as an
    antecedent it says that all literals of some column are true. -/
theorem readings_of_accepted {a g : String} (ha : QuantifierFree a.toList)
    (hg : IsName isWord isNameStart g) {b₁ b₁' b₂ b₂' : Builder} {facts rules : List Clause}
    (hfact : Build.sentence a b₁ = (.ok facts, b₁'))
    (hrule : Build.sentence (a ++ " ⇒ " ++ g) b₂ = (.ok rules, b₂')) :
    facts.map Clause.literals = rowLiterals (canonical a.toList) ∧
      ∀ τ, (∀ c ∈ rules, c.TrueIn τ) ↔
        ((∃ col ∈ colLiterals (canonical a.toList), ∀ l ∈ col, l.TrueIn τ) → τ g []) := by
  obtain ⟨_, s, t, hnorm, hq, hfact⟩ := Build.sentence_formula ha hfact
  obtain ⟨_, s', t', hnorm', hq', hrule⟩ :=
    Build.sentence_formula (quantifierFree_rule ha hg.1) hrule
  obtain ⟨_, hbalanced, _, rfl⟩ := normalize_iff.1 hnorm
  obtain ⟨_, _, _, rfl⟩ := normalize_iff.1 hnorm'
  rw [canonical_rule a hg.1] at hq' hrule
  have hsides := splitTop_unwrap_rule hbalanced hg.1
  have hlong : 1 < (splitTop '⇒' (canonical a.toList) ++ [g.toList]).length := by
    have := List.length_pos_iff.2 (splitTop_ne_nil '⇒' (canonical a.toList))
    rw [List.length_append, List.length_singleton]
    omega
  rw [← hsides] at hlong
  rcases Conversion.formula_cases hq' hrule with ⟨x, y, hcut, himp⟩ | ⟨hle, _⟩ | ⟨hle, _⟩
  · rw [hsides] at hcut
    obtain ⟨hfront, rfl⟩ : splitTop '⇒' (canonical a.toList) = [x] ∧ g.toList = y := by
      have h := List.append_inj' (show _ ++ [g.toList] = [x] ++ [y] from hcut) rfl
      exact ⟨h.1, List.singleton_inj.1 h.2⟩
    obtain rfl : Text.trim (canonical a.toList) = x := by
      rw [splitTop_eq_singleton (by rw [hfront]; simp)] at hfront
      exact List.singleton_inj.1 hfront
    have hqg : QuantifierFree g.toList := by
      refine (quantifierFree_rule ha hg.1).of_subset fun c hc => ?_
      simp [String.toList_append, hc]
    obtain ⟨hplain, hante⟩ := Conversion.implication_spells hq hqg himp
    have hrows := Conversion.pieces_spell hq hplain hfact hante
    have hcols : ∀ col ∈ cols (Text.trim (canonical a.toList)), ∀ p ∈ col, SpellsLiteral p := by
      intro col hcol p hp
      have hmem : p ∈ (rows (Text.trim (canonical a.toList))).flatten := by
        rw [(regrouped_rows _).flatten_eq]
        exact List.mem_flatten_of_mem hcol hp
      obtain ⟨row, hrow, hp⟩ := List.mem_flatten.1 hmem
      exact hrows row hrow p hp
    refine ⟨?_, fun τ => ?_⟩
    · rw [Conversion.clauses_eq_rowLiterals hq hplain hrows hfact, rowLiterals, rows, unwrap_trim]
      rfl
    · have hmeaning := (Conversion.implication_ok hq hqg himp).2 τ
      rw [antecedentHolds_iff hcols, consequentHolds_of_literal (readLiteral_name hg),
        List.forall_mem_map] at hmeaning
      rw [colLiterals, cols, unwrap_trim] at hmeaning
      refine hmeaning.symm.trans ?_
      simp [Literal.TrueIn, colLiterals, cols]
  · omega
  · omega

/-- A rule says of a name what it should: the name is true, or a clause of the fact is
    false. -/
def RuleFits (facts rules : List Clause) (g : String) (τ : Assignment) : Prop :=
  (∀ c ∈ rules, c.TrueIn τ) ↔ (τ g [] ∨ ∃ c ∈ facts, ¬ c.TrueIn τ)

/-- **A text as a fact and in front of an arrow.** Let a text without quantifiers be accepted
    in both places. The rule is never weaker than it should be. It says what it should when
    the text falls apart at one of the connectives only. When it falls apart at both, and no
    atom is repeated, some interpretation tells the two readings apart. -/
theorem fact_and_antecedent {a g : String} (ha : QuantifierFree a.toList)
    (hg : IsName isWord isNameStart g) {b₁ b₁' b₂ b₂' : Builder} {facts rules : List Clause}
    (hfact : Build.sentence a b₁ = (.ok facts, b₁'))
    (hrule : Build.sentence (a ++ " ⇒ " ++ g) b₂ = (.ok rules, b₂')) :
    (∀ (M : Structure.{u}) v, (∀ c ∈ rules, c.TrueIn (M.atoms v)) →
      M.atoms v g [] ∨ ∃ c ∈ facts, ¬ c.TrueIn (M.atoms v)) ∧
    (¬ Mixed (canonical a.toList) →
      ∀ (M : Structure.{u}) v, RuleFits facts rules g (M.atoms v)) ∧
    (Mixed (canonical a.toList) → ((facts.flatMap Clause.literals).map Literal.atom).Nodup →
      (∀ c ∈ facts, ∀ l ∈ c.literals, l.name ≠ g) →
      ∃ (M : Structure.{0}) (v : String → M.Domain), ¬ RuleFits facts rules g (M.atoms v)) := by
  obtain ⟨hrows, hmeaning⟩ := readings_of_accepted ha hg hfact hrule
  have hgroups : Regrouped (rowLiterals (canonical a.toList)) (colLiterals (canonical a.toList)) :=
    (regrouped_rows (canonical a.toList)).map literalOf
  -- a fact is false when some row has no true literal
  have hfalse : ∀ τ, (∃ c ∈ facts, ¬ c.TrueIn τ) ↔
      ¬ ∀ row ∈ rowLiterals (canonical a.toList), ∃ l ∈ row, l.TrueIn τ := by
    intro τ
    rw [← hrows, List.forall_mem_map]
    simp only [not_forall, exists_prop]
    exact Iff.rfl
  refine ⟨fun M v hall => ?_, fun hmixed M v => ?_, fun hmixed hatoms hname => ?_⟩
  · rw [hmeaning] at hall
    rw [hfalse, or_iff_not_imp_right, not_not]
    exact fun hall' => hall (hgroups.exists_col hall')
  · rw [mixed_iff, not_and_or, Nat.not_lt, Nat.not_lt] at hmixed
    rw [RuleFits, hmeaning, hfalse, hgroups.exists_col_iff hmixed]
    exact imp_iff_or_not
  · -- a row and a column without a common literal: the column is made true, the row false
    have hflat : facts.flatMap Clause.literals = (rowLiterals (canonical a.toList)).flatten := by
      rw [← hrows, List.flatMap_def]
    rw [hflat] at hatoms
    obtain ⟨hrowsMany, hcolsMany⟩ := mixed_iff.1 hmixed
    obtain ⟨row, hrow, col, hcol, hdisjoint⟩ :=
      hgroups.exists_disjoint hrowsMany hcolsMany hatoms.of_map
    obtain ⟨M, v, htrue, hnone⟩ := exists_trueIn_iff hatoms (· ∈ col)
    refine ⟨M, v, fun hfits => ?_⟩
    rw [RuleFits, hmeaning, hfalse] at hfits
    have hcoltrue : ∀ l ∈ col, l.TrueIn (M.atoms v) := fun l hl =>
      (htrue l (by rw [hgroups.flatten_eq]; exact List.mem_flatten_of_mem hcol hl)).2 hl
    have hrowfalse : ¬ ∀ row ∈ rowLiterals (canonical a.toList),
        ∃ l ∈ row, l.TrueIn (M.atoms v) := by
      intro hall
      obtain ⟨l, hl, hltrue⟩ := hall row hrow
      exact hdisjoint l hl ((htrue l (List.mem_flatten_of_mem hrow hl)).1 hltrue)
    refine hnone g [] (fun l hl => ?_) (hfits.2 (.inr hrowfalse) ⟨col, hcol, hcoltrue⟩)
    rw [← hflat, List.mem_flatMap] at hl
    obtain ⟨c, hc, hl⟩ := hl
    exact hname c hc l hl

/-- The clauses of a conjunction, and of a rule with it in front. -/
theorem fact_and_antecedent_conjunction :
    ∃ facts rules b b', Build.sentence "~P(x) & Q(A)" {} = (.ok facts, b) ∧
      Build.sentence "~P(x) & Q(A) ⇒ G" {} = (.ok rules, b') ∧
      ∀ (M : Structure.{0}) v, RuleFits facts rules "G" (M.atoms v) := by
  have hfact : Build.sentence "~P(x) & Q(A)" {} = (.ok
      [⟨[{ name := "P", args := [.var "x"], negated := true }]⟩,
        ⟨[{ name := "Q", args := [.const "A"] }]⟩],
      { symbols := ["P", "x", "Q", "A"] }) := eq_ok_of_toOption (by decide +kernel)
  have hrule : Build.sentence ("~P(x) & Q(A)" ++ " ⇒ " ++ "G") {} = (.ok
      [⟨[{ name := "P", args := [.var "x"] },
        { name := "Q", args := [.const "A"], negated := true }, { name := "G" }]⟩],
      { symbols := ["P", "x", "Q", "A", "G"] }) := eq_ok_of_toOption (by decide +kernel)
  exact ⟨_, _, _, _, hfact, hrule,
    (fact_and_antecedent (by decide) (by decide) hfact hrule).2.1 (by decide +kernel)⟩

/-- **Parentheses are needed:** `P ∧ Q ∨ R` is `P ∧ (Q ∨ R)` as a fact and `(P ∧ Q) ∨ R` in
    front of an arrow. Where only `R` is true, the fact is false and so is the rule. -/
theorem not_ruleFits_mixed :
    ∃ facts rules b b', Build.sentence "P ∧ Q ∨ R" {} = (.ok facts, b) ∧
      Build.sentence "P ∧ Q ∨ R ⇒ G" {} = (.ok rules, b') ∧
      ∃ (M : Structure.{0}) (v : String → M.Domain), ¬ RuleFits facts rules "G" (M.atoms v) := by
  have hfact : Build.sentence "P ∧ Q ∨ R" {} = (.ok
      [⟨[{ name := "P" }]⟩, ⟨[{ name := "Q" }, { name := "R" }]⟩],
      { symbols := ["P", "Q", "R"] }) := eq_ok_of_toOption (by decide +kernel)
  have hrule : Build.sentence "P ∧ Q ∨ R ⇒ G" {} = (.ok
      [⟨[{ name := "P", negated := true }, { name := "Q", negated := true }, { name := "G" }]⟩,
        ⟨[{ name := "R", negated := true }, { name := "G" }]⟩],
      { symbols := ["P", "Q", "R", "G"] }) := eq_ok_of_toOption (by decide +kernel)
  let τ : Assignment := fun name _ => name = "R"
  refine ⟨_, _, _, _, hfact, hrule, τ.toStructure, .var, ?_⟩
  rw [τ.atoms_toStructure, RuleFits]
  simp [Clause.TrueIn, Literal.TrueIn, τ]

end Refuter
