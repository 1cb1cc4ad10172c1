import Mathlib.Data.List.Forall2
import Mathlib.Tactic.Push
import Refuter.Builder.Basic
import Refuter.Proofs.Structure

/-! # What a sentence says

The meaning of a sentence without quantifiers, read off its text, and the proof
that its clauses say the same.

- A *fact* is a conjunction of disjunctions of literals; a conjunct may again be
  a sentence.
- An *implication* has a disjunction of conjunctions in front of the arrow and a
  conjunction of disjunctions behind it.
- A *query* is a conjunction of literals.

Nothing is negated or distributed here; that is what the conversion does, and
`Conversion.formula_ok` says that it keeps the meaning under every assignment.
-/

namespace Refuter

/-! ### Computations that succeed -/

section Succeeding

variable {ε σ α β : Type}

/-- **A sequence succeeds** when both of its parts do. -/
theorem bind_eq_ok {x : ExceptT ε (StateM σ) α} {f : α → ExceptT ε (StateM σ) β}
    {s s' : σ} {b : β} (h : (x >>= f) s = (.ok b, s')) :
    ∃ a t, x s = (.ok a, t) ∧ f a t = (.ok b, s') := by
  have hbind : (x >>= f) s = match x s with
      | (.ok a, t) => f a t
      | (.error e, t) => (.error e, t) := by
    show (match x s with | (r, t) => ExceptT.bindCont f r t) = _
    cases hx : x s with
    | mk r t => cases r <;> rfl
  rw [hbind] at h
  cases hx : x s with
  | mk r t =>
    rw [hx] at h
    cases r with
    | ok a => exact ⟨a, t, rfl, h⟩
    | error e => cases h

theorem pure_eq_ok {a b : α} {s s' : σ}
    (h : (pure a : ExceptT ε (StateM σ) α) s = (.ok b, s')) : a = b ∧ s = s' := by
  cases h
  exact ⟨rfl, rfl⟩

theorem throw_ne_ok {e : ε} {a : α} {s s' : σ} :
    (throw e : ExceptT ε (StateM σ) α) s ≠ (.ok a, s') := by
  intro h
  cases h

/-- **A computation for each entry:** what every one of them keeps of the state and
    gives for its entry holds of all together. -/
theorem mapM_eq_ok {f : α → ExceptT ε (StateM σ) β} {R : α → β → Prop} {I : σ → Prop}
    {l : List α} (step : ∀ a ∈ l, ∀ {s b t}, I s → f a s = (.ok b, t) → I t ∧ R a b) :
    ∀ {s bs t}, I s → l.mapM f s = (.ok bs, t) → I t ∧ List.Forall₂ R l bs := by
  induction l with
  | nil =>
    intro s bs t hs h
    rw [List.mapM_nil] at h
    obtain ⟨rfl, rfl⟩ := pure_eq_ok h
    exact ⟨hs, .nil⟩
  | cons a rest ih =>
    intro s bs t hs h
    rw [List.mapM_cons] at h
    obtain ⟨b, s₁, hb, h⟩ := bind_eq_ok h
    obtain ⟨bs', s₂, hbs, h⟩ := bind_eq_ok h
    obtain ⟨rfl, rfl⟩ := pure_eq_ok h
    obtain ⟨h₁, hR⟩ := step a (List.mem_cons_self ..) hs hb
    obtain ⟨h₂, hRs⟩ := ih (fun a ha => step a (List.mem_cons_of_mem _ ha)) h₁ hbs
    exact ⟨h₂, .cons hR hRs⟩

/-- A computation that goes on behind a check has passed it. -/
theorem guard_eq_ok {c : Prop} [Decidable c] {e : ε} {k : Unit → ExceptT ε (StateM σ) β}
    {s t : σ} {b : β} (h : (if c then throw e >>= k else k ()) s = (.ok b, t)) :
    ¬ c ∧ k () s = (.ok b, t) := by
  by_cases hc : c
  · rw [if_pos hc] at h
    obtain ⟨_, _, hthrow, _⟩ := bind_eq_ok h
    exact absurd hthrow throw_ne_ok
  · rw [if_neg hc] at h
    exact ⟨hc, h⟩

/-- Success can be seen without comparing errors. -/
theorem eq_ok_of_toOption {x : Except ε α × σ} {a : α} {s : σ}
    (h : (x.1.toOption, x.2) = (some a, s)) : x = (.ok a, s) := by
  obtain ⟨r, t⟩ := x
  cases r with
  | ok b => simpa [Except.toOption] using h
  | error e => simp [Except.toOption] at h

/-- Without a state, too. -/
theorem ok_of_toOption {x : Except ε α} {a : α} (h : x.toOption = some a) : x = .ok a := by
  cases x with
  | error e => cases h
  | ok b => exact congrArg _ (Option.some.inj h)

end Succeeding

theorem forall₂_exists_iff {α β : Type} {R : α → β → Prop} {P : α → Prop} {Q : β → Prop}
    {l : List α} {bs : List β} (h : List.Forall₂ R l bs) (hR : ∀ {a b}, R a b → (P a ↔ Q b)) :
    (∃ a ∈ l, P a) ↔ ∃ b ∈ bs, Q b := by
  induction h with
  | nil => simp
  | cons hab _ ih => simp [hR hab, ih]

theorem forall₂_forall_iff {α β : Type} {R : α → β → Prop} {P : α → Prop} {Q : β → Prop}
    {l : List α} {bs : List β} (h : List.Forall₂ R l bs) (hR : ∀ {a b}, R a b → (P a ↔ Q b)) :
    (∀ a ∈ l, P a) ↔ ∀ b ∈ bs, Q b := by
  induction h with
  | nil => simp
  | cons hab _ ih => simp [hR hab, ih]

namespace Sentence

open Text (trim)

/-! ### Meaning -/

/-- The literal that a text spells is true. -/
def literalHolds (τ : Assignment) (text : List Char) : Prop :=
  ∃ l, readLiteral false text = .ok l ∧ l.TrueIn τ

/-- Some literal of a disjunction is true. -/
def disjunctionHolds (τ : Assignment) (text : List Char) : Prop :=
  ∃ part ∈ splitTop '∨' (unwrap text), literalHolds τ (unwrap part)

/-- All literals of a conjunction are true. -/
def conjunctionHolds (τ : Assignment) (text : List Char) : Prop :=
  ∀ part ∈ splitTop '∧' (unwrap text), literalHolds τ part

/-- Some alternative in front of an arrow is true. -/
def antecedentHolds (τ : Assignment) (text : List Char) : Prop :=
  ∃ part ∈ splitTop '∨' (unwrap text), conjunctionHolds τ part

/-- All conjuncts behind an arrow are true. -/
def consequentHolds (τ : Assignment) (text : List Char) : Prop :=
  ∀ part ∈ splitTop '∧' (unwrap text), disjunctionHolds τ part

/-- A sentence without quantifiers is true. -/
def Holds (τ : Assignment) (text : List Char) : Prop :=
  match splitTop '⇒' (unwrap text) with
  | [antecedent, consequent] => antecedentHolds τ antecedent → consequentHolds τ consequent
  | _ =>
    if _h : 1 < (splitTop '∧' (unwrap text)).length then
      ∀ part, ∀ _hp : part ∈ splitTop '∧' (unwrap text), Holds τ part
    else disjunctionHolds τ (unwrap text)
termination_by text.length
decreasing_by
  exact Nat.lt_of_lt_of_le (length_lt_of_mem_splitTop _hp _h) (length_unwrap_le text)

theorem holds_of_arrow {τ : Assignment} {text a c : List Char}
    (h : splitTop '⇒' (unwrap text) = [a, c]) :
    Holds τ text ↔ (antecedentHolds τ a → consequentHolds τ c) := by
  rw [Holds, h]

theorem holds_of_no_arrow {τ : Assignment} {text : List Char}
    (h : (splitTop '⇒' (unwrap text)).length ≤ 1) :
    Holds τ text ↔ if 1 < (splitTop '∧' (unwrap text)).length then
      ∀ part ∈ splitTop '∧' (unwrap text), Holds τ part
      else disjunctionHolds τ (unwrap text) := by
  rw [Holds]
  split
  · rename_i a c hsplit
    simp [hsplit] at h
  · rfl

/-! ### Texts that are joined -/

theorem mem_of_mem_intercalate {sep : List Char} {ws : List (List Char)} {c : Char}
    (hc : c ∈ List.intercalate sep ws) : c ∈ sep ∨ ∃ w ∈ ws, c ∈ w := by
  induction ws with
  | nil => cases hc
  | cons w ws ih =>
    cases ws with
    | nil =>
      rw [List.intercalate_singleton] at hc
      exact .inr ⟨w, List.mem_cons_self .., hc⟩
    | cons w' ws =>
      rw [List.intercalate_cons_cons, List.mem_append, List.mem_append] at hc
      rcases hc with (hc | hc) | hc
      · exact .inr ⟨w, List.mem_cons_self .., hc⟩
      · exact .inl hc
      · refine (ih hc).imp id ?_
        rintro ⟨u, hu, hcu⟩
        exact ⟨u, List.mem_cons_of_mem _ hu, hcu⟩

/-- A part of a joined text, with what stands in front and behind. -/
theorem intercalate_decompose (sep : List Char) {w : List Char} {ws : List (List Char)}
    (hw : w ∈ ws) : ∃ front behind, List.intercalate sep ws = front ++ w ++ behind ∧
      (front = [] ∨ sep <:+ front) ∧ (behind = [] ∨ sep <+: behind) := by
  induction ws with
  | nil => cases hw
  | cons u rest ih =>
    cases rest with
    | nil =>
      obtain rfl := List.mem_singleton.1 hw
      exact ⟨[], [], by simp, .inl rfl, .inl rfl⟩
    | cons v rest =>
      rw [List.intercalate_cons_cons]
      rcases List.mem_cons.1 hw with rfl | hw
      · exact ⟨[], sep ++ List.intercalate sep (v :: rest), by simp, .inl rfl,
          .inr (List.prefix_append _ _)⟩
      · obtain ⟨front, behind, heq, hfront, hbehind⟩ := ih hw
        refine ⟨u ++ sep ++ front, behind, by simp [heq], ?_, hbehind⟩
        rcases hfront with rfl | hfront
        · exact .inr (by simp)
        · exact .inr (hfront.trans (List.suffix_append _ _))

theorem intercalate_consFirst (sep : List Char) (c : Char) {parts : List (List Char)}
    (h : parts ≠ []) :
    List.intercalate sep (consFirst c parts) = c :: List.intercalate sep parts := by
  cases parts with
  | nil => exact absurd rfl h
  | cons part rest =>
    cases rest with
    | nil => rw [consFirst, List.intercalate_singleton, List.intercalate_singleton]
    | cons part' rest =>
      rw [consFirst, List.intercalate_cons_cons, List.intercalate_cons_cons]
      rfl

/-- **Joining what was cut** gives the text back. -/
theorem intercalate_cutFrom (connective : Char) (text : List Char) : ∀ depth,
    List.intercalate [connective] (cutFrom connective depth text) = text := by
  induction text with
  | nil => exact fun _ => rfl
  | cons c rest ih =>
    intro depth
    have kept : ∀ depth', List.intercalate [connective]
        (consFirst c (cutFrom connective depth' rest)) = c :: rest := by
      intro depth'
      rw [intercalate_consFirst _ _ (cutFrom_ne_nil _ _ _), ih]
    simp only [cutFrom]
    split
    · exact kept _
    · split
      · exact kept _
      · split
        · rename_i hcut
          cases hparts : cutFrom connective depth rest with
          | nil => exact absurd hparts (cutFrom_ne_nil _ _ _)
          | cons part parts =>
            rw [List.intercalate_cons_cons, ← hparts, ih, hcut.1]
            rfl
        · exact kept _

/-- A part is a stretch of the text. -/
theorem isInfix_of_mem_cutFrom {connective : Char} {depth : Int} {text part : List Char}
    (h : part ∈ cutFrom connective depth text) : part <:+: text := by
  obtain ⟨front, behind, htext, _⟩ := intercalate_decompose [connective] h
  rw [intercalate_cutFrom] at htext
  exact ⟨front, behind, htext.symm⟩

/-! ### Characters of parts -/

/-- No quantifier is written in a text. -/
def QuantifierFree (text : List Char) : Prop :=
  '∀' ∉ text ∧ '∃' ∉ text

instance : DecidablePred QuantifierFree := fun text =>
  inferInstanceAs (Decidable ('∀' ∉ text ∧ '∃' ∉ text))

/-- A text made of characters of another. -/
theorem QuantifierFree.of_subset {text part : List Char} (h : QuantifierFree text)
    (hsub : part ⊆ text) : QuantifierFree part :=
  ⟨fun hmem => h.1 (hsub hmem), fun hmem => h.2 (hsub hmem)⟩

theorem trim_subset (text : List Char) : trim text ⊆ text := by
  intro c hc
  rw [trim, Text.trimRight, List.mem_reverse] at hc
  have hc := (List.dropWhile_sublist _).subset hc
  rw [List.mem_reverse] at hc
  exact (List.dropWhile_sublist _).subset hc

theorem inside?_subset {text inner : List Char} (h : inside? text = some inner) :
    inner ⊆ text := by
  unfold inside? at h
  split at h
  · split at h
    · obtain rfl := Option.some.inj h
      exact fun c hc => List.mem_cons_of_mem _ ((List.dropLast_sublist _).subset hc)
    · cases h
  · cases h

theorem unwrap_subset (text : List Char) : unwrap text ⊆ text := by
  fun_induction unwrap text with
  | case1 text inner h ih => exact fun c hc => trim_subset text (inside?_subset h (ih hc))
  | case2 text h => exact trim_subset text

theorem subset_of_mem_splitTop {connective : Char} {text part : List Char}
    (h : part ∈ splitTop connective text) : part ⊆ text := by
  obtain ⟨raw, hraw, rfl⟩ := List.mem_map.1 h
  exact fun c hc => (isInfix_of_mem_cutFrom hraw).subset (trim_subset raw hc)

theorem QuantifierFree.unwrap {text : List Char} (h : QuantifierFree text) :
    QuantifierFree (unwrap text) :=
  h.of_subset (unwrap_subset text)

theorem QuantifierFree.part {connective : Char} {text part : List Char} (h : QuantifierFree text)
    (hpart : part ∈ splitTop connective text) : QuantifierFree part :=
  h.of_subset (subset_of_mem_splitTop hpart)

/-- **Without quantifiers nothing leads:** only parentheses are taken off. -/
theorem QuantifierFree.leading_eq {text : List Char} (h : QuantifierFree text) :
    leading text = ([], Sentence.unwrap text) := by
  have hnone : block? (Sentence.unwrap text) = none := by
    have hfree := h.unwrap
    cases hbody : Sentence.unwrap text with
    | nil => rfl
    | cons c rest =>
      rw [hbody] at hfree
      have hmarker : marker? c = none := by
        unfold marker?
        split
        · exact absurd (List.mem_cons_self ..) hfree.1
        · exact absurd (List.mem_cons_self ..) hfree.2
        · rfl
      simp [block?, hmarker]
  rw [leading]
  split
  · rfl
  · rename_i heq
    rw [hnone] at heq
    cases heq

/-! ### Signs -/

theorem polarity_not (negated : Bool) (text : List Char) :
    polarity (!negated) text = (!(polarity negated text).1, (polarity negated text).2) := by
  fun_induction polarity negated text with
  | case1 negated text rest h ih =>
    rw [polarity]
    split
    · rename_i rest' h'
      rw [h] at h'
      obtain rfl : rest = rest' := by simpa using h'
      exact ih
    · rename_i hne
      exact absurd h (hne rest)
  | case2 negated text hne =>
    rw [polarity]
    split
    · rename_i rest h'
      exact absurd h' (hne rest)
    · rfl

/-- **Signs from outside:** what surrounds a literal negates what it spells. -/
theorem readLiteral_not (negated : Bool) (text : List Char) :
    readLiteral (!negated) text = (readLiteral negated text).map Literal.negate := by
  simp only [readLiteral, polarity_not]
  split
  · rfl
  · split
    · rfl
    · split
      · rfl
      · rename_i name args _
        cases args with
        | none => rfl
        | some text =>
          simp only
          cases readArgs text with
          | error e => rfl
          | ok terms => rfl

/-- A literal read under a negation is true exactly when the one spelt is not. -/
theorem literalHolds_iff_of_negated {τ : Assignment} {text : List Char} {l : Literal}
    (h : readLiteral true text = .ok l) : literalHolds τ text ↔ ¬ l.TrueIn τ := by
  have hfalse : readLiteral false text = .ok l.negate := by
    have hnot := readLiteral_not true text
    rw [h] at hnot
    exact hnot
  rw [literalHolds, hfalse, ← Literal.trueIn_negate]
  simp

theorem literalHolds_iff {τ : Assignment} {text : List Char} {l : Literal}
    (h : readLiteral false text = .ok l) : literalHolds τ text ↔ l.TrueIn τ := by
  rw [literalHolds, h]
  simp

end Sentence

/-! ### The conversion keeps the meaning -/

open Sentence

namespace Conversion

variable {s t : Scope}

/-- Without quantifiers no scope is entered. -/
theorem enter_nil {marker : Marker} {inScope b : Bool}
    (h : enter marker inScope [] s = (.ok b, t)) :
    inScope = b ∧ s = t :=
  pure_eq_ok h

theorem literal_ok {negated : Bool} {text : List Char} {l : Literal}
    (h : literal negated text s = (.ok l, t)) : s = t ∧ readLiteral negated text = .ok l := by
  rw [literal] at h
  cases hread : readLiteral negated text with
  | ok l' =>
    rw [hread] at h
    obtain ⟨rfl, rfl⟩ := pure_eq_ok h
    exact ⟨rfl, rfl⟩
  | error fault =>
    rw [hread] at h
    exact absurd h throw_ne_ok

theorem disjunct_ok {inScope : Bool} {text : List Char} {l : Literal}
    (hq : QuantifierFree text) (h : disjunct inScope text s = (.ok l, t)) :
    s = t ∧ readLiteral false (unwrap text) = .ok l := by
  rw [disjunct, hq.leading_eq] at h
  obtain ⟨_, _, henter, hbody⟩ := bind_eq_ok h
  obtain ⟨rfl, rfl⟩ := enter_nil henter
  exact literal_ok (guard_eq_ok hbody).2

theorem disjunction_ok {inScope : Bool} {text : List Char} {ls : List Literal}
    (hq : QuantifierFree text) (h : disjunction inScope text s = (.ok ls, t)) :
    s = t ∧ ∀ τ, disjunctionHolds τ text ↔ Clause.TrueIn τ ⟨ls⟩ := by
  rw [disjunction, hq.leading_eq] at h
  obtain ⟨_, _, henter, hparts⟩ := bind_eq_ok h
  obtain ⟨rfl, rfl⟩ := enter_nil henter
  obtain ⟨ht, hread⟩ := mapM_eq_ok (I := (s = ·))
    (R := fun part l => readLiteral false (unwrap part) = .ok l)
    (fun part hpart _ _ _ hs hl => by
      obtain ⟨rfl, hread⟩ := disjunct_ok (hq.unwrap.part hpart) hl
      exact ⟨hs, hread⟩) rfl hparts
  exact ⟨ht, fun τ => forall₂_exists_iff hread literalHolds_iff⟩

/-- An alternative is negated as a whole: its clause is false when it is true. -/
theorem premise_ok {text : List Char} {ls : List Literal} (h : premise text s = (.ok ls, t)) :
    s = t ∧ ∀ τ, conjunctionHolds τ text ↔ ¬ Clause.TrueIn τ ⟨ls⟩ := by
  obtain ⟨ht, hread⟩ := mapM_eq_ok (I := (s = ·))
    (R := fun part l => readLiteral true part = .ok l)
    (fun part _ _ _ _ hs hl => by
      obtain ⟨rfl, hread⟩ := literal_ok hl
      exact ⟨hs, hread⟩) rfl h
  refine ⟨ht, fun τ => ?_⟩
  rw [conjunctionHolds, forall₂_forall_iff hread literalHolds_iff_of_negated]
  simp [Clause.TrueIn]

theorem checkSide_ok {text : List Char} {u : Unit} (h : checkSide text s = (.ok u, t)) : s = t := by
  rw [checkSide] at h
  obtain ⟨_, hnested⟩ := guard_eq_ok h
  by_cases hc : 1 < (splitTop '⇒' text).length
  · simp only [hc, if_true] at hnested
    exact absurd hnested throw_ne_ok
  · simp only [hc, if_false] at hnested
    exact (pure_eq_ok hnested).2

/-- **Implications** give a clause for each alternative and each conjunct. -/
theorem implication_ok {inScope : Bool} {a c : List Char} {cls : List (List Literal)}
    (ha : QuantifierFree a) (hc : QuantifierFree c)
    (h : implication inScope a c s = (.ok cls, t)) :
    s = t ∧ ∀ τ, (antecedentHolds τ a → consequentHolds τ c) ↔
      ∀ ls ∈ cls, Clause.TrueIn τ ⟨ls⟩ := by
  rw [implication, ha.leading_eq, hc.leading_eq] at h
  -- stage by stage: entering and checking both sides changes no scope
  obtain ⟨_, _, henter, h₁⟩ := bind_eq_ok h
  obtain ⟨rfl, rfl⟩ := enter_nil henter
  obtain ⟨_, _, henter, h₂⟩ := bind_eq_ok h₁
  obtain ⟨rfl, rfl⟩ := enter_nil henter
  obtain ⟨_, _, hside, h₃⟩ := bind_eq_ok h₂
  obtain rfl := checkSide_ok hside
  obtain ⟨_, _, hside, h₄⟩ := bind_eq_ok h₃
  obtain rfl := checkSide_ok hside
  obtain ⟨premises, _, hprem, h₅⟩ := bind_eq_ok h₄
  obtain ⟨conclusions, _, hconc, h₆⟩ := bind_eq_ok h₅
  obtain ⟨rfl, rfl⟩ := pure_eq_ok h₆
  obtain ⟨rfl, hpremises⟩ := mapM_eq_ok (I := (s = ·))
    (R := fun part ls => ∀ τ, conjunctionHolds τ part ↔ ¬ Clause.TrueIn τ ⟨ls⟩)
    (fun part _ _ _ _ hs hl => by
      obtain ⟨rfl, hread⟩ := premise_ok hl
      exact ⟨hs, hread⟩) rfl hprem
  obtain ⟨ht, hconclusions⟩ := mapM_eq_ok (I := (s = ·))
    (R := fun part ls => ∀ τ, disjunctionHolds τ part ↔ Clause.TrueIn τ ⟨ls⟩)
    (fun part hpart _ _ _ hs hl => by
      obtain ⟨rfl, hread⟩ := disjunction_ok (hc.unwrap.part hpart) hl
      exact ⟨hs, hread⟩) rfl hconc
  refine ⟨ht, fun τ => ?_⟩
  rw [antecedentHolds, consequentHolds, forall₂_exists_iff hpremises fun hR => hR τ,
    forall₂_forall_iff hconclusions fun hR => hR τ]
  -- the negated alternative and the conjunct make up one clause
  have happend : ∀ p c : List Literal,
      Clause.TrueIn τ ⟨p ++ c⟩ ↔ (¬ Clause.TrueIn τ ⟨p⟩ → Clause.TrueIn τ ⟨c⟩) := by
    intro p c
    rw [← or_iff_not_imp_left]
    simp only [Clause.TrueIn, List.mem_append, or_and_right, exists_or]
  simp only [List.mem_flatMap, List.mem_map]
  constructor
  · rintro himp _ ⟨p, hp, c, hc, rfl⟩
    exact (happend p c).2 fun hfalse => himp ⟨p, hp, hfalse⟩ c hc
  · rintro hall ⟨p, hp, hfalse⟩ c hc
    exact (happend p c).1 (hall _ ⟨p, hp, c, hc, rfl⟩) hfalse

/-- **What a conversion can be:** an implication, a conjunction of sentences or a
    single disjunction. -/
theorem formula_cases {inScope : Bool} {text : List Char} {cls : List (List Literal)}
    (hq : QuantifierFree text) (h : formula inScope text s = (.ok cls, t)) :
    (∃ a c, splitTop '⇒' (unwrap text) = [a, c] ∧ implication inScope a c s = (.ok cls, t)) ∨
    ((splitTop '⇒' (unwrap text)).length ≤ 1 ∧ 1 < (splitTop '∧' (unwrap text)).length ∧
      ∃ lists, (splitTop '∧' (unwrap text)).attach.mapM (fun part => formula inScope part.1) s
        = (.ok lists, t) ∧ cls = lists.flatten) ∨
    ((splitTop '⇒' (unwrap text)).length ≤ 1 ∧ ¬ 1 < (splitTop '∧' (unwrap text)).length ∧
      ∃ ls, disjunction inScope (unwrap text) s = (.ok ls, t) ∧ cls = [ls]) := by
  rw [formula, hq.leading_eq] at h
  obtain ⟨_, _, henter, h₁⟩ := bind_eq_ok h
  obtain ⟨rfl, rfl⟩ := enter_nil henter
  obtain ⟨_, h₂⟩ := guard_eq_ok h₁
  dsimp only at h₂
  -- what happens when there is no arrow
  have fact : ∀ {x : Conversion (List (List Literal))},
      (x = if _h : 1 < (splitTop '∧' (unwrap text)).length then do
          return (← (splitTop '∧' (unwrap text)).attach.mapM
            fun part => formula inScope part.1).flatten
        else do return [← disjunction inScope (unwrap text)]) → x s = (.ok cls, t) →
      (1 < (splitTop '∧' (unwrap text)).length ∧
        ∃ lists, (splitTop '∧' (unwrap text)).attach.mapM (fun part => formula inScope part.1) s
          = (.ok lists, t) ∧ cls = lists.flatten) ∨
      (¬ 1 < (splitTop '∧' (unwrap text)).length ∧
        ∃ ls, disjunction inScope (unwrap text) s = (.ok ls, t) ∧ cls = [ls]) := by
    rintro _ rfl hx
    by_cases hc : 1 < (splitTop '∧' (unwrap text)).length
    · rw [dif_pos hc] at hx
      obtain ⟨lists, _, hlists, hpure⟩ := bind_eq_ok hx
      obtain ⟨rfl, rfl⟩ := pure_eq_ok hpure
      exact .inl ⟨hc, lists, hlists, rfl⟩
    · rw [dif_neg hc] at hx
      obtain ⟨ls, _, hls, hpure⟩ := bind_eq_ok hx
      obtain ⟨rfl, rfl⟩ := pure_eq_ok hpure
      exact .inr ⟨hc, ls, hls, rfl⟩
  match hsplit : splitTop '⇒' (unwrap text) with
  | [] =>
    rw [hsplit] at h₂
    exact .inr ((fact rfl h₂).imp (fun h => ⟨Nat.zero_le _, h⟩) fun h => ⟨Nat.zero_le _, h⟩)
  | [a] =>
    rw [hsplit] at h₂
    exact .inr ((fact rfl h₂).imp (fun h => ⟨Nat.le_refl _, h⟩) fun h => ⟨Nat.le_refl _, h⟩)
  | [a, c] =>
    rw [hsplit] at h₂
    exact .inl ⟨a, c, rfl, h₂⟩
  | a :: b :: c :: rest =>
    -- two arrows are refused
    rw [hsplit] at h₂
    exact absurd h₂ throw_ne_ok

/-- **The clauses say what the sentence says,** under every assignment, and no
    Skolem constant was made. -/
theorem formula_ok {inScope : Bool} {text : List Char} {cls : List (List Literal)}
    (hq : QuantifierFree text) (h : formula inScope text s = (.ok cls, t)) :
    s = t ∧ ∀ τ, Holds τ text ↔ ∀ ls ∈ cls, Clause.TrueIn τ ⟨ls⟩ := by
  -- by strong induction on the length, as the conversion itself
  induction hn : text.length using Nat.strongRecOn generalizing inScope text cls s t with
  | ind n ih =>
    subst hn
    have hbody := hq.unwrap
    rcases formula_cases hq h with ⟨a, c, hsplit, himp⟩ | ⟨hfact, hc, lists, hlists, rfl⟩ |
      ⟨hfact, hc, ls, hls, rfl⟩
    · have ha : a ∈ splitTop '⇒' (unwrap text) := by simp [hsplit]
      have hc : c ∈ splitTop '⇒' (unwrap text) := by simp [hsplit]
      obtain ⟨ht, hmeaning⟩ := implication_ok (hbody.part ha) (hbody.part hc) himp
      exact ⟨ht, fun τ => (holds_of_arrow hsplit).trans (hmeaning τ)⟩
    · obtain ⟨ht, hparts⟩ := mapM_eq_ok (I := (s = ·))
        (R := fun part cls => ∀ τ, Holds τ part.1 ↔ ∀ ls ∈ cls, Clause.TrueIn τ ⟨ls⟩)
        (fun part _ _ _ _ hs hl => by
          -- a conjunct is shorter than the sentence it is taken from
          have hless := Nat.lt_of_lt_of_le (length_lt_of_mem_splitTop part.2 hc)
            (length_unwrap_le text)
          obtain ⟨rfl, hmeaning⟩ := ih _ hless (hbody.part part.2) hl rfl
          exact ⟨hs, hmeaning⟩) rfl hlists
      refine ⟨ht, fun τ => ?_⟩
      have hiff := forall₂_forall_iff hparts fun hR => hR τ
      simp only [List.mem_attach, forall_const, Subtype.forall] at hiff
      rw [holds_of_no_arrow hfact, if_pos hc, hiff]
      simp only [List.mem_flatten, forall_exists_index, and_imp]
      exact ⟨fun hall ls cls hcls hls => hall cls hcls ls hls,
        fun hall cls hcls ls hls => hall ls cls hcls hls⟩
    · obtain ⟨ht, hmeaning⟩ := disjunction_ok hbody hls
      refine ⟨ht, fun τ => ?_⟩
      rw [holds_of_no_arrow hfact, if_neg hc, hmeaning τ]
      simp

end Conversion

/-- A query is negated like an alternative. -/
theorem Build.queryLiterals_ok {s t : Scope} {text : List Char} {ls : List Literal}
    (hq : QuantifierFree text) (h : queryLiterals text s = (.ok ls, t)) :
    s = t ∧ ∀ τ, conjunctionHolds τ text ↔ ¬ Clause.TrueIn τ ⟨ls⟩ := by
  rw [queryLiterals, hq.leading_eq] at h
  obtain ⟨_, _, henter, hbody⟩ := bind_eq_ok h
  obtain ⟨rfl, rfl⟩ := Conversion.enter_nil henter
  exact Conversion.premise_ok (guard_eq_ok hbody).2

/-! ### Normal forms -/

namespace Sentence

/-- The symbols that spellings are replaced by. -/
theorem symbolOf_eq (c : Char) : symbolOf c = c ∨ symbolOf c ∈ ['⇒', '∧', '∨', '¬'] := by
  unfold symbolOf
  split
  · simp
  · simp
  · simp
  · simp
  · simp
  · exact .inl rfl

theorem mem_canonical {text : List Char} {c : Char} (h : c ∈ canonical text) :
    c ∈ text ∨ c ∈ ['⇒', '∧', '∨', '¬'] := by
  fun_induction canonical text with
  | case1 => cases h
  | case2 rest ih =>
    rcases List.mem_cons.1 h with rfl | h
    · exact .inr (by simp)
    · exact (ih h).imp (fun h => by simp [h]) id
  | case3 rest ih =>
    rcases List.mem_cons.1 h with rfl | h
    · exact .inr (by simp)
    · exact (ih h).imp (fun h => by simp [h]) id
  | case4 d rest _ _ ih =>
    rcases List.mem_cons.1 h with rfl | h
    · rcases symbolOf_eq d with hd | hd
      · exact .inl (by simp [hd])
      · exact .inr hd
    · exact (ih h).imp (List.mem_cons_of_mem _) id

/-- Normalising writes no quantifier. -/
theorem QuantifierFree.normalize {sentence : String} {text : List Char}
    (h : QuantifierFree sentence.toList) (hnorm : Sentence.normalize sentence = .ok text) :
    QuantifierFree text := by
  have hcanonical : QuantifierFree (canonical sentence.toList) :=
    ⟨fun hmem => (mem_canonical hmem).elim h.1 (by decide),
      fun hmem => (mem_canonical hmem).elim h.2 (by decide)⟩
  unfold Sentence.normalize at hnorm
  dsimp only at hnorm
  split at hnorm
  · cases hnorm
  · split at hnorm
    · cases hnorm
    · split at hnorm
      · cases hnorm
      · obtain rfl := Except.ok.inj hnorm
        exact hcanonical.of_subset (trim_subset _)

end Sentence

end Refuter
