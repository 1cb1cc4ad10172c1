import Refuter.Proofs.Conversion
import Refuter.Proofs.Cutting
import Refuter.Proofs.Entailment

/-! # Free notation

A formula without quantifiers may be written in many ways: connectives have several
spellings, blanks may stand between any two parts, and parentheses may be put around any
part and must be put around every compound one. All these texts spell the formula.

- `Writes` says which texts they are. It is stated for any set of spellings: the ones that
  may be used, and the canonical ones that are left once a text is normal.
- Normalising a text gives one in canonical spelling (`Writes.canonical`), and such a text
  is read as the formula that it was written for (`Writes.parse_eq`).

**Why the cuts fall between the operands.** An operand is a literal or stands in
parentheses, with blanks around it. So nothing in it is cut (`Writes.solid`), and the cuts
are at the connectives that join the operands.
-/

namespace Refuter

universe u

open Sentence Formula

/-! ### Texts -/

namespace Sentence

/-- The ways to write each symbol. -/
def spellings : Char → List (List Char)
  | '⇒' => [['⇒'], ['=', '>'], ['-', '>'], ['→']]
  | '∧' => [['∧'], ['&']]
  | '∨' => [['∨'], ['|']]
  | '¬' => [['¬'], ['~'], ['!']]
  | c => [[c]]

/-- The canonical way to write each symbol. -/
def canonicalSpelling (c : Char) : List (List Char) :=
  [[c]]

/-- A text lists terms between commas, with blanks around them. -/
inductive ArgsText : List Term → List Char → Prop where
  /-- There is none. -/
  | none {text : List Char} (blank : Blank text) : ArgsText [] text
  /-- There is one. -/
  | one {t : Term} {front behind : List Char} (legal : t.Legal) (hfront : Blank front)
      (hbehind : Blank behind) : ArgsText [t] (front ++ t.name.toList ++ behind)
  /-- There are more behind a comma. -/
  | more {t u : Term} {ts : List Term} {front behind text : List Char} (legal : t.Legal)
      (hfront : Blank front) (hbehind : Blank behind) (rest : ArgsText (u :: ts) text) :
      ArgsText (t :: u :: ts) (front ++ t.name.toList ++ behind ++ ',' :: text)

/-- A text spells an atom. -/
inductive AtomText (name : String) : List Term → List Char → Prop where
  /-- Without parentheses. -/
  | bare : AtomText name [] name.toList
  /-- With arguments, or none, in parentheses. -/
  | applied {ts : List Term} {gap text : List Char} (hgap : Blank gap) (args : ArgsText ts text) :
      AtomText name ts (name.toList ++ gap ++ ('(' :: text ++ [')']))

end Sentence

/-- A formula behind a connective. -/
structure Operand where
  /-- The formula. -/
  formula : Formula
  /-- The connective as it is written. -/
  symbol : List Char
  /-- The formula as it is written. -/
  text : List Char

/-- The text behind the first operand. -/
def Operand.join (rest : List Operand) : List Char :=
  rest.flatMap fun o => o.symbol ++ o.text

/-- A text spells a formula, and `closed` tells that it may stand as an operand. -/
inductive Writes (spelled : Char → List (List Char)) : Bool → Formula → List Char → Prop where
  /-- An atom. -/
  | atom {name : String} {ts : List Term} {text : List Char}
      (hname : IsName isWord isNameStart name) (atom : AtomText name ts text) :
      Writes spelled true (.literal { name, args := ts }) text
  /-- A literal behind a sign. -/
  | not {l : Literal} {sign text : List Char} (hsign : sign ∈ spelled '¬')
      (inner : Writes spelled true (.literal l) text) :
      Writes spelled true (.literal l.negate) (sign ++ text)
  /-- Operands with a connective between them. -/
  | joined {j : Junctor} {F : Formula} {text : List Char} {rest : List Operand}
      (several : rest ≠ []) (first : Writes spelled true F text)
      (symbols : ∀ o ∈ rest, o.symbol ∈ spelled j.symbol)
      (others : ∀ o ∈ rest, Writes spelled true o.formula o.text) :
      Writes spelled false (.joined j (F :: rest.map (·.formula))) (text ++ Operand.join rest)
  /-- Operands with an arrow between them. -/
  | implies {A C : Formula} {arrow a c : List Char} (harrow : arrow ∈ spelled '⇒')
      (antecedent : Writes spelled true A a) (consequent : Writes spelled true C c) :
      Writes spelled false (.implies A C) (a ++ arrow ++ c)
  /-- Parentheses around the whole. -/
  | group {closed : Bool} {F : Formula} {text : List Char} (inner : Writes spelled closed F text) :
      Writes spelled true F ('(' :: text ++ [')'])
  /-- Blanks around the whole. -/
  | pad {closed : Bool} {F : Formula} {front text behind : List Char} (hfront : Blank front)
      (hbehind : Blank behind) (inner : Writes spelled closed F text) :
      Writes spelled closed F (front ++ text ++ behind)

/-! ### Properties of all texts -/

theorem symbol_mem (j : Junctor) : j.symbol ∈ ['⇒', '∧', '∨', '¬'] := by
  cases j <;> decide

/-- A property that a text inherits from its pieces. -/
structure Inherited (P : List Char → Prop) : Prop where
  append : ∀ {a b}, P a → P b → P (a ++ b)
  group : ∀ {text}, P text → P ('(' :: text ++ [')'])
  word : ∀ {text}, (∀ c ∈ text, isWord c = true) → P text
  blank : ∀ {text}, Blank text → P text
  comma : P [',']

namespace Inherited

variable {P : List Char → Prop} (hP : Inherited P)
include hP

theorem args {ts : List Term} {text : List Char} (h : ArgsText ts text) : P text := by
  induction h with
  | none hblank => exact hP.blank hblank
  | one legal hfront hbehind =>
    exact hP.append (hP.append (hP.blank hfront) (hP.word legal.1)) (hP.blank hbehind)
  | more legal hfront hbehind _ ih =>
    exact hP.append (hP.append (hP.append (hP.blank hfront) (hP.word legal.1)) (hP.blank hbehind))
      (hP.append hP.comma ih)

theorem atom {name : String} (hname : IsName isWord isNameStart name) {ts : List Term}
    {text : List Char} (h : AtomText name ts text) : P text := by
  cases h with
  | bare => exact hP.word hname.1
  | applied hgap args =>
    exact hP.append (hP.append (hP.word hname.1) (hP.blank hgap)) (hP.group (hP.args args))

theorem join {rest : List Operand} (h : ∀ o ∈ rest, P o.symbol ∧ P o.text) :
    P (Operand.join rest) := by
  induction rest with
  | nil => exact hP.blank (List.forall_mem_nil _)
  | cons o rest ih =>
    rw [List.forall_mem_cons] at h
    exact hP.append (hP.append h.1.1 h.1.2) (ih h.2)

/-- **What the pieces have, the text has.** -/
theorem writes {spelled : Char → List (List Char)}
    (symbol : ∀ c ∈ ['⇒', '∧', '∨', '¬'], ∀ text ∈ spelled c, P text) {closed : Bool}
    {F : Formula} {text : List Char} (h : Writes spelled closed F text) : P text := by
  induction h with
  | atom hname atom => exact hP.atom hname atom
  | not hsign _ ih => exact hP.append (symbol _ (by decide) _ hsign) ih
  | @joined j F text rest _ _ symbols _ ih ihrest =>
    exact hP.append ih (hP.join fun o ho => ⟨symbol _ (symbol_mem j) _ (symbols o ho), ihrest o ho⟩)
  | implies harrow _ _ iha ihc =>
    exact hP.append (hP.append iha (symbol _ (by decide) _ harrow)) ihc
  | group _ ih => exact hP.group ih
  | pad hfront hbehind _ ih => exact hP.append (hP.append (hP.blank hfront) ih) (hP.blank hbehind)

end Inherited

/-- Characters that are neither in words nor blanks, parentheses or commas stand in a text
    only if they stand in its symbols. -/
theorem inherited_not_mem {l : List Char}
    (h : l.all (fun c => !isWord c && !Text.isBlank c && !(['(', ')', ','].contains c)) = true) :
    Inherited fun text => ∀ c ∈ text, c ∉ l := by
  have hnone : ∀ c ∈ l, isWord c = false ∧ Text.isBlank c = false ∧ c ∉ ['(', ')', ','] := by
    intro c hc
    simpa [and_assoc] using List.all_eq_true.1 h c hc
  refine ⟨fun ha hb => List.forall_mem_append.2 ⟨ha, hb⟩, fun htext => ?_,
    fun hword c hc hmem => ?_, fun hblank c hc hmem => ?_, List.forall_mem_singleton.2 fun hmem => ?_⟩
  · rw [List.cons_append, List.forall_mem_cons, List.forall_mem_append, List.forall_mem_singleton]
    exact ⟨fun hmem => (hnone _ hmem).2.2 (by decide), htext,
      fun hmem => (hnone _ hmem).2.2 (by decide)⟩
  · have := hword c hc
    rw [(hnone c hmem).1] at this
    cases this
  · have := hblank c hc
    rw [(hnone c hmem).2.1] at this
    cases this
  · exact (hnone _ hmem).2.2 (by decide)

theorem inherited_grouped : Inherited Grouped where
  append := Grouped.append
  group := Grouped.wrapped
  word h := .of_plain fun c hc => ⟨isWord_ne (h c hc) (by decide), isWord_ne (h c hc) (by decide)⟩
  blank h := .of_plain fun c hc => by
    have hne : ∀ {d : Char}, Text.isBlank d = false → c ≠ d := by
      rintro d hd rfl
      rw [h c hc] at hd
      cases hd
    exact ⟨hne (by decide), hne (by decide)⟩
  comma := .of_plain (by simp)

/-- The first character ends no spelling. -/
theorem inherited_head : Inherited fun text => text.head? ≠ some '>' where
  append ha hb := by
    rw [List.head?_append]
    cases h : List.head? _ with
    | none => exact hb
    | some c => rwa [h] at ha
  group _ := by simp
  word h hhead := absurd (h _ (List.mem_of_mem_head? hhead)) (by decide)
  blank h hhead := absurd (h _ (List.mem_of_mem_head? hhead)) (by decide)
  comma := by decide

/-! ### Canonical spelling -/

/-- A text without the characters that are spelled anew stays as it is. -/
theorem Sentence.canonical_eq_self {text : List Char}
    (h : ∀ c ∈ text, c ∉ ['=', '-', '→', '&', '|', '~', '!']) : canonical text = text := by
  fun_induction canonical text with
  | case1 => rfl
  | case2 rest _ => exact absurd (by decide) (h '=' (List.mem_cons_self ..))
  | case3 rest _ => exact absurd (by decide) (h '-' (List.mem_cons_self ..))
  | case4 c rest _ _ ih =>
    have hsymbol : symbolOf c = c := by
      have hc := h c (List.mem_cons_self ..)
      unfold symbolOf
      split
      case h_6 => rfl
      all_goals exact absurd (by decide) hc
    rw [hsymbol, ih fun d hd => h d (List.mem_cons_of_mem _ hd)]

/-- **Every spelling of a symbol** becomes the symbol. -/
theorem Sentence.canonical_spelling : ∀ c ∈ ['⇒', '∧', '∨', '¬'], ∀ text ∈ spellings c,
    canonical text = [c] ∧ text.head? ≠ some '>' := by
  simp [spellings, canonical, symbolOf]

/-- Words, blanks, parentheses and commas are not spelled anew. -/
theorem inherited_unspelled :
    Inherited fun text => ∀ c ∈ text, c ∉ ['=', '-', '→', '&', '|', '~', '!'] :=
  inherited_not_mem (by decide)

namespace Writes

variable {closed : Bool} {F : Formula} {text : List Char}

/-- No text begins in the middle of a spelling. -/
theorem head_ne (h : Writes spellings closed F text) : text.head? ≠ some '>' :=
  inherited_head.writes (fun c hc text htext => (canonical_spelling c hc text htext).2) h

end Writes

section Join

variable {j : Junctor}

theorem head_join {rest : List Operand} (symbols : ∀ o ∈ rest, o.symbol ∈ spellings j.symbol)
    (others : ∀ o ∈ rest, Writes spellings true o.formula o.text) :
    (Operand.join rest).head? ≠ some '>' :=
  inherited_head.join fun o ho =>
    ⟨(canonical_spelling _ (symbol_mem j) _ (symbols o ho)).2, (others o ho).head_ne⟩

/-- What stands behind the first operand, in canonical spelling. -/
theorem canonical_join {rest : List Operand} (symbols : ∀ o ∈ rest, o.symbol ∈ spellings j.symbol)
    (others : ∀ o ∈ rest, Writes spellings true o.formula o.text) :
    canonical (Operand.join rest)
      = Operand.join (rest.map fun o => ⟨o.formula, [j.symbol], canonical o.text⟩) := by
  induction rest with
  | nil => rfl
  | cons o rest ih =>
    rw [List.forall_mem_cons] at symbols others
    show canonical (o.symbol ++ o.text ++ Operand.join rest) = _
    rw [canonical_append _ (head_join symbols.2 others.2), canonical_append _ others.1.head_ne,
      (canonical_spelling _ (symbol_mem j) _ symbols.1).1, ih symbols.2 others.2]
    rfl

end Join

/-- **Normalising keeps what is written,** in canonical spelling. -/
theorem Writes.canonical {closed : Bool} {F : Formula} {text : List Char}
    (h : Writes spellings closed F text) :
    Writes canonicalSpelling closed F (Sentence.canonical text) := by
  induction h with
  | atom hname atom =>
    rw [canonical_eq_self (inherited_unspelled.atom hname atom)]
    exact .atom hname atom
  | not hsign inner ih =>
    rw [canonical_append _ inner.head_ne, (canonical_spelling _ (by decide) _ hsign).1]
    exact .not (List.mem_singleton_self _) ih
  | @joined j F text rest several first symbols others ih ihrest =>
    rw [canonical_append _ (head_join symbols others), canonical_join symbols others]
    have hformulas : rest.map (·.formula) = (rest.map fun o =>
        (⟨o.formula, [j.symbol], Sentence.canonical o.text⟩ : Operand)).map (·.formula) := by
      rw [List.map_map]
      rfl
    rw [hformulas]
    refine .joined (by simpa using several) ih (List.forall_mem_map.2 fun o _ => ?_)
      (List.forall_mem_map.2 ihrest)
    exact List.mem_singleton_self _
  | implies harrow antecedent consequent iha ihc =>
    obtain ⟨harrow, hhead⟩ := canonical_spelling _ (by decide) _ harrow
    rw [canonical_append _ consequent.head_ne, canonical_append _ hhead, harrow]
    exact .implies (List.mem_singleton_self _) iha ihc
  | @group closed F text inner ih =>
    have hgroup : Sentence.canonical ('(' :: text ++ [')'])
        = '(' :: Sentence.canonical text ++ [')'] := by
      rw [← List.singleton_append, List.append_assoc, canonical_append ['('] _,
        canonical_append _ (by decide)]
      · rfl
      · rw [List.head?_append]
        cases hhead : text.head? with
        | none => decide
        | some c =>
          have := inner.head_ne
          rwa [hhead] at this
    rw [hgroup]
    exact .group ih
  | @pad closed F front text behind hfront hbehind inner ih =>
    rw [canonical_append _ (inherited_head.blank hbehind), canonical_append _ inner.head_ne,
      canonical_eq_self (inherited_unspelled.blank hfront),
      canonical_eq_self (inherited_unspelled.blank hbehind)]
    exact .pad hfront hbehind ih

/-! ### Reading literals -/

namespace Sentence

theorem Blank.ne {text : List Char} (h : Blank text) {c d : Char} (hc : c ∈ text)
    (hd : Text.isBlank d = false) : c ≠ d := by
  rintro rfl
  exact h.not_mem hd hc

/-- A term with blanks around it. -/
theorem readTerm_pad {t : Term} (h : t.Legal) {front behind : List Char} (hfront : Blank front)
    (hbehind : Blank behind) : ',' ∉ front ++ t.name.toList ++ behind ∧
      readTerm (front ++ t.name.toList ++ behind) = .ok t := by
  constructor
  · simp only [List.mem_append, not_or]
    exact ⟨⟨hfront.not_mem (by decide), fun hmem => isWord_ne (h.1 _ hmem) (by decide) rfl⟩,
      hbehind.not_mem (by decide)⟩
  · rw [readTerm, trim_pad hfront hbehind, ← readTerm]
    exact readTerm_name h

theorem readTerms_args {t : Term} {ts : List Term} {text : List Char}
    (h : ArgsText (t :: ts) text) : (Text.splitAt ',' text).mapM readTerm = .ok (t :: ts) := by
  generalize hargs : t :: ts = args at h
  induction h generalizing t ts with
  | none => cases hargs
  | one legal hfront hbehind =>
    obtain ⟨hcomma, hread⟩ := readTerm_pad legal hfront hbehind
    rw [splitAt_of_not_mem hcomma]
    exact mapM_eq_ok_iff.2 (.cons hread .nil)
  | more legal hfront hbehind _ ih =>
    obtain ⟨hcomma, hread⟩ := readTerm_pad legal hfront hbehind
    rw [splitAt_append hcomma]
    exact mapM_eq_ok_iff.2 (.cons hread (mapM_eq_ok_iff.1 (ih rfl)))

/-- **Arguments are read back.** -/
theorem readArgs_args {ts : List Term} {text : List Char} (h : ArgsText ts text) :
    readArgs text = .ok ts := by
  cases ts with
  | nil =>
    cases h with
    | none blank => rw [readArgs, trim_blank blank]; rfl
  | cons t ts =>
    -- there is a name, so the text is not blank
    have hword : ∃ c ∈ text, isWord c = true := by
      have hname : ∀ {t : Term}, t.Legal → ∃ c ∈ t.name.toList, isWord c = true := by
        intro t ht
        obtain ⟨c, rest, hcons, _⟩ := IsName.cons ht
        have hc : c ∈ t.name.toList := by rw [hcons]; exact List.mem_cons_self ..
        exact ⟨c, hc, ht.1 c hc⟩
      cases h with
      | one legal _ _ =>
        obtain ⟨c, hc, hword⟩ := hname legal
        exact ⟨c, by simp [hc], hword⟩
      | more legal _ _ _ =>
        obtain ⟨c, hc, hword⟩ := hname legal
        exact ⟨c, by simp [hc], hword⟩
    obtain ⟨c, hc, hword⟩ := hword
    have hne : (Text.trim text).isEmpty = false :=
      List.isEmpty_eq_false_iff_exists_mem.2 ⟨c, mem_trim hc (isBlank_of_isWord hword)⟩
    rw [readArgs, hne]
    exact readTerms_args h

/-- There are no parentheses among arguments. -/
theorem ArgsText.not_paren {ts : List Term} {text : List Char} (h : ArgsText ts text) :
    ∀ c ∈ text, c ≠ '(' ∧ c ≠ ')' := by
  have hblank : ∀ {text : List Char}, Blank text → ∀ c ∈ text, c ≠ '(' ∧ c ≠ ')' :=
    fun h c hc => ⟨h.ne hc (by decide), h.ne hc (by decide)⟩
  have hname : ∀ {t : Term}, t.Legal → ∀ c ∈ t.name.toList, c ≠ '(' ∧ c ≠ ')' :=
    fun h c hc => ⟨isWord_ne (h.1 c hc) (by decide), isWord_ne (h.1 c hc) (by decide)⟩
  induction h with
  | none blank => exact hblank blank
  | one legal hfront hbehind =>
    simp only [List.forall_mem_append]
    exact ⟨⟨hblank hfront, hname legal⟩, hblank hbehind⟩
  | more legal hfront hbehind _ ih =>
    simp only [List.forall_mem_append, List.forall_mem_cons]
    exact ⟨⟨⟨hblank hfront, hname legal⟩, hblank hbehind⟩, by decide, ih⟩

/-- The name of an atom ends where its word does. -/
theorem name_append {name : String} (hname : IsName isWord isNameStart name)
    {behind : List Char} (hbehind : ∀ c, behind.head? = some c → isWord c = false) :
    (name.toList ++ behind).takeWhile isWord = name.toList ∧
      (name.toList ++ behind).dropWhile isWord = behind :=
  takeWhile_dropWhile_append hname.1 hbehind

/-- **An atom falls into its name and its arguments.** -/
theorem atomParts?_text {name : String} (hname : IsName isWord isNameStart name) {ts : List Term}
    {text : List Char} (h : AtomText name ts text) :
    text = name.toList ∧ ts = [] ∧ atomParts? text = some (name.toList, none) ∨
      ∃ inner, atomParts? text = some (name.toList, some inner) ∧ ArgsText ts inner := by
  obtain ⟨c, rest, hcons, hfirst⟩ := hname.cons
  have hstart : ∀ behind, name.toList ++ behind = c :: (rest ++ behind) := by
    intro behind
    rw [hcons, List.cons_append]
  cases h with
  | bare =>
    obtain ⟨htake, hdrop⟩ := name_append hname (by simp : ∀ c, [].head? = some c → isWord c = false)
    have hparts : atomParts? (name.toList ++ []) = some (name.toList, none) := by
      rw [hstart, atomParts?, if_pos hfirst, ← hstart, htake, hdrop]
      simp
    rw [List.append_nil] at hparts
    exact .inl ⟨rfl, rfl, hparts⟩
  | @applied _ gap inner hgap args =>
    refine .inr ⟨inner, ?_, args⟩
    have hall : inner.all (fun c => c ≠ '(' && c ≠ ')') = true :=
      List.all_eq_true.2 fun c hc => by simp [args.not_paren c hc]
    have hhead : ∀ c, (gap ++ ('(' :: inner ++ [')'])).head? = some c → isWord c = false := by
      intro c hc
      cases gap with
      | nil => cases hc; decide
      | cons d gap =>
        cases hc
        exact isWord_of_isBlank (hgap c (List.mem_cons_self ..))
    have hopen : ('(' :: inner ++ [')']).dropWhile Text.isBlank = '(' :: (inner ++ [')']) := by
      rw [List.cons_append, List.dropWhile_cons_of_neg (by decide)]
    obtain ⟨htake, hdrop⟩ := name_append hname hhead
    rw [List.append_assoc, hstart, atomParts?, if_pos hfirst, ← hstart, htake, hdrop,
      List.dropWhile_append_of_pos hgap, hopen]
    simp only [List.getLast?_concat, List.dropLast_concat, true_and]
    rw [if_pos hall]

/-- **An atom is read back.** -/
theorem readLiteral_atom {name : String} (hname : IsName isWord isNameStart name) {ts : List Term}
    {text : List Char} (h : AtomText name ts text) :
    readLiteral false text = .ok { name, args := ts } := by
  -- the text begins with its name and ends with a letter or a parenthesis
  obtain ⟨c, rest, hcons, hfirst⟩ := hname.cons
  have hword := isWord_of_isNameStart hfirst
  obtain ⟨behind, rfl, hlast⟩ : ∃ behind, text = name.toList ++ behind ∧
      ∀ c, text.getLast? = some c → Text.isBlank c = false := by
    cases h with
    | bare =>
      exact ⟨[], (List.append_nil _).symm, fun c hc =>
        isBlank_of_isWord (hname.1 c (List.mem_of_getLast? hc))⟩
    | @applied _ gap inner hgap args =>
      refine ⟨gap ++ ('(' :: inner ++ [')']), List.append_assoc .., fun c hc => ?_⟩
      rw [← List.append_assoc, List.getLast?_concat] at hc
      cases hc
      decide
  have hstart : name.toList ++ behind = c :: (rest ++ behind) := by
    rw [hcons, List.cons_append]
  have htrim : Text.trim (name.toList ++ behind) = name.toList ++ behind := by
    refine trim_eq_self (fun d hd => ?_) hlast
    rw [hstart] at hd
    cases hd
    exact isBlank_of_isWord hword
  have hpolarity : polarity false (name.toList ++ behind) = (false, name.toList ++ behind) := by
    rw [hstart] at htrim ⊢
    exact polarity_of_head (isWord_ne hword (by decide))
      (unwrap_of_head (isWord_ne hword (by decide)) htrim)
  have hconn : (name.toList ++ behind).any isConnective = false := by
    have hinherited : Inherited fun text => ∀ c ∈ text, c ∉ ['⇒', '∧', '∨'] :=
      inherited_not_mem (by decide)
    refine List.any_eq_false.2 fun c hc => ?_
    simpa [isConnective, and_assoc] using hinherited.atom hname h c hc
  have hempty : (name.toList ++ behind).isEmpty = false := by
    rw [hstart]
    rfl
  rcases atomParts?_text hname h with ⟨_, rfl, hparts⟩ | ⟨inner, hparts, args⟩
  · simp only [readLiteral, hpolarity, hconn, hempty, hparts, Bool.false_eq_true, if_false]
    simp
    rfl
  · simp only [readLiteral, hpolarity, hconn, hempty, hparts, readArgs_args args,
      Bool.false_eq_true, if_false]
    simp

theorem trim_sign (text : List Char) :
    Text.trim ('¬' :: text) = '¬' :: Text.trimRight text := by
  show Text.trimRight ('¬' :: text) = _
  rw [Text.trimRight, List.reverse_cons, List.dropWhile_append]
  split
  · rename_i hempty
    rw [Text.trimRight, List.isEmpty_iff.1 hempty]
    rfl
  · rw [List.reverse_append]
    rfl

theorem unwrap_trimRight (text : List Char) : unwrap (Text.trimRight text) = unwrap text := by
  have hback : text
      = [] ++ Text.trimRight text ++ (text.reverse.takeWhile Text.isBlank).reverse := by
    rw [List.nil_append, Text.trimRight, ← List.reverse_append, List.takeWhile_append_dropWhile,
      List.reverse_reverse]
  conv_rhs => rw [hback]
  refine (unwrap_pad (List.forall_mem_nil _) (fun c hc => ?_) _).symm
  exact List.all_eq_true.1 List.all_takeWhile c (List.mem_reverse.1 hc)

/-- **A sign in front** negates what is read. -/
theorem readLiteral_sign (text : List Char) :
    readLiteral false ('¬' :: text) = (readLiteral false text).map Literal.negate := by
  have hpolarity : polarity false ('¬' :: text) = polarity true text := by
    rw [← polarity_unwrap, ← unwrap_trim, polarity_unwrap, trim_sign,
      polarity_of_sign (by rw [← trim_sign, trim_trim]), ← polarity_unwrap, unwrap_trimRight,
      polarity_unwrap]
    rfl
  rw [← readLiteral_not, readLiteral, readLiteral, hpolarity]
  rfl

/-! ### Cuts between operands -/

/-- **Cutting what was joined,** with blanks or without. -/
theorem splitTop_join {connective : Char} (hopen : connective ≠ '(') (hclose : connective ≠ ')')
    {text : List Char} {rest : List (List Char)} (h : ∀ a ∈ text :: rest, Solid connective a) :
    splitTop connective (text ++ rest.flatMap (connective :: ·))
      = (text :: rest).map Text.trim := by
  rw [splitTop]
  congr 1
  induction rest generalizing text with
  | nil =>
    rw [List.flatMap_nil, List.append_nil]
    exact (h text (List.mem_cons_self ..)).cutFrom_eq
  | cons a rest ih =>
    rw [List.forall_mem_cons] at h
    rw [List.flatMap_cons, List.cons_append, h.1, cutFrom, if_neg hopen, if_neg hclose,
      if_pos ⟨rfl, rfl⟩, appendFirst_cons, List.append_nil, ih h.2]

/-- Another connective cuts nothing there. -/
theorem solid_join {c connective : Char} (hne : c ≠ connective) (hopen : connective ≠ '(')
    (hclose : connective ≠ ')') {text : List Char} {rest : List (List Char)}
    (h : ∀ a ∈ text :: rest, Solid c a) : Solid c (text ++ rest.flatMap (connective :: ·)) := by
  have hsymbol : Solid c [connective] :=
    solid_of_plain (List.forall_mem_singleton.2 ⟨hopen, hclose, hne.symm⟩)
  rw [List.forall_mem_cons] at h
  refine h.1.append ?_
  have hrest := h.2
  clear h
  induction rest with
  | nil => exact fun _ => rfl
  | cons a rest ih =>
    rw [List.forall_mem_cons] at hrest
    exact (hsymbol.append hrest.1).append (ih hrest.2)

/-- **A text of operands** falls apart at its connective, into the operands, and at no
    other. -/
theorem splitTop_unwrap_join {connective : Char} (hconn : isConnective connective = true)
    {text : List Char} {rest : List (List Char)} (several : rest ≠ [])
    (h : ∀ c, isConnective c = true → ∀ a ∈ text :: rest, Solid c a) :
    splitTop connective (unwrap (text ++ rest.flatMap (connective :: ·)))
        = (text :: rest).map Text.trim ∧
      ∀ c, isConnective c = true → c ≠ connective →
        (splitTop c (unwrap (text ++ rest.flatMap (connective :: ·)))).length ≤ 1 := by
  have hop := isOperator_of_isConnective hconn
  obtain ⟨hopen, hclose⟩ := isOperator_ne_paren hop
  have hcut := splitTop_join hopen hclose (h _ hconn)
  have hlong : 1 < (splitTop connective (text ++ rest.flatMap (connective :: ·))).length := by
    have := List.length_pos_iff.2 several
    rw [hcut, List.length_map, List.length_cons]
    omega
  rw [unwrap_of_splits hop hlong, splitTop_trim hop]
  refine ⟨hcut, fun c hc hne => ?_⟩
  rw [splitTop_trim (isOperator_of_isConnective hc),
    (solid_join hne hopen hclose (h c hc)).splitTop_eq]
  exact Nat.le_refl 1

/-- Nothing is cut inside of atoms. -/
theorem inherited_solid {c : Char} (hc : isConnective c = true) :
    Inherited fun text => Grouped text ∧ Solid c text where
  append ha hb := ⟨ha.1.append hb.1, ha.2.append hb.2⟩
  group h := ⟨h.1.wrapped, solid_wrapped h.1⟩
  word h := ⟨inherited_grouped.word h, solid_of_plain fun d hd =>
    ⟨isWord_ne (h d hd) (by decide), isWord_ne (h d hd) (by decide),
      isWord_ne (h d hd) (isOperator_ne (isOperator_of_isConnective hc)).2.1⟩⟩
  blank h := ⟨inherited_grouped.blank h, solid_of_plain fun d hd =>
    ⟨h.ne hd (by decide), h.ne hd (by decide),
      h.ne hd (isOperator_ne (isOperator_of_isConnective hc)).1⟩⟩
  comma := ⟨inherited_grouped.comma, solid_of_plain (by
    rw [List.forall_mem_singleton]
    refine ⟨by decide, by decide, ?_⟩
    rintro rfl
    exact absurd hc (by decide))⟩

end Sentence

namespace Writes

variable {closed : Bool} {F : Formula} {text : List Char}

theorem grouped (h : Writes canonicalSpelling closed F text) : Grouped text := by
  refine inherited_grouped.writes (fun c hc text htext => ?_) h
  rw [List.mem_singleton.1 htext]
  refine .of_plain ?_
  rw [List.forall_mem_singleton]
  exact ⟨fun hopen => absurd hc (hopen ▸ by decide), fun hclose => absurd hc (hclose ▸ by decide)⟩

/-- **Nothing is cut inside of an operand.** -/
theorem solid (h : Writes canonicalSpelling true F text) {c : Char} (hc : isConnective c = true) :
    Solid c text := by
  generalize hclosed : true = closed at h
  induction h with
  | atom hname atom => exact ((inherited_solid hc).atom hname atom).2
  | not hsign _ ih =>
    rw [List.mem_singleton.1 hsign]
    refine Solid.append (solid_of_plain ?_) (ih rfl)
    rw [List.forall_mem_singleton]
    refine ⟨by decide, by decide, ?_⟩
    rintro rfl
    exact absurd hc (by decide)
  | joined => cases hclosed
  | implies => cases hclosed
  | group inner => exact solid_wrapped inner.grouped
  | pad hfront hbehind _ ih =>
    exact (((inherited_solid hc).blank hfront).2.append (ih hclosed)).append
      ((inherited_solid hc).blank hbehind).2

theorem quantifierFree (h : Writes canonicalSpelling closed F text) : QuantifierFree text := by
  have hinherited : Inherited fun text => ∀ c ∈ text, c ∉ ['∀', '∃'] :=
    inherited_not_mem (by decide)
  have hfree : ∀ c ∈ text, c ∉ ['∀', '∃'] := by
    refine hinherited.writes (fun c hc text htext => ?_) h
    rw [List.mem_singleton.1 htext, List.forall_mem_singleton]
    intro hmem
    simp only [List.mem_cons, List.not_mem_nil, or_false] at hmem
    rcases hmem with rfl | rfl <;> exact absurd hc (by decide)
  exact ⟨fun hmem => hfree _ hmem (by decide), fun hmem => hfree _ hmem (by decide)⟩

end Writes

theorem parse_trim {outer : Junctor} {text : List Char} {F : Formula}
    (h : parse outer text = some F) : parse outer (Text.trim text) = some F := by
  rwa [← parse_unwrap, unwrap_trim, parse_unwrap]

theorem isConnective_symbol (j : Junctor) : isConnective j.symbol = true := by
  cases j <;> decide

theorem Junctor.symbol_injective : Function.Injective Junctor.symbol := by
  intro j k h
  cases j <;> cases k <;> first | rfl | exact absurd h (by decide)

/-- **A text is read as what it was written for,** whichever junctor binds least. -/
theorem Writes.parse_eq {closed : Bool} {F : Formula} {text : List Char}
    (h : Writes canonicalSpelling closed F text) (outer : Junctor) : parse outer text = some F := by
  induction h generalizing outer with
  | atom hname atom => exact parse_eq_literal_iff.2 (readLiteral_atom hname atom)
  | not hsign inner ih =>
    have hread := parse_eq_literal_iff.1 (ih outer)
    rw [List.mem_singleton.1 hsign, List.singleton_append, parse_eq_literal_iff, readLiteral_sign,
      hread]
    rfl
  | @joined j F text rest several first symbols others ih ihrest =>
    have hquantifiers := (joined several first symbols others).quantifierFree
    have hjoin : Operand.join rest = (rest.map (·.text)).flatMap (j.symbol :: ·) := by
      rw [Operand.join, List.flatMap_map]
      exact List.flatMap_congr fun o ho => by rw [List.mem_singleton.1 (symbols o ho)]; rfl
    rw [hjoin] at hquantifiers ⊢
    have hsolid : ∀ c, isConnective c = true → ∀ a ∈ text :: rest.map (·.text), Solid c a :=
      fun c hc => List.forall_mem_cons.2
        ⟨first.solid hc, List.forall_mem_map.2 fun o ho => (others o ho).solid hc⟩
    obtain ⟨hcut, hone⟩ :=
      splitTop_unwrap_join (isConnective_symbol j) (by simpa using several) hsolid
    rw [parse_iff, hquantifiers.leading_eq]
    refine ⟨rfl, .joined (hone _ (by decide) (by cases j <;> decide)) ?_ ?_ ?_⟩
    · by_cases houter : j = outer
      · exact .inl houter
      · exact .inr (Nat.not_lt.2 (hone _ (isConnective_symbol outer) fun h =>
          houter (Junctor.symbol_injective h).symm))
    · have := List.length_pos_iff.2 several
      rw [Splits, hcut]
      simpa using this
    · rw [hcut, List.forall₂_map_left_iff]
      refine .cons (parse_trim (ih outer)) ?_
      rw [List.forall₂_map_left_iff, List.forall₂_map_right_iff, List.forall₂_same]
      exact fun o ho => parse_trim (ihrest o ho outer)
  | @implies A C arrow a c harrow antecedent consequent iha ihc =>
    have hquantifiers := (implies harrow antecedent consequent).quantifierFree
    have hjoin : a ++ arrow ++ c = a ++ [c].flatMap ('⇒' :: ·) := by
      rw [List.mem_singleton.1 harrow]
      simp
    rw [hjoin] at hquantifiers ⊢
    have hsolid : ∀ d, isConnective d = true → ∀ text ∈ [a, c], Solid d text :=
      fun d hd => List.forall_mem_cons.2
        ⟨antecedent.solid hd, List.forall_mem_singleton.2 (consequent.solid hd)⟩
    have harrow : isConnective '⇒' = true := by decide
    obtain ⟨hcut, _⟩ := splitTop_unwrap_join harrow (List.cons_ne_nil _ _) hsolid
    rw [parse_iff, hquantifiers.leading_eq]
    exact ⟨rfl, .arrow hcut (parse_trim (iha .or)) (parse_trim (ihc .and))⟩
  | group inner ih => rw [← parse_unwrap, unwrap_group inner.grouped, parse_unwrap, ih]
  | pad hfront hbehind inner ih => rw [← parse_unwrap, unwrap_pad hfront hbehind, parse_unwrap, ih]

/-! ### Formulas without quantifiers -/

namespace Formula

/-- No quantifier occurs. -/
def Unquantified : Formula → Prop
  | .literal _ => True
  | .joined _ parts => ∀ F ∈ parts, F.Unquantified
  | .implies A C => A.Unquantified ∧ C.Unquantified
  | .quantified .. => False

theorem Unquantified.skolems_eq {F : Formula} (h : F.Unquantified) (m : Marker) :
    F.skolems m = [] := by
  induction F generalizing m with
  | literal => rw [skolems]
  | joined j parts ih =>
    rw [Unquantified] at h
    rw [skolems, List.flatMap_eq_nil_iff]
    exact fun F hF => ih F hF (h F hF) m
  | implies A C ihA ihC =>
    rw [Unquantified] at h
    rw [skolems, ihA h.1, ihC h.2]
    rfl
  | quantified => rw [Unquantified] at h; exact h.elim

/-- Without quantifiers the matrix is the meaning. -/
theorem Unquantified.holds_iff {M : Structure.{u}} {v : String → M.Domain} {F : Formula}
    (h : F.Unquantified) : F.Holds M v ↔ F.Matrix (M.atoms v) := by
  induction F with
  | literal => rw [Holds, Matrix]
  | joined j parts ih =>
    rw [Unquantified] at h
    rw [Holds, Matrix]
    have hparts : parts.map (Holds M v) = parts.map (Matrix (M.atoms v)) :=
      List.map_congr_left fun F hF => propext (ih F hF (h F hF))
    rw [hparts]
  | implies A C ihA ihC =>
    rw [Unquantified] at h
    rw [Holds, Matrix, ihA h.1, ihC h.2]
  | quantified => rw [Unquantified] at h; exact h.elim

end Formula

theorem Writes.unquantified {spelled : Char → List (List Char)} {closed : Bool} {F : Formula}
    {text : List Char} (h : Writes spelled closed F text) : F.Unquantified := by
  induction h with
  | atom => rw [Unquantified]; trivial
  | not => rw [Unquantified]; trivial
  | joined _ _ _ _ ih ihrest =>
    rw [Unquantified, List.forall_mem_cons, List.forall_mem_map]
    exact ⟨ih, ihrest⟩
  | implies _ _ _ iha ihc => rw [Unquantified]; exact ⟨iha, ihc⟩
  | group _ ih => exact ih
  | pad _ _ _ ih => exact ih

/-! ### Statements -/

namespace Formula

/-- A disjunction of one or more literals. -/
def ClauseShape (F : Formula) : Prop :=
  F.IsLiteral ∨ ∃ parts, F = .joined .or parts ∧ ∀ G ∈ parts, G.IsLiteral

/-- A disjunction of conjunctions of literals. -/
def PremiseShape (F : Formula) : Prop :=
  F.Premise ∨ ∃ parts, F = .joined .or parts ∧ ∀ G ∈ parts, G.Premise

/-- A conjunction of disjunctions of literals. -/
def ConclusionShape (F : Formula) : Prop :=
  F.ClauseShape ∨ ∃ parts, F = .joined .and parts ∧ ∀ G ∈ parts, G.ClauseShape

/-- A sentence without quantifiers: a disjunction of literals, an implication, or a
    conjunction of sentences. -/
inductive Statement : Formula → Prop where
  /-- A disjunction of one or more literals. -/
  | disjunction {F : Formula} (shape : F.ClauseShape) : Statement F
  /-- From a disjunction of conjunctions to a conjunction of disjunctions. -/
  | implication {A C : Formula} (antecedent : A.PremiseShape) (consequent : C.ConclusionShape) :
      Statement (.implies A C)
  /-- A conjunction of statements. -/
  | conjunction {parts : List Formula} (statements : ∀ G ∈ parts, Statement G) :
      Statement (.joined .and parts)

theorem ClauseShape.disjunction {b : Bool} {F : Formula} (h : F.ClauseShape) :
    F.Disjunction b := by
  obtain ⟨l, rfl⟩ | ⟨parts, rfl, hparts⟩ := h
  · exact ⟨b, rfl, .inl ⟨l, rfl⟩⟩
  · exact ⟨b, rfl, .inr ⟨parts, rfl, fun G hG => (hparts G hG).disjunct⟩⟩

theorem PremiseShape.antecedent {b : Bool} {F : Formula} (h : F.PremiseShape) :
    F.Antecedent b := by
  obtain hone | ⟨parts, rfl, hparts⟩ := h
  · have hplain := hone
    obtain ⟨l, rfl⟩ | ⟨parts, rfl, _⟩ := hone
    · exact ⟨b, rfl, .inl hplain⟩
    · exact ⟨b, rfl, .inl hplain⟩
  · exact ⟨b, rfl, .inr ⟨parts, rfl, hparts⟩⟩

theorem ConclusionShape.consequent {b : Bool} {F : Formula} (h : F.ConclusionShape) :
    F.Consequent b := by
  obtain hone | ⟨parts, rfl, hparts⟩ := h
  · have hplain : F.Disjunction b := hone.disjunction
    obtain ⟨l, rfl⟩ | ⟨parts, rfl, _⟩ := hone
    · exact ⟨b, rfl, .inl hplain⟩
    · exact ⟨b, rfl, .inl hplain⟩
  · exact ⟨b, rfl, .inr ⟨parts, rfl, fun G hG => (hparts G hG).disjunction⟩⟩

/-- A statement can be converted. -/
theorem Statement.fact {F : Formula} (h : F.Statement) : F.Fact false := by
  induction h with
  | disjunction shape => exact .disjunction shape.disjunction
  | implication antecedent consequent =>
    exact .implication rfl rfl antecedent.antecedent consequent.consequent
  | conjunction _ ih => exact .conjunction rfl rfl ih

end Formula

/-! ### The main result -/

/-- **What is written freely has a normal form,** in canonical spelling. -/
theorem Writes.normalize_eq {closed : Bool} {F : Formula} {s : String}
    (h : Writes spellings closed F s.toList) :
    Sentence.normalize s = .ok (Text.trim (Sentence.canonical s.toList)) := by
  have hcanonical := h.canonical
  refine normalize_iff.2 ⟨?_, ?_, ?_, rfl⟩
  · -- an equivalence sign begins with a character that no text has
    have hinherited : Inherited fun text => ∀ c ∈ text, c ∉ ['<', '⇔', '↔'] :=
      inherited_not_mem (by decide)
    have hnone : ∀ c ∈ s.toList, c ∉ ['<', '⇔', '↔'] :=
      hinherited.writes (by simp [spellings]) h
    have hoccurs : ∀ c part, c ∈ ['<', '⇔', '↔'] → occursIn (c :: part) s.toList = false :=
      fun c part hc => Bool.eq_false_iff.2 fun h => hnone c (mem_of_occursIn h) hc
    simp only [unsupported, List.forall_mem_cons]
    exact ⟨hoccurs _ _ (by decide), hoccurs _ _ (by decide), hoccurs _ _ (by decide),
      hoccurs _ _ (by decide), List.forall_mem_nil _⟩
  · exact balanced_iff_grouped.2 hcanonical.grouped
  · intro hempty
    have hread := parse_trim (hcanonical.parse_eq .and)
    rw [hempty] at hread
    have hlength := length_leading_le []
    have hnonempty := Conversion.ne_nil_of_parse hread
    rw [List.length_eq_zero_iff.1 (Nat.le_zero.1 hlength)] at hnonempty
    cases hnonempty

/-- **A sentence without quantifiers and its clauses say the same.** Whatever its spelling,
    its blanks and its parentheses, every builder accepts it, and under every interpretation
    it is true exactly when all its clauses are. -/
theorem sentence_of_statement {F : Formula} (hF : F.Statement) {closed : Bool} {s : String}
    (hs : Writes spellings closed F s.toList) (b : Builder) :
    ∃ clauses b', Build.sentence s b = (.ok clauses, b') ∧
      ∀ (M : Structure.{u}) (v : String → M.Domain),
        F.Holds M v ↔ ∀ c ∈ clauses, c.TrueIn (M.atoms v) := by
  have hread : parse .and (Text.trim (Sentence.canonical s.toList)) = some F :=
    parse_trim (hs.canonical.parse_eq .and)
  have hskolems := hs.unquantified.skolems_eq .existential
  refine ⟨_, _, Build.sentence_ok_iff.2 ⟨_, F, hs.normalize_eq, ⟨hread, hF.fact⟩, rfl, rfl⟩, ?_⟩
  intro M v
  rw [hskolems, hs.unquantified.holds_iff, hF.fact.matrix_iff, List.forall_mem_map]
  refine forall₂_congr fun ls _ => ?_
  show _ ↔ Clause.TrueIn (M.atoms v) (Substitution.apply {} ⟨ls⟩)
  rw [Build.apply_empty]

/-- An implication with a double negation, to be written with few blanks. -/
def freelyWritten : Formula :=
  .implies (.joined .or [.joined .and [.literal { name := "P", args := [.var "x", .const "A"] },
      .literal { name := "Q" }], .literal { name := "R" }])
    (.joined .or [.literal { name := "S" }, .literal { name := "T", negated := true }])

theorem writes_freelyWritten :
    Writes spellings false freelyWritten "((P(x , A)& ~ !Q)|R )->(S | ~T)".toList := by
  have hspace : Blank [' '] := by simp [Blank]; decide
  have hnone : Blank [] := List.forall_mem_nil _
  have htilde : ['~'] ∈ spellings '¬' := by decide
  have hbang : ['!'] ∈ spellings '¬' := by decide
  have hbare : ∀ name : String, IsName isWord isNameStart name →
      Writes spellings true (.literal { name }) name.toList := fun _ h => .atom h .bare
  -- literal by literal
  have hargs : ArgsText [.var "x", .const "A"]
      ([] ++ "x".toList ++ [' '] ++ ',' :: ([' '] ++ "A".toList ++ [])) :=
    .more (show IsName .. by decide) hnone hspace (.one (show IsName .. by decide) hspace hnone)
  have hP : Writes spellings true (.literal { name := "P", args := [.var "x", .const "A"] })
      "P(x , A)".toList := .atom (by decide) (.applied hnone hargs)
  have hQ : Writes spellings true (.literal { name := "Q" }) " ~ !Q".toList :=
    .pad hspace hnone (.not htilde (.pad hspace hnone (.not hbang (hbare "Q" (by decide)))))
  have hR : Writes spellings true (.literal { name := "R" }) "R ".toList :=
    .pad hnone hspace (hbare "R" (by decide))
  have hS : Writes spellings true (.literal { name := "S" }) "S ".toList :=
    .pad hnone hspace (hbare "S" (by decide))
  have hT : Writes spellings true (.literal { name := "T", negated := true }) " ~T".toList :=
    .pad hspace hnone (.not htilde (hbare "T" (by decide)))
  -- two operands with one connective
  have hpair : ∀ {j : Junctor} {F G : Formula} {symbol a b : List Char},
      symbol ∈ spellings j.symbol → Writes spellings true F a → Writes spellings true G b →
      Writes spellings true (.joined j [F, G]) ('(' :: (a ++ (symbol ++ b ++ [])) ++ [')']) := by
    intro j F G symbol a b hsymbol hF hG
    let rest : List Operand := [⟨G, symbol, b⟩]
    have hsymbols : ∀ o ∈ rest, o.symbol ∈ spellings j.symbol := List.forall_mem_singleton.2 hsymbol
    have hothers : ∀ o ∈ rest, Writes spellings true o.formula o.text :=
      List.forall_mem_singleton.2 hG
    exact .group (.joined (List.cons_ne_nil _ _) hF hsymbols hothers)
  have hand : ['&'] ∈ spellings Junctor.and.symbol := by decide
  have hor : ['|'] ∈ spellings Junctor.or.symbol := by decide
  have harrow : ['-', '>'] ∈ spellings '⇒' := by decide
  exact .implies harrow (hpair hor (hpair hand hP hQ) hR) (hpair hor hS hT)

theorem sentence_of_statement_freelyWritten :
    ∃ clauses b', Build.sentence "((P(x , A)& ~ !Q)|R )->(S | ~T)" {} = (.ok clauses, b') ∧
      ∀ (M : Structure.{0}) (v : String → M.Domain),
        freelyWritten.Holds M v ↔ ∀ c ∈ clauses, c.TrueIn (M.atoms v) := by
  have hstatement : freelyWritten.Statement := by
    refine .implication (.inr ⟨_, rfl, ?_⟩) (.inl (.inr ⟨_, rfl, ?_⟩))
    · simp [Premise, IsLiteral]
    · simp [IsLiteral]
  exact sentence_of_statement hstatement writes_freelyWritten {}

end Refuter
