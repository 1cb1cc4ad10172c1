import Mathlib.Data.List.Count
import Mathlib.Logic.Function.Iterate
import Refuter.Proofs.Notation

/-! # The grammar of literals

A literal is written as an atom, behind any number of signs, with parentheses around any part
and blanks around every part:

    L ::= '(' L ')' | '¬' L | Name | Name '(' ')' | Name '(' Term (',' Term)* ')'

`LiteralText` derives the texts of a literal by this grammar. Reading goes the other way round,
from the outside: it takes off blanks, parentheses and signs as long as there are any.

- **Every text of the grammar is read,** as the literal that it was written for
  (`LiteralText.readLiteral_eq`): the induction is on the derivation.
- **Every text that is read is of the grammar** (`literalText_of_readLiteral`): the induction is
  on what reading takes off, and each part taken off is put back by a rule of the grammar.

**Key result.** Reading succeeds exactly on the texts of the grammar (`readLiteral_grammar`).
-/

namespace Refuter.Sentence

/-- A text spells an atom, with signs, parentheses and blanks around it. -/
inductive LiteralText (name : String) (ts : List Term) : List Char → Prop where
  /-- The atom. -/
  | atom {text : List Char} (hname : IsName isWord isNameStart name)
      (atom : AtomText name ts text) : LiteralText name ts text
  /-- A sign in front. -/
  | sign {text : List Char} (inner : LiteralText name ts text) : LiteralText name ts ('¬' :: text)
  /-- Parentheses around the whole. -/
  | group {text : List Char} (inner : LiteralText name ts text) :
      LiteralText name ts ('(' :: text ++ [')'])
  /-- Blanks around the whole. -/
  | pad {front text behind : List Char} (hfront : Blank front) (hbehind : Blank behind)
      (inner : LiteralText name ts text) : LiteralText name ts (front ++ text ++ behind)

/-! ### Texts of the grammar are read -/

namespace LiteralText

variable {name : String} {ts : List Term} {text : List Char}

theorem grouped (h : LiteralText name ts text) : Grouped text := by
  induction h with
  | atom hname atom => exact inherited_grouped.atom hname atom
  | sign _ ih => exact .cons (by decide) (by decide) ih
  | group _ ih => exact ih.wrapped
  | pad hfront hbehind _ ih =>
    exact ((inherited_grouped.blank hfront).append ih).append (inherited_grouped.blank hbehind)

theorem readLiteral_false (h : LiteralText name ts text) :
    readLiteral false text = .ok ⟨name, ts, not^[text.count '¬'] false⟩ := by
  induction h with
  | @atom text hname atom =>
    -- neither words nor blanks, parentheses or commas hold a sign
    have hsigns : Inherited fun text => ∀ c ∈ text, c ∉ ['¬'] := inherited_not_mem (by decide)
    have hnone : '¬' ∉ text := by
      intro hmem
      exact hsigns.atom hname atom '¬' hmem (List.mem_singleton_self _)
    rw [List.count_eq_zero_of_not_mem hnone]
    exact readLiteral_atom hname atom
  | @sign text _ ih =>
    rw [readLiteral_sign, ih, List.count_cons_self, Function.iterate_succ_apply']
    rfl
  | @group text inner ih =>
    have hcount : ('(' :: text ++ [')']).count '¬' = text.count '¬' := by
      rw [List.cons_append, List.count_cons_of_ne (by decide), List.count_append]
      rfl
    rw [← readLiteral_unwrap, unwrap_group inner.grouped, readLiteral_unwrap, ih, hcount]
  | @pad front text behind hfront hbehind _ ih =>
    have hcount : (front ++ text ++ behind).count '¬' = text.count '¬' := by
      rw [List.count_append, List.count_append,
        List.count_eq_zero_of_not_mem (hfront.not_mem (by decide)),
        List.count_eq_zero_of_not_mem (hbehind.not_mem (by decide)), Nat.zero_add, Nat.add_zero]
    rw [← readLiteral_unwrap, unwrap_pad hfront hbehind, readLiteral_unwrap, ih, hcount]

/-- **A text of the grammar is read** as its atom, toggled once for each sign. -/
theorem readLiteral_eq (h : LiteralText name ts text) (negated : Bool) :
    readLiteral negated text = .ok ⟨name, ts, not^[text.count '¬'] negated⟩ := by
  cases negated with
  | false => exact h.readLiteral_false
  | true =>
    -- toggled at the start or at the end, it is toggled once more
    have hnot := readLiteral_not false text
    rw [h.readLiteral_false] at hnot
    rw [show true = !false from rfl, hnot, ← Function.iterate_succ_apply,
      Function.iterate_succ_apply']
    rfl

end LiteralText

/-! ### Texts that are read -/

/-- The first part of a text that is cut, and the text behind it. -/
theorem exists_splitAt (sep : Char) (text : List Char) :
    ∃ part parts, Text.splitAt sep text = part :: parts ∧
      (parts = [] ∧ text = part ∨
        ∃ rest, text = part ++ sep :: rest ∧ parts = Text.splitAt sep rest) := by
  induction text with
  | nil => exact ⟨[], [], rfl, .inl ⟨rfl, rfl⟩⟩
  | cons c text ih =>
    by_cases hc : c = sep
    · refine ⟨[], Text.splitAt sep text, ?_, .inr ⟨text, ?_, rfl⟩⟩
      · rw [Text.splitAt, if_pos hc]
      · rw [hc]
        rfl
    · -- the character belongs to the first part
      obtain ⟨part, parts, hsplit, hrest⟩ := ih
      refine ⟨c :: part, parts, ?_, ?_⟩
      · rw [Text.splitAt, if_neg hc, hsplit]
      · rcases hrest with ⟨hnil, rfl⟩ | ⟨rest, rfl, hparts⟩
        · exact .inl ⟨hnil, rfl⟩
        · exact .inr ⟨rest, rfl, hparts⟩

theorem argsText_of_reads {ts : List Term} {text : List Char}
    (h : List.Forall₂ (fun part t => readTerm part = .ok t) (Text.splitAt ',' text) ts) :
    ts ≠ [] ∧ ArgsText ts text := by
  induction ts generalizing text with
  | nil =>
    obtain ⟨part, parts, hsplit, _⟩ := exists_splitAt ',' text
    rw [hsplit] at h
    cases h
  | cons t ts ih =>
    obtain ⟨part, parts, hsplit, hcut⟩ := exists_splitAt ',' text
    rw [hsplit] at h
    obtain ⟨hread, hreads⟩ := List.forall₂_cons.1 h
    refine ⟨List.cons_ne_nil _ _, ?_⟩
    have hlegal := readTerm_legal hread
    -- the part is the name of the term with blanks around it
    obtain ⟨c, word, htrim, _, hname, _⟩ := exists_of_readTerm hread
    obtain ⟨front, behind, hpart, hfront, hbehind⟩ := trim_decompose part
    rw [htrim, ← hname] at hpart
    rcases hcut with ⟨rfl, rfl⟩ | ⟨rest, rfl, rfl⟩
    · cases hreads
      rw [hpart]
      exact .one hlegal hfront hbehind
    · -- behind the comma there is at least one more
      obtain ⟨hne, hrest⟩ := ih hreads
      cases ts with
      | nil => exact absurd rfl hne
      | cons u us =>
        rw [hpart]
        exact .more hlegal hfront hbehind hrest

theorem argsText_of_readArgs {ts : List Term} {text : List Char} (h : readArgs text = .ok ts) :
    ArgsText ts text := by
  unfold readArgs at h
  split at h
  · rename_i hempty
    cases h
    obtain ⟨front, behind, htext, hfront, hbehind⟩ := trim_decompose text
    rw [List.isEmpty_iff.1 hempty, List.append_nil] at htext
    rw [htext]
    exact .none (List.forall_mem_append.2 ⟨hfront, hbehind⟩)
  · exact (argsText_of_reads (mapM_eq_ok_iff.1 h)).2

/-- **An atom that falls into parts** is made of them, with blanks behind its name. -/
theorem exists_of_atomParts? {text name : List Char} {args : Option (List Char)}
    (h : atomParts? text = some (name, args)) : ∃ gap, Blank gap ∧
      (args = none ∧ text = name ++ gap ∨
        ∃ inner, args = some inner ∧ text = name ++ gap ++ ('(' :: inner ++ [')'])) := by
  have hwhole : text = text.takeWhile isWord ++ (text.dropWhile isWord).takeWhile Text.isBlank
      ++ (text.dropWhile isWord).dropWhile Text.isBlank := by
    rw [List.append_assoc, List.takeWhile_append_dropWhile, List.takeWhile_append_dropWhile]
  have hgap : Blank ((text.dropWhile isWord).takeWhile Text.isBlank) :=
    List.all_eq_true.1 List.all_takeWhile
  refine ⟨(text.dropWhile isWord).takeWhile Text.isBlank, hgap, ?_⟩
  unfold atomParts? at h
  split at h
  · cases h
  · split at h
    · dsimp only at h
      split at h
      · -- nothing behind the name but blanks
        rename_i hnil
        cases h
        rw [hnil, List.append_nil] at hwhole
        exact .inl ⟨rfl, hwhole⟩
      · rename_i behind hopen
        split at h
        · rename_i hinner
          cases h
          rw [hopen, ← List.dropLast_append_getLast? _ hinner.1] at hwhole
          exact .inr ⟨_, rfl, hwhole⟩
        · cases h
      · cases h
    · cases h

section PutBack

variable {name : String} {ts : List Term}

/-- **Parentheses and blanks that were taken off** can be put back. -/
theorem literalText_of_unwrap {text : List Char} (h : LiteralText name ts (unwrap text)) :
    LiteralText name ts text := by
  -- the induction is on the pairs of parentheses that were taken off
  fun_induction unwrap text with
  | case1 text inner hinside ih =>
    obtain ⟨front, behind, htext, hfront, hbehind⟩ := trim_decompose text
    rw [eq_of_inside? hinside] at htext
    rw [htext]
    exact .pad hfront hbehind (.group (ih h))
  | case2 text _ =>
    obtain ⟨front, behind, htext, hfront, hbehind⟩ := trim_decompose text
    rw [htext]
    exact .pad hfront hbehind h

/-- **Signs, too.** -/
theorem literalText_of_polarity {negated : Bool} {text : List Char}
    (h : LiteralText name ts (polarity negated text).2) : LiteralText name ts text := by
  fun_induction polarity negated text with
  | case1 negated text rest hunwrap ih =>
    apply literalText_of_unwrap
    rw [hunwrap]
    exact .sign (ih h)
  | case2 negated text _ => exact literalText_of_unwrap h

end PutBack

/-- **A text that is read** is of the grammar. -/
theorem literalText_of_readLiteral {negated : Bool} {text : List Char} {l : Literal}
    (h : readLiteral negated text = .ok l) : LiteralText l.name l.args text := by
  obtain ⟨name, args, hatom, hname, hargs⟩ := exists_of_readLiteral h
  have hlegal : IsName isWord isNameStart l.name := (readLiteral_legal h).1
  have hchars : name = l.name.toList := by
    rw [hname, String.toList_ofList]
  obtain ⟨gap, hgap, hbody⟩ := exists_of_atomParts? hatom
  apply literalText_of_polarity
  rcases hargs with ⟨rfl, hnil⟩ | ⟨inner, rfl, hread⟩
  · -- the blanks behind a bare name are blanks behind the whole
    obtain ⟨_, hbare⟩ | ⟨_, hsome, _⟩ := hbody
    · rw [hbare, hchars, hnil, ← List.nil_append l.name.toList]
      exact .pad (List.forall_mem_nil _) hgap (.atom hlegal .bare)
    · cases hsome
  · obtain ⟨hnone, _⟩ | ⟨_, hsome, happlied⟩ := hbody
    · cases hnone
    · cases hsome
      rw [happlied, hchars]
      exact .atom hlegal (.applied hgap (argsText_of_readArgs hread))

/-! ### The main result -/

/-- **Reading accepts exactly the grammar.** With any polarity to start from, a text is read as a
    literal exactly when the grammar derives it from the name and the terms of the literal, and
    the polarity of the literal is the one at the start, toggled once for each sign. A text that
    the grammar derives from nothing is refused, and no other. A literal is read back from its own
    text exactly when its names can be written and show the kinds of its terms. -/
theorem readLiteral_grammar (negated : Bool) (text : List Char) :
    (∀ l, readLiteral negated text = .ok l ↔
      LiteralText l.name l.args text ∧ l.negated = not^[text.count '¬'] negated) ∧
    ((∃ fault, readLiteral negated text = .error fault) ↔ ∀ name ts, ¬LiteralText name ts text) ∧
    ∀ l : Literal, readLiteral false l.text.toList = .ok l ↔ l.Legal := by
  have hread : ∀ l, readLiteral negated text = .ok l ↔
      LiteralText l.name l.args text ∧ l.negated = not^[text.count '¬'] negated := by
    intro l
    constructor
    · intro h
      have htext := literalText_of_readLiteral h
      rw [htext.readLiteral_eq] at h
      exact ⟨htext, (congrArg Literal.negated (Except.ok.inj h)).symm⟩
    · rintro ⟨htext, hpolarity⟩
      rw [htext.readLiteral_eq, ← hpolarity]
  refine ⟨hread, ?_, fun l => ⟨readLiteral_legal, readLiteral_text⟩⟩
  constructor
  · rintro ⟨fault, hfault⟩ name ts htext
    rw [htext.readLiteral_eq] at hfault
    cases hfault
  · intro hnone
    cases hresult : readLiteral negated text with
    | error fault => exact ⟨fault, rfl⟩
    | ok l => exact absurd (literalText_of_readLiteral hresult) (hnone l.name l.args)

example : (readLiteral true "  ( ¬ (¬P ( x , A1 )) ) ".toList).toOption
    = some ⟨"P", [.var "x", .const "A1"], true⟩ := by decide +kernel

end Refuter.Sentence
