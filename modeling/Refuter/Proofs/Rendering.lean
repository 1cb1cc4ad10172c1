import Mathlib.Data.List.TakeWhile
import Refuter.Proofs.Groups

/-! # Formulas written out

A formula is written with every compound part in parentheses. Read again, such a text
gives the formula back (`parse_render`), whichever junctor binds least: in parentheses
it does not matter.

**Why nothing is cut in the middle.** Parentheses are opened and closed in turn
(`Grouped`), so inside a group the depth never falls to zero, and a cut at a connective
goes between the groups.
-/

namespace Refuter

open Sentence Formula

/-! ### Names that can be written -/

/-- A name of the letters of a class, and its first letter. -/
def IsName (letter first : Char → Bool) (name : String) : Prop :=
  (∀ c ∈ name.toList, letter c = true) ∧ name.toList.head?.map first = some true

instance (letter first : Char → Bool) (name : String) : Decidable (IsName letter first name) :=
  @instDecidableAnd _ _ (List.decidableBAll _ _) inferInstance

/-- A term whose spelling shows its kind. -/
def Term.Legal (t : Term) : Prop :=
  IsName isWord (fun c => c.isLower == t.isVar) t.name

/-- A literal that can be written. -/
def Literal.Legal (l : Literal) : Prop :=
  IsName isWord isNameStart l.name ∧ ∀ t ∈ l.args, t.Legal

/-- A name that a quantifier can bind. -/
def IsBoundName (name : String) : Prop :=
  IsName isBoundChar Char.isLower name

instance (name : String) : Decidable (IsBoundName name) :=
  inferInstanceAs (Decidable (IsName ..))

/-- The character of a marker. -/
def Sentence.Marker.symbol : Marker → Char
  | .universal => '∀'
  | .existential => '∃'

namespace Formula

/-- A formula that can be written: its names can, and what is joined has two parts at
    least. -/
def Legal : Formula → Prop
  | .literal l => l.Legal
  | .joined _ parts => 1 < parts.length ∧ ∀ F ∈ parts, F.Legal
  | .implies A C => A.Legal ∧ C.Legal
  | .quantified _ x G => IsBoundName x ∧ G.Legal

/-- Puts parentheses around a compound formula. -/
def wrap (F : Formula) (text : List Char) : List Char :=
  match F with
  | .literal _ => text
  | _ => '(' :: text ++ [')']

/-- A formula written out with all parentheses. -/
def render : Formula → List Char
  | .literal l => l.text.toList
  | .joined j parts => List.intercalate [' ', j.symbol, ' '] (parts.map fun F => wrap F F.render)
  | .implies A C => wrap A A.render ++ [' ', '⇒', ' '] ++ wrap C C.render
  | .quantified m x G => m.symbol :: x.toList ++ ' ' :: wrap G G.render

end Formula

/-! ### Joined parts -/

namespace Sentence

theorem trim_append_blank {text : List Char} (h : Text.trim text = text) :
    Text.trim (text ++ [' ']) = text := by
  cases text with
  | nil => decide
  | cons c rest =>
    have hhead : Text.isBlank c = false := head?_trim (c :: rest) c (by rw [h]; rfl)
    have hfront : Text.trimLeft (c :: rest ++ [' ']) = c :: rest ++ [' '] :=
      List.dropWhile_cons_of_neg (Bool.eq_false_iff.1 hhead)
    have hfront' : Text.trimLeft (c :: rest) = c :: rest :=
      List.dropWhile_cons_of_neg (Bool.eq_false_iff.1 hhead)
    rw [Text.trim, hfront'] at h
    rw [Text.trim, hfront, Text.trimRight, List.reverse_append]
    exact h

/-- **Cutting what was joined** gives the parts back. -/
theorem splitTop_intercalate {connective : Char} (hopen : connective ≠ '(')
    (hclose : connective ≠ ')') (hblank : connective ≠ ' ') {w : List Char} {ws : List (List Char)}
    (h : ∀ a ∈ w :: ws, Solid connective a ∧ Text.trim a = a) :
    splitTop connective (List.intercalate [' ', connective, ' '] (w :: ws)) = w :: ws := by
  induction ws generalizing w with
  | nil =>
    obtain ⟨hsolid, htrim⟩ := h w (List.mem_cons_self ..)
    rw [List.intercalate_singleton, hsolid.splitTop_eq, htrim]
  | cons w' ws ih =>
    obtain ⟨hsolid, htrim⟩ := h w (List.mem_cons_self ..)
    have hrest := ih fun a ha => h a (List.mem_cons_of_mem _ ha)
    -- the connective behind the first part, between two blanks
    have hcut : ∀ rest, cutFrom connective 0 (' ' :: connective :: ' ' :: rest)
        = [' '] :: consFirst ' ' (cutFrom connective 0 rest) := by
      intro rest
      simp [cutFrom, hopen, hclose, Ne.symm hblank, consFirst]
    have hblankFirst : ∀ parts : List (List Char), parts ≠ [] →
        (consFirst ' ' parts).map Text.trim = parts.map Text.trim := by
      intro parts hne
      cases parts with
      | nil => exact absurd rfl hne
      | cons part parts => rfl
    rw [splitTop] at hrest
    rw [List.intercalate_cons_cons, List.append_assoc, splitTop, hsolid]
    simp only [List.cons_append, List.nil_append]
    rw [hcut, appendFirst_cons, List.map_cons, trim_append_blank htrim,
      hblankFirst _ (cutFrom_ne_nil _ _ _), hrest]

end Sentence

/-! ### Literals -/

theorem IsName.cons {letter first : Char → Bool} {name : String} (h : IsName letter first name) :
    ∃ c rest, name.toList = c :: rest ∧ first c = true := by
  obtain ⟨_, hfirst⟩ := h
  cases hname : name.toList with
  | nil => rw [hname] at hfirst; cases hfirst
  | cons c rest =>
    rw [hname] at hfirst
    exact ⟨c, rest, rfl, Option.some.inj hfirst⟩

namespace Sentence

theorem trim_word {text : List Char} (h : ∀ c ∈ text, isWord c = true) : Text.trim text = text :=
  trim_eq_self (fun c hc => isBlank_of_isWord (h c (List.mem_of_mem_head? hc)))
    fun c hc => isBlank_of_isWord (h c (List.mem_of_getLast? hc))

theorem readTerm_name {t : Term} (h : t.Legal) : readTerm t.name.toList = .ok t := by
  obtain ⟨c, rest, hname, hfirst⟩ := IsName.cons h
  have hall : (c :: rest).all isWord = true := by
    rw [← hname]
    exact List.all_eq_true.2 h.1
  have hkind : c.isLower = t.isVar := by simpa using hfirst
  rw [readTerm, trim_word h.1, hname]
  dsimp only
  rw [if_pos hall, ← hname, String.ofList_toList, hkind]
  cases t <;> rfl

theorem readTerm_padded {t : Term} (h : t.Legal) {pad : List Char} (hpad : pad = [] ∨ pad = [' ']) :
    ',' ∉ pad ++ t.name.toList ∧ readTerm (pad ++ t.name.toList) = .ok t := by
  have hcomma : ',' ∉ t.name.toList := fun hmem => isWord_ne (h.1 _ hmem) (by decide) rfl
  rcases hpad with rfl | rfl
  · exact ⟨hcomma, readTerm_name h⟩
  · exact ⟨by simpa using hcomma, readTerm_name h⟩

theorem splitAt_of_not_mem {sep : Char} {text : List Char} (h : sep ∉ text) :
    Text.splitAt sep text = [text] := by
  induction text with
  | nil => rfl
  | cons c rest ih =>
    have hc : c ≠ sep := fun e => h (e ▸ List.mem_cons_self ..)
    rw [Text.splitAt, if_neg hc, ih fun hmem => h (List.mem_cons_of_mem _ hmem)]

theorem splitAt_append {sep : Char} {text rest : List Char} (h : sep ∉ text) :
    Text.splitAt sep (text ++ sep :: rest) = text :: Text.splitAt sep rest := by
  induction text with
  | nil => rw [List.nil_append, Text.splitAt, if_pos rfl]
  | cons c tail ih =>
    have hc : c ≠ sep := fun e => h (e ▸ List.mem_cons_self ..)
    rw [List.cons_append, Text.splitAt, if_neg hc, ih fun hmem => h (List.mem_cons_of_mem _ hmem)]

/-- Names behind commas are read one by one; a blank in front of the first changes
    nothing. -/
theorem readTerms_names {t : Term} {ts : List Term} (h : ∀ u ∈ t :: ts, u.Legal)
    {pad : List Char} (hpad : pad = [] ∨ pad = [' ']) :
    (Text.splitAt ',' (pad ++ List.intercalate [',', ' ']
      ((t :: ts).map fun u => u.name.toList))).mapM readTerm = .ok (t :: ts) := by
  induction ts generalizing t pad with
  | nil =>
    obtain ⟨hcomma, hread⟩ := readTerm_padded (h t (List.mem_cons_self ..)) hpad
    rw [List.map_singleton, List.intercalate_singleton, splitAt_of_not_mem hcomma]
    exact mapM_eq_ok_iff.2 (.cons hread .nil)
  | cons t' ts ih =>
    obtain ⟨hcomma, hread⟩ := readTerm_padded (h t (List.mem_cons_self ..)) hpad
    have hrest := ih (fun u hu => h u (List.mem_cons_of_mem _ hu)) (.inr rfl)
    rw [List.map_cons] at hrest
    rw [List.map_cons, List.map_cons, List.intercalate_cons_cons, List.append_assoc,
      ← List.append_assoc pad]
    show (Text.splitAt ',' (_ ++ ',' :: ([' '] ++ _))).mapM readTerm = _
    rw [splitAt_append hcomma]
    exact mapM_eq_ok_iff.2 (.cons hread (mapM_eq_ok_iff.1 hrest))

theorem readArgs_names {t : Term} {ts : List Term} (h : ∀ u ∈ t :: ts, u.Legal) :
    readArgs (List.intercalate [',', ' '] ((t :: ts).map fun u => u.name.toList))
      = .ok (t :: ts) := by
  have hread := readTerms_names h (.inl rfl)
  rw [List.nil_append] at hread
  -- there is a name, so the text is not blank
  have hne : (Text.trim (List.intercalate [',', ' ']
      ((t :: ts).map fun u => u.name.toList))).isEmpty = false := by
    have hlegal := h t (List.mem_cons_self ..)
    obtain ⟨c, rest, hcons, _⟩ := IsName.cons hlegal
    have hc : c ∈ t.name.toList := by rw [hcons]; exact List.mem_cons_self ..
    have hmem : c ∈ List.intercalate [',', ' '] ((t :: ts).map fun u => u.name.toList) := by
      cases ts with
      | nil => rwa [List.map_singleton, List.intercalate_singleton]
      | cons t' ts =>
        rw [List.map_cons, List.map_cons, List.intercalate_cons_cons]
        exact List.mem_append_left _ (List.mem_append_left _ hc)
    exact List.isEmpty_eq_false_iff_exists_mem.2
      ⟨c, mem_trim hmem (isBlank_of_isWord (hlegal.1 c hc))⟩
  rw [readArgs, hne]
  exact hread

/-- The arguments of an atom as they are written. -/
def spellArgs (ts : List Term) : List Char :=
  if ts.isEmpty then []
  else '(' :: (List.intercalate [',', ' '] (ts.map fun t => t.name.toList) ++ [')'])

theorem toList_text (l : Literal) :
    l.text.toList = (if l.negated then ['¬'] else []) ++ (l.name.toList ++ spellArgs l.args) := by
  rw [Literal.text, spellArgs]
  by_cases hneg : l.negated = true <;> by_cases hargs : l.args.isEmpty = true <;>
    simp [hneg, hargs, String.toList_intercalate, Function.comp_def]

theorem mem_names {ts : List Term} (h : ∀ t ∈ ts, t.Legal) {c : Char}
    (hc : c ∈ List.intercalate [',', ' '] (ts.map fun t => t.name.toList)) :
    isWord c = true ∨ c = ',' ∨ c = ' ' := by
  rcases mem_of_mem_intercalate hc with hc | ⟨w, hw, hc⟩
  · exact .inr (by simpa using hc)
  · obtain ⟨t, ht, rfl⟩ := List.mem_map.1 hw
    exact .inl ((h t ht).1 c hc)

theorem atomParts?_spell {name : String} {ts : List Term} (hname : IsName isWord isNameStart name)
    (hargs : ∀ t ∈ ts, t.Legal) : atomParts? (name.toList ++ spellArgs ts)
      = some (name.toList, if ts.isEmpty then none else
        some (List.intercalate [',', ' '] (ts.map fun t => t.name.toList))) := by
  obtain ⟨c, rest, hcons, hfirst⟩ := hname.cons
  have hstart : name.toList ++ spellArgs ts = c :: (rest ++ spellArgs ts) := by
    rw [hcons, List.cons_append]
  -- the arguments begin with a parenthesis, so the name ends in front of them
  have hbehind : (spellArgs ts).takeWhile isWord = [] ∧
      ((spellArgs ts).dropWhile isWord).dropWhile Text.isBlank = spellArgs ts := by
    rw [spellArgs]
    split
    · exact ⟨rfl, rfl⟩
    · exact ⟨rfl, rfl⟩
  have htake : (name.toList ++ spellArgs ts).takeWhile isWord = name.toList := by
    rw [List.takeWhile_append_of_pos hname.1, hbehind.1, List.append_nil]
  have hdrop : ((name.toList ++ spellArgs ts).dropWhile isWord).dropWhile Text.isBlank
      = spellArgs ts := by
    rw [List.dropWhile_append_of_pos hname.1, hbehind.2]
  rw [hstart, atomParts?, if_pos hfirst, ← hstart, htake, hdrop, spellArgs]
  by_cases hempty : ts.isEmpty = true
  · simp [hempty]
  · have hparens : ∀ d ∈ List.intercalate [',', ' '] (ts.map fun t => t.name.toList),
        d ≠ '(' ∧ d ≠ ')' := by
      intro d hd
      rcases mem_names hargs hd with hd | rfl | rfl
      · exact ⟨isWord_ne hd (by decide), isWord_ne hd (by decide)⟩
      · decide
      · decide
    simp only [hempty, Bool.false_eq_true, if_false, List.dropLast_concat, List.getLast?_concat,
      true_and]
    rw [if_pos (List.all_eq_true.2 fun d hd => by simp [hparens d hd])]

theorem isWord_of_isNameStart {c : Char} (h : isNameStart c = true) : isWord c = true := by
  rw [isNameStart, Bool.or_eq_true] at h
  rw [isWord, Bool.or_eq_true, Char.isAlphanum, Bool.or_eq_true]
  exact h.imp .inl id

theorem isWord_of_isBoundChar {c : Char} (h : isBoundChar c = true) : isWord c = true := by
  rw [isBoundChar, Bool.or_eq_true, Bool.or_eq_true] at h
  rw [isWord, Bool.or_eq_true, Char.isAlphanum, Bool.or_eq_true, Char.isAlpha, Bool.or_eq_true]
  rcases h with (h | h) | h
  · exact .inl (.inl (.inr h))
  · exact .inl (.inr h)
  · exact .inr h

theorem inside?_of_head {c : Char} {rest : List Char} (hc : c ≠ '(') :
    inside? (c :: rest) = none := by
  unfold inside?
  split
  · rename_i heq
    exact absurd (List.cons.inj heq).1 hc
  · rfl

/-- A text that begins with no parenthesis is unwrapped already. -/
theorem unwrap_of_head {c : Char} {rest : List Char} (hc : c ≠ '(')
    (htrim : Text.trim (c :: rest) = c :: rest) : unwrap (c :: rest) = c :: rest :=
  unwrap_eq_self htrim (inside?_of_head hc)

theorem polarity_of_head {negated : Bool} {c : Char} {rest : List Char} (hsign : c ≠ '¬')
    (hunwrap : unwrap (c :: rest) = c :: rest) :
    polarity negated (c :: rest) = (negated, c :: rest) := by
  rw [polarity]
  split
  · rename_i heq
    rw [hunwrap] at heq
    exact absurd (List.cons.inj heq).1 hsign
  · rw [hunwrap]

theorem polarity_of_sign {negated : Bool} {rest : List Char}
    (htrim : Text.trim ('¬' :: rest) = '¬' :: rest) :
    polarity negated ('¬' :: rest) = polarity (!negated) rest := by
  rw [polarity]
  split
  · rename_i heq
    rw [unwrap_of_head (by decide) htrim] at heq
    rw [(List.cons.inj heq).2]
  · rename_i hne
    exact absurd (unwrap_of_head (by decide) htrim) (hne rest)

section Spelling

variable {name : String} {ts : List Term} (hname : IsName isWord isNameStart name)
  (hargs : ∀ t ∈ ts, t.Legal)
include hname

/-- An atom ends with a letter or a parenthesis. -/
theorem getLast?_spell (c : Char) (hc : (name.toList ++ spellArgs ts).getLast? = some c) :
    Text.isBlank c = false := by
  rw [spellArgs] at hc
  split at hc
  · rw [List.append_nil] at hc
    exact isBlank_of_isWord (hname.1 c (List.mem_of_getLast? hc))
  · rw [← List.cons_append, ← List.append_assoc, List.getLast?_concat] at hc
    cases hc
    decide

theorem trim_spell {sign : List Char} (hsign : sign = [] ∨ sign = ['¬']) :
    Text.trim (sign ++ (name.toList ++ spellArgs ts)) = sign ++ (name.toList ++ spellArgs ts) := by
  obtain ⟨d, rest, hcons, hfirst⟩ := hname.cons
  refine trim_eq_self (fun c hc => ?_) fun c hc => ?_
  · rcases hsign with rfl | rfl
    · rw [hcons] at hc
      cases hc
      exact isBlank_of_isWord (isWord_of_isNameStart hfirst)
    · cases hc
      decide
  · have hne : name.toList ++ spellArgs ts ≠ [] := by
      rw [hcons]
      exact List.cons_ne_nil _ _
    rw [List.getLast?_append_of_ne_nil _ hne] at hc
    exact getLast?_spell hname c hc

include hargs

theorem operatorFree_spell : ∀ c ∈ name.toList ++ spellArgs ts, isOperator c = false := by
  intro c hc
  by_contra hop
  rw [Bool.not_eq_false] at hop
  obtain ⟨hblank, hword, hother⟩ := isOperator_ne hop
  rcases List.mem_append.1 hc with hc | hc
  · rw [hname.1 c hc] at hword
    cases hword
  · rw [spellArgs] at hc
    split at hc
    · cases hc
    · rw [List.mem_cons, List.mem_append, List.mem_singleton] at hc
      rcases hc with rfl | hc | rfl
      · simp at hother
      · rcases mem_names hargs hc with hc | rfl | rfl
        · rw [hc] at hword
          cases hword
        · simp at hother
        · exact absurd hblank (by decide)
      · simp at hother

end Spelling

/-- **A literal is read back** from its text. -/
theorem readLiteral_text {l : Literal} (h : l.Legal) : readLiteral false l.text.toList = .ok l := by
  obtain ⟨hname, hargs⟩ := h
  obtain ⟨c, rest, hcons, hfirst⟩ := hname.cons
  have hword := isWord_of_isNameStart hfirst
  have hstart : l.name.toList ++ spellArgs l.args = c :: (rest ++ spellArgs l.args) := by
    rw [hcons, List.cons_append]
  -- the sign is taken off
  have hpolarity : polarity false l.text.toList
      = (l.negated, l.name.toList ++ spellArgs l.args) := by
    have hplain : ∀ b, polarity b (l.name.toList ++ spellArgs l.args)
        = (b, l.name.toList ++ spellArgs l.args) := by
      intro b
      have htrim : Text.trim ([] ++ (l.name.toList ++ spellArgs l.args)) = _ :=
        trim_spell hname (.inl rfl)
      rw [List.nil_append, hstart] at htrim
      rw [hstart]
      exact polarity_of_head (isWord_ne hword (by decide))
        (unwrap_of_head (isWord_ne hword (by decide)) htrim)
    rw [toList_text]
    cases l.negated with
    | false => exact hplain false
    | true =>
      have htrim : Text.trim (['¬'] ++ (l.name.toList ++ spellArgs l.args)) = _ :=
        trim_spell hname (.inr rfl)
      exact (polarity_of_sign htrim).trans (hplain true)
  have hconn : (l.name.toList ++ spellArgs l.args).any isConnective = false := by
    rw [List.any_eq_false]
    intro d hd hdc
    have := operatorFree_spell hname hargs d hd
    rw [isOperator_of_isConnective hdc] at this
    cases this
  have hempty : (l.name.toList ++ spellArgs l.args).isEmpty = false := by
    rw [hstart]
    rfl
  simp only [readLiteral, hpolarity, hconn, hempty, atomParts?_spell hname hargs,
    Bool.false_eq_true, if_false]
  cases hl : l.args with
  | nil =>
    simp only [List.isEmpty_nil, if_true, String.ofList_toList]
    rw [← hl]
    rfl
  | cons t ts =>
    rw [hl] at hargs
    have hread := readArgs_names hargs
    simp only [List.isEmpty_cons, Bool.false_eq_true, if_false, hread, String.ofList_toList]
    rw [← hl]
    rfl

/-! ### Texts without blanks at their ends -/

/-- There is something, and no blank at either end. -/
structure Trimmed (text : List Char) : Prop where
  /-- The first character. -/
  head : ∃ c, text.head? = some c ∧ Text.isBlank c = false
  /-- The last character. -/
  last : ∃ c, text.getLast? = some c ∧ Text.isBlank c = false

theorem Trimmed.trim_eq {text : List Char} (h : Trimmed text) : Text.trim text = text := by
  obtain ⟨⟨c, hc, hcblank⟩, d, hd, hdblank⟩ := h
  refine trim_eq_self (fun e he => ?_) fun e he => ?_
  · rw [hc] at he
    cases he
    exact hcblank
  · rw [hd] at he
    cases he
    exact hdblank

theorem Trimmed.ne_nil {text : List Char} (h : Trimmed text) : text ≠ [] := by
  rintro rfl
  obtain ⟨⟨_, hc, _⟩, _⟩ := h
  cases hc

theorem Trimmed.between {a m b : List Char} (ha : Trimmed a) (hb : Trimmed b) :
    Trimmed (a ++ m ++ b) := by
  refine ⟨?_, ?_⟩
  · obtain ⟨c, hc, hblank⟩ := ha.head
    exact ⟨c, by simp [List.head?_append, hc], hblank⟩
  · rw [List.getLast?_append_of_ne_nil _ hb.ne_nil]
    exact hb.last

theorem Trimmed.intercalate {sep w : List Char} {ws : List (List Char)}
    (h : ∀ a ∈ w :: ws, Trimmed a) : Trimmed (List.intercalate sep (w :: ws)) := by
  induction ws generalizing w with
  | nil =>
    rw [List.intercalate_singleton]
    exact h w (List.mem_cons_self ..)
  | cons w' ws ih =>
    rw [List.intercalate_cons_cons]
    exact (h w (List.mem_cons_self ..)).between (ih fun a ha => h a (List.mem_cons_of_mem _ ha))

theorem Grouped.intercalate {sep : List Char} {ws : List (List Char)} (hsep : Grouped sep)
    (h : ∀ w ∈ ws, Grouped w) : Grouped (List.intercalate sep ws) := by
  induction ws with
  | nil => exact .nil
  | cons w ws ih =>
    have hw := h w (List.mem_cons_self ..)
    have hrest := ih fun a ha => h a (List.mem_cons_of_mem _ ha)
    cases ws with
    | nil => rwa [List.intercalate_singleton]
    | cons w' ws =>
      rw [List.intercalate_cons_cons]
      exact (hw.append hsep).append hrest

theorem trimmed_text {l : Literal} (h : l.Legal) : Trimmed l.text.toList := by
  obtain ⟨hname, hargs⟩ := h
  obtain ⟨c, rest, hcons, hfirst⟩ := hname.cons
  have hne : l.name.toList ++ spellArgs l.args ≠ [] := by
    rw [hcons]
    exact List.cons_ne_nil _ _
  rw [toList_text]
  refine ⟨?_, ?_⟩
  · cases l.negated with
    | true => exact ⟨'¬', rfl, by decide⟩
    | false =>
      rw [hcons]
      exact ⟨c, rfl, isBlank_of_isWord (isWord_of_isNameStart hfirst)⟩
  · rw [List.getLast?_append_of_ne_nil _ hne]
    have hlast := List.getLast?_eq_some_getLast hne
    exact ⟨_, hlast, getLast?_spell hname _ hlast⟩

/-- The first character of a literal. -/
theorem head_text {l : Literal} (h : l.Legal) : ∃ c rest, l.text.toList = c :: rest ∧
    Text.isBlank c = false ∧ c ∉ ['(', ',', '.', '∀', '∃'] := by
  obtain ⟨d, rest, hcons, hfirst⟩ := h.1.cons
  rw [toList_text, hcons]
  cases l.negated with
  | true => exact ⟨'¬', _, rfl, by decide⟩
  | false =>
    have hword := isWord_of_isNameStart hfirst
    refine ⟨d, _, rfl, isBlank_of_isWord hword, fun hmem => ?_⟩
    simp only [List.mem_cons, List.not_mem_nil, or_false] at hmem
    rcases hmem with rfl | rfl | rfl | rfl | rfl <;> exact absurd hword (by decide)

/-- What stands in front of the arguments of a literal. -/
theorem plain_front {l : Literal} (h : l.Legal) :
    ∀ c ∈ (if l.negated then ['¬'] else []) ++ l.name.toList,
      c ≠ '(' ∧ c ≠ ')' ∧ isOperator c = false := by
  intro c hc
  rcases List.mem_append.1 hc with hc | hc
  · have hsign : c = '¬' := by
      split at hc
      · exact List.mem_singleton.1 hc
      · cases hc
    subst hsign
    decide
  · have hword := h.1.1 c hc
    refine ⟨isWord_ne hword (by decide), isWord_ne hword (by decide), ?_⟩
    by_contra hop
    rw [Bool.not_eq_false] at hop
    rw [(isOperator_ne hop).2.1] at hword
    cases hword

theorem grouped_names {ts : List Term} (h : ∀ t ∈ ts, t.Legal) :
    Grouped (List.intercalate [',', ' '] (ts.map fun t => t.name.toList)) := by
  refine .of_plain fun c hc => ?_
  rcases mem_names h hc with hc | rfl | rfl
  · exact ⟨isWord_ne hc (by decide), isWord_ne hc (by decide)⟩
  · decide
  · decide

theorem grouped_text {l : Literal} (h : l.Legal) : Grouped l.text.toList := by
  rw [toList_text, ← List.append_assoc]
  refine Grouped.append (.of_plain fun c hc => ?_) ?_
  · obtain ⟨hopen, hclose, _⟩ := plain_front h c hc
    exact ⟨hopen, hclose⟩
  · rw [spellArgs]
    split
    · exact .nil
    · exact (grouped_names h.2).wrapped

theorem solid_text {connective : Char} (hop : isOperator connective = true) {l : Literal}
    (h : l.Legal) : Solid connective l.text.toList := by
  rw [toList_text, ← List.append_assoc]
  refine Solid.append (solid_of_plain fun c hc => ?_) ?_
  · obtain ⟨hopen, hclose, hfree⟩ := plain_front h c hc
    refine ⟨hopen, hclose, ?_⟩
    rintro rfl
    rw [hop] at hfree
    cases hfree
  · rw [spellArgs]
    split
    · exact fun _ => rfl
    · exact solid_wrapped (grouped_names h.2)

end Sentence

/-! ### Formulas -/

namespace Formula

theorem wrap_literal (l : Literal) (text : List Char) : wrap (.literal l) text = text := rfl

theorem wrap_cases (F : Formula) (text : List Char) :
    (∃ l, F = .literal l) ∨ wrap F text = '(' :: text ++ [')'] := by
  cases F with
  | literal l => exact .inl ⟨l, rfl⟩
  | _ => exact .inr rfl

theorem grouped_render {F : Formula} (h : F.Legal) :
    Grouped F.render ∧ Grouped (wrap F F.render) := by
  have hwrap : ∀ F : Formula, Grouped F.render → Grouped (wrap F F.render) := by
    intro F hF
    rcases wrap_cases F F.render with ⟨l, rfl⟩ | heq
    · exact hF
    · rw [heq]
      exact hF.wrapped
  suffices hrender : Grouped F.render from ⟨hrender, hwrap F hrender⟩
  induction F with
  | literal l =>
    rw [Legal] at h
    rw [render]
    exact grouped_text h
  | joined j parts ih =>
    rw [Legal] at h
    rw [render]
    refine Grouped.intercalate (.of_plain ?_) fun w hw => ?_
    · cases j <;> simp [Junctor.symbol]
    · obtain ⟨F, hF, rfl⟩ := List.mem_map.1 hw
      exact hwrap F (ih F hF (h.2 F hF))
  | implies A C ihA ihC =>
    rw [Legal] at h
    rw [render]
    refine ((hwrap A (ihA h.1)).append (.of_plain ?_)).append (hwrap C (ihC h.2))
    simp
  | quantified m x G ih =>
    rw [Legal] at h
    rw [render]
    refine Grouped.append (.of_plain fun c hc => ?_) (.cons (by decide) (by decide)
      (hwrap G (ih h.2)))
    rcases List.mem_cons.1 hc with rfl | hc
    · cases m <;> decide
    · have hword := isWord_of_isBoundChar (h.1.1 c hc)
      exact ⟨isWord_ne hword (by decide), isWord_ne hword (by decide)⟩

theorem trimmed_wrap {F : Formula} (h : Trimmed F.render) : Trimmed (wrap F F.render) := by
  rcases wrap_cases F F.render with ⟨l, rfl⟩ | heq
  · exact h
  · rw [heq]
    exact ⟨⟨'(', rfl, by decide⟩, ')', List.getLast?_concat, by decide⟩

theorem trimmed_render {F : Formula} (h : F.Legal) : Trimmed F.render := by
  induction F with
  | literal l =>
    rw [Legal] at h
    rw [render]
    exact trimmed_text h
  | joined j parts ih =>
    rw [Legal] at h
    rw [render]
    cases parts with
    | nil => simp at h
    | cons F Fs =>
      refine Trimmed.intercalate fun w hw => ?_
      have hw : w ∈ (F :: Fs).map fun F => wrap F F.render := hw
      obtain ⟨G, hG, rfl⟩ := List.mem_map.1 hw
      exact trimmed_wrap (ih G hG (h.2 G hG))
  | implies A C ihA ihC =>
    rw [Legal] at h
    rw [render]
    exact (trimmed_wrap (ihA h.1)).between (trimmed_wrap (ihC h.2))
  | quantified m x G ih =>
    rw [Legal] at h
    rw [render]
    have hG := trimmed_wrap (ih h.2)
    refine ⟨⟨m.symbol, rfl, by cases m <;> decide⟩, ?_⟩
    rw [List.getLast?_append_of_ne_nil _ (List.cons_ne_nil _ _), List.getLast?_cons_of_ne_nil hG.ne_nil]
    exact hG.last

theorem solid_wrap {connective : Char} (hop : isOperator connective = true) {F : Formula}
    (h : F.Legal) : Solid connective (wrap F F.render) := by
  rcases wrap_cases F F.render with ⟨l, rfl⟩ | heq
  · rw [Legal] at h
    rw [wrap_literal, render]
    exact solid_text hop h
  · rw [heq]
    exact solid_wrapped (grouped_render h).1

/-- The first character of a formula in its parentheses. -/
theorem head_wrap {F : Formula} (h : F.Legal) : ∃ c rest, wrap F F.render = c :: rest ∧
    Text.isBlank c = false ∧ c ∉ [',', '.', '∀', '∃'] := by
  rcases wrap_cases F F.render with ⟨l, rfl⟩ | heq
  · rw [Legal] at h
    obtain ⟨c, rest, hcons, hblank, hne⟩ := head_text h
    rw [wrap_literal, render]
    exact ⟨c, rest, hcons, hblank, fun hmem => hne (List.mem_cons_of_mem _ hmem)⟩
  · exact ⟨'(', _, heq, by decide⟩

/-- Parentheses that close in front of the end wrap nothing. -/
theorem inside?_wrap_append {F : Formula} (h : F.Legal) (c : Char) (rest : List Char) :
    inside? (wrap F F.render ++ c :: rest) = none := by
  rcases wrap_cases F F.render with ⟨l, rfl⟩ | heq
  · rw [Legal] at h
    obtain ⟨d, tail, hcons, _, hne⟩ := head_text h
    rw [wrap_literal, render, hcons]
    exact inside?_of_head fun e => hne (e ▸ List.mem_cons_self ..)
  · rw [heq, List.append_assoc, List.cons_append, inside?, (grouped_render h).1.closesAtEnd]
    simp [closesAtEnd]

/-- What is joined begins with its first part and goes on behind it. -/
theorem intercalate_eq_append (connective : Char) (w w' : List Char) (ws : List (List Char)) :
    ∃ rest, List.intercalate [' ', connective, ' '] (w :: w' :: ws) = w ++ ' ' :: rest := by
  rw [List.intercalate_cons_cons, List.append_assoc]
  exact ⟨_, rfl⟩

/-- A formula does not begin and end with partners. -/
theorem unwrap_render {F : Formula} (h : F.Legal) : unwrap F.render = F.render := by
  refine unwrap_eq_self (trimmed_render h).trim_eq ?_
  cases F with
  | literal l =>
    rw [Legal] at h
    obtain ⟨d, tail, hcons, _, hne⟩ := head_text h
    rw [render, hcons]
    exact inside?_of_head fun e => hne (e ▸ List.mem_cons_self ..)
  | joined j parts =>
    rw [Legal] at h
    rw [render]
    match parts, h with
    | F :: G :: rest, h =>
      obtain ⟨behind, heq⟩ := intercalate_eq_append j.symbol (wrap F F.render) (wrap G G.render)
        (rest.map fun F => wrap F F.render)
      rw [List.map_cons, List.map_cons, heq]
      exact inside?_wrap_append (h.2 F (List.mem_cons_self ..)) _ _
  | implies A C =>
    rw [Legal] at h
    rw [render, List.append_assoc]
    exact inside?_wrap_append h.1 _ _
  | quantified m x G =>
    rw [render]
    refine inside?_of_head ?_
    cases m <;> decide

theorem unwrap_wrap {F : Formula} (h : F.Legal) : unwrap (wrap F F.render) = F.render := by
  rcases wrap_cases F F.render with ⟨l, rfl⟩ | heq
  · exact unwrap_render h
  · rw [heq, unwrap_group (grouped_render h).1, unwrap_render h]

/-! #### Quantifiers -/

theorem takeName?_append {x : String} (h : IsBoundName x) {rest : List Char}
    (hrest : ∀ c, rest.head? = some c → isBoundChar c = false) :
    takeName? (x.toList ++ rest) = some (x, rest) := by
  obtain ⟨c, tail, hcons, hfirst⟩ := IsName.cons h
  have htail : ∀ d ∈ tail, isBoundChar d = true :=
    fun d hd => h.1 d (hcons ▸ List.mem_cons_of_mem _ hd)
  obtain ⟨htake, hdrop⟩ := takeWhile_dropWhile_append htail hrest
  rw [hcons, List.cons_append, takeName?, if_pos hfirst, htake, hdrop, ← hcons,
    String.ofList_toList]

theorem block?_render {m : Marker} {x : String} {G : Formula}
    (h : (Formula.quantified m x G).Legal) :
    block? (Formula.quantified m x G).render = some (⟨m, [x]⟩, wrap G G.render) := by
  rw [Legal] at h
  obtain ⟨c, rest, hcons, hblank, hne⟩ := head_wrap h.2
  have hmarker : marker? m.symbol = some m := by cases m <;> rfl
  obtain ⟨d, tail, hname, hfirst⟩ := IsName.cons h.1
  have hskip : (x.toList ++ ' ' :: wrap G G.render).dropWhile Text.isBlank
      = x.toList ++ ' ' :: wrap G G.render := by
    have hd : isBoundChar d = true := h.1.1 d (by rw [hname]; exact List.mem_cons_self ..)
    rw [hname, List.cons_append]
    exact List.dropWhile_cons_of_neg
      (Bool.eq_false_iff.1 (isBlank_of_isWord (isWord_of_isBoundChar hd)))
  have hback : (' ' :: wrap G G.render).dropWhile Text.isBlank = c :: rest := by
    rw [List.dropWhile_cons_of_pos (by decide), hcons]
    exact List.dropWhile_cons_of_neg (Bool.eq_false_iff.1 hblank)
  have htake : takeName? (x.toList ++ ' ' :: wrap G G.render) = some (x, ' ' :: wrap G G.render) :=
    takeName?_append h.1 fun e he => by cases he; decide
  -- neither a further name nor a dot follows
  have hfurther : furtherNames (' ' :: wrap G G.render) = ([], ' ' :: wrap G G.render) := by
    have hnone : furtherName? (' ' :: wrap G G.render) = none := by
      rw [furtherName?, hback]
      split
      · rename_i heq
        exact absurd (List.cons.inj heq).1 fun e => hne (by simp [e])
      · rfl
    rw [furtherNames]
    split
    · rfl
    · rename_i heq
      rw [hnone] at heq
      cases heq
  have hdot : dropDot (' ' :: wrap G G.render) = wrap G G.render := by
    rw [dropDot, hback]
    split
    · rename_i heq
      exact absurd (List.cons.inj heq).1 fun e => hne (by simp [e])
    · exact hcons.symm
  rw [render, List.cons_append, block?, hskip, hmarker, htake]
  dsimp only
  rw [hfurther, hdot]

theorem block?_render_of_lead {F : Formula} (h : F.Legal) (hlead : F.lead = []) :
    block? F.render = none := by
  have hhead : ∃ c rest, F.render = c :: rest ∧ c ∉ [',', '.', '∀', '∃'] := by
    cases F with
    | literal l =>
      obtain ⟨c, rest, hcons, _, hne⟩ := head_wrap h
      exact ⟨c, rest, hcons, hne⟩
    | joined j parts =>
      rw [Legal] at h
      rw [render]
      match parts, h with
      | F :: G :: rest, h =>
        obtain ⟨behind, heq⟩ := intercalate_eq_append j.symbol (wrap F F.render) (wrap G G.render)
          (rest.map fun F => wrap F F.render)
        obtain ⟨c, tail, hcons, _, hne⟩ := head_wrap (h.2 F (List.mem_cons_self ..))
        rw [List.map_cons, List.map_cons, heq, hcons]
        exact ⟨c, _, rfl, hne⟩
    | implies A C =>
      rw [Legal] at h
      obtain ⟨c, tail, hcons, _, hne⟩ := head_wrap h.1
      rw [render, hcons]
      exact ⟨c, _, rfl, hne⟩
    | quantified => cases hlead
  obtain ⟨c, rest, hcons, hne⟩ := hhead
  have hmarker : marker? c = none := by
    unfold marker?
    split
    · simp at hne
    · simp at hne
    · rfl
  simp [hcons, block?, hmarker]

/-- **Quantifiers in front** of a formula are read off its text. -/
theorem leading_render {F : Formula} (h : F.Legal) :
    quantifiersOf (leading F.render).1 = F.lead ∧ (leading F.render).2 = F.body.render := by
  have hplain : ∀ F : Formula, F.Legal → F.lead = [] → F.body = F →
      quantifiersOf (leading F.render).1 = F.lead ∧ (leading F.render).2 = F.body.render := by
    intro F h hlead hbody
    have hnone : block? (unwrap F.render) = none := by
      rw [unwrap_render h]
      exact block?_render_of_lead h hlead
    rw [leading_of_none hnone, hlead, hbody, unwrap_render h]
    exact ⟨rfl, rfl⟩
  induction F with
  | literal | joined | implies => exact hplain _ h rfl rfl
  | quantified m x G ih =>
    have hblock : block? (unwrap (Formula.quantified m x G).render)
        = some (⟨m, [x]⟩, wrap G G.render) := by
      rw [unwrap_render h]
      exact block?_render h
    rw [Legal] at h
    obtain ⟨hlead, hbody⟩ := ih h.2
    rw [leading_of_some hblock, ← leading_unwrap (wrap G G.render), unwrap_wrap h.2]
    exact ⟨congrArg ((m, x) :: ·) hlead, hbody⟩

/-! #### Reading back -/

theorem solid_intercalate {connective other : Char} (hne : connective ≠ other)
    (hop : isOperator connective = true) (hopen : other ≠ '(') (hclose : other ≠ ')')
    {ws : List (List Char)} (h : ∀ w ∈ ws, Solid connective w) :
    Solid connective (List.intercalate [' ', other, ' '] ws) := by
  obtain ⟨hblank, _, _⟩ := isOperator_ne hop
  have hspace : ' ' ≠ connective := by
    rintro rfl
    exact absurd hblank (by decide)
  have hsep : Solid connective [' ', other, ' '] := solid_of_plain fun c hc => by
    simp only [List.mem_cons, List.not_mem_nil, or_false] at hc
    rcases hc with rfl | rfl | rfl
    · exact ⟨by decide, by decide, hspace⟩
    · exact ⟨hopen, hclose, hne.symm⟩
    · exact ⟨by decide, by decide, hspace⟩
  induction ws with
  | nil => exact fun _ => rfl
  | cons w ws ih =>
    have hw := h w (List.mem_cons_self ..)
    have hrest := ih fun a ha => h a (List.mem_cons_of_mem _ ha)
    cases ws with
    | nil => rwa [List.intercalate_singleton]
    | cons w' ws =>
      rw [List.intercalate_cons_cons]
      exact (hw.append hsep).append hrest

/-- The parts of what is joined are cut apart again. -/
theorem splitTop_render {connective : Char} (hop : isOperator connective = true)
    {parts : List Formula} (hne : parts ≠ []) (h : ∀ F ∈ parts, F.Legal) :
    splitTop connective (List.intercalate [' ', connective, ' ']
      (parts.map fun F => wrap F F.render)) = parts.map fun F => wrap F F.render := by
  have hblank := (isOperator_ne hop).1
  obtain ⟨hopen, hclose⟩ := isOperator_ne_paren hop
  cases parts with
  | nil => exact absurd rfl hne
  | cons F Fs =>
    refine splitTop_intercalate hopen hclose (by rintro rfl; exact absurd hblank (by decide))
      fun w hw => ?_
    have hw : w ∈ (F :: Fs).map fun F => wrap F F.render := hw
    obtain ⟨G, hG, rfl⟩ := List.mem_map.1 hw
    exact ⟨solid_wrap hop (h G hG), (trimmed_wrap (trimmed_render (h G hG))).trim_eq⟩

/-- No other connective cuts a text that a junctor joins. -/
theorem splitTop_render_joined {j : Junctor} {parts : List Formula}
    (h : (Formula.joined j parts).Legal) {connective : Char} (hop : isOperator connective = true)
    (hne : connective ≠ j.symbol) :
    splitTop connective (Formula.joined j parts).render
      = [Text.trim (Formula.joined j parts).render] := by
  obtain ⟨hopen, hclose⟩ := isOperator_ne_paren (isOperator_symbol j)
  rw [Legal] at h
  apply Solid.splitTop_eq
  rw [render]
  apply solid_intercalate hne hop hopen hclose
  intro w hw
  obtain ⟨F, hF, rfl⟩ := List.mem_map.1 hw
  exact solid_wrap hop (h.2 F hF)

/-- The text of several formulas in a row spells the row, if each text spells its formula. -/
theorem spells_joined {j : Junctor} {parts : List Formula} (h : (Formula.joined j parts).Legal)
    (outer : Junctor) (hparts : ∀ F ∈ parts, parse outer (wrap F F.render) = some F) :
    Spells outer (Formula.joined j parts).render (.joined j parts) := by
  have hother : ∀ {connective : Char}, isOperator connective = true → connective ≠ j.symbol →
      splitTop connective (Formula.joined j parts).render
        = [Text.trim (Formula.joined j parts).render] := splitTop_render_joined h
  rw [Legal] at h
  have hsplit : splitTop j.symbol (Formula.joined j parts).render
      = parts.map fun F => wrap F F.render := by
    rw [render]
    exact splitTop_render (isOperator_symbol j) (by rintro rfl; simp at h) h.2
  refine .joined ?_ ?_ ?_ ?_
  · rw [hother (by decide) (by cases j <;> decide)]
    simp
  · by_cases hj : j = outer
    · exact .inl hj
    · refine .inr ?_
      have hne : outer.symbol ≠ j.symbol := by
        cases j <;> cases outer <;> first | exact absurd rfl hj | decide
      rw [Splits, hother (isOperator_symbol outer) hne]
      simp
  · rw [Splits, hsplit, List.length_map]
    exact h.1
  · rw [hsplit, List.forall₂_map_left_iff, List.forall₂_same]
    exact hparts

/-- The text of an implication is cut into the texts of its sides. -/
theorem splitTop_render_implies {A C : Formula} (hA : A.Legal) (hC : C.Legal) :
    splitTop '⇒' (Formula.implies A C).render = [wrap A A.render, wrap C C.render] := by
  have harrow : isOperator '⇒' = true := by decide
  have hcut := splitTop_render harrow (List.cons_ne_nil A [C]) (by simp [hA, hC])
  rw [List.map_cons, List.map_singleton, List.intercalate_cons_cons,
    List.intercalate_singleton] at hcut
  rw [render]
  exact hcut

theorem parse_wrap {F : Formula} {outer : Junctor} (h : F.Legal)
    (hparse : parse outer F.render = some F) : parse outer (wrap F F.render) = some F := by
  rw [← parse_unwrap, unwrap_wrap h]
  exact hparse

/-- **A formula is read back** from its text. -/
theorem parse_render {F : Formula} (h : F.Legal) : ∀ outer, parse outer F.render = some F := by
  induction F with
  | literal l =>
    intro outer
    rw [Legal] at h
    rw [render]
    exact parse_eq_literal_iff.2 (readLiteral_text h)
  | joined j parts ih =>
    intro outer
    obtain ⟨hlead, hbody⟩ := leading_render h
    refine parse_iff.2 ⟨hlead.symm, ?_⟩
    rw [hbody]
    apply spells_joined h
    rw [Legal] at h
    exact fun F hF => parse_wrap (h.2 F hF) (ih F hF (h.2 F hF) outer)
  | implies A C ihA ihC =>
    intro outer
    obtain ⟨hlead, hbody⟩ := leading_render h
    rw [Legal] at h
    refine parse_iff.2 ⟨hlead.symm, ?_⟩
    rw [hbody]
    exact .arrow (splitTop_render_implies h.1 h.2) (parse_wrap h.1 (ihA h.1 .or))
      (parse_wrap h.2 (ihC h.2 .and))
  | quantified m x G ih =>
    intro outer
    obtain ⟨hlead, hbody⟩ := leading_render h
    rw [Legal] at h
    obtain ⟨hlead', hspells⟩ := parse_iff.1 (ih h.2 outer)
    rw [(leading_render h.2).2] at hspells
    exact parse_iff.2 ⟨hlead.symm, hbody ▸ hspells⟩

/-! #### Normal form -/

/-- A text whose spelling is normal already. -/
def Plain (text : List Char) : Prop :=
  ∀ c ∈ text, isWord c = true ∨ c ∈ [' ', '(', ')', ',', '¬', '∧', '∨', '⇒', '∀', '∃']

theorem Plain.append {a b : List Char} (ha : Plain a) (hb : Plain b) : Plain (a ++ b) :=
  fun c hc => (List.mem_append.1 hc).elim (ha c) (hb c)

theorem plain_text {l : Literal} (h : l.Legal) : Plain l.text.toList := by
  rw [toList_text]
  refine Plain.append ?_ (Plain.append (fun c hc => .inl (h.1.1 c hc)) ?_)
  · cases l.negated <;> simp [Plain]
  · rw [spellArgs]
    split
    · exact fun _ hc => by cases hc
    · intro c hc
      rw [List.mem_cons, List.mem_append, List.mem_singleton] at hc
      rcases hc with rfl | hc | rfl
      · simp
      · rcases mem_names h.2 hc with hc | rfl | rfl
        · exact .inl hc
        · simp
        · simp
      · simp

theorem plain_wrap {F : Formula} (h : Plain F.render) : Plain (wrap F F.render) := by
  rcases wrap_cases F F.render with ⟨l, rfl⟩ | heq
  · exact h
  · rw [heq]
    exact Plain.append (Plain.append (a := ['(']) (by simp [Plain]) h) (by simp [Plain])

theorem plain_render {F : Formula} (h : F.Legal) : Plain F.render := by
  induction F with
  | literal l =>
    rw [Legal] at h
    rw [render]
    exact plain_text h
  | joined j parts ih =>
    rw [Legal] at h
    rw [render]
    intro c hc
    rcases mem_of_mem_intercalate hc with hc | ⟨w, hw, hc⟩
    · refine .inr ?_
      cases j <;> simp only [Junctor.symbol, List.mem_cons, List.not_mem_nil, or_false] at hc <;>
        rcases hc with rfl | rfl | rfl <;> decide
    · obtain ⟨F, hF, rfl⟩ := List.mem_map.1 hw
      exact plain_wrap (ih F hF (h.2 F hF)) c hc
  | implies A C ihA ihC =>
    rw [Legal] at h
    rw [render]
    refine (Plain.append (plain_wrap (ihA h.1)) ?_).append (plain_wrap (ihC h.2))
    simp [Plain]
  | quantified m x G ih =>
    rw [Legal] at h
    rw [render]
    refine Plain.append (fun c hc => ?_)
      (Plain.append (a := [' ']) (by simp [Plain]) (plain_wrap (ih h.2)))
    rcases List.mem_cons.1 hc with rfl | hc
    · cases m <;> simp [Marker.symbol]
    · exact .inl (isWord_of_isBoundChar (h.1.1 c hc))

theorem Plain.not_mem {text : List Char} (h : Plain text) {c : Char}
    (hc : (isWord c || [' ', '(', ')', ',', '¬', '∧', '∨', '⇒', '∀', '∃'].contains c) = false) :
    c ∉ text := by
  intro hmem
  rw [Bool.or_eq_false_iff] at hc
  rcases h c hmem with hword | hother
  · rw [hword] at hc
    cases hc.1
  · rw [List.contains_iff_mem.2 hother] at hc
    cases hc.2

theorem canonical_of_plain {text : List Char} (h : Plain text) : canonical text = text := by
  fun_induction canonical text with
  | case1 => rfl
  | case2 rest ih => exact absurd (List.mem_cons_self ..) (h.not_mem (c := '=') (by decide))
  | case3 rest ih => exact absurd (List.mem_cons_self ..) (h.not_mem (c := '-') (by decide))
  | case4 c rest _ _ ih =>
    have hsymbol : symbolOf c = c := by
      unfold symbolOf
      split
      · exact absurd (List.mem_cons_self ..) (h.not_mem (c := '→') (by decide))
      · exact absurd (List.mem_cons_self ..) (h.not_mem (c := '&') (by decide))
      · exact absurd (List.mem_cons_self ..) (h.not_mem (c := '|') (by decide))
      · exact absurd (List.mem_cons_self ..) (h.not_mem (c := '~') (by decide))
      · exact absurd (List.mem_cons_self ..) (h.not_mem (c := '!') (by decide))
      · rfl
    rw [hsymbol, ih fun d hd => h d (List.mem_cons_of_mem _ hd)]

theorem mem_of_occursIn {c : Char} {part text : List Char}
    (h : occursIn (c :: part) text = true) : c ∈ text := by
  induction text with
  | nil => cases h
  | cons d rest ih =>
    rw [occursIn, Bool.or_eq_true] at h
    rcases h with h | h
    · rw [List.isPrefixOf, Bool.and_eq_true, beq_iff_eq] at h
      rw [h.1]
      exact List.mem_cons_self ..
    · exact List.mem_cons_of_mem _ (ih h)

/-- **A formula that is written out is in normal form.** -/
theorem normalize_render {F : Formula} (h : F.Legal) :
    Sentence.normalize (String.ofList F.render) = .ok F.render := by
  have hplain := plain_render h
  have htrimmed := trimmed_render h
  have hnone : (unsupported.find? fun symbol => occursIn symbol.toList F.render) = none := by
    rw [List.find?_eq_none]
    intro symbol hsymbol hoccurs
    simp only [unsupported, List.mem_cons, List.not_mem_nil, or_false] at hsymbol
    rcases hsymbol with rfl | rfl | rfl | rfl
    · exact hplain.not_mem (by decide) (mem_of_occursIn hoccurs)
    · exact hplain.not_mem (by decide) (mem_of_occursIn hoccurs)
    · exact hplain.not_mem (by decide) (mem_of_occursIn hoccurs)
    · exact hplain.not_mem (by decide) (mem_of_occursIn hoccurs)
  have hbalanced : balanced F.render = true := balanced_iff_grouped.2 (grouped_render h).1
  have hempty : F.render.isEmpty = false := by
    rw [Bool.eq_false_iff, ne_eq, List.isEmpty_iff]
    exact htrimmed.ne_nil
  rw [Sentence.normalize, String.toList_ofList]
  dsimp only
  rw [hnone]
  dsimp only
  rw [canonical_of_plain hplain, hbalanced, htrimmed.trim_eq, hempty]
  rfl

end Formula

/-! ### What is read can be written -/

namespace Sentence

theorem isBoundName_of_takeName? {text rest : List Char} {name : String}
    (h : takeName? text = some (name, rest)) : IsBoundName name := by
  unfold takeName? at h
  split at h
  · cases h
  · rename_i c tail
    split at h
    · rename_i hlower
      cases h
      refine ⟨?_, by simp [hlower]⟩
      rw [String.toList_ofList]
      refine List.forall_mem_cons.2 ⟨by simp [isBoundChar, hlower], fun d hd => ?_⟩
      exact List.mem_takeWhile_imp hd
    · cases h

theorem isBoundName_of_furtherNames (text : List Char) :
    ∀ name ∈ (furtherNames text).1, IsBoundName name := by
  fun_induction furtherNames text with
  | case1 => simp
  | case2 text name rest h names behind heq ih =>
    rw [heq] at ih
    refine List.forall_mem_cons.2 ⟨?_, ih⟩
    unfold furtherName? at h
    split at h
    · exact isBoundName_of_takeName? h
    · cases h

theorem isBoundName_of_leading (text : List Char) :
    ∀ q ∈ quantifiersOf (leading text).1, IsBoundName q.2 := by
  fun_induction leading text with
  | case1 text hnone => simp [quantifiersOf]
  | case2 text block rest hsome blocks body heq ih =>
    rw [heq] at ih
    intro q hq
    rw [quantifiersOf, List.flatMap_cons, List.mem_append] at hq
    rcases hq with hq | hq
    · obtain ⟨name, hname, rfl⟩ := List.mem_map.1 hq
      unfold block? at hsome
      split at hsome
      · cases hsome
      · split at hsome
        · rename_i htake
          cases hsome
          rcases List.mem_cons.1 hname with rfl | hname
          · exact isBoundName_of_takeName? htake
          · exact isBoundName_of_furtherNames _ name hname
        · cases hsome
    · exact ih q hq

theorem readTerm_legal {text : List Char} {t : Term} (h : readTerm text = .ok t) : t.Legal := by
  obtain ⟨c, rest, _, hall, hname, hkind⟩ := exists_of_readTerm h
  refine ⟨?_, ?_⟩
  · rw [hname]
    exact hall
  · rw [hname, hkind]
    simp

theorem readArgs_legal {text : List Char} {ts : List Term} (h : readArgs text = .ok ts) :
    ∀ t ∈ ts, t.Legal := by
  intro t ht
  rw [readArgs] at h
  split at h
  · cases h
    cases ht
  · obtain ⟨part, _, hread⟩ := forall₂_mem_right (mapM_eq_ok_iff.1 h) ht
    exact readTerm_legal hread

theorem atomParts?_name {text name : List Char} {args : Option (List Char)}
    (h : atomParts? text = some (name, args)) : IsName isWord isNameStart (String.ofList name) := by
  unfold atomParts? at h
  split at h
  · cases h
  · rename_i c rest
    split at h
    · rename_i hstart
      -- the name is the run of word characters in front
      have hname : name = (c :: rest).takeWhile isWord := by
        dsimp only at h
        split at h
        · cases h
          rfl
        · split at h
          · cases h
            rfl
          · cases h
        · cases h
      rw [hname, IsName, String.toList_ofList,
        List.takeWhile_cons_of_pos (isWord_of_isNameStart hstart)]
      refine ⟨List.forall_mem_cons.2 ⟨isWord_of_isNameStart hstart, fun d hd => ?_⟩, by simp [hstart]⟩
      exact List.mem_takeWhile_imp hd
    · cases h

theorem readLiteral_legal {negated : Bool} {text : List Char} {l : Literal}
    (h : readLiteral negated text = .ok l) : l.Legal := by
  obtain ⟨name, args, hatom, hname, hargs⟩ := exists_of_readLiteral h
  refine ⟨hname ▸ atomParts?_name hatom, ?_⟩
  rcases hargs with ⟨_, hnil⟩ | ⟨inner, _, hread⟩
  · rw [hnil]
    exact List.forall_mem_nil _
  · exact readArgs_legal hread

end Sentence

namespace Formula

theorem legal_of_body {F : Formula} (hlead : ∀ q ∈ F.lead, IsBoundName q.2)
    (hbody : F.body.Legal) : F.Legal := by
  induction F with
  | literal | joined | implies => exact hbody
  | quantified m x G ih =>
    rw [lead, List.forall_mem_cons] at hlead
    rw [Legal]
    exact ⟨hlead.1, ih hlead.2 hbody⟩

/-- **A formula that was read can be written.** -/
theorem legal_of_parse {outer : Junctor} {text : List Char} {F : Formula}
    (h : parse outer text = some F) : F.Legal := by
  refine parse_induct (motive := fun _ F => F.Legal)
    (fun {text F} hlead ih => ?_) (fun {text a c A C} _ ihA ihC => ?_)
    (fun {text j parts} hsplits ih => ?_) (fun {text l} read => ?_) h
  · exact legal_of_body (hlead ▸ isBoundName_of_leading text) ih
  · rw [Legal]
    exact ⟨ihA, ihC⟩
  · rw [Legal]
    refine ⟨ih.length_eq ▸ hsplits, fun G hG => ?_⟩
    obtain ⟨_, _, hlegal⟩ := forall₂_mem_right ih hG
    exact hlegal
  · rw [Legal]
    exact readLiteral_legal read

end Formula

end Refuter
