import Mathlib.Data.List.Infix
import Refuter.Proofs.Parsing

/-! # The words of a text

The builder keeps clear of every word that it sees. An argument of a literal is such a
word: it stands between two characters that belong to no word, and everything that is
taken off a text on the way to its literals leaves a stretch of it in one piece.
-/

namespace Refuter

open Sentence Formula

/-- A name made of word characters. -/
def IsWordName (name : String) : Prop :=
  name.toList ≠ [] ∧ ∀ c ∈ name.toList, isWord c = true

/-- A name stands in a text as a word of its own, with something in front and behind. -/
def Written (text : List Char) (name : String) : Prop :=
  IsWordName name ∧
    ∃ a b, isWord a = false ∧ isWord b = false ∧ a :: (name.toList ++ [b]) <:+: text

theorem Written.within {part text : List Char} {name : String} (h : Written part name)
    (hpart : part <:+: text) : Written text name := by
  obtain ⟨hname, a, b, ha, hb, hin⟩ := h
  exact ⟨hname, a, b, ha, hb, hin.trans hpart⟩

/-! ### Words are found -/

namespace Sentence

theorem go_append {w : List Char} (hw : ∀ c ∈ w, isWord c = true) :
    ∀ (word rest : List Char), words.go word (w ++ rest) = words.go (w.reverse ++ word) rest := by
  induction w with
  | nil => exact fun _ _ => rfl
  | cons c w ih =>
    intro word rest
    rw [List.cons_append, words.go, if_pos (hw c (List.mem_cons_self ..)),
      ih fun d hd => hw d (List.mem_cons_of_mem _ hd), List.reverse_cons, List.append_assoc]
    rfl

/-- Behind a character of no word the search starts anew. -/
theorem mem_go_of_mem {a : Char} (ha : isWord a = false) {name : String} {rest : List Char}
    (h : name ∈ words.go [] rest) :
    ∀ (front word : List Char), name ∈ words.go word (front ++ a :: rest) := by
  intro front
  induction front with
  | nil =>
    intro word
    rw [List.nil_append, words.go, if_neg (by rw [ha]; decide)]
    split
    · exact h
    · exact List.mem_cons_of_mem _ h
  | cons c front ih =>
    intro word
    rw [List.cons_append, words.go]
    split
    · exact ih _
    · split
      · exact ih _
      · exact List.mem_cons_of_mem _ (ih _)

/-- **A written name is one of the words.** -/
theorem mem_words_of_written {text : List Char} {name : String} (h : Written text name) :
    name ∈ words text := by
  obtain ⟨⟨hne, hword⟩, a, b, ha, hb, front, behind, rfl⟩ := h
  have hfound : name ∈ words.go [] (name.toList ++ [b] ++ behind) := by
    have hnonempty : (name.toList.reverse ++ []).isEmpty = false := by
      rw [List.append_nil, Bool.eq_false_iff, ne_eq, List.isEmpty_iff, List.reverse_eq_nil_iff]
      exact hne
    rw [List.append_assoc, go_append hword, List.singleton_append, words.go,
      if_neg (by rw [hb]; decide), hnonempty, if_neg (by decide), List.append_nil,
      List.reverse_reverse, String.ofList_toList]
    exact List.mem_cons_self ..
  have := mem_go_of_mem ha hfound front []
  rwa [words, List.append_assoc, List.cons_append]

/-! ### Stretches of a text -/

theorem trim_isInfix (text : List Char) : Text.trim text <:+: text := by
  have hback : Text.trim text <+: Text.trimLeft text := by
    rw [Text.trim, Text.trimRight, ← List.reverse_suffix, List.reverse_reverse]
    exact List.dropWhile_suffix _
  exact hback.isInfix.trans (List.dropWhile_suffix _).isInfix

theorem inside?_isInfix {text inner : List Char} (h : inside? text = some inner) :
    inner <:+: text := by
  rw [eq_of_inside? h]
  exact ⟨['('], [')'], rfl⟩

theorem unwrap_isInfix (text : List Char) : unwrap text <:+: text := by
  fun_induction unwrap text with
  | case1 text inner h ih => exact ih.trans ((inside?_isInfix h).trans (trim_isInfix text))
  | case2 text h => exact trim_isInfix text

theorem polarity_isInfix (negated : Bool) (text : List Char) :
    (polarity negated text).2 <:+: text := by
  fun_induction polarity negated text with
  | case1 negated text rest h ih =>
    have hrest : rest <:+: unwrap text := by
      rw [h]
      exact (List.suffix_cons _ _).isInfix
    exact ih.trans (hrest.trans (unwrap_isInfix text))
  | case2 negated text hne => exact unwrap_isInfix text

theorem isInfix_of_mem_splitTop {connective : Char} {text part : List Char}
    (h : part ∈ splitTop connective text) : part <:+: text := by
  obtain ⟨raw, hraw, rfl⟩ := List.mem_map.1 h
  exact (trim_isInfix raw).trans (isInfix_of_mem_cutFrom hraw)

theorem takeName?_isSuffix {text rest : List Char} {name : String}
    (h : takeName? text = some (name, rest)) : rest <:+ text := by
  unfold takeName? at h
  split at h
  · cases h
  · split at h
    · cases h
      exact (List.dropWhile_suffix _).trans (List.suffix_cons _ _)
    · cases h

theorem furtherNames_isSuffix (text : List Char) : (furtherNames text).2 <:+ text := by
  fun_induction furtherNames text with
  | case1 => exact List.suffix_rfl
  | case2 text name rest h names behind heq ih =>
    rw [heq] at ih
    refine ih.trans ?_
    unfold furtherName? at h
    split at h
    · rename_i tail htail
      have htail' : tail <:+ text :=
        (List.suffix_cons _ _).trans (htail ▸ List.dropWhile_suffix _)
      exact (takeName?_isSuffix h).trans ((List.dropWhile_suffix _).trans htail')
    · cases h

theorem dropDot_isSuffix (text : List Char) : dropDot text <:+ text := by
  unfold dropDot
  split
  · rename_i rest hrest
    exact (List.dropWhile_suffix _).trans
      ((List.suffix_cons _ _).trans (hrest ▸ List.dropWhile_suffix _))
  · exact List.dropWhile_suffix _

theorem block?_isSuffix {text rest : List Char} {block : Block}
    (h : block? text = some (block, rest)) : rest <:+ text := by
  unfold block? at h
  split at h
  · cases h
  · split at h
    · rename_i hname
      cases h
      exact (dropDot_isSuffix _).trans ((furtherNames_isSuffix _).trans
        ((takeName?_isSuffix hname).trans ((List.dropWhile_suffix _).trans (List.suffix_cons _ _))))
    · cases h

theorem leading_isInfix (text : List Char) : (leading text).2 <:+: text := by
  fun_induction leading text with
  | case1 text hnone => exact unwrap_isInfix text
  | case2 text block rest hsome blocks body heq ih =>
    rw [heq] at ih
    exact ih.trans ((block?_isSuffix hsome).isInfix.trans (unwrap_isInfix text))

/-! ### Arguments are written -/

/-- A part between commas stands between two characters of no word. -/
theorem splitAt_between {b : Char} (hb : isWord b = false) (text : List Char) :
    ∃ first rest, Text.splitAt ',' text = first :: rest ∧
      (∃ b', isWord b' = false ∧ first ++ [b'] <+: text ++ [b]) ∧
      ∀ part ∈ rest, ∃ a' b', isWord a' = false ∧ isWord b' = false ∧
        a' :: (part ++ [b']) <:+: text ++ [b] := by
  induction text with
  | nil => exact ⟨[], [], rfl, ⟨b, hb, List.prefix_rfl⟩, by simp⟩
  | cons c text ih =>
    obtain ⟨first, rest, hsplit, ⟨b', hb', hfirst⟩, hrest⟩ := ih
    have hbehind : text ++ [b] <:+: c :: text ++ [b] := (List.suffix_cons _ _).isInfix
    rw [Text.splitAt]
    split
    · rename_i hc
      subst hc
      refine ⟨[], _, rfl, ⟨',', by decide, ⟨text ++ [b], rfl⟩⟩, fun part hpart => ?_⟩
      rw [hsplit] at hpart
      rcases List.mem_cons.1 hpart with rfl | hpart
      · exact ⟨',', b', by decide, hb', (List.cons_prefix_cons.2 ⟨rfl, hfirst⟩).isInfix⟩
      · obtain ⟨a'', b'', ha'', hb'', hin⟩ := hrest part hpart
        exact ⟨a'', b'', ha'', hb'', hin.trans hbehind⟩
    · rw [hsplit]
      refine ⟨c :: first, rest, rfl, ⟨b', hb', List.cons_prefix_cons.2 ⟨rfl, hfirst⟩⟩, ?_⟩
      intro part hpart
      obtain ⟨a'', b'', ha'', hb'', hin⟩ := hrest part hpart
      exact ⟨a'', b'', ha'', hb'', hin.trans hbehind⟩

theorem isWord_of_isBlank {c : Char} (h : Text.isBlank c = true) : isWord c = false := by
  by_contra hword
  rw [Bool.not_eq_false] at hword
  rw [isBlank_of_isWord hword] at h
  cases h

/-- What is trimmed off are blanks. -/
theorem trim_decompose (text : List Char) : ∃ front behind,
    text = front ++ Text.trim text ++ behind ∧ (∀ c ∈ front, Text.isBlank c = true) ∧
      ∀ c ∈ behind, Text.isBlank c = true := by
  refine ⟨text.takeWhile Text.isBlank,
    ((Text.trimLeft text).reverse.takeWhile Text.isBlank).reverse, ?_, ?_, ?_⟩
  · have hback : Text.trim text ++ ((Text.trimLeft text).reverse.takeWhile Text.isBlank).reverse
        = Text.trimLeft text := by
      rw [Text.trim, Text.trimRight, ← List.reverse_append, List.takeWhile_append_dropWhile,
        List.reverse_reverse]
    rw [List.append_assoc, hback]
    exact List.takeWhile_append_dropWhile.symm
  · exact fun c hc => List.all_eq_true.1 List.all_takeWhile c hc
  · exact fun c hc => List.all_eq_true.1 List.all_takeWhile c (List.mem_reverse.1 hc)

/-- A trimmed part stands between characters of no word as well. -/
theorem trim_between {a b : Char} (ha : isWord a = false) (hb : isWord b = false)
    (text : List Char) : ∃ a' b', isWord a' = false ∧ isWord b' = false ∧
      a' :: (Text.trim text ++ [b']) <:+: a :: (text ++ [b]) := by
  obtain ⟨front, behind, htext, hfront, hbehind⟩ := trim_decompose text
  -- the character in front is the last blank, or the one given
  obtain ⟨before, a', hbefore, ha'⟩ : ∃ before a', a :: front = before ++ [a'] ∧
      isWord a' = false := by
    rcases List.eq_nil_or_concat front with rfl | ⟨before, a', rfl⟩
    · exact ⟨[], a, rfl, ha⟩
    · exact ⟨a :: before, a', by simp, isWord_of_isBlank (hfront a' (by simp))⟩
  obtain ⟨b', after, hafter, hb'⟩ : ∃ b' after, behind ++ [b] = b' :: after ∧
      isWord b' = false := by
    cases behind with
    | nil => exact ⟨b, [], rfl, hb⟩
    | cons b' behind =>
      exact ⟨b', behind ++ [b], rfl, isWord_of_isBlank (hbehind b' (List.mem_cons_self ..))⟩
  refine ⟨a', b', ha', hb', before, after, ?_⟩
  calc before ++ a' :: (Text.trim text ++ [b']) ++ after
      = (before ++ [a']) ++ Text.trim text ++ (b' :: after) := by simp
    _ = a :: front ++ Text.trim text ++ (behind ++ [b]) := by rw [← hbefore, ← hafter]
    _ = a :: (front ++ Text.trim text ++ behind ++ [b]) := by simp
    _ = a :: (text ++ [b]) := by rw [← htext]

theorem readTerm_written {a b : Char} (ha : isWord a = false) (hb : isWord b = false)
    {text : List Char} {t : Term} (h : readTerm text = .ok t) :
    Written (a :: (text ++ [b])) t.name := by
  obtain ⟨a', b', ha', hb', hin⟩ := trim_between ha hb text
  obtain ⟨c, rest, htrim, hall, hname, _⟩ := exists_of_readTerm h
  rw [htrim] at hin
  rw [Written, IsWordName, hname]
  exact ⟨⟨List.cons_ne_nil _ _, hall⟩, a', b', ha', hb', hin⟩

theorem readArgs_written {text : List Char} {ts : List Term} (h : readArgs text = .ok ts) :
    ∀ t ∈ ts, Written ('(' :: (text ++ [')'])) t.name := by
  intro t ht
  rw [readArgs] at h
  split at h
  · cases h
    cases ht
  · obtain ⟨part, hpart, hread⟩ := forall₂_mem_right (mapM_eq_ok_iff.1 h) ht
    obtain ⟨first, rest, hsplit, ⟨b', hb', hfirst⟩, hrest⟩ :=
      splitAt_between (b := ')') (by decide) text
    rw [hsplit] at hpart
    rcases List.mem_cons.1 hpart with rfl | hpart
    · exact (readTerm_written (a := '(') (by decide) hb' hread).within
        (List.cons_prefix_cons.2 ⟨rfl, hfirst⟩).isInfix
    · obtain ⟨a'', b'', ha'', hb'', hin⟩ := hrest part hpart
      exact (readTerm_written ha'' hb'' hread).within
        (hin.trans (List.suffix_cons _ _).isInfix)

theorem atomParts?_isInfix {text name inner : List Char}
    (h : atomParts? text = some (name, some inner)) : '(' :: (inner ++ [')']) <:+: text := by
  unfold atomParts? at h
  split at h
  · cases h
  · split at h
    · dsimp only at h
      split at h
      · cases h
      · rename_i rest hcons
        split at h
        · rename_i hinner
          cases h
          rw [List.dropLast_append_getLast? _ hinner.1, ← hcons]
          exact ((List.dropWhile_suffix _).trans (List.dropWhile_suffix _)).isInfix
        · cases h
      · cases h
    · cases h

/-- **The arguments of a literal are written in its text.** -/
theorem readLiteral_written {negated : Bool} {text : List Char} {l : Literal}
    (h : readLiteral negated text = .ok l) : ∀ t ∈ l.args, Written text t.name := by
  intro t ht
  obtain ⟨name, args, hatom, _, hargs⟩ := exists_of_readLiteral h
  rcases hargs with ⟨_, hnil⟩ | ⟨inner, rfl, hread⟩
  · rw [hnil] at ht
    cases ht
  · exact (readArgs_written hread t ht).within
      ((atomParts?_isInfix hatom).trans (polarity_isInfix negated text))

/-- A term is an argument of a literal that some stretch of a text spells. -/
def HasArgument (text : List Char) (t : Term) : Prop :=
  ∃ part negated l, part <:+: text ∧ readLiteral negated part = .ok l ∧ t ∈ l.args

theorem HasArgument.within {part text : List Char} {t : Term} (h : HasArgument part t)
    (hpart : part <:+: text) : HasArgument text t := by
  obtain ⟨inner, negated, l, hinner, hread, ht⟩ := h
  exact ⟨inner, negated, l, hinner.trans hpart, hread, ht⟩

theorem HasArgument.written {text : List Char} {t : Term} (h : HasArgument text t) :
    Written text t.name := by
  obtain ⟨part, negated, l, hpart, hread, ht⟩ := h
  exact (readLiteral_written hread t ht).within hpart

/-- **The arguments in a formula are spelled by its text.** -/
theorem parse_hasArgument {outer : Junctor} {text : List Char} {F : Formula}
    (h : parse outer text = some F) : ∀ l ∈ F.literals, ∀ t ∈ l.args, HasArgument text t := by
  refine parse_induct
    (motive := fun text F => ∀ l ∈ F.literals, ∀ t ∈ l.args, HasArgument text t)
    (fun {text F} _ ih l hl t ht => ?_) (fun {text a c A C} cut ihA ihC l hl t ht => ?_)
    (fun {text j parts} _ ih l hl t ht => ?_) (fun {text l} read k hk t ht => ?_) h
  · rw [← literals_body] at hl
    exact (ih l hl t ht).within (leading_isInfix text)
  · have ha : a ∈ splitTop '⇒' text := by simp [cut]
    have hc : c ∈ splitTop '⇒' text := by simp [cut]
    rw [literals] at hl
    rcases List.mem_append.1 hl with hl | hl
    · exact (ihA l hl t ht).within (isInfix_of_mem_splitTop ha)
    · exact (ihC l hl t ht).within (isInfix_of_mem_splitTop hc)
  · rw [literals] at hl
    obtain ⟨G, hG, hlG⟩ := List.mem_flatMap.1 hl
    obtain ⟨part, hpart, hargument⟩ := forall₂_mem_right ih hG
    exact (hargument l hlG t ht).within (isInfix_of_mem_splitTop hpart)
  · rw [literals, List.mem_singleton] at hk
    subst hk
    exact ⟨text, false, k, List.infix_rfl, read, ht⟩

/-- **The arguments in a formula are written in its text.** -/
theorem parse_written {outer : Junctor} {text : List Char} {F : Formula}
    (h : parse outer text = some F) :
    ∀ l ∈ F.literals, ∀ t ∈ l.args, Written text t.name :=
  fun l hl t ht => (parse_hasArgument h l hl t ht).written

end Sentence

end Refuter
