import Refuter.Proofs.History

/-! # What a builder keeps account of

Whatever a builder does to its state is one of four things: it notes the words of a text,
reserves names, hands out a name or makes a Skolem constant (`Builder.Step`).

- **One step.** A name that is handed out carries a higher number than all before and is not
  reserved. A constant that is made is no symbol so far (`Step.effect`).
- **A run of steps.** So no name is handed out twice, and no constant is made twice
  (`Run.records`).
- **Operations are runs,** also when they fail half-way. Conversions do not look at the
  state, so all that they do to it is to make constants.
-/

namespace Refuter

open Sentence

namespace Builder

/-! ### Steps -/

/-- What a builder does at one time. -/
inductive Event where
  /-- The words of a text become symbols. -/
  | noted (text : List Char)
  /-- Names are kept from being handed out. -/
  | reserved (names : List String)
  /-- A name is handed out. -/
  | named (name : String)
  /-- A Skolem constant is made. -/
  | made (constant : String)

namespace Event

/-- The name that is handed out, if there is one. -/
def name? : Event → Option String
  | .named x => some x
  | _ => none

/-- The constant that is made, if there is one. -/
def constant? : Event → Option String
  | .made k => some k
  | _ => none

/-- The names that become reserved. -/
def reserves : Event → List String
  | .reserved names => names
  | _ => []

/-- The names that become symbols. -/
def symbols : Event → List String
  | .noted text => words text
  | .made k => [k]
  | _ => []

/-- The names handed out, in order. -/
def names (events : List Event) : List String :=
  events.filterMap name?

/-- The constants made, in order. -/
def constants (events : List Event) : List String :=
  events.filterMap constant?

theorem mem_names_snoc {events : List Event} {e : Event} {x : String} :
    x ∈ names (events ++ [e]) ↔ x ∈ names events ∨ e.name? = some x := by
  simp [names]

theorem mem_constants_snoc {events : List Event} {e : Event} {k : String} :
    k ∈ constants (events ++ [e]) ↔ k ∈ constants events ∨ e.constant? = some k := by
  simp [constants]

/-- A constant that is made becomes a symbol. -/
theorem mem_symbols_of_mem_constants {events : List Event} {k : String} (h : k ∈ constants events) :
    ∃ e ∈ events, k ∈ e.symbols := by
  obtain ⟨e, he, hk⟩ := List.mem_filterMap.1 h
  refine ⟨e, he, ?_⟩
  cases e with
  | made k' => exact List.mem_singleton.2 (Option.some.inj hk).symm
  | noted | reserved | named => cases hk

end Event

/-- One step of a builder. -/
inductive Step : Builder → Event → Builder → Prop where
  /-- A text is noted. -/
  | noted (b : Builder) (text : List Char) : Step b (.noted text) (b.noteSymbols text)
  /-- Names are reserved. -/
  | reserved (b : Builder) (names : List String) :
      Step b (.reserved names) { b with supply := b.supply.reserve names }
  /-- A name is handed out. -/
  | named (b : Builder) : Step b (.named b.supply.fresh.1) { b with supply := b.supply.fresh.2 }
  /-- A constant is made. -/
  | made (b : Builder) : Step b (.made b.skolem.1.name) b.skolem.2

/-- Steps in a row. -/
inductive Run : Builder → List Event → Builder → Prop where
  /-- Nothing happens. -/
  | refl (b : Builder) : Run b [] b
  /-- One more step. -/
  | step {b b₁ b₂ : Builder} {events : List Event} {e : Event} (run : Run b events b₁)
      (next : Step b₁ e b₂) : Run b (events ++ [e]) b₂

theorem Step.run {b b' : Builder} {e : Event} (h : Step b e b') : Run b [e] b' :=
  (Run.refl b).step h

theorem Run.trans {b b₁ b₂ : Builder} {es es' : List Event} (h : Run b es b₁)
    (h' : Run b₁ es' b₂) : Run b (es ++ es') b₂ := by
  induction h' with
  | refl => rwa [List.append_nil]
  | step _ next ih =>
    rw [← List.append_assoc]
    exact ih.step next

theorem Run.exists_last {b b' : Builder} {es : List Event} {e : Event} (h : Run b (es ++ [e]) b') :
    ∃ b₁, Run b es b₁ ∧ Step b₁ e b' := by
  generalize hall : es ++ [e] = all at h
  cases h with
  | refl => simp at hall
  | step run next =>
    obtain ⟨rfl, he⟩ := List.append_inj' hall rfl
    obtain rfl : e = _ := List.head_eq_of_cons_eq he
    exact ⟨_, run, next⟩

/-- A run can be cut anywhere. -/
theorem Run.split {b b' : Builder} {es es' : List Event} (h : Run b (es ++ es') b') :
    ∃ b₁, Run b es b₁ ∧ Run b₁ es' b' := by
  induction es' using List.reverseRecOn generalizing b' with
  | nil => exact ⟨b', by rwa [List.append_nil] at h, .refl b'⟩
  | append_singleton es' e ih =>
    rw [← List.append_assoc] at h
    obtain ⟨b₂, hrun, hstep⟩ := h.exists_last
    obtain ⟨b₁, hfirst, hrest⟩ := ih hrun
    exact ⟨b₁, hfirst, hrest.step hstep⟩

/-! ### What one step does -/

/-- All that matters of a step for names. -/
structure Effect (b : Builder) (e : Event) (b' : Builder) : Prop where
  /-- Names start alike. -/
  stem : b'.supply.stem = b.supply.stem
  /-- Numbers are not used again. -/
  counter : b.supply.counter ≤ b'.supply.counter
  /-- No name ceases to be reserved. -/
  reserved : ∀ x, x ∈ b'.supply.reserved ↔ x ∈ b.supply.reserved ∨ x ∈ e.reserves
  /-- No symbol is forgotten. -/
  symbols : ∀ k, k ∈ b'.symbols ↔ k ∈ b.symbols ∨ k ∈ e.symbols
  /-- A name is handed out: it is not reserved, and its number is new. -/
  named : ∀ x, e.name? = some x → x ∉ b.supply.reserved ∧ ∃ n, x = numberedName b.supply.stem n ∧
    b.supply.counter < n ∧ n ≤ b'.supply.counter
  /-- A constant is made: it is no symbol so far. -/
  made : ∀ k, e.constant? = some k → k ∉ b.symbols

theorem Step.effect {b b' : Builder} {e : Event} (h : Step b e b') : Effect b e b' := by
  cases h with
  | noted text =>
    refine ⟨rfl, Nat.le_refl _, by simp [noteSymbols, Event.reserves], fun k => mem_noteSymbols,
      ?_, ?_⟩
    · intro x hx
      cases hx
    · intro k hk
      cases hk
  | reserved names =>
    refine ⟨rfl, Nat.le_refl _, fun x => Finite.mem_insertAll, by simp [Event.symbols], ?_, ?_⟩
    · intro x hx
      cases hx
    · intro k hk
      cases hk
  | named =>
    -- the counter moves to the number of the name
    obtain ⟨n, hn, hfresh⟩ := b.supply.fresh_spec
    refine ⟨rfl, ?_, by simp [Supply.fresh, Event.reserves], by simp [Event.symbols], ?_, ?_⟩
    · rw [hfresh]
      exact Nat.le_of_lt hn
    · intro x hx
      obtain rfl : b.supply.fresh.1 = x := Option.some.inj hx
      have hfree := nextFree_not_mem b.supply.stem b.supply.reserved b.supply.counter
      exact ⟨hfree, n, congrArg Prod.fst hfresh, hn, by rw [hfresh]⟩
    · intro k hk
      cases hk
  | made =>
    -- the search passes over all symbols, and what it finds becomes one
    obtain ⟨n, hn, hskolem⟩ := b.skolem_spec
    have hname : b.skolem.1.name = numberedName "Sk" n := by
      rw [hskolem]
      rfl
    rw [hname, hskolem]
    refine ⟨rfl, Nat.le_refl _, by simp [Event.reserves], by simp [Event.symbols], ?_, ?_⟩
    · intro x hx
      cases hx
    · intro k hk
      obtain rfl : numberedName "Sk" n = k := Option.some.inj hk
      exact hn

/-! ### What a run leaves behind -/

/-- All that matters of a run for names. -/
structure Records (b : Builder) (events : List Event) (b' : Builder) : Prop where
  /-- Names start alike. -/
  stem : b'.supply.stem = b.supply.stem
  /-- Numbers are not used again. -/
  counter : b.supply.counter ≤ b'.supply.counter
  /-- Reserved are the names that were, and those of the events. -/
  reserved : ∀ x, x ∈ b'.supply.reserved ↔ x ∈ b.supply.reserved ∨ ∃ e ∈ events, x ∈ e.reserves
  /-- Symbols are those that were, and those of the events. -/
  symbols : ∀ k, k ∈ b'.symbols ↔ k ∈ b.symbols ∨ ∃ e ∈ events, k ∈ e.symbols
  /-- The names handed out were not reserved, and their numbers were new. -/
  named : ∀ x ∈ Event.names events, x ∉ b.supply.reserved ∧
    ∃ n, x = numberedName b.supply.stem n ∧ b.supply.counter < n ∧ n ≤ b'.supply.counter
  /-- No name is handed out twice. -/
  names_nodup : (Event.names events).Nodup
  /-- The constants made were no symbols. -/
  made : ∀ k ∈ Event.constants events, k ∉ b.symbols
  /-- No constant is made twice. -/
  constants_nodup : (Event.constants events).Nodup

theorem Records.refl (b : Builder) : Records b [] b where
  stem := rfl
  counter := Nat.le_refl _
  reserved := by simp
  symbols := by simp
  named := by simp [Event.names]
  names_nodup := List.nodup_nil
  made := by simp [Event.constants]
  constants_nodup := List.nodup_nil

/-- **One more step** keeps the record: the new name has a number above all others, and the
    new constant differs from all symbols, the earlier constants among them. -/
theorem Records.step {b b₁ b₂ : Builder} {events : List Event} {e : Event}
    (h : Records b events b₁) (he : Effect b₁ e b₂) : Records b (events ++ [e]) b₂ where
  stem := he.stem.trans h.stem
  counter := Nat.le_trans h.counter he.counter
  reserved := by
    intro x
    rw [he.reserved, h.reserved]
    simp [or_assoc, or_and_right, exists_or]
  symbols := by
    intro k
    rw [he.symbols, h.symbols]
    simp [or_assoc, or_and_right, exists_or]
  named := by
    intro x hx
    rcases Event.mem_names_snoc.1 hx with hx | hx
    · obtain ⟨hfree, n, hn, hlt, hle⟩ := h.named x hx
      exact ⟨hfree, n, hn, hlt, Nat.le_trans hle he.counter⟩
    · obtain ⟨hfree, n, hn, hlt, hle⟩ := he.named x hx
      refine ⟨fun hmem => hfree ((h.reserved x).2 (.inl hmem)), n, ?_, ?_, hle⟩
      · rw [hn, h.stem]
      · exact Nat.lt_of_le_of_lt h.counter hlt
  names_nodup := by
    cases hname : e.name? with
    | none => simpa [Event.names, hname] using h.names_nodup
    | some x =>
      have hnames : Event.names (events ++ [e]) = Event.names events ++ [x] := by
        simp [Event.names, hname]
      rw [hnames, List.nodup_append]
      refine ⟨h.names_nodup, List.nodup_singleton x, fun y hy z hz hyz => ?_⟩
      -- the number of `x` lies above the number of `y`
      obtain rfl := List.mem_singleton.1 hz
      obtain ⟨_, m, hm, _, hle⟩ := h.named y hy
      obtain ⟨_, n, hn, hlt, _⟩ := he.named z hname
      rw [h.stem] at hn
      have heq : m = n := numberedName_inj (hm.symm.trans (hyz.trans hn))
      omega
  made := by
    intro k hk
    rcases Event.mem_constants_snoc.1 hk with hk | hk
    · exact h.made k hk
    · exact fun hmem => he.made k hk ((h.symbols k).2 (.inl hmem))
  constants_nodup := by
    cases hconstant : e.constant? with
    | none => simpa [Event.constants, hconstant] using h.constants_nodup
    | some k =>
      have hconstants : Event.constants (events ++ [e]) = Event.constants events ++ [k] := by
        simp [Event.constants, hconstant]
      rw [hconstants, List.nodup_append]
      refine ⟨h.constants_nodup, List.nodup_singleton k, fun j hj l hl hjl => ?_⟩
      -- the earlier constant is a symbol by now
      obtain rfl := List.mem_singleton.1 hl
      exact he.made l hconstant
        ((h.symbols l).2 (.inr (hjl ▸ Event.mem_symbols_of_mem_constants hj)))

/-- **A run** keeps the record. -/
theorem Run.records {b b' : Builder} {events : List Event} (h : Run b events b') :
    Records b events b' := by
  induction h with
  | refl => exact .refl _
  | step _ next ih => exact ih.step next.effect

/-- What is no symbol once texts are noted was none before, and is no word of theirs. -/
theorem Run.not_symbol {b b' : Builder} {texts : List (List Char)} {k : String}
    (h : Run b (texts.map .noted) b') (hk : k ∉ b'.symbols) :
    k ∉ b.symbols ∧ ∀ text ∈ texts, k ∉ words text := by
  have hsymbols := h.records.symbols k
  refine ⟨fun hold => hk (hsymbols.2 (.inl hold)), fun text htext hword => ?_⟩
  exact hk (hsymbols.2 (.inr ⟨.noted text, List.mem_map.2 ⟨text, htext, rfl⟩, hword⟩))

end Builder

/-! ### Conversions do not look at the state -/

namespace Conversion.Oblivious

/-- A check in front of a computation. -/
theorem guard {β : Type} {c : Prop} [Decidable c] {fault : Fault} {k : Unit → Conversion β}
    (hk : ∀ u, Oblivious (k u)) : Oblivious (if c then throw fault >>= k else k ()) := by
  split
  · exact (of_throw fault).bind hk
  · exact hk ()

theorem of_disjunct (inScope : Bool) (text : List Char) : Oblivious (disjunct inScope text) := by
  rw [disjunct]
  exact (of_enter _ _ _).bind fun _ => guard fun _ => of_literal _ _

theorem of_disjunction (inScope : Bool) (text : List Char) :
    Oblivious (disjunction inScope text) := by
  rw [disjunction]
  exact (of_enter _ _ _).bind fun inScope => mapM (of_disjunct inScope) _

theorem of_checkSide (text : List Char) : Oblivious (checkSide text) := by
  rw [checkSide]
  refine guard fun _ => ?_
  split
  · exact of_throw _
  · exact of_pure _

theorem of_implication (inScope : Bool) (antecedent consequent : List Char) :
    Oblivious (implication inScope antecedent consequent) := by
  rw [implication]
  refine (of_enter _ _ _).bind fun _ => (of_enter _ _ _).bind fun inScope => ?_
  refine (of_checkSide _).bind fun _ => (of_checkSide _).bind fun _ => ?_
  have hpremise : ∀ text, Oblivious (premise text) := fun text => mapM (of_literal true) _
  exact (mapM hpremise _).bind fun _ => (mapM (of_disjunction inScope) _).bind fun _ => of_pure _

/-- **What a conversion does with a sentence** does not depend on the state. -/
theorem of_formula (text : List Char) : ∀ inScope, Oblivious (formula inScope text) := by
  -- by the length of the text, as the conjuncts that are converted next are shorter
  induction hn : text.length using Nat.strong_induction_on generalizing text with
  | h n ih =>
    intro inScope
    rw [formula]
    refine (of_enter _ _ _).bind fun inScope => guard fun _ => ?_
    split
    · exact of_implication _ _ _
    · exact of_throw _
    · dsimp only
      split
      · rename_i hlong
        refine (mapM ?_ _).bind fun _ => of_pure _
        rintro ⟨conjunct, hmem⟩
        have hlt := Nat.lt_of_lt_of_le (length_lt_of_mem_splitTop hmem hlong)
          (length_leading_le text)
        exact ih conjunct.length (hn ▸ hlt) conjunct rfl inScope
      · exact (of_disjunction _ _).bind fun _ => of_pure _

end Conversion.Oblivious

/-! ### Operations are runs -/

section Sequences

variable {ε σ α β : Type} {x : ExceptT ε (StateM σ) α} {f : α → ExceptT ε (StateM σ) β} {s t : σ}

theorem bind_of_ok {a : α} (h : x s = (.ok a, t)) : (x >>= f) s = f a t := by
  show (match x s with | (r, t) => ExceptT.bindCont f r t) = _
  rw [h]
  rfl

theorem bind_of_error {e : ε} (h : x s = (.error e, t)) : (x >>= f) s = (.error e, t) := by
  show (match x s with | (r, t) => ExceptT.bindCont f r t) = _
  rw [h]
  rfl

/-- What is done with the result changes no state. -/
theorem snd_bind_pure (x : ExceptT ε (StateM σ) α) (g : α → β) (s : σ) :
    ((x >>= fun a => pure (g a)) s).2 = (x s).2 := by
  rcases h : x s with ⟨e | a, t⟩
  · rw [bind_of_error h]
  · rw [bind_of_ok h]
    rfl

end Sequences

/-- The normal forms of sentences, up to the first that has none. -/
def Sentence.normalTexts : List String → List (List Char)
  | [] => []
  | s :: rest =>
    match Sentence.normalize s with
    | .ok text => text :: normalTexts rest
    | .error _ => []

/-- What may happen while texts are converted: constants are made, and texts are noted
    again. -/
def Builder.Event.Converts (texts : List (List Char)) (e : Builder.Event) : Prop :=
  (∃ k, e = .made k) ∨ ∃ text ∈ texts, e = .noted text

theorem Scope.run_bindAll (names : List String) : ∀ scope : Scope, ∃ ks : List String,
    scope.builder.Run (ks.map .made) (scope.bindAll names).builder := by
  induction names with
  | nil => exact fun scope => ⟨[], .refl _⟩
  | cons x rest ih =>
    intro scope
    obtain ⟨ks, hrun⟩ := ih (scope.bind x)
    exact ⟨scope.builder.skolem.1.name :: ks, (Builder.Step.made scope.builder).run.trans hrun⟩

namespace Build

theorem normalize_of_error {s : String} {fault : Fault} (h : Sentence.normalize s = .error fault)
    (b : Builder) : normalize s b = (.error (.malformed s fault), b) := by
  rw [normalize, h]
  rfl

/-- The only text of a sentence is noted. -/
theorem run_normalText {s : String} {text : List Char} (h : Sentence.normalize s = .ok text)
    (b : Builder) : b.Run ((normalTexts [s]).map .noted) (b.noteSymbols text) := by
  rw [normalTexts, h]
  exact (Builder.Step.noted b text).run

/-- **All texts are noted,** up to the first sentence that has no normal form. -/
theorem run_forM (ss : List String) : ∀ b : Builder,
    b.Run ((normalTexts ss).map .noted) (ss.forM (fun s => discard (normalize s)) b).2 ∧
    ((ss.forM (fun s => discard (normalize s)) b).1 = .ok () →
      ∀ s ∈ ss, ∃ text ∈ normalTexts ss, Sentence.normalize s = .ok text) := by
  induction ss with
  | nil => exact fun b => ⟨.refl b, fun _ => List.forall_mem_nil _⟩
  | cons s rest ih =>
    intro b
    rw [List.forM_eq_forM, List.forM_cons, normalTexts]
    cases hnorm : Sentence.normalize s with
    | error fault =>
      -- the loop ends here, and so does the list of texts
      have hfail : discard (normalize s) b = (.error (.malformed s fault), b) :=
        bind_of_error (normalize_of_error hnorm b)
      rw [bind_of_error hfail]
      exact ⟨.refl b, fun h => by cases h⟩
    | ok text =>
      have hnoted : discard (normalize s) b = (.ok (), b.noteSymbols text) :=
        bind_of_ok (normalize_ok_iff.2 ⟨hnorm, rfl⟩)
      rw [bind_of_ok hnoted]
      obtain ⟨hrun, hall⟩ := ih (b.noteSymbols text)
      refine ⟨(Builder.Step.noted b text).run.trans hrun, fun h => List.forall_mem_cons.2
        ⟨⟨text, List.mem_cons_self .., hnorm⟩, fun s' hs' => ?_⟩⟩
      obtain ⟨text', htext', hnorm'⟩ := hall h s' hs'
      exact ⟨text', List.mem_cons_of_mem _ htext', hnorm'⟩

theorem run_convert {α : Type} {x : Conversion α} (hx : x.Oblivious) (s : String) (b : Builder) :
    ∃ ks : List String, b.Run (ks.map .made) (convert s x b).2 := by
  -- the names that are bound do not depend on the builder, the constants made for them do
  obtain ⟨result, names, hrun⟩ := hx
  obtain ⟨ks, hks⟩ := Scope.run_bindAll names { builder := b }
  refine ⟨ks, ?_⟩
  rw [convert, hrun]
  cases result with
  | ok a => exact hks
  | error fault => exact hks

theorem mem_normalTexts_singleton {s : String} {text : List Char} :
    text ∈ normalTexts [s] ↔ Sentence.normalize s = .ok text := by
  rw [normalTexts]
  cases Sentence.normalize s with
  | error fault => simp
  | ok text' => simp [normalTexts, eq_comm]

/-- **One sentence,** whether it is accepted or not. -/
theorem run_sentence (s : String) (b : Builder) : ∃ ks : List String,
    b.Run ((normalTexts [s]).map .noted ++ ks.map .made) (sentence s b).2 := by
  rw [sentence, normalTexts]
  cases hnorm : Sentence.normalize s with
  | error fault =>
    rw [bind_of_error (normalize_of_error hnorm b)]
    exact ⟨[], .refl b⟩
  | ok text =>
    rw [bind_of_ok (normalize_ok_iff.2 ⟨hnorm, rfl⟩)]
    obtain ⟨ks, hks⟩ := run_convert (.of_formula text false) s (b.noteSymbols text)
    refine ⟨ks, ?_⟩
    have hrun := (Builder.Step.noted b text).run.trans hks
    -- putting the constants in place changes no state
    rcases hconvert : convert s (Conversion.formula false text) (b.noteSymbols text)
      with ⟨e | ⟨literals, σ⟩, b'⟩
    · rw [bind_of_error hconvert]
      rwa [hconvert] at hrun
    · rw [bind_of_ok hconvert]
      rwa [hconvert] at hrun

/-- **Sentences in a row,** up to the first that is refused. -/
theorem run_mapM_sentence {texts : List (List Char)} (ss : List String)
    (hs : ∀ s ∈ ss, ∃ text ∈ texts, Sentence.normalize s = .ok text) : ∀ b : Builder,
    ∃ es, b.Run es (ss.mapM sentence b).2 ∧ ∀ e ∈ es, e.Converts texts := by
  induction ss with
  | nil => exact fun b => ⟨[], .refl b, List.forall_mem_nil _⟩
  | cons s rest ih =>
    intro b
    rw [List.mapM_cons]
    obtain ⟨⟨text, htext, hnorm⟩, hrest⟩ := List.forall_mem_cons.1 hs
    obtain ⟨es, hes, hconverts⟩ : ∃ es, b.Run es (sentence s b).2 ∧ ∀ e ∈ es, e.Converts texts := by
      obtain ⟨ks, hks⟩ := run_sentence s b
      -- the sentence is noted once more
      refine ⟨_, hks, List.forall_mem_append.2 ⟨List.forall_mem_map.2 fun text' htext' => ?_,
        List.forall_mem_map.2 fun k _ => .inl ⟨k, rfl⟩⟩⟩
      obtain rfl : text = text' :=
        Except.ok.inj (hnorm.symm.trans (mem_normalTexts_singleton.1 htext'))
      exact .inr ⟨text, htext, rfl⟩
    rcases hsentence : sentence s b with ⟨e | clauses, b₁⟩
    · rw [bind_of_error hsentence]
      rw [hsentence] at hes
      exact ⟨es, hes, hconverts⟩
    · rw [bind_of_ok hsentence]
      rw [hsentence] at hes
      obtain ⟨es', hes', hconverts'⟩ := ih hrest b₁
      refine ⟨es ++ es', ?_, List.forall_mem_append.2 ⟨hconverts, hconverts'⟩⟩
      rw [snd_bind_pure]
      exact hes.trans hes'

end Build

/-! ### Renaming apart is a run -/

theorem Clause.vars_renamed (ρ : Renaming) (c : Clause) :
    (ρ.clause c).vars = c.vars.map ρ.vars := by
  have hargs : ∀ args : List Term, Term.vars (args.map ρ.term) = (Term.vars args).map ρ.vars := by
    intro args
    induction args with
    | nil => rfl
    | cons t rest ih =>
      cases t with
      | var x => exact congrArg (ρ.vars x :: ·) ih
      | const k => exact ih
  rw [Clause.vars, Clause.vars, Renaming.clause, List.map_flatMap, List.flatMap_map]
  exact List.flatMap_congr fun l _ => hargs l.args

theorem Finite.distinct_map {α β : Type} [DecidableEq α] [DecidableEq β] {f : α → β} {l : List α}
    (h : Set.InjOn f {x | x ∈ l}) : distinct (l.map f) = (distinct l).map f := by
  induction l with
  | nil => rfl
  | cons a rest ih =>
    have hrest : Set.InjOn f {x | x ∈ rest} :=
      h.mono fun x hx => List.mem_cons_of_mem a hx
    rw [List.map_cons, distinct, distinct, List.map_cons, ih hrest, List.filter_map]
    congr 2
    refine List.filter_congr fun x hx => ?_
    have hx : x ∈ a :: rest := List.mem_cons_of_mem a (mem_distinct.1 hx)
    simp only [Function.comp_apply, decide_eq_decide, ne_eq]
    rw [h.eq_iff hx (List.mem_cons_self ..)]

namespace Supply

/-- Each name has its own entry. -/
theorem map_freshFor {names : List String} (h : names.Nodup) : ∀ supply : Supply,
    (freshFor names supply).1.map (·.2)
      = names.map fun x => renameTerm (freshFor names supply).1 (.var x) := by
  induction names with
  | nil => exact fun _ => rfl
  | cons name rest ih =>
    intro supply
    obtain ⟨hname, hrest⟩ := List.nodup_cons.1 h
    have hself : renameTerm (freshFor (name :: rest) supply).1 (.var name)
        = .var supply.fresh.1 := by
      simp [freshFor, renameTerm, Members.get?]
    rw [List.map_cons, hself, freshFor, List.map_cons, ih hrest]
    congr 1
    refine List.map_congr_left fun x hx => ?_
    -- the entry in front is for another name
    have hne : x ≠ name := fun hxn => hname (hxn ▸ hx)
    simp [renameTerm, Members.get?, List.lookup_cons, beq_false_of_ne hne]

/-- **The names handed out for a clause** are the variables of the renamed clause, in the
    order in which they appear there. -/
theorem map_freshFor_vars (supply : Supply) (c : Clause) :
    (freshFor (Finite.distinct c.vars) supply).1.map (·.2)
      = (Finite.distinct (supply.standardize c).1.vars).map .var := by
  obtain ⟨fresh, heq, hinj, _⟩ := supply.standardize_spec c
  have hvars : (supply.standardize c).1.vars = c.vars.map fresh := by
    rw [heq]
    exact Clause.vars_renamed ⟨fresh, id⟩ c
  rw [map_freshFor (Finite.nodup_distinct _), hvars, Finite.distinct_map hinj, List.map_map]
  refine List.map_congr_left fun x hx => ?_
  have hx : Term.var x ∈ c.terms := Clause.mem_vars_iff.1 (Finite.mem_distinct.1 hx)
  exact Clause.mapTerms_eq_iff.1 heq _ hx

end Supply

namespace Builder

theorem run_freshFor (names : List String) : ∀ b : Builder,
    b.Run ((Supply.freshFor names b.supply).1.map fun p => .named p.2.name)
      { b with supply := (Supply.freshFor names b.supply).2 } := by
  induction names with
  | nil => exact fun b => .refl b
  | cons name rest ih =>
    intro b
    exact (Step.named b).run.trans (ih { b with supply := b.supply.fresh.2 })

/-- **One clause renamed apart:** each of its variables is a name handed out for it. -/
theorem run_standardize (b : Builder) (c : Clause) :
    b.Run ((Finite.distinct (b.supply.standardize c).1.vars).map .named)
      { b with supply := (b.supply.standardize c).2 } := by
  have hrun := b.run_freshFor (Finite.distinct c.vars)
  have hevents : (Supply.freshFor (Finite.distinct c.vars) b.supply).1.map
      (fun p => Event.named p.2.name)
        = (Finite.distinct (b.supply.standardize c).1.vars).map .named := by
    have := congrArg (List.map fun t : Term => Event.named t.name) (b.supply.map_freshFor_vars c)
    rwa [List.map_map, List.map_map] at this
  rwa [hevents] at hrun

end Builder

/-- **Clauses renamed apart in a row.** -/
theorem Build.run_mapM_standardize (cs : List Clause) : ∀ {b b' : Builder} {renamed : List Clause},
    cs.mapM standardize b = (.ok renamed, b') →
      b.Run ((renamed.flatMap fun c => Finite.distinct c.vars).map .named) b' := by
  induction cs with
  | nil =>
    intro b b' renamed h
    rw [List.mapM_nil] at h
    obtain ⟨rfl, rfl⟩ := pure_eq_ok h
    exact .refl b
  | cons c rest ih =>
    intro b b' renamed h
    rw [List.mapM_cons] at h
    obtain ⟨c', b₁, hc, h⟩ := bind_ok_iff.1 h
    obtain ⟨renamed', hrest, rfl⟩ := bind_pure_ok_iff.1 h
    cases hc
    rw [List.flatMap_cons, List.map_append]
    exact (b.run_standardize c).trans (ih hrest)

/-- **Sentences that are accepted** have been noted, converted and renamed apart. -/
theorem Build.exists_of_sentences {ss : List String} {clauses : List NumberedClause}
    {b b' : Builder} (h : Build.sentences ss b = (.ok clauses, b')) :
    ∃ b₁ lists b₂ renamed, ss.forM (fun s => discard (Build.normalize s)) b = (.ok (), b₁) ∧
      ss.mapM Build.sentence b₁ = (.ok lists, b₂) ∧ b'.symbols = b₂.symbols ∧
      clauses = numberedFromOne renamed ∧
      List.Forall₂ (Clause.Variant id) lists.flatten renamed := by
  obtain ⟨u, b₁, hforM, hrest⟩ := bind_ok_iff.1 h
  obtain ⟨lists, b₂, hlists, hrest⟩ := bind_ok_iff.1 hrest
  obtain ⟨renamed, hrenamed, rfl⟩ := bind_pure_ok_iff.1 hrest
  obtain ⟨renamed', supply, hrun, hvariants, _⟩ := Build.mapM_standardize lists.flatten b₂
  obtain ⟨rfl, rfl⟩ : renamed' = renamed ∧ { b₂ with supply } = b' := by
    have := hrun.symm.trans hrenamed
    exact ⟨Except.ok.inj (Prod.mk.inj this).1, (Prod.mk.inj this).2⟩
  exact ⟨b₁, lists, b₂, renamed', hforM, hlists, rfl, rfl, hvariants⟩

end Refuter
