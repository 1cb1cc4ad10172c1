import Refuter.Proofs.Bookkeeping

/-! # The journal of a builder

A builder is called many times, and some of the calls it refuses half-way. A journal has an
entry for each call: the texts that it reads are noted first, then constants are made, and
last names are handed out (`Entry.Accounted`). All entries together are one run.

**Key result.** Over a whole history no name is handed out twice and no constant is made
twice. Clauses that were renamed apart share no variable, and no constant is one that was
written (`history_fresh`).
-/

namespace Refuter

open Sentence

/-! ### Calls -/

namespace Builder

/-- A call on a builder. -/
inductive Call where
  /-- Convert sentences; their clauses are renamed apart. -/
  | build (sentences : List String)
  /-- Negate a query; the clause is renamed apart. -/
  | negate (query : String)
  /-- Convert one sentence, with the variables as written. -/
  | convert (sentence : String)
  /-- Rename a clause apart. -/
  | standardize (clause : Clause)
  /-- Hand out a name. -/
  | fresh
  /-- Keep names from being handed out. -/
  | reserve (names : List String)
  /-- Note the words of a text. -/
  | note (text : List Char)
  /-- Make a Skolem constant. -/
  | skolem

/-- What a call returns. -/
inductive Reply where
  /-- Clauses that were renamed apart and numbered. -/
  | numbered (clauses : List NumberedClause)
  /-- Clauses with the variables as written. -/
  | plain (clauses : List Clause)
  /-- A clause that was renamed apart. -/
  | apart (clause : Clause)
  /-- A name. -/
  | name (name : String)
  /-- A constant. -/
  | constant (term : Term)
  /-- Nothing. -/
  | done

namespace Reply

/-- The clauses that were renamed apart. -/
def renamed : Reply → List Clause
  | .numbered clauses => clauses.map (·.toClause)
  | .apart clause => [clause]
  | _ => []

/-- The names that were handed out: one by itself, or one for each variable. -/
def names : Reply → List String
  | .name x => [x]
  | reply => reply.renamed.flatMap fun c => Finite.distinct c.vars

/-- All terms that are returned. -/
def terms : Reply → List Term
  | .numbered clauses => clauses.flatMap (·.toClause.terms)
  | .plain clauses => clauses.flatMap Clause.terms
  | .apart clause => clause.terms
  | .constant term => [term]
  | _ => []

end Reply

namespace Call

/-- Makes a call. -/
def run : Call → Build Reply
  | .build sentences => return .numbered (← Build.sentences sentences)
  | .negate query => return .apart (← Build.negate query)
  | .convert sentence => return .plain (← Build.sentence sentence)
  | .standardize clause => return .apart (← Build.standardize clause)
  | .fresh => return .name (← Build.fresh)
  | .reserve names => do
    modify fun builder => { builder with supply := builder.supply.reserve names }
    return .done
  | .note text => do
    modify (·.noteSymbols text)
    return .done
  | .skolem => return .constant (← Build.skolem)

/-- The clauses of a call before they are renamed apart. -/
def unrenamed : Call → Build (List Clause)
  | .build sentences => do
    sentences.forM fun s => discard (Build.normalize s)
    return (← sentences.mapM Build.sentence).flatten
  | .negate query => do
    let text ← Build.normalize query
    let (literals, skolems) ← Build.convert query (Build.queryLiterals text)
    return [skolems.apply ⟨literals⟩]
  | .standardize clause => return [clause]
  | _ => return []

/-- The texts that a call reads: normal forms, up to the first sentence that has none. -/
def texts : Call → List (List Char)
  | .build sentences => normalTexts sentences
  | .negate query => normalTexts [query]
  | .convert sentence => normalTexts [sentence]
  | .note text => [text]
  | _ => []

/-- What a call begins with. -/
def opening : Call → List Event
  | .reserve names => [.reserved names]
  | call => call.texts.map .noted

end Call

/-- The builder after calls, one after the other. -/
def after (b : Builder) (calls : List Call) : Builder :=
  calls.foldl (fun b call => (call.run b).2) b

/-! ### Entries -/

/-- A call in a journal. -/
structure Entry where
  /-- The builder that is called. -/
  builder : Builder
  /-- The call. -/
  call : Call
  /-- What the builder does between the opening and the names that it hands out. -/
  conversion : List Event

namespace Entry

/-- What the call returns, if it does. -/
def reply? (e : Entry) : Option Reply :=
  (e.call.run e.builder).1.toOption

/-- The builder that the call leaves. -/
def next (e : Entry) : Builder :=
  (e.call.run e.builder).2

/-- The clauses that were renamed apart. -/
def renamed (e : Entry) : List Clause :=
  e.reply?.elim [] Reply.renamed

/-- The names that were handed out. -/
def names (e : Entry) : List String :=
  e.reply?.elim [] Reply.names

/-- The Skolem constants that were made. -/
def constants (e : Entry) : List String :=
  Event.constants e.conversion

/-- All that the builder does: texts are noted, or names reserved, before constants are made,
    and names are handed out at the end. -/
def events (e : Entry) : List Event :=
  e.call.opening ++ e.conversion ++ e.names.map .named

/-- The events are a run that ends with the builder that the call leaves. -/
structure Accounted (e : Entry) : Prop where
  /-- The events lead from builder to builder. -/
  run : e.builder.Run e.events e.next
  /-- Only the texts that the call reads are converted. -/
  converts : ∀ event ∈ e.conversion, event.Converts e.call.texts

end Entry

/-- A call that succeeds. -/
theorem Entry.accounted_of_ok {b b' : Builder} {call : Call} {reply : Reply} {es : List Event}
    (hcall : call.run b = (.ok reply, b'))
    (hrun : b.Run (call.opening ++ es ++ reply.names.map .named) b')
    (hes : ∀ event ∈ es, event.Converts call.texts) : Accounted ⟨b, call, es⟩ := by
  refine ⟨?_, hes⟩
  rw [events, names, reply?, next, hcall]
  exact hrun

/-- A call that fails hands out no names. -/
theorem Entry.accounted_of_error {b b' : Builder} {call : Call} {e : Error} {es : List Event}
    (hcall : call.run b = (.error e, b')) (hrun : b.Run (call.opening ++ es) b')
    (hes : ∀ event ∈ es, event.Converts call.texts) : Accounted ⟨b, call, es⟩ := by
  refine ⟨?_, hes⟩
  rw [events, names, reply?, next, hcall]
  exact (List.append_nil (call.opening ++ es)).symm ▸ hrun

/-- **Converting sentences:** all are noted, then all are converted, then all clauses are
    renamed apart. It may end in the first part or in the second. -/
theorem exists_entry_build (b : Builder) (ss : List String) :
    ∃ es, (Entry.mk b (.build ss) es).Accounted := by
  obtain ⟨hnotes, hall⟩ := Build.run_forM ss b
  rcases hforM : ss.forM (fun s => discard (Build.normalize s)) b with ⟨e | u, b₁⟩
  · -- some sentence has no normal form: none is converted
    rw [hforM] at hnotes
    have hrun : Build.sentences ss b = (.error e, b₁) := bind_of_error hforM
    exact ⟨[], Entry.accounted_of_error (bind_of_error hrun)
      ((List.append_nil _).symm ▸ hnotes) (List.forall_mem_nil _)⟩
  · rw [hforM] at hnotes hall
    obtain ⟨es, hes, hconverts⟩ := Build.run_mapM_sentence ss (hall rfl) b₁
    refine ⟨es, ?_⟩
    rcases hmapM : ss.mapM Build.sentence b₁ with ⟨e | lists, b₂⟩
    · -- some sentence is refused: the constants made until then stay
      rw [hmapM] at hes
      have hrun : Build.sentences ss b = (.error e, b₂) :=
        (bind_of_ok hforM).trans (bind_of_error hmapM)
      exact Entry.accounted_of_error (bind_of_error hrun) (hnotes.trans hes) hconverts
    · rw [hmapM] at hes
      obtain ⟨renamed, supply, hrenamed, _⟩ := Build.mapM_standardize lists.flatten b₂
      have hrun : Build.sentences ss b = (.ok (numberedFromOne renamed), { b₂ with supply }) :=
        (bind_of_ok hforM).trans ((bind_of_ok hmapM).trans (bind_of_ok hrenamed))
      refine Entry.accounted_of_ok (bind_of_ok hrun) ((hnotes.trans hes).trans ?_) hconverts
      show b₂.Run (List.map _ (((numberedFromOne renamed).map (·.toClause)).flatMap _)) _
      rw [toClause_numberedFromOne]
      exact Build.run_mapM_standardize lists.flatten hrenamed

/-- **Negating a query:** it is noted, its constants are made, and the clause is renamed
    apart. -/
theorem exists_entry_negate (b : Builder) (query : String) :
    ∃ es, (Entry.mk b (.negate query) es).Accounted := by
  have hopening : (Call.negate query).opening = (normalTexts [query]).map .noted := rfl
  cases hnorm : Sentence.normalize query with
  | error fault =>
    have hrun : Build.negate query b = (.error (.malformed query fault), b) :=
      bind_of_error (Build.normalize_of_error hnorm b)
    refine ⟨[], Entry.accounted_of_error (bind_of_error hrun) ?_ (List.forall_mem_nil _)⟩
    rw [hopening, normalTexts, hnorm]
    exact .refl b
  | ok text =>
    have hnoted : b.Run (Call.negate query).opening (b.noteSymbols text) :=
      Build.run_normalText hnorm b
    have hnormalize : Build.normalize query b = (.ok text, b.noteSymbols text) :=
      Build.normalize_ok_iff.2 ⟨hnorm, rfl⟩
    obtain ⟨ks, hks⟩ := Build.run_convert (.of_queryLiterals text) query (b.noteSymbols text)
    have hmade : ∀ event ∈ ks.map Event.made, event.Converts (Call.negate query).texts :=
      List.forall_mem_map.2 fun k _ => .inl ⟨k, rfl⟩
    refine ⟨ks.map .made, ?_⟩
    rcases hconvert : Build.convert query (Build.queryLiterals text) (b.noteSymbols text)
      with ⟨e | ⟨literals, σ⟩, b₁⟩
    · rw [hconvert] at hks
      have hrun : Build.negate query b = (.error e, b₁) :=
        (bind_of_ok hnormalize).trans (bind_of_error hconvert)
      exact Entry.accounted_of_error (bind_of_error hrun) (hnoted.trans hks) hmade
    · rw [hconvert] at hks
      have hrun : Build.negate query b
          = (.ok (b₁.supply.standardize (σ.apply ⟨literals⟩)).1,
            { b₁ with supply := (b₁.supply.standardize (σ.apply ⟨literals⟩)).2 }) := by
        rw [Build.negate, bind_of_ok hnormalize, bind_of_ok hconvert]
        rfl
      refine Entry.accounted_of_ok (bind_of_ok hrun) ((hnoted.trans hks).trans ?_) hmade
      show b₁.Run (List.map _ (List.flatMap _ [_])) _
      rw [List.flatMap_singleton]
      exact b₁.run_standardize _

/-- **Every call** is a run, whether it succeeds or fails. -/
theorem exists_entry (b : Builder) (call : Call) : ∃ es, (Entry.mk b call es).Accounted := by
  cases call with
  | build ss => exact b.exists_entry_build ss
  | negate query => exact b.exists_entry_negate query
  | convert s =>
    obtain ⟨ks, hks⟩ := Build.run_sentence s b
    have hmade : ∀ event ∈ ks.map Event.made, event.Converts (normalTexts [s]) :=
      List.forall_mem_map.2 fun k _ => .inl ⟨k, rfl⟩
    refine ⟨ks.map .made, ?_⟩
    rcases hrun : Build.sentence s b with ⟨e | clauses, b'⟩
    · rw [hrun] at hks
      exact Entry.accounted_of_error (bind_of_error hrun) hks hmade
    · rw [hrun] at hks
      exact Entry.accounted_of_ok (bind_of_ok hrun) ((List.append_nil _).symm ▸ hks) hmade
  | standardize clause =>
    refine ⟨[], Entry.accounted_of_ok rfl ?_ (List.forall_mem_nil _)⟩
    show b.Run (List.map _ (List.flatMap _ [_])) _
    rw [List.flatMap_singleton]
    exact b.run_standardize clause
  | fresh => exact ⟨[], Entry.accounted_of_ok rfl (Step.named b).run (List.forall_mem_nil _)⟩
  | reserve names =>
    exact ⟨[], Entry.accounted_of_ok rfl (Step.reserved b names).run (List.forall_mem_nil _)⟩
  | note text =>
    exact ⟨[], Entry.accounted_of_ok rfl (Step.noted b text).run (List.forall_mem_nil _)⟩
  | skolem =>
    exact ⟨[.made b.skolem.1.name], Entry.accounted_of_ok rfl (Step.made b).run
      (List.forall_mem_singleton.2 (.inl ⟨_, rfl⟩))⟩

/-! ### What an entry tells -/

theorem Call.noted_mem_opening {call : Call} {text : List Char} :
    .noted text ∈ call.opening ↔ text ∈ call.texts := by
  cases call with
  | reserve names => simp [opening, texts]
  | build | negate | convert | standardize | fresh | note | skolem => simp [opening]

/-- At first nothing is handed out or made. -/
theorem Call.quiet_opening {call : Call} :
    ∀ event ∈ call.opening, event.name? = none ∧ event.constant? = none := by
  cases call with
  | reserve names => exact List.forall_mem_singleton.2 ⟨rfl, rfl⟩
  | build | negate | convert | standardize | fresh | note | skolem =>
    exact List.forall_mem_map.2 fun text _ => ⟨rfl, rfl⟩

namespace Entry

variable {e : Entry}

theorem Accounted.names_conversion (h : e.Accounted) :
    ∀ event ∈ e.conversion, event.name? = none := by
  intro event hevent
  obtain ⟨k, rfl⟩ | ⟨text, _, rfl⟩ := h.converts event hevent
  · rfl
  · rfl

/-- **The names handed out** are those that the reply shows. -/
theorem Accounted.names_events (h : e.Accounted) : Event.names e.events = e.names := by
  have hopening : Event.names e.call.opening = [] :=
    List.filterMap_eq_nil_iff.2 fun event hevent => (Call.quiet_opening event hevent).1
  have hconversion : Event.names e.conversion = [] :=
    List.filterMap_eq_nil_iff.2 h.names_conversion
  have hnames : Event.names (e.names.map .named) = e.names := by
    rw [Event.names, List.filterMap_map]
    exact List.filterMap_some
  rw [events, Event.names, List.filterMap_append, List.filterMap_append]
  rw [Event.names] at hopening hconversion hnames
  rw [hopening, hconversion, hnames, List.nil_append, List.nil_append]

/-- The variables of the clauses that were renamed apart are among the names handed out. -/
theorem renamed_names (e : Entry) :
    (e.renamed.flatMap fun c => Finite.distinct c.vars).Sublist e.names := by
  rw [renamed, names]
  cases e.reply? with
  | none => exact List.Sublist.refl _
  | some reply =>
    cases reply with
    | name x => exact List.nil_sublist _
    | numbered | plain | apart | constant | done => exact List.Sublist.refl _

/-- **The constants made** are those of the conversion. -/
theorem constants_events (e : Entry) : Event.constants e.events = e.constants := by
  have hopening : e.call.opening.filterMap Event.constant? = [] :=
    List.filterMap_eq_nil_iff.2 fun event hevent => (Call.quiet_opening event hevent).2
  have hnames : (e.names.map Event.named).filterMap Event.constant? = [] :=
    List.filterMap_eq_nil_iff.2 (List.forall_mem_map.2 fun x _ => rfl)
  rw [events, Event.constants, List.filterMap_append, List.filterMap_append, hopening, hnames,
    List.nil_append, List.append_nil]
  rfl

/-- **The constants made by a call** are exactly the symbols that it adds to those that were
    there and to the words of the texts it reads. -/
theorem Accounted.mem_constants_iff (h : e.Accounted) {k : String} :
    k ∈ e.constants ↔ k ∈ e.next.symbols ∧ k ∉ e.builder.symbols ∧
      ∀ text ∈ e.call.texts, k ∉ words text := by
  have hrecords := h.run.records
  constructor
  · intro hk
    have hmem : k ∈ Event.constants e.events := e.constants_events.symm ▸ hk
    refine ⟨(hrecords.symbols k).2 (.inr (Event.mem_symbols_of_mem_constants hmem)),
      hrecords.made k hmem, fun text htext hword => ?_⟩
    -- the text is noted before any constant is made
    have hrun := h.run
    rw [events, List.append_assoc] at hrun
    obtain ⟨b₁, hopening, hrest⟩ := hrun.split
    have hnoted : k ∈ b₁.symbols :=
      (hopening.records.symbols k).2 (.inr ⟨_, Call.noted_mem_opening.2 htext, hword⟩)
    refine hrest.records.made k ?_ hnoted
    rw [Event.constants, List.filterMap_append]
    exact List.mem_append_left _ hk
  · rintro ⟨hnext, hold, hwords⟩
    obtain ⟨event, hevent, hk⟩ := ((hrecords.symbols k).1 hnext).resolve_left hold
    cases event with
    | reserved names => cases hk
    | named x => cases hk
    | made k' =>
      obtain rfl : k = k' := List.mem_singleton.1 hk
      rw [← e.constants_events]
      exact List.mem_filterMap.2 ⟨_, hevent, rfl⟩
    | noted text =>
      refine absurd hk (hwords text ?_)
      rw [events, List.append_assoc, List.mem_append, List.mem_append] at hevent
      rcases hevent with hevent | hevent | hevent
      · exact Call.noted_mem_opening.1 hevent
      · obtain ⟨k', hmade⟩ | ⟨text', htext', heq⟩ := h.converts _ hevent
        · cases hmade
        · cases heq
          exact htext'
      · obtain ⟨x, _, hx⟩ := List.mem_map.1 hevent
        cases hx

end Entry

/-! ### What a reply tells -/

/-- **Renaming apart** makes variants of the clauses that were converted. -/
theorem Call.exists_unrenamed {call : Call} {b b' : Builder} {reply : Reply}
    (h : call.run b = (.ok reply, b')) : ∃ plain b₁, call.unrenamed b = (.ok plain, b₁) ∧
      List.Forall₂ (Clause.Variant id) plain reply.renamed := by
  cases call with
  | build ss =>
    obtain ⟨clauses, hrun, rfl⟩ := bind_pure_ok_iff.1 h
    obtain ⟨b₁, lists, b₂, renamed, hforM, hlists, _, rfl, hvariants⟩ :=
      Build.exists_of_sentences hrun
    refine ⟨lists.flatten, b₂, (bind_of_ok hforM).trans (bind_of_ok hlists), ?_⟩
    show List.Forall₂ _ _ ((numberedFromOne renamed).map (·.toClause))
    rwa [toClause_numberedFromOne]
  | negate query =>
    obtain ⟨negated, hrun, rfl⟩ := bind_pure_ok_iff.1 h
    obtain ⟨text, b₁, htext, hrest⟩ := bind_ok_iff.1 hrun
    obtain ⟨⟨literals, σ⟩, b₂, hconvert, hstandardize⟩ := bind_ok_iff.1 hrest
    refine ⟨[σ.apply ⟨literals⟩], b₂, ?_, .cons ?_ .nil⟩
    · rw [unrenamed, bind_of_ok htext, bind_of_ok hconvert]
      rfl
    · cases hstandardize
      exact Clause.variant_standardize _ _
  | standardize clause =>
    obtain ⟨renamed, hstandardize, rfl⟩ := bind_pure_ok_iff.1 h
    refine ⟨[clause], b, rfl, .cons ?_ .nil⟩
    cases hstandardize
    exact Clause.variant_standardize _ _
  | convert | fresh | skolem =>
    obtain ⟨_, _, rfl⟩ := bind_pure_ok_iff.1 h
    exact ⟨[], b, rfl, .nil⟩
  | reserve | note =>
    cases h
    exact ⟨[], b, rfl, .nil⟩

/-- **Each constant of sentences** is spelled by one of them or was made for them. -/
theorem const_of_mapM_sentence {ss : List String} {b b' : Builder} {lists : List (List Clause)}
    (h : ss.mapM Build.sentence b = (.ok lists, b')) {c : Clause} (hc : c ∈ lists.flatten)
    {k : String} (hk : Term.const k ∈ c.terms) :
    (∃ s ∈ ss, ∃ text, Sentence.normalize s = .ok text ∧ HasArgument text (.const k)) ∨
      k ∉ b.symbols ∧ k ∈ b'.symbols := by
  obtain ⟨cs, hcs, hc⟩ := List.mem_flatten.1 hc
  obtain ⟨_, hknown⟩ := Build.mapM_grows
    (P := fun b cs => ∀ c ∈ cs, ∀ k, Term.const k ∈ c.terms → k ∈ b.symbols)
    (fun hgrows hall c hc k hk => hgrows.symbols (hall c hc k hk)) Build.sentence_known ss h
  obtain ⟨_, hall⟩ := mapM_eq_ok (I := b.Grows)
    (R := fun s cs => ∀ c ∈ cs, ∀ k, Term.const k ∈ c.terms →
      (∃ text, Sentence.normalize s = .ok text ∧ HasArgument text (.const k)) ∨ k ∉ b.symbols)
    (fun s _ b₁ cs b₂ hb₁ hs => by
      obtain ⟨text, hnorm, hgrows, hconsts⟩ := Build.sentence_constants hs
      have hb₂ := hb₁.trans (b₁.grows_noteSymbols text)
      refine ⟨hb₂.trans hgrows, fun c hc k hk => ?_⟩
      exact (hconsts c hc k hk).imp (fun hargument => ⟨text, hnorm, hargument⟩)
        fun hnew hold => hnew.1 (hb₂.symbols hold)) (.refl b) h
  obtain ⟨s, hs, hR⟩ := forall₂_mem_right hall hcs
  rcases hR c hc k hk with ⟨text, hnorm, hargument⟩ | hnew
  · exact .inl ⟨s, hs, text, hnorm, hargument⟩
  · exact .inr ⟨hnew, hknown cs hcs c hc k hk⟩

/-- **Each constant of a list of numbered clauses** is spelled by the normal text of a
    sentence, or is a new symbol that no sentence mentions: renaming apart moves none. -/
theorem const_of_sentences {ss : List String} {b b' : Builder} {clauses : List NumberedClause}
    (h : Build.sentences ss b = (.ok clauses, b')) {n : NumberedClause} (hn : n ∈ clauses)
    {k : String} (hk : Term.const k ∈ n.toClause.terms) :
    (∃ text ∈ Sentence.normalTexts ss, HasArgument text (.const k)) ∨
      (k ∈ b'.symbols ∧ k ∉ b.symbols ∧ ∀ text ∈ Sentence.normalTexts ss, k ∉ words text) := by
  obtain ⟨b₁, lists, b₂, renamed, hforM, hlists, hsymbols, rfl, hvariants⟩ :=
    Build.exists_of_sentences h
  have hmem : n.toClause ∈ renamed := by
    rw [← toClause_numberedFromOne renamed]
    exact List.mem_map.2 ⟨n, hn, rfl⟩
  obtain ⟨c, hc, hvariant⟩ := forall₂_mem_right hvariants hmem
  obtain ⟨hnotes, hall⟩ := Build.run_forM ss b
  rw [hforM] at hnotes hall
  rcases const_of_mapM_sentence hlists hc ((hvariant.const_mem_iff k).2 hk)
    with ⟨s, hs, text, hnorm, hargument⟩ | ⟨hnew, hmade⟩
  · obtain ⟨text', htext', hnorm'⟩ := hall rfl s hs
    obtain rfl : text = text' := Except.ok.inj (hnorm.symm.trans hnorm')
    exact .inl ⟨text, htext', hargument⟩
  · exact .inr ⟨hsymbols ▸ hmade, hnotes.not_symbol hnew⟩

/-- **Each constant that is returned** is spelled by a text that the call reads, or is a new
    symbol, or stands in the clause that was given. -/
theorem Call.const_of_reply {call : Call} {b b' : Builder} {reply : Reply}
    (h : call.run b = (.ok reply, b')) {k : String} (hk : Term.const k ∈ reply.terms) :
    (∃ text ∈ call.texts, HasArgument text (.const k)) ∨
      (k ∈ b'.symbols ∧ k ∉ b.symbols ∧ ∀ text ∈ call.texts, k ∉ words text) ∨
      ∃ clause, call = .standardize clause ∧ Term.const k ∈ clause.terms := by
  cases call with
  | build ss =>
    obtain ⟨clauses, hrun, rfl⟩ := bind_pure_ok_iff.1 h
    obtain ⟨n, hn, hk⟩ := List.mem_flatMap.1 hk
    exact (const_of_sentences hrun hn hk).imp id .inl
  | negate query =>
    obtain ⟨negated, hrun, rfl⟩ := bind_pure_ok_iff.1 h
    obtain ⟨text, b₁, htext, hrest⟩ := bind_ok_iff.1 hrun
    obtain ⟨⟨literals, σ⟩, b₂, hconvert, hstandardize⟩ := bind_ok_iff.1 hrest
    obtain ⟨hnorm, rfl⟩ := Build.normalize_ok_iff.1 htext
    obtain ⟨scope, hliterals, rfl, rfl⟩ := Build.convert_ok_iff.1 hconvert
    cases hstandardize
    have hk := ((Clause.variant_standardize _ _).const_mem_iff k).2 hk
    rcases Build.queryLiterals_constants hliterals hk with hargument | ⟨hnew, hmade⟩
    · exact .inl ⟨text, Build.mem_normalTexts_singleton.2 hnorm, hargument⟩
    · exact .inr (.inl ⟨hmade, (Build.run_normalText hnorm b).not_symbol hnew⟩)
  | convert s =>
    obtain ⟨clauses, hrun, rfl⟩ := bind_pure_ok_iff.1 h
    obtain ⟨c, hc, hk⟩ := List.mem_flatMap.1 hk
    obtain ⟨text, hnorm, _, hconsts⟩ := Build.sentence_constants hrun
    rcases hconsts c hc k hk with hargument | ⟨hnew, hmade⟩
    · exact .inl ⟨text, Build.mem_normalTexts_singleton.2 hnorm, hargument⟩
    · exact .inr (.inl ⟨hmade, (Build.run_normalText hnorm b).not_symbol hnew⟩)
  | standardize clause =>
    obtain ⟨renamed, hstandardize, rfl⟩ := bind_pure_ok_iff.1 h
    cases hstandardize
    exact .inr (.inr ⟨clause, rfl, ((Clause.variant_standardize _ _).const_mem_iff k).2 hk⟩)
  | skolem =>
    obtain ⟨term, hskolem, rfl⟩ := bind_pure_ok_iff.1 h
    cases hskolem
    obtain rfl := Term.const.inj (List.mem_singleton.1 hk)
    exact .inr (.inl ⟨List.mem_append_right _ (List.mem_singleton_self _),
      nextFree_not_mem _ _ _, List.forall_mem_nil _⟩)
  | fresh =>
    obtain ⟨_, _, rfl⟩ := bind_pure_ok_iff.1 h
    cases hk
  | reserve | note =>
    cases h
    cases hk

/-! ### Journals -/

/-- Calls in a row: each finds the builder that the one before leaves. -/
inductive Journal : Builder → List Entry → Builder → Prop where
  /-- No call. -/
  | nil (b : Builder) : Journal b [] b
  /-- A call, and those after it. -/
  | cons {e : Entry} {entries : List Entry} {b : Builder} (accounted : e.Accounted)
      (rest : Journal e.next entries b) : Journal e.builder (e :: entries) b

/-- **Every history has a journal.** -/
theorem exists_journal (calls : List Call) : ∀ b : Builder, ∃ entries,
    entries.map Entry.call = calls ∧ Journal b entries (b.after calls) := by
  induction calls with
  | nil => exact fun b => ⟨[], rfl, .nil b⟩
  | cons call rest ih =>
    intro b
    obtain ⟨es, haccounted⟩ := b.exists_entry call
    obtain ⟨entries, hcalls, hjournal⟩ := ih (call.run b).2
    exact ⟨⟨b, call, es⟩ :: entries, congrArg (call :: ·) hcalls, .cons haccounted hjournal⟩

namespace Journal

variable {b b' : Builder} {entries : List Entry}

theorem accounted (h : Journal b entries b') : ∀ e ∈ entries, e.Accounted := by
  induction h with
  | nil => exact List.forall_mem_nil _
  | cons he _ ih => exact List.forall_mem_cons.2 ⟨he, ih⟩

/-- A journal is one run. -/
theorem run (h : Journal b entries b') : b.Run (entries.flatMap Entry.events) b' := by
  induction h with
  | nil b => exact .refl b
  | cons he _ ih => exact he.run.trans ih

/-- A journal can be cut at each of its entries. -/
theorem split {before after : List Entry} {e : Entry} (h : Journal b (before ++ e :: after) b') :
    Journal b before e.builder ∧ e.Accounted := by
  induction before generalizing b with
  | nil =>
    cases h with
    | cons he _ => exact ⟨.nil _, he⟩
  | cons e' before ih =>
    cases h with
    | cons he' hrest =>
      obtain ⟨hbefore, he⟩ := ih hrest
      exact ⟨.cons he' hbefore, he⟩

/-- **No name is handed out twice.** -/
theorem names_nodup (h : Journal b entries b') : (entries.flatMap Entry.names).Nodup := by
  have hnames : Event.names (entries.flatMap Entry.events) = entries.flatMap Entry.names := by
    rw [Event.names, List.filterMap_flatMap]
    exact List.flatMap_congr fun e he => (h.accounted e he).names_events
  rw [← hnames]
  exact h.run.records.names_nodup

/-- **No constant is made twice.** -/
theorem constants_nodup (h : Journal b entries b') : (entries.flatMap Entry.constants).Nodup := by
  have hconstants : Event.constants (entries.flatMap Entry.events)
      = entries.flatMap Entry.constants := by
    rw [Event.constants, List.filterMap_flatMap]
    exact List.flatMap_congr fun e _ => e.constants_events
  rw [← hconstants]
  exact h.run.records.constants_nodup

/-- **Clauses that were renamed apart share no variable.** -/
theorem renamed_disjoint (h : Journal b entries b') :
    (entries.flatMap Entry.renamed).Pairwise fun c d => c.vars.Disjoint d.vars := by
  have hsublist : ((entries.flatMap Entry.renamed).flatMap fun c => Finite.distinct c.vars).Sublist
      (entries.flatMap Entry.names) := by
    rw [List.flatMap_assoc]
    -- entry by entry, whatever the calls are
    clear h
    induction entries with
    | nil => exact List.Sublist.refl _
    | cons e rest ih =>
      rw [List.flatMap_cons, List.flatMap_cons]
      exact e.renamed_names.append ih
  have hapart := (List.nodup_flatMap.1 (h.names_nodup.sublist hsublist)).2
  refine hapart.imp fun {c d} hdisjoint x hc hd => ?_
  exact hdisjoint (Finite.mem_distinct.2 hc) (Finite.mem_distinct.2 hd)

/-- **A name that is handed out** is not reserved. -/
theorem not_reserved {before after : List Entry} {e : Entry}
    (h : Journal b (before ++ e :: after) b') {x : String} (hx : x ∈ e.names) :
    x ∉ b.supply.reserved ∧ ∀ e' ∈ before, ∀ names, e'.call = .reserve names → x ∉ names := by
  obtain ⟨hbefore, he⟩ := h.split
  have hfree : x ∉ e.builder.supply.reserved :=
    (he.run.records.named x (he.names_events.symm ▸ hx)).1
  have hreserved := hbefore.run.records.reserved x
  refine ⟨fun hmem => hfree (hreserved.2 (.inl hmem)), fun e' he' names hcall hmem => ?_⟩
  refine hfree (hreserved.2 (.inr ⟨.reserved names, List.mem_flatMap.2 ⟨e', he', ?_⟩, hmem⟩))
  rw [Entry.events, hcall]
  exact List.mem_append_left _ (List.mem_append_left _ (List.mem_singleton_self _))

/-- **A constant that is made** is no word of a text that was noted, of this call or of one
    before, whether or not the text was accepted. -/
theorem not_mem_words {before after : List Entry} {e : Entry}
    (h : Journal b (before ++ e :: after) b') {k : String} (hk : k ∈ e.constants) :
    ∀ e' ∈ before ++ [e], ∀ text ∈ e'.call.texts, k ∉ words text := by
  obtain ⟨hbefore, he⟩ := h.split
  obtain ⟨_, hold, hwords⟩ := he.mem_constants_iff.1 hk
  intro e' he' text htext hword
  rcases List.mem_append.1 he' with he' | he'
  · -- the words of the text have been symbols since
    refine hold ((hbefore.run.records.symbols k).2 (.inr ⟨.noted text, ?_, hword⟩))
    refine List.mem_flatMap.2 ⟨e', he', ?_⟩
    exact List.mem_append_left _ (List.mem_append_left _ (Call.noted_mem_opening.2 htext))
  · obtain rfl := List.mem_singleton.1 he'
    exact hwords text htext hword

end Journal

/-! ### The main result -/

/-- What a history shows of one call, given the names that are reserved at first and the
    calls before. -/
structure Entry.Sound (reserved : List String) (before : List Entry) (e : Entry) : Prop where
  /-- No name handed out is reserved. -/
  unreserved : ∀ x ∈ e.names, x ∉ reserved ∧
    ∀ e' ∈ before, ∀ names, e'.call = .reserve names → x ∉ names
  /-- No constant made is a word of a text that was noted, here or before. -/
  unwritten : ∀ k ∈ e.constants, ∀ e' ∈ before ++ [e], ∀ text ∈ e'.call.texts, k ∉ words text
  /-- So none is an argument in such a text. -/
  unspelled : ∀ k ∈ e.constants, ∀ e' ∈ before ++ [e], ∀ text ∈ e'.call.texts,
    ¬ HasArgument text (.const k)
  /-- All sentences are read before a constant is made for one of them. -/
  read : ∀ ss, e.call = .build ss → e.constants ≠ [] →
    ∀ s ∈ ss, ∃ text ∈ e.call.texts, Sentence.normalize s = .ok text
  /-- A constant that is returned is written in a text that was read, or was made, or stood in
      the clause that was given. -/
  constants : ∀ reply, e.reply? = some reply → ∀ k, Term.const k ∈ reply.terms →
    (∃ text ∈ e.call.texts, HasArgument text (.const k)) ∨ k ∈ e.constants ∨
      ∃ clause, e.call = .standardize clause ∧ Term.const k ∈ clause.terms
  /-- Clauses are renamed in one step, different variables to different names. -/
  renamed : ∀ reply, e.reply? = some reply → ∃ plain b,
    e.call.unrenamed e.builder = (.ok plain, b) ∧
      List.Forall₂ (Clause.Variant id) plain reply.renamed

theorem Entry.Accounted.read {e : Entry} (h : e.Accounted) {ss : List String}
    (hcall : e.call = .build ss) {k : String} (hk : k ∈ e.constants) :
    ∀ s ∈ ss, ∃ text ∈ e.call.texts, Sentence.normalize s = .ok text := by
  obtain ⟨hnext, hold, hwords⟩ := h.mem_constants_iff.1 hk
  rw [Entry.next, hcall] at hnext
  rw [hcall] at hwords ⊢
  obtain ⟨hnotes, hall⟩ := Build.run_forM ss e.builder
  rcases hforM : ss.forM (fun s => discard (Build.normalize s)) e.builder with ⟨fault | u, b₁⟩
  · -- a call that ends here has noted texts only
    rw [hforM] at hnotes
    have hrun : Build.sentences ss e.builder = (.error fault, b₁) := bind_of_error hforM
    have hnext : k ∈ b₁.symbols := by
      rwa [Call.run, bind_of_error hrun] at hnext
    obtain ⟨event, hevent, hk⟩ := ((hnotes.records.symbols k).1 hnext).resolve_left hold
    obtain ⟨text, htext, rfl⟩ := List.mem_map.1 hevent
    exact absurd hk (hwords text htext)
  · rw [hforM] at hall
    exact hall rfl

theorem Journal.sound {b b' : Builder} {before after : List Entry} {e : Entry}
    (h : Journal b (before ++ e :: after) b') : e.Sound b.supply.reserved before := by
  obtain ⟨_, he⟩ := h.split
  have hrun : ∀ reply, e.reply? = some reply → e.call.run e.builder = (.ok reply, e.next) :=
    fun reply hreply => Prod.ext (ok_of_toOption hreply) rfl
  refine ⟨fun x hx => h.not_reserved hx, fun k hk => h.not_mem_words hk,
    fun k hk e' he' text htext hargument => ?_, fun ss hcall hne => ?_,
    fun reply hreply k hk => ?_, fun reply hreply => ?_⟩
  · exact h.not_mem_words hk e' he' text htext (mem_words_of_written hargument.written)
  · obtain ⟨k, hk⟩ := List.exists_mem_of_ne_nil _ hne
    exact he.read hcall hk
  · refine (Call.const_of_reply (hrun reply hreply) hk).imp_right (Or.imp_left fun hnew => ?_)
    exact he.mem_constants_iff.2 hnew
  · exact Call.exists_unrenamed (hrun reply hreply)

end Builder

/-- The number whose name is handed out next: the first above the counter whose name is not
    reserved. -/
structure Supply.IsNext (supply : Supply) (n : Nat) : Prop where
  /-- The number has not been used. -/
  above : supply.counter < n
  /-- Its name can be handed out. -/
  free : numberedName supply.stem n ∉ supply.reserved
  /-- No lower number will do. -/
  first : ∀ m, supply.counter < m → m < n → numberedName supply.stem m ∈ supply.reserved

/-- If a number is passed over, its name is taken. -/
theorem taken_of_lt_firstFree {stem : String} {taken : List String} : ∀ {fuel n m : Nat},
    n ≤ m → m < firstFree stem taken fuel n → numberedName stem m ∈ taken := by
  intro fuel
  induction fuel with
  | zero =>
    intro n m hle hlt
    rw [firstFree] at hlt
    omega
  | succ fuel ih =>
    intro n m hle hlt
    rw [firstFree] at hlt
    split at hlt
    · rename_i htaken
      by_cases hm : m = n
      · rwa [hm]
      · exact ih (by omega) hlt
    · omega

/-- **A name can always be handed out.** -/
theorem Supply.isNext_nextFree (supply : Supply) :
    supply.IsNext (nextFree supply.stem supply.reserved supply.counter) where
  above := le_firstFree _ _ _ _
  free := nextFree_not_mem _ _ _
  first := fun _ hlow hhigh => taken_of_lt_firstFree hlow hhigh

/-- A builder that has not been called yet. -/
def Builder.ofReserved (stem : String) (reserved : List String) : Builder :=
  { supply := .ofReserved stem reserved }

/-- **Fresh names over whole histories.** Let a builder start with any stem and any reserved
    names, and let it be called in any way, also with sentences that it refuses. A name can
    always be handed out: the first that is not reserved. No name is handed out twice, no
    constant is made twice, clauses that were renamed apart share no variable, and each call
    is sound. -/
theorem history_fresh (stem : String) (reserved : List String) (calls : List Builder.Call) :
    (∃ n, ((Builder.ofReserved stem reserved).after calls).supply.IsNext n ∧
      (Build.fresh ((Builder.ofReserved stem reserved).after calls)).1
        = .ok (numberedName stem n)) ∧
    ∃ entries : List Builder.Entry, entries.map Builder.Entry.call = calls ∧
      Builder.Journal (.ofReserved stem reserved) entries
        ((Builder.ofReserved stem reserved).after calls) ∧
      (entries.flatMap Builder.Entry.names).Nodup ∧
      (entries.flatMap Builder.Entry.constants).Nodup ∧
      ((entries.flatMap Builder.Entry.renamed).Pairwise fun c d => c.vars.Disjoint d.vars) ∧
      ∀ before e after, entries = before ++ e :: after → e.Sound reserved before := by
  generalize hstart : Builder.ofReserved stem reserved = start
  obtain ⟨entries, hcalls, hjournal⟩ := start.exists_journal calls
  constructor
  · have hstem : (start.after calls).supply.stem = stem := by
      rw [hjournal.run.records.stem, ← hstart]
      rfl
    rw [← hstem]
    exact ⟨_, (start.after calls).supply.isNext_nextFree, rfl⟩
  · refine ⟨entries, hcalls, hjournal, hjournal.names_nodup, hjournal.constants_nodup,
      hjournal.renamed_disjoint, ?_⟩
    rintro before e after rfl
    have hsound := hjournal.sound
    refine { hsound with unreserved := fun x hx => ?_ }
    obtain ⟨hfree, hbefore⟩ := hsound.unreserved x hx
    refine ⟨fun hmem => hfree ?_, hbefore⟩
    rw [← hstart]
    exact Finite.mem_insertAll.2 (.inr hmem)

/-- The first name is reserved, and so is the first constant by a sentence that comes later. -/
example : (Builder.Call.run (.build ["∃x P(x, y)", "Q(Sk1)"])
    (.ofReserved "v" ["v1"])).1.toOption.map Builder.Reply.terms
      = some [.const "Sk2", .var "v2", .const "Sk1"] := by
  decide +kernel

end Refuter
