import Refuter.Proofs.Bookkeeping
import Refuter.Proofs.Configuration
import Refuter.Proofs.Documents
import Refuter.Proofs.History
import Refuter.Proofs.Replay

/-! # How runs end

A run on a desk reads its arguments, its settings and its problem, makes an engine and answers
its queries. Each part of it either hands on a result or ends the run, and what it did to the
desk can be read off (`bind_of_ok`, `bind_of_error`). Answering is followed by what it *gives*:
a value that no desk has a say in, and lines that are printed (`Gives`).

**Key results.**
- Queries are answered one after the other by one engine, and nothing stops them
  (`gives_answerAll`).
- A run with a document that it can read, in whatever way, reports what is wrong with it or
  answers its queries, but for two kinds of documents: those whose section on the prover is no
  mapping, and those that ask for a loop by something other than a text
  (`configuration_reported`).
-/

namespace Refuter

/-! ### Answers -/

namespace Engine

/-- The answers to queries, one after the other. -/
def answers (engine : Engine) : List String → List Answer
  | [] => []
  | query :: rest => engine.prove query :: (engine.prove query).engine.answers rest

/-- **A query** is decided, or refused as malformed. -/
theorem prove_decided_or_malformed {engine : Engine} (hids : (engine.base.map (·.id)).Nodup)
    (query : String) :
    (∃ d outcome, (engine.prove query).result = .ok d ∧ d.outcome = some outcome) ∨
      ∃ fault, (engine.prove query).result = .error (.malformed query fault) := by
  cases hneg : Build.negate query engine.builder with
  | mk result builder =>
    cases result with
    | ok negated =>
      obtain ⟨d, outcome, hresult, -⟩ := prove_replays hids hneg
      exact .inl ⟨_, outcome, hresult, rfl⟩
    | error e =>
      -- negating fails at the nesting of parentheses or at a literal, in both cases with a fault
      obtain ⟨fault, rfl⟩ : ∃ fault, e = .malformed query fault := by
        rw [Build.negate_eq] at hneg
        split at hneg
        · rename_i fault _
          exact ⟨fault, (Except.error.inj (congrArg Prod.fst hneg)).symm⟩
        · split at hneg
          · rename_i fault _ _
            exact ⟨fault, (Except.error.inj (congrArg Prod.fst hneg)).symm⟩
          · cases congrArg Prod.fst hneg
      exact .inr ⟨fault, by rw [prove, hneg]⟩

end Engine

namespace CommandLine

/-! ### What is printed -/

/-- The second part goes on with the value of the first, on the desk that it left. -/
theorem bind_apply {σ α β : Type} (x : StateM σ α) (f : α → StateM σ β) (s : σ) :
    (x >>= f) s = f (x s).1 (x s).2 :=
  rfl

/-- Does an action give a value, whatever desk it works on, and print lines, without a change of
    the folder? -/
structure Gives {α : Type} (action : StateM Desk α) (value : α) (lines : List String) : Prop where
  /-- The value. -/
  value : ∀ desk, (action desk).1 = value
  /-- The folder stays. -/
  folder : ∀ desk, (action desk).2.folder = desk.folder
  /-- The lines printed. -/
  out : ∀ desk, (action desk).2.out = desk.out ++ lines

namespace Gives

variable {α β : Type} {x : StateM Desk α} {f : α → StateM Desk β} {a : α} {b : β}
  {lines lines' : List String}

theorem pure (a : α) : Gives (Pure.pure a) a [] :=
  ⟨fun _ => rfl, fun _ => rfl, fun desk => (List.append_nil desk.out).symm⟩

/-- **A sequence** prints what its parts print. -/
theorem bind (hx : Gives x a lines) (hf : Gives (f a) b lines') :
    Gives (x >>= f) b (lines ++ lines') := by
  -- no desk has a say in the value, so the second part is the same on all of them
  have hstep : ∀ desk, (x >>= f) desk = f a (x desk).2 := by
    intro desk
    rw [bind_apply, hx.value]
  refine ⟨fun desk => ?_, fun desk => ?_, fun desk => ?_⟩
  · rw [hstep, hf.value]
  · rw [hstep, hf.folder, hx.folder]
  · rw [hstep, hf.out, hx.out, List.append_assoc]

/-- What comes first prints nothing. -/
theorem silent_bind (hx : Gives x a []) (hf : Gives (f a) b lines) : Gives (x >>= f) b lines :=
  hx.bind hf

/-- What comes last prints nothing. -/
theorem bind_silent (hx : Gives x a lines) (hf : Gives (f a) b []) : Gives (x >>= f) b lines := by
  have hboth := hx.bind hf
  rwa [List.append_nil] at hboth

/-- Actions in a row. -/
theorem forM {γ : Type} {action : γ → StateM Desk Unit} {shown : γ → List String} {items : List γ}
    (h : ∀ item ∈ items, Gives (action item) () (shown item)) :
    Gives (items.forM action) () (items.flatMap shown) := by
  induction items with
  | nil => exact .pure ()
  | cons item rest ih =>
    rw [List.flatMap_cons]
    exact (h item List.mem_cons_self).bind (ih fun i hi => h i (List.mem_cons_of_mem _ hi))

end Gives

/-- A host that prints on the desk and leaves the folder alone while a query is answered. -/
structure Prints (host : Host (StateM Desk)) (time : String) : Prop where
  /-- A line is printed. -/
  out : ∀ line, Gives (host.out line) () [line]
  /-- What goes wrong is printed elsewhere. -/
  err : ∀ line, Gives (host.err line) () []
  /-- A status is no line. -/
  status : ∀ text, Gives (host.status text) () []
  /-- Answering takes its time. -/
  timed : ∀ query, Gives (host.timed query) (query (), time) []

theorem prints_host (load : String → Except Error Json) (environment : Settings.Environment)
    (home time : String) :
    Prints (Desk.host load environment home time) time where
  out _ := ⟨fun _ => rfl, fun _ => rfl, fun _ => rfl⟩
  err _ := ⟨fun _ => rfl, fun _ => rfl, fun desk => (List.append_nil desk.out).symm⟩
  status _ := ⟨fun _ => rfl, fun _ => rfl, fun desk => (List.append_nil desk.out).symm⟩
  timed query := .pure (query (), time)

section Printing

variable {host : Host (StateM Desk)} {time : String} (hhost : Prints host time)

include hhost

theorem gives_log (verbose : Bool) (line : String) : Gives (log host verbose line) () [] := by
  unfold log
  split
  · exact hhost.err line
  · exact .pure ()

theorem gives_besideBar (session : Session) {print : StateM Desk Unit} {lines : List String}
    (h : Gives print () lines) : Gives (besideBar host session print) () lines :=
  (hhost.status none).silent_bind (h.bind_silent (hhost.status session.bar))

/-- **A report** prints how the query ended and, if asked for, its refutation. -/
theorem gives_report (choices : Choices) {session : Session} (htrace : session.trace = none)
    (d : Derivation) (events : List QueryEvent) (seconds : String) :
    Gives (report host choices session d events seconds)
      { session with proofs := session.proofs ++ [d] }
      (resultLine d seconds ::
        if choices.showTrace && d.outcome == some .proved then refutationLines d else []) := by
  -- a log entry prints no line, so any number of them print none
  have hlog : ∀ events : List QueryEvent,
      Gives (events.forM fun e => log host choices.verbose (eventLine e)) () [] := by
    intro events
    have hall : Gives (events.forM fun e => log host choices.verbose (eventLine e)) ()
        (events.flatMap fun _ => []) := .forM fun e _ => gives_log hhost choices.verbose _
    rwa [List.flatMap_eq_nil_iff.2 fun _ _ => rfl] at hall
  have hline : ∀ line, Gives (besideBar host session (host.out line)) () [line] :=
    fun line => gives_besideBar hhost session (hhost.out line)
  obtain ⟨engine, trace, bar, proofs, code, stopped⟩ := session
  obtain rfl : trace = none := htrace
  unfold report
  refine (hlog _).silent_bind ((Gives.pure _).silent_bind ?_)
  cases choices.showTrace && d.outcome == some .proved with
  | true =>
    have hsteps : Gives ((refutationLines d).forM _) () ((refutationLines d).flatMap fun line =>
        [line]) := .forM fun line _ => hline line
    rw [List.flatMap_singleton'] at hsteps
    exact (hlog _).silent_bind ((hline _).bind (hsteps.bind_silent (.pure _)))
  | false => exact (hlog _).silent_bind ((hline _).bind (.pure _))

end Printing

/-! ### Queries -/

/-- The session after an answer. -/
def Session.answered (session : Session) (answer : Answer) : Session :=
  match answer.result with
  | .ok d => { session with engine := answer.engine, proofs := session.proofs ++ [d] }
  | .error _ => { session with engine := answer.engine, code := 2 }

@[simp] theorem Session.engine_answered (session : Session) (answer : Answer) :
    (session.answered answer).engine = answer.engine := by
  unfold answered
  split <;> rfl

@[simp] theorem Session.trace_answered (session : Session) (answer : Answer) :
    (session.answered answer).trace = session.trace := by
  unfold answered
  split <;> rfl

@[simp] theorem Session.stopped_answered (session : Session) (answer : Answer) :
    (session.answered answer).stopped = session.stopped := by
  unfold answered
  split <;> rfl

/-- The lines that an answer prints. -/
def answerLines (choices : Choices) (seconds : String) (answer : Answer) : List String :=
  match answer.result with
  | .ok d =>
    resultLine d seconds ::
      if choices.showTrace && d.outcome == some .proved then refutationLines d else []
  | .error _ => []

section Queries

variable {host : Host (StateM Desk)} {time : String} (hhost : Prints host time) (choices : Choices)

include hhost

/-- **One query** is answered by the engine of the session, and does not stop the run. -/
theorem gives_answerQuery {session : Session} (htrace : session.trace = none)
    (hids : (session.engine.base.map (·.id)).Nodup) (query : String) :
    Gives (answerQuery host choices session (some query))
      (session.answered (session.engine.prove query))
      (answerLines choices time (session.engine.prove query)) := by
  refine (hhost.timed _).silent_bind ?_
  dsimp only [queryValue, Engine.proveValue]
  unfold Session.answered answerLines
  rcases session.engine.prove_decided_or_malformed hids query with
    ⟨d, outcome, hresult, -⟩ | ⟨fault, hresult⟩
  · rw [hresult]
    have hasked : { session with engine := (session.engine.prove query).engine }.trace = none :=
      htrace
    exact gives_report hhost choices hasked d _ time
  · rw [hresult]
    exact (gives_besideBar hhost _ (hhost.err _)).bind_silent (.pure _)

/-- **Queries** are answered one after the other. -/
theorem gives_answerAll (queries : List String) : ∀ {session : Session},
    session.trace = none → session.stopped = none → (session.engine.base.map (·.id)).Nodup →
    Gives (answerAll host choices session (queries.map some))
      ((session.engine.answers queries).foldl Session.answered session)
      ((session.engine.answers queries).flatMap (answerLines choices time)) := by
  induction queries with
  | nil => exact fun _ _ _ => .pure _
  | cons query rest ih =>
    intro session htrace hstopped hids
    -- the engine keeps its clauses, and so their numbers stay different
    have hkeeps := session.engine.keeps_prove query
    have hrest := ih ((session.trace_answered (session.engine.prove query)).trans htrace)
      ((session.stopped_answered (session.engine.prove query)).trans hstopped)
      (by rwa [session.engine_answered, hkeeps.base])
    rw [session.engine_answered] at hrest
    refine (gives_answerQuery hhost choices htrace hids query).bind ?_
    -- nothing stopped the run, so the rest is answered too
    rw [session.stopped_answered, hstopped]
    exact hrest

/-- **Answering queries** prints what the answers print; the bar leaves nothing. -/
theorem gives_answerQueries {session : Session} (htrace : session.trace = none)
    (hstopped : session.stopped = none) (hids : (session.engine.base.map (·.id)).Nodup)
    (queries : List String) :
    ∃ bar, Gives (answerQueries host choices session (queries.map some))
      ((session.engine.answers queries).foldl Session.answered { session with bar })
      ((session.engine.answers queries).flatMap (answerLines choices time)) := by
  obtain ⟨bar, hbar⟩ : ∃ bar, bar = if (queries.map some).length < 2 then none
      else some (progressBar (queries.map some).length) := ⟨_, rfl⟩
  have hshown : { session with bar }.trace = none := htrace
  refine ⟨bar, ?_⟩
  unfold answerQueries
  rw [← hbar]
  refine (hhost.status bar).silent_bind ?_
  refine (gives_answerAll hhost choices queries hshown hstopped hids).bind_silent ?_
  exact (hhost.status none).silent_bind (.pure _)

end Queries

/-! ### What answers come to -/

/-- An answer with a derivation that has an outcome, or a refusal of the query. -/
def Settled (answer : Answer) : Prop :=
  (∃ d outcome, answer.result = .ok d ∧ d.outcome = some outcome) ∨
    ∃ query fault, answer.result = .error (.malformed query fault)

/-- The exit code of answers: two if a query was refused. -/
def codeOf (answers : List Answer) : Nat :=
  if answers.all (·.result.isOk) then 0 else 2

theorem settled_answers (queries : List String) : ∀ {engine : Engine},
    (engine.base.map (·.id)).Nodup → ∀ answer ∈ engine.answers queries, Settled answer := by
  induction queries with
  | nil => exact fun _ => List.forall_mem_nil _
  | cons query rest ih =>
    intro engine hids
    refine List.forall_mem_cons.2 ⟨?_, ih (by rwa [(engine.keeps_prove query).base])⟩
    exact (engine.prove_decided_or_malformed hids query).imp_right
      fun ⟨fault, h⟩ => ⟨query, fault, h⟩

/-- **The exit code** counts what was refused. -/
theorem code_foldl_answered (answers : List Answer) : ∀ session : Session,
    (answers.foldl Session.answered session).code
      = if answers.all (·.result.isOk) then session.code else 2 := by
  induction answers with
  | nil => exact fun _ => rfl
  | cons answer rest ih =>
    intro session
    rw [List.foldl_cons, ih, List.all_cons, Session.answered]
    cases answer.result with
    | ok d => rfl
    | error e => simp [Except.isOk, Except.toBool]

theorem trace_foldl_answered (answers : List Answer) : ∀ session : Session,
    (answers.foldl Session.answered session).trace = session.trace := by
  induction answers with
  | nil => exact fun _ => rfl
  | cons answer rest ih => exact fun session => (ih _).trans (session.trace_answered answer)

theorem stopped_foldl_answered (answers : List Answer) : ∀ session : Session,
    (answers.foldl Session.answered session).stopped = session.stopped := by
  induction answers with
  | nil => exact fun _ => rfl
  | cons answer rest ih => exact fun session => (ih _).trans (session.stopped_answered answer)

/-! ### The parts of a run -/

open Settings

/-- A desk with a further line about what goes wrong. -/
def Desk.told (desk : Desk) (line : String) : Desk :=
  { desk with err := desk.err ++ [desk.status ++ line], status := "" }

/-- A desk as it was, but for lines about what goes on. -/
structure Desk.Logged (desk logged : Desk) : Prop where
  /-- The files. -/
  folder : logged.folder = desk.folder
  /-- The lines printed. -/
  out : logged.out = desk.out
  /-- No status is shown if none was. -/
  status : desk.status = "" → logged.status = ""

theorem Desk.logged_self (desk : Desk) : desk.Logged desk :=
  ⟨rfl, rfl, id⟩

theorem Desk.Logged.told {desk logged : Desk} (h : desk.Logged logged) (line : String) :
    desk.Logged (logged.told line) :=
  ⟨h.folder, h.out, fun _ => rfl⟩

/-- How a run ends on a desk for an error: with a line about it, if there is one, and otherwise
    with the error itself. -/
def Desk.ended (desk : Desk) (reported : Bool) (line : String) (e : Error) : Exit × Desk :=
  if reported then (.code 1, desk.told line) else (.escaped e, desk)

/-- A part that only prints hands on its value. -/
theorem Gives.exists_run {α : Type} {action : StateM Desk α} {a : α} {lines : List String}
    (h : Gives action a lines) (desk : Desk) :
    ∃ after, (liftM action : Part (StateM Desk) α) desk = (.ok a, after) ∧
      after.folder = desk.folder ∧ after.out = desk.out ++ lines := by
  refine ⟨(action desk).2, ?_, h.folder desk, h.out desk⟩
  rw [← h.value desk]
  rfl

theorem normal_ne_empty (path : String) : (Path.normal path).isEmpty = false := by
  unfold Path.normal Path.ofComponents
  dsimp only
  split
  · rfl
  · exact Bool.eq_false_iff.2 ‹_›

section Parts

variable (load : String → Except Error Json) (environment : Environment) (home time : String)
  (desk : Desk)

theorem fail_or_escape {α : Type} (reported : Bool) (line : String) (e : Error) :
    (if reported then fail (Desk.host load environment home time) 1 line
      else throw (.escaped e) : Part (StateM Desk) α) desk
      = (.error (desk.ended reported line e).1, (desk.ended reported line e).2) := by
  cases reported <;> rfl

theorem readArguments_of_read {texts : List String} {arguments : Arguments}
    (h : Arguments.read texts = .ok arguments) :
    readArguments (Desk.host load environment home time) texts desk = (.ok arguments, desk) := by
  unfold readArguments
  rw [h]
  rfl

/-- A file is found with its content. -/
theorem look_of_file {path content : String} (h : desk.folder.look path = .file content) :
    (liftM ((Desk.host load environment home time).look path) : Part (StateM Desk) (Lookup String)) desk
      = (.ok (.file content), desk) := by
  show (Except.ok (desk.folder.look path), desk) = _
  rw [h]

theorem findProblem_of_file {problem content : String}
    (h : desk.folder.look problem = .file content) :
    findProblem (Desk.host load environment home time) problem desk = (.ok (.file content), desk) :=
  bind_of_ok (look_of_file load environment home time desk h)

/-- **Settings** are read from the document under the named path. -/
theorem readSettings_eq {config text : String} {document : Json}
    (hlook : desk.folder.look (Path.normal config) = .file text)
    (hload : load text = .ok document) :
    readSettings (Desk.host load environment home time) (some config) desk =
      match make environment (Path.normal config) document with
      | .ok settings => (.ok settings, desk)
      | .error e =>
        let ended := desk.ended (isSettingsError e) ("Error reading configuration: " ++ e.message) e
        (.error ended.1, ended.2) := by
  let lookup : String → Part (StateM Desk) DocumentLookup := fun path => do
    return (← (Desk.host load environment home time).look path).map load
  have hfound : lookup (Path.normal config) desk = (.ok (.file (.ok document)), desk) := by
    have hread : (Lookup.file text).map load = .file (.ok document) := by
      rw [Lookup.map, hload]
    refine (bind_of_ok (look_of_file load environment home time desk hlook)).trans ?_
    exact congrArg (fun found => (Except.ok found, desk)) hread
  have hloaded : Settings.load lookup "." home environment (some (Path.normal config)) desk
      = (.ok ((make environment (Path.normal config) document).map
          fun settings => (some (Path.normal config), settings)), desk) := by
    unfold Settings.load
    rw [Option.filter_some, normal_ne_empty]
    have hchosen : (pure (.ok (some (Path.normal config))) :
        Part (StateM Desk) (Except Error (Option String))) desk
        = (.ok (.ok (some (Path.normal config))), desk) := rfl
    refine (bind_of_ok hchosen).trans ((bind_of_ok hfound).trans ?_)
    -- the settings are made of what was found, and come back with the path
    have hmade : (do
          let settings ← make environment (Path.normal config)
            (← (← (Lookup.file (Except.ok document)).read (Path.normal config)))
          return (some (Path.normal config), settings) : Except Error (Option String × Settings))
        = (make environment (Path.normal config) document).map
          fun settings => (some (Path.normal config), settings) := by
      simp only [Lookup.read, bind, Except.bind]
      cases make environment (Path.normal config) document <;> rfl
    exact congrArg (fun made => (Except.ok made, desk)) hmade
  refine (bind_of_ok hloaded).trans ?_
  cases make environment (Path.normal config) document with
  | ok settings => rfl
  | error e => exact fail_or_escape load environment home time desk _ _ e

section Engines

variable {choices : Choices} {settings : Settings} {sentences : List String}
  {clauses : List NumberedClause} {builder : Builder}

/-- **The engine** is made of the clauses, with the loop that is asked for. -/
theorem buildEngine_of_ok {loop : Loop}
    (hbuild : Build.sentences sentences {} = (.ok clauses, builder))
    (hloop : chooseLoop choices settings = .ok loop) :
    ∃ logged : Desk, desk.Logged logged ∧
      buildEngine (Desk.host load environment home time) choices settings sentences desk
        = (.ok (Engine.ofSentences clauses loop builder), logged) := by
  unfold buildEngine log
  rw [hbuild, hloop]
  cases choices.verbose with
  | true =>
    have hlogged := desk.logged_self.told (builtLine clauses.length)
    exact ⟨_, hlogged.told (engineLine clauses.length), rfl⟩
  | false => exact ⟨desk, desk.logged_self, rfl⟩

/-- **There is none** if the loop is refused. -/
theorem buildEngine_of_error {e : Error}
    (hbuild : Build.sentences sentences {} = (.ok clauses, builder))
    (hloop : chooseLoop choices settings = .error e) :
    ∃ logged : Desk, desk.Logged logged ∧
      let ended := logged.ended (isLoopError e) ("Error: " ++ e.message) e
      buildEngine (Desk.host load environment home time) choices settings sentences desk
        = (.error ended.1, ended.2) := by
  unfold buildEngine log
  rw [hbuild, hloop]
  cases choices.verbose with
  | true =>
    exact ⟨_, desk.logged_self.told (builtLine clauses.length),
      fail_or_escape load environment home time _ _ _ e⟩
  | false => exact ⟨desk, desk.logged_self, fail_or_escape load environment home time _ _ _ e⟩

end Engines

section Proving

variable {arguments : Arguments} {settings : Settings} {sentences : List String}
  {clauses : List NumberedClause} {builder : Builder}

theorem openTrace_of_none (problem : String) (hfile : arguments.traceFile = none)
    (htrace : settings.tracePath = none) :
    openTrace (Desk.host load environment home time) problem
      (arguments.traceFile.map Json.str <|> settings.tracePath) desk = (.ok none, desk) := by
  rw [hfile, htrace]
  rfl

/-- **A loop that is refused** ends the run before anything is proved. -/
theorem proveAll_of_error {e : Error} (hfile : arguments.traceFile = none)
    (htrace : settings.tracePath = none)
    (hbuild : Build.sentences sentences {} = (.ok clauses, builder))
    (hloop : chooseLoop arguments.toChoices settings = .error e) (queries : List (Option String)) :
    ∃ logged : Desk, desk.Logged logged ∧
      let ended := logged.ended (isLoopError e) ("Error: " ++ e.message) e
      proveAll (Desk.host load environment home time) arguments settings sentences queries desk
        = (.error ended.1, ended.2) := by
  have hopen := openTrace_of_none load environment home time desk (Path.normal arguments.problem) hfile
    htrace
  obtain ⟨logged, hlogged, hengine⟩ :=
    buildEngine_of_error load environment home time desk hbuild hloop
  exact ⟨logged, hlogged, (bind_of_ok hopen).trans (bind_of_error hengine)⟩

/-- **With a loop** the queries are answered, and the run ends with the code for the answers. -/
theorem proveAll_of_loop {loop : Loop} (hfile : arguments.traceFile = none)
    (hjson : arguments.json = none) (htrace : settings.tracePath = none)
    (hbuild : Build.sentences sentences {} = (.ok clauses, builder))
    (hloop : chooseLoop arguments.toChoices settings = .ok loop) (queries : List String) :
    let answers := (Engine.ofSentences clauses loop builder).answers queries
    ∃ after, proveAll (Desk.host load environment home time) arguments settings sentences
        (queries.map some) desk = (.ok (codeOf answers), after) ∧
      after.folder = desk.folder ∧
      after.out = desk.out ++ loadedLine clauses.length (Path.normal arguments.problem)
        :: answers.flatMap (answerLines arguments.toChoices time) := by
  intro answers
  have hopen := openTrace_of_none load environment home time desk (Path.normal arguments.problem) hfile
    htrace
  obtain ⟨logged, hlogged, hengine⟩ := buildEngine_of_ok load environment home time desk hbuild hloop
  -- from here on lines are printed and nothing else happens
  have hprints := prints_host load environment home time
  obtain ⟨printed, hloaded, hfolder, hout⟩ :=
    (hprints.out (loadedLine clauses.length (Path.normal arguments.problem))).exists_run logged
  have hids : ((Engine.ofSentences clauses loop builder).base.map (·.id)).Nodup :=
    (Engine.clear_ofSentences hbuild).distinct
  have hstart : ({ engine := .ofSentences clauses loop builder, trace := none } : Session).trace
      = none := rfl
  obtain ⟨bar, hgives⟩ := gives_answerQueries hprints arguments.toChoices hstart rfl hids queries
  obtain ⟨after, hanswers, hfolder', hout'⟩ := hgives.exists_run printed
  refine ⟨after, ?_, ?_, ?_⟩
  · unfold proveAll
    rw [bind_of_ok hopen, bind_of_ok hengine, Engine.base_ofSentences, bind_of_ok hloaded,
      bind_of_ok hanswers, trace_foldl_answered, stopped_foldl_answered, hjson, code_foldl_answered]
    rfl
  · rw [hfolder', hfolder, hlogged.folder]
  · rw [hout', hout, hlogged.out, List.append_assoc]
    rfl

end Proving

end Parts

/-! ### Whole runs -/

/-- A run that names a document of settings, with files for it and for the problem. The document
    is the tree that `load` makes of its file, the sentences of the problem are accepted, there
    are queries, and nothing but lines is written. -/
structure Configured (load : String → Except Error Json) (folder : Folder) (texts : List String)
    (arguments : Arguments) (config : String) (document : Json) (clauses : List NumberedClause)
    (builder : Builder) (queries : List String) : Prop where
  /-- The arguments are accepted. -/
  read : Arguments.read texts = .ok arguments
  /-- A cap that is asked for is a number. -/
  cap : arguments.cap ≠ some none
  /-- No trace is asked for. -/
  traceFile : arguments.traceFile = none
  /-- The derivations are not asked for. -/
  json : arguments.json = none
  /-- The document of settings is named. -/
  named : arguments.config = some config
  /-- It can be read. -/
  readable : ∃ text, folder.look (Path.normal config) = .file text ∧ load text = .ok document
  /-- No name stands twice in a mapping. -/
  once : document.NamesOnce
  /-- The problem is there, its sentences are accepted, and the queries are its own unless the
      arguments ask for others. -/
  problem : ∃ content, folder.look (Path.normal arguments.problem) = .file content ∧
    Build.sentences (KnowledgeBase.ofFile content).sentences {} = (.ok clauses, builder) ∧
    (if arguments.queries.isEmpty then (KnowledgeBase.ofFile content).queries.map some
      else arguments.queries) = queries.map some
  /-- There are queries. -/
  asked : queries ≠ []

/-- The run has told what is wrong with the settings, or else with the loop or the cap that
    settings and options ask for. It has printed nothing else and proved nothing. -/
structure Reported (made : Except Error Settings) (choices : Choices) (exit : Exit)
    (after : Desk) : Prop where
  /-- The exit code. -/
  exit : exit = .code 1
  /-- No line about clauses or queries. -/
  out : after.out = []
  /-- The last line. -/
  told : (∃ e, made = .error e ∧
      after.err.getLast? = some ("Error reading configuration: " ++ e.message)) ∨
    ∃ settings e, made = .ok settings ∧ chooseLoop choices settings = .error e ∧
      after.err.getLast? = some ("Error: " ++ e.message)

/-- The run has answered its queries, one after the other, with an engine of the clauses and the
    loop that settings and options ask for. -/
def Answered (made : Except Error Settings) (arguments : Arguments) (clauses : List NumberedClause)
    (builder : Builder) (time : String) (queries : List String) (exit : Exit) (after : Desk) :
    Prop :=
  ∃ settings loop, made = .ok settings ∧ chooseLoop arguments.toChoices settings = .ok loop ∧
    let answers := (Engine.ofSentences clauses loop builder).answers queries
    (∀ answer ∈ answers, Settled answer) ∧ exit = .code (codeOf answers) ∧
      after.out = loadedLine clauses.length (Path.normal arguments.problem)
        :: answers.flatMap (answerLines arguments.toChoices time)

/-- A document asks for the loop by something other than a text, and neither an option nor a wrong
    cap comes before. -/
structure NamelessLoop (environment : Environment) (option : Option String) (document : Json) :
    Prop where
  /-- No option asks for a loop. -/
  loop : option = none
  /-- What the document asks for is no text. -/
  nameless : ∀ name, askedLoop environment document ≠ .str name
  /-- The cap is accepted. -/
  cap : ∃ cap, capOf (askedCap environment document) = .ok cap

theorem run_eq (host : Host (StateM Desk)) (texts : List String) (desk : Desk) :
    run host texts desk = match proceed host texts desk with
      | (.ok code, after) => (.code code, after)
      | (.error exit, after) => (exit, after) := by
  have hrun : (proceed host texts).run desk = proceed host texts desk := rfl
  rw [run, bind_apply, hrun]
  rcases proceed host texts desk with ⟨exit | code, after⟩ <;> rfl

section Runs

variable {load : String → Except Error Json} (environment : Environment) (home time : String)
  {folder : Folder} {texts : List String} {arguments : Arguments} {config : String}
  {document : Json} {clauses : List NumberedClause} {builder : Builder} {queries : List String}
  (h : Configured load folder texts arguments config document clauses builder queries)

include h

/-- **A configured run** reads its settings and then proves its queries. -/
theorem proceed_eq :
    ∃ sentences, Build.sentences sentences {} = (.ok clauses, builder) ∧
      proceed (Desk.host load environment home time) texts { folder }
        = (readSettings (Desk.host load environment home time) (some config) >>= fun settings =>
            proveAll (Desk.host load environment home time) arguments settings sentences
              (queries.map some)) { folder } := by
  obtain ⟨content, hcontent, hbuild, hqueries⟩ := h.problem
  refine ⟨_, hbuild, ?_⟩
  have hfound := findProblem_of_file load environment home time { folder } hcontent
  have hasked : (queries.map some).isEmpty = false := by
    cases queries with
    | nil => exact absurd rfl h.asked
    | cons query rest => rfl
  unfold proceed
  rw [bind_of_ok (readArguments_of_read load environment home time { folder } h.read),
    bind_of_ok hfound, h.named]
  -- what comes behind the settings is the same for all of them: a file was read, so nothing
  -- escapes, and there are queries
  refine congrFun (congrArg (_ >>= ·) (funext fun settings => ?_)) _
  rw [Lookup.read, orEscape, pure_bind]
  dsimp only
  rw [hqueries, hasked]
  rfl

/-- **Settings that are refused** end the run. -/
theorem run_of_settings_error {e : Error}
    (hmake : make environment (Path.normal config) document = .error e) :
    run (Desk.host load environment home time) texts { folder } = Desk.ended { folder }
      (isSettingsError e) ("Error reading configuration: " ++ e.message) e := by
  obtain ⟨text, hdocument, hload⟩ := h.readable
  obtain ⟨sentences, -, hproceed⟩ := proceed_eq environment home time h
  have hread := readSettings_eq load environment home time { folder } hdocument hload
  rw [hmake] at hread
  rw [run_eq, hproceed, bind_of_error hread]

variable {settings : Settings}

/-- **Settings that are accepted** leave the run to the queries. -/
theorem proceed_of_settings
    (hmake : make environment (Path.normal config) document = .ok settings) :
    ∃ sentences, Build.sentences sentences {} = (.ok clauses, builder) ∧
      proceed (Desk.host load environment home time) texts { folder }
        = proveAll (Desk.host load environment home time) arguments settings sentences
            (queries.map some) { folder } := by
  obtain ⟨text, hdocument, hload⟩ := h.readable
  obtain ⟨sentences, hbuild, hproceed⟩ := proceed_eq environment home time h
  have hread := readSettings_eq load environment home time { folder } hdocument hload
  rw [hmake] at hread
  exact ⟨sentences, hbuild, hproceed.trans (bind_of_ok hread)⟩

/-- **A loop that is refused** ends the run. -/
theorem run_of_loop_error {e : Error}
    (hmake : make environment (Path.normal config) document = .ok settings)
    (htrace : settings.tracePath = none)
    (hloop : chooseLoop arguments.toChoices settings = .error e) :
    ∃ logged : Desk, Desk.Logged { folder } logged ∧
      run (Desk.host load environment home time) texts { folder }
        = logged.ended (isLoopError e) ("Error: " ++ e.message) e := by
  obtain ⟨sentences, hbuild, hproceed⟩ := proceed_of_settings environment home time h hmake
  obtain ⟨logged, hlogged, hprove⟩ := proveAll_of_error load environment home time { folder }
    h.traceFile htrace hbuild hloop (queries.map some)
  refine ⟨logged, hlogged, ?_⟩
  rw [run_eq, hproceed, hprove]

/-- **Queries are answered** with the loop that settings and options ask for. -/
theorem run_of_loop {loop : Loop}
    (hmake : make environment (Path.normal config) document = .ok settings)
    (htrace : settings.tracePath = none)
    (hloop : chooseLoop arguments.toChoices settings = .ok loop) :
    ∃ exit after, run (Desk.host load environment home time) texts { folder } = (exit, after) ∧
      after.folder = folder ∧ Answered (make environment (Path.normal config) document) arguments
        clauses builder time queries exit after := by
  obtain ⟨sentences, hbuild, hproceed⟩ := proceed_of_settings environment home time h hmake
  obtain ⟨after, hprove, hfolder, hout⟩ := proveAll_of_loop load environment home time { folder }
    h.traceFile h.json htrace hbuild hloop queries
  exact ⟨_, after, by rw [run_eq, hproceed, hprove], hfolder, ⟨settings, loop, hmake, hloop,
    settled_answers queries (Engine.clear_ofSentences hbuild).distinct, rfl, hout⟩⟩

/-! ### Which documents are reported -/

/-- **A section that is no mapping** lets an error escape. -/
theorem run_of_flat (hflat : FlatProver document) :
    run (Desk.host load environment home time) texts { folder }
      = (.escaped .sectionNotMapping, { folder }) :=
  run_of_settings_error environment home time h (make_of_flat h.once hflat)

variable (htrace : walk document ["trace"] = none)

include htrace

/-- **A loop that no text names** lets an error escape. -/
theorem run_of_nameless (hflat : ¬FlatProver document)
    (hloop : NamelessLoop environment arguments.loop document) :
    ∃ after, run (Desk.host load environment home time) texts { folder }
      = (.escaped .loopNotNamed, after) ∧ after.folder = folder := by
  rcases make_cases (Path.normal config) h.once htrace hflat with ⟨-, name, hname⟩ | hmade
  · -- a document that is no mapping leaves the loop to the defaults, which name one
    exact absurd hname (hloop.nameless name)
  · obtain ⟨cap, hcap⟩ := hloop.cap
    rw [hcap] at hmade
    obtain ⟨settings, hmake, -, hasked, hnone⟩ := hmade
    have hchosen : chooseLoop arguments.toChoices settings = .error .loopNotNamed :=
      chooseLoop_of_nameless hloop.loop fun name => hasked ▸ hloop.nameless name
    obtain ⟨logged, hlogged, hrun⟩ := run_of_loop_error environment home time h hmake hnone hchosen
    exact ⟨logged, hrun, hlogged.folder⟩

/-- **In all other cases** what is wrong is reported, or the queries are answered. -/
theorem run_of_named (hcap : ∀ x, walk document ["prover", "max_steps"] ≠ some (.decimal x))
    (hflat : ¬FlatProver document)
    (hloop : ¬NamelessLoop environment arguments.loop document) :
    ∃ exit after, run (Desk.host load environment home time) texts { folder } = (exit, after) ∧
      after.folder = folder ∧
      (Reported (make environment (Path.normal config) document) arguments.toChoices exit after ∨
        Answered (make environment (Path.normal config) document) arguments clauses builder time
          queries exit after) := by
  have hreported : ∀ {e}, make environment (Path.normal config) document = .error e →
      isSettingsError e = true → ∃ exit after,
        run (Desk.host load environment home time) texts { folder } = (exit, after) ∧
        after.folder = folder ∧ Reported (make environment (Path.normal config) document)
          arguments.toChoices exit after := by
    intro e hmake he
    have hrun := run_of_settings_error environment home time h hmake
    rw [he] at hrun
    exact ⟨_, _, hrun, rfl, rfl, rfl, .inl ⟨e, hmake, rfl⟩⟩
  rcases make_cases (Path.normal config) h.once htrace hflat with ⟨hmake, -⟩ | hmade
  · obtain ⟨exit, after, hrun, hfolder, hends⟩ := hreported hmake rfl
    exact ⟨exit, after, hrun, hfolder, .inl hends⟩
  cases hasked : capOf (askedCap environment document) with
  | error e =>
    rw [hasked] at hmade
    obtain ⟨exit, after, hrun, hfolder, hends⟩ := hreported hmade
      (isSettingsError_of_askedCap hasked hcap)
    exact ⟨exit, after, hrun, hfolder, .inl hends⟩
  | ok cap =>
    rw [hasked] at hmade
    obtain ⟨settings, hmake, -, hnamed, hnone⟩ := hmade
    -- with an accepted cap and no option, only a text is left for the loop
    have hname : arguments.loop = none → ∃ name, settings.loop = .str name := by
      intro hchosen
      by_contra hno
      exact hloop ⟨hchosen, fun name hname => hno ⟨name, hnamed.trans hname⟩, cap, hasked⟩
    rcases chooseLoop_cases h.cap hname with ⟨e, hchosen, he⟩ | ⟨loop, hchosen⟩
    · obtain ⟨logged, hlogged, hrun⟩ :=
        run_of_loop_error environment home time h hmake hnone hchosen
      rw [he] at hrun
      -- no status was shown, so the last line is told as it is
      have hline : (logged.told ("Error: " ++ e.message)).err.getLast?
          = some ("Error: " ++ e.message) := by
        simp [Desk.told, hlogged.status rfl]
      exact ⟨_, _, hrun, hlogged.folder,
        .inl ⟨rfl, hlogged.out, .inr ⟨settings, e, hmake, hchosen, hline⟩⟩⟩
    · obtain ⟨exit, after, hrun, hfolder, hends⟩ := run_of_loop environment home time h hmake hnone
        hchosen
      exact ⟨exit, after, hrun, hfolder, .inr hends⟩

end Runs

/-! ### Runs on one fact -/

/-- A problem that asks for its only fact, and a document of settings. -/
def oneFact (text : String) : Folder :=
  .ofFiles [("s.kb", "P\n? P\n"), ("c.yaml", text)]

/-- The arguments that name both. -/
def oneFactTexts : List String := ["s.kb", "--config", "c.yaml"]

/-- A run on one fact with a document that has a value. -/
abbrev OneFact (text : String) (document : Json) : Prop :=
  Configured Document.parse (oneFact text) oneFactTexts { problem := "s.kb", config := some "c.yaml" } "c.yaml"
    document [Clause.withId ⟨[{ name := "P" }]⟩ 1] { symbols := ["P"] } ["P"]

theorem configured_oneFact {text : String} {document : Json}
    (hlook : (oneFact text).look (Path.normal "c.yaml") = .file text)
    (hproblem : (oneFact text).look (Path.normal "s.kb") = .file "P\n? P\n")
    (hparse : (Document.parse text).toOption = some document) : OneFact text document where
  read := ok_of_toOption (by decide +kernel)
  cap := nofun
  traceFile := rfl
  json := rfl
  named := rfl
  readable := ⟨text, hlook, ok_of_toOption hparse⟩
  once := Document.namesOnce_of_parse (ok_of_toOption hparse)
  problem := ⟨_, hproblem, eq_ok_of_toOption (by decide +kernel), by decide +kernel⟩
  asked := nofun

/-- A document that takes the cap from the environment. -/
def cappedText : String := "prover:\n  max_steps: $\x7bCAP:2\x7d\n"

/-- Its value. -/
def cappedDocument : Json := .obj [("prover", .obj [("max_steps", .str "$\x7bCAP:2\x7d")])]

/-! ### The main result -/

/-- **Configuration.** Whatever makes trees of documents, a run that names a document without a
    section on the trace reports what is wrong or answers its queries, and leaves the files alone,
    but for two kinds of documents: with a section on the prover that is no mapping, or with a
    loop that is asked for by something other than a text, the run ends with an error that it does
    not report. -/
theorem configuration_reported {load : String → Except Error Json} (environment : Environment)
    (home time : String) {folder : Folder} {texts : List String} {arguments : Arguments}
    {config : String} {document : Json} {clauses : List NumberedClause} {builder : Builder}
    {queries : List String}
    (h : Configured load folder texts arguments config document clauses builder queries)
    (htrace : walk document ["trace"] = none)
    (hcap : ∀ x, walk document ["prover", "max_steps"] ≠ some (.decimal x)) :
    ∃ exit after, run (Desk.host load environment home time) texts { folder } = (exit, after) ∧
      after.folder = folder ∧
      (FlatProver document → exit = .escaped .sectionNotMapping) ∧
      (¬FlatProver document → NamelessLoop environment arguments.loop document →
        exit = .escaped .loopNotNamed) ∧
      (¬FlatProver document → ¬NamelessLoop environment arguments.loop document →
        Reported (make environment (Path.normal config) document) arguments.toChoices exit after ∨
        Answered (make environment (Path.normal config) document) arguments clauses builder time
          queries exit after) := by
  by_cases hflat : FlatProver document
  · exact ⟨_, _, run_of_flat environment home time h hflat, rfl, fun _ => rfl,
      fun hno => absurd hflat hno, fun hno => absurd hflat hno⟩
  by_cases hloop : NamelessLoop environment arguments.loop document
  · obtain ⟨after, hrun, hfolder⟩ := run_of_nameless environment home time h htrace hflat hloop
    exact ⟨_, after, hrun, hfolder, fun hyes => absurd hyes hflat, fun _ _ => rfl,
      fun _ hno => absurd hloop hno⟩
  · obtain ⟨exit, after, hrun, hfolder, hends⟩ :=
      run_of_named environment home time h htrace hcap hflat hloop
    exact ⟨exit, after, hrun, hfolder, fun hyes => absurd hyes hflat,
      fun _ hyes => absurd hyes hloop, fun _ _ => hends⟩

/-- **A cap of zero** that comes from the environment is reported. -/
theorem configuration_reported_capped :
    OneFact cappedText cappedDocument ∧ walk cappedDocument ["trace"] = none ∧
    (∀ x, walk cappedDocument ["prover", "max_steps"] ≠ some (.decimal x)) ∧
    ¬FlatProver cappedDocument ∧ ¬NamelessLoop [("CAP", "0")] none cappedDocument ∧
    ∃ after, run (Desk.host Document.parse [("CAP", "0")] "/" "0.0") oneFactTexts { folder := oneFact cappedText }
        = (.code 1, after) ∧ after.folder = oneFact cappedText ∧ after.out = [] ∧
      after.err = ["Error reading configuration: prover.max_steps must be positive, got 0"] := by
  have hrun : OneFact cappedText cappedDocument :=
    configured_oneFact (by decide +kernel) (by decide +kernel) (by decide +kernel)
  have htrace : walk cappedDocument ["trace"] = none := rfl
  have hcap : ∀ x, walk cappedDocument ["prover", "max_steps"] ≠ some (.decimal x) := nofun
  have hflat : ¬FlatProver cappedDocument := by
    rintro ⟨v, hv, hno⟩
    exact hno _ (Option.some.inj hv).symm
  have hnamed : ¬NamelessLoop [("CAP", "0")] none cappedDocument := by
    intro h
    have hbasic : askedLoop [("CAP", "0")] cappedDocument = .str "basic" := by decide +kernel
    exact h.nameless _ hbasic
  obtain ⟨exit, after, hends, hfolder, -, -, hreported⟩ :=
    configuration_reported [("CAP", "0")] "/" "0.0" hrun htrace hcap
  have herr : (run (Desk.host Document.parse [("CAP", "0")] "/" "0.0") oneFactTexts
      { folder := oneFact cappedText }).2.err
        = ["Error reading configuration: prover.max_steps must be positive, got 0"] := by
    decide +kernel
  rw [hends] at herr
  rcases hreported hflat hnamed with ⟨rfl, hout, -⟩ | ⟨settings, loop, hmade, -⟩
  · exact ⟨hrun, htrace, hcap, hflat, hnamed, after, hends, hfolder, hout, herr⟩
  · have hrefused : (make [("CAP", "0")] (Path.normal "c.yaml") cappedDocument).isOk = false := by
      decide +kernel
    rw [hmade] at hrefused
    cases hrefused

/-- **Not every document is reported:** an error escapes where the section on the prover is a
    number, and where it asks for a loop without a name. -/
theorem configuration_not_reported :
    (OneFact "prover: 5\n" (.obj [("prover", .int 5)]) ∧
      run (Desk.host Document.parse [] "/" "0.0") oneFactTexts { folder := oneFact "prover: 5\n" }
        = (.escaped .sectionNotMapping, { folder := oneFact "prover: 5\n" })) ∧
    OneFact "prover:\n  loop: null\n" (.obj [("prover", .obj [("loop", .null)])]) ∧
    ∃ after, run (Desk.host Document.parse [] "/" "0.0") oneFactTexts
      { folder := oneFact "prover:\n  loop: null\n" } = (.escaped .loopNotNamed, after) := by
  have hnumber : OneFact "prover: 5\n" (.obj [("prover", .int 5)]) :=
    configured_oneFact (by decide +kernel) (by decide +kernel) (by decide +kernel)
  have hnull : OneFact "prover:\n  loop: null\n" (.obj [("prover", .obj [("loop", .null)])]) :=
    configured_oneFact (by decide +kernel) (by decide +kernel) (by decide +kernel)
  have hflat : FlatProver (.obj [("prover", .int 5)]) := ⟨.int 5, rfl, nofun⟩
  have hsection : ¬FlatProver (.obj [("prover", .obj [("loop", .null)])]) := by
    rintro ⟨v, hv, hno⟩
    exact hno _ (Option.some.inj hv).symm
  have hnameless : NamelessLoop [] none (.obj [("prover", .obj [("loop", .null)])]) :=
    ⟨rfl, nofun, none, rfl⟩
  obtain ⟨after, hescaped, -⟩ := run_of_nameless [] "/" "0.0" hnull rfl hsection hnameless
  exact ⟨⟨hnumber, run_of_flat [] "/" "0.0" hnumber hflat⟩, hnull, after, hescaped⟩

end CommandLine

end Refuter
