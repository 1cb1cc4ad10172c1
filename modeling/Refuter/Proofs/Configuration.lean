import Refuter.CommandLine.Program
import Refuter.Proofs.Layers

/-! # What a settings document is checked for

A document is laid over the defaults, its placeholders are filled in, and then it is checked.
Of a document without a section on the trace three things count: whether its section on the
prover is a mapping, and what stands there under the cap and under the loop. They are found in
the document itself (`Settings.walk`), since defaults, merging and filling in do not change what
is a mapping (`Settings.get?_layered`).

**Key results.**
- A section that is no mapping is refused, by an error that no run reports
  (`Settings.make_of_flat`).
- Any other document is refused for what it is or for its cap, and a run reports that; or it
  makes settings whose loop is the one that it names (`Settings.make_cases`).
-/

namespace Refuter

namespace Settings

/-! ### Filling in -/

theorem expandMembers_eq_map (env : Environment) (members : Members Json) :
    expandMembers env members = members.map fun (name, v) => (name, expand env v) := by
  induction members with
  | nil => rw [expandMembers]; rfl
  | cons m rest ih =>
    obtain ⟨name, v⟩ := m
    rw [expandMembers, ih, List.map_cons]

theorem get?_expandMembers (env : Environment) (members : Members Json) (name : String) :
    Members.get? (expandMembers env members) name
      = (Members.get? members name).map (expand env) := by
  rw [expandMembers_eq_map, Members.get?_map]

/-- What is filled in is a mapping if it was one. -/
theorem expand_eq_obj {env : Environment} {v : Json} {members : Members Json}
    (h : expand env v = .obj members) : ∃ before, v = .obj before := by
  cases v with
  | scalar s => cases s <;> simp [expand] at h
  | arr items => simp [expand] at h
  | obj before => exact ⟨before, rfl⟩

/-- What is filled in is a decimal number if it was one. -/
theorem expand_eq_decimal {env : Environment} {v : Json} {x : Double}
    (h : expand env v = .decimal x) : v = .decimal x := by
  cases v with
  | scalar s => cases s <;> simp_all [expand]
  | arr items => simp [expand] at h
  | obj before => simp [expand] at h

/-! ### The members of a document -/

/-- **A document** makes members in which the same is found, unless it is refused. -/
theorem ofDocument_cases (path : String) {document : Json} (hnames : document.NamesOnce) :
    (ofDocument path document = .error (.notMapping path document.kindName) ∧
      ∀ name rest, walk document (name :: rest) = none) ∨
    ∃ members, ofDocument path document = .ok members ∧ (Json.obj members).NamesOnce ∧
      ∀ name rest, walk document (name :: rest) = walk (.obj members) (name :: rest) := by
  unfold ofDocument
  cases hvoid : isVoid document with
  | true =>
    -- a void document counts as an empty mapping, and nothing is found in it either
    refine .inr ⟨[], rfl, .obj List.nodup_nil nofun, fun name rest => ?_⟩
    cases document with
    | scalar s => rfl
    | arr items => rfl
    | obj members => rw [List.isEmpty_iff.1 (show members.isEmpty = true from hvoid)]
  | false =>
    cases document with
    | scalar s => exact .inl ⟨rfl, fun _ _ => rfl⟩
    | arr items => exact .inl ⟨rfl, fun _ _ => rfl⟩
    | obj members => exact .inr ⟨members, rfl, hnames, fun _ _ => rfl⟩

/-! ### Layers -/

variable {env : Environment} {members : Members Json}

/-- The members of a document over the defaults, with placeholders filled in. -/
def layered (env : Environment) (members : Members Json) : Settings :=
  ⟨expandMembers env (defaults.update members).tree⟩

/-- What stands in a section, if that is a mapping. -/
def sectionMembers (members : Members Json) (name : String) : Members Json :=
  match Members.get? members name with
  | some (.obj inner) => inner
  | _ => []

theorem walk_section (members : Members Json) (name inner : String) :
    walk (.obj members) [name, inner] = Members.get? (sectionMembers members name) inner := by
  rw [walk, sectionMembers]
  cases Members.get? members name with
  | none => rfl
  | some v =>
    cases v with
    | scalar s => rfl
    | arr items => rfl
    | obj below =>
      show (Members.get? below inner).bind (walk · []) = Members.get? below inner
      cases Members.get? below inner <;> rfl

theorem nodup_sectionMembers (h : (Json.obj members).NamesOnce) (name : String) :
    ((sectionMembers members name).map (·.1)).Nodup := by
  cases h with
  | obj _ hvalues =>
    unfold sectionMembers
    split
    · rename_i inner hinner
      cases hvalues _ (Members.mem_of_get? hinner) with
      | obj hnodup _ => exact hnodup
    · exact List.nodup_nil

/-- The defaults for the prover, with what a document says laid over them. -/
def proverSection (env : Environment) (members : Members Json) : Members Json :=
  expandMembers env
    (mergeMembers [("loop", .str "basic"), ("max_steps", .null)] (sectionMembers members "prover"))

theorem get?_layered (hnames : (members.map (·.1)).Nodup) (name : String) :
    Members.get? (layered env members).tree name =
      ((Members.get? members name).elim (Members.get? defaults.tree name)
        fun v => some (mergeValue (Members.get? defaults.tree name) v)).map (expand env) := by
  rw [layered, get?_expandMembers]
  congr 1
  show Members.get? (mergeMembers defaults.tree members) name = _
  rw [get?_mergeMembers hnames]
  cases Members.get? members name <;> rfl

/-- **A section on the prover that is no mapping** stays none. -/
theorem sectionOf_prover_of_flat (env : Environment) (hnames : (members.map (·.1)).Nodup) {v : Json}
    (hv : Members.get? members "prover" = some v) (hflat : ∀ inner, v ≠ .obj inner) :
    (layered env members).sectionOf "prover" = .error .sectionNotMapping := by
  have hmerge : mergeValue (Members.get? defaults.tree "prover") v = v := by
    cases v with
    | scalar s => rw [mergeValue]
    | arr items => rw [mergeValue]
    | obj inner => exact absurd rfl (hflat inner)
  rw [sectionOf, get?_layered hnames, hv, Option.elim, hmerge, Option.map_some]
  cases hexpand : expand env v with
  | obj inner =>
    obtain ⟨before, hbefore⟩ := expand_eq_obj hexpand
    exact absurd hbefore (hflat before)
  | _ => rfl

/-- **Otherwise** it holds the defaults with what the document says laid over them. -/
theorem sectionOf_prover (env : Environment) (hnames : (members.map (·.1)).Nodup)
    (h : ∀ v, Members.get? members "prover" = some v → ∃ inner, v = .obj inner) :
    (layered env members).sectionOf "prover" = .ok (proverSection env members) := by
  have hdefault : Members.get? defaults.tree "prover"
      = some (.obj [("loop", .str "basic"), ("max_steps", .null)]) := rfl
  rw [sectionOf, get?_layered hnames, proverSection, sectionMembers, hdefault]
  cases hprover : Members.get? members "prover" with
  | none => simp only [Option.elim, Option.map_some, expand, mergeMembers]
  | some v =>
    obtain ⟨inner, rfl⟩ := h v hprover
    simp only [Option.elim, Option.map_some, mergeValue, expand]

/-- A section on the trace that no document gives holds the default. -/
theorem sectionOf_trace (env : Environment) (hnames : (members.map (·.1)).Nodup)
    (h : Members.get? members "trace" = none) :
    (layered env members).sectionOf "trace" = .ok [("path", .null)] := by
  have hdefault : Members.get? defaults.tree "trace" = some (.obj [("path", .null)]) := rfl
  rw [sectionOf, get?_layered hnames, h, Option.elim, hdefault]
  simp [expand, expandMembers]

/-- **What the section holds** under a name with a default: what the document says there,
    or else the default. -/
theorem get?_proverSection (env : Environment) (h : (Json.obj members).NamesOnce) (name : String)
    (default : Scalar)
    (hdefault : Members.get? ([("loop", .str "basic"), ("max_steps", .null)] : Members Json) name
      = some (.scalar default)) :
    Members.get? (proverSection env members) name
      = some (expand env ((walk (.obj members) ["prover", name]).getD (.scalar default))) := by
  -- the default is no mapping, so what the document says takes its place
  have hmerge : ∀ v, mergeValue (some (.scalar default)) v = v := by
    intro v
    cases v <;> rw [mergeValue]
    intro members h
    cases h
  rw [walk_section, proverSection, get?_expandMembers,
    get?_mergeMembers (nodup_sectionMembers h "prover"), hdefault]
  cases Members.get? (sectionMembers members "prover") name with
  | none => rfl
  | some v => exact congrArg (fun w => some (expand env w)) (hmerge v)

/-! ### Checking -/

/-- The section on the prover is there and no mapping. -/
def FlatProver (document : Json) : Prop :=
  ∃ v, walk document ["prover"] = some v ∧ ∀ inner, v ≠ .obj inner

/-- What a document asks for as the cap, with placeholders filled in. -/
def askedCap (env : Environment) (document : Json) : Json :=
  expand env ((walk document ["prover", "max_steps"]).getD .null)

/-- What a document asks for as the loop, with placeholders filled in. -/
def askedLoop (env : Environment) (document : Json) : Json :=
  expand env ((walk document ["prover", "loop"]).getD (.str "basic"))

theorem get?_of_section {settings : Settings} {key name inner : String} {below : Members Json}
    (hkey : keyParts key = [name, inner])
    (h : Members.get? settings.tree name = some (.obj below)) :
    settings.get? key = Members.get? below inner := by
  rw [get?, hkey, walk_section, sectionMembers, h]

/-- **Checked settings** keep the loop and have the cap that the section's cap stands for. -/
theorem validate_of_sections {settings : Settings} {prover : Members Json}
    (hprover : settings.sectionOf "prover" = .ok prover)
    (htrace : settings.sectionOf "trace" = .ok [("path", .null)]) :
    match capOf ((Members.get? prover "max_steps").getD .null) with
    | .error e => settings.validate = .error e
    | .ok cap => ∃ checked, settings.validate = .ok checked ∧ checked.cap = cap ∧
        checked.loop = (Members.get? prover "loop").getD (.str "basic") ∧
        checked.tracePath = none := by
  unfold validate
  rw [hprover, htrace]
  cases hcap : capOf ((Members.get? prover "max_steps").getD .null) with
  | error e => simp [hcap, bind, Except.bind]
  | ok cap =>
    simp only [hcap, bind, Except.bind, pure, Except.pure]
    refine ⟨_, rfl, ?_⟩
    -- both sections stand where they were checked
    generalize hchecked : Settings.mk _ = checked
    have hnew : Members.get? checked.tree "prover"
        = some (.obj (Members.set prover "max_steps" (.ofOption .int cap))) := by
      rw [← hchecked, Members.get?_set_of_ne _ _ (by decide), Members.get?_set_self]
    have hpath : Members.get? checked.tree "trace" = some (.obj [("path", .null)]) := by
      rw [← hchecked, Members.get?_set_self]
      rfl
    have hcapKey : keyParts "prover.max_steps" = ["prover", "max_steps"] := rfl
    have hloopKey : keyParts "prover.loop" = ["prover", "loop"] := rfl
    have hpathKey : keyParts "trace.path" = ["trace", "path"] := rfl
    refine ⟨?_, ?_, ?_⟩
    · rw [Settings.cap, Settings.get, get?_of_section hcapKey hnew, Members.get?_set_self]
      cases cap <;> rfl
    · rw [Settings.loop, Settings.get, get?_of_section hloopKey hnew,
        Members.get?_set_of_ne _ _ (by decide)]
    · rw [Settings.tracePath, Settings.get, get?_of_section hpathKey hpath]
      rfl

/-- **A section that is no mapping** is refused. -/
theorem make_of_flat {path : String} {document : Json} (hnames : document.NamesOnce)
    (h : FlatProver document) : make env path document = .error .sectionNotMapping := by
  obtain ⟨v, hv, hflat⟩ := h
  unfold make
  rcases ofDocument_cases path hnames with ⟨_, hwalk⟩ | ⟨members, hmembers, hinner, hwalk⟩
  · rw [hwalk] at hv
    cases hv
  · have hget : Members.get? members "prover" = some v := by
      rw [hwalk] at hv
      simp only [walk, Option.bind_eq_some_iff, Option.some.injEq] at hv
      obtain ⟨w, hw, rfl⟩ := hv
      exact hw
    cases hinner with
    | obj hnodup _ =>
      have hsection := sectionOf_prover_of_flat env hnodup hget hflat
      simp only [hmembers, bind, Except.bind]
      show (layered env members).validate = _
      rw [validate, hsection]
      rfl

/-- **Any other document** without a section on the trace is refused for what it is or for its
    cap, or makes settings with the cap and the loop that it asks for. -/
theorem make_cases (path : String) {document : Json} (hnames : document.NamesOnce)
    (htrace : walk document ["trace"] = none) (hflat : ¬FlatProver document) :
    (make env path document = .error (.notMapping path document.kindName) ∧
      ∃ name, askedLoop env document = .str name) ∨
    match capOf (askedCap env document) with
    | .error e => make env path document = .error e
    | .ok cap => ∃ settings, make env path document = .ok settings ∧ settings.cap = cap ∧
        settings.loop = askedLoop env document ∧ settings.tracePath = none := by
  unfold make
  rcases ofDocument_cases path hnames with ⟨hrefused, hwalk⟩ | ⟨members, hmembers, hinner, hwalk⟩
  · -- nothing is found in a document that is refused, so the loop is the default one
    exact .inl ⟨by rw [hrefused]; rfl, _, by rw [askedLoop, hwalk]; rfl⟩
  · right
    have hget : ∀ name, walk document [name] = Members.get? members name := by
      intro name
      rw [hwalk, walk]
      cases Members.get? members name <;> rfl
    have hnodup : (members.map (·.1)).Nodup := by
      cases hinner with
      | obj hnodup _ => exact hnodup
    have hprover := sectionOf_prover env hnodup fun v hv => by
      by_contra hno
      exact hflat ⟨v, (hget _).trans hv, fun inner h => hno ⟨inner, h⟩⟩
    have hcap := get?_proverSection env hinner "max_steps" .null rfl
    have hloop := get?_proverSection env hinner "loop" (.str "basic") rfl
    have hvalid := validate_of_sections hprover
      (sectionOf_trace env hnodup ((hget _).symm.trans htrace))
    rw [hcap, hloop] at hvalid
    simp only [hmembers, bind, Except.bind]
    rw [askedCap, askedLoop, hwalk, hwalk]
    exact hvalid

/-! ### What a run reports -/

/-- **What is wrong with a cap** is reported, unless it is a decimal number. -/
theorem isSettingsError_of_capOf {value : Json} {e : Error} (h : capOf value = .error e)
    (hvalue : ∀ x, value ≠ .decimal x) : CommandLine.isSettingsError e = true := by
  unfold capOf at h
  split at h
  · cases h
  split at h
  · rename_i hinfinite
    unfold isInfinite at hinfinite
    split at hinfinite
    · exact absurd rfl (hvalue _)
    · cases hinfinite
  split at h
  · obtain rfl := Except.error.inj h
    rfl
  · split at h
    · obtain rfl := Except.error.inj h
      unfold capFault
      split <;> rfl
    · cases h

theorem isSettingsError_of_askedCap {env : Environment} {document : Json} {e : Error}
    (h : capOf (askedCap env document) = .error e)
    (hcap : ∀ x, walk document ["prover", "max_steps"] ≠ some (.decimal x)) :
    CommandLine.isSettingsError e = true := by
  refine isSettingsError_of_capOf h fun x hx => ?_
  have hgiven := expand_eq_decimal hx
  cases hwalk : walk document ["prover", "max_steps"] with
  | none =>
    rw [hwalk] at hgiven
    cases hgiven
  | some v =>
    rw [hwalk] at hgiven
    exact hcap x (hwalk.trans (congrArg some hgiven))

end Settings

namespace CommandLine

variable {choices : Choices} {settings : Settings}

/-- A loop that is asked for by something other than a text is none. -/
theorem chooseLoop_of_nameless (hloop : choices.loop = none)
    (h : ∀ name, settings.loop ≠ .str name) :
    chooseLoop choices settings = .error .loopNotNamed := by
  have hnamed : Registry.standard.createNamed settings.loop none = .error .loopNotNamed := by
    unfold Registry.createNamed
    split
    · exact absurd ‹_› (h _)
    · rfl
  unfold chooseLoop
  simp only [hloop, hnamed, bind, Except.bind]

theorem createNamed_cases (name : String) :
    (∃ e, Registry.standard.createNamed (.str name) none = .error e ∧ isLoopError e = true) ∨
      ∃ loop, Registry.standard.createNamed (.str name) none = .ok loop := by
  show (∃ e, Registry.standard.create name none = .error e ∧ isLoopError e = true) ∨
    ∃ loop, Registry.standard.create name none = .ok loop
  unfold Registry.create
  cases Members.get? Registry.standard.entries (Text.lower name) with
  | none => exact .inl ⟨.unknownLoop name Registry.standard.names, rfl, rfl⟩
  | some strategy => exact .inr ⟨{ strategy }, rfl⟩

theorem setCap_cases (loop : Loop) (cap : Option Int) :
    (∃ e, loop.setCap cap = .error e ∧ isLoopError e = true) ∨
      ∃ capped, loop.setCap cap = .ok capped := by
  unfold Loop.setCap Loop.checkCap
  cases cap with
  | none => exact .inr ⟨{ loop with cap := none }, rfl⟩
  | some n =>
    by_cases hn : n < 1
    · exact .inl ⟨.capNotPositive n, by simp [hn], rfl⟩
    · exact .inr ⟨{ loop with cap := some n.toNat }, by simp [hn]⟩

/-- Whoever asks for it, a loop is made by its name, and then it is capped. -/
theorem exists_chooseLoop_eq (h : choices.loop = none → ∃ name, settings.loop = .str name) :
    ∃ name, chooseLoop choices settings =
      (Registry.standard.createNamed (.str name) none).bind fun loop =>
        match choices.cap with
        | none => loop.setCap settings.cap
        | some (some n) => loop.setCap (some n)
        | some none => throw (.capNotNumber (Json.arr []).kindName) := by
  unfold chooseLoop
  cases hloop : choices.loop with
  | some name => exact ⟨name, rfl⟩
  | none =>
    obtain ⟨name, hname⟩ := h hloop
    exact ⟨name, by simp only [hname]; rfl⟩

/-- **A loop that is asked for by a text** is made, or what is wrong with it or with the cap is
    reported. -/
theorem chooseLoop_cases (hcap : choices.cap ≠ some none)
    (h : choices.loop = none → ∃ name, settings.loop = .str name) :
    (∃ e, chooseLoop choices settings = .error e ∧ isLoopError e = true) ∨
      ∃ loop, chooseLoop choices settings = .ok loop := by
  obtain ⟨name, hname⟩ := exists_chooseLoop_eq h
  rw [hname]
  rcases createNamed_cases name with ⟨e, he, hreported⟩ | ⟨loop, hloop⟩
  · exact .inl ⟨e, by rw [he]; rfl, hreported⟩
  · rw [hloop]
    cases hchosen : choices.cap with
    | none => exact setCap_cases loop settings.cap
    | some asked =>
      cases asked with
      | some n => exact setCap_cases loop (some n)
      | none => exact absurd hchosen hcap

end CommandLine

end Refuter
