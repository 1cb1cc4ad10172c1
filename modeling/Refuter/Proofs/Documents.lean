import Refuter.Proofs.Members
import Refuter.Settings.Document

/-! # The names in a read value

An object is made of its members one after the other, and a repeated name replaces the value
that it had. So in every value that is read each name occurs once, whatever the text says.

- **JSON:** the reading machine holds such values only, on its stack and as its current value
  (`Machine.NamesOnce`); a token keeps this (`Machine.namesOnce_step`), and so does a text.
- **Documents:** a document is put together as a tree of parts, in which the values that are
  read already stand in such form (`Node.NamesOnce`), and then the tree is read.

**Key results.** `Json.namesOnce_of_parse?` and `Settings.Document.namesOnce_of_parse`.
-/

namespace Refuter

/-! ### Members -/

namespace Members

variable {α : Type}

theorem mem_set {members : Members α} {name : String} {value : α} {m : String × α}
    (h : m ∈ set members name value) : m = (name, value) ∨ m ∈ members := by
  induction members with
  | nil => exact .inl (List.mem_singleton.1 h)
  | cons first rest ih =>
    rw [set] at h
    split at h
    · rename_i heq
      rcases List.mem_cons.1 h with rfl | h
      · exact .inl (by rw [heq])
      · exact .inr (List.mem_cons_of_mem _ h)
    · rcases List.mem_cons.1 h with rfl | h
      · exact .inr List.mem_cons_self
      · exact (ih h).imp_right (List.mem_cons_of_mem _)

/-- Setting further members keeps the names different, and what is there then was there before
    or was set. -/
theorem foldl_set_spec (rest : List (String × α)) : ∀ before : Members α,
    (before.map (·.1)).Nodup →
    let after := rest.foldl (fun members (name, value) => set members name value) before
    (after.map (·.1)).Nodup ∧ ∀ m ∈ after, m ∈ before ∨ m ∈ rest := by
  induction rest with
  | nil => exact fun before h => ⟨h, fun m hm => .inl hm⟩
  | cons first rest ih =>
    intro before h
    obtain ⟨hnodup, hmem⟩ := ih _ (nodup_set h first.1 first.2)
    refine ⟨hnodup, fun m hm => ?_⟩
    rcases hmem m hm with hm | hm
    · rcases mem_set hm with rfl | hm
      · exact .inr List.mem_cons_self
      · exact .inl hm
    · exact .inr (List.mem_cons_of_mem _ hm)

/-- **Members read in order** have different names, and each of them was read. -/
theorem ofList_spec (pairs : List (String × α)) :
    ((ofList pairs).map (·.1)).Nodup ∧ ∀ m ∈ ofList pairs, m ∈ pairs := by
  obtain ⟨hnodup, hmem⟩ := foldl_set_spec pairs [] List.nodup_nil
  exact ⟨hnodup, fun m hm => (hmem m hm).resolve_left List.not_mem_nil⟩

end Members

/-! ### JSON -/

namespace Json

mutual

/-- Are two values the same? -/
def decEq : (v w : Json) → Decidable (v = w)
  | .scalar s, .scalar t => decidable_of_iff (s = t) (by simp)
  | .arr vs, .arr ws =>
    match decEqItems vs ws with
    | isTrue h => isTrue (congrArg Json.arr h)
    | isFalse h => isFalse fun heq => h (Json.arr.inj heq)
  | .obj ms, .obj ns =>
    match decEqMembers ms ns with
    | isTrue h => isTrue (congrArg Json.obj h)
    | isFalse h => isFalse fun heq => h (Json.obj.inj heq)
  | .scalar _, .arr _ | .scalar _, .obj _ | .arr _, .scalar _ | .arr _, .obj _
  | .obj _, .scalar _ | .obj _, .arr _ => isFalse nofun

/-- Are two lists of values the same? -/
def decEqItems : (vs ws : List Json) → Decidable (vs = ws)
  | [], [] => isTrue rfl
  | v :: vs, w :: ws =>
    match decEq v w, decEqItems vs ws with
    | isTrue h, isTrue h' => isTrue (by rw [h, h'])
    | isFalse h, _ => isFalse fun heq => h (List.cons.inj heq).1
    | _, isFalse h => isFalse fun heq => h (List.cons.inj heq).2
  | [], _ :: _ | _ :: _, [] => isFalse nofun

/-- Are two lists of members the same? -/
def decEqMembers : (ms ns : List (String × Json)) → Decidable (ms = ns)
  | [], [] => isTrue rfl
  | (name, v) :: ms, (name', w) :: ns =>
    match decEq v w, decEqMembers ms ns with
    | isTrue h, isTrue h' =>
      if hname : name = name' then isTrue (by rw [hname, h, h'])
      else isFalse fun heq => hname (Prod.mk.inj (List.cons.inj heq).1).1
    | isFalse h, _ => isFalse fun heq => h (Prod.mk.inj (List.cons.inj heq).1).2
    | _, isFalse h => isFalse fun heq => h (List.cons.inj heq).2
  | [], _ :: _ | _ :: _, [] => isFalse nofun

end

instance : DecidableEq Json := decEq

theorem NamesOnce.ofList {pairs : List (String × Json)} (h : ∀ m ∈ pairs, m.2.NamesOnce) :
    (Json.obj (Members.ofList pairs)).NamesOnce :=
  have ⟨hnodup, hmem⟩ := Members.ofList_spec pairs
  .obj hnodup fun m hm => h m (hmem m hm)

/-- What an open list or object holds so far has different names inside. -/
def Frame.NamesOnce : Frame Json → Prop
  | .items before => ∀ v ∈ before, v.NamesOnce
  | .member before _ => ∀ m ∈ before, m.2.NamesOnce

/-- What was read last has different names inside. -/
def Mode.NamesOnce : Mode Json → Prop
  | .name before | .colon before _ => ∀ m ∈ before, m.2.NamesOnce
  | .after v => v.NamesOnce
  | .value | .arrayStart | .objectStart => True

/-- Everything that a machine holds has different names inside. -/
structure Machine.NamesOnce (m : Machine Json) : Prop where
  /-- What is still open. -/
  stack : ∀ frame ∈ m.stack, frame.NamesOnce
  /-- What was read last. -/
  mode : m.mode.NamesOnce

namespace Machine

theorem namesOnce_stepValue {stack : List (Frame Json)} {token : Token} {m : Machine Json}
    (hstack : ∀ frame ∈ stack, frame.NamesOnce) (h : stepValue plain stack token = .ok m) :
    m.NamesOnce := by
  unfold stepValue at h
  split at h
  · rename_i s
    obtain rfl := Except.ok.inj h
    exact ⟨hstack, .scalar s⟩
  · obtain rfl := Except.ok.inj h
    exact ⟨hstack, trivial⟩
  · obtain rfl := Except.ok.inj h
    exact ⟨hstack, trivial⟩
  · cases h
  · cases h

theorem namesOnce_closeObject {stack : List (Frame Json)} {before : List (String × Json)}
    {m : Machine Json} (hstack : ∀ frame ∈ stack, frame.NamesOnce)
    (hbefore : ∀ m ∈ before, m.2.NamesOnce) (h : closeObject plain stack before = .ok m) :
    m.NamesOnce := by
  obtain rfl : ⟨stack, .after (.obj (Members.ofList before.reverse))⟩ = m := Except.ok.inj h
  exact ⟨hstack, .ofList fun m hm => hbefore m (List.mem_reverse.1 hm)⟩

/-- **A token** adds values with different names only. -/
theorem namesOnce_step {m m' : Machine Json} {token : Token} (hm : m.NamesOnce)
    (h : step plain m token = .ok m') : m'.NamesOnce := by
  obtain ⟨stack, mode⟩ := m
  obtain ⟨hstack, hmode⟩ := hm
  unfold step at h
  dsimp only at h
  split at h
  · exact namesOnce_stepValue hstack h
  · obtain rfl := Except.ok.inj h
    exact ⟨hstack, .arr (List.forall_mem_nil _)⟩
  · have hframe : (Frame.items ([] : List Json)).NamesOnce := List.forall_mem_nil _
    exact namesOnce_stepValue (List.forall_mem_cons.2 ⟨hframe, hstack⟩) h
  · exact namesOnce_closeObject hstack (List.forall_mem_nil _) h
  · obtain rfl := Except.ok.inj h
    exact ⟨hstack, List.forall_mem_nil _⟩
  · obtain rfl := Except.ok.inj h
    exact ⟨hstack, hmode⟩
  · obtain rfl := Except.ok.inj h
    exact ⟨List.forall_mem_cons.2 ⟨hmode, hstack⟩, trivial⟩
  · -- what was read goes to the innermost list or object that is open
    rename_i v
    have hv : v.NamesOnce := hmode
    split at h
    · obtain ⟨hbefore, hstack⟩ := List.forall_mem_cons.1 hstack
      have hitems : (Frame.items (v :: _)).NamesOnce := List.forall_mem_cons.2 ⟨hv, hbefore⟩
      obtain rfl := Except.ok.inj h
      exact ⟨List.forall_mem_cons.2 ⟨hitems, hstack⟩, trivial⟩
    · obtain ⟨hbefore, hstack⟩ := List.forall_mem_cons.1 hstack
      have hitems : ∀ w ∈ v :: _, w.NamesOnce := List.forall_mem_cons.2 ⟨hv, hbefore⟩
      obtain rfl := Except.ok.inj h
      exact ⟨hstack, .arr fun w hw => hitems w (List.mem_reverse.1 hw)⟩
    · obtain ⟨hbefore, hstack⟩ := List.forall_mem_cons.1 hstack
      obtain rfl := Except.ok.inj h
      exact ⟨hstack, List.forall_mem_cons.2 ⟨hv, hbefore⟩⟩
    · obtain ⟨hbefore, hstack⟩ := List.forall_mem_cons.1 hstack
      exact namesOnce_closeObject hstack (List.forall_mem_cons.2 ⟨hv, hbefore⟩) h
    · cases h
  · cases h

/-- **Tokens** in a row. -/
theorem namesOnce_foldlM {tokens : List Token} {m m' : Machine Json} (hm : m.NamesOnce)
    (h : tokens.foldlM (step plain) m = .ok m') : m'.NamesOnce := by
  induction tokens generalizing m with
  | nil => exact Except.ok.inj h ▸ hm
  | cons token rest ih =>
    rw [List.foldlM_cons] at h
    cases hstep : step plain m token with
    | error e =>
      rw [hstep] at h
      cases h
    | ok next =>
      rw [hstep] at h
      exact ih (namesOnce_step hm hstep) h

end Machine

/-- **What a JSON text says** has different names in every object. -/
theorem namesOnce_of_parse? {text : String} {v : Json} (h : parse? text = some v) :
    v.NamesOnce := by
  unfold parse? readWith at h
  cases hrun : (tokens text.toList).foldlM (Machine.step plain) Machine.start with
  | error e =>
    rw [hrun] at h
    cases h
  | ok m =>
    have hstart : (Machine.start : Machine Json).NamesOnce := ⟨List.forall_mem_nil _, trivial⟩
    have hm := Machine.namesOnce_foldlM hstart hrun
    rw [hrun] at h
    obtain ⟨stack, mode⟩ := m
    change (Machine.result ⟨stack, mode⟩).toOption = some v at h
    unfold Machine.result at h
    split at h
    · rename_i heq
      obtain ⟨rfl, rfl⟩ := Machine.mk.inj heq
      exact Option.some.inj h ▸ hm.mode
    · cases h

end Json

/-! ### Documents -/

namespace Settings.Document

theorem exists_of_bind_eq_ok {ε α β : Type} {x : Except ε α} {f : α → Except ε β} {b : β}
    (h : (x >>= f) = .ok b) : ∃ a, x = .ok a ∧ f a = .ok b := by
  cases x with
  | error e => cases h
  | ok a => exact ⟨a, rfl, h⟩

/-- The values that stand in a part already have different names inside. -/
inductive Node.NamesOnce : Node → Prop where
  | plain (text : List Char) : NamesOnce (.plain text)
  | value {v : Json} (h : v.NamesOnce) : NamesOnce (.value v)
  | list {items : List Node} (h : ∀ item ∈ items, NamesOnce item) : NamesOnce (.list items)
  | mapping {members : List (Node × Node)} (h : ∀ m ∈ members, NamesOnce m.2) :
      NamesOnce (.mapping members)

theorem namesOnce_plainNode {text : List Char} {node : Node} (h : plainNode text = .ok node) :
    node.NamesOnce := by
  unfold plainNode at h
  split at h
  · cases h
  · split at h
    · cases h
    · exact Except.ok.inj h ▸ .plain text

theorem namesOnce_bracketed? {text : List Char} {v : Json} (h : bracketed? text = some v) :
    v.NamesOnce := by
  unfold bracketed? at h
  split at h
  · cases h
  split at h
  · cases h
  · exact Json.namesOnce_of_parse? h

theorem namesOnce_single {text : List Char} {node : Node} (h : single text = .ok node) :
    node.NamesOnce := by
  unfold single at h
  split at h
  · rename_i read _
    cases read with
    | error e => cases h
    | ok read =>
      dsimp only [bind, Except.bind] at h
      split at h
      · exact Except.ok.inj h ▸ .value (.scalar _)
      · cases h
  · dsimp only at h
    split at h
    · split at h
      · rename_i v hv
        obtain hv | ⟨-, hv⟩ := (Option.orElse_eq_some _ _ _).1 hv
        · exact Except.ok.inj h ▸ .value (namesOnce_bracketed? hv)
        · exact Except.ok.inj h ▸ .value (namesOnce_bracketed? hv)
      · cases h
    · exact namesOnce_plainNode h

theorem namesOnce_continued {text : List Char} {lines : List Line} {node : Node}
    (h : continued text lines = .ok node) : node.NamesOnce := by
  unfold continued at h
  split at h
  · exact namesOnce_single h
  split at h
  · cases h
  split at h
  · cases h
  split at h
  · cases h
  · exact namesOnce_single h

/-- **Lines put together** hold values with different names only: those of a block, the members
    of a mapping and the items of a list. -/
theorem namesOnce_block (lines : List Line) {node : Node} (h : block lines = .ok node) :
    node.NamesOnce := by
  revert node
  refine block.induct (fun lines => ∀ {node}, block lines = .ok node → node.NamesOnce)
    (fun indent lines => ∀ {nodes}, members indent lines = .ok nodes → ∀ m ∈ nodes, m.2.NamesOnce)
    (fun indent lines => ∀ {nodes}, items indent lines = .ok nodes → ∀ n ∈ nodes, n.NamesOnce)
    ?_ ?_ ?_ ?_ ?_ ?_ ?_ ?_ ?_ ?_ ?_ ?_ ?_ lines
  -- a block: no lines, a list, a mapping, or one value
  · intro node h
    rw [block] at h
    exact Except.ok.inj h ▸ .plain []
  · intro line rest hitem ih node h
    rw [block, if_pos hitem] at h
    obtain ⟨nodes, hnodes, h⟩ := exists_of_bind_eq_ok h
    exact Except.ok.inj h ▸ .list (ih hnodes)
  · intro line rest hitem hkeyed ih node h
    rw [block, if_neg hitem, if_pos hkeyed] at h
    obtain ⟨nodes, hnodes, h⟩ := exists_of_bind_eq_ok h
    exact Except.ok.inj h ▸ .mapping (ih hnodes)
  · intro line rest hitem hkeyed node h
    rw [block, if_neg hitem, if_neg hkeyed] at h
    exact namesOnce_continued h
  -- the members of a mapping, with a value below the name or behind it
  · intro indent nodes h
    rw [members] at h
    exact Except.ok.inj h ▸ List.forall_mem_nil _
  · intro indent line rest hindent nodes h
    rw [members, if_pos hindent] at h
    cases h
  · intro indent line rest hindent hkeyed nodes h
    rw [members, if_neg hindent] at h
    simp only [hkeyed] at h
    cases h
  · intro indent line rest hindent e hkeyed nodes h
    rw [members, if_neg hindent] at h
    simp only [hkeyed] at h
    cases h
  · intro indent line rest hindent key text hkeyed ihrest ihvalue nodes h
    rw [members, if_neg hindent] at h
    simp only [hkeyed] at h
    obtain ⟨node, -, h⟩ := exists_of_bind_eq_ok h
    split at h
    · obtain ⟨value, hvalue, h⟩ := exists_of_bind_eq_ok h
      obtain ⟨nodes', hnodes, h⟩ := exists_of_bind_eq_ok h
      exact Except.ok.inj h ▸ List.forall_mem_cons.2 ⟨ihvalue hvalue, ihrest hnodes⟩
    · obtain ⟨value, hvalue, h⟩ := exists_of_bind_eq_ok h
      obtain ⟨nodes', hnodes, h⟩ := exists_of_bind_eq_ok h
      exact Except.ok.inj h ▸ List.forall_mem_cons.2 ⟨namesOnce_continued hvalue, ihrest hnodes⟩
  -- the items of a list, each of them a block
  · intro indent nodes h
    rw [items] at h
    exact Except.ok.inj h ▸ List.forall_mem_nil _
  · intro indent line rest hindent nodes h
    rw [items, if_pos hindent] at h
    cases h
  · intro indent line rest hindent hitem nodes h
    rw [items, if_neg hindent] at h
    split at h
    · cases h
    · rename_i text htext
      rw [hitem] at htext
      cases htext
  · intro indent line rest hindent text hitem ihitem ihrest nodes h
    rw [items, if_neg hindent] at h
    split at h
    · cases h
    · rename_i text' htext
      obtain rfl := Option.some.inj (htext.symm.trans hitem)
      obtain ⟨item, hblock, h⟩ := exists_of_bind_eq_ok h
      obtain ⟨nodes', hnodes, h⟩ := exists_of_bind_eq_ok h
      exact Except.ok.inj h ▸ List.forall_mem_cons.2 ⟨ihitem hblock, ihrest hnodes⟩

/-! ### Reading the parts -/

theorem namesOnce_value {text : List Char} {v : Json} (h : Plain.value text = .ok v) :
    v.NamesOnce := by
  unfold Plain.value at h
  dsimp only at h
  split at h
  · cases h
  split at h
  · exact Except.ok.inj h ▸ .scalar _
  split at h
  · exact Except.ok.inj h ▸ .scalar _
  split at h
  · exact Except.ok.inj h ▸ .scalar _
  split at h
  · rename_i n _
    cases n with
    | error e => cases h
    | ok n => exact Except.ok.inj h ▸ .scalar _
  · exact Except.ok.inj h ▸ .scalar _
  · exact Except.ok.inj h ▸ .scalar _

theorem exists_of_readItems {items : List Node} {vs : List Json} (h : readItems items = .ok vs) :
    ∀ v ∈ vs, ∃ item ∈ items, item.read = .ok v := by
  induction items generalizing vs with
  | nil =>
    rw [readItems] at h
    exact Except.ok.inj h ▸ List.forall_mem_nil _
  | cons item rest ih =>
    rw [readItems] at h
    obtain ⟨v, hv, h⟩ := exists_of_bind_eq_ok h
    obtain ⟨vs', hvs, h⟩ := exists_of_bind_eq_ok h
    refine Except.ok.inj h ▸ List.forall_mem_cons.2 ⟨⟨item, List.mem_cons_self, hv⟩, fun w hw => ?_⟩
    obtain ⟨other, hother, hread⟩ := ih hvs w hw
    exact ⟨other, List.mem_cons_of_mem _ hother, hread⟩

theorem exists_of_readMembers {nodes : List (Node × Node)} {ms : List (String × Json)}
    (h : readMembers nodes = .ok ms) : ∀ m ∈ ms, ∃ n ∈ nodes, n.2.read = .ok m.2 := by
  induction nodes generalizing ms with
  | nil =>
    rw [readMembers] at h
    exact Except.ok.inj h ▸ List.forall_mem_nil _
  | cons node rest ih =>
    obtain ⟨key, node⟩ := node
    rw [readMembers] at h
    obtain ⟨name, -, h⟩ := exists_of_bind_eq_ok h
    obtain ⟨v, hv, h⟩ := exists_of_bind_eq_ok h
    obtain ⟨ms', hms, h⟩ := exists_of_bind_eq_ok h
    refine Except.ok.inj h ▸
      List.forall_mem_cons.2 ⟨⟨(key, node), List.mem_cons_self, hv⟩, fun m hm => ?_⟩
    obtain ⟨other, hother, hread⟩ := ih hms m hm
    exact ⟨other, List.mem_cons_of_mem _ hother, hread⟩

/-- **A part** is read as a value with different names. -/
theorem Node.NamesOnce.read {node : Node} (hnode : node.NamesOnce) {v : Json}
    (h : node.read = .ok v) : v.NamesOnce := by
  induction hnode generalizing v with
  | plain text =>
    rw [Node.read] at h
    exact namesOnce_value h
  | value hv =>
    rw [Node.read] at h
    exact Except.ok.inj h ▸ hv
  | list _ ih =>
    rw [Node.read] at h
    obtain ⟨vs, hvs, h⟩ := exists_of_bind_eq_ok h
    refine Except.ok.inj h ▸ .arr fun w hw => ?_
    obtain ⟨item, hitem, hread⟩ := exists_of_readItems hvs w hw
    exact ih item hitem hread
  | mapping _ ih =>
    rw [Node.read] at h
    obtain ⟨ms, hms, h⟩ := exists_of_bind_eq_ok h
    refine Except.ok.inj h ▸ .ofList fun m hm => ?_
    obtain ⟨n, hn, hread⟩ := exists_of_readMembers hms m hm
    exact ih n hn hread

/-- **What a document says** has different names in every mapping. -/
theorem namesOnce_of_parse {text : String} {document : Json} (h : parse text = .ok document) :
    document.NamesOnce := by
  unfold parse at h
  obtain ⟨lines, -, h⟩ := exists_of_bind_eq_ok h
  dsimp only at h
  split at h
  · cases h
  obtain ⟨node, hnode, h⟩ := exists_of_bind_eq_ok h
  exact (namesOnce_block _ hnode).read h

end Settings.Document

end Refuter
