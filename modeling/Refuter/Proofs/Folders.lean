import Refuter.CommandLine.Host

/-! # Files that were written

A path *opens* a place in a folder if it leads to a file that may be written, or to nothing in
a directory that is there and in which it may be made. Exactly there a file can be written, and
the path then leads to that file: the directories on the way stay where they are
(`placeAt_put_of_directory`), and what may be entered stays so, so the same path is walked again
(`Leads.put`).

**Key results.**
- `holds?_of_write`: what was written under a path is what the file there holds;
- `opens?_write`: writing does not change which place the path opens.
-/

namespace Refuter

/-- The place of a file, or of nothing in a directory that is there. -/
def Place.target? : Place → Option (List String)
  | file place _ | free place => some place
  | directory _ | nowhere | blocked | unusable | tooLong | denied => none

namespace Folder

variable {folder folder' : Folder} {place : List String} {path content : String}

/-- What the file under a path holds, whether it may be read or not. -/
def holds? (folder : Folder) (path : String) : Option String :=
  match folder.locate path with
  | .file _ content => some content
  | _ => none

/-- A file is found with its content if it may be read. -/
theorem look_of_holds? (h : folder.holds? path = some content)
    (hread : folder.look path ≠ .unreadable) : folder.look path = .file content := by
  unfold holds? at h
  split at h
  · rename_i place text hat
    unfold look at hread ⊢
    rw [hat] at hread ⊢
    dsimp only at hread ⊢
    split at hread
    · rw [if_pos ‹_›, Option.some.inj h]
    · exact absurd rfl hread
  · cases h

/-! ### What stands where -/

theorem lookup_filter_ne (files : List (List String × String)) {other : List String}
    (h : other ≠ place) :
    (files.filter (·.1 ≠ place)).lookup other = files.lookup other := by
  induction files with
  | nil => rfl
  | cons entry rest ih =>
    obtain ⟨components, text⟩ := entry
    by_cases heq : components = place
    · have hother : (other == components) = false := beq_false_of_ne (heq ▸ h)
      rw [List.filter_cons_of_neg (by simpa using heq), ih, List.lookup_cons, hother]
    · rw [List.filter_cons_of_pos (by simpa using heq), List.lookup_cons, List.lookup_cons, ih]

theorem lookup_filter_self (files : List (List String × String)) :
    (files.filter (·.1 ≠ place)).lookup place = none := by
  rw [List.lookup_eq_none_iff]
  intro entry hentry
  have hne := (List.mem_filter.1 hentry).2
  simpa using Ne.symm (by simpa using hne)

/-- A file stands where it was put. -/
theorem placeAt_put_self : (folder.put place content).placeAt place = .file place content := by
  have hlookup : (folder.put place content).files.lookup place = some content := by
    rw [put, List.lookup_append, lookup_filter_self]
    simp
  rw [placeAt, hlookup]

/-- Every directory is one still, for a file is only put where none stands. -/
theorem isDirectory_put {other : List String} (h : folder.isDirectory other = true) :
    (folder.put place content).isDirectory other = true := by
  simp only [isDirectory, put, Bool.or_eq_true, List.any_append, List.any_eq_true,
    List.mem_filter] at h ⊢
  rcases h with (h | h) | ⟨file, hfile, habove⟩
  · exact .inl (.inl h)
  · exact .inl (.inr h)
  · by_cases heq : file.1 = place
    · exact .inr (.inr ⟨(place, content), List.mem_singleton_self _, heq ▸ habove⟩)
    · exact .inr (.inl ⟨file, ⟨hfile, by simpa using heq⟩, habove⟩)

/-- A file that is put somewhere changes nothing about what is permitted. -/
@[simp] theorem permits_put (access : Access) (other : List String) :
    (folder.put place content).permits access other = folder.permits access other :=
  rfl

theorem placeAt_of_directory {other reached : List String}
    (h : folder.placeAt other = .directory reached) :
    reached = other ∧ folder.files.lookup other = none ∧ folder.isDirectory other = true := by
  unfold placeAt at h
  split at h
  · cases h
  · rename_i hnone
    split at h
    · rename_i hdirectory
      injection h with hreached
      exact ⟨hreached.symm, hnone, hdirectory⟩
    · cases h

/-- **Other directories** stay where they are. -/
theorem placeAt_put_of_directory {other reached : List String} (hne : other ≠ place)
    (h : folder.placeAt other = .directory reached) :
    (folder.put place content).placeAt other = .directory reached := by
  obtain ⟨rfl, hnone, hdirectory⟩ := placeAt_of_directory h
  have hlookup : (folder.put place content).files.lookup reached = none := by
    have hother : (reached == place) = false := beq_false_of_ne hne
    rw [put, List.lookup_append, lookup_filter_ne _ hne, hnone]
    simp [List.lookup_cons, hother]
  rw [placeAt, hlookup]
  simp only [isDirectory_put hdirectory, if_true]

theorem target?_placeAt {other : List String} (h : (folder.placeAt other).target? = some place) :
    other = place := by
  unfold placeAt at h
  split at h
  · exact Option.some.inj h
  · split at h
    · cases h
    · exact Option.some.inj h

/-! ### Walks -/

/-- A name that leads down: no empty part, no dots, and not too long. -/
structure LeadsDown (name : String) : Prop where
  /-- It is no empty part. -/
  nonempty : name ≠ ""
  /-- It does not stay. -/
  ne_dot : name ≠ "."
  /-- It does not lead up. -/
  ne_dots : name ≠ ".."
  /-- It is not too long. -/
  short : ¬Path.maxName < name.utf8ByteSize

/-- The parts of a path lead from a directory to a file, or to nothing in a directory. -/
inductive Leads (folder : Folder) (place : List String) : List String → List String → Prop where
  /-- The last name is that of the place. -/
  | here {directory : List String} {name : String}
      (henter : folder.permits .enter directory = true) (hname : LeadsDown name)
      (hat : (folder.placeAt (directory ++ [name])).target? = some place) :
      Leads folder place directory [name]
  /-- A name leads into a directory. -/
  | down {directory reached rest : List String} {name : String}
      (henter : folder.permits .enter directory = true) (hname : LeadsDown name)
      (hat : folder.placeAt (directory ++ [name]) = .directory reached)
      (h : Leads folder place reached rest) : Leads folder place directory (name :: rest)
  /-- An empty part stays in the directory. -/
  | skip {directory rest : List String} (h : Leads folder place directory rest) :
      Leads folder place directory ("" :: rest)
  /-- A dot stays in the directory. -/
  | stay {directory rest : List String} (henter : folder.permits .enter directory = true)
      (h : Leads folder place directory rest) : Leads folder place directory ("." :: rest)
  /-- Two dots lead one directory up. -/
  | up {directory rest : List String} (henter : folder.permits .enter directory = true)
      (h : Leads folder place directory.dropLast rest) :
      Leads folder place directory (".." :: rest)

/-- A step down: the name is looked up in a directory that may be entered. -/
theorem walk_of_leadsDown {directory : List String} {name : String} (rest : List String)
    (henter : folder.permits .enter directory = true) (hname : LeadsDown name) :
    folder.walk directory (name :: rest) =
      match folder.placeAt (directory ++ [name]) with
      | .directory place => folder.walk place rest
      | .file place content => if rest.isEmpty then .file place content else .blocked
      | place => if rest.isEmpty then place else .nowhere := by
  rw [walk, if_neg hname.nonempty, henter, if_neg (by decide), if_neg hname.ne_dot,
    if_neg hname.ne_dots]
  exact if_neg hname.short

theorem leads_of_walk {parts : List String} : ∀ {directory : List String},
    (folder.walk directory parts).target? = some place → Leads folder place directory parts := by
  induction parts with
  | nil => intro directory h; cases h
  | cons name rest ih =>
    intro directory h
    by_cases hempty : name = ""
    · subst hempty
      rw [walk, if_pos rfl] at h
      exact .skip (ih h)
    by_cases hdenied : folder.permits .enter directory = false
    · rw [walk, if_neg hempty, hdenied] at h
      cases h
    have henter : folder.permits .enter directory = true := by simpa using hdenied
    by_cases hdot : name = "."
    · subst hdot
      rw [walk, if_neg hempty, henter, if_neg (by decide), if_pos rfl] at h
      exact .stay henter (ih h)
    by_cases hdots : name = ".."
    · subst hdots
      rw [walk, if_neg hempty, henter, if_neg (by decide), if_neg hdot, if_pos rfl] at h
      exact .up henter (ih h)
    by_cases hlong : Path.maxName < name.utf8ByteSize
    · rw [walk, if_neg hempty, henter, if_neg (by decide), if_neg hdot, if_neg hdots,
        if_pos hlong] at h
      cases h
    have hname : LeadsDown name := ⟨hempty, hdot, hdots, hlong⟩
    rw [walk_of_leadsDown rest henter hname] at h
    cases hat : folder.placeAt (directory ++ [name]) with
    | directory reached =>
      rw [hat] at h
      exact .down henter hname hat (ih h)
    | file reached text | free reached =>
      rw [hat] at h
      dsimp only at h
      split at h
      · rename_i hrest
        rw [List.isEmpty_iff.1 hrest]
        exact .here henter hname (by rw [hat]; exact h)
      · cases h
    | nowhere | blocked | unusable | tooLong | denied =>
      rw [hat] at h
      dsimp only at h
      split at h <;> cases h

namespace Leads

variable {directory parts : List String}

/-- No directory stands where the parts lead. -/
theorem target? (h : Leads folder place directory parts) :
    (folder.placeAt place).target? = some place := by
  induction h with
  | here _ _ hat => rwa [target?_placeAt hat] at hat
  | down _ _ _ _ ih => exact ih
  | skip _ ih => exact ih
  | stay _ _ ih => exact ih
  | up _ _ ih => exact ih

/-- The walk along the parts ends where they lead. -/
theorem walk (h : Leads folder place directory parts) :
    folder.walk directory parts = folder.placeAt place := by
  induction h with
  | here henter hname hat =>
    rw [walk_of_leadsDown [] henter hname, target?_placeAt hat]
    cases folder.placeAt place <;> rfl
  | down henter hname hat _ ih =>
    rw [walk_of_leadsDown _ henter hname, hat]
    exact ih
  | skip _ ih => rwa [Folder.walk, if_pos rfl]
  | stay henter _ ih =>
    rwa [Folder.walk, if_neg (by decide), henter, if_neg (by decide), if_pos rfl]
  | up henter _ ih =>
    rwa [Folder.walk, if_neg (by decide), henter, if_neg (by decide), if_neg (by decide),
      if_pos rfl]

/-- **Walking again:** with a file put at the place, the parts still lead there. -/
theorem put (h : Leads folder place directory parts) (content : String) :
    Leads (folder.put place content) place directory parts := by
  induction h with
  | here henter hname hat =>
    refine .here henter hname ?_
    rw [target?_placeAt hat, placeAt_put_self]
    rfl
  | down henter hname hat h ih =>
    refine .down henter hname (placeAt_put_of_directory ?_ hat) ih
    -- a directory stands at the one, none at the other
    intro heq
    have htarget := h.target?
    rw [← heq, hat] at htarget
    cases htarget
  | skip _ ih => exact .skip ih
  | stay henter _ ih => exact .stay henter ih
  | up henter _ ih => exact .up henter ih

end Leads

/-! ### Writing under a path -/

/-- A place that can be written is that of a file or free, and may be written. -/
theorem target?_of_writable? {p : Place} (h : folder.writable? p = some place) :
    p.target? = some place ∧ folder.permits .write place = true := by
  cases p with
  | file reached text =>
    rw [writable?, Option.ite_none_right_eq_some] at h
    obtain ⟨hwrite, hplace⟩ := h
    exact ⟨hplace, Option.some.inj hplace ▸ hwrite⟩
  | free reached =>
    rw [writable?, Option.ite_none_right_eq_some, permitsNew, Bool.and_eq_true] at h
    obtain ⟨⟨-, hwrite⟩, hplace⟩ := h
    exact ⟨hplace, Option.some.inj hplace ▸ hwrite⟩
  | directory | nowhere | blocked | unusable | tooLong | denied => cases h

/-- A path that opens a place leads there, from the root or the working directory. -/
theorem leads_of_opens? (h : folder.opens? path = some place) :
    Leads folder place (start folder.working path) (Path.parts path) ∧
    ∀ content, (folder.put place content).locate path =
      (folder.put place content).walk (start folder.working path) (Path.parts path) := by
  obtain ⟨htarget, -⟩ := target?_of_writable? h
  unfold locate at htarget ⊢
  split at htarget
  · cases htarget
  split at htarget
  · cases htarget
  · rename_i husable hlength
    refine ⟨leads_of_walk htarget, fun content => ?_⟩
    rw [if_neg husable, if_neg hlength]
    rfl

theorem locate_put (h : folder.opens? path = some place) :
    (folder.put place content).locate path = .file place content := by
  obtain ⟨hleads, hlocate⟩ := leads_of_opens? h
  rw [hlocate, (hleads.put content).walk, placeAt_put_self]

theorem write_of_opens? (h : folder.opens? path = some place)
    (hwhole : Text.hasHalf content = false) :
    folder.write path content = .ok (folder.put place content) := by
  rw [write, h, storable, hwhole]
  rfl

theorem opens?_of_write (h : folder.write path content = .ok folder') :
    ∃ place, folder.opens? path = some place ∧ Text.hasHalf content = false := by
  unfold write storable at h
  cases hopens : folder.opens? path with
  | none =>
    rw [hopens] at h
    cases h
  | some place =>
    rw [hopens] at h
    cases hhalf : Text.hasHalf content with
    | true =>
      rw [hhalf] at h
      cases h
    | false => exact ⟨place, rfl, rfl⟩

/-- **Read after write.** -/
theorem holds?_of_write (h : folder.write path content = .ok folder') :
    folder'.holds? path = some content := by
  obtain ⟨place, hopens, hwhole⟩ := opens?_of_write h
  rw [write_of_opens? hopens hwhole] at h
  obtain rfl := Except.ok.inj h
  rw [holds?, locate_put hopens]

/-- The path opens the same place as before. -/
theorem opens?_write (h : folder.write path content = .ok folder') :
    folder'.opens? path = folder.opens? path := by
  obtain ⟨place, hopens, hwhole⟩ := opens?_of_write h
  rw [write_of_opens? hopens hwhole] at h
  obtain rfl := Except.ok.inj h
  obtain ⟨-, hwrite⟩ := target?_of_writable? hopens
  rw [hopens, opens?, locate_put hopens, writable?, permits_put, if_pos hwrite]

end Folder

end Refuter
