import Chip8.CommandLine.FileSystem

/-!
# What a write leaves

Where a path can be written, it leads through directories to a name, and writing puts a file
there that is then read back from the same path; a device swallows what is written to it.
Nothing at another place changes.
-/

set_option autoImplicit false

namespace Chip8.CommandLine

/-- The outcome of the first step, if the whole of two has one. -/
theorem exists_of_bind_eq_ok {α β ε : Type} {first : Except ε α} {next : α → Except ε β} {b : β}
    (both : first >>= next = .ok b) : ∃ a, first = .ok a ∧ next a = .ok b := by
  cases first with
  | error e => cases both
  | ok a => exact ⟨a, rfl, both⟩

namespace FileSystem

variable {system written : FileSystem}

def place? (system : FileSystem) (text : String) : Except FileError Place := do
  let path ← Path.ofText text
  system.walk path path.steps

/-! ## Ways -/

/-- A system with the same directories as another, in which whatever was there still is. -/
structure Extends (system written : FileSystem) : Prop where
  working : written.working = system.working
  directories : ∀ place,
    system.node? place = some .directory → written.node? place = some .directory
  present : ∀ place, (system.node? place).isSome → (written.node? place).isSome

theorem step_of_directory {place : Place} (directory : system.node? place = some .directory)
    (name : String) : system.step place name =
      if name = "." then .ok place
      else if name = ".." then .ok place.dropLast
      else if Path.maxNameLength < name.utf8ByteSize then .error .nameTooLong
      else if (system.node? (place ++ [name])).isSome then .ok (place ++ [name])
      else .error .notFound := by
  rw [step, directory]

theorem directory_of_step {place there : Place} {name : String}
    (taken : system.step place name = .ok there) : system.node? place = some .directory := by
  unfold step at taken
  split at taken
  · cases taken
  · assumption
  · cases taken

theorem Extends.step (larger : system.Extends written) {place there : Place} {name : String}
    (taken : system.step place name = .ok there) : written.step place name = .ok there := by
  have directory := directory_of_step taken
  rw [step_of_directory directory] at taken
  rw [step_of_directory (larger.directories place directory)]
  split at taken
  · rename_i same
    rwa [if_pos same]
  · rename_i below
    rw [if_neg below]
    split at taken
    · rename_i up
      rwa [if_pos up]
    · rename_i down
      rw [if_neg down]
      split at taken
      · cases taken
      · rename_i short
        rw [if_neg short]
        split at taken
        · rename_i present
          rwa [if_pos (larger.present _ present)]
        · cases taken

theorem Extends.foldlM_step (larger : system.Extends written) {steps : List String}
    {place there : Place} (walked : steps.foldlM system.step place = .ok there) :
    steps.foldlM written.step place = .ok there := by
  induction steps generalizing place with
  | nil => exact walked
  | cons name rest ih =>
      rw [List.foldlM_cons] at walked ⊢
      obtain ⟨next, taken, later⟩ := exists_of_bind_eq_ok walked
      rw [larger.step taken]
      exact ih later

theorem Extends.walk (larger : system.Extends written) {path : Path} {steps : List String}
    {there : Place} (walked : system.walk path steps = .ok there) :
    written.walk path steps = .ok there := by
  unfold FileSystem.walk at walked ⊢
  rw [larger.working]
  exact larger.foldlM_step walked

/-! ## Writing -/

structure Leads (system : FileSystem) (text : String) (place : Place) (name : String) : Prop where
  path : ∃ path, Path.ofText text = .ok path ∧ path.steps.getLast? = some name ∧
    path.slashEnd = false ∧ system.walk path path.steps.dropLast = .ok place
  directory : system.node? place = some .directory
  named : Path.isRelative name = false

theorem leads_of_write {text : String} {bytes : List UInt8}
    (wrote : system.write text bytes = .ok written) :
    ∃ place name, system.Leads text place name ∧
      system.writeInto place name bytes = .ok written := by
  obtain ⟨path, named, onward⟩ := exists_of_bind_eq_ok wrote
  split at onward
  · cases onward
  · rename_i name final
    split at onward
    · obtain ⟨place, -, failed⟩ := exists_of_bind_eq_ok onward
      cases failed
    · rename_i isName
      obtain ⟨place, walked, onward⟩ := exists_of_bind_eq_ok onward
      obtain ⟨same, entered, onward⟩ := exists_of_bind_eq_ok onward
      split at onward
      · cases onward
      · rename_i bare
        exact ⟨place, name, ⟨⟨path, named, final, Bool.eq_false_iff.mpr bare, walked⟩,
          directory_of_step entered, Bool.eq_false_iff.mpr isName⟩, onward⟩

theorem Leads.write_eq {text : String} {place : Place} {name : String}
    (leads : system.Leads text place name) (bytes : List UInt8) :
    system.write text bytes = system.writeInto place name bytes := by
  obtain ⟨⟨path, named, final, bare, walked⟩, directory, isName⟩ := leads
  have entered : system.step place "." = .ok place := by
    rw [step_of_directory directory, if_pos rfl]
  rw [write, named]
  simp only [bind, Except.bind, final, isName, walked, entered, bare, Bool.false_eq_true, if_false]

theorem Leads.step_eq {text : String} {place : Place} {name : String}
    (leads : system.Leads text place name) : system.step place name =
      if Path.maxNameLength < name.utf8ByteSize then .error .nameTooLong
      else if (system.node? (place ++ [name])).isSome then .ok (place ++ [name])
      else .error .notFound := by
  have isName := leads.named
  simp only [Path.isRelative, Bool.or_eq_false_iff, decide_eq_false_iff_not] at isName
  rw [step_of_directory leads.directory, if_neg isName.1, if_neg isName.2]

/-- Whether what is at a place may be written: nothing yet, a file, or a device that refuses
nothing. -/
def Takes : Option Node → Prop
  | none | some (.file _) | some (.device none) => True
  | some .directory | some (.device (some _)) => False

theorem Leads.takes_of_writeInto {text : String} {place : Place} {name : String}
    {bytes : List UInt8} (leads : system.Leads text place name)
    (wrote : system.writeInto place name bytes = .ok written) :
    name.utf8ByteSize ≤ Path.maxNameLength ∧ Takes (system.node? (place ++ [name])) := by
  rw [FileSystem.writeInto, leads.step_eq] at wrote
  by_cases long : Path.maxNameLength < name.utf8ByteSize
  case pos =>
    rw [if_pos long] at wrote
    cases wrote
  case neg =>
    refine ⟨Nat.not_lt.mp long, ?_⟩
    rw [if_neg long] at wrote
    cases present : system.node? (place ++ [name]) with
    | none => trivial
    | some node =>
        rw [present, if_pos Option.isSome_some] at wrote
        dsimp only at wrote
        rw [present] at wrote
        cases node with
        | directory => cases wrote
        | file old => trivial
        | device refusal =>
            cases refusal with
            | none => trivial
            | some refusal => cases wrote

/-- A write has left a file with the bytes at the end of the path, or a device there has
swallowed them; nothing else has changed. -/
structure Wrote (system : FileSystem) (text : String) (bytes : List UInt8) (written : FileSystem) :
    Prop where
  here : written.read text = .ok bytes ∨
    written = system ∧ ∃ place, system.place? text = .ok place ∧
      system.node? place = some (.device none)
  elsewhere : ∃ place, written.place? text = .ok place ∧
    ∀ other, other ≠ place → written.node? other = system.node? other

theorem Leads.walk_eq {text : String} {place : Place} {name : String}
    (leads : system.Leads text place name) (short : name.utf8ByteSize ≤ Path.maxNameLength)
    (larger : system.Extends written) (present : (written.node? (place ++ [name])).isSome) :
    ∃ path, Path.ofText text = .ok path ∧ path.slashEnd = false ∧
      written.walk path path.steps = .ok (place ++ [name]) := by
  obtain ⟨⟨path, named, final, bare, walked⟩, directory, isName⟩ := leads
  have still := larger.walk walked
  have stillLeads : written.Leads text place name :=
    ⟨⟨path, named, final, bare, still⟩, larger.directories _ directory, isName⟩
  have last : written.step place name = .ok (place ++ [name]) := by
    rw [stillLeads.step_eq, if_neg (Nat.not_lt.mpr short), if_pos present]
  refine ⟨path, named, bare, ?_⟩
  obtain ⟨earlier, split⟩ := List.getLast?_eq_some_iff.mp final
  unfold FileSystem.walk at still ⊢
  rw [split, List.dropLast_concat] at still
  rw [split, List.foldlM_append, still]
  show written.step place name >>= pure = _
  rw [last]
  rfl

theorem node?_put_name (place : Place) (name : String) (node : Node) (system : FileSystem) :
    (system.put (place ++ [name]) node).node? (place ++ [name]) = some node :=
  node?_put_self (by simp) node system

theorem put_extends {place : Place} {name : String} (bytes : List UInt8)
    (other : system.node? (place ++ [name]) ≠ some .directory) :
    system.Extends (system.put (place ++ [name]) (.file bytes)) := by
  refine ⟨rfl, ?_, ?_⟩
  · intro there directory
    have apart : there ≠ place ++ [name] := by
      rintro rfl
      exact other directory
    rw [node?_put_of_ne apart, directory]
  · intro there present
    by_cases same : there = place ++ [name]
    · subst same
      rw [node?_put_name]
      rfl
    · rwa [node?_put_of_ne same]

theorem Leads.wrote_put {text : String} {place : Place} {name : String}
    (leads : system.Leads text place name) (short : name.utf8ByteSize ≤ Path.maxNameLength)
    (other : system.node? (place ++ [name]) ≠ some .directory) (bytes : List UInt8) :
    system.Wrote text bytes (system.put (place ++ [name]) (.file bytes)) := by
  have written := node?_put_name place name (.file bytes) system
  obtain ⟨path, named, bare, walked⟩ :=
    leads.walk_eq short (put_extends bytes other) (by rw [written]; rfl)
  refine ⟨.inl ?_, place ++ [name], ?_, fun there apart => node?_put_of_ne apart _ _⟩
  · rw [read, named]
    simp only [bind, Except.bind, walked, written, bare, Bool.false_eq_true, if_false]
    rfl
  · rw [place?, named]
    exact walked

theorem Leads.wrote {text : String} {place : Place} {name : String}
    (leads : system.Leads text place name) (short : name.utf8ByteSize ≤ Path.maxNameLength)
    (takes : Takes (system.node? (place ++ [name]))) (bytes : List UInt8) :
    ∃ written, system.write text bytes = .ok written ∧ system.Wrote text bytes written := by
  have long := Nat.not_lt.mpr short
  rw [leads.write_eq, writeInto, leads.step_eq, if_neg long]
  cases present : system.node? (place ++ [name]) with
  | none => exact ⟨_, rfl, leads.wrote_put short (by rw [present]; nofun) bytes⟩
  | some node =>
      rw [if_pos Option.isSome_some]
      dsimp only
      rw [present] at takes ⊢
      cases node with
      | directory => cases takes
      | file old => exact ⟨_, rfl, leads.wrote_put short (by rw [present]; nofun) bytes⟩
      | device refusal =>
          cases refusal with
          | some refusal => cases takes
          | none =>
              have same : system.Extends system := ⟨rfl, fun _ => id, fun _ => id⟩
              obtain ⟨path, named, -, walked⟩ :=
                leads.walk_eq short same (by rw [present]; rfl)
              have there : system.place? text = .ok (place ++ [name]) := by
                rw [place?, named]
                exact walked
              exact ⟨system, rfl, .inr ⟨rfl, _, there, present⟩, _, there, fun _ _ => rfl⟩

def Writable (system : FileSystem) (text : String) : Prop :=
  ∃ bytes written, system.write text bytes = .ok written

/-- Whether a path can be written does not hang on the bytes; and where it can, they are there
afterwards. -/
theorem Writable.wrote {text : String} (writable : system.Writable text) (bytes : List UInt8) :
    ∃ written, system.write text bytes = .ok written ∧ system.Wrote text bytes written := by
  obtain ⟨others, written, wrote⟩ := writable
  obtain ⟨place, name, leads, into⟩ := leads_of_write wrote
  obtain ⟨short, takes⟩ := leads.takes_of_writeInto into
  exact leads.wrote short takes bytes

end FileSystem

end Chip8.CommandLine
