import Highlighter.Command.Files

/-!
Written files. Writing a file leaves every directory a directory, so that the path still leads to
the place where the file was put. When writing fails, the file holds a part at most.
-/

set_option autoImplicit false

namespace Highlighter.Files

/-- What the file at a path holds, whether it can be read or not. -/
def content? (files : Files) (p : Path) : Option Bytes :=
  match files.find p with
  | .ok (.file content _) => some content
  | _ => none

def IsDirectory (files : Files) (place : Place) : Prop :=
  ∃ stamp, files.entry? place = some (.directory stamp)

/-- A file can be written at a path: the path leads to a place in a directory where there is no
other directory, and there is no trouble. -/
structure Writable (files : Files) (p : Path) : Prop where
  place : ∃ place, files.place p = .ok place ∧ ¬ files.IsDirectory place
  opened : files.trouble .openWrite p = none
  written : files.trouble .write p = none

variable {files files' : Files} {place start q : Place} {names : List Text} {p : Path}
  {content : Bytes}

theorem entry?_put (files : Files) (place : Place) (e : FileEntry) (q : Place) :
    Files.entry? { files with entries := files.entries.put place e } q =
      if place = q then some e else files.entry? q := by
  unfold entry?
  rw [Entries.get?_put]
  by_cases hq : place = q
  · rw [if_pos hq, if_pos hq]
  · rw [if_neg hq, if_neg hq]

theorem IsDirectory.touchDirectory (h : files.IsDirectory q) (place : Place) :
    (files.touchDirectory place).IsDirectory q := by
  rw [IsDirectory, Files.touchDirectory, entry?_put]
  split
  · exact ⟨_, rfl⟩
  · exact h

theorem IsDirectory.putFile (h : files.IsDirectory q) (hne : place ≠ q) (content : Bytes) :
    (files.putFile place content).IsDirectory q := by
  have htick : { files with clock := files.clock + 1 }.IsDirectory q := h
  rw [IsDirectory, Files.putFile, entry?_put, if_neg hne]
  split
  · exact htick
  · exact htick.touchDirectory _

theorem entry?_putFile (files : Files) (place : Place) (content : Bytes) :
    ∃ stamp, Files.entry? (files.putFile place content) place = some (.file content stamp) := by
  rw [putFile, entry?_put, if_pos rfl]
  exact ⟨_, rfl⟩

/-- A walk leads to the same place if what was a directory still is one. -/
theorem walk_of_isDirectory (hkeep : ∀ q, files.IsDirectory q → files'.IsDirectory q)
    (h : files.walk start names = .ok place) : files'.walk start names = .ok place := by
  induction names generalizing start with
  | nil => exact h
  | cons name names ih =>
    rw [walk] at h ⊢
    split at h
    · cases h
    · cases h
    · rename_i stamp hentry
      obtain ⟨stamp', hentry'⟩ := hkeep start ⟨stamp, hentry⟩
      rw [hentry']
      exact ih h

/-- A path still leads to its place when a file has been put there, and the file holds what was
put there. -/
theorem content?_putFile (hplace : files.place p = .ok place)
    (hdirectory : ¬ files.IsDirectory place) (content : Bytes) :
    (files.putFile place content).content? p = some content := by
  have hkeep : ∀ q, files.IsDirectory q → (files.putFile place content).IsDirectory q := by
    intro q hq
    refine hq.putFile ?_ content
    rintro rfl
    exact hdirectory hq
  have hplace' : (files.putFile place content).place p = .ok place :=
    walk_of_isDirectory hkeep hplace
  obtain ⟨stamp, hentry⟩ := entry?_putFile files place content
  rw [content?, find, hplace']
  dsimp only [bind, Except.bind]
  rw [hentry]
  rfl

theorem writePlace_eq_ok (h : files.writePlace p = .ok place) :
    files.trouble .openWrite p = none ∧ files.place p = .ok place ∧ ¬ files.IsDirectory place := by
  unfold writePlace at h
  split at h
  · cases h
  · cases h
  · rename_i hopened hplace
    split at h
    · cases h
    · rename_i hentry
      obtain rfl := Except.ok.inj h
      refine ⟨hopened, hplace, ?_⟩
      rintro ⟨stamp, hstamp⟩
      exact hentry stamp hstamp

theorem Writable.writePlace (h : files.Writable p) : ∃ place, files.writePlace p = .ok place := by
  obtain ⟨⟨place, hplace, hdirectory⟩, hopened, -⟩ := h
  refine ⟨place, ?_⟩
  rw [Files.writePlace, hopened, hplace]
  dsimp only
  split
  · rename_i stamp hentry
    exact absurd ⟨stamp, hentry⟩ hdirectory
  · rfl

/-- What was written stands in the file at the same path. -/
theorem Writable.write (h : files.Writable p) (content : Bytes) :
    (files.write p content).2 = none ∧ (files.write p content).1.content? p = some content := by
  obtain ⟨place, hplace⟩ := h.writePlace
  obtain ⟨-, hwalk, hdirectory⟩ := writePlace_eq_ok hplace
  rw [Files.write, hplace, h.written]
  exact ⟨rfl, content?_putFile hwalk hdirectory content⟩

theorem write_of_not_writable (h : ¬ files.Writable p) (content : Bytes) :
    (∃ e, (files.write p content).2 = some e) ∧
      ((files.write p content).1 = files ∨
        ∃ n, (files.write p content).1.content? p = some (content.take n)) := by
  cases hplace : files.writePlace p with
  | error e =>
    rw [write, hplace]
    exact ⟨⟨e, rfl⟩, .inl rfl⟩
  | ok place =>
    obtain ⟨hopened, hwalk, hdirectory⟩ := writePlace_eq_ok hplace
    cases hwritten : files.trouble .write p with
    | none => exact absurd ⟨⟨place, hwalk, hdirectory⟩, hopened, hwritten⟩ h
    | some cause =>
      rw [write, hplace, hwritten]
      exact ⟨⟨_, rfl⟩, .inr ⟨_, content?_putFile hwalk hdirectory _⟩⟩

end Highlighter.Files
