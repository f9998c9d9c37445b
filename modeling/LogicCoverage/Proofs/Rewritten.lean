import LogicCoverage.Command.Run
import LogicCoverage.Proofs.Formats
import LogicCoverage.Proofs.Passes

/-!
# Rewritten files

To rewrite a file that was read changes what this file holds, by whatever path it is named, and
nothing else: paths lead where they led before. In particular the settings that were found together
with a snapshot are found again when the snapshot is rewritten, since no file is both.
-/

namespace LogicCoverage

namespace Files

variable {fs fs' : Files} {place other : Location} {path text old : String}
  {contents : List (Location × ByteArray)}

/-! ## Contents -/

/-- A file that was there is replaced, in its place. -/
theorem map_fst_writeAt (h : (contents.lookup place).isSome = true) :
    (writeAt place text contents).map Prod.fst = contents.map Prod.fst := by
  induction contents with
  | nil => cases h
  | cons file contents ih =>
    obtain ⟨name, bytes⟩ := file
    rw [writeAt]
    split
    · rfl
    · rename_i hne
      rw [List.lookup_cons, beq_eq_false_iff_ne.mpr (Ne.symm hne)] at h
      exact congrArg (name :: ·) (ih h)

/-- What was written is found where it was written, and all else as before. -/
theorem lookup_writeAt : (writeAt place text contents).lookup other =
    if other = place then some text.toUTF8 else contents.lookup other := by
  induction contents with
  | nil =>
    rw [writeAt, List.lookup_cons]
    split <;> rename_i h
    · rw [if_pos (beq_iff_eq.mp h)]
    · rw [if_neg (beq_eq_false_iff_ne.mp h)]
  | cons file contents ih =>
    obtain ⟨name, bytes⟩ := file
    rw [writeAt]
    by_cases hname : name = place
    · subst hname
      rw [if_pos rfl, List.lookup_cons, List.lookup_cons]
      by_cases h : other = name
      · rw [beq_iff_eq.mpr h, if_pos h]
      · rw [beq_eq_false_iff_ne.mpr h, if_neg h]
    · rw [if_neg hname, List.lookup_cons, List.lookup_cons, ih]
      by_cases h : other = name
      · have hne : other ≠ place := h ▸ hname
        rw [beq_iff_eq.mpr h, if_neg hne, if_neg hne]
      · rw [beq_eq_false_iff_ne.mpr h]

/-- A text that is written twice is written once. -/
theorem writeAt_writeAt (place : Location) (text : String)
    (contents : List (Location × ByteArray)) :
    writeAt place text (writeAt place text contents) = writeAt place text contents := by
  induction contents with
  | nil => exact if_pos rfl
  | cons file contents ih =>
    obtain ⟨name, bytes⟩ := file
    rw [writeAt]
    split <;> rename_i h
    · exact if_pos h
    · rw [writeAt, if_neg h, ih]

/-! ## Where paths lead -/

/-- There are the same files and directories. -/
structure SamePlaces (fs fs' : Files) : Prop where
  workingDirectory : fs'.workingDirectory = fs.workingDirectory
  directories : fs'.directories = fs.directories
  files : fs'.contents.map Prod.fst = fs.contents.map Prod.fst

namespace SamePlaces

variable (h : fs.SamePlaces fs')

include h

/-- There are files where there were. -/
theorem isSome_content? (place : Location) :
    (fs'.content? place).isSome = (fs.content? place).isSome := by
  have hmem (contents : List (Location × ByteArray)) :
      (contents.lookup place).isSome = true ↔ place ∈ contents.map Prod.fst := by
    rw [List.lookup_isSome_iff, List.mem_map]
    exact exists_congr fun file => and_congr_right fun _ => beq_iff_eq.trans eq_comm
  rw [Bool.eq_iff_iff, content?, content?, hmem, hmem, h.files]

/-- There are directories where there were. -/
theorem isDirectoryAt (place : Location) : fs'.isDirectoryAt place = fs.isDirectoryAt place := by
  have hplaces (fs : Files) : fs.isDirectoryAt place = (place.isPrefixOf fs.workingDirectory ||
      fs.directories.any place.isPrefixOf ||
        (fs.contents.map Prod.fst).any fun file => place.isPrefixOf file && place ≠ file) := by
    rw [List.any_map]
    rfl
  rw [hplaces, hplaces, h.workingDirectory, h.directories, h.files]

/-- All names lead where they led. -/
theorem follow (place : Location) (names : List String) :
    fs'.follow place names = fs.follow place names := by
  induction names generalizing place with
  | nil => rfl
  | cons name names ih =>
    rw [Files.follow, Files.follow, h.isDirectoryAt, h.isSome_content?, ih, ih, ih]

/-- All paths lead where they led. -/
theorem locate (path : String) : fs'.locate path = fs.locate path := by
  rw [Files.locate, Files.locate, h.workingDirectory, h.follow]

theorem isDirectory (path : String) : fs'.isDirectory path = fs.isDirectory path := by
  rw [Files.isDirectory, Files.isDirectory, h.locate]
  cases fs.locate path with
  | ok place => exact h.isDirectoryAt place
  | error _ => rfl

theorem isFile (path : String) : fs'.isFile path = fs.isFile path := by
  rw [Files.isFile, Files.isFile, h.locate]
  cases fs.locate path with
  | ok place => exact h.isSome_content? place
  | error _ => rfl

end SamePlaces

/-! ## A file rewritten -/

/-- What it takes for a text to be read. -/
theorem exists_content?_of_read (h : fs.read path = .ok old) :
    ∃ place bytes, fs.locate path = .ok place ∧ fs.content? place = some bytes ∧
      String.fromUTF8? bytes = some old := by
  obtain ⟨place, hplace, h⟩ := bind_eq_ok_iff.mp h
  split at h
  · rename_i bytes hbytes
    split at h
    · rename_i text htext
      cases h
      exact ⟨place, bytes, hplace, hbytes, htext⟩
    · cases h
  · cases h

/-- A file in which one text was replaced by another. -/
structure Rewritten (fs : Files) (path old text : String) (fs' : Files) : Prop where
  read_old : fs.read path = .ok old
  write : fs.write path text = .ok fs'

namespace Rewritten

variable (h : fs.Rewritten path old text fs')

include h

/-- The file that was rewritten is at a place that is no directory. -/
theorem exists_place : ∃ place, fs.locate path = .ok place ∧ fs.isDirectoryAt place = false ∧
    fs' = { fs with contents := writeAt place text fs.contents } := by
  obtain ⟨place, hplace, hwrite⟩ := bind_eq_ok_iff.mp h.write
  split at hwrite
  · cases hwrite
  · rename_i hdirectory
    cases hwrite
    exact ⟨place, hplace, Bool.eq_false_iff.mpr hdirectory, rfl⟩

/-- A file that is rewritten leaves all files and directories where they are. -/
theorem samePlaces : fs.SamePlaces fs' := by
  obtain ⟨place, hplace, -, rfl⟩ := h.exists_place
  obtain ⟨place', bytes, hplace', hbytes, -⟩ := exists_content?_of_read h.read_old
  cases hplace.symm.trans hplace'
  refine ⟨rfl, rfl, map_fst_writeAt ?_⟩
  rw [← content?, hbytes]
  rfl

/-- The new text is read. -/
theorem read_self : fs'.read path = .ok text := by
  have hsame := h.samePlaces
  obtain ⟨place, hplace, -, rfl⟩ := h.exists_place
  refine read_eq _ ((hsame.locate path).trans hplace) ?_
  rw [content?, lookup_writeAt, if_pos rfl]

/-- By another path, the same is read as before, unless the old text was read there too. -/
theorem read_cases (path' : String) : fs'.read path' = fs.read path' ∨ fs.read path' = .ok old := by
  have hsame := h.samePlaces
  obtain ⟨place, hplace, -, rfl⟩ := h.exists_place
  obtain ⟨place', bytes, hplace', hbytes, htext⟩ := exists_content?_of_read h.read_old
  cases hplace.symm.trans hplace'
  cases hlocate : fs.locate path' with
  | error fault =>
    refine .inl ?_
    rw [read, read, hsame.locate, hlocate]
    rfl
  | ok there =>
    by_cases hthere : there = place
    · subst hthere
      refine .inr ?_
      simp only [read, hlocate, bind, Except.bind, hbytes, htext]
    · refine .inl ?_
      have hcontent : Files.content? { fs with contents := writeAt place text fs.contents } there =
          fs.content? there := by
        rw [content?, lookup_writeAt, if_neg hthere, content?]
      simp only [read, hsame.locate, hlocate, bind, Except.bind, hcontent, hsame.isDirectoryAt]

/-- To write the text once more changes nothing. -/
theorem write_again : fs'.write path text = .ok fs' := by
  have hsame := h.samePlaces
  obtain ⟨place, hplace, hdirectory, rfl⟩ := h.exists_place
  rw [Files.write, hsame.locate, hplace]
  show (if _ then _ else _) = _
  rw [hsame.isDirectoryAt, hdirectory, if_neg Bool.false_ne_true, writeAt_writeAt]

end Rewritten

end Files

/-! ## Snapshots and settings -/

namespace Command

variable {files files' : Files} {snapshot text text' : String} {settings : Settings}

/-- A snapshot that is replaced by the text of a consistent database can be loaded. -/
theorem load_of_rewritten {db : Database}
    (h : files.Rewritten snapshot text (Snapshot.write db) files') (hcheck : db.check = .ok ()) :
    load files' snapshot = .ok db := by
  rw [load, h.read_self]
  exact Database.mapError_eq_ok_iff.mpr
    (Snapshot.read_eq_ok_iff.mpr ⟨Snapshot.parse?_write db, hcheck⟩)

/-- Settings stay when a snapshot is rewritten. -/
theorem settings_of_rewritten (h : files.Rewritten snapshot text text' files') {db : Database}
    (hread : Snapshot.read text = .ok db) {config : Option String}
    (hsettings : Command.settings files config = .ok settings) :
    Command.settings files' config = .ok settings := by
  have hsame := h.samePlaces
  have hfrom {path : String} (hfrom : settingsFrom files path = .ok settings) :
      settingsFrom files' path = .ok settings := by
    rw [settingsFrom] at hfrom ⊢
    rw [hsame.isDirectory]
    generalize (if files.isDirectory path then Files.join path Settings.fileName else path) = path'
      at hfrom ⊢
    rcases h.read_cases path' with hkept | hold
    · rwa [hkept]
    · rw [hold] at hfrom
      have hmalformed := Database.mapError_eq_ok_iff.mp hfrom
      rw [Settings.read_of_snapshot hread] at hmalformed
      cases hmalformed
  cases config with
  | some path => exact hfrom hsettings
  | none =>
    rw [Command.settings.eq_def] at hsettings ⊢
    dsimp only at hsettings ⊢
    rw [hsame.isFile]
    split <;> rename_i hfile
    · rw [if_pos hfile] at hsettings
      exact hfrom hsettings
    · rwa [if_neg hfile] at hsettings

end Command

end LogicCoverage
