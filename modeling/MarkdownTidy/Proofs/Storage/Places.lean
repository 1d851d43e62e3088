import MarkdownTidy.InPlace

namespace MarkdownTidy

namespace Path
variable {path : Path}

theorem fault?_eq_none (fine : fault? path = none) : path.bytes ≠ [] := by
  intro none
  unfold fault? at fine
  split at fine
  · contradiction
  · split at fine
    · contradiction
    · rename_i some
      exact some (by simp_all)

theorem exists_last_slash {bytes : List UInt8} (member : slash ∈ bytes) :
    ∃ front back, bytes = front ++ slash :: back ∧ slash ∉ back := by
  obtain ⟨back, front, parts, absent⟩ := List.eq_append_cons_of_mem (List.mem_reverse.mpr member)
  refine ⟨front.reverse, back.reverse, ?_, by simpa using absent⟩
  rw [← List.reverse_reverse bytes, parts]
  simp

theorem names_of_single {bytes : List UInt8} (some : bytes ≠ []) (noSlash : slash ∉ bytes) :
    ((bytes.splitOn slash).filter fun name => !name.isEmpty).map RawText.mk = [⟨bytes⟩] := by
  rw [List.splitOn_eq_singleton noSlash, List.filter_cons_of_pos (by simpa using some)]
  rfl

/-- A path that does not end in a slash ends in a name. What is put behind the path makes this name
longer and leaves the others as they are. -/
theorem names_append (some : path.bytes ≠ []) (noFolder : endsInSlash path = false) :
    ∃ folders last, ∀ suffix : List UInt8, slash ∉ suffix →
      names ⟨path.bytes ++ suffix⟩ = folders ++ [⟨last ++ suffix⟩] := by
  by_cases member : slash ∈ path.bytes
  · obtain ⟨front, back, parts, absent⟩ := exists_last_slash member
    have named : back ≠ [] := by
      rintro rfl
      simp [endsInSlash, parts] at noFolder
    refine ⟨((front.splitOn slash).filter fun name => !name.isEmpty).map RawText.mk, back,
      fun suffix noSlash => ?_⟩
    have grown : back ++ suffix ≠ [] := List.append_ne_nil_of_left_ne_nil named suffix
    rw [names, parts, List.append_assoc, List.cons_append, List.splitOn_append_cons_self,
      List.filter_append, List.map_append, names_of_single grown (by simp [absent, noSlash])]
  · refine ⟨[], path.bytes, fun suffix noSlash => ?_⟩
    rw [names, names_of_single (by simp [some]) (by simp [member, noSlash])]
    rfl

end Path

namespace FileTree
variable {t : FileTree} {place next target : Location} {name path : Path} {names : List Path}
  {bytes : ByteArray} {after : FileTree}

theorem step_eq_ok (found : t.step place name = .ok next) :
    t.find? place = some .folder ∧
      (name = .dot ∧ next = place ∨ name = .dots ∧ next = place.parent ∨ next = place ++ [name]) := by
  unfold step at found
  split at found
  · contradiction
  · contradiction
  · rename_i folder
    refine ⟨folder, ?_⟩
    split at found
    · rename_i dot
      exact Or.inl ⟨dot, (Except.ok.inj found).symm⟩
    · split at found
      · rename_i dots
        exact Or.inr (Or.inl ⟨dots, (Except.ok.inj found).symm⟩)
      · split at found
        · contradiction
        · exact Or.inr (Or.inr (Except.ok.inj found).symm)

theorem parent_eq_concat (up : place.parent = place ++ [name]) : name = .dots := by
  unfold Location.parent at up
  split at up
  · simpa using up.symm
  · have lengths := congrArg List.length up
    rw [List.length_dropLast, List.length_append, List.length_singleton] at lengths
    omega

/-- Only one name leads from a place to a given place, dots apart. -/
theorem step_unique {other : Path} (here : t.step place name = .ok next)
    (there : t.step place other = .ok next) (noDot : other ≠ .dot) (noDots : other ≠ .dots) :
    name = other := by
  rcases (step_eq_ok there).2 with ⟨dot, -⟩ | ⟨dots, -⟩ | rfl
  · exact absurd dot noDot
  · exact absurd dots noDots
  · rcases (step_eq_ok here).2 with ⟨-, same⟩ | ⟨-, up⟩ | below
    · simp at same
    · exact absurd (parent_eq_concat up.symm) noDots
    · simpa using below.symm

theorem walk_concat (walked : t.walk (names ++ [name]) = .ok place) :
    ∃ held, t.walk names = .ok held ∧ t.step held name = .ok place := by
  unfold walk at walked ⊢
  rw [List.foldlM_append] at walked
  cases inner : names.foldlM t.step [] with
  | error fault =>
    rw [inner] at walked
    contradiction
  | ok held =>
    rw [inner] at walked
    cases last : t.step held name <;> simp_all [bind, Except.bind, pure, Except.pure]

theorem locate_eq_ok (found : t.locate path = .ok place) :
    Path.fault? path = none ∧ t.walk (Path.names path) = .ok place := by
  unfold locate at found
  split at found
  · contradiction
  · exact ⟨‹_›, found⟩

theorem readFile_eq_ok : t.readFile path = .ok bytes ↔
    ∃ place, t.locate path = .ok place ∧ t.find? place = some (.file bytes) ∧
      Path.endsInSlash path = false := by
  unfold readFile
  cases t.locate path with
  | error fault => exact ⟨nofun, nofun⟩
  | ok place =>
    cases entry : t.find? place with
    | none => simp [entry, bind, Except.bind]
    | some e => cases e <;> cases Path.endsInSlash path <;> simp [entry, bind, Except.bind]

theorem locateForWriting_of_slash (slash : Path.endsInSlash path = true) :
    t.locateForWriting path ≠ .ok place := by
  intro written
  unfold locateForWriting at written
  cases fine : Path.fault? path with
  | none =>
    rw [slash, fine] at written
    simp only [Option.isNone_none, Bool.and_self, if_pos] at written
    cases folder : t.walk (Path.names path).dropLast with
    | error fault => simp [folder, bind, Except.bind] at written
    | ok held => cases here : t.step held .dot <;> simp [folder, here, bind, Except.bind] at written
  | some fault => simp [slash, fine, locate, bind, Except.bind] at written

theorem locateForWriting_eq_ok : t.locateForWriting path = .ok place ↔
    t.locate path = .ok place ∧ t.find? place ≠ some .folder ∧ Path.endsInSlash path = false := by
  cases slash : Path.endsInSlash path with
  | true => exact ⟨fun written => (locateForWriting_of_slash slash written).elim, nofun⟩
  | false =>
    unfold locateForWriting
    rw [slash]
    cases t.locate path with
    | error fault => exact ⟨nofun, nofun⟩
    | ok found =>
      simp only [bind, Except.bind, Bool.false_and, Bool.false_eq_true, if_false]
      split
      · rename_i folder
        refine ⟨nofun, fun located => ?_⟩
        cases located.1
        exact (located.2.1 folder).elim
      · rename_i noFolder
        refine ⟨fun written => ?_, fun located => located.1⟩
        cases written
        exact ⟨rfl, noFolder, trivial⟩

theorem writeFile_eq_ok : t.writeFile path bytes = .ok after ↔
    ∃ place, t.locate path = .ok place ∧ t.find? place ≠ some .folder ∧
      Path.endsInSlash path = false ∧ after = t.put place (.file bytes) := by
  unfold writeFile
  constructor
  · intro writes
    cases located : t.locateForWriting path with
    | error fault => simp [located, bind, Except.bind] at writes
    | ok place =>
      obtain ⟨found, apart, noSlash⟩ := locateForWriting_eq_ok.mp located
      rw [located] at writes
      exact ⟨place, found, apart, noSlash, (Except.ok.inj writes).symm⟩
  · rintro ⟨place, found, apart, noSlash, rfl⟩
    rw [locateForWriting_eq_ok.mpr ⟨found, apart, noSlash⟩]
    rfl

/-! An entry that is put where there was no folder leaves all ways through the tree open. -/

theorem folder_put (apart : t.find? target ≠ some .folder) (folder : t.find? place = some .folder)
    (e : Entry) : (t.put target e).find? place = some .folder := by
  rw [find?_put_of_ne, folder]
  rintro rfl
  exact apart folder

theorem step_put (apart : t.find? target ≠ some .folder) (found : t.step place name = .ok next)
    (e : Entry) : (t.put target e).step place name = .ok next := by
  have folder := (step_eq_ok found).1
  rw [← found, step, step, folder, folder_put apart folder]

theorem walk_put (apart : t.find? target ≠ some .folder)
    (found : names.foldlM t.step place = .ok next) (e : Entry) :
    names.foldlM (t.put target e).step place = .ok next := by
  induction names generalizing place with
  | nil => exact found
  | cons name rest ih =>
    rw [List.foldlM_cons] at found ⊢
    cases here : t.step place name with
    | error fault =>
      rw [here] at found
      contradiction
    | ok middle =>
      rw [here] at found
      rw [step_put apart here]
      exact ih found

theorem locate_put (apart : t.find? target ≠ some .folder) (found : t.locate path = .ok place)
    (e : Entry) : (t.put target e).locate path = .ok place := by
  obtain ⟨fine, walked⟩ := locate_eq_ok found
  unfold locate
  rw [fine]
  exact walk_put apart walked e

section Writing
variable {other : Path} {new : ByteArray}

theorem locate_write (writes : t.writeFile other new = .ok after)
    (found : t.locate path = .ok place) : after.locate path = .ok place := by
  obtain ⟨target, -, apart, -, rfl⟩ := writeFile_eq_ok.mp writes
  exact locate_put apart found _

theorem locate_write_eq (reads : t.readFile path = .ok bytes)
    (writes : t.writeFile other new = .ok after) : after.locate path = t.locate path := by
  obtain ⟨place, found, -, -⟩ := readFile_eq_ok.mp reads
  rw [locate_write writes found, found]

theorem find?_write (writes : t.writeFile other new = .ok after)
    (ne : t.locate other ≠ .ok place) : after.find? place = t.find? place := by
  obtain ⟨target, found, -, -, rfl⟩ := writeFile_eq_ok.mp writes
  refine find?_put_of_ne ?_
  rintro rfl
  exact ne found

theorem readFile_write_self (writes : t.writeFile path new = .ok after) :
    after.readFile path = .ok new := by
  obtain ⟨place, found, apart, noSlash, rfl⟩ := writeFile_eq_ok.mp writes
  have below : place.holdsRoot = false := eq_false_of_ne_true fun root => apart (if_pos root)
  exact readFile_eq_ok.mpr ⟨place, locate_put apart found _, find?_put_self below, noSlash⟩

theorem readFile_write_other (reads : t.readFile path = .ok bytes)
    (writes : t.writeFile other new = .ok after) (apart : t.locate path ≠ t.locate other) :
    after.readFile path = .ok bytes := by
  obtain ⟨place, found, file, noSlash⟩ := readFile_eq_ok.mp reads
  have kept : after.find? place = t.find? place := find?_write writes (found ▸ apart.symm)
  exact readFile_eq_ok.mpr ⟨place, locate_write writes found, kept.trans file, noSlash⟩

theorem exists_write_of_readFile (reads : t.readFile path = .ok bytes) (new : ByteArray) :
    ∃ after, t.writeFile path new = .ok after := by
  obtain ⟨place, found, file, noSlash⟩ := readFile_eq_ok.mp reads
  exact ⟨_, writeFile_eq_ok.mpr ⟨place, found, by simp [file], noSlash, rfl⟩⟩

/-- The backup of a file that can be read lies elsewhere than the file. -/
theorem locate_ne_backup (reads : t.readFile path = .ok bytes) :
    t.locate path ≠ t.locate (backupPath path) := by
  intro together
  obtain ⟨place, found, -, noFolder⟩ := readFile_eq_ok.mp reads
  obtain ⟨fine, walked⟩ := locate_eq_ok found
  obtain ⟨-, copied⟩ := locate_eq_ok (together.symm.trans found)
  -- Both paths lead through the same folders, and no name after them leads to both places.
  obtain ⟨folders, last, split⟩ := Path.names_append (Path.fault?_eq_none fine) noFolder
  have original := split [] List.not_mem_nil
  rw [List.append_nil, List.append_nil] at original
  rw [original] at walked
  rw [backupPath, RawText.extend, split _ (by decide)] at copied
  obtain ⟨held, inner, walked⟩ := walk_concat walked
  obtain ⟨held', inner', copied⟩ := walk_concat copied
  cases inner.symm.trans inner'
  have longer (name : Path)
      (short : name.bytes.length < last.length + (RawText.ofText backupSuffix).bytes.length) :
      ⟨last ++ (RawText.ofText backupSuffix).bytes⟩ ≠ name := by
    rintro rfl
    rw [List.length_append] at short
    exact Nat.lt_irrefl _ short
  have same := step_unique walked copied (longer .dot (Nat.lt_add_left _ (by decide)))
    (longer .dots (Nat.lt_add_left _ (by decide)))
  exact longer ⟨last⟩ (Nat.lt_add_of_pos_right (by decide)) same.symm

end Writing
end FileTree
end MarkdownTidy
