import MarkupTidy.Proofs.OrderedMap
import MarkupTidy.Run.File

/-! # Writing into a tree

What writing files can fail in, and what stands in a tree afterwards.

* `FileTree.writeAll_ne_notText`, `FileTree.deliver_ne_notText`: writing does not read any text.
* `FileTree.SameFolders`: the folders of a tree stay; `FileTree.sameFolders_put`: so they do when a file
  is put into one of them.
* `FileTree.Takes`: a file can be written where a path leads; `FileTree.writeAll_eq_none_of_takes`: if
  each path does so, all files are written.
* `FileTree.Holds`: a path leads to a file with a text.
* `FileTree.holds_of_writeAll`: what is written stands there, unless the same place is written to once
  more. -/

namespace MarkupTidy

open MarkupTidy.Text

theorem isPrefix_dropLast {α : Type} {xs ys : List α} (h : xs <+: ys) (hne : xs ≠ ys) :
    xs <+: ys.dropLast := by
  obtain ⟨zs, rfl⟩ := h
  have hzs : zs ≠ [] := by
    rintro rfl
    exact hne (List.append_nil xs).symm
  rw [List.dropLast_append_of_ne_nil hzs]
  exact List.prefix_append ..

namespace FileTree

variable {t : FileTree}

/-! ### Errors -/

theorem startOf_ne_notText (t : FileTree) (p : Path) : t.startOf p ≠ .error .notText := by
  unfold startOf
  split
  · simp
  · split <;> simp

theorem locateFrom_ne_notText (t : FileTree) (place parts : List String) :
    t.locateFrom place parts ≠ .error .notText := by
  induction parts generalizing place with
  | nil => simp [locateFrom]
  | cons part rest ih =>
    rw [locateFrom]
    split
    · split
      · simp
      · exact ih _
    · split <;> simp

theorem locate_ne_notText (t : FileTree) (p : Path) : t.locate p ≠ .error .notText := by
  unfold locate
  split
  · rename_i e h
    exact fun heq => startOf_ne_notText t p (heq ▸ h)
  · exact locateFrom_ne_notText t _ _

theorem makeFoldersFrom_ne_notText (t : FileTree) (place parts : List String) :
    t.makeFoldersFrom place parts ≠ .error .notText := by
  induction parts generalizing t place with
  | nil => simp [makeFoldersFrom]
  | cons part rest ih =>
    rw [makeFoldersFrom]
    split
    · exact ih t _
    · split
      · simp
      · dsimp only
        split
        · exact ih t _
        · simp
        · exact ih _ _

theorem makeFolder_ne_notText (t : FileTree) (p : Path) : t.makeFolder p ≠ .error .notText := by
  unfold makeFolder
  cases hstart : t.startOf p with
  | error e =>
    intro heq
    obtain rfl := Except.error.inj heq
    exact startOf_ne_notText t p hstart
  | ok place =>
    dsimp only [bind, Except.bind]
    split
    · exact makeFoldersFrom_ne_notText t _ _
    · exact makeFoldersFrom_ne_notText t _ _
    · rename_i e _ h
      intro heq
      obtain rfl := Except.error.inj heq
      exact locateFrom_ne_notText t place p.parts h

theorem writeText_ne_notText (t : FileTree) (p : Path) (value : String) :
    (t.writeText p value).2 ≠ some .notText := by
  unfold writeText
  cases h : t.locate p with
  | error e =>
    intro heq
    obtain rfl := Option.some.inj heq
    exact locate_ne_notText t p h
  | ok place =>
    dsimp only
    split
    · simp
    · split <;> simp

theorem writeAll_ne_notText (t : FileTree) (files : List (Path × String)) :
    (t.writeAll files).2 ≠ some .notText := by
  induction files generalizing t with
  | nil => simp [writeAll]
  | cons file rest ih =>
    have hwrite := writeText_ne_notText t file.1 file.2
    rw [writeAll]
    split
    · exact ih _
    · rename_i t' e h
      rwa [h] at hwrite

/-- No file is found to be no text while files are written. -/
theorem deliver_ne_notText (t : FileTree) (folder : Path) (files : List (Path × String)) :
    (t.deliver folder files).2 ≠ some .notText := by
  unfold deliver
  cases h : t.makeFolder folder with
  | error e =>
    intro heq
    obtain rfl := Option.some.inj heq
    exact makeFolder_ne_notText t folder h
  | ok t' => exact writeAll_ne_notText t' files

/-! ### Folders -/

theorem isFolderAt_iff {place : List String} : t.isFolderAt place = true ↔
    place <+: t.directory ∨ (∃ folder ∈ t.folders, place <+: folder) ∨
      ∃ file ∈ t.files.keys, place <+: file ∧ place ≠ file := by
  simp [isFolderAt, OrderedMap.keys, or_assoc]

/-- What a folder lies in is a folder. -/
theorem isFolderAt_of_isPrefix {place above : List String} (habove : above <+: place)
    (h : t.isFolderAt place = true) : t.isFolderAt above = true := by
  rw [isFolderAt_iff] at h ⊢
  obtain h | ⟨folder, hfolder, h⟩ | ⟨file, hfile, h, hne⟩ := h
  · exact .inl (habove.trans h)
  · exact .inr (.inl ⟨folder, hfolder, habove.trans h⟩)
  · refine .inr (.inr ⟨file, hfile, habove.trans h, ?_⟩)
    rintro rfl
    exact hne (h.eq_of_length (Nat.le_antisymm h.length_le habove.length_le))

/-- Two trees with the same folders, seen from one working directory. -/
structure SameFolders (t t' : FileTree) : Prop where
  directory_eq : t'.directory = t.directory
  isFolderAt_eq : ∀ place, t'.isFolderAt place = t.isFolderAt place

theorem SameFolders.refl (t : FileTree) : t.SameFolders t :=
  ⟨rfl, fun _ => rfl⟩

theorem SameFolders.trans {t' t'' : FileTree} (h : t.SameFolders t') (h' : t'.SameFolders t'') :
    t.SameFolders t'' :=
  ⟨h'.directory_eq.trans h.directory_eq, fun place =>
    (h'.isFolderAt_eq place).trans (h.isFolderAt_eq place)⟩

/-- A tree in which a place is a text file. -/
def put (t : FileTree) (place : List String) (value : String) : FileTree :=
  { t with files := t.files.insert place (.text value) }

theorem mem_keys_put {place file : List String} {value : String} :
    file ∈ (t.put place value).files.keys ↔ file ∈ t.files.keys ∨ file = place := by
  rw [put, OrderedMap.keys_insert]
  split
  · rename_i hplace
    exact ⟨.inl, fun h => h.elim id fun heq => heq ▸ hplace⟩
  · simp

/-- A new file in a folder makes no place a folder. -/
theorem sameFolders_put {place : List String} (h : t.isFolderAt place.dropLast = true)
    (value : String) : t.SameFolders (t.put place value) where
  directory_eq := rfl
  isFolderAt_eq other := by
    refine Bool.eq_iff_iff.2 ⟨fun hother => ?_, fun hother => ?_⟩
    · obtain hother | hother | ⟨file, hfile, hprefix, hne⟩ := isFolderAt_iff.1 hother
      · exact isFolderAt_iff.2 (.inl hother)
      · exact isFolderAt_iff.2 (.inr (.inl hother))
      · obtain hfile | rfl := mem_keys_put.1 hfile
        · exact isFolderAt_iff.2 (.inr (.inr ⟨file, hfile, hprefix, hne⟩))
        · exact isFolderAt_of_isPrefix (isPrefix_dropLast hprefix hne) h
    · obtain hother | hother | ⟨file, hfile, hprefix, hne⟩ := isFolderAt_iff.1 hother
      · exact isFolderAt_iff.2 (.inl hother)
      · exact isFolderAt_iff.2 (.inr (.inl hother))
      · exact isFolderAt_iff.2 (.inr (.inr ⟨file, mem_keys_put.2 (.inl hfile), hprefix, hne⟩))

/-! ### Places -/

/-- The place from which a path goes on. -/
def origin (t : FileTree) (p : Path) : List String :=
  if p.isAbsolute then [] else t.directory

theorem isFolderAt_origin (t : FileTree) (p : Path) : t.isFolderAt (t.origin p) = true := by
  rw [isFolderAt_iff, origin]
  split
  · exact .inl (List.nil_prefix)
  · exact .inl (List.prefix_refl _)

theorem locateFrom_of_locate {p : Path} {place : List String} (h : t.locate p = .ok place) :
    t.locateFrom (t.origin p) p.parts = .ok place := by
  unfold locate at h
  split at h
  · exact absurd h (by simp)
  · rename_i start hstart
    unfold startOf at hstart
    split at hstart
    · exact absurd hstart (by simp)
    · split at hstart
      · exact absurd hstart (by simp)
      · rwa [← Except.ok.inj hstart] at h

theorem locateFrom_append_ok_iff {start place : List String} {parts rest : List String} :
    t.locateFrom start (parts ++ rest) = .ok place ↔
      ∃ between, t.locateFrom start parts = .ok between ∧ t.locateFrom between rest = .ok place := by
  induction parts generalizing start with
  | nil => simp [locateFrom]
  | cons part parts ih =>
    rw [List.cons_append, locateFrom, locateFrom]
    split
    · split
      · simp
      · exact ih
    · split <;> simp

theorem locateFrom_singleton_ok_iff {start place : List String} {part : String} :
    t.locateFrom start [part] = .ok place ↔ t.isFolderAt start = true ∧
      Path.isLongPart part = false ∧ place = if part = ".." then start.dropLast else start ++ [part] := by
  rw [locateFrom]
  by_cases hfolder : t.isFolderAt start = true
  · by_cases hlong : Path.isLongPart part = true
    · simp [hfolder, hlong]
    · simp [hfolder, hlong, locateFrom, eq_comm]
  · rw [if_neg hfolder]
    split <;> simp [hfolder]

/-- The place of a path with one more part. -/
theorem exists_above_of_locate {p : Path} {place : List String} {part : String}
    (h : t.locate (p.child part) = .ok place) :
    ∃ above, t.locateFrom (t.origin p) p.parts = .ok above ∧ t.isFolderAt above = true ∧
      place = if part = ".." then above.dropLast else above ++ [part] := by
  obtain ⟨above, habove, hplace⟩ := locateFrom_append_ok_iff.1 (locateFrom_of_locate h)
  obtain ⟨hfolder, -, hplace⟩ := locateFrom_singleton_ok_iff.1 hplace
  exact ⟨above, habove, hfolder, hplace⟩

/-- What a path leads to lies in a folder, or it is one. -/
theorem isFolderAt_dropLast_of_locate {p : Path} {place : List String} (h : t.locate p = .ok place)
    (hplace : t.isFolderAt place = false) : t.isFolderAt place.dropLast = true := by
  have hfrom := locateFrom_of_locate h
  obtain hnil | ⟨parts, part, hparts⟩ := List.eq_nil_or_concat p.parts
  · rw [hnil, locateFrom] at hfrom
    rw [← Except.ok.inj hfrom, isFolderAt_origin] at hplace
    exact absurd hplace (by simp)
  · rw [hparts, List.concat_eq_append, locateFrom_append_ok_iff] at hfrom
    obtain ⟨above, -, hlast⟩ := hfrom
    obtain ⟨hfolder, -, rfl⟩ := locateFrom_singleton_ok_iff.1 hlast
    split at hplace
    · exact absurd (isFolderAt_of_isPrefix (List.dropLast_prefix _) hfolder) (by simp [hplace])
    · rename_i hpart
      rw [if_neg hpart, List.dropLast_concat]
      exact hfolder

theorem SameFolders.locateFrom_eq {t' : FileTree} (h : t.SameFolders t') {start parts : List String}
    {place : List String} (hplace : t.locateFrom start parts = .ok place) :
    t'.locateFrom start parts = .ok place := by
  induction parts generalizing start with
  | nil => exact hplace
  | cons part rest ih =>
    rw [locateFrom] at hplace ⊢
    rw [h.isFolderAt_eq]
    split
    · rename_i hfolder
      rw [if_pos hfolder] at hplace
      split
      · rename_i hlong
        rwa [if_pos hlong] at hplace
      · rename_i hlong
        rw [if_neg hlong] at hplace
        exact ih hplace
    · rename_i hfolder
      rw [if_neg hfolder] at hplace
      split at hplace <;> exact absurd hplace (by simp)

/-- A path leads to the same place where the folders are the same. -/
theorem SameFolders.locate_eq {t' : FileTree} (h : t.SameFolders t') {p : Path} {place : List String}
    (hplace : t.locate p = .ok place) : t'.locate p = .ok place := by
  unfold locate startOf at hplace ⊢
  rw [h.directory_eq]
  split
  · rename_i e he
    rw [he] at hplace
    exact absurd hplace (by simp)
  · rename_i start hstart
    rw [hstart] at hplace
    exact h.locateFrom_eq hplace

theorem SameFolders.symm {t' : FileTree} (h : t.SameFolders t') : t'.SameFolders t :=
  ⟨h.directory_eq.symm, fun place => (h.isFolderAt_eq place).symm⟩

/-- A path leads to a place that is no folder, so that a file can be written there. -/
def Takes (t : FileTree) (p : Path) : Prop :=
  ∃ place, t.locate p = .ok place ∧ t.isFolderAt place = false

theorem takes_iff {p : Path} :
    t.Takes p ↔ (t.locate p).toOption.any (fun place => !t.isFolderAt place) = true := by
  unfold Takes
  cases t.locate p <;> simp [Except.toOption]

instance (t : FileTree) (p : Path) : Decidable (t.Takes p) :=
  decidable_of_iff _ takes_iff.symm

theorem SameFolders.takes {t' : FileTree} (h : t.SameFolders t') {p : Path} (hp : t.Takes p) :
    t'.Takes p := by
  obtain ⟨place, hplace, hfolder⟩ := hp
  exact ⟨place, h.locate_eq hplace, (h.isFolderAt_eq place).trans hfolder⟩

/-! ### Files -/

/-- A path leads to a file with a text. -/
def Holds (t : FileTree) (p : Path) (value : String) : Prop :=
  ∃ place, t.locate p = .ok place ∧ t.files.get? place = some (.text value)

theorem Holds.unique {p : Path} {value value' : String} (h : t.Holds p value)
    (h' : t.Holds p value') : value = value' := by
  obtain ⟨place, hplace, hfile⟩ := h
  obtain ⟨place', hplace', hfile'⟩ := h'
  obtain rfl := Except.ok.inj (hplace.symm.trans hplace')
  exact FileContent.text.inj (Option.some.inj (hfile.symm.trans hfile'))

theorem writeText_eq_none {t' : FileTree} {p : Path} {value : String}
    (h : t.writeText p value = (t', none)) : ∃ place, t.locate p = .ok place ∧
      t.isFolderAt place = false ∧ t' = t.put place value := by
  unfold writeText at h
  split at h
  · exact absurd h (by simp)
  · rename_i place hplace
    dsimp only at h
    split at h
    · exact absurd h (by simp)
    · rename_i hfolder
      split at h
      · exact ⟨place, hplace, by simpa using hfolder, (Prod.mk.inj h).1.symm⟩
      · exact absurd h (by simp)

theorem writeAll_cons_eq_none {t' : FileTree} {p : Path} {value : String}
    {rest : List (Path × String)} (h : t.writeAll ((p, value) :: rest) = (t', none)) :
    ∃ place, t.locate p = .ok place ∧ t.isFolderAt place = false ∧
      t.SameFolders (t.put place value) ∧ (t.put place value).writeAll rest = (t', none) := by
  rw [writeAll] at h
  split at h
  · rename_i between hwrite
    obtain ⟨place, hplace, hfolder, rfl⟩ := writeText_eq_none hwrite
    exact ⟨place, hplace, hfolder,
      sameFolders_put (isFolderAt_dropLast_of_locate hplace hfolder) value, h⟩
  · exact absurd h (by simp)

/-- Writing files makes no folder, and every path that is written to leads to a place that is none. -/
theorem sameFolders_writeAll {t' : FileTree} {files : List (Path × String)}
    (h : t.writeAll files = (t', none)) :
    t.SameFolders t' ∧ ∀ file ∈ files, t.Takes file.1 := by
  induction files generalizing t with
  | nil =>
    obtain rfl := (Prod.mk.inj h).1
    exact ⟨.refl t, List.forall_mem_nil _⟩
  | cons file rest ih =>
    obtain ⟨place, hplace, hfolder, hsame, hrest⟩ := writeAll_cons_eq_none h
    obtain ⟨hsame', hfiles⟩ := ih hrest
    exact ⟨hsame.trans hsame', List.forall_mem_cons.2 ⟨⟨place, hplace, hfolder⟩, fun other hother =>
      hsame.symm.takes (hfiles other hother)⟩⟩

/-- Texts that have an encoding can be written where each path takes a file. -/
theorem writeAll_eq_none_of_takes {files : List (Path × String)}
    (h : ∀ file ∈ files, t.Takes file.1 ∧ isWellFormed file.2.toList = true) :
    (t.writeAll files).2 = none := by
  induction files generalizing t with
  | nil => rfl
  | cons file rest ih =>
    obtain ⟨⟨⟨place, hplace, hfolder⟩, hencoded⟩, hrest⟩ := List.forall_mem_cons.1 h
    have hwrite : t.writeText file.1 file.2 = (t.put place file.2, none) := by
      unfold writeText
      rw [hplace]
      dsimp only
      rw [if_neg (by simp [hfolder]), if_pos hencoded]
      rfl
    have hsame := sameFolders_put (isFolderAt_dropLast_of_locate hplace hfolder) file.2
    rw [writeAll, hwrite]
    exact ih fun other hother => ⟨hsame.takes (hrest other hother).1, (hrest other hother).2⟩

/-- A place that is not written to keeps its file. -/
theorem get?_writeAll_of_ne {t' : FileTree} {files : List (Path × String)} {place : List String}
    (h : t.writeAll files = (t', none)) (hne : ∀ file ∈ files, t.locate file.1 ≠ .ok place) :
    t'.files.get? place = t.files.get? place := by
  induction files generalizing t with
  | nil =>
    obtain rfl := (Prod.mk.inj h).1
    rfl
  | cons file rest ih =>
    obtain ⟨hfile, hothers⟩ := List.forall_mem_cons.1 hne
    obtain ⟨place', hplace', -, hsame, hrest⟩ := writeAll_cons_eq_none h
    rw [ih hrest fun other hother heq => hothers other hother (hsame.symm.locate_eq heq)]
    exact OrderedMap.get?_insert_ne _ _ fun heq => hfile (heq ▸ hplace')

/-- What is written stands there, if no path after it leads to the same place. -/
theorem holds_of_writeAll {t' : FileTree} {before after : List (Path × String)} {p : Path}
    {value : String} (h : t.writeAll (before ++ (p, value) :: after) = (t', none))
    (hne : ∀ other ∈ after, t.locate other.1 ≠ t.locate p) : t'.Holds p value := by
  induction before generalizing t with
  | nil =>
    obtain ⟨place, hplace, -, hsame, hrest⟩ := writeAll_cons_eq_none h
    refine ⟨place, (hsame.trans (sameFolders_writeAll hrest).1).locate_eq hplace, ?_⟩
    rw [get?_writeAll_of_ne hrest fun other hother heq => hne other hother
      ((hsame.symm.locate_eq heq).trans hplace.symm)]
    exact OrderedMap.get?_insert_self ..
  | cons file before ih =>
    obtain ⟨place', -, -, hsame, hrest⟩ := writeAll_cons_eq_none h
    obtain ⟨place, hplace, -⟩ := (sameFolders_writeAll h).2 (p, value) (by simp)
    refine ih hrest fun other hother heq => hne other hother ?_
    rw [hsame.locate_eq hplace] at heq
    exact (hsame.symm.locate_eq heq).trans hplace.symm

theorem deliver_eq_none {t' : FileTree} {folder : Path} {files : List (Path × String)}
    (h : t.deliver folder files = (t', none)) :
    ∃ made, t.makeFolder folder = .ok made ∧ made.writeAll files = (t', none) := by
  unfold deliver at h
  cases hmade : t.makeFolder folder with
  | error e => rw [hmade] at h; exact absurd h (by simp)
  | ok made => rw [hmade] at h; exact ⟨made, rfl, h⟩

end FileTree

end MarkupTidy
