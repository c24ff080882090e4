import MarkupTidy.Chunk.Name

/-! # Names of chunks

The chunks of a folder stand in the order of their file names, and no two of them have one.  Their
components can have one name all the same.

* `Chunk.find_eq_of_isFolder`, `Chunk.pairwise_lt_namesIn`: the chunks of a folder by file name.
* `Chunk.componentName_eq_iff`: the file names that come to one component name. -/

namespace MarkupTidy.Chunk

/-! ### File names -/

variable {tree : FileTree} {input folder : Path}

/-- The names of the chunks in a folder, in order. -/
def namesIn (tree : FileTree) (folder : Path) : List String :=
  ((tree.names folder).filter isChunkName).mergeSort (· ≤ ·)

theorem namesIn_eq_of_pairwise {names : List String}
    (h : (tree.names folder).filter isChunkName = names) (hsorted : names.Pairwise (· ≤ ·)) :
    namesIn tree folder = names := by
  rw [namesIn, h]
  exact List.mergeSort_of_pairwise (hsorted.imp fun h => decide_eq_true h)

theorem nodup_eraseDups {α : Type} [BEq α] [LawfulBEq α] : ∀ xs : List α, xs.eraseDups.Nodup
  | [] => List.nodup_nil
  | x :: xs => by
    rw [List.eraseDups_cons, List.nodup_cons]
    refine ⟨?_, nodup_eraseDups _⟩
    simp [List.mem_eraseDups]
termination_by xs => xs.length
decreasing_by exact Nat.lt_succ_of_le (List.length_filter_le _ _)

theorem nodup_names (tree : FileTree) (folder : Path) : (tree.names folder).Nodup := by
  unfold FileTree.names
  split
  · exact List.nodup_nil
  · exact nodup_eraseDups _

/-- The chunks stand in the order of their names, each once. -/
theorem pairwise_lt_namesIn (tree : FileTree) (folder : Path) :
    (namesIn tree folder).Pairwise (· < ·) := by
  have hsorted : (namesIn tree folder).Pairwise (· ≤ ·) := by
    refine (List.pairwise_mergeSort ?_ ?_ _).imp fun h => of_decide_eq_true h
    · intro a b c hab hbc
      exact decide_eq_true (String.le_trans (of_decide_eq_true hab) (of_decide_eq_true hbc))
    · intro a b
      simpa using String.le_total a b
  have hnodup : (namesIn tree folder).Nodup :=
    (List.mergeSort_perm _ _).nodup_iff.2 ((nodup_names tree folder).filter _)
  refine (hsorted.and hnodup).imp fun {a b} h => ?_
  exact Decidable.byContradiction fun hlt => h.2 (String.le_antisymm h.1 (String.not_lt.1 hlt))

theorem find_eq_of_isFolder
    (hkind : tree.kind? (input.parent.child sourceFolder) = .ok (some .folder))
    (hname : input.parent.name ≠ sourceFolder) :
    find tree input = .ok ((namesIn tree (input.parent.child sourceFolder)).map
      (input.parent.child sourceFolder).child) := by
  rw [find, hkind]
  dsimp only
  rw [if_neg (by simp [hname])]
  rfl

/-- Where chunks are found, they are those of the folder beside the component. -/
theorem find_cases {sources : List Path} (h : find tree input = .ok sources) : sources = [] ∨
    sources = (namesIn tree (input.parent.child sourceFolder)).map
      (input.parent.child sourceFolder).child := by
  unfold find at h
  dsimp only at h
  split at h
  · exact absurd h (by simp)
  · split at h
    · exact .inl (Except.ok.inj h).symm
    · exact .inr (Except.ok.inj h).symm

/-! ### Component names -/

/-- The name of the component that a chunk becomes. -/
def componentOf (source : Path) : String :=
  String.ofList (componentName source.stem.toList)

/-- The words of a file name do not make a name by themselves: there is none, or a digit comes
first. -/
def LacksLetter (stem : List Char) : Prop :=
  (joinWords true stem).head?.all Char.isDigit = true

instance (stem : List Char) : Decidable (LacksLetter stem) :=
  inferInstanceAs (Decidable (_ = true))

/-- Two file names have the same words, case at the front of a word apart, or the words of one are those
of the other after the word that stands in where a letter is missing. -/
def Clash (stem stem' : List Char) : Prop :=
  joinWords true stem = joinWords true stem' ∨
    (LacksLetter stem ∧ joinWords true stem' = "Chunk".toList ++ joinWords true stem) ∨
    (LacksLetter stem' ∧ joinWords true stem = "Chunk".toList ++ joinWords true stem')

instance (stem stem' : List Char) : Decidable (Clash stem stem') :=
  inferInstanceAs (Decidable (_ ∨ _ ∨ _))

theorem componentName_eq (stem : List Char) : componentName stem =
    if LacksLetter stem then "Chunk".toList ++ joinWords true stem else joinWords true stem := by
  unfold componentName
  dsimp only
  split
  · rename_i h
    rw [if_pos (by simp [LacksLetter, h]), h, List.append_nil]
  · rename_i c rest h
    by_cases hdigit : c.isDigit = true
    · rw [if_pos hdigit, if_pos (by simp [LacksLetter, h, hdigit])]
    · rw [if_neg hdigit, if_neg (by simp [LacksLetter, h, hdigit])]

theorem lacksLetter_iff_of_eq {stem stem' : List Char}
    (h : joinWords true stem = joinWords true stem') : LacksLetter stem ↔ LacksLetter stem' := by
  rw [LacksLetter, h, LacksLetter]

theorem not_lacksLetter_of_eq {stem stem' : List Char}
    (h : joinWords true stem' = "Chunk".toList ++ joinWords true stem) : ¬ LacksLetter stem' := by
  rw [LacksLetter, h]
  simp

/-- The file names that come to one component name. -/
theorem componentName_eq_iff (stem stem' : List Char) :
    componentName stem = componentName stem' ↔ Clash stem stem' := by
  rw [componentName_eq, componentName_eq]
  constructor
  · intro h
    split at h <;> split at h
    · exact .inl (List.append_cancel_left h)
    · exact .inr (.inl ⟨‹_›, h.symm⟩)
    · exact .inr (.inr ⟨‹_›, h⟩)
    · exact .inl h
  · rintro (h | ⟨hlacks, h⟩ | ⟨hlacks, h⟩)
    · simp only [h, lacksLetter_iff_of_eq h]
    · rw [if_pos hlacks, if_neg (not_lacksLetter_of_eq h), h]
    · rw [if_pos hlacks, if_neg (not_lacksLetter_of_eq h), h]

theorem componentOf_eq_iff (source source' : Path) : componentOf source = componentOf source' ↔
    Clash source.stem.toList source'.stem.toList := by
  rw [componentOf, componentOf, String.ofList_inj, componentName_eq_iff]

theorem componentOf_ne_empty (source : Path) : componentOf source ≠ "" := by
  have hname : componentName source.stem.toList ≠ [] := by
    rw [componentName_eq]
    split
    · simp
    · rename_i hletter
      intro hnil
      exact hletter (by simp [LacksLetter, hnil])
  exact fun h => hname (by simpa [componentOf] using h)

end MarkupTidy.Chunk
