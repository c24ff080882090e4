import MarkupTidy.Proofs.Markup.Passage
import MarkupTidy.Proofs.Number.Reader
import MarkupTidy.Proofs.OrderedMap
import MarkupTidy.Proofs.Text.Search
import MarkupTidy.Proofs.Url.Form
import MarkupTidy.Sheet.Merge

/-! # Reading the import of typefaces

The directive that imports typefaces names every family with its weights, and it is read back family
by family.

* `mem_familyWeights_iff`: every typeface is among the weights of its family.
* `importedFonts?_fontImport`: the typefaces that are read from a directive are those that it was made
  of, by family.
* `mem_namedUses_iff`: so no typeface that has a name is lost.
* `isGrouped_namedUses`: by family in order of first use, with ascending weights.
* `Sheet.mergeAll_imports`: the typefaces that merged stylesheets import. -/

namespace MarkupTidy

open MarkupTidy.Text MarkupTidy.Markup

/-! ### Weights by family -/

theorem mem_insertWeight {weight w : Int} {weights : List Int} :
    w ∈ insertWeight weight weights ↔ w = weight ∨ w ∈ weights := by
  induction weights with
  | nil => simp [insertWeight]
  | cons first rest ih =>
    rw [insertWeight]
    split
    · simp
    · split
      · rename_i heq
        rw [heq]
        simp
      · rw [List.mem_cons, ih, List.mem_cons]
        exact or_left_comm

/-- Adds a typeface to the weights of its family. -/
def addUse (families : OrderedMap String (List Int)) (font : FontUse) :
    OrderedMap String (List Int) :=
  families.insert font.1 (insertWeight font.2 ((families.get? font.1).getD []))

theorem familyWeights_eq (fonts : List FontUse) : familyWeights fonts = fonts.foldl addUse [] :=
  rfl

theorem nodup_keys_foldl_addUse {families : OrderedMap String (List Int)} (h : families.keys.Nodup)
    (fonts : List FontUse) : (fonts.foldl addUse families).keys.Nodup := by
  induction fonts generalizing families with
  | nil => exact h
  | cons font rest ih => exact ih (OrderedMap.nodup_keys_insert h _ _)

theorem nodup_keys_familyWeights (fonts : List FontUse) : (familyWeights fonts).keys.Nodup :=
  @nodup_keys_foldl_addUse [] List.nodup_nil fonts

theorem mem_weights_foldl_addUse {families : OrderedMap String (List Int)} {fonts : List FontUse}
    {family : String} {weight : Int} :
    weight ∈ ((fonts.foldl addUse families).get? family).getD [] ↔
      weight ∈ (families.get? family).getD [] ∨ (family, weight) ∈ fonts := by
  induction fonts generalizing families with
  | nil => simp
  | cons font rest ih =>
    rw [List.foldl_cons, ih, List.mem_cons, ← or_assoc]
    refine or_congr_left ?_
    obtain ⟨name, w⟩ := font
    by_cases hname : name = family
    · subst hname
      rw [addUse, OrderedMap.get?_insert_self, Option.getD_some, mem_insertWeight, Prod.mk.injEq,
        eq_self, true_and]
      exact or_comm
    · rw [addUse, OrderedMap.get?_insert_ne _ _ hname, Prod.mk.injEq]
      exact (or_iff_left fun heq => hname heq.1.symm).symm

/-- The typefaces that are imported are in the weights of their families. -/
theorem mem_familyWeights_iff {fonts : List FontUse} {font : FontUse} :
    (∃ weights, (font.1, weights) ∈ familyWeights fonts ∧ font.2 ∈ weights) ↔ font ∈ fonts := by
  have hmem := @mem_weights_foldl_addUse [] fonts font.1 font.2
  rw [← familyWeights_eq] at hmem
  refine Iff.trans ⟨?_, fun h => ?_⟩ (hmem.trans (or_iff_right List.not_mem_nil))
  · rintro ⟨weights, hweights, hfont⟩
    rwa [(OrderedMap.get?_eq_some_iff (nodup_keys_familyWeights fonts)).2 hweights]
  · cases hget : (familyWeights fonts).get? font.1 with
    | none => rw [hget] at h; exact absurd h List.not_mem_nil
    | some weights =>
      rw [hget] at h
      exact ⟨weights, OrderedMap.mem_of_get? hget, h⟩

/-- The weights of a family are those that it is used in. -/
theorem mem_weights_iff {fonts : List FontUse} {family : String} {weights : List Int}
    (h : (familyWeights fonts).get? family = some weights) {weight : Int} :
    weight ∈ weights ↔ (family, weight) ∈ fonts := by
  refine ⟨fun hweight => mem_familyWeights_iff.1 ⟨weights, OrderedMap.mem_of_get? h, hweight⟩,
    fun hfont => ?_⟩
  obtain ⟨weights', hmem, hweight⟩ := mem_familyWeights_iff.2 hfont
  rw [(OrderedMap.get?_eq_some_iff (nodup_keys_familyWeights fonts)).2 hmem] at h
  exact Option.some.inj h ▸ hweight

/-- What holds of all weights to which one has been added holds of the weights of every family. -/
theorem forall_weights {P : List Int → Prop}
    (h : ∀ weight weights, weights = [] ∨ P weights → P (insertWeight weight weights))
    {fonts : List FontUse} : ∀ e ∈ familyWeights fonts, P e.2 := by
  have hfold (families : OrderedMap String (List Int)) (hfamilies : ∀ e ∈ families, P e.2) :
      ∀ e ∈ fonts.foldl addUse families, P e.2 := by
    induction fonts generalizing families with
    | nil => exact hfamilies
    | cons font rest ih =>
      refine ih _ fun e he => ?_
      obtain he | rfl := OrderedMap.mem_insert he
      · exact hfamilies e he
      · refine h _ _ ?_
        cases hget : families.get? font.1 with
        | none => exact .inl rfl
        | some weights => exact .inr (hfamilies _ (OrderedMap.mem_of_get? hget))
  exact hfold [] (List.forall_mem_nil _)

theorem weights_ne_nil {fonts : List FontUse} : ∀ e ∈ familyWeights fonts, e.2 ≠ [] :=
  @forall_weights (· ≠ []) (fun _ _ _ => List.ne_nil_of_mem (mem_insertWeight.2 (.inl rfl))) fonts

theorem pairwise_insertWeight (weight : Int) {weights : List Int} (h : weights.Pairwise (· < ·)) :
    (insertWeight weight weights).Pairwise (· < ·) := by
  induction weights with
  | nil => exact List.pairwise_singleton _ _
  | cons first rest ih =>
    obtain ⟨hfirst, hrest⟩ := List.pairwise_cons.1 h
    rw [insertWeight]
    split
    · rename_i hlt
      refine List.pairwise_cons.2 ⟨List.forall_mem_cons.2 ⟨hlt, fun w hw => ?_⟩, h⟩
      exact Int.lt_trans hlt (hfirst w hw)
    · split
      · exact h
      · rename_i hlt hne
        refine List.pairwise_cons.2 ⟨fun w hw => ?_, ih hrest⟩
        obtain rfl | hw := mem_insertWeight.1 hw
        · omega
        · exact hfirst w hw

/-- The weights of a family ascend. -/
theorem pairwise_weights {fonts : List FontUse} :
    ∀ e ∈ familyWeights fonts, e.2.Pairwise (· < ·) :=
  @forall_weights (List.Pairwise (· < ·)) (fun weight _ h =>
    h.elim (fun hnil => hnil ▸ List.pairwise_singleton _ weight) (pairwise_insertWeight weight)) fonts

theorem keys_familyWeights (fonts : List FontUse) :
    (familyWeights fonts).keys = (OrderedMap.ofEntries fonts).keys := by
  have hfold (families : OrderedMap String (List Int)) (entries : OrderedMap String Int)
      (h : families.keys = entries.keys) : (fonts.foldl addUse families).keys
        = (fonts.foldl (fun m font => m.insert font.1 font.2) entries).keys := by
    induction fonts generalizing families entries with
    | nil => exact h
    | cons font rest ih =>
      refine ih _ _ ?_
      rw [addUse, OrderedMap.keys_insert, OrderedMap.keys_insert, h]
  exact hfold [] [] rfl

/-! ### Reading one family -/

/-- The weights of a family in a directive. -/
def weightsText (weights : List Int) : List Char :=
  List.intercalate [';'] (weights.map fun w => (toString w).toList)

theorem familyParameter_eq (family : String) (weights : List Int) : familyParameter family weights
    = "family=".toList ++ Url.formEncode family.toList ++ ":wght@".toList ++ weightsText weights :=
  rfl

theorem toString_of_nonneg {w : Int} (h : 0 ≤ w) : (toString w).toList = (Nat.repr w.toNat).toList := by
  obtain ⟨n, rfl⟩ := Int.eq_ofNat_of_zero_le h
  rfl

theorem isDigit_of_mem_toString {w : Int} (h : 0 ≤ w) {c : Char} (hc : c ∈ (toString w).toList) :
    c.isDigit = true := by
  rw [toString_of_nonneg h, Nat.toList_repr] at hc
  exact Nat.isDigit_of_mem_toDigits (by decide) (by decide) hc

theorem readWeights_weightsText {weights : List Int} (h : ∀ w ∈ weights, 0 ≤ w) (hne : weights ≠ []) :
    readWeights (weightsText weights) = weights := by
  have hparts : ∀ part ∈ weights.map fun w => (toString w).toList, ';' ∉ part := by
    refine List.forall_mem_map.2 fun w hw hmem => ?_
    exact absurd (isDigit_of_mem_toString (h w hw) hmem) (by decide)
  rw [readWeights, weightsText, splitOn_intercalate hparts (by simpa using hne), List.filterMap_map]
  have hread : ∀ w ∈ weights, (Number.readInt? ∘ fun w => (toString w).toList) w = some w := by
    intro w hw
    rw [Function.comp_apply, toString_of_nonneg (h w hw), Number.readInt?_repr,
      Int.toNat_of_nonneg (h w hw)]
  rw [List.filterMap_congr hread, List.filterMap_some]

/-- A character of the weights of a family. -/
def isWeightsChar (c : Char) : Bool :=
  isDecimalDigit c || c = ';'

theorem isWeightsChar_of_mem {weights : List Int} (h : ∀ w ∈ weights, 0 ≤ w) :
    ∀ c ∈ weightsText weights, isWeightsChar c = true := by
  intro c hc
  obtain rfl | ⟨part, hpart, hc⟩ := mem_intercalate hc
  · decide
  · obtain ⟨w, hw, rfl⟩ := List.mem_map.1 hpart
    rw [isWeightsChar, isDecimalDigit, Number.digitValue?_of_isDigit (isDigit_of_mem_toString (h w hw) hc)]
    rfl

theorem weightsText_ne_nil {weights : List Int} (h : ∀ w ∈ weights, 0 ≤ w) (hne : weights ≠ []) :
    weightsText weights ≠ [] := by
  intro hnil
  have hread := readWeights_weightsText h hne
  rw [hnil] at hread
  exact hne (hread.symm.trans rfl)

/-- A character of the name of a family. -/
def isFamilyChar (c : Char) : Bool :=
  c ≠ ':' && c ≠ '&' && c ≠ '\''

theorem isFamilyChar_of_mem_formEncode {cs : List Char} :
    ∀ c ∈ Url.formEncode cs, isFamilyChar c = true := by
  intro c hc
  have hform := Url.isFormChar_of_mem hc
  simp only [isFamilyChar, Bool.and_eq_true, decide_eq_true_eq]
  refine ⟨⟨?_, ?_⟩, ?_⟩ <;> rintro rfl <;> exact absurd hform (by decide)

theorem formEncode_ne_nil {cs : List Char} (h : cs ≠ []) : Url.formEncode cs ≠ [] := by
  intro hnil
  have hdecode := Url.formDecode_formEncode cs
  rw [hnil] at hdecode
  exact h (hdecode.symm.trans (by decide +kernel))

theorem toList_familyMark : "family=".toList = ['f', 'a', 'm', 'i', 'l', 'y', '='] := by
  decide +kernel

theorem toList_weightMark : ":wght@".toList = [':', 'w', 'g', 'h', 't', '@'] := by
  decide +kernel

/-- A family with a name is read with its weights, up to the next mark. -/
theorem readFamily?_familyParameter {family : String} (hfamily : family ≠ "") {weights : List Int}
    (h : ∀ w ∈ weights, 0 ≤ w) (hne : weights ≠ []) (y : List Char) :
    readFamily? (familyParameter family weights ++ '&' :: y)
      = some (weights.map fun w => (family, w), '&' :: y) := by
  have hsplit : familyParameter family weights ++ '&' :: y = "family=".toList
      ++ (Url.formEncode family.toList ++ (":wght@".toList ++ (weightsText weights ++ '&' :: y))) := by
    rw [familyParameter_eq, List.append_assoc, List.append_assoc, List.append_assoc]
  have hname : (fun c : Char => decide (c ≠ ':') && decide (c ≠ '&') && decide (c ≠ '\''))
      = isFamilyChar := rfl
  have hweights : (fun c : Char => isDecimalDigit c || decide (c = ';')) = isWeightsChar := rfl
  have hcolon (z : List Char) : Stops isFamilyChar (":wght@".toList ++ z) := by
    rw [toList_weightMark]
    exact stops_cons (by decide)
  have hmark : Stops isWeightsChar ('&' :: y) := stops_cons (by decide)
  unfold readFamily?
  rw [hsplit, afterText?_eq_some.2 rfl]
  dsimp only
  rw [hname, hweights, takeWhile_append_of_stops isFamilyChar_of_mem_formEncode (hcolon _),
    dropWhile_append_of_stops isFamilyChar_of_mem_formEncode (hcolon _), afterText?_eq_some.2 rfl]
  dsimp only
  rw [takeWhile_append_of_stops (isWeightsChar_of_mem h) hmark,
    dropWhile_append_of_stops (isWeightsChar_of_mem h) hmark, if_neg, readWeights_weightsText h hne,
    Url.formDecode_formEncode, String.ofList_toList]
  simp [weightsText_ne_nil h hne, formEncode_ne_nil, hfamily]

/-- What is read of one family. -/
def readOf (family : String) (weights : List Int) : List (List FontUse) :=
  if family = "" then [] else [weights.map fun w => (family, w)]

theorem readFamily?_eq_none_of_ne {c : Char} (h : c ≠ 'f') (rest : List Char) :
    readFamily? (c :: rest) = none := by
  have hafter : afterText? "family=".toList (c :: rest) = none := by
    rw [toList_familyMark, afterText?, if_neg (Ne.symm h)]
  rw [readFamily?, hafter]

theorem readFamily?_unnamed (rest : List Char) :
    readFamily? ("family=".toList ++ (":wght@".toList ++ rest)) = none := by
  have htake : (":wght@".toList ++ rest).takeWhile
      (fun c : Char => decide (c ≠ ':') && decide (c ≠ '&') && decide (c ≠ '\'')) = [] := by
    rw [toList_weightMark]
    rfl
  unfold readFamily?
  rw [afterText?_eq_some.2 rfl]
  dsimp only
  rw [htake]
  split
  · rfl
  · exact if_pos rfl

/-- Nothing is read where a family has no name. -/
theorem passes_familyParameter {weights : List Int} (h : ∀ w ∈ weights, 0 ≤ w) (y : List Char) :
    Passes readFamily? (familyParameter "" weights ++ ['&']) y := by
  have hname : Url.formEncode "".toList = [] := by decide
  have hsplit : familyParameter "" weights ++ ['&']
      = 'f' :: (['a', 'm', 'i', 'l', 'y', '=', ':', 'w', 'g', 'h', 't', '@']
        ++ (weightsText weights ++ ['&'])) := by
    rw [familyParameter_eq, hname, toList_familyMark, toList_weightMark]
    rfl
  have hunnamed := readFamily?_unnamed (weightsText weights ++ ['&'] ++ y)
  rw [toList_familyMark, toList_weightMark] at hunnamed
  have hweights : ∀ c ∈ weightsText weights, c ≠ 'f' := by
    rintro c hc rfl
    exact absurd (isWeightsChar_of_mem h _ hc) (by decide)
  have hothers : ∀ c ∈ ['a', 'm', 'i', 'l', 'y', '=', ':', 'w', 'g', 'h', 't', '@']
      ++ (weightsText weights ++ ['&']), c ≠ 'f' :=
    List.forall_mem_append.2 ⟨by decide, List.forall_mem_append.2 ⟨hweights, by decide⟩⟩
  rw [hsplit]
  refine passes_cons.2 ⟨hunnamed, passes_of_forall (fun c hc => ?_) y⟩
  exact readFamily?_eq_none_of_ne (hothers c hc)

theorem finds_familyParameter (family : String) {weights : List Int} (h : ∀ w ∈ weights, 0 ≤ w)
    (hne : weights ≠ []) :
    Finds readFamily? (familyParameter family weights ++ ['&']) (readOf family weights) := by
  unfold readOf
  split
  · rename_i hfamily
    rw [hfamily]
    exact finds_of_passes (passes_familyParameter h)
  · rename_i hfamily
    intro y
    have hread := readFamily?_familyParameter hfamily h hne y
    have hmark : Finds readFamily? ['&'] [] := finds_of_passes (passes_of_forall (by
      intro c hc
      rw [List.mem_singleton.1 hc]
      exact readFamily?_eq_none_of_ne (by decide)))
    have hparameter : familyParameter family weights ≠ [] := by
      rw [familyParameter_eq]
      exact List.append_ne_nil_of_right_ne_nil _ (weightsText_ne_nil h hne)
    rw [List.append_assoc, List.singleton_append, findAll, pieces_append_of_read hread hparameter,
      List.filterMap_cons]
    exact congrArg _ (hmark y)

/-! ### Reading a directive -/

theorem intercalate_append_separator {separator : List Char} {parts : List (List Char)}
    (hne : parts ≠ []) : List.intercalate separator parts ++ separator
      = parts.flatMap (· ++ separator) := by
  induction parts with
  | nil => exact absurd rfl hne
  | cons part rest ih =>
    cases rest with
    | nil => simp
    | cons next rest =>
      rw [List.flatMap_cons, List.intercalate_cons_cons, List.append_assoc, ih (by simp)]

theorem isSome_fontImport {fonts : List FontUse} {font : FontUse} (h : font ∈ fonts) :
    (fontImport? fonts).isSome = true := by
  obtain ⟨weights, hweights, -⟩ := mem_familyWeights_iff.2 h
  unfold fontImport?
  split
  · rename_i hnil
    rw [hnil] at hweights
    exact absurd hweights List.not_mem_nil
  · rfl

/-- What stands in front of the first family. -/
def importStart : List Char :=
  "@import url('".toList ++ fontService ++ ['?']

/-- The one `f` in front of the families begins no family. -/
theorem finds_importStart : Finds readFamily? importStart [] := by
  have hsplit : importStart = "@import url('https://".toList
      ++ ('f' :: 'o' :: "nts.googleapis.com/css2?".toList) := by decide
  have hfront : ∀ c ∈ "@import url('https://".toList, c ≠ 'f' := by decide
  have hback : ∀ c ∈ 'o' :: "nts.googleapis.com/css2?".toList, c ≠ 'f' := by decide
  have hfonts (rest : List Char) : readFamily? ('f' :: 'o' :: rest) = none := by
    have hafter : afterText? "family=".toList ('f' :: 'o' :: rest) = none := by
      rw [toList_familyMark, afterText?, if_pos rfl, afterText?, if_neg (by decide)]
    rw [readFamily?, hafter]
  rw [hsplit]
  refine (finds_of_passes (passes_of_forall fun c hc => ?_)).append (finds_of_passes fun y => ?_)
  · exact readFamily?_eq_none_of_ne (hfront c hc)
  · exact passes_cons.2 ⟨hfonts _, passes_of_forall (fun c hc =>
      readFamily?_eq_none_of_ne (hback c hc)) y⟩

/-- What follows the mark after the last family. -/
def importEnd : List Char :=
  "display=swap');".toList

theorem finds_importEnd : Finds readFamily? importEnd [] := by
  have hchars : ∀ c ∈ importEnd, c ≠ 'f' := by decide
  exact finds_of_passes (passes_of_forall fun c hc => readFamily?_eq_none_of_ne (hchars c hc))

/-- A directive, family by family. -/
theorem toList_fontImport {fonts : List FontUse} {directive : String}
    (h : fontImport? fonts = some directive) : directive.toList
      = importStart ++ ((familyWeights fonts).flatMap (fun e => familyParameter e.1 e.2 ++ ['&'])
        ++ importEnd) := by
  have hdisplay : "&display=swap');".toList = ['&'] ++ importEnd := by decide
  unfold fontImport? at h
  split at h
  · exact absurd h (by simp)
  · rename_i hne
    have hparts : (familyWeights fonts).map (fun e => familyParameter e.1 e.2) ≠ [] := by
      simpa using hne
    have hfamilies : List.intercalate ['&'] ((familyWeights fonts).map fun e =>
        familyParameter e.1 e.2) ++ (['&'] ++ importEnd)
        = (familyWeights fonts).flatMap (fun e => familyParameter e.1 e.2 ++ ['&']) ++ importEnd := by
      rw [← List.append_assoc, intercalate_append_separator hparts, List.flatMap_map]
    obtain rfl := Option.some.inj h
    rw [String.toList_ofList, hdisplay, List.append_assoc _ (List.intercalate _ _)]
    exact congrArg (importStart ++ ·) hfamilies

/-- The typefaces of families with a name, family by family. -/
def namedUses (families : OrderedMap String (List Int)) : List FontUse :=
  (families.flatMap fun e => readOf e.1 e.2).flatten

/-- The typefaces that are read from a directive are those that it was made of, by family. -/
theorem importedFonts?_fontImport {fonts : List FontUse} (hweights : ∀ f ∈ fonts, 0 ≤ f.2)
    {directive : String} (h : fontImport? fonts = some directive) :
    importedFonts? directive = some (namedUses (familyWeights fonts)) := by
  have hfamilies : Finds readFamily?
      ((familyWeights fonts).flatMap fun e => familyParameter e.1 e.2 ++ ['&'])
      ((familyWeights fonts).flatMap fun e => readOf e.1 e.2) := by
    refine Finds.flatMap fun e he => finds_familyParameter e.1 (fun w hw => ?_) (weights_ne_nil e he)
    exact hweights (e.1, w) (mem_familyWeights_iff.1 ⟨e.2, he, hw⟩)
  have hfinds := (finds_importStart.append (hfamilies.append finds_importEnd)).findAll_eq
  have hservice : containsText fontService directive.toList = true := by
    have hstart : importStart = "@import url('".toList ++ (fontService ++ ['?']) :=
      List.append_assoc "@import url('".toList fontService ['?']
    rw [toList_fontImport h, hstart, List.append_assoc "@import url('".toList,
      List.append_assoc fontService]
    exact containsText_append _ fontService _
  unfold importedFonts?
  dsimp only
  rw [if_pos hservice, toList_fontImport h, hfinds, List.nil_append, List.append_nil]
  rfl

theorem mem_readOf {family : String} {weights : List Int} {font : FontUse} :
    font ∈ (readOf family weights).flatten ↔ font.1 = family ∧ font.2 ∈ weights ∧ family ≠ "" := by
  unfold readOf
  obtain ⟨name, weight⟩ := font
  split
  · simp_all
  · rename_i hfamily
    simp [hfamily, and_comm, eq_comm]

/-- No typeface that has a name is lost. -/
theorem mem_namedUses_iff {fonts : List FontUse} {font : FontUse} :
    font ∈ namedUses (familyWeights fonts) ↔ font ∈ fonts ∧ font.1 ≠ "" := by
  have hmem : (∃ weights, (font.1, weights) ∈ familyWeights fonts ∧ font.2 ∈ weights) ↔ font ∈ fonts :=
    mem_familyWeights_iff
  rw [← hmem, namedUses, List.mem_flatten]
  constructor
  · rintro ⟨uses, huses, hfont⟩
    obtain ⟨e, he, huses⟩ := List.mem_flatMap.1 huses
    obtain ⟨hname, hweight, hne⟩ := mem_readOf.1 (List.mem_flatten.2 ⟨uses, huses, hfont⟩)
    exact ⟨⟨e.2, hname ▸ he, hweight⟩, hname ▸ hne⟩
  · rintro ⟨⟨weights, he, hweight⟩, hne⟩
    obtain ⟨uses, huses, hfont⟩ := List.mem_flatten.1 (mem_readOf.2 ⟨rfl, hweight, hne⟩)
    exact ⟨uses, List.mem_flatMap.2 ⟨_, he, huses⟩, hfont⟩

/-! ### The order in which typefaces are read back -/

/-- Of two typefaces among others the family of the first one is used first, or it has the lesser
weight. -/
def UsedBefore (fonts : List FontUse) (f g : FontUse) : Prop :=
  (fonts.map Prod.fst).idxOf f.1 < (fonts.map Prod.fst).idxOf g.1 ∨ f.1 = g.1 ∧ f.2 < g.2

/-- Every typeface once, by family in order of first use, with ascending weights. -/
structure IsGrouped (fonts uses : List FontUse) : Prop where
  mem_iff : ∀ f, f ∈ uses ↔ f ∈ fonts
  pairwise : uses.Pairwise (UsedBefore fonts)

/-- A typeface that a directive can name: its family has a name, and its weight no sign. -/
def Nameable (font : FontUse) : Prop :=
  font.1 ≠ "" ∧ 0 ≤ font.2

theorem namedUses_eq (families : OrderedMap String (List Int)) :
    namedUses families = families.flatMap fun e => (readOf e.1 e.2).flatten := by
  rw [namedUses, List.flatMap_def, List.flatten_flatten, List.map_map]
  rfl

theorem pairwise_namedUses (fonts : List FontUse) :
    (namedUses (familyWeights fonts)).Pairwise (UsedBefore fonts) := by
  have hkeys := OrderedMap.pairwise_keys_ofEntries fonts
  rw [← keys_familyWeights, OrderedMap.keys, List.pairwise_map] at hkeys
  rw [namedUses_eq, List.pairwise_flatMap]
  refine ⟨fun e he => ?_, hkeys.imp fun hlt f hf g hg => .inl ?_⟩
  · unfold readOf
    split
    · exact List.Pairwise.nil
    · rw [List.flatten_singleton, List.pairwise_map]
      exact (pairwise_weights e he).imp fun hlt => .inr ⟨rfl, hlt⟩
  · rwa [(mem_readOf.1 hf).1, (mem_readOf.1 hg).1]

theorem isGrouped_namedUses {fonts : List FontUse} (h : ∀ f ∈ fonts, Nameable f) :
    IsGrouped fonts (namedUses (familyWeights fonts)) where
  mem_iff f := mem_namedUses_iff.trans (and_iff_left_of_imp fun hf => (h f hf).1)
  pairwise := pairwise_namedUses fonts

/-! ### Writing and reading back -/

/-- Typefaces can be imported exactly if every family has an encoding. -/
theorem unencodableFamily?_eq_none_iff {fonts : List FontUse} :
    unencodableFamily? fonts = none ↔ ∀ f ∈ fonts, isWellFormed f.1.toList := by
  simp [unencodableFamily?, List.find?_eq_none]

/-- A directive is what is written for typefaces. -/
def IsWritten (fonts : List FontUse) (directive : String) : Prop :=
  unencodableFamily? fonts = none ∧ fontImport? fonts = some directive

/-- A directive can be written for typefaces, and they are read back from it. -/
def ReadsBack (fonts : List FontUse) : Prop :=
  ∃ directive uses, IsWritten fonts directive ∧ importedFonts? directive = some uses ∧
    IsGrouped fonts uses

theorem fontImport?_eq_none_iff {fonts : List FontUse} : fontImport? fonts = none ↔ fonts = [] := by
  constructor
  · intro hnone
    refine List.eq_nil_iff_forall_not_mem.2 fun font hfont => ?_
    rw [Option.eq_none_iff_forall_ne_some] at hnone
    obtain ⟨directive, hsome⟩ := Option.isSome_iff_exists.1 (isSome_fontImport hfont)
    exact hnone directive hsome
  · rintro rfl
    rfl

theorem IsWritten.read {fonts : List FontUse} {directive : String} (hfonts : ∀ f ∈ fonts, Nameable f)
    (h : IsWritten fonts directive) :
    ∃ uses, importedFonts? directive = some uses ∧ IsGrouped fonts uses :=
  ⟨_, importedFonts?_fontImport (fun f hf => (hfonts f hf).2) h.2, isGrouped_namedUses hfonts⟩

theorem readsBack_iff {fonts : List FontUse} (hfonts : ∀ f ∈ fonts, Nameable f) (hne : fonts ≠ []) :
    ReadsBack fonts ↔ ∀ f ∈ fonts, isWellFormed f.1.toList := by
  rw [← unencodableFamily?_eq_none_iff]
  constructor
  · rintro ⟨directive, uses, hwritten, -⟩
    exact hwritten.1
  · intro h
    obtain ⟨directive, hdirective⟩ := Option.ne_none_iff_exists'.1 (mt fontImport?_eq_none_iff.1 hne)
    obtain ⟨uses, huses⟩ := IsWritten.read hfonts ⟨h, hdirective⟩
    exact ⟨directive, uses, ⟨h, hdirective⟩, huses⟩

/-! ### Stylesheets that are merged -/

namespace Sheet

/-- The typefaces that a stylesheet imports. -/
def importedFonts (s : Sheet) : List FontUse :=
  (s.imports.filterMap importedFonts?).flatten

/-- All imports of a stylesheet are of typefaces, and have been written. -/
def ImportsTypefaces (s : Sheet) : Prop :=
  ∀ directive ∈ s.imports, ∃ fonts, (∀ f ∈ fonts, Nameable f) ∧ IsWritten fonts directive

theorem fonts_foldl_addImport (directives : List String) (g : Gathered) :
    (directives.foldl Gathered.addImport g).fonts
      = g.fonts ++ (directives.filterMap importedFonts?).flatten := by
  induction directives generalizing g with
  | nil => exact (List.append_nil _).symm
  | cons directive rest ih =>
    rw [List.foldl_cons, ih, Gathered.addImport]
    cases hread : importedFonts? directive with
    | none => rw [List.filterMap_cons_none hread]; dsimp only; split <;> rfl
    | some fonts => rw [List.filterMap_cons_some hread, List.flatten_cons, ← List.append_assoc]

theorem imports_foldl_addImport {directives : List String}
    (h : ∀ directive ∈ directives, (importedFonts? directive).isSome) (g : Gathered) :
    (directives.foldl Gathered.addImport g).imports = g.imports := by
  induction directives generalizing g with
  | nil => rfl
  | cons directive rest ih =>
    obtain ⟨hdirective, hrest⟩ := List.forall_mem_cons.1 h
    obtain ⟨fonts, hfonts⟩ := Option.isSome_iff_exists.1 hdirective
    rw [List.foldl_cons, ih hrest, Gathered.addImport, hfonts]

theorem fonts_gather (sheets : List Sheet) : (gather sheets).fonts = sheets.flatMap importedFonts := by
  have hfold (g : Gathered) :
      (sheets.foldl Gathered.add g).fonts = g.fonts ++ sheets.flatMap importedFonts := by
    induction sheets generalizing g with
    | nil => exact (List.append_nil _).symm
    | cons sheet rest ih =>
      rw [List.foldl_cons, ih, List.flatMap_cons, ← List.append_assoc]
      exact congrArg (· ++ _) (fonts_foldl_addImport sheet.imports g)
  exact hfold .empty

theorem ImportsTypefaces.isSome {s : Sheet} (h : s.ImportsTypefaces) :
    ∀ directive ∈ s.imports, (importedFonts? directive).isSome := by
  intro directive hdirective
  obtain ⟨fonts, hfonts, hwritten⟩ := h directive hdirective
  obtain ⟨uses, huses, -⟩ := hwritten.read hfonts
  rw [huses]
  rfl

theorem imports_gather {sheets : List Sheet} (h : ∀ s ∈ sheets, s.ImportsTypefaces) :
    (gather sheets).imports = [] := by
  have hfold (g : Gathered) : (sheets.foldl Gathered.add g).imports = g.imports := by
    induction sheets generalizing g with
    | nil => rfl
    | cons sheet rest ih =>
      obtain ⟨hsheet, hrest⟩ := List.forall_mem_cons.1 h
      rw [List.foldl_cons, ih hrest]
      exact imports_foldl_addImport hsheet.isSome g
  exact hfold .empty

/-- What is imported through directives that have been written can be written again. -/
theorem ImportsTypefaces.of_mem {s : Sheet} (h : s.ImportsTypefaces) :
    ∀ font ∈ s.importedFonts, Nameable font ∧ isWellFormed font.1.toList := by
  intro font hfont
  obtain ⟨uses, huses, hfont⟩ := List.mem_flatten.1 hfont
  obtain ⟨directive, hdirective, hread⟩ := List.mem_filterMap.1 huses
  obtain ⟨fonts, hfonts, hwritten⟩ := h directive hdirective
  obtain ⟨uses', huses', hgrouped⟩ := hwritten.read hfonts
  obtain rfl := Option.some.inj (hread.symm.trans huses')
  have hmem := (hgrouped.mem_iff font).1 hfont
  exact ⟨hfonts font hmem, unencodableFamily?_eq_none_iff.1 hwritten.1 font hmem⟩

/-- Stylesheets with imports of typefaces are merged to one that has a single import, of the typefaces
of all of them. -/
theorem mergeAll_imports {sheets : List Sheet} (h : ∀ s ∈ sheets, s.ImportsTypefaces) :
    unencodableFamily? (gather sheets).fonts = none ∧ (mergeAll sheets).imports.length ≤ 1 ∧
      IsGrouped (sheets.flatMap importedFonts) (mergeAll sheets).importedFonts := by
  have hfonts : ∀ f ∈ sheets.flatMap importedFonts, Nameable f ∧ isWellFormed f.1.toList := by
    intro font hfont
    obtain ⟨sheet, hsheet, hfont⟩ := List.mem_flatMap.1 hfont
    exact (h sheet hsheet).of_mem font hfont
  have hencodable : unencodableFamily? (gather sheets).fonts = none := by
    rw [fonts_gather]
    exact unencodableFamily?_eq_none_iff.2 fun f hf => (hfonts f hf).2
  have himports : (mergeAll sheets).imports = (fontImport? (sheets.flatMap importedFonts)).toList := by
    rw [mergeAll, Gathered.sheet, imports_gather h, List.append_nil, fonts_gather]
  refine ⟨hencodable, ?_, ?_⟩
  · rw [himports]
    cases fontImport? (sheets.flatMap importedFonts) <;> simp
  · rw [Sheet.importedFonts, himports]
    cases hdirective : fontImport? (sheets.flatMap importedFonts) with
    | none =>
      rw [fontImport?_eq_none_iff.1 hdirective]
      exact ⟨fun _ => Iff.rfl, List.Pairwise.nil⟩
    | some directive =>
      rw [fonts_gather] at hencodable
      obtain ⟨uses, huses, hgrouped⟩ := IsWritten.read (fun f hf => (hfonts f hf).1)
        ⟨hencodable, hdirective⟩
      rw [Option.toList_some, List.filterMap_cons_some huses, List.filterMap_nil,
        List.flatten_singleton]
      exact hgrouped

end Sheet

/-- Typefaces with names are read back from the directive that is written for them, each once, by family
in order of first use with ascending weights; there is such a directive exactly if every family has an
encoding.  Stylesheets whose imports have been written so are merged to one that has a single import, from
which the typefaces of all of them are read back. -/
theorem readsBack_and_merges {fonts : List FontUse} (hfonts : ∀ f ∈ fonts, Nameable f)
    {sheets : List Sheet} (hsheets : ∀ s ∈ sheets, s.ImportsTypefaces) :
    (fontImport? fonts = none ↔ fonts = []) ∧
      (fonts ≠ [] → (ReadsBack fonts ↔ ∀ f ∈ fonts, isWellFormed f.1.toList)) ∧
      unencodableFamily? (Sheet.gather sheets).fonts = none ∧ (Sheet.mergeAll sheets).imports.length ≤ 1 ∧
      IsGrouped (sheets.flatMap Sheet.importedFonts) (Sheet.mergeAll sheets).importedFonts :=
  ⟨fontImport?_eq_none_iff, readsBack_iff hfonts, Sheet.mergeAll_imports hsheets⟩

/-- Typefaces of two families, one of which is used again. -/
def mixedFonts : List FontUse :=
  [("Open Sans", 700), ("Inter", 400), ("Open Sans", 400)]

/-- A stylesheet that imports typefaces. -/
def Sheet.importing (fonts : List FontUse) : Sheet :=
  ⟨(fontImport? fonts).toList, [], [], []⟩

theorem importsTypefaces_importing {fonts : List FontUse} (hfonts : ∀ f ∈ fonts, Nameable f)
    (h : unencodableFamily? fonts = none) : (Sheet.importing fonts).ImportsTypefaces :=
  fun _ hdirective => ⟨fonts, hfonts, h, Option.mem_toList.1 hdirective⟩

/-- Two stylesheets that import the same typefaces in different orders. -/
def mixedSheets : List Sheet :=
  [.importing mixedFonts, .importing mixedFonts.reverse]

theorem mixedFonts_readBack :
    (∀ f ∈ mixedFonts, Nameable f) ∧ (∀ s ∈ mixedSheets, s.ImportsTypefaces) ∧ ReadsBack mixedFonts ∧
      IsGrouped (mixedSheets.flatMap Sheet.importedFonts) (Sheet.mergeAll mixedSheets).importedFonts := by
  have hfonts : ∀ f ∈ mixedFonts, Nameable f := by
    simp only [Nameable]
    decide
  have hsheets : ∀ s ∈ mixedSheets, s.ImportsTypefaces := by
    simp only [mixedSheets, List.forall_mem_cons]
    exact ⟨importsTypefaces_importing hfonts (by decide +kernel), importsTypefaces_importing
      (fun f hf => hfonts f (List.mem_reverse.1 hf)) (by decide +kernel), List.forall_mem_nil _⟩
  obtain ⟨-, hread, -, -, hmerged⟩ := readsBack_and_merges hfonts hsheets
  exact ⟨hfonts, hsheets, (hread (by decide)).2 (by decide +kernel), hmerged⟩

/-- A family that has a name, which is half of a surrogate pair. -/
def halfNamed : List FontUse :=
  [(String.ofList [standIn 0xD800], 400)]

/-- For this family no directive can be written. -/
theorem halfNamed_not_readsBack : (∀ f ∈ halfNamed, Nameable f) ∧ ¬ReadsBack halfNamed := by
  have hfonts : ∀ f ∈ halfNamed, Nameable f := by
    simp only [Nameable]
    decide +kernel
  refine ⟨hfonts, ?_⟩
  rw [readsBack_iff hfonts (by decide +kernel)]
  decide +kernel

end MarkupTidy
