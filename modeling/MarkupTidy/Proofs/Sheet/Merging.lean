import Mathlib.Data.List.Sort
import MarkupTidy.Proofs.OrderedMap
import MarkupTidy.Proofs.Sheet.FontImport

/-! # Merging stylesheets in parts

A merged stylesheet is made of four kinds of things, each gathered in its own way, and each of them is
gathered from a merged stylesheet as it is from those that it comes from.  Typefaces are written as one
directive and read back from it; everything else is in the stylesheet as it was gathered.

* `nameable_of_importedFonts?`: what is read from a directive can be written again.
* `familyWeights_append_namedUses`: typefaces that are read back, among others.
* `Sheet.gather_eq`: what is gathered from stylesheets, each kind on its own.
* `Sheet.merge?_merge?`: stylesheets may be merged in parts, and one that is merged stays as it is. -/

namespace MarkupTidy

open MarkupTidy.Text MarkupTidy.OrderedMap

/-! ### Typefaces that are read -/

theorem nonneg_of_readInt? {cs : List Char} (h : ∀ c ∈ cs, isDecimalDigit c = true) {n : Int}
    (hread : Number.readInt? cs = some n) : 0 ≤ n := by
  have hsign := Number.readSign_of_head? fun c hc => .inl (h c (List.mem_of_mem_head? hc))
  have htrim := Number.trimPadding_of_forall fun c hc => Number.isPadding_of_isDecimalDigit (h c hc)
  unfold Number.readInt? at hread
  rw [htrim, hsign] at hread
  dsimp only at hread
  split at hread
  · exact absurd hread (by simp)
  · simp only [Bool.false_eq_true, if_false, Option.some.injEq] at hread
    omega

theorem nonneg_of_mem_readWeights {cs : List Char} (h : ∀ c ∈ cs, isWeightsChar c = true) {n : Int}
    (hn : n ∈ readWeights cs) : 0 ≤ n := by
  obtain ⟨part, hpart, hread⟩ := List.mem_filterMap.1 hn
  refine nonneg_of_readInt? (fun c hc => ?_) hread
  have hchar := h c (mem_of_mem_splitOn hpart hc)
  have hmark : c ≠ ';' := by
    rintro rfl
    exact not_mem_of_mem_splitOn hpart hc
  simpa [isWeightsChar, hmark] using hchar

theorem nameable_of_readFamily? {cs rest : List Char} {uses : List FontUse}
    (h : readFamily? cs = some (uses, rest)) : ∀ font ∈ uses, Nameable font := by
  unfold readFamily? at h
  split at h
  · exact absurd h (by simp)
  · dsimp only at h
    split at h
    · exact absurd h (by simp)
    · split at h
      · exact absurd h (by simp)
      · rename_i hne
        obtain ⟨rfl, -⟩ := Prod.mk.inj (Option.some.inj h)
        refine List.forall_mem_map.2 fun weight hweight => ⟨?_, ?_⟩
        · simp only [Bool.or_eq_true, List.isEmpty_iff, not_or] at hne
          intro hname
          have hdecoded := congrArg String.toList hname
          rw [String.toList_ofList] at hdecoded
          exact hne.1 (Url.formDecode_eq_nil_iff.1 hdecoded)
        · exact nonneg_of_mem_readWeights (Markup.forall_mem_takeWhile _) hweight

/-- What is read from a directive can be written again. -/
theorem nameable_of_importedFonts? {directive : String} {fonts : List FontUse}
    (h : importedFonts? directive = some fonts) : ∀ font ∈ fonts, Nameable font := by
  unfold importedFonts? at h
  dsimp only at h
  split at h
  · obtain rfl := Option.some.inj h
    intro font hfont
    obtain ⟨uses, huses, hfont⟩ := List.mem_flatten.1 hfont
    obtain ⟨suffix, after, hread⟩ := exists_read_of_mem_findAll huses
    exact nameable_of_readFamily? hread font hfont
  · exact absurd h (by simp)

/-! ### Typefaces that are read back -/

theorem keys_familyWeights_eq_firsts (fonts : List FontUse) :
    (familyWeights fonts).keys = firsts (fonts.map Prod.fst) := by
  rw [keys_familyWeights, keys_ofEntries]

/-- The weights by family depend only on the typefaces and on the order in which families are used
first. -/
theorem familyWeights_congr {fonts fonts' : List FontUse} (hmem : ∀ font, font ∈ fonts ↔ font ∈ fonts')
    (hkeys : (familyWeights fonts).keys = (familyWeights fonts').keys) :
    familyWeights fonts = familyWeights fonts' := by
  refine ext_get? (nodup_keys_familyWeights fonts) hkeys fun family => ?_
  cases hweights : (familyWeights fonts).get? family with
  | none =>
    rw [get?_eq_none_iff, hkeys, ← get?_eq_none_iff] at hweights
    exact hweights.symm
  | some weights =>
    have hkey : family ∈ (familyWeights fonts').keys := by
      rw [← hkeys, ← get?_isSome_iff, hweights]
      rfl
    obtain ⟨weights', hweights'⟩ := Option.isSome_iff_exists.1 ((get?_isSome_iff _ _).2 hkey)
    have hascending := fun fonts weights (h : (familyWeights fonts).get? family = some weights) =>
      pairwise_weights _ (mem_of_get? h)
    rw [hweights', Option.some.injEq]
    refine (hascending _ _ hweights).eq_of_mem_iff (hascending _ _ hweights') fun weight => ?_
    rw [mem_weights_iff hweights, mem_weights_iff hweights', hmem]

/-- Every family is read back where it stands among the families. -/
theorem foldl_addNew_namedUses {families : OrderedMap String (List Int)}
    (hnamed : ∀ e ∈ families, e.1 ≠ "") (hweights : ∀ e ∈ families, e.2 ≠ [])
    (gathered : List String) (h : (gathered ++ families.keys).Nodup) :
    ((namedUses families).map Prod.fst).foldl addNew gathered = gathered ++ families.keys := by
  induction families generalizing gathered with
  | nil => exact (List.append_nil _).symm
  | cons e rest ih =>
    obtain ⟨hname, hnamed⟩ := List.forall_mem_cons.1 hnamed
    obtain ⟨hne, hweights⟩ := List.forall_mem_cons.1 hweights
    have hfamily : e.1 ∉ gathered := fun hmem =>
      (List.nodup_append.1 h).2.2 e.1 hmem e.1 List.mem_cons_self rfl
    have hsame : ∀ weights : List Int, weights ≠ [] →
        (weights.map fun _ => e.1).foldl addNew gathered = gathered ++ [e.1] := by
      intro weights hne
      induction weights using List.reverseRecOn with
      | nil => exact absurd rfl hne
      | append_singleton before weight ih =>
        rw [List.map_append, List.foldl_append, List.map_singleton, List.foldl_cons, List.foldl_nil]
        by_cases hbefore : before = []
        · rw [hbefore]
          exact if_neg hfamily
        · rw [ih hbefore]
          exact if_pos (List.mem_append_right _ (List.mem_singleton_self _))
    have hsplit : (namedUses (e :: rest)).map Prod.fst
        = (e.2.map fun _ => e.1) ++ (namedUses rest).map Prod.fst := by
      rw [namedUses_eq, namedUses_eq, List.flatMap_cons, readOf, if_neg hname, List.flatten_singleton,
        List.map_append, List.map_map]
      rfl
    rw [keys, List.map_cons, List.append_cons] at h ⊢
    rw [hsplit, List.foldl_append, hsame e.2 hne]
    exact ih hnamed hweights _ h

theorem familyWeights_namedUses {fonts : List FontUse} (h : ∀ font ∈ fonts, Nameable font) :
    familyWeights (namedUses (familyWeights fonts)) = familyWeights fonts := by
  refine familyWeights_congr (isGrouped_namedUses h).mem_iff ?_
  have hnamed : ∀ e ∈ familyWeights fonts, e.1 ≠ "" := by
    intro e he
    have hkey : e.1 ∈ (familyWeights fonts).keys := List.mem_map_of_mem he
    rw [keys_familyWeights, mem_keys_ofEntries] at hkey
    obtain ⟨font, hfont, heq⟩ := List.mem_map.1 hkey
    exact heq ▸ (h font hfont).1
  rw [keys_familyWeights_eq_firsts]
  exact foldl_addNew_namedUses hnamed weights_ne_nil [] (nodup_keys_familyWeights fonts)

/-- Typefaces that are read back from two directives, as those that the directives were made of. -/
theorem familyWeights_append_namedUses {fonts more : List FontUse}
    (hfonts : ∀ font ∈ fonts, Nameable font) (hmore : ∀ font ∈ more, Nameable font) :
    familyWeights (namedUses (familyWeights fonts) ++ namedUses (familyWeights more))
      = familyWeights (fonts ++ more) := by
  refine familyWeights_congr (fun font => ?_) ?_
  · rw [List.mem_append, List.mem_append, (isGrouped_namedUses hfonts).mem_iff,
      (isGrouped_namedUses hmore).mem_iff]
  · have hread : ∀ {fonts : List FontUse}, (∀ font ∈ fonts, Nameable font) →
        firsts ((namedUses (familyWeights fonts)).map Prod.fst) = firsts (fonts.map Prod.fst) := by
      intro fonts h
      rw [← keys_familyWeights_eq_firsts, familyWeights_namedUses h, keys_familyWeights_eq_firsts]
    rw [keys_familyWeights_eq_firsts, keys_familyWeights_eq_firsts, List.map_append, List.map_append,
      firsts_append, firsts_append, hread hfonts, hread hmore]

theorem fontImport?_congr {fonts fonts' : List FontUse}
    (h : familyWeights fonts = familyWeights fonts') : fontImport? fonts = fontImport? fonts' := by
  unfold fontImport?
  rw [h]

namespace Sheet

/-! ### What is gathered -/

/-- The imports of a stylesheet other than of typefaces. -/
def otherImports (s : Sheet) : List String :=
  s.imports.filter fun directive => (importedFonts? directive).isNone

/-- A rule under its selector. -/
def keyed (rule : Rule) : String × Rule :=
  (rule.selector, rule)

/-- Imports are gathered by what they import; nothing else is gathered from them. -/
theorem foldl_addImport (directives : List String) (g : Gathered) :
    directives.foldl Gathered.addImport g =
      { g with
        fonts := g.fonts ++ (directives.filterMap importedFonts?).flatten
        imports := (directives.filter fun d => (importedFonts? d).isNone).foldl addNew g.imports } := by
  induction directives generalizing g with
  | nil => simp
  | cons directive rest ih =>
    rw [List.foldl_cons, ih, Gathered.addImport]
    cases hread : importedFonts? directive with
    | some fonts =>
      rw [List.filterMap_cons_some hread, List.filter_cons_of_neg (by simp [hread]),
        List.flatten_cons, ← List.append_assoc]
    | none =>
      rw [List.filterMap_cons_none hread, List.filter_cons_of_pos (by simp [hread]), List.foldl_cons,
        addNew]
      simp only [List.contains_iff_mem]
      split <;> rfl

/-- Each kind of thing is gathered on its own. -/
theorem add_eq (g : Gathered) (s : Sheet) : g.add s =
    { fonts := g.fonts ++ s.importedFonts
      imports := s.otherImports.foldl addNew g.imports
      properties := s.properties.foldl give g.properties
      utilities := (s.utilities.map keyed).foldl giveNew g.utilities
      rules := (s.rules.map keyed).foldl give g.rules } := by
  rw [Gathered.add, foldl_addImport, List.foldl_map, List.foldl_map]
  rfl

theorem foldl_add (sheets : List Sheet) (g : Gathered) : sheets.foldl Gathered.add g =
    { fonts := g.fonts ++ sheets.flatMap importedFonts
      imports := (sheets.flatMap otherImports).foldl addNew g.imports
      properties := (sheets.flatMap properties).foldl give g.properties
      utilities := ((sheets.flatMap utilities).map keyed).foldl giveNew g.utilities
      rules := ((sheets.flatMap rules).map keyed).foldl give g.rules } := by
  induction sheets generalizing g with
  | nil => simp
  | cons s rest ih =>
    rw [List.foldl_cons, ih, add_eq]
    simp only [List.flatMap_cons, List.map_append, List.foldl_append, List.append_assoc]

/-- What is gathered from stylesheets. -/
theorem gather_eq (sheets : List Sheet) : gather sheets =
    { fonts := sheets.flatMap importedFonts
      imports := firsts (sheets.flatMap otherImports)
      properties := ofEntries (sheets.flatMap properties)
      utilities := firstEntries ((sheets.flatMap utilities).map keyed)
      rules := ofEntries ((sheets.flatMap rules).map keyed) } := by
  rw [gather, foldl_add]
  rfl

theorem imports_gather_eq (sheets : List Sheet) :
    (gather sheets).imports = firsts (sheets.flatMap otherImports) :=
  congrArg Gathered.imports (gather_eq sheets)

theorem properties_gather (sheets : List Sheet) :
    (gather sheets).properties = ofEntries (sheets.flatMap properties) :=
  congrArg Gathered.properties (gather_eq sheets)

theorem utilities_gather (sheets : List Sheet) :
    (gather sheets).utilities = firstEntries ((sheets.flatMap utilities).map keyed) :=
  congrArg Gathered.utilities (gather_eq sheets)

theorem rules_gather (sheets : List Sheet) :
    (gather sheets).rules = ofEntries ((sheets.flatMap rules).map keyed) :=
  congrArg Gathered.rules (gather_eq sheets)

/-! ### What is gathered from a merged stylesheet -/

theorem nameable_of_mem_importedFonts {s : Sheet} : ∀ font ∈ s.importedFonts, Nameable font := by
  intro font hfont
  obtain ⟨fonts, hfonts, hfont⟩ := List.mem_flatten.1 hfont
  obtain ⟨directive, -, hread⟩ := List.mem_filterMap.1 hfonts
  exact nameable_of_importedFonts? hread font hfont

theorem nameable_of_mem_gather {sheets : List Sheet} :
    ∀ font ∈ (gather sheets).fonts, Nameable font := by
  rw [fonts_gather]
  intro font hfont
  obtain ⟨s, -, hfont⟩ := List.mem_flatMap.1 hfont
  exact nameable_of_mem_importedFonts font hfont

theorem filterMap_fontImport {fonts : List FontUse} (h : ∀ font ∈ fonts, Nameable font) :
    ((fontImport? fonts).toList.filterMap importedFonts?).flatten
      = namedUses (familyWeights fonts) := by
  cases hdirective : fontImport? fonts with
  | none =>
    rw [fontImport?_eq_none_iff.1 hdirective]
    rfl
  | some directive =>
    have hread := importedFonts?_fontImport (fun font hfont => (h font hfont).2) hdirective
    rw [Option.toList_some, List.filterMap_cons_some hread, List.filterMap_nil, List.flatten_singleton]

theorem importedFonts?_eq_none_of_mem {sheets : List Sheet} {directive : String}
    (h : directive ∈ (gather sheets).imports) : importedFonts? directive = none := by
  rw [imports_gather_eq] at h
  obtain ⟨s, -, hmem⟩ := List.mem_flatMap.1 (mem_firsts.1 h)
  exact Option.isNone_iff_eq_none.1 (List.mem_filter.1 hmem).2

/-- The typefaces that a merged stylesheet imports are those that were gathered. -/
theorem importedFonts_mergeAll (sheets : List Sheet) :
    (mergeAll sheets).importedFonts = namedUses (familyWeights (gather sheets).fonts) := by
  have hothers : (gather sheets).imports.filterMap importedFonts? = [] :=
    List.filterMap_eq_nil_iff.2 fun _ => importedFonts?_eq_none_of_mem
  rw [importedFonts, mergeAll, Gathered.sheet, List.filterMap_append, hothers, List.append_nil]
  exact filterMap_fontImport nameable_of_mem_gather

theorem otherImports_mergeAll (sheets : List Sheet) :
    (mergeAll sheets).otherImports = (gather sheets).imports := by
  have hfonts : (fontImport? (gather sheets).fonts).toList.filter
      (fun directive => (importedFonts? directive).isNone) = [] := by
    refine List.filter_eq_nil_iff.2 fun directive hdirective => ?_
    rw [importedFonts?_fontImport (fun font hfont => (nameable_of_mem_gather font hfont).2)
      (Option.mem_toList.1 hdirective)]
    simp
  have hothers : (gather sheets).imports.filter
      (fun directive => (importedFonts? directive).isNone) = (gather sheets).imports :=
    List.filter_eq_self.2 fun _ hmem => by rw [importedFonts?_eq_none_of_mem hmem]; rfl
  rw [otherImports, mergeAll, Gathered.sheet, List.filter_append, hfonts, hothers, List.nil_append]

/-- Rules that stand under their selectors are the rules of a map. -/
theorem map_keyed_values {m : OrderedMap String Rule} (h : ∀ e ∈ m, e = keyed e.2) :
    (m.map Prod.snd).map keyed = m := by
  rw [List.map_map]
  exact (List.map_congr_left fun e he => (h e he).symm).trans (List.map_id m)

theorem keyed_rules_mergeAll (sheets : List Sheet) :
    (mergeAll sheets).rules.map keyed = (gather sheets).rules := by
  refine map_keyed_values fun e he => ?_
  rw [rules_gather] at he
  obtain ⟨rule, -, rfl⟩ := List.mem_map.1 (mem_ofEntries he)
  rfl

theorem keyed_utilities_mergeAll (sheets : List Sheet) :
    (mergeAll sheets).utilities.map keyed = (gather sheets).utilities := by
  refine map_keyed_values fun e he => ?_
  rw [utilities_gather] at he
  obtain ⟨rule, -, rfl⟩ := List.mem_map.1 (mem_firstEntries he)
  rfl

/-! ### Merging in parts -/

section
variable (xs ys : List Sheet)

theorem flatMap_merged {α : Type} (f : Sheet → List α) :
    [mergeAll xs, mergeAll ys].flatMap f = f (mergeAll xs) ++ f (mergeAll ys) := by
  rw [List.flatMap_cons, List.flatMap_singleton]

theorem familyWeights_gather_mergeAll : familyWeights (gather [mergeAll xs, mergeAll ys]).fonts
    = familyWeights (gather (xs ++ ys)).fonts := by
  rw [fonts_gather, fonts_gather, flatMap_merged, List.flatMap_append, importedFonts_mergeAll,
    importedFonts_mergeAll,
    familyWeights_append_namedUses nameable_of_mem_gather nameable_of_mem_gather, fonts_gather,
    fonts_gather]

theorem imports_gather_mergeAll :
    (gather [mergeAll xs, mergeAll ys]).imports = (gather (xs ++ ys)).imports := by
  rw [imports_gather_eq, imports_gather_eq, flatMap_merged, List.flatMap_append,
    otherImports_mergeAll, otherImports_mergeAll, imports_gather_eq, imports_gather_eq,
    firsts_append_firsts]

theorem properties_gather_mergeAll :
    (gather [mergeAll xs, mergeAll ys]).properties = (gather (xs ++ ys)).properties := by
  rw [properties_gather, properties_gather, flatMap_merged, List.flatMap_append,
    ← ofEntries_append_ofEntries (xs.flatMap properties), ← properties_gather, ← properties_gather]
  rfl

theorem utilities_gather_mergeAll :
    (gather [mergeAll xs, mergeAll ys]).utilities = (gather (xs ++ ys)).utilities := by
  rw [utilities_gather, utilities_gather, flatMap_merged, List.flatMap_append, List.map_append,
    List.map_append, keyed_utilities_mergeAll, keyed_utilities_mergeAll, utilities_gather,
    utilities_gather, firstEntries_append_firstEntries]

theorem rules_gather_mergeAll :
    (gather [mergeAll xs, mergeAll ys]).rules = (gather (xs ++ ys)).rules := by
  rw [rules_gather, rules_gather, flatMap_merged, List.flatMap_append, List.map_append,
    List.map_append, keyed_rules_mergeAll, keyed_rules_mergeAll, rules_gather, rules_gather,
    ofEntries_append_ofEntries]

/-- Merged stylesheets are merged as those that they come from. -/
theorem mergeAll_mergeAll : mergeAll [mergeAll xs, mergeAll ys] = mergeAll (xs ++ ys) := by
  have hsheet : ∀ sheets, mergeAll sheets = (gather sheets).sheet := fun _ => rfl
  rw [hsheet [_, _], hsheet (xs ++ ys), Gathered.sheet, Gathered.sheet,
    fontImport?_congr (familyWeights_gather_mergeAll xs ys), imports_gather_mergeAll,
    properties_gather_mergeAll, utilities_gather_mergeAll, rules_gather_mergeAll]

/-- A merged stylesheet stays as it is when it is merged. -/
theorem mergeAll_singleton : mergeAll [mergeAll xs] = mergeAll xs := by
  have hmerged := mergeAll_mergeAll xs []
  rwa [List.append_nil] at hmerged

/-! ### Families that cannot be named -/

theorem unencodableFamily?_append (fonts more : List FontUse) :
    unencodableFamily? (fonts ++ more) = (unencodableFamily? fonts).or (unencodableFamily? more) := by
  rw [unencodableFamily?, List.map_append, List.find?_append]
  rfl

theorem unencodableFamily?_gather_append : unencodableFamily? (gather (xs ++ ys)).fonts
    = (unencodableFamily? (gather xs).fonts).or (unencodableFamily? (gather ys).fonts) := by
  rw [fonts_gather, List.flatMap_append, unencodableFamily?_append, ← fonts_gather, ← fonts_gather]

/-- What is read back of families that can be named can be named. -/
theorem unencodableFamily?_importedFonts {sheets : List Sheet}
    (h : unencodableFamily? (gather sheets).fonts = none) :
    unencodableFamily? (mergeAll sheets).importedFonts = none := by
  rw [unencodableFamily?_eq_none_iff] at h ⊢
  intro font hfont
  rw [importedFonts_mergeAll] at hfont
  exact h font (mem_namedUses_iff.1 hfont).1

theorem merge?_of_none {sheets : List Sheet} (h : unencodableFamily? (gather sheets).fonts = none) :
    merge? sheets = .ok (mergeAll sheets) := by
  rw [merge?, h]

theorem merge?_of_some {sheets : List Sheet} {family : String}
    (h : unencodableFamily? (gather sheets).fonts = some family) :
    merge? sheets = .error family := by
  rw [merge?, h]

/-- Stylesheets may be merged in parts, and one that is merged stays as it is: the same imports,
properties, utilities and rules come out in the same order, or the same family cannot be named. -/
theorem merge?_merge? :
    (do let x ← merge? xs
        let y ← merge? ys
        merge? [x, y]) = merge? (xs ++ ys) ∧
      (do let x ← merge? xs
          merge? [x]) = merge? xs := by
  have hfamilies := unencodableFamily?_gather_append xs ys
  cases hx : unencodableFamily? (gather xs).fonts with
  | some family =>
    rw [hx, Option.some_or] at hfamilies
    rw [merge?_of_some hx, merge?_of_some hfamilies]
    exact ⟨rfl, rfl⟩
  | none =>
    rw [hx, Option.none_or] at hfamilies
    rw [merge?_of_none hx]
    have hread := unencodableFamily?_importedFonts hx
    constructor
    · cases hy : unencodableFamily? (gather ys).fonts with
      | some family =>
        rw [hy] at hfamilies
        rw [merge?_of_some hy, merge?_of_some hfamilies]
        rfl
      | none =>
        rw [hy] at hfamilies
        have hboth : unencodableFamily? (gather [mergeAll xs, mergeAll ys]).fonts = none := by
          rw [fonts_gather, flatMap_merged, unencodableFamily?_append, hread,
            unencodableFamily?_importedFonts hy]
          rfl
        rw [merge?_of_none hy, merge?_of_none hfamilies, ← mergeAll_mergeAll]
        exact merge?_of_none hboth
    · have hone : unencodableFamily? (gather [mergeAll xs]).fonts = none := by
        rwa [fonts_gather, List.flatMap_singleton]
      exact (merge?_of_none hone).trans (congrArg _ (mergeAll_singleton xs))

end

end Sheet

end MarkupTidy
