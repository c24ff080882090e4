import MarkupTidy.Proofs.Pass.Frame
import MarkupTidy.Proofs.Pass.Reported

/-! # What an inlined graphic is made of

A container of layers gives way to one graphic.  A layer without an image that can be read is passed over,
so the graphic has the paths of the other layers only.

* `VectorComposites.Source.image?`: the image that is behind a layer, if it can be read.
* `VectorComposites.Inlined`: the graphic that a container gives way to.
* `VectorComposites.losesNoLayer_iff`: the containers of a document that give way, and when their graphics
  have all their layers. -/

namespace MarkupTidy.VectorComposites

/-- The image behind a layer. -/
def Source.image? (source : Source) (layer : Layer) : Option VectorImage := do
  let folder ← source.assets?
  let reference ← layer.binding?.bind source.bindings.get?
  let reading ← (folder.read reference).toOption
  reading.image?

/-- The graphic for a sized container some of whose layers have an image with a path. -/
def Inlined (source : Source) (e x : Element) : Prop :=
  isSized e.attributes.classes ∧ ∃ layers first rest, Layer.ofContainer? e = some layers ∧
    layers.filterMap source.image? = first :: rest ∧ (first :: rest).flatMap VectorImage.paths ≠ [] ∧
    x = composite e.attributes first (first :: rest)

/-- Every layer of a container has an image, and the graphic in its place has the paths of all of them,
in the order of the layers. -/
def LosesNoLayer (source : Source) (e x : Element) : Prop :=
  ∃ (layers : List Layer) (images : List VectorImage), Layer.ofContainer? e = some layers ∧
    layers.map source.image? = images.map some ∧
    x.children = (images.flatMap VectorImage.paths).map fun path => .element (pathElement path)

/-- Every layer of a container has an image. -/
def AllShown (source : Source) (e : Element) : Prop :=
  ∀ layers ∈ Layer.ofContainer? e, ∀ layer ∈ layers, (source.image? layer).isSome

instance (source : Source) (e : Element) : Decidable (AllShown source e) :=
  inferInstanceAs (Decidable (∀ layers ∈ Layer.ofContainer? e, _))

/-! ### One container -/

variable {source : Source}

theorem image?_eq {folder : AssetFolder} (h : source.assets? = some folder) (layer : Layer) :
    source.image? layer = (layer.binding?.bind source.bindings.get?).bind fun reference =>
      (folder.read reference).toOption.bind AssetReading.image? := by
  rw [Source.image?, h]
  rfl

/-- The images that are read are those of the layers that have one. -/
theorem readLayers_eq_ok {folder : AssetFolder} (hfolder : source.assets? = some folder)
    {notices : List Notice} {layers : List Layer} {images : List VectorImage}
    (h : (readLayers source folder notices layers).2 = .ok images) :
    images = layers.filterMap source.image? := by
  induction layers generalizing notices images with
  | nil => exact (Except.ok.inj h).symm
  | cons layer rest ih =>
    have himage := image?_eq hfolder layer
    rw [readLayers] at h
    cases hreference : layer.binding?.bind source.bindings.get? with
    | none =>
      rw [hreference] at himage h
      rw [List.filterMap_cons_none himage]
      exact ih h
    | some reference =>
      rw [hreference] at himage h
      cases hread : folder.read reference with
      | error fault => simp [hread] at h
      | ok reading =>
        simp only [hread] at h
        cases hrest : (readLayers source folder (notices ++ reading.notices) rest).2 with
        | error fault => simp [hrest, Except.map] at h
        | ok others =>
          rw [hrest] at h
          have heq : source.image? layer = reading.image? := by
            rw [himage, Option.bind_some, hread]
            rfl
          rw [← Except.ok.inj h, ih hrest]
          cases hshown : reading.image? with
          | none => rw [List.filterMap_cons_none (heq.trans hshown)]; rfl
          | some image => rw [List.filterMap_cons_some (heq.trans hshown)]; rfl

/-- If reading the layers does not fail, the graphic is found exactly if there is one. -/
theorem inline_eq_some_iff {notices : List Notice} {e : Element} {layers : List Layer}
    {found : Option Element} (hlayers : Layer.ofContainer? e = some layers)
    (h : (inline source notices e.attributes layers).2 = .ok found) (x : Element) :
    found = some x ↔ Inlined source e x := by
  have hinlined : Inlined source e x ↔ isSized e.attributes.classes ∧ ∃ first rest,
      layers.filterMap source.image? = first :: rest ∧
        (first :: rest).flatMap VectorImage.paths ≠ [] ∧
        x = composite e.attributes first (first :: rest) := by
    simp only [Inlined, hlayers, Option.some.injEq, exists_and_left, exists_eq_left']
  rw [hinlined]
  unfold inline at h
  cases hfolder : source.assets? with
  | none =>
    have hnone : layers.filterMap source.image? = [] :=
      List.filterMap_eq_nil_iff.2 fun layer _ => by rw [Source.image?, hfolder]; rfl
    rw [hfolder] at h
    simp [hnone, ← Except.ok.inj h]
  | some folder =>
    rw [hfolder] at h
    dsimp only at h
    split at h
    · rename_i hsized
      cases hread : (readLayers source folder notices layers).2 with
      | error fault => simp [hread, Except.map] at h
      | ok images =>
        rw [hread] at h
        rw [← Except.ok.inj h, ← readLayers_eq_ok hfolder hread]
        cases images with
        | nil => simp
        | cons first rest =>
          dsimp only
          split
          · rename_i hempty
            refine iff_of_false nofun ?_
            rintro ⟨-, first', rest', heq, hpaths, -⟩
            exact hpaths (heq ▸ List.isEmpty_iff.1 hempty)
          · rename_i hpaths
            constructor
            · intro hx
              exact ⟨hsized, first, rest, rfl, fun hnil => hpaths (List.isEmpty_iff.2 hnil),
                (Option.some.inj hx).symm⟩
            · rintro ⟨-, first', rest', heq, -, rfl⟩
              obtain ⟨rfl, rfl⟩ := List.cons.inj heq
              rfl
    · rename_i hsized
      simp [hsized, ← Except.ok.inj h]

theorem examine_eq_some {w : Walk State} {e x : Element} (h : (examine source w e).1 = some x) :
    Inlined source e x := by
  unfold examine at h
  cases hlayers : Layer.ofContainer? e with
  | none => simp [hlayers] at h
  | some layers =>
    cases hfound : (inline source w.state.notices e.attributes layers).2 with
    | error fault => simp [hlayers, hfound] at h
    | ok found =>
      rw [← inline_eq_some_iff hlayers hfound x]
      cases found with
      | none => simp [hlayers, hfound] at h
      | some graphic => simpa [hlayers, hfound] using h

theorem examine_eq_none {w : Walk State} {e : Element} (h : (examine source w e).1 = none)
    (hfault : (examine source w e).2.fault? = none) (x : Element) : ¬Inlined source e x := by
  unfold examine at h hfault
  cases hlayers : Layer.ofContainer? e with
  | none => simp [Inlined, hlayers]
  | some layers =>
    cases hfound : (inline source w.state.notices e.attributes layers).2 with
    | error fault => simp [hlayers, hfound] at hfault
    | ok found =>
      rw [← inline_eq_some_iff hlayers hfound x]
      cases found with
      | none => simp
      | some graphic => simp [hlayers, hfound] at h

theorem LosesNoLayer.allShown {e x : Element} (h : LosesNoLayer source e x) : AllShown source e := by
  obtain ⟨layers, images, hlayers, himages, -⟩ := h
  intro layers' hlayers' layer hlayer
  obtain rfl := Option.some.inj (hlayers.symm.trans hlayers')
  have hmem : source.image? layer ∈ images.map some := himages ▸ List.mem_map_of_mem hlayer
  obtain ⟨image, -, himage⟩ := List.mem_map.1 hmem
  rw [← himage]
  rfl

/-- Of a container that gives way nothing is lost exactly if every layer has an image. -/
theorem losesNoLayer_iff_allShown {e x : Element} (h : Inlined source e x) :
    LosesNoLayer source e x ↔ AllShown source e := by
  obtain ⟨-, layers, first, rest, hlayers, hshown, -, rfl⟩ := h
  refine ⟨LosesNoLayer.allShown, fun hall => ⟨layers, first :: rest, hlayers, ?_, rfl⟩⟩
  rw [← hshown, List.map_filterMap_some_eq_filter_map_isSome, List.filter_eq_self.2]
  exact List.forall_mem_map.2 (hall layers hlayers)

/-! ### Containers in a tree -/

/-- The elements that stay when the walk comes to its end. -/
def Stays (completes : Prop) (source : Source) (e : Element) : Prop :=
  completes → ∀ x, ¬Inlined source e x

section
variable {completes : Prop}

theorem not_inlined_of_tag {e : Element} (h : e.tag ≠ "div") (x : Element) : ¬Inlined source e x := by
  rintro ⟨-, layers, -, -, hlayers, -⟩
  exact h (tag_of_ofContainer? hlayers)

theorem tag_of_mem_paths {paths : List (OrderedMap String String)} :
    ∀ x ∈ Node.preorderAll (paths.map fun path => .element (pathElement path)), x.tag = "path" := by
  induction paths with
  | nil => exact List.forall_mem_nil _
  | cons path rest ih => exact List.forall_mem_cons.2 ⟨rfl, ih⟩

/-- What is put in place stays as it is. -/
theorem rewrites_of_inlined {e x : Element} (h : Inlined source e x) :
    Element.Rewrites (Stays completes source) (Inlined source) e x := by
  have hpaths := h
  obtain ⟨-, -, first, rest, -, -, -, rfl⟩ := hpaths
  refine .replaced h (Node.rewriteAll_refl _ fun x hx _ => not_inlined_of_tag ?_)
  rw [tag_of_mem_paths x hx]
  decide

mutual
theorem rewrites_inlineElement (w : Walk State) :
    ∀ e : Element, (completes → (inlineElement source w e).2.fault? = none) →
      Element.Rewrites (Stays completes source) (Inlined source) e (inlineElement source w e).1
  | ⟨tag, attributes, children⟩ => by
    rw [inlineElement]
    split
    · rename_i hfault
      intro h
      refine Element.rewrites_refl _ fun x _ hcompletes => ?_
      rw [h hcompletes] at hfault
      exact absurd hfault Bool.false_ne_true
    · intro h
      split at h
      · rename_i graphic w' he
        exact rewrites_of_inlined (examine_eq_some (congrArg Prod.fst he))
      · rename_i w' he
        have hgoes := goesOn_inlineNodes source w' children
        refine .kept (fun hcompletes x => ?_) (rewriteAll_inlineNodes w' children h)
        refine examine_eq_none (w := w) (congrArg Prod.fst he) ?_ x
        rw [he]
        exact hgoes.fault_eq_none (h hcompletes)

theorem rewriteAll_inlineNodes (w : Walk State) :
    ∀ ns : List Node, (completes → (inlineNodes source w ns).2.fault? = none) →
      Node.RewriteAll (Stays completes source) (Inlined source) ns (inlineNodes source w ns).1
  | [], _ => .nil
  | .element e :: rest, h =>
    .element
      (rewrites_inlineElement w e fun hcompletes =>
        (goesOn_inlineNodes source _ rest).fault_eq_none (h hcompletes))
      (rewriteAll_inlineNodes _ rest h)
  | .text value :: rest, h => .text value (rewriteAll_inlineNodes w rest h)
  | .expression code :: rest, h => .expression code (rewriteAll_inlineNodes w rest h)

end

theorem rewrites_inlineSegments (w : Walk State) {segments : List Segment}
    (h : completes → (inlineSegments source w segments).2.fault? = none) :
    Document.Rewrites (Stays completes source) (Inlined source) ⟨segments⟩
      ⟨(inlineSegments source w segments).1⟩ := by
  induction segments generalizing w with
  | nil => exact .nil
  | cons segment rest ih =>
    cases segment with
    | code code => exact .cons (.code code) (ih w h)
    | markup root =>
      have hgoes := goesOn_inlineSegments source (inlineElement source w root).2 rest
      exact .cons
        (.markup (rewrites_inlineElement w root fun hcompletes => hgoes.fault_eq_none (h hcompletes)))
        (ih _ h)

end

/-! ### Documents -/

/-- What the pass looks references up in. -/
def sourceOf (d : Document) (c : Context) : Source :=
  ⟨d.assetBindings, c.assets?⟩

/-- A container gives way to the graphic of those of its layers that have an image; where the pass comes
to its end, all containers do for which there is such a graphic, and nothing else does.  Of the layers of
a container none is lost exactly if all of them have an image. -/
theorem losesNoLayer_iff (d : Document) (c : Context) :
    d.Rewrites (Stays (∃ counters, (pass.run d c).result = .ok counters) (sourceOf d c))
      (fun e x => Inlined (sourceOf d c) e x ∧
        (LosesNoLayer (sourceOf d c) e x ↔ AllShown (sourceOf d c) e))
      (pass.run d c).document := by
  have hrewrites : d.Rewrites (Stays (∃ counters, (pass.run d c).result = .ok counters) (sourceOf d c))
      (Inlined (sourceOf d c)) (pass.run d c).document :=
    rewrites_inlineSegments ⟨⟨[], []⟩, none⟩ Walk.exists_result_iff.1
  exact hrewrites.mono (fun _ => id) fun _ _ h => ⟨h, losesNoLayer_iff_allShown h⟩

/-- Three layers, and a folder in which the graphic of the third one is missing. -/
def missingLayer : Document :=
  let layer (name : String) : Node := .element ⟨"img",
    [⟨classAttribute, .text "absolute top-0"⟩, ⟨"src", .expression name⟩], []⟩
  ⟨[.code "const a = \"a.svg\"; const b = \"b.svg\"; const c = \"c.svg\";",
    .markup ⟨"div", [⟨classAttribute, .text "w-4 h-4"⟩], [layer "a", layer "b", layer "c"]⟩]⟩

def missingFolder : AssetFolder where
  tree :=
    { directory := []
      files := [(["a.svg"], .text "<path d=\"M0\"/>"), (["b.svg"], .text "<path d=\"M1\"/>")]
      folders := [] }
  base := .ofString "."

/-- The container gives way, and its third layer is lost. -/
theorem missingLayer_lost :
    ¬missingLayer.Rewrites (fun _ => True)
      (LosesNoLayer (sourceOf missingLayer (.new .empty (some missingFolder))))
      (pass.run missingLayer (.new .empty (some missingFolder))).document := by
  intro h
  have hroots := h.roots
  have htags : (pass.run missingLayer (.new .empty (some missingFolder))).document.roots.map Element.tag
      = ["svg"] := by
    decide +kernel
  obtain ⟨root, hroot, htag⟩ := List.map_eq_singleton_iff.1 htags
  rw [hroot] at hroots
  obtain ⟨-, hkept, -⟩ | ⟨x, hlost, -⟩ := (List.forall₂_cons.1 hroots).1.cases_tag
  · exact absurd (htag.symm.trans hkept) (by decide)
  · exact absurd hlost.allShown (by decide +kernel)

end MarkupTidy.VectorComposites
