import AssetShell.Proofs.Model.Sites

/-!
# Sites anywhere in a tree

Where the sites of an entity stand, at any depth and without an order. The sites that an entity lists
are exactly these, so that a list of sites leaves out no part of a tree.
-/

namespace AssetShell

inductive Extension.HasSite (x : Extension) : Site → Prop
  | semantics : HasSite x (.semantics x.semantics)
  | value : HasSite x (.typedText x.valueType x.value)

inductive Qualifier.HasSite (q : Qualifier) : Site → Prop
  | semantics : HasSite q (.semantics q.semantics)
  | value : HasSite q (.typedText q.valueType q.value)

inductive Element.HasSite : Element → Site → Prop
  | extension {e : Element} {x : Extension} {n : Site} (hx : x ∈ e.common.referable.extensions)
    (hn : x.HasSite n) : HasSite e n
  | semantics {e : Element} : HasSite e (.semantics e.common.semantics)
  | qualifier {e : Element} {q : Qualifier} {n : Site} (hq : q ∈ e.common.qualifiers)
    (hn : q.HasSite n) : HasSite e n
  | kind {e : Element} : HasSite e (.element e)
  | item {head : ListHead} {items : List Element} {index : Nat} {e : Element}
    (he : items[index]? = some e) : HasSite (.list head items) (.item head index e)
  | child {e c : Element} {n : Site} (hc : c ∈ e.children) (hn : HasSite c n) : HasSite e n

inductive Identity.HasSite (i : Identity) : Site → Prop
  | extension {x : Extension} {n : Site} (hx : x ∈ i.referable.extensions) (hn : x.HasSite n) :
    HasSite i n
  | administration {a : AdministrativeInformation} (ha : i.administration = some a) :
    HasSite i (.administration a)

inductive Shell.HasSite (s : Shell) : Site → Prop
  | identity {n : Site} (hn : s.identity.HasSite n) : HasSite s n
  | assetId {id : SpecificAssetId} (hid : id ∈ s.assetInformation.specificAssetIds) :
    HasSite s (.semantics id.semantics)
  | derivedFrom {r : Reference} (hr : s.derivedFrom = some r) : HasSite s (.derivedFrom r)
  | submodel {index : Nat} {r : Reference} (hr : s.submodels[index]? = some r) :
    HasSite s (.submodel index r)

inductive Submodel.HasSite (s : Submodel) : Site → Prop
  | identity {n : Site} (hn : s.identity.HasSite n) : HasSite s n
  | semantics : HasSite s (.semantics s.semantics)
  | qualifier {q : Qualifier} {n : Site} (hq : q ∈ s.qualifiers) (hn : q.HasSite n) : HasSite s n
  | element {e : Element} {n : Site} (he : e ∈ s.elements) (hn : e.HasSite n) : HasSite s n

def Entity.HasSite : Entity → Site → Prop
  | .element e => e.HasSite
  | .shell s => s.HasSite
  | .submodel s => s.HasSite
  | .conceptDescription c => c.identity.HasSite

/-! ## The list has every site -/

theorem Element.sitesOfAll_eq (items : List Element) :
    Element.sitesOfAll items = items.flatMap Element.sites := by
  induction items with
  | nil => rfl
  | cons e r ih => rw [sitesOfAll, ih, List.flatMap_cons]

variable {n : Site}

theorem Extension.mem_sites_iff {x : Extension} : n ∈ x.sites ↔ x.HasSite n := by
  constructor
  · intro h
    simp only [sites, List.mem_cons, List.not_mem_nil, or_false] at h
    rcases h with rfl | rfl
    · exact .semantics
    · exact .value
  · rintro (_ | _) <;> simp [sites]

theorem Qualifier.mem_sites_iff {q : Qualifier} : n ∈ q.sites ↔ q.HasSite n := by
  constructor
  · intro h
    simp only [sites, List.mem_cons, List.not_mem_nil, or_false] at h
    rcases h with rfl | rfl
    · exact .semantics
    · exact .value
  · rintro (_ | _) <;> simp [sites]

theorem Referable.mem_sites_iff {r : Referable} :
    n ∈ r.sites ↔ ∃ x ∈ r.extensions, x.HasSite n := by
  simp only [sites, List.mem_flatMap, Extension.mem_sites_iff]

theorem ElementAttributes.mem_sites_iff {a : ElementAttributes} :
    n ∈ a.sites ↔ (∃ x ∈ a.referable.extensions, x.HasSite n) ∨ n = .semantics a.semantics ∨
      ∃ q ∈ a.qualifiers, q.HasSite n := by
  simp only [sites, List.mem_append, List.mem_cons, Referable.mem_sites_iff, List.mem_flatMap,
    Qualifier.mem_sites_iff]

theorem Identity.mem_sites_iff {i : Identity} : n ∈ i.sites ↔ i.HasSite n := by
  simp only [sites, List.mem_append, Referable.mem_sites_iff, List.mem_map, Option.mem_toList]
  constructor
  · rintro (⟨x, hx, hn⟩ | ⟨a, ha, rfl⟩)
    · exact .extension hx hn
    · exact .administration ha
  · rintro (⟨hx, hn⟩ | ha)
    · exact .inl ⟨_, hx, hn⟩
    · exact .inr ⟨_, ha, rfl⟩

theorem Shell.mem_sites_iff {s : Shell} : n ∈ s.sites ↔ s.HasSite n := by
  simp only [sites, List.mem_append, Identity.mem_sites_iff, List.mem_map, Option.mem_toList,
    List.mem_mapIdx]
  constructor
  · rintro (((hn | ⟨id, hid, rfl⟩) | ⟨r, hr, rfl⟩) | ⟨i, hi, rfl⟩)
    · exact .identity hn
    · exact .assetId hid
    · exact .derivedFrom hr
    · exact .submodel (List.getElem?_eq_getElem hi)
  · intro h
    cases h with
    | identity hn => exact .inl (.inl (.inl hn))
    | assetId hid => exact .inl (.inl (.inr ⟨_, hid, rfl⟩))
    | derivedFrom hr => exact .inl (.inr ⟨_, hr, rfl⟩)
    | submodel hr =>
      obtain ⟨hi, rfl⟩ := List.getElem?_eq_some_iff.mp hr
      exact .inr ⟨_, hi, rfl⟩

namespace Element

/-- The sites of an element itself, without those of the elements in it. -/
def ownSites : Element → List Site
  | .list head items => head.common.sites ++ .element (.list head items) :: items.mapIdx (.item head)
  | e => e.common.sites ++ [.element e]

theorem sites_eq (e : Element) : e.sites = e.ownSites ++ e.children.flatMap sites := by
  cases e <;> simp [sites, ownSites, common, children, sitesOfAll_eq]

theorem mem_sites_of_attributes {e : Element} (h : n ∈ e.common.sites) : n ∈ e.sites := by
  rw [sites_eq]
  refine List.mem_append_left _ ?_
  cases e <;> exact List.mem_append_left _ h

theorem self_mem_sites (e : Element) : .element e ∈ e.sites := by
  rw [sites_eq]
  refine List.mem_append_left _ ?_
  cases e <;> simp [ownSites]

theorem HasSite.of_attributes {e : Element} (h : n ∈ e.common.sites) : e.HasSite n := by
  rcases ElementAttributes.mem_sites_iff.mp h with ⟨x, hx, hn⟩ | rfl | ⟨q, hq, hn⟩
  · exact .extension hx hn
  · exact .semantics
  · exact .qualifier hq hn

theorem HasSite.of_ownSites {e : Element} (h : n ∈ e.ownSites) : e.HasSite n := by
  cases e with
  | list head items =>
    simp only [ownSites, List.mem_append, List.mem_cons, List.mem_mapIdx] at h
    rcases h with h | rfl | ⟨i, hi, rfl⟩
    · exact .of_attributes h
    · exact .kind
    · exact .item (List.getElem?_eq_getElem hi)
  | _ =>
    rcases List.mem_append.mp h with h | h
    · exact .of_attributes h
    · rw [List.mem_singleton.mp h]
      exact .kind

mutual

theorem HasSite.of_sites (e : Element) (h : n ∈ e.sites) : e.HasSite n := by
  have hSplit : n ∈ e.ownSites ∨ n ∈ sitesOfAll e.children := by
    rw [sites_eq, ← sitesOfAll_eq] at h
    exact List.mem_append.mp h
  rcases hSplit with hOwn | hBelow
  · exact .of_ownSites hOwn
  · cases e with
    | collection head items =>
      obtain ⟨c, hc, hn⟩ := HasSite.of_sitesOfAll items hBelow
      exact .child hc hn
    | list head items =>
      obtain ⟨c, hc, hn⟩ := HasSite.of_sitesOfAll items hBelow
      exact .child hc hn
    | _ => simp [children, sitesOfAll] at hBelow

theorem HasSite.of_sitesOfAll (items : List Element) (h : n ∈ sitesOfAll items) :
    ∃ c ∈ items, c.HasSite n := by
  cases items with
  | nil => simp [sitesOfAll] at h
  | cons c r =>
    rcases List.mem_append.mp h with h | h
    · exact ⟨c, List.mem_cons_self, HasSite.of_sites c h⟩
    · obtain ⟨d, hd, hn⟩ := HasSite.of_sitesOfAll r h
      exact ⟨d, List.mem_cons_of_mem c hd, hn⟩

end

theorem HasSite.mem_sites {e : Element} (h : e.HasSite n) : n ∈ e.sites := by
  induction h with
  | extension hx hn =>
    exact mem_sites_of_attributes (ElementAttributes.mem_sites_iff.mpr (.inl ⟨_, hx, hn⟩))
  | semantics => exact mem_sites_of_attributes (ElementAttributes.mem_sites_iff.mpr (.inr (.inl rfl)))
  | qualifier hq hn =>
    exact mem_sites_of_attributes (ElementAttributes.mem_sites_iff.mpr (.inr (.inr ⟨_, hq, hn⟩)))
  | kind => exact self_mem_sites _
  | item he =>
    obtain ⟨hi, rfl⟩ := List.getElem?_eq_some_iff.mp he
    simp only [sites, List.mem_append, List.mem_cons, List.mem_mapIdx]
    exact .inr (.inr (.inl ⟨_, hi, rfl⟩))
  | child hc hn ih =>
    rw [sites_eq]
    exact List.mem_append_right _ (List.mem_flatMap.mpr ⟨_, hc, ih⟩)

theorem mem_sites_iff {e : Element} : n ∈ e.sites ↔ e.HasSite n :=
  ⟨HasSite.of_sites e, HasSite.mem_sites⟩

end Element

theorem Submodel.mem_sites_iff {s : Submodel} : n ∈ s.sites ↔ s.HasSite n := by
  simp only [sites, List.mem_append, List.mem_cons, Identity.mem_sites_iff, List.mem_flatMap,
    Qualifier.mem_sites_iff, Element.mem_sites_iff]
  constructor
  · rintro (hn | rfl | ⟨q, hq, hn⟩ | ⟨e, he, hn⟩)
    · exact .identity hn
    · exact .semantics
    · exact .qualifier hq hn
    · exact .element he hn
  · intro h
    cases h with
    | identity hn => exact .inl hn
    | semantics => exact .inr (.inl rfl)
    | qualifier hq hn => exact .inr (.inr (.inl ⟨_, hq, hn⟩))
    | element he hn => exact .inr (.inr (.inr ⟨_, he, hn⟩))

namespace Entity

theorem mem_sites_iff {x : Entity} : n ∈ x.sites ↔ x.HasSite n := by
  cases x with
  | element e => exact Element.mem_sites_iff
  | shell s => exact Shell.mem_sites_iff
  | submodel s => exact Submodel.mem_sites_iff
  | conceptDescription c => exact Identity.mem_sites_iff

end Entity

end AssetShell
