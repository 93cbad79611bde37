import AssetShell.Files.Walk
import AssetShell.Proofs.Named
import Mathlib.Data.List.Basic
import Mathlib.Data.List.Permutation

/-!
# Walks through a tree

A walk that leaves out ignored places, folders with all that they hold, meets the same in the same order
as a walk through everything that is sorted out afterwards, as long as all that stands under an ignored
place is ignored too. A walk through everything meets all that the tree shows.
-/

namespace AssetShell

namespace Entry

theorem induction_on_children {P : Entry → Prop} (file : ∀ content, P (.file content))
    (folder : ∀ children : List (String × Entry), (∀ child ∈ children, P child.2) →
      P (.folder children))
    (closedFile : ∀ fault, P (.closedFile fault)) (closedFolder : ∀ fault, P (.closedFolder fault))
    (e : Entry) : P e := by
  refine Entry.rec (motive_1 := P) (motive_2 := fun children => ∀ child ∈ children, P child.2)
    (motive_3 := fun child => P child.2) file folder closedFile closedFolder ?_ ?_ ?_ e
  · exact fun child hChild => absurd hChild List.not_mem_nil
  · exact fun child r hChild hr => List.forall_mem_cons.mpr ⟨hChild, hr⟩
  · exact fun _ _ h => h

/-! ## What a tree shows -/

/-- This is seen at the end of the names. Of a closed folder one sees that it is there, and that it is
closed. -/
inductive Shows : Entry → List String → Sight → Prop
  | file {content : ByteArray} : Shows (.file content) [] (.file (.ok content))
  | closedFile {fault : FileFault} : Shows (.closedFile fault) [] (.file (.error fault))
  | folder {children : List (String × Entry)} : Shows (.folder children) [] .folder
  | closedFolder {fault : FileFault} : Shows (.closedFolder fault) [] .folder
  | fault {fault : FileFault} : Shows (.closedFolder fault) [] (.fault fault)
  | inside {children : List (String × Entry)} {name : String} {e : Entry} {path : List String}
    {sight : Sight} (hChild : (name, e) ∈ children) (hSight : Shows e path sight) :
    Shows (.folder children) (name :: path) sight

/-- A file stands at the end of the names; reading it gives this. -/
def HasFile (e : Entry) (path : List String) (content : Except FileFault ByteArray) : Prop :=
  e.Shows path (.file content)

/-- A folder stands at the end of the names whose entries cannot be listed. -/
def HasClosedFolder (e : Entry) (path : List String) (fault : FileFault) : Prop :=
  e.Shows path (.fault fault)

/-- No folder has two entries of one name. -/
inductive DistinctNames : Entry → Prop
  | file {content : ByteArray} : DistinctNames (.file content)
  | closedFile {fault : FileFault} : DistinctNames (.closedFile fault)
  | closedFolder {fault : FileFault} : DistinctNames (.closedFolder fault)
  | folder {children : List (String × Entry)} (hNames : (children.map Prod.fst).Nodup)
    (hEach : ∀ child ∈ children, DistinctNames child.2) : DistinctNames (.folder children)

variable {e : Entry} {path : List String} {sight other : Sight} {f : Found}
  {children : List (String × Entry)}

theorem shows_folder_iff :
    (Entry.folder children).Shows path sight ↔ path = [] ∧ sight = .folder ∨
      ∃ child ∈ children, ∃ rest, path = child.1 :: rest ∧ child.2.Shows rest sight := by
  constructor
  · intro h
    cases h with
    | folder => exact .inl ⟨rfl, rfl⟩
    | inside hChild hSight => exact .inr ⟨_, hChild, _, rfl, hSight⟩
  · rintro (⟨rfl, rfl⟩ | ⟨⟨name, e⟩, hChild, rest, rfl, hSight⟩)
    · exact .folder
    · exact .inside hChild hSight

/-- At one place at most one thing is seen that is no folder. -/
theorem Shows.unique (h : e.Shows path sight) (hOther : e.Shows path other)
    (hSight : sight ≠ .folder) (hOtherSight : other ≠ .folder) (hDistinct : e.DistinctNames) :
    sight = other := by
  induction h with
  | folder => exact absurd rfl hSight
  | closedFolder => exact absurd rfl hSight
  | file =>
    cases hOther
    rfl
  | closedFile =>
    cases hOther
    rfl
  | fault =>
    cases hOther with
    | closedFolder => exact absurd rfl hOtherSight
    | fault => rfl
  | inside hChild _ ih =>
    cases hDistinct with
    | folder hNames hEach =>
      cases hOther with
      | inside hAgain hInner =>
        cases congrArg Prod.snd (List.inj_on_of_nodup_map hNames hChild hAgain rfl)
        exact ih hInner hSight (hEach _ hChild)

theorem HasFile.unique {content again : Except FileFault ByteArray} (h : e.HasFile path content)
    (hAgain : e.HasFile path again) (hDistinct : e.DistinctNames) : content = again := by
  have hSame := Shows.unique h hAgain Sight.noConfusion Sight.noConfusion hDistinct
  exact Sight.file.inj hSame

theorem HasFile.not_hasClosedFolder {content : Except FileFault ByteArray} {fault : FileFault}
    (h : e.HasFile path content) (hDistinct : e.DistinctNames) : ¬ e.HasClosedFolder path fault := by
  intro hClosed
  have hSame := Shows.unique h hClosed Sight.noConfusion Sight.noConfusion hDistinct
  cases hSame

/-! ## What a walk meets -/

variable {ignored : List String → Bool} {place : List String}

/-- No place is left out. -/
def nowhere : List String → Bool := fun _ => false

/-- What is met at a child of the folder at a place. -/
def walkChild (ignored : List String → Bool) (place : List String) (child : String × Entry) :
    List Found :=
  if ignored (place ++ [child.1]) then [] else walk ignored (place ++ [child.1]) child.2

theorem walkAll_eq_map (ignored : List String → Bool) (place : List String)
    (children : List (String × Entry)) :
    walkAll ignored place children =
      children.map fun child => (child.1, walkChild ignored place child) := by
  induction children with
  | nil => rfl
  | cons child r ih =>
    rw [walkAll, ih, List.map_cons]
    rfl

/-- The order of the children apart, a walk goes to each of them. -/
theorem walk_folder_perm (ignored : List String → Bool) (place : List String)
    (children : List (String × Entry)) :
    (walk ignored place (.folder children)).Perm
      (⟨place, .folder⟩ :: children.flatMap (walkChild ignored place)) := by
  rw [walk, walkAll_eq_map]
  apply List.Perm.cons
  refine ((Named.sorted_perm _).flatMap_right Prod.snd).trans ?_
  rw [List.flatMap_map]

theorem exists_shows_of_mem_walk (h : f ∈ walk ignored place e) :
    ∃ path, e.Shows path f.sight ∧ f.path = place ++ path := by
  induction e using induction_on_children generalizing place with
  | file content =>
    obtain rfl := List.mem_singleton.mp h
    exact ⟨[], .file, (List.append_nil place).symm⟩
  | closedFile fault =>
    obtain rfl := List.mem_singleton.mp h
    exact ⟨[], .closedFile, (List.append_nil place).symm⟩
  | closedFolder fault =>
    rcases List.mem_pair.mp h with rfl | rfl
    · exact ⟨[], .closedFolder, (List.append_nil place).symm⟩
    · exact ⟨[], .fault, (List.append_nil place).symm⟩
  | folder children ih =>
    rcases List.mem_cons.mp ((walk_folder_perm ignored place children).mem_iff.mp h) with rfl | h
    · exact ⟨[], .folder, (List.append_nil place).symm⟩
    · obtain ⟨child, hChild, hf⟩ := List.mem_flatMap.mp h
      rw [walkChild] at hf
      split at hf
      · cases hf
      · obtain ⟨path, hSight, hPath⟩ := ih child hChild hf
        refine ⟨child.1 :: path, .inside hChild hSight, ?_⟩
        rw [hPath, List.append_assoc, List.singleton_append]

theorem exists_path_of_mem_walkChild {child : String × Entry} (h : f ∈ walkChild ignored place child) :
    ∃ path, f.path = place ++ child.1 :: path := by
  rw [walkChild] at h
  split at h
  · cases h
  · obtain ⟨path, -, hPath⟩ := exists_shows_of_mem_walk h
    refine ⟨path, ?_⟩
    rw [hPath, List.append_assoc, List.singleton_append]

theorem Shows.mem_walk (h : e.Shows path sight) (place : List String) :
    ⟨place ++ path, sight⟩ ∈ walk nowhere place e := by
  induction h generalizing place with
  | file =>
    rw [List.append_nil]
    exact List.mem_singleton_self _
  | closedFile =>
    rw [List.append_nil]
    exact List.mem_singleton_self _
  | folder =>
    rw [List.append_nil, walk]
    exact List.mem_cons_self
  | closedFolder =>
    rw [List.append_nil]
    exact List.mem_cons_self
  | fault =>
    rw [List.append_nil]
    exact List.mem_cons_of_mem _ (List.mem_singleton_self _)
  | @inside children name e path sight hChild _ ih =>
    apply (walk_folder_perm nowhere place children).mem_iff.mpr
    apply List.mem_cons_of_mem
    refine List.mem_flatMap.mpr ⟨(name, e), hChild, ?_⟩
    have hFound := ih (place ++ [name])
    rw [List.append_assoc, List.singleton_append] at hFound
    exact hFound

theorem mem_walk_nowhere_iff :
    f ∈ walk nowhere place e ↔ ∃ path, e.Shows path f.sight ∧ f.path = place ++ path := by
  constructor
  · exact exists_shows_of_mem_walk
  · rintro ⟨path, hSight, hPath⟩
    have hFound := hSight.mem_walk place
    rw [← hPath] at hFound
    exact hFound

/-! ## Leaving out -/

/-- What stands under an ignored place is ignored too. -/
def Downward (ignored : List String → Bool) : Prop :=
  ∀ place rest, ignored place = true → ignored (place ++ rest) = true

/-- The place at which a walk starts is not asked about. -/
def kept (ignored : List String → Bool) (start : List String) (f : Found) : Bool :=
  f.path = start || !ignored f.path

theorem walkChild_eq_filter (h : Downward ignored) {child : String × Entry}
    (hWalk : walk ignored (place ++ [child.1]) child.2 =
      (walk nowhere (place ++ [child.1]) child.2).filter (kept ignored (place ++ [child.1]))) :
    walkChild ignored place child =
      (walkChild nowhere place child).filter (kept ignored place) := by
  have hNotStart (f : Found) (hf : f ∈ walkChild nowhere place child) : f.path ≠ place := by
    obtain ⟨path, hPath⟩ := exists_path_of_mem_walkChild hf
    rw [hPath]
    exact mt List.append_right_eq_self.mp (List.cons_ne_nil child.1 path)
  cases hIgnored : ignored (place ++ [child.1]) with
  | true =>
    rw [walkChild, if_pos hIgnored]
    refine (List.filter_eq_nil_iff.mpr fun f hf => ?_).symm
    obtain ⟨path, hPath⟩ := exists_path_of_mem_walkChild hf
    have hInner : ignored f.path = true := by
      rw [hPath, ← List.singleton_append, ← List.append_assoc]
      exact h _ path hIgnored
    simp [kept, hNotStart f hf, hInner]
  | false =>
    rw [walkChild, hIgnored]
    refine hWalk.trans (List.filter_congr fun f hf => ?_)
    have hPlace : f.path ≠ place := hNotStart f hf
    rcases eq_or_ne f.path (place ++ [child.1]) with hChild | hChild
    · simp [kept, hChild, hIgnored]
    · simp [kept, hChild, hPlace]

theorem walk_eq_filter (h : Downward ignored) (place : List String) (e : Entry) :
    walk ignored place e = (walk nowhere place e).filter (kept ignored place) := by
  induction e using induction_on_children generalizing place with
  | file content => simp [walk, kept]
  | closedFile fault => simp [walk, kept]
  | closedFolder fault => simp [walk, kept]
  | folder children ih =>
    have hChildren : (children.map fun child => (child.1, walkChild ignored place child)) =
        (children.map fun child => (child.1, walkChild nowhere place child)).map
          (Prod.map id (List.filter (kept ignored place))) := by
      rw [List.map_map]
      exact List.map_congr_left fun child hChild =>
        congrArg (Prod.mk child.1) (walkChild_eq_filter h (ih child hChild _))
    have hStart : kept ignored place ⟨place, .folder⟩ = true := by simp [kept]
    rw [walk, walk, walkAll_eq_map, walkAll_eq_map, hChildren, Named.sorted_map, List.flatMap_map,
      List.filter_cons_of_pos hStart, List.filter_flatMap]
    rfl

theorem mem_walk_iff (h : Downward ignored) :
    f ∈ walk ignored [] e ↔ e.Shows f.path f.sight ∧ kept ignored [] f = true := by
  rw [walk_eq_filter h, List.mem_filter, mem_walk_nowhere_iff]
  simp only [List.nil_append, exists_eq_right']

end Entry

end AssetShell
