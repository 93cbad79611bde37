import AssetShell.CommandLine.Command
import AssetShell.Proofs.Reference.KeyText

/-!
# Keys among the arguments

The command for a reference is given a kind and keys, each behind its own option. The arguments that
spell them are read as that kind and those keys, in their order, whatever the values of the keys.
-/

namespace AssetShell

/-- Only an argument with a dash in front is an option. -/
theorem Argument.ofText_plain {s : String} {c : Char} {r : List Char} (hHead : s.toList = c :: r)
    (hDash : c ≠ '-') : ofText s = .plain s := by
  rw [ofText, hHead]
  split
  · rename_i h
    exact absurd (List.cons.inj h).1 hDash
  · rename_i h
    exact absurd (List.cons.inj h).1 hDash
  · rename_i h
    exact absurd (List.cons.inj h).1 hDash
  · rfl

theorem Key.ofText_plain (k : Key) : Argument.ofText k.text = .plain k.text := by
  obtain ⟨c, r, hName⟩ : ∃ c r, k.type.name.toList = c :: r := by
    cases k.type <;> exact ⟨_, _, rfl⟩
  have hHead : k.text.toList = c :: (r ++ '=' :: k.value.toList) := by
    rw [toList_text, hName]
    rfl
  have hAlpha : c.isAlpha = true :=
    KeyType.isAlpha_of_mem_name c (hName ▸ List.mem_cons_self)
  refine Argument.ofText_plain hHead ?_
  rintro rfl
  cases hAlpha

/-! ## Gathering -/

namespace Gathered

variable {known : List CommandOption} {o : CommandOption} {flag name value : String}
  {rest : List String}

/-- An option that takes a value takes the next argument. -/
theorem gather_option (hFlag : Argument.ofText flag = .long name none)
    (hKnown : known.find? (·.isNamed (.long name none)) = some o) (hSwitch : o.isSwitch = false)
    (hValue : Argument.ofText value = .plain value) :
    gather known none (flag :: value :: rest) =
      (gather known none rest).map (withOption o.name value) := by
  simp only [gather, hFlag, hKnown, hSwitch, Argument.value?, hValue]

variable {options : Named String} {plain : List String}

theorem values_cons (name value other : String) :
    values ⟨(name, value) :: options, plain⟩ other =
      if name = other then value :: values ⟨options, plain⟩ other
      else values ⟨options, plain⟩ other := by
  simp only [values, List.filter_cons, decide_eq_true_eq]
  split <;> rfl

theorem values_repeated (name : String) (texts : List String) (other : String) :
    values ⟨texts.map fun text => (name, text), plain⟩ other =
      if name = other then texts else [] := by
  induction texts with
  | nil => exact (ite_self _).symm
  | cons text r ih =>
    rw [List.map_cons, values_cons, ih]
    split <;> rfl

end Gathered

namespace Command

/-- The arguments that ask for a reference of a kind with some keys. -/
def referenceArguments (kind : ReferenceKind) (keys : List Key) : List String :=
  "reference" :: "--kind" :: kind.name :: keys.flatMap fun k => ["--key", k.text]

theorem gather_keys (keys : List Key) :
    Gathered.gather (settingsOption :: referenceForm.options) none
        (keys.flatMap fun k => ["--key", k.text]) =
      some ⟨(keys.map Key.text).map fun text => (keyOption.name, text), []⟩ := by
  induction keys with
  | nil => rfl
  | cons k r ih =>
    have hFlag : Argument.ofText "--key" = .long "key" none := by decide
    rw [List.flatMap_cons]
    change Gathered.gather _ none ("--key" :: k.text :: r.flatMap _) = _
    rw [Gathered.gather_option (o := keyOption) hFlag rfl rfl k.ofText_plain, ih]
    rfl

/-- The options that ask for a reference. -/
def referenceOptions (kind : ReferenceKind) (keys : List Key) : Gathered :=
  ⟨(kindOption.name, kind.name) :: (keys.map Key.text).map fun text => (keyOption.name, text), []⟩

theorem gather_referenceArguments (kind : ReferenceKind) (keys : List Key) :
    Gathered.gather (settingsOption :: referenceForm.options) none
        ("--kind" :: kind.name :: keys.flatMap fun k => ["--key", k.text]) =
      some (referenceOptions kind keys) := by
  have hFlag : Argument.ofText "--kind" = .long "kind" none := by decide
  have hKind : Argument.ofText kind.name = .plain kind.name := by cases kind <;> decide
  rw [Gathered.gather_option (o := kindOption) hFlag rfl rfl hKind, gather_keys]
  rfl

theorem mapM_ofText_text (keys : List Key) :
    (keys.map Key.text).mapM (fun s => toOption (Key.ofText s)) = some keys := by
  induction keys with
  | nil => rfl
  | cons k r ih =>
    rw [List.map_cons, List.mapM_cons, Key.ofText_text, ih]
    rfl

section ReferenceOptions

variable (kind : ReferenceKind) (keys : List Key)

theorem values_kind : (referenceOptions kind keys).values kindOption.name = [kind.name] := by
  rw [referenceOptions, Gathered.values_cons, Gathered.values_repeated, if_pos rfl,
    if_neg (by decide)]

theorem values_key :
    (referenceOptions kind keys).values keyOption.name = keys.map Key.text := by
  rw [referenceOptions, Gathered.values_cons, Gathered.values_repeated, if_neg (by decide),
    if_pos rfl]

theorem values_settings : (referenceOptions kind keys).values settingsOption.name = [] := by
  rw [referenceOptions, Gathered.values_cons, Gathered.values_repeated, if_neg (by decide),
    if_neg (by decide)]

theorem referenceForm_read? {keys : List Key} (hKeys : keys ≠ []) :
    referenceForm.read? (referenceOptions kind keys) = some (.checkReference kind keys) := by
  have hPlain : (referenceOptions kind keys).plain = [] := rfl
  have hName : toOption (ReferenceKind.ofName kind.name) = some kind := by cases kind <;> rfl
  have hSome : keys.isEmpty = false := by simpa using hKeys
  simp only [referenceForm, hPlain, Gathered.value?, values_kind, values_key, List.head?_cons,
    Option.bind_eq_bind, Option.bind_some, hName, mapM_ofText_text, hSome]
  rfl

theorem ofArguments?_reference {keys : List Key} (hKeys : keys ≠ []) :
    Invocation.ofArguments? (referenceArguments kind keys) =
      some ⟨none, .checkReference kind keys⟩ := by
  have hSplit : Invocation.split? (referenceArguments kind keys) = some (none, "reference",
      "--kind" :: kind.name :: keys.flatMap fun k => ["--key", k.text]) := by
    have hPlain : Argument.ofText "reference" = .plain "reference" := by decide
    simp only [referenceArguments, Invocation.split?, hPlain, CommandOption.isNamed]
    rfl
  have hForm : forms.get? "reference" = some referenceForm := rfl
  have hWell : (referenceOptions kind keys).isRepeatedWell
      (settingsOption :: referenceForm.options) = true := by
    simp only [Gathered.isRepeatedWell, referenceForm, List.all_cons, List.all_nil, values_kind,
      values_settings]
    rfl
  have hGathered : Gathered.ofArguments? (settingsOption :: referenceForm.options)
      ("--kind" :: kind.name :: keys.flatMap fun k => ["--key", k.text]) =
      some (referenceOptions kind keys) := by
    rw [Gathered.ofArguments?, gather_referenceArguments]
    exact if_pos hWell
  rw [Invocation.ofArguments?, hSplit]
  simp only [Option.bind_eq_bind, Option.bind_some, optionalPath?, hForm, hGathered,
    Gathered.value?, values_settings, List.head?_nil, referenceForm_read? kind hKeys]
  rfl

end ReferenceOptions

end Command

end AssetShell
