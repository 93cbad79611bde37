import AssetShell.CommandLine.Run
import AssetShell.Proofs.CommandLine.KeyArguments
import AssetShell.Proofs.Interchange.TextDecoding
import AssetShell.Proofs.Settings.Source

/-!
# References on the command line and in a text

The command for a reference and the decoder of references check the same chains. Both accept a chain
with the same keys in the same order, and where they refuse one they give the same reason.
-/

namespace AssetShell

namespace Run

open Reference (Draft)

variable {around : Surroundings} {s : Settings} {kind : ReferenceKind} {keys : List Key}

theorem ofArguments_reference (hLoad : Settings.load? around none = some s) (hKeys : keys ≠ []) :
    ofArguments around (Command.referenceArguments kind keys) =
      .finished (reference kind keys) := by
  rw [ofArguments, Command.ofArguments?_reference kind hKeys]
  simp only [Invocation.run, hLoad]
  rfl

/-- What is printed for a chain, by the outcome of its check. -/
theorem reference_of_check (d : Draft) :
    (∃ r, d.check = .ok r ∧ r.kind = d.kind ∧ r.keys = d.keys ∧
        reference d.kind d.keys = done ("✅ " ++ r.display ++ "\n")) ∨
      ∃ f, d.check = .error (.chain f) ∧ reference d.kind d.keys =
        refused ("❌ " ++ Reference.displayChain d.kind d.keys ++ "\n   " ++ f.message ++ "\n") := by
  rw [reference, Draft.check]
  cases hChain : Reference.ofKeys d.kind d.keys with
  | error f => exact .inr ⟨f, rfl, rfl⟩
  | ok r =>
    obtain ⟨hKind, hKeys⟩ := Reference.ofKeys_eq_ok_iff.mp hChain
    refine .inl ⟨r, rfl, hKind, hKeys, ?_⟩
    rw [Reference.display, hKind, hKeys]

/-- The command accepts a chain exactly if the object with its kind and keys is decoded, in whatever
order its members stand and as a value or as a text. It shows the reference that is decoded, or the
reason that the fault of decoding gives. -/
theorem reference_agrees_with_decoding (kind : ReferenceKind)
    (hLoad : Settings.load? around none = some s) (hKeys : keys ≠ []) :
    let source := Draft.toJson ⟨kind, keys⟩
    ∃ output decoded,
      ofArguments around (Command.referenceArguments kind keys) = .finished output ∧
      (∀ held v, v.Alike source → Reference.decoder.value held v = decoded) ∧
      (∀ text v, Json.rawOfText? text = some v → v.Alike source →
        Reference.decoder.ofText text = decoded) ∧
      (∀ format : OutputFormat, Reference.decoder.ofText (format.render source) = decoded) ∧
      (output.exitCode = 0 ↔ ∃ r, decoded = .ok r) ∧
      (∀ r, decoded = .ok r →
        r.kind = kind ∧ r.keys = keys ∧ output.out = "✅ " ++ r.display ++ "\n") ∧
      ∀ fault, decoded = .error fault → ∃ f : ChainFault,
        (Fault.decode fault).message? = some ("JSON error: " ++ f.message) ∧
        output.out =
          "❌ " ++ Reference.displayChain kind keys ++ "\n   " ++ f.message ++ "\n" := by
  intro source
  obtain ⟨hValue, hText, hRendered⟩ := Reference.decode_draft ⟨kind, keys⟩
  refine ⟨_, _, ofArguments_reference hLoad hKeys, hValue, hText, hRendered, ?_⟩
  rcases reference_of_check ⟨kind, keys⟩ with
    ⟨r, hCheck, hSameKind, hSameKeys, hOutput⟩ | ⟨f, hCheck, hOutput⟩
  · rw [hCheck, hOutput]
    refine ⟨iff_of_true rfl ⟨r, rfl⟩, fun r' h => ?_, fun fault h => ?_⟩
    · cases h
      exact ⟨hSameKind, hSameKeys, rfl⟩
    · cases h
  · rw [hCheck, hOutput]
    refine ⟨iff_of_false Nat.one_ne_zero (fun ⟨r, h⟩ => ?_), fun r h => ?_, fun fault h => ?_⟩
    · cases h
    · cases h
    · cases h
      exact ⟨f, rfl, rfl⟩

/-- Values with an equals sign and with white space at their ends are kept as they are. -/
theorem reference_agrees_with_decoding_of_spaced_values :
    let around : Surroundings := ⟨fun _ => .error .notFound, none, [], id⟩
    ∃ output r, ofArguments around
        ["reference", "--kind", "ModelReference", "--key", "Submodel=a=b ", "--key", "Property= x"] =
        .finished output ∧
      Reference.decoder.ofText (OutputFormat.pretty.render
        (Draft.toJson ⟨.model, [⟨.submodel, "a=b "⟩, ⟨.property, " x"⟩]⟩)) = .ok r ∧
      output.out = "✅ " ++ r.display ++ "\n" := by
  intro around
  have hLoad : Settings.load? around none = some {} :=
    Settings.load?_of_nothing (fun _ _ _ _ _ => nofun) rfl rfl
  have hKeys : ([⟨.submodel, "a=b "⟩, ⟨.property, " x"⟩] : List Key) ≠ [] := List.cons_ne_nil _ _
  obtain ⟨output, decoded, hRun, hValue, -, hText, -, hAccepted, -⟩ :=
    reference_agrees_with_decoding .model hLoad hKeys
  have hDecoded : decoded = .ok ⟨.model, [⟨.submodel, "a=b "⟩, ⟨.property, " x"⟩], by decide⟩ :=
    (hValue .parsed _ (.refl (Draft.tidy_toJson _).distinct)).symm.trans (by rfl)
  refine ⟨output, _, hRun, (hText .pretty).trans hDecoded, ?_⟩
  exact (hAccepted _ hDecoded).2.2

end Run

end AssetShell
