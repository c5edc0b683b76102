import MiniJava.CommandLine.Run
import MiniJava.Proofs.Relocation

/-!
# Runs over several files

A run numbers its files, and the numbers go into all tokens, trees and errors. What is printed about
a file is made of the table, or of the wording, the code and the position of the error, and none of
these has the number in it (`outcome_number`). So a run over some files prints what the runs over
each of them alone print, one after the other.
-/

namespace MiniJava

namespace CommandLine

variable (output : Output) (json : Bool)

/-- What is printed about a text does not depend on the number of its file. -/
theorem textOutcome_number (number number' : Nat) (name text : String) :
    textOutcome output json number' name text = textOutcome output json number name text := by
  unfold textOutcome
  rw [analyzeText_inFile text number number']
  cases analyzeText text number with
  | ok t => rfl
  | error e =>
    -- a diagnostic takes its line and column from the start of the span, not from its file
    cases e <;> rfl

theorem outcome_number (number number' : Nat) (input : Input) :
    outcome output json number' input = outcome output json number input := by
  unfold outcome
  cases input.content with
  | ok text => exact textOutcome_number output json number number' input.name text
  | error failure => rfl

/-- The outcomes of a run are those of its files, each as the first one. -/
theorem outcomes_eq (inputs : List Input) :
    (inputs.zipIdx.map fun (input, number) => outcome output json number input) =
      inputs.map (outcome output json 0) := by
  have hnumber : (fun (input, number) => outcome output json number input) =
      outcome output json 0 ∘ Prod.fst := by
    funext ⟨input, number⟩
    exact outcome_number output json 0 number input
  rw [hnumber, ← List.map_map, List.zipIdx_map_fst]

theorem runFiles_eq (inputs : List Input) :
    runFiles output json inputs =
      ⟨String.join (inputs.map fun input => (outcome output json 0 input).stdout),
        String.join (inputs.map fun input => (outcome output json 0 input).stderr),
        if ∀ input ∈ inputs, (outcome output json 0 input).passed = true then 0 else 1⟩ := by
  unfold runFiles
  dsimp only
  rw [outcomes_eq, List.map_map, List.map_map]
  simp only [List.all_map, List.all_eq_true, Function.comp_apply]
  rfl

theorem runFiles_singleton (input : Input) :
    runFiles output json [input] =
      ⟨(outcome output json 0 input).stdout, (outcome output json 0 input).stderr,
        if (outcome output json 0 input).passed = true then 0 else 1⟩ := by
  rw [runFiles_eq]
  simp only [List.map_singleton, String.join_cons, String.join_nil, String.append_empty,
    List.forall_mem_singleton]

/-- The program ends with zero if and only if each file passes. -/
theorem exitCode_runFiles_eq_zero_iff (inputs : List Input) :
    (runFiles output json inputs).exitCode = 0 ↔
      ∀ input ∈ inputs, (runFiles output json [input]).exitCode = 0 := by
  have hcode (p : Prop) [Decidable p] : (if p then (0 : UInt32) else 1) = 0 ↔ p := by
    by_cases h : p
    · rw [if_pos h]
      exact iff_of_true rfl h
    · rw [if_neg h]
      exact iff_of_false (by decide) h
  rw [runFiles_eq]
  simp only [runFiles_singleton, hcode]

/-- **Files are analysed independently.** The number of a file does not show in what is printed
about it. So a run over some files prints, on either stream, what the runs over each of them alone
print, one after the other, and passes iff each of those passes; and a run over two lists of files
one after the other is made of the runs over the two lists in the same way. -/
theorem files_independent (output : Output) (json : Bool) :
    (∀ number input, outcome output json number input = outcome output json 0 input) ∧
      (∀ inputs,
        (runFiles output json inputs).stdout =
          String.join (inputs.map fun input => (runFiles output json [input]).stdout) ∧
        (runFiles output json inputs).stderr =
          String.join (inputs.map fun input => (runFiles output json [input]).stderr) ∧
        ((runFiles output json inputs).exitCode = 0 ↔
          ∀ input ∈ inputs, (runFiles output json [input]).exitCode = 0)) ∧
      ∀ xs ys,
        (runFiles output json (xs ++ ys)).stdout =
          (runFiles output json xs).stdout ++ (runFiles output json ys).stdout ∧
        (runFiles output json (xs ++ ys)).stderr =
          (runFiles output json xs).stderr ++ (runFiles output json ys).stderr ∧
        ((runFiles output json (xs ++ ys)).exitCode = 0 ↔
          (runFiles output json xs).exitCode = 0 ∧ (runFiles output json ys).exitCode = 0) := by
  refine ⟨fun number input => outcome_number output json 0 number input,
    fun inputs => ⟨?_, ?_, exitCode_runFiles_eq_zero_iff output json inputs⟩,
    fun xs ys => ⟨?_, ?_, ?_⟩⟩
  · rw [runFiles_eq]
    simp only [runFiles_singleton]
  · rw [runFiles_eq]
    simp only [runFiles_singleton]
  · simp only [runFiles_eq, List.map_append, String.join_append]
  · simp only [runFiles_eq, List.map_append, String.join_append]
  · rw [exitCode_runFiles_eq_zero_iff, exitCode_runFiles_eq_zero_iff output json xs,
      exitCode_runFiles_eq_zero_iff output json ys, List.forall_mem_append]

end CommandLine

end MiniJava
