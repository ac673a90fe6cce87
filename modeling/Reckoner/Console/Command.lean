/-
  Commands: what a line typed in an interactive run asks for.

  A few words are commands; every other line is an expression.  Blank characters around a line do
  not count.

  The main statement is `parse_eq_iff`: a line asks for something exactly when it is a word that
  stands for this, with nothing but blank characters around it.
-/
import Reckoner.Text.Blank

namespace Reckoner

/-- What a line asks for. -/
inductive Command where
  /-- To leave. -/
  | exit
  /-- To see how expressions are written. -/
  | help
  /-- To see the terms of use. -/
  | licence
  /-- Nothing. -/
  | blank
  /-- To evaluate an expression. -/
  | calculate (expression : String)
deriving DecidableEq, Repr

namespace Command

/-- What a line without blank characters around it asks for. -/
def ofTrimmed (line : String) : Command :=
  if line ∈ [":q", "exit", "exit()", "quit"] then .exit
  else if line = "help" then .help
  else if line ∈ ["licence", "license"] then .licence
  else if line = "" then .blank
  else .calculate line

/-- What a line asks for. -/
def parse (line : String) : Command :=
  ofTrimmed (Text.trim line)

/-! ## The words -/

/-- The words that are not expressions. -/
def reserved : List String :=
  [":q", "exit", "exit()", "quit", "help", "licence", "license", ""]

/-- A word stands for what it asks for. -/
inductive StandsFor : String → Command → Prop
  | colon : StandsFor ":q" .exit
  | exit : StandsFor "exit" .exit
  | call : StandsFor "exit()" .exit
  | quit : StandsFor "quit" .exit
  | help : StandsFor "help" .help
  | licence : StandsFor "licence" .licence
  | license : StandsFor "license" .licence
  | nothing : StandsFor "" .blank
  | expression {word : String} (free : word ∉ reserved) : StandsFor word (.calculate word)

theorem ofTrimmed_of_not_mem {word : String} (h : word ∉ reserved) :
    ofTrimmed word = .calculate word := by
  simp only [reserved, List.mem_cons, List.not_mem_nil, or_false, not_or] at h
  simp [ofTrimmed, h]

/-- A word asks for what it stands for. -/
theorem ofTrimmed_eq_iff {word : String} {command : Command} :
    ofTrimmed word = command ↔ StandsFor word command := by
  constructor
  · rintro rfl
    by_cases hreserved : word ∈ reserved
    · simp only [reserved, List.mem_cons, List.not_mem_nil, or_false] at hreserved
      rcases hreserved with rfl | rfl | rfl | rfl | rfl | rfl | rfl | rfl <;> constructor
    · rw [ofTrimmed_of_not_mem hreserved]
      exact .expression hreserved
  · intro h
    cases h with
    | colon | exit | call | quit | help | licence | license | nothing => decide
    | expression hfree => exact ofTrimmed_of_not_mem hfree

/-- **What a line asks for** is what the word between its blank ends stands for. -/
theorem parse_eq_iff {line : String} {command : Command} :
    parse line = command ↔
      ∃ word : String, Text.Pads word.toList line.toList ∧ Text.IsTrimmed word.toList ∧
        StandsFor word command := by
  constructor
  · intro h
    obtain ⟨hpads, htrimmed⟩ := Text.trim_eq_iff.1 (Eq.refl (Text.trim line))
    exact ⟨Text.trim line, hpads, htrimmed, ofTrimmed_eq_iff.1 h⟩
  · rintro ⟨word, hpads, htrimmed, hword⟩
    rw [parse, Text.trim_eq_iff.2 ⟨hpads, htrimmed⟩]
    exact ofTrimmed_eq_iff.2 hword

end Command

end Reckoner
