/-
  Streams of bytes that are cut.

  A stream may be cut behind any line feed: its lines are then those of the front and those of the
  rest (`Console.lines_append`), because no line reaches across the cut.  Every cut of the lines is
  made in this way (`Console.exists_cut`), so also the one before the first line that is no text
  (`Console.exists_textFront`).  Bytes that no line feed ends are a line as well, so a cut elsewhere
  would make two lines of one.
-/
import Mathlib.Data.List.Basic
import Reckoner.Console.Lines
import Reckoner.Proofs.Outcome

namespace Reckoner.Console

/-- The last line of a stream, if there is one, has its ending. -/
def Complete (bytes : List UInt8) : Prop :=
  bytes = [] ∨ bytes.getLast? = some lineFeed

/-! ## Lines of a cut stream -/

theorem lines_of_not_mem {bytes : List UInt8} (h : lineFeed ∉ bytes) :
    lines bytes = [bytes].filter (· ≠ []) := by
  rw [lines, Text.pieces_of_not_mem h]
  rfl

/-- A line feed ends the line before it. -/
theorem lines_append_lineFeed (front rest : List UInt8) :
    lines (front ++ lineFeed :: rest) =
      (Text.pieces lineFeed front).map withoutReturn ++ lines rest := by
  have hne : Text.pieces lineFeed rest ≠ [] := List.cons_ne_nil _ _
  rw [lines, Text.pieces_append, lines]
  simp only [List.dropLast_append_of_ne_nil hne, List.getLast?_append_of_ne_nil _ hne,
    List.map_append, List.append_assoc]

/-- **Behind a line feed, other lines begin.** -/
theorem lines_append {front : List UInt8} (h : Complete front) (rest : List UInt8) :
    lines (front ++ rest) = lines front ++ lines rest := by
  rcases h with rfl | hlast
  · rfl
  · obtain ⟨before, rfl⟩ := List.getLast?_eq_some_iff.1 hlast
    have hfront : lines (before ++ [lineFeed]) =
        (Text.pieces lineFeed before).map withoutReturn := by
      rw [lines_append_lineFeed]
      exact List.append_nil _
    rw [hfront, List.append_assoc, List.singleton_append, lines_append_lineFeed]

theorem lines_cons {line : List UInt8} (h : lineFeed ∉ line) (rest : List UInt8) :
    lines (line ++ lineFeed :: rest) = withoutReturn line :: lines rest := by
  rw [lines_append_lineFeed, Text.pieces_of_not_mem h]
  rfl

theorem Complete.append {front rest : List UInt8} (h : Complete front) (h' : Complete rest) :
    Complete (front ++ rest) := by
  rcases h' with rfl | hlast
  · rwa [List.append_nil]
  · exact .inr (by rw [List.getLast?_append, hlast]; rfl)

theorem complete_line (line : List UInt8) : Complete (line ++ [lineFeed]) :=
  .inr List.getLast?_concat

/-- **Where lines can be cut, their stream can be cut.** -/
theorem exists_cut {bytes : List UInt8} {before behind : List (List UInt8)}
    (h : lines bytes = before ++ behind) (hne : behind ≠ []) :
    ∃ front rest, bytes = front ++ rest ∧ Complete front ∧ lines front = before ∧
      lines rest = behind := by
  induction before generalizing bytes with
  | nil => exact ⟨[], bytes, rfl, .inl rfl, rfl, h⟩
  | cons first before ih =>
    by_cases hfeed : lineFeed ∈ bytes
    · obtain ⟨line, bytes, rfl, hline⟩ := List.eq_append_cons_of_mem hfeed
      rw [lines_cons hline, List.cons_append, List.cons.injEq] at h
      obtain ⟨hfirst, hrest⟩ := h
      obtain ⟨front, rest, rfl, hcomplete, hfront, hrest⟩ := ih hrest
      refine ⟨(line ++ [lineFeed]) ++ front, rest, by simp, (complete_line line).append hcomplete,
        ?_, hrest⟩
      rw [List.append_assoc, List.singleton_append, lines_cons hline, hfirst, hfront]
    · -- without a line feed there are no two lines
      have hlength : (lines bytes).length ≤ 1 := by
        rw [lines_of_not_mem hfeed]
        exact List.length_filter_le _ _
      have hbehind : 0 < behind.length := List.length_pos_iff.2 hne
      rw [h, List.cons_append, List.length_cons, List.length_append] at hlength
      omega

/-! ## Lines that are text -/

/-- Lines all of which are text have texts. -/
theorem exists_texts {lines : List (List UInt8)} (h : ∀ line ∈ lines, ¬ decode? line = none) :
    ∃ texts : List String, lines.map decode? = texts.map some := by
  induction lines with
  | nil => exact ⟨[], rfl⟩
  | cons line rest ih =>
    obtain ⟨text, htext⟩ := Option.ne_none_iff_exists'.1 (h line List.mem_cons_self)
    obtain ⟨texts, htexts⟩ := ih fun line hline => h line (List.mem_cons_of_mem _ hline)
    exact ⟨text :: texts, by rw [List.map_cons, List.map_cons, htext, htexts]⟩

/-- The front of a stream up to the first line that is no text, with the texts of its lines. -/
structure TextFront (bytes front : List UInt8) (texts : List String) : Prop where
  /-- The front is cut behind a line. -/
  complete : Complete front
  /-- Its lines are text. -/
  texts : (lines front).map decode? = texts.map some
  /-- The line behind it is not. -/
  bad : ∃ behind bad more, bytes = front ++ behind ∧ lines behind = bad :: more ∧
    decode? bad = none

/-- A stream with a line that is no text has a first one. -/
theorem exists_textFront {bytes : List UInt8} (h : ∃ line ∈ lines bytes, decode? line = none) :
    ∃ front texts, TextFront bytes front texts := by
  obtain ⟨before, bad, ⟨more, hlines⟩, hbad, hbefore⟩ := Outcome.exists_first h
  rw [List.append_assoc, List.singleton_append] at hlines
  obtain ⟨front, behind, rfl, hfront, rfl, hbehind⟩ :=
    exists_cut hlines.symm (List.cons_ne_nil bad more)
  obtain ⟨texts, htexts⟩ := exists_texts hbefore
  exact ⟨front, texts, hfront, htexts, behind, bad, more, rfl, hbehind, hbad⟩

end Reckoner.Console
