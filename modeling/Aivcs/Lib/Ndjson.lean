import Aivcs.Lib.Bytes

/-!
# Ndjson — objects made of newline-terminated lines

The lines of an object are the non-empty runs between newlines, so a missing newline at the end
makes no difference to them.  `appendLine` is the read-modify-write of a log kept in one object;
`lines_appendLine` says that it adds one line and touches no other.
-/

namespace Aivcs
namespace Lib

/-- The lines of an object. -/
def lines (body : Bytes) : List Bytes :=
  (body.splitOn 10).filter fun line => !line.isEmpty

/-- Terminate the last line. -/
def ensureTrailingNewline (body : Bytes) : Bytes :=
  if !body.isEmpty && body.getLast? != some 10 then body ++ [10] else body

/-- Add a line at the end. -/
def appendLine (body line : Bytes) : Bytes :=
  ensureTrailingNewline body ++ line ++ [10]

@[simp] theorem lines_nil : lines [] = [] := rfl

theorem lines_append_newline (xs ys : Bytes) : lines (xs ++ 10 :: ys) = lines xs ++ lines ys := by
  unfold lines
  rw [List.splitOn_append_cons_self, List.filter_append]

/-- A line is not empty and holds no newline. -/
theorem mem_lines {body line : Bytes} (h : line ∈ lines body) :
    line ≠ [] ∧ (10 : UInt8) ∉ line := by
  have hsplit := List.mem_filter.mp h
  exact ⟨by simpa using hsplit.2, not_mem_of_mem_splitOn hsplit.1⟩

/-- A line and its newline. -/
theorem lines_singleton {line : Bytes} (hne : line ≠ []) (hline : (10 : UInt8) ∉ line) :
    lines (line ++ [10]) = [line] := by
  rw [lines_append_newline, lines_nil, List.append_nil, lines, List.splitOn_eq_singleton hline]
  simp [hne]

/-- An object written line by line has these lines. -/
theorem lines_flatMap {ls : List Bytes} (h : ∀ line ∈ ls, line ≠ [] ∧ (10 : UInt8) ∉ line) :
    lines (ls.flatMap fun line => line ++ [10]) = ls := by
  induction ls with
  | nil =>
      rfl
  | cons line rest ih =>
      have hline := h line List.mem_cons_self
      have hsingle := lines_singleton hline.1 hline.2
      rw [lines_append_newline, lines_nil, List.append_nil] at hsingle
      rw [List.flatMap_cons, List.append_assoc, List.singleton_append, lines_append_newline, hsingle,
        ih fun l hl => h l (List.mem_cons_of_mem line hl), List.singleton_append]

/-- Terminating the last line changes no line. -/
theorem lines_ensureTrailingNewline (body : Bytes) : lines (ensureTrailingNewline body) = lines body := by
  unfold ensureTrailingNewline
  split_ifs
  · rw [lines_append_newline, lines_nil, List.append_nil]
  · rfl

/-- A terminated object is empty or ends in a newline. -/
theorem ensureTrailingNewline_cases (body : Bytes) :
    ensureTrailingNewline body = [] ∨ ∃ xs, ensureTrailingNewline body = xs ++ [10] := by
  unfold ensureTrailingNewline
  split_ifs with h
  · exact Or.inr ⟨body, rfl⟩
  · cases body with
    | nil =>
        exact Or.inl rfl
    | cons b bs =>
        have hlast : (b :: bs).getLast? = some 10 := by
          simpa using h
        rcases List.getLast?_eq_some_iff.1 hlast with ⟨xs, hxs⟩
        exact Or.inr ⟨xs, hxs⟩

/-- Appending adds the line and keeps the others. -/
theorem lines_appendLine (body : Bytes) {line : Bytes} (hne : line ≠ []) (hline : (10 : UInt8) ∉ line) :
    lines (appendLine body line) = lines body ++ [line] := by
  have hself := lines_singleton hne hline
  unfold appendLine
  rw [← lines_ensureTrailingNewline body, List.append_assoc]
  rcases ensureTrailingNewline_cases body with hnil | ⟨xs, hxs⟩
  · rw [hnil, List.nil_append, lines_nil, List.nil_append, hself]
  · -- The new line starts right after the newline that ends the old ones.
    rw [hxs, lines_append_newline, lines_nil, List.append_nil, List.append_assoc,
      List.singleton_append, lines_append_newline, hself]

end Lib
end Aivcs
