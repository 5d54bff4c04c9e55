import Mathlib.Tactic.Common

/-!
# Lines of a text

A reader of lines ends a line at a newline and drops a carriage return before it;
what follows the last newline is a line unless it is empty.  Lines without these two
characters are read back as they were written.
-/

namespace AquaTimestamp.Support

/-- A line, given backwards, without the carriage return it ends in. -/
def stripReturn : List Char → List Char
  | [] => []
  | c :: line => if c = '\r' then line else c :: line

/-- The lines of a text, after the characters of the first line that were read
already, backwards. -/
def linesFrom (read : List Char) : List Char → List (List Char)
  | [] => if read = [] then [] else [read.reverse]
  | c :: rest =>
      if c = '\n' then (stripReturn read).reverse :: linesFrom [] rest
      else linesFrom (c :: read) rest

/-- The lines of a text. -/
def lines (text : List Char) : List (List Char) :=
  linesFrom [] text

/-- Each line with a newline after it. -/
def unlines (ls : List (List Char)) : List Char :=
  ls.flatMap fun l => l ++ ['\n']

/-- A line that can be written: nothing in it ends a line. -/
def Unbroken (line : List Char) : Prop :=
  ∀ c ∈ line, c ≠ '\n' ∧ c ≠ '\r'

theorem stripReturn_of_unbroken {line : List Char} (h : Unbroken line) :
    stripReturn line = line := by
  cases line with
  | nil => rfl
  | cons c line => exact if_neg (h c (List.mem_cons_self ..)).2

theorem linesFrom_append {read line rest : List Char} (hread : Unbroken read)
    (hline : Unbroken line) :
    linesFrom read (line ++ '\n' :: rest) = (read.reverse ++ line) :: lines rest := by
  induction line generalizing read with
  | nil =>
      rw [List.nil_append, linesFrom, if_pos rfl, stripReturn_of_unbroken hread,
        List.append_nil]
      rfl
  | cons c line ih =>
      have hc := hline c (List.mem_cons_self ..)
      rw [List.cons_append, linesFrom, if_neg hc.1,
        ih (List.forall_mem_cons.mpr ⟨hc, hread⟩) (List.forall_mem_cons.mp hline).2,
        List.reverse_cons, List.append_assoc, List.singleton_append]

/-- Written lines are read back. -/
theorem lines_unlines {ls : List (List Char)} (h : ∀ l ∈ ls, Unbroken l) :
    lines (unlines ls) = ls := by
  induction ls with
  | nil => rfl
  | cons l ls ih =>
      have hhead : linesFrom [] (l ++ '\n' :: unlines ls) = _ :=
        linesFrom_append nofun (h l (List.mem_cons_self ..))
      have htail := ih fun l' hl' => h l' (List.mem_cons_of_mem _ hl')
      rw [unlines, List.flatMap_cons, List.append_assoc, List.singleton_append, lines]
      rw [htail, List.reverse_nil, List.nil_append] at hhead
      exact hhead

end AquaTimestamp.Support
