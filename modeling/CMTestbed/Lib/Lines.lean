import Mathlib.Data.List.Basic

/-!
# Lines

The lines of a text keep the character at their end, which the last one may lack.  With universal
newlines a carriage return, alone or with the newline behind it, is read as a newline.
-/

namespace CMTestbed.Lib

variable {α : Type*} [DecidableEq α] (newline ret : α)

/-- The lines of a text. -/
def lines (text : List α) : List (List α) :=
  match text with
  | [] => []
  | c :: s =>
    if c = newline then [c] :: lines s
    else match lines s with
      | [] => [[c]]
      | line :: rest => (c :: line) :: rest

/-- A text, with newlines for its carriage returns. -/
def universal : List α → List α
  | [] => []
  | [c] => [if c = ret then newline else c]
  | c :: d :: s =>
    if c = ret then
      if d = newline then newline :: universal s
      else newline :: universal (d :: s)
    else c :: universal (d :: s)

/-- One line, with its newline. -/
def IsLine (line : List α) : Prop := ∃ body, line = body ++ [newline] ∧ newline ∉ body

section Lines
variable {newline}

theorem lines_body_append {body : List α} (h : newline ∉ body) (text : List α) :
    lines newline (body ++ newline :: text) = (body ++ [newline]) :: lines newline text := by
  induction body with
  | nil => simp [lines]
  | cons c body ih =>
    rw [List.mem_cons, not_or] at h
    rw [List.cons_append, lines, if_neg (Ne.symm h.1), ih h.2]
    rfl

theorem IsLine.lines_append {line : List α} (h : IsLine newline line) (text : List α) :
    lines newline (line ++ text) = line :: lines newline text := by
  obtain ⟨body, rfl, hbody⟩ := h
  rw [List.append_assoc]
  exact lines_body_append hbody text

theorem lines_flatten_append {ls : List (List α)} (h : ∀ line ∈ ls, IsLine newline line)
    (text : List α) : lines newline (ls.flatten ++ text) = ls ++ lines newline text := by
  induction ls with
  | nil => rfl
  | cons line ls ih =>
    rw [List.forall_mem_cons] at h
    rw [List.flatten_cons, List.append_assoc, h.1.lines_append, ih h.2, List.cons_append]

theorem lines_flatten {ls : List (List α)} (h : ∀ line ∈ ls, IsLine newline line) :
    lines newline ls.flatten = ls := by
  have happend := lines_flatten_append h []
  rwa [List.append_nil, lines, List.append_nil] at happend

end Lines

section Universal
variable {ret}

theorem universal_cons_of_ne {c : α} (h : c ≠ ret) (s : List α) :
    universal newline ret (c :: s) = c :: universal newline ret s := by
  cases s with
  | nil => simp [universal, h]
  | cons d s => rw [universal, if_neg h]

/-- A text without carriage returns is read as it is. -/
theorem universal_append {a : List α} (h : ret ∉ a) (b : List α) :
    universal newline ret (a ++ b) = a ++ universal newline ret b := by
  induction a with
  | nil => rfl
  | cons c a ih =>
    rw [List.mem_cons, not_or] at h
    rw [List.cons_append, universal_cons_of_ne newline (Ne.symm h.1), ih h.2, List.cons_append]

/-- Lines without carriage returns are read as they are. -/
theorem lines_universal_flatten {ls : List (List α)} (h : ∀ line ∈ ls, IsLine newline line)
    (hret : ∀ line ∈ ls, ret ∉ line) (text : List α) :
    lines newline (universal newline ret (ls.flatten ++ text))
      = ls ++ lines newline (universal newline ret text) := by
  have hflatten : ret ∉ ls.flatten := by
    rintro hmem
    obtain ⟨line, hline, hret'⟩ := List.mem_flatten.1 hmem
    exact hret line hline hret'
  rw [universal_append newline hflatten, lines_flatten_append h]

end Universal

example : universal 10 13 [97, 13, 98, 13, 10, 99, 13] = [97, 10, 98, 10, 99, 10] := by decide

end CMTestbed.Lib
