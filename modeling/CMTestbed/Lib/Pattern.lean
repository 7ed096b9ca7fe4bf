import Mathlib.Data.List.Basic

/-!
# Matching a pattern

A pattern is a sequence of parts, some of them captured; a part is a sequence of characters and of
greedy runs of characters, each of a class.  The matches of a prefix of the text are listed in the
order in which a backtracking matcher tries them, so the first one is the one it returns.
-/

namespace CMTestbed.Lib

variable {α : Type*}

/-- One character of a class, or a run of them: not empty, or any. -/
inductive Atom (α : Type*) where
  | one (p : α → Bool)
  | plus (p : α → Bool)
  | star (p : α → Bool)

structure Part (α : Type*) where
  capture : Bool
  atoms : List (Atom α)

namespace Part

/-- Characters that stand for themselves. -/
def literal [DecidableEq α] (text : List α) : Part α :=
  ⟨false, text.map fun c => .one (· = c)⟩

def group (atoms : List (Atom α)) : Part α := ⟨true, atoms⟩

end Part

/-- A run of characters and the rest of the text, the longest run first. -/
def runs (p : α → Bool) : List α → List (List α × List α)
  | [] => [([], [])]
  | c :: s =>
    if p c then (runs p s).map (fun r => (c :: r.1, r.2)) ++ [([], c :: s)] else [([], c :: s)]

/-- What an atom can take, and the rest of the text. -/
def Atom.matches : Atom α → List α → List (List α × List α)
  | one _, [] => []
  | one p, c :: s => if p c then [([c], s)] else []
  | plus p, s => (runs p s).filter fun r => !r.1.isEmpty
  | star p, s => runs p s

def atomsMatches : List (Atom α) → List α → List (List α × List α)
  | [], s => [([], s)]
  | a :: as, s =>
    (a.matches s).flatMap fun r => (atomsMatches as r.2).map fun q => (r.1 ++ q.1, q.2)

/-- The captured parts and the rest of the text. -/
def patternMatches : List (Part α) → List α → List (List (List α) × List α)
  | [], s => [([], s)]
  | p :: ps, s =>
    (atomsMatches p.atoms s).flatMap fun r =>
      (patternMatches ps r.2).map fun q => (if p.capture then r.1 :: q.1 else q.1, q.2)

/-- The captured parts of the first match. -/
def groups (ps : List (Part α)) (s : List α) : Option (List (List α)) :=
  ((patternMatches ps s).head?).map (·.1)

/-! ## The first match -/

section First
variable {p : α → Bool} {run s : List α}

/-- The longest run is tried first. -/
theorem head?_runs (hrun : ∀ c ∈ run, p c = true) (hs : ∀ c, s.head? = some c → p c = false) :
    (runs p (run ++ s)).head? = some (run, s) := by
  induction run with
  | nil =>
    cases s with
    | nil => rfl
    | cons c s => simp [runs, hs c rfl]
  | cons c run ih =>
    rw [List.forall_mem_cons] at hrun
    rw [List.cons_append, runs, if_pos hrun.1, List.head?_append, List.head?_map, ih hrun.2]
    rfl

theorem head?_matches_plus (hne : run ≠ []) (hrun : ∀ c ∈ run, p c = true)
    (hs : ∀ c, s.head? = some c → p c = false) :
    ((Atom.plus p).matches (run ++ s)).head? = some (run, s) := by
  obtain ⟨rs, hrs⟩ := List.head?_eq_some_iff.1 (head?_runs hrun hs)
  rw [Atom.matches, hrs, List.filter_cons_of_pos (by simp [hne]), List.head?_cons]

theorem head?_matches_star (hrun : ∀ c ∈ run, p c = true)
    (hs : ∀ c, s.head? = some c → p c = false) :
    ((Atom.star p).matches (run ++ s)).head? = some (run, s) :=
  head?_runs hrun hs

/-- A run that is not empty starts with a character of its class. -/
theorem matches_plus_eq_nil (hs : ∀ c, s.head? = some c → p c = false) :
    (Atom.plus p).matches s = [] := by
  cases s with
  | nil => rfl
  | cons c s => simp [Atom.matches, runs, hs c rfl]

theorem atomsMatches_cons_eq_nil {a : Atom α} (h : a.matches s = []) (as : List (Atom α)) :
    atomsMatches (a :: as) s = [] := by
  rw [atomsMatches, h, List.flatMap_nil]

/-- The first match of a sequence is made of first matches. -/
theorem head?_atomsMatches_cons {a : Atom α} {as : List (Atom α)} {r q : List α × List α}
    (h : (a.matches s).head? = some r) (h' : (atomsMatches as r.2).head? = some q) :
    (atomsMatches (a :: as) s).head? = some (r.1 ++ q.1, q.2) := by
  obtain ⟨rs, hrs⟩ := List.head?_eq_some_iff.1 h
  rw [atomsMatches, hrs, List.flatMap_cons, List.head?_append, List.head?_map, h']
  rfl

end First

/-- Before `s`, the part takes `piece` first. -/
def Part.Takes (p : Part α) (piece s : List α) : Prop :=
  (atomsMatches p.atoms (piece ++ s)).head? = some (piece, s)

section Groups
variable {p : Part α} {ps : List (Part α)} {piece s : List α}

theorem Part.takes_literal [DecidableEq α] (text s : List α) : (literal text).Takes text s := by
  induction text with
  | nil => rfl
  | cons c text ih =>
    have hone : ((Atom.one (· = c)).matches (c :: (text ++ s))).head? = some ([c], text ++ s) := by
      simp [Atom.matches]
    exact head?_atomsMatches_cons hone ih

/-- A run of characters of one class, before another character. -/
theorem Part.takes_plus {q : α → Bool} (hne : piece ≠ []) (hpiece : ∀ c ∈ piece, q c = true)
    (hs : ∀ c, s.head? = some c → q c = false) : (group [.plus q]).Takes piece s := by
  have hlast : (atomsMatches ([] : List (Atom α)) s).head? = some ([], s) := rfl
  have h := head?_atomsMatches_cons (head?_matches_plus hne hpiece hs) hlast
  simpa [Takes, group] using h

@[simp] theorem groups_nil (s : List α) : groups [] s = some [] := rfl

/-- The groups of the first match, part by part. -/
theorem groups_cons (h : p.Takes piece s) {gs : List (List α)} (hgs : groups ps s = some gs) :
    groups (p :: ps) (piece ++ s) = some (if p.capture then piece :: gs else gs) := by
  obtain ⟨rs, hrs⟩ := List.head?_eq_some_iff.1 h
  obtain ⟨q, hq, rfl⟩ := Option.map_eq_some_iff.1 hgs
  rw [groups, patternMatches, hrs, List.flatMap_cons, List.head?_append, List.head?_map, hq]
  rfl

theorem groups_cons_eq_none (h : atomsMatches p.atoms s = []) : groups (p :: ps) s = none := by
  rw [groups, patternMatches, h, List.flatMap_nil]
  rfl

/-- A literal is not found before another character. -/
theorem groups_literal_eq_none [DecidableEq α] {c : α} {text : List α}
    (h : s.head? ≠ some c) : groups (.literal (c :: text) :: ps) s = none := by
  refine groups_cons_eq_none (atomsMatches_cons_eq_nil ?_ _)
  cases s with
  | nil => rfl
  | cons d s =>
    have hd : d ≠ c := fun hd => h (by rw [List.head?_cons, hd])
    simp [Atom.matches, hd]

end Groups

/-! ## Whether there is a match -/

section Found
variable {p : α → Bool} {s : List α}

theorem mem_runs {run rest : List α} :
    (run, rest) ∈ runs p s ↔ run ++ rest = s ∧ ∀ c ∈ run, p c = true := by
  induction s generalizing run with
  | nil =>
    rw [runs, List.mem_singleton, Prod.mk.injEq, List.append_eq_nil_iff]
    refine (and_iff_left_of_imp ?_).symm
    rintro ⟨rfl, -⟩
    exact List.forall_mem_nil _
  | cons c s ih =>
    cases run with
    | nil =>
      have hnil : ([], rest) ∈ runs p (c :: s) ↔ rest = c :: s := by
        rw [runs]
        split_ifs <;> simp
      rw [hnil]
      exact ⟨fun h => ⟨h, List.forall_mem_nil _⟩, And.left⟩
    | cons d run =>
      rw [runs, List.cons_append, List.cons.injEq, List.forall_mem_cons]
      split_ifs with hc
      · have hmem : (d :: run, rest) ∈ (runs p s).map (fun r => (c :: r.1, r.2)) ++ [([], c :: s)]
            ↔ d = c ∧ (run, rest) ∈ runs p s := by
          simp [eq_comm, and_comm]
        rw [hmem, ih, and_assoc]
        constructor
        · rintro ⟨rfl, h, hrun⟩
          exact ⟨rfl, h, hc, hrun⟩
        · rintro ⟨rfl, h, -, hrun⟩
          exact ⟨rfl, h, hrun⟩
      · refine iff_of_false (by simp) ?_
        rintro ⟨⟨rfl, -⟩, hd, -⟩
        exact hc hd

theorem mem_plus {run rest : List α} : (run, rest) ∈ (Atom.plus p).matches s
    ↔ run ≠ [] ∧ run ++ rest = s ∧ ∀ c ∈ run, p c = true := by
  rw [Atom.matches, List.mem_filter, mem_runs, and_comm]
  simp

theorem atomsMatches_cons_ne_nil {a : Atom α} {as : List (Atom α)} :
    atomsMatches (a :: as) s ≠ [] ↔ ∃ r ∈ a.matches s, atomsMatches as r.2 ≠ [] := by
  rw [atomsMatches, ne_eq, List.flatMap_eq_nil_iff]
  simp

theorem atomsMatches_literal [DecidableEq α] (text s : List α) :
    atomsMatches (Part.literal text).atoms s
      = if text <+: s then [(text, s.drop text.length)] else [] := by
  induction text generalizing s with
  | nil => rfl
  | cons c text ih =>
    cases s with
    | nil => rfl
    | cons d s =>
      have hcons : atomsMatches (Part.literal (c :: text)).atoms (d :: s)
          = if d = c then (atomsMatches (Part.literal text).atoms s).map fun q => (d :: q.1, q.2)
            else [] := by
        by_cases hdc : d = c <;> simp [Part.literal, atomsMatches, Atom.matches, hdc]
      rw [hcons, ih]
      by_cases hdc : d = c
      · subst hdc
        rw [if_pos rfl]
        split_ifs <;> simp_all [List.cons_prefix_cons]
      · rw [if_neg hdc, if_neg]
        rw [List.cons_prefix_cons]
        exact fun h => hdc h.1.symm

theorem isSome_groups {ps : List (Part α)} :
    (groups ps s).isSome ↔ patternMatches ps s ≠ [] := by
  rw [groups, Option.isSome_map, List.isSome_head?]

theorem patternMatches_cons_ne_nil {part : Part α} {ps : List (Part α)} :
    patternMatches (part :: ps) s ≠ []
      ↔ ∃ r ∈ atomsMatches part.atoms s, patternMatches ps r.2 ≠ [] := by
  rw [patternMatches, ne_eq, List.flatMap_eq_nil_iff]
  simp

/-- A literal and a part behind it. -/
theorem isSome_groups_literal [DecidableEq α] {text : List α} {part : Part α} :
    (groups [.literal text, part] s).isSome
      ↔ text <+: s ∧ atomsMatches part.atoms (s.drop text.length) ≠ [] := by
  have hlast : ∀ s : List α, patternMatches [part] s ≠ [] ↔ atomsMatches part.atoms s ≠ [] := by
    intro s
    rw [patternMatches_cons_ne_nil]
    constructor
    · rintro ⟨r, hr, -⟩
      exact List.ne_nil_of_mem hr
    · intro hne
      obtain ⟨r, hr⟩ := List.exists_mem_of_ne_nil _ hne
      exact ⟨r, hr, List.cons_ne_nil _ _⟩
  rw [isSome_groups, patternMatches_cons_ne_nil, atomsMatches_literal]
  by_cases h : text <+: s
  · rw [if_pos h, and_iff_right h, ← hlast]
    simp
  · rw [if_neg h]
    simp [h]

end Found

end CMTestbed.Lib
