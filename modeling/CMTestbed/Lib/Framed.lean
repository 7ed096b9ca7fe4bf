import Mathlib.Data.List.TakeDrop

/-!
# Streams of framed records

A reader takes records off the front of a stream until it stops.  Where each record is taken as it
was written, a stream that is cut anywhere gives the records before the cut (`all_take`); where what
is taken can be written again, the stream is what was read and a rest (`exists_rest`).
-/

namespace CMTestbed.Lib

/-- It takes a record off a stream and leaves the rest, or stops. -/
abbrev Reader (ρ ε β : Type*) := List β → Except ε (ρ × List β)

namespace Reader

variable {α β ρ ε : Type*} (next : Reader ρ ε β)

/-- What is read with so much fuel, and why the reader stopped; nothing if the fuel ran out. -/
def run : ℕ → List β → List ρ × Option ε
  | 0, _ => ([], none)
  | fuel + 1, s =>
    match next s with
    | .error e => ([], some e)
    | .ok (r, rest) =>
      let (rs, e) := run fuel rest
      (r :: rs, e)

/-- All that is read. -/
def all (s : List β) : List ρ × Option ε := next.run (s.length + 1) s

/-- Each record takes something. -/
def Takes : Prop := ∀ s r rest, next s = .ok (r, rest) → rest.length < s.length

variable {next}

theorem run_succ_of_ok {fuel : ℕ} {s rest : List β} {r : ρ} (h : next s = .ok (r, rest)) :
    next.run (fuel + 1) s = (r :: (next.run fuel rest).1, (next.run fuel rest).2) := by
  rw [run, h]

theorem run_succ_of_error {fuel : ℕ} {s : List β} {e : ε} (h : next s = .error e) :
    next.run (fuel + 1) s = ([], some e) := by
  rw [run, h]

/-- More fuel than there is to read does not change what is read. -/
theorem run_eq_all (htakes : next.Takes) : ∀ {fuel : ℕ} {s : List β}, s.length < fuel →
    next.run fuel s = next.all s
  | 0, s, h => absurd h (Nat.not_lt_zero _)
  | fuel + 1, s, h => by
    rw [all]
    rcases hs : next s with e | ⟨r, rest⟩
    · rw [run_succ_of_error hs, run_succ_of_error hs]
    · have hlt := htakes s r rest hs
      have hrest : next.run fuel rest = next.run s.length rest :=
        (run_eq_all htakes (by omega)).trans (run_eq_all htakes hlt).symm
      rw [run_succ_of_ok hs, run_succ_of_ok hs, hrest]

theorem all_of_ok (htakes : next.Takes) {s rest : List β} {r : ρ} (h : next s = .ok (r, rest)) :
    next.all s = (r :: (next.all rest).1, (next.all rest).2) := by
  rw [all, run_succ_of_ok h, run_eq_all htakes (htakes s r rest h)]

theorem all_of_error {s : List β} {e : ε} (h : next s = .error e) : next.all s = ([], some e) :=
  run_succ_of_error h

/-- A stream is read by records. -/
theorem all_induction (htakes : next.Takes) {P : List β → Prop}
    (error : ∀ s e, next s = .error e → P s)
    (ok : ∀ s r rest, next s = .ok (r, rest) → P rest → P s) (s : List β) : P s := by
  induction hn : s.length using Nat.strongRecOn generalizing s with
  | ind n ih =>
    rcases hs : next s with e | ⟨r, rest⟩
    · exact error s e hs
    · exact ok s r rest hs (ih _ (hn ▸ htakes s r rest hs) rest rfl)

/-- The reader stops. -/
theorem exists_stop (htakes : next.Takes) (s : List β) : ∃ e, (next.all s).2 = some e := by
  induction s using all_induction htakes with
  | error s e h => exact ⟨e, by rw [all_of_error h]⟩
  | ok s r rest h ih => rwa [all_of_ok htakes h]

/-- What holds of each record that can be read. -/
theorem forall_mem_all (htakes : next.Takes) {P : ρ → Prop}
    (hP : ∀ s r rest, next s = .ok (r, rest) → P r) (s : List β) : ∀ r ∈ (next.all s).1, P r := by
  induction s using all_induction htakes with
  | error s e h => simp [all_of_error h]
  | ok s r rest h ih =>
    rw [all_of_ok htakes h]
    exact List.forall_mem_cons.2 ⟨hP s r rest h, ih⟩

section Written

variable (write : α → List β)

/-- The records that are whole in the first `n` of what is written. -/
def whole (n : ℕ) : List α → List α
  | [] => []
  | a :: as => if (write a).length ≤ n then a :: whole (n - (write a).length) as else []

/-- The first `n` of what is written, behind the whole records. -/
def partOf (n : ℕ) : List α → List β
  | [] => []
  | a :: as =>
    if (write a).length ≤ n then partOf (n - (write a).length) as else (write a).take n

variable {write} {seen : α → ρ} {stop : List β → ε}

/-- Records are read as they were written, and a part of one stops the reader. -/
structure Reads (next : Reader ρ ε β) (write : α → List β) (seen : α → ρ) (stop : List β → ε)
    (a : α) : Prop where
  whole : ∀ rest, next (write a ++ rest) = .ok (seen a, rest)
  part : ∀ n < (write a).length, next ((write a).take n) = .error (stop ((write a).take n))

/-- Of a stream that is cut, the records that are whole are read. -/
theorem all_take (htakes : next.Takes) (hnil : next [] = .error (stop [])) {as : List α} (n : ℕ)
    (h : ∀ a ∈ as, next.Reads write seen stop a) : next.all ((as.flatMap write).take n)
      = ((whole write n as).map seen, some (stop (partOf write n as))) := by
  induction as generalizing n with
  | nil =>
    rw [List.flatMap_nil, List.take_nil, all_of_error hnil]
    rfl
  | cons a as ih =>
    obtain ⟨ha, has⟩ := List.forall_mem_cons.1 h
    rw [List.flatMap_cons, List.take_append, whole, partOf]
    split_ifs with hn
    · rw [List.take_of_length_le hn, all_of_ok htakes (ha.whole _), ih _ has]
      rfl
    · rw [Nat.sub_eq_zero_of_le (by omega), List.take_zero, List.append_nil,
        all_of_error (ha.part n (by omega))]
      rfl

theorem whole_of_length_le {as : List α} {n : ℕ} (h : (as.flatMap write).length ≤ n) :
    whole write n as = as ∧ partOf write n as = [] := by
  induction as generalizing n with
  | nil => exact ⟨rfl, rfl⟩
  | cons a as ih =>
    rw [List.flatMap_cons, List.length_append] at h
    rw [whole, partOf, if_pos (by omega), if_pos (by omega)]
    exact ⟨congrArg _ (ih (by omega)).1, (ih (by omega)).2⟩

end Written

/-- If each record can be written as it was read, the stream is what was read and a rest. -/
theorem exists_rest (htakes : next.Takes) {write : ρ → List β} {P : ρ → Prop}
    (hwrite : ∀ s r rest, next s = .ok (r, rest) → P r → s = write r ++ rest) (s : List β)
    (hP : ∀ r ∈ (next.all s).1, P r) : ∃ e rest, (next.all s).2 = some e
      ∧ next rest = .error e ∧ s = (next.all s).1.flatMap write ++ rest := by
  induction s using all_induction htakes with
  | error s e h =>
    rw [all_of_error h]
    exact ⟨e, s, rfl, h, rfl⟩
  | ok s r rest h ih =>
    rw [all_of_ok htakes h] at hP ⊢
    obtain ⟨hr, hrest⟩ := List.forall_mem_cons.1 hP
    obtain ⟨e, last, he, hlast, hs⟩ := ih hrest
    refine ⟨e, last, he, hlast, ?_⟩
    rw [List.flatMap_cons, List.append_assoc, ← hs]
    exact hwrite s r rest h hr

end Reader

end CMTestbed.Lib
