import CMTestbed.Splitting
import CMTestbed.Python
import Mathlib.Data.List.Induction

/-!
# What `str_split` returns

The tokens are never more than the array has room for.  They are as many as were counted if the
string is not empty, does not start with a delimiter and has no two next to each other.
-/

namespace CMTestbed

section Count
variable {aDelim : UInt8}

theorem countDelims_append (s : List UInt8) (c : UInt8) (tmp : ℕ) (r : ℕ × Option ℕ) :
    countDelims aDelim (s ++ [c]) tmp r
      = if aDelim = c then ((countDelims aDelim s tmp r).1 + 1, some (tmp + s.length))
        else countDelims aDelim s tmp r := by
  induction s generalizing tmp r with
  | nil => rfl
  | cons a s ih =>
    have hplace : tmp + 1 + s.length = tmp + (s.length + 1) := by omega
    rw [List.cons_append, countDelims, ih, countDelims, List.length_cons, hplace]

theorem countDelims_spec (aStr : List UInt8) :
    (countDelims aDelim aStr 0 (0, none)).1 = aStr.count aDelim
      ∧ ∀ last ∈ (countDelims aDelim aStr 0 (0, none)).2, last < aStr.length := by
  induction aStr using List.reverseRecOn with
  | nil => exact ⟨rfl, fun last h => absurd h (Option.not_mem_none last)⟩
  | append_singleton s c ih =>
    rw [countDelims_append, List.count_append, List.length_append, List.length_singleton]
    split_ifs with hc
    · rw [hc, List.count_singleton_self, ← hc, ih.1]
      exact ⟨rfl, fun last h => by cases h; omega⟩
    · rw [List.count_singleton, if_neg (by simpa using Ne.symm hc), ih.1]
      exact ⟨rfl, fun last h => Nat.lt_succ_of_lt (ih.2 last h)⟩

/-- What the array is sized by. -/
theorem countDelims_eq (aStr : List UInt8) :
    (countDelims aDelim aStr 0 (0, none)).1
        + (if (countDelims aDelim aStr 0 (0, none)).2.all fun last => last + 1 < aStr.length
          then 1 else 0) = Lib.numFields aDelim aStr := by
  rw [Lib.numFields, (countDelims_spec aStr).1]
  congr 1
  cases aStr using List.reverseRecOn with
  | nil => rfl
  | append_singleton s c =>
    rw [List.getLast?_concat, countDelims_append, List.length_append, List.length_singleton]
    by_cases hc : aDelim = c
    · rw [if_pos hc, hc, if_pos rfl, if_neg]
      simp
    · have hall : (countDelims aDelim s 0 (0, none)).2.all (fun last => last + 1 < s.length + 1)
          = true := by
        rw [Option.all_eq_true]
        intro last hlast
        have hlt := (countDelims_spec s).2 last hlast
        exact decide_eq_true (by omega)
      rw [if_neg hc, if_pos hall, if_neg (by simpa using Ne.symm hc)]

end Count

section Store
variable {aDelim : UInt8} {count : ℕ}

theorem store_of_lt {result : List Cell} {idx : ℕ} (h : idx < result.length) (cell : Cell) :
    store result idx cell = .ok (result.set idx cell) := if_pos h

theorem take_succ_set {result : List Cell} {idx : ℕ} (h : idx < result.length) (cell : Cell) :
    (result.set idx cell).take (idx + 1) = result.take idx ++ [cell] := by
  rw [List.take_add_one, List.getElem?_set_self h, List.take_set_of_le le_rfl]
  rfl

/-- Tokens that the array has room for are stored one after the other. -/
theorem storeTokens_eq {tokens : List (List UInt8)} {rest : List UInt8} {idx : ℕ}
    {result : List Cell} (htokens : strtok rest aDelim = tokens)
    (hroom : idx + tokens.length < count) (hlen : result.length = count) :
    storeTokens aDelim count rest idx result
      = .ok (idx + tokens.length,
        result.take idx ++ tokens.map some ++ result.drop (idx + tokens.length)) := by
  induction tokens generalizing rest idx result with
  | nil =>
    rw [storeTokens]
    split
    · simp
    · next token rest' hnext =>
      cases (Lib.tokens_of_nextToken_some hnext).1.symm.trans htokens
  | cons token tokens ih =>
    rw [List.length_cons] at hroom
    rw [storeTokens]
    split
    · next hnext => cases (Lib.tokens_of_nextToken_none hnext).symm.trans htokens
    · next token' rest' hnext =>
      obtain ⟨rfl, hrest⟩ :=
        List.cons.inj ((Lib.tokens_of_nextToken_some hnext).1.symm.trans htokens)
      rw [if_pos (by omega), store_of_lt (by omega)]
      change storeTokens aDelim count rest' (idx + 1) (result.set idx (some token')) = _
      have hplace : idx + 1 + tokens.length = idx + (token' :: tokens).length := by
        rw [List.length_cons]
        omega
      rw [ih hrest (by omega) (by rw [List.length_set, hlen]), hplace]
      rw [take_succ_set (by omega), List.drop_set_of_lt (by rw [List.length_cons]; omega)]
      simp

end Store

/-- The array gets the tokens and a NULL, if there are as many as were counted. -/
theorem strSplitArray_eq (aStr : List UInt8) (aDelim : UInt8) (fresh : ℕ → Cell) :
    strSplitArray aStr aDelim fresh = match strSplit aStr aDelim with
      | some tokens => .ok (tokens.map some ++ [none])
      | none => .error .notCount := by
  have hle : (strtok aStr aDelim).length ≤ Lib.numFields aDelim aStr := Lib.length_tokens_le aStr
  have hsplit : strSplit aStr aDelim
      = if (strtok aStr aDelim).length = Lib.numFields aDelim aStr then some (strtok aStr aDelim)
        else none := rfl
  rw [strSplitArray, hsplit]
  dsimp only
  rw [countDelims_eq, storeTokens_eq rfl (by omega) (by simp), Nat.add_sub_cancel]
  change (if 0 + (strtok aStr aDelim).length = Lib.numFields aDelim aStr then
    store _ (0 + (strtok aStr aDelim).length) none else .error .notCount) = _
  rw [Nat.zero_add]
  split_ifs with hcount
  · -- the last cell is left for the NULL
    have hcells : ((List.range (Lib.numFields aDelim aStr + 1)).map fresh).length
        = (strtok aStr aDelim).length + 1 := by
      rw [List.length_map, List.length_range, hcount]
    obtain ⟨last, hlast⟩ : ∃ last, ((List.range (Lib.numFields aDelim aStr + 1)).map fresh).drop
        (strtok aStr aDelim).length = [last] := by
      rw [← List.length_eq_one_iff, List.length_drop, hcells, Nat.add_sub_cancel_left]
    rw [hlast, List.take_zero, List.nil_append, store_of_lt (by simp)]
    simp
  · rfl

theorem strSplit_eq_some_iff {aStr : List UInt8} {aDelim : UInt8} {tokens : List (List UInt8)} :
    strSplit aStr aDelim = some tokens
      ↔ Lib.Separated aDelim aStr ∧ strtok aStr aDelim = tokens := by
  rw [← Lib.length_tokens_eq_iff, strSplit]
  change (if (strtok aStr aDelim).length = Lib.numFields aDelim aStr then _ else _) = _ ↔
    (strtok aStr aDelim).length = Lib.numFields aDelim aStr ∧ _
  split_ifs with h <;> simp [h]

/-- `str_split` never writes outside of its array, and returns the pieces between delimiters that
are not empty, with a NULL at their end, if and only if the string is not empty, does not start
with the delimiter and has no two next to each other; else its last assertion fails. -/
theorem strSplit_returns_pieces_iff (aStr : List UInt8) (aDelim : UInt8) (fresh : ℕ → Cell) :
    strSplitArray aStr aDelim fresh
        = .ok (((aStr.splitOn aDelim).filter fun piece => !piece.isEmpty).map some ++ [none])
      ↔ aStr ≠ [] ∧ aStr.head? ≠ some aDelim ∧ ¬ [aDelim, aDelim] <:+: aStr := by
  rw [strSplitArray_eq]
  constructor
  · intro h
    split at h
    · next tokens hsplit =>
      obtain ⟨hne, hhead, hapart⟩ := (strSplit_eq_some_iff.1 hsplit).1
      exact ⟨hne, hhead, hapart⟩
    · cases h
  · rintro ⟨hne, hhead, hapart⟩
    rw [strSplit_eq_some_iff.2 ⟨⟨hne, hhead, hapart⟩, rfl⟩]
    rfl

/-- Of the three fields `a`, an empty one and `b`, only two are tokens. -/
theorem strSplit_aborts :
    strSplitArray (chars "a,,b") 44 (fun _ => none) = .error .notCount := by
  rw [strSplitArray_eq]
  decide +kernel

end CMTestbed
