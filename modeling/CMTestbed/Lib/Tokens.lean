import Mathlib.Data.List.Basic

/-!
# Tokens between delimiters

The tokens of a text are the pieces between its delimiters that are not empty.  There are as many
as counting the delimiters says if every delimiter has something in front of it that is none.
-/

namespace CMTestbed.Lib

variable {α : Type*} [DecidableEq α] {d : α}

def tokens (d : α) (s : List α) : List (List α) :=
  (s.splitOn d).filter fun token => !token.isEmpty

/-- The delimiters, and one more if the text does not end with one. -/
def numFields (d : α) (s : List α) : ℕ := s.count d + if s.getLast? = some d then 0 else 1

/-- No delimiter is first or follows another, and there is some text. -/
structure Separated (d : α) (s : List α) : Prop where
  ne_nil : s ≠ []
  head : s.head? ≠ some d
  apart : ¬ [d, d] <:+: s

/-- Every text is free of delimiters, or such a text, a delimiter, and a rest. -/
theorem cut_induction {P : List α → Prop} (free : ∀ s, d ∉ s → P s)
    (cut : ∀ xs ys, d ∉ xs → P ys → P (xs ++ d :: ys)) (s : List α) : P s := by
  induction hn : s.length using Nat.strongRecOn generalizing s with
  | ind n ih =>
    by_cases hd : d ∈ s
    · obtain ⟨xs, ys, rfl, hxs⟩ := List.eq_append_cons_of_mem hd
      refine cut xs ys hxs (ih ys.length ?_ ys rfl)
      rw [← hn, List.length_append, List.length_cons]
      omega
    · exact free s hd

section tokens
variable {s xs ys : List α}

@[simp] theorem tokens_nil : tokens d [] = [] := rfl

theorem splitOn_of_free (hd : d ∉ s) : s.splitOn d = [s] := by
  refine List.splitOnP_eq_singleton fun x hx => ?_
  rw [beq_eq_false_iff_ne]
  rintro rfl
  exact hd hx

theorem splitOn_append_cons (xs ys : List α) :
    (xs ++ d :: ys).splitOn d = xs.splitOn d ++ ys.splitOn d :=
  List.splitOnP_append_cons xs ys (beq_self_eq_true d)

theorem tokens_of_free (hd : d ∉ s) : tokens d s = if s = [] then [] else [s] := by
  rw [tokens, splitOn_of_free hd]
  cases s <;> rfl

theorem tokens_append_cons (xs ys : List α) :
    tokens d (xs ++ d :: ys) = tokens d xs ++ tokens d ys := by
  rw [tokens, splitOn_append_cons, List.filter_append, tokens, tokens]

theorem numFields_of_free (hd : d ∉ s) : numFields d s = 1 := by
  rw [numFields, List.count_eq_zero_of_not_mem hd, if_neg]
  intro hlast
  exact hd (List.mem_of_getLast? hlast)

theorem numFields_append_cons (hxs : d ∉ xs) :
    numFields d (xs ++ d :: ys) = if ys = [] then 1 else 1 + numFields d ys := by
  rw [numFields, List.count_append, List.count_eq_zero_of_not_mem hxs, List.count_cons_self,
    List.getLast?_append]
  cases ys with
  | nil => simp
  | cons y ys =>
    rw [List.getLast?_cons_cons, if_neg (List.cons_ne_nil _ _), numFields]
    simp
    omega

theorem length_tokens_of_free (hd : d ∉ s) :
    (tokens d s).length = if s = [] then 0 else 1 := by
  rw [tokens_of_free hd]
  split_ifs <;> rfl

theorem length_tokens_le (s : List α) : (tokens d s).length ≤ numFields d s := by
  induction s using cut_induction (d := d) with
  | free s hd =>
    rw [length_tokens_of_free hd, numFields_of_free hd]
    split_ifs <;> omega
  | cut xs ys hxs ih =>
    rw [tokens_append_cons, List.length_append, length_tokens_of_free hxs,
      numFields_append_cons hxs]
    by_cases hys : ys = []
    · rw [hys, tokens_nil, if_pos rfl]
      split_ifs <;> simp
    · rw [if_neg hys]
      split_ifs <;> omega

end tokens

section Separated
variable {s xs ys : List α}

omit [DecidableEq α] in
theorem separated_of_free (hd : d ∉ s) : Separated d s ↔ s ≠ [] := by
  refine ⟨Separated.ne_nil, fun h => ⟨h, fun hhead => ?_, fun hapart => ?_⟩⟩
  · exact hd (List.mem_of_head? hhead)
  · exact hd (hapart.subset List.mem_cons_self)

omit [DecidableEq α] in
/-- Behind a text without delimiters, two of them are adjacent as without it. -/
theorem infix_append_cons (hxs : d ∉ xs) :
    [d, d] <:+: xs ++ d :: ys ↔ ys.head? = some d ∨ [d, d] <:+: ys := by
  induction xs with
  | nil =>
    rw [List.nil_append, List.infix_cons_iff, List.cons_prefix_cons]
    refine or_congr_left ?_
    cases ys with
    | nil => simp
    | cons y ys => simp [List.cons_prefix_cons, eq_comm]
  | cons x xs ih =>
    rw [List.mem_cons, not_or] at hxs
    rw [List.cons_append, List.infix_cons_iff, List.cons_prefix_cons, ih hxs.2]
    exact or_iff_right fun h => hxs.1 h.1

omit [DecidableEq α] in
theorem separated_append_cons (hxs : d ∉ xs) :
    Separated d (xs ++ d :: ys) ↔ xs ≠ [] ∧ (ys = [] ∨ Separated d ys) := by
  have hhead : (xs ++ d :: ys).head? ≠ some d ↔ xs ≠ [] := by
    cases xs with
    | nil => simp
    | cons x xs =>
      rw [List.mem_cons, not_or] at hxs
      simpa using Ne.symm hxs.1
  constructor
  · rintro ⟨-, h, hapart⟩
    rw [infix_append_cons hxs, not_or] at hapart
    exact ⟨hhead.1 h, or_iff_not_imp_left.2 fun hys => ⟨hys, hapart.1, hapart.2⟩⟩
  · rintro ⟨hne, h⟩
    refine ⟨by simp, hhead.2 hne, ?_⟩
    rw [infix_append_cons hxs, not_or]
    rcases h with rfl | h
    · simp
    · exact ⟨h.head, h.apart⟩

/-- The count of the delimiters is that of the tokens for separated texts only. -/
theorem length_tokens_eq_iff (s : List α) :
    (tokens d s).length = numFields d s ↔ Separated d s := by
  induction s using cut_induction (d := d) with
  | free s hd =>
    rw [tokens_of_free hd, numFields_of_free hd, separated_of_free hd]
    split_ifs with hs <;> simp [hs]
  | cut xs ys hxs ih =>
    have hle : (tokens d ys).length ≤ numFields d ys := length_tokens_le ys
    rw [separated_append_cons hxs, ← ih, tokens_append_cons, List.length_append,
      length_tokens_of_free hxs, numFields_append_cons hxs]
    by_cases hys : ys = []
    · rw [hys, tokens_nil, if_pos rfl]
      split_ifs with hxs' <;> simp [hxs']
    · rw [if_neg hys]
      split_ifs with hxs'
      · refine iff_of_false ?_ fun h => h.1 hxs'
        omega
      · simp [hxs', hys]

/-- Of a separated text, no piece but the last is empty. -/
theorem Separated.exists_splitOn (h : Separated d s) :
    ∃ init last, s.splitOn d = init ++ [last] ∧ ∀ piece ∈ init, piece ≠ [] := by
  induction s using cut_induction (d := d) with
  | free s hd =>
    exact ⟨[], s, splitOn_of_free hd, fun _ hpiece => absurd hpiece List.not_mem_nil⟩
  | cut xs ys hxs ih =>
    obtain ⟨hne, hys⟩ := (separated_append_cons hxs).1 h
    rw [splitOn_append_cons, splitOn_of_free hxs]
    rcases hys with rfl | hys
    · exact ⟨[xs], [], rfl, by simpa using hne⟩
    · obtain ⟨init, last, hsplit, hinit⟩ := ih hys
      exact ⟨xs :: init, last, by rw [hsplit]; rfl, List.forall_mem_cons.2 ⟨hne, hinit⟩⟩

theorem tokens_of_splitOn {init : List (List α)} {last : List α}
    (hsplit : s.splitOn d = init ++ [last]) (hinit : ∀ piece ∈ init, piece ≠ []) :
    tokens d s = init ++ if last = [] then [] else [last] := by
  have hall : init.filter (fun token => !token.isEmpty) = init := by
    refine List.filter_eq_self.2 fun piece hpiece => ?_
    simpa using hinit piece hpiece
  rw [tokens, hsplit, List.filter_append, hall]
  cases last <;> rfl

/-- What is no delimiter goes to the last piece. -/
theorem exists_splitOn_concat {c : α} (hc : c ≠ d) (s : List α) :
    ∃ init last, s.splitOn d = init ++ [last] ∧ (s ++ [c]).splitOn d = init ++ [last ++ [c]] := by
  induction s using cut_induction (d := d) with
  | free s hd =>
    refine ⟨[], s, splitOn_of_free hd, splitOn_of_free ?_⟩
    simpa [hd] using Ne.symm hc
  | cut xs ys hxs ih =>
    obtain ⟨init, last, hsplit, hconcat⟩ := ih
    refine ⟨xs.splitOn d ++ init, last, ?_, ?_⟩
    · rw [splitOn_append_cons, hsplit, List.append_assoc]
    · rw [List.append_assoc, List.cons_append, splitOn_append_cons, hconcat, List.append_assoc]

end Separated

/-! ## Words that are joined -/

section Joined
variable {words : List (List α)}

theorem tokens_intercalate (hne : words ≠ []) (h : ∀ word ∈ words, word ≠ [] ∧ d ∉ word) :
    tokens d ([d].intercalate words) = words := by
  rw [tokens, List.splitOn_intercalate d (fun word hword => (h word hword).2) hne]
  refine List.filter_eq_self.2 fun word hword => ?_
  simpa using (h word hword).1

omit [DecidableEq α] in
theorem separated_intercalate (hne : words ≠ []) (h : ∀ word ∈ words, word ≠ [] ∧ d ∉ word) :
    Separated d ([d].intercalate words) := by
  induction words with
  | nil => exact absurd rfl hne
  | cons word words ih =>
    rw [List.forall_mem_cons] at h
    cases words with
    | nil =>
      rw [List.intercalate_singleton]
      exact (separated_of_free h.1.2).2 h.1.1
    | cons word' words =>
      rw [List.intercalate_cons_cons, List.append_assoc, List.singleton_append]
      exact (separated_append_cons h.1.2).2 ⟨h.1.1, .inr (ih (List.cons_ne_nil _ _) h.2)⟩

end Joined

/-! ## Finding the tokens one after the other -/

/-- The first token, and what is left behind the delimiter that ends it. -/
def nextToken (d : α) (s : List α) : Option (List α × List α) :=
  match s.dropWhile (· = d) with
  | [] => none
  | c :: s => some ((c :: s).takeWhile (· ≠ d), ((c :: s).dropWhile (· ≠ d)).tail)

section nextToken
variable {s xs ys token rest : List α}

theorem nextToken_cons_self (s : List α) : nextToken d (d :: s) = nextToken d s := by
  rw [nextToken, List.dropWhile_cons_of_pos (by simp), nextToken]

theorem nextToken_append_of_free (hxs : d ∉ xs) (hne : xs ≠ []) (ys : List α) :
    nextToken d (xs ++ ys)
      = some (xs ++ ys.takeWhile (· ≠ d), (ys.dropWhile (· ≠ d)).tail) := by
  have hall : ∀ x ∈ xs, (decide (x ≠ d)) = true := by
    intro x hx
    rw [decide_eq_true_iff]
    rintro rfl
    exact hxs hx
  obtain ⟨x, rest, rfl⟩ := List.exists_cons_of_ne_nil hne
  have hskip : (x :: rest ++ ys).dropWhile (· = d) = x :: rest ++ ys := by
    refine List.dropWhile_cons_of_neg ?_
    simpa using hall x List.mem_cons_self
  rw [nextToken, hskip, List.cons_append]
  dsimp only
  rw [← List.cons_append, List.takeWhile_append_of_pos hall, List.dropWhile_append_of_pos hall]

theorem nextToken_of_free (hd : d ∉ s) (hs : s ≠ []) : nextToken d s = some (s, []) := by
  have h := nextToken_append_of_free hd hs []
  simpa using h

theorem nextToken_append_cons (hxs : d ∉ xs) (hne : xs ≠ []) :
    nextToken d (xs ++ d :: ys) = some (xs, ys) := by
  rw [nextToken_append_of_free hxs hne]
  simp

theorem tokens_of_nextToken_none (h : nextToken d s = none) : tokens d s = [] := by
  induction s using cut_induction (d := d) with
  | free s hd =>
    by_cases hs : s = []
    · rw [hs, tokens_nil]
    · cases (nextToken_of_free hd hs).symm.trans h
  | cut xs ys hxs ih =>
    by_cases hne : xs = []
    · rw [hne, List.nil_append, nextToken_cons_self] at h
      rw [hne, tokens_append_cons, tokens_nil, List.nil_append, ih h]
    · cases (nextToken_append_cons hxs hne).symm.trans h

/-- The scan finds the first token, and leaves the others. -/
theorem tokens_of_nextToken_some (h : nextToken d s = some (token, rest)) :
    tokens d s = token :: tokens d rest ∧ rest.length < s.length := by
  induction s using cut_induction (d := d) with
  | free s hd =>
    have hs : s ≠ [] := by
      rintro rfl
      cases h
    cases (nextToken_of_free hd hs).symm.trans h
    rw [tokens_of_free hd, if_neg hs, tokens_nil]
    exact ⟨rfl, List.length_pos_iff.2 hs⟩
  | cut xs ys hxs ih =>
    rw [tokens_append_cons, List.length_append, List.length_cons]
    by_cases hne : xs = []
    · rw [hne, List.nil_append, nextToken_cons_self] at h
      obtain ⟨htokens, hlt⟩ := ih h
      rw [hne, tokens_nil, List.nil_append]
      exact ⟨htokens, by omega⟩
    · cases (nextToken_append_cons hxs hne).symm.trans h
      rw [tokens_of_free hxs, if_neg hne]
      exact ⟨rfl, by omega⟩

end nextToken

end CMTestbed.Lib
