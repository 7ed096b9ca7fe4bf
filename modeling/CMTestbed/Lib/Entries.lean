import CMTestbed.Lib.History
import Mathlib.Data.List.Nodup
import Mathlib.Data.List.Perm.Basic
import Mathlib.Data.Set.Card

/-!
# The entries of a table

A loop that calls `next` until it finds nothing visits each entry once, from a cursor that is reset,
and leaves the table as it was.  Among entries of different keys, those of some keys are counted as
the keys are.
-/

namespace CMTestbed.Lib.Table

variable {K V : Type*} {κ : Keying K}

/-- The table after the loop, and the entries visited. -/
def passFrom : ℕ → Table κ V → Table κ V × List (K × V)
  | 0, t => (t, [])
  | fuel + 1, t =>
    match t.next with
    | (t', some e) => ((passFrom fuel t').1, e :: (passFrom fuel t').2)
    | (t', none) => (t', [])

def pass (t : Table κ V) : Table κ V × List (K × V) := passFrom (t.raw.heap.brk + 1) t

theorem remaining_le (t : Table κ V) : t.remaining ≤ t.raw.heap.brk := by
  classical
  exact (Finset.card_filter_le _ _).trans_eq (Finset.card_range _)

/-- From any cursor the loop visits what the cursor has not passed. -/
theorem passFrom_spec : ∀ {fuel : ℕ} {t : Table κ V}, t.remaining < fuel →
    (t.passFrom fuel).1.AtReset ∧ (t.passFrom fuel).1.SameNodes t
      ∧ (∀ e ∈ (t.passFrom fuel).2, t.get e.1 = some e.2 ∧ ¬ t.Passed e.1)
      ∧ (∀ k v, t.get k = some v → ¬ t.Passed k →
        ∃ e ∈ (t.passFrom fuel).2, κ.rank e.1 = κ.rank k ∧ e.2 = v)
      ∧ ((t.passFrom fuel).2.map fun e => κ.rank e.1).Nodup
  | 0, t, h => by omega
  | fuel + 1, t, h => by
    have hsame := t.sameNodes_next
    rcases hn : t.next with ⟨t', _ | ⟨k₀, v₀⟩⟩
    · obtain ⟨hall, hreset⟩ := next_none (congrArg Prod.snd hn)
      rw [hn] at hreset hsame
      simp only [passFrom, hn]
      exact ⟨hreset, hsame, by simp, fun k v hk hnp => absurd (hall k (by simp [hk])) hnp,
        List.nodup_nil⟩
    · have hsome : t.next.2 = some (k₀, v₀) := congrArg Prod.snd hn
      obtain ⟨hget, hnp, hbefore, hmono, honly⟩ := next_some hsome
      have hpassed : t.next.1.Passed k₀ := (hbefore k₀).2 (.inr ⟨rfl, le_rfl⟩)
      have hlt := remaining_next_lt hsome
      have hgets := fun k => t.get_next k
      rw [hn] at hmono honly hlt hsame hpassed hgets
      have hlt' : t'.remaining < fuel := by
        dsimp only at hlt
        omega
      obtain ⟨hreset, hsame', hmem, hcomplete, hnodup⟩ := passFrom_spec hlt'
      simp only [passFrom, hn]
      refine ⟨hreset, hsame'.trans hsame, ?_, fun k v hk hk' => ?_, ?_⟩
      · rintro e he
        obtain rfl | he := List.mem_cons.1 he
        · exact ⟨hget, hnp⟩
        · obtain ⟨hek, hep⟩ := hmem e he
          exact ⟨(hgets _).symm.trans hek, fun hp => hep (hmono _ hp)⟩
      · by_cases hp : t'.Passed k
        · -- it is the entry just returned
          have hrank := (honly k (by simp [hk]) hp).resolve_left hk'
          refine ⟨_, List.mem_cons_self, hrank.symm, ?_⟩
          rw [get_congr hrank, hget] at hk
          exact Option.some.inj hk
        · obtain ⟨e, he, heq⟩ := hcomplete k v ((hgets k).trans hk) hp
          exact ⟨e, List.mem_cons_of_mem _ he, heq⟩
      · rw [List.map_cons, List.nodup_cons]
        refine ⟨fun h => ?_, hnodup⟩
        obtain ⟨e, he, hek⟩ := List.mem_map.1 h
        exact (hmem e he).2 ((passed_congr t' hek).2 hpassed)

/-- From a reset cursor the loop visits each entry once and leaves the table as it was. -/
theorem pass_spec {t : Table κ V} (h : t.AtReset) :
    t.pass.1 = t ∧ (∀ e ∈ t.pass.2, t.get e.1 = some e.2)
      ∧ (∀ k v, t.get k = some v → ∃ e ∈ t.pass.2, κ.rank e.1 = κ.rank k ∧ e.2 = v)
      ∧ (t.pass.2.map fun e => κ.rank e.1).Nodup := by
  obtain ⟨hreset, hsame, hmem, hcomplete, hnodup⟩ :=
    passFrom_spec (Nat.lt_succ_of_le t.remaining_le)
  exact ⟨hreset.eq_of_sameNodes h hsame, fun e he => (hmem e he).1,
    fun k v hk => hcomplete k v hk (not_passed_of_atReset h k), hnodup⟩

end CMTestbed.Lib.Table

/-! ## Entries and keys -/

namespace CMTestbed.Lib

variable {K V : Type*} [DecidableEq K] {entries : List (K × V)} {keys : List K} {value : K → V}

/-- Entries with one of the keys are counted as the keys are. -/
theorem countP_entries_of_keys (hentries : (entries.map Prod.fst).Nodup) (hkeys : keys.Nodup)
    (hvalue : ∀ k ∈ keys, (k, value k) ∈ entries) (p : V → Bool) :
    entries.countP (fun e => p e.2 && decide (e.1 ∈ keys)) = keys.countP fun k => p (value k) := by
  have huniq : ∀ e ∈ entries, e.1 ∈ keys → e.2 = value e.1 := by
    intro e he hk
    have := List.inj_on_of_nodup_map hentries he (hvalue _ hk) rfl
    rw [this]
  have hperm : ((entries.filter fun e => p e.2 && decide (e.1 ∈ keys)).map Prod.fst).Perm
      (keys.filter fun k => p (value k)) := by
    rw [List.perm_ext_iff_of_nodup (hentries.sublist (List.filter_sublist.map _))
      (hkeys.filter _)]
    intro k
    rw [List.mem_map, List.mem_filter]
    constructor
    · rintro ⟨e, he, rfl⟩
      rw [List.mem_filter, Bool.and_eq_true, decide_eq_true_eq] at he
      exact ⟨he.2.2, by rw [← huniq e he.1 he.2.2]; exact he.2.1⟩
    · rintro ⟨hk, hp⟩
      refine ⟨_, List.mem_filter.2 ⟨hvalue k hk, ?_⟩, rfl⟩
      rw [Bool.and_eq_true, decide_eq_true_eq]
      exact ⟨hp, hk⟩
  rw [List.countP_eq_length_filter, List.countP_eq_length_filter, ← hperm.length_eq,
    List.length_map]

/-- Keys are no more than the entries that pass, exactly if no more of them fail than other entries
pass. -/
theorem length_le_countP_iff (hentries : (entries.map Prod.fst).Nodup) (hkeys : keys.Nodup)
    (hvalue : ∀ k ∈ keys, (k, value k) ∈ entries) (p : V → Bool) :
    keys.length ≤ entries.countP (fun e => p e.2)
      ↔ keys.countP (fun k => !p (value k))
        ≤ entries.countP fun e => p e.2 && !decide (e.1 ∈ keys) := by
  have hsplit := entries.countP_eq_countP_filter_add (fun e => p e.2) (fun e => decide (e.1 ∈ keys))
  simp only [List.countP_filter] at hsplit
  have hkeys' := keys.length_eq_countP_add_countP fun k => p (value k)
  have hsame := countP_entries_of_keys hentries hkeys hvalue p
  simp only [Bool.not_eq_true, Bool.decide_eq_false] at hkeys' hsplit
  omega

/-! ## Counting as sets -/

theorem countP_eq_ncard (hkeys : keys.Nodup) (p : K → Bool) :
    keys.countP p = {k | k ∈ keys ∧ p k}.ncard := by
  have hset : {k | k ∈ keys ∧ p k} = ((keys.filter p).toFinset : Set K) := by
    ext k
    simp
  rw [hset, Set.ncard_coe_finset, List.toFinset_card_of_nodup (hkeys.filter p),
    List.countP_eq_length_filter]

/-- Entries of different keys are counted by their keys. -/
theorem countP_entries_eq_ncard (hentries : (entries.map Prod.fst).Nodup) (p : K × V → Bool) :
    entries.countP p = {k | ∃ v, (k, v) ∈ entries ∧ p (k, v)}.ncard := by
  have hset : {k | ∃ v, (k, v) ∈ entries ∧ p (k, v)}
      = (((entries.filter p).map Prod.fst).toFinset : Set K) := by
    ext k
    simp
  rw [hset, Set.ncard_coe_finset, List.toFinset_card_of_nodup
    (hentries.sublist (List.filter_sublist.map _)), List.length_map,
    List.countP_eq_length_filter]

end CMTestbed.Lib
