import Mathlib.Data.List.Induction
import Mathlib.Data.List.Nodup
import Mathlib.Order.Basic

/-!
# Tables of prioritised rules

A packet may be handled by any rule that matches it and that no other such rule outranks.  A rule
that is added takes the place of the one with its match and its priority; what else is in the table
does not depend on it (`filter_hits_install`).
-/

namespace CMTestbed.Lib

/-- Rules for packets.  The key of a rule is all that says which packets it matches, and its
priority. -/
structure FlowTable (R P K : Type*) where
  key : R → K
  hits : R → P → Bool
  priority : R → ℕ
  hits_of_key : ∀ {r r' : R} (p : P), key r = key r' → hits r p = hits r' p

namespace FlowTable

variable {R P K : Type*} [DecidableEq K] (T : FlowTable R P K)

def add (table : List R) (r : R) : List R := table.filter (T.key · ≠ T.key r) ++ [r]

/-- The table after the rules have been added to an empty one. -/
def install (rules : List R) : List R := rules.foldl T.add []

omit [DecidableEq K] in
/-- The rules that a packet may be handled by. -/
def handlers (table : List R) (p : P) : List R :=
  (table.filter (T.hits · p)).filter fun r =>
    (table.filter (T.hits · p)).all fun r' => T.priority r' ≤ T.priority r

variable {T} {table rules : List R} {p : P} {r : R}

/-! ## Adding rules -/

theorem install_concat (rules : List R) (r : R) :
    T.install (rules ++ [r]) = T.add (T.install rules) r := by
  rw [install, install, List.foldl_append, List.foldl_cons, List.foldl_nil]

theorem filter_hits_add : (T.add table r).filter (T.hits · p)
    = if T.hits r p then T.add (table.filter (T.hits · p)) r else table.filter (T.hits · p) := by
  rw [add, add, List.filter_append, List.filter_filter]
  split
  · next h =>
    rw [List.filter_filter]
    simp [h, Bool.and_comm]
  · next h =>
    have hne : ∀ r' ∈ table, (T.hits r' p && decide (T.key r' ≠ T.key r)) = T.hits r' p := by
      intro r' _
      cases hr' : T.hits r' p with
      | false => rfl
      | true =>
        have hkey : T.key r' ≠ T.key r := fun hk => h (T.hits_of_key p hk ▸ hr')
        simp [hkey]
    rw [List.filter_congr hne]
    simp [h]

/-- Which rules match a packet is decided by the rules that match it. -/
theorem filter_hits_install (rules : List R) (p : P) :
    (T.install rules).filter (T.hits · p) = T.install (rules.filter (T.hits · p)) := by
  induction rules using List.reverseRecOn with
  | nil => rfl
  | append_singleton rules r ih =>
    rw [install_concat, filter_hits_add, ih, List.filter_append]
    cases hr : T.hits r p <;> simp [hr, install_concat]

/-- Rules with keys of their own are all kept. -/
theorem install_of_nodup (h : (rules.map T.key).Nodup) : T.install rules = rules := by
  induction rules using List.reverseRecOn with
  | nil => rfl
  | append_singleton rules r ih =>
    rw [List.map_append, List.nodup_append] at h
    have hkeep : ∀ r' ∈ rules, decide (T.key r' ≠ T.key r) = true := fun r' hr' =>
      decide_eq_true (h.2.2 _ (List.mem_map_of_mem hr') _ (by simp))
    rw [install_concat, ih h.1, add, List.filter_eq_self.2 hkeep]

theorem install_subset (rules : List R) : T.install rules ⊆ rules := by
  induction rules using List.reverseRecOn with
  | nil => exact List.Subset.refl _
  | append_singleton rules r ih =>
    rw [install_concat, add]
    exact List.append_subset.2 ⟨fun r' hr' =>
      List.mem_append_left _ (ih (List.mem_filter.1 hr').1), List.subset_append_right _ _⟩

/-! ## Handling packets -/

omit [DecidableEq K] in
/-- A rule handles every packet that no other one matches. -/
theorem handlers_of_single (h : table.filter (T.hits · p) = [r]) : T.handlers table p = [r] := by
  rw [handlers, h]
  simp

omit [DecidableEq K] in
/-- A rule that outranks the other ones for a packet handles it. -/
theorem handlers_of_outranks {low : List R} (h : table.filter (T.hits · p) = low ++ [r])
    (hlow : ∀ r' ∈ low, T.priority r' < T.priority r) : T.handlers table p = [r] := by
  have hout : low.filter (fun r' => (low ++ [r]).all fun r'' => T.priority r'' ≤ T.priority r')
      = [] := by
    refine List.filter_eq_nil_iff.2 fun r' hr' hall => ?_
    have hle := of_decide_eq_true (List.all_eq_true.1 hall r (by simp))
    exact absurd hle (Nat.not_le.2 (hlow r' hr'))
  have hall : (low ++ [r]).all (fun r' => T.priority r' ≤ T.priority r) = true := by
    rw [List.all_append, Bool.and_eq_true, List.all_eq_true]
    exact ⟨fun r' hr' => decide_eq_true (Nat.le_of_lt (hlow r' hr')), by simp⟩
  rw [handlers, h, List.filter_append, hout, List.nil_append, List.filter_singleton, hall]
  rfl

omit [DecidableEq K] in
theorem handlers_of_none (h : table.filter (T.hits · p) = []) : T.handlers table p = [] := by
  rw [handlers, h]
  rfl

/-- A packet is handled by the one installed rule that matches it. -/
theorem handlers_install_of_single (h : rules.filter (T.hits · p) = [r]) :
    T.handlers (T.install rules) p = [r] := by
  refine handlers_of_single ?_
  rw [filter_hits_install, h]
  exact install_of_nodup (List.nodup_singleton _)

theorem handlers_install_of_none (h : rules.filter (T.hits · p) = []) :
    T.handlers (T.install rules) p = [] := by
  refine handlers_of_none ?_
  rw [filter_hits_install, h]
  rfl

/-- Of the installed rules that match a packet, the one added last handles it if it outranks the
other ones. -/
theorem handlers_install_of_outranks {low : List R}
    (h : rules.filter (T.hits · p) = low ++ [r])
    (hlow : ∀ r' ∈ low, T.priority r' < T.priority r) : T.handlers (T.install rules) p = [r] := by
  have hlast : (T.install rules).filter (T.hits · p)
      = (T.install low).filter (T.key · ≠ T.key r) ++ [r] := by
    rw [filter_hits_install, h, install_concat, add]
  exact handlers_of_outranks hlast fun r' hr' =>
    hlow r' (install_subset low (List.mem_filter.1 hr').1)

end FlowTable

end CMTestbed.Lib
