import Mathlib.Algebra.BigOperators.Group.List.Basic
import Mathlib.Algebra.Ring.Nat
import Mathlib.Data.List.Nodup

/-!
# Flooding a tree

Every node that receives something hands it on to its children.  Where no node is the child of two,
each node within reach receives it exactly once (`count_flood`).
-/

namespace CMTestbed.Lib

variable {V : Type*}

/-- Who receives what `u` receives, within fewer than `k` hops. -/
def flood (children : V → List V) : ℕ → V → List V
  | 0, _ => []
  | k + 1, u => u :: (children u).flatMap (flood children k)

/-- The children of the nodes of a tree, which lie one level deeper. -/
structure Tree (children : V → List V) (top : V) (nodes : V → Prop) (depth : V → ℕ) : Prop where
  nodup : ∀ u, (children u).Nodup
  unique : ∀ u u' v, v ∈ children u → v ∈ children u' → u = u'
  root : ∀ u, top ∉ children u
  child : ∀ u v, v ∈ children u → depth v = depth u + 1
  parent : ∀ v, nodes v → v ≠ top → ∃ u, nodes u ∧ v ∈ children u

variable [DecidableEq V] {children : V → List V} {top : V} {nodes : V → Prop} {depth : V → ℕ}
  {k : ℕ} {u v p : V}

theorem count_flood_succ :
    (flood children (k + 1) u).count v = (if u = v then 1 else 0)
      + ((children u).map fun c => (flood children k c).count v).sum := by
  rw [flood, List.count_cons, List.count_flatMap, Nat.add_comm]
  simp [Function.comp_def]

/-- Who is no child receives nothing from others. -/
theorem count_flood_of_not_child (hv : ∀ u, v ∉ children u) :
    (flood children (k + 1) u).count v = if u = v then 1 else 0 := by
  induction k generalizing u with
  | zero => rw [count_flood_succ]; simp [flood]
  | succ k ih =>
    have hzero : ((children u).map fun c => (flood children (k + 1) c).count v).sum = 0 := by
      rw [List.sum_eq_zero_iff_forall_eq_nat]
      intro x hx
      obtain ⟨c, hc, rfl⟩ := List.mem_map.1 hx
      have hcv : c ≠ v := fun heq => hv u (heq ▸ hc)
      rw [ih, if_neg hcv]
    rw [count_flood_succ, hzero, Nat.add_zero]

omit [DecidableEq V] in
theorem not_mem_flood (hv : ∀ u, v ∉ children u) : u ≠ v → v ∉ flood children k u := by
  induction k generalizing u with
  | zero => exact fun _ => List.not_mem_nil
  | succ k ih =>
    intro hne hmem
    rcases List.mem_cons.1 hmem with rfl | hmem
    · exact hne rfl
    · obtain ⟨c, hc, hmem⟩ := List.mem_flatMap.1 hmem
      exact ih (fun heq => hv u (heq ▸ hc)) hmem

theorem sum_ite_eq_of_nodup {l : List V} (h : l.Nodup) :
    (l.map fun c => if c = v then 1 else 0).sum = if v ∈ l then 1 else 0 := by
  induction l with
  | nil => rfl
  | cons a l ih =>
    rw [List.nodup_cons] at h
    rw [List.map_cons, List.sum_cons, ih h.2]
    by_cases ha : a = v
    · subst ha
      simp [h.1]
    · simp [ha, Ne.symm ha]

/-- A child receives once what its parent receives. -/
theorem count_flood_child (h : Tree children top nodes depth) (hv : v ∈ children p) :
    (flood children (k + 1) u).count v
      = (if u = v then 1 else 0) + (flood children k u).count p := by
  induction k generalizing u with
  | zero => rw [count_flood_succ]; simp [flood]
  | succ k ih =>
    have hchild : (v ∈ children u) ↔ u = p :=
      ⟨fun hu => h.unique u p v hu hv, fun heq => heq ▸ hv⟩
    rw [count_flood_succ, count_flood_succ]
    congr 1
    calc ((children u).map fun c => (flood children (k + 1) c).count v).sum
        = ((children u).map fun c =>
            (if c = v then 1 else 0) + (flood children k c).count p).sum := by
          refine congrArg List.sum (List.map_congr_left fun c _ => ih)
      _ = ((children u).map fun c => if c = v then 1 else 0).sum
          + ((children u).map fun c => (flood children k c).count p).sum := List.sum_map_add
      _ = (if u = p then 1 else 0)
          + ((children u).map fun c => (flood children k c).count p).sum := by
          rw [sum_ite_eq_of_nodup (h.nodup u), if_congr hchild rfl rfl]

/-- A flood from the top reaches every node once it has gone as many hops as the node is deep, and
never again. -/
theorem count_flood (h : Tree children top nodes depth) :
    ∀ {k : ℕ} {v : V}, nodes v → depth v < k → (flood children k top).count v = 1 := by
  intro k
  induction k with
  | zero => exact fun _ hk => absurd hk (Nat.not_lt_zero _)
  | succ k ih =>
    intro v hv hk
    by_cases hvt : v = top
    · subst hvt
      rw [count_flood_of_not_child h.root, if_pos rfl]
    · obtain ⟨p, hp, hvp⟩ := h.parent v hv hvt
      have hdepth := h.child p v hvp
      rw [count_flood_child h hvp, if_neg (Ne.symm hvt), ih hp (by omega)]

end CMTestbed.Lib
