import CMTestbed.Lib.History

/-!
# Copying a table

A copy is filled with what `next` returns.  At each turn it has of the table what the cursor has
passed, and nothing else (`CopiedTo`), so that it has all of it once `next` finds nothing.  The
cursor it starts from is at rest after any operations that leave no pass unfinished (`PassesOver`).
-/

namespace CMTestbed.Lib.Table

variable {K V : Type*} {κ : Keying K}

section Copied
variable {t r : Table κ V} {k : K} {v : V}

/-- The copy has of the table what the cursor has passed. -/
structure CopiedTo (t r : Table κ V) : Prop where
  passed : ∀ k, t.Passed k → r.get k = t.get k
  ahead : ∀ k, ¬ t.Passed k → r.get k = none

theorem copiedTo_create (h : t.AtReset) : t.CopiedTo create where
  passed k hk := absurd hk (not_passed_of_atReset h k)
  ahead k _ := get_create k

/-- One turn: the cursor passes the key that is set. -/
theorem CopiedTo.next (h : t.CopiedTo r) (hn : t.next.2 = some (k, v)) :
    t.next.1.CopiedTo (r.set k v) := by
  obtain ⟨hget, -, hbefore, hmono, honly⟩ := next_some hn
  have hpassed : t.next.1.Passed k := (hbefore k).2 (.inr ⟨rfl, le_rfl⟩)
  refine ⟨fun k' hk' => ?_, fun k' hk' => ?_⟩
  · rw [get_set, get_next]
    split_ifs with hrank
    · rw [get_congr hrank, hget]
    · by_cases hp : t.Passed k'
      · exact h.passed k' hp
      · -- what else the cursor has passed now is absent
        have hnone : t.get k' = none := by
          by_contra hne
          exact hrank ((honly k' hne hk').resolve_left hp)
        rw [hnone, h.ahead k' hp]
  · have hrank : κ.rank k' ≠ κ.rank k := fun hrank => hk' ((passed_congr _ hrank).2 hpassed)
    rw [get_set, if_neg hrank]
    exact h.ahead k' fun hp => hk' (hmono k' hp)

theorem CopiedTo.get (h : t.CopiedTo r) (hn : t.next.2 = none) (k : K) : r.get k = t.get k := by
  by_cases hp : t.Passed k
  · exact h.passed k hp
  · have hnone : t.get k = none := by
      by_contra hne
      exact hp ((next_none hn).1 k hne)
    rw [hnone, h.ahead k hp]

end Copied

section Passes
variable {t : Table κ V} {ops : List (Op K V)}

/-- The last `next` since the table was last refreshed, if there is one, finds nothing. -/
def PassesOver (t : Table κ V) (ops : List (Op K V)) : Prop :=
  ∀ ops₁ ops₂, ops = ops₁ ++ .next :: ops₂ → .next ∉ ops₂ → .refresh ∉ ops₂ →
    (t.run ops₁).next.2 = none

theorem PassesOver.init {op : Op K V} (h : t.PassesOver (ops ++ [op])) (hnext : op ≠ .next)
    (hrefresh : op ≠ .refresh) : t.PassesOver ops := by
  rintro ops₁ ops₂ rfl hn hr
  refine h ops₁ (ops₂ ++ [op]) (by simp) ?_ ?_
  · simp [hn, hnext.symm]
  · simp [hr, hrefresh.symm]

theorem atReset_refresh (t : Table κ V) : t.refresh.AtReset := ⟨rfl, rfl⟩

/-- The cursor is at rest when the passes are over. -/
theorem atReset_run (h : t.AtReset) (hops : t.PassesOver ops) : (t.run ops).AtReset := by
  induction ops using List.reverseRecOn with
  | nil => exact h
  | append_singleton ops op ih =>
    rw [run_concat]
    cases op with
    | set key value => exact (ih (hops.init nofun nofun)).set key value
    | del key => exact (ih (hops.init nofun nofun)).del key
    | get key => exact ih (hops.init nofun nofun)
    | refresh => exact atReset_refresh _
    | next => exact (next_none (hops ops [] rfl nofun nofun)).2

end Passes

end CMTestbed.Lib.Table
