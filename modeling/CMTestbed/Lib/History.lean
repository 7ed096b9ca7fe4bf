import CMTestbed.Lib.Table

/-!
# Runs of a table's operations

What a table holds after a sequence of operations is told by the sequence alone: a key has the
value of its last set, unless it was deleted or the table refreshed since.

A pass calls `next` from the reset cursor until it finds nothing, with any other operations in
between.  As long as no deletion skips a node, a key present throughout is returned exactly once.
-/

namespace CMTestbed.Lib

variable {K V : Type*} {κ : Keying K}

inductive Op (K V : Type*) where
  | set (key : K) (value : V)
  | del (key : K)
  | get (key : K)
  | refresh
  | next

/-- The operation can change what is found under `key`. -/
def Op.Changes (κ : Keying K) (key : K) : Op K V → Prop
  | .set k _ => κ.rank k = κ.rank key
  | .del k => κ.rank k = κ.rank key
  | .get _ => False
  | .refresh => True
  | .next => False

/-- The last operation that changed `key` gave it `value`. -/
def LastSet (κ : Keying K) (ops : List (Op K V)) (key : K) (value : V) : Prop :=
  ∃ ops₁ k ops₂, ops = ops₁ ++ .set k value :: ops₂ ∧ κ.rank k = κ.rank key
    ∧ ∀ op ∈ ops₂, ¬ op.Changes κ key

theorem not_lastSet_nil (key : K) (value : V) : ¬ LastSet κ [] key value := by
  rintro ⟨ops₁, k, ops₂, h, -⟩
  simp at h

theorem lastSet_concat {ops : List (Op K V)} {op : Op K V} {key : K} {value : V} :
    LastSet κ (ops ++ [op]) key value
      ↔ (∃ k, op = .set k value ∧ κ.rank k = κ.rank key)
        ∨ ¬ op.Changes κ key ∧ LastSet κ ops key value := by
  constructor
  · rintro ⟨ops₁, k, ops₂, h, hk, hops⟩
    rcases List.eq_nil_or_concat' ops₂ with rfl | ⟨ops₂, op', rfl⟩
    · obtain ⟨-, hop⟩ := List.append_inj' h rfl
      exact .inl ⟨k, by simpa using hop, hk⟩
    · rw [← List.cons_append, ← List.append_assoc] at h
      obtain ⟨rfl, hop⟩ := List.append_inj' h rfl
      obtain rfl : op = op' := by simpa using hop
      refine .inr ⟨hops op (by simp), ops₁, k, ops₂, rfl, hk, fun o ho => hops o ?_⟩
      exact List.mem_append_left _ ho
  · rintro (⟨k, rfl, hk⟩ | ⟨hop, ops₁, k, ops₂, rfl, hk, hops⟩)
    · exact ⟨ops, k, [], rfl, hk, by simp⟩
    · refine ⟨ops₁, k, ops₂ ++ [op], by simp, hk, fun o ho => ?_⟩
      rcases List.mem_append.1 ho with ho | ho
      · exact hops o ho
      · rwa [List.mem_singleton.1 ho]

namespace Table

def apply (t : Table κ V) : Op K V → Table κ V
  | .set key value => t.set key value
  | .del key => t.del key
  | .get _ => t
  | .refresh => t.refresh
  | .next => t.next.1

def run (t : Table κ V) (ops : List (Op K V)) : Table κ V := ops.foldl apply t

@[simp] theorem run_nil (t : Table κ V) : t.run [] = t := rfl

@[simp] theorem run_cons (t : Table κ V) (op : Op K V) (ops : List (Op K V)) :
    t.run (op :: ops) = (t.apply op).run ops := rfl

theorem run_concat (t : Table κ V) (ops : List (Op K V)) (op : Op K V) :
    t.run (ops ++ [op]) = (t.run ops).apply op := by
  simp [run]

theorem get_apply_of_not_changes (t : Table κ V) {op : Op K V} {key : K}
    (h : ¬ op.Changes κ key) : (t.apply op).get key = t.get key := by
  cases op with
  | set k v => rw [apply, get_set, if_neg fun hk => h hk.symm]
  | del k => rw [apply, get_del, if_neg fun hk => h hk.symm]
  | get k => rfl
  | refresh => exact absurd trivial h
  | next => exact get_next t key

/-- A change of a key sets it or removes it. -/
theorem get_apply_of_changes (t : Table κ V) {op : Op K V} {key : K} (h : op.Changes κ key)
    (v : V) : (t.apply op).get key = some v ↔ ∃ k, op = .set k v ∧ κ.rank k = κ.rank key := by
  cases op with
  | set k w =>
    have hk : κ.rank k = κ.rank key := h
    rw [apply, get_set, if_pos hk.symm]
    constructor
    · intro hw
      cases hw
      exact ⟨k, rfl, hk⟩
    · rintro ⟨k', hk', -⟩
      cases hk'
      rfl
  | del k =>
    rw [apply, get_del, if_pos (Eq.symm h)]
    simp
  | get k => exact absurd h id
  | refresh => simp [apply]
  | next => exact absurd h id

/-- A table holds what its history says. -/
theorem get_run (ops : List (Op K V)) (key : K) (v : V) :
    ((create : Table κ V).run ops).get key = some v ↔ LastSet κ ops key v := by
  induction ops using List.reverseRecOn with
  | nil => simpa using not_lastSet_nil key v
  | append_singleton ops op ih =>
    rw [run_concat, lastSet_concat, ← ih]
    by_cases h : op.Changes κ key
    · rw [get_apply_of_changes _ h]
      simp [h]
    · rw [get_apply_of_not_changes _ h]
      refine ⟨fun hv => .inr ⟨h, hv⟩, ?_⟩
      rintro (⟨k, rfl, hk⟩ | ⟨-, hv⟩)
      · exact absurd hk h
      · exact hv

/-! ## Passes -/

/-- What the calls of `next` return, in their order. -/
def returned (t : Table κ V) : List (Op K V) → List (Option (K × V))
  | [] => []
  | .next :: ops => t.next.2 :: t.next.1.returned ops
  | op :: ops => (t.apply op).returned ops

/-- From the reset cursor on, the calls of `next` among `ops` return `l`; one more returns
nothing. -/
structure Pass (t : Table κ V) (ops : List (Op K V)) (l : List (K × V)) : Prop where
  reset : t.AtReset
  returned : t.returned ops = l.map some
  last : (t.run ops).next.2 = none

/-- The key is in the table at the start and after each of the operations. -/
def Stays (t : Table κ V) (key : K) : List (Op K V) → Prop
  | [] => t.get key ≠ none
  | op :: ops => t.get key ≠ none ∧ (t.apply op).Stays key ops

/-- No deletion among the operations takes away the node the cursor is on while another follows
it. -/
def NoSkips (t : Table κ V) : List (Op K V) → Prop
  | [] => True
  | op :: ops => (∀ key, op = .del key → ¬ t.Skips key) ∧ (t.apply op).NoSkips ops

theorem Stays.start {t : Table κ V} {key : K} : ∀ {ops : List (Op K V)}, t.Stays key ops →
    t.get key ≠ none
  | [], h => h
  | _ :: _, h => h.1

theorem passed_congr (t : Table κ V) {k k' : K} (h : κ.rank k = κ.rank k') :
    t.Passed k ↔ t.Passed k' := by
  rw [Passed, Passed, Raw.Passed, Raw.Passed, κ.bin_congr h, h]

open scoped Classical in
/-- One for a key the cursor has passed. -/
noncomputable def visits (t : Table κ V) (key : K) : ℕ := if t.Passed key then 1 else 0

open scoped Classical in
theorem visits_congr {t t' : Table κ V} {key : K} (h : t.Passed key ↔ t'.Passed key) :
    t.visits key = t'.visits key :=
  if_congr h rfl rfl

/-- An operation other than `next` leaves the cursor before or behind a key that stays. -/
theorem visits_apply {t : Table κ V} {op : Op K V} {key : K} (hop : op ≠ .next)
    (hskip : ∀ k, op = .del k → ¬ t.Skips k) (h : t.get key ≠ none)
    (h' : (t.apply op).get key ≠ none) : (t.apply op).visits key = t.visits key := by
  have hiff : (t.apply op).Passed key ↔ t.Passed key := by
    cases op with
    | set k v => exact passed_set t k key v
    | del k =>
      refine ⟨fun hp => ?_, Passed.del⟩
      exact (passed_of_del (hskip k rfl) hp).resolve_right h
    | get k => rfl
    | refresh => exact absurd (get_refresh t key) h'
    | next => exact absurd rfl hop
  exact visits_congr hiff

/-- `next` returns the key exactly if it moves the cursor past it. -/
theorem visits_next {t : Table κ V} {k : K} {v : V} (hn : t.next.2 = some (k, v)) {key : K}
    (h : t.get key ≠ none) :
    t.next.1.visits key = t.visits key + if κ.rank k = κ.rank key then 1 else 0 := by
  obtain ⟨-, hnp, hbefore, hmono, honly⟩ := next_some hn
  unfold visits
  by_cases hk : κ.rank k = κ.rank key
  · have hp : ¬ t.Passed key := by rwa [← passed_congr t hk]
    have hp' : t.next.1.Passed key := (hbefore key).2 (.inr ⟨(κ.bin_congr hk).symm, hk.ge⟩)
    simp [hk, hp, hp']
  · have hiff : t.next.1.Passed key ↔ t.Passed key := by
      refine ⟨fun hp' => ?_, hmono key⟩
      exact (honly key h hp').resolve_right fun h0 => hk h0.symm
    rw [if_neg hk, Nat.add_zero]
    exact visits_congr hiff

/-- How often a key that stays is returned: once if the cursor gets past it. -/
theorem countP_returned {key : K} : ∀ {ops : List (Op K V)} {t : Table κ V} {l : List (K × V)},
    t.returned ops = l.map some → t.Stays key ops → t.NoSkips ops →
      (t.run ops).visits key
        = t.visits key + l.countP fun e => decide (κ.rank e.1 = κ.rank key)
  | [], t, l, hl, _, _ => by
    obtain rfl : l = [] := by simpa [returned] using hl.symm
    simp
  | op :: ops, t, l, hl, hstay, hskip => by
    obtain ⟨h, hstay⟩ := hstay
    obtain ⟨hop, hskip⟩ := hskip
    by_cases hnext : op = .next
    · subst hnext
      rcases l with _ | ⟨⟨k, v⟩, l⟩
      · simp [returned] at hl
      · rw [returned, List.map_cons, List.cons.injEq] at hl
        have ih := countP_returned (t := t.next.1) hl.2 hstay hskip
        rw [visits_next hl.1 h] at ih
        rw [run_cons, List.countP_cons, apply, ih]
        simp only [decide_eq_true_eq]
        omega
    · have hl' : (t.apply op).returned ops = l.map some := by
        cases op <;> first | exact absurd rfl hnext | exact hl
      rw [run_cons, countP_returned hl' hstay hskip, visits_apply hnext hop h hstay.start]

theorem Stays.last {t : Table κ V} {key : K} : ∀ {ops : List (Op K V)}, t.Stays key ops →
    (t.run ops).get key ≠ none
  | [], h => h
  | op :: _, h => Stays.last (t := t.apply op) h.2

/-- A pass that skips nothing returns each key that stays exactly once. -/
theorem Pass.once {t : Table κ V} {ops : List (Op K V)} {l : List (K × V)} (h : t.Pass ops l)
    (hskip : t.NoSkips ops) {key : K} (hstay : t.Stays key ops) :
    l.countP (fun e => decide (κ.rank e.1 = κ.rank key)) = 1 := by
  have hcount := countP_returned h.returned hstay hskip
  have hpassed : (t.run ops).Passed key :=
    (next_none h.last).1 key hstay.last
  have hnot : ¬ t.Passed key := not_passed_of_atReset h.reset key
  unfold visits at hcount
  simp only [hpassed, hnot, if_true, if_false] at hcount
  omega

/-- A key `next` returns is in the table at that moment. -/
theorem get_of_next {t : Table κ V} {k : K} {v : V} (h : t.next.2 = some (k, v)) :
    t.get k = some v :=
  (next_some h).1

theorem Pass.atReset {t : Table κ V} {ops : List (Op K V)} {l : List (K × V)} (h : t.Pass ops l) :
    (t.run ops).next.1.AtReset :=
  (next_none h.last).2

end Table

end CMTestbed.Lib
