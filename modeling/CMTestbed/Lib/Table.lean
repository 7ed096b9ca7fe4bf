import CMTestbed.Lib.ChainedTable

/-!
# The table as a finite map with a cursor

`Table κ V` is a table whose bins and cursor are well formed.  To its users it is a finite map,
read by `get`, and a cursor, of which they see the keys it has passed: those at or before the node
it stands on, in the order of bins and, within a bin, of ranks.

A deletion under the cursor moves it onto the next node, which the iteration has not returned.
`Skips` says that a deletion would do so; every other operation leaves what the cursor has passed
alone, up to keys that are absent.
-/

namespace CMTestbed.Lib

variable {K V : Type*}

/-- `k` comes at or before `k'` in the order of the iteration. -/
def Keying.Before (κ : Keying K) (k k' : K) : Prop :=
  κ.bin k < κ.bin k' ∨ κ.bin k = κ.bin k' ∧ κ.rank k ≤ κ.rank k'

namespace Raw

/-- The cursor is reset, or in a bin and on one of its nodes or on none. -/
def CursorOk (κ : Keying K) (t : Raw K V) (B : ℕ → List (ℕ × K × V)) : Prop :=
  (t.nextCurrentBin = -1 ∧ t.nextLastVisitEntry = none)
    ∨ ∃ b : ℕ, b < κ.size ∧ t.nextCurrentBin = b
      ∧ ∀ a, t.nextLastVisitEntry = some a → ∃ d, (a, d) ∈ B b

structure WF (κ : Keying K) (t : Raw K V) : Prop where
  rep : Rep κ t t.nodes
  cursor : t.CursorOk κ t.nodes

/-- The keys at or before the cursor. -/
def Passed (κ : Keying K) (t : Raw K V) (key : K) : Prop :=
  (κ.bin key : ℤ) < t.nextCurrentBin
    ∨ (κ.bin key : ℤ) = t.nextCurrentBin
      ∧ ∀ c, t.heap.deref t.nextLastVisitEntry = some c → κ.rank key ≤ κ.rank c.data.1

/-- Deleting the key would move the cursor onto a node not yet returned. -/
def Skips (κ : Keying K) (t : Raw K V) (key : K) : Prop :=
  ∃ c, t.heap.deref t.nextLastVisitEntry = some c ∧ κ.rank c.data.1 = κ.rank key
    ∧ c.next ≠ none

variable {κ : Keying K} {t : Raw K V} {B : ℕ → List (ℕ × K × V)}

theorem WF.of_rep (hr : Rep κ t B) (hc : t.CursorOk κ B) : t.WF κ := by
  obtain rfl : t.nodes = B := funext hr.nodes_eq
  exact ⟨hr, hc⟩

/-- The node the cursor is on is in the cursor's bin. -/
theorem WF.exists_node (ht : t.WF κ) {a : ℕ} (ha : t.nextLastVisitEntry = some a) :
    ∃ (b : ℕ) (d : K × V), t.nextCurrentBin = b ∧ (a, d) ∈ t.nodes b := by
  obtain ⟨b, -, hcb, hl⟩ := ht.cursor.resolve_left fun h0 => by rw [ha] at h0; cases h0.2
  obtain ⟨d, hd⟩ := hl a ha
  exact ⟨b, d, hcb, hd⟩

theorem WF.nextCurrentBin_eq (ht : t.WF κ) {a b : ℕ} {d : K × V}
    (ha : t.nextLastVisitEntry = some a) (hmem : (a, d) ∈ t.nodes b) : t.nextCurrentBin = b := by
  obtain ⟨b', d', hcb, hd'⟩ := ht.exists_node ha
  obtain rfl := ht.rep.bin_unique hd' hmem rfl
  exact hcb

theorem wf_create : (create : Raw K V).WF κ :=
  WF.of_rep Rep.create (.inl ⟨rfl, rfl⟩)

theorem wf_refresh (ht : t.WF κ) : (t.refresh κ).WF κ :=
  WF.of_rep ht.rep.refresh (.inl ⟨rfl, rfl⟩)

theorem insertPair_cursor (t : Raw K V) (key : K) (value : V) (last next : Option ℕ) :
    (t.insertPair κ key value last next).nextCurrentBin = t.nextCurrentBin
      ∧ (t.insertPair κ key value last next).nextLastVisitEntry = t.nextLastVisitEntry := by
  unfold insertPair
  dsimp only
  split_ifs <;> exact ⟨rfl, rfl⟩

theorem set_cursor (t : Raw K V) (key : K) (value : V) :
    (t.set κ key value).nextCurrentBin = t.nextCurrentBin
      ∧ (t.set κ key value).nextLastVisitEntry = t.nextLastVisitEntry := by
  unfold set
  dsimp only
  split
  · exact ⟨rfl, rfl⟩
  · exact insertPair_cursor t key value _ _

/-- What the cursor has passed, in terms of the bins. -/
theorem passed_iff (hr : Rep κ t B) (hc : t.CursorOk κ B) (key : K) :
    t.Passed κ key ↔ (κ.bin key : ℤ) < t.nextCurrentBin
      ∨ (κ.bin key : ℤ) = t.nextCurrentBin
        ∧ ∀ a d, t.nextLastVisitEntry = some a → (a, d) ∈ B (κ.bin key) →
          κ.rank key ≤ κ.rank d.1 := by
  refine or_congr_right (and_congr_right fun hb => ⟨fun h a d ha hd => ?_, fun h c hcell => ?_⟩)
  · obtain ⟨n, hn⟩ := hr.cell hd
    exact h ⟨d, n⟩ (by rw [ha]; exact hn)
  · rcases hc with ⟨-, hnone⟩ | ⟨b, -, hcur, hlast⟩
    · rw [hnone] at hcell
      cases hcell
    · rcases hl : t.nextLastVisitEntry with _ | a
      · rw [hl] at hcell
        cases hcell
      · obtain ⟨d, hd⟩ := hlast a hl
        obtain rfl : κ.bin key = b := by omega
        obtain ⟨n, hn⟩ := hr.cell hd
        rw [hl, Heap.deref_some, hn] at hcell
        cases hcell
        exact h a d hl hd

theorem skips_iff (hr : Rep κ t B) (hc : t.CursorOk κ B) {key : K} {l₁ l₂ : List (ℕ × K × V)}
    {a : ℕ} {k : K} {v : V} (hB : B (κ.bin key) = l₁ ++ (a, k, v) :: l₂)
    (hk : κ.rank k = κ.rank key) :
    t.Skips κ key ↔ t.nextLastVisitEntry = some a ∧ l₂ ≠ [] := by
  have hmem : (a, k, v) ∈ B (κ.bin key) := by rw [hB]; simp
  have hseg := hr.seg (κ.bin key)
  rw [hB] at hseg
  obtain ⟨m, -, rfl, n, hca, hs⟩ := Heap.seg_append.1 hseg
  have hn : n = l₂.head?.map Prod.fst := by simpa using hs.head
  constructor
  · rintro ⟨c, hcell, hck, hnext⟩
    rcases hl : t.nextLastVisitEntry with _ | a'
    · rw [hl] at hcell
      cases hcell
    obtain ⟨b, -, -, hlast⟩ := hc.resolve_left (fun h => by rw [hl] at h; cases h.2)
    obtain ⟨d, hd⟩ := hlast a' hl
    obtain ⟨n', hn'⟩ := hr.cell hd
    rw [hl, Heap.deref_some, hn'] at hcell
    cases hcell
    have := hr.rank_unique hmem hd (hk.trans hck.symm)
    cases this
    rw [hca] at hn'
    cases hn'
    refine ⟨rfl, ?_⟩
    rintro rfl
    exact hnext (by simpa using hn)
  · rintro ⟨hl, hne⟩
    refine ⟨⟨(k, v), n⟩, by rw [hl]; exact hca, hk, ?_⟩
    rw [hn]
    cases l₂ with
    | nil => exact absurd rfl hne
    | cons e l₂ => simp

/-! ## Setting -/

/-- What setting a key does to the bins: the key's node holds the value, the others stay. -/
theorem set_mem (hr : Rep κ t B) (key : K) (value : V) : ∃ B',
    Rep κ (t.set κ key value) B'
    ∧ (∃ a k, (a, k, value) ∈ B' (κ.bin key) ∧ κ.rank k = κ.rank key)
    ∧ (∀ b e, κ.rank e.2.1 ≠ κ.rank key → (e ∈ B' b ↔ e ∈ B b))
    ∧ ∀ b a k v, (a, k, v) ∈ B b → ∃ v', (a, k, v') ∈ B' b := by
  obtain ⟨l₁, l₂, a, k, hk, hr', hB⟩ := hr.set key value
  refine ⟨_, hr', ⟨a, k, by simp, hk⟩, fun b e he => ?_, fun b a' k' v' he => ?_⟩
  · rcases eq_or_ne b (κ.bin key) with rfl | hb
    · have hne : e ≠ (a, k, value) := by rintro rfl; exact he hk
      rw [Function.update_self]
      rcases hB with ⟨v, hB⟩ | ⟨hB, -⟩
      · have hne' : e ≠ (a, k, v) := by rintro rfl; exact he hk
        simp [hB, hne, hne']
      · simp [hB, hne]
    · rw [Function.update_of_ne hb]
  · rcases eq_or_ne b (κ.bin key) with rfl | hb
    · rw [Function.update_self]
      rcases hB with ⟨v, hB⟩ | ⟨hB, -⟩
      · rw [hB] at he
        simp only [List.mem_append, List.mem_cons] at he ⊢
        rcases he with he | he | he
        · exact ⟨v', .inl he⟩
        · cases he
          exact ⟨value, .inr (.inl rfl)⟩
        · exact ⟨v', .inr (.inr he)⟩
      · rw [hB] at he
        simp only [List.mem_append, List.mem_cons] at he ⊢
        exact ⟨v', he.imp_right .inr⟩
    · rw [Function.update_of_ne hb]
      exact ⟨v', he⟩

theorem wf_set (ht : t.WF κ) (key : K) (value : V) : (t.set κ key value).WF κ := by
  obtain ⟨B', hr', -, -, hkeep⟩ := set_mem ht.rep key value
  obtain ⟨hcur, hlast⟩ := @set_cursor _ _ κ t key value
  refine WF.of_rep hr' ?_
  rw [CursorOk, hcur, hlast]
  refine ht.cursor.imp_right ?_
  rintro ⟨b, hb, hcb, hl⟩
  refine ⟨b, hb, hcb, fun a ha => ?_⟩
  obtain ⟨⟨k, v⟩, hd⟩ := hl a ha
  obtain ⟨v', hv'⟩ := hkeep b a k v hd
  exact ⟨(k, v'), hv'⟩

theorem get_set (ht : t.WF κ) (key : K) (value : V) (k : K) :
    (t.set κ key value).get κ k
      = if κ.rank k = κ.rank key then some value else t.get κ k := by
  obtain ⟨B', hr', ⟨a, k', hmem, hk'⟩, hother, -⟩ := set_mem ht.rep key value
  split_ifs with hk
  · refine hr'.get_eq_some.2 ⟨a, k', ?_, hk'.trans hk.symm⟩
    rwa [κ.bin_congr hk]
  · refine Option.ext fun v => ?_
    rw [hr'.get_eq_some, ht.rep.get_eq_some]
    refine exists_congr fun a => exists_congr fun k'' => and_congr_left fun hk'' => ?_
    exact hother _ (a, k'', v) fun h => hk (hk''.symm.trans h)

theorem passed_set (ht : t.WF κ) (key : K) (value : V) (k : K) :
    (t.set κ key value).Passed κ k ↔ t.Passed κ k := by
  obtain ⟨B', hr', -, hother, hkeep⟩ := set_mem ht.rep key value
  have hc' : (t.set κ key value).CursorOk κ B' := by
    have := (wf_set ht key value).cursor
    rwa [funext hr'.nodes_eq] at this
  obtain ⟨hcur, hlast⟩ := @set_cursor _ _ κ t key value
  rw [passed_iff hr' hc', passed_iff ht.rep ht.cursor, hcur, hlast]
  refine or_congr_right (and_congr_right fun hb => ⟨fun h a d ha hd => ?_, fun h a d ha hd => ?_⟩)
  · obtain ⟨v', hv'⟩ := hkeep _ a d.1 d.2 hd
    exact h a (d.1, v') ha hv'
  · -- the node the cursor is on was there before, with the same key
    obtain ⟨b, ⟨k', v'⟩, hcb, hd'⟩ := ht.exists_node ha
    obtain rfl : κ.bin k = b := by omega
    obtain ⟨v'', hd''⟩ := hkeep _ a k' v' hd'
    obtain rfl := hr'.data_unique hd hd''
    exact h a (k', v') ha hd'

/-! ## Deleting -/

theorem wf_del (ht : t.WF κ) (key : K) : (t.del κ key).WF κ := by
  obtain ⟨l₁, l₂, a, k, v, hB, hk, hr', hcur, hlast⟩ | ⟨-, hdel⟩ := ht.rep.del key
  · refine WF.of_rep hr' ?_
    rw [CursorOk, hcur, hlast]
    refine ht.cursor.imp (fun ⟨h1, h2⟩ => ⟨h1, by simp [h2]⟩) ?_
    rintro ⟨b, hb, hcb, hl⟩
    refine ⟨b, hb, hcb, fun a' ha' => ?_⟩
    split_ifs at ha' with ha
    · obtain ⟨d, hd⟩ := hl a ha.symm
      have hmem : (a, k, v) ∈ t.nodes (κ.bin key) := by rw [hB]; simp
      obtain rfl := ht.rep.bin_unique hd hmem rfl
      rw [Function.update_self]
      obtain ⟨e, he, rfl⟩ := Option.map_eq_some_iff.1 ha'
      exact ⟨e.2, List.mem_append_right _ (List.mem_of_mem_head? he)⟩
    · obtain ⟨d, hd⟩ := hl a' ha'
      refine ⟨d, ?_⟩
      rcases eq_or_ne b (κ.bin key) with rfl | hbk
      · rw [hB] at hd
        rw [Function.update_self]
        simp only [List.mem_append, List.mem_cons, Prod.mk.injEq] at hd ⊢
        rcases hd with hd | ⟨rfl, -⟩ | hd
        · exact .inl hd
        · exact absurd ha'.symm ha
        · exact .inr hd
      · rwa [Function.update_of_ne hbk]
  · rwa [hdel]

/-- The bins after a deletion hold the other keys' nodes. -/
theorem mem_del {key : K} {l₁ l₂ : List (ℕ × K × V)} {a : ℕ} {k : K} {v : V} (hr : Rep κ t B)
    (hB : B (κ.bin key) = l₁ ++ (a, k, v) :: l₂) (hk : κ.rank k = κ.rank key) (b : ℕ)
    (e : ℕ × K × V) : e ∈ Function.update B (κ.bin key) (l₁ ++ l₂) b
      ↔ e ∈ B b ∧ κ.rank e.2.1 ≠ κ.rank key := by
  have hmem : (a, k, v) ∈ B (κ.bin key) := by rw [hB]; simp
  rcases eq_or_ne b (κ.bin key) with rfl | hb
  · have hsort := hr.sorted (κ.bin key)
    rw [hB, List.pairwise_append, List.pairwise_cons] at hsort
    rw [Function.update_self, hB]
    simp only [List.mem_append, List.mem_cons]
    constructor
    · rintro (he | he)
      · exact ⟨.inl he, hk ▸ (hsort.2.2 e he (a, k, v) List.mem_cons_self).ne⟩
      · exact ⟨.inr (.inr he), hk ▸ (hsort.2.1.1 e he).ne'⟩
    · rintro ⟨he | rfl | he, hne⟩
      · exact .inl he
      · exact absurd hk hne
      · exact .inr he
  · rw [Function.update_of_ne hb]
    refine ⟨fun he => ⟨he, fun h => hb ?_⟩, fun he => he.1⟩
    rw [← hr.bin b e he, κ.bin_congr h]

theorem get_del (ht : t.WF κ) (key k : K) :
    (t.del κ key).get κ k = if κ.rank k = κ.rank key then none else t.get κ k := by
  obtain ⟨l₁, l₂, a, k', v, hB, hk', hr', -, -⟩ | ⟨hmiss, hdel⟩ := ht.rep.del key
  · have hmem := mem_del ht.rep hB hk'
    split_ifs with hk
    · refine hr'.get_eq_none.2 fun e he => ?_
      rw [hk]
      exact ((hmem _ e).1 he).2
    · refine Option.ext fun w => ?_
      rw [hr'.get_eq_some, ht.rep.get_eq_some]
      refine exists_congr fun a => exists_congr fun k'' => and_congr_left fun hk'' => ?_
      rw [hmem]
      exact and_iff_left (hk'' ▸ hk)
  · rw [hdel]
    split_ifs with hk
    · refine ht.rep.get_eq_none.2 ?_
      rw [κ.bin_congr hk, hk]
      exact hmiss
    · rfl

theorem Passed.del (ht : t.WF κ) {key k : K} (hp : t.Passed κ k) : (t.del κ key).Passed κ k := by
  obtain ⟨l₁, l₂, a, k', v, hB, hk', hr', hcur, hlast⟩ | ⟨-, hdel⟩ := ht.rep.del key
  · have hc' : (t.del κ key).CursorOk κ (Function.update t.nodes (κ.bin key) (l₁ ++ l₂)) := by
      have := (wf_del ht key).cursor
      rwa [funext hr'.nodes_eq] at this
    rw [passed_iff hr' hc', hcur, hlast]
    rw [passed_iff ht.rep ht.cursor] at hp
    refine hp.imp_right fun ⟨hb, h⟩ => ⟨hb, fun a' d ha' hd => ?_⟩
    rw [mem_del ht.rep hB hk'] at hd
    split_ifs at ha' with ha
    · -- the cursor was on the deleted node, whose key is below that of the next one
      obtain ⟨e, he, rfl⟩ := Option.map_eq_some_iff.1 ha'
      have hmem : (a, k', v) ∈ t.nodes (κ.bin key) := by rw [hB]; simp
      have hcb := ht.nextCurrentBin_eq ha.symm hmem
      have hbk : κ.bin k = κ.bin key := by omega
      have hle := h a (k', v) ha.symm (by rw [hbk]; exact hmem)
      have hsort := ht.rep.sorted (κ.bin key)
      rw [hB, List.pairwise_append, List.pairwise_cons] at hsort
      have hlt := hsort.2.1.1 e (List.mem_of_mem_head? he)
      have hmem' : (e.1, e.2) ∈ t.nodes (κ.bin key) := by
        rw [hB]
        exact List.mem_append_right _ (List.mem_cons_of_mem _ (List.mem_of_mem_head? he))
      obtain rfl := ht.rep.data_unique hd.1 hmem'
      exact hle.trans hlt.le
    · exact h a' d ha' hd.1
  · rwa [hdel]

/-- Unless it skips, a deletion makes the cursor pass no key that is present. -/
theorem passed_of_del (ht : t.WF κ) {key k : K} (hs : ¬ t.Skips κ key)
    (hp : (t.del κ key).Passed κ k) : t.Passed κ k ∨ t.get κ k = none := by
  obtain ⟨l₁, l₂, a, k', v, hB, hk', hr', hcur, hlast⟩ | ⟨-, hdel⟩ := ht.rep.del key
  · have hc' : (t.del κ key).CursorOk κ (Function.update t.nodes (κ.bin key) (l₁ ++ l₂)) := by
      have := (wf_del ht key).cursor
      rwa [funext hr'.nodes_eq] at this
    rw [skips_iff ht.rep ht.cursor hB hk'] at hs
    rw [passed_iff hr' hc', hcur, hlast] at hp
    rw [passed_iff ht.rep ht.cursor]
    rcases hp with hp | ⟨hb, hp⟩
    · exact .inl (.inl hp)
    by_cases ha : some a = t.nextLastVisitEntry
    · -- the deleted node was the last of its bin
      have hl₂ : l₂ = [] := by_contra fun h => hs ⟨ha.symm, h⟩
      subst hl₂
      have hmem : (a, k', v) ∈ t.nodes (κ.bin key) := by rw [hB]; simp
      have hcb := ht.nextCurrentBin_eq ha.symm hmem
      have hbk : κ.bin k = κ.bin key := by omega
      by_cases hle : κ.rank k ≤ κ.rank k'
      · refine .inl (.inr ⟨hb, fun a' d ha' hd => ?_⟩)
        rw [← ha] at ha'
        cases ha'
        obtain rfl := ht.rep.data_unique hd hmem
        exact hle
      · refine .inr (ht.rep.get_eq_none.2 fun e he hek => ?_)
        have hsort := ht.rep.sorted (κ.bin key)
        rw [hbk, hB] at he
        rw [hB, List.pairwise_append] at hsort
        rcases List.mem_append.1 he with he | he
        · have := hsort.2.2 e he (a, k', v) List.mem_cons_self
          simp only at this
          omega
        · rw [List.mem_singleton] at he
          subst he
          exact hle hek.ge
    · rw [if_neg ha] at hp
      refine .inl (.inr ⟨hb, fun a' d ha' hd => ?_⟩)
      refine hp a' d ha' ((mem_del ht.rep hB hk' _ _).2 ⟨hd, fun hdk => ha ?_⟩)
      have hmem : (a, k', v) ∈ t.nodes (κ.bin key) := by rw [hB]; simp
      have := ht.rep.rank_unique hd hmem (hdk.trans hk'.symm)
      cases this
      exact ha'.symm
  · rw [hdel] at hp
    exact .inl hp

/-- A deletion that skips makes the cursor pass a key that is present and was still to come. -/
theorem exists_passed_del (ht : t.WF κ) {key : K} (hs : t.Skips κ key) :
    ∃ k, t.get κ k ≠ none ∧ ¬ t.Passed κ k ∧ (t.del κ key).Passed κ k := by
  obtain ⟨l₁, l₂, a, k', v, hB, hk', hr', hcur, hlast⟩ | ⟨hmiss, -⟩ := ht.rep.del key
  · have hc' : (t.del κ key).CursorOk κ (Function.update t.nodes (κ.bin key) (l₁ ++ l₂)) := by
      have := (wf_del ht key).cursor
      rwa [funext hr'.nodes_eq] at this
    obtain ⟨hl, hne⟩ := (skips_iff ht.rep ht.cursor hB hk').1 hs
    obtain ⟨⟨a₂, k₂, v₂⟩, l₃, rfl⟩ := List.exists_cons_of_ne_nil hne
    have hmem : (a, k', v) ∈ t.nodes (κ.bin key) := by rw [hB]; simp
    have hmem₂ : (a₂, k₂, v₂) ∈ t.nodes (κ.bin key) := by rw [hB]; simp
    have hbin₂ : κ.bin k₂ = κ.bin key := ht.rep.bin _ _ hmem₂
    have hsort := ht.rep.sorted (κ.bin key)
    rw [hB, List.pairwise_append, List.pairwise_cons] at hsort
    have hlt : κ.rank k' < κ.rank k₂ := hsort.2.1.1 (a₂, k₂, v₂) List.mem_cons_self
    have hcb := ht.nextCurrentBin_eq hl hmem
    refine ⟨k₂, ?_, ?_, ?_⟩
    · exact Option.ne_none_iff_exists'.2
        ⟨v₂, ht.rep.get_eq_some.2 ⟨a₂, k₂, by rwa [hbin₂], rfl⟩⟩
    · rw [passed_iff ht.rep ht.cursor]
      rintro (h | ⟨-, h⟩)
      · omega
      · have := h a (k', v) hl (by rwa [hbin₂])
        simp only at this
        omega
    · rw [passed_iff hr' hc', hcur, hlast, if_pos hl.symm]
      refine .inr ⟨by omega, fun a' d' ha' hd' => ?_⟩
      cases ha'
      have hmem' : (a₂, k₂, v₂) ∈ Function.update t.nodes (κ.bin key)
          (l₁ ++ (a₂, k₂, v₂) :: l₃) (κ.bin key) := by
        rw [Function.update_self]
        simp
      obtain rfl := hr'.data_unique hd' hmem'
      exact le_rfl
  · obtain ⟨c, hcell, hck, -⟩ := hs
    rcases hl : t.nextLastVisitEntry with _ | a
    · rw [hl] at hcell
      cases hcell
    obtain ⟨b, d, -, hd⟩ := ht.exists_node hl
    obtain ⟨n, hn⟩ := ht.rep.cell hd
    rw [hl, Heap.deref_some, hn] at hcell
    cases hcell
    have hb : κ.bin key = b := by rw [← κ.bin_congr hck]; exact ht.rep.bin b _ hd
    exact absurd hck (hmiss (a, d) (by rwa [hb]))

/-! ## Iterating -/

/-- The scan over the last `n` bins stops at the first that is not empty. -/
theorem nextBin_cases (t : Raw K V) : ∀ n ≤ κ.size,
    (∃ b a, κ.size - n ≤ b ∧ b < κ.size ∧ t.table b = some a
        ∧ (∀ b', κ.size - n ≤ b' → b' < b → t.table b' = none)
        ∧ t.nextBin κ n = t.visit b a)
      ∨ (∀ b', κ.size - n ≤ b' → b' < κ.size → t.table b' = none)
        ∧ t.nextBin κ n = ({ t with nextCurrentBin := -1, nextLastVisitEntry := none }, none)
  | 0, _ => .inr ⟨fun b' h1 h2 => by omega, rfl⟩
  | n + 1, hn => by
    unfold nextBin
    rcases htab : t.table (κ.size - (n + 1)) with _ | a
    · simp only
      rcases nextBin_cases t n (by omega) with ⟨b, a, h1, h2, h3, h4, h5⟩ | ⟨h1, h2⟩
      · refine .inl ⟨b, a, by omega, h2, h3, fun b' hb hb' => ?_, h5⟩
        rcases eq_or_ne b' (κ.size - (n + 1)) with rfl | hne
        · exact htab
        · exact h4 b' (by omega) hb'
      · refine .inr ⟨fun b' hb hb' => ?_, h2⟩
        rcases eq_or_ne b' (κ.size - (n + 1)) with rfl | hne
        · exact htab
        · exact h1 b' (by omega) hb'
    · exact .inl ⟨_, a, le_rfl, by omega, htab, fun b' h1 h2 => by omega, rfl⟩

/-- What a step of the iteration does: it goes on to the first node past the cursor, or finds none
and resets the cursor. -/
def NextTo (κ : Keying K) (t : Raw K V) (r : Raw K V × Option (K × V)) : Prop :=
  (∃ a d, (a, d) ∈ t.nodes (κ.bin d.1) ∧ ¬ t.Passed κ d.1
      ∧ (∀ b, ∀ e ∈ t.nodes b, t.Passed κ e.2.1 ∨ κ.Before d.1 e.2.1)
      ∧ (∀ k, t.Passed κ k → κ.Before k d.1)
      ∧ r = ({ t with nextCurrentBin := κ.bin d.1, nextLastVisitEntry := some a }, some d))
    ∨ (∀ b, ∀ e ∈ t.nodes b, t.Passed κ e.2.1)
      ∧ r = ({ t with nextCurrentBin := -1, nextLastVisitEntry := none }, none)

/-- From a cursor past everything before bin `b₀` and nothing in it, the scan takes the first node
from `b₀` on. -/
theorem nextBin_nextTo (ht : t.WF κ) {b₀ : ℕ} (hb₀ : b₀ ≤ κ.size)
    (h₁ : ∀ b < b₀, ∀ e ∈ t.nodes b, t.Passed κ e.2.1) (h₂ : ∀ k, t.Passed κ k → κ.bin k < b₀) :
    t.NextTo κ (t.nextBin κ (κ.size - b₀)) := by
  have hempty : ∀ b, t.table b = none → t.nodes b = [] := by
    intro b hb
    have hseg := ht.rep.seg b
    rw [hb] at hseg
    cases hn : t.nodes b with
    | nil => rfl
    | cons e l =>
      rw [hn] at hseg
      cases hseg.1
  rcases @nextBin_cases _ _ κ t (κ.size - b₀) (by omega) with
    ⟨b, a, hb, hbs, htab, hnone, hr⟩ | ⟨hnone, hr⟩
  · left
    have hseg := ht.rep.seg b
    rw [htab] at hseg
    rcases hn : t.nodes b with _ | ⟨⟨a', d⟩, l⟩
    · rw [hn] at hseg
      cases hseg
    rw [hn] at hseg
    obtain rfl : a = a' := Option.some.inj hseg.1
    obtain ⟨-, n, hc, -⟩ := hseg
    have hmem : (a, d) ∈ t.nodes b := by rw [hn]; exact List.mem_cons_self
    obtain rfl : κ.bin d.1 = b := ht.rep.bin b _ hmem
    refine ⟨a, d, hmem, fun hp => ?_, fun b' e he => ?_, fun k hk => ?_, ?_⟩
    · have := h₂ _ hp
      omega
    · rcases Nat.lt_or_ge b' b₀ with hlt | hge
      · exact .inl (h₁ b' hlt e he)
      right
      have heb := ht.rep.bin b' e he
      rcases Nat.lt_trichotomy b' (κ.bin d.1) with hlt | rfl | hgt
      · rw [hempty b' (hnone b' (by omega) hlt)] at he
        cases he
      · refine .inr ⟨heb.symm, ?_⟩
        have hsort := ht.rep.sorted (κ.bin d.1)
        rw [hn] at he hsort
        rcases List.mem_cons.1 he with rfl | he
        · exact le_rfl
        · exact (List.rel_of_pairwise_cons hsort he).le
      · exact .inl (by omega)
    · have := h₂ k hk
      exact .inl (by omega)
    · rw [hr, visit, hc]
      rfl
  · right
    refine ⟨fun b e he => ?_, hr⟩
    rcases Nat.lt_or_ge b b₀ with hlt | hge
    · exact h₁ b hlt e he
    · have := κ.bin_lt e.2.1
      rw [ht.rep.bin b e he] at this
      rw [hempty b (hnone b (by omega) this)] at he
      cases he

theorem next_nextTo (ht : t.WF κ) : t.NextTo κ (t.next κ) := by
  rcases ht.cursor with ⟨hcur, hl⟩ | ⟨b, hb, hcur, hl⟩
  · have := nextBin_nextTo ht (Nat.zero_le _)
        (fun _ h => absurd h (Nat.not_lt_zero _)) fun k hk => by
      rcases hk with hk | ⟨hk, -⟩ <;> omega
    have hnext : t.next κ = t.nextBin κ (κ.size - 0) := by
      simp [next, hcur]
      omega
    rwa [hnext]
  have hmiss : t.heap.nextOf t.nextLastVisitEntry = none →
      t.next κ = t.nextBin κ (κ.size - (b + 1)) := by
    intro hno
    simp only [next, hcur, hno, ite_self]
    rw [if_neg (by omega), show ((κ.size : ℤ) - (b + 1)).toNat = κ.size - (b + 1) by omega]
  have hlt : ∀ k, t.Passed κ k → κ.bin k < b + 1 := fun k hk => by
    rcases hk with hk | ⟨hk, -⟩ <;> omega
  rcases hlast : t.nextLastVisitEntry with _ | a
  · rw [hmiss (by rw [hlast]; rfl)]
    refine nextBin_nextTo ht hb (fun b' hb' e he => ?_) hlt
    have := ht.rep.bin b' e he
    rcases Nat.lt_succ_iff_lt_or_eq.1 hb' with hb' | rfl
    · exact .inl (by omega)
    · exact .inr ⟨by omega, fun c hc => by rw [hlast] at hc; cases hc⟩
  obtain ⟨d, hd⟩ := hl a hlast
  have hseg := ht.rep.seg b
  have hsort := ht.rep.sorted b
  obtain ⟨l₁, l₂, hB⟩ := List.append_of_mem hd
  rw [hB] at hseg hsort
  obtain ⟨m, -, rfl, n, hca, hs⟩ := Heap.seg_append.1 hseg
  have hn : t.heap.nextOf t.nextLastVisitEntry = l₂.head?.map Prod.fst := by
    rw [hlast, t.heap.nextOf_some hca]
    simpa using hs.head
  have hle : ∀ e ∈ t.nodes b, κ.rank e.2.1 ≤ κ.rank d.1 → t.Passed κ e.2.1 := by
    intro e he hle
    refine .inr ⟨by rw [ht.rep.bin b e he]; omega, fun c hc => ?_⟩
    rw [hlast, Heap.deref_some, hca] at hc
    cases hc
    exact hle
  have hdb := ht.rep.bin b _ hd
  rw [List.pairwise_append, List.pairwise_cons] at hsort
  rcases l₂ with _ | ⟨⟨a', d'⟩, l₃⟩
  · rw [hmiss hn]
    refine nextBin_nextTo ht hb (fun b' hb' e he => ?_) hlt
    have := ht.rep.bin b' e he
    rcases Nat.lt_succ_iff_lt_or_eq.1 hb' with hb' | rfl
    · exact .inl (by omega)
    refine hle e he ?_
    rw [hB] at he
    rcases List.mem_append.1 he with he | he
    · exact (hsort.2.2 e he (a, d) List.mem_cons_self).le
    · rw [List.mem_singleton] at he
      rw [he]
  · left
    have hmem : (a', d') ∈ t.nodes b := by rw [hB]; simp
    have hd'b : κ.bin d'.1 = b := ht.rep.bin b _ hmem
    have hdd' : κ.rank d.1 < κ.rank d'.1 := hsort.2.1.1 (a', d') List.mem_cons_self
    obtain ⟨-, n', hca', -⟩ := hs
    have hpd : ∀ k, t.Passed κ k → κ.bin k < b ∨ κ.bin k = b ∧ κ.rank k ≤ κ.rank d.1 := by
      rintro k (hk | ⟨hk, h⟩)
      · exact .inl (by omega)
      · exact .inr ⟨by omega, h ⟨d, n⟩ (by rw [hlast]; exact hca)⟩
    refine ⟨a', d', by rwa [hd'b], fun hp => ?_, fun b' e he => ?_, fun k hk => ?_, ?_⟩
    · rcases hpd _ hp with hp | ⟨-, hp⟩ <;> omega
    · have heb := ht.rep.bin b' e he
      rcases Nat.lt_trichotomy b' b with hlt | rfl | hgt
      · exact .inl (.inl (by omega))
      · rw [hB] at he
        simp only [List.mem_append, List.mem_cons] at he
        rcases he with he | rfl | rfl | he
        · exact .inl (hle e (by rw [hB]; exact List.mem_append_left _ he)
            (hsort.2.2 e he (a, d) List.mem_cons_self).le)
        · exact .inl (hle _ hd le_rfl)
        · exact .inr (.inr ⟨rfl, le_rfl⟩)
        · refine .inr (.inr ⟨by omega, ?_⟩)
          exact (List.rel_of_pairwise_cons hsort.2.1.2 he).le
      · exact .inr (.inl (by omega))
    · refine (hpd k hk).imp (by omega) fun ⟨h1, h2⟩ => ⟨by omega, by omega⟩
    · simp only [next, hcur, hn, List.head?_cons, Option.map_some]
      rw [if_neg (by omega), if_pos (by omega), hd'b]
      simp only [visit, hca', Option.map_some]

theorem wf_next (ht : t.WF κ) : (t.next κ).1.WF κ := by
  rcases next_nextTo ht with ⟨a, d, hmem, -, -, -, hr⟩ | ⟨-, hr⟩ <;> rw [hr]
  · refine WF.of_rep (B := t.nodes) ⟨ht.rep.seg, ht.rep.bin, ht.rep.sorted⟩ ?_
    refine .inr ⟨_, κ.bin_lt d.1, rfl, fun a' ha' => ?_⟩
    cases ha'
    exact ⟨d, hmem⟩
  · exact WF.of_rep (B := t.nodes) ⟨ht.rep.seg, ht.rep.bin, ht.rep.sorted⟩ (.inl ⟨rfl, rfl⟩)

end Raw

/-- A well-formed table. -/
structure Table (κ : Keying K) (V : Type*) where
  raw : Raw K V
  wf : raw.WF κ

namespace Table

variable {κ : Keying K}

def create : Table κ V := ⟨Raw.create, Raw.wf_create⟩
def get (t : Table κ V) (key : K) : Option V := t.raw.get κ key
def set (t : Table κ V) (key : K) (value : V) : Table κ V :=
  ⟨t.raw.set κ key value, Raw.wf_set t.wf key value⟩
def del (t : Table κ V) (key : K) : Table κ V := ⟨t.raw.del κ key, Raw.wf_del t.wf key⟩
def refresh (t : Table κ V) : Table κ V := ⟨t.raw.refresh κ, Raw.wf_refresh t.wf⟩
def next (t : Table κ V) : Table κ V × Option (K × V) :=
  (⟨(t.raw.next κ).1, Raw.wf_next t.wf⟩, (t.raw.next κ).2)

def Passed (t : Table κ V) (key : K) : Prop := t.raw.Passed κ key
def Skips (t : Table κ V) (key : K) : Prop := t.raw.Skips κ key

/-- The iteration starts over. -/
def AtReset (t : Table κ V) : Prop :=
  t.raw.nextCurrentBin = -1 ∧ t.raw.nextLastVisitEntry = none

variable (t : Table κ V) (key k : K) (value : V)

theorem get_congr {t : Table κ V} {k k' : K} (h : κ.rank k = κ.rank k') : t.get k = t.get k' := by
  refine Option.ext fun v => ?_
  rw [get, get, t.wf.rep.get_eq_some, t.wf.rep.get_eq_some, κ.bin_congr h, h]

@[simp] theorem get_create : (create : Table κ V).get k = none :=
  Rep.create.get_eq_none.2 fun _ he => absurd he List.not_mem_nil

theorem get_set : (t.set key value).get k
    = if κ.rank k = κ.rank key then some value else t.get k :=
  Raw.get_set t.wf key value k

theorem get_del : (t.del key).get k = if κ.rank k = κ.rank key then none else t.get k :=
  Raw.get_del t.wf key k

@[simp] theorem get_refresh : t.refresh.get k = none :=
  t.wf.rep.refresh.get_eq_none.2 fun _ he => absurd he List.not_mem_nil

@[simp] theorem get_next : t.next.1.get k = t.get k := by
  have hr : Rep κ t.next.1.raw t.raw.nodes := by
    rcases Raw.next_nextTo t.wf with ⟨a, d, -, -, -, -, hr⟩ | ⟨-, hr⟩ <;> simp only [next, hr] <;>
      exact ⟨t.wf.rep.seg, t.wf.rep.bin, t.wf.rep.sorted⟩
  refine Option.ext fun v => ?_
  rw [get, get, hr.get_eq_some, t.wf.rep.get_eq_some]

theorem not_passed_of_atReset {t : Table κ V} (h : t.AtReset) (k : K) : ¬ t.Passed k := by
  rintro (hk | ⟨hk, -⟩) <;> rw [h.1] at hk <;> omega

theorem atReset_create : (create : Table κ V).AtReset := ⟨rfl, rfl⟩

theorem AtReset.set {t : Table κ V} (h : t.AtReset) (key : K) (value : V) :
    (t.set key value).AtReset := by
  obtain ⟨hcur, hlast⟩ := @Raw.set_cursor _ _ κ t.raw key value
  exact ⟨hcur.trans h.1, hlast.trans h.2⟩

theorem AtReset.del {t : Table κ V} (h : t.AtReset) (key : K) : (t.del key).AtReset := by
  obtain ⟨l₁, l₂, a, k, v, -, -, -, hcur, hlast⟩ | ⟨-, hdel⟩ := t.wf.rep.del key
  · refine ⟨hcur.trans h.1, hlast.trans ?_⟩
    rw [h.2, if_neg (by simp)]
  · exact ⟨(congrArg Raw.nextCurrentBin hdel).trans h.1,
      (congrArg Raw.nextLastVisitEntry hdel).trans h.2⟩

/-- Setting a key to the value it has does nothing. -/
theorem set_eq_self {t : Table κ V} {key : K} {value : V} (h : t.get key = some value) :
    t.set key value = t := by
  obtain ⟨⟨a, k, v⟩, hhit, hv⟩ := Option.map_eq_some_iff.1 h
  obtain rfl : v = value := hv
  obtain ⟨a', -, hcell⟩ := Option.bind_eq_some_iff.1 hhit
  obtain ⟨c, hc, hif⟩ := Option.bind_eq_some_iff.1 hcell
  split_ifs at hif
  obtain ⟨rfl, hdata⟩ := Prod.mk.inj (Option.some.inj hif)
  have hset : t.raw.set κ key v = t.raw := by
    unfold Raw.set
    simp only [hhit]
    rw [← hdata, t.raw.heap.setData_eq_self hc]
  unfold Table.set
  congr

/-- Deleting an absent key does nothing. -/
theorem del_of_get_eq_none {t : Table κ V} {key : K} (h : t.get key = none) : t.del key = t := by
  obtain ⟨l₁, l₂, a, k, v, hB, hk, -⟩ | ⟨-, hdel⟩ := t.wf.rep.del key
  · have hmem : (a, k, v) ∈ t.raw.nodes (κ.bin key) := by rw [hB]; simp
    exact absurd hk (t.wf.rep.get_eq_none.1 h _ hmem)
  · unfold del
    congr

@[simp] theorem passed_set : (t.set key value).Passed k ↔ t.Passed k :=
  Raw.passed_set t.wf key value k

theorem Passed.del {t : Table κ V} {key k : K} (h : t.Passed k) : (t.del key).Passed k :=
  Raw.Passed.del t.wf h

theorem passed_of_del {t : Table κ V} {key k : K} (hs : ¬ t.Skips key)
    (h : (t.del key).Passed k) : t.Passed k ∨ t.get k = none :=
  Raw.passed_of_del t.wf hs h

theorem exists_passed_del {t : Table κ V} {key : K} (hs : t.Skips key) :
    ∃ k, t.get k ≠ none ∧ ¬ t.Passed k ∧ (t.del key).Passed k :=
  Raw.exists_passed_del t.wf hs

/-- What `next` returns: the first key present that the cursor has not passed. -/
theorem next_some {t : Table κ V} {k : K} {v : V} (h : t.next.2 = some (k, v)) :
    t.get k = some v ∧ ¬ t.Passed k ∧ (∀ k', t.next.1.Passed k' ↔ κ.Before k' k)
      ∧ (∀ k', t.Passed k' → t.next.1.Passed k')
      ∧ ∀ k', t.get k' ≠ none → t.next.1.Passed k' → t.Passed k' ∨ κ.rank k' = κ.rank k := by
  have hv : (t.raw.next κ).2 = some (k, v) := h
  rcases Raw.next_nextTo t.wf with ⟨a, d, hmem, hnp, hfirst, hpass, hr⟩ | ⟨-, hr⟩
  · rw [hr] at hv
    cases hv
    have hraw : t.next.1.raw = { t.raw with
        nextCurrentBin := κ.bin k, nextLastVisitEntry := some a } := congrArg Prod.fst hr
    obtain ⟨n, hn⟩ := t.wf.rep.cell hmem
    have hiff : ∀ k', t.next.1.Passed k' ↔ κ.Before k' k := by
      intro k'
      simp only [Passed, Raw.Passed, hraw, Heap.deref_some, hn, Keying.Before]
      constructor
      · rintro (h | ⟨h1, h2⟩)
        · exact .inl (by omega)
        · exact .inr ⟨by omega, h2 _ rfl⟩
      · rintro (h | ⟨h1, h2⟩)
        · exact .inl (by omega)
        · refine .inr ⟨by omega, fun c hc => ?_⟩
          cases hc
          exact h2
    refine ⟨t.wf.rep.get_eq_some.2 ⟨a, k, hmem, rfl⟩, hnp, hiff,
      fun k' hk' => (hiff k').2 (hpass k' hk'), fun k' hk' hp' => ?_⟩
    obtain ⟨w, hw⟩ := Option.ne_none_iff_exists'.1 hk'
    obtain ⟨a', k'', hmem', hk''⟩ := t.wf.rep.get_eq_some.1 hw
    have hbin := κ.bin_congr hk''
    rcases hfirst _ _ hmem' with hp | hp
    · left
      simp only [Raw.Passed, hk'', hbin] at hp
      exact hp
    · right
      rw [hiff] at hp'
      simp only [Keying.Before, hk'', hbin] at hp hp'
      omega
  · rw [hr] at hv
    cases hv

/-- Deleting the key just returned skips, if a greater key of its bin is present. -/
theorem skips_of_next {t : Table κ V} {k k' : K} {v : V} (h : t.next.2 = some (k, v))
    (hk' : t.get k' ≠ none) (hb : κ.bin k' = κ.bin k) (hlt : κ.rank k < κ.rank k') :
    t.next.1.Skips k := by
  have hv : (t.raw.next κ).2 = some (k, v) := h
  rcases Raw.next_nextTo t.wf with ⟨a, d, hmem, -, -, -, hr⟩ | ⟨-, hr⟩
  · rw [hr] at hv
    cases hv
    have hraw : t.next.1.raw = { t.raw with
        nextCurrentBin := κ.bin k, nextLastVisitEntry := some a } := congrArg Prod.fst hr
    have hseg := t.wf.rep.seg (κ.bin k)
    have hsort := t.wf.rep.sorted (κ.bin k)
    obtain ⟨l₁, l₂, hB⟩ := List.append_of_mem hmem
    rw [hB] at hseg
    rw [hB, List.pairwise_append] at hsort
    obtain ⟨m, -, rfl, n, hca, hs⟩ := Heap.seg_append.1 hseg
    refine ⟨⟨(k, v), n⟩, by rw [hraw]; exact hca, rfl, ?_⟩
    obtain ⟨w, hw⟩ := Option.ne_none_iff_exists'.1 hk'
    obtain ⟨a', k'', hmem', hk''⟩ := t.wf.rep.get_eq_some.1 hw
    rw [hb, hB] at hmem'
    have hn : n = l₂.head?.map Prod.fst := by simpa using hs.head
    rw [hn]
    rcases List.mem_append.1 hmem' with he | he
    · have := hsort.2.2 _ he (a, k, v) List.mem_cons_self
      simp only at this
      omega
    rcases List.mem_cons.1 he with he | he
    · cases he
      omega
    · rcases l₂ with _ | ⟨e, l₂⟩
      · cases he
      · simp
  · rw [hr] at hv
    cases hv

/-- When `next` finds nothing, the cursor has passed all there is, and is reset. -/
theorem next_none {t : Table κ V} (h : t.next.2 = none) :
    (∀ k', t.get k' ≠ none → t.Passed k') ∧ t.next.1.AtReset := by
  have hv : (t.raw.next κ).2 = none := h
  rcases Raw.next_nextTo t.wf with ⟨a, d, -, -, -, -, hr⟩ | ⟨hall, hr⟩
  · rw [hr] at hv
    cases hv
  · refine ⟨fun k' hk' => ?_, ?_⟩
    · obtain ⟨w, hw⟩ := Option.ne_none_iff_exists'.1 hk'
      obtain ⟨a', k'', hmem', hk''⟩ := t.wf.rep.get_eq_some.1 hw
      have hp := hall _ _ hmem'
      have hbin := κ.bin_congr hk''
      simp only [Raw.Passed, hk'', hbin] at hp
      exact hp
    · have hraw : t.next.1.raw = { t.raw with
          nextCurrentBin := -1, nextLastVisitEntry := none } := congrArg Prod.fst hr
      exact ⟨by rw [hraw], by rw [hraw]⟩

/-- `next` finds nothing when the cursor has passed all there is. -/
theorem next_eq_none {t : Table κ V} (h : ∀ k, t.get k ≠ none → t.Passed k) : t.next.2 = none := by
  rcases hn : t.next.2 with _ | ⟨k, v⟩
  · rfl
  · obtain ⟨hget, hnp, -⟩ := next_some hn
    exact absurd (h k (by rw [hget]; simp)) hnp

/-- The entry that comes first of those not passed is returned. -/
theorem next_eq_some {t : Table κ V} {k : K} {v : V} (hget : t.get k = some v)
    (hnp : ¬ t.Passed k) (hfirst : ∀ k', t.get k' ≠ none → ¬ t.Passed k' → κ.Before k k') :
    ∃ k', t.next.2 = some (k', v) ∧ κ.rank k' = κ.rank k := by
  rcases hn : t.next.2 with _ | ⟨k', v'⟩
  · exact absurd ((next_none hn).1 k (by simp [hget])) hnp
  · obtain ⟨hget', hnp', hbefore, -, honly⟩ := next_some hn
    have hp := (hbefore k).2 (hfirst k' (by simp [hget']) hnp')
    have hrank := (honly k (by simp [hget]) hp).resolve_left hnp
    refine ⟨k', ?_, hrank.symm⟩
    rw [get_congr hrank, hget', Option.some.injEq] at hget
    rw [hget]

/-- The tables differ at most in their cursors. -/
def SameNodes (t t' : Table κ V) : Prop :=
  t.raw.heap = t'.raw.heap ∧ t.raw.table = t'.raw.table

theorem SameNodes.trans {t₁ t₂ t₃ : Table κ V} (h : t₁.SameNodes t₂) (h' : t₂.SameNodes t₃) :
    t₁.SameNodes t₃ :=
  ⟨h.1.trans h'.1, h.2.trans h'.2⟩

theorem sameNodes_next (t : Table κ V) : t.next.1.SameNodes t := by
  unfold next SameNodes
  rcases Raw.next_nextTo t.wf with ⟨a, d, -, -, -, -, hr⟩ | ⟨-, hr⟩ <;> simp [hr]

theorem AtReset.eq_of_sameNodes {t t' : Table κ V} (h : t.AtReset) (h' : t'.AtReset)
    (hnodes : t.SameNodes t') : t = t' := by
  obtain ⟨⟨heap, table, bin, entry⟩, wf⟩ := t
  obtain ⟨⟨heap', table', bin', entry'⟩, wf'⟩ := t'
  obtain ⟨rfl, rfl⟩ := hnodes
  obtain ⟨rfl, rfl⟩ := h
  obtain ⟨rfl, rfl⟩ := h'
  rfl

theorem SameNodes.nodes_eq {t t' : Table κ V} (h : t.SameNodes t') (b : ℕ) :
    t.raw.nodes b = t'.raw.nodes b := by
  unfold Raw.nodes
  rw [h.1, h.2]

open scoped Classical in
/-- How many nodes the cursor has still to come to. -/
noncomputable def remaining (t : Table κ V) : ℕ :=
  ((Finset.range t.raw.heap.brk).filter fun a =>
    ∃ b d, (a, d) ∈ t.raw.nodes b ∧ ¬ t.Passed d.1).card

open scoped Classical in
/-- Each node returned is one less to come, so a pass ends. -/
theorem remaining_next_lt {t : Table κ V} {k : K} {v : V} (h : t.next.2 = some (k, v)) :
    t.next.1.remaining < t.remaining := by
  obtain ⟨hget, hnp, hbefore, hmono, -⟩ := next_some h
  have hnodes := t.sameNodes_next
  obtain ⟨a, k', hmem, hk'⟩ := t.wf.rep.get_eq_some.1 hget
  obtain ⟨n, hcell⟩ := t.wf.rep.cell hmem
  have hlt : a < t.raw.heap.brk := by
    by_contra hge
    rw [t.raw.heap.fresh a (by omega)] at hcell
    cases hcell
  have hnp' : ¬ t.Passed k' := by
    unfold Passed Raw.Passed at hnp ⊢
    rwa [hk', κ.bin_congr hk']
  unfold remaining
  refine Finset.card_lt_card (Finset.ssubset_iff_of_subset ?_ |>.2 ⟨a, ?_, ?_⟩)
  · intro c hc
    rw [Finset.mem_filter, Finset.mem_range, hnodes.1] at hc
    obtain ⟨hc, b, d, hd, hnotp⟩ := hc
    rw [hnodes.nodes_eq] at hd
    exact Finset.mem_filter.2 ⟨Finset.mem_range.2 hc, b, d, hd, fun hp => hnotp (hmono _ hp)⟩
  · exact Finset.mem_filter.2 ⟨Finset.mem_range.2 hlt, _, _, hmem, hnp'⟩
  · -- the node returned is passed now
    rw [Finset.mem_filter]
    rintro ⟨-, b, d, hd, hnotp⟩
    rw [hnodes.nodes_eq] at hd
    obtain ⟨n', hcell'⟩ := t.wf.rep.cell hd
    rw [hcell] at hcell'
    cases hcell'
    refine hnotp ((hbefore k').2 (.inr ⟨κ.bin_congr hk', hk'.le⟩))

end Table

end CMTestbed.Lib
