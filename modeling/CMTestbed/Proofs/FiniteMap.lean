import CMTestbed.Tables

/-!
# The chained tables are finite maps

Whatever is called on a table, its bins stay null-terminated, strictly increasing lists of keys of
their own bin, and a lookup finds what the last change of the key left.
-/

namespace CMTestbed

/-- The calls on a `hashtable_kfs_vi_t`. -/
abbrev HtKfsViCall := Lib.Op FlowSrc UInt32

def HtKfsVi.call (hashtable : HtKfsVi) : HtKfsViCall → HtKfsVi
  | .set key value => htKfsViSet hashtable key value
  | .del key => htKfsViDel hashtable key
  | .get _ => hashtable
  | .refresh => htKfsViRefresh hashtable
  | .next => (htKfsViNext hashtable).1

def HtKfsVi.calls (hashtable : HtKfsVi) (cs : List HtKfsViCall) : HtKfsVi :=
  cs.foldl HtKfsVi.call hashtable

/-- The calls on a `hashtable_vi_t`, its iteration left out. -/
inductive HtViCall where
  | set (key : FlowS) (value : UInt32)
  | get (key : FlowS)
  | del (key : FlowS)

def HtVi.call (hashtable : HtVi) : HtViCall → HtVi
  | .set key value => htViSet hashtable key value
  | .get _ => hashtable
  | .del key => htViDel hashtable key

def HtVi.calls (hashtable : HtVi) (cs : List HtViCall) : HtVi := cs.foldl HtVi.call hashtable

def HtViCall.op : HtViCall → Lib.Op FlowS UInt32
  | .set key value => .set key value
  | .get key => .get key
  | .del key => .del key

/-- The bins are null-terminated and strictly increasing, a key is in its own bin, and no key is in
two nodes. -/
structure Chained {K V : Type*} (κ : Lib.Keying K) (t : Lib.Raw K V) : Prop where
  terminated : ∀ b, t.heap.Seg (t.table b) (t.nodes b) none
  increasing : ∀ b, (t.nodes b).Pairwise fun e e' => κ.cmp e.2.1 e'.2.1 < 0
  own : ∀ b, ∀ e ∈ t.nodes b, κ.bin e.2.1 = b
  once : ∀ b b', ∀ e ∈ t.nodes b, ∀ e' ∈ t.nodes b', κ.cmp e.2.1 e'.2.1 = 0 → b = b' ∧ e = e'

section
variable {K V : Type*} {κ : Lib.Keying K}

theorem cmp_neg (κ : Lib.Keying K) {a b : K} (h : κ.rank a < κ.rank b) : κ.cmp a b < 0 := by
  have hpos := κ.cmp_pos a b
  have hzero := κ.cmp_zero a b
  omega

theorem chained (t : Lib.Table κ V) : Chained κ t.raw where
  terminated := t.wf.rep.seg
  increasing := fun b => (t.wf.rep.sorted b).imp fun h => cmp_neg κ h
  own := t.wf.rep.bin
  once := fun b b' e he e' he' h => by
    obtain rfl := t.wf.rep.rank_unique he he' ((κ.cmp_zero _ _).1 h)
    exact ⟨t.wf.rep.bin_unique he he' rfl, rfl⟩

end

theorem HtKfsVi.call_eq_apply (hashtable : HtKfsVi) (c : HtKfsViCall) :
    hashtable.call c = hashtable.apply c := by
  cases c <;> rfl

theorem HtKfsVi.calls_eq_run (hashtable : HtKfsVi) (cs : List HtKfsViCall) :
    hashtable.calls cs = hashtable.run cs :=
  congrFun (congrFun (congrArg List.foldl (funext₂ call_eq_apply)) hashtable) cs

theorem HtVi.call_eq_apply (hashtable : HtVi) (c : HtViCall) :
    hashtable.call c = hashtable.apply c.op := by
  cases c <;> rfl

theorem HtVi.calls_eq_run (hashtable : HtVi) (cs : List HtViCall) :
    hashtable.calls cs = hashtable.run (cs.map HtViCall.op) := by
  rw [calls, Lib.Table.run, List.foldl_map]
  exact congrFun (congrFun (congrArg List.foldl (funext₂ call_eq_apply)) hashtable) cs

/-- What the `int` of a lookup says about the value found. -/
theorem int_get_spec {found : Option UInt32}
    (hbound : ∀ value, found = some value → value.toNat < 2 ^ 31) :
    (∀ value, found = some value → found.elim (-1) toInt = value.toNat)
      ∧ (found.elim (-1) toInt = -1 ↔ ∀ value, found ≠ some value) := by
  rcases found with _ | value
  · exact ⟨fun _ h => by simp at h, by simp⟩
  · have hv := toInt_eq_toNat (hbound value rfl)
    rw [Option.elim_some, hv]
    refine ⟨fun w hw => ?_, ?_⟩
    · cases hw
      rfl
    · simp only [ne_eq, Option.some.injEq, forall_eq', iff_false]
      omega

section
variable {K : Type*} {κ : Lib.Keying K} {ops : List (Lib.Op K UInt32)}
  {get : Lib.Table κ UInt32 → K → ℤ}

/-- A history whose sets are below a bound leaves values below it. -/
theorem lastSet_lt {key : K} {value : UInt32} (h : Lib.LastSet κ ops key value)
    (hbound : ∀ key value, .set key value ∈ ops → value.toNat < 2 ^ 31) :
    value.toNat < 2 ^ 31 := by
  obtain ⟨ops₁, k, ops₂, rfl, -, -⟩ := h
  exact hbound k value (by simp)

/-- A lookup after a run finds the last value set, or -1. -/
theorem get_run_spec (hget : ∀ t key, get t key = (t.get key).elim (-1) toInt)
    (hbound : ∀ key value, .set key value ∈ ops → value.toNat < 2 ^ 31) (key : K) :
    (∀ value, Lib.LastSet κ ops key value → get (Lib.Table.create.run ops) key = value.toNat)
      ∧ (get (Lib.Table.create.run ops) key = -1 ↔ ∀ value, ¬ Lib.LastSet κ ops key value) := by
  have hrun : ∀ value, ((Lib.Table.create : Lib.Table κ UInt32).run ops).get key = some value
      ↔ Lib.LastSet κ ops key value := Lib.Table.get_run ops key
  obtain ⟨hsome, hnone⟩ := int_get_spec fun value hv => lastSet_lt ((hrun value).1 hv) hbound
  rw [hget]
  refine ⟨fun value h => hsome value ((hrun value).2 h), hnone.trans ?_⟩
  exact forall_congr' fun value => not_congr (hrun value)

end

theorem htKfsViGet_eq_elim (t : HtKfsVi) (key : FlowSrc) :
    htKfsViGet t key = (t.get key).elim (-1) toInt := by
  rw [htKfsViGet]
  cases t.get key <;> rfl

theorem htViGet_eq_elim (t : HtVi) (key : FlowS) :
    htViGet t key = (t.get key).elim (-1) toInt := by
  rw [htViGet]
  cases t.get key <;> rfl

/-- The chained tables are finite maps: for `hashtable_kfs_vi_t` under any calls, and for
`hashtable_vi_t`, where a key is the four fields that `flow_compare` looks at. -/
theorem chained_tables_finite_maps (cs : List HtKfsViCall) (cs' : List HtViCall)
    (hcs : ∀ key value, .set key value ∈ cs → value.toNat < 2 ^ 31)
    (hcs' : ∀ key value, .set key value ∈ cs' → value.toNat < 2 ^ 31) :
    (Chained flowSrcKeying (htKfsViCreate.calls cs).raw
      ∧ (∀ key value, Lib.LastSet flowSrcKeying cs key value →
          htKfsViGet (htKfsViCreate.calls cs) key = value.toNat)
      ∧ (∀ key, htKfsViGet (htKfsViCreate.calls cs) key = -1
          ↔ ∀ value, ¬ Lib.LastSet flowSrcKeying cs key value)
      ∧ (∀ (c : HtKfsViCall) key, ¬ c.Changes flowSrcKeying key →
          htKfsViGet ((htKfsViCreate.calls cs).call c) key
            = htKfsViGet (htKfsViCreate.calls cs) key)
      ∧ ∀ f g, flowSrcKeying.rank f = flowSrcKeying.rank g ↔ f = g)
    ∧ (Chained flowKeying (htViCreate.calls cs').raw
      ∧ (∀ key value, Lib.LastSet flowKeying (cs'.map HtViCall.op) key value →
          htViGet (htViCreate.calls cs') key = value.toNat)
      ∧ (∀ key, htViGet (htViCreate.calls cs') key = -1
          ↔ ∀ value, ¬ Lib.LastSet flowKeying (cs'.map HtViCall.op) key value)
      ∧ (∀ (c : HtViCall) key, ¬ c.op.Changes flowKeying key →
          htViGet ((htViCreate.calls cs').call c) key = htViGet (htViCreate.calls cs') key)
      ∧ ∀ f g, flowKeying.rank f = flowKeying.rank g ↔ f.srcip = g.srcip ∧ f.dstip = g.dstip
          ∧ f.srcPort = g.srcPort ∧ f.dstPort = g.dstPort) := by
  constructor
  · have hspec := get_run_spec htKfsViGet_eq_elim hcs
    refine ⟨chained _, ?_, ?_, fun c key hc => ?_, fun f g => flowSrcKeying_rank⟩
    · rw [HtKfsVi.calls_eq_run]
      exact fun key => (hspec key).1
    · rw [HtKfsVi.calls_eq_run]
      exact fun key => (hspec key).2
    · rw [htKfsViGet, HtKfsVi.call_eq_apply, Lib.Table.get_apply_of_not_changes _ hc, htKfsViGet]
  · have hop : ∀ key value, .set key value ∈ cs'.map HtViCall.op → value.toNat < 2 ^ 31 := by
      intro key value h
      obtain ⟨c, hc, hcop⟩ := List.mem_map.1 h
      cases c <;> cases hcop
      exact hcs' _ _ hc
    have hspec := get_run_spec htViGet_eq_elim hop
    refine ⟨chained _, ?_, ?_, fun c key hc => ?_, fun f g => FlowS.rank_inj⟩
    · rw [HtVi.calls_eq_run]
      exact fun key => (hspec key).1
    · rw [HtVi.calls_eq_run]
      exact fun key => (hspec key).2
    · rw [htViGet, HtVi.call_eq_apply, Lib.Table.get_apply_of_not_changes _ hc, htViGet]

/-- Two flows set and one of them deleted; a 5-tuple set under one protocol, found under another. -/
theorem chained_tables_example :
    htKfsViGet (htKfsViCreate.calls [.set ⟨1, 2⟩ 5, .set ⟨3, 4⟩ 6, .del ⟨1, 2⟩]) ⟨3, 4⟩ = 6
      ∧ htKfsViGet (htKfsViCreate.calls [.set ⟨1, 2⟩ 5, .set ⟨3, 4⟩ 6, .del ⟨1, 2⟩]) ⟨1, 2⟩ = -1
      ∧ htViGet (htViCreate.calls [.set ⟨1, 2, 3, 4, 6⟩ 7]) ⟨1, 2, 3, 4, 17⟩ = 7 := by
  have hcs : ∀ key value,
      .set key value ∈ ([.set ⟨1, 2⟩ 5, .set ⟨3, 4⟩ 6, .del ⟨1, 2⟩] : List HtKfsViCall) →
        value.toNat < 2 ^ 31 := by
    intro key value h
    simp only [List.mem_cons, Lib.Op.set.injEq, List.not_mem_nil, reduceCtorEq, or_false] at h
    rcases h with ⟨-, rfl⟩ | ⟨-, rfl⟩ <;> decide
  obtain ⟨⟨-, hset, hnone, -, hkey⟩, -, hset', -⟩ :=
    chained_tables_finite_maps _ [.set ⟨1, 2, 3, 4, 6⟩ 7] hcs (by simp)
  refine ⟨hset ⟨3, 4⟩ 6 ⟨[.set ⟨1, 2⟩ 5], ⟨3, 4⟩, [.del ⟨1, 2⟩], rfl, rfl, ?_⟩,
    (hnone ⟨1, 2⟩).2 fun value h => ?_, hset' ⟨1, 2, 3, 4, 17⟩ 7 ⟨[], _, [], rfl, rfl, by simp⟩⟩
  · simp [Lib.Op.Changes, hkey]
  · have hlast : Lib.LastSet flowSrcKeying
        ([.set ⟨1, 2⟩ 5, .set ⟨3, 4⟩ 6] ++ [.del ⟨1, 2⟩]) ⟨1, 2⟩ value := h
    rcases Lib.lastSet_concat.1 hlast with ⟨k, hk, -⟩ | ⟨hk, -⟩
    · cases hk
    · exact hk rfl

end CMTestbed
