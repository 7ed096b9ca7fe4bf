import CMTestbed.Proofs.Forwarding
import CMTestbed.Proofs.Monitors

/-!
# The monitors on the way of a packet

Each task is for a pair of hosts of its own, and its monitors are those that the walk between the
two has found (`TasksOf`).  A packet of a task of the first query goes over the task's monitors in
their order, and one of a task of the third query over exactly one of them, whatever the switches
pick.
-/

namespace CMTestbed

open Lib

namespace GenerateRulesIntoTables

variable {t : GenerateRulesIntoTables}

/-! ## The pairs that have tasks -/

/-- Tasks of some of the pairs, in the order of these, with good monitors. -/
structure TasksOf (good : Name × Name → List Name → Prop) (pairs : List (Name × Name))
    (tasks : List MonitorTask) : Prop where
  sublist : (tasks.map MonitorTask.pair).Sublist pairs
  good : ∀ task ∈ tasks, task.src ≠ task.dst ∧ good task.pair task.monitors

section Runs

variable {good : Name × Name → List Name → Prop}
  {f : Generating → Name × Name → Except PyError Generating}

/-- A pair gets no task, or one with good monitors. -/
def OneTask (good : Name × Name → List Name → Prop) (s : Generating) (pair : Name × Name)
    (s' : Generating) : Prop :=
  s'.tasks = s.tasks ∨ pair.1 ≠ pair.2 ∧ ∃ taskid monitors, good pair monitors ∧
    s'.tasks = s.tasks ++ [⟨taskid, pair.1, pair.2, monitors⟩]

theorem TasksOf.step {done : List (Name × Name)} {s s' : Generating} {pair : Name × Name}
    (h : TasksOf good done s.tasks) (hone : OneTask good s pair s') :
    TasksOf good (done ++ [pair]) s'.tasks := by
  rcases hone with heq | ⟨hne, taskid, monitors, hgood, heq⟩
  · exact ⟨heq ▸ h.sublist.trans (List.sublist_append_left _ _), heq ▸ h.good⟩
  · rw [heq]
    constructor
    · rw [List.map_append]
      exact h.sublist.append (List.Sublist.refl _)
    · intro task htask
      rcases List.mem_append.1 htask with htask | htask
      · exact h.good task htask
      · obtain rfl := List.mem_singleton.1 htask
        exact ⟨hne, hgood⟩

theorem foldlM_tasksOf {pairs done : List (Name × Name)} {s s' : Generating}
    (hstep : ∀ s, ∀ pair ∈ pairs, ∀ s', f s pair = .ok s' → OneTask good s pair s')
    (hs' : pairs.foldlM f s = .ok s') (h : TasksOf good done s.tasks) :
    TasksOf good (done ++ pairs) s'.tasks := by
  induction pairs generalizing done s with
  | nil =>
    cases hs'
    rwa [List.append_nil]
  | cons pair pairs ih =>
    rw [List.foldlM_cons] at hs'
    obtain ⟨s₁, hs₁, hs'⟩ := bind_eq_ok.1 hs'
    have hone := hstep s pair List.mem_cons_self s₁ hs₁
    have := ih (fun s pair hpair => hstep s pair (List.mem_cons_of_mem _ hpair)) hs' (h.step hone)
    rwa [List.append_assoc] at this

/-- The tasks of a file, whichever query they are of. -/
theorem tasksOf_of_run {tasks : List MonitorTask}
    (hstep : ∀ s (pair : Name × Name), pair.1 ∈ t.hosts → pair.2 ∈ t.hosts →
      ∀ s', f s pair = .ok s' → OneTask good s pair s')
    (htasks : (do
      let s ← (t.hosts ×ˢ t.hosts).foldlM f Generating.init
      return s.tasks) = Except.ok tasks) :
    TasksOf good (t.hosts ×ˢ t.hosts) tasks := by
  obtain ⟨s, hs, htasks⟩ := bind_eq_ok.1 htasks
  cases htasks
  have hinit : TasksOf good [] Generating.init.tasks := ⟨List.Sublist.slnil, nofun⟩
  have hpairs : ∀ s, ∀ pair ∈ t.hosts ×ˢ t.hosts, ∀ s', f s pair = .ok s' →
      OneTask good s pair s' := by
    intro s pair hpair s' hs'
    obtain ⟨h₁, h₂⟩ := List.mem_product.1 hpair
    exact hstep s pair h₁ h₂ s' hs'
  exact foldlM_tasksOf hpairs hs hinit

end Runs

theorem TasksOf.pairs_nodup {good : Name × Name → List Name → Prop} {tasks : List MonitorTask}
    (h : TasksOf good (t.hosts ×ˢ t.hosts) tasks) (hnodup : t.hosts.Nodup) :
    (tasks.map MonitorTask.pair).Nodup :=
  h.sublist.nodup (hnodup.product hnodup)

theorem TasksOf.mem_hosts {good : Name × Name → List Name → Prop} {tasks : List MonitorTask}
    (h : TasksOf good (t.hosts ×ˢ t.hosts) tasks) {task : MonitorTask} (htask : task ∈ tasks) :
    task.src ∈ t.hosts ∧ task.dst ∈ t.hosts :=
  List.mem_product.1 (h.sublist.subset (List.mem_map_of_mem htask))

/-! ## What the monitors are -/

/-- The inner nodes of the only shortest path. -/
def SinglePath (h : t.Connected) (pair : Name × Name) (monitors : List Name) : Prop :=
  h.links.ShortestPath pair.1 pair.2 (pair.1 :: monitors ++ [pair.2])
    ∧ ∃! p, h.links.ShortestPath pair.1 pair.2 p

/-- At most two of four switches, which cut the shortest paths. -/
structure SmallCut (h : t.Connected) (pair : Name × Name) (monitors : List Name) : Prop where
  cuts : h.links.Cuts pair.1 pair.2 monitors
  not_src : pair.1 ∉ monitors
  length_le : monitors.length ≤ 2
  mem_set : ∀ node ∈ monitors, node ∈ ecmpNodeSet

theorem query1Pair_oneTask (h : t.Connected) {s s' : Generating} {pair : Name × Name}
    (hs : pair.1 ∈ t.hosts) (hd : pair.2 ∈ t.hosts) (hs' : t.query1Pair s pair = .ok s') :
    OneTask (SinglePath h) s pair s' := by
  obtain ⟨src, dst⟩ := pair
  rw [query1Pair] at hs'
  dsimp only at hs'
  split at hs'
  · cases hs'
    exact .inl rfl
  next hne =>
  obtain ⟨nodes, hok, hpath, hex⟩ | ⟨hok, -⟩ := getSinglePathBetweenNodes_spec h hs hd hne
  · obtain ⟨_, heq, hs'⟩ := bind_eq_ok.1 hs'
    obtain rfl := Except.ok.inj (hok.symm.trans heq)
    obtain ⟨⟨times, exceeds⟩, -, hs'⟩ := bind_eq_ok.1 hs'
    cases exceeds with
    | true =>
      cases hs'
      exact .inl rfl
    | false =>
      obtain ⟨times', -, hs'⟩ := bind_eq_ok.1 hs'
      cases hs'
      exact .inr ⟨hne, _, nodes, ⟨hpath, hex⟩, rfl⟩
  · obtain ⟨_, heq, hs'⟩ := bind_eq_ok.1 hs'
    obtain rfl := Except.ok.inj (hok.symm.trans heq)
    cases hs'
    exact .inl rfl

/-- The monitors are nearer to the destination than the node that the walk starts at. -/
theorem walkEcmpPaths_nearer {h : t.Connected} {d n : Name} {nextHopsMap : Dict Name (List Name)}
    {fuel : ℕ} {M : List Name} (hmap : NextHops h.toSimple d nextHopsMap) (hn : n ∈ t.graph)
    (hne : n ≠ d) (hM : walkEcmpPaths nextHopsMap d fuel [n] = .ok (true, M)) :
    ∀ m ∈ M, h.links.hops d m < h.links.hops d n := by
  induction fuel generalizing n with
  | zero => cases hM
  | succ fuel ih =>
    rw [walkEcmpPaths] at hM
    obtain ⟨m, hget, hsingle, hm⟩ | ⟨m, m', next, hget, -, hmem⟩ :=
      nextHops_cases (h := h) hmap hn hne
    · have hfar := ((hsingle m).2 rfl).2
      rw [hget] at hM
      by_cases hmd : m = d
      · have hqueue : (if m ≠ d then [] ++ [m] else []) = [] := if_neg (not_not.2 hmd)
        have hdone : walkEcmpPaths nextHopsMap d fuel (if m ≠ d then [] ++ [m] else [])
            = .ok (true, M) := hM
        rw [hqueue, walkEcmpPaths] at hdone
        cases hdone
      · have hqueue : (if m ≠ d then [] ++ [m] else []) = [m] := if_pos hmd
        have hrest : walkEcmpPaths nextHopsMap d fuel (if m ≠ d then [] ++ [m] else [])
            = .ok (true, M) := hM
        rw [hqueue] at hrest
        intro k hk
        have := ih hm hmd hrest k hk
        omega
    · rw [hget] at hM
      cases hM
      intro k hk
      have := ((hmem k).1 hk).2
      omega

theorem query3Pair_oneTask (h : t.Connected) {s s' : Generating} {pair : Name × Name}
    (hs : pair.1 ∈ t.hosts) (hd : pair.2 ∈ t.hosts) (hs' : t.query3Pair s pair = .ok s') :
    OneTask (SmallCut h) s pair s' := by
  obtain ⟨src, dst⟩ := pair
  rw [query3Pair] at hs'
  dsimp only at hs'
  split at hs'
  · cases hs'
    exact .inl rfl
  next hne =>
  obtain ⟨⟨multi, nodes⟩, hok, hs'⟩ := bind_eq_ok.1 hs'
  dsimp only at hs'
  split at hs'
  · cases hs'
    exact .inl rfl
  next hlen =>
  split at hs'
  · cases hs'
    exact .inl rfl
  next hmulti =>
  split at hs'
  · cases hs'
    exact .inl rfl
  next hset =>
  have hmem : ∀ node ∈ nodes, node ∈ ecmpNodeSet := fun node hnode =>
    by_contra fun hno => hset ⟨node, hnode, hno⟩
  obtain ⟨⟨times, exceeds⟩, -, hs'⟩ := bind_eq_ok.1 hs'
  have hcuts : h.links.Cuts src dst nodes ∧ src ∉ nodes := by
    rcases getEcmpPathsBetweenNodes_spec h hs hd hne with ⟨hok', -⟩ | ⟨M, hok', hcuts, -⟩
    · cases hok.symm.trans hok'
      exact absurd rfl hmulti
    · cases hok.symm.trans hok'
      obtain ⟨nextHopsMap, hmap, hnext⟩ := exists_nextHops h (h.hosts_mem dst hd)
      have hwalk : walkEcmpPaths nextHopsMap dst t.turns [src] = .ok (true, nodes) := by
        rw [getEcmpPathsBetweenNodes, hmap] at hok
        exact hok
      exact ⟨hcuts, fun hsrc => lt_irrefl _
        (walkEcmpPaths_nearer (h := h) hnext (h.hosts_mem src hs) hne hwalk src hsrc)⟩
  cases exceeds with
  | true =>
    cases hs'
    exact .inl rfl
  | false =>
    cases hs'
    exact .inr ⟨hne, _, nodes, ⟨hcuts.1, hcuts.2, Nat.not_lt.1 hlen, hmem⟩, rfl⟩

theorem query1Tasks_spec (h : t.Connected) {tasks : List MonitorTask}
    (htasks : t.generateTasksForQuery1 = .ok tasks) :
    TasksOf (SinglePath h) (t.hosts ×ˢ t.hosts) tasks ∧ Numbered tasks := by
  refine ⟨tasksOf_of_run (fun _ _ hs hd _ hs' => query1Pair_oneTask h hs hd hs') htasks, ?_⟩
  obtain ⟨s, hs, hinv⟩ := generateTasksForQuery1_inv h
  obtain rfl := Except.ok.inj (hs.symm.trans htasks)
  exact hinv.numbered

theorem query3Tasks_spec (h : t.Connected) {tasks : List MonitorTask}
    (htasks : t.generateTasksForQuery3 = .ok tasks) :
    TasksOf (SmallCut h) (t.hosts ×ˢ t.hosts) tasks ∧ Numbered tasks := by
  refine ⟨tasksOf_of_run (fun _ _ hs hd _ hs' => query3Pair_oneTask h hs hd hs') htasks, ?_⟩
  obtain ⟨s, hs, hinv⟩ := generateTasksForQuery3_inv h
  obtain rfl := Except.ok.inj (hs.symm.trans htasks)
  exact hinv.numbered

/-! ## The monitors that a packet passes -/

section Ways

variable {installRuleType : ℕ} {table : List FlowRule} {p : Header} {tasks : List MonitorTask}
  {task : MonitorTask} {n : ℕ} {rs : List Located}

/-- A packet between the hosts of a first query's task goes over its monitors, in their order, to
its receiver. -/
theorem way_query1 (h : t.WellFormed) (hpair : t.Paired) (hapart : t.Apart)
    (htype : installRuleType ≠ ONLY_ECMP_PATH_RULE)
    (ht : t.installForwardingRule installRuleType = .ok table)
    (htasks : t.generateTasksForQuery1 = .ok tasks) (htask : task ∈ tasks)
    (hp : NormalPacket t p task.dst) (hn : h.links.hops task.src task.dst ≤ n)
    (hrs : t.Sent table p task.src n rs) :
    rs.map Located.entity = task.monitors ++ [task.dst] := by
  obtain ⟨hof, -⟩ := query1Tasks_spec h.toConnected htasks
  obtain ⟨hne, hpath, hex⟩ := hof.good task htask
  have hway := (sent_normal h hpair hapart htype ht hp (hof.mem_hosts htask).1 hne hn).2 rs hrs
  have heq : task.src :: rs.map Located.entity = task.src :: task.monitors ++ [task.dst] :=
    hex.unique hway hpath
  exact List.tail_eq_of_cons_eq heq

/-- A packet between the hosts of a third query's task goes over exactly one of its monitors. -/
theorem way_query3 (h : t.WellFormed) (hpair : t.Paired) (hapart : t.Apart)
    (htype : installRuleType ≠ ONLY_ECMP_PATH_RULE)
    (ht : t.installForwardingRule installRuleType = .ok table)
    (htasks : t.generateTasksForQuery3 = .ok tasks) (htask : task ∈ tasks)
    (hp : NormalPacket t p task.dst) (hn : h.links.hops task.src task.dst ≤ n)
    (hrs : t.Sent table p task.src n rs) :
    ∃ m, (rs.map Located.entity).filter (· ∈ task.monitors) = [m] := by
  obtain ⟨hof, -⟩ := query3Tasks_spec h.toConnected htasks
  obtain ⟨hne, hcut⟩ := hof.good task htask
  have hway := (sent_normal h hpair hapart htype ht hp (hof.mem_hosts htask).1 hne hn).2 rs hrs
  obtain ⟨m, ⟨hm, hmp⟩, huniq⟩ := hcut.cuts.exactly_one _ hway
  obtain ⟨-, hnodup⟩ := List.nodup_cons.1 hway.nodup
  have hmem : m ∈ (rs.map Located.entity).filter (· ∈ task.monitors) := by
    rw [List.mem_filter]
    rcases List.mem_cons.1 hmp with heq | hmp
    · exact absurd (show task.src ∈ task.monitors from heq ▸ hm) hcut.not_src
    · exact ⟨hmp, decide_eq_true hm⟩
  refine ⟨m, by_contra fun hno => ?_⟩
  rcases (List.Nodup.ne_singleton_iff (hnodup.filter _) m).1 hno with hnil | ⟨k, hk, hkm⟩
  · rw [hnil] at hmem
    cases hmem
  · rw [List.mem_filter, decide_eq_true_iff] at hk
    exact hkm (huniq k ⟨hk.2, List.mem_cons_of_mem _ hk.1⟩)

end Ways

end GenerateRulesIntoTables

end CMTestbed
