import CMTestbed.Proofs.HostLogs
import CMTestbed.Proofs.Monitored
import CMTestbed.Proofs.Receiver
import CMTestbed.Proofs.Splitting
import CMTestbed.TasksInfo
import Mathlib.Data.List.Find

/-!
# From the generated tasks to the tags

Every line that the generator writes is read back as its task (`readOneTask_line`), so a sender
stores its own tasks in their order (`readTasksFromFile_taskFile`).  The addresses of a packet say
which hosts it is between, and it gets the task of the two (`getTaskOfTraffic_eq`).
-/

namespace CMTestbed

open GenerateRulesIntoTables

/-! ## One line -/

theorem formatNat_cons (n : ℕ) : ∃ c s, formatNat n = c :: s ∧ isdigit c = true := by
  obtain ⟨c, s, hcs⟩ := List.exists_cons_of_ne_nil (formatNat_ne_nil n)
  exact ⟨c, s, hcs, isdigit_formatNat n c (hcs ▸ List.mem_cons_self)⟩

/-- A printed number is read back as an `int`, also with the newline behind it. -/
theorem intOfLong_strtol {n : ℕ} (hn : n < 2 ^ 31) {tail : List UInt8}
    (htail : tail = [] ∨ tail = [10]) :
    intOfLong (strtol (formatNat n ++ tail)) = n := by
  have hdigits : digits (formatNat n ++ tail) = n := by
    rcases htail with rfl | rfl
    · rw [List.append_nil, digits_formatNat]
    · rw [digits_append_newline, digits_formatNat]
  obtain ⟨c, s, hcs, hc⟩ := formatNat_cons n
  have hlong : strtol (formatNat n ++ tail) = n := by
    rw [hcs, List.cons_append] at hdigits ⊢
    rw [strtol_of_isdigit hc, hdigits]
    omega
  rw [hlong, intOfLong, toInt_toUInt (by omega) (by exact_mod_cast hn)]

/-- Numbers with a blank between each two, and a newline. -/
theorem strSplit_numbers (ns : List ℕ) (n : ℕ) :
    strSplit ([32].intercalate ((ns ++ [n]).map formatNat) ++ [10]) 32
      = some (ns.map formatNat ++ [formatNat n ++ [10]]) := by
  have hjoin : ∀ ws : List (List UInt8), [32].intercalate (ws ++ [formatNat n]) ++ [10]
      = [32].intercalate (ws ++ [formatNat n ++ [10]]) := by
    intro ws
    induction ws with
    | nil => simp
    | cons w ws ih =>
      rw [List.cons_append, List.cons_append, List.intercalate_cons_of_ne_nil (by simp),
        List.intercalate_cons_of_ne_nil (by simp), ← ih, List.append_assoc]
  have hwords : ∀ word ∈ ns.map formatNat ++ [formatNat n ++ [10]],
      word ≠ [] ∧ (32 : UInt8) ∉ word := by
    intro word hword
    rcases List.mem_append.1 hword with hword | hword
    · obtain ⟨m, -, rfl⟩ := List.mem_map.1 hword
      exact ⟨formatNat_ne_nil m, not_mem_formatNat (by decide) m⟩
    · obtain rfl := List.mem_singleton.1 hword
      refine ⟨by simp, fun hmem => ?_⟩
      rcases List.mem_append.1 hmem with hmem | hmem
      · exact not_mem_formatNat (by decide) n hmem
      · simp at hmem
  rw [List.map_append, List.map_singleton, hjoin, strSplit_eq_some_iff]
  exact ⟨Lib.separated_intercalate (by simp) hwords, Lib.tokens_intercalate (by simp) hwords⟩

/-- A task that a line holds: the names are a letter and a number that fits in an `int`, and the
monitors fit in their array. -/
structure Writable (task : MonitorTask) : Prop where
  taskid : task.taskid < 2 ^ 31
  src : ∃ n < 2 ^ 31, task.src.drop 1 = formatNat n
  dst : ∃ n < 2 ^ 31, task.dst.drop 1 = formatNat n
  monitors : ∀ node ∈ task.monitors, ∃ n < 2 ^ 31, node.drop 1 = formatNat n
  nonempty : task.monitors ≠ []
  fits : task.monitors.length ≤ maxMonitors

theorem numberOf_eq {name : Name} {n : ℕ} (h : name.drop 1 = formatNat n) : numberOf name = n := by
  rw [numberOf, h, digits_formatNat]

theorem formatNat_numberOf {name : Name} (h : ∃ n < 2 ^ 31, name.drop 1 = formatNat n) :
    numberOf name < 2 ^ 31 ∧ formatNat (numberOf name) = name.drop 1 := by
  obtain ⟨n, hn, hname⟩ := h
  rw [numberOf_eq hname]
  exact ⟨hn, hname.symm⟩

/-- The numbers of a line. -/
def lineNumbers (task : MonitorTask) : List ℕ :=
  task.taskid :: numberOf task.src :: numberOf task.dst :: task.monitors.map numberOf

section Line

variable {task : MonitorTask}

theorem lineNumbers_lt (h : Writable task) : ∀ n ∈ lineNumbers task, n < 2 ^ 31 := by
  simp only [lineNumbers, List.forall_mem_cons, List.forall_mem_map]
  exact ⟨h.taskid, (formatNat_numberOf h.src).1, (formatNat_numberOf h.dst).1,
    fun node hnode => (formatNat_numberOf (h.monitors node hnode)).1⟩

theorem line_eq (h : Writable task) :
    task.line = [32].intercalate ((lineNumbers task).map formatNat) ++ [10] := by
  have hmonitors : (task.monitors.map numberOf).map formatNat = task.monitors.map (·.drop 1) := by
    rw [List.map_map]
    exact List.map_congr_left fun node hnode => (formatNat_numberOf (h.monitors node hnode)).2
  have hnil : task.monitors.map (·.drop 1) ≠ [] := by simpa using h.nonempty
  rw [MonitorTask.line, lineNumbers, List.map_cons, List.map_cons, List.map_cons, hmonitors,
    (formatNat_numberOf h.src).2, (formatNat_numberOf h.dst).2, chars_toString,
    List.intercalate_cons_of_ne_nil (by simp), List.intercalate_cons_of_ne_nil (by simp),
    List.intercalate_cons_of_ne_nil hnil]
  simp only [List.append_assoc]

/-- Between the blanks there are digits. -/
theorem mem_intercalate_formatNat {c : UInt8} : ∀ {ns : List ℕ},
    c ∈ [32].intercalate (ns.map formatNat) → isdigit c = true ∨ c = 32 := by
  intro ns
  induction ns with
  | nil => simp
  | cons n ns ih =>
    intro hc
    cases ns with
    | nil =>
      rw [List.map_singleton, List.intercalate_singleton] at hc
      exact .inl (isdigit_formatNat n c hc)
    | cons m ns =>
      rw [List.map_cons, List.map_cons, List.intercalate_cons_cons, List.mem_append,
        List.mem_append, List.mem_singleton] at hc
      rcases hc with (hc | hc) | hc
      · exact .inl (isdigit_formatNat n c hc)
      · exact .inr hc
      · exact ih hc

theorem isLine_line (h : Writable task) : Lib.IsLine 10 task.line := by
  refine ⟨_, line_eq h, fun hmem => ?_⟩
  rcases mem_intercalate_formatNat hmem with hc | hc <;> cases hc

theorem cString_line (h : Writable task) : cString task.line = task.line := by
  rw [cString, List.takeWhile_eq_self_iff]
  intro c hc
  rw [line_eq h, List.mem_append, List.mem_singleton] at hc
  refine decide_eq_true ?_
  rintro rfl
  rcases hc with hc | hc
  · rcases mem_intercalate_formatNat hc with hc | hc <;> cases hc
  · cases hc

theorem not_isComment_line (task : MonitorTask) : ¬ IsComment task.line := by
  obtain ⟨c, s, hcs, hc⟩ := formatNat_cons task.taskid
  rw [IsComment, MonitorTask.line, chars_toString, hcs]
  simp only [List.cons_append, List.head?_cons, Option.some.injEq]
  rintro rfl
  cases hc

/-- A line that the generator writes is read as its task. -/
theorem readOneTask_line (h : Writable task) :
    readOneTaskFromOneLine (cString task.line) = .task task.stored := by
  obtain ⟨ns, n, hns⟩ := (List.eq_nil_or_concat' (lineNumbers task)).resolve_left
    (List.cons_ne_nil _ _)
  have hlt := lineNumbers_lt h
  rw [hns] at hlt
  have hnumbers : (ns.map formatNat ++ [formatNat n ++ [10]]).map
      (fun token => intOfLong (strtol token))
      = (lineNumbers task).map fun m : ℕ => (m : ℤ) := by
    rw [hns, List.map_append, List.map_append, List.map_map, List.map_singleton, List.map_singleton,
      intOfLong_strtol (hlt n (by simp)) (.inr rfl)]
    congr 1
    refine List.map_congr_left fun m hm => ?_
    have := intOfLong_strtol (hlt m (by simp [hm])) (.inl rfl)
    rwa [List.append_nil] at this
  rw [readOneTaskFromOneLine, cString_line h, line_eq h, hns, strSplit_numbers]
  simp only [hnumbers, lineNumbers, List.map_cons, List.map_map, List.drop_succ_cons,
    List.drop_zero, List.length_map]
  rw [if_neg (Nat.not_lt.2 h.fits), if_neg fun hz => h.nonempty (List.length_eq_zero_iff.1 hz)]
  rfl

end Line

/-! ## The file -/

section File

variable {tasks : List MonitorTask} {i : ℕ}

theorem foldlM_readTaskLine_lines (h : ∀ task ∈ tasks, Writable task) {before : List TaskS}
    (hlen : before.length + (tasks.filter (numberOf ·.src = i)).length ≤ maxTaskNum) :
    (tasks.map MonitorTask.line).foldlM (readTaskLine i) before
      = .ok (before ++ (tasks.filter (numberOf ·.src = i)).map MonitorTask.stored) := by
  induction tasks generalizing before with
  | nil => simp [pure, Except.pure]
  | cons task tasks ih =>
    rw [List.forall_mem_cons] at h
    have hsender : task.stored.senderHost = i ↔ numberOf task.src = i := Nat.cast_inj
    rw [List.map_cons, List.foldlM_cons, readTaskLine, if_neg (not_isComment_line task),
      readOneTask_line h.1]
    dsimp only
    by_cases hi : numberOf task.src = i
    · rw [List.filter_cons_of_pos (by simpa using hi), List.length_cons] at hlen
      rw [if_neg (not_not.2 (hsender.2 hi)), if_pos (by omega),
        List.filter_cons_of_pos (by simpa using hi), List.map_cons]
      have hlen' : (before ++ [task.stored]).length
          + (tasks.filter (numberOf ·.src = i)).length ≤ maxTaskNum := by
        rw [List.length_append, List.length_singleton]
        omega
      have := ih h.2 hlen'
      rwa [List.append_assoc] at this
    · rw [List.filter_cons_of_neg (by simpa using hi)] at hlen ⊢
      rw [if_pos fun heq => hi (hsender.1 heq)]
      exact ih h.2 hlen

/-- A sender stores the tasks that start at it, in the order in which they were written. -/
theorem readTasksFromFile_taskFile (h : ∀ task ∈ tasks, Writable task)
    (hlen : (tasks.filter (numberOf ·.src = i)).length ≤ maxTaskNum) :
    readTasksFromFile (taskFile tasks) i
      = .ok ((tasks.filter (numberOf ·.src = i)).map MonitorTask.stored) := by
  have hlines : getlines (taskFile tasks) = tasks.map MonitorTask.line := by
    rw [taskFile, List.flatMap_def]
    refine Lib.lines_flatten fun line hline => ?_
    obtain ⟨task, htask, rfl⟩ := List.mem_map.1 hline
    exact isLine_line (h task htask)
  rw [readTasksFromFile, hlines, foldlM_readTaskLine_lines h (by simpa using hlen), List.nil_append]

theorem initTasksInfo_taskFile (h : ∀ task ∈ tasks, Writable task) (hi : i < 2 ^ 31)
    (hlen : (tasks.filter (numberOf ·.src = i)).length ≤ maxTaskNum) :
    initTasksInfo (taskFile tasks) (hostName i)
      = .ok ((tasks.filter (numberOf ·.src = i)).map fun task => task.stored.withPrefixes) := by
  have hid : intOfLong (strtol ((hostName i).drop 1)) = i := by
    have := intOfLong_strtol hi (.inl rfl)
    rwa [List.append_nil] at this
  rw [initTasksInfo, hid, readTasksFromFile_taskFile h hlen]
  show Except.ok _ = _
  rw [List.map_map]
  rfl

end File

/-! ## The task of a packet -/

/-- The address is in the /8 of the host with the number. -/
def InRangeOf (n : ℕ) (ip : UInt32) : Prop := ip.toNat / 2 ^ 24 = n + 9

instance (n : ℕ) : DecidablePred (InRangeOf n) := fun _ => inferInstanceAs (Decidable (_ = _))

theorem InRangeOf.unique {m n : ℕ} {ip : UInt32} (hm : InRangeOf m ip) (hn : InRangeOf n ip) :
    m = n := Nat.add_right_cancel (hm.symm.trans hn)

theorem and_ipMask_eq_iff {n : ℕ} (h₁ : 1 ≤ n) (hn : n < 118) (ip : UInt32) :
    ip &&& ipMask = ithSenderStartIp (toUInt ((n : ℤ) - 1)) ↔ InRangeOf n ip := by
  have hstart : startIp.toNat = 10 * 2 ^ 24 := by decide
  have hnum : oneSenderIpNum.toNat = 2 ^ 24 := by decide
  have hidx : (toUInt ((n : ℤ) - 1)).toNat = n - 1 := by
    have hcast : ((toUInt ((n : ℤ) - 1)).toNat : ℤ) = (n : ℤ) - 1 :=
      toNat_toUInt (by omega) (by omega)
    omega
  rw [← UInt32.toNat_inj, toNat_and_ipMask, ithSenderStartIp, UInt32.toNat_add, UInt32.toNat_mul,
    hstart, hnum, hidx, InRangeOf]
  omega

/-- A task of hosts that there may be. -/
structure BetweenHosts (task : MonitorTask) : Prop where
  src : 1 ≤ numberOf task.src ∧ numberOf task.src < 118
  dst : 1 ≤ numberOf task.dst ∧ numberOf task.dst < 118

/-- The lookup compares the ranges of the two hosts. -/
theorem getTaskOfTraffic_eq {tasks : List MonitorTask} (h : ∀ task ∈ tasks, BetweenHosts task)
    (flow : FlowSrc) :
    getTaskOfTraffic (tasks.map fun task => task.stored.withPrefixes) flow
      = (tasks.find? fun task => InRangeOf (numberOf task.src) flow.srcip
          ∧ InRangeOf (numberOf task.dst) flow.dstip).map fun task =>
        task.stored.withPrefixes := by
  rw [getTaskOfTraffic, List.find?_map]
  congr 1
  refine List.find?_congr fun task htask => decide_eq_decide.2 ?_
  have hsrc := and_ipMask_eq_iff (h task htask).src.1 (h task htask).src.2 flow.srcip
  have hdst := and_ipMask_eq_iff (h task htask).dst.1 (h task htask).dst.2 flow.dstip
  exact and_congr hsrc hdst

end CMTestbed
