import CMTestbed.Proofs.TaskFiles
import CMTestbed.Proofs.Splitting

/-!
# The tables that the task file is read into

Neither the counter of a line's monitors nor that of the tasks is compared with the length of its
array.  A file stays inside of both, or a line that is refused comes first.
-/

namespace CMTestbed

/-- The line has a task of the host in it. -/
def IsTaskOf (hostid : ℤ) (line : List UInt8) : Prop :=
  4 ≤ (tokenNumbers line).length ∧ (tokenNumbers line).getD 1 0 = hostid

instance (hostid : ℤ) : DecidablePred (IsTaskOf hostid) :=
  fun _ => inferInstanceAs (Decidable (_ ∧ _))

/-- The number of monitors in the line. -/
def numMonitors (line : List UInt8) : ℕ := (tokenNumbers line).length - 3

/-- The number of tasks of the host. -/
def numTasksOf (hostid : ℤ) (lines : List (List UInt8)) : ℕ := lines.countP (IsTaskOf hostid)

/-- What reading the tasks should do: no write is past the end of an array, and what would not fit
is rejected with -1. -/
structure NeverOverruns (content : List UInt8) (hostid : ℤ) : Prop where
  inside : readTasksFromFile content hostid ≠ .error .overrun
  rejected : (∃ line ∈ taskLines content, maxMonitors < numMonitors line)
      ∨ maxTaskNum < numTasksOf hostid (taskLines content) →
    readTasksFromFile content hostid = .error .failed

/-- No line has too many monitors, and the host has not too many tasks. -/
structure WithinLimits (content : List UInt8) (hostid : ℤ) : Prop where
  monitors : ∀ line ∈ taskLines content, numMonitors line ≤ maxMonitors
  tasks : numTasksOf hostid (taskLines content) ≤ maxTaskNum

/-- The line is split, and has some monitors but not too many. -/
structure ReadableTask (line : List UInt8) : Prop where
  separated : Lib.Separated 32 (cString line)
  some_monitor : 0 < numMonitors line
  monitors : numMonitors line ≤ maxMonitors

/-- A line without monitors comes before anything that would not fit, after `n` tasks. -/
def Refused (hostid : ℤ) (n : ℕ) (lines : List (List UInt8)) : Prop :=
  ∃ pre line rest, lines = pre ++ line :: rest ∧ (∀ line ∈ pre, ReadableTask line)
    ∧ n + numTasksOf hostid pre ≤ maxTaskNum
    ∧ Lib.Separated 32 (cString line) ∧ numMonitors line = 0

section Line
variable {hostid : ℤ} {tasks : List TaskS} {line : List UInt8}

theorem readOneTask_of_separated {s : List UInt8} (h : Lib.Separated 32 s) :
    readOneTaskFromOneLine s =
      let numbers := (strtok s 32).map fun token => intOfLong (strtol token)
      let monitors := numbers.drop 3
      if maxMonitors < monitors.length then .overrun
      else if monitors.length = 0 then .failed
      else .task {
        taskid := numbers.getD 0 0
        senderHost := numbers.getD 1 0
        receiverHost := numbers.getD 2 0
        monitorSwitchIds := monitors } := by
  rw [readOneTaskFromOneLine, strSplit_eq_some_iff.2 ⟨h, rfl⟩]

theorem readOneTask_of_not_separated {s : List UInt8} (h : ¬ Lib.Separated 32 s) :
    readOneTaskFromOneLine s = .aborted := by
  have hnone : strSplit s 32 = none := by
    rw [Option.eq_none_iff_forall_ne_some]
    intro tokens htokens
    exact h (strSplit_eq_some_iff.1 htokens).1
  rw [readOneTaskFromOneLine, hnone]

theorem length_monitors (line : List UInt8) :
    (((strtok (cString line) 32).map fun token => intOfLong (strtol token)).drop 3).length
      = numMonitors line := List.length_drop

variable (hostid tasks) in
/-- A line that is neither refused nor too long adds a task of its host. -/
theorem readTaskLine_of_readable (hline : ¬ IsComment line) (h : ReadableTask line) :
    ∃ t, readTaskLine hostid tasks line =
      if IsTaskOf hostid line then
        if tasks.length < maxTaskNum then .ok (tasks ++ [t]) else .error .overrun
      else .ok tasks := by
  have hpos := h.some_monitor
  have hle := h.monitors
  have hlen : 4 ≤ (tokenNumbers line).length := by
    rw [numMonitors] at hpos
    omega
  obtain ⟨t, ht, hsender⟩ : ∃ t, readOneTaskFromOneLine (cString line) = .task t
      ∧ t.senderHost = (tokenNumbers line).getD 1 0 := by
    rw [readOneTask_of_separated h.separated]
    dsimp only
    rw [length_monitors, if_neg (by omega), if_neg (by omega)]
    exact ⟨_, rfl, rfl⟩
  refine ⟨t, ?_⟩
  rw [readTaskLine, if_neg hline, ht]
  dsimp only
  rw [hsender]
  by_cases hhost : (tokenNumbers line).getD 1 0 = hostid
  · have htask : IsTaskOf hostid line := ⟨hlen, hhost⟩
    rw [if_neg (not_not.2 hhost), if_pos htask]
  · rw [if_pos hhost, if_neg fun htask => hhost htask.2]

theorem readTaskLine_of_not_separated (hline : ¬ IsComment line)
    (h : ¬ Lib.Separated 32 (cString line)) :
    readTaskLine hostid tasks line = .error .aborted := by
  rw [readTaskLine, if_neg hline, readOneTask_of_not_separated h]

theorem readTaskLine_of_no_monitor (hline : ¬ IsComment line)
    (h : Lib.Separated 32 (cString line)) (hnone : numMonitors line = 0) :
    readTaskLine hostid tasks line = .error .failed := by
  have hone : readOneTaskFromOneLine (cString line) = .failed := by
    rw [readOneTask_of_separated h]
    dsimp only
    rw [length_monitors, hnone, if_neg (by decide), if_pos rfl]
  rw [readTaskLine, if_neg hline, hone]

theorem readTaskLine_of_many_monitors (hline : ¬ IsComment line)
    (h : Lib.Separated 32 (cString line)) (hmany : maxMonitors < numMonitors line) :
    readTaskLine hostid tasks line = .error .overrun := by
  have hone : readOneTaskFromOneLine (cString line) = .overrun := by
    rw [readOneTask_of_separated h]
    dsimp only
    rw [length_monitors, if_pos hmany]
  rw [readTaskLine, if_neg hline, hone]

end Line

section Lines
variable {hostid : ℤ} {tasks : List TaskS} {lines : List (List UInt8)}

/-- The comments can be left out. -/
theorem foldlM_taskLines (lines : List (List UInt8)) (tasks : List TaskS) :
    lines.foldlM (readTaskLine hostid) tasks
      = (lines.filter fun line => ¬ IsComment line).foldlM (readTaskLine hostid) tasks := by
  induction lines generalizing tasks with
  | nil => rfl
  | cons line lines ih =>
    by_cases hline : IsComment line
    · rw [List.filter_cons_of_neg (by simpa using hline), List.foldlM_cons,
        readTaskLine_of_comment hline, ← ih tasks]
      rfl
    · rw [List.filter_cons_of_pos (by simpa using hline), List.foldlM_cons, List.foldlM_cons]
      exact bind_congr ih

theorem numTasksOf_cons (line : List UInt8) (lines : List (List UInt8)) :
    numTasksOf hostid (line :: lines)
      = (if IsTaskOf hostid line then 1 else 0) + numTasksOf hostid lines := by
  rw [numTasksOf, List.countP_cons, numTasksOf, add_comm]
  simp

theorem refused_nil {n : ℕ} : ¬ Refused hostid n [] := by
  rintro ⟨pre, line, rest, hlines, -⟩
  cases pre <;> cases hlines

/-- Whether a line is refused is known at the first one, or later if that one is readable. -/
theorem refused_cons {n : ℕ} {line : List UInt8} : Refused hostid n (line :: lines)
    ↔ n ≤ maxTaskNum ∧ Lib.Separated 32 (cString line) ∧ numMonitors line = 0
      ∨ ReadableTask line ∧ Refused hostid (n + if IsTaskOf hostid line then 1 else 0) lines := by
  constructor
  · rintro ⟨pre, line', rest, hlines, hreadable, htasks, hseparated, hnone⟩
    cases pre with
    | nil =>
      cases hlines
      exact .inl ⟨(Nat.le_add_right _ _).trans htasks, hseparated, hnone⟩
    | cons first pre =>
      cases hlines
      rw [List.forall_mem_cons] at hreadable
      rw [numTasksOf_cons, ← add_assoc] at htasks
      exact .inr ⟨hreadable.1, pre, line', rest, rfl, hreadable.2, htasks, hseparated, hnone⟩
  · rintro (⟨hn, hseparated, hnone⟩ | ⟨hline, pre, line', rest, rfl, hreadable, htasks, hlast⟩)
    · exact ⟨[], line, lines, rfl, fun _ h => absurd h List.not_mem_nil, hn, hseparated, hnone⟩
    · refine ⟨line :: pre, line', rest, rfl, List.forall_mem_cons.2 ⟨hline, hreadable⟩, ?_, hlast⟩
      rw [numTasksOf_cons, ← add_assoc]
      exact htasks

theorem not_refused_of_gt {n : ℕ} (hn : maxTaskNum < n) : ¬ Refused hostid n lines := by
  rintro ⟨pre, line, rest, -, -, htasks, -⟩
  omega

variable (hostid tasks lines) in
/-- How the loop goes on at a line. -/
theorem foldlM_cons_cases {line : List UInt8} (hline : ¬ IsComment line) :
    (∃ t, ReadableTask line ∧ IsTaskOf hostid line ∧ tasks.length < maxTaskNum
        ∧ (line :: lines).foldlM (readTaskLine hostid) tasks
          = lines.foldlM (readTaskLine hostid) (tasks ++ [t]))
      ∨ (ReadableTask line ∧ ¬ IsTaskOf hostid line
        ∧ (line :: lines).foldlM (readTaskLine hostid) tasks
          = lines.foldlM (readTaskLine hostid) tasks)
      ∨ (Lib.Separated 32 (cString line) ∧ numMonitors line = 0
        ∧ (line :: lines).foldlM (readTaskLine hostid) tasks = .error .failed)
      ∨ (¬ Lib.Separated 32 (cString line)
        ∧ (line :: lines).foldlM (readTaskLine hostid) tasks = .error .aborted)
      ∨ ((maxMonitors < numMonitors line
          ∨ IsTaskOf hostid line ∧ ReadableTask line ∧ maxTaskNum ≤ tasks.length)
        ∧ (line :: lines).foldlM (readTaskLine hostid) tasks = .error .overrun) := by
  rw [List.foldlM_cons]
  by_cases hseparated : Lib.Separated 32 (cString line)
  swap
  · rw [readTaskLine_of_not_separated hline hseparated]
    exact .inr (.inr (.inr (.inl ⟨hseparated, rfl⟩)))
  by_cases hnone : numMonitors line = 0
  · rw [readTaskLine_of_no_monitor hline hseparated hnone]
    exact .inr (.inr (.inl ⟨hseparated, hnone, rfl⟩))
  by_cases hmany : maxMonitors < numMonitors line
  · rw [readTaskLine_of_many_monitors hline hseparated hmany]
    exact .inr (.inr (.inr (.inr ⟨.inl hmany, rfl⟩)))
  have hreadable : ReadableTask line := ⟨hseparated, by omega, by omega⟩
  obtain ⟨t, ht⟩ := readTaskLine_of_readable hostid tasks hline hreadable
  rw [ht]
  split_ifs with htask hroom
  · exact .inl ⟨t, hreadable, htask, hroom, rfl⟩
  · exact .inr (.inr (.inr (.inr ⟨.inr ⟨htask, hreadable, by omega⟩, rfl⟩)))
  · exact .inr (.inl ⟨hreadable, htask, rfl⟩)

/-- The reading fails exactly at a line without monitors that comes first. -/
theorem foldlM_failed_iff (hlines : ∀ line ∈ lines, ¬ IsComment line)
    (htasks : tasks.length ≤ maxTaskNum) :
    lines.foldlM (readTaskLine hostid) tasks = .error .failed
      ↔ Refused hostid tasks.length lines := by
  induction lines generalizing tasks with
  | nil => exact iff_of_false (fun h => by cases h) refused_nil
  | cons line lines ih =>
    rw [List.forall_mem_cons] at hlines
    rw [refused_cons]
    rcases foldlM_cons_cases hostid tasks lines hlines.1 with
      ⟨t, hreadable, htask, hroom, hrest⟩ | ⟨hreadable, htask, hrest⟩
      | ⟨hseparated, hnone, hfailed⟩ | ⟨hseparated, haborted⟩ | ⟨hover, hoverrun⟩
    · rw [hrest, ih hlines.2 (by rw [List.length_append, List.length_singleton]; omega),
        List.length_append, List.length_singleton, if_pos htask]
      exact ⟨fun h => .inr ⟨hreadable, h⟩, fun h => (h.resolve_left fun h' =>
        hreadable.some_monitor.ne' h'.2.2).2⟩
    · rw [hrest, ih hlines.2 htasks, if_neg htask, add_zero]
      exact ⟨fun h => .inr ⟨hreadable, h⟩, fun h => (h.resolve_left fun h' =>
        hreadable.some_monitor.ne' h'.2.2).2⟩
    · rw [hfailed]
      exact iff_of_true rfl (.inl ⟨htasks, hseparated, hnone⟩)
    · rw [haborted]
      refine iff_of_false (fun h => by cases h) ?_
      rintro (⟨-, h, -⟩ | ⟨h, -⟩)
      · exact hseparated h
      · exact hseparated h.separated
    · rw [hoverrun]
      refine iff_of_false (fun h => by cases h) ?_
      rintro (⟨-, -, hnone⟩ | ⟨hreadable, hrefused⟩)
      · rcases hover with hmany | ⟨-, hreadable, -⟩
        · omega
        · exact hreadable.some_monitor.ne' hnone
      · rcases hover with hmany | ⟨htask, -, hfull⟩
        · exact absurd hreadable.monitors (by omega)
        · rw [if_pos htask] at hrefused
          exact not_refused_of_gt (by omega) hrefused

theorem exists_of_overrun (hlines : ∀ line ∈ lines, ¬ IsComment line)
    (h : lines.foldlM (readTaskLine hostid) tasks = .error .overrun) :
    (∃ line ∈ lines, maxMonitors < numMonitors line)
      ∨ maxTaskNum < tasks.length + numTasksOf hostid lines := by
  induction lines generalizing tasks with
  | nil => cases h
  | cons line lines ih =>
    rw [List.forall_mem_cons] at hlines
    rw [numTasksOf_cons, List.exists_mem_cons_iff]
    rcases foldlM_cons_cases hostid tasks lines hlines.1 with
      ⟨t, -, htask, -, hrest⟩ | ⟨-, htask, hrest⟩ | ⟨-, -, hfailed⟩ | ⟨-, haborted⟩
      | ⟨hover, -⟩
    · rcases ih hlines.2 (hrest ▸ h) with hmany | hfull
      · exact .inl (.inr hmany)
      · rw [List.length_append, List.length_singleton] at hfull
        rw [if_pos htask]
        exact .inr (by omega)
    · rcases ih hlines.2 (hrest ▸ h) with hmany | hfull
      · exact .inl (.inr hmany)
      · exact .inr (by omega)
    · cases hfailed.symm.trans h
    · cases haborted.symm.trans h
    · rcases hover with hmany | ⟨htask, -, hfull⟩
      · exact .inl (.inl hmany)
      · rw [if_pos htask]
        exact .inr (by omega)

end Lines

/-- Reading the tasks stays inside of its tables, and rejects what does not fit, if and only if
everything fits or a line without monitors is refused before. -/
theorem never_overruns_iff (content : List UInt8) (hostid : ℤ) :
    NeverOverruns content hostid
      ↔ WithinLimits content hostid ∨ Refused hostid 0 (taskLines content) := by
  have hlines : ∀ line ∈ taskLines content, ¬ IsComment line :=
    fun line h => (mem_taskLines.1 h).2
  have hread : readTasksFromFile content hostid
      = (taskLines content).foldlM (readTaskLine hostid) [] := foldlM_taskLines _ _
  have hfailed : readTasksFromFile content hostid = .error .failed
      ↔ Refused hostid 0 (taskLines content) := by
    rw [hread]
    exact foldlM_failed_iff hlines (Nat.zero_le _)
  constructor
  · intro h
    rw [or_iff_not_imp_left, ← hfailed]
    intro hlimits
    refine h.rejected ?_
    by_contra hnot
    push Not at hnot
    exact hlimits ⟨hnot.1, hnot.2⟩
  · rintro (hlimits | hrefused)
    · refine ⟨fun hover => ?_, fun hbeyond => ?_⟩
      · rw [hread] at hover
        rcases exists_of_overrun hlines hover with ⟨line, hline, hmany⟩ | hfull
        · exact absurd (hlimits.monitors line hline) (by omega)
        · rw [List.length_nil, zero_add] at hfull
          exact absurd hlimits.tasks (by omega)
      · rcases hbeyond with ⟨line, hline, hmany⟩ | hfull
        · exact absurd (hlimits.monitors line hline) (by omega)
        · exact absurd hlimits.tasks (by omega)
    · rw [← hfailed] at hrefused
      exact ⟨fun hover => (by cases hrefused.symm.trans hover), fun _ => hrefused⟩

/-- A line of thirteen monitors. -/
def thirteenMonitors : List UInt8 := chars "1 1 7 1 2 3 4 5 6 7 8 9 10 11 12 13\n"

/-- The thirteenth monitor is stored past the end of the array. -/
theorem thirteen_monitors_overrun :
    readTasksFromFile thirteenMonitors 1 = .error .overrun
      ∧ ¬ NeverOverruns thirteenMonitors 1 := by
  have hover : readTasksFromFile thirteenMonitors 1 = .error .overrun := by decide +kernel
  exact ⟨hover, fun h => h.inside hover⟩

end CMTestbed
