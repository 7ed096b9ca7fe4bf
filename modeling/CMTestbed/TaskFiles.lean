import CMTestbed.PythonText
import CMTestbed.Tasks

/-!
# The task file

A sender stores the tasks that start at its own host, in an array.  The script of the queries keeps
the tasks of all hosts, in a dictionary under the text of their id.  The sender reads bytes; the
script runs under Python 3 and reads characters.
-/

namespace CMTestbed

/-- A line that a reader in C leaves out. -/
def IsComment (line : List UInt8) : Prop := line.head? = some 35

instance : DecidablePred IsComment := fun _ => inferInstanceAs (Decidable (_ = _))

/-! ## The sender's reader -/

/-- The length of the array `tasks`. -/
def maxTaskNum : ℕ := 200

/-- The lines that `getline` returns, which keep their newlines. -/
def getlines (content : List UInt8) : List (List UInt8) := Lib.lines 10 content

/-- A line, as a string that ends at the first 0 in it. -/
def cString (line : List UInt8) : List UInt8 := line.takeWhile (· ≠ 0)

/-- What a line that `getline` returns adds to the array, or how the reading ends. -/
def readTaskLine (hostid : ℤ) (tasks : List TaskS) (line : List UInt8) :
    Except ReadTask (List TaskS) :=
  if IsComment line then .ok tasks
  else match readOneTaskFromOneLine (cString line) with
    | .task task =>
      if task.senderHost ≠ hostid then .ok tasks
      else if tasks.length < maxTaskNum then .ok (tasks ++ [task])
      else .error .overrun
    | failure => .error failure

/-- `read_tasks_from_file` -/
def readTasksFromFile (content : List UInt8) (hostid : ℤ) : Except ReadTask (List TaskS) :=
  (getlines content).foldlM (readTaskLine hostid) []

/-! ## The script's reader -/

/-- `Task` -/
structure ScriptTask where
  taskid : List Char
  senderHostid : ℤ
  receHostid : ℤ
  selectorsSwitchIdMap : Dict ℤ ℕ

variable (py : Python3)

/-- A line that the script leaves out. -/
def IsScriptComment (line : List Char) : Prop := line.head? = some '#'

instance : DecidablePred IsScriptComment := fun _ => inferInstanceAs (Decidable (_ = _))

/-- `items[i]` -/
def itemAt (items : List (List Char)) (i : ℕ) : Except PyError (List Char) :=
  match items[i]? with
  | some item => .ok item
  | none => .error .indexError

/-- The task of a line from which the last character was cut. -/
def scriptTask (line : List Char) : Except PyError ScriptTask := do
  let items := Python3.split line
  let taskid ← itemAt items 0
  let senderHostid ← (itemAt items 1) >>= py.int
  let receHostid ← (itemAt items 2) >>= py.int
  let selectorsSwitchIdMap ← (items.drop 3).foldlM (fun (map : Dict ℤ ℕ) item => do
    let switchid ← py.int item
    .ok (AList.insert switchid 1 map)) ∅
  .ok ⟨taskid, senderHostid, receHostid, selectorsSwitchIdMap⟩

namespace TaskManager

def addLine (taskMap : Dict (List Char) ScriptTask) (line : List Char) :
    Except PyError (Dict (List Char) ScriptTask) :=
  let line := line.dropLast
  match line with
  | [] => .error .indexError
  | c :: _ =>
    if c = '#' then .ok taskMap
    else do
      let oneTask ← scriptTask py line
      .ok (AList.insert oneTask.taskid oneTask taskMap)

/-- `TaskManager.readTasksFromFile` -/
def readTasksFromFile (content : List UInt8) : Except PyError (Dict (List Char) ScriptTask) := do
  let lines ← py.readlines content
  lines.foldlM (addLine py) ∅

end TaskManager

/-! ## The tasks that the readers see -/

/-- A task, whichever reader has read it. -/
structure TaskInfo where
  id : ℤ
  sender : ℤ
  receiver : ℤ
  monitors : Set ℤ

def TaskS.info (t : TaskS) : TaskInfo :=
  ⟨t.taskid, t.senderHost, t.receiverHost, {s | s ∈ t.monitorSwitchIds}⟩

/-- The script's task, if the text of its id is a number. -/
def ScriptTask.info (t : ScriptTask) : Except PyError TaskInfo := do
  let id ← py.int t.taskid
  .ok ⟨id, t.senderHostid, t.receHostid, {s | s ∈ t.selectorsSwitchIdMap}⟩

/-- `read_tasks_from_file` returns 0 for every host. -/
def AcceptedFile (content : List UInt8) : Prop :=
  ∀ hostid, ∃ tasks, readTasksFromFile content hostid = .ok tasks

/-- The script raises no error, and each sender stores the script's tasks of its host. -/
def SameTasks (content : List UInt8) : Prop :=
  ∃ taskMap, TaskManager.readTasksFromFile py content = .ok taskMap ∧
    ∀ hostid tasks, readTasksFromFile content hostid = .ok tasks → ∀ info,
      (∃ t ∈ tasks, .ok t.info = info) ↔
        ∃ k t, taskMap.lookup k = some t ∧ t.senderHostid = hostid ∧ t.info py = info

/-! ## The two ways to split a file -/

/-- The lines that a sender makes a task of. -/
def taskLines (content : List UInt8) : List (List UInt8) :=
  (getlines content).filter fun line => ¬ IsComment line

/-- The numbers between blanks, as `int`s. -/
def tokenNumbers (line : List UInt8) : List ℤ :=
  (strtok (cString line) 32).map fun token => intOfLong (strtol token)

/-- The words before the last character. -/
def words (line : List Char) : List (List Char) := Python3.split line.dropLast

/-- The lines that no later line with the same first word replaces. -/
def lastOfEachId (lines : List (List Char)) : List (List Char) :=
  lines.pwFilter fun line later => (words line).head? ≠ (words later).head?

/-- The lines of which the script keeps the task. -/
def keptLines (lines : List (List Char)) : List (List Char) :=
  lastOfEachId (lines.filter fun line => ¬ IsScriptComment line)

/-- The words of the script's line are the numbers of the sender's; the order of the switches does
not matter. -/
def SameNumbers (line : List UInt8) (line' : List Char) : Prop :=
  ∃ numbers, (words line').mapM py.int = .ok numbers
    ∧ numbers.take 3 = (tokenNumbers line).take 3
    ∧ ∀ s, s ∈ numbers.drop 3 ↔ s ∈ (tokenNumbers line).drop 3

/-- The script can read the line. -/
def CanRead (line : List Char) : Prop :=
  if IsScriptComment line then line ≠ ['#']
  else 3 ≤ (words line).length ∧ ∀ word ∈ (words line).tail, ∃ n, py.int word = .ok n

/-- The script can decode the file and read each of its lines, and the lines that it keeps have the
numbers of the lines that a sender reads. -/
def SplitAlike (content : List UInt8) : Prop :=
  ∃ lines, py.readlines content = .ok lines
    ∧ (∀ line ∈ lines, CanRead py line)
    ∧ (∀ line ∈ taskLines content, ∃ line' ∈ keptLines lines, SameNumbers py line line')
    ∧ ∀ line' ∈ keptLines lines, ∃ line ∈ taskLines content, SameNumbers py line line'

end CMTestbed
