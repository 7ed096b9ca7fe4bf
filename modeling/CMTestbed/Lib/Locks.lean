import Mathlib.Data.Fintype.Basic
import CMTestbed.Lib.System

/-!
# Threads that take locks

A thread runs the body of a function: it takes and releases locks, allocates memory, reads and
writes what the threads share, and calls other functions.  A value that the body does not say is
chosen anew each time.  A function returns to the call it was entered by, wherever its body stands.

The locks are ranked.  A body is `balanced` when it takes each lock above the ones it holds,
releases only what it holds, and leaves a function with the locks it entered it with.  Threads of
balanced bodies return holding nothing, and one of them can always go on (`Machine.sound`,
`Machine.exists_step`).
-/

namespace CMTestbed.Lib.Locks

variable {T S M A : Type}

/-- What a thread may still have to do.  `exchange` goes on with a number it reads as it writes;
`malloc` may fail, at the site it names. -/
inductive Code (S M A : Type) where
  | skip
  | lock (m : M)
  | unlock (m : M)
  | seq (c d : Code S M A)
  | either (c d : Code S M A)
  | pick (f : ℕ → Code S M A)
  | loop (c : Code S M A)
  | forever (c : Code S M A)
  | read (f : S → Code S M A)
  | write (f : S → S)
  | exchange (f : S → ℕ × S) (c : ℕ → Code S M A)
  | malloc (site : A) (ok fail : Code S M A)
  | call (c : Code S M A)
  | ret
  | undefined

/-- Statements one after the other. -/
def Code.block : List (Code S M A) → Code S M A
  | [] => .skip
  | [c] => c
  | c :: cs => .seq c (block cs)

/-- What is on a thread's stack: code to run, or the end of a call, with the locks held when the
function was entered. -/
inductive Item (S M A : Type) where
  | code (c : Code S M A)
  | leave (entry : List M)

structure Thread (S M A : Type) where
  todo : List (Item S M A)
  held : List M

/-- How a step goes on where the body does not say it. -/
inductive Choice where
  | go
  | left
  | right
  | nth (n : ℕ)
deriving DecidableEq

/-- Back to the call the running function was entered by. -/
def unwind : List (Item S M A) → List (Item S M A)
  | [] => []
  | .leave E :: rest => .leave E :: rest
  | .code _ :: rest => unwind rest

/-- One step of a thread while the locks `free` are held by no thread; `none` inside is the crash
of the process. -/
def advance [DecidableEq M] (free : M → Prop) [DecidablePred free] (s : S) (held : List M) :
    List (Item S M A) → Choice → Option (Option (S × Thread S M A))
  | .leave _ :: rest, .go => some (some (s, ⟨rest, held⟩))
  | .code .skip :: rest, .go => some (some (s, ⟨rest, held⟩))
  | .code (.lock m) :: rest, .go => if free m then some (some (s, ⟨rest, m :: held⟩)) else none
  | .code (.unlock m) :: rest, .go => some (some (s, ⟨rest, held.erase m⟩))
  | .code (.seq c d) :: rest, .go => some (some (s, ⟨.code c :: .code d :: rest, held⟩))
  | .code (.either c _) :: rest, .left => some (some (s, ⟨.code c :: rest, held⟩))
  | .code (.either _ d) :: rest, .right => some (some (s, ⟨.code d :: rest, held⟩))
  | .code (.pick f) :: rest, .nth n => some (some (s, ⟨.code (f n) :: rest, held⟩))
  | .code (.loop _) :: rest, .left => some (some (s, ⟨rest, held⟩))
  | .code (.loop c) :: rest, .right => some (some (s, ⟨.code c :: .code (.loop c) :: rest, held⟩))
  | .code (.forever c) :: rest, .go =>
    some (some (s, ⟨.code c :: .code (.forever c) :: rest, held⟩))
  | .code (.read f) :: rest, .go => some (some (s, ⟨.code (f s) :: rest, held⟩))
  | .code (.write f) :: rest, .go => some (some (f s, ⟨rest, held⟩))
  | .code (.exchange f c) :: rest, .go => some (some ((f s).2, ⟨.code (c (f s).1) :: rest, held⟩))
  | .code (.malloc _ c _) :: rest, .left => some (some (s, ⟨.code c :: rest, held⟩))
  | .code (.malloc _ _ d) :: rest, .right => some (some (s, ⟨.code d :: rest, held⟩))
  | .code (.call c) :: rest, .go => some (some (s, ⟨.code c :: .leave held :: rest, held⟩))
  | .code .ret :: rest, .go => some (some (s, ⟨unwind rest, held⟩))
  | .code .undefined :: _, .go => some none
  | _, _ => none

/-- The steps of a thread where no other holds a lock. -/
def runAlone [DecidableEq M] (s : S) (t : Thread S M A) :
    List Choice → Option (S × Thread S M A)
  | [] => some (s, t)
  | x :: xs => (advance (· ∉ t.held) s t.held t.todo x).bind fun
    | none => none
    | some (s', t') => runAlone s' t' xs

theorem runAlone_append [DecidableEq M] {s s' : S} {t t' : Thread S M A} {xs : List Choice}
    (h : runAlone s t xs = some (s', t')) (ys : List Choice) :
    runAlone s t (xs ++ ys) = runAlone s' t' ys := by
  induction xs generalizing s t with
  | nil =>
    cases h
    rfl
  | cons x xs ih =>
    rw [runAlone, Option.bind_eq_some_iff] at h
    obtain ⟨r, hr, h⟩ := h
    rw [List.cons_append, runAlone, hr, Option.bind_some]
    obtain _ | ⟨s₁, t₁⟩ := r
    · cases h
    · exact ih h

/-- Steps that lead a thread back to where it was, repeated. -/
theorem runAlone_flatMap [DecidableEq M] {s : S} {t : Thread S M A} {pass : ℕ → List Choice}
    (h : ∀ n, runAlone s t (pass n) = some (s, t)) (ns : List ℕ) :
    runAlone s t (ns.flatMap pass) = some (s, t) := by
  induction ns with
  | nil => rfl
  | cons n ns ih => rw [List.flatMap_cons, runAlone_append (h n), ih]

/-- The process: what its threads share, and the threads.  A crash ends them all. -/
structure Machine (T S M A : Type) where
  shared : S
  threads : T → Thread S M A
  crashed : Bool

namespace Machine

/-- No thread holds the lock. -/
def Free (s : Machine T S M A) (m : M) : Prop := ∀ j, m ∉ (s.threads j).held

instance [Fintype T] [DecidableEq M] (s : Machine T S M A) : DecidablePred s.Free :=
  fun m => inferInstanceAs (Decidable (∀ j, m ∉ (s.threads j).held))

def Returned (s : Machine T S M A) (i : T) : Prop := (s.threads i).todo = []

variable [Fintype T] [DecidableEq T] [DecidableEq M]

/-- What a step of thread `i` makes of the process. -/
def after (s : Machine T S M A) (i : T) : Option (S × Thread S M A) → Machine T S M A
  | none => { s with crashed := true }
  | some (shared, t) => { s with shared, threads := Function.update s.threads i t }

/-- One of the threads takes a step. -/
def step (s : Machine T S M A) (e : T × Choice) : Option (Machine T S M A) :=
  if s.crashed then none
  else (advance s.Free s.shared (s.threads e.1).held (s.threads e.1).todo e.2).map (s.after e.1)

end Machine

/-- The threads of a process, each step by one of them. -/
def process [Fintype T] [DecidableEq T] [DecidableEq M] : System (Machine T S M A) (T × Choice) :=
  ⟨Machine.step⟩

/-- The process when thread `i` is about to run `main i`. -/
def start (shared : S) (main : T → Code S M A) : Machine T S M A :=
  ⟨shared, fun i => ⟨[.code (main i)], []⟩, false⟩

section Balanced

variable [DecidableEq M] (rank : M → ℕ) (may : A → Prop)

/-- The locks rank below `k`. -/
def Below (k : ℕ) (H : List M) : Prop := ∀ m ∈ H, rank m < k

/-- The body is balanced from the locks `H` on, where only the sites of `may` fail: it ends with
locks that satisfy `N`, and returns with locks that satisfy `R`. -/
def Code.Balanced : Code S M A → (N R : List M → Prop) → List M → Prop
  | skip, N, _, H => N H
  | lock m, N, _, H => Below rank (rank m) H ∧ N (m :: H)
  | unlock m, N, _, H => m ∈ H ∧ N (H.erase m)
  | seq c d, N, R, H => c.Balanced (d.Balanced N R) R H
  | either c d, N, R, H => c.Balanced N R H ∧ d.Balanced N R H
  | pick f, N, R, H => ∀ n, (f n).Balanced N R H
  | loop c, N, R, H => c.Balanced (· = H) R H ∧ N H
  | forever c, _, R, H => c.Balanced (· = H) R H
  | read f, N, R, H => ∀ s, (f s).Balanced N R H
  | write _, N, _, H => N H
  | exchange _ c, N, R, H => ∀ n, (c n).Balanced N R H
  | malloc a c d, N, R, H => c.Balanced N R H ∧ (may a → d.Balanced N R H)
  | call c, N, _, H => c.Balanced (· = H) (· = H) H ∧ N H
  | ret, _, R, H => R H
  | undefined, _, _, _ => True

variable {rank may}

omit [DecidableEq M] in
@[simp] theorem below_nil {k : ℕ} : Below rank k [] := List.forall_mem_nil _

omit [DecidableEq M] in
@[simp] theorem below_cons {k : ℕ} {m : M} {H : List M} :
    Below rank k (m :: H) ↔ rank m < k ∧ Below rank k H := List.forall_mem_cons

omit [DecidableEq M] in
theorem Below.mono {j k : ℕ} {H : List M} (h : Below rank j H) (hjk : j ≤ k) : Below rank k H :=
  fun m hm => (h m hm).trans_le hjk

section Rules

variable {N R : List M → Prop} {H : List M} {c d : Code S M A}

@[simp] theorem balanced_skip : (Code.skip : Code S M A).Balanced rank may N R H ↔ N H := Iff.rfl

@[simp] theorem balanced_lock {m : M} : (Code.lock m : Code S M A).Balanced rank may N R H
    ↔ Below rank (rank m) H ∧ N (m :: H) := Iff.rfl

@[simp] theorem balanced_unlock {m : M} : (Code.unlock m : Code S M A).Balanced rank may N R H
    ↔ m ∈ H ∧ N (H.erase m) := Iff.rfl

@[simp] theorem balanced_either : (Code.either c d).Balanced rank may N R H
    ↔ c.Balanced rank may N R H ∧ d.Balanced rank may N R H := Iff.rfl

@[simp] theorem balanced_pick {f : ℕ → Code S M A} : (Code.pick f).Balanced rank may N R H
    ↔ ∀ n, (f n).Balanced rank may N R H := Iff.rfl

@[simp] theorem balanced_loop : (Code.loop c).Balanced rank may N R H
    ↔ c.Balanced rank may (· = H) R H ∧ N H := Iff.rfl

@[simp] theorem balanced_forever : (Code.forever c).Balanced rank may N R H
    ↔ c.Balanced rank may (· = H) R H := Iff.rfl

@[simp] theorem balanced_read {f : S → Code S M A} : (Code.read f).Balanced rank may N R H
    ↔ ∀ s, (f s).Balanced rank may N R H := Iff.rfl

@[simp] theorem balanced_write {f : S → S} :
    (Code.write f : Code S M A).Balanced rank may N R H ↔ N H := Iff.rfl

@[simp] theorem balanced_exchange {f : S → ℕ × S} {k : ℕ → Code S M A} :
    (Code.exchange f k).Balanced rank may N R H ↔ ∀ n, (k n).Balanced rank may N R H := Iff.rfl

@[simp] theorem balanced_malloc {a : A} : (Code.malloc a c d).Balanced rank may N R H
    ↔ c.Balanced rank may N R H ∧ (may a → d.Balanced rank may N R H) := Iff.rfl

@[simp] theorem balanced_call : (Code.call c).Balanced rank may N R H
    ↔ c.Balanced rank may (· = H) (· = H) H ∧ N H := Iff.rfl

@[simp] theorem balanced_ret : (Code.ret : Code S M A).Balanced rank may N R H ↔ R H := Iff.rfl

@[simp] theorem balanced_undefined :
    (Code.undefined : Code S M A).Balanced rank may N R H ↔ True := Iff.rfl

@[simp] theorem balanced_block_nil :
    (Code.block [] : Code S M A).Balanced rank may N R H ↔ N H := Iff.rfl

@[simp] theorem balanced_block_singleton :
    (Code.block [c]).Balanced rank may N R H ↔ c.Balanced rank may N R H := Iff.rfl

@[simp] theorem balanced_block_cons {cs : List (Code S M A)} :
    (Code.block (c :: d :: cs)).Balanced rank may N R H
      ↔ c.Balanced rank may ((Code.block (d :: cs)).Balanced rank may N R) R H := Iff.rfl

end Rules

theorem Code.Balanced.mono {c : Code S M A} {N N' R R' : List M → Prop} {H : List M}
    (hN : ∀ H', N H' → N' H') (hR : ∀ H', R H' → R' H') (h : c.Balanced rank may N R H) :
    c.Balanced rank may N' R' H := by
  induction c generalizing N N' H with
  | skip => exact hN H h
  | lock m => exact ⟨h.1, hN _ h.2⟩
  | unlock m => exact ⟨h.1, hN _ h.2⟩
  | seq c d ihc ihd => exact ihc (fun H' hd => ihd hN hd) h
  | either c d ihc ihd => exact ⟨ihc hN h.1, ihd hN h.2⟩
  | pick f ih => exact fun n => ih n hN (h n)
  | loop c ih => exact ⟨ih (fun _ h' => h') h.1, hN H h.2⟩
  | forever c ih => exact ih (fun _ h' => h') h
  | read f ih => exact fun s => ih s hN (h s)
  | write f => exact hN H h
  | exchange f c ih => exact fun n => ih n hN (h n)
  | malloc a c d ihc ihd => exact ⟨ihc hN h.1, fun ha => ihd hN (h.2 ha)⟩
  | call c ih => exact ⟨h.1, hN H h.2⟩
  | ret => exact hR H h
  | undefined => trivial

variable (rank may)

/-- What the locks must satisfy for the rest of a stack: when its code is reached in order, and
when the running function returns.  The thread itself ends with locks that satisfy `Q`. -/
def conts (Q : List M → Prop) : List (Item S M A) → (List M → Prop) × (List M → Prop)
  | [] => (Q, Q)
  | .leave E :: rest =>
    (fun H => H = E ∧ (conts Q rest).1 E, fun H => H = E ∧ (conts Q rest).1 E)
  | .code c :: rest =>
    (c.Balanced rank may (conts Q rest).1 (conts Q rest).2, (conts Q rest).2)

def Sound (Q : List M → Prop) (t : Thread S M A) : Prop := (conts rank may Q t.todo).1 t.held

variable {rank may}

theorem conts_unwind {Q : List M → Prop} (rest : List (Item S M A)) :
    (conts rank may Q (unwind rest)).1 = (conts rank may Q rest).2 := by
  induction rest with
  | nil => rfl
  | cons x rest ih =>
    cases x with
    | code c => exact ih
    | leave E => rfl

variable (may) in
/-- The step is the failing of an allocation that is not allowed to fail. -/
def Thread.Fails (t : Thread S M A) (x : Choice) : Prop :=
  x = .right ∧ ∃ a c d rest, t.todo = .code (.malloc a c d) :: rest ∧ ¬ may a

theorem Sound.advance {Q : List M → Prop} {free : M → Prop} [DecidablePred free]
    {t t' : Thread S M A} {s s' : S} {x : Choice} (h : Sound rank may Q t)
    (hf : ¬ t.Fails may x) (hs : Locks.advance free s t.held t.todo x = some (some (s', t'))) :
    Sound rank may Q t' := by
  obtain ⟨todo, held⟩ := t
  change (conts rank may Q todo).1 held at h
  change Locks.advance free s held todo x = _ at hs
  unfold Locks.advance at hs
  split at hs
  case h_3 m rest =>
    rw [Option.ite_none_right_eq_some] at hs
    obtain ⟨-, hs⟩ := hs
    cases hs
    exact h.2
  all_goals cases hs
  case h_1 E rest => exact h.1 ▸ h.2
  case h_2 rest => exact h
  case h_4 m rest => exact h.2
  case h_5 c d rest => exact h
  case h_6 c d rest => exact h.1
  case h_7 c d rest => exact h.2
  case h_8 f rest n => exact h n
  case h_9 c rest => exact h.2
  case h_10 c rest =>
    refine h.1.mono ?_ fun _ h' => h'
    rintro H' rfl
    exact h
  case h_11 c rest =>
    refine Code.Balanced.mono ?_ (fun _ h' => h') h
    rintro H' rfl
    exact h
  case h_12 f rest => exact h _
  case h_13 f rest => exact h
  case h_14 f c rest => exact h _
  case h_15 a c d rest => exact h.1
  case h_16 a c d rest =>
    by_cases ha : may a
    · exact h.2 ha
    · exact absurd ⟨rfl, a, c, d, rest, rfl, ha⟩ hf
  case h_17 c rest =>
    refine h.1.mono ?_ ?_ <;>
    · rintro H' rfl
      exact ⟨rfl, h.2⟩
  case h_18 rest =>
    unfold Sound
    rw [conts_unwind]
    exact h

theorem advance_congr {free free' : M → Prop} [DecidablePred free] [DecidablePred free'] {s : S}
    {held : List M} {todo : List (Item S M A)} {x : Choice} (h : ∀ m, free m ↔ free' m) :
    Locks.advance free s held todo x = Locks.advance free' s held todo x := by
  obtain rfl : free = free' := funext fun m => propext (h m)
  congr!

/-- A thread that has not ended can go on, or waits for a lock. -/
theorem exists_advance (free : M → Prop) [DecidablePred free] (s : S)
    (held : List M) {todo : List (Item S M A)} (h : todo ≠ []) :
    (∃ x r, Locks.advance free s held todo x = some r)
      ∨ ∃ m rest, todo = .code (.lock m) :: rest ∧ ¬ free m := by
  obtain _ | ⟨x, rest⟩ := todo
  · exact absurd rfl h
  · cases x with
    | leave E => exact .inl ⟨.go, _, rfl⟩
    | code c =>
      cases c with
      | lock m =>
        by_cases hm : free m
        · exact .inl ⟨.go, _, if_pos hm⟩
        · exact .inr ⟨m, rest, rfl, hm⟩
      | either c d => exact .inl ⟨.left, _, rfl⟩
      | loop c => exact .inl ⟨.left, _, rfl⟩
      | malloc a c d => exact .inl ⟨.left, _, rfl⟩
      | pick f => exact .inl ⟨.nth 0, _, rfl⟩
      | _ => exact .inl ⟨.go, _, rfl⟩

namespace Machine

variable {Q : T → List M → Prop}

variable (may) in
/-- The step neither crashes the process nor is a failure that is not allowed. -/
def Allowed (s : Machine T S M A) (e : T × Choice) : Prop :=
  (∀ rest, (s.threads e.1).todo ≠ .code .undefined :: rest) ∧ ¬ (s.threads e.1).Fails may e.2

variable (rank may Q) in
def Inv (s : Machine T S M A) : Prop :=
  s.crashed = false ∧ ∀ i, Sound rank may (Q i) (s.threads i)

theorem inv_start {shared : S} {main : T → Code S M A}
    (h : ∀ i, (main i).Balanced rank may (Q i) (Q i) []) : (start shared main).Inv rank may Q :=
  ⟨rfl, h⟩

theorem Inv.held_of_returned {s : Machine T S M A} (h : s.Inv rank may Q) {i : T}
    (hi : s.Returned i) : Q i (s.threads i).held := by
  have hQ := h.2 i
  unfold Sound at hQ
  rw [hi] at hQ
  exact hQ

theorem Inv.held_of_leave {s : Machine T S M A} (h : s.Inv rank may Q) {i : T} {E : List M}
    {rest : List (Item S M A)} (hi : (s.threads i).todo = .leave E :: rest) :
    (s.threads i).held = E := by
  have hQ := h.2 i
  unfold Sound at hQ
  rw [hi] at hQ
  exact hQ.1

/-- A waiting thread's lock ranks above the ones it holds. -/
theorem Inv.rank_lt {s : Machine T S M A} (h : s.Inv rank may Q) {i : T} {m m' : M}
    {rest : List (Item S M A)} (hi : (s.threads i).todo = .code (.lock m) :: rest)
    (hm : m' ∈ (s.threads i).held) : rank m' < rank m := by
  have hQ := h.2 i
  unfold Sound at hQ
  rw [hi] at hQ
  exact hQ.1 m' hm

section Runs

variable [Fintype T] [DecidableEq T]

theorem Inv.step {s s' : Machine T S M A} {e : T × Choice} (h : s.Inv rank may Q)
    (ha : s.Allowed may e) (hs : process.step s e = some s') : s'.Inv rank may Q := by
  obtain ⟨hc, hI⟩ := h
  change Machine.step s e = some s' at hs
  rw [Machine.step, hc, if_neg Bool.false_ne_true, Option.map_eq_some_iff] at hs
  obtain ⟨r, hr, rfl⟩ := hs
  obtain _ | ⟨shared, t⟩ := r
  · -- only `undefined` crashes
    exfalso
    obtain ⟨hu, -⟩ := ha
    unfold advance at hr
    split at hr
    case h_3 m rest =>
      rw [Option.ite_none_right_eq_some] at hr
      cases hr.2
    case h_19 rest => exact hu _ ‹_›
    all_goals cases hr
  · refine ⟨hc, fun i => ?_⟩
    change Sound rank may (Q i) (Function.update s.threads e.1 t i)
    by_cases hi : i = e.1
    · subst hi
      rw [Function.update_self]
      exact (hI _).advance ha.2 hr
    · rw [Function.update_of_ne hi]
      exact hI i

/-- The threads' locks, in every run whose steps are allowed. -/
theorem sound {shared : S} {main : T → Code S M A} {s : Machine T S M A} {es : List (T × Choice)}
    (h : ∀ i, (main i).Balanced rank may (Q i) (Q i) [])
    (hok : process.Meets (Allowed may) (start shared main) es)
    (hr : process.run (start shared main) es = some s) : s.Inv rank may Q :=
  System.run_inv_of (fun _ _ _ hI ha hs => hI.step ha hs) (inv_start h) hok hr

theorem exists_step_of_advance {s : Machine T S M A} (hc : s.crashed = false) {i : T}
    (h : ∃ x r, advance s.Free s.shared (s.threads i).held (s.threads i).todo x = some r) :
    ∃ e s', process.step s e = some s' := by
  obtain ⟨x, r, hx⟩ := h
  refine ⟨(i, x), s.after i r, ?_⟩
  change Machine.step s (i, x) = _
  rw [Machine.step, hc, if_neg Bool.false_ne_true, hx, Option.map_some]

/-- A thread that has not returned can go on, or one that holds a higher lock than it waits for:
the waiting cannot go on beyond the highest rank. -/
theorem Inv.exists_step {s : Machine T S M A} (h : s.Inv rank may Q) {B : ℕ}
    (hB : ∀ m, rank m < B) (hQ : ∀ i H, Q i H → H = []) {i : T} (hi : ¬ s.Returned i) :
    ∃ e s', process.step s e = some s' := by
  have key : ∀ n (i : T), ¬ s.Returned i →
      (∀ m rest, (s.threads i).todo = .code (.lock m) :: rest → B ≤ rank m + n) →
        ∃ e s', process.step s e = some s' := by
    intro n
    induction n with
    | zero =>
      intro i hi hn
      obtain hx | ⟨m, rest, hm, -⟩ := exists_advance s.Free s.shared (s.threads i).held hi
      · exact exists_step_of_advance h.1 hx
      · exact absurd (hB m) (not_lt.2 (hn m rest hm))
    | succ n ih =>
      intro i hi hn
      obtain hx | ⟨m, rest, hm, hfree⟩ := exists_advance s.Free s.shared (s.threads i).held hi
      · exact exists_step_of_advance h.1 hx
      · obtain ⟨j, hj⟩ := not_forall.1 hfree
        have hj := not_not.1 hj
        refine ih j (fun hr => ?_) fun m' rest' hm' => ?_
        · rw [hQ j _ (h.held_of_returned hr)] at hj
          exact List.not_mem_nil hj
        · have hlt := h.rank_lt hm' hj
          have hle := hn m rest hm
          omega
  exact key B i hi fun m _ _ => Nat.le_add_left B (rank m)

/-- A thread that runs while the others hold nothing runs as if it were alone. -/
theorem run_alone {s : Machine T S M A} {i : T} {xs : List Choice} {shared : S}
    {t : Thread S M A} (hc : s.crashed = false) (ho : ∀ j, j ≠ i → (s.threads j).held = [])
    (h : runAlone s.shared (s.threads i) xs = some (shared, t)) :
    process.run s (xs.map fun x => (i, x)) = some (s.after i (some (shared, t))) := by
  induction xs generalizing s with
  | nil =>
    cases h
    rw [after, Function.update_eq_self]
    rfl
  | cons x xs ih =>
    rw [runAlone, Option.bind_eq_some_iff] at h
    obtain ⟨r, hr, h⟩ := h
    obtain _ | ⟨w, t'⟩ := r
    · cases h
    · have hfree : ∀ m, s.Free m ↔ m ∉ (s.threads i).held := by
        refine fun m => ⟨fun hm => hm i, fun hm j => ?_⟩
        by_cases hj : j = i
        · exact hj ▸ hm
        · rw [ho j hj]
          exact List.not_mem_nil
      have hs : process.step s (i, x) = some (s.after i (some (w, t'))) := by
        change Machine.step s (i, x) = _
        rw [Machine.step, hc, if_neg Bool.false_ne_true, advance_congr hfree, hr, Option.map_some]
      rw [List.map_cons, System.run_cons]
      refine ⟨_, hs, ?_⟩
      have ht : (s.after i (some (w, t'))).threads i = t' := Function.update_self ..
      have ho' : ∀ j, j ≠ i → ((s.after i (some (w, t'))).threads j).held = [] := fun j hj => by
        change (Function.update s.threads i t' j).held = []
        rw [Function.update_of_ne hj]
        exact ho j hj
      rw [ih (s := s.after i (some (w, t'))) hc ho' (by rw [ht]; exact h)]
      simp only [after, Function.update_idem]

end Runs

end Machine

end Balanced

end CMTestbed.Lib.Locks
