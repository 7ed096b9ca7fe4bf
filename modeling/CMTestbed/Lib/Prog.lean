import Mathlib.Data.Nat.Notation

/-!
# Calls in atomic steps

A program acts on a shared state one atomic step at a time, and goes on according to the state its
step met.  A step may write an event.  The environment acts before each of the steps, which are
numbered from 0.
-/

namespace CMTestbed.Lib

/-- A terminating program on states `S` that writes events `E`. -/
inductive Prog (S E : Type*) where
  | done
  | atom (act : S → S) (event : S → Option E) (next : S → Prog S E)

namespace Prog

variable {S E : Type*} (env : ℕ → S → S)

/-- The state a program ends in and the events it writes, from step `n` on. -/
def exec : Prog S E → ℕ → S → S × List E
  | done, _, s => (s, [])
  | atom act event next, n, s =>
    let s := env n s
    let r := exec (next s) (n + 1) (act s)
    (r.1, (event s).toList ++ r.2)

@[simp] theorem exec_done (n : ℕ) (s : S) : (done : Prog S E).exec env n s = (s, []) := rfl

theorem exec_atom (act : S → S) (event : S → Option E) (next : S → Prog S E) (n : ℕ) (s : S) :
    (atom act event next).exec env n s
      = (((next (env n s)).exec env (n + 1) (act (env n s))).1, (event (env n s)).toList
        ++ ((next (env n s)).exec env (n + 1) (act (env n s))).2) := rfl

end Prog

end CMTestbed.Lib
