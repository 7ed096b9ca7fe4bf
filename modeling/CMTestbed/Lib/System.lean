import Mathlib.Data.Option.Basic

/-!
# Systems of atomic steps

A system says, for each state and event, what state the event leads to, if it can happen there.
A run is a list of events.  An invariant is shown once per step (`run_inv`), for every run or for
those whose steps all meet a condition on the state they start from.
-/

namespace CMTestbed.Lib

/-- The atomic steps of a system. -/
structure System (S E : Type*) where
  step : S → E → Option S

namespace System

variable {S E : Type*} (M : System S E)

def run : S → List E → Option S
  | s, [] => some s
  | s, e :: es => (M.step s e).bind fun s' => run s' es

/-- Every step of the run meets `ok`, in the state it starts from. -/
def Meets (ok : S → E → Prop) : S → List E → Prop
  | _, [] => True
  | s, e :: es => ok s e ∧ ∀ s', M.step s e = some s' → Meets ok s' es

instance decidableMeets (ok : S → E → Prop) [∀ s e, Decidable (ok s e)] :
    ∀ s es, Decidable (M.Meets ok s es)
  | _, [] => inferInstanceAs (Decidable True)
  | s, e :: es =>
    have := fun s' => decidableMeets ok s' es
    inferInstanceAs (Decidable (ok s e ∧ ∀ s' ∈ M.step s e, M.Meets ok s' es))

variable {M}

theorem run_cons {s s' : S} {e : E} {es : List E} :
    M.run s (e :: es) = some s' ↔ ∃ s₁, M.step s e = some s₁ ∧ M.run s₁ es = some s' := by
  rw [run, Option.bind_eq_some_iff]

theorem run_append {s s' : S} {es es' : List E} :
    M.run s (es ++ es') = some s' ↔ ∃ s₁, M.run s es = some s₁ ∧ M.run s₁ es' = some s' := by
  induction es generalizing s with
  | nil => simp [run]
  | cons e es ih =>
    rw [List.cons_append, run_cons]
    constructor
    · rintro ⟨s₁, hs, hr⟩
      obtain ⟨s₂, h₁, h₂⟩ := ih.1 hr
      exact ⟨s₂, run_cons.2 ⟨s₁, hs, h₁⟩, h₂⟩
    · rintro ⟨s₂, h₁, h₂⟩
      obtain ⟨s₁, hs, hr⟩ := run_cons.1 h₁
      exact ⟨s₁, hs, ih.2 ⟨s₂, hr, h₂⟩⟩

theorem Meets.append {ok : S → E → Prop} {s s' : S} {es es' : List E}
    (h : M.Meets ok s (es ++ es')) (hr : M.run s es = some s') :
    M.Meets ok s es ∧ M.Meets ok s' es' := by
  induction es generalizing s with
  | nil =>
    cases hr
    exact ⟨trivial, h⟩
  | cons e es ih =>
    obtain ⟨s₁, hs, hr⟩ := run_cons.1 hr
    obtain ⟨h₁, h₂⟩ := ih (h.2 s₁ hs) hr
    refine ⟨⟨h.1, fun s₂ hs₂ => ?_⟩, h₂⟩
    rw [hs] at hs₂
    cases hs₂
    exact h₁

theorem Meets.and {ok ok' : S → E → Prop} {s : S} {es : List E} (h : M.Meets ok s es)
    (h' : M.Meets ok' s es) : M.Meets (fun s e => ok s e ∧ ok' s e) s es := by
  induction es generalizing s with
  | nil => trivial
  | cons e es ih => exact ⟨⟨h.1, h'.1⟩, fun s₁ hs => ih (h.2 s₁ hs) (h'.2 s₁ hs)⟩

/-- What every step that meets `ok` preserves holds after every run whose steps do. -/
theorem run_inv_of {ok : S → E → Prop} {Inv : S → Prop}
    (hstep : ∀ s e s', Inv s → ok s e → M.step s e = some s' → Inv s') {s s' : S} {es : List E}
    (h₀ : Inv s) (hok : M.Meets ok s es) (hr : M.run s es = some s') : Inv s' := by
  induction es generalizing s with
  | nil =>
    cases hr
    exact h₀
  | cons e es ih =>
    obtain ⟨s₁, hs, hr⟩ := run_cons.1 hr
    exact ih (hstep s e s₁ h₀ hok.1 hs) (hok.2 s₁ hs) hr

theorem meets_of_forall {ok : S → E → Prop} {es : List E} (h : ∀ e ∈ es, ∀ s, ok s e) (s : S) :
    M.Meets ok s es := by
  induction es generalizing s with
  | nil => trivial
  | cons e es ih =>
    rw [List.forall_mem_cons] at h
    exact ⟨h.1 s, fun s' _ => ih h.2 s'⟩

/-- What every step preserves holds after every run. -/
theorem run_inv {Inv : S → Prop} (hstep : ∀ s e s', Inv s → M.step s e = some s' → Inv s')
    {s s' : S} {es : List E} (h₀ : Inv s) (hr : M.run s es = some s') : Inv s' := by
  have hall : M.Meets (fun _ _ => True) s es := meets_of_forall (fun _ _ _ => trivial) s
  exact run_inv_of (fun s e s' h _ hs => hstep s e s' h hs) h₀ hall hr

end System

end CMTestbed.Lib
