import Mathlib.Data.List.Nodup

/-!
# Loops over lists, with exceptions

`while ith < len(names)`: the body takes the name at the index, may add names at the end and may
stop the loop.  `worklist_spec` is the rule for such a loop: an invariant on the names that are done
and the state, kept by one turn, and a bound on the number of names, from which the loop ends.
`foldlM_spec` is the rule of a `for` loop.  `mapM_tagged` is about outputs that are written item by
item and bear the mark of their item: the outputs of one item can be told from the others.
-/

namespace CMTestbed.Lib

variable {V S ε : Type*}

/-- The loop from index `ith` on, in at most `fuel` turns and the last test; the body's flag is
whether it breaks. -/
def worklist (endless : ε) (names : S → List V) (body : V → S → Except ε (S × Bool)) :
    ℕ → ℕ → S → Except ε S
  | 0, ith, s => if ith < (names s).length then .error endless else .ok s
  | fuel + 1, ith, s =>
    match (names s)[ith]? with
    | none => .ok s
    | some now => do
      let (s, stop) ← body now s
      if stop then .ok s else worklist endless names body fuel (ith + 1) s

variable {endless : ε} {names : S → List V} {body : V → S → Except ε (S × Bool)}

/-- One turn: the names grow at the end, and the name at the index joins those that are done. -/
structure Turn (names : S → List V) (Inv : List V → S → Prop) (Stop : S → Prop) (done : List V)
    (now : V) (s' : S) (stop : Bool) : Prop where
  stopped : stop = true → Stop s'
  grown : stop = false → done ++ [now] <+: names s'
  inv : stop = false → Inv (done ++ [now]) s'

theorem worklist_spec {Inv : List V → S → Prop} {Stop : S → Prop} {bound : ℕ}
    (hlen : ∀ done s, Inv done s → (names s).length ≤ bound)
    (hbody : ∀ done now s, Inv done s → done ++ [now] <+: names s →
      ∃ s' stop, body now s = .ok (s', stop) ∧ Turn names Inv Stop done now s' stop)
    {s : S} (h₀ : Inv [] s) :
    ∃ s', worklist endless names body bound 0 s = .ok s' ∧ (Stop s' ∨ Inv (names s') s') := by
  suffices H : ∀ fuel (done : List V) s, Inv done s → done <+: names s →
      bound ≤ fuel + done.length → ∃ s', worklist endless names body fuel done.length s = .ok s' ∧
        (Stop s' ∨ Inv (names s') s') from
    H bound [] s h₀ (List.nil_prefix) (Nat.le_add_right _ _)
  intro fuel
  induction fuel with
  | zero =>
    intro done s hinv hpre hbound
    have hle : (names s).length ≤ done.length := by
      have := hlen done s hinv
      omega
    have heq : done = names s := hpre.eq_of_length_le hle
    refine ⟨s, ?_, .inr (heq ▸ hinv)⟩
    rw [worklist, if_neg (Nat.not_lt.2 hle)]
  | succ fuel ih =>
    intro done s hinv hpre hbound
    obtain ⟨rest, hrest⟩ := hpre
    cases rest with
    | nil =>
      rw [List.append_nil] at hrest
      refine ⟨s, ?_, .inr (hrest ▸ hinv)⟩
      rw [worklist, hrest, List.getElem?_eq_none Nat.le.refl]
    | cons now rest =>
      have hget : (names s)[done.length]? = some now := by simp [← hrest]
      have hpre : done ++ [now] <+: names s := ⟨rest, by simp [← hrest]⟩
      obtain ⟨s', stop, hs', hturn⟩ := hbody done now s hinv hpre
      rw [worklist, hget]
      simp only [hs', bind, Except.bind]
      cases stop with
      | true => exact ⟨s', by simp, .inl (hturn.stopped rfl)⟩
      | false =>
        have := ih (done ++ [now]) s' (hturn.inv rfl) (hturn.grown rfl) (by simp; omega)
        simpa using this

/-- The rule for a `for` loop whose body may raise. -/
theorem foldlM_spec (Inv : List V → S → Prop) {f : S → V → Except ε S} {l : List V}
    (hstep : ∀ pre v s, pre ++ [v] <+: l → Inv pre s →
      ∃ s', f s v = .ok s' ∧ Inv (pre ++ [v]) s') {s : S} (h₀ : Inv [] s) :
    ∃ s', l.foldlM f s = .ok s' ∧ Inv l s' := by
  suffices H : ∀ post pre s, pre ++ post = l → Inv pre s →
      ∃ s', post.foldlM f s = .ok s' ∧ Inv l s' from H l [] s rfl h₀
  intro post
  induction post with
  | nil =>
    intro pre s hl hinv
    rw [List.append_nil] at hl
    exact ⟨s, rfl, hl ▸ hinv⟩
  | cons v post ih =>
    intro pre s hl hinv
    have hpre : pre ++ [v] <+: l := ⟨post, by simp [← hl]⟩
    obtain ⟨s₁, hs₁, hinv₁⟩ := hstep pre v s hpre hinv
    obtain ⟨s₂, hs₂, hinv₂⟩ := ih (pre ++ [v]) s₁ (by simp [← hl]) hinv₁
    refine ⟨s₂, ?_, hinv₂⟩
    rw [List.foldlM_cons, hs₁]
    exact hs₂

theorem mapM_cons_ok {α β : Type*} {f : α → Except ε β} {a : α} {l : List α} {b : β}
    {bs : List β} (ha : f a = .ok b) (hl : l.mapM f = .ok bs) :
    (a :: l).mapM f = .ok (b :: bs) := by
  rw [List.mapM_cons, ha, hl]
  rfl

/-- A loop that writes a list for each item does not raise exactly when no item does. -/
theorem mapM_ok_iff {α β : Type*} {f : α → Except ε β} {l : List α} :
    (∃ bs, l.mapM f = .ok bs) ↔ ∀ a ∈ l, ∃ b, f a = .ok b := by
  induction l with
  | nil => simp [pure, Except.pure]
  | cons a l ih =>
    rw [List.forall_mem_cons, ← ih]
    constructor
    · rintro ⟨bs, hbs⟩
      rw [List.mapM_cons] at hbs
      cases ha : f a with
      | error e => simp [ha, bind, Except.bind] at hbs
      | ok b =>
        cases hl : l.mapM f with
        | error e => simp [ha, hl, bind, Except.bind] at hbs
        | ok bs => exact ⟨⟨b, rfl⟩, bs, rfl⟩
    · rintro ⟨⟨b, hb⟩, bs, hbs⟩
      exact ⟨b :: bs, mapM_cons_ok hb hbs⟩

theorem mapM_mem {α β : Type*} {f : α → Except ε β} {l : List α} {bs : List β}
    (h : l.mapM f = .ok bs) : ∀ b ∈ bs, ∃ a ∈ l, f a = .ok b := by
  induction l generalizing bs with
  | nil =>
    cases h
    simp
  | cons a l ih =>
    rw [List.mapM_cons] at h
    cases ha : f a with
    | error e => simp [ha, bind, Except.bind] at h
    | ok b =>
      cases hl : l.mapM f with
      | error e => simp [ha, hl, bind, Except.bind] at h
      | ok bs' =>
        rw [ha, hl] at h
        cases h
        rw [List.forall_mem_cons]
        refine ⟨⟨a, List.mem_cons_self, ha⟩, fun b hb => ?_⟩
        obtain ⟨a', ha', hfa'⟩ := ih hl b hb
        exact ⟨a', List.mem_cons_of_mem _ ha', hfa'⟩

/-- When the outputs of the items are told apart by a mark, those with the mark of an item are
exactly what it wrote. -/
theorem mapM_tagged {α β : Type*} {f : α → Except ε (List β)} (tag : β → α → Prop)
    [∀ b a, Decidable (tag b a)] {l : List α} (hnd : l.Nodup)
    (hok : ∀ a ∈ l, ∃ bs, f a = .ok bs)
    (htag : ∀ a ∈ l, ∀ bs, f a = .ok bs → ∀ b ∈ bs, ∀ a' ∈ l, tag b a' ↔ a' = a) :
    ∃ bss, l.mapM f = .ok bss ∧ ∀ a ∈ l, ∀ bs, f a = .ok bs →
      bss.flatten.filter (fun b => tag b a) = bs := by
  classical
  suffices H : ∀ l' : List α, l'.Nodup → l' ⊆ l → ∃ bss, l'.mapM f = .ok bss ∧
      ∀ a ∈ l, ∀ bs, f a = .ok bs →
        bss.flatten.filter (fun b => tag b a) = if a ∈ l' then bs else [] by
    obtain ⟨bss, hbss, hall⟩ := H l hnd (List.Subset.refl l)
    exact ⟨bss, hbss, fun a ha bs hbs => by rw [hall a ha bs hbs, if_pos ha]⟩
  intro l'
  induction l' with
  | nil => exact fun _ _ => ⟨[], rfl, by simp⟩
  | cons a' l' ih =>
    intro hnd' hsub
    rw [List.nodup_cons] at hnd'
    rw [List.cons_subset] at hsub
    obtain ⟨bss, hbss, hall⟩ := ih hnd'.2 hsub.2
    obtain ⟨bs', hbs'⟩ := hok a' hsub.1
    refine ⟨bs' :: bss, mapM_cons_ok hbs' hbss, fun a ha bs hbs => ?_⟩
    rw [List.flatten_cons, List.filter_append, hall a ha bs hbs]
    by_cases heq : a = a'
    · subst heq
      have hself : bs.filter (fun b => tag b a) = bs :=
        List.filter_eq_self.2 fun b hb => decide_eq_true ((htag a ha bs hbs b hb a ha).2 rfl)
      rw [Except.ok.inj (hbs'.symm.trans hbs), hself, if_neg hnd'.1,
        if_pos List.mem_cons_self, List.append_nil]
    · have hnone : bs'.filter (fun b => tag b a) = [] :=
        List.filter_eq_nil_iff.2 fun b hb hta =>
          heq ((htag a' hsub.1 bs' hbs' b hb a ha).1 (of_decide_eq_true hta))
      rw [hnone, List.nil_append]
      exact if_congr (by simp [heq]) rfl rfl

end CMTestbed.Lib
