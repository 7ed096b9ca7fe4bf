import CMTestbed.Pointers
import Mathlib.Tactic.FinCases

/-!
# After a reset that fails

A reset destroys eight tables before it creates the first, and a creation that fails ends it: the
members it has not reached still point to what was destroyed, unless they were null before
(`dangles_reset`).  Where every reset was spared that, nothing is ever followed or destroyed that
was destroyed before (`reset_harmless_iff`); otherwise the pointer stays as it is until it is
followed or destroyed again (`dangles_run`).
-/

namespace CMTestbed.Pointers

open Lib (Places)

variable {fails : Place → Bool} {w w' : Warehouse} {p : Place} {es : List Call}

theorem nullOrLive_iff : w.NullOrLive p ↔ ¬ w.tables.Dangles p := by
  unfold Warehouse.NullOrLive Places.Dangles
  cases w.tables.pointer p <;> simp

theorem nodup_createdByReset (i : Fin 2) : (createdByReset i).Nodup := by
  fin_cases i <;> decide

/-- A reset destroys what it creates, in another order. -/
theorem perm_createdByReset (i : Fin 2) : (destroyedByReset i).Perm (createdByReset i) := by
  fin_cases i <;> decide

theorem nodup_allMaps : allMaps.Nodup := by decide

theorem mem_allMaps (p : Place) : p ∈ allMaps := by
  cases p with
  | buffer m i => fin_cases i <;> cases m <;> decide
  | _ => decide

section Steps
variable (hd : ∀ p, ¬ w.tables.Dangles p)
include hd

/-- What dangles after a reset: what it did not reach, and was no null pointer. -/
theorem dangles_reset (fails : Place → Bool) :
    ∃ w' r, dataWarehouseResetNoactiveBuf fails w = some (w', r) ∧ w'.naIdx = w.naIdx
      ∧ ∀ p, w'.tables.Dangles p ↔ p ∈ Places.unreached fails (createdByReset w.naIdx)
        ∧ w.tables.pointer p ≠ none := by
  have hperm := perm_createdByReset w.naIdx
  obtain ⟨⟨tables, created⟩, hr, hdangles⟩ :=
    Places.dangles_renew fails (hperm.nodup_iff.2 (nodup_createdByReset _)) hperm hd
  refine ⟨{ w with tables }, status created, ?_, rfl, hdangles⟩
  rw [dataWarehouseResetNoactiveBuf, hr, Option.map_some]

/-- Where nothing dangles, a reset leaves nothing dangling exactly when it is spared. -/
theorem reset_harmless (fails : Place → Bool) :
    (∃ w' r, dataWarehouseResetNoactiveBuf fails w = some (w', r)
      ∧ ∀ p ∈ createdByReset w'.naIdx, w'.NullOrLive p) ↔ Spared fails w := by
  obtain ⟨w₁, r₁, h₁, hidx, hdangles⟩ := dangles_reset hd fails
  constructor
  · rintro ⟨w', r, hr, hlive⟩ p hp
    rw [h₁] at hr
    cases hr
    by_contra hne
    have hmem : p ∈ createdByReset w₁.naIdx := hidx ▸ Places.unreached_subset _ _ hp
    exact nullOrLive_iff.1 (hlive p hmem) ((hdangles p).2 ⟨hp, hne⟩)
  · intro hs
    refine ⟨w₁, r₁, h₁, fun p _ => nullOrLive_iff.2 fun hp => ?_⟩
    exact ((hdangles p).1 hp).2 (hs p ((hdangles p).1 hp).1)

theorem exists_exec (c : Call) : ∃ w', c.exec w = some w' := by
  cases c with
  | follow p => exact ⟨w, if_neg (hd p)⟩
  | rotate => exact ⟨_, rfl⟩
  | reset fails =>
    obtain ⟨w', r, hr, -⟩ := dangles_reset hd fails
    exact ⟨w', by rw [Call.exec, hr, Option.map_some]⟩
  | sendConditions fails =>
    obtain ⟨s, hs⟩ := Option.ne_none_iff_exists'.1
      (mt Places.free_eq_none.1 (hd .lastSentFlowSelectedLevelMap))
    exact ⟨_, by rw [Call.exec, renewLastSent, hs, Option.map_some]⟩

theorem exists_destroy : ∃ w', dataWarehouseDestroy w = some w' := by
  obtain ⟨s, hs⟩ := Places.exists_freeAll nodup_allMaps fun p _ => hd p
  exact ⟨_, by rw [dataWarehouseDestroy, hs, Option.map_some]⟩

end Steps

theorem dangles_renewLastSent {fails : Bool} (h : renewLastSent fails w = some w') :
    ¬ w.tables.Dangles .lastSentFlowSelectedLevelMap ∧ ∀ p, w'.tables.Dangles p
      ↔ p ≠ .lastSentFlowSelectedLevelMap ∧ w.tables.Dangles p := by
  obtain ⟨s, hs, rfl⟩ := Option.map_eq_some_iff.1 h
  constructor
  · intro hd
    rw [Places.free_eq_none.2 hd] at hs
    cases hs
  intro p
  cases fails <;>
  · simp only [Bool.false_eq_true, ↓reduceIte, Places.dangles_alloc, Places.dangles_clear,
      Places.dangles_free hs]
    tauto

/-- A step whose reset is spared leaves nothing dangling. -/
theorem not_dangles_step (w : Warehouse) (c : Call) (w' : Warehouse)
    (hd : ∀ p, ¬ w.tables.Dangles p) (hc : c.Spares w) (hs : sender.step w c = some w') :
    ∀ p, ¬ w'.tables.Dangles p := by
  change c.exec w = some w' at hs
  cases c with
  | follow p =>
    rw [Call.exec, if_neg (hd p)] at hs
    cases hs
    exact hd
  | rotate =>
    cases hs
    exact hd
  | reset fails =>
    obtain ⟨w₁, r₁, h₁, -, hdangles⟩ := dangles_reset hd fails
    rw [Call.exec, h₁] at hs
    cases hs
    intro p hp
    exact ((hdangles p).1 hp).2 (hc p ((hdangles p).1 hp).1)
  | sendConditions fails =>
    intro p hp
    exact hd p (((dangles_renewLastSent hs).2 p).1 hp).2

theorem not_dangles_init (fails : Place → Bool) (p : Place) :
    ¬ (dataWarehouseInit fails).1.tables.Dangles p := by
  intro hp
  exact Places.dangles_null ((Places.dangles_allocAll nodup_allMaps).1 hp).1

/-- No step that is defined helps a place that dangles. -/
theorem dangles_step (w : Warehouse) (c : Call) (w' : Warehouse) (hp : w.tables.Dangles p)
    (hs : sender.step w c = some w') : w'.tables.Dangles p := by
  change c.exec w = some w' at hs
  cases c with
  | follow q =>
    rw [Call.exec, Option.ite_none_left_eq_some] at hs
    cases hs.2
    exact hp
  | rotate =>
    cases hs
    exact hp
  | reset fails =>
    rw [Call.exec, dataWarehouseResetNoactiveBuf, Option.map_map] at hs
    obtain ⟨r, hr, rfl⟩ := Option.map_eq_some_iff.1 hs
    exact hp.renew (nodup_createdByReset _) (perm_createdByReset _) hr
  | sendConditions fails =>
    obtain ⟨hlast, hdangles⟩ := dangles_renewLastSent hs
    refine (hdangles p).2 ⟨?_, hp⟩
    rintro rfl
    exact hlast hp

/-- A place that dangles does so until its table is followed or destroyed again. -/
theorem dangles_run (hp : w.tables.Dangles p) (hr : sender.run w es = some w') :
    w'.tables.Dangles p :=
  Lib.System.run_inv dangles_step hp hr

/-- So after a reset that was not spared, the warehouse cannot be destroyed any more. -/
theorem destroy_of_dangles (hp : w.tables.Dangles p) (hr : sender.run w es = some w') :
    dataWarehouseDestroy w' = none := by
  rw [dataWarehouseDestroy, Option.map_eq_none_iff]
  by_contra h
  obtain ⟨s, hs⟩ := Option.ne_none_iff_exists'.1 h
  exact Places.not_dangles_of_freeAll hs (mem_allMaps p) (dangles_run hp hr)

section Threads

open Locking (Code Mutex Site)
open Lib.Locks (Thread Item advance runAlone runAlone_append unwind)
open Lib.Locks.Code (block)

/-- A thread alone gets from one point to another. -/
def Leads (w : Locking.Warehouse) (t : Thread Locking.Warehouse Mutex Site)
    (w' : Locking.Warehouse) (t' : Thread Locking.Warehouse Mutex Site) : Prop :=
  ∃ xs, runAlone w t xs = some (w', t')

theorem Leads.trans {w₁ w₂ w₃ : Locking.Warehouse}
    {t₁ t₂ t₃ : Thread Locking.Warehouse Mutex Site} (h : Leads w₁ t₁ w₂ t₂)
    (h' : Leads w₂ t₂ w₃ t₃) : Leads w₁ t₁ w₃ t₃ := by
  obtain ⟨xs, hxs⟩ := h
  obtain ⟨ys, hys⟩ := h'
  exact ⟨xs ++ ys, by rw [runAlone_append hxs, hys]⟩

/-- What the members of the warehouse hold for the threads, and the code that renews them. -/
def Place.held (w : Locking.Warehouse) : Place → Locking.Pointer
  | flowRecePktListMap => w.flowRecePktListMap
  | lastSentFlowSelectedLevelMap => w.lastSentFlowSelectedLevelMap
  | buffer m i => w.maps m i

def Place.stored (q : Locking.Pointer) (w : Locking.Warehouse) : Place → Locking.Warehouse
  | flowRecePktListMap => { w with flowRecePktListMap := q }
  | lastSentFlowSelectedLevelMap => w.setLastSent q
  | buffer m i => w.setMap m i q

def Place.destoryCode (p : Place) : Code := .read fun w => Locking.destory (p.held w)

def Place.createCode (p : Place) : Code :=
  let store := Locking.storeOrReturn fun q w => p.stored q w
  match p with
  | buffer .fixedFlowLossVolumeMap _ =>
    Locking.htKfsFixSizeCreate (.noactiveBuf .fixedFlowLossVolumeMap) store
  | buffer m _ => Locking.create (.noactiveBuf m) .skip store
  | _ => Locking.create .lastSentByRotating .skip store

theorem resetCode_eq : Locking.dataWarehouseResetNoactiveBuf = .call (.read fun w =>
    block ((destroyedByReset (rotatedIdx w.activeIdx 1)).map Place.destoryCode
      ++ ((createdByReset (rotatedIdx w.activeIdx 1)).map Place.createCode ++ [.ret]))) := rfl

variable {s s' : Places Place} {i : Fin 2} {rest : List (Item Locking.Warehouse Mutex Site)}
  {held : List Mutex}

theorem held_toLocking (w : Warehouse) (p : Place) : p.held w.toLocking = w.tables.pointer p := by
  cases p <;> rfl

theorem stored_alloc (s : Places Place) (i : Fin 2) (p : Place) :
    p.stored (some s.next) { Warehouse.toLocking ⟨s, i⟩ with
      live := s.next :: s.live, next := s.next + 1 } = Warehouse.toLocking ⟨s.alloc p, i⟩ := by
  cases p <;>
    simp [Place.stored, Warehouse.toLocking, Places.alloc, Function.update_apply,
      Locking.Warehouse.setLastSent, Locking.Warehouse.setMap]

theorem stored_clear (s : Places Place) (i : Fin 2) (p : Place) :
    p.stored none (Warehouse.toLocking ⟨s, i⟩) = Warehouse.toLocking ⟨s.clear p, i⟩ := by
  cases p <;>
    simp [Place.stored, Warehouse.toLocking, Places.clear, Function.update_apply,
      Locking.Warehouse.setLastSent, Locking.Warehouse.setMap]

theorem leads_access {w : Locking.Warehouse} {t : ℕ} {c : Code} (ht : t ∈ w.live) :
    Leads w ⟨.code (Locking.access t c) :: rest, held⟩ w ⟨.code c :: rest, held⟩ :=
  ⟨[.go], by simp [runAlone, advance, Locking.access, ht]⟩

theorem leads_block_cons {w : Locking.Warehouse} {c d : Code} {cs : List Code} :
    Leads w ⟨.code (block (c :: d :: cs)) :: rest, held⟩
      w ⟨.code c :: .code (block (d :: cs)) :: rest, held⟩ := ⟨[.go], rfl⟩

theorem leads_free (h : s.free p = some s') :
    Leads (Warehouse.toLocking ⟨s, i⟩) ⟨.code p.destoryCode :: rest, held⟩
      (Warehouse.toLocking ⟨s', i⟩) ⟨rest, held⟩ := by
  have hcall : Leads (Warehouse.toLocking ⟨s, i⟩) ⟨.code p.destoryCode :: rest, held⟩
      (Warehouse.toLocking ⟨s, i⟩) ⟨.code (Locking.destory (s.pointer p)) :: rest, held⟩ :=
    ⟨[.go], by simp [runAlone, advance, Place.destoryCode, held_toLocking]⟩
  refine hcall.trans ?_
  unfold Places.free at h
  split at h
  · next hp =>
    cases h
    rw [hp]
    exact ⟨[.go, .go, .go], rfl⟩
  · next t hp =>
    rw [Option.ite_none_right_eq_some] at h
    obtain ⟨hlive, h⟩ := h
    cases h
    rw [hp]
    exact (Leads.trans ⟨[.go], rfl⟩ (leads_access hlive)).trans ⟨[.go, .go], rfl⟩

theorem leads_alloc (s : Places Place) :
    Leads (Warehouse.toLocking ⟨s, i⟩) ⟨.code p.createCode :: rest, held⟩
      (Warehouse.toLocking ⟨s.alloc p, i⟩) ⟨rest, held⟩ := by
  rw [← stored_alloc]
  by_cases hp : ∃ j, p = .buffer .fixedFlowLossVolumeMap j
  · obtain ⟨j, rfl⟩ := hp
    exact ⟨[.left, .go, .left, .go, .go, .go, .go, .go], rfl⟩
  · refine ⟨[.left, .go, .go, .go, .go, .go, .go], ?_⟩
    cases p with
    | buffer m j =>
      cases m with
      | fixedFlowLossVolumeMap => exact absurd ⟨j, rfl⟩ hp
      | _ => rfl
    | _ => rfl

theorem leads_clear (s : Places Place) :
    Leads (Warehouse.toLocking ⟨s, i⟩) ⟨.code p.createCode :: rest, held⟩
      (Warehouse.toLocking ⟨s.clear p, i⟩) ⟨unwind rest, held⟩ := by
  rw [← stored_clear]
  refine ⟨[.right, .go, .go, .go], ?_⟩
  cases p with
  | buffer m j => cases m <;> rfl
  | _ => rfl

theorem leads_freeAll {ps : List Place} {cs : List Code} (hcs : cs ≠ [])
    (h : s.freeAll ps = some s') :
    Leads (Warehouse.toLocking ⟨s, i⟩)
        ⟨.code (block (ps.map Place.destoryCode ++ cs)) :: rest, held⟩
      (Warehouse.toLocking ⟨s', i⟩) ⟨.code (block cs) :: rest, held⟩ := by
  obtain ⟨c, cs, rfl⟩ := List.exists_cons_of_ne_nil hcs
  induction ps generalizing s with
  | nil =>
    cases h
    exact ⟨[], rfl⟩
  | cons p ps ih =>
    obtain ⟨s₁, h₁, h⟩ := Option.bind_eq_some_iff.1 h
    have hhead : Leads (Warehouse.toLocking ⟨s, i⟩)
        ⟨.code (block ((p :: ps).map Place.destoryCode ++ c :: cs)) :: rest, held⟩
        (Warehouse.toLocking ⟨s, i⟩)
        ⟨.code p.destoryCode :: .code (block (ps.map Place.destoryCode ++ c :: cs)) :: rest,
          held⟩ := by
      cases ps <;> exact leads_block_cons
    exact (hhead.trans (leads_free h₁)).trans (ih h)

/-- The creations of a reset, up to its return. -/
theorem leads_allocAll (ps : List Place) (s : Places Place) :
    Leads (Warehouse.toLocking ⟨s, i⟩)
        ⟨.code (block (ps.map Place.createCode ++ [.ret])) :: rest, held⟩
      (Warehouse.toLocking ⟨(s.allocAll fails ps).1, i⟩) ⟨unwind rest, held⟩ := by
  induction ps generalizing s with
  | nil => exact ⟨[.go], rfl⟩
  | cons p ps ih =>
    have hhead : Leads (Warehouse.toLocking ⟨s, i⟩)
        ⟨.code (block ((p :: ps).map Place.createCode ++ [.ret])) :: rest, held⟩
        (Warehouse.toLocking ⟨s, i⟩)
        ⟨.code p.createCode :: .code (block (ps.map Place.createCode ++ [.ret])) :: rest,
          held⟩ := by
      cases ps <;> exact leads_block_cons
    rw [Places.allocAll]
    split
    · exact hhead.trans (leads_clear s)
    · exact (hhead.trans (leads_alloc s)).trans (ih (s.alloc p))

/-- What the reset makes of the warehouse is what the function of the rotating thread makes of it,
where the same creations fail. -/
theorem leads_reset {r : ℤ} (h : dataWarehouseResetNoactiveBuf fails w = some (w', r)) :
    Leads w.toLocking ⟨.code Locking.dataWarehouseResetNoactiveBuf :: rest, held⟩
      w'.toLocking ⟨rest, held⟩ := by
  obtain ⟨⟨tables, created⟩, hr, hw⟩ := Option.map_eq_some_iff.1 h
  obtain ⟨s, hfree, halloc⟩ := Option.map_eq_some_iff.1 hr
  cases hw
  have hcreated : tables = (s.allocAll fails (createdByReset w.naIdx)).1 := by rw [halloc]
  rw [resetCode_eq, hcreated]
  refine Leads.trans ⟨[.go, .go], rfl⟩ ?_
  have hcs : (createdByReset w.naIdx).map Place.createCode ++ [.ret] ≠ [] := by simp
  refine (leads_freeAll hcs hfree).trans ?_
  exact (leads_allocAll (createdByReset w.naIdx) s).trans ⟨[.go], rfl⟩

end Threads

/-- In a run whose resets are all spared, a further reset leaves every pointer of the non-active
buffer and that of the conditions sent null or live exactly when it is spared too, and whatever is
called, nothing is followed or destroyed that was destroyed before. -/
theorem reset_harmless_iff {fails₀ : Place → Bool}
    (hr : sender.run (dataWarehouseInit fails₀).1 es = some w)
    (hok : sender.Meets Call.Spares (dataWarehouseInit fails₀).1 es) :
    (∀ fails, (∃ w' r, dataWarehouseResetNoactiveBuf fails w = some (w', r)
        ∧ ∀ p ∈ createdByReset w'.naIdx, w'.NullOrLive p) ↔ Spared fails w)
      ∧ (∀ c : Call, ∃ w', c.exec w = some w') ∧ ∃ w', dataWarehouseDestroy w = some w' := by
  have hd : ∀ p, ¬ w.tables.Dangles p :=
    Lib.System.run_inv_of not_dangles_step (not_dangles_init fails₀) hok hr
  exact ⟨reset_harmless hd, exists_exec hd, exists_destroy hd⟩

/-- The last creation of a reset fails, which leaves a null pointer behind. -/
theorem reset_harmless_iff_last : ∃ w,
    sender.run (dataWarehouseInit fun _ => false).1
        [.rotate, .reset (· = .lastSentFlowSelectedLevelMap)] = some w
      ∧ (∀ fails, (∃ w' r, dataWarehouseResetNoactiveBuf fails w = some (w', r)
        ∧ ∀ p ∈ createdByReset w'.naIdx, w'.NullOrLive p) ↔ Spared fails w) := by
  have hr : ∃ w, sender.run (dataWarehouseInit fun _ => false).1
      [.rotate, .reset (· = .lastSentFlowSelectedLevelMap)] = some w := ⟨_, rfl⟩
  obtain ⟨w, hr⟩ := hr
  refine ⟨w, hr, (reset_harmless_iff hr ⟨trivial, fun w₁ h₁ => ?_⟩).1⟩
  cases h₁
  exact ⟨show Spared _ _ by unfold Spared; decide, fun _ _ => trivial⟩

/-- The table of the losses of fixed size cannot be created: the pointers to the five tables after
it and to the conditions sent stay, and the reset of the next interval destroys those again. -/
theorem reset_leaves_pointers : ∃ w w',
    sender.run (dataWarehouseInit fun _ => false).1 [.rotate] = some w
      ∧ dataWarehouseResetNoactiveBuf (· = .buffer .fixedFlowLossVolumeMap 0) w = some (w', -1)
      ∧ ¬ w'.NullOrLive (.buffer .flowLossVolumeMap w'.naIdx)
      ∧ ¬ w'.NullOrLive .lastSentFlowSelectedLevelMap
      ∧ sender.run w' [.rotate, .reset fun _ => false] = none := by
  refine ⟨_, _, rfl, rfl, ?_, ?_, rfl⟩
  · rw [nullOrLive_iff, not_not]
    decide
  · rw [nullOrLive_iff, not_not]
    decide

end CMTestbed.Pointers
