/-
One provisioning for all callers (`provision_once` in `native/engine/src/ffmpeg.rs`), for one data dir. The first caller
finds the slot empty and leads an attempt; those that come while it is in the slot follow it.

- `step`: one critical section of `PROVISION`, the end of one provisioning, one wake-up, or the drop of a caller at any of
  its awaits. What a caller does between two awaits is one step.
- `Inv`: the attempt in the slot has woken nobody, it is the only one that is led, and a follower of any other one has
  been woken.
- `served_iff_keeps`: in all states of a run at most one provisioning runs and no follower is stranded, exactly when no
  leader is dropped under a follower and nobody comes to an attempt whose leader was dropped.
- `attempt_led_once`: in every run, the one attempt that is led is in the slot, and a follower of any other one wakes.
- `provisioned_iff`: with the installs of `Ffmpeg`.
-/
import EspectralClient.Engine.Ffmpeg

namespace EspectralClient.FfmpegOnce

open Lib

/-- a shared attempt; who leads it is of the model only -/
structure Inflight where
  leader : ℕ
  cell : Option (Option String)
  /-- of the watch channel: what `send` increases -/
  version : ℕ

/-- the next await of a caller of `provision_once` -/
inductive Pc where
  | idle
  /-- `PROVISION.lock()`, before the slot is read -/
  | locking
  /-- `provision_ffmpeg_with` -/
  | leading (a : ℕ)
  /-- the cell is set; `PROVISION.lock()`, before the slot is cleared -/
  | settling (a : ℕ) (value : Option String)
  /-- `rx.changed()`, of a receiver that subscribed at this version -/
  | following (a seen : ℕ)
  | returned (value : Option String)
  | dropped
deriving DecidableEq

structure St where
  slot : Option ℕ
  attempts : ℕ → Inflight
  /-- how many attempts there were -/
  made : ℕ
  callers : ℕ → Pc

def start : St := ⟨none, fun _ => ⟨0, none, 0⟩, 0, fun _ => .idle⟩

def St.setPc (s : St) (i : ℕ) (pc : Pc) : St := { s with callers := Function.update s.callers i pc }

def St.setAttempt (s : St) (a : ℕ) (x : Inflight) : St := { s with attempts := Function.update s.attempts a x }

/-- the new attempt of a leader, in the slot -/
def St.lead (s : St) (i : ℕ) : St :=
  { s.setAttempt s.made ⟨i, none, 0⟩ with slot := some s.made, made := s.made + 1 }.setPc i (.leading s.made)

/-- `OnceLock::set`: a value that is there stays -/
def Inflight.set (x : Inflight) (value : Option String) : Inflight := { x with cell := x.cell.or (some value) }

def Inflight.send (x : Inflight) : Inflight := { x with version := x.version + 1 }

def Inflight.settled (x : Inflight) : Option String := x.cell.join

inductive Op where
  | call (i : ℕ)
  | enter (i : ℕ)
  /-- the provisioning ends with this path, or with an error -/
  | provision (i : ℕ) (value : Option String)
  | settle (i : ℕ)
  | wake (i : ℕ)
  | drop (i : ℕ)

def step (s : St) : Op → St
  | .call i => if s.callers i = .idle then s.setPc i .locking else s
  | .enter i =>
    if s.callers i = .locking then
      match s.slot with
      | some a => s.setPc i (.following a (s.attempts a).version)
      | none => s.lead i
    else s
  | .provision i value =>
    match s.callers i with
    | .leading a => (s.setAttempt a ((s.attempts a).set value)).setPc i (.settling a value)
    | _ => s
  | .settle i =>
    match s.callers i with
    | .settling a value => { s.setAttempt a (s.attempts a).send with slot := none }.setPc i (.returned value)
    | _ => s
  | .wake i =>
    match s.callers i with
    | .following a seen =>
      if (s.attempts a).version ≠ seen then s.setPc i (.returned (s.attempts a).settled) else s
    | _ => s
  | .drop i =>
    match s.callers i with
    | .idle | .returned _ => s
    | _ => s.setPc i .dropped

/-! ## Small lemmas -/

@[simp] theorem setPc_slot (s : St) (i : ℕ) (pc : Pc) : (s.setPc i pc).slot = s.slot := rfl

@[simp] theorem setPc_attempts (s : St) (i : ℕ) (pc : Pc) : (s.setPc i pc).attempts = s.attempts := rfl

@[simp] theorem setPc_made (s : St) (i : ℕ) (pc : Pc) : (s.setPc i pc).made = s.made := rfl

@[simp] theorem setPc_callers (s : St) (i j : ℕ) (pc : Pc) :
    (s.setPc i pc).callers j = if j = i then pc else s.callers j := by
  simp [St.setPc, Function.update_apply]

@[simp] theorem setAttempt_attempts (s : St) (a b : ℕ) (x : Inflight) :
    (s.setAttempt a x).attempts b = if b = a then x else s.attempts b := by
  simp [St.setAttempt, Function.update_apply]

@[simp] theorem set_leader (x : Inflight) (value : Option String) : (x.set value).leader = x.leader := rfl

@[simp] theorem set_version (x : Inflight) (value : Option String) : (x.set value).version = x.version := rfl

/-! ## The attempt in the slot -/

/-- the attempt that a caller leads, from its entry to the clearing of the slot -/
def Pc.leads : Pc → Option ℕ
  | .leading a | .settling a _ => some a
  | _ => none

structure Inv (s : St) : Prop where
  unsent : ∀ a, s.slot = some a → a < s.made ∧ (s.attempts a).version = 0
  leads : ∀ i a, (s.callers i).leads = some a → s.slot = some a ∧ (s.attempts a).leader = i
  follows : ∀ i a seen, s.callers i = .following a seen →
    a < s.made ∧ seen = 0 ∧ (s.slot = some a ∨ (s.attempts a).version ≠ 0)

theorem inv_start : Inv start where
  unsent a ha := by cases ha
  leads i a hi := by cases hi
  follows i a seen hi := by cases hi

/-- a caller moves on, to lead what it led and to follow what is in the slot -/
theorem Inv.setPc {s : St} (h : Inv s) {i : ℕ} {pc : Pc} (hleads : ∀ a, pc.leads = some a → (s.callers i).leads = some a)
    (hfollows : ∀ a seen, pc = .following a seen → s.slot = some a ∧ seen = (s.attempts a).version) :
    Inv (s.setPc i pc) where
  unsent := h.unsent
  leads j a hj := by
    rw [setPc_callers] at hj
    split at hj
    · next hji => exact hji ▸ h.leads i a (hleads a hj)
    · exact h.leads j a hj
  follows j a seen hj := by
    rw [setPc_callers] at hj
    split at hj
    · obtain ⟨hslot, rfl⟩ := hfollows a seen hj
      obtain ⟨hlt, hversion⟩ := h.unsent a hslot
      exact ⟨hlt, hversion, Or.inl hslot⟩
    · exact h.follows j a seen hj

theorem Inv.lead {s : St} (h : Inv s) (hslot : s.slot = none) (i : ℕ) : Inv (s.lead i) where
  unsent a ha := by
    cases ha
    simp [St.lead]
  leads j a hj := by
    unfold St.lead at hj ⊢
    rw [setPc_callers] at hj
    split at hj
    · next hji =>
      cases hj
      simp [hji]
    · have hold := (h.leads j a hj).1
      rw [hslot] at hold
      cases hold
  follows j a seen hj := by
    unfold St.lead at hj ⊢
    rw [setPc_callers] at hj
    split at hj
    · cases hj
    · obtain ⟨hlt, hseen, hor⟩ := h.follows j a seen hj
      have hversion : (s.attempts a).version ≠ 0 := hor.resolve_left (by simp [hslot])
      refine ⟨Nat.lt_succ_of_lt hlt, hseen, Or.inr ?_⟩
      simpa [Nat.ne_of_lt hlt] using hversion

/-- the cell of the attempt in the slot is set, or its followers are woken and the slot cleared -/
theorem Inv.setAttempt {s : St} (h : Inv s) {a : ℕ} {x : Inflight} (hleader : x.leader = (s.attempts a).leader)
    (hversion : x.version = (s.attempts a).version) : Inv (s.setAttempt a x) where
  unsent b hb := by
    obtain ⟨hlt, hzero⟩ := h.unsent b hb
    refine ⟨hlt, ?_⟩
    rw [setAttempt_attempts]
    split
    · next hba => rw [hversion, ← hba, hzero]
    · exact hzero
  leads i b hi := by
    obtain ⟨hslot, hl⟩ := h.leads i b hi
    refine ⟨hslot, ?_⟩
    rw [setAttempt_attempts]
    split
    · next hba => rw [hleader, ← hba, hl]
    · exact hl
  follows i b seen hi := by
    obtain ⟨hlt, hseen, hor⟩ := h.follows i b seen hi
    refine ⟨hlt, hseen, ?_⟩
    rw [setAttempt_attempts]
    split
    · next hba => rwa [hversion, ← hba]
    · exact hor

theorem Inv.settle {s : St} (h : Inv s) {i a : ℕ} {value : Option String} (hi : s.callers i = .settling a value) :
    Inv ({ s.setAttempt a (s.attempts a).send with slot := none }.setPc i (.returned value)) where
  unsent b hb := by cases hb
  leads j b hj := by
    rw [setPc_callers] at hj
    split at hj
    · cases hj
    · next hji =>
      -- the only leader is the one that settles
      have hlead := h.leads i a (by rw [hi]; rfl)
      obtain ⟨hslot, hl⟩ := h.leads j b hj
      have hab : a = b := Option.some.inj (hlead.1.symm.trans hslot)
      exact absurd (hl.symm.trans (hab ▸ hlead.2)) hji
  follows j b seen hj := by
    rw [setPc_callers] at hj
    split at hj
    · cases hj
    · obtain ⟨hlt, hseen, hor⟩ := h.follows j b seen hj
      refine ⟨hlt, hseen, Or.inr ?_⟩
      rw [setPc_attempts]
      show ((s.setAttempt a (s.attempts a).send).attempts b).version ≠ 0
      rw [setAttempt_attempts]
      split
      · exact Nat.succ_ne_zero _
      · next hba =>
        refine hor.resolve_left ?_
        intro hslot
        exact hba (Option.some.inj (hslot.symm.trans (h.leads i a (by rw [hi]; rfl)).1))

theorem step_inv {s : St} (h : Inv s) (o : Op) : Inv (step s o) := by
  cases o with
  | call i =>
    simp only [step]
    split
    · exact h.setPc (by simp [Pc.leads]) (by simp)
    · exact h
  | enter i =>
    simp only [step]
    split
    · split
      · next a hslot =>
        refine h.setPc (by simp [Pc.leads]) ?_
        intro b seen hb
        cases hb
        exact ⟨hslot, rfl⟩
      · next hslot => exact h.lead hslot i
    · exact h
  | provision i value =>
    simp only [step]
    split
    · next a hi =>
      have hset : Inv (s.setAttempt a ((s.attempts a).set value)) := h.setAttempt rfl rfl
      refine hset.setPc ?_ (by simp)
      intro b hb
      cases hb
      exact congrArg Pc.leads hi
    · exact h
  | settle i =>
    simp only [step]
    split
    · next a value hi => exact h.settle hi
    · exact h
  | wake i =>
    simp only [step]
    split
    · split
      · exact h.setPc (by simp [Pc.leads]) (by simp)
      · exact h
    · exact h
  | drop i =>
    simp only [step]
    split
    · exact h
    · exact h
    · exact h.setPc (by simp [Pc.leads]) (by simp)

/-! ## Who waits for whom -/

/-- the attempt's leader has not cleared the slot yet, and is still there -/
def Running (s : St) (a : ℕ) : Prop := (s.callers (s.attempts a).leader).leads = some a

structure Served (s : St) : Prop where
  /-- at most one provisioning runs -/
  one : ∀ i j a b, s.callers i = .leading a → s.callers j = .leading b → i = j
  /-- whoever follows an attempt is woken or follows a leader that is still there -/
  woken : ∀ i a seen, s.callers i = .following a seen → Running s a ∨ (s.attempts a).version ≠ seen

theorem Inv.one {s : St} (h : Inv s) {i j a b : ℕ} (hi : (s.callers i).leads = some a)
    (hj : (s.callers j).leads = some b) : i = j := by
  obtain ⟨hslot, hleader⟩ := h.leads i a hi
  obtain ⟨hslot', hleader'⟩ := h.leads j b hj
  have hab : a = b := Option.some.inj (hslot.symm.trans hslot')
  rw [← hleader, ← hleader', hab]

def Followed (s : St) (a : ℕ) : Prop := ∃ i seen, s.callers i = .following a seen

/-- only the followers of the attempt in the slot can be stranded -/
theorem served_iff {s : St} (h : Inv s) :
    Served s ↔ ∀ a, s.slot = some a → Followed s a → Running s a := by
  constructor
  · rintro hs a hslot ⟨i, seen, hi⟩
    refine (hs.woken i a seen hi).resolve_right ?_
    rw [(h.follows i a seen hi).2.1, (h.unsent a hslot).2]
    exact fun hne => hne rfl
  · intro hs
    refine ⟨?_, ?_⟩
    · intro i j a b hi hj
      exact h.one (by rw [hi]; rfl) (by rw [hj]; rfl)
    · intro i a seen hi
      obtain ⟨-, rfl, hor⟩ := h.follows i a seen hi
      rcases hor with hslot | hversion
      · exact Or.inl (hs a hslot ⟨i, _, hi⟩)
      · exact Or.inr hversion

/-- no leader is dropped under a follower, and nobody comes to an attempt whose leader was dropped -/
def Keeps (s : St) : Op → Prop
  | .enter i => s.callers i = .locking → ∀ a, s.slot = some a → Running s a
  | .drop i => ∀ a, (s.callers i).leads = some a → ¬ Followed s a
  | _ => True

theorem running_setPc {s : St} {i a : ℕ} {pc : Pc} (hleads : pc.leads = (s.callers i).leads) :
    Running (s.setPc i pc) a ↔ Running s a := by
  unfold Running
  rw [setPc_attempts, setPc_callers]
  split
  · next hl => rw [hl, hleads]
  · exact Iff.rfl

theorem followed_setPc {s : St} {i a : ℕ} {pc : Pc} (hpc : ∀ seen, pc ≠ .following a seen)
    (h : Followed (s.setPc i pc) a) : Followed s a := by
  obtain ⟨j, seen, hj⟩ := h
  rw [setPc_callers] at hj
  split at hj
  · exact absurd hj (hpc seen)
  · exact ⟨j, seen, hj⟩

/-- a caller moves on, leads what it led and follows nobody -/
theorem Served.setPc {s : St} (h : Inv s) (hs : Served s) {i : ℕ} {pc : Pc} (hleads : pc.leads = (s.callers i).leads)
    (hpc : ∀ a seen, pc ≠ .following a seen) (hinv : Inv (s.setPc i pc)) : Served (s.setPc i pc) := by
  rw [served_iff hinv]
  intro a hslot hf
  rw [running_setPc hleads]
  exact (served_iff h).1 hs a hslot (followed_setPc (hpc a) hf)

theorem running_setAttempt {s : St} {a : ℕ} {x : Inflight} (hleader : x.leader = (s.attempts a).leader) (b : ℕ) :
    Running (s.setAttempt a x) b ↔ Running s b := by
  unfold Running
  rw [setAttempt_attempts]
  split
  · next hb => rw [hleader, hb]; exact Iff.rfl
  · exact Iff.rfl

theorem Served.setAttempt {s : St} (h : Inv s) (hs : Served s) {a : ℕ} {x : Inflight}
    (hleader : x.leader = (s.attempts a).leader) (hversion : x.version = (s.attempts a).version) :
    Served (s.setAttempt a x) := by
  rw [served_iff (h.setAttempt hleader hversion)]
  intro b hslot hf
  rw [running_setAttempt hleader]
  exact (served_iff h).1 hs b hslot hf

theorem served_enter_iff {s : St} (h : Inv s) {i a : ℕ} (hi : s.callers i = .locking)
    (hslot : s.slot = some a) : Served (s.setPc i (.following a (s.attempts a).version)) ↔ Running s a := by
  have hnext := step_inv h (.enter i)
  simp only [step, hi, hslot, if_true] at hnext
  have hrunning (b : ℕ) : Running (s.setPc i (.following a (s.attempts a).version)) b ↔ Running s b :=
    running_setPc (by simp [hi, Pc.leads])
  rw [served_iff hnext]
  constructor
  · intro hall
    refine (hrunning a).1 (hall a hslot ⟨i, (s.attempts a).version, ?_⟩)
    rw [setPc_callers, if_pos rfl]
  · intro hr b hb _
    have hba : b = a := Option.some.inj (hb.symm.trans hslot)
    rw [hrunning, hba]
    exact hr

theorem served_drop_iff {s : St} (h : Inv s) (hs : Served s) {i : ℕ} :
    Served (s.setPc i .dropped) ↔ ∀ a, (s.callers i).leads = some a → ¬ Followed s a := by
  have hnext : Inv (s.setPc i .dropped) := h.setPc (by simp [Pc.leads]) (by simp)
  constructor
  · rintro hserved a hi ⟨j, seen, hj⟩
    obtain ⟨hslot, hleader⟩ := h.leads i a hi
    have hji : j ≠ i := by
      rintro rfl
      rw [hj] at hi
      cases hi
    have hrunning := (served_iff hnext).1 hserved a hslot ⟨j, seen, by rw [setPc_callers, if_neg hji, hj]⟩
    unfold Running at hrunning
    rw [setPc_attempts, hleader, setPc_callers, if_pos rfl] at hrunning
    cases hrunning
  · intro hnone
    rw [served_iff hnext]
    intro a hslot hf
    have hf : Followed s a := followed_setPc (by simp) hf
    have hr : Running s a := (served_iff h).1 hs a hslot hf
    have hne : (s.attempts a).leader ≠ i := by
      intro hl
      unfold Running at hr
      rw [hl] at hr
      exact hnone a hr hf
    unfold Running
    rw [setPc_attempts, setPc_callers, if_neg hne]
    exact hr

theorem served_step_iff {s : St} (h : Inv s) (hs : Served s) (o : Op) : Served (step s o) ↔ Keeps s o := by
  have hnext := step_inv h o
  cases o with
  | call i =>
    simp only [step, Keeps, iff_true] at hnext ⊢
    split at hnext
    · next hi =>
      rw [if_pos hi]
      exact hs.setPc h (by simp [hi, Pc.leads]) (by simp) hnext
    · next hi => rwa [if_neg hi]
  | enter i =>
    simp only [step, Keeps] at hnext ⊢
    by_cases hi : s.callers i = .locking
    · rw [if_pos hi] at hnext ⊢
      cases hslot : s.slot with
      | some a =>
        simp only [hi, true_implies, Option.some.injEq, forall_eq']
        exact served_enter_iff h hi hslot
      | none =>
        simp only [hslot] at hnext ⊢
        simp only [reduceCtorEq, false_implies, implies_true, iff_true]
        rw [served_iff hnext]
        rintro a ha -
        cases ha
        simp [Running, St.lead, Pc.leads]
    · simp [hi, hs]
  | provision i value =>
    simp only [step, Keeps, iff_true] at hnext ⊢
    split at hnext
    · next a hi =>
      have hset : Inv (s.setAttempt a ((s.attempts a).set value)) := h.setAttempt rfl rfl
      have hserved : Served (s.setAttempt a ((s.attempts a).set value)) := hs.setAttempt h rfl rfl
      exact hserved.setPc hset (congrArg Pc.leads hi).symm (by simp) hnext
    · exact hs
  | settle i =>
    simp only [step, Keeps, iff_true] at hnext ⊢
    split at hnext
    · next a value hi =>
      rw [served_iff hnext]
      intro b hb
      cases hb
    · exact hs
  | wake i =>
    simp only [step, Keeps, iff_true] at hnext ⊢
    split at hnext
    · next a seen hi =>
      split at hnext
      · next hversion =>
        rw [if_pos hversion]
        exact hs.setPc h (by simp [hi, Pc.leads]) (by simp) hnext
      · next hversion => rwa [if_neg hversion]
    · exact hs
  | drop i =>
    simp only [step, Keeps]
    split
    · next hi => simp [hi, hs, Pc.leads]
    · next value hi => simp [hi, hs, Pc.leads]
    · exact served_drop_iff h hs

theorem served_start : Served start where
  one i j a b hi := by cases hi
  woken i a seen hi := by cases hi

/-- **One provisioning, and nobody is stranded.** -/
theorem served_iff_keeps (ops : List Op) :
    (∀ before, before <+: ops → Served (run step start before)) ↔ Meets step Keeps start ops := by
  have hexact : ∀ s o, Inv s ∧ Served s → (Inv (step s o) ∧ Served (step s o) ↔ Keeps s o) := by
    rintro s o ⟨hinv, hs⟩
    rw [served_step_iff hinv hs o]
    exact and_iff_right (step_inv hinv o)
  have hinv (before : List Op) : Inv (run step start before) :=
    run_preserves step (I := Inv) (fun _ o h => step_inv h o) before inv_start
  rw [← safe_iff_meets step hexact ⟨inv_start, served_start⟩ ops]
  exact ⟨fun h before hb => ⟨hinv before, h before hb⟩, fun h before hb => (h before hb).2⟩

theorem run_inv (ops : List Op) : Inv (run step start ops) :=
  run_preserves step (I := Inv) (fun _ o h => step_inv h o) ops inv_start

/-- at most one provisioning runs, whoever is dropped -/
theorem provisioning_unique (ops : List Op) {i j a b : ℕ} (hi : (run step start ops).callers i = .leading a)
    (hj : (run step start ops).callers j = .leading b) : i = j := by
  apply (run_inv ops).one
  · rw [hi]
    rfl
  · rw [hj]
    rfl

/-- **One attempt at a time, whoever is dropped.** An attempt that is led is in the slot and is the only one that is led;
the attempt of a follower is in the slot, or its watch has changed and the follower wakes. -/
theorem attempt_led_once (ops : List Op) :
    let s := run step start ops
    (∀ i j a b, (s.callers i).leads = some a → (s.callers j).leads = some b → i = j ∧ a = b ∧ s.slot = some a) ∧
      ∀ i a seen, s.callers i = .following a seen → s.slot = some a ∨ (s.attempts a).version ≠ seen := by
  intro s
  have hinv : Inv s := run_inv ops
  refine ⟨fun i j a b hi hj => ?_, fun i a seen hfollow => ?_⟩
  · obtain ⟨hslot, -⟩ := hinv.leads i a hi
    obtain ⟨hslot', -⟩ := hinv.leads j b hj
    exact ⟨hinv.one hi hj, Option.some.inj (hslot.symm.trans hslot'), hslot⟩
  · obtain ⟨-, rfl, hwoken⟩ := hinv.follows i a seen hfollow
    exact hwoken

/-! ## Both -/

/-- **A provisioned ffmpeg is whole and its callers are served**, over the runs of the installs on one directory and
those of the callers for one data dir. -/
theorem provisioned_iff {archive : Ffmpeg.Tree} {found : Option Ffmpeg.Tree}
    (hfound : Ffmpeg.Whole archive (Ffmpeg.start found)) (installs : List Ffmpeg.Op) (ops : List Op) :
    ((∀ before, before <+: installs → Ffmpeg.Whole archive (run (Ffmpeg.step archive) (Ffmpeg.start found) before)) ∧
      ∀ before, before <+: ops → Served (run step start before)) ↔
    Meets (Ffmpeg.step archive) (Ffmpeg.Spares archive) (Ffmpeg.start found) installs ∧
      Meets step Keeps start ops :=
  and_congr (Ffmpeg.whole_iff_spares hfound installs) (served_iff_keeps ops)

def sampleArchive : Ffmpeg.Tree := {Ffmpeg.exe, ["bin", "ffprobe.exe"]}

/-- a call comes as far as the marker -/
def sampleStaged (i : ℕ) : List Ffmpeg.Op :=
  [.call i, .test i, .stage i ∅, .extract i Ffmpeg.exe, .extract i ["bin", "ffprobe.exe"], .extracted i, .mark i]

/-- one call installs, and one caller provisions -/
theorem provisioned_sample :
    (∀ before, before <+: sampleStaged 0 ++ [.rename 0 true, .tidied 0] →
      Ffmpeg.Whole sampleArchive (run (Ffmpeg.step sampleArchive) (Ffmpeg.start none) before)) ∧
    ∀ before, before <+: [.call 0, .enter 0, .provision 0 (some "bin/ffmpeg.exe"), .settle 0] →
      Served (run step start before) := by
  have hfound : Ffmpeg.Whole sampleArchive (Ffmpeg.start none) := by
    intro hc
    cases hc
  refine (provisioned_iff hfound _ _).2 ⟨?_, trivial, ?_, trivial, trivial, trivial⟩
  · refine meets_of_forall (Ffmpeg.step sampleArchive) ?_ _
    intro s o ho i p hop
    subst hop
    simp [sampleStaged] at ho
  · intro _ a ha
    cases ha

/-- the exe alone at the install directory, as a stop in an extraction once left it -/
def sampleFound : Ffmpeg.Tree := {["bin"], Ffmpeg.exe}

/-- two calls find the leftover; one replaces it, and then the other removes an entry of what that one committed -/
def sampleInstalls : List Ffmpeg.Op :=
  sampleStaged 0 ++ [.rename 0 true, .test 0] ++ sampleStaged 1 ++
    [.rename 1 true, .test 1, .openDir 1, .remove 1 Ffmpeg.exe, .remove 1 ["bin"], .removed 1 true, .rename 1 true,
      .tidied 1, .openDir 0, .remove 0 ["bin", "ffprobe.exe"]]

/-- a leader is dropped while it provisions, and then another caller comes -/
def sampleCalls : List Op := [.call 0, .enter 0, .drop 0, .call 1, .enter 1]

/-- the install is taken for complete without its `ffprobe.exe`, and the second caller waits for ever -/
theorem incomplete_and_stranded :
    Ffmpeg.Whole sampleArchive (Ffmpeg.start (some sampleFound)) ∧
      (Ffmpeg.complete (run (Ffmpeg.step sampleArchive) (Ffmpeg.start (some sampleFound)) sampleInstalls).dirTree = true ∧
        ¬ Ffmpeg.Whole sampleArchive
          (run (Ffmpeg.step sampleArchive) (Ffmpeg.start (some sampleFound)) sampleInstalls)) ∧
      ((run step start sampleCalls).callers 1 = .following 0 0 ∧ ¬ Served (run step start sampleCalls)) := by
  have hcomplete : Ffmpeg.complete
      (run (Ffmpeg.step sampleArchive) (Ffmpeg.start (some sampleFound)) sampleInstalls).dirTree = true := by
    decide +kernel
  have hmissing : ["bin", "ffprobe.exe"] ∉
      (run (Ffmpeg.step sampleArchive) (Ffmpeg.start (some sampleFound)) sampleInstalls).dirTree := by decide +kernel
  have hfollowing : (run step start sampleCalls).callers 1 = .following 0 0 := by decide
  have hdropped : ((run step start sampleCalls).callers ((run step start sampleCalls).attempts 0).leader).leads = none := by
    decide
  refine ⟨?_, ⟨hcomplete, ?_⟩, hfollowing, ?_⟩
  · have hnot : Ffmpeg.complete (Ffmpeg.start (some sampleFound)).dirTree = false := by decide
    intro hc
    rw [hnot] at hc
    cases hc
  · exact Ffmpeg.not_whole hcomplete (by decide) hmissing
  · intro hs
    rcases hs.woken 1 0 0 hfollowing with hr | hversion
    · unfold Running at hr
      rw [hdropped] at hr
      cases hr
    · exact hversion (by decide)

end EspectralClient.FfmpegOnce
