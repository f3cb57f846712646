/-
Each launch is taken once.

A closure that was posted for a launch may run after its handler gave up, and a launch may give up an answer after it was
taken; either way it tries again and is taken again. And what was queued is lost if the first instance closes before it is
ready.

- `Timely`: the event loop runs a closure, and the start-up queue takes a launch, while the launch still waits for that
  answer; a launch gives up only an answer to a request that was not taken; an instance closes with nothing queued.
- `taken_once`: in every run of such steps a forwarded launch was taken by exactly one import, or is queued for one, and a
  first instance's arguments were imported by no other.
- `lateRun`, `lostRun`: a closure that runs late, and a first instance whose window does not come up; in the one a launch is
  imported twice, in the other not at all (`not_taken_once`).
-/
import EspectralClient.Lib.Run
import EspectralClient.App.SingleInstance

namespace EspectralClient.SingleInstance

open EspectralClient.Lib

/-! ## What is claimed of a state -/

/-- how often the launch's arguments were given to another instance's import -/
def imported (s : St) (i : ℕ) : ℕ := s.imports.countP fun e => e.launch = i

/-- how often they wait in a start-up queue -/
def waitingToBe (s : St) (i : ℕ) : ℕ := s.queued.countP fun e => e.launch = i

/-- how often its own instance imported them -/
def importedOwn (s : St) (i : ℕ) : ℕ := s.own.countP fun e => e.launch = i

structure TakenOnce (s : St) : Prop where
  forwarded : ∀ i, s.pcOf i = some .forwarded → imported s i + waitingToBe s i = 1
  primary : ∀ i state, s.pcOf i = some (.primary state) → imported s i = 0 ∧ waitingToBe s i = 0
  own : ∀ i, importedOwn s i ≤ 1

/-- the request was taken, or is answered so -/
def Stage.taken : Stage → Bool
  | .ran | .replied .ok => true
  | .sent | .handling | .posted | .replied _ | .over => false

def St.stageOf (s : St) (r : ℕ) : Option Stage := (s.requests[r]?).map Request.stage

/-- the launch still waits for the answer to its request -/
def St.awaited (s : St) (r : ℕ) (q : Request) : Prop := s.pcOf q.launch = some (.waiting r)

/-- the step leaves no launch taken that believes it was not -/
def Timely (s : St) : Op → Prop
  | .take r => ∀ q ∈ s.requests[r]?, s.pcOf q.target = some (.primary .starting) → s.awaited r q
  | .run r => r ∈ s.posted → ∀ q ∈ s.requests[r]?, s.awaited r q ∧ q.stage = .posted
  | .noAnswer i r => s.pcOf i = some (.waiting r) → (s.stageOf r).any Stage.taken = false
  | .closing i state => s.pcOf i = some (.primary state) → ∀ e ∈ s.queued, e.holder ≠ i
  | .spawn _ | .tryLock _ | .lockError _ | .become _ _ | .readPort _ _ | .connect _ _ _ | .unserved _ | .post _ _
  | .discard _ | .giveUp _ | .finish _ | .answer _ _ | .retry _ _ | .ready _ | .release _ => True

/-! ## Launches and requests -/

@[simp] theorem setPc_pcOf (s : St) (i : ℕ) (pc : Pc) (j : ℕ) :
    (setPc s i pc).pcOf j = if i = j then (s.pcOf j).map fun _ => pc else s.pcOf j := by
  simp only [setPc, St.pcOf, List.getElem?_modify]
  cases s.launches[j]? <;> split_ifs <;> rfl

@[simp] theorem setPc_requests (s : St) (i : ℕ) (pc : Pc) : (setPc s i pc).requests = s.requests := rfl
@[simp] theorem setPc_queued (s : St) (i : ℕ) (pc : Pc) : (setPc s i pc).queued = s.queued := rfl
@[simp] theorem setPc_imports (s : St) (i : ℕ) (pc : Pc) : (setPc s i pc).imports = s.imports := rfl
@[simp] theorem setPc_own (s : St) (i : ℕ) (pc : Pc) : (setPc s i pc).own = s.own := rfl

@[simp] theorem setStage_pcOf (s : St) (r : ℕ) (stage : Stage) : (setStage s r stage).pcOf = s.pcOf := rfl
@[simp] theorem setStage_queued (s : St) (r : ℕ) (stage : Stage) : (setStage s r stage).queued = s.queued := rfl
@[simp] theorem setStage_imports (s : St) (r : ℕ) (stage : Stage) : (setStage s r stage).imports = s.imports := rfl
@[simp] theorem setStage_own (s : St) (r : ℕ) (stage : Stage) : (setStage s r stage).own = s.own := rfl

@[simp] theorem setStage_stageOf (s : St) (r : ℕ) (stage : Stage) (r' : ℕ) :
    (setStage s r stage).stageOf r' = if r = r' then (s.stageOf r').map fun _ => stage else s.stageOf r' := by
  simp only [setStage, St.stageOf, List.getElem?_modify]
  cases s.requests[r']? <;> split_ifs <;> rfl

/-- whose request it is -/
def St.launchOf (s : St) (r : ℕ) : Option ℕ := (s.requests[r]?).map Request.launch

@[simp] theorem setStage_launchOf (s : St) (r : ℕ) (stage : Stage) (r' : ℕ) :
    (setStage s r stage).launchOf r' = s.launchOf r' := by
  simp only [setStage, St.launchOf, List.getElem?_modify]
  cases s.requests[r']? <;> split_ifs <;> rfl

/-- the request was taken -/
def St.takenAt (s : St) (r : ℕ) : Bool := (s.stageOf r).any Stage.taken

/-- how often a launch at this statement is taken, by its own account -/
def Pc.takes (takenAt : ℕ → Bool) : Pc → ℕ
  | .forwarded => 1
  | .waiting r => if takenAt r then 1 else 0
  | .trying | .claiming | .blocked | .connecting _ | .again | .primary _ | .unresponsive | .unguarded => 0

def expected (s : St) (i : ℕ) : ℕ := (s.pcOf i).elim 0 (Pc.takes s.takenAt)

/-- how often an instance may have imported its own arguments -/
def Pc.ownBound : Pc → ℕ
  | .primary .running | .primary .closing => 1
  | .primary .starting | .trying | .claiming | .blocked | .connecting _ | .waiting _ | .again | .forwarded
  | .unresponsive | .unguarded => 0

structure Inv (s : St) : Prop where
  count : ∀ i, imported s i + waitingToBe s i = expected s i
  waits : ∀ i r, s.pcOf i = some (.waiting r) → s.launchOf r = some i
  own : ∀ i, importedOwn s i ≤ (s.pcOf i).elim 0 Pc.ownBound

theorem inv_start : Inv start where
  count := by simp [imported, waitingToBe, expected, start, St.pcOf]
  waits := by simp [start, St.pcOf]
  own := by simp [importedOwn, start]

/-- the lock and the port file, and what is posted, are no part of it -/
theorem Inv.locked {s : St} (h : Inv s) (holder port : Option ℕ) (posted : List ℕ) :
    Inv { s with holder := holder, port := port, posted := posted } := ⟨h.count, h.waits, h.own⟩

/-! ## A launch moves on -/

/-- it neither waits for an answer nor was forwarded -/
def Pc.plain : Pc → Bool
  | .trying | .claiming | .blocked | .connecting _ | .again | .primary _ | .unresponsive | .unguarded => true
  | .waiting _ | .forwarded => false

theorem expected_of {s : St} {i : ℕ} {pc : Pc} (hpc : s.pcOf i = some pc) : expected s i = pc.takes s.takenAt := by
  rw [expected, hpc]
  rfl

theorem takes_plain {takenAt : ℕ → Bool} {pc : Pc} (hplain : pc.plain = true) : pc.takes takenAt = 0 := by
  cases pc with
  | waiting | forwarded => cases hplain
  | _ => rfl

/-- a launch expects the same while it stays and its request is as it was -/
theorem expected_congr {s s' : St} {i : ℕ} (hpc : s'.pcOf i = s.pcOf i)
    (htaken : ∀ r, s.pcOf i = some (.waiting r) → s'.takenAt r = s.takenAt r) : expected s' i = expected s i := by
  rw [expected, expected, hpc]
  cases hi : s.pcOf i with
  | none => rfl
  | some pc =>
    cases pc with
    | waiting r =>
      simp only [Option.elim_some, Pc.takes]
      rw [htaken r hi]
    | _ => rfl

theorem setPc_pcOf_self {s : St} {i : ℕ} {pc pc' : Pc} (hpc : s.pcOf i = some pc) : (setPc s i pc').pcOf i = some pc' := by
  rw [setPc_pcOf, if_pos rfl, hpc, Option.map_some]

theorem setPc_pcOf_ne {s : St} {i j : ℕ} {pc : Pc} (hij : i ≠ j) : (setPc s i pc).pcOf j = s.pcOf j := by
  rw [setPc_pcOf, if_neg hij]

/-- one launch goes on to a statement at which it is taken as often as it expects, or waits for its own request -/
theorem arrive {s : St} {i : ℕ} {pc pc' : Pc} (hpc : s.pcOf i = some pc)
    (hcount : ∀ j, i ≠ j → imported s j + waitingToBe s j = expected s j)
    (hwaits : ∀ j r, i ≠ j → s.pcOf j = some (.waiting r) → s.launchOf r = some j)
    (hown : ∀ j, i ≠ j → importedOwn s j ≤ (s.pcOf j).elim 0 Pc.ownBound)
    (hcount' : imported s i + waitingToBe s i = pc'.takes s.takenAt)
    (hwaits' : ∀ r, pc' = .waiting r → s.launchOf r = some i) (hown' : importedOwn s i ≤ pc'.ownBound) :
    Inv (setPc s i pc') := by
  have hnew : (setPc s i pc').pcOf i = some pc' := setPc_pcOf_self hpc
  refine ⟨fun j => ?_, fun j r hj => ?_, fun j => ?_⟩
  · by_cases hij : i = j
    · subst hij
      exact hcount'.trans (expected_of hnew).symm
    · exact (hcount j hij).trans (expected_congr (setPc_pcOf_ne hij) fun _ _ => rfl).symm
  · by_cases hij : i = j
    · subst hij
      exact hwaits' r (Option.some.inj (hnew.symm.trans hj))
    · exact hwaits j r hij ((setPc_pcOf_ne hij).symm.trans hj)
  · by_cases hij : i = j
    · subst hij
      rw [hnew]
      exact hown'
    · rw [setPc_pcOf_ne hij]
      exact hown j hij

/-- from one statement to another, with what a launch is taken unchanged -/
theorem Inv.move {s : St} (h : Inv s) {i : ℕ} {pc pc' : Pc} (hpc : s.pcOf i = some pc)
    (htakes : pc.takes s.takenAt = pc'.takes s.takenAt) (hwaits : ∀ r, pc' = .waiting r → s.launchOf r = some i)
    (hown : pc.ownBound ≤ pc'.ownBound) : Inv (setPc s i pc') := by
  have hbound := h.own i
  rw [hpc] at hbound
  exact arrive hpc (fun j _ => h.count j) (fun j r _ => h.waits j r) (fun j _ => h.own j)
    (((h.count i).trans (expected_of hpc)).trans htakes) hwaits (hbound.trans hown)

/-- between statements at which nothing is waited for -/
theorem Inv.moveOn {s : St} (h : Inv s) {i : ℕ} {pc pc' : Pc} (hpc : s.pcOf i = some pc) (hplain : pc.plain = true)
    (hplain' : pc'.plain = true) (hown : pc.ownBound ≤ pc'.ownBound) : Inv (setPc s i pc') := by
  refine h.move hpc ((takes_plain hplain).trans (takes_plain hplain').symm) (fun r hr => ?_) hown
  rw [hr] at hplain'
  cases hplain'

/-! ## A request moves on -/

theorem requests_stageOf {s : St} {r : ℕ} {q : Request} (hr : s.requests[r]? = some q) : s.stageOf r = some q.stage := by
  rw [St.stageOf, hr]
  rfl

theorem setStage_takenAt {s : St} {r : ℕ} {stage stage' : Stage} (hstage : s.stageOf r = some stage) (r' : ℕ) :
    (setStage s r stage').takenAt r' = if r = r' then stage'.taken else s.takenAt r' := by
  rw [St.takenAt, setStage_stageOf]
  split_ifs with hr
  · subst hr
    rw [hstage]
    rfl
  · rfl

/-- a request goes on, taken or not taken as before -/
theorem Inv.stage {s : St} (h : Inv s) {r : ℕ} {stage stage' : Stage} (hstage : s.stageOf r = some stage)
    (hsame : stage'.taken = stage.taken) : Inv (setStage s r stage') := by
  have hexpected : ∀ i, expected (setStage s r stage') i = expected s i := by
    intro i
    refine expected_congr rfl fun r' _ => ?_
    rw [setStage_takenAt hstage]
    split_ifs with hr
    · subst hr
      rw [hsame, St.takenAt, hstage]
      rfl
    · rfl
  exact ⟨fun i => (h.count i).trans (hexpected i).symm,
    fun i r' hi => (setStage_launchOf s r stage' r').trans (h.waits i r' hi), h.own⟩

/-- a request of a launch is waited for by no other -/
theorem Inv.only {s : St} (h : Inv s) {r : ℕ} {q : Request} (hr : s.requests[r]? = some q) {i : ℕ}
    (hi : q.launch ≠ i) {r' : ℕ} (hwaits : s.pcOf i = some (.waiting r')) : r ≠ r' := by
  rintro rfl
  have hlaunch := h.waits i r hwaits
  rw [St.launchOf, hr, Option.map_some, Option.some.injEq] at hlaunch
  exact hi hlaunch

/-- a request is taken while its launch waits: it is the only one that expects so -/
theorem expected_taken {s : St} (h : Inv s) {r : ℕ} {q : Request} (hr : s.requests[r]? = some q)
    (hawaited : s.awaited r q) (hstage : q.stage.taken = false) {stage : Stage} (htaken : stage.taken = true) (i : ℕ) :
    expected (setStage s r stage) i = expected s i + if q.launch = i then 1 else 0 := by
  have hstageOf := requests_stageOf hr
  by_cases hi : q.launch = i
  · subst hi
    have hpc : s.pcOf q.launch = some (.waiting r) := hawaited
    have hpc' : (setStage s r stage).pcOf q.launch = some (.waiting r) := hpc
    have hold : s.takenAt r = false := by
      rw [St.takenAt, hstageOf]
      exact hstage
    rw [expected_of hpc, expected_of hpc']
    simp only [Pc.takes]
    rw [setStage_takenAt hstageOf, if_pos rfl, htaken, hold]
    rfl
  · rw [if_neg hi, Nat.add_zero]
    refine expected_congr rfl fun r' hwaits => ?_
    rw [setStage_takenAt hstageOf, if_neg (h.only hr hi hwaits)]

theorem countP_snoc {α : Type} (p : α → Bool) (l : List α) (a : α) :
    (l ++ [a]).countP p = l.countP p + if p a then 1 else 0 := by
  rw [List.countP_append, List.countP_singleton]

theorem onRequest_inv {s : St} (h : Inv s) {r : ℕ} {stage : Stage} {next : Request → St}
    (hnext : ∀ q, s.requests[r]? = some q → q.stage = stage → Inv (next q)) : Inv (s.onRequest r stage next) := by
  unfold St.onRequest
  cases hr : s.requests[r]? with
  | none => exact h
  | some q =>
    dsimp only
    split_ifs with hstage
    · exact hnext q hr hstage
    · exact h

theorem onLaunch_inv {s : St} (h : Inv s) {i : ℕ} {pc : Pc} {next : St}
    (hnext : s.pcOf i = some pc → Inv next) : Inv (s.onLaunch i pc next) := by
  unfold St.onLaunch
  split_ifs with hpc
  · exact hnext hpc
  · exact h

/-! ## The steps -/

theorem launchOf_lt {s : St} {r i : ℕ} (h : s.launchOf r = some i) : r < s.requests.length := by
  by_contra hge
  rw [St.launchOf, List.getElem?_eq_none (Nat.le_of_not_lt hge)] at h
  cases h

/-- nobody waits for a request that is yet to be made -/
theorem Inv.request {s : St} (h : Inv s) (q : Request) : Inv { s with requests := s.requests ++ [q] } := by
  have hold : ∀ i r, s.pcOf i = some (.waiting r) → (s.requests ++ [q])[r]? = s.requests[r]? :=
    fun i r hi => List.getElem?_append_left (launchOf_lt (h.waits i r hi))
  have hexpected : ∀ i, expected { s with requests := s.requests ++ [q] } i = expected s i := by
    intro i
    refine expected_congr rfl fun r hi => ?_
    simp only [St.takenAt, St.stageOf, hold i r hi]
  refine ⟨fun i => (h.count i).trans (hexpected i).symm, fun i r hi => ?_, h.own⟩
  · have hlaunch := h.waits i r hi
    simpa only [St.launchOf, hold i r hi] using hlaunch

theorem Inv.connect {s : St} (h : Inv s) (i target : ℕ) (ok : Bool) : Inv (step s (.connect i target ok)) := by
  refine onLaunch_inv h fun hpc => ?_
  split_ifs
  · refine (h.request ⟨i, target, argsOf s i, .sent⟩).move hpc ?_ ?_ (Nat.le_refl _)
    · simp [Pc.takes, St.takenAt, St.stageOf, Stage.taken]
    · intro r hr
      rw [← Pc.waiting.inj hr]
      simp [St.launchOf]
  · exact h.moveOn hpc rfl rfl (Nat.le_refl _)

/-- the start-up queue takes the launch, which waits for the answer -/
theorem Inv.queue {s : St} (h : Inv s) {r : ℕ} {q : Request} (hr : s.requests[r]? = some q) (hstage : q.stage = .sent)
    (hawaited : s.awaited r q) :
    Inv (setStage { s with queued := s.queued ++ [⟨q.target, q.launch, q.args⟩] } r (.replied .ok)) := by
  refine ⟨fun i => ?_, fun i r' hi => (setStage_launchOf _ r _ r').trans (h.waits i r' hi), h.own⟩
  have hexpected : expected (setStage { s with queued := s.queued ++ [⟨q.target, q.launch, q.args⟩] } r (.replied .ok)) i =
      expected s i + if q.launch = i then 1 else 0 :=
    expected_taken h hr hawaited (by rw [hstage]; rfl) rfl i
  rw [hexpected, ← h.count i]
  simp only [imported, waitingToBe, setStage_imports, setStage_queued, countP_snoc, decide_eq_true_eq, Nat.add_assoc]

theorem Inv.take {s : St} (h : Inv s) (r : ℕ) (htimely : Timely s (.take r)) : Inv (step s (.take r)) := by
  refine onRequest_inv h fun q hr hstage => ?_
  have hstageOf : s.stageOf r = some .sent := by rw [requests_stageOf hr, hstage]
  unfold SingleInstance.take
  cases hpc : s.pcOf q.target with
  | none => exact h
  | some pc =>
    cases pc with
    | primary state =>
      cases state with
      | starting => exact h.queue hr hstage (htimely q hr hpc)
      | running => exact h.stage hstageOf rfl
      | closing => exact h.stage hstageOf rfl
    | _ => exact h

/-- the closure imports the arguments of a launch that waits for it -/
theorem Inv.run {s : St} (h : Inv s) (r : ℕ) (htimely : Timely s (.run r)) : Inv (step s (.run r)) := by
  simp only [step]
  cases hr : s.requests[r]? with
  | none => exact h
  | some q =>
    dsimp only
    split_ifs with hposted
    · obtain ⟨hawaited, hstage⟩ := htimely hposted.1 q hr
      simp only [runClosure, if_pos hstage]
      refine ⟨fun i => ?_, fun i r' hi => (setStage_launchOf _ r _ r').trans (h.waits i r' hi), h.own⟩
      have hexpected : expected (setStage { s with
          posted := s.posted.erase r, imports := s.imports ++ [importOf q.target q.launch q.args] } r .ran) i =
            expected s i + if q.launch = i then 1 else 0 :=
        expected_taken h hr hawaited (by rw [hstage]; rfl) rfl i
      rw [hexpected, ← h.count i]
      simp only [imported, waitingToBe, setStage_imports, setStage_queued, countP_snoc, importOf, decide_eq_true_eq]
      omega
    · exact h

/-- the launch learns what became of its request -/
theorem Inv.answer {s : St} (h : Inv s) (r : ℕ) (reply : Reply) : Inv (step s (.answer r reply)) := by
  refine onRequest_inv h fun q hr hstage => onLaunch_inv h fun hpc => ?_
  have hstageOf := requests_stageOf hr
  have htaken : s.takenAt r = (Stage.replied reply).taken := by
    rw [St.takenAt, hstageOf, hstage]
    rfl
  have hcount : imported s q.launch + waitingToBe s q.launch = if reply = .ok then 1 else 0 := by
    rw [h.count, expected_of hpc]
    simp only [Pc.takes]
    rw [htaken]
    cases reply <;> rfl
  have hbound := h.own q.launch
  rw [hpc] at hbound
  refine arrive hpc (fun j hj => ?_) (fun j r' hj hwaits => ?_) (fun j _ => h.own j) ?_ ?_
    (hbound.trans (Nat.zero_le _))
  · have hexpected : expected (setStage s r .over) j = expected s j := by
      refine expected_congr rfl fun r' hwaits => ?_
      rw [setStage_takenAt hstageOf, if_neg (h.only hr hj hwaits)]
    exact (h.count j).trans hexpected.symm
  · exact (setStage_launchOf s r _ r').trans (h.waits j r' hwaits)
  · refine hcount.trans ?_
    cases reply <;> rfl
  · intro r' hr'
    split_ifs at hr'

/-- the queue goes to the import as it is -/
theorem Inv.ready {s : St} (h : Inv s) (i : ℕ) : Inv (step s (.ready i)) := by
  refine onLaunch_inv h fun hpc => ?_
  have hqueue : ∀ j, (((s.queued.filter fun e => e.holder = i).map fun e => importOf i e.launch e.args).countP
      fun e => e.launch = j) + ((s.queued.filter fun e => ¬ e.holder = i).countP fun e => e.launch = j) =
        waitingToBe s j := by
    intro j
    rw [waitingToBe, List.countP_eq_countP_filter_add s.queued _ (fun e => decide (e.holder = i)), List.countP_map]
    simp only [decide_not]
    rfl
  have hcount : ∀ j, (s.imports ++ (s.queued.filter fun e => e.holder = i).map fun e =>
      importOf i e.launch e.args).countP (fun e => e.launch = j) +
        (s.queued.filter fun e => ¬ e.holder = i).countP (fun e => e.launch = j) = expected s j := by
    intro j
    rw [← h.count j, List.countP_append, Nat.add_assoc, hqueue]
    rfl
  have hown : ∀ j, (s.own ++ [importOf i i (argsOf s i)]).countP (fun e => e.launch = j) =
      importedOwn s j + if i = j then 1 else 0 := by
    intro j
    rw [countP_snoc, importedOwn]
    by_cases hij : i = j <;> simp [importOf, hij]
  have hbound := h.own i
  rw [hpc] at hbound
  refine arrive hpc (fun j _ => hcount j) (fun j r _ => h.waits j r) (fun j hj => ?_)
    ((hcount i).trans ((expected_of hpc).trans rfl)) (fun r hr => Pc.noConfusion hr) ?_
  · refine Nat.le_trans (Nat.le_of_eq (hown j)) ?_
    rw [if_neg hj]
    exact h.own j
  · refine Nat.le_trans (Nat.le_of_eq (hown i)) ?_
    rw [if_pos rfl]
    exact Nat.succ_le_succ hbound

/-- nothing that was queued is dropped -/
theorem Inv.closing {s : St} (h : Inv s) (i : ℕ) (state : State) (htimely : Timely s (.closing i state)) :
    Inv (step s (.closing i state)) := by
  refine onLaunch_inv h fun hpc => ?_
  have hkept : (s.queued.filter fun e => ¬ e.holder = i) = s.queued := by
    refine List.filter_eq_self.2 fun e he => ?_
    exact decide_eq_true (htimely hpc e he)
  unfold SingleInstance.closing
  rw [hkept]
  exact h.moveOn hpc rfl rfl (by cases state <;> decide)

theorem Inv.spawn {s : St} (h : Inv s) (args : List String) : Inv (step s (.spawn args)) := by
  have hold : ∀ i, i ≠ s.launches.length → (step s (.spawn args)).pcOf i = s.pcOf i := by
    intro i hi
    simp only [step, St.pcOf]
    rcases Nat.lt_or_gt_of_ne hi with hlt | hgt
    · rw [List.getElem?_append_left hlt]
    · rw [List.getElem?_eq_none (by simp; omega), List.getElem?_eq_none (Nat.le_of_lt hgt)]
  have hnone : s.pcOf s.launches.length = none := by
    rw [St.pcOf, List.getElem?_eq_none (Nat.le_refl _), Option.map_none]
  have hnew : (step s (.spawn args)).pcOf s.launches.length = some .trying := by
    simp only [step, St.pcOf, List.getElem?_concat_length, Option.map_some]
  refine ⟨fun i => ?_, fun i r hi => ?_, fun i => ?_⟩
  · refine (h.count i).trans ?_
    by_cases hi : i = s.launches.length
    · subst hi
      rw [expected_of hnew, expected, hnone]
      rfl
    · exact (expected_congr (hold i hi) fun _ _ => rfl).symm
  · by_cases hlen : i = s.launches.length
    · subst hlen
      rw [hnew, Option.some.injEq] at hi
      cases hi
    · exact h.waits i r ((hold i hlen).symm.trans hi)
  · by_cases hi : i = s.launches.length
    · subst hi
      have hbound := h.own s.launches.length
      rw [hnone] at hbound
      rw [hnew]
      exact hbound
    · rw [hold i hi]
      exact h.own i

theorem step_inv (s : St) (o : Op) (htimely : Timely s o) (h : Inv s) : Inv (step s o) := by
  cases o with
  | spawn args => exact h.spawn args
  | tryLock i =>
    refine onLaunch_inv h fun hpc => ?_
    split_ifs
    · exact (h.locked (some i) s.port s.posted).moveOn hpc rfl rfl (Nat.le_refl _)
    · exact h.moveOn hpc rfl rfl (Nat.le_refl _)
  | lockError i => exact onLaunch_inv h fun hpc => h.moveOn hpc rfl rfl (Nat.le_refl _)
  | become i ok =>
    refine onLaunch_inv h fun hpc => ?_
    split_ifs
    · exact (h.locked s.holder (some i) s.posted).moveOn hpc rfl rfl (Nat.le_refl _)
    · exact (h.locked none s.port s.posted).moveOn hpc rfl rfl (Nat.le_refl _)
  | readPort i found =>
    refine onLaunch_inv h fun hpc => ?_
    split
    · exact h.moveOn hpc rfl rfl (Nat.le_refl _)
    · exact h.moveOn hpc rfl rfl (Nat.le_refl _)
  | connect i target ok => exact h.connect i target ok
  | unserved r => exact onRequest_inv h fun q hr hq => h.stage (requests_stageOf hr) (by rw [hq]; rfl)
  | take r => exact h.take r htimely
  | post r ok =>
    refine onRequest_inv h fun q hr hq => ?_
    have hstage := requests_stageOf hr
    rw [hq] at hstage
    split_ifs
    · exact h
    · exact (h.locked s.holder s.port (s.posted ++ [r])).stage hstage rfl
    · exact h.stage hstage rfl
  | run r => exact h.run r htimely
  | discard r => exact h.locked s.holder s.port (s.posted.erase r)
  | giveUp r => exact onRequest_inv h fun q hr hq => h.stage (requests_stageOf hr) (by rw [hq]; rfl)
  | finish r => exact onRequest_inv h fun q hr hq => h.stage (requests_stageOf hr) (by rw [hq]; rfl)
  | answer r reply => exact h.answer r reply
  | noAnswer i r =>
    refine onLaunch_inv h fun hpc => h.move hpc ?_ (fun r hr => Pc.noConfusion hr) (Nat.le_refl _)
    simp only [Pc.takes]
    rw [if_neg (by rw [St.takenAt, htimely hpc]; exact Bool.false_ne_true)]
  | retry i expired =>
    refine onLaunch_inv h fun hpc => ?_
    split_ifs
    · exact h.moveOn hpc rfl rfl (Nat.le_refl _)
    · exact h.moveOn hpc rfl rfl (Nat.le_refl _)
  | ready i => exact h.ready i
  | closing i state => exact h.closing i state htimely
  | release i =>
    refine onLaunch_inv h fun hpc => ?_
    split_ifs
    · exact h.locked none none s.posted
    · exact h

/-! ## Runs -/

theorem Inv.takenOnce {s : St} (h : Inv s) : TakenOnce s where
  forwarded := fun i hpc => (h.count i).trans (expected_of hpc)
  primary := by
    intro i state hpc
    have hcount : imported s i + waitingToBe s i = 0 := (h.count i).trans (expected_of hpc)
    exact Nat.add_eq_zero_iff.1 hcount
  own := by
    intro i
    refine (h.own i).trans ?_
    cases s.pcOf i with
    | none => exact Nat.zero_le _
    | some pc =>
      cases pc with
      | primary state => cases state <;> decide
      | _ => exact Nat.zero_le _

/-- **Every launch is taken once.** In every run of timely steps, a launch that was forwarded was given to exactly
one import of a first instance, or is queued for it; the arguments of one that became the first instance were given to no
other's, and none is queued; and no instance imports its own twice. -/
theorem taken_once (ops : List Op) (htimely : Meets step Timely start ops) : TakenOnce (run step start ops) :=
  (run_invariant step step_inv htimely inv_start).takenOnce

instance (s : St) (r : ℕ) (q : Request) : Decidable (s.awaited r q) := inferInstanceAs (Decidable (_ = _))

instance (s : St) (o : Op) : Decidable (Timely s o) :=
  match o with
  | .take r => inferInstanceAs (Decidable (∀ q ∈ s.requests[r]?, s.pcOf q.target = some (.primary .starting) → s.awaited r q))
  | .run r => inferInstanceAs (Decidable (r ∈ s.posted → ∀ q ∈ s.requests[r]?, s.awaited r q ∧ q.stage = .posted))
  | .noAnswer i r => inferInstanceAs (Decidable (s.pcOf i = some (.waiting r) → (s.stageOf r).any Stage.taken = false))
  | .closing i state => inferInstanceAs (Decidable (s.pcOf i = some (.primary state) → ∀ e ∈ s.queued, e.holder ≠ i))
  | .spawn _ | .tryLock _ | .lockError _ | .become _ _ | .readPort _ _ | .connect _ _ _ | .unserved _ | .post _ _
  | .discard _ | .giveUp _ | .finish _ | .answer _ _ | .retry _ _ | .ready _ | .release _ => isTrue trivial

/-- the first instance comes up to its window -/
def firstUp : List Op := [.spawn ["first"], .tryLock 0, .become 0 true]

/-- a second launch sends its frame; its request is the next one -/
def forwards (i : ℕ) : List Op := [.tryLock i, .readPort i true, .connect i 0 true]

/-- One launch is queued while the first instance starts, one is taken by its window, and one finds it closing and takes
over the lock. -/
def timelyRun : List Op :=
  firstUp ++ .spawn ["a.mrpack"] :: forwards 1 ++ [.take 0, .answer 0 .ok, .ready 0] ++ .spawn ["b.mrpack"] :: forwards 2 ++
    [.take 1, .post 1 true, .run 1, .finish 1, .answer 1 .ok, .closing 0 .running] ++ .spawn ["c.mrpack"] :: forwards 3 ++
    [.take 2, .answer 2 .closing, .retry 3 false, .release 0, .tryLock 3, .become 3 true, .ready 3]

theorem taken_once_sample : (run step start timelyRun).pcOf 1 = some .forwarded ∧
    (run step start timelyRun).pcOf 2 = some .forwarded ∧ (run step start timelyRun).pcOf 3 = some (.primary .running) ∧
      TakenOnce (run step start timelyRun) :=
  ⟨by decide, by decide, by decide, taken_once timelyRun (by decide)⟩

/-- the UI thread runs the closure after its handler gave up, and the launch is taken again -/
def lateRun : List Op :=
  firstUp ++ .ready 0 :: .spawn ["a.mrpack"] :: forwards 1 ++
    [.take 0, .post 0 true, .giveUp 0, .answer 0 .busy, .run 0, .retry 1 false] ++ forwards 1 ++
    [.take 1, .post 1 true, .run 1, .finish 1, .answer 1 .ok]

/-- the window does not come up after a launch was queued -/
def lostRun : List Op := firstUp ++ .spawn ["a.mrpack"] :: forwards 1 ++ [.take 0, .answer 0 .ok, .closing 0 .starting]

/-- The first launch is imported twice, the other not at all. -/
theorem not_taken_once : ¬ TakenOnce (run step start lateRun) ∧ ¬ TakenOnce (run step start lostRun) := by
  constructor
  · intro h
    exact absurd (h.forwarded 1 (by decide)) (by decide)
  · intro h
    exact absurd (h.forwarded 1 (by decide)) (by decide)

end EspectralClient.SingleInstance
