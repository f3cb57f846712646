/-
What the log view shows of a launch once every event and the reply have been handled.

- `Buf.append` keeps of the arriving events those above every number it has seen (`fresh`); the reply replaces what is
  shown by the first `n` lines of the launch (`backfill_reads`).
- `Inv`: over any run, the events not yet published, on the way and handled are together the lines of the launch, and the
  view's buffer is what its events and the reply make of an empty one.
- `shows_iff`: a launch within both capacities is shown line by line, each once and in order, exactly when its events
  arrived in order, or those the reply does not cover did, and after it.
- `line_lost`: two sources, and the later line published first.
-/
import EspectralClient.Lib.Run
import EspectralClient.App.LaunchLog

namespace EspectralClient.LaunchLog

open EspectralClient.Lib

/-- what is found goes to the front -/
theorem find?_eraseP_perm {α : Type*} {p : α → Bool} {l : List α} {a : α} (h : l.find? p = some a) :
    (a :: l.eraseP p).Perm l := by
  induction l with
  | nil => cases h
  | cons b rest ih =>
    cases hb : p b with
    | true =>
      rw [List.find?_cons_of_pos hb, Option.some.injEq] at h
      rw [List.eraseP_cons_of_pos hb, h]
    | false =>
      rw [List.find?_cons_of_neg (by simp [hb])] at h
      rw [List.eraseP_cons_of_neg (by simp [hb])]
      exact (List.Perm.swap b a _).trans ((ih h).cons b)

/-! ## Numbered lines -/

@[simp] theorem length_numberFrom (n : ℕ) (ls : List String) : (numberFrom n ls).length = ls.length := by
  induction ls generalizing n with
  | nil => rfl
  | cons t rest ih => simp [numberFrom, ih]

@[simp] theorem map_snd_numberFrom (n : ℕ) (ls : List String) : (numberFrom n ls).map Prod.snd = ls := by
  induction ls generalizing n with
  | nil => rfl
  | cons t rest ih => simp [numberFrom, ih]

theorem numberFrom_append (n : ℕ) (a b : List String) :
    numberFrom n (a ++ b) = numberFrom n a ++ numberFrom (n + a.length) b := by
  induction a generalizing n with
  | nil => simp [numberFrom]
  | cons t rest ih =>
    simp only [List.cons_append, numberFrom, ih, List.length_cons]
    rw [show n + 1 + rest.length = n + (rest.length + 1) by omega]

theorem mem_numberFrom {n : ℕ} {ls : List String} {l : Line} (h : l ∈ numberFrom n ls) :
    n ≤ l.1 ∧ l.1 < n + ls.length := by
  induction ls generalizing n with
  | nil => cases h
  | cons t rest ih =>
    rcases List.mem_cons.1 h with rfl | h
    · simp
    · have := ih h
      simp only [List.length_cons]
      omega

/-- the numbers go up -/
def Ascending (ls : List Line) : Prop := ls.Pairwise fun a b => a.1 < b.1

instance (ls : List Line) : Decidable (Ascending ls) := inferInstanceAs (Decidable (List.Pairwise _ ls))

theorem ascending_numberFrom (n : ℕ) (ls : List String) : Ascending (numberFrom n ls) := by
  induction ls generalizing n with
  | nil => exact List.Pairwise.nil
  | cons t rest ih =>
    apply List.pairwise_cons.2 ⟨?_, ih (n + 1)⟩
    intro l hl
    have := (mem_numberFrom hl).1
    simp only
    omega

/-- lines in ascending order are determined by which they are -/
theorem Ascending.eq_of_perm {a b : List Line} (ha : Ascending a) (hb : Ascending b) (h : a.Perm b) : a = b :=
  h.eq_of_pairwise (fun x y _ _ hxy hyx => absurd hxy (by omega)) ha hb

theorem filter_numberFrom {ls : List String} {n m : ℕ} (hm : m ≤ ls.length) :
    (numberFrom (n + 1) ls).filter (fun l => n + m < l.1) = numberFrom (n + 1 + m) (ls.drop m) := by
  have hsplit : numberFrom (n + 1) ls = numberFrom (n + 1) (ls.take m) ++ numberFrom (n + 1 + m) (ls.drop m) := by
    conv_lhs => rw [← List.take_append_drop m ls]
    rw [numberFrom_append, List.length_take, Nat.min_eq_left hm]
  rw [hsplit, List.filter_append]
  have hlow : (numberFrom (n + 1) (ls.take m)).filter (fun l => n + m < l.1) = [] := by
    apply List.filter_eq_nil_iff.2
    intro l hl
    have := mem_numberFrom hl
    simp only [List.length_take] at this
    simp only [decide_eq_true_eq]
    omega
  have hhigh : (numberFrom (n + 1 + m) (ls.drop m)).filter (fun l => n + m < l.1) = numberFrom (n + 1 + m) (ls.drop m) := by
    apply List.filter_eq_self.2
    intro l hl
    have := (mem_numberFrom hl).1
    simp only [decide_eq_true_eq]
    omega
  rw [hlow, hhigh, List.nil_append]

/-! ## What the view keeps of arriving events -/

/-- the events above every number before them and above `last` -/
def fresh (last : ℕ) : List Line → List Line
  | [] => []
  | e :: rest => if e.1 ≤ last then fresh last rest else e :: fresh e.1 rest

/-- the highest number seen -/
def top (last : ℕ) (es : List Line) : ℕ := es.foldl (fun m e => max m e.1) last

theorem fresh_sublist (last : ℕ) (es : List Line) : (fresh last es).Sublist es := by
  induction es generalizing last with
  | nil => exact List.Sublist.refl _
  | cons e rest ih =>
    simp only [fresh]
    split_ifs
    · exact (ih last).cons e
    · exact (ih e.1).cons_cons e

theorem fresh_gt {last : ℕ} {es : List Line} {e : Line} (h : e ∈ fresh last es) : last < e.1 := by
  induction es generalizing last with
  | nil => cases h
  | cons x rest ih =>
    simp only [fresh] at h
    split_ifs at h with hx
    · exact ih h
    · rcases List.mem_cons.1 h with rfl | h
      · omega
      · have := ih h
        omega

theorem ascending_fresh (last : ℕ) (es : List Line) : Ascending (fresh last es) := by
  induction es generalizing last with
  | nil => exact List.Pairwise.nil
  | cons e rest ih =>
    simp only [fresh]
    split_ifs
    · exact ih last
    · exact List.pairwise_cons.2 ⟨fun x hx => fresh_gt hx, ih e.1⟩

/-- nothing is dropped of events in order, above what was seen -/
theorem fresh_eq_self {last : ℕ} {es : List Line} (hgt : ∀ e ∈ es, last < e.1) (h : Ascending es) :
    fresh last es = es := by
  induction es generalizing last with
  | nil => rfl
  | cons e rest ih =>
    obtain ⟨hlt, hrest⟩ := List.pairwise_cons.1 h
    have he : ¬ e.1 ≤ last := by
      have := hgt e List.mem_cons_self
      omega
    simp only [fresh, he, if_false, ih hlt hrest]

theorem le_top (last : ℕ) (es : List Line) : last ≤ top last es := by
  induction es generalizing last with
  | nil => exact le_refl last
  | cons e rest ih => exact le_trans (le_max_left last e.1) (ih (max last e.1))

theorem mem_le_top {last : ℕ} {es : List Line} {e : Line} (h : e ∈ es) : e.1 ≤ top last es := by
  induction es generalizing last with
  | nil => cases h
  | cons x rest ih =>
    rcases List.mem_cons.1 h with rfl | h
    · exact le_trans (le_max_right last e.1) (le_top _ rest)
    · exact ih h

theorem top_le {last n : ℕ} {es : List Line} (hlast : last ≤ n) (h : ∀ e ∈ es, e.1 ≤ n) : top last es ≤ n := by
  induction es generalizing last with
  | nil => exact hlast
  | cons e rest ih =>
    exact ih (max_le hlast (h e List.mem_cons_self)) fun x hx => h x (List.mem_cons_of_mem e hx)

theorem fresh_append (last : ℕ) (a b : List Line) : fresh last (a ++ b) = fresh last a ++ fresh (top last a) b := by
  induction a generalizing last with
  | nil => rfl
  | cons e rest ih =>
    simp only [List.cons_append, fresh, top, List.foldl_cons]
    split_ifs with he
    · rw [ih last, max_eq_left he]
      rfl
    · rw [ih e.1, max_eq_right (by omega), List.cons_append]
      rfl

/-- events at or below what was seen leave no trace -/
theorem fresh_filter {last n : ℕ} (es : List Line) (hn : n ≤ last) :
    fresh last (es.filter fun e => n < e.1) = fresh last es := by
  induction es generalizing last with
  | nil => rfl
  | cons e rest ih =>
    simp only [List.filter_cons, fresh]
    by_cases he : e.1 ≤ last
    · by_cases hen : n < e.1
      · simp [hen, fresh, he, ih hn]
      · simp [hen, he, ih hn]
    · have hen : n < e.1 := by omega
      simp [hen, fresh, he, ih (le_of_lt hen)]

/-! ## The view's buffer -/

/-- the buffer shows these lines, numbered from one -/
structure Reads (b : Buf) (ls : List Line) : Prop where
  lines : b.lines = numberFrom 1 (ls.map fun l => cleanAnsi l.2)
  nextNum : b.nextNum = ls.length + 1

theorem reads_new : Reads .new [] := ⟨rfl, rfl⟩

theorem append_reads {b : Buf} {ls : List Line} (h : Reads b ls) {e : Line} (he : 0 < e.1)
    (hroom : (ls ++ fresh b.lastSeq [e]).length ≤ maxLines) :
    Reads (b.append e) (ls ++ fresh b.lastSeq [e]) ∧ (b.append e).lastSeq = max b.lastSeq e.1 := by
  unfold Buf.append
  by_cases hold : e.1 ≤ b.lastSeq
  · rw [if_pos ⟨by omega, hold⟩]
    refine ⟨?_, (max_eq_left hold).symm⟩
    simpa [fresh, hold] using h
  · rw [if_neg fun hc => hold hc.2]
    have hlen : (b.lines ++ [(b.nextNum, cleanAnsi e.2)]).length ≤ maxLines := by
      rw [h.lines]
      simpa [fresh, hold] using hroom
    refine ⟨⟨?_, ?_⟩, rfl⟩
    · simp only [gt_iff_lt, if_neg (not_lt.2 hlen)]
      simp [fresh, hold, numberFrom_append, h.lines, h.nextNum, numberFrom, add_comm]
    · simp [fresh, hold, h.nextNum]

theorem foldl_append_reads {b : Buf} {ls : List Line} (h : Reads b ls) {es : List Line} (hpos : ∀ e ∈ es, 0 < e.1)
    (hroom : (ls ++ fresh b.lastSeq es).length ≤ maxLines) :
    Reads (es.foldl Buf.append b) (ls ++ fresh b.lastSeq es) ∧ (es.foldl Buf.append b).lastSeq = top b.lastSeq es := by
  induction es generalizing b ls with
  | nil => simpa [fresh, top] using h
  | cons e rest ih =>
    have hsplit := fresh_append b.lastSeq [e] rest
    rw [List.singleton_append] at hsplit
    rw [hsplit, ← List.append_assoc] at hroom ⊢
    have hone : (ls ++ fresh b.lastSeq [e]).length ≤ maxLines :=
      (List.sublist_append_left _ _).length_le.trans hroom
    obtain ⟨hr, hl⟩ := append_reads h (hpos e List.mem_cons_self) hone
    have hnext := ih hr (fun x hx => hpos x (List.mem_cons_of_mem e hx)) (by rw [hl]; exact hroom)
    rw [hl] at hnext
    exact hnext

/-- the reply of the first `n` lines -/
theorem backfill_reads {b : Buf} {produced : List String} {n : ℕ} (hn : n ≤ produced.length) (hmax : n ≤ maxLines)
    (hold : ¬ n < b.lastSeq) (hmore : ¬ n ≤ b.lines.length) :
    Reads (b.backfill ⟨n, produced.take n⟩) (numberFrom 1 (produced.take n)) ∧
      (b.backfill ⟨n, produced.take n⟩).lastSeq = n := by
  have hlen : (produced.take n).length = n := by simpa using hn
  have hkept : ((produced.take n).reverse.take maxLines).reverse = produced.take n := by
    rw [List.take_of_length_le (by simpa [hlen] using hmax), List.reverse_reverse]
  unfold Buf.backfill
  rw [if_neg (by simp only [hlen]; omega)]
  simp only [hkept]
  refine ⟨⟨?_, by simp⟩, trivial⟩
  have hmap : (numberFrom 1 (produced.take n)).map (fun l => cleanAnsi l.2) = (produced.take n).map cleanAnsi := by
    rw [← Function.comp_def cleanAnsi Prod.snd, ← List.map_map, map_snd_numberFrom]
  rw [hmap]

/-! ## Runs -/

/-- the reply covered the lines up to this number -/
def Backfill.count : Backfill → Option ℕ
  | .handled n => some n
  | _ => none

/-- where a run is while no more than the engine's buffer holds has been produced -/
structure Inv (s : St) : Prop where
  seq : s.buffer.seq = s.produced.length
  entries : s.buffer.entries = numberFrom 1 s.produced
  events : (s.before ++ s.after ++ s.bus ++ s.pending.map Prod.snd).Perm (numberFrom 1 s.produced)
  early : s.backfill.count = none → s.after = [] ∧ s.buf.getD Buf.new = s.before.foldl Buf.append Buf.new
  reply : ∀ chunk, s.backfill = .replied chunk → ∃ n ≤ s.produced.length, chunk = ⟨n, s.produced.take n⟩
  late : ∀ n, s.backfill = .handled n → n ≤ s.produced.length ∧
    s.buf.getD Buf.new = s.after.foldl Buf.append ((s.before.foldl Buf.append Buf.new).backfill ⟨n, s.produced.take n⟩)

theorem inv_start : Inv start :=
  ⟨rfl, rfl, List.Perm.refl _, fun _ => ⟨rfl, rfl⟩, by simp [start], by simp [start]⟩

theorem pushAll_spec {b : LaunchBuffer} {produced : List String} (hseq : b.seq = produced.length)
    (hentries : b.entries = numberFrom 1 produced) (lines : List String)
    (hfits : (produced ++ lines).length ≤ ringCapacity) :
    (b.pushAll lines).1 = ⟨(produced ++ lines).length, numberFrom 1 (produced ++ lines)⟩ ∧
      (b.pushAll lines).2 = numberFrom (produced.length + 1) lines := by
  induction lines generalizing b produced with
  | nil =>
    obtain ⟨seq, entries⟩ := b
    simp only at hseq hentries
    simp [LaunchBuffer.pushAll, numberFrom, hseq, hentries]
  | cons t rest ih =>
    have hpush : b.push t =
        (⟨produced.length + 1, numberFrom 1 (produced ++ [t])⟩, (produced.length + 1, t)) := by
      simp only [List.length_append, List.length_cons] at hfits
      have hdrop : (numberFrom 1 produced ++ [(produced.length + 1, t)]).length - ringCapacity = 0 := by
        simp only [List.length_append, length_numberFrom, List.length_singleton]
        omega
      simp only [LaunchBuffer.push, hseq, hentries, hdrop, List.drop_zero, numberFrom_append, numberFrom]
      rw [add_comm 1 produced.length]
    have hrest := @ih ⟨produced.length + 1, numberFrom 1 (produced ++ [t])⟩ (produced ++ [t])
      (by simp) rfl (by simpa using hfits)
    simp only [LaunchBuffer.pushAll, hpush, hrest]
    simp [numberFrom]

theorem inv_appendLines {s : St} (h : Inv s) (source : Source) (lines : List String)
    (hfits : (appendLines s source lines).produced.length ≤ ringCapacity) : Inv (appendLines s source lines) := by
  unfold appendLines at hfits ⊢
  split_ifs at hfits ⊢
  · exact h
  · obtain ⟨hbuffer, hlines⟩ := pushAll_spec h.seq h.entries lines hfits
    have htake : ∀ n ≤ s.produced.length, (s.produced ++ lines).take n = s.produced.take n :=
      fun n hn => List.take_append_of_le_length hn
    constructor
    case seq => simp only [hbuffer]
    case entries => simp only [hbuffer]
    case events =>
      simp only [hlines, List.map_append, List.map_map]
      rw [numberFrom_append, ← List.append_assoc, add_comm 1 s.produced.length]
      apply h.events.append
      simp [Function.comp_def]
    case early => exact h.early
    case reply =>
      intro chunk hc
      obtain ⟨n, hn, hchunk⟩ := h.reply chunk hc
      exact ⟨n, by simp only [List.length_append]; omega, by rw [htake n hn]; exact hchunk⟩
    case late =>
      intro n hc
      obtain ⟨hn, hbuf⟩ := h.late n hc
      exact ⟨by simp only [List.length_append]; omega, by rw [htake n hn]; exact hbuf⟩

theorem inv_publishFirst {s : St} (h : Inv s) (source : Source) : Inv (publishFirst s source) := by
  unfold publishFirst
  split
  case h_2 => exact h
  case h_1 p hp =>
    refine ⟨h.seq, h.entries, ?_, h.early, h.reply, h.late⟩
    calc s.before ++ s.after ++ (s.bus ++ [p.2]) ++ (s.pending.eraseP fun p => p.1 = source).map Prod.snd
        = s.before ++ s.after ++ s.bus ++ (p :: s.pending.eraseP fun p => p.1 = source).map Prod.snd := by simp
      _ |>.Perm (s.before ++ s.after ++ s.bus ++ s.pending.map Prod.snd) :=
          ((find?_eraseP_perm hp).map Prod.snd).append_left _
      _ |>.Perm (numberFrom 1 s.produced) := h.events

theorem inv_startView {s : St} (h : Inv s) : Inv (startView s) := by
  unfold startView
  split
  case h_1 hidle =>
    refine ⟨h.seq, h.entries, h.events, ?_, by simp, by simp⟩
    intro _
    simpa using h.early (by rw [hidle]; rfl)
  case h_2 => exact h

/-- the reply: as many lines as there are, each from the first on -/
theorem bufferView_zero {b : LaunchBuffer} {produced : List String} (h : b.entries = numberFrom 1 produced) :
    b.bufferView 0 = ⟨produced.length, produced.take produced.length⟩ := by
  have hall : b.entries.filter (fun l => 0 < l.1) = numberFrom 1 produced := by
    rw [h]
    apply List.filter_eq_self.2
    intro l hl
    have := (mem_numberFrom hl).1
    simp only [decide_eq_true_eq]
    omega
  have hlast : ((numberFrom 1 produced).getLast?.map Prod.fst).getD 0 = produced.length := by
    rcases List.eq_nil_or_concat produced with rfl | ⟨init, t, rfl⟩
    · rfl
    · rw [List.concat_eq_append, numberFrom_append]
      simp [numberFrom, add_comm]
  simp only [LaunchBuffer.bufferView, hall, hlast, map_snd_numberFrom, List.take_length]

theorem inv_launchLog {s : St} (h : Inv s) : Inv (launchLog s) := by
  unfold launchLog
  split
  case h_1 hreq =>
    refine ⟨h.seq, h.entries, h.events, ?_, ?_, by simp⟩
    · intro _
      exact h.early (by rw [hreq]; rfl)
    · intro chunk hchunk
      simp only [Backfill.replied.injEq] at hchunk
      exact ⟨s.produced.length, le_refl _, by rw [← hchunk, bufferView_zero h.entries]⟩
  case h_2 => exact h

theorem inv_handleReply {s : St} (h : Inv s) : Inv (handleReply s) := by
  unfold handleReply
  split
  case h_1 chunk hreplied =>
    obtain ⟨n, hn, rfl⟩ := h.reply _ hreplied
    obtain ⟨hafter, hbuf⟩ := h.early (by rw [hreplied]; rfl)
    refine ⟨h.seq, h.entries, h.events, by simp [Backfill.count], by simp, ?_⟩
    intro k hk
    simp only [Backfill.handled.injEq, List.length_take, Nat.min_eq_left hn] at hk
    subst hk
    exact ⟨hn, by simp only [hafter, List.foldl_nil, Option.getD_some, hbuf]⟩
  case h_2 => exact h

theorem inv_handleEvent {s : St} (h : Inv s) : Inv (handleEvent s) := by
  unfold handleEvent
  split
  case h_2 => exact h
  case h_1 event rest hbus =>
    have hevents := h.events
    rw [hbus] at hevents
    unfold record
    split
    case h_1 n hhandled =>
      refine ⟨h.seq, h.entries, ?_, ?_, ?_, ?_⟩
      · simpa using hevents
      · intro hc
        rw [hhandled] at hc
        cases hc
      · intro chunk hc
        rw [hhandled] at hc
        cases hc
      · intro k hk
        obtain ⟨hn, hbuf⟩ := h.late k hk
        exact ⟨hn, by simp only [Option.getD_some, hbuf, List.foldl_append, List.foldl_cons, List.foldl_nil]⟩
    case h_2 hnot =>
      have hcount : s.backfill.count = none := by
        cases hb : s.backfill with
        | handled n => exact absurd hb (hnot n)
        | _ => rfl
      obtain ⟨hafter, hbuf⟩ := h.early hcount
      refine ⟨h.seq, h.entries, ?_, ?_, h.reply, ?_⟩
      · simpa [hafter] using hevents
      · intro _
        exact ⟨hafter, by simp only [Option.getD_some, hbuf, List.foldl_append, List.foldl_cons, List.foldl_nil]⟩
      · intro k hk
        exact absurd hk (hnot k)

/-- no step takes a line back -/
theorem produced_step (s : St) (a : Act) : s.produced <+: (step s a).produced := by
  have hrecord : ∀ (t : St) (event : Line), (record t event).produced = t.produced := by
    intro t event
    unfold record
    split <;> rfl
  cases a with
  | appendOutput source chunk =>
    simp only [step, appendLines]
    split_ifs
    · exact List.prefix_refl _
    · exact List.prefix_append _ _
  | appendSystem source line =>
    simp only [step, appendLines]
    split_ifs
    · exact List.prefix_refl _
    · exact List.prefix_append _ _
  | publish source =>
    simp only [step, publishFirst]
    split <;> exact List.prefix_refl _
  | startView =>
    simp only [step, startView]
    split <;> exact List.prefix_refl _
  | launchLog =>
    simp only [step, launchLog]
    split <;> exact List.prefix_refl _
  | handleReply =>
    simp only [step, handleReply]
    split <;> exact List.prefix_refl _
  | handleEvent =>
    simp only [step, handleEvent]
    split
    · rw [hrecord]
    · exact List.prefix_refl _

theorem inv_step {s : St} (a : Act) (h : Inv s) (hfits : (step s a).produced.length ≤ ringCapacity) :
    Inv (step s a) := by
  cases a with
  | appendOutput source chunk => exact inv_appendLines h source (outputLines chunk) hfits
  | appendSystem source line => exact inv_appendLines h source [line] hfits
  | publish source => exact inv_publishFirst h source
  | startView => exact inv_startView h
  | launchLog => exact inv_launchLog h
  | handleReply => exact inv_handleReply h
  | handleEvent => exact inv_handleEvent h

/-- the run, as long as the engine's buffer holds its lines -/
theorem inv_run (acts : List Act) (hfits : (run step start acts).produced.length ≤ ringCapacity) :
    Inv (run step start acts) := by
  apply run_preserves step (I := fun s => s.produced.length ≤ ringCapacity → Inv s) _ acts (fun _ => inv_start) hfits
  intro s a h hnext
  exact inv_step a (h ((produced_step s a).length_le.trans hnext)) hnext

/-! ## What is shown at the end -/

/-- every line published, every event and the reply handled -/
def Finished (s : St) : Prop := s.pending = [] ∧ s.bus = [] ∧ s.backfill.count.isSome

instance (s : St) : Decidable (Finished s) := inferInstanceAs (Decidable (_ ∧ _))

/-- the launch's lines, cleaned, each once and in order -/
def Shows (s : St) : Prop := (s.buf.getD .new).lines = numberFrom 1 (s.produced.map cleanAnsi)

instance (s : St) : Decidable (Shows s) := inferInstanceAs (Decidable (_ = _))

/-- the lines the reply had -/
def St.covered (s : St) : ℕ := s.backfill.count.getD 0

/-- The events arrived in order; or those the reply has do not count, and the others arrived in order and after it. -/
def InOrder (s : St) : Prop :=
  Ascending (s.before ++ s.after) ∨
    (∀ e ∈ s.before, e.1 ≤ s.covered) ∧ Ascending ((s.before ++ s.after).filter fun e => s.covered < e.1)

instance (s : St) : Decidable (InOrder s) := inferInstanceAs (Decidable (_ ∨ _))

theorem Ascending.nodup {ls : List Line} (h : Ascending ls) : ls.Nodup :=
  h.imp fun {a b} hlt heq => absurd hlt (by rw [heq]; exact lt_irrefl _)

theorem Ascending.length_le {ls : List Line} {produced : List String} (h : Ascending ls)
    (hsub : ls ⊆ numberFrom 1 produced) : ls.length ≤ produced.length := by
  simpa using (List.subperm_of_subset h.nodup hsub).length_le

/-- lines of the launch in ascending order, as many as there are -/
theorem Ascending.eq_of_length {ls : List Line} {produced : List String} (h : Ascending ls)
    (hsub : ls ⊆ numberFrom 1 produced) (hlen : produced.length ≤ ls.length) : ls = numberFrom 1 produced :=
  h.eq_of_perm (ascending_numberFrom 1 produced)
    ((List.subperm_of_subset h.nodup hsub).perm_of_length_le (by simpa using hlen))

theorem Ascending.length_le_bound {ls : List Line} {n : ℕ} (h : Ascending ls) (hpos : ∀ e ∈ ls, 0 < e.1)
    (hle : ∀ e ∈ ls, e.1 ≤ n) : ls.length ≤ n := by
  have hnodup : (ls.map Prod.fst).Nodup := (List.pairwise_map.2 h).imp fun hlt => ne_of_lt hlt
  have hsub : ls.map Prod.fst ⊆ List.range' 1 n := by
    intro k hk
    obtain ⟨e, he, rfl⟩ := List.mem_map.1 hk
    have h1 := hpos e he
    have h2 := hle e he
    exact List.mem_range'_1.2 ⟨h1, by omega⟩
  simpa using (List.subperm_of_subset hnodup hsub).length_le

theorem reads_shows {b : Buf} {ls : List Line} {produced : List String} (h : Reads b ls) (hasc : Ascending ls)
    (hsub : ls ⊆ numberFrom 1 produced) :
    b.lines = numberFrom 1 (produced.map cleanAnsi) ↔ ls = numberFrom 1 produced := by
  rw [h.lines]
  constructor
  · intro heq
    apply hasc.eq_of_length hsub
    have := congrArg List.length heq
    simp only [length_numberFrom, List.length_map] at this
    omega
  · intro heq
    rw [heq, ← Function.comp_def cleanAnsi Prod.snd, ← List.map_map, map_snd_numberFrom]

/-- nothing was dropped exactly when they came in order -/
theorem fresh_eq_iff {last : ℕ} {es all : List Line} (hgt : ∀ e ∈ es, last < e.1) (hall : Ascending all)
    (hperm : es.Perm all) : fresh last es = all ↔ Ascending es := by
  constructor
  · intro heq
    have hself : fresh last es = es := (fresh_sublist last es).eq_of_length (by rw [heq, hperm.length_eq])
    rw [← hself]
    exact ascending_fresh last es
  · intro hasc
    rw [fresh_eq_self hgt hasc]
    exact hasc.eq_of_perm hall hperm

section Arrivals

variable {produced : List String} {before after : List Line} (hperm : (before ++ after).Perm (numberFrom 1 produced))
include hperm

theorem arrivals_pos : ∀ e ∈ before ++ after, 0 < e.1 := fun _ he => (mem_numberFrom (hperm.subset he)).1

/-- the view without the reply -/
theorem shows_events (hmax : produced.length ≤ maxLines) :
    ((before ++ after).foldl Buf.append Buf.new).lines = numberFrom 1 (produced.map cleanAnsi) ↔
      Ascending (before ++ after) := by
  have hsub : fresh 0 (before ++ after) ⊆ numberFrom 1 produced :=
    fun e he => hperm.subset ((fresh_sublist 0 _).subset he)
  have hasc := ascending_fresh 0 (before ++ after)
  have hreads := (foldl_append_reads reads_new (arrivals_pos hperm)
    (by simpa [Buf.new] using (hasc.length_le hsub).trans hmax)).1
  rw [reads_shows (by simpa [Buf.new] using hreads) hasc hsub]
  exact fresh_eq_iff (arrivals_pos hperm) (ascending_numberFrom 1 produced) hperm

/-- the view once the reply of `n` lines has replaced what was there, which it covered -/
theorem shows_backfilled {b : Buf} {n : ℕ} (hmax : produced.length ≤ maxLines) (hn : n ≤ produced.length)
    (hreads : Reads b (numberFrom 1 (produced.take n))) (hlast : b.lastSeq = n) (hbefore : ∀ e ∈ before, e.1 ≤ n) :
    (after.foldl Buf.append b).lines = numberFrom 1 (produced.map cleanAnsi) ↔
      Ascending ((before ++ after).filter fun e => n < e.1) := by
  have hsplit : numberFrom 1 produced = numberFrom 1 (produced.take n) ++ numberFrom (n + 1) (produced.drop n) := by
    conv_lhs => rw [← List.take_append_drop n produced]
    rw [numberFrom_append, List.length_take, Nat.min_eq_left hn, add_comm]
  have hrest : ((before ++ after).filter fun e => n < e.1).Perm (numberFrom (n + 1) (produced.drop n)) := by
    have := hperm.filter fun e => n < e.1
    have hfilter := filter_numberFrom (n := 0) hn
    simp only [zero_add, add_comm 1 n] at hfilter
    rwa [hfilter] at this
  have hnone : before.filter (fun e => n < e.1) = [] := by
    apply List.filter_eq_nil_iff.2
    intro e he
    have := hbefore e he
    simp only [decide_eq_true_eq]
    omega
  have hafter : (before ++ after).filter (fun e => n < e.1) = after.filter fun e => n < e.1 := by
    rw [List.filter_append, hnone, List.nil_append]
  rw [hafter] at hrest ⊢
  have hasc : Ascending (numberFrom 1 (produced.take n) ++ fresh n after) := by
    apply List.pairwise_append.2 ⟨ascending_numberFrom _ _, ascending_fresh n after, ?_⟩
    intro x hx y hy
    have h1 := (mem_numberFrom hx).2
    have h2 := fresh_gt hy
    simp only [List.length_take] at h1
    omega
  have hsub : numberFrom 1 (produced.take n) ++ fresh n after ⊆ numberFrom 1 produced := by
    apply List.append_subset.2 ⟨?_, ?_⟩
    · rw [hsplit]
      exact List.subset_append_left _ _
    · intro e he
      exact hperm.subset (List.mem_append_right _ ((fresh_sublist n after).subset he))
  have hpos : ∀ e ∈ after, 0 < e.1 := fun e he => arrivals_pos hperm e (List.mem_append_right _ he)
  have hall := (foldl_append_reads hreads hpos (by rw [hlast]; exact (hasc.length_le hsub).trans hmax)).1
  rw [hlast] at hall
  rw [reads_shows hall hasc hsub, hsplit, List.append_cancel_left_eq, ← fresh_filter after (le_refl n)]
  exact fresh_eq_iff (fun e he => by simpa using (List.mem_filter.1 he).2) (ascending_numberFrom _ _) hrest

/-- a reply that brings no more lines than are shown, and nothing older, brings just these -/
theorem ascending_of_covered {n : ℕ} (hn : n ≤ (fresh 0 before).length) (hbefore : ∀ e ∈ before, e.1 ≤ n)
    (hasc : Ascending ((before ++ after).filter fun e => n < e.1)) : Ascending (before ++ after) := by
  have hnodup : (before ++ after).Nodup := hperm.nodup_iff.2 (ascending_numberFrom 1 produced).nodup
  obtain ⟨hb, -, hdisj⟩ := List.nodup_append.1 hnodup
  have hlow : before ⊆ (numberFrom 1 produced).filter fun e => e.1 ≤ n := by
    intro e he
    exact List.mem_filter.2 ⟨hperm.subset (List.mem_append_left _ he), by simpa using hbefore e he⟩
  have hcount : ((numberFrom 1 produced).filter fun e => e.1 ≤ n).length ≤ n := by
    apply Ascending.length_le_bound ((ascending_numberFrom 1 produced).filter _)
    · intro e he
      exact (mem_numberFrom (List.mem_filter.1 he).1).1
    · intro e he
      simpa using (List.mem_filter.1 he).2
  have hsub := List.subperm_of_subset hb hlow
  have hself : fresh 0 before = before :=
    (fresh_sublist 0 before).eq_of_length_le ((hsub.length_le.trans hcount).trans hn)
  have hall : ∀ e ∈ after, n < e.1 := by
    intro e he
    by_contra hle
    have hmem : e ∈ before :=
      (hsub.perm_of_length_le (hcount.trans (hself ▸ hn))).mem_iff.2
        (List.mem_filter.2 ⟨hperm.subset (List.mem_append_right _ he), by simpa using hle⟩)
    exact hdisj e hmem e he rfl
  have hnone : before.filter (fun e => n < e.1) = [] :=
    List.filter_eq_nil_iff.2 fun e he => by simpa using hbefore e he
  rw [List.filter_append, hnone, List.nil_append, List.filter_eq_self.2 (by simpa using hall)] at hasc
  apply List.pairwise_append.2 ⟨hself ▸ ascending_fresh 0 before, hasc, ?_⟩
  intro x hx y hy
  exact lt_of_le_of_lt (hbefore x hx) (hall y hy)

end Arrivals

/-- **The log view.** After a run with no more lines than the two buffers hold, once everything is published and handled,
the view has exactly the launch's lines, each once and in order, if and only if they arrived in order, or those that the
reply did not bring arrived in order and after it. -/
theorem shows_iff (acts : List Act)
    (hfits : (run step start acts).produced.length ≤ min maxLines ringCapacity)
    (hdone : Finished (run step start acts)) : Shows (run step start acts) ↔ InOrder (run step start acts) := by
  have hinv := inv_run acts (hfits.trans (min_le_right _ _))
  have hmax := hfits.trans (min_le_left _ _)
  generalize run step start acts = s at hinv hmax hdone
  obtain ⟨hpending, hbus, hcount⟩ := hdone
  obtain ⟨n, hn⟩ := Option.isSome_iff_exists.1 hcount
  have hhandled : s.backfill = .handled n := by
    cases hb : s.backfill with
    | handled k => rw [hb] at hn; exact congrArg Backfill.handled (Option.some.inj hn)
    | _ => rw [hb] at hn; cases hn
  have hcovered : s.covered = n := by rw [St.covered, hn, Option.getD_some]
  obtain ⟨hle, hbuf⟩ := hinv.late n hhandled
  have hperm : (s.before ++ s.after).Perm (numberFrom 1 s.produced) := by
    simpa [hbus, hpending] using hinv.events
  unfold Shows InOrder
  rw [hbuf, hcovered]
  have hpos : ∀ e ∈ s.before, 0 < e.1 := fun e he => arrivals_pos hperm e (List.mem_append_left _ he)
  have hsub : fresh 0 s.before ⊆ numberFrom 1 s.produced :=
    fun e he => hperm.subset (List.mem_append_left _ ((fresh_sublist 0 _).subset he))
  have hfirst : Reads (s.before.foldl Buf.append Buf.new) (fresh 0 s.before) ∧
      (s.before.foldl Buf.append Buf.new).lastSeq = top 0 s.before :=
    foldl_append_reads reads_new hpos (((ascending_fresh 0 s.before).length_le hsub).trans hmax)
  obtain ⟨hreads, hlast⟩ := hfirst
  have hlen : (s.before.foldl Buf.append Buf.new).lines.length = (fresh 0 s.before).length := by
    rw [hreads.lines, length_numberFrom, List.length_map]
  by_cases hstale : n < top 0 s.before ∨ n ≤ (fresh 0 s.before).length
  · -- the reply changes nothing
    have hsame : (s.before.foldl Buf.append Buf.new).backfill ⟨n, s.produced.take n⟩ =
        s.before.foldl Buf.append Buf.new := by
      unfold Buf.backfill
      rw [if_pos]
      simp only [hlen, hlast, List.length_take, Nat.min_eq_left hle]
      exact hstale
    rw [hsame, ← List.foldl_append, shows_events hperm hmax]
    refine ⟨Or.inl, ?_⟩
    intro h
    rcases h with h | ⟨hbefore, hasc⟩
    · exact h
    · rcases hstale with hold | hfew
      · exact absurd (top_le (Nat.zero_le n) hbefore) (by omega)
      · exact ascending_of_covered hperm hfew hbefore hasc
  · obtain ⟨hold, hmore⟩ := not_or.1 hstale
    have hbefore : ∀ e ∈ s.before, e.1 ≤ n := fun e he => (mem_le_top he).trans (not_lt.1 hold)
    obtain ⟨hreads', hlast'⟩ := backfill_reads (b := s.before.foldl Buf.append Buf.new) hle (hle.trans hmax)
      (by rw [hlast]; exact hold) (by rw [hlen]; exact hmore)
    rw [shows_backfilled hperm hmax hle hreads' hlast' hbefore]
    constructor
    · intro hasc
      exact Or.inr ⟨hbefore, hasc⟩
    · intro h
      rcases h with h | ⟨-, h⟩
      · exact h.filter _
      · exact h

/-- a game that writes two lines while a third is published out of order and covered by the reply -/
def coveredActs : List Act :=
  [.startView, .appendOutput .stdout "\x1b[31mloading\r\ndone\n", .appendSystem .exit "closed", .publish .exit,
    .launchLog, .handleReply, .publish .stdout, .publish .stdout, .handleEvent, .handleEvent, .handleEvent]

theorem shows_iff_covered :
    (run step start coveredActs).produced.length ≤ min maxLines ringCapacity ∧ Finished (run step start coveredActs) ∧
      Shows (run step start coveredActs) :=
  ⟨by decide, by decide, (shows_iff coveredActs (by decide) (by decide)).2 (by decide)⟩

/-- both pipes print, and the reader of the second publishes first -/
def overtakenActs : List Act :=
  [.startView, .launchLog, .handleReply, .appendOutput .stdout "a\n", .appendOutput .stderr "b\n", .publish .stderr,
    .publish .stdout, .handleEvent, .handleEvent]

/-- **A line the view loses.** The second line arrives first, and the first is then taken for one already shown. -/
theorem line_lost :
    (run step start overtakenActs).produced = ["a", "b"] ∧ Finished (run step start overtakenActs) ∧
      (run step start overtakenActs).buf = some ⟨[(1, "b")], 2, 2⟩ ∧
      ¬ ∀ acts : List Act, (run step start acts).produced.length ≤ min maxLines ringCapacity →
        Finished (run step start acts) → Shows (run step start acts) :=
  ⟨by decide, by decide, by decide, fun h => absurd (h overtakenActs (by decide) (by decide)) (by decide)⟩

end EspectralClient.LaunchLog
