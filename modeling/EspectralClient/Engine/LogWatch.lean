/-
The watch for the menu marker in `latest.log` (`native/engine/src/launch.rs` and `aot.rs`), poll by poll.

- `readLogGrowth`: one poll. `watch`, `waitForMarker`: the loop of a launch and the one of a training.
- `Growing`: a log that only grows, with what every system call of every poll meets.
- `readLogGrowth_spec`: what a poll reads, and the size that it keeps.
- `Timely`, `timely_iff`: what is promised of the loops, and exactly when it holds.
-/
import EspectralClient.Lib.Bytes

namespace EspectralClient.LogWatch

open Lib

/-! ## Model -/

def marker : String := "Sound engine started"

/-- what the system calls of one poll meet: the file when its size is asked and when it is read, and which calls succeed -/
structure Poll where
  held : Option (List UInt8)
  later : Option (List UInt8)
  stat : Bool
  opened : Bool
  sought : Bool
  read : Bool

/-- `read_exact` of so many bytes from a position -/
def Poll.readExact (p : Poll) (start size : ℕ) : Option (List UInt8) :=
  match p.later with
  | none => none
  | some bytes =>
    if p.read = true ∧ ((bytes.drop start).take size).length = size then some ((bytes.drop start).take size) else none

/-- the new text, and the size that is kept -/
def readLogGrowth (p : Poll) (seen : ℤ) : Option String × ℤ :=
  if p.stat = false then (none, seen)
  else
    match p.held with
    | none => (none, seen)
    | some bytes =>
      let size : ℤ := bytes.length
      let seen := if seen = -1 ∨ size < seen then 0 else seen
      if size ≤ seen then (none, seen)
      else if p.opened = false ∨ p.sought = false then (none, seen)
      else
        match p.readExact seen.toNat (size - seen).toNat with
        | none => (none, seen)
        | some buf => (some (Bytes.fromUtf8Lossy buf), size)

/-- `chunk.contains(MARKER)` -/
def hasMarker (chunk : String) : Bool := marker.toList <:+: chunk.toList

/-- a poll of a launch, with the marker already fired and the process gone -/
structure WatchTick where
  poll : Poll
  fired : Bool
  exited : Bool

inductive Watch where
  | polling
  | stopped
  | reported
deriving DecidableEq

def watch : ℤ → List WatchTick → Watch
  | _, [] => .polling
  | seen, t :: ticks =>
    if t.fired = true ∨ t.exited = true then .stopped
    else
      let (chunk, seen) := readLogGrowth t.poll seen
      if chunk.any hasMarker then .reported else watch seen ticks

/-- a poll of a training, with the time and the veto -/
structure WaitTick where
  poll : Poll
  now : ℕ
  veto : Bool

inductive Wait where
  | polling
  | timedOut
  | aborted
  | ok
deriving DecidableEq

structure Caps where
  gameInit : ℕ
  hard : ℕ
  started : ℕ

def waitForMarker (caps : Caps) : Option ℕ → ℤ → List WaitTick → Wait
  | _, _, [] => .polling
  | armedAt, seen, t :: ticks =>
    if caps.hard < t.now - caps.started then .timedOut
    else if armedAt.any fun a => caps.gameInit < t.now - a then .timedOut
    else
      let (chunk, seen) := readLogGrowth t.poll seen
      let armedAt := if chunk.isSome ∧ armedAt.isNone then some t.now else armedAt
      if chunk.any hasMarker then .ok
      else if t.veto then .aborted
      else waitForMarker caps armedAt seen ticks

/-- `metadata(log_file).map(len).unwrap_or(-1)` -/
def firstSeen : Option (List UInt8) → ℤ
  | none => -1
  | some bytes => bytes.length

/-! ## A log that grows -/

def Grows : Option (List UInt8) → Option (List UInt8) → Prop
  | none, _ => True
  | some _, none => False
  | some a, some b => a <+: b

/-- from the file at the start, through every poll -/
def Growing : Option (List UInt8) → List Poll → Prop
  | _, [] => True
  | file, p :: polls => Grows file p.held ∧ Grows p.held p.later ∧ Growing p.later polls

def contents (file : Option (List UInt8)) : List UInt8 := file.getD []

/-- the file at the last poll -/
def lastHeld (file : Option (List UInt8)) (polls : List Poll) : Option (List UInt8) :=
  (polls.getLast?.map Poll.held).getD file

/-- every system call succeeds -/
def Poll.complete (p : Poll) : Bool := p.stat && p.held.isSome && p.opened && p.sought && p.read

/-- how far the file is read after polls, from a size that was read before -/
def readTo (n : ℕ) (polls : List Poll) : ℕ :=
  polls.foldl (fun n p => if p.complete then (contents p.held).length else n) n

/-- the file was there when its size was asked -/
def found (file : Option (List UInt8)) (polls : List Poll) : Bool :=
  file.isSome || polls.any fun p => p.stat && p.held.isSome

/-- the size that is kept after polls -/
def seenAfter (seen : ℤ) (polls : List Poll) : ℤ := polls.foldl (fun seen p => (readLogGrowth p seen).2) seen

def markerBytes : List UInt8 := Bytes.utf8 marker

/-- a log that only grows, and the polls that look at it -/
structure Log where
  file : Option (List UInt8)
  polls : List Poll
  grows : Growing file polls

/-- what is in the file as of the last poll -/
def Log.last (log : Log) : List UInt8 := contents (lastHeld log.file log.polls)

/-- what was appended to the file, as of the last poll -/
def Log.appended (log : Log) : List UInt8 := log.last.drop (contents log.file).length

structure Timely (log : Log) : Prop where
  launch : ∀ ticks : List WatchTick, ticks.map WatchTick.poll = log.polls → watch (firstSeen log.file) ticks ≠ .stopped →
    (watch (firstSeen log.file) ticks = .reported ↔ markerBytes <:+: log.appended)
  training : ∀ caps (ticks : List WaitTick), ticks.map WaitTick.poll = log.polls →
    waitForMarker caps none (firstSeen log.file) ticks ≠ .timedOut →
      waitForMarker caps none (firstSeen log.file) ticks ≠ .aborted →
        (waitForMarker caps none (firstSeen log.file) ticks = .ok ↔ markerBytes <:+: log.appended)
  /-- after every poll, the size that was read; -1 only as long as there was no file -/
  seen : ∀ before after, log.polls = before ++ after → seenAfter (firstSeen log.file) before =
    if found log.file before then (readTo (contents log.file).length before : ℤ) else -1

/-- an occurrence of the marker that is read, and that no size at which a poll read falls into -/
def Uncut (log : Log) : Prop :=
  ∃ x y, log.last = x ++ markerBytes ++ y ∧ (contents log.file).length ≤ x.length ∧
    x.length + markerBytes.length ≤ readTo (contents log.file).length log.polls ∧
      ∀ p ∈ log.polls, p.complete = true → (contents p.held).length ≤ x.length ∨
        x.length + markerBytes.length ≤ (contents p.held).length

/-! ## One poll -/

theorem Grows.contents {a b : Option (List UInt8)} (h : Grows a b) : contents a <+: contents b := by
  match a, b, h with
  | none, b, _ => exact List.nil_prefix
  | some a, some b, h => exact h

theorem Grows.isSome {a b : Option (List UInt8)} (h : Grows a b) (ha : a.isSome = true) : b.isSome = true := by
  match a, b, h with
  | some a, some b, _ => rfl

/-- the bytes that a poll reads -/
def Poll.chunk (p : Poll) (n : ℕ) : Option (List UInt8) :=
  if p.complete = true ∧ n < (contents p.held).length then some ((contents p.held).drop n) else none

/-- the size that is kept, with a file that may not have been there yet -/
def kept (found : Bool) (n : ℕ) : ℤ := if found then n else -1

/-- **One poll.** It reads what the file grew by since the size before, if every call succeeds. -/
theorem readLogGrowth_spec {p : Poll} {n : ℕ} {found : Bool} (hn : n ≤ (contents p.held).length)
    (hnew : found = false → n = 0) (hgrows : Grows p.held p.later) : readLogGrowth p (kept found n) =
      ((p.chunk n).map Bytes.fromUtf8Lossy,
        kept (found || (p.stat && p.held.isSome)) (if p.complete then (contents p.held).length else n)) := by
  unfold readLogGrowth
  by_cases hstat : p.stat = false
  · have hincomplete : p.complete = false := by simp [Poll.complete, hstat]
    rw [if_pos hstat]
    simp [Poll.chunk, hincomplete, hstat]
  · rw [if_neg hstat, Bool.not_eq_false] at *
    cases hheld : p.held with
    | none =>
      have hincomplete : p.complete = false := by simp [Poll.complete, hheld]
      simp [Poll.chunk, hincomplete]
    | some bytes =>
      rw [hheld] at hn hgrows
      change n ≤ bytes.length at hn
      have hseen : (if kept found n = -1 ∨ (bytes.length : ℤ) < kept found n then 0 else kept found n) = (n : ℤ) := by
        unfold kept
        cases found with
        | false =>
          rw [hnew rfl]
          simp
        | true =>
          rw [if_pos rfl, if_neg]
          omega
      have hcontents : contents (some bytes) = bytes := rfl
      have hkept : ∀ m : ℕ, kept (found || (p.stat && (some bytes).isSome)) m = m := by
        intro m
        simp [kept, hstat]
      unfold Poll.chunk
      rw [hkept, hheld, hcontents]
      dsimp only
      rw [hseen]
      by_cases hsize : (bytes.length : ℤ) ≤ (n : ℤ)
      · have hsame : bytes.length = n := by omega
        rw [if_pos hsize, hsame, ite_self, if_neg (by omega)]
        rfl
      · have hlt : n < bytes.length := by omega
        rw [if_neg hsize]
        by_cases hopen : p.opened = false ∨ p.sought = false
        · have hincomplete : p.complete = false := by
            rcases hopen with h | h <;> simp [Poll.complete, h]
          rw [if_pos hopen, hincomplete]
          simp
        · rw [if_neg hopen]
          simp only [not_or, Bool.not_eq_false] at hopen
          obtain ⟨later, hlater⟩ := Option.isSome_iff_exists.1 (hgrows.isSome rfl)
          rw [hlater] at hgrows
          obtain ⟨tail, rfl⟩ : bytes <+: later := hgrows
          have hcount : ((bytes.length : ℤ) - (n : ℤ)).toNat = bytes.length - n := by omega
          have hbuf : ((bytes ++ tail).drop n).take (bytes.length - n) = bytes.drop n := by
            rw [List.drop_append_of_le_length hn]
            exact List.take_left' (List.length_drop ..)
          have hread : p.readExact ((n : ℤ)).toNat ((bytes.length : ℤ) - (n : ℤ)).toNat =
              if p.read = true then some (bytes.drop n) else none := by
            unfold Poll.readExact
            rw [hlater, Int.toNat_natCast, hcount]
            dsimp only
            rw [hbuf, List.length_drop]
            simp
          have hcomplete : p.complete = p.read := by simp [Poll.complete, hstat, hheld, hopen]
          rw [hread, hcomplete]
          by_cases hreads : p.read = true
          · rw [if_pos hreads, if_pos hreads, if_pos ⟨hreads, hlt⟩]
            rfl
          · rw [if_neg hreads, if_neg hreads, if_neg fun h => hreads h.1]
            rfl

/-! ## A whole run -/

theorem markerBytes_ne : markerBytes ≠ [] := by decide

theorem markerBytes_ascii : ∀ b ∈ markerBytes, 0 < b.toNat ∧ b.toNat < 0x80 := by decide +kernel

theorem hasMarker_lossy (bytes : List UInt8) :
    hasMarker (Bytes.fromUtf8Lossy bytes) = true ↔ markerBytes <:+: bytes := by
  have htext : marker.toList = Bytes.asciiText markerBytes := by decide
  unfold hasMarker
  rw [decide_eq_true_eq, htext]
  exact Bytes.infix_fromUtf8Lossy markerBytes_ne markerBytes_ascii bytes

theorem chunk_marker (p : Poll) (n : ℕ) : ((p.chunk n).map Bytes.fromUtf8Lossy).any hasMarker = true ↔
    p.complete = true ∧ markerBytes <:+: (contents p.held).drop n := by
  unfold Poll.chunk
  split
  · next h =>
    rw [Option.map_some, Option.any_some, hasMarker_lossy, and_iff_right h.1]
  · next h =>
    refine iff_of_false (by simp) ?_
    rintro ⟨hcomplete, hinfix⟩
    have hle : (contents p.held).length ≤ n := not_lt.1 fun hlt => h ⟨hcomplete, hlt⟩
    rw [List.drop_eq_nil_of_le hle, List.infix_nil] at hinfix
    exact markerBytes_ne hinfix

/-- some poll reads the marker, from a size that was read before -/
def Reports : ℕ → List Poll → Prop
  | _, [] => False
  | n, p :: polls => (p.complete = true ∧ markerBytes <:+: (contents p.held).drop n) ∨ Reports (readTo n [p]) polls

/-- what a run keeps: the size that was read is within the file -/
structure Within (file : Option (List UInt8)) (n : ℕ) (there : Bool) : Prop where
  size : n ≤ (contents file).length
  absent : there = false → n = 0

theorem Within.next {file : Option (List UInt8)} {n : ℕ} {there : Bool} (h : Within file n there) {p : Poll}
    (hheld : Grows file p.held) (hlater : Grows p.held p.later) :
    Within p.later (readTo n [p]) (there || (p.stat && p.held.isSome)) := by
  have h1 := hheld.contents.length_le
  have h2 := hlater.contents.length_le
  have hread : readTo n [p] = if p.complete then (contents p.held).length else n := rfl
  rw [hread]
  refine ⟨?_, ?_⟩
  · have hsize := h.size
    split <;> omega
  · intro hthere
    rw [Bool.or_eq_false_iff, Bool.and_eq_false_iff] at hthere
    have hincomplete : p.complete = false := by
      rcases hthere.2 with hs | hs <;> simp [Poll.complete, hs]
    rw [hincomplete]
    exact h.absent hthere.1

theorem readLogGrowth_within {file : Option (List UInt8)} {n : ℕ} {there : Bool} (h : Within file n there) {p : Poll}
    (hheld : Grows file p.held) (hlater : Grows p.held p.later) : readLogGrowth p (kept there n) =
      ((p.chunk n).map Bytes.fromUtf8Lossy, kept (there || (p.stat && p.held.isSome)) (readTo n [p])) :=
  readLogGrowth_spec (h.size.trans hheld.contents.length_le) h.absent hlater

theorem watch_reported {file : Option (List UInt8)} {n : ℕ} {there : Bool} (h : Within file n there)
    {ticks : List WatchTick} (hgrowing : Growing file (ticks.map WatchTick.poll)) (hon : watch (kept there n) ticks ≠ .stopped) :
    watch (kept there n) ticks = .reported ↔ Reports n (ticks.map WatchTick.poll) := by
  induction ticks generalizing file n there with
  | nil => exact iff_of_false (by simp [watch]) id
  | cons t ticks ih =>
    obtain ⟨hheld, hlater, hrest⟩ := hgrowing
    unfold watch at hon ⊢
    by_cases hstop : t.fired = true ∨ t.exited = true
    · rw [if_pos hstop] at hon
      exact absurd rfl hon
    · rw [if_neg hstop] at hon ⊢
      rw [readLogGrowth_within h hheld hlater] at hon ⊢
      dsimp only at hon ⊢
      rw [List.map_cons, Reports]
      by_cases hmarker : ((t.poll.chunk n).map Bytes.fromUtf8Lossy).any hasMarker = true
      · rw [if_pos hmarker]
        exact iff_of_true rfl (.inl ((chunk_marker _ n).1 hmarker))
      · rw [if_neg hmarker] at hon ⊢
        rw [or_iff_right fun hin => hmarker ((chunk_marker _ n).2 hin)]
        exact ih (h.next hheld hlater) hrest hon

theorem waitForMarker_ok {caps : Caps} {armedAt : Option ℕ} {file : Option (List UInt8)} {n : ℕ} {there : Bool}
    (h : Within file n there) {ticks : List WaitTick} (hgrowing : Growing file (ticks.map WaitTick.poll))
    (htimed : waitForMarker caps armedAt (kept there n) ticks ≠ .timedOut)
    (habort : waitForMarker caps armedAt (kept there n) ticks ≠ .aborted) :
    waitForMarker caps armedAt (kept there n) ticks = .ok ↔ Reports n (ticks.map WaitTick.poll) := by
  induction ticks generalizing file n there armedAt with
  | nil => exact iff_of_false (by simp [waitForMarker]) id
  | cons t ticks ih =>
    obtain ⟨hheld, hlater, hrest⟩ := hgrowing
    unfold waitForMarker at htimed habort ⊢
    by_cases hhard : caps.hard < t.now - caps.started
    · rw [if_pos hhard] at htimed
      exact absurd rfl htimed
    · rw [if_neg hhard] at htimed habort ⊢
      by_cases hinit : (armedAt.any fun a => caps.gameInit < t.now - a) = true
      · rw [if_pos hinit] at htimed
        exact absurd rfl htimed
      · rw [if_neg hinit] at htimed habort ⊢
        rw [readLogGrowth_within h hheld hlater] at htimed habort ⊢
        dsimp only at htimed habort ⊢
        rw [List.map_cons, Reports]
        by_cases hmarker : ((t.poll.chunk n).map Bytes.fromUtf8Lossy).any hasMarker = true
        · rw [if_pos hmarker]
          exact iff_of_true rfl (.inl ((chunk_marker _ n).1 hmarker))
        · rw [if_neg hmarker] at htimed habort ⊢
          rw [or_iff_right fun hin => hmarker ((chunk_marker _ n).2 hin)]
          by_cases hveto : t.veto = true
          · rw [if_pos hveto] at habort
            exact absurd rfl habort
          · rw [if_neg hveto] at htimed habort ⊢
            exact ih (h.next hheld hlater) hrest htimed habort

theorem seenAfter_within {file : Option (List UInt8)} {n : ℕ} {there : Bool} (h : Within file n there)
    {polls rest : List Poll} (hgrowing : Growing file (polls ++ rest)) : seenAfter (kept there n) polls =
      kept (there || polls.any fun p => p.stat && p.held.isSome) (readTo n polls) := by
  induction polls generalizing file n there with
  | nil =>
    rw [List.any_nil, Bool.or_false]
    rfl
  | cons p polls ih =>
    obtain ⟨hheld, hlater, hrest⟩ := hgrowing
    have hstep := ih (h.next hheld hlater) hrest
    rw [List.any_cons, ← Bool.or_assoc]
    refine Eq.trans ?_ hstep
    change seenAfter (readLogGrowth p (kept there n)).2 polls = _
    rw [readLogGrowth_within h hheld hlater]

theorem held_le {file : Option (List UInt8)} {polls : List Poll} (h : Growing file polls) :
    ∀ p ∈ polls, (contents file).length ≤ (contents p.held).length := by
  induction polls generalizing file with
  | nil => exact fun p hp => by cases hp
  | cons q polls ih =>
    obtain ⟨hheld, hlater, hrest⟩ := h
    intro p hp
    rcases List.mem_cons.1 hp with rfl | hp
    · exact hheld.contents.length_le
    · exact (hheld.contents.length_le.trans hlater.contents.length_le).trans (ih hrest p hp)

theorem le_readTo {n : ℕ} {polls : List Poll} (h : ∀ p ∈ polls, n ≤ (contents p.held).length) : n ≤ readTo n polls := by
  have hall : ∀ (polls : List Poll) (m : ℕ), n ≤ m → (∀ p ∈ polls, n ≤ (contents p.held).length) → n ≤ readTo m polls := by
    intro polls
    induction polls with
    | nil => exact fun m hm _ => hm
    | cons p polls ih =>
      intro m hm hp
      refine ih _ ?_ fun q hq => hp q (List.mem_cons_of_mem p hq)
      dsimp only
      split
      · exact hp p List.mem_cons_self
      · exact hm
  exact hall polls n le_rfl h

/-- the marker is reported exactly where it is read in one piece -/
theorem reports_iff {file : Option (List UInt8)} {polls : List Poll} (hgrowing : Growing file polls) {whole : List UInt8}
    (hwhole : ∀ p ∈ polls, contents p.held <+: whole) {n : ℕ} (hn : n ≤ (contents file).length) : Reports n polls ↔
      ∃ x y, whole = x ++ markerBytes ++ y ∧ n ≤ x.length ∧ x.length + markerBytes.length ≤ readTo n polls ∧
        ∀ p ∈ polls, p.complete = true → (contents p.held).length ≤ x.length ∨
          x.length + markerBytes.length ≤ (contents p.held).length := by
  have hsize : 0 < markerBytes.length := by decide
  induction polls generalizing file n with
  | nil =>
    refine iff_of_false id ?_
    rintro ⟨x, y, -, hstart, hend, -⟩
    change x.length + markerBytes.length ≤ n at hend
    omega
  | cons p polls ih =>
    obtain ⟨hheld, hlater, hrest⟩ := hgrowing
    have hsizes := hheld.contents.length_le
    have hsizes' := hlater.contents.length_le
    have hfirst := hwhole p List.mem_cons_self
    have hnext : readTo n [p] ≤ (contents p.later).length := by
      change (if p.complete then (contents p.held).length else n) ≤ _
      split <;> omega
    have hstep : n ≤ readTo n [p] := by
      change n ≤ if p.complete then (contents p.held).length else n
      split <;> omega
    have hcons : readTo n (p :: polls) = readTo (readTo n [p]) polls := rfl
    have hlater' := ih hrest (fun q hq => hwhole q (List.mem_cons_of_mem p hq)) hnext
    rw [Reports]
    constructor
    · rintro (⟨hcomplete, a, b, hab⟩ | hreports)
      · obtain ⟨tail, htail⟩ := hfirst
        have hheldn : contents p.held = (contents p.held).take n ++ a ++ markerBytes ++ b := by
          calc
            contents p.held = (contents p.held).take n ++ (contents p.held).drop n := (List.take_append_drop n _).symm
            _ = (contents p.held).take n ++ a ++ markerBytes ++ b := by rw [← hab]; simp only [List.append_assoc]
        have hlength := congrArg List.length hheldn
        simp only [List.length_append] at hlength
        refine ⟨(contents p.held).take n ++ a, b ++ tail, ?_, ?_, ?_, ?_⟩
        · rw [← htail]
          conv_lhs => rw [hheldn]
          simp only [List.append_assoc]
        · rw [List.length_append, List.length_take]
          omega
        · have hread : readTo n [p] = (contents p.held).length := if_pos hcomplete
          have hle : (contents p.held).length ≤ readTo (contents p.held).length polls :=
            le_readTo fun q hq => hsizes'.trans (held_le hrest q hq)
          rw [hcons, hread, List.length_append]
          omega
        · intro q hq _
          right
          rw [List.length_append]
          rcases List.mem_cons.1 hq with rfl | hq
          · omega
          · have hlong := held_le hrest q hq
            omega
      · obtain ⟨x, y, hxy, hstart, hend, hpieces⟩ := hlater'.1 hreports
        refine ⟨x, y, hxy, hstep.trans hstart, hend, ?_⟩
        intro q hq hcomplete
        rcases List.mem_cons.1 hq with rfl | hq
        · have hread : readTo n [q] = (contents q.held).length := if_pos hcomplete
          exact .inl (hread ▸ hstart)
        · exact hpieces q hq hcomplete
    · rintro ⟨x, y, hxy, hstart, hend, hpieces⟩
      by_cases hcomplete : p.complete = true
      · have hread : readTo n [p] = (contents p.held).length := if_pos hcomplete
        rcases hpieces p List.mem_cons_self hcomplete with hbefore | hin
        · right
          refine hlater'.2 ?_
          exact ⟨x, y, hxy, hread ▸ hbefore, hend, fun q hq => hpieces q (List.mem_cons_of_mem p hq)⟩
        · left
          refine ⟨hcomplete, ?_⟩
          have hprefix : x ++ markerBytes <+: contents p.held := by
            refine List.prefix_of_prefix_length_le ?_ hfirst (by rw [List.length_append]; exact hin)
            rw [hxy]
            exact List.prefix_append _ y
          obtain ⟨b, hb⟩ := hprefix
          rw [← hb, List.append_assoc, List.drop_append_of_le_length hstart]
          exact ⟨x.drop n, b, by simp only [List.append_assoc]⟩
      · right
        have hread : readTo n [p] = n := if_neg hcomplete
        refine hlater'.2 ?_
        exact ⟨x, y, hxy, hread.le.trans hstart, hend, fun q hq => hpieces q (List.mem_cons_of_mem p hq)⟩

theorem held_prefix_last {file : Option (List UInt8)} {polls : List Poll} (h : Growing file polls) :
    contents file <+: contents (lastHeld file polls) ∧ ∀ p ∈ polls, contents p.held <+: contents (lastHeld file polls) := by
  induction polls generalizing file with
  | nil => exact ⟨List.prefix_rfl, fun p hp => by cases hp⟩
  | cons q polls ih =>
    obtain ⟨hheld, hlater, hrest⟩ := h
    obtain ⟨hfile, hpolls⟩ := ih hrest
    have hlast : contents q.held <+: contents (lastHeld file (q :: polls)) ∧
        ∀ p ∈ polls, contents p.held <+: contents (lastHeld file (q :: polls)) := by
      rcases List.eq_nil_or_concat polls with rfl | ⟨front, l, rfl⟩
      · exact ⟨List.prefix_rfl, fun p hp => by cases hp⟩
      · have hsame : lastHeld file (q :: front.concat l) = lastHeld q.later (front.concat l) := by
          have hconcat : q :: front.concat l = (q :: front).concat l := rfl
          unfold lastHeld
          rw [hconcat, List.concat_eq_append, List.concat_eq_append, List.getLast?_concat, List.getLast?_concat]
          rfl
        rw [hsame]
        exact ⟨hlater.contents.trans hfile, hpolls⟩
    refine ⟨hheld.contents.trans hlast.1, ?_⟩
    intro p hp
    rcases List.mem_cons.1 hp with rfl | hp
    · exact hlast.1
    · exact hlast.2 p hp

/-! ## The result -/

theorem uncut_iff (log : Log) : Reports (contents log.file).length log.polls ↔ Uncut log :=
  reports_iff log.grows (held_prefix_last log.grows).2 le_rfl

theorem Uncut.appended {log : Log} (h : Uncut log) : markerBytes <:+: log.appended := by
  obtain ⟨x, y, hxy, hstart, -⟩ := h
  unfold Log.appended
  rw [hxy, List.append_assoc, List.drop_append_of_le_length hstart]
  exact ⟨x.drop (contents log.file).length, y, by simp only [List.append_assoc]⟩

theorem within_first (file : Option (List UInt8)) :
    Within file (contents file).length file.isSome ∧ kept file.isSome (contents file).length = firstSeen file := by
  refine ⟨⟨le_rfl, ?_⟩, ?_⟩
  · intro h
    have hnone : file = none := by simpa using h
    rw [hnone]
    rfl
  · cases file <;> rfl

theorem watch_runs (seen : ℤ) (polls : List Poll) : watch seen (polls.map fun p => ⟨p, false, false⟩) ≠ .stopped := by
  induction polls generalizing seen with
  | nil => exact fun h => by cases h
  | cons p polls ih =>
    rw [List.map_cons, watch, if_neg (by simp)]
    dsimp only
    split
    · exact fun h => by cases h
    · exact ih _

/-- **When the marker is not missed.** However the polls fall, the loops report the marker exactly when it was appended if an
occurrence of it lies whole between two sizes at which a poll read. -/
theorem timely_iff (log : Log) : Timely log ↔ (markerBytes <:+: log.appended → Uncut log) := by
  obtain ⟨hwithin, hfirst⟩ := within_first log.file
  constructor
  · intro h happended
    have hticks : (log.polls.map fun p => (⟨p, false, false⟩ : WatchTick)).map WatchTick.poll = log.polls := by
      rw [List.map_map]
      exact List.map_id _
    have hon := watch_runs (firstSeen log.file) log.polls
    have hreported := (h.launch _ hticks hon).2 happended
    rw [← hfirst] at hon hreported
    have hreports := (watch_reported hwithin (by rw [hticks]; exact log.grows) hon).1 hreported
    rw [hticks] at hreports
    exact (uncut_iff log).1 hreports
  · intro h
    have hiff : Reports (contents log.file).length log.polls ↔ markerBytes <:+: log.appended := by
      rw [uncut_iff]
      exact ⟨Uncut.appended, h⟩
    refine { launch := ?_, training := ?_, seen := ?_ }
    · intro ticks hticks hon
      rw [← hiff, ← hticks, ← hfirst]
      rw [← hfirst] at hon
      exact watch_reported hwithin (by rw [hticks]; exact log.grows) hon
    · intro caps ticks hticks htimed habort
      rw [← hiff, ← hticks, ← hfirst]
      rw [← hfirst] at htimed habort
      exact waitForMarker_ok hwithin (by rw [hticks]; exact log.grows) htimed habort
    · intro before after hsplit
      rw [← hfirst]
      exact seenAfter_within hwithin (hsplit ▸ log.grows)

/-- a poll whose system calls all succeed -/
def polled (bytes : List UInt8) : Poll := ⟨some bytes, some bytes, true, true, true, true⟩

/-- a poll falls into the marker -/
def splitLog : Log where
  file := some []
  polls := [polled (Bytes.utf8 "Sound engine"), polled (Bytes.utf8 "Sound engine started")]
  grows := ⟨List.nil_prefix, List.prefix_rfl, List.prefix_append _ (Bytes.utf8 " started"), List.prefix_rfl, trivial⟩

theorem marker_split : ¬ ∀ log : Log, Timely log := by
  intro h
  have htimely := (h splitLog).launch ((splitLog.polls).map fun p => ⟨p, false, false⟩) rfl (watch_runs _ _)
  have hreported := htimely.2 (by decide)
  exact absurd hreported (by decide)

end EspectralClient.LogWatch
