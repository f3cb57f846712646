/-
What the sound thread reads from the ring.

`stop` waits for the old decode thread for 400 ms at most and goes on. The flags it uses to stop a thread are shared with
the next one, so a thread that was still reading its file then takes `running` for its own and writes into the next track.

- `Pc.quiet`: the thread looks at `running` before it touches the ring or `eof` again.
- `Waited`: the ring is cleared once each decode thread is quiet, and `running` set once each has ended.
- `ring_carries`: in every run of such steps the bytes read are a prefix of the current file's PCM, only the newest thread
  writes, and the end of a track is declared once, after all its bytes were read.
- `stale_bytes`: a decode thread that outlives the wait.
-/
import EspectralClient.Lib.Run
import EspectralClient.Menu.MediaDecoder

namespace EspectralClient.MediaDecoder

open EspectralClient.Lib

/-! ## What is claimed of a state -/

def Pc.writes : Pc → Prop
  | .write _ => True
  | _ => False

structure Carries (s : St) : Prop where
  /-- what was read since the last `open` is a prefix of its file's PCM -/
  read : s.got <+: s.file
  /-- only the thread that `open` started last writes -/
  writer : ∀ i t, s.threads[i]? = some t → t.pc.writes → i + 1 = s.threads.length
  /-- an end is declared after every byte was read -/
  ended : ∀ e ∈ s.ends, e.got = e.file
  /-- and once for a track -/
  once : (s.ends.map Ended.track).Nodup

/-! ## One thread -/

def Pc.quiet : Pc → Bool
  | .loop | .writeCheck _ | .waitWrite _ | .errorCheck | .errorSet | .finallyCheck | .ended => true
  | .await | .read | .eofSet | .write _ | .finallySet => false

/-- what is left of the chunk -/
def Pc.pending : Pc → List UInt8
  | .writeCheck rest | .write rest | .waitWrite rest => rest
  | .loop | .await | .read | .eofSet | .errorCheck | .errorSet | .finallyCheck | .finallySet | .ended => []

/-- the thread may still write -/
def Armed (sh : Shared) (t : DecodeThread) : Prop := t.pc.quiet = false ∨ sh.running = true ∧ t.pc ≠ .ended

/-- what holds of a decode thread of the current file -/
structure Fed (sh : Shared) (file got : List UInt8) (t : DecodeThread) : Prop where
  data : Armed sh t → file = got ++ sh.ring.contents ++ (t.pc.pending ++ t.left)
  last : t.pc = .eofSet ∨ t.pc = .finallySet → t.left = []
  ending : sh.running = true → t.pc = .finallyCheck ∨ t.pc = .errorCheck ∨ t.pc = .errorSet → t.left = []
  interrupted : t.interrupted = true → sh.running = false ∨ t.pc = .ended

theorem fed_ended {sh : Shared} {file got : List UInt8} {t : DecodeThread} (h : t.pc = .ended) : Fed sh file got t where
  data := by
    rintro (hq | ⟨-, hne⟩)
    · rw [h] at hq
      cases hq
    · exact absurd h hne
  last := by
    rw [h]
    rintro (h | h) <;> cases h
  ending := by
    rw [h]
    rintro - (h | h | h) <;> cases h
  interrupted := fun _ => Or.inr h

@[simp] theorem decode_running (sh : Shared) (t : DecodeThread) (wake : Wake) :
    (decodeStep sh t wake).1.running = sh.running := by
  unfold decodeStep
  cases t.pc <;> dsimp only <;> split_ifs <;> rfl

theorem decode_ended {sh : Shared} {t : DecodeThread} {wake : Wake} (h : t.pc = .ended) :
    decodeStep sh t wake = (sh, t) := by
  rw [decodeStep, h]

/-- a quiet thread that is told to stop leaves the ring and the flag alone, and stays quiet -/
theorem decode_quiet {sh : Shared} {t : DecodeThread} {wake : Wake} (hquiet : t.pc.quiet = true)
    (hoff : sh.running = false) :
    (decodeStep sh t wake).1.ring = sh.ring ∧ (decodeStep sh t wake).1.eof = sh.eof ∧
      (decodeStep sh t wake).2.pc.quiet = true := by
  cases hpc : t.pc with
  | await | read | eofSet | finallySet =>
    rw [hpc] at hquiet
    cases hquiet
  | write rest =>
    rw [hpc] at hquiet
    cases hquiet
  | loop | errorCheck | finallyCheck | errorSet => simp [decodeStep, hpc, hoff, Pc.quiet]
  | ended => simp [decodeStep, hpc, Pc.quiet]
  | writeCheck rest => simp [decodeStep, hpc, hoff, Pc.quiet]
  | waitWrite rest =>
    simp only [decodeStep, hpc]
    split_ifs <;> exact ⟨rfl, rfl, rfl⟩

theorem decode_ring {sh : Shared} {t : DecodeThread} {wake : Wake} (h : ∀ rest, t.pc ≠ .write rest) :
    (decodeStep sh t wake).1.ring = sh.ring := by
  cases hpc : t.pc with
  | write rest => exact absurd hpc (h rest)
  | await | read | waitWrite rest =>
    simp only [decodeStep, hpc]
    split_ifs <;> rfl
  | loop | eofSet | writeCheck rest | errorCheck | errorSet | finallyCheck | finallySet | ended =>
    simp only [decodeStep, hpc]

theorem decode_eof_kept {sh : Shared} {t : DecodeThread} (wake : Wake) (h : sh.eof = true) :
    (decodeStep sh t wake).1.eof = true := by
  cases hpc : t.pc with
  | eofSet | finallySet => simp [decodeStep, hpc]
  | await | read | waitWrite rest =>
    simp only [decodeStep, hpc]
    split_ifs <;> exact h
  | loop | write rest | writeCheck rest | errorCheck | errorSet | finallyCheck | ended => simpa [decodeStep, hpc] using h

/-- the ring is only added to -/
theorem decode_grows (sh : Shared) (t : DecodeThread) (wake : Wake) :
    sh.ring.contents <+: (decodeStep sh t wake).1.ring.contents := by
  by_cases h : ∃ rest, t.pc = .write rest
  · obtain ⟨rest, hpc⟩ := h
    simp only [decodeStep, hpc, Ring.write_contents]
    exact List.prefix_append _ _
  · rw [decode_ring (fun rest hpc => h ⟨rest, hpc⟩)]

/-- what a thread at its write adds is what the file goes on with -/
theorem Fed.written {sh : Shared} {file got : List UInt8} {t : DecodeThread} (h : Fed sh file got t)
    {rest : List UInt8} (hpc : t.pc = .write rest) :
    file = got ++ (sh.ring.write rest).2.contents ++ (rest.drop (sh.ring.write rest).1 ++ t.left) := by
  have harmed : Armed sh t := Or.inl (by rw [hpc]; rfl)
  have hdata : file = got ++ sh.ring.contents ++ (rest ++ t.left) := by
    simpa only [hpc, Pc.pending] using h.data harmed
  calc file = got ++ (sh.ring.contents ++ rest) ++ t.left := by rw [hdata]; simp only [List.append_assoc]
    _ = got ++ ((sh.ring.write rest).2.contents ++ rest.drop (sh.ring.write rest).1) ++ t.left := by
      rw [Ring.write_append]
    _ = got ++ (sh.ring.write rest).2.contents ++ (rest.drop (sh.ring.write rest).1 ++ t.left) := by
      simp only [List.append_assoc]

/-- a thread at its write adds what the ring has room for and keeps the rest -/
theorem Fed.write {sh : Shared} {file got : List UInt8} {t : DecodeThread} {wake : Wake} (h : Fed sh file got t)
    {rest : List UInt8} (hpc : t.pc = .write rest) :
    Fed (decodeStep sh t wake).1 file got (decodeStep sh t wake).2 := by
  have hnext := h.written hpc
  have hinterrupted : t.interrupted = true → sh.running = false := fun hi =>
    (h.interrupted hi).resolve_right (by rw [hpc]; exact Pc.noConfusion)
  simp only [decodeStep, hpc]
  split_ifs with hzero
  · rw [hzero, List.drop_zero] at hnext
    exact ⟨fun _ => hnext, by simp, by simp, fun hi => Or.inl (hinterrupted hi)⟩
  · exact ⟨fun _ => hnext, by simp, by simp, fun hi => Or.inl (hinterrupted hi)⟩

theorem Fed.decode {sh : Shared} {file got : List UInt8} {t : DecodeThread} (h : Fed sh file got t) (wake : Wake) :
    Fed (decodeStep sh t wake).1 file got (decodeStep sh t wake).2 := by
  obtain ⟨hdata, hlast, hending, hinterrupted⟩ := h
  cases hpc : t.pc with
  | write rest => exact Fed.write ⟨hdata, hlast, hending, hinterrupted⟩ hpc
  | ended =>
    rw [decode_ended hpc]
    exact fed_ended hpc
  | loop =>
    cases hr : sh.running <;> constructor <;> simp_all [decodeStep, Armed, Pc.quiet, Pc.pending]
  | await =>
    simp only [decodeStep, hpc]
    split_ifs <;> constructor <;> simp_all [Armed, Pc.quiet, Pc.pending]
  | read =>
    simp only [decodeStep, hpc]
    split_ifs <;> constructor <;> simp_all [Armed, Pc.quiet, Pc.pending]
  | eofSet =>
    constructor <;> simp_all [decodeStep, Armed, Pc.quiet, Pc.pending]
  | writeCheck rest =>
    cases hr : sh.running <;> by_cases hrest : rest = [] <;> constructor <;>
      simp_all [decodeStep, Armed, Pc.quiet, Pc.pending]
  | waitWrite rest =>
    simp only [decodeStep, hpc]
    split_ifs <;> constructor <;> simp_all [Armed, Pc.quiet, Pc.pending]
  | errorCheck =>
    cases hr : sh.running <;> constructor <;> simp_all [decodeStep, Armed, Pc.quiet, Pc.pending]
  | errorSet =>
    constructor <;> simp_all [decodeStep, Armed, Pc.quiet, Pc.pending]
  | finallyCheck =>
    cases hr : sh.running <;> constructor <;> simp_all [decodeStep, Armed, Pc.quiet, Pc.pending]
  | finallySet =>
    constructor <;> simp_all [decodeStep, Armed, Pc.quiet, Pc.pending]

/-- a thread only writes what its file goes on with -/
theorem Fed.prefix {sh : Shared} {file got : List UInt8} {t : DecodeThread} (h : Fed sh file got t) (wake : Wake)
    ( hprefix : got ++ sh.ring.contents <+: file) : got ++ (decodeStep sh t wake).1.ring.contents <+: file := by
  by_cases hw : ∃ rest, t.pc = .write rest
  · obtain ⟨rest, hpc⟩ := hw
    simp only [decodeStep, hpc]
    have hnext := h.written hpc
    exact ⟨_, hnext.symm⟩
  · rwa [decode_ring (fun rest hpc => hw ⟨rest, hpc⟩)]

/-- the flag is set once all of the file was written -/
theorem Fed.eof {sh : Shared} {file got : List UInt8} {t : DecodeThread} (h : Fed sh file got t) {wake : Wake}
    (heof : (decodeStep sh t wake).1.eof = true) :
    sh.eof = true ∨ file = got ++ (decodeStep sh t wake).1.ring.contents := by
  cases hpc : t.pc with
  | eofSet | finallySet =>
    have hleft : t.left = [] := h.last (by simp [hpc])
    have hdata := h.data (Or.inl (by rw [hpc]; rfl))
    refine Or.inr ?_
    simpa [decodeStep, hpc, hleft, Pc.pending] using hdata
  | await | read | waitWrite rest =>
    simp only [decodeStep, hpc] at heof
    split_ifs at heof <;> exact Or.inl heof
  | loop | write rest | writeCheck rest | errorCheck | errorSet | finallyCheck | ended =>
    simp only [decodeStep, hpc] at heof
    exact Or.inl heof

/-! ## The state -/

/-- the client thread is between two statements of a tick, or of nothing -/
def Client.calm : Client → Bool
  | .idle | .tickError _ | .tickEof _ | .tickRoom _ => true
  | .runningOff _ | .takeThread _ | .join _ | .clear _ | .eofOff _ | .errorOff _ | .openSound _ | .runningOn _
  | .startThread _ => false

/-- a track is open for the player -/
def Live (s : St) : Prop := s.playing = true ∧ s.client.calm = true

/-- `stop` of the player is under way -/
def Client.stops : Client → Bool
  | .runningOff next | .takeThread next | .join next | .clear next => next.isNone
  | .idle | .eofOff _ | .errorOff _ | .openSound _ | .runningOn _ | .startThread _ | .tickError _ | .tickEof _
  | .tickRoom _ => false

/-- a tick is under way -/
def Client.ticks : Client → Bool
  | .tickError _ | .tickEof _ | .tickRoom _ => true
  | .idle | .runningOff _ | .takeThread _ | .join _ | .clear _ | .eofOff _ | .errorOff _ | .openSound _ | .runningOn _
  | .startThread _ => false

def AllQuiet (threads : List DecodeThread) : Prop := ∀ t ∈ threads, t.pc.quiet = true

def AllEnded (threads : List DecodeThread) : Prop := ∀ t ∈ threads, t.pc = .ended

/-- what holds on the way through `stop` and `open` -/
def Stage (sh : Shared) (threads : List DecodeThread) : Client → Prop
  | .idle | .runningOff _ | .tickError _ | .tickEof _ => True
  | .takeThread _ | .join _ | .clear _ => sh.running = false
  | .eofOff _ => sh.running = false ∧ sh.ring.contents = [] ∧ AllQuiet threads
  | .errorOff _ | .openSound _ | .runningOn _ =>
    sh.running = false ∧ sh.ring.contents = [] ∧ AllQuiet threads ∧ sh.eof = false
  | .startThread _ => sh.running = true ∧ sh.ring.contents = [] ∧ AllEnded threads ∧ sh.eof = false
  | .tickRoom _ => sh.eof = true

structure Inv (s : St) : Prop where
  one : s.threads.Pairwise fun a _ => a.pc = .ended
  fed : ∀ t ∈ s.threads, Fed s.shared s.file s.got t
  front : s.got ++ s.shared.ring.contents <+: s.file
  stage : Stage s.shared s.threads s.client
  stopped : s.client.stops = true → s.playing = false
  ticked : s.client.ticks = true → s.playing = true
  live : Live s → s.shared.running = true ∨ AllQuiet s.threads
  drained : Live s → s.shared.eof = true → s.file = s.got ++ s.shared.ring.contents
  past : ∀ e ∈ s.ends, e.track ≤ s.track
  fresh : Live s → s.eofHandled = false → ∀ e ∈ s.ends, e.track < s.track
  ends : ∀ e ∈ s.ends, e.got = e.file
  once : (s.ends.map Ended.track).Nodup

theorem inv_start : Inv start where
  one := List.Pairwise.nil
  fed := by simp [start]
  front := List.prefix_rfl
  stage := trivial
  stopped := fun h => Bool.noConfusion h
  ticked := fun h => Bool.noConfusion h
  live := fun _ => Or.inr (by simp [AllQuiet, start])
  drained := fun _ h => Bool.noConfusion h
  past := by simp [start]
  fresh := by simp [start]
  ends := by simp [start]
  once := List.nodup_nil

/-! ## Decode threads in the state -/

theorem set_mem {l : List DecodeThread} {i : ℕ} {t t' : DecodeThread} (h : t' ∈ l.set i t) :
    t' = t ∨ ∃ j, j ≠ i ∧ l[j]? = some t' := by
  obtain ⟨j, hj⟩ := List.mem_iff_getElem?.1 h
  rw [List.getElem?_set] at hj
  split_ifs at hj with hij hlt
  · exact Or.inl (Option.some.inj hj).symm
  · exact Or.inr ⟨j, Ne.symm hij, hj⟩

/-- beside a thread that has not ended, all others have -/
theorem others_ended {l : List DecodeThread} (hone : l.Pairwise fun a _ => a.pc = .ended) {i j : ℕ} {t t' : DecodeThread}
    (hi : l[i]? = some t) (hj : l[j]? = some t') (hij : j ≠ i) (hpc : t.pc ≠ .ended) : t'.pc = .ended := by
  obtain ⟨hilt, rfl⟩ := List.getElem?_eq_some_iff.1 hi
  obtain ⟨hjlt, rfl⟩ := List.getElem?_eq_some_iff.1 hj
  rcases Nat.lt_or_gt_of_ne hij with hlt | hgt
  · exact List.pairwise_iff_getElem.1 hone j i hjlt hilt hlt
  · exact absurd (List.pairwise_iff_getElem.1 hone i j hilt hjlt hgt) hpc

theorem newest {l : List DecodeThread} (hone : l.Pairwise fun a _ => a.pc = .ended) {i : ℕ} {t : DecodeThread}
    (hi : l[i]? = some t) (hpc : t.pc ≠ .ended) : i + 1 = l.length := by
  obtain ⟨hlt, rfl⟩ := List.getElem?_eq_some_iff.1 hi
  by_contra hne
  exact hpc (List.pairwise_iff_getElem.1 hone i (i + 1) hlt (by omega) (Nat.lt_succ_self i))

theorem one_set {l : List DecodeThread} (hone : l.Pairwise fun a _ => a.pc = .ended) {i : ℕ} {t : DecodeThread}
    (hi : l[i]? = some t) (hpc : t.pc ≠ .ended) (t' : DecodeThread) :
    (l.set i t').Pairwise fun a _ => a.pc = .ended := by
  have hlast := newest hone hi hpc
  rw [List.pairwise_iff_getElem]
  intro a b ha hb hab
  rw [List.length_set] at ha hb
  rw [List.getElem_set_ne (by omega)]
  exact List.pairwise_iff_getElem.1 hone a b ha hb hab

theorem Stage.decode {sh : Shared} {threads : List DecodeThread} {client : Client} (h : Stage sh threads client)
    {i : ℕ} {t : DecodeThread} (hi : threads[i]? = some t) (hpc : t.pc ≠ .ended) (wake : Wake) :
    Stage (decodeStep sh t wake).1 (threads.set i (decodeStep sh t wake).2) client := by
  have hmem := List.mem_of_getElem? hi
  have hquiet : sh.running = false → AllQuiet threads →
      (decodeStep sh t wake).1.ring = sh.ring ∧ (decodeStep sh t wake).1.eof = sh.eof ∧
        AllQuiet (threads.set i (decodeStep sh t wake).2) := by
    intro hoff hall
    obtain ⟨hring, heof, hq⟩ : (decodeStep sh t wake).1.ring = sh.ring ∧ (decodeStep sh t wake).1.eof = sh.eof ∧
        (decodeStep sh t wake).2.pc.quiet = true := decode_quiet (hall t hmem) hoff
    refine ⟨hring, heof, fun t' ht' => ?_⟩
    rcases set_mem ht' with rfl | ⟨j, -, hj⟩
    · exact hq
    · exact hall t' (List.mem_of_getElem? hj)
  cases client with
  | idle | runningOff | tickError | tickEof => trivial
  | takeThread | join | clear => exact (decode_running sh t wake).trans h
  | eofOff =>
    obtain ⟨hoff, hempty, hall⟩ := h
    obtain ⟨hring, -, hall'⟩ := hquiet hoff hall
    exact ⟨(decode_running sh t wake).trans hoff, by rw [hring, hempty], hall'⟩
  | errorOff | openSound | runningOn =>
    obtain ⟨hoff, hempty, hall, heof⟩ := h
    obtain ⟨hring, heof', hall'⟩ := hquiet hoff hall
    exact ⟨(decode_running sh t wake).trans hoff, by rw [hring, hempty], hall', heof'.trans heof⟩
  | startThread => exact absurd (h.2.2.1 t hmem) hpc
  | tickRoom => exact decode_eof_kept wake h

/-- nothing more is written of a file that was written in full -/
theorem drained_stays {file got contents contents' : List UInt8} (h : file = got ++ contents)
    (hgrows : contents <+: contents') (hfront : got ++ contents' <+: file) : file = got ++ contents' := by
  have hle := hfront.length_le
  rw [h, List.length_append, List.length_append, Nat.add_le_add_iff_left] at hle
  rw [h, hgrows.eq_of_length_le hle]

theorem Inv.decode {s : St} (h : Inv s) (i : ℕ) (wake : Wake) : Inv (step s (.decode i wake)) := by
  cases hi : s.threads[i]? with
  | none =>
    simp only [step, hi]
    exact h
  | some t =>
    have hmem := List.mem_of_getElem? hi
    have hfed := h.fed t hmem
    by_cases hpc : t.pc = .ended
    · simp only [step, hi, decode_ended hpc]
      obtain ⟨hlt, rfl⟩ := List.getElem?_eq_some_iff.1 hi
      rw [List.set_getElem_self hlt]
      exact h
    · simp only [step, hi]
      have hfront := hfed.prefix wake h.front
      refine ⟨one_set h.one hi hpc _, ?_, hfront, h.stage.decode hi hpc wake, h.stopped, h.ticked, ?_, ?_, h.past,
        h.fresh, h.ends, h.once⟩
      · intro t' ht'
        rcases set_mem ht' with rfl | ⟨j, hij, hj⟩
        · exact hfed.decode wake
        · exact fed_ended (others_ended h.one hi hj hij hpc)
      · intro hlive
        rcases h.live hlive with hon | hall
        · exact Or.inl ((decode_running _ _ _).trans hon)
        · by_cases hon : s.shared.running = true
          · exact Or.inl ((decode_running _ _ _).trans hon)
          · refine Or.inr fun t' ht' => ?_
            rcases set_mem ht' with rfl | ⟨j, -, hj⟩
            · exact (decode_quiet (hall t hmem) (Bool.eq_false_of_not_eq_true hon)).2.2
            · exact hall t' (List.mem_of_getElem? hj)
      · intro hlive heof
        rcases hfed.eof heof with hold | hnow
        · exact drained_stays (h.drained hlive hold) (decode_grows _ _ _) hfront
        · exact hnow

/-! ## The sound thread -/

theorem Fed.read {sh : Shared} {file got : List UInt8} {t : DecodeThread} (h : Fed sh file got t) (len : ℕ) :
    Fed { sh with ring := (sh.ring.read len).2 } file (got ++ (sh.ring.read len).1) t where
  data := by
    intro harmed
    rw [List.append_assoc got, Ring.read_append]
    exact h.data harmed
  last := h.last
  ending := h.ending
  interrupted := h.interrupted

theorem Stage.read {sh : Shared} {threads : List DecodeThread} {client : Client} (h : Stage sh threads client) (len : ℕ) :
    Stage { sh with ring := (sh.ring.read len).2 } threads client := by
  have hempty : sh.ring.contents = [] → (sh.ring.read len).2.contents = [] := by
    intro he
    rw [Ring.read_contents, he, List.drop_nil]
  cases client with
  | idle | runningOff | tickError | tickEof => trivial
  | takeThread | join | clear | tickRoom => exact h
  | eofOff => exact ⟨h.1, hempty h.2.1, h.2.2⟩
  | errorOff | openSound | runningOn | startThread => exact ⟨h.1, hempty h.2.1, h.2.2⟩

theorem Inv.read {s : St} (h : Inv s) (len : ℕ) : Inv (step s (.read len)) := by
  have hsame : s.got ++ (s.shared.ring.read len).1 ++ (s.shared.ring.read len).2.contents =
      s.got ++ s.shared.ring.contents := by
    rw [List.append_assoc, Ring.read_append]
  refine ⟨h.one, fun t ht => (h.fed t ht).read len, ?_, h.stage.read len, h.stopped, h.ticked, h.live, ?_, h.past, h.fresh,
    h.ends, h.once⟩
  · show s.got ++ (s.shared.ring.read len).1 ++ (s.shared.ring.read len).2.contents <+: s.file
    rw [hsame]
    exact h.front
  · intro hlive heof
    show s.file = s.got ++ (s.shared.ring.read len).1 ++ (s.shared.ring.read len).2.contents
    rw [hsame]
    exact h.drained hlive heof

/-! ## The client thread -/

/-- what the next statement of the client thread is to wait for -/
def Client.waits (threads : List DecodeThread) : Client → Prop
  | .clear _ => AllQuiet threads
  | .runningOn _ => AllEnded threads
  | .idle | .runningOff _ | .takeThread _ | .join _ | .eofOff _ | .errorOff _ | .openSound _ | .startThread _
  | .tickError _ | .tickEof _ | .tickRoom _ => True

/-- the ring is cleared once the decode threads are quiet, and `running` set once they have ended -/
def Waited (s : St) : Op → Prop
  | .client => s.client.waits s.threads
  | .play _ | .stop | .pause | .resume | .tick _ _ | .decode _ _ | .read _ => True

/-- a call on the client thread opens or stops a track, or leaves the decoder alone -/
theorem Inv.begin {s : St} (h : Inv s) {playing paused eofHandled : Bool} {next : Option Track}
    (hstop : next.isNone = true → playing = false) :
    Inv { s with playing := playing, paused := paused, eofHandled := eofHandled, client := .runningOff next } :=
  ⟨h.one, h.fed, h.front, trivial, hstop, fun ht => Bool.noConfusion ht, fun hl => Bool.noConfusion hl.2,
    fun hl => Bool.noConfusion hl.2, h.past, fun hl => Bool.noConfusion hl.2, h.ends, h.once⟩

/-- the player's own fields, with the client thread calm before and after -/
theorem Inv.calm {s : St} (h : Inv s) {client : Client} {paused : Bool} (hbefore : s.client.calm = true)
    (hstage : Stage s.shared s.threads client) (hstops : client.stops = false)
    (hticks : client.ticks = true → s.playing = true) : Inv { s with paused := paused, client := client } :=
  ⟨h.one, h.fed, h.front, hstage, fun hs => absurd (hstops.symm.trans hs) Bool.false_ne_true, hticks, fun hl => h.live ⟨hl.1, hbefore⟩, fun hl => h.drained ⟨hl.1, hbefore⟩, h.past,
    fun hl => h.fresh ⟨hl.1, hbefore⟩, h.ends, h.once⟩

theorem Inv.goOn {s : St} (h : Inv s) (next : Option Track) : Inv (goOn s next) := by
  cases next with
  | none => exact h.begin fun _ => rfl
  | some track => exact h.begin fun hn => Bool.noConfusion hn

theorem Inv.call {s : St} (h : Inv s) (o : Op) (hidle : s.client = .idle) : Inv (call s o) := by
  have hcalm : s.client.calm = true := by rw [hidle]; rfl
  cases o with
  | play track => exact h.goOn (some track)
  | stop => exact h.goOn none
  | pause =>
    simp only [MediaDecoder.call]
    split_ifs
    · exact h.calm hcalm h.stage (by rw [hidle]; rfl) h.ticked
    · exact h
  | resume =>
    simp only [MediaDecoder.call]
    split_ifs
    · exact h.calm hcalm h.stage (by rw [hidle]; rfl) h.ticked
    · exact h
  | tick enabled next =>
    simp only [MediaDecoder.call]
    split_ifs with hplaying
    · exact h
    · exact h.goOn none
    · exact h.calm hcalm trivial rfl fun _ => Bool.eq_true_of_not_eq_false hplaying
  | client | decode | read => exact h

/-- on the way through `stop` and `open` no track is live -/
theorem Inv.underway {s : St} (h : Inv s) {sh : Shared} {threads : List DecodeThread} {thread : Option ℕ} {client : Client}
    (hone : threads.Pairwise fun a _ => a.pc = .ended) (hfed : ∀ t ∈ threads, Fed sh s.file s.got t)
    (hfront : s.got ++ sh.ring.contents <+: s.file) (hstage : Stage sh threads client) (hclient : client.calm = false)
    (hstops : client.stops = true → s.playing = false) :
    Inv { s with shared := sh, threads := threads, thread := thread, client := client } where
  one := hone
  fed := hfed
  front := hfront
  stage := hstage
  stopped := hstops
  ticked := fun ht => by
    have hcalm : client.calm = true := by cases client <;> first | rfl | exact Bool.noConfusion ht
    exact absurd (hclient.symm.trans hcalm) Bool.false_ne_true
  live := fun hl => absurd hl.2 (by rw [hclient]; exact Bool.false_ne_true)
  drained := fun hl => absurd hl.2 (by rw [hclient]; exact Bool.false_ne_true)
  past := h.past
  fresh := fun hl => absurd hl.2 (by rw [hclient]; exact Bool.false_ne_true)
  ends := h.ends
  once := h.once

/-- an interrupt changes nothing else of a thread -/
theorem interrupt_mem {l : List DecodeThread} {i : ℕ} {t' : DecodeThread}
    (h : t' ∈ l.modify i fun t => { t with interrupted := true }) :
    t' ∈ l ∨ ∃ t ∈ l, t' = { t with interrupted := true } := by
  obtain ⟨j, hj⟩ := List.mem_iff_getElem?.1 h
  rw [List.getElem?_modify] at hj
  obtain ⟨t, ht, rfl⟩ := Option.map_eq_some_iff.1 hj
  split_ifs
  · exact Or.inr ⟨t, List.mem_of_getElem? ht, rfl⟩
  · exact Or.inl (List.mem_of_getElem? ht)

theorem Fed.interrupt {sh : Shared} {file got : List UInt8} {t : DecodeThread} (h : Fed sh file got t)
    (hoff : sh.running = false) : Fed sh file got { t with interrupted := true } :=
  ⟨h.data, h.last, h.ending, fun _ => Or.inl hoff⟩

theorem one_interrupt {l : List DecodeThread} (h : l.Pairwise fun a _ => a.pc = .ended) (i : ℕ) :
    (l.modify i fun t => { t with interrupted := true }).Pairwise fun a _ => a.pc = .ended := by
  rw [List.pairwise_iff_getElem] at h ⊢
  intro a b ha hb hab
  rw [List.length_modify] at ha hb
  rw [List.getElem_modify]
  have hend := h a b ha hb hab
  split_ifs <;> exact hend

/-- `running` is switched off: a thread may write less -/
theorem Fed.off {sh : Shared} {file got : List UInt8} {t : DecodeThread} (h : Fed sh file got t) :
    Fed { sh with running := false } file got t where
  data := by
    rintro (hq | ⟨hon, -⟩)
    · exact h.data (Or.inl hq)
    · cases hon
  last := h.last
  ending := fun hon => Bool.noConfusion hon
  interrupted := fun _ => Or.inl rfl

/-- a quiet thread that is told to stop, whatever became of the ring and the flags -/
theorem fed_quiet {sh : Shared} {file got : List UInt8} {t : DecodeThread} (hquiet : t.pc.quiet = true)
    (hoff : sh.running = false) : Fed sh file got t where
  data := by
    rintro (hq | ⟨hon, -⟩)
    · rw [hquiet] at hq
      cases hq
    · rw [hoff] at hon
      cases hon
  last := by
    rintro (hp | hp) <;> rw [hp] at hquiet <;> cases hquiet
  ending := fun hon => by
    rw [hoff] at hon
    cases hon
  interrupted := fun _ => Or.inl hoff

theorem Inv.takeThread {s : St} (h : Inv s) (next : Option Track) (hclient : s.client = .takeThread next) :
    Inv (clientStep s) := by
  have hstage := h.stage
  have hstopped := h.stopped
  rw [hclient] at hstage hstopped
  simp only [clientStep, hclient]
  cases s.thread with
  | none => exact h.underway h.one h.fed h.front hstage rfl hstopped
  | some i =>
    refine h.underway (one_interrupt h.one i) (fun t ht => ?_) h.front hstage rfl hstopped
    rcases interrupt_mem ht with ht | ⟨t₀, ht₀, rfl⟩
    · exact h.fed t ht
    · exact (h.fed t₀ ht₀).interrupt hstage

theorem Inv.clear {s : St} (h : Inv s) (next : Option Track) (hclient : s.client = .clear next)
    (hquiet : AllQuiet s.threads) : Inv (clientStep s) := by
  have hoff := h.stage
  have hstopped := h.stopped
  rw [hclient] at hoff hstopped
  have hfront : s.got ++ s.shared.ring.clear.contents <+: s.file := by
    rw [Ring.contents_clear, List.append_nil]
    exact (List.prefix_append _ _).trans h.front
  have hfed : ∀ t ∈ s.threads, Fed { s.shared with ring := s.shared.ring.clear } s.file s.got t :=
    fun t ht => fed_quiet (hquiet t ht) hoff
  simp only [clientStep, hclient]
  cases next with
  | some track =>
    exact h.underway h.one hfed hfront ⟨hoff, Ring.contents_clear _, hquiet⟩ rfl fun hs => Bool.noConfusion hs
  | none =>
    have hplaying : s.playing = false := hstopped rfl
    have hdead : ∀ {p : Prop}, s.playing = true → p := fun hp => absurd (hplaying.symm.trans hp) Bool.false_ne_true
    exact ⟨h.one, hfed, hfront, trivial, fun hs => Bool.noConfusion hs, fun ht => Bool.noConfusion ht,
      fun hl => hdead hl.1, fun hl => hdead hl.1, h.past, fun hl => hdead hl.1, h.ends, h.once⟩

/-- a track that failed to open has nothing to read -/
theorem Inv.openFailed {s : St} (h : Inv s) (hclient : s.client = .openSound none) : Inv (clientStep s) := by
  have hstage := h.stage
  rw [hclient] at hstage
  obtain ⟨hoff, hempty, hquiet, -⟩ := hstage
  simp only [clientStep, hclient]
  refine ⟨h.one, fun t ht => fed_quiet (hquiet t ht) hoff, ?_, trivial, fun hs => Bool.noConfusion hs,
    fun ht => Bool.noConfusion ht, fun _ => Or.inr hquiet, fun _ _ => ?_, fun e he => (h.past e he).trans (Nat.le_succ _),
    fun _ _ e he => Nat.lt_succ_of_le (h.past e he), h.ends, h.once⟩
  · show [] ++ s.shared.ring.contents <+: []
    rw [hempty]
    exact List.prefix_rfl
  · show [] = [] ++ s.shared.ring.contents
    rw [hempty]
    rfl

/-- the new thread has all of its file before it -/
theorem Inv.startThread {s : St} (h : Inv s) {sound : Sound} (hclient : s.client = .startThread sound) :
    Inv (clientStep s) := by
  have hstage := h.stage
  rw [hclient] at hstage
  obtain ⟨hon, hempty, hended, heof⟩ := hstage
  simp only [clientStep, hclient]
  refine ⟨?_, fun t ht => ?_, ?_, trivial, fun hs => Bool.noConfusion hs, fun ht => Bool.noConfusion ht,
    fun _ => Or.inl hon, fun _ he => ?_,
    fun e he => (h.past e he).trans (Nat.le_succ _), fun _ _ e he => Nat.lt_succ_of_le (h.past e he), h.ends, h.once⟩
  · rw [List.pairwise_append]
    refine ⟨h.one, List.pairwise_singleton _ _, fun a ha _ _ => hended a ha⟩
  · rcases List.mem_append.1 ht with ht | ht
    · exact fed_ended (hended t ht)
    · rw [List.mem_singleton.1 ht]
      refine ⟨fun _ => ?_, ?_, ?_, fun hi => Bool.noConfusion hi⟩
      · simp [hempty, Pc.pending]
      · rintro (hp | hp) <;> cases hp
      · rintro - (hp | hp | hp) <;> cases hp
  · show [] ++ s.shared.ring.contents <+: sound.pcm
    rw [hempty]
    exact List.nil_prefix
  · exact absurd (heof.symm.trans he) Bool.false_ne_true

/-- an end is declared with the ring empty and the file written in full -/
theorem Inv.tickRoom {s : St} (h : Inv s) {next : Option Track} (hclient : s.client = .tickRoom next) :
    Inv (clientStep s) := by
  have heof := h.stage
  have hplaying := h.ticked
  rw [hclient] at heof hplaying
  replace hplaying : s.playing = true := hplaying rfl
  have hcalm : s.client.calm = true := by rw [hclient]; rfl
  simp only [clientStep, hclient]
  split_ifs with hend
  · obtain ⟨hcount, -, hhandled⟩ := hend
    have hempty : s.shared.ring.contents = [] := (Ring.contents_eq_nil_iff _).2 hcount
    have hfile : s.file = s.got := by
      have hdrained := h.drained ⟨hplaying, hcalm⟩ heof
      rwa [hempty, List.append_nil] at hdrained
    refine Inv.goOn (s := { s with eofHandled := true, ends := s.ends ++ [⟨s.track, s.file, s.got⟩] })
      ⟨h.one, h.fed, h.front, h.stage, h.stopped, h.ticked, h.live, h.drained, fun e he => ?_,
        fun _ hh => Bool.noConfusion hh, fun e he => ?_, ?_⟩ next
    · rcases List.mem_append.1 he with he | he
      · exact h.past e he
      · rw [List.mem_singleton.1 he]
    · rcases List.mem_append.1 he with he | he
      · exact h.ends e he
      · rw [List.mem_singleton.1 he]
        exact hfile.symm
    · rw [List.map_append, List.nodup_append]
      refine ⟨h.once, List.nodup_singleton _, fun a ha b hb hab => ?_⟩
      obtain ⟨e, he, rfl⟩ := List.mem_map.1 ha
      rw [List.map_singleton, List.mem_singleton] at hb
      exact absurd (hab.trans hb) (Nat.ne_of_lt (h.fresh ⟨hplaying, hcalm⟩ hhandled e he))
  · exact h.calm hcalm trivial rfl fun ht => Bool.noConfusion ht

theorem Inv.client {s : St} (h : Inv s) (hwaited : Waited s .client) : Inv (clientStep s) := by
  have hstage := h.stage
  have hstopped := h.stopped
  have hticked := h.ticked
  cases hclient : s.client with
  | idle =>
    rw [clientStep, hclient]
    exact h
  | runningOff next =>
    rw [hclient] at hstopped
    simp only [clientStep, hclient]
    exact h.underway h.one (fun t ht => (h.fed t ht).off) h.front rfl rfl hstopped
  | takeThread next => exact h.takeThread next hclient
  | join next =>
    rw [hclient] at hstage hstopped
    simp only [clientStep, hclient]
    exact h.underway h.one h.fed h.front hstage rfl hstopped
  | clear next =>
    simp only [Waited, hclient, Client.waits] at hwaited
    exact h.clear next hclient hwaited
  | eofOff track =>
    rw [hclient] at hstage
    obtain ⟨hoff, hempty, hquiet⟩ := hstage
    simp only [clientStep, hclient]
    exact h.underway h.one (fun t ht => fed_quiet (hquiet t ht) hoff) h.front ⟨hoff, hempty, hquiet, rfl⟩ rfl
      fun hs => Bool.noConfusion hs
  | errorOff track =>
    rw [hclient] at hstage
    obtain ⟨hoff, hempty, hquiet, heof⟩ := hstage
    simp only [clientStep, hclient]
    exact h.underway h.one (fun t ht => fed_quiet (hquiet t ht) hoff) h.front ⟨hoff, hempty, hquiet, heof⟩ rfl
      fun hs => Bool.noConfusion hs
  | openSound track =>
    cases track with
    | none => exact h.openFailed hclient
    | some sound =>
      rw [hclient] at hstage
      simp only [clientStep, hclient]
      exact h.underway h.one h.fed h.front hstage rfl fun hs => Bool.noConfusion hs
  | runningOn sound =>
    rw [hclient] at hstage
    obtain ⟨-, hempty, -, heof⟩ := hstage
    simp only [Waited, hclient, Client.waits] at hwaited
    simp only [clientStep, hclient]
    exact h.underway h.one (fun t ht => fed_ended (hwaited t ht)) h.front ⟨rfl, hempty, hwaited, heof⟩ rfl
      fun hs => Bool.noConfusion hs
  | startThread sound => exact h.startThread hclient
  | tickError next =>
    rw [hclient] at hticked
    have hcalm : s.client.calm = true := by rw [hclient]; rfl
    simp only [clientStep, hclient]
    split_ifs
    · exact h.goOn none
    · exact h.calm hcalm trivial rfl hticked
  | tickEof next =>
    rw [hclient] at hticked
    have hcalm : s.client.calm = true := by rw [hclient]; rfl
    simp only [clientStep, hclient]
    split_ifs with heof
    · exact h.calm hcalm heof rfl hticked
    · exact h.calm hcalm trivial rfl fun ht => Bool.noConfusion ht
  | tickRoom next => exact h.tickRoom hclient

theorem step_inv (s : St) (o : Op) (hwaited : Waited s o) (h : Inv s) : Inv (step s o) := by
  cases o with
  | client => exact h.client hwaited
  | decode i wake => exact h.decode i wake
  | read len => exact h.read len
  | play | stop | pause | resume | tick =>
    simp only [step]
    split_ifs with hidle
    · exact h.call _ hidle
    · exact h

/-! ## Runs -/

theorem Inv.carries {s : St} (h : Inv s) : Carries s where
  read := (List.prefix_append _ _).trans h.front
  writer := by
    intro i t hi hwrites
    refine newest h.one hi fun hpc => ?_
    rw [hpc] at hwrites
    exact hwrites
  ended := h.ends
  once := h.once

/-- **The ring carries the current track.** In every run in which the ring is only cleared once each decode thread is quiet,
and `running` only set once each has ended, what was read since the last `open` is a prefix of its file's PCM, only the
newest thread writes, and the end of a track is declared once, after every byte of it was read. -/
theorem ring_carries (ops : List Op) (hwaited : Meets step Waited start ops) : Carries (run step start ops) :=
  (run_invariant step step_inv hwaited inv_start).carries

/-- the statements of `stop` and `open` up to the start of the thread -/
def opening : List Op := List.replicate 9 .client

def threadRun (i n : ℕ) : List Op := List.replicate n (.decode i .done)

/-- A track of three bytes, played to its declared end, and the next one; the sound thread reads as it comes. -/
def waitedRun : List Op :=
  .play (some ⟨[1, 2, 3], false⟩) :: opening ++ threadRun 0 6 ++ [.read 2] ++ threadRun 0 7 ++ [.read 2] ++
    .tick true (some (some ⟨[4], false⟩)) :: List.replicate 3 .client ++ opening ++ threadRun 1 6 ++ [.read 9]

/-- The first thread is reading its file while the wait for it ends, and takes the next track's `running` for its own. -/
def staleRun : List Op :=
  .play (some ⟨[1], false⟩) :: opening ++ threadRun 0 2 ++ .play (some ⟨[2], false⟩) :: opening ++ threadRun 0 3 ++ [.read 9]

instance (threads : List DecodeThread) (client : Client) : Decidable (client.waits threads) :=
  match client with
  | .clear _ => inferInstanceAs (Decidable (∀ t ∈ threads, t.pc.quiet = true))
  | .runningOn _ => inferInstanceAs (Decidable (∀ t ∈ threads, t.pc = .ended))
  | .idle | .runningOff _ | .takeThread _ | .join _ | .eofOff _ | .errorOff _ | .openSound _ | .startThread _
  | .tickError _ | .tickEof _ | .tickRoom _ => isTrue trivial

instance (s : St) (o : Op) : Decidable (Waited s o) :=
  match o with
  | .client => inferInstanceAs (Decidable (s.client.waits s.threads))
  | .play .. | .stop | .pause | .resume | .tick .. | .decode .. | .read .. => isTrue trivial

theorem ring_carries_sample :
    (run step start waitedRun).got = [4] ∧ (run step start waitedRun).ends = [⟨1, [1, 2, 3], [1, 2, 3]⟩] ∧
      Carries (run step start waitedRun) :=
  ⟨by decide, by decide, ring_carries waitedRun (by decide)⟩

/-- A byte of the first track is read as the second's. -/
theorem stale_bytes : ¬ Carries (run step start staleRun) := by
  intro h
  have hread := h.read
  revert hread
  decide

end EspectralClient.MediaDecoder
