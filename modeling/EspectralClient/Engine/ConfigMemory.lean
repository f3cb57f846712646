/-
The heap size that `config.json` gives (`native/engine/src/config.rs`): `ConfigStore::default_memory_mb`, and the view of
the whole document that the launcher's pages read, `ConfigStore::app_config`.

The stored number passes through `i64` and `u32`; `jsonInteger` of `Accounts` is the first step, `asU32` the second, and
it keeps the low 32 bits. The memory of the machine comes as bytes; as gigabytes it is a double, and dividing by a power
of two rounds nothing.

- `HeapRight`: the two readings agree, are no less than the floor, and are the stored integer or the recommended size.
- `heap_iff`: they are right exactly when the document holds no integer of 2 ^ 32 or more.
- `heap_wraps`: 4294967296 gives a heap of nothing.
-/
import EspectralClient.Engine.Accounts
import EspectralClient.Engine.Libraries

namespace EspectralClient.ConfigMemory

open Lib
open Accounts (jsonInteger)
open Libraries (jsonTruthy)

/-! ## Model -/

/-- the system's memory as gigabytes -/
def totalGb (totalBytes : ℕ) : ℚ := (Binary64.ofInt totalBytes : ℚ) / 1024 ^ 3

/-- `recommended_memory_mb_for`, on the bytes that the platform answers -/
def recommendedMemoryMb (totalBytes : ℕ) : ℕ :=
  if totalGb totalBytes ≤ 0 then 2048
  else if totalGb totalBytes ≤ 17 / 2 then 2048
  else if totalGb totalBytes ≤ 33 / 2 then 3072
  else 4096

/-- `as u32` -/
def asU32 (n : ℤ) : ℕ := (n % 2 ^ 32).toNat

def isTrue (v : Option Json) : Bool := (v.bind Json.asBool) = some true

def isFalse (v : Option Json) : Bool := (v.bind Json.asBool) = some false

def pinnedMemory (doc : IndexMap String Json) : Option ℤ :=
  ((doc.get? "default_memory_mb").bind jsonInteger).filter fun mb => 512 ≤ mb

/-- `ConfigStore::default_memory_mb`, on the loaded document -/
def defaultMemoryMb (totalBytes : ℕ) (doc : IndexMap String Json) : ℕ :=
  ((((doc.get? "default_memory_mb").bind jsonInteger).filter fun mb => 512 ≤ mb).map asU32).getD
    (recommendedMemoryMb totalBytes)

structure AppConfig where
  defaultMemoryMb : ℕ
  recommendedMemoryMb : ℕ
  defaultMemoryAuto : Bool
  accent : String
  reducedMotion : Bool
  closeOnGameStart : Bool
  downloadConcurrency : ℕ
  aotAutoTrain : Bool
  fastBoot : Bool
  fullbrightOnLaunch : Bool
  jdkPathOverride : Option String
  discordEnabled : Bool
  dataDir : String
deriving DecidableEq, Repr

/-- `ConfigStore::app_config`, on the loaded document -/
def appConfig (totalBytes : ℕ) (dataDir : String) (c : IndexMap String Json) : AppConfig where
  defaultMemoryMb := ((pinnedMemory c).map asU32).getD (recommendedMemoryMb totalBytes)
  recommendedMemoryMb := recommendedMemoryMb totalBytes
  defaultMemoryAuto := (pinnedMemory c).isNone
  accent := ((c.get? "accent").bind Json.asStr).getD "oro"
  reducedMotion := isTrue (c.get? "reduced_motion")
  closeOnGameStart := isTrue (c.get? "close_on_game_start")
  downloadConcurrency :=
    ((((c.get? "download_concurrency").bind jsonInteger).filter fun n => 0 < n).map asU32).getD 6
  aotAutoTrain := jsonTruthy (c.get? "aot_auto_train")
  fastBoot := isTrue (c.get? "fast_boot")
  fullbrightOnLaunch := isTrue (c.get? "fullbright_on_launch")
  jdkPathOverride := (c.get? "jdk_path_override").bind Json.asStr
  discordEnabled := !isFalse (c.get? "discord_enabled")
  dataDir := dataDir

/-! ## What is promised -/

/-- the integer that a JSON number is, of any size; 2048.0 is one -/
def integerOf : Json → Option ℤ
  | .int n => some n
  | .double bits => (Binary64.value bits).bind fun q => if q.den = 1 then some q.num else none
  | _ => none

def storedMemory (doc : IndexMap String Json) : Option ℤ := (doc.get? "default_memory_mb").bind integerOf

structure HeapRight (totalBytes : ℕ) (dataDir : String) (doc : IndexMap String Json) : Prop where
  same : (appConfig totalBytes dataDir doc).defaultMemoryMb = defaultMemoryMb totalBytes doc
  floor : 512 ≤ defaultMemoryMb totalBytes doc
  stored : ∀ n, storedMemory doc = some n → 512 ≤ n → (defaultMemoryMb totalBytes doc : ℤ) = n
  otherwise : (∀ n, storedMemory doc = some n → n < 512) →
    defaultMemoryMb totalBytes doc = recommendedMemoryMb totalBytes

/-! ## When it holds -/

theorem recommended_floor (totalBytes : ℕ) : 512 ≤ recommendedMemoryMb totalBytes := by
  unfold recommendedMemoryMb
  split_ifs <;> decide

/-- on its way through `i64` an integer is cut to the range of the type -/
theorem jsonInteger_eq (v : Json) :
    (integerOf v = none → jsonInteger v = none) ∧
      ∀ n, integerOf v = some n →
        ∃ m, jsonInteger v = some m ∧ (m = min n (2 ^ 63 - 1) ∨ m = max (-2 ^ 63) (min n (2 ^ 63 - 1))) := by
  cases v with
  | int n =>
    refine ⟨fun h => (by cases h), fun m h => ?_⟩
    cases h
    exact ⟨_, rfl, .inl rfl⟩
  | double bits =>
    have hread : jsonInteger (.double bits) = (integerOf (.double bits)).map fun n => max (-2 ^ 63) (min n (2 ^ 63 - 1)) := by
      change (Binary64.value bits).bind _ = ((Binary64.value bits).bind _).map _
      cases Binary64.value bits with
      | none => rfl
      | some q =>
        dsimp only [Option.bind_some]
        split_ifs <;> rfl
    rw [hread]
    refine ⟨fun h => by rw [h]; rfl, fun n h => ?_⟩
    rw [h]
    exact ⟨_, rfl, .inr rfl⟩
  | null => exact ⟨fun _ => rfl, fun n h => by cases h⟩
  | bool b => exact ⟨fun _ => rfl, fun n h => by cases h⟩
  | str s => exact ⟨fun _ => rfl, fun n h => by cases h⟩
  | arr items => exact ⟨fun _ => rfl, fun n h => by cases h⟩
  | obj fields => exact ⟨fun _ => rfl, fun n h => by cases h⟩

theorem pinnedMemory_eq (doc : IndexMap String Json) :
    (∀ n, storedMemory doc = some n → 512 ≤ n → pinnedMemory doc = some (min n (2 ^ 63 - 1))) ∧
      ((∀ n, storedMemory doc = some n → n < 512) → pinnedMemory doc = none) := by
  unfold storedMemory pinnedMemory
  cases hget : doc.get? "default_memory_mb" with
  | none => exact ⟨fun n h => (by cases h), fun _ => rfl⟩
  | some v =>
    dsimp only [Option.bind_some]
    obtain ⟨hnone, hsome⟩ := jsonInteger_eq v
    refine ⟨fun n h hn => ?_, fun h => ?_⟩
    · obtain ⟨m, hm, hcut⟩ := hsome n h
      have hmin : m = min n (2 ^ 63 - 1) := by omega
      rw [hm, Option.filter_some, if_pos (by simp; omega), hmin]
    · cases hinteger : integerOf v with
      | none => rw [hnone hinteger, Option.filter_none]
      | some n =>
        obtain ⟨m, hm, hcut⟩ := hsome n hinteger
        have hlt := h n hinteger
        rw [hm, Option.filter_some, if_neg (by simp; omega)]

theorem defaultMemoryMb_eq (totalBytes : ℕ) (doc : IndexMap String Json) :
    defaultMemoryMb totalBytes doc = ((pinnedMemory doc).map asU32).getD (recommendedMemoryMb totalBytes) := rfl

/-- an integer survives the two casts when it fits the smaller type -/
theorem asU32_min {n : ℤ} (hn : 512 ≤ n) : (asU32 (min n (2 ^ 63 - 1)) : ℤ) = n ↔ n < 2 ^ 32 := by
  unfold asU32
  omega

/-- **The heap size is right exactly when the document holds no integer of 2 ^ 32 or more.** A larger one is cut to its
low 32 bits, after the floor has been checked. -/
theorem heap_iff (totalBytes : ℕ) (dataDir : String) (doc : IndexMap String Json) :
    HeapRight totalBytes dataDir doc ↔ ∀ n, storedMemory doc = some n → n < 2 ^ 32 := by
  obtain ⟨hpinned, hfree⟩ := pinnedMemory_eq doc
  constructor
  · intro h n hn
    by_cases hsmall : n < 512
    · omega
    · have hfloor : 512 ≤ n := not_lt.1 hsmall
      have hstored := h.stored n hn hfloor
      rw [defaultMemoryMb_eq, hpinned n hn hfloor] at hstored
      exact (asU32_min hfloor).1 hstored
  · intro h
    have hstored : ∀ n, storedMemory doc = some n → 512 ≤ n → (defaultMemoryMb totalBytes doc : ℤ) = n := by
      intro n hn hfloor
      rw [defaultMemoryMb_eq, hpinned n hn hfloor]
      exact (asU32_min hfloor).2 (h n hn)
    have hother : (∀ n, storedMemory doc = some n → n < 512) →
        defaultMemoryMb totalBytes doc = recommendedMemoryMb totalBytes := by
      intro hsmall
      rw [defaultMemoryMb_eq, hfree hsmall]
      rfl
    refine ⟨rfl, ?_, hstored, hother⟩
    by_cases hsmall : ∀ n, storedMemory doc = some n → n < 512
    · rw [hother hsmall]
      exact recommended_floor totalBytes
    · push Not at hsmall
      obtain ⟨n, hn, hfloor⟩ := hsmall
      have hat := hstored n hn hfloor
      omega

/-- a document whose heap size is 4294967296 MB -/
def hugeMemory : IndexMap String Json := IndexMap.empty.insert "default_memory_mb" (.int 4294967296)

/-- the number passes the floor, and its low 32 bits are none -/
theorem heap_wraps :
    defaultMemoryMb (8 * 1024 ^ 3) hugeMemory = 0 ∧ ¬ HeapRight (8 * 1024 ^ 3) "/data" hugeMemory := by
  have hzero : defaultMemoryMb (8 * 1024 ^ 3) hugeMemory = 0 := by decide
  refine ⟨hzero, fun h => ?_⟩
  have hfloor := h.floor
  rw [hzero] at hfloor
  exact absurd hfloor (by decide)

end EspectralClient.ConfigMemory
