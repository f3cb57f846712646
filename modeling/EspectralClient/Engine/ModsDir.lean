/-
The mods directory as the list of its file names, what the mod code accepts as a name, and `set_mod_enabled`: a mod is
switched off by renaming `<base>.jar` to `<base>.jar.disabled` and on by renaming it back.

- `mem_put`, `mem_del`: what a download and a removal leave.
- `setModEnabled_off`, `setModEnabled_error`: switching a mod off only moves its jar, when it is there.
-/
import EspectralClient.Engine.Modrinth

namespace EspectralClient.ModsDir

open Modrinth

/-! ## Names -/

/-- `char::is_control` -/
def isControl (c : Char) : Bool := c.toNat < 32 || (127 ≤ c.toNat && c.toNat < 160)

/-- `char::is_whitespace` -/
def isWhitespace (c : Char) : Bool :=
  (9 ≤ c.toNat && c.toNat ≤ 13) || (8192 ≤ c.toNat && c.toNat ≤ 8202) ||
    [32, 133, 160, 5760, 8232, 8233, 8239, 8287, 12288].contains c.toNat

def asciiAlphanumeric (c : Char) : Bool :=
  ('0' ≤ c && c ≤ '9') || ('a' ≤ c && c ≤ 'z') || ('A' ≤ c && c ≤ 'Z')

def utf16Length (s : String) : ℕ := (s.toList.map fun c => if c.toNat < 65536 then 1 else 2).sum

def containsStr (part s : String) : Bool := decide (part.toList <:+: s.toList)

def startsWith (start s : String) : Bool := start.toList.isPrefixOf s.toList

/-- a file name every OS stores as-is -/
def isPortableSegment (s : String) : Bool :=
  if endsWith "." s || endsWith " " s then false
  else if s.toList.any fun c => isControl c || [':', '<', '>', '"', '|', '?', '*'].contains c then false
  else
    let stem := (((s.toList.takeWhile (· ≠ '.')).reverse.dropWhile isWhitespace).reverse).map Char.toUpper
    let numbered := fun start : List Char =>
      start.isPrefixOf stem &&
        match stem.drop start.length with
        | [c] => ('1' ≤ c && c ≤ '9') || ['¹', '²', '³'].contains c
        | _ => false
    let device := ["CON", "PRN", "AUX", "NUL", "CONIN$", "CONOUT$"].any (fun d => d.toList = stem) ||
      numbered "COM".toList || numbered "LPT".toList
    !device

/-- an absolute path has a separator or a colon, which are refused before it is asked about -/
def assertSafePinnedFileName (name label : String) : Except CodeErr String :=
  let bad := name = "" || containsStr ".." name || name.toList.contains '/' || name.toList.contains '\\' ||
    startsWith "." name || !isPortableSegment name
  if bad then .error ⟨400, "invalid_filename", label ++ " pins an unsafe filename: " ++ name⟩ else .ok name

def safeDownloadName (f : Json) : Except CodeErr String := assertSafePinnedFileName (fileName f) "Modrinth file"

/-- `<base>` of a safe mod filename -/
def assertSafeFilename (filename : String) : Except CodeErr String :=
  let bad : CodeErr := ⟨400, "invalid_filename", "invalid mod filename: " ++ filename⟩
  let ok := fun b : String => b ≠ "" && utf16Length b ≤ 120 && !containsStr ".." b &&
    b.toList.all fun c => asciiAlphanumeric c || " _.+@-".toList.contains c
  if endsWith ".jar.disabled" filename then
    let b := stripSuffix ".jar.disabled" filename
    if ok b then .ok b else .error bad
  else if endsWith ".jar" filename then
    let b := stripSuffix ".jar" filename
    if ok b then .ok b else .error bad
  else .error bad

def isBrandJar (f : String) : Bool :=
  let l := String.ofList (f.toList.map Char.toLower)
  (startsWith "espectral-menu-" l || startsWith "espectral-brand-" l) && (endsWith ".jar" l || endsWith ".jar.disabled" l)

/-! ## Files -/

/-- a file is written or renamed over a name -/
def put (name : String) (d : List String) : List String := if name ∈ d then d else d ++ [name]

def putAll (names d : List String) : List String := names.foldl (fun d name => put name d) d

def del (name : String) (d : List String) : List String := d.filter fun f => f ≠ name

@[simp] theorem mem_put {name f : String} {d : List String} : f ∈ put name d ↔ f = name ∨ f ∈ d := by
  unfold put
  split_ifs with h
  · exact ⟨Or.inr, fun hf => hf.elim (fun e => e ▸ h) id⟩
  · simp [or_comm]

@[simp] theorem mem_putAll {names : List String} {f : String} {d : List String} :
    f ∈ putAll names d ↔ f ∈ names ∨ f ∈ d := by
  induction names generalizing d with
  | nil => simp [putAll]
  | cons name names ih =>
    have h := ih (d := put name d)
    unfold putAll at h ⊢
    rw [List.foldl_cons, h, mem_put, List.mem_cons]
    tauto

@[simp] theorem mem_del {name f : String} {d : List String} : f ∈ del name d ↔ f ∈ d ∧ f ≠ name := by
  simp [del]

/-! ## Switching a mod on and off -/

def setModEnabled (d : List String) (filename : String) (enabled : Bool) : Except CodeErr (List String) :=
  match assertSafeFilename filename with
  | .error e => .error e
  | .ok base =>
    let jar := base ++ ".jar"
    let disabled := base ++ ".jar.disabled"
    let src := if enabled then disabled else jar
    let dst := if enabled then jar else disabled
    if src ∉ d ∧ dst ∉ d then .error ⟨404, "mod_not_found", "mod not found: " ++ filename⟩
    else if src ∈ d then .ok (put dst (del src d))
    else .ok d

/-- the base of the jar that switching `filename` off renames, when that jar is there -/
def shelved (d : List String) (filename : String) : Option String :=
  match assertSafeFilename filename with
  | .error _ => none
  | .ok base => if base ++ ".jar" ∈ d then some base else none

/-- switching a mod off moves the jar of its base and no other file -/
theorem setModEnabled_off {d d' : List String} {filename : String} (h : setModEnabled d filename false = .ok d') :
    d' = match shelved d filename with
      | none => d
      | some base => put (base ++ ".jar.disabled") (del (base ++ ".jar") d) := by
  unfold setModEnabled at h
  unfold shelved
  cases hbase : assertSafeFilename filename with
  | error e => rw [hbase] at h; cases h
  | ok base =>
    rw [hbase] at h
    simp only [Bool.false_eq_true, if_false] at h ⊢
    split_ifs at h with hnone hsrc <;> cases h
    · rw [if_pos hsrc]
    · rw [if_neg hsrc]

theorem setModEnabled_error {d : List String} {filename : String} {e : CodeErr}
    (h : setModEnabled d filename false = .error e) : shelved d filename = none := by
  unfold setModEnabled at h
  unfold shelved
  cases hbase : assertSafeFilename filename with
  | error e => rfl
  | ok base =>
    rw [hbase] at h
    simp only [Bool.false_eq_true, if_false] at h ⊢
    split_ifs at h with hnone
    rw [if_neg hnone.1]

end EspectralClient.ModsDir
