/-
The refresh of the country table (`native/engine/src/geoip.rs`): which table `meta.json` points at, and the download
that replaces it.

- `tablePath`: the table a launch may advertise.
- `refreshFrom`: the folder after each of its file operations, in order, with the result. A run that is cut between two
  of them leaves one of these folders.
- `validTableName_tableName`: the name a refresh gives to a table is one that `tablePath` accepts exactly when its month
  is one.

The gzip decoder and the JSON form of `GeoMeta` are parameters; of the second it is assumed that what is written is read
back. Every file operation may fail, and `write_private` replaces its file as a whole or not at all.
-/
import EspectralClient.Engine.GeoIndex

namespace EspectralClient.GeoRefresh

open EspectralClient.Geoip EspectralClient.Lib

abbrev Bytes := List UInt8

/-! ## The folder -/

/-- what the folder holds under a name: a file and when it was changed, or something that is no readable file -/
inductive Entry where
  | file (bytes : Bytes) (modified : Option ℤ)
  | other
deriving DecidableEq

/-- `cache/geoip/` -/
abbrev Dir := String → Option Entry

structure GeoMeta where
  month : String
  file : String
  source : String
  refreshedAt : String
  v4Ranges : UInt64
  v6Ranges : UInt64
  countries : UInt64
  bytes : UInt64
deriving DecidableEq, Repr

/-- `meta.json` as `serde_json` writes and reads it -/
structure Serde where
  parse : Bytes → Option GeoMeta
  print : GeoMeta → Bytes
  parse_print : ∀ m, parse (print m) = some m

def metaFile : String := "meta.json"

/-! ## Names -/

def isDigit (c : Char) : Bool := '0' ≤ c ∧ c ≤ '9'

def digitVal (c : Char) : ℕ := c.toNat - '0'.toNat

def isMonth (s : List Char) : Bool :=
  match s with
  | [y₀, y₁, y₂, y₃, dash, m₀, m₁] =>
    isDigit y₀ && isDigit y₁ && isDigit y₂ && isDigit y₃ && dash = '-' && isDigit m₀ && isDigit m₁ &&
      1 ≤ digitVal m₀ * 10 + digitVal m₁ && digitVal m₀ * 10 + digitVal m₁ ≤ 12
  | _ => false

def validTableName (name : String) : Bool :=
  match name.toList.dropPrefix? "countries-".toList with
  | none => false
  | some rest => match rest.dropSuffix? ".bin".toList with
    | none => false
    | some month => isMonth month

/-- `format!("countries-{month}.bin")` -/
def tableName (month : String) : String := "countries-" ++ month ++ ".bin"

/-! ## The clock -/

/-- an instant: its second, the year and month of its date, and its RFC 3339 text -/
structure DateTime where
  timestamp : ℤ
  year : ℤ
  month : ℕ
  rfc3339 : String
  month_range : 1 ≤ month ∧ month ≤ 12

/-- the first year whose dates `chrono` has -/
def minYear : ℤ := -262143

def digit (n : ℕ) : Char := Nat.digitChar (n % 10)

/-- `%Y`: four digits, and beyond them a sign -/
def yearText (year : ℤ) : List Char :=
  if 0 ≤ year ∧ year ≤ 9999 then
    let y := year.toNat
    [digit (y / 1000), digit (y / 100), digit (y / 10), digit y]
  else
    let digits := (toString year.natAbs).toList
    (if 0 ≤ year then '+' else '-') :: (List.replicate (4 - digits.length) '0' ++ digits)

/-- `%Y-%m` -/
def monthText (year : ℤ) (month : ℕ) : List Char := yearText year ++ ['-', digit (month / 10), digit month]

def monthKey (now : DateTime) : String := .ofList (monthText now.year now.month)

/-- the key of `now.checked_sub_months(1)`, or of `now` where there is no such date -/
def previousKey (now : DateTime) : String :=
  if 1 < now.month then .ofList (monthText now.year (now.month - 1))
  else if minYear < now.year then .ofList (monthText (now.year - 1) 12)
  else monthKey now

/-! ## The current table -/

section Refresh

variable (S : Serde)

def readMeta (d : Dir) : Option GeoMeta :=
  match d metaFile with
  | some (.file bytes _) => S.parse bytes
  | _ => none

/-- a file whose header agrees with its size -/
def wellSized (bytes : Bytes) : Bool :=
  !decide (bytes.length < headerLen) &&
    match parseHeader (bytes.take headerLen) with
    | .ok (h, _) => h.totalLen = bytes.length
    | .error _ => false

def tablePath (d : Dir) : Option String :=
  match readMeta S d with
  | none => none
  | some m =>
    if !validTableName m.file then none
    else
      match d m.file with
      | some (.file bytes _) => if wellSized bytes then some m.file else none
      | _ => none

/-! ## Building a table -/

inductive FetchError where
  | status (code : ℕ)
  | other (text : String)
deriving DecidableEq, Repr

inductive RefreshError where
  | fetch (e : FetchError)
  | io
  | other (text : String)
deriving DecidableEq, Repr

/-- `decoder` reads at most `maxCsvBytes + 1` bytes of text -/
def gunzip (decoder : Bytes → Except String String) (data : Bytes) : Except String String :=
  match decoder data with
  | .error e => .error ("could not gunzip the CSV: " ++ e)
  | .ok csv => if maxCsvBytes < csv.utf8ByteSize then .error "uncompressed CSV is implausibly large" else .ok csv

variable (decoder : Bytes → Except String String)

def build (gz : Bytes) (source : String) : Except String (Bytes × GeoTable) :=
  match gunzip decoder gz with
  | .error e => .error (source ++ ": " ++ e)
  | .ok csv =>
    let table := parseCsv csv
    if table.v4 = [] ∨ table.v6 = [] then
      .error (source ++ ": no usable ranges (" ++ toString table.v4.length ++ " v4, " ++ toString table.v6.length ++
        " v6)")
    else
      match encode table with
      | .error e => .error (source ++ ": " ++ e)
      | .ok bytes => .ok (bytes, table)

/-! ## One refresh -/

/-- what happens outside during one refresh: the answers to at most two requests, the outcome of each file operation,
when the new table was written, and the names that the final listing gives, with whether each can be deleted -/
structure Events where
  first : Except FetchError Bytes
  second : Except FetchError Bytes
  dirOk : Bool
  tableOk : Bool
  metaOk : Bool
  written : Option ℤ
  listing : List (String × Bool)

def maxAgeSecs : ℤ := 35 * 24 * 60 * 60

def ageSecs (d : Dir) (name : String) (now : DateTime) : Option ℤ :=
  match d name with
  | some (.file _ modified) => modified.map fun t => now.timestamp - t
  | _ => none

/-- `write_private`: nothing but a file is replaced -/
def writePrivate (d : Dir) (name : String) (bytes : Bytes) (modified : Option ℤ) (ok : Bool) : Option Dir :=
  if ok = true ∧ d name ≠ some .other then some (Function.update d name (some (.file bytes modified))) else none

/-- the folder after each deletion -/
def pruneTables (keep : String) (d : Dir) : List (String × Bool) → List Dir
  | [] => []
  | (name, ok) :: rest =>
    if name ≠ keep ∧ validTableName name = true ∧ ok = true then
      Function.update d name none :: pruneTables keep (Function.update d name none) rest
    else pruneTables keep d rest

def usable (d : Dir) (now : DateTime) : Bool :=
  (tablePath S d).any fun file => (ageSecs d file now).any fun a => a ≤ maxAgeSecs

def existing (d : Dir) (now : DateTime) : Option GeoMeta := if usable S d now then readMeta S d else none

def sourceOf (base month : String) : String := base ++ "/dbip-country-lite-" ++ month ++ ".csv.gz"

/-- the month whose release is taken, with its bytes; `.inl` ends the refresh with its result -/
def download (current previous : String) (held : Option GeoMeta) (ev : Events) :
    Except RefreshError Unit ⊕ (String × Bytes) :=
  match ev.first with
  | .ok gz => .inr (current, gz)
  | .error e =>
    if e = .status 404 then
      if held.any fun m => m.month = previous then .inl (.ok ())
      else if previous = current then .inl (.error (.fetch e))
      else
        match ev.second with
        | .ok gz => .inr (previous, gz)
        | .error e => .inl (.error (.fetch e))
    else if held.isSome then .inl (.ok ())
    else .inl (.error (.fetch e))

def newMeta (base month : String) (now : DateTime) (bytes : Bytes) (table : GeoTable) : GeoMeta :=
  ⟨month, tableName month, sourceOf base month, now.rfc3339, .ofNat table.v4.length, .ofNat table.v6.length,
    .ofNat table.countries.length, .ofNat bytes.length⟩

/-- the table file, then the pointer to it, then the old tables -/
def install (base month : String) (now : DateTime) (d : Dir) (ev : Events) (bytes : Bytes) (table : GeoTable) :
    List Dir × Except RefreshError Unit :=
  match writePrivate d (tableName month) bytes ev.written ev.tableOk with
  | none => ([d], .error .io)
  | some d₁ =>
    match writePrivate d₁ metaFile (S.print (newMeta base month now bytes table)) ev.written ev.metaOk with
    | none => ([d, d₁], .error .io)
    | some d₂ => (d :: d₁ :: d₂ :: pruneTables (tableName month) d₂ ev.listing, .ok ())

/-- the folder at every point of the refresh, from before it to after it, and its result -/
def refreshFrom (base : String) (now : DateTime) (d : Dir) (ev : Events) : List Dir × Except RefreshError Unit :=
  if !ev.dirOk then ([d], .error .io)
  else if (existing S d now).any fun m => m.month = monthKey now then ([d], .ok ())
  else
    match download (monthKey now) (previousKey now) (existing S d now) ev with
    | .inl result => ([d], result)
    | .inr (month, gz) =>
      match build decoder gz (sourceOf base month) with
      | .error e => ([d], .error (.other e))
      | .ok (bytes, table) => install S base month now d ev bytes table

end Refresh

/-! ## Names and months -/

theorem validTableName_tableName (month : String) : validTableName (tableName month) = isMonth month.toList := by
  have hlist : (tableName month).toList = "countries-".toList ++ (month.toList ++ ".bin".toList) := by
    rw [tableName, String.toList_append, String.toList_append, List.append_assoc]
  have hrest : (tableName month).toList.dropPrefix? "countries-".toList = some (month.toList ++ ".bin".toList) := by
    rw [hlist]
    exact List.dropPrefix?_append_of_beq _ (by decide)
  have hmonth : (month.toList ++ ".bin".toList).dropSuffix? ".bin".toList = some month.toList :=
    List.dropSuffix?_eq_some_iff.2 ⟨_, rfl, by decide⟩
  rw [validTableName, hrest]
  dsimp only
  rw [hmonth]

end EspectralClient.GeoRefresh
