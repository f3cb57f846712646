/-
What an imported modpack is called and where its files may go (`native/engine/src/mrpack.rs`).

- `sanitizePackName`, `uniqueInstanceName`: a pack's name made into an instance's, and a variant of it that is not taken.
  The counter of the variants is an `i32`; `none` is the counter running over.
- `safeJoin`: a path of the pack under the instance's folder. What a refusal says quotes the path that was asked for;
  which refusal it is depends on the path with `\` read as `/` alone.
- `push`: joining a path to a folder as the two families of systems do it, where a path with a drive or a root replaces
  what it is joined to.

Texts are lowered by `toLowercase`, which is the table of ASCII on ASCII texts; what the Unicode tables answer on others is
a parameter.
-/
import EspectralClient.Engine.Instances

namespace EspectralClient.Mrpack

open Modrinth (CodeErr)
open ModsDir (asciiAlphanumeric isWhitespace isPortableSegment)

/-! ## Names -/

/-- `trim_matches` -/
def trimMatches (p : Char → Bool) (cs : List Char) : List Char := List.rdropWhile p (cs.dropWhile p)

def splitWhitespace (cs : List Char) : List (List Char) := (cs.splitOnP isWhitespace).filter fun w => w ≠ []

def nameChar (c : Char) : Bool := asciiAlphanumeric c || c = ' ' || c = '.' || c = '_' || c = '-'

def fallbackName : List Char := "Modpack".toList

/-- trimmed, blanks collapsed, other characters left out, no dots at the edges, at most 40 characters -/
def sanitizePackName (name : Option String) : String :=
  let collapsed := [' '].intercalate (splitWhitespace (name.getD "").toList)
  let kept := collapsed.filter nameChar
  let cleaned := trimMatches isWhitespace (trimMatches (fun c => c = '.') kept)
  let cleaned := if cleaned.all fun c => c = '.' then fallbackName else cleaned
  String.ofList (cleaned.take 40)

/-- `str::to_lowercase`; `tables` answers for a text that is not ASCII -/
def toLowercase (tables : List Char → List Char) (s : String) : List Char :=
  if s.toList.all fun c => c.toNat < 128 then s.toList.map Char.toLower else tables s.toList

/-- `format!("{base}-{i}")` -/
def suffixed (base : String) (i : ℕ) : String := String.ofList (base.toList ++ '-' :: Nat.toDigits 10 i)

/-- the first number from `i` on that passes, if there is one before the counter runs over -/
def firstFrom (p : ℕ → Bool) : ℕ → ℕ → Option ℕ
  | 0, _ => none
  | left + 1, i => if p i then some i else firstFrom p left (i + 1)

/-- the numbers of the variants, from 2 to the largest `i32` -/
def counterMax : ℕ := 2 ^ 31 - 1

/-- base, base-2, base-3, … -/
def uniqueInstanceName (tables : List Char → List Char) (base : String) (existing : List String) : Option String :=
  let lower := existing.map (toLowercase tables)
  if !lower.contains (toLowercase tables base) then some base
  else
    (firstFrom (fun i => !lower.contains (toLowercase tables (suffixed base i))) (counterMax - 1) 2).map (suffixed base)

/-! ## Paths -/

inductive Os where
  | unix
  | windows
deriving DecidableEq, Repr

/-- a drive or a share (empty on unix), whether a root follows, and the names below -/
structure Path where
  pre : String
  rooted : Bool
  names : List String
deriving DecidableEq, Repr

def isSeparator (os : Os) (c : Char) : Bool := c = '/' || (os = .windows && c = '\\')

/-- the drive letter that a Windows path begins with, and what follows it -/
def splitDrive (os : Os) : List Char → String × List Char
  | d :: ':' :: rest => if os = .windows ∧ d.isAlpha then (String.ofList [d, ':'], rest) else ("", d :: ':' :: rest)
  | cs => ("", cs)

/-- the components of a text; empty ones and `.` are none -/
def parse (os : Os) (s : String) : Path :=
  let (pre, rest) := splitDrive os s.toList
  { pre := pre
    rooted := rest.head?.any (isSeparator os)
    names := ((rest.splitOnP (isSeparator os)).map String.ofList).filter fun n => n ≠ "" ∧ n ≠ "." }

/-- `PathBuf::push` -/
def push (os : Os) (base : Path) (s : String) : Path :=
  let p := parse os s
  if p.pre ≠ "" then p
  else if p.rooted then { p with pre := base.pre }
  else { base with names := base.names ++ p.names }

def startsWith (p base : Path) : Bool :=
  p.pre = base.pre && p.rooted = base.rooted && base.names.isPrefixOf p.names

/-! ## Path safety -/

inductive Refusal where
  | empty
  | absolute
  | escapes
  | badName
deriving DecidableEq, Repr

def badPath (rel : String) : Refusal → CodeErr
  | .empty => ⟨400, "BAD_PATH", "la ruta dentro del modpack está vacía"⟩
  | .absolute => ⟨400, "BAD_PATH", "ruta absoluta no permitida dentro del modpack: '" ++ rel ++ "'"⟩
  | .escapes => ⟨400, "BAD_PATH", "la ruta '" ++ rel ++ "' se sale del directorio de la instancia"⟩
  | .badName => ⟨400, "BAD_PATH", "nombre no permitido dentro del modpack: '" ++ rel ++ "'"⟩

/-- `\` read as `/` -/
def normal (rel : String) : List Char := rel.toList.map fun c => if c = '\\' then '/' else c

def segments (norm : List Char) : List String :=
  ((norm.splitOn '/').map String.ofList).filter fun s => s ≠ "" ∧ s ≠ "."

/-- the segments joined one after another -/
def joinAll (os : Os) : List String → Path → Except Refusal Path
  | [], out => .ok out
  | s :: rest, out =>
    if s = ".." then .error .escapes
    else if !isPortableSegment s then .error .badName
    else joinAll os rest (push os out s)

def verdict (os : Os) (base : Path) (norm : List Char) : Except Refusal Path :=
  if norm = [] then .error .empty
  else if norm.head? = some '/' then .error .absolute
  else if segments norm = [] then .error .empty
  else
    match joinAll os (segments norm) base with
    | .error r => .error r
    | .ok out => if startsWith out base then .ok out else .error .escapes

def safeJoin (os : Os) (base : Path) (rel : String) : Except CodeErr Path :=
  (verdict os base (normal rel)).mapError (badPath rel)

end EspectralClient.Mrpack
