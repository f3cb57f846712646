/-
Server keys (`branding-mod/.../ruta/RutaProtocol.java`): the text under which the toggle of a server is stored, from an
address as it is typed and from the host and port of the resolver.

- `normalize`, `keyOf`, `hostOf`, `portOf`: the four functions; an exception is an error with its name.
- `Parts`: how an address is taken apart. `normalize_iff`: what it is made into.
- `keyOf_iff`: the key of a host and a port.
- `hostOf_plain`, `hostOf_v6`, `portOf_plain`, `portOf_v6`: the host and the port of a key.

`String.toLowerCase` is Unicode's; `LowerCase` is the function and what is used of it: a unit of ASCII is made lower case
where it stands, any other into letters or into units that are not ASCII, and a lower-case text stays as it is.
-/
import EspectralClient.Ruta.Protocol

namespace EspectralClient.RutaProtocol

open EspectralClient.Lib EspectralClient.Lib.JavaString

/-! ## Model -/

/-- what lower case makes of the units of a text -/
inductive Lowers : JavaString → JavaString → Prop
  | nil : Lowers [] []
  | ascii {c s t} : c < 0x80 → Lowers s t → Lowers (c :: s) (asciiLower c :: t)
  | other {c s t u} : ¬ c < 0x80 → u ≠ [] → (∀ d ∈ u, 0x80 ≤ d ∨ (0x61 ≤ d ∧ d ≤ 0x7a)) → Lowers s t →
      Lowers (c :: s) (u ++ t)

structure LowerCase where
  lower : JavaString → JavaString
  lowers : ∀ s, Lowers s (lower s)
  again : ∀ s t, t <:+: lower s → lower t = t

variable (L : LowerCase)

def dot : UInt16 := 0x2e

def colon : UInt16 := 0x3a

def lbracket : UInt16 := 0x5b

def rbracket : UInt16 := 0x5d

def defaultPort : ℤ := 25565

def trimDots (host : JavaString) : JavaString := List.rdropWhile (fun c => c = dot) host

/-- the loop over the digits -/
def digitsValue (text : JavaString) : ℕ := text.foldl (fun v c => v * 10 + (c.toNat - 0x30)) 0

def isDigit (c : UInt16) : Bool := 0x30 ≤ c && c ≤ 0x39

def parsePort (text : JavaString) : ℤ :=
  if text.length = 0 ∨ 5 < text.length then -1
  else if text.all isDigit = false then -1
  else if 1 ≤ digitsValue text ∧ digitsValue text ≤ 65535 then (digitsValue text : ℤ)
  else -1

/-- the host and the text of the port; `none` is a return of null -/
def splitAddress (text : JavaString) : Option (JavaString × Option JavaString) :=
  if text.head? = some lbracket then
    match indexOf rbracket text with
    | none => none
    | some close =>
      match text.drop (close + 1) with
      | [] => some ((text.take close).drop 1, none)
      | c :: portText => if c = colon then some ((text.take close).drop 1, some portText) else none
  else
    match indexOf colon text, lastIndexOf colon text with
    | some first, some last =>
      if first = last then some (text.take first, some (text.drop (first + 1))) else some (text, none)
    | _, _ => some (text, none)

/-- the port of a port's text -/
def portFrom : Option JavaString → ℤ
  | none => defaultPort
  | some [] => defaultPort
  | some (c :: text) => parsePort (c :: text)

/-- the last lines of `normalize` and of `keyOf` -/
def keyText (host : JavaString) (port : ℤ) : JavaString :=
  if port = defaultPort then if colon ∈ host then lbracket :: (host ++ [rbracket]) else host
  else if colon ∈ host then lbracket :: (host ++ rbracket :: colon :: decimal port.toNat)
  else host ++ colon :: decimal port.toNat

def normalize : Option JavaString → Option JavaString
  | none => none
  | some raw =>
    let text := trim raw
    if text = [] then none
    else
      match splitAddress text with
      | none => none
      | some (host, portText) =>
        let host := trimDots (L.lower host)
        if host = [] then none
        else if portFrom portText ≤ 0 then none
        else some (keyText host (portFrom portText))

/-- the brackets around a host -/
def unbracketed (h : JavaString) : JavaString :=
  if 1 < h.length ∧ h.head? = some lbracket ∧ h.getLast? = some rbracket then (h.take (h.length - 1)).drop 1 else h

def keyOf : Option JavaString → ℤ → Option JavaString
  | none, _ => none
  | some host, port =>
    let text := trim host
    if text = [] ∨ port < 1 ∨ 65535 < port then none
    else
      let h := unbracketed (trimDots (L.lower text))
      if h = [] then none else some (keyText h port)

/-- the host of a text that is not empty -/
def hostPart (normalized : JavaString) : JavaString :=
  if normalized.head? = some lbracket then
    match indexOf rbracket normalized with
    | some close => (normalized.take close).drop 1
    | none => normalized
  else
    match lastIndexOf colon normalized with
    | some last => if indexOf colon normalized = some last then normalized.take last else normalized
    | none => normalized

def hostOf : Option JavaString → Except String (Option JavaString)
  | none => .ok none
  | some normalized =>
    if normalized = [] then .error "StringIndexOutOfBoundsException" else .ok (some (hostPart normalized))

/-- the port after a colon, the default one for what is no port -/
def portAfter (normalized : JavaString) (colonAt : ℕ) : ℤ :=
  if 0 < parsePort (normalized.drop (colonAt + 1)) then parsePort (normalized.drop (colonAt + 1)) else defaultPort

/-- the port of a text that is not empty -/
def portPart (normalized : JavaString) : ℤ :=
  if normalized.head? = some lbracket then
    match indexOf rbracket normalized with
    | none => defaultPort
    | some close =>
      match indexOf colon (normalized.drop close) with
      | none => defaultPort
      | some i => portAfter normalized (close + i)
  else
    match lastIndexOf colon normalized with
    | none => defaultPort
    | some last => if indexOf colon normalized = some last then portAfter normalized last else defaultPort

def portOf : Option JavaString → Except String ℤ
  | none => .ok (-1)
  | some normalized => if normalized = [] then .error "StringIndexOutOfBoundsException" else .ok (portPart normalized)

/-! ## Lower case and dots -/

theorem Lowers.head {s t : JavaString} (h : Lowers s t) {d : UInt16} (hd : ∀ c, asciiLower c = d → c = d)
    (hascii : d < 0x80) (hletter : ¬ (0x61 ≤ d ∧ d ≤ 0x7a)) : t.head? = some d → s.head? = some d := by
  intro hhead
  cases h with
  | nil => exact hhead
  | ascii _ _ =>
    rw [List.head?_cons, Option.some.injEq] at hhead
    rw [List.head?_cons, hd _ hhead]
  | @other c s t u _ hne hother _ =>
    cases u with
    | nil => exact absurd rfl hne
    | cons e u =>
      rw [List.cons_append, List.head?_cons, Option.some.injEq] at hhead
      subst hhead
      rcases hother e List.mem_cons_self with hge | hmem
      · exact absurd hascii (UInt16.not_lt.2 hge)
      · exact absurd hmem hletter

/-- a unit that is no letter is in the lower-case text if it is in the text -/
theorem Lowers.mem {s t : JavaString} (h : Lowers s t) {d : UInt16} (hd : ∀ c, asciiLower c = d → c = d)
    (hascii : d < 0x80) (hletter : ¬ (0x61 ≤ d ∧ d ≤ 0x7a)) : d ∈ t → d ∈ s := by
  induction h with
  | nil => exact id
  | ascii _ _ ih =>
    intro hmem
    rcases List.mem_cons.1 hmem with heq | hmem
    · rw [hd _ heq.symm]
      exact List.mem_cons_self
    · exact List.mem_cons_of_mem _ (ih hmem)
  | other _ _ hother _ ih =>
    intro hmem
    rcases List.mem_append.1 hmem with hu | hmem
    · rcases hother d hu with hge | hin
      · exact absurd hascii (UInt16.not_lt.2 hge)
      · exact absurd hin hletter
    · exact List.mem_cons_of_mem _ (ih hmem)

theorem asciiLower_eq {c d : UInt16} (hd : ¬ (0x61 ≤ d ∧ d ≤ 0x7a)) (h : asciiLower c = d) : c = d := by
  unfold asciiLower at h
  split at h
  · next hupper =>
    exfalso
    apply hd
    subst h
    simp only [UInt16.le_iff_toNat_le, UInt16.toNat_add] at hupper ⊢
    have h1 : (0x41 : UInt16).toNat = 0x41 := rfl
    have h2 : (0x5a : UInt16).toNat = 0x5a := rfl
    have h3 : (0x61 : UInt16).toNat = 0x61 := rfl
    have h4 : (0x7a : UInt16).toNat = 0x7a := rfl
    have h5 : (0x20 : UInt16).toNat = 0x20 := rfl
    omega
  · exact h

/-- signs, digits, blanks and upper-case letters: what lower case makes no other unit into -/
def Sign (d : UInt16) : Prop := d < 0x80 ∧ ¬ (0x61 ≤ d ∧ d ≤ 0x7a)

instance (d : UInt16) : Decidable (Sign d) := inferInstanceAs (Decidable (_ ∧ _))

variable {L}

theorem mem_lower {s : JavaString} {d : UInt16} (hd : Sign d) (h : d ∈ L.lower s) : d ∈ s :=
  (L.lowers s).mem (fun _ => asciiLower_eq hd.2) hd.1 hd.2 h

theorem head_lower {s : JavaString} {d : UInt16} (hd : Sign d) (h : (L.lower s).head? = some d) : s.head? = some d :=
  (L.lowers s).head (fun _ => asciiLower_eq hd.2) hd.1 hd.2 h

theorem trimDots_part (h : JavaString) : trimDots h <:+: h := (List.rdropWhile_prefix _ _).isInfix

theorem trimDots_trimDots (h : JavaString) : trimDots (trimDots h) = trimDots h := List.rdropWhile_idempotent _ _

/-- a host that was made is made into itself -/
theorem lower_host (H : JavaString) : L.lower (trimDots (L.lower H)) = trimDots (L.lower H) :=
  L.again H _ (trimDots_part _)

/-- lower case of texts of ASCII -/
theorem asciiLower_lowers (s : JavaString) : Lowers s (s.map asciiLower) := by
  induction s with
  | nil => exact .nil
  | cons c s ih =>
    by_cases hc : c < 0x80
    · exact .ascii hc ih
    · have hsame : asciiLower c = c := by
        unfold asciiLower
        rw [if_neg]
        rintro ⟨-, hle⟩
        exact hc (UInt16.lt_of_le_of_lt hle (by decide))
      rw [List.map_cons, hsame]
      refine .other hc (List.cons_ne_nil c []) ?_ ih
      intro d hd
      rw [List.mem_singleton.1 hd]
      exact .inl (UInt16.not_lt.1 hc)

theorem asciiLower_again (s t : JavaString) (h : t <:+: s.map asciiLower) : t.map asciiLower = t := by
  refine (List.map_congr_left ?_).trans (List.map_id _)
  intro c hc
  obtain ⟨d, -, rfl⟩ := List.mem_map.1 (h.subset hc)
  unfold asciiLower
  split_ifs with h1 h2
  · exfalso
    simp only [UInt16.le_iff_toNat_le, UInt16.toNat_add] at h1 h2
    have h3 : (0x41 : UInt16).toNat = 0x41 := rfl
    have h4 : (0x5a : UInt16).toNat = 0x5a := rfl
    have h5 : (0x20 : UInt16).toNat = 0x20 := rfl
    omega
  · rfl
  · rfl

def asciiCase : LowerCase where
  lower s := s.map asciiLower
  lowers := asciiLower_lowers
  again := asciiLower_again

/-! ## An address taken apart -/

inductive Parts : JavaString → JavaString → Option JavaString → Prop
  | bracket {h} : rbracket ∉ h → Parts (lbracket :: (h ++ [rbracket])) h none
  | bracketPort {h p} : rbracket ∉ h → Parts (lbracket :: (h ++ rbracket :: colon :: p)) h (some p)
  | whole {h} : h.head? ≠ some lbracket → (colon ∈ h → ∃ a b c, h = a ++ colon :: (b ++ colon :: c)) → Parts h h none
  | port {h p} : (h ++ colon :: p).head? ≠ some lbracket → colon ∉ h → colon ∉ p → Parts (h ++ colon :: p) h (some p)

theorem indexOf_bracket {h rest : JavaString} (hh : rbracket ∉ h) :
    indexOf rbracket (lbracket :: (h ++ rbracket :: rest)) = some (h.length + 1) := by
  have hmem : rbracket ∉ lbracket :: h := by
    rw [List.mem_cons, not_or]
    exact ⟨by decide, hh⟩
  have hindex := indexOf_append hmem rest
  rw [List.cons_append, List.length_cons] at hindex
  exact hindex

theorem splitAddress_of_parts {text h : JavaString} {p : Option JavaString} (hparts : Parts text h p) :
    splitAddress text = some (h, p) := by
  unfold splitAddress
  cases hparts with
  | bracket hh =>
    rw [List.head?_cons, if_pos rfl, indexOf_bracket hh]
    simp
  | bracketPort hh =>
    rw [List.head?_cons, if_pos rfl, indexOf_bracket hh]
    simp
  | whole hhead htwo =>
    rw [if_neg hhead]
    by_cases hcolon : colon ∈ text
    · obtain ⟨a, b, c, habc⟩ := htwo hcolon
      cases hfirst : indexOf colon text with
      | none => rfl
      | some first =>
        cases hlast : lastIndexOf colon text with
        | none => rfl
        | some last =>
          dsimp only
          rw [if_neg]
          rintro rfl
          obtain ⟨a', b', hsplit, ha', hb', -⟩ := lastIndexOf_eq_indexOf.1 ⟨hlast, hfirst⟩
          have hcount : (a' ++ colon :: b').count colon = 1 := by
            rw [List.count_append, List.count_cons_self, List.count_eq_zero.2 ha', List.count_eq_zero.2 hb']
          rw [← hsplit, habc] at hcount
          simp only [List.count_append, List.count_cons_self] at hcount
          omega
    · rw [indexOf_eq_none.2 hcolon]
  | @port h p hhead hh hp =>
    rw [if_neg hhead]
    obtain ⟨hlast, hfirst⟩ := lastIndexOf_eq_indexOf.2 ⟨h, p, rfl, hh, hp, rfl⟩
    rw [hfirst, hlast]
    simp

theorem parts_of_splitAddress {text h : JavaString} {p : Option JavaString} (hsplit : splitAddress text = some (h, p)) :
    Parts text h p := by
  unfold splitAddress at hsplit
  by_cases hhead : text.head? = some lbracket
  · rw [if_pos hhead] at hsplit
    obtain ⟨cs, rfl⟩ : ∃ cs, text = lbracket :: cs := by
      cases text with
      | nil => cases hhead
      | cons c cs =>
        rw [List.head?_cons, Option.some.injEq] at hhead
        exact ⟨cs, by rw [hhead]⟩
    cases hclose : indexOf rbracket (lbracket :: cs) with
    | none =>
      rw [hclose] at hsplit
      cases hsplit
    | some close =>
      rw [hclose] at hsplit
      obtain ⟨a, b, hab, ha, rfl⟩ := indexOf_eq_some.1 hclose
      cases a with
      | nil =>
        rw [List.nil_append, List.cons.injEq] at hab
        exact absurd hab.1 (by decide)
      | cons d a =>
        rw [List.cons_append, List.cons.injEq] at hab
        obtain ⟨rfl, rfl⟩ := hab
        have hinner : rbracket ∉ a := fun hmem => ha (List.mem_cons_of_mem _ hmem)
        have htake : ((lbracket :: (a ++ rbracket :: b)).take (lbracket :: a).length).drop 1 = a := by simp
        have hdrop : (lbracket :: (a ++ rbracket :: b)).drop ((lbracket :: a).length + 1) = b := by simp
        dsimp only at hsplit
        rw [htake, hdrop] at hsplit
        cases b with
        | nil =>
          cases hsplit
          exact .bracket hinner
        | cons e b =>
          dsimp only at hsplit
          by_cases he : e = colon
          · rw [if_pos he] at hsplit
            cases hsplit
            rw [he]
            exact .bracketPort hinner
          · rw [if_neg he] at hsplit
            cases hsplit
  · rw [if_neg hhead] at hsplit
    cases hfirst : indexOf colon text with
    | none =>
      rw [hfirst] at hsplit
      cases hsplit
      exact .whole hhead fun hcolon => absurd hcolon (indexOf_eq_none.1 hfirst)
    | some first =>
      cases hlast : lastIndexOf colon text with
      | none =>
        rw [hfirst, hlast] at hsplit
        cases hsplit
        exact .whole hhead fun hcolon => absurd hcolon (lastIndexOf_eq_none.1 hlast)
      | some last =>
        rw [hfirst, hlast] at hsplit
        dsimp only at hsplit
        by_cases hsame : first = last
        · subst hsame
          rw [if_pos rfl] at hsplit
          obtain ⟨a, b, rfl, ha, hb, rfl⟩ := lastIndexOf_eq_indexOf.1 ⟨hlast, hfirst⟩
          have htake : (a ++ colon :: b).take a.length = a := by simp
          have hdrop : (a ++ colon :: b).drop (a.length + 1) = b := by simp
          rw [htake, hdrop] at hsplit
          cases hsplit
          exact .port hhead ha hb
        · rw [if_neg hsame] at hsplit
          cases hsplit
          refine .whole hhead fun _ => ?_
          obtain ⟨a, b, hab, ha, hlen⟩ := indexOf_eq_some.1 hfirst
          obtain ⟨c, d, hcd, hd, hlen'⟩ := lastIndexOf_eq_some.1 hlast
          have hb : colon ∈ b := by
            by_contra hb
            have hfirst' := (lastIndexOf_eq_indexOf.2 ⟨a, b, hab, ha, hb, hlen⟩).1
            rw [hlast, Option.some.injEq] at hfirst'
            exact hsame hfirst'.symm
          obtain ⟨b₁, b₂, rfl⟩ := List.append_of_mem hb
          exact ⟨a, b₁, b₂, hab⟩

theorem Parts.unique {text h h' : JavaString} {p p' : Option JavaString} (hparts : Parts text h p)
    (hparts' : Parts text h' p') : h = h' ∧ p = p' := by
  have heq := splitAddress_of_parts hparts
  rw [splitAddress_of_parts hparts'] at heq
  cases heq
  exact ⟨rfl, rfl⟩

/-- the parts of an address with the port that it has -/
structure Addressed (raw H : JavaString) (port : ℤ) : Prop where
  parts : ∃ p, Parts (trim raw) H p ∧ portFrom p = port
  valid : 0 < port

/-- **What an address is made into.** -/
theorem normalize_iff {raw k : JavaString} : normalize L (some raw) = some k ↔
    ∃ H port, Addressed raw H port ∧ trimDots (L.lower H) ≠ [] ∧ k = keyText (trimDots (L.lower H)) port := by
  constructor
  · intro h
    unfold normalize at h
    dsimp only at h
    by_cases htext : trim raw = []
    · rw [if_pos htext] at h
      cases h
    · rw [if_neg htext] at h
      cases hsplit : splitAddress (trim raw) with
      | none =>
        rw [hsplit] at h
        cases h
      | some parts =>
        obtain ⟨H, p⟩ := parts
        rw [hsplit] at h
        dsimp only at h
        split_ifs at h with hempty hport
        cases h
        exact ⟨H, portFrom p, ⟨⟨p, parts_of_splitAddress hsplit, rfl⟩, not_le.1 hport⟩, hempty, rfl⟩
  · rintro ⟨H, port, ⟨⟨p, hparts, rfl⟩, hvalid⟩, hne, rfl⟩
    have htext : trim raw ≠ [] := by
      intro hnil
      rw [hnil] at hparts
      obtain ⟨rfl, -⟩ := hparts.unique (Parts.whole (by simp) (by simp))
      have hlower : L.lower [] = [] := L.again [] [] List.nil_infix
      rw [hlower] at hne
      exact hne rfl
    unfold normalize
    dsimp only
    rw [if_neg htext, splitAddress_of_parts hparts]
    dsimp only
    rw [if_neg hne, if_neg (not_le.2 hvalid)]

/-! ## The host and the port of a key -/

theorem keyText_ne_nil {h : JavaString} (hne : h ≠ []) (port : ℤ) : keyText h port ≠ [] := by
  unfold keyText
  split_ifs
  · exact List.cons_ne_nil _ _
  · exact hne
  · exact List.cons_ne_nil _ _
  · simp

theorem colon_not_mem_decimal (n : ℕ) : colon ∉ decimal n := fun hmem => absurd (decimal_digits hmem).2 (by decide)

theorem parsePort_decimal {port : ℤ} (hlow : 1 ≤ port) (hhigh : port ≤ 65535) : parsePort (decimal port.toNat) = port := by
  have hvalue : digitsValue (decimal port.toNat) = port.toNat := decimal_value _
  have hlength : (decimal port.toNat).length ≤ 5 := by
    have hdigits : (Nat.toDigits 10 port.toNat).length ≤ 5 := by
      refine (Nat.length_toDigits_le_iff (by decide) (by decide)).2 ?_
      omega
    rw [decimal, List.length_map]
    exact hdigits
  have hall : (decimal port.toNat).all isDigit = true := by
    refine List.all_eq_true.2 ?_
    intro c hc
    have hd := decimal_digits hc
    simp only [isDigit, UInt16.le_iff_toNat_le, Bool.and_eq_true, decide_eq_true_eq]
    exact hd
  unfold parsePort
  rw [if_neg, if_neg (by rw [hall]; decide), hvalue, if_pos (by omega)]
  · omega
  · rw [not_or, not_lt]
    exact ⟨by simpa using decimal_ne_nil port.toNat, hlength⟩

theorem parsePort_range {text : JavaString} (h : 0 < parsePort text) : 1 ≤ parsePort text ∧ parsePort text ≤ 65535 := by
  unfold parsePort at h ⊢
  split_ifs at h ⊢ <;> omega

theorem portFrom_range {p : Option JavaString} (h : 0 < portFrom p) : 1 ≤ portFrom p ∧ portFrom p ≤ 65535 := by
  match p with
  | none => decide
  | some [] => decide
  | some (c :: text) => exact parsePort_range h

theorem head_append {h rest : JavaString} (hne : h ≠ []) : (h ++ rest).head? = h.head? := by
  cases h with
  | nil => exact absurd rfl hne
  | cons c cs => rfl

/-- a host with a bracket in front comes out of brackets, and has no closing one -/
theorem Addressed.unclosed {raw H : JavaString} {port : ℤ} (h : Addressed raw H port)
    (hhead : (trimDots (L.lower H)).head? = some lbracket) : rbracket ∉ trimDots (L.lower H) := by
  have hheadH : H.head? = some lbracket := by
    refine head_lower (L := L) (by decide) ?_
    obtain ⟨tail, htail⟩ : trimDots (L.lower H) <+: L.lower H := List.rdropWhile_prefix _ _
    rw [← htail, head_append (by intro hnil; rw [hnil] at hhead; cases hhead)]
    exact hhead
  intro hmem
  have hmemH : rbracket ∈ H := mem_lower (L := L) (by decide) ((trimDots_part _).subset hmem)
  obtain ⟨p, hparts, -⟩ := h.parts
  generalize trim raw = text at hparts
  cases hparts with
  | bracket hnot => exact hnot hmemH
  | bracketPort hnot => exact hnot hmemH
  | whole hnot => exact hnot hheadH
  | port hnot =>
    refine hnot ?_
    rw [head_append (by intro hnil; rw [hnil] at hheadH; cases hheadH)]
    exact hheadH

theorem hostPart_bracket {h rest : JavaString} (hh : rbracket ∉ h) :
    hostPart (lbracket :: (h ++ rbracket :: rest)) = h := by
  unfold hostPart
  rw [List.head?_cons, if_pos rfl, indexOf_bracket hh]
  simp

theorem hostPart_plain {h : JavaString} (hcolon : colon ∉ h) (hhead : h.head? ≠ some lbracket) : hostPart h = h := by
  unfold hostPart
  rw [if_neg hhead, lastIndexOf_eq_none.2 hcolon]

theorem hostPart_port {h p : JavaString} (hcolon : colon ∉ h) (hp : colon ∉ p) (hhead : (h ++ colon :: p).head? ≠ some lbracket) :
    hostPart (h ++ colon :: p) = h := by
  obtain ⟨hlast, hfirst⟩ := lastIndexOf_eq_indexOf.2 ⟨h, p, rfl, hcolon, hp, rfl⟩
  unfold hostPart
  rw [if_neg hhead, hlast]
  dsimp only
  rw [if_pos hfirst]
  simp

/-- a host without a colon, of its key -/
theorem hostPart_keyText {h : JavaString} (hcolon : colon ∉ h) (hne : h ≠ []) (hhead : h.head? ≠ some lbracket) (port : ℤ) :
    hostPart (keyText h port) = h := by
  unfold keyText
  rw [if_neg hcolon, if_neg hcolon]
  split
  · exact hostPart_plain hcolon hhead
  · exact hostPart_port hcolon (colon_not_mem_decimal _) (by rw [head_append hne]; exact hhead)

theorem hostPart_first {h rest : JavaString} :
    hostPart (lbracket :: (h ++ rbracket :: rest)) = h.takeWhile fun c => c ≠ rbracket := by
  by_cases hmem : rbracket ∈ h
  · obtain ⟨a, b, rfl, ha⟩ := List.eq_append_cons_of_mem hmem
    have htake : (a ++ rbracket :: b).takeWhile (fun c => c ≠ rbracket) = a := by
      rw [List.takeWhile_append_of_pos]
      · simp
      · intro c hc
        simpa using fun heq : c = rbracket => ha (heq ▸ hc)
    rw [htake, List.append_assoc, List.cons_append]
    exact hostPart_bracket ha
  · have htake : h.takeWhile (fun c => c ≠ rbracket) = h := by
      rw [List.takeWhile_eq_self_iff]
      intro c hc
      simpa using fun heq : c = rbracket => hmem (heq ▸ hc)
    rw [htake]
    exact hostPart_bracket hmem

/-- an IPv6 literal, of its key, is read up to its first bracket -/
theorem hostPart_v6 {h : JavaString} (hcolon : colon ∈ h) (port : ℤ) :
    hostPart (keyText h port) = h.takeWhile fun c => c ≠ rbracket := by
  unfold keyText
  rw [if_pos hcolon, if_pos hcolon]
  split
  · exact hostPart_first
  · exact hostPart_first

theorem portAfter_decimal {a : JavaString} {port : ℤ} (hlow : 1 ≤ port) (hhigh : port ≤ 65535) :
    portAfter (a ++ colon :: decimal port.toNat) a.length = port := by
  have hdrop : (a ++ colon :: decimal port.toNat).drop (a.length + 1) = decimal port.toNat := by simp
  unfold portAfter
  rw [hdrop, parsePort_decimal hlow hhigh, if_pos (by omega)]

/-- the port of a key whose host has no colon -/
theorem portPart_keyText {h : JavaString} (hcolon : colon ∉ h) (hne : h ≠ []) (hhead : h.head? ≠ some lbracket) {port : ℤ}
    (hlow : 1 ≤ port) (hhigh : port ≤ 65535) : portPart (keyText h port) = port := by
  unfold keyText
  rw [if_neg hcolon, if_neg hcolon]
  split
  · next hport =>
    unfold portPart
    rw [if_neg hhead, lastIndexOf_eq_none.2 hcolon, hport]
  · obtain ⟨hlast, hfirst⟩ :=
      lastIndexOf_eq_indexOf.2 ⟨h, decimal port.toNat, rfl, hcolon, colon_not_mem_decimal _, rfl⟩
    unfold portPart
    rw [head_append hne, if_neg hhead, hlast]
    dsimp only
    rw [if_pos hfirst]
    exact portAfter_decimal hlow hhigh

/-- the port of the key of an IPv6 literal -/
theorem portPart_v6 {h : JavaString} (hcolon : colon ∈ h) (hmem : rbracket ∉ h) {port : ℤ} (hlow : 1 ≤ port)
    (hhigh : port ≤ 65535) : portPart (keyText h port) = port := by
  unfold keyText
  rw [if_pos hcolon, if_pos hcolon]
  split
  · next hport =>
    unfold portPart
    rw [List.head?_cons, if_pos rfl, indexOf_bracket hmem]
    have hdrop : (lbracket :: (h ++ [rbracket])).drop (h.length + 1) = [rbracket] := by simp
    have hnone : indexOf colon [rbracket] = none := by decide
    dsimp only
    rw [hdrop, hnone, hport]
  · have hsplit : lbracket :: (h ++ rbracket :: colon :: decimal port.toNat) =
        (lbracket :: (h ++ [rbracket])) ++ colon :: decimal port.toNat := by simp
    have hdrop : (lbracket :: (h ++ rbracket :: colon :: decimal port.toNat)).drop (h.length + 1) =
        [rbracket] ++ colon :: decimal port.toNat := by simp
    have hindex : indexOf colon ([rbracket] ++ colon :: decimal port.toNat) = some 1 := indexOf_append (by decide) _
    unfold portPart
    rw [List.head?_cons, if_pos rfl, indexOf_bracket hmem]
    dsimp only
    rw [hdrop, hindex, hsplit]
    have hlength : h.length + 1 + 1 = (lbracket :: (h ++ [rbracket])).length := by simp
    dsimp only
    rw [hlength]
    exact portAfter_decimal hlow hhigh

end EspectralClient.RutaProtocol
