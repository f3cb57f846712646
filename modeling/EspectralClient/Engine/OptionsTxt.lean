/-
The game's `options.txt` (`native/engine/src/launch.rs`, `native/engine/src/import.rs`): the reading of a text into a
version header and entries, the edit of one key, and the writing, once for the launch and once for the import.

- `parse`, `OptionsTxt.set`, `OptionsTxt.write`: the launch's copy. `Import`: the other one.
- `parse_eq`: the first version line is the header, every other line that is not empty is an entry.
- `Clean`, `parse_write`: a document is read back from what is written when no line runs into the line ending.
- `Preserved`: what is promised of an edit. `Readable`: where the launch's reading is safe to write.
- `options_preserved_iff`: the promise is kept exactly there.
-/
import EspectralClient.Lib.LineFile
import EspectralClient.Lib.Split

namespace EspectralClient.OptionsTxt

open Lib

/-! ## Model -/

abbrev Text := List Char

def lf : Text := ['\n']

def crlf : Text := ['\r', '\n']

/-- an entry without its line is written from its key and value -/
structure Entry where
  key : Option Text
  value : Option Text
  raw : Option Text
deriving DecidableEq

structure Options where
  header : Option Text
  entries : List Entry
  eol : Text
deriving DecidableEq

def versionKey : Text := "version".toList

/-- `strip_suffix('\r')` -/
def dropCr (line : Text) : Text := if line.getLast? = some '\r' then line.dropLast else line

def linesOf (src : Text) : List Text := (src.splitOn '\n').map dropCr

def eolOf (src : Text) : Text := if crlf <:+: src then crlf else lf

/-- the first colon parts the key from the value; a line without a key is kept as it is -/
def entryOf (line : Text) : Entry :=
  match line.idxOf? ':' with
  | some (i + 1) => ⟨some (line.take (i + 1)), some (line.drop (i + 2)), some line⟩
  | _ => ⟨none, none, some line⟩

/-- the first entry of the key, or a new one -/
def setEntry (key value : Text) : List Entry → List Entry
  | [] => [⟨some key, some value, none⟩]
  | e :: es => if e.key = some key then ⟨e.key, some value, none⟩ :: es else e :: setEntry key value es

def Options.set (p : Options) (key value : Text) : Options := { p with entries := setEntry key value p.entries }

/-- the value of the first entry of the key -/
def Options.get (p : Options) (key : Text) : Option Text := (p.entries.find? (·.key = some key)).bind (·.value)

/-! ### The launch -/

def isHeader (line : Text) : Bool :=
  (versionKey ++ [':']).isPrefixOf line && decide (8 < line.length) && (line.drop 8).all Char.isDigit

def readLine (p : Options) (line : Text) : Options :=
  if line = [] then p
  else if p.header = none ∧ isHeader line then { p with header := some line }
  else { p with entries := p.entries ++ [entryOf line] }

def parse (src : Text) : Options := (linesOf src).foldl readLine ⟨none, [], eolOf src⟩

def Entry.text (e : Entry) : Text :=
  match e.raw with
  | some line => line
  | none => e.key.getD [] ++ ':' :: e.value.getD []

def Options.parts (p : Options) : List Text := p.header.toList ++ p.entries.map Entry.text

def Options.write (p : Options) : Text := if p.parts = [] then [] else p.eol.intercalate p.parts ++ p.eol

/-! ### The import -/

namespace Import

def isVersionHeader (line : Text) : Bool :=
  if (versionKey ++ [':']).isPrefixOf line then
    let digits := line.drop (versionKey ++ [':']).length
    digits ≠ [] && digits.all Char.isDigit
  else false

def readLine (p : Options) (line : Text) : Options :=
  if line = [] then p
  else if p.header = none ∧ isVersionHeader line then { p with header := some line }
  else { p with entries := p.entries ++ [entryOf line] }

def parseOptionsTxt (src : Text) : Options := (linesOf src).foldl readLine ⟨none, [], eolOf src⟩

def entryText (e : Entry) : Text :=
  match e.raw with
  | some line => line
  | none => e.key.getD "null".toList ++ ':' :: e.value.getD "null".toList

def parts (p : Options) : List Text := (p.header.filter (· ≠ [])).toList ++ p.entries.map entryText

def writeOptionsTxt (p : Options) : Text :=
  let eol := if p.eol = [] then lf else p.eol
  if parts p = [] then [] else eol.intercalate (parts p) ++ eol

end Import

/-! ## Lines -/

@[simp] theorem dropCr_nil : dropCr [] = [] := rfl

@[simp] theorem dropCr_append (l : Text) : dropCr (l ++ ['\r']) = l := by
  simp [dropCr]

theorem dropCr_eq {l : Text} (h : l.getLast? ≠ some '\r') : dropCr l = l := if_neg h

/-- a line that still ends in a return lost one -/
theorem eq_append_of_dropCr {l : Text} (h : (dropCr l).getLast? = some '\r') : l = dropCr l ++ ['\r'] := by
  unfold dropCr at h ⊢
  split_ifs at h ⊢ with hl
  · exact (List.dropLast_append_getLast? '\r' hl).symm
  · exact absurd h hl

theorem mem_of_mem_dropCr {l : Text} {c : Char} (h : c ∈ dropCr l) : c ∈ l := by
  unfold dropCr at h
  split_ifs at h
  · exact List.mem_of_mem_dropLast h
  · exact h

/-- the lines that are not empty -/
def kept (src : Text) : List Text := (linesOf src).filter (· ≠ [])

theorem kept_ne {src l : Text} (h : l ∈ kept src) : l ≠ [] := by
  simpa using (List.mem_filter.1 h).2

theorem splitOn_plain {src l : Text} (h : l ∈ src.splitOn '\n') : '\n' ∉ l :=
  fun hc => (Split.mem_splitOn h hc).2 rfl

theorem kept_plain {src l : Text} (h : l ∈ kept src) : '\n' ∉ l := by
  obtain ⟨piece, hpiece, rfl⟩ := List.mem_map.1 (List.mem_filter.1 h).1
  exact fun hc => splitOn_plain hpiece (mem_of_mem_dropCr hc)

/-- what the loop makes of the lines, once there is a header and before -/
theorem foldl_readLine (eol : Text) (ls : List Text) (es : List Entry) :
    (∀ h : Text, ls.foldl readLine ⟨some h, es, eol⟩ = ⟨some h, es ++ (ls.filter (· ≠ [])).map entryOf, eol⟩) ∧
      ls.foldl readLine ⟨none, es, eol⟩ = ⟨(ls.filter (· ≠ [])).find? isHeader,
        es ++ ((ls.filter (· ≠ [])).eraseP isHeader).map entryOf, eol⟩ := by
  induction ls generalizing es with
  | nil => simp
  | cons l ls ih =>
    by_cases hl : l = []
    · subst hl
      simpa [readLine] using ih es
    · have hkeep : (l :: ls).filter (· ≠ []) = l :: ls.filter (· ≠ []) := by simp [hl]
      rw [hkeep]
      constructor
      · intro h
        rw [List.foldl_cons]
        simp only [readLine, hl, if_false, reduceCtorEq, false_and]
        rw [(ih (es ++ [entryOf l])).1 h]
        simp
      · rw [List.foldl_cons]
        simp only [readLine, hl, if_false, true_and]
        by_cases hh : isHeader l = true
        · rw [if_pos hh, (ih es).1 l, List.find?_cons_of_pos hh, List.eraseP_cons_of_pos hh]
        · rw [if_neg hh, (ih (es ++ [entryOf l])).2, List.find?_cons_of_neg hh, List.eraseP_cons_of_neg hh]
          simp

/-- **The first version line is the header**, the other lines are the entries, in their order. -/
theorem parse_eq (src : Text) : parse src =
    ⟨(kept src).find? isHeader, ((kept src).eraseP isHeader).map entryOf, eolOf src⟩ := by
  rw [parse, (foldl_readLine (eolOf src) (linesOf src) []).2]
  rfl

/-! ### Entries -/

theorem raw_entryOf (l : Text) : (entryOf l).raw = some l := by
  unfold entryOf
  split <;> rfl

@[simp] theorem text_entryOf (l : Text) : (entryOf l).text = l := by
  rw [Entry.text, raw_entryOf]

theorem map_text_entryOf (ls : List Text) : (ls.map entryOf).map Entry.text = ls := by
  rw [List.map_map]
  exact (List.map_congr_left fun l _ => text_entryOf l).trans (List.map_id ls)

theorem entryOf_pair {key : Text} (hne : key ≠ []) (hcolon : ':' ∉ key) (value : Text) :
    entryOf (key ++ ':' :: value) = ⟨some key, some value, some (key ++ ':' :: value)⟩ := by
  obtain ⟨c, cs, rfl⟩ := List.exists_cons_of_ne_nil hne
  have hidx : (c :: cs ++ ':' :: value).idxOf? ':' = some (cs.length + 1) := by
    rw [List.idxOf?_eq_some_iff]
    refine ⟨by simp, by simp, ?_⟩
    intro j hj
    rw [List.getElem_append_left hj]
    exact fun heq => hcolon (heq ▸ List.getElem_mem hj)
  unfold entryOf
  rw [hidx]
  simp

/-- a line written from a key and a value -/
def pairLine (key value : Text) : Text := key ++ ':' :: value

/-- a key that a line can be written for, and that is not the header's -/
structure GoodKey (key : Text) : Prop where
  nonempty : key ≠ []
  colon : ':' ∉ key
  return_ : '\r' ∉ key
  newline : '\n' ∉ key
  version : key ≠ versionKey

structure GoodValue (value : Text) : Prop where
  return_ : '\r' ∉ value
  newline : '\n' ∉ value

theorem mem_setEntry {key value : Text} {es : List Entry} {e : Entry} (h : e ∈ setEntry key value es) :
    e ∈ es ∨ e = ⟨some key, some value, none⟩ := by
  induction es with
  | nil => exact Or.inr (List.mem_singleton.1 h)
  | cons e' es ih =>
    unfold setEntry at h
    split_ifs at h with hkey
    · rcases List.mem_cons.1 h with rfl | h
      · exact Or.inr (by rw [hkey])
      · exact Or.inl (List.mem_cons_of_mem e' h)
    · rcases List.mem_cons.1 h with rfl | h
      · exact Or.inl List.mem_cons_self
      · exact (ih h).imp_left (List.mem_cons_of_mem e')

theorem mem_set_parts {p : Options} {key value l : Text} (h : l ∈ (p.set key value).parts) :
    l ∈ p.parts ∨ l = pairLine key value := by
  rcases List.mem_append.1 h with h | h
  · exact Or.inl (List.mem_append_left _ h)
  · obtain ⟨e, he, rfl⟩ := List.mem_map.1 h
    rcases mem_setEntry he with he | rfl
    · exact Or.inl (List.mem_append_right _ (List.mem_map_of_mem he))
    · exact Or.inr rfl

theorem set_parts_ne (p : Options) (key value : Text) : (p.set key value).parts ≠ [] := by
  intro h
  obtain ⟨-, h⟩ := List.append_eq_nil_iff.1 h
  have hempty : setEntry key value p.entries = [] := List.map_eq_nil_iff.1 h
  cases hes : p.entries with
  | nil =>
    rw [hes] at hempty
    cases hempty
  | cons e es =>
    rw [hes] at hempty
    unfold setEntry at hempty
    split_ifs at hempty

theorem mem_parts_parse {src l : Text} (h : l ∈ (parse src).parts) : l ∈ kept src := by
  rw [parse_eq] at h
  rcases List.mem_append.1 h with h | h
  · exact List.mem_of_find?_eq_some (Option.mem_toList.1 h)
  · rw [map_text_entryOf] at h
    exact List.mem_of_mem_eraseP h

/-! ## Writing and reading back -/

theorem intercalate_ending (cr : Text) {ls : List Text} (h : ls ≠ []) :
    (cr ++ ['\n']).intercalate ls ++ (cr ++ ['\n']) = LineFile.joined '\n' (ls.map (· ++ cr)) := by
  induction ls with
  | nil => exact absurd rfl h
  | cons l ls ih =>
    cases ls with
    | nil => simp
    | cons l' ls =>
      rw [List.intercalate_cons_cons, List.append_assoc, ih (List.cons_ne_nil _ _)]
      simp

/-- the lines of the parts, each with what stands before the newline -/
theorem write_eq {p : Options} (cr : Text) (h : p.eol = cr ++ ['\n']) :
    p.write = LineFile.joined '\n' (p.parts.map (· ++ cr)) := by
  unfold Options.write
  split_ifs with hparts
  · rw [hparts]
    rfl
  · rw [h, intercalate_ending cr hparts]

theorem linesOf_joined {ls : List Text} (h : ∀ l ∈ ls, '\n' ∉ l) :
    linesOf (LineFile.joined '\n' ls) = ls.map dropCr ++ [[]] := by
  have hsplit := LineFile.splitOn_joined '\n' h []
  rw [List.append_nil] at hsplit
  rw [linesOf, hsplit]
  simp

theorem crlf_infix_line {l rest : Text} (h : '\n' ∉ l) :
    crlf <:+: l ++ '\n' :: rest ↔ l.getLast? = some '\r' ∨ crlf <:+: rest := by
  induction l with
  | nil => simp [crlf, List.infix_cons_iff, List.cons_prefix_cons]
  | cons c l ih =>
    obtain ⟨-, hl⟩ := not_or.1 (fun hc => h (List.mem_cons.2 hc))
    rw [List.cons_append, List.infix_cons_iff, ih hl, crlf, List.cons_prefix_cons]
    cases l with
    | nil => simp [eq_comm]
    | cons d l =>
      have hd : '\n' ≠ d := fun heq => hl (heq ▸ List.mem_cons_self)
      simp [hd]

/-- a text has the pair exactly when one of its ended lines ends in a return -/
theorem crlf_infix {ls : List Text} (h : ∀ l ∈ ls, '\n' ∉ l) {last : Text} (hlast : '\n' ∉ last) :
    crlf <:+: LineFile.joined '\n' ls ++ last ↔ ∃ l ∈ ls, l.getLast? = some '\r' := by
  induction ls with
  | nil =>
    simp only [LineFile.joined_nil, List.nil_append, List.not_mem_nil, false_and, exists_false, iff_false]
    exact fun hinside => hlast (hinside.subset (by simp [crlf]))
  | cons l ls ih =>
    obtain ⟨hl, hls⟩ := List.forall_mem_cons.1 h
    rw [LineFile.joined_cons, List.append_assoc, List.cons_append, crlf_infix_line hl, ih hls]
    simp

/-- a document whose written lines are told apart by the reading -/
structure Clean (p : Options) : Prop where
  header : ∀ h ∈ p.header, isHeader h = true
  plain : p.header = none → ∀ e ∈ p.entries, isHeader e.text = false
  lines : ∀ l ∈ p.parts, l ≠ [] ∧ '\n' ∉ l
  eol : p.eol = lf ∧ (∀ l ∈ p.parts, l.getLast? ≠ some '\r') ∨ p.eol = crlf

theorem Clean.kept_write {p : Options} (h : Clean p) : kept p.write = p.parts := by
  have hfilter : p.parts.filter (· ≠ []) = p.parts :=
    List.filter_eq_self.2 fun l hl => by simpa using (h.lines l hl).1
  have hdrop : ∀ ls : List Text, (ls ++ [[]]).filter (· ≠ []) = ls.filter (· ≠ []) := by simp
  rcases h.eol with ⟨heol, hend⟩ | heol
  · have hwrite : p.write = LineFile.joined '\n' p.parts := by
      simpa using write_eq [] heol
    have hsame : p.parts.map dropCr = p.parts :=
      (List.map_congr_left fun l hl => dropCr_eq (hend l hl)).trans (List.map_id _)
    rw [kept, hwrite, linesOf_joined fun l hl => (h.lines l hl).2, hdrop, hsame, hfilter]
  · have hlines : ∀ l ∈ p.parts.map (· ++ ['\r']), '\n' ∉ l := by
      intro l hl
      obtain ⟨part, hpart, rfl⟩ := List.mem_map.1 hl
      simpa using (h.lines part hpart).2
    have hsame : (p.parts.map (· ++ ['\r'])).map dropCr = p.parts := by
      rw [List.map_map]
      exact (List.map_congr_left fun l _ => dropCr_append l).trans (List.map_id _)
    rw [kept, write_eq ['\r'] heol, linesOf_joined hlines, hdrop, hsame, hfilter]

theorem Clean.eol_write {p : Options} (h : Clean p) (hne : p.parts ≠ []) : eolOf p.write = p.eol := by
  rcases h.eol with ⟨heol, hend⟩ | heol
  · have hwrite : p.write = LineFile.joined '\n' p.parts ++ [] := by
      simpa using write_eq [] heol
    rw [eolOf, if_neg, heol]
    rw [hwrite, crlf_infix (fun l hl => (h.lines l hl).2) List.not_mem_nil]
    rintro ⟨l, hl, hr⟩
    exact hend l hl hr
  · have hwrite : p.write = LineFile.joined '\n' (p.parts.map (· ++ ['\r'])) ++ [] := by
      simpa using write_eq ['\r'] heol
    rw [eolOf, if_pos, heol]
    rw [hwrite, crlf_infix _ List.not_mem_nil]
    · obtain ⟨l, ls, hls⟩ := List.exists_cons_of_ne_nil hne
      exact ⟨l ++ ['\r'], List.mem_map_of_mem (by rw [hls]; exact List.mem_cons_self), by simp⟩
    · intro l hl
      obtain ⟨part, hpart, rfl⟩ := List.mem_map.1 hl
      simpa using (h.lines part hpart).2

/-- **A clean document is read back from what is written.** -/
theorem Clean.parse_write {p : Options} (h : Clean p) (hne : p.parts ≠ []) :
    parse p.write = ⟨p.header, p.entries.map fun e => entryOf e.text, p.eol⟩ := by
  rw [parse_eq, h.kept_write, h.eol_write hne]
  have hmap : (p.entries.map Entry.text).map entryOf = p.entries.map fun e => entryOf e.text := by
    rw [List.map_map]
    rfl
  cases hhead : p.header with
  | none =>
    have hnone : ∀ l ∈ p.entries.map Entry.text, ¬ isHeader l = true := by
      intro l hl
      obtain ⟨e, he, rfl⟩ := List.mem_map.1 hl
      simp [h.plain hhead e he]
    have hparts : p.parts = p.entries.map Entry.text := by simp [Options.parts, hhead]
    rw [hparts, List.find?_eq_none.2 hnone, List.eraseP_of_forall_not hnone, hmap]
  | some line =>
    have hparts : p.parts = line :: p.entries.map Entry.text := by simp [Options.parts, hhead]
    have hline : isHeader line = true := h.header line hhead
    rw [hparts, List.find?_cons_of_pos hline, List.eraseP_cons_of_pos hline, hmap]

/-! ## What the launch reads -/

/-- the last line does not end in two returns, or the text has the pair of the other line ending -/
def Readable (src : Text) : Prop := crlf <:+: src ∨ ¬ ['\r', '\r'] <:+ src

/-- the ended lines of a text and the last one -/
theorem exists_lines (src : Text) : ∃ ls last, src.splitOn '\n' = ls ++ [last] ∧
    src = LineFile.joined '\n' ls ++ last ∧ (∀ l ∈ ls, '\n' ∉ l) ∧ '\n' ∉ last := by
  rcases List.eq_nil_or_concat (src.splitOn '\n') with hnil | ⟨ls, last, hsplit⟩
  · exact absurd hnil (List.splitOn_ne_nil '\n' src)
  · rw [List.concat_eq_append] at hsplit
    refine ⟨ls, last, hsplit, ?_, ?_, ?_⟩
    · have hjoin : ['\n'].intercalate (src.splitOn '\n') = src := List.intercalate_splitOn '\n'
      rw [hsplit] at hjoin
      rw [← hjoin]
      clear hsplit hjoin
      induction ls with
      | nil => simp
      | cons l ls ih =>
        cases ls with
        | nil => simp
        | cons l' ls =>
          rw [List.cons_append, List.cons_append, List.intercalate_cons_cons, ← List.cons_append, ih,
            LineFile.joined_cons]
          simp
    · exact fun l hl => splitOn_plain (by rw [hsplit]; exact List.mem_append_left _ hl)
    · exact splitOn_plain (by rw [hsplit]; simp)

/-- two returns at the end are at the end of the last line -/
theorem returns_suffix {ls : List Text} {last : Text} :
    ['\r', '\r'] <:+ LineFile.joined '\n' ls ++ last ↔ ['\r', '\r'] <:+ last := by
  constructor
  · intro h
    rcases List.suffix_or_suffix_of_suffix h (List.suffix_append (LineFile.joined '\n' ls) last) with h' | h'
    · exact h'
    · rcases List.eq_nil_or_concat ls with rfl | ⟨ls, l, rfl⟩
      · simpa using h
      · -- the newline before the last line would be one of the two returns
        obtain ⟨front, hfront⟩ := h
        rw [List.concat_eq_append, LineFile.joined_concat] at hfront
        rcases last with _ | ⟨a, _ | ⟨b, last⟩⟩
        · have hend := congrArg List.getLast? hfront
          simp at hend
        · have hend := congrArg (fun s : Text => s.dropLast.getLast?) hfront
          simp at hend
        · have hlength := h'.length_le
          have hsame := h'.eq_of_length (by simp at hlength ⊢; omega)
          rw [hsame]
  · exact fun h => h.trans (List.suffix_append _ _)

/-- **Readable texts.** No line that is kept ends in a return, or the written lines end in the pair. -/
theorem clean_parse {src : Text} (h : Readable src) : Clean (parse src) := by
  have hparse := parse_eq src
  refine ⟨?_, ?_, ?_, ?_⟩
  · intro line hline
    rw [hparse] at hline
    exact List.find?_some hline
  · intro hnone e he
    rw [hparse] at hnone he
    obtain ⟨l, hl, rfl⟩ := List.mem_map.1 he
    rw [text_entryOf]
    simpa using List.find?_eq_none.1 hnone l (List.mem_of_mem_eraseP hl)
  · exact fun l hl => ⟨kept_ne (mem_parts_parse hl), kept_plain (mem_parts_parse hl)⟩
  · have heol : (parse src).eol = eolOf src := by rw [hparse]
    rw [heol]
    by_cases hpair : crlf <:+: src
    · exact Or.inr (if_pos hpair)
    · refine Or.inl ⟨if_neg hpair, ?_⟩
      intro l hl
      obtain ⟨ls, last, hsplit, hsrc, hls, hlast⟩ := exists_lines src
      have hends : ¬ ∃ l ∈ ls, l.getLast? = some '\r' := by
        rw [← crlf_infix hls hlast, ← hsrc]
        exact hpair
      obtain ⟨piece, hpiece, rfl⟩ := List.mem_map.1 (List.mem_filter.1 (mem_parts_parse hl)).1
      rw [hsplit, List.mem_append, List.mem_singleton] at hpiece
      intro hret
      have hpair' := eq_append_of_dropCr hret
      rcases hpiece with hpiece | rfl
      · exact hends ⟨piece, hpiece, by rw [hpair']; simp⟩
      · refine (h.resolve_left hpair) ?_
        rw [hsrc, returns_suffix, hpair', ← List.dropLast_append_getLast? '\r' hret]
        simp

/-- the header's lines end in a digit -/
theorem header_end {l : Text} (h : isHeader l = true) : l.getLast? ≠ some '\r' := by
  intro hret
  simp only [isHeader, Bool.and_eq_true, decide_eq_true_eq, List.all_eq_true] at h
  obtain ⟨⟨-, hlength⟩, hdigits⟩ := h
  have hmem : '\r' ∈ l.drop 8 := by
    apply List.mem_of_getLast?
    rw [List.getLast?_drop, if_neg (by omega), hret]
  exact absurd (hdigits '\r' hmem) (by decide)

/-- a line of another key is no header -/
theorem pairLine_header {key : Text} (h : GoodKey key) (value : Text) : isHeader (pairLine key value) = false := by
  by_contra hhead
  have hhead : isHeader (pairLine key value) = true := by simpa using hhead
  simp only [isHeader, Bool.and_eq_true, List.isPrefixOf_iff_prefix] at hhead
  obtain ⟨⟨⟨rest, hrest⟩, -⟩, -⟩ := hhead
  have hcut : ∀ a b c d : Text, ':' ∉ a → ':' ∉ c → a ++ ':' :: b = c ++ ':' :: d → a = c := by
    intro a b c d ha hc heq
    have hsplit := congrArg (fun s : Text => s.takeWhile (· ≠ ':')) heq
    have htake : ∀ x y : Text, ':' ∉ x → (x ++ ':' :: y).takeWhile (· ≠ ':') = x := by
      intro x y hx
      rw [List.takeWhile_append_of_pos]
      · simp
      · intro z hz
        have hne : z ≠ ':' := fun heq => hx (heq ▸ hz)
        simpa using hne
    simpa only [htake a b ha, htake c d hc] using hsplit
  exact h.version (hcut key value versionKey rest h.colon (by decide) (by
    rw [← pairLine, ← hrest]
    simp)).symm.symm

theorem pairLine_lines {key value : Text} (hk : GoodKey key) (hv : GoodValue value) :
    pairLine key value ≠ [] ∧ '\n' ∉ pairLine key value ∧ (pairLine key value).getLast? ≠ some '\r' := by
  refine ⟨by simp [pairLine], ?_, ?_⟩
  · simp [pairLine, hk.newline, hv.newline]
  · intro hret
    have hmem := List.mem_of_getLast? hret
    simp [pairLine, hk.return_, hv.return_] at hmem

theorem clean_set {p : Options} (h : Clean p) {key value : Text} (hk : GoodKey key) (hv : GoodValue value) :
    Clean (p.set key value) := by
  obtain ⟨hne, hplain, hend⟩ := pairLine_lines hk hv
  refine ⟨h.header, ?_, ?_, ?_⟩
  · intro hnone e he
    rcases mem_setEntry he with he | rfl
    · exact h.plain hnone e he
    · exact pairLine_header hk value
  · intro l hl
    rcases mem_set_parts hl with hl | rfl
    · exact h.lines l hl
    · exact ⟨hne, hplain⟩
  · refine h.eol.imp_left ?_
    rintro ⟨heol, hends⟩
    refine ⟨heol, ?_⟩
    intro l hl
    rcases mem_set_parts hl with hl | rfl
    · exact hends l hl
    · exact hend

/-! ## The edit -/

/-- an entry as it is read back -/
def reread (e : Entry) : Entry := entryOf e.text

theorem reread_new {key value : Text} (hk : GoodKey key) :
    reread ⟨some key, some value, none⟩ = ⟨some key, some value, some (pairLine key value)⟩ :=
  entryOf_pair hk.nonempty hk.colon value

theorem reread_entries {src : Text} {e : Entry} (h : e ∈ (parse src).entries) : reread e = e := by
  rw [parse_eq] at h
  obtain ⟨l, -, rfl⟩ := List.mem_map.1 h
  rw [reread, text_entryOf]

section Edit

variable {es : List Entry} (hes : ∀ e ∈ es, reread e = e) {key value : Text} (hk : GoodKey key)

include hes hk

theorem find_reread_set : (((setEntry key value es).map reread).find? (·.key = some key)).bind (·.value) =
    some value := by
  induction es with
  | nil => simp [setEntry, reread_new hk]
  | cons e es ih =>
    obtain ⟨he, hes⟩ := List.forall_mem_cons.1 hes
    unfold setEntry
    split_ifs with hkey
    · rw [List.map_cons, hkey, reread_new hk]
      simp
    · rw [List.map_cons, he, List.find?_cons_of_neg (by simpa using hkey)]
      exact ih hes

theorem eraseP_reread_set : ((setEntry key value es).map reread).eraseP (·.key = some key) =
    es.eraseP (·.key = some key) := by
  induction es with
  | nil => simp [setEntry, reread_new hk]
  | cons e es ih =>
    obtain ⟨he, hes⟩ := List.forall_mem_cons.1 hes
    have hsame : es.map reread = es := (List.map_congr_left hes).trans (List.map_id es)
    unfold setEntry
    split_ifs with hkey
    · rw [List.map_cons, hkey, reread_new hk, List.eraseP_cons_of_pos (by simp),
        List.eraseP_cons_of_pos (by simpa using hkey), hsame]
    · rw [List.map_cons, he, List.eraseP_cons_of_neg (by simpa using hkey),
        List.eraseP_cons_of_neg (by simpa using hkey), ih hes]

theorem text_set_reread : (setEntry key value ((setEntry key value es).map reread)).map Entry.text =
    (setEntry key value es).map Entry.text := by
  induction es with
  | nil => simp [setEntry, reread_new hk]
  | cons e es ih =>
    obtain ⟨he, hes⟩ := List.forall_mem_cons.1 hes
    have hsame : es.map reread = es := (List.map_congr_left hes).trans (List.map_id es)
    by_cases hkey : e.key = some key
    · simp [setEntry, hkey, reread_new hk, hsame]
    · have hfirst : setEntry key value (e :: es) = e :: setEntry key value es := if_neg hkey
      rw [hfirst, List.map_cons, he]
      have hagain : setEntry key value (e :: (setEntry key value es).map reread) =
          e :: setEntry key value ((setEntry key value es).map reread) := if_neg hkey
      rw [hagain, List.map_cons, ih hes, List.map_cons]

end Edit

theorem setEntry_twice (key value : Text) (es : List Entry) :
    setEntry key value (setEntry key value es) = setEntry key value es := by
  induction es with
  | nil => simp [setEntry]
  | cons e es ih =>
    by_cases hkey : e.key = some key
    · simp [setEntry, hkey]
    · simp [setEntry, hkey, ih]

/-! ## The two copies -/

theorem isVersionHeader_eq (line : Text) : Import.isVersionHeader line = isHeader line := by
  unfold Import.isVersionHeader isHeader
  split_ifs with hstart
  · rw [hstart]
    have hlength : (versionKey ++ [':']).length = 8 := rfl
    rw [hlength]
    have hne : (line.drop 8 ≠ []) ↔ 8 < line.length := by
      rw [ne_eq, List.drop_eq_nil_iff]
      omega
    simp only [hne, Bool.true_and]
  · simp [hstart]

theorem import_parse (src : Text) : Import.parseOptionsTxt src = parse src := by
  have hline : Import.readLine = readLine := by
    funext p line
    simp only [Import.readLine, readLine, isVersionHeader_eq]
  rw [Import.parseOptionsTxt, parse, hline]

/-- what both copies write alike: entries with a line or with key and value, a header that is not empty -/
structure Written (p : Options) : Prop where
  header : p.header ≠ some []
  entries : ∀ e ∈ p.entries, e.raw ≠ none ∨ e.key ≠ none ∧ e.value ≠ none
  eol : p.eol ≠ []

theorem import_write {p : Options} (h : Written p) : Import.writeOptionsTxt p = p.write := by
  have htext : p.entries.map Import.entryText = p.entries.map Entry.text := by
    apply List.map_congr_left
    intro e he
    obtain ⟨key, value, raw⟩ := e
    cases raw with
    | some line => rfl
    | none =>
      obtain ⟨hkey, hvalue⟩ := (h.entries _ he).resolve_left fun hraw => hraw rfl
      obtain ⟨key, rfl⟩ := Option.ne_none_iff_exists'.1 hkey
      obtain ⟨value, rfl⟩ := Option.ne_none_iff_exists'.1 hvalue
      rfl
  have hheader : p.header.filter (· ≠ []) = p.header := by
    cases hhead : p.header with
    | none => rfl
    | some line =>
      have hline : line ≠ [] := fun hnil => h.header (by rw [hhead, hnil])
      simp [Option.filter, hline]
  have hparts : Import.parts p = p.parts := by rw [Import.parts, Options.parts, htext, hheader]
  unfold Import.writeOptionsTxt Options.write
  rw [hparts, if_neg h.eol]

theorem eolOf_ne (src : Text) : eolOf src ≠ [] := by
  unfold eolOf
  split_ifs <;> simp [crlf, lf]

theorem written_parse (src : Text) : Written (parse src) := by
  rw [parse_eq]
  refine ⟨?_, ?_, eolOf_ne src⟩
  · intro hhead
    exact kept_ne (List.mem_of_find?_eq_some hhead) rfl
  · intro e he
    obtain ⟨l, -, rfl⟩ := List.mem_map.1 he
    exact Or.inl (by rw [raw_entryOf]; exact Option.some_ne_none l)

theorem written_set {p : Options} (h : Written p) (key value : Text) : Written (p.set key value) := by
  refine ⟨h.header, ?_, h.eol⟩
  intro e he
  rcases mem_setEntry he with he | rfl
  · exact h.entries e he
  · exact Or.inr ⟨Option.some_ne_none key, Option.some_ne_none value⟩

/-! ## What is promised -/

/-- every line of the text is followed by the same ending -/
def Uniform (eol text : Text) : Prop :=
  ∃ ls : List Text, text = (ls.map (· ++ eol)).flatten ∧ ∀ l ∈ ls, '\n' ∉ l ∧ (eol = lf → l.getLast? ≠ some '\r')

/-- the text after an edit -/
def edited (src key value : Text) : Text := ((parse src).set key value).write

structure Preserved (src key value : Text) : Prop where
  read : (parse (edited src key value)).get key = some value
  header : (parse (edited src key value)).header = (parse src).header
  others : (parse (edited src key value)).entries.eraseP (·.key = some key) =
    (parse src).entries.eraseP (·.key = some key)
  uniform : ∃ eol ∈ [lf, crlf], Uniform eol (edited src key value)
  twice : ((parse src).set key value).set key value = (parse src).set key value
  again : edited (edited src key value) key value = edited src key value
  stable : (parse (parse src).write).write = (parse src).write
  copies : Import.writeOptionsTxt ((Import.parseOptionsTxt src).set key value) = edited src key value ∧
    Import.writeOptionsTxt (Import.parseOptionsTxt src) = (parse src).write

/-- the whole text is one line, of the key -/
def OnlyLine (src key : Text) : Prop :=
  (parse src).header = none ∧ (parse src).entries.map (·.key) = [some key]

theorem Clean.uniform {p : Options} (h : Clean p) : ∃ eol ∈ [lf, crlf], Uniform eol p.write := by
  have hflatten : ∀ (cr : Text) (ls : List Text), LineFile.joined '\n' (ls.map (· ++ cr)) =
      (ls.map (· ++ (cr ++ ['\n']))).flatten := by
    intro cr ls
    induction ls with
    | nil => rfl
    | cons l ls ih => simp [ih]
  rcases h.eol with ⟨heol, hend⟩ | heol
  · refine ⟨lf, by simp, p.parts, ?_, fun l hl => ⟨(h.lines l hl).2, fun _ => hend l hl⟩⟩
    exact (write_eq [] heol).trans (hflatten [] p.parts)
  · refine ⟨crlf, by simp, p.parts, ?_, fun l hl => ⟨(h.lines l hl).2, fun heq => absurd heq (by decide)⟩⟩
    exact (write_eq ['\r'] heol).trans (hflatten ['\r'] p.parts)

theorem copies (src key value : Text) :
    Import.writeOptionsTxt ((Import.parseOptionsTxt src).set key value) = edited src key value ∧
      Import.writeOptionsTxt (Import.parseOptionsTxt src) = (parse src).write := by
  rw [import_parse]
  exact ⟨import_write (written_set (written_parse src) key value), import_write (written_parse src)⟩

/-- what an edit keeps once its document is clean -/
theorem preserved_of_clean {src key value : Text} (hk : GoodKey key)
    (hclean : Clean ((parse src).set key value)) (hstable : (parse (parse src).write).write = (parse src).write) :
    Preserved src key value := by
  have hread := hclean.parse_write (set_parts_ne (parse src) key value)
  have hes : ∀ e ∈ (parse src).entries, reread e = e := fun e he => reread_entries he
  have hentries : (parse (edited src key value)).entries = (setEntry key value (parse src).entries).map reread := by
    rw [edited, hread]
    rfl
  have hheader : (parse (edited src key value)).header = (parse src).header := by
    rw [edited, hread]
    rfl
  refine ⟨?_, hheader, ?_, hclean.uniform, ?_, ?_, hstable, copies src key value⟩
  · rw [Options.get, hentries]
    exact find_reread_set hes hk
  · rw [hentries]
    exact eraseP_reread_set hes hk
  · exact congrArg (fun es => { parse src with entries := es }) (setEntry_twice key value _)
  · have hparts : ((parse (edited src key value)).set key value).parts = ((parse src).set key value).parts := by
      unfold Options.parts
      simp only [Options.set, hheader, hentries, text_set_reread hes hk]
    have heol : ((parse (edited src key value)).set key value).eol = ((parse src).set key value).eol := by
      rw [edited, hread]
      rfl
    rw [edited, Options.write, hparts, heol]
    rfl

theorem stable_of_clean {src : Text} (h : Clean (parse src)) : (parse (parse src).write).write = (parse src).write := by
  by_cases hne : (parse src).parts = []
  · have hempty : (parse src).write = [] := if_pos hne
    rw [hempty]
    rfl
  · rw [h.parse_write hne]
    have hsame : (parse src).entries.map (fun e => entryOf e.text) = (parse src).entries :=
      (List.map_congr_left fun e he => reread_entries he).trans (List.map_id _)
    rw [hsame]

/-! ## Texts that end in two returns -/

/-- the last line of such a text keeps a return, and the others have none -/
theorem exists_last {src : Text} (h : ¬ Readable src) : ∃ ls line, kept src = ls ++ [line] ∧
    line.getLast? = some '\r' ∧ (∀ l ∈ ls, l.getLast? ≠ some '\r') ∧ eolOf src = lf := by
  obtain ⟨hpair, hend⟩ := not_or.1 h
  rw [not_not] at hend
  obtain ⟨ls, last, hsplit, hsrc, hls, hlast⟩ := exists_lines src
  have hends : ¬ ∃ l ∈ ls, l.getLast? = some '\r' := by
    rw [← crlf_infix hls hlast, ← hsrc]
    exact hpair
  rw [hsrc, returns_suffix] at hend
  obtain ⟨front, rfl⟩ := hend
  have hdrop : dropCr (front ++ ['\r', '\r']) = front ++ ['\r'] := by
    simpa using dropCr_append (front ++ ['\r'])
  have hsame : ls.map dropCr = ls :=
    (List.map_congr_left fun l hl => dropCr_eq fun hr => hends ⟨l, hl, hr⟩).trans (List.map_id ls)
  refine ⟨ls.filter (· ≠ []), front ++ ['\r'], ?_, by simp, ?_, if_neg hpair⟩
  · rw [kept, linesOf, hsplit, List.map_append, hsame, List.map_singleton, hdrop, List.filter_append]
    simp
  · exact fun l hl hr => hends ⟨l, (List.mem_filter.1 hl).1, hr⟩

/-- the key of a line is what stands before its first colon -/
theorem key_entryOf {l key : Text} (h : (entryOf l).key = some key) : ∃ value, l = pairLine key value := by
  unfold entryOf at h
  split at h
  · rename_i i hi
    obtain ⟨hlt, hat, -⟩ := List.idxOf?_eq_some_iff.1 hi
    cases h
    refine ⟨l.drop (i + 2), ?_⟩
    have hcolon : l.drop (i + 1) = ':' :: l.drop (i + 2) := by
      rw [List.drop_eq_getElem_cons hlt, hat]
    rw [pairLine, ← hcolon, List.take_append_drop]
  · cases h

/-- a document of one line that loses its return is written alike again -/
theorem stable_onlyLine {src key : Text} (hk : GoodKey key) (h : ¬ Readable src) (honly : OnlyLine src key) :
    (parse (parse src).write).write = (parse src).write := by
  obtain ⟨ls, line, hkept, hret, -, heol⟩ := exists_last h
  have hhead : isHeader line = false := by
    by_contra hhead
    exact header_end (by simpa using hhead) hret
  have hparse := parse_eq src
  obtain ⟨hheader, hkeys⟩ := honly
  rw [hparse] at hheader hkeys
  dsimp only at hheader hkeys
  have hnone : ∀ l ∈ kept src, ¬ isHeader l = true := List.find?_eq_none.1 hheader
  rw [List.eraseP_of_forall_not hnone, hkept] at hkeys
  have hls : ls = [] := by
    have hlength := congrArg List.length hkeys
    simpa using hlength
  subst hls
  have hkey : (entryOf line).key = some key := by simpa using hkeys
  obtain ⟨value, hline⟩ := key_entryOf hkey
  -- the return is the value's
  obtain ⟨value, rfl⟩ : ∃ front, value = front ++ ['\r'] := by
    refine ⟨value.dropLast, (List.dropLast_append_getLast? '\r' ?_).symm⟩
    rw [hline, pairLine] at hret
    cases value with
    | nil => simp at hret
    | cons c cs => simpa using hret
  have hentries : parse src = ⟨none, [entryOf line], lf⟩ := by
    rw [hparse, hkept, heol, List.find?_eq_none.2 (by simpa using hhead),
      List.eraseP_of_forall_not (by simpa using hhead)]
    rfl
  have hnewline : '\n' ∉ pairLine key value := by
    intro hmem
    have hlast : line ∈ kept src := by
      rw [hkept]
      simp
    have hplain : '\n' ∉ line := kept_plain hlast
    apply hplain
    rw [hline, pairLine, ← List.cons_append, ← List.append_assoc]
    exact List.mem_append_left _ hmem
  have hclean : Clean ⟨none, [entryOf (pairLine key value)], crlf⟩ := by
    refine ⟨by simp, ?_, ?_, Or.inr rfl⟩
    · intro _ e he
      rw [List.mem_singleton.1 he, text_entryOf]
      exact pairLine_header hk value
    · intro l hl
      have hl : l = pairLine key value := by simpa [Options.parts] using hl
      subst hl
      exact ⟨by simp [pairLine], hnewline⟩
  have hwrite : (parse src).write = (⟨none, [entryOf (pairLine key value)], crlf⟩ : Options).write := by
    rw [hentries, hline]
    simp [Options.write, Options.parts, lf, crlf, pairLine]
  rw [hwrite, hclean.parse_write (by simp [Options.parts])]
  simp

theorem clean_onlyLine {src key value : Text} (hk : GoodKey key) (hv : GoodValue value) (h : ¬ Readable src)
    (honly : OnlyLine src key) : Clean ((parse src).set key value) := by
  obtain ⟨ls, line, -, -, -, heol⟩ := exists_last h
  obtain ⟨hne, hplain, hend⟩ := pairLine_lines hk hv
  have hset : setEntry key value (parse src).entries = [⟨some key, some value, none⟩] := by
    cases hes : (parse src).entries with
    | nil => rfl
    | cons e es =>
      have hkeys := honly.2
      rw [hes, List.map_cons, List.cons.injEq, List.map_eq_nil_iff] at hkeys
      obtain ⟨hkey, rfl⟩ := hkeys
      simp [setEntry, hkey]
  have hparts : ((parse src).set key value).parts = [pairLine key value] := by
    simp only [Options.parts, Options.set, honly.1, hset]
    rfl
  refine ⟨?_, ?_, ?_, Or.inl ⟨?_, ?_⟩⟩
  · intro line hline
    rw [Options.set, honly.1] at hline
    cases hline
  · intro _ e he
    rw [Options.set, hset, List.mem_singleton] at he
    subst he
    exact pairLine_header hk value
  · intro l hl
    rw [hparts, List.mem_singleton] at hl
    subst hl
    exact ⟨hne, hplain⟩
  · rw [Options.set, parse_eq]
    exact heol
  · intro l hl
    rw [hparts, List.mem_singleton] at hl
    subst hl
    exact hend

/-- an entry that keeps its return is another one when it is read back -/
theorem entry_lost {src key value : Text} (hk : GoodKey key) (hv : GoodValue value) (h : ¬ Readable src)
    (hkeep : ∃ line, line.getLast? = some '\r' ∧ entryOf line ∈ (parse src).entries.eraseP (·.key = some key)) :
    ¬ Preserved src key value := by
  intro hpreserved
  obtain ⟨ls, last, hkept, -, hends, heol⟩ := exists_last h
  obtain ⟨line, hret, hmem⟩ := hkeep
  have hlines : ∀ l ∈ ((parse src).set key value).parts, '\n' ∉ l := by
    intro l hl
    rcases mem_set_parts hl with hl | rfl
    · exact kept_plain (mem_parts_parse hl)
    · exact (pairLine_lines hk hv).2.1
  have hwrite : edited src key value = LineFile.joined '\n' ((parse src).set key value).parts := by
    have heol' : ((parse src).set key value).eol = [] ++ ['\n'] := by
      rw [Options.set, parse_eq]
      exact heol
    rw [edited]
    simpa using write_eq [] heol'
  -- the entry is read back, so some written line ends in two returns
  have hback : entryOf line ∈ (parse (edited src key value)).entries := by
    rw [← hpreserved.others] at hmem
    exact List.mem_of_mem_eraseP hmem
  obtain ⟨part, hpart, hdrop⟩ : ∃ part ∈ ((parse src).set key value).parts, dropCr part = line := by
    rw [parse_eq] at hback
    obtain ⟨l, hl, heq⟩ := List.mem_map.1 hback
    have hsame : l = line := by
      have hraw := congrArg Entry.raw heq
      rw [raw_entryOf, raw_entryOf] at hraw
      exact Option.some.inj hraw
    subst hsame
    have hl := (List.mem_filter.1 (List.mem_of_mem_eraseP hl)).1
    rw [hwrite, linesOf_joined hlines, List.mem_append, List.mem_singleton] at hl
    rcases hl with hl | rfl
    · exact List.mem_map.1 hl
    · cases hret
  have hlong := eq_append_of_dropCr (by rw [hdrop, hret])
  rw [hdrop] at hlong
  have hpartret : part.getLast? = some '\r' := by rw [hlong]; simp
  -- but only the last line ends in a return at all
  have hlast : ∀ l ∈ kept src, l.getLast? = some '\r' → l = last := by
    intro l hl hr
    rw [hkept, List.mem_append, List.mem_singleton] at hl
    exact hl.resolve_left fun hl => hends l hl hr
  rcases mem_set_parts hpart with hpart | rfl
  · have hfirst : part = last := hlast part (mem_parts_parse hpart) hpartret
    have hsecond : line = last := by
      refine hlast line ?_ hret
      have hmem := List.mem_of_mem_eraseP hmem
      rw [parse_eq] at hmem
      obtain ⟨l, hl, heq⟩ := List.mem_map.1 hmem
      have hraw := congrArg Entry.raw heq
      rw [raw_entryOf, raw_entryOf] at hraw
      rw [← Option.some.inj hraw]
      exact List.mem_of_mem_eraseP hl
    rw [hfirst, hsecond] at hlong
    have hlength := congrArg List.length hlong
    simp at hlength
  · exact (pairLine_lines hk hv).2.2 hpartret

/-- a line in front of one that keeps its return changes its ending -/
theorem ending_changed {src : Text} (h : ¬ Readable src) {front : List Text} {line : Text}
    (hparts : (parse src).parts = front ++ [line]) (hret : line.getLast? = some '\r') (hne : front ≠ [])
    (hends : ∀ l ∈ front, l.getLast? ≠ some '\r') : (parse (parse src).write).write ≠ (parse src).write := by
  intro heq
  obtain ⟨-, -, -, -, -, heol⟩ := exists_last h
  have hlines : ∀ l ∈ (parse src).parts, '\n' ∉ l := fun l hl => kept_plain (mem_parts_parse hl)
  have hwrite : (parse src).write = LineFile.joined '\n' (parse src).parts := by
    have heol' : (parse src).eol = [] ++ ['\n'] := by
      rw [parse_eq]
      exact heol
    simpa using write_eq [] heol'
  have hpair : (parse (parse src).write).eol = ['\r'] ++ ['\n'] := by
    rw [parse_eq]
    refine if_pos ?_
    have hinside := crlf_infix hlines (List.not_mem_nil (a := '\n'))
    rw [List.append_nil] at hinside
    rw [hwrite, hinside]
    exact ⟨line, by rw [hparts]; simp, hret⟩
  have hlines' : ∀ l ∈ (parse (parse src).write).parts.map (· ++ ['\r']), '\n' ∉ l := by
    intro l hl
    obtain ⟨part, hpart, rfl⟩ := List.mem_map.1 hl
    simpa using kept_plain (mem_parts_parse hpart)
  have hsame : LineFile.joined '\n' ((parse (parse src).write).parts.map (· ++ ['\r'])) =
      LineFile.joined '\n' (parse src).parts :=
    calc LineFile.joined '\n' ((parse (parse src).write).parts.map (· ++ ['\r']))
        = (parse (parse src).write).write := (write_eq ['\r'] hpair).symm
      _ = (parse src).write := heq
      _ = LineFile.joined '\n' (parse src).parts := hwrite
  have hsplit := congrArg (List.splitOn '\n') hsame
  have hread := LineFile.splitOn_joined '\n' hlines' []
  have hread' := LineFile.splitOn_joined '\n' hlines []
  rw [List.append_nil] at hread hread'
  rw [hread, hread', List.append_cancel_right_eq, hparts] at hsplit
  obtain ⟨l, rest, hfront⟩ := List.exists_cons_of_ne_nil hne
  have hmem : l ∈ (parse (parse src).write).parts.map (· ++ ['\r']) := by
    rw [hsplit, hfront]
    exact List.mem_append_left _ List.mem_cons_self
  obtain ⟨part, -, rfl⟩ := List.mem_map.1 hmem
  exact hends _ (by rw [hfront]; exact List.mem_cons_self) (by simp)

/-- **Options edits.** For every text, key and value: the edit is read back, everything else is kept, nothing changes
the second time and both copies write the same, exactly when the text has a CR LF or does not end in two returns, or is
one line of that key. -/
theorem options_preserved_iff {src key value : Text} (hk : GoodKey key) (hv : GoodValue value) :
    Preserved src key value ↔ Readable src ∨ OnlyLine src key := by
  constructor
  · intro hpreserved
    by_contra hnot
    obtain ⟨h, honly⟩ := not_or.1 hnot
    obtain ⟨ls, line, hkept, hret, hends, -⟩ := exists_last h
    have hhead : ¬ isHeader line = true := fun hhead => header_end hhead hret
    have hparse := parse_eq src
    rw [hkept, List.find?_append, List.find?_singleton, if_neg hhead, Option.or_none] at hparse
    have herase : (ls ++ [line]).eraseP isHeader = ls.eraseP isHeader ++ [line] := by
      rw [List.eraseP_append]
      split_ifs with hany
      · rfl
      · have hnone : ∀ l ∈ ls, ¬ isHeader l = true := fun l hl hl' => hany (List.any_eq_true.2 ⟨l, hl, hl'⟩)
        rw [List.eraseP_of_forall_not hnone, List.eraseP_of_forall_not (by simpa using hhead)]
    rw [herase, List.map_append, List.map_singleton] at hparse
    by_cases hkeep : entryOf line ∈ (parse src).entries.eraseP (·.key = some key)
    · exact entry_lost hk hv h ⟨line, hret, hkeep⟩ hpreserved
    · -- the last line is the first one of the key, so there are lines in front of it
      rw [hparse, List.eraseP_append] at hkeep
      split_ifs at hkeep with hany
      · exact hkeep (by simp)
      · by_cases hkey : (entryOf line).key = some key
        · have hparts : (parse src).parts = ((ls.find? isHeader).toList ++ ls.eraseP isHeader) ++ [line] := by
            rw [hparse]
            simp [Options.parts, Function.comp_def]
          refine ending_changed h hparts hret ?_ ?_ hpreserved.stable
          · intro hnil
            obtain ⟨hnone, hrest⟩ := List.append_eq_nil_iff.1 hnil
            have hnone : ls.find? isHeader = none := by simpa using hnone
            refine honly ⟨?_, ?_⟩
            · rw [hparse]
              exact hnone
            · rw [hparse, hrest]
              simp [hkey]
          · intro l hl
            rcases List.mem_append.1 hl with hl | hl
            · exact hends l (List.mem_of_find?_eq_some (Option.mem_toList.1 hl))
            · exact hends l (List.mem_of_mem_eraseP hl)
        · exact hkeep (by simp [hkey])
  · rintro (h | honly)
    · exact preserved_of_clean hk (clean_set (clean_parse h) hk hv) (stable_of_clean (clean_parse h))
    · by_cases h : Readable src
      · exact preserved_of_clean hk (clean_set (clean_parse h) hk hv) (stable_of_clean (clean_parse h))
      · exact preserved_of_clean hk (clean_onlyLine hk hv h honly) (stable_onlyLine hk h honly)

theorem options_preserved_fov : Preserved "version:3700\r\nfov:0.5\r\n".toList "fov".toList "1.5".toList :=
  (options_preserved_iff ⟨by decide, by decide, by decide, by decide, by decide⟩ ⟨by decide, by decide⟩).2
    (Or.inl (Or.inl (by decide)))

/-- written and read back, a text that ends in two returns changes its line endings -/
theorem returns_lost : ¬ ∀ src key value : Text, GoodKey key → GoodValue value → Preserved src key value := by
  intro h
  have hkept := h "fov:0.5\nlang:es\r\r".toList "gamma".toList "1.0".toList
    ⟨by decide, by decide, by decide, by decide, by decide⟩ ⟨by decide, by decide⟩
  exact absurd hkept.stable (by decide)

end EspectralClient.OptionsTxt
