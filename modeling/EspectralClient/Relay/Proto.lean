/-
The relay handshake line (`services/ruta-relay/src/proto.rs`): `ERT1 <grant> <dest-ip> <dest-port>\n`, read from a stream
that arrives in arbitrary pieces.

- `readHeader`, `parseHeader`: the reader loop over its 4096-byte buffer and the parser of one line, on bytes.
- `Grammar`: what a line must be, and what the request says of it.
- `parseHeader_grammar`: the parser accepts exactly the grammar.
- `readLoop_spec`: how the network fragments the line does not matter; every round of the loop keeps the buffer a
  newline-free prefix of the stream.
- `read_header_grammar`: the two together.
-/
import EspectralClient.Relay.IpAddr

namespace EspectralClient.Proto

/-! ## Model -/

/-- the outcome codes; the reader answers only `proto` -/
inductive Code where
  | proto | auth | expired | notMvp | dest | limit | connect | busy | idle | closed | error
deriving DecidableEq, Repr

/-- hard cap from the protocol: the whole line including `\n` -/
def maxHeaderLine : ℕ := 4096

/-- a parsed handshake line; the grant is ASCII text, given by its bytes -/
structure Request where
  grant : List UInt8
  dest : SocketAddr
deriving DecidableEq, Repr

def newline : UInt8 := 0x0a

def space : UInt8 := 0x20

/-- `"ERT1"` -/
def version : List UInt8 := [0x45, 0x52, 0x54, 0x31]

def isAsciiDigit (b : UInt8) : Bool := 0x30 ≤ b ∧ b ≤ 0x39

/-- `u16::from_str`: an optional `+`, then decimal digits whose value fits -/
def u16FromStr (s : List UInt8) : Option UInt16 :=
  let digits := if s.head? = some 0x2b ∧ s ≠ [0x2b] then s.tail else s
  if digits = [] then none
  else
    (digits.foldlM (fun v b =>
      match IpAddr.toDigit 10 b with
      | some d => if v * 10 + d ≤ 65535 then some (v * 10 + d) else none
      | none => none) 0).map UInt16.ofNat

def parsePort (port : List UInt8) : Except Code UInt16 :=
  if port = [] ∨ port.all isAsciiDigit = false then .error .proto
  else
    match u16FromStr port with
    | none => .error .proto
    | some p => if p = 0 then .error .proto else .ok p

/-- a header line without its trailing `\n` -/
def parseHeader (line : List UInt8) : Except Code Request :=
  if line = [] ∨ maxHeaderLine ≤ line.length then .error .proto
  else if line.all (· < 0x80) = false then .error .proto
  else
    match line.splitOn space with
    | [v, grant, ip, port] =>
      if v ≠ version then .error .proto
      else if grant = [] ∨ ip = [] ∨ port = [] then .error .proto
      else
        match IpAddr.fromStr ip with
        | none => .error .proto
        | some ip =>
          match parsePort port with
          | .error c => .error c
          | .ok port => .ok ⟨grant, ip, port⟩
    | _ => .error .proto

/-- bytes that arrive together -/
abbrev Chunk := { bytes : List UInt8 // bytes ≠ [] }

/-- one `read` into a buffer with `room` bytes left: at most that many of the next chunk, the others stay -/
def readSome (room : ℕ) (c : Chunk) (unread : List Chunk) : List UInt8 × List Chunk :=
  if h : c.1.drop room = [] then (c.1, unread) else (c.1.take room, ⟨c.1.drop room, h⟩ :: unread)

theorem readSome_fst (room : ℕ) (c : Chunk) (unread : List Chunk) : (readSome room c unread).1 = c.1.take room := by
  unfold readSome
  split_ifs with h
  · rw [List.take_of_length_le (List.drop_eq_nil_iff.1 h)]
  · rfl

/-- the reader loop: the bytes already in the buffer, and the chunks not yet read. The end of the stream and a failed
read are answered alike. -/
def readLoop (buf : List UInt8) (unread : List Chunk) : Except Code (Request × List UInt8) × List Chunk :=
  if _hfull : maxHeaderLine ≤ buf.length then (.error .proto, unread)
  else
    match unread with
    | [] => (.error .proto, [])
    | c :: cs =>
      let r := readSome (maxHeaderLine - buf.length) c cs
      let buf' := buf ++ r.1
      match buf'.findIdx? (· == newline) with
      | some pos =>
        match parseHeader (buf'.take pos) with
        | .error e => (.error e, r.2)
        | .ok req => (.ok (req, buf'.drop (pos + 1)), r.2)
      | none => readLoop buf' r.2
termination_by maxHeaderLine - buf.length
decreasing_by
  -- a read into a buffer with room returns at least one byte
  have hc : 0 < c.1.length := List.length_pos_iff.2 c.2
  rw [readSome_fst, List.length_append, List.length_take]
  omega

/-- the answer, and what is left unread -/
def readHeader (unread : List Chunk) : Except Code (Request × List UInt8) × List Chunk := readLoop [] unread

/-- the bytes of the chunks, in order -/
def stream (unread : List Chunk) : List UInt8 := (unread.map Subtype.val).flatten

/-! ## The grammar -/

/-- the value of a decimal digit string -/
def decimal (digits : List UInt8) : ℕ := digits.foldl (fun v b => v * 10 + (b.toNat - 0x30)) 0

/-- the line `ERT1 <grant> <ip> <port>` and the request that carries its fields -/
structure Grammar (line grant ip port : List UInt8) (req : Request) : Prop where
  form : line = version ++ space :: (grant ++ space :: (ip ++ space :: port))
  ascii : ∀ b ∈ line, b < 0x80
  spaces : line.count space = 3
  grant_ne : grant ≠ []
  grant_space : space ∉ grant
  port_ne : port ≠ []
  port_digits : ∀ b ∈ port, isAsciiDigit b
  port_range : 1 ≤ decimal port ∧ decimal port ≤ 65535
  req_grant : req.grant = grant
  req_ip : IpAddr.fromStr ip = some req.dest.ip
  req_port : req.dest.port.toNat = decimal port

/-! ### Fields -/

theorem space_not_mem_splitOn (line : List UInt8) : ∀ f ∈ line.splitOn space, space ∉ f := by
  induction line with
  | nil => simp
  | cons b line ih =>
    rw [List.splitOn_cons_eq_if_modifyHead]
    split_ifs with hb
    · intro f hf
      rcases List.mem_cons.1 hf with rfl | hf
      · exact List.not_mem_nil
      · exact ih f hf
    · cases hs : line.splitOn space with
      | nil => simp
      | cons f fs =>
        rw [hs] at ih
        have hb : b ≠ space := by simpa using hb
        intro g hg
        rcases List.mem_cons.1 hg with rfl | hg
        · have := ih f List.mem_cons_self
          simp [hb.symm, this]
        · exact ih g (List.mem_cons_of_mem f hg)

/-- four fields, however the line was split -/
theorem splitOn_four (line a b c d : List UInt8) : line.splitOn space = [a, b, c, d] ↔
    line = a ++ space :: (b ++ space :: (c ++ space :: d)) ∧ space ∉ a ∧ space ∉ b ∧ space ∉ c ∧ space ∉ d := by
  constructor
  · intro h
    have hmem := space_not_mem_splitOn line
    rw [h] at hmem
    refine ⟨?_, hmem a (by simp), hmem b (by simp), hmem c (by simp), hmem d (by simp)⟩
    have hjoin : [space].intercalate (line.splitOn space) = line := List.intercalate_splitOn space
    rw [h] at hjoin
    simpa [List.intercalate, List.intersperse] using hjoin.symm
  · rintro ⟨rfl, ha, hb, hc, hd⟩
    rw [List.splitOn_append_cons_self_of_not_mem ha, List.splitOn_append_cons_self_of_not_mem hb,
      List.splitOn_append_cons_self_of_not_mem hc, List.splitOn_eq_singleton hd]

/-! ### The port -/

theorem digit_toDigit {b : UInt8} (h : isAsciiDigit b) : IpAddr.toDigit 10 b = some (b.toNat - 0x30) := by
  simp only [isAsciiDigit, decide_eq_true_eq] at h
  have h1 : 0x30 ≤ b.toNat := UInt8.le_iff_toNat_le.1 h.1
  have h2 : b.toNat ≤ 0x39 := UInt8.le_iff_toNat_le.1 h.2
  simp only [IpAddr.toDigit, h.1, h.2, and_self, if_true, Option.filter_some]
  rw [if_pos (by simp; omega)]

/-- reading more digits never makes the value smaller -/
theorem le_decimal (v : ℕ) (digits : List UInt8) : v ≤ digits.foldl (fun v b => v * 10 + (b.toNat - 0x30)) v := by
  induction digits generalizing v with
  | nil => exact le_rfl
  | cons b digits ih => exact le_trans (by omega) (ih (v * 10 + (b.toNat - 0x30)))

theorem checked_decimal (digits : List UInt8) (hd : ∀ b ∈ digits, isAsciiDigit b) (v : ℕ) (hv : v ≤ 65535) :
    digits.foldlM (fun v b =>
      match IpAddr.toDigit 10 b with
      | some d => if v * 10 + d ≤ 65535 then some (v * 10 + d) else none
      | none => none) v =
    if digits.foldl (fun v b => v * 10 + (b.toNat - 0x30)) v ≤ 65535
      then some (digits.foldl (fun v b => v * 10 + (b.toNat - 0x30)) v) else none := by
  induction digits generalizing v with
  | nil => simp [hv]
  | cons b digits ih =>
    rw [List.foldlM_cons, List.foldl_cons, digit_toDigit (hd b List.mem_cons_self)]
    dsimp only
    split_ifs with h1 h2 h2
    · rw [Option.bind_eq_bind, Option.bind_some, ih (fun c hc => hd c (List.mem_cons_of_mem b hc)) _ h1, if_pos h2]
    · rw [Option.bind_eq_bind, Option.bind_some, ih (fun c hc => hd c (List.mem_cons_of_mem b hc)) _ h1, if_neg h2]
    · -- an overflow on the way would show in the value
      exact absurd (le_trans (le_decimal _ digits) h2) h1
    · rfl

theorem u16FromStr_digits (digits : List UInt8) (hne : digits ≠ []) (hd : ∀ b ∈ digits, isAsciiDigit b) :
    u16FromStr digits = if decimal digits ≤ 65535 then some (UInt16.ofNat (decimal digits)) else none := by
  have hplus : digits.head? ≠ some 0x2b := fun h =>
    absurd (hd 0x2b (List.mem_of_head? h)) (by decide)
  have hdigits : (if digits.head? = some 0x2b ∧ digits ≠ [0x2b] then digits.tail else digits) = digits :=
    if_neg fun h => hplus h.1
  unfold u16FromStr
  simp only [hdigits, hne, if_false]
  rw [checked_decimal digits hd 0 (by decide), ← decimal]
  split_ifs <;> rfl

theorem parsePort_ok (port : List UInt8) (p : UInt16) : parsePort port = .ok p ↔
    port ≠ [] ∧ (∀ b ∈ port, isAsciiDigit b) ∧ (1 ≤ decimal port ∧ decimal port ≤ 65535) ∧ p.toNat = decimal port := by
  unfold parsePort
  by_cases hd : port ≠ [] ∧ ∀ b ∈ port, isAsciiDigit b
  · obtain ⟨hne, hd⟩ := hd
    rw [if_neg (by simp [hne]; exact hd), u16FromStr_digits port hne hd]
    by_cases hle : decimal port ≤ 65535
    · have hval : (UInt16.ofNat (decimal port)).toNat = decimal port := by
        rw [UInt16.toNat_ofNat']; omega
      have hzero : UInt16.ofNat (decimal port) = 0 ↔ decimal port = 0 := by
        rw [← UInt16.toNat_inj, hval]; rfl
      simp only [if_pos hle, hzero]
      constructor
      · intro h
        split_ifs at h with h0
        cases h
        exact ⟨hne, hd, ⟨by omega, hle⟩, hval⟩
      · rintro ⟨-, -, ⟨h1, -⟩, hp⟩
        rw [if_neg (by omega), ← UInt16.toNat_inj.1 (hval.trans hp.symm)]
    · rw [if_neg hle]
      exact ⟨fun h => (nomatch h), fun h => absurd h.2.2.1.2 hle⟩
  · rw [if_pos]
    · exact ⟨fun h => (nomatch h), fun h => absurd ⟨h.1, h.2.1⟩ hd⟩
    · by_contra hn
      refine hd ?_
      simpa [not_or] using hn

theorem parsePort_error (port : List UInt8) {c : Code} (h : parsePort port = .error c) : c = .proto := by
  unfold parsePort at h
  split_ifs at h
  · cases h; rfl
  · split at h
    · cases h; rfl
    · split_ifs at h
      cases h; rfl

/-! ### The line -/

/-- the parser answers a request or `proto` -/
theorem parseHeader_error (line : List UInt8) {c : Code} (h : parseHeader line = .error c) : c = .proto := by
  unfold parseHeader at h
  split_ifs at h
  · cases h; rfl
  · cases h; rfl
  · split at h
    · split_ifs at h
      · cases h; rfl
      · cases h; rfl
      · split at h
        · cases h; rfl
        · split at h
          · cases h
            exact parsePort_error _ ‹_›
          · cases h
    · cases h; rfl

theorem count_of_fields {a b c d : List UInt8} (ha : space ∉ a) :
    (a ++ space :: (b ++ space :: (c ++ space :: d))).count space = 3 ↔ space ∉ b ∧ space ∉ c ∧ space ∉ d := by
  simp only [List.count_append, List.count_cons_self, List.count_eq_zero_of_not_mem ha]
  rw [← List.count_eq_zero, ← List.count_eq_zero, ← List.count_eq_zero]
  omega

/-- **The parser accepts exactly the grammar**, on lines below the cap. -/
theorem parseHeader_grammar (line : List UInt8) (req : Request) (hlen : line.length < maxHeaderLine) :
    parseHeader line = .ok req ↔ ∃ grant ip port, Grammar line grant ip port req := by
  have hversion : space ∉ version := by decide
  constructor
  · intro h
    unfold parseHeader at h
    split_ifs at h with h1 h2
    split at h
    · rename_i v grant ip port hs
      split_ifs at h with h3 h4
      obtain ⟨hform, -, hg, hi, hp⟩ := (splitOn_four line v grant ip port).1 hs
      simp only [ne_eq, not_not] at h3
      subst h3
      split at h
      · cases h
      · rename_i addr hip
        split at h
        · cases h
        · rename_i p hport
          cases h
          obtain ⟨hne, hd, hr, hv⟩ := (parsePort_ok port p).1 hport
          refine ⟨grant, ip, port, hform, ?_, ?_, fun hn => h4 (Or.inl hn), hg, hne, hd, hr, rfl, hip, hv⟩
          · simpa using h2
          · rw [hform]; exact (count_of_fields hversion).2 ⟨hg, hi, hp⟩
    · cases h
  · rintro ⟨grant, ip, port, g⟩
    have hspaces := g.spaces
    rw [g.form, count_of_fields hversion] at hspaces
    obtain ⟨hg, hi, hp⟩ := hspaces
    have hsplit : line.splitOn space = [version, grant, ip, port] :=
      (splitOn_four line version grant ip port).2 ⟨g.form, hversion, hg, hi, hp⟩
    have hline : line ≠ [] := by rw [g.form]; simp [version]
    have hip : ip ≠ [] := by
      rintro rfl
      have := g.req_ip
      rw [IpAddr.fromStr_nil] at this
      cases this
    have hport : parsePort port = .ok req.dest.port :=
      (parsePort_ok port _).2 ⟨g.port_ne, g.port_digits, g.port_range, g.req_port⟩
    unfold parseHeader
    rw [if_neg (by simp [hline, hlen]), if_neg (by simpa using g.ascii), hsplit]
    simp [hip, g.port_ne, g.req_ip, hport, ← g.req_grant]
    exact g.req_grant ▸ g.grant_ne

/-! ## The reader loop -/

/-- the position of the first newline splits the bytes -/
theorem findIdx?_newline {buf : List UInt8} {pos : ℕ} (h : buf.findIdx? (· == newline) = some pos) :
    buf = buf.take pos ++ newline :: buf.drop (pos + 1) ∧ newline ∉ buf.take pos ∧ pos < buf.length := by
  obtain ⟨hlt, hat, hbefore⟩ := List.findIdx?_eq_some_iff_getElem.1 h
  refine ⟨?_, ?_, hlt⟩
  · have hb : buf[pos] = newline := by simpa using hat
    rw [← hb, ← List.drop_eq_getElem_cons hlt, List.take_append_drop]
  · intro hmem
    obtain ⟨j, hj, he⟩ := List.mem_take_iff_getElem.1 hmem
    exact hbefore j (by omega) (by simp [he])

theorem readSome_stream (room : ℕ) (c : Chunk) (cs : List Chunk) :
    (readSome room c cs).1 ++ stream (readSome room c cs).2 = c.1 ++ stream cs := by
  unfold readSome stream
  split_ifs
  · rfl
  · simp [← List.append_assoc]

theorem readSome_buffer (buf : List UInt8) (room : ℕ) (c : Chunk) (cs : List Chunk) :
    buf ++ (readSome room c cs).1 ++ stream (readSome room c cs).2 = buf ++ stream (c :: cs) := by
  rw [List.append_assoc, readSome_stream]
  simp [stream]

theorem readSome_length {buf : List UInt8} (hlen : buf.length ≤ maxHeaderLine) (c : Chunk) (cs : List Chunk) :
    (buf ++ (readSome (maxHeaderLine - buf.length) c cs).1).length ≤ maxHeaderLine := by
  rw [readSome_fst, List.length_append, List.length_take]
  omega

/-- a newline in the buffer is the first of the stream and within the cap -/
theorem newline_found {buf : List UInt8} {c : Chunk} {cs : List Chunk} {pos : ℕ} (hlen : buf.length ≤ maxHeaderLine)
    (hpos : (buf ++ (readSome (maxHeaderLine - buf.length) c cs).1).findIdx? (· == newline) = some pos) :
    let r := readSome (maxHeaderLine - buf.length) c cs
    let buf' := buf ++ r.1
    buf ++ stream (c :: cs) = buf'.take pos ++ newline :: (buf'.drop (pos + 1) ++ stream r.2) ∧
      newline ∉ buf'.take pos ∧ (buf'.take pos).length < maxHeaderLine := by
  intro r buf'
  obtain ⟨hcut, hnot, hlt⟩ := findIdx?_newline hpos
  have hlt : pos < buf'.length := hlt
  have hroom : buf'.length ≤ maxHeaderLine := readSome_length hlen c cs
  refine ⟨?_, hnot, by rw [List.length_take]; omega⟩
  rw [← List.cons_append, ← List.append_assoc, ← hcut]
  exact (readSome_buffer buf _ c cs).symm

/-- a byte string is cut at its first newline in one way -/
theorem first_newline_unique {a a' b b' : List UInt8} (h : a ++ newline :: b = a' ++ newline :: b')
    (ha : newline ∉ a) (ha' : newline ∉ a') : a = a' ∧ b = b' := by
  induction a generalizing a' with
  | nil =>
    cases a' with
    | nil => exact ⟨rfl, by simpa using h⟩
    | cons x a' =>
      rw [List.nil_append, List.cons_append, List.cons.injEq] at h
      exact absurd (h.1 ▸ List.mem_cons_self) ha'
  | cons x a ih =>
    cases a' with
    | nil =>
      rw [List.nil_append, List.cons_append, List.cons.injEq] at h
      exact absurd (h.1 ▸ List.mem_cons_self) ha
    | cons y a' =>
      rw [List.cons_append, List.cons_append, List.cons.injEq] at h
      obtain ⟨rfl, ht⟩ := h
      obtain ⟨rfl, rfl⟩ := ih ht (fun hm => ha (List.mem_cons_of_mem _ hm)) fun hm => ha' (List.mem_cons_of_mem _ hm)
      exact ⟨rfl, rfl⟩

/-- what the loop answers, by the first newline of the stream -/
def LoopAnswer (total : List UInt8) (answer : Except Code (Request × List UInt8)) (unread : List Chunk) : Prop :=
  (∃ line rest, total = line ++ newline :: (rest ++ stream unread) ∧ newline ∉ line ∧ line.length < maxHeaderLine ∧
      answer = (parseHeader line).map fun req => (req, rest)) ∨
    (∀ line after, total = line ++ newline :: after → newline ∉ line → maxHeaderLine ≤ line.length) ∧
      answer = .error .proto

/-- **Fragmentation does not matter.** From a buffer that holds a newline-free prefix of the stream, the loop answers by
the first newline of the stream. -/
theorem readLoop_spec (buf : List UInt8) (unread : List Chunk) (hbuf : newline ∉ buf)
    (hlen : buf.length ≤ maxHeaderLine) :
    LoopAnswer (buf ++ stream unread) (readLoop buf unread).1 (readLoop buf unread).2 := by
  fun_induction readLoop buf unread with
  | case1 buf unread hfull =>
    refine Or.inr ⟨?_, rfl⟩
    intro line after h hl
    -- the buffer is full and newline-free, so the first newline is past it
    by_contra hlt
    have hpre : line ++ [newline] <+: buf := by
      have htotal : line ++ [newline] <+: buf ++ stream unread := ⟨after, by simp [h]⟩
      refine List.prefix_of_prefix_length_le htotal (List.prefix_append _ _) ?_
      simp; omega
    exact hbuf (hpre.subset (by simp))
  | case2 buf hfull =>
    refine Or.inr ⟨?_, rfl⟩
    intro line after h hl
    have hmem : newline ∈ buf ++ stream [] := by rw [h]; simp
    exact absurd (by simpa [stream] using hmem) hbuf
  | case3 buf hfull c cs r buf' pos hpos e hparse =>
    obtain ⟨htotal, hnot, hlt⟩ := newline_found hlen hpos
    exact Or.inl ⟨_, _, htotal, hnot, hlt, by rw [hparse]; rfl⟩
  | case4 buf hfull c cs r buf' pos hpos req hparse =>
    obtain ⟨htotal, hnot, hlt⟩ := newline_found hlen hpos
    exact Or.inl ⟨_, _, htotal, hnot, hlt, by rw [hparse]; rfl⟩
  | case5 buf hfull c cs r buf' hpos ih =>
    have hnone : newline ∉ buf' := fun hm => by simpa using List.findIdx?_eq_none_iff.1 hpos newline hm
    rw [← readSome_buffer]
    exact ih hnone (readSome_length hlen c cs)

theorem readHeader_spec (chunks : List Chunk) :
    LoopAnswer (stream chunks) (readHeader chunks).1 (readHeader chunks).2 :=
  readLoop_spec [] chunks List.not_mem_nil (Nat.zero_le _)

/-- the reader fails with `proto` only -/
theorem readHeader_error (chunks : List Chunk) {c : Code} (h : (readHeader chunks).1 = .error c) : c = .proto := by
  rcases readHeader_spec chunks with ⟨line, rest, -, -, -, hans⟩ | ⟨-, hans⟩
  · rw [hans] at h
    cases hp : parseHeader line with
    | error e =>
      rw [hp] at h
      cases h
      exact parseHeader_error line hp
    | ok req => rw [hp] at h; cases h
  · rw [hans] at h
    cases h
    rfl

/-- an accepted header is the grammar's line, with what the reader holds and what it left unread behind it -/
theorem readHeader_ok (chunks : List Chunk) {req : Request} {rest : List UInt8}
    (h : (readHeader chunks).1 = .ok (req, rest)) :
    ∃ line, stream chunks = line ++ newline :: (rest ++ stream (readHeader chunks).2) ∧ newline ∉ line ∧
      ∃ grant ip port, Grammar line grant ip port req := by
  rcases readHeader_spec chunks with ⟨line, rest', htotal, hnot, hlen, hans⟩ | ⟨-, hans⟩
  · rw [hans] at h
    cases hp : parseHeader line with
    | error e => rw [hp] at h; cases h
    | ok req' =>
      rw [hp] at h
      cases h
      exact ⟨line, htotal, hnot, (parseHeader_grammar line req hlen).1 hp⟩
  · rw [hans] at h
    cases h

/-- the grammar's line at the head of a stream is accepted -/
theorem readHeader_line (chunks : List Chunk) {line after grant ip port : List UInt8} {req : Request}
    (hstream : stream chunks = line ++ newline :: after) (hnot : newline ∉ line) (hlen : line.length < maxHeaderLine)
    (hg : Grammar line grant ip port req) :
    ∃ rest, (readHeader chunks).1 = .ok (req, rest) ∧ rest ++ stream (readHeader chunks).2 = after := by
  rcases readHeader_spec chunks with ⟨line', rest, htotal, hnot', -, hans⟩ | ⟨hfar, -⟩
  · obtain ⟨rfl, rfl⟩ := first_newline_unique (hstream.symm.trans htotal) hnot hnot'
    refine ⟨rest, ?_, rfl⟩
    rw [hans, (parseHeader_grammar line req hlen).2 ⟨grant, ip, port, hg⟩]
    rfl
  · exact absurd (hfar line after hstream hnot) (not_le.2 hlen)

/-- **Handshake reader.** For every stream and every way it is split into non-empty reads: the reader answers a request
exactly when the stream has a newline within its first 4096 bytes and the bytes before the first one are the grammar's,
with the request that carries them; the bytes it returns and those it left unread are the stream after that newline;
and it answers `proto` in every other case. -/
theorem read_header_grammar (chunks : List Chunk) :
    (∀ req, (∃ rest, (readHeader chunks).1 = .ok (req, rest)) ↔
      ∃ line after, stream chunks = line ++ newline :: after ∧ newline ∉ line ∧ line.length < maxHeaderLine ∧
        ∃ grant ip port, Grammar line grant ip port req) ∧
      (∀ req rest line after, (readHeader chunks).1 = .ok (req, rest) → stream chunks = line ++ newline :: after →
        newline ∉ line → rest ++ stream (readHeader chunks).2 = after) ∧
      ((¬∃ ok, (readHeader chunks).1 = .ok ok) → (readHeader chunks).1 = .error .proto) := by
  have hspec := readLoop_spec [] chunks List.not_mem_nil (Nat.zero_le _)
  rw [List.nil_append] at hspec
  rcases hspec with ⟨line, rest, htotal, hnot, hlen, hans⟩ | ⟨hfar, hans⟩
  · refine ⟨fun req => ⟨?_, ?_⟩, ?_, ?_⟩
    · rintro ⟨rest', hok⟩
      rw [readHeader, hans] at hok
      cases hp : parseHeader line with
      | error e => rw [hp] at hok; cases hok
      | ok req' =>
        rw [hp] at hok
        cases hok
        exact ⟨line, _, htotal, hnot, hlen, (parseHeader_grammar line req hlen).1 hp⟩
    · rintro ⟨line', after, hs, hl, hlen', hg⟩
      obtain ⟨rfl, -⟩ := first_newline_unique (hs.symm.trans htotal) hl hnot
      exact ⟨rest, by rw [readHeader, hans, (parseHeader_grammar line' req hlen).2 hg]; rfl⟩
    · intro req rest' line' after hok hs hl
      obtain ⟨rfl, rfl⟩ := first_newline_unique (hs.symm.trans htotal) hl hnot
      rw [readHeader, hans] at hok
      cases hp : parseHeader line' with
      | error e => rw [hp] at hok; cases hok
      | ok req' => rw [hp] at hok; cases hok; rfl
    · intro hno
      rw [readHeader, hans] at hno ⊢
      cases hp : parseHeader line with
      | error e => rw [parseHeader_error line hp]; rfl
      | ok req => rw [hp] at hno; exact absurd ⟨_, rfl⟩ hno
  · refine ⟨fun req => ⟨?_, ?_⟩, ?_, fun _ => hans⟩
    · rintro ⟨rest, hok⟩
      rw [readHeader, hans] at hok
      cases hok
    · rintro ⟨line, after, hs, hl, hlen, -⟩
      exact absurd (hfar line after hs hl) (not_le.2 hlen)
    · intro req rest' line' after hok hs hl
      rw [readHeader, hans] at hok
      cases hok

end EspectralClient.Proto
