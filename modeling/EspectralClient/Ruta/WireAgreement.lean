/-
The mod and the relay speak one protocol: what `RutaProtocol.handshakeLine` writes is what the relay's `read_header`
reads, and the line the relay answers with is what `RutaHandshakeHandler` tells the game, however the network cuts
either stream.

- `replyOf`: the relay's outcome in the handler's words.
- `reply_text`: what a reply line is made of.
- `wire_agreement`: both directions.
- `game_let_through`: what the game asks for, through the relay's gates, back to what the game is told.
-/
import EspectralClient.Relay.Server
import EspectralClient.Ruta.HandshakeHandler

namespace EspectralClient.RutaWire

open EspectralClient.Lib EspectralClient.Lib.Bytes EspectralClient.Lib.JavaString EspectralClient.Proto
open EspectralClient.RutaProtocol EspectralClient.RutaHandshake EspectralClient.RelayServer

/-- the outcome a client should tell -/
def replyOf {α : Type} : Except Code α → Reply
  | .ok _ => .ok
  | .error code => .err (ofString code.asStr)

/-- every client code's line, and the code the mod reads in it -/
theorem errLine_text (code : Code) (h : code.isClientError) :
    utf8 (errLine code) = (utf8 (errLine code)).dropLast ++ [newline] ∧
      newline ∉ (utf8 (errLine code)).dropLast ∧ (utf8 (errLine code)).dropLast.length ≤ maxReplyBytes ∧
      parseReply ((ofBytes (utf8 (errLine code)).dropLast).dropWhile (· = cr)) = .err (ofString code.asStr) := by
  cases code with
  | idle => cases h
  | closed => cases h
  | error => cases h
  | proto => decide
  | auth => decide
  | expired => decide
  | notMvp => decide
  | dest => decide
  | limit => decide
  | connect => decide
  | busy => decide

theorem reply_text (outcome : Except Code (List UInt8)) (h : ClientErrors outcome) :
    ∃ text, utf8 (replyLine outcome) = text ++ [newline] ∧ newline ∉ text ∧ text.length ≤ maxReplyBytes ∧
      parseReply ((ofBytes text).dropWhile (· = cr)) = replyOf outcome := by
  cases outcome with
  | ok pipelined =>
    have hok : utf8 okLine = (utf8 okLine).dropLast ++ [newline] := by decide
    exact ⟨_, hok, by decide, by decide, parseReply_ok⟩
  | error code => exact ⟨_, errLine_text code (h code rfl)⟩

theorem request_agreement {grant destIp line : JavaString} {destPort : ℤ} {addr : IpAddr}
    (hline : handshakeLine (some grant) (some destIp) destPort = .ok line) (hgrant : IsAscii grant)
    (hdest : IsAscii destIp) (haddr : IpAddr.fromStr (usAscii destIp) = some addr) (unread : List Chunk)
    (more : List UInt8) (hstream : stream unread = usAscii line ++ more) :
    ∃ port : UInt16, (port.toNat : ℤ) = destPort ∧ ∃ rest,
      (readHeader unread).1 = .ok (⟨usAscii grant, addr, port⟩, rest) ∧
        rest ++ stream (readHeader unread).2 = more := by
  obtain ⟨text, hbytes, hnewline, hlen, hgrammar⟩ := handshakeLine_grammar hline hgrant hdest haddr
  obtain ⟨-, -, -, hport, -⟩ := handshakeLine_ok hline
  have hcut : stream unread = text ++ newline :: more := by
    rw [hstream, hbytes, List.append_assoc]
    rfl
  obtain ⟨rest, hread, hrest⟩ := readHeader_line unread hcut hnewline hlen hgrammar
  refine ⟨UInt16.ofNat destPort.toNat, ?_, rest, hread, hrest⟩
  rw [UInt16.toNat_ofNat']
  omega

theorem reply_agreement {μ : Type} (outcome : Except Code (List UInt8)) (h : ClientErrors outcome) (s : St μ)
    (hwaiting : s.waiting) (hreply : s.reply = []) (chunks : List (List UInt8)) (more : List UInt8)
    (hchunks : chunks.flatten = utf8 (replyLine outcome) ++ more) :
    told (Lib.run step s (chunks.map .channelRead)).out = told s.out ++ [replyOf outcome] := by
  obtain ⟨text, hbytes, hnewline, hlen, hparse⟩ := reply_text outcome h
  have hcut : chunks.flatten = text ++ newline :: more := by
    rw [hchunks, hbytes, List.append_assoc]
    rfl
  have htold := reply_any_chunking chunks s hwaiting text more hcut hnewline (by rw [hreply]; simpa using hlen)
  rw [hreply, List.nil_append, hparse] at htold
  exact htold

/-- **Wire agreement.** A line that the mod builds from an ASCII grant, a destination the relay can parse and a port is
read by the relay, however it is cut and whatever follows, as that grant, that address and that port, with the bytes
after the line left for the upstream. Whatever the relay answers, `OK` or a code, is one of the codes a client is told,
and its reply line, however it is cut and whatever follows, makes a waiting handler tell exactly that, once. -/
theorem wire_agreement {μ : Type} :
    (∀ (grant destIp line : JavaString) (destPort : ℤ) (addr : IpAddr) (unread : List Chunk) (more : List UInt8),
      IsAscii grant → IsAscii destIp → handshakeLine (some grant) (some destIp) destPort = .ok line →
      IpAddr.fromStr (usAscii destIp) = some addr → stream unread = usAscii line ++ more →
      ∃ port : UInt16, (port.toNat : ℤ) = destPort ∧ ∃ rest,
        (readHeader unread).1 = .ok (⟨usAscii grant, addr, port⟩, rest) ∧
          rest ++ stream (readHeader unread).2 = more) ∧
    (∀ (cfg : Config) (o : Outside), ClientErrors (serve cfg o)) ∧
    (∀ (outcome : Except Code (List UInt8)) (s : St μ) (chunks : List (List UInt8)) (more : List UInt8),
      ClientErrors outcome → s.waiting → s.reply = [] → chunks.flatten = utf8 (replyLine outcome) ++ more →
      told (Lib.run step s (chunks.map .channelRead)).out = told s.out ++ [replyOf outcome]) := by
  refine ⟨?_, serve_clientErrors, ?_⟩
  · intro grant destIp line destPort addr unread more hgrant hdest hline haddr hstream
    exact request_agreement hline hgrant hdest haddr unread more hstream
  · intro outcome s chunks more herrors hwaiting hreply hchunks
    exact reply_agreement outcome herrors s hwaiting hreply chunks more hchunks

/-! ### A sample of each direction -/

def sampleLine : JavaString := ofString "ERT1 a.b.c 1.2.3.4 25565\n"

/-- the line in two pieces, the second with a byte of the game behind it -/
def samplePieces : List Chunk :=
  [⟨(usAscii sampleLine).take 9, by decide⟩, ⟨(usAscii sampleLine).drop 9 ++ [0x10], by decide⟩]

def sampleTarget : RutaTarget := ⟨some (ofString "1.2.3.4"), 25565, some (ofString "a.b.c")⟩

theorem wire_agreement_sample :
    (∃ port : UInt16, (port.toNat : ℤ) = 25565 ∧ ∃ rest,
      (readHeader samplePieces).1 = .ok (⟨usAscii (ofString "a.b.c"), .v4 #v[1, 2, 3, 4], port⟩, rest) ∧
        rest ++ stream (readHeader samplePieces).2 = [0x10]) ∧
      told (Lib.run step (init sampleTarget : St Unit)
        ([utf8 "ERR lim", utf8 "it\n"].map .channelRead)).out = [.err (ofString "limit")] := by
  obtain ⟨hrequest, -, hreply⟩ := @wire_agreement Unit
  refine ⟨hrequest (ofString "a.b.c") (ofString "1.2.3.4") sampleLine 25565 _ _ [0x10] (by decide) (by decide)
    (by decide) (by decide) (by decide), ?_⟩
  refine hreply (.error .limit) _ _ [] ?_ rfl rfl (by decide)
  rintro code ⟨⟩
  rfl

/-! ## From the game to the gates and back -/

/-- **The game is let through exactly when the gates admit what it asked for.** However the two streams are cut, a
waiting handler is told one outcome; it is `OK` when the relay's gates admit the grant, the address and the port of the
line with the bytes that came with it, and these go to the upstream first. -/
theorem game_let_through {μ : Type} {grant destIp line : JavaString} {destPort : ℤ} {addr : IpAddr}
    (hline : handshakeLine (some grant) (some destIp) destPort = .ok line) (hgrant : IsAscii grant)
    (hdest : IsAscii destIp) (haddr : IpAddr.fromStr (usAscii destIp) = some addr) (cfg : Config) {o : Outside}
    (htime : o.inTime = true) {more : List UInt8} (hstream : stream o.unread = usAscii line ++ more) (s : St μ)
    (hwaiting : s.waiting) (hreply : s.reply = []) {chunks : List (List UInt8)} {after : List UInt8}
    (hchunks : chunks.flatten = utf8 (replyLine (serve cfg o)) ++ after) :
    ∃ port : UInt16, (port.toNat : ℤ) = destPort ∧ ∃ pipelined reply, pipelined <+: more ∧
      told (Lib.run step s (chunks.map .channelRead)).out = told s.out ++ [reply] ∧
      (reply = .ok ↔ ∃ claims, Admits cfg o ⟨usAscii grant, addr, port⟩ pipelined.length claims) ∧
      (reply = .ok → serve cfg o = .ok pipelined) := by
  obtain ⟨port, hport, rest, hread, hrest⟩ := request_agreement hline hgrant hdest haddr o.unread more hstream
  have hrequest : readRequest o = .ok (⟨usAscii grant, addr, port⟩, rest) := by rw [readRequest, if_pos htime, hread]
  have htold := reply_agreement (serve cfg o) (serve_clientErrors cfg o) s hwaiting hreply chunks after hchunks
  have hserved : replyOf (serve cfg o) = .ok ↔ serve cfg o = .ok rest := by
    cases hserve : serve cfg o with
    | error code => exact iff_of_false (fun h => by cases h) fun h => by cases h
    | ok pipelined =>
      obtain ⟨req, claims, heq, -⟩ := serve_ok_iff.1 hserve
      cases hrequest.symm.trans heq
      exact iff_of_true rfl rfl
  refine ⟨port, hport, rest, _, ⟨_, hrest⟩, htold, hserved.trans ?_, hserved.1⟩
  rw [serve_ok_iff]
  constructor
  · rintro ⟨req, claims, heq, h⟩
    cases hrequest.symm.trans heq
    exact ⟨claims, h⟩
  · rintro ⟨claims, h⟩
    exact ⟨_, claims, hrequest, h⟩

/-- a relay with no room, and what it sees of the sample -/
def fullRelay : Config := ⟨⟨1, 1, 1, 1, 0, by decide⟩, false⟩

def emptyMaps : RelayLimits.Inner := ⟨0, .empty, .empty⟩

def sampleOutside : Outside :=
  ⟨⟨fun _ => none, fun _ => none⟩, fun _ _ => false, .v4 #v[9, 9, 9, 9], emptyMaps, emptyMaps, emptyMaps, true,
    samplePieces, 0, 0, 0, fun _ => true, true, true, .closed⟩

theorem game_let_through_sample :
    ∃ port : UInt16, (port.toNat : ℤ) = 25565 ∧ ∃ pipelined reply, pipelined <+: [0x10] ∧
      told (Lib.run step (init sampleTarget : St Unit) ([utf8 "ERR b", utf8 "usy\n"].map .channelRead)).out = [reply] ∧
      (reply = .ok ↔ ∃ claims, Admits fullRelay sampleOutside
        ⟨usAscii (ofString "a.b.c"), .v4 #v[1, 2, 3, 4], port⟩ pipelined.length claims) ∧
      (reply = .ok → serve fullRelay sampleOutside = .ok pipelined) :=
  @game_let_through Unit (ofString "a.b.c") (ofString "1.2.3.4") sampleLine 25565 _ (by decide) (by decide) (by decide)
    (by decide) fullRelay sampleOutside rfl [0x10] (by decide) _ rfl rfl _ [] (by decide)

end EspectralClient.RutaWire
