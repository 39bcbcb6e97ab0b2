import UnixNet.Lib.Datagram
import UnixNet.SockRaw.Addresses

/-!
# The loop of `analyzeMac.c`

A round of the loop receives a frame into `buf`, which is zero otherwise, reads its fields and
prints what it has read. The round is the list of what it does: the bytes it reads and the lines it
prints, where a `%s` of a part of `buf` is the address of that part. `buf` is at address 0, and what
is in the memory behind its 1500 bytes is not known. `reports_iff` says when the lines are those
that the frame should give, and `reads_in_buffer_iff` when nothing behind `buf` is read.
-/

namespace UnixNet.SockRaw

open NetLib

/-- A line, with the arguments of its `printf`. -/
inductive Line where
  | buf (text : Nat)
  | macs (dst src : Bytes)
  | ip
  | icmp
  | igmp
  | tcp
  | udp
  | arp
  | rarp
  | ports (src dst : Nat)
  | tcpData (text : Nat)
  | udpData (text : Nat)
  | ips (src dst : Bytes)
  deriving DecidableEq

/-- A byte is read, or a line is printed. -/
inductive Action where
  | read (address : Nat)
  | print (line : Line)
  deriving DecidableEq

/-- A number of bytes is read. -/
def reads (p n : Nat) : List Action :=
  (List.range' p n).map .read

/-- `buf` after `recvfrom`, and whatever is behind it. -/
def Received (mem : Memory) (frame : Bytes) : Prop :=
  frame.length ≤ 1500 ∧ mem.Holds 0 (overwrite frame (zeros 1500))

/-- `(Ip[0] & 0x0f) * 4` -/
def ipHeadLen (mem : Memory) : Nat :=
  (mem 14 &&& 0x0f).toNat * 4

/-- `src_port` and `dst_port`: what is read as the destination port is the source port plus 2. -/
def ports (e : Endian) (mem : Memory) (transport : Nat) : List Action :=
  let port := e.word (mem transport) (mem (transport + 1))
  reads transport 2 ++ reads transport 2 ++
    [.print (.ports (e.ntohs port) (e.ntohs ((port + 2) % 65536)))]

/-- `(((Tcp[12] & 0xf0) >> 4) & 0x0f) * 4` -/
def tcpHeadLen (mem : Memory) (tcp : Nat) : Nat :=
  (((mem (tcp + 12) &&& 0xf0) >>> 4) &&& 0x0f).toNat * 4

/-- The branch for TCP. -/
def tcpBranch (e : Endian) (mem : Memory) : List Action :=
  let tcp := 14 + ipHeadLen mem
  [.print .tcp] ++ reads 14 1 ++ ports e mem tcp ++ reads (tcp + 12) 1 ++
    [.print (.tcpData (tcp + tcpHeadLen mem tcp))]

/-- The branch for UDP. -/
def udpBranch (e : Endian) (mem : Memory) : List Action :=
  let udp := 14 + ipHeadLen mem
  [.print .udp] ++ reads 14 1 ++ ports e mem udp ++ [.print (.udpData (udp + 8))]

/-- The branch for IP. -/
def ipBranch (e : Endian) (mem : Memory) : List Action :=
  let ipType := mem (14 + 9)
  [.print .ip] ++ reads (14 + 9) 1 ++
    (if ipType = 1 then [.print .icmp] else []) ++
    (if ipType = 2 then [.print .igmp] else []) ++
    (if ipType = 6 then tcpBranch e mem else []) ++
    (if ipType = 17 then udpBranch e mem else []) ++
    reads (14 + 12) 4 ++ reads (14 + 16) 4 ++
    [.print (.ips (inetNtop (mem.bytes (14 + 12) 4)) (inetNtop (mem.bytes (14 + 16) 4)))]

/-- A round of the loop after `recvfrom`. -/
def round (e : Endian) (mem : Memory) : List Action :=
  let macType := e.ntohs (e.word (mem 12) (mem 13))
  [.print (.buf 0)] ++ reads 0 6 ++ reads 6 6 ++
    [.print (.macs (macText (mem.bytes 0 6)) (macText (mem.bytes 6 6)))] ++ reads 12 2 ++
    (if macType = 0x0800 then ipBranch e mem
      else if macType = 0x0806 then [.print .arp]
      else if macType = 0x8035 then [.print .rarp]
      else [])

/-! ## What is printed -/

/-- The line, if the action prints one. -/
def Action.line : Action → Option Line
  | .read _ => none
  | .print line => some line

/-- The lines that are printed. -/
def printed (actions : List Action) : List Line :=
  actions.filterMap Action.line

/-- The segment or datagram in a frame. -/
def segment (frame : Bytes) : Bytes :=
  Ip.payload (Ethernet.payload frame)

/-- The length of the TCP header at the beginning of a text. -/
def tcpHeaderLength (segment : Bytes) : Nat :=
  (field8 segment 12).toNat / 16 * 4

/-- A frame that fits into `buf` with room for a NUL and has in it a TCP segment or a UDP datagram
with whole headers. -/
structure WellFormed (frame : Bytes) : Prop where
  length_le : frame.length ≤ 1499
  etherType_eq : Ethernet.etherType frame = 0x0800
  version_eq : Ip.version (Ethernet.payload frame) = 4
  header_le : 20 ≤ Ip.headerLength (Ethernet.payload frame) ∧
    Ip.headerLength (Ethernet.payload frame) ≤ Ip.totalLength (Ethernet.payload frame)
  total_le : Ip.totalLength (Ethernet.payload frame) ≤ (Ethernet.payload frame).length
  transport :
    Ip.protocol (Ethernet.payload frame) = 6 ∧
        20 ≤ tcpHeaderLength (segment frame) ∧
        tcpHeaderLength (segment frame) ≤ (segment frame).length ∨
      Ip.protocol (Ethernet.payload frame) = 17 ∧
        8 ≤ (segment frame).length

/-- The lines that a frame should give. The data begin behind the header of the segment or
datagram. -/
def report (frame : Bytes) : List Line :=
  let packet := Ethernet.payload frame
  let ports := .ports (field16 (segment frame) 0) (field16 (segment frame) 2)
  let start := 14 + Ip.headerLength packet
  [.buf 0, .macs (macText (fieldBytes frame 0 6)) (macText (fieldBytes frame 6 6)), .ip] ++
    (if Ip.protocol packet = 6 then
        [.tcp, ports, .tcpData (start + tcpHeaderLength (segment frame))]
      else [.udp, ports, .udpData (start + 8)]) ++
    [.ips (inetNtop (Ip.source packet)) (inetNtop (Ip.destination packet))]

variable {e : Endian} {mem : Memory} {frame : Bytes}

@[simp] theorem printed_append (first second : List Action) :
    printed (first ++ second) = printed first ++ printed second :=
  List.filterMap_append

@[simp] theorem printed_reads (p n : Nat) : printed (reads p n) = [] := by
  refine List.filterMap_eq_nil_iff.mpr fun a ha => ?_
  obtain ⟨i, -, rfl⟩ := List.mem_map.mp ha
  rfl

@[simp] theorem printed_print (line : Line) (rest : List Action) :
    printed (.print line :: rest) = line :: printed rest := rfl

@[simp] theorem printed_nil : printed [] = [] := rfl

theorem printed_ports (e : Endian) (mem : Memory) (transport : Nat) :
    printed (ports e mem transport) =
      [.ports (e.ntohs (e.word (mem transport) (mem (transport + 1))))
        (e.ntohs ((e.word (mem transport) (mem (transport + 1)) + 2) % 65536))] := by
  simp [ports]

/-- The lines for a TCP segment. -/
theorem printed_tcp (htype : e.ntohs (e.word (mem 12) (mem 13)) = 0x0800) (hip : mem 23 = 6) :
    printed (round e mem) =
      [.buf 0, .macs (macText (mem.bytes 0 6)) (macText (mem.bytes 6 6)), .ip, .tcp] ++
        printed (ports e mem (14 + ipHeadLen mem)) ++
          [.tcpData (14 + ipHeadLen mem + tcpHeadLen mem (14 + ipHeadLen mem)),
            .ips (inetNtop (mem.bytes 26 4)) (inetNtop (mem.bytes 30 4))] := by
  simp [round, ipBranch, tcpBranch, htype, hip]

/-- The lines for a UDP datagram. -/
theorem printed_udp (htype : e.ntohs (e.word (mem 12) (mem 13)) = 0x0800) (hip : mem 23 = 17) :
    printed (round e mem) =
      [.buf 0, .macs (macText (mem.bytes 0 6)) (macText (mem.bytes 6 6)), .ip, .udp] ++
        printed (ports e mem (14 + ipHeadLen mem)) ++
          [.udpData (14 + ipHeadLen mem + 8),
            .ips (inetNtop (mem.bytes 26 4)) (inetNtop (mem.bytes 30 4))] := by
  simp [round, ipBranch, udpBranch, htype, hip]

/-! ## The fields of a frame in `buf` -/

/-- A byte of `buf` is that of the frame, or zero behind the frame. -/
theorem Received.byte (h : Received mem frame) {i : Nat} (hi : i < 1500) :
    mem i = field8 frame i := by
  have hlength : (overwrite frame (zeros 1500)).length = 1500 := by
    rw [length_overwrite]
    · exact List.length_replicate
    · rw [zeros, List.length_replicate]
      exact h.1
  have hbyte := List.getElem?_eq_getElem (l := overwrite frame (zeros 1500)) (i := i)
    (by rw [hlength]; exact hi)
  have hmem := h.2 i _ hbyte
  rw [Nat.zero_add] at hmem
  rw [hmem, ← field8_overwrite frame 1500, field8, List.getD_eq_getElem?_getD, hbyte,
    Option.getD_some]

/-- A number in `buf` is that of the frame. -/
theorem Received.word (h : Received mem frame) (e : Endian) {i : Nat} (hi : i + 1 < 1500) :
    e.word (mem i) (mem (i + 1)) = e.word (field8 frame i) (field8 frame (i + 1)) := by
  rw [h.byte (by omega), h.byte hi]

/-- A part of `buf` is that of the frame. -/
theorem Received.bytes (h : Received mem frame) {i n : Nat} (hin : i + n ≤ frame.length) :
    mem.bytes i n = fieldBytes frame i n := by
  have hframe : mem.Holds 0 frame := by
    intro j c hc
    refine h.2 j c ?_
    rw [overwrite, List.getElem?_append_left (List.getElem?_eq_some_iff.mp hc).1]
    exact hc
  have hpart := hframe.bytes_part hin
  rw [Nat.zero_add] at hpart
  exact hpart

/-- The type of the frame. -/
theorem Received.macType (h : Received mem frame) (e : Endian) :
    e.ntohs (e.word (mem 12) (mem 13)) = Ethernet.etherType frame := by
  rw [h.word e (by decide), Endian.ntohs_word]
  rfl

/-- The fields of a packet are those of the frame. -/
theorem field8_payload (frame : Bytes) (i : Nat) :
    field8 (Ethernet.payload frame) i = field8 frame (14 + i) :=
  field8_drop frame 14 i

/-- The lower half of a byte. -/
theorem low_half (c : UInt8) : (c &&& 0x0f).toNat = c.toNat % 16 := by
  rw [UInt8.toNat_and]
  exact Nat.and_two_pow_sub_one_eq_mod c.toNat 4

/-- The upper half of a byte. -/
theorem high_half (c : UInt8) : (((c &&& 0xf0) >>> 4) &&& 0x0f).toNat = c.toNat / 16 := by
  have hc := c.toNat_lt
  rw [low_half, UInt8.toNat_shiftRight, UInt8.toNat_and]
  show (c.toNat &&& 240) >>> 4 % 16 = _
  rw [Nat.shiftRight_and_distrib]
  show (c.toNat >>> 4 &&& 2 ^ 4 - 1) % 16 = _
  rw [Nat.and_two_pow_sub_one_eq_mod, Nat.shiftRight_eq_div_pow]
  omega

/-- The length of the IP header. -/
theorem Received.ipHeadLen (h : Received mem frame) :
    ipHeadLen mem = Ip.headerLength (Ethernet.payload frame) := by
  rw [SockRaw.ipHeadLen, low_half, h.byte (by decide), Ip.headerLength, field8_payload]

/-- The protocol field of the IP header. -/
theorem Received.protocol (h : Received mem frame) :
    mem 23 = Ip.protocol (Ethernet.payload frame) := by
  rw [h.byte (by decide), Ip.protocol, field8_payload]

/-- The addresses in the IP header. -/
theorem Received.addresses (h : Received mem frame) (hlong : 34 ≤ frame.length) :
    mem.bytes 26 4 = Ip.source (Ethernet.payload frame) ∧
      mem.bytes 30 4 = Ip.destination (Ethernet.payload frame) := by
  constructor
  · rw [h.bytes (by omega), Ip.source, Ethernet.payload, fieldBytes, fieldBytes, List.drop_drop]
  · rw [h.bytes hlong, Ip.destination, Ethernet.payload, fieldBytes, fieldBytes, List.drop_drop]

/-- The length of the IP header is at most 60. -/
theorem header_length_le (packet : Bytes) : Ip.headerLength packet ≤ 60 := by
  unfold Ip.headerLength
  omega

/-- The fields of what a packet carries are those of the packet. -/
theorem field8_ip_payload {packet : Bytes} {i : Nat} (hi : i < (Ip.payload packet).length) :
    field8 (Ip.payload packet) i = field8 packet (Ip.headerLength packet + i) := by
  rw [Ip.payload, List.length_drop, List.length_take] at hi
  rw [Ip.payload, field8_drop, field8_take (by omega)]

/-- A byte of the segment or datagram, in `buf`. -/
theorem Received.transport (h : Received mem frame) {i : Nat} (hi : i < (segment frame).length)
    (hsmall : i < 1000) : mem (14 + SockRaw.ipHeadLen mem + i) = field8 (segment frame) i := by
  have hheader := header_length_le (Ethernet.payload frame)
  rw [segment, field8_ip_payload hi, field8_payload, h.ipHeadLen, h.byte (by omega),
    Nat.add_assoc]

/-- What is printed as the ports is right if and only if the destination port, read as a number of
the host, is the source port plus 2. -/
theorem ports_iff (h : Received mem frame) (hlength : 4 ≤ (segment frame).length) :
    printed (ports e mem (14 + ipHeadLen mem)) =
        [.ports (field16 (segment frame) 0) (field16 (segment frame) 2)] ↔
      e.word (field8 (segment frame) 2) (field8 (segment frame) 3) =
        (e.word (field8 (segment frame) 0) (field8 (segment frame) 1) + 2) % 65536 := by
  have hfirst : mem (14 + ipHeadLen mem) = field8 (segment frame) 0 :=
    h.transport (i := 0) (by omega) (by decide)
  have hsecond : mem (14 + ipHeadLen mem + 1) = field8 (segment frame) 1 :=
    h.transport (by omega) (by decide)
  rw [printed_ports, hfirst, hsecond, Endian.ntohs_word, field16, field16,
    ← e.ntohs_word (field8 (segment frame) 2)]
  -- the source port is right in any case, and `ntohs` is injective for the other one
  refine ⟨fun heq => ?_, fun heq => ?_⟩
  · injection heq with hline
    injection hline with _ hdst
    exact (e.ntohs_inj (Nat.mod_lt _ (by decide)) (e.word_lt _ _) hdst).symm
  · rw [← heq]

/-- For a well-formed frame, the lines are those that the frame should give if and only if the
destination port, read as a number of the host, is the source port plus 2. -/
theorem reports_iff (e : Endian) {mem : Memory} {frame : Bytes} (hform : WellFormed frame)
    (hmem : mem.Holds 0 (overwrite frame (zeros 1500))) :
    printed (round e mem) = report frame ↔
      e.word (field8 (segment frame) 2) (field8 (segment frame) 3) =
        (e.word (field8 (segment frame) 0) (field8 (segment frame) 1) + 2) % 65536 := by
  have h : Received mem frame := ⟨Nat.le_succ_of_le hform.length_le, hmem⟩
  have htype := (h.macType e).trans hform.etherType_eq
  have hlong : 34 ≤ frame.length := by
    have htotal : Ip.totalLength (Ethernet.payload frame) ≤ frame.length - 14 := by
      rw [← List.length_drop]
      exact hform.total_le
    have hheader := hform.header_le
    omega
  obtain ⟨hsource, hdest⟩ := h.addresses hlong
  have hbytes : mem.bytes 0 6 = fieldBytes frame 0 6 ∧ mem.bytes 6 6 = fieldBytes frame 6 6 :=
    ⟨h.bytes (by omega), h.bytes (by omega)⟩
  -- in both branches all lines but that of the ports agree
  rcases hform.transport with ⟨htcp, hfirst, hlast⟩ | ⟨hudp, hlast⟩
  · have hlength : tcpHeadLen mem (14 + ipHeadLen mem) = tcpHeaderLength (segment frame) := by
      rw [tcpHeadLen, high_half, h.transport (by omega) (by decide), tcpHeaderLength]
    rw [← ports_iff h (by omega), printed_tcp htype (h.protocol.trans htcp), hlength, h.ipHeadLen,
      hsource, hdest, hbytes.1, hbytes.2, report, if_pos htcp]
    show _ ++ _ ++ _ = [_, _, _, _] ++ [_] ++ [_, _] ↔ _
    rw [List.append_cancel_right_eq, List.append_cancel_left_eq]
  · have hnot : Ip.protocol (Ethernet.payload frame) ≠ 6 := by
      rw [hudp]
      decide
    rw [← ports_iff h (by omega), printed_udp htype (h.protocol.trans hudp), h.ipHeadLen,
      hsource, hdest, hbytes.1, hbytes.2, report, if_neg hnot]
    show _ ++ _ ++ _ = [_, _, _, _] ++ [_] ++ [_, _] ↔ _
    rw [List.append_cancel_right_eq, List.append_cancel_left_eq]

/-- A frame from port 8000 to a port. -/
def fromPort8000 (port : Nat) : Bytes :=
  [0x00, 0x50, 0x56, 0xc0, 0x00, 0x08, 0x00, 0x0c, 0x29, 0xc1, 0xd3, 0x13, 0x08, 0x00,
    0x45, 0, 0, 28, 0, 0, 0, 0, 128, 17, 0, 0, 192, 168, 141, 128, 192, 168, 141, 1,
    31, 64] ++ Endian.big.bytes port ++ [0, 8, 0, 0]

theorem well_formed_from_port (port : Nat) : WellFormed (fromPort8000 port) := by
  have hfirst : field8 (Ethernet.payload (fromPort8000 port)) 0 = 0x45 := rfl
  have hheader : Ip.headerLength (Ethernet.payload (fromPort8000 port)) = 20 := by
    rw [Ip.headerLength, hfirst]
    rfl
  have htotal : Ip.totalLength (Ethernet.payload (fromPort8000 port)) = 28 :=
    show Endian.big.word 0 28 = 28 from rfl
  have hlength : (Ethernet.payload (fromPort8000 port)).length = 28 := rfl
  refine ⟨show 42 ≤ 1499 by decide, rfl, ?_, ?_, ?_, .inr ⟨rfl, ?_⟩⟩
  · rw [Ip.version, hfirst]
    rfl
  · rw [hheader, htotal]
    decide
  · rw [htotal, hlength]
  · rw [segment, Ip.payload, htotal, hheader, List.length_drop, List.length_take, hlength]
    decide

/-- The ports 8000 and 8512 are printed as they are. -/
theorem reports_port_8512 :
    printed (round .little (Memory.put (fun _ => 0) 0
      (overwrite (fromPort8000 8512) (zeros 1500)))) = report (fromPort8000 8512) :=
  (reports_iff .little (well_formed_from_port 8512) (Memory.put_holds _ _ _)).mpr (by decide)

/-- The destination port 8000, to which `udpMessage.c` sends, is not printed. -/
theorem not_reports_port_8000 :
    WellFormed (fromPort8000 8000) ∧
      printed (round .little (Memory.put (fun _ => 0) 0
        (overwrite (fromPort8000 8000) (zeros 1500)))) ≠ report (fromPort8000 8000) :=
  ⟨well_formed_from_port 8000, by decide⟩

/-! ## What is read -/

/-- The text that a line prints, as an address. -/
def Line.text : Line → Option Nat
  | .buf text => some text
  | .tcpData text => some text
  | .udpData text => some text
  | _ => none

/-- `%s` looks at the bytes up to the first NUL. -/
def Scanned (mem : Memory) (text i : Nat) : Prop :=
  text ≤ i ∧ ∀ j, text ≤ j → j < i → mem j ≠ 0

/-- The action reads a byte. -/
def Action.Reads (mem : Memory) : Action → Nat → Prop
  | .read address, i => i = address
  | .print line, i => ∃ text, line.text = some text ∧ Scanned mem text i

/-- All bytes that are read are in `buf`. -/
def InBuffer (mem : Memory) (actions : List Action) : Prop :=
  ∀ a ∈ actions, ∀ i, a.Reads mem i → i < 1500

/-- Where the data of a frame begin, if they are printed. -/
def dataStart (frame : Bytes) : Option Nat :=
  let transport := 14 + Ip.headerLength (Ethernet.payload frame)
  if Ethernet.etherType frame = 0x0800 then
    if Ip.protocol (Ethernet.payload frame) = 6 then
      some (transport + tcpHeaderLength (frame.drop transport))
    else if Ip.protocol (Ethernet.payload frame) = 17 then some (transport + 8)
    else none
  else none

@[simp] theorem in_buffer_nil : InBuffer mem [] := by
  intro a ha
  cases ha

@[simp] theorem in_buffer_append {first second : List Action} :
    InBuffer mem (first ++ second) ↔ InBuffer mem first ∧ InBuffer mem second := by
  refine ⟨fun h => ⟨fun a ha => ?_, fun a ha => ?_⟩, fun h a ha => ?_⟩
  · exact h a (List.mem_append_left _ ha)
  · exact h a (List.mem_append_right _ ha)
  · rcases List.mem_append.mp ha with hfirst | hsecond
    · exact h.1 a hfirst
    · exact h.2 a hsecond

theorem in_buffer_reads {p n : Nat} (h : p + n ≤ 1500) : InBuffer mem (reads p n) := by
  intro a ha i hi
  obtain ⟨address, haddress, rfl⟩ := List.mem_map.mp ha
  have hrange := List.mem_range'_1.mp haddress
  rw [show i = address from hi]
  omega

/-- A text in `buf` is printed without reading behind `buf` if and only if a NUL is in `buf` at or
behind its beginning. -/
theorem scanned_iff {text : Nat} (htext : text ≤ 1500) :
    (∀ i, Scanned mem text i → i < 1500) ↔ ∃ j, text ≤ j ∧ j < 1500 ∧ mem j = 0 := by
  refine ⟨fun h => ?_, fun ⟨j, hle, hlt, hzero⟩ i hi => ?_⟩
  · by_contra hnone
    have hscanned : Scanned mem text 1500 :=
      ⟨htext, fun j hle hlt hzero => hnone ⟨j, hle, hlt, hzero⟩⟩
    exact Nat.lt_irrefl _ (h 1500 hscanned)
  · by_contra hlarge
    exact hi.2 j hle (by omega) hzero

/-- A NUL is in `buf` if the frame does not fill it, or is in the frame. -/
theorem Received.nul_iff (h : Received mem frame) {text : Nat} (htext : text < 1500) :
    (∃ j, text ≤ j ∧ j < 1500 ∧ mem j = 0) ↔ frame.length < 1500 ∨ 0 ∈ frame.drop text := by
  refine ⟨fun ⟨j, hle, hlt, hzero⟩ => ?_, fun hor => ?_⟩
  · rcases Nat.lt_or_ge frame.length 1500 with hshort | hfull
    · exact .inl hshort
    · -- a NUL within the received bytes is one of the frame
      have hj : j < frame.length := by omega
      rw [h.byte hlt, field8, List.getD_eq_getElem?_getD, List.getElem?_eq_getElem hj,
        Option.getD_some] at hzero
      refine .inr (List.mem_iff_getElem?.mpr ⟨j - text, ?_⟩)
      rw [List.getElem?_drop, Nat.add_sub_cancel' hle, List.getElem?_eq_getElem hj, hzero]
  · rcases hor with hshort | hmem
    · refine ⟨1499, by omega, by decide, ?_⟩
      rw [h.byte (by decide), field8, List.getD_eq_getElem?_getD,
        List.getElem?_eq_none (by omega), Option.getD_none]
    · obtain ⟨k, hk⟩ := List.mem_iff_getElem?.mp hmem
      rw [List.getElem?_drop] at hk
      have hlength := (List.getElem?_eq_some_iff.mp hk).1
      have hsize := h.1
      refine ⟨text + k, Nat.le_add_right _ _, by omega, ?_⟩
      rw [h.byte (by omega), field8, List.getD_eq_getElem?_getD, hk, Option.getD_some]

/-- A line that prints no part of `buf` reads nothing. -/
theorem in_buffer_print (line : Line) (hline : line.text = none) (rest : List Action) :
    InBuffer mem (.print line :: rest) ↔ InBuffer mem rest := by
  refine ⟨fun h a ha => h a (List.mem_cons_of_mem _ ha), fun h a ha => ?_⟩
  rcases List.mem_cons.mp ha with rfl | hrest
  · rintro i ⟨text, htext, -⟩
    rw [hline] at htext
    cases htext
  · exact h a hrest

/-- A line that prints a part of `buf`. -/
theorem in_buffer_text (line : Line) {text : Nat} (hline : line.text = some text)
    (htext : text ≤ 1500) (rest : List Action) :
    InBuffer mem (.print line :: rest) ↔
      (∃ j, text ≤ j ∧ j < 1500 ∧ mem j = 0) ∧ InBuffer mem rest := by
  rw [← scanned_iff htext]
  refine ⟨fun h => ⟨fun i hi => ?_, fun a ha => h a (List.mem_cons_of_mem _ ha)⟩,
    fun ⟨hscan, hrest⟩ a ha => ?_⟩
  · exact h _ List.mem_cons_self i ⟨text, hline, hi⟩
  · rcases List.mem_cons.mp ha with rfl | hmem
    · rintro i ⟨other, hother, hi⟩
      rw [hline] at hother
      cases hother
      exact hscan i hi
    · exact hrest a hmem

/-- The data of a TCP segment begin in `buf`. -/
theorem tcp_head_len_le (mem : Memory) (tcp : Nat) : tcpHeadLen mem tcp ≤ 60 := by
  have hbyte := (mem (tcp + 12)).toNat_lt
  rw [tcpHeadLen, high_half]
  omega

theorem ip_head_len_le (mem : Memory) : ipHeadLen mem ≤ 60 := by
  rw [ipHeadLen, low_half]
  omega

theorem in_buffer_ports {transport : Nat} (h : transport + 2 ≤ 1500) :
    InBuffer mem (ports e mem transport) := by
  rw [ports, in_buffer_append, in_buffer_append, in_buffer_print (.ports _ _) rfl]
  exact ⟨⟨in_buffer_reads h, in_buffer_reads h⟩, in_buffer_nil⟩

theorem in_buffer_tcp :
    InBuffer mem (tcpBranch e mem) ↔
      ∃ j, 14 + ipHeadLen mem + tcpHeadLen mem (14 + ipHeadLen mem) ≤ j ∧ j < 1500 ∧
        mem j = 0 := by
  have hip := ip_head_len_le mem
  have htcp := tcp_head_len_le mem (14 + ipHeadLen mem)
  have htext : 14 + ipHeadLen mem + tcpHeadLen mem (14 + ipHeadLen mem) ≤ 1500 := by omega
  rw [tcpBranch, in_buffer_append, in_buffer_append, in_buffer_append, in_buffer_append,
    in_buffer_print .tcp rfl, in_buffer_text (.tcpData _) rfl htext]
  refine ⟨fun h => h.2.1, fun h => ⟨⟨⟨⟨in_buffer_nil, ?_⟩, ?_⟩, ?_⟩, h, in_buffer_nil⟩⟩
  · exact in_buffer_reads (by decide)
  · exact in_buffer_ports (by omega)
  · exact in_buffer_reads (by omega)

theorem in_buffer_udp :
    InBuffer mem (udpBranch e mem) ↔
      ∃ j, 14 + ipHeadLen mem + 8 ≤ j ∧ j < 1500 ∧ mem j = 0 := by
  have hip := ip_head_len_le mem
  have htext : 14 + ipHeadLen mem + 8 ≤ 1500 := by omega
  rw [udpBranch, in_buffer_append, in_buffer_append, in_buffer_append, in_buffer_print .udp rfl,
    in_buffer_text (.udpData _) rfl htext]
  refine ⟨fun h => h.2.1, fun h => ⟨⟨⟨in_buffer_nil, ?_⟩, ?_⟩, h, in_buffer_nil⟩⟩
  · exact in_buffer_reads (by decide)
  · exact in_buffer_ports (by omega)

/-- What is done under a condition. -/
theorem in_buffer_if {p : Prop} [Decidable p] {actions : List Action} :
    InBuffer mem (if p then actions else []) ↔ (p → InBuffer mem actions) := by
  split
  · next h => exact ⟨fun hactions _ => hactions, fun hactions => hactions h⟩
  · next h => exact ⟨fun _ hp => absurd hp h, fun _ => in_buffer_nil⟩

theorem in_buffer_ip :
    InBuffer mem (ipBranch e mem) ↔
      (mem 23 = 6 → InBuffer mem (tcpBranch e mem)) ∧
        (mem 23 = 17 → InBuffer mem (udpBranch e mem)) := by
  rw [ipBranch]
  simp only [in_buffer_append, in_buffer_if]
  refine ⟨fun h => ⟨h.1.1.1.1.2, h.1.1.1.2⟩, fun ⟨htcp, hudp⟩ => ?_⟩
  refine ⟨⟨⟨⟨⟨⟨⟨⟨?_, ?_⟩, ?_⟩, ?_⟩, htcp⟩, hudp⟩, ?_⟩, ?_⟩, ?_⟩
  · exact (in_buffer_print .ip rfl []).mpr in_buffer_nil
  · exact in_buffer_reads (by decide)
  · exact fun _ => (in_buffer_print .icmp rfl []).mpr in_buffer_nil
  · exact fun _ => (in_buffer_print .igmp rfl []).mpr in_buffer_nil
  · exact in_buffer_reads (by decide)
  · exact in_buffer_reads (by decide)
  · exact (in_buffer_print (.ips _ _) rfl []).mpr in_buffer_nil

/-- A round, but for the branch of its frame type. -/
theorem in_buffer_round :
    InBuffer mem (round e mem) ↔ (∃ j, 0 ≤ j ∧ j < 1500 ∧ mem j = 0) ∧
      (e.ntohs (e.word (mem 12) (mem 13)) = 0x0800 → InBuffer mem (ipBranch e mem)) := by
  have hother : InBuffer mem (if e.ntohs (e.word (mem 12) (mem 13)) = 0x0806 then [.print .arp]
      else if e.ntohs (e.word (mem 12) (mem 13)) = 0x8035 then [.print .rarp] else []) := by
    split
    · exact (in_buffer_print .arp rfl []).mpr in_buffer_nil
    · exact in_buffer_if.mpr fun _ => (in_buffer_print .rarp rfl []).mpr in_buffer_nil
  rw [round]
  simp only [in_buffer_append]
  rw [in_buffer_text (.buf 0) rfl (Nat.zero_le _)]
  -- the first line prints `buf` itself, the branch for IP reads the rest
  refine ⟨fun h => ⟨h.1.1.1.1.1.1, fun htype => ?_⟩,
    fun h => ⟨⟨⟨⟨⟨⟨h.1, in_buffer_nil⟩, ?_⟩, ?_⟩, ?_⟩, ?_⟩, ?_⟩⟩
  · have hbranch := h.2
    rw [if_pos htype] at hbranch
    exact hbranch
  · exact in_buffer_reads (by decide)
  · exact in_buffer_reads (by decide)
  · exact (in_buffer_print (.macs _ _) rfl []).mpr in_buffer_nil
  · exact in_buffer_reads (by decide)
  · split
    · next htype => exact h.2 htype
    · exact hother

/-- The cases of `dataStart`. -/
theorem forall_data_start {P : Nat → Prop} :
    (∀ start, dataStart frame = some start → P start) ↔
      (Ethernet.etherType frame = 0x0800 →
        (Ip.protocol (Ethernet.payload frame) = 6 →
          P (14 + Ip.headerLength (Ethernet.payload frame) +
            tcpHeaderLength (frame.drop (14 + Ip.headerLength (Ethernet.payload frame))))) ∧
        (Ip.protocol (Ethernet.payload frame) = 17 →
          P (14 + Ip.headerLength (Ethernet.payload frame) + 8))) := by
  have hnot : ¬ (17 : UInt8) = 6 := by decide
  unfold dataStart
  refine ⟨fun h htype => ⟨fun htcp => h _ ?_, fun hudp => h _ ?_⟩, fun h start hstart => ?_⟩
  · rw [if_pos htype, if_pos htcp]
  · rw [if_pos htype, if_neg (hudp ▸ hnot), if_pos hudp]
  · by_cases htype : Ethernet.etherType frame = 0x0800
    · rw [if_pos htype] at hstart
      by_cases htcp : Ip.protocol (Ethernet.payload frame) = 6
      · rw [if_pos htcp] at hstart
        exact Option.some.inj hstart ▸ (h htype).1 htcp
      · rw [if_neg htcp] at hstart
        by_cases hudp : Ip.protocol (Ethernet.payload frame) = 17
        · rw [if_pos hudp] at hstart
          exact Option.some.inj hstart ▸ (h htype).2 hudp
        · rw [if_neg hudp] at hstart
          cases hstart
    · rw [if_neg htype] at hstart
      cases hstart

/-- All bytes that a round reads are in `buf` if and only if the frame does not fill `buf`, or a NUL
is in the frame, and also behind the beginning of the data, if these are printed. -/
theorem reads_in_buffer_iff (e : Endian) {mem : Memory} {frame : Bytes} (h : Received mem frame) :
    InBuffer mem (round e mem) ↔
      frame.length < 1500 ∨
        0 ∈ frame ∧ ∀ start, dataStart frame = some start → 0 ∈ frame.drop start := by
  have hheader := header_length_le (Ethernet.payload frame)
  have htcp : tcpHeadLen mem (14 + ipHeadLen mem) =
      tcpHeaderLength (frame.drop (14 + Ip.headerLength (Ethernet.payload frame))) := by
    rw [tcpHeadLen, high_half, h.ipHeadLen, h.byte (by omega), tcpHeaderLength, field8_drop]
  have hlength := tcp_head_len_le mem (14 + ipHeadLen mem)
  rw [htcp] at hlength
  -- the headers end before 1500, so only the three texts can leave `buf`
  rw [in_buffer_round, h.nul_iff (by decide), List.drop_zero, h.macType, in_buffer_ip,
    in_buffer_tcp, in_buffer_udp, htcp, h.ipHeadLen, h.nul_iff (by omega), h.nul_iff (by omega),
    h.protocol]
  rw [forall_data_start]
  by_cases hshort : frame.length < 1500
  · simp [hshort]
  · simp only [hshort, false_or]

/-- A frame of one byte leaves room for a NUL. -/
theorem reads_in_buffer_short :
    InBuffer (Memory.put (fun _ => 0) 0 (overwrite [65] (zeros 1500)))
      (round .little (Memory.put (fun _ => 0) 0 (overwrite [65] (zeros 1500)))) :=
  (reads_in_buffer_iff .little ⟨by decide, Memory.put_holds _ _ _⟩).mpr (.inl (by decide))

/-- When a frame without NUL fills `buf`, the byte behind `buf` is read. -/
theorem reads_behind_buffer :
    Received (fun _ => 65) (List.replicate 1500 65) ∧
      ¬ InBuffer (fun _ => 65) (round .little (fun _ => 65)) := by
  have hlength : (List.replicate 1500 (65 : UInt8)).length = 1500 := List.length_replicate
  refine ⟨⟨hlength.le, fun i c hc => ?_⟩, fun h => ?_⟩
  · rw [overwrite, hlength, zeros, List.drop_replicate, Nat.sub_self, List.replicate_zero,
      List.append_nil] at hc
    exact (List.eq_of_mem_replicate (List.mem_of_getElem? hc)).symm
  · have hscanned : Scanned (fun _ => 65) 0 1500 :=
      ⟨Nat.zero_le _, fun j _ _ => show (65 : UInt8) ≠ 0 by decide⟩
    exact Nat.lt_irrefl _ (h (.print (.buf 0)) List.mem_cons_self 1500 ⟨0, rfl, hscanned⟩)

end UnixNet.SockRaw
