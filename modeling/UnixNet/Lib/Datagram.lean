import UnixNet.Lib.InternetChecksum

/-!
# Frames, packets and datagrams

What a receiver reads in an Ethernet frame: the addresses and the type, the packet behind them, the
fields of an IP header without regard to its options, and the fields of a UDP datagram. `Ip.Valid`
says that the header of a packet is one by the rules of IP, and `CarriesUdp` that a frame brings a
text to the receiver as the data of a UDP datagram. A datagram whose checksum field is 0 is one that
was sent without a checksum.
-/

namespace NetLib

/-- The byte at an offset. -/
def field8 (text : Bytes) (i : Nat) : UInt8 :=
  text.getD i 0

/-- The 16-bit number at an offset, in the order of the network. -/
def field16 (text : Bytes) (i : Nat) : Nat :=
  Endian.big.word (field8 text i) (field8 text (i + 1))

/-- The bytes from an offset on. -/
def fieldBytes (text : Bytes) (i n : Nat) : Bytes :=
  (text.drop i).take n

/-- A byte of an array of zeros into which a text is received. -/
theorem field8_overwrite (text : Bytes) (size i : Nat) :
    field8 (overwrite text (zeros size)) i = field8 text i := by
  rw [field8, field8, overwrite, zeros, List.drop_replicate, List.getD_eq_getElem?_getD,
    List.getD_eq_getElem?_getD]
  by_cases hin : i < text.length
  · rw [List.getElem?_append_left hin]
  · rw [List.getElem?_append_right (by omega), List.getElem?_replicate,
      List.getElem?_eq_none (by omega)]
    split
    · rfl
    · rfl

/-- A part of the array that the text covers. -/
theorem field_bytes_overwrite {text : Bytes} {i n : Nat} (h : i + n ≤ text.length) (size : Nat) :
    fieldBytes (overwrite text (zeros size)) i n = fieldBytes text i n := by
  rw [fieldBytes, fieldBytes, overwrite, List.drop_append_of_le_length (by omega),
    List.take_append_of_le_length (by rw [List.length_drop]; omega)]

/-- A byte of the beginning of a text. -/
theorem field8_take {text : Bytes} {size i : Nat} (h : i < size) :
    field8 (text.take size) i = field8 text i := by
  rw [field8, field8, List.getD_eq_getElem?_getD, List.getD_eq_getElem?_getD,
    List.getElem?_take_of_lt h]

/-- A byte behind an offset. -/
theorem field8_drop (text : Bytes) (k i : Nat) : field8 (text.drop k) i = field8 text (k + i) := by
  rw [field8, field8, List.getD_eq_getElem?_getD, List.getD_eq_getElem?_getD, List.getElem?_drop]

namespace Ethernet

/-- The type of what the frame carries. -/
def etherType (frame : Bytes) : Nat :=
  field16 frame 12

/-- What the frame carries. -/
def payload (frame : Bytes) : Bytes :=
  frame.drop 14

end Ethernet

namespace Ip

variable (packet : Bytes)

def version : Nat :=
  (field8 packet 0).toNat / 16

/-- The length of the header in bytes. -/
def headerLength : Nat :=
  (field8 packet 0).toNat % 16 * 4

def totalLength : Nat :=
  field16 packet 2

def protocol : UInt8 :=
  field8 packet 9

def source : Bytes :=
  fieldBytes packet 12 4

def destination : Bytes :=
  fieldBytes packet 16 4

/-- What the packet carries. -/
def payload : Bytes :=
  (packet.take (totalLength packet)).drop (headerLength packet)

/-- The packet begins with a header, it is all there, and it is not a fragment. -/
structure Valid : Prop where
  version_eq : version packet = 4
  header_le : 20 ≤ headerLength packet ∧ headerLength packet ≤ totalLength packet
  total_le : totalLength packet ≤ packet.length
  whole : field16 packet 6 % 16384 = 0
  accepted : Accepts .big (packet.take (headerLength packet))

end Ip

namespace Udp

variable (datagram : Bytes)

/-- The length of the header and the data. -/
def length : Nat :=
  field16 datagram 4

def checksumField : Nat :=
  field16 datagram 6

def payload : Bytes :=
  (datagram.take (length datagram)).drop 8

/-- What is put before a datagram for the checksum. -/
def pseudoHeader (source destination : Bytes) : Bytes :=
  source ++ destination ++ [0, 17] ++ Endian.big.bytes (length datagram)

/-- The data of the datagram is the text, and the sum that the receiver checks is right. -/
structure Carries (source destination text : Bytes) : Prop where
  length_le : 8 ≤ length datagram ∧ length datagram ≤ datagram.length
  payload_eq : payload datagram = text
  accepted : Accepts .big
    (pseudoHeader datagram source destination ++ datagram.take (length datagram))

end Udp

/-- The frame carries a UDP datagram whose data is the text. -/
structure CarriesUdp (frame text : Bytes) : Prop where
  etherType_eq : Ethernet.etherType frame = 0x0800
  valid : Ip.Valid (Ethernet.payload frame)
  protocol_eq : Ip.protocol (Ethernet.payload frame) = 17
  carries : Udp.Carries (Ip.payload (Ethernet.payload frame))
    (Ip.source (Ethernet.payload frame)) (Ip.destination (Ethernet.payload frame)) text

/-- The checksum field of the UDP datagram in a frame. -/
def udpChecksum (frame : Bytes) : Nat :=
  Udp.checksumField (Ip.payload (Ethernet.payload frame))

end NetLib
