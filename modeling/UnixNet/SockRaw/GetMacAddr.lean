import UnixNet.Lib.Datagram
import UnixNet.SockRaw.Addresses

/-!
# The loop of `getMacAddr.c`

`main` sends an ARP request for 192.168.141.1 and receives frames until one has the type of ARP and
the operation of a reply. It prints the source address of that frame as the hardware address, and
the sender protocol address. `lookup_right_iff` says when this answers the request.
-/

namespace UnixNet.SockRaw

open NetLib

/-- The request, the first 42 bytes of `ArpPack`. -/
def arpPack : Bytes :=
  [0xff, 0xff, 0xff, 0xff, 0xff, 0xff, 0x00, 0x0c, 0x29, 0xc1, 0xd3, 0x13, 0x08, 0x06,
    0x00, 0x01, 0x08, 0x00, 6, 4, 0x00, 0x01, 0x00, 0x0c, 0x29, 0xc1, 0xd3, 0x13,
    192, 168, 141, 128, 0, 0, 0, 0, 0, 0, 192, 168, 141, 1]

/-- The address that is asked for. -/
def requested : Bytes :=
  fieldBytes arpPack 38 4

/-- The texts `src_ip` and `src_mac`. -/
structure Answer where
  srcIp : Bytes
  srcMac : Bytes
  deriving DecidableEq

/-- A round of the loop, with the answer that is printed before `break`. -/
def receive (e : Endian) (frame : Bytes) : Option Answer :=
  let buf := overwrite (frame.take 1500) (zeros 1500)
  let macType := e.ntohs (e.word (field8 buf 12) (field8 buf 13))
  if macType = 0x0806 then
    let op := e.ntohs (e.word (field8 buf 20) (field8 buf 21))
    if op = 2 then some ⟨inetNtop (fieldBytes buf 28 4), macText (fieldBytes buf 6 6)⟩ else none
  else none

/-- The loop. There is no answer as long as it goes on. -/
def lookup (e : Endian) (frames : List Bytes) : Option Answer :=
  frames.findSome? (receive e)

/-- The frames that are received before the loop ends. -/
def received (e : Endian) : List Bytes → List Bytes
  | [] => []
  | frame :: rest => frame :: if (receive e frame).isSome then [] else received e rest

/-! ## ARP -/

/-- What the loop takes for a reply. -/
def looksLikeReply (frame : Bytes) : Bool :=
  Ethernet.etherType frame = 0x0806 && field16 frame 20 = 2

/-- The frame is an ARP reply about an IP address and a hardware address of Ethernet. -/
structure ArpReply (frame : Bytes) : Prop where
  length_le : 42 ≤ frame.length
  etherType_eq : Ethernet.etherType frame = 0x0806
  hardware_eq : field16 (Ethernet.payload frame) 0 = 1
  protocol_eq : field16 (Ethernet.payload frame) 2 = 0x0800
  hardware_length_eq : field8 (Ethernet.payload frame) 4 = 6
  protocol_length_eq : field8 (Ethernet.payload frame) 5 = 4
  operation_eq : field16 (Ethernet.payload frame) 6 = 2

/-- The sender hardware address of an ARP reply. -/
def senderHardware (frame : Bytes) : Bytes :=
  fieldBytes (Ethernet.payload frame) 8 6

/-- The sender protocol address of an ARP reply. -/
def senderProtocol (frame : Bytes) : Bytes :=
  fieldBytes (Ethernet.payload frame) 14 4

/-- The frame is a reply about the requested address. -/
def RepliesToRequest (frame : Bytes) : Prop :=
  ArpReply frame ∧ senderProtocol frame = requested

/-- If the loop ends, what it prints is the requested address and the sender hardware address of a
reply about it. -/
def LookupRight (e : Endian) (frames : List Bytes) : Prop :=
  ∀ answer, lookup e frames = some answer → answer.srcIp = inetNtop requested ∧
    ∃ frame ∈ received e frames, RepliesToRequest frame ∧
      answer.srcMac = macText (senderHardware frame)

variable {e : Endian} {frame : Bytes} {frames : List Bytes}

/-! ## The round -/

/-- A number in `buf` is that of the frame. -/
theorem ntohs_received (e : Endian) (frame : Bytes) {i : Nat} (hi : i + 1 < 1500) :
    let buf := overwrite (frame.take 1500) (zeros 1500)
    e.ntohs (e.word (field8 buf i) (field8 buf (i + 1))) = field16 frame i := by
  intro buf
  rw [Endian.ntohs_word, field8_overwrite, field8_overwrite, field8_take (by omega),
    field8_take hi, field16]

/-- A part of `buf` that the frame covers. -/
theorem bytes_received {i n : Nat} (hin : i + n ≤ frame.length) (hsize : i + n ≤ 1500) :
    fieldBytes (overwrite (frame.take 1500) (zeros 1500)) i n = fieldBytes frame i n := by
  rw [field_bytes_overwrite (by rw [List.length_take]; omega), fieldBytes, fieldBytes,
    List.drop_take, List.take_take, Nat.min_eq_left (by omega)]

/-- What is printed for a frame that ends the loop. -/
def answerOf (frame : Bytes) : Answer :=
  let buf := overwrite (frame.take 1500) (zeros 1500)
  ⟨inetNtop (fieldBytes buf 28 4), macText (fieldBytes buf 6 6)⟩

/-- A round ends the loop if the frame looks like a reply. -/
theorem receive_eq (e : Endian) (frame : Bytes) :
    receive e frame = if looksLikeReply frame then some (answerOf frame) else none := by
  have htype : e.ntohs (e.word (field8 (overwrite (frame.take 1500) (zeros 1500)) 12)
      (field8 (overwrite (frame.take 1500) (zeros 1500)) 13)) = Ethernet.etherType frame :=
    ntohs_received e frame (by decide)
  have hop : e.ntohs (e.word (field8 (overwrite (frame.take 1500) (zeros 1500)) 20)
      (field8 (overwrite (frame.take 1500) (zeros 1500)) 21)) = field16 frame 20 :=
    ntohs_received e frame (by decide)
  unfold receive looksLikeReply
  dsimp only
  rw [htype, hop]
  by_cases hisArp : Ethernet.etherType frame = 0x0806
  · by_cases hisReply : field16 frame 20 = 2
    · simp [hisArp, hisReply, answerOf]
    · simp [hisReply]
  · simp [hisArp]

/-- The loop ends with the first frame that looks like a reply. -/
theorem lookup_eq (e : Endian) (frames : List Bytes) :
    lookup e frames = (frames.find? looksLikeReply).map answerOf := by
  induction frames with
  | nil => rfl
  | cons frame rest ih =>
      rw [lookup, List.findSome?_cons, receive_eq, List.find?_cons]
      cases hlooks : looksLikeReply frame with
      | false => exact ih
      | true => rfl

/-- Of the frames that are received only the last one may look like a reply. -/
theorem received_of_find (h : frames.find? looksLikeReply = some frame) :
    frame ∈ received e frames ∧
      ∀ other ∈ received e frames, looksLikeReply other → other = frame := by
  induction frames with
  | nil => cases h
  | cons first rest ih =>
      rw [List.find?_cons] at h
      rw [received, receive_eq]
      cases hlooks : looksLikeReply first with
      | false =>
          rw [hlooks] at h
          obtain ⟨hmem, hother⟩ := ih h
          refine ⟨List.mem_cons_of_mem _ hmem, fun other hin htrue => ?_⟩
          rcases List.mem_cons.mp hin with rfl | hrest
          · rw [hlooks] at htrue
            cases htrue
          · exact hother other hrest htrue
      | true =>
          rw [hlooks] at h
          cases h
          exact ⟨List.mem_cons_self, fun other hin _ => List.mem_singleton.mp hin⟩

/-! ## The answer -/

theorem ArpReply.looks_like_reply (h : ArpReply frame) : looksLikeReply frame = true := by
  have hop : field16 frame 20 = 2 := by
    rw [← h.operation_eq, field16, field16, Ethernet.payload, field8_drop, field8_drop]
  rw [looksLikeReply, h.etherType_eq, hop]
  rfl

/-- The printed IP address of a whole ARP reply is the sender protocol address. -/
theorem ArpReply.src_ip (h : ArpReply frame) :
    (answerOf frame).srcIp = inetNtop (senderProtocol frame) := by
  have hlength := h.length_le
  show inetNtop (fieldBytes (overwrite (frame.take 1500) (zeros 1500)) 28 4) = _
  rw [bytes_received (by omega) (by decide), senderProtocol, Ethernet.payload, fieldBytes,
    fieldBytes, List.drop_drop]

/-- The printed hardware address is the source address of the frame. -/
theorem ArpReply.src_mac (h : ArpReply frame) :
    (answerOf frame).srcMac = macText (fieldBytes frame 6 6) := by
  have hlength := h.length_le
  show macText (fieldBytes (overwrite (frame.take 1500) (zeros 1500)) 6 6) = _
  rw [bytes_received (by omega) (by decide)]

/-- A part of a frame that is long enough. -/
theorem field_bytes_ne_nil {text : Bytes} {i n : Nat} (h : i < text.length) (hn : 0 < n) :
    fieldBytes text i n ≠ [] := by
  intro hnil
  have hlength := congrArg List.length hnil
  rw [fieldBytes, List.length_take, List.length_drop, List.length_nil] at hlength
  omega

/-- The answer is right if and only if the first frame that looks like a reply, if there is one, is
a reply about the requested address from the hardware address in it. -/
theorem lookup_right_iff (e : Endian) (frames : List Bytes) :
    LookupRight e frames ↔ ∀ frame, frames.find? looksLikeReply = some frame →
      RepliesToRequest frame ∧ fieldBytes frame 6 6 = senderHardware frame := by
  refine ⟨fun h frame hfind => ?_, fun h answer hanswer => ?_⟩
  · obtain ⟨hmem, hother⟩ := received_of_find (e := e) hfind
    have hlookup : lookup e frames = some (answerOf frame) := by
      rw [lookup_eq, hfind, Option.map_some]
    obtain ⟨-, reply, hreply, hrequest, hmac⟩ := h _ hlookup
    -- the reply meant is the frame that ended the loop, since no other one looked like a reply
    obtain rfl := hother reply hreply hrequest.1.looks_like_reply
    have hlength := hrequest.1.length_le
    rw [hrequest.1.src_mac] at hmac
    refine ⟨hrequest, mac_text_inj ?_ ?_ hmac⟩
    · exact field_bytes_ne_nil (by omega) (by decide)
    · refine field_bytes_ne_nil ?_ (by decide)
      rw [Ethernet.payload, List.length_drop]
      omega
  · rw [lookup_eq] at hanswer
    obtain ⟨frame, hfind, rfl⟩ := Option.map_eq_some_iff.mp hanswer
    obtain ⟨hrequest, hsource⟩ := h frame hfind
    refine ⟨?_, frame, (received_of_find hfind).1, hrequest, ?_⟩
    · rw [hrequest.1.src_ip, hrequest.2]
    · rw [hrequest.1.src_mac, hsource]

/-- A reply about 192.168.141.2. -/
def otherReply : Bytes :=
  [0x00, 0x0c, 0x29, 0xc1, 0xd3, 0x13, 0x00, 0x50, 0x56, 0xc0, 0x00, 0x02, 0x08, 0x06,
    0, 1, 8, 0, 6, 4, 0, 2, 0x00, 0x50, 0x56, 0xc0, 0x00, 0x02, 192, 168, 141, 2,
    0x00, 0x0c, 0x29, 0xc1, 0xd3, 0x13, 192, 168, 141, 128]

/-- A reply about another host is taken for the answer. -/
theorem lookup_of_other_reply : ¬ LookupRight .little [otherReply] := by
  intro h
  have hlookup : lookup .little [otherReply] = some (answerOf otherReply) := by
    rw [lookup_eq]
    rfl
  have hip : inetNtop [192, 168, 141, 2] = inetNtop requested := (h _ hlookup).1
  have haddr : ([192, 168, 141, 2] : Bytes) = requested :=
    inet_ntop_inj (by decide) (by decide) hip
  revert haddr
  decide

end UnixNet.SockRaw
