import UnixNet.SockRaw.GetMacAddr

/-!
# The frames of `arpDeceit.c`

`main` builds an ARP reply in `buf`, field by field, and gives it to `SendTo` twenty times.
`getMacAddr` receives whatever else is on the net between these frames. `frame_replies` says that
the frame is an ARP reply from the forged address, and `deceit_believed` that `getMacAddr` prints
the forged address, and when this counts as an answer to its request.
-/

namespace UnixNet.SockRaw.ArpDeceit

open NetLib

/-- The arrays `des_mac`, `src_mac`, `src_ip` and `des_ip` that the fields are copied from. -/
structure Deceit where
  desMac : Bytes
  srcMac : Bytes
  srcIp : Bytes
  desIp : Bytes
  length_des_mac : desMac.length = 6
  length_src_mac : srcMac.length = 6
  length_src_ip : srcIp.length = 4
  length_des_ip : desIp.length = 4

/-- The fields of `ethHd`. -/
def ethHd (e : Endian) (deceit : Deceit) (buf : Memory) : Memory :=
  let buf := buf.put 0 deceit.desMac
  let buf := buf.put 6 deceit.srcMac
  buf.put 12 (e.bytes (e.htons 0x0806))

/-- The fields of `arpHd`, in their order: `ar_hrd`, `ar_pro`, `ar_hln`, `ar_pln`, `ar_op`,
`__ar_sha`, `__ar_sip`, `__ar_tha`, `__ar_tip`. -/
def arpHd (e : Endian) (deceit : Deceit) (buf : Memory) : Memory :=
  let buf := buf.put 14 (e.bytes (e.htons 1))
  let buf := buf.put (14 + 2) (e.bytes (e.htons 0x0800))
  let buf := buf.put (14 + 4) [6]
  let buf := buf.put (14 + 5) [4]
  let buf := buf.put (14 + 6) (e.bytes (e.htons 2))
  let buf := buf.put (14 + 8) deceit.srcMac
  let buf := buf.put (14 + 14) deceit.srcIp
  let buf := buf.put (14 + 18) deceit.desMac
  buf.put (14 + 24) deceit.desIp

/-- The frame that `SendTo` gets. -/
def frame (e : Endian) (deceit : Deceit) : Bytes :=
  (arpHd e deceit (ethHd e deceit fun _ => 0)).bytes 0 (14 + 28)

/-- The loop of `main`, as the frames that it sends. -/
def send (e : Endian) (deceit : Deceit) : List Bytes :=
  List.replicate 20 (frame e deceit)

/-- The addresses of `main`. -/
def forged : Deceit where
  desMac := [0x00, 0x50, 0x56, 0xc0, 0x00, 0x08]
  srcMac := [0xee, 0xee, 0xee, 0xee, 0xee, 0xee]
  srcIp := [192, 168, 141, 128]
  desIp := [192, 168, 141, 1]
  length_des_mac := rfl
  length_src_mac := rfl
  length_src_ip := rfl
  length_des_ip := rfl

/-- `main`, as the frames that are sent. -/
def main (e : Endian) : List Bytes :=
  send e forged

variable {e e' : Endian} {deceit : Deceit} {frames : List Bytes}

/-! ## The frame -/

/-- What is behind the addresses of Ethernet and the type. -/
def arpPacket (deceit : Deceit) : Bytes :=
  [0, 1, 8, 0, 6, 4, 0, 2] ++ (deceit.srcMac ++ (deceit.srcIp ++ (deceit.desMac ++ deceit.desIp)))

theorem length_arp_packet (deceit : Deceit) : (arpPacket deceit).length = 28 := by
  rw [arpPacket, List.length_append, List.length_append, List.length_append, List.length_append,
    deceit.length_src_mac, deceit.length_src_ip, deceit.length_des_mac, deceit.length_des_ip]
  rfl

/-- The fields of `ethHd` are one behind the other. -/
theorem eth_hd_eq {buf : Memory} :
    ethHd e deceit buf = buf.put 0 (deceit.desMac ++ (deceit.srcMac ++ [8, 6])) := by
  unfold ethHd
  dsimp only
  rw [Endian.bytes_htons, Memory.put_behind, Memory.put_behind]
  · rfl
  · rw [deceit.length_des_mac]
  · rw [deceit.length_src_mac]

/-- The fields of `arpHd` are one behind the other. -/
theorem arp_hd_eq {buf : Memory} : arpHd e deceit buf = buf.put 14 (arpPacket deceit) := by
  unfold arpHd
  dsimp only
  rw [Endian.bytes_htons, Endian.bytes_htons, Endian.bytes_htons]
  -- the last field first: each one is put behind the field before it
  rw [Memory.put_behind _ (14 + 18) (by rw [deceit.length_des_mac]),
    Memory.put_behind _ (14 + 14) (by rw [deceit.length_src_ip]),
    Memory.put_behind _ (14 + 8) (by rw [deceit.length_src_mac])]
  iterate 5 rw [Memory.put_behind]
  all_goals rfl

/-- The frame: the addresses of Ethernet, the type, and the ARP packet. -/
theorem frame_eq (e : Endian) (deceit : Deceit) :
    frame e deceit = deceit.desMac ++ (deceit.srcMac ++ [8, 6]) ++ arpPacket deceit := by
  have hheader : (deceit.desMac ++ (deceit.srcMac ++ [8, 6])).length = 14 := by
    rw [List.length_append, List.length_append, deceit.length_des_mac, deceit.length_src_mac]
    rfl
  have hlength : (deceit.desMac ++ (deceit.srcMac ++ [8, 6]) ++ arpPacket deceit).length =
      14 + 28 := by
    rw [List.length_append, hheader, length_arp_packet]
  rw [frame, eth_hd_eq, arp_hd_eq, Memory.put_behind _ 0 (by rw [hheader]), ← hlength]
  exact (Memory.put_holds _ 0 _).bytes_eq

variable {pad : Bytes}

/-- What a receiver finds behind the header of Ethernet. A frame may be padded on its way. -/
theorem payload_frame :
    Ethernet.payload (frame e deceit ++ pad) = arpPacket deceit ++ pad := by
  rw [Ethernet.payload, frame_eq, List.append_assoc]
  refine List.drop_left' ?_
  rw [List.length_append, List.length_append, deceit.length_des_mac, deceit.length_src_mac]
  rfl

/-- The type of the frame. -/
theorem ether_type_frame : Ethernet.etherType (frame e deceit ++ pad) = 0x0806 := by
  have hbehind : (frame e deceit ++ pad).drop 12 = [8, 6] ++ (arpPacket deceit ++ pad) := by
    rw [frame_eq, ← List.append_assoc deceit.desMac, List.append_assoc, List.append_assoc]
    refine List.drop_left' ?_
    rw [List.length_append, deceit.length_des_mac, deceit.length_src_mac]
  rw [Ethernet.etherType, field16, ← field8_drop _ 12 0, ← field8_drop _ 12 1, hbehind]
  rfl

/-- The frame is an ARP reply. -/
theorem frame_replies : ArpReply (frame e deceit ++ pad) where
  length_le := by
    rw [frame, List.length_append, Memory.length_bytes]
    exact Nat.le_add_right _ _
  etherType_eq := ether_type_frame
  hardware_eq := by
    rw [payload_frame]
    rfl
  protocol_eq := by
    rw [payload_frame]
    rfl
  hardware_length_eq := by
    rw [payload_frame]
    rfl
  protocol_length_eq := by
    rw [payload_frame]
    rfl
  operation_eq := by
    rw [payload_frame]
    rfl

/-- The addresses of the sender in the frame. -/
theorem frame_sender (e : Endian) (deceit : Deceit) (pad : Bytes) :
    fieldBytes (frame e deceit ++ pad) 6 6 = deceit.srcMac ∧
      senderHardware (frame e deceit ++ pad) = deceit.srcMac ∧
        senderProtocol (frame e deceit ++ pad) = deceit.srcIp := by
  refine ⟨?_, ?_, ?_⟩
  · rw [fieldBytes, frame_eq, List.append_assoc, List.append_assoc,
      List.drop_left' deceit.length_des_mac, List.append_assoc,
      List.take_left' deceit.length_src_mac]
  · rw [senderHardware, payload_frame]
    show (deceit.srcMac ++ (deceit.srcIp ++ (deceit.desMac ++ deceit.desIp)) ++ pad).take 6 = _
    rw [List.append_assoc, List.take_left' deceit.length_src_mac]
  · rw [senderProtocol, payload_frame, fieldBytes, ← List.drop_drop (i := 6) (j := 8)]
    show ((deceit.srcMac ++ (deceit.srcIp ++ (deceit.desMac ++ deceit.desIp)) ++ pad).drop 6).take 4
      = _
    rw [List.append_assoc, List.drop_left' deceit.length_src_mac, List.append_assoc,
      List.take_left' deceit.length_src_ip]

/-! ## The answer -/

/-- If no frames but those of the deceit look like a reply, and one of them arrives, `getMacAddr`
prints the forged addresses. This counts as right if and only if the forged IP address is the one
that was asked for. -/
theorem deceit_believed (e e' : Endian) (deceit : Deceit) (frames : List Bytes)
    (hothers : ∀ frame ∈ frames, looksLikeReply frame = true →
      ∃ sent ∈ send e deceit, ∃ pad, frame = sent ++ pad)
    (harrives : ∃ sent ∈ send e deceit, ∃ pad, sent ++ pad ∈ frames) :
    lookup e' frames = some ⟨inetNtop deceit.srcIp, macText deceit.srcMac⟩ ∧
      (LookupRight e' frames ↔ deceit.srcIp = requested) := by
  -- the first frame that looks like a reply is one of the deceit
  obtain ⟨first, hfind⟩ : ∃ first, frames.find? looksLikeReply = some first := by
    obtain ⟨sent, hsent, pad, hmem⟩ := harrives
    rw [List.eq_of_mem_replicate hsent] at hmem
    rw [← Option.isSome_iff_exists, List.find?_isSome]
    exact ⟨_, hmem, frame_replies.looks_like_reply⟩
  obtain ⟨sent, hsent, pad, rfl⟩ := hothers first (List.mem_of_find?_eq_some hfind)
    (List.find?_some hfind)
  obtain rfl := List.eq_of_mem_replicate hsent
  have hreply : ArpReply (frame e deceit ++ pad) := frame_replies
  obtain ⟨hsource, hhardware, hprotocol⟩ := frame_sender e deceit pad
  have hlookup : lookup e' frames = some ⟨inetNtop deceit.srcIp, macText deceit.srcMac⟩ := by
    rw [lookup_eq, hfind, Option.map_some]
    refine congrArg some ?_
    have hip := hreply.src_ip
    have hmac := hreply.src_mac
    rw [hprotocol] at hip
    rw [hsource] at hmac
    cases hanswer : answerOf (frame e deceit ++ pad) with
    | mk srcIp srcMac =>
        rw [hanswer] at hip hmac
        rw [← show srcIp = inetNtop deceit.srcIp from hip,
          ← show srcMac = macText deceit.srcMac from hmac]
  have hsomeIp : deceit.srcIp ≠ [] := by
    intro hnil
    have hlength := deceit.length_src_ip
    rw [hnil] at hlength
    cases hlength
  refine ⟨hlookup, fun h => ?_, fun hrequested answer hanswer => ?_⟩
  · exact inet_ntop_inj hsomeIp (by decide) (h _ hlookup).1
  · -- the frame of the deceit is itself the reply about the requested address
    obtain rfl := Option.some.inj (hlookup.symm.trans hanswer)
    exact ⟨congrArg inetNtop hrequested, _, (received_of_find hfind).1,
      ⟨hreply, hprotocol.trans hrequested⟩, congrArg macText hhardware.symm⟩

/-- `getMacAddr` believes the first frame of `main`. -/
theorem deceit_believed_forged :
    lookup .big [arpPack, frame .little forged] =
        some ⟨inetNtop forged.srcIp, macText forged.srcMac⟩ ∧
      (LookupRight .big [arpPack, frame .little forged] ↔ forged.srcIp = requested) := by
  have hsent : frame .little forged ∈ send .little forged := List.mem_replicate.mpr ⟨nofun, rfl⟩
  refine deceit_believed .little .big forged _ (fun other hmem hlooks => ?_)
    ⟨_, hsent, [], by rw [List.append_nil]; exact List.mem_cons_of_mem _ List.mem_cons_self⟩
  rcases List.mem_cons.mp hmem with rfl | hlast
  · exact absurd hlooks (by decide)
  · exact ⟨_, hsent, [], by rw [List.append_nil]; exact List.mem_singleton.mp hlast⟩

end UnixNet.SockRaw.ArpDeceit
