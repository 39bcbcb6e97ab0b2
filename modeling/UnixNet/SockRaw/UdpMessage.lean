import UnixNet.Lib.Datagram
import UnixNet.RequestLine
import UnixNet.SockRaw.Checksum

/-!
# The frame of `udpMessage.c`

`main` reads a word of the input with `scanf("%s", data)`, rounds its length up to an even number,
builds a frame in `buf` and gives it to `SendTo`. The headers are structures laid over `buf`; here
an assignment to a field writes its bytes at the offset of the field. `frame_eq` says what the frame
is, `main_carries` that it carries the word with its length rounded up, and `main_carries_iff` when
it carries the word itself with a checksum.
-/

namespace UnixNet.SockRaw

open NetLib

/-- `char data[128] = ""; scanf("%s", data);`. There is no result if the word does not fit. -/
def readData (input : Bytes) : Option Bytes :=
  let word := (input.dropWhile isspace).takeWhile fun c => !isspace c
  if word = [] then some (zeros 128)
  else if word.length < 128 then some (overwrite (word ++ [0]) (zeros 128))
  else none

/-- `strlen(data) + strlen(data) % 2` -/
def paddedLength (data : Bytes) : Nat :=
  (cstr data).length + (cstr data).length % 2

/-- `inet_addr("192.168.141.128")`, as its bytes. -/
def sourceAddr : Bytes := [192, 168, 141, 128]

/-- `inet_addr("192.168.141.1")`, as its bytes. -/
def destAddr : Bytes := [192, 168, 141, 1]

def desMac : Bytes := [0x00, 0x50, 0x56, 0xc0, 0x00, 0x08]

def srcMac : Bytes := [0x00, 0x0c, 0x29, 0xc1, 0xd3, 0x13]

/-- The fields of `etherHeader`. -/
def etherHeader (e : Endian) (buf : Memory) : Memory :=
  let buf := buf.put 0 desMac
  let buf := buf.put 6 srcMac
  buf.put 12 (e.bytes (e.htons 0x0800))

/-- The fields of `ipHd`, in their order: `version` and `ihl`, `tos`, `tot_len`, `id`, `frag_off`,
`ttl`, `protocol`, `check`, `saddr`, `daddr`. -/
def ipFields (e : Endian) (dataLen : Nat) (buf : Memory) : Memory :=
  let buf := buf.put 14 [4 * 16 + 5]
  let buf := buf.put (14 + 1) [0]
  let buf := buf.put (14 + 2) (e.bytes (e.htons (20 + 8 + dataLen)))
  let buf := buf.put (14 + 4) (e.bytes (e.htons 0))
  let buf := buf.put (14 + 6) (e.bytes (e.htons 0))
  let buf := buf.put (14 + 8) [128]
  let buf := buf.put (14 + 9) [17]
  let buf := buf.put (14 + 10) (e.bytes (e.htons 0))
  let buf := buf.put (14 + 12) sourceAddr
  buf.put (14 + 16) destAddr

/-- `ipHd`, where `check` is assigned again. -/
def ipHd (e : Endian) (dataLen : Nat) (buf : Memory) : Memory :=
  let buf := ipFields e dataLen buf
  buf.put (14 + 10) (e.bytes (checksum e buf 14 20).toNat)

/-- The fields `source`, `dest`, `uh_ulen` and `check` of `udpHdr`, and the data behind them. -/
def udpHdr (e : Endian) (dataLen : Nat) (data : Bytes) (buf : Memory) : Memory :=
  let buf := buf.put (14 + 20) (e.bytes (e.htons 8000))
  let buf := buf.put (14 + 20 + 2) (e.bytes (e.htons 8000))
  let buf := buf.put (14 + 20 + 4) (e.bytes (e.htons (8 + dataLen)))
  let buf := buf.put (14 + 20 + 6) (e.bytes (e.htons 0))
  buf.put (14 + 20 + 8) (data.take dataLen)

/-- `checksumPackage`: the fields of `udpPseudo`, and behind them a copy of the datagram. -/
def checksumPackage (e : Endian) (dataLen : Nat) (buf : Memory) : Memory :=
  let package : Memory := fun _ => 0
  let package := package.put 0 sourceAddr
  let package := package.put 4 destAddr
  let package := package.put 8 [0]
  let package := package.put 9 [17]
  let package := package.put 10 (e.bytes (e.htons (8 + dataLen)))
  package.put 12 (buf.bytes (14 + 20) (8 + dataLen))

/-- The array `buf` when `SendTo` is called. -/
def message (e : Endian) (data : Bytes) : Memory :=
  let dataLen := paddedLength data
  let buf := etherHeader e fun _ => 0
  let buf := ipHd e dataLen buf
  let buf := udpHdr e dataLen data buf
  let check := checksum e (checksumPackage e dataLen buf) 0 (8 + 12 + dataLen)
  buf.put (14 + 20 + 6) (e.bytes check.toNat)

/-- The frame that `SendTo` gets. -/
def frame (e : Endian) (data : Bytes) : Bytes :=
  (message e data).bytes 0 (14 + 20 + 8 + paddedLength data)

/-- `main`, as the frame that is sent for an input. -/
def main (e : Endian) (input : Bytes) : Option Bytes :=
  (readData input).map (frame e)

/-! ## The parts of the frame -/

/-- The IP header before `check`. -/
def ipStart (n : Nat) : Bytes :=
  [69] ++ ([0] ++ (Endian.big.bytes (20 + 8 + n) ++ ([0, 0] ++ ([0, 0] ++ ([128] ++ [17])))))

/-- The IP header behind `check`. -/
def ipEnd : Bytes :=
  sourceAddr ++ destAddr

/-- The IP header. -/
def ipHeader (e : Endian) (n : Nat) : Bytes :=
  ipStart n ++ e.bytes (internetChecksum e (ipStart n ++ [0, 0] ++ ipEnd)) ++ ipEnd

/-- The UDP header before `check`. -/
def udpStart (n : Nat) : Bytes :=
  Endian.big.bytes 8000 ++ (Endian.big.bytes 8000 ++ Endian.big.bytes (8 + n))

/-- The pseudo header. -/
def pseudo (n : Nat) : Bytes :=
  sourceAddr ++ (destAddr ++ ([0] ++ ([17] ++ Endian.big.bytes (8 + n))))

/-- The datagram with this data. -/
def datagram (e : Endian) (n : Nat) (data : Bytes) : Bytes :=
  udpStart n ++ e.bytes (internetChecksum e (pseudo n ++ udpStart n ++ [0, 0] ++ data)) ++ data

variable {e : Endian} {n : Nat} {data : Bytes} {buf : Memory}

theorem bytes_zero (e : Endian) : e.bytes (e.htons 0) = [0, 0] := by
  rw [Endian.bytes_htons]
  rfl

/-- A number takes the place of two zero bytes. -/
theorem length_two_bytes (e : Endian) (w : Nat) : ([0, 0] : Bytes).length = (e.bytes w).length :=
  (e.length_bytes w).symm

/-- The fields are one behind the other. -/
theorem ether_header_eq :
    etherHeader e buf = buf.put 0 (desMac ++ (srcMac ++ Endian.big.bytes 0x0800)) := by
  unfold etherHeader
  dsimp only
  rw [Endian.bytes_htons, Memory.put_behind, Memory.put_behind]
  · rfl
  · rfl

theorem ip_fields_eq : ipFields e n buf = buf.put 14 (ipStart n ++ ([0, 0] ++ ipEnd)) := by
  unfold ipFields
  dsimp only
  rw [Endian.bytes_htons, bytes_zero]
  iterate 9 rw [Memory.put_behind]
  all_goals rfl

theorem udp_hdr_eq :
    udpHdr e n data buf = buf.put 34 (udpStart n ++ ([0, 0] ++ data.take n)) := by
  unfold udpHdr
  dsimp only
  rw [Endian.bytes_htons, Endian.bytes_htons, bytes_zero]
  iterate 4 rw [Memory.put_behind]
  all_goals rfl

theorem checksum_package_eq :
    checksumPackage e n buf = Memory.put (fun _ => 0) 0 (pseudo n ++ buf.bytes 34 (8 + n)) := by
  unfold checksumPackage
  dsimp only
  rw [Endian.bytes_htons]
  iterate 5 rw [Memory.put_behind]
  · rw [pseudo, List.append_assoc, List.append_assoc, List.append_assoc, List.append_assoc]
  all_goals rfl

/-- `checksum` of a text that is in the memory, with a length as in a frame. -/
theorem checksum_eq_of_holds {p : Nat} {text : Bytes} (h : buf.Holds p text)
    (hlen : text.length ≤ 1500) (heven : text.length % 2 = 0) :
    (checksum e buf p text.length).toNat = internetChecksum e text := by
  have hfold : fold (fold (e.words (buf.bytes p text.length)).sum) < 65536 := by
    rw [h.bytes_eq]
    exact fold_fold_words_lt (by omega) heven
  rw [checksum_eq_internet (by omega) heven hfold, h.bytes_eq]

theorem ip_hd_eq : ipHd e n buf = buf.put 14 (ipHeader e n) := by
  have hlength : (ipStart n ++ ([0, 0] ++ ipEnd)).length = 20 := rfl
  have hchecksum := checksum_eq_of_holds (e := e)
    (buf.put_holds 14 (ipStart n ++ ([0, 0] ++ ipEnd))) (by rw [hlength]; decide) (by rw [hlength])
  rw [hlength, ← List.append_assoc] at hchecksum
  unfold ipHd
  dsimp only
  rw [ip_fields_eq, ← List.append_assoc, hchecksum]
  exact Memory.put_inside _ _ rfl (length_two_bytes _ _) _

theorem length_ip_header (e : Endian) (n : Nat) : (ipHeader e n).length = 20 := by
  rw [ipHeader, List.length_append, List.length_append, Endian.length_bytes]
  rfl

theorem length_datagram (e : Endian) (n : Nat) (data : Bytes) :
    (datagram e n data).length = 8 + data.length := by
  rw [datagram, List.length_append, List.length_append, Endian.length_bytes]
  rfl

/-- What is in `buf`. -/
theorem message_eq (hn : n = paddedLength data) (hlength : (data.take n).length = n)
    (hsmall : n ≤ 128) (heven : n % 2 = 0) :
    message e data = Memory.put (fun _ => 0) 0 (desMac ++ (srcMac ++ Endian.big.bytes 0x0800) ++
      (ipHeader e n ++ datagram e n (data.take n))) := by
  generalize hheaders : desMac ++ (srcMac ++ Endian.big.bytes 0x0800) ++ ipHeader e n = headers
  have hlen : headers.length = 34 := by
    rw [← hheaders, List.length_append, length_ip_header]
    rfl
  have hfields : (udpStart n ++ ([0, 0] ++ data.take n)).length = 8 + n := by
    rw [List.length_append, List.length_append, hlength, ← Nat.add_assoc]
    rfl
  have hpackage : (pseudo n ++ (udpStart n ++ ([0, 0] ++ data.take n))).length = 8 + 12 + n := by
    rw [List.length_append, hfields]
    show 12 + (8 + n) = 8 + 12 + n
    omega
  -- `checksumPackage` is the pseudo header with the fields and data that are in `buf` then
  have hcopied := (Memory.put_holds (fun _ => 0) 0
    (headers ++ (udpStart n ++ ([0, 0] ++ data.take n)))).append_right.bytes_eq
  rw [hlen, hfields] at hcopied
  have hchecksum := checksum_eq_of_holds (e := e)
    (Memory.put_holds (fun _ => 0) 0 (pseudo n ++ (udpStart n ++ ([0, 0] ++ data.take n))))
    (by rw [hpackage]; omega) (by rw [hpackage]; omega)
  rw [hpackage] at hchecksum
  have hether : 14 = 0 + (desMac ++ (srcMac ++ Endian.big.bytes 0x0800)).length := rfl
  have hbehind : 34 = 0 + headers.length := by
    rw [hlen]
  have hcheck : 14 + 20 + 6 = 0 + (headers ++ udpStart n).length := by
    rw [List.length_append, hlen]
    rfl
  unfold message
  dsimp only
  rw [← hn, ether_header_eq, ip_hd_eq, Memory.put_behind _ 0 hether, hheaders, udp_hdr_eq,
    Memory.put_behind _ 0 hbehind, checksum_package_eq]
  rw [hcopied, hchecksum]
  have hsplit : headers ++ (udpStart n ++ ([0, 0] ++ data.take n)) =
      headers ++ udpStart n ++ [0, 0] ++ data.take n := by
    simp only [List.append_assoc]
  -- the last assignment puts the checksum in the place of its two zero bytes
  rw [hsplit, Memory.put_inside _ _ hcheck (length_two_bytes _ _), datagram, ← hheaders]
  simp only [List.append_assoc]

/-- The frame that is sent. -/
theorem frame_eq (hn : n = paddedLength data) (hlength : (data.take n).length = n)
    (hsmall : n ≤ 128) (heven : n % 2 = 0) :
    frame e data = desMac ++ (srcMac ++ Endian.big.bytes 0x0800) ++
      (ipHeader e n ++ datagram e n (data.take n)) := by
  have hwhole := (Memory.put_holds (fun _ => 0) 0 (desMac ++ (srcMac ++ Endian.big.bytes 0x0800) ++
    (ipHeader e n ++ datagram e n (data.take n)))).bytes_eq
  have hlen : (desMac ++ (srcMac ++ Endian.big.bytes 0x0800) ++
      (ipHeader e n ++ datagram e n (data.take n))).length = 14 + 20 + 8 + n := by
    have hpacket : (ipHeader e n ++ datagram e n (data.take n)).length = 20 + (8 + n) := by
      rw [List.length_append, length_ip_header, length_datagram, hlength]
    rw [List.length_append, hpacket]
    show 14 + (20 + (8 + n)) = _
    omega
  rw [hlen] at hwhole
  rw [frame, ← hn, message_eq hn hlength hsmall heven, hwhole]

/-! ## What the receiver reads -/

/-- A length is read as it was written. -/
theorem word_length {w : Nat} (hw : w < 65536) :
    Endian.big.word (UInt8.ofNat (w / 256)) (UInt8.ofNat w) = w := by
  obtain ⟨c, d, hbytes, hword⟩ := Endian.big.word_bytes hw
  cases hbytes
  exact hword

/-- The bytes of the IP header. -/
theorem ip_header_bytes (e : Endian) (n : Nat) :
    ∃ c d, ipHeader e n = [69, 0, UInt8.ofNat ((20 + 8 + n) / 256), UInt8.ofNat (20 + 8 + n),
      0, 0, 0, 0, 128, 17, c, d, 192, 168, 141, 128, 192, 168, 141, 1] := by
  obtain ⟨c, d, hbytes, -⟩ := e.word_bytes
    (internet_checksum_lt e (ipStart n ++ [0, 0] ++ ipEnd))
  refine ⟨c, d, ?_⟩
  rw [ipHeader, hbytes]
  rfl

/-- The checksum of the IP header is right. -/
theorem ip_header_accepted (e : Endian) (n : Nat) : Accepts .big (ipHeader e n) := by
  have hstart : (ipStart n).length % 2 = 0 := by
    have hlength : (ipStart n).length = 10 := rfl
    rw [hlength]
  exact accepts_other (accepts_checksum e hstart ipEnd)

/-- The version and the two lengths in the IP header. -/
theorem ip_header_lengths (e : Endian) (hn : n ≤ 128) (rest : Bytes) :
    Ip.version (ipHeader e n ++ rest) = 4 ∧ Ip.headerLength (ipHeader e n ++ rest) = 20 ∧
      Ip.totalLength (ipHeader e n ++ rest) = 20 + 8 + n := by
  obtain ⟨c, d, hlist⟩ := ip_header_bytes e n
  have hfirst : field8 (ipHeader e n ++ rest) 0 = 69 := by
    rw [hlist]
    rfl
  refine ⟨?_, ?_, ?_⟩
  · rw [Ip.version, hfirst]
    rfl
  · rw [Ip.headerLength, hfirst]
    rfl
  · rw [hlist]
    exact word_length (by omega)

/-- The other fields that the receiver reads. -/
theorem ip_header_fields (e : Endian) (n : Nat) (rest : Bytes) :
    Ip.protocol (ipHeader e n ++ rest) = 17 ∧ Ip.source (ipHeader e n ++ rest) = sourceAddr ∧
      Ip.destination (ipHeader e n ++ rest) = destAddr := by
  obtain ⟨c, d, hlist⟩ := ip_header_bytes e n
  rw [hlist]
  exact ⟨rfl, rfl, rfl⟩

/-- The IP header is valid in front of a datagram of the length that it announces, and the datagram
is what the packet carries. -/
theorem ip_header_valid (e : Endian) {rest : Bytes} (hrest : rest.length = 8 + n) (hn : n ≤ 128) :
    Ip.Valid (ipHeader e n ++ rest) ∧ Ip.payload (ipHeader e n ++ rest) = rest := by
  obtain ⟨c, d, hlist⟩ := ip_header_bytes e n
  obtain ⟨hversion, hlength, htotal⟩ := ip_header_lengths e hn rest
  have hheader := length_ip_header e n
  have hwhole : (ipHeader e n ++ rest).length = 20 + 8 + n := by
    rw [List.length_append, hheader, hrest, Nat.add_assoc]
  refine ⟨⟨hversion, ⟨?_, ?_⟩, ?_, ?_, ?_⟩, ?_⟩
  · rw [hlength]
  · rw [hlength, htotal]
    omega
  · rw [htotal, hwhole]
  · rw [hlist]
    rfl
  · rw [hlength, ← hheader, List.take_left]
    exact ip_header_accepted e n
  · rw [Ip.payload, htotal, hlength, ← hwhole, List.take_length, ← hheader, List.drop_left]

/-- The length field of the datagram. -/
theorem datagram_length (e : Endian) (hn : n ≤ 128) (data : Bytes) :
    Udp.length (datagram e n data) = 8 + n := by
  obtain ⟨c, d, hbytes, -⟩ := e.word_bytes
    (internet_checksum_lt e (pseudo n ++ udpStart n ++ [0, 0] ++ data))
  rw [datagram, hbytes]
  exact word_length (by omega)

/-- The checksum field of the datagram is 0 if the sum is right without a checksum. -/
theorem datagram_checksum_zero_iff (e : Endian) (n : Nat) (data : Bytes) :
    Udp.checksumField (datagram e n data) = 0 ↔
      Accepts e (pseudo n ++ udpStart n ++ [0, 0] ++ data) := by
  obtain ⟨c, d, hbytes, hword⟩ := e.word_bytes
    (internet_checksum_lt e (pseudo n ++ udpStart n ++ [0, 0] ++ data))
  have hfield : Udp.checksumField (datagram e n data) = Endian.big.word c d := by
    rw [datagram, hbytes]
    rfl
  rw [hfield, ← internet_checksum_eq_zero, ← hword, Endian.word_eq_zero_iff,
    Endian.word_eq_zero_iff]

/-- The datagram carries its data. -/
theorem datagram_carries (e : Endian) (hdata : data.length = n) (hn : n ≤ 128) :
    Udp.Carries (datagram e n data) sourceAddr destAddr data := by
  have hlength := datagram_length e hn data
  have hwhole : (datagram e n data).length = 8 + n := by
    rw [length_datagram, hdata]
  have hprefix : (pseudo n ++ udpStart n).length % 2 = 0 := by
    have hsize : (pseudo n ++ udpStart n).length = 18 := rfl
    rw [hsize]
  -- what the receiver adds up is what `checksum` was given, with the checksum in its place
  have hcovered : Udp.pseudoHeader (datagram e n data) sourceAddr destAddr ++ datagram e n data =
      pseudo n ++ udpStart n ++
        e.bytes (internetChecksum e (pseudo n ++ udpStart n ++ [0, 0] ++ data)) ++ data := by
    rw [Udp.pseudoHeader, hlength, pseudo, datagram, pseudo]
    simp only [List.append_assoc]
    rfl
  refine ⟨?_, ?_, ?_⟩
  · rw [hlength, hwhole]
    omega
  · have hfront : (udpStart n ++
        e.bytes (internetChecksum e (pseudo n ++ udpStart n ++ [0, 0] ++ data))).length = 8 := by
      rw [List.length_append, Endian.length_bytes]
      rfl
    rw [Udp.payload, hlength, ← hwhole, List.take_length, datagram, ← hfront, List.drop_left]
  · rw [hlength, ← hwhole, List.take_length, hcovered]
    exact accepts_other (accepts_checksum e hprefix data)

/-- Whether the checksum that is computed is 0. -/
theorem accepts_fields_iff (e : Endian) (data : Bytes) (hn : n ≤ 128) :
    Accepts e (pseudo n ++ udpStart n ++ [0, 0] ++ data) ↔
      (55924 + 2 * n + (Endian.big.words data).sum) % 65535 = 0 := by
  have hprefix : (pseudo n ++ udpStart n ++ [0, 0]).length % 2 = 0 := by
    have hlength : (pseudo n ++ udpStart n ++ [0, 0]).length = 20 := rfl
    rw [hlength]
  have hsum : (Endian.big.words (pseudo n ++ udpStart n ++ [0, 0])).sum = 186978 + 2 * (8 + n) := by
    show 49320 + (36224 + (49320 + (36097 + (17 +
      (Endian.big.word (UInt8.ofNat ((8 + n) / 256)) (UInt8.ofNat (8 + n)) + (8000 + (8000 +
        (Endian.big.word (UInt8.ofNat ((8 + n) / 256)) (UInt8.ofNat (8 + n)) + (0 + 0))))))))) = _
    rw [word_length (by omega)]
    omega
  have horder : Accepts e (pseudo n ++ udpStart n ++ [0, 0] ++ data) ↔
      Accepts .big (pseudo n ++ udpStart n ++ [0, 0] ++ data) := ⟨accepts_other, accepts_other⟩
  rw [horder, accepts_iff, Endian.words_append hprefix, List.sum_append, hsum]
  omega

/-- The frame carries the data that are copied into it. -/
theorem frame_carries (hn : n = paddedLength data) (hlength : (data.take n).length = n)
    (hsmall : n ≤ 128) (heven : n % 2 = 0) :
    CarriesUdp (frame e data) (data.take n) ∧ (udpChecksum (frame e data) = 0 ↔
      (55924 + 2 * n + (Endian.big.words (data.take n)).sum) % 65535 = 0) := by
  have hdatagram : (datagram e n (data.take n)).length = 8 + n := by
    rw [length_datagram, hlength]
  obtain ⟨hvalid, hip⟩ := ip_header_valid e hdatagram hsmall
  obtain ⟨hprotocol, hsource, hdest⟩ := ip_header_fields e n (datagram e n (data.take n))
  have hpacket : Ethernet.payload (frame e data) = ipHeader e n ++ datagram e n (data.take n) := by
    rw [frame_eq hn hlength hsmall heven]
    rfl
  have htype : Ethernet.etherType (frame e data) = 0x0800 := by
    rw [frame_eq hn hlength hsmall heven]
    rfl
  rw [← accepts_fields_iff e _ hsmall, ← datagram_checksum_zero_iff, udpChecksum, hpacket, hip]
  refine ⟨⟨htype, ?_, ?_, ?_⟩, Iff.rfl⟩
  · rw [hpacket]
    exact hvalid
  · rw [hpacket]
    exact hprotocol
  · rw [hpacket, hsource, hdest, hip]
    exact datagram_carries e hlength hsmall

/-- The data of a frame are what it carries. -/
theorem carries_udp_unique {sent text other : Bytes} (h : CarriesUdp sent text)
    (hother : CarriesUdp sent other) : text = other :=
  h.carries.payload_eq.symm.trans hother.carries.payload_eq

/-- The array `data` with a word in it. -/
theorem cstr_word {word : Bytes} (h : 0 ∉ word) (size : Nat) :
    cstr (overwrite (word ++ [0]) (zeros size)) = word := by
  rw [overwrite, List.append_assoc]
  exact cstr_append h _

/-- A word with its length rounded up. -/
theorem take_word (word : Bytes) (size : Nat) :
    (overwrite (word ++ [0]) (zeros size)).take (word.length + word.length % 2) =
      word ++ zeros (word.length % 2) := by
  have hroom : (word ++ [0]).length = word.length + 1 := List.length_append
  rw [take_overwrite (by omega), List.take_append, List.take_of_length_le (Nat.le_add_right _ _),
    Nat.add_sub_cancel_left]
  rcases Nat.mod_two_eq_zero_or_one word.length with heven | hodd
  · rw [heven]
    rfl
  · rw [hodd]
    rfl

/-- A zero byte behind a text of odd length does not change the sum. -/
theorem sum_words_padded (e : Endian) (word : Bytes) :
    (e.words (word ++ zeros (word.length % 2))).sum = (e.words word).sum := by
  rcases Nat.mod_two_eq_zero_or_one word.length with heven | hodd
  · rw [heven]
    exact congrArg (fun text => (e.words text).sum) (List.append_nil word)
  · rw [hodd]
    exact congrArg List.sum (Endian.words_padded hodd)

/-- The frame that is sent for a word. -/
theorem main_sends (e : Endian) (input word : Bytes)
    (hword : (input.dropWhile isspace).takeWhile (fun c => !isspace c) = word) (hne : word ≠ [])
    (hlen : word.length ≤ 127) (hzero : 0 ∉ word) :
    ∃ sent, main e input = some sent ∧ CarriesUdp sent (word ++ zeros (word.length % 2)) ∧
      (udpChecksum sent = 0 ↔ (55924 + 2 * (word.length + word.length % 2) +
        (Endian.big.words word).sum) % 65535 = 0) := by
  have hdata : readData input = some (overwrite (word ++ [0]) (zeros 128)) := by
    rw [readData, hword, if_neg hne, if_pos (Nat.lt_succ_of_le hlen)]
  have hpadded : paddedLength (overwrite (word ++ [0]) (zeros 128)) =
      word.length + word.length % 2 := by
    rw [paddedLength, cstr_word hzero]
  have htake := take_word word 128
  have hlength : (word ++ zeros (word.length % 2)).length = word.length + word.length % 2 := by
    rw [List.length_append, zeros, List.length_replicate]
  have hframe := frame_carries (e := e) hpadded.symm (by rw [htake, hlength]) (by omega) (by omega)
  rw [htake, sum_words_padded] at hframe
  exact ⟨_, by rw [main, hdata, Option.map_some], hframe⟩

/-- The frame carries the word, with a zero byte behind it if its length is odd, and with a checksum
if the sum is not right without one. -/
theorem main_carries (e : Endian) (input word : Bytes)
    (hword : (input.dropWhile isspace).takeWhile (fun c => !isspace c) = word) (hne : word ≠ [])
    (hlen : word.length ≤ 127) (hzero : 0 ∉ word) :
    ∃ sent, main e input = some sent ∧ CarriesUdp sent (word ++ zeros (word.length % 2)) ∧
      ((55924 + 2 * (word.length + word.length % 2) + (Endian.big.words word).sum) % 65535 ≠ 0 →
        udpChecksum sent ≠ 0) := by
  obtain ⟨sent, hsent, hcarries, hchecksum⟩ := main_sends e input word hword hne hlen hzero
  exact ⟨sent, hsent, hcarries, mt hchecksum.mp⟩

/-- The word `a` is sent with a zero byte behind it. -/
theorem main_carries_a : ∃ sent, main .little (ascii "a\n") = some sent ∧
    CarriesUdp sent [97, 0] ∧
      ((55924 + 2 * (1 + 1) + (Endian.big.words [97]).sum) % 65535 ≠ 0 → udpChecksum sent ≠ 0) :=
  main_carries .little (ascii "a\n") [97] (by decide) (by decide) (by decide) (by decide)

/-- The frame that is sent for a word carries the word itself with a checksum if and only if the
length of the word is even and the sum is not right without a checksum. -/
theorem main_carries_iff (e : Endian) (input word : Bytes)
    (hword : (input.dropWhile isspace).takeWhile (fun c => !isspace c) = word) (hne : word ≠ [])
    (hlen : word.length ≤ 127) (hzero : 0 ∉ word) :
    (∃ sent, main e input = some sent ∧ CarriesUdp sent word ∧ udpChecksum sent ≠ 0) ↔
      word.length % 2 = 0 ∧
        (55924 + 2 * word.length + (Endian.big.words word).sum) % 65535 ≠ 0 := by
  obtain ⟨sent, hsent, hcarries, hchecksum⟩ := main_sends e input word hword hne hlen hzero
  constructor
  · rintro ⟨other, hother, hword, hne⟩
    obtain rfl := Option.some.inj (hsent.symm.trans hother)
    -- the payload is the rounded word, which is the word itself for even lengths only
    have hlength := congrArg List.length (carries_udp_unique hcarries hword)
    rw [List.length_append, zeros, List.length_replicate] at hlength
    have heven : word.length % 2 = 0 := by omega
    rw [Ne, hchecksum, heven, Nat.add_zero] at hne
    exact ⟨heven, hne⟩
  · rintro ⟨heven, hsum⟩
    rw [heven, Nat.add_zero] at hchecksum
    rw [heven, zeros, List.replicate_zero, List.append_nil] at hcarries
    exact ⟨sent, hsent, hcarries, mt hchecksum.mp hsum⟩

/-- The word `a` is not carried as it is, and the word `a*b*b*` is sent without a checksum. -/
theorem main_not_carries :
    (¬ ∃ sent, main .little (ascii "a\n") = some sent ∧ CarriesUdp sent (ascii "a") ∧
      udpChecksum sent ≠ 0) ∧
    ¬ ∃ sent, main .little (ascii "a*b*b*\n") = some sent ∧ CarriesUdp sent (ascii "a*b*b*") ∧
      udpChecksum sent ≠ 0 := by
  rw [main_carries_iff .little (ascii "a\n") (ascii "a") (by decide) (by decide) (by decide)
    (by decide), main_carries_iff .little (ascii "a*b*b*\n") (ascii "a*b*b*") (by decide)
      (by decide) (by decide) (by decide)]
  exact ⟨fun h => absurd h.1 (by decide), fun h => h.2 (by decide)⟩

end UnixNet.SockRaw
