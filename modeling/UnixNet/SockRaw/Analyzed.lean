import UnixNet.SockRaw.AnalyzeMac
import UnixNet.SockRaw.UdpMessage

/-!
# `analyzeMac.c` behind `udpMessage.c`

What `analyzeMac` prints when it receives the frame that `udpMessage` has sent for a word. The hosts
may have different byte orders. `main_analyzed` says that the word and all addresses come through,
that nothing outside `buf` is read, and which number stands in the place of the destination port.
-/

namespace UnixNet.SockRaw

open NetLib

/-- What `analyzeMac` prints as the destination port if the source port is 8000. -/
def shownPort : Endian → Nat
  | .little => 8512
  | .big => 8002

/-- The lines for a frame of `udpMessage`. -/
def analysis (e : Endian) : List Line :=
  [.buf 0, .macs (macText desMac) (macText srcMac), .ip, .udp, .ports 8000 (shownPort e),
    .udpData 42, .ips (inetNtop sourceAddr) (inetNtop destAddr)]

variable {e : Endian} {mem : Memory} {word : Bytes}

/-- The array `data` of a word. -/
theorem read_data_word {input : Bytes}
    (hword : (input.dropWhile isspace).takeWhile (fun c => !isspace c) = word) (hne : word ≠ [])
    (hlen : word.length ≤ 127) :
    readData input = some (overwrite (word ++ [0]) (zeros 128)) := by
  rw [readData, hword, if_neg hne, if_pos (Nat.lt_succ_of_le hlen)]

/-- The frame of a word: the headers, of which only lengths and checksums depend on it, and the word
with its length rounded up. -/
theorem frame_of_word (e : Endian) (hlen : word.length ≤ 127) (hzero : 0 ∉ word) :
    ∃ c₁ c₂ c₃ c₄ c₅ c₆ c₇ c₈, frame e (overwrite (word ++ [0]) (zeros 128)) =
      [0x00, 0x50, 0x56, 0xc0, 0x00, 0x08, 0x00, 0x0c, 0x29, 0xc1, 0xd3, 0x13, 0x08, 0x00,
        69, 0, c₁, c₂, 0, 0, 0, 0, 128, 17, c₃, c₄, 192, 168, 141, 128, 192, 168, 141, 1,
        31, 64, 31, 64, c₅, c₆, c₇, c₈] ++ (word ++ zeros (word.length % 2)) := by
  have hpadded : paddedLength (overwrite (word ++ [0]) (zeros 128)) =
      word.length + word.length % 2 := by
    rw [paddedLength, cstr_word hzero]
  have htake := take_word word 128
  have hlength : (word ++ zeros (word.length % 2)).length = word.length + word.length % 2 := by
    rw [List.length_append, zeros, List.length_replicate]
  obtain ⟨c₃, c₄, hip⟩ := ip_header_bytes e (word.length + word.length % 2)
  obtain ⟨c₇, c₈, hcheck, -⟩ := e.word_bytes (internet_checksum_lt e
    (pseudo (word.length + word.length % 2) ++ udpStart (word.length + word.length % 2) ++ [0, 0] ++
      (word ++ zeros (word.length % 2))))
  generalize hn : word.length + word.length % 2 = n at *
  refine ⟨UInt8.ofNat ((20 + 8 + n) / 256), UInt8.ofNat (20 + 8 + n), c₃, c₄,
    UInt8.ofNat ((8 + n) / 256), UInt8.ofNat (8 + n), c₇, c₈, ?_⟩
  rw [frame_eq hpadded.symm (by rw [htake, hlength]) (by omega) (by omega), htake, hip, datagram,
    hcheck]
  rfl

/-- A text in `buf` that ends where the frame does has a NUL behind it. -/
theorem Received.holds_text {headers text : Bytes} {k : Nat}
    (h : Received mem (headers ++ (text ++ zeros k)))
    (hroom : headers.length + text.length + k < 1500) :
    mem.Holds headers.length (text ++ [0]) := by
  have hsize : (headers ++ (text ++ zeros k)).length = headers.length + text.length + k := by
    rw [List.length_append, List.length_append, zeros, List.length_replicate, Nat.add_assoc]
  -- `buf` is the headers, the text and zeros, of which there is at least one
  have hbuf : overwrite (headers ++ (text ++ zeros k)) (zeros 1500) =
      headers ++ (text ++ [0] ++ zeros (1500 - (headers.length + text.length) - 1)) := by
    have hzeros : zeros k ++ zeros (1500 - (headers.length + text.length + k)) =
        [0] ++ zeros (1500 - (headers.length + text.length) - 1) := by
      rw [zeros, zeros, zeros, List.replicate_append_replicate, List.singleton_append,
        ← List.replicate_succ]
      congr 1
      omega
    rw [overwrite, hsize, zeros, zeros, List.drop_replicate, List.append_assoc, List.append_assoc,
      List.append_assoc]
    congr 2
  have htext := h.2
  rw [hbuf] at htext
  intro i c hc
  have hi := (List.getElem?_eq_some_iff.mp hc).1
  refine (Nat.zero_add headers.length ▸ htext.append_right) i c ?_
  rw [List.getElem?_append_left hi, hc]

/-- What is printed as the ports when both are 8000. -/
theorem printed_ports_8000 (e : Endian) {transport : Nat} (hfirst : mem transport = 31)
    (hsecond : mem (transport + 1) = 64) :
    printed (ports e mem transport) = [.ports 8000 (shownPort e)] := by
  rw [printed_ports, hfirst, hsecond]
  cases e with
  | little => rfl
  | big => rfl

/-- What is read of a frame that does not fill `buf` is in `buf`: the texts end behind the frame. -/
theorem in_buffer_of_short (e : Endian) {sent : Bytes} (h : Received mem sent)
    (hshort : sent.length < 1500) : InBuffer mem (round e mem) := by
  have hip := ip_head_len_le mem
  have htcp := tcp_head_len_le mem (14 + ipHeadLen mem)
  have hnul : ∀ start < 1500, ∃ j, start ≤ j ∧ j < 1500 ∧ mem j = 0 :=
    fun start hstart => (h.nul_iff hstart).mpr (.inl hshort)
  rw [in_buffer_round, in_buffer_ip, in_buffer_tcp, in_buffer_udp]
  exact ⟨hnul 0 (by decide), fun _ => ⟨fun _ => hnul _ (by omega), fun _ => hnul _ (by omega)⟩⟩

/-- For every word and any byte orders of the two hosts: when `analyzeMac` receives the frame that
`udpMessage` sends, the text that it prints as the data is the word, the addresses are those of the
frame, and nothing outside `buf` is read. Only the destination port is not the one in the frame. -/
theorem main_analyzed (e e' : Endian) (input word : Bytes)
    (hword : (input.dropWhile isspace).takeWhile (fun c => !isspace c) = word) (hne : word ≠ [])
    (hlen : word.length ≤ 127) (hzero : 0 ∉ word) :
    ∃ sent, main e input = some sent ∧ ∀ mem, Received mem sent →
      printed (round e' mem) = analysis e' ∧ mem.Holds 42 (word ++ [0]) ∧
        InBuffer mem (round e' mem) := by
  obtain ⟨c₁, c₂, c₃, c₄, c₅, c₆, c₇, c₈, hframe⟩ := frame_of_word e hlen hzero
  refine ⟨_, by rw [main, read_data_word hword hne hlen, Option.map_some], fun mem h => ?_⟩
  have hlength : (frame e (overwrite (word ++ [0]) (zeros 128))).length =
      42 + (word.length + word.length % 2) := by
    rw [hframe, List.length_append, List.length_append, zeros, List.length_replicate]
    rfl
  refine ⟨?_, ?_, in_buffer_of_short e' h (by omega)⟩
  · -- the fields that the lines are made of are in the part of the headers that is fixed
    have htype : e'.ntohs (e'.word (mem 12) (mem 13)) = 0x0800 := by
      rw [h.macType, hframe]
      rfl
    have hprotocol : mem 23 = 17 := by
      rw [h.byte (by decide), hframe]
      rfl
    have hfirst : mem 14 = 69 := by
      rw [h.byte (by decide), hframe]
      rfl
    have hheader : ipHeadLen mem = 20 := by
      rw [ipHeadLen, hfirst]
      rfl
    have hports : mem 34 = 31 ∧ mem 35 = 64 := by
      rw [h.byte (by decide), h.byte (by decide), hframe]
      exact ⟨rfl, rfl⟩
    have hmacs : mem.bytes 0 6 = desMac ∧ mem.bytes 6 6 = srcMac := by
      rw [h.bytes (by omega), h.bytes (by omega), hframe]
      exact ⟨rfl, rfl⟩
    have haddrs : mem.bytes 26 4 = sourceAddr ∧ mem.bytes 30 4 = destAddr := by
      rw [h.bytes (by omega), h.bytes (by omega), hframe]
      exact ⟨rfl, rfl⟩
    rw [printed_udp htype hprotocol, hheader, printed_ports_8000 e' hports.1 hports.2, hmacs.1,
      hmacs.2, haddrs.1, haddrs.2]
    rfl
  · rw [hframe] at h
    exact h.holds_text (show 42 + word.length + word.length % 2 < 1500 by omega)

/-- The word `a`, between hosts of different byte orders. -/
theorem main_analyzed_a :
    ∃ sent, main .little (ascii "a\n") = some sent ∧ ∀ mem, Received mem sent →
      printed (round .big mem) = analysis .big ∧ mem.Holds 42 ([97] ++ [0]) ∧
        InBuffer mem (round .big mem) :=
  main_analyzed .little .big (ascii "a\n") [97] (by decide) (by decide) (by decide) (by decide)

end UnixNet.SockRaw
