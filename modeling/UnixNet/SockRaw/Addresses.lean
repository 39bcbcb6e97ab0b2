import UnixNet.Lib.Memory
import UnixNet.Pub.Codec

/-!
# Addresses as text

The programs with raw sockets print a hardware address with `sprintf` and `%02x`, and an IP address
with `inet_ntop`. Different addresses have different texts.
-/

namespace UnixNet.SockRaw

open NetLib

/-- `%02x` -/
def hexByte (c : UInt8) : Bytes :=
  [Pub.hexDigit (c.toNat / 16), Pub.hexDigit (c.toNat % 16)]

/-- `sprintf(mac, "%02x:%02x:%02x:%02x:%02x:%02x", ...)` -/
def macText (mac : Bytes) : Bytes :=
  [58].intercalate (mac.map hexByte)

/-- `inet_ntop(AF_INET, addr, ip, 16)` -/
def inetNtop (addr : Bytes) : Bytes :=
  [46].intercalate (addr.map fun c => decimal c.toNat)

/-- Texts without the separator are told apart when they are joined by it. -/
theorem intercalate_inj {sep : UInt8} {text : UInt8 → Bytes} (hinj : Function.Injective text)
    (hsep : ∀ c, sep ∉ text c) {as bs : Bytes} (has : as ≠ []) (hbs : bs ≠ [])
    (h : [sep].intercalate (as.map text) = [sep].intercalate (bs.map text)) : as = bs := by
  have hsplit : ∀ {cs : Bytes}, cs ≠ [] →
      ([sep].intercalate (cs.map text)).splitOn sep = cs.map text := by
    intro cs hcs
    refine List.splitOn_intercalate sep (fun l hl => ?_) (by simpa using hcs)
    obtain ⟨c, -, rfl⟩ := List.mem_map.mp hl
    exact hsep c
  have hmap : as.map text = bs.map text := by
    rw [← hsplit has, ← hsplit hbs, h]
  exact List.map_injective_iff.mpr hinj hmap

theorem hex_byte_injective : Function.Injective hexByte := by
  intro c d h
  have hc := c.toNat_lt
  have hd := d.toNat_lt
  obtain ⟨hhigh, hrest⟩ := List.cons.inj h
  have hlow := (List.cons.inj hrest).1
  have hdigit : ∀ {m n : Nat}, m < 16 → n < 16 → Pub.hexDigit m = Pub.hexDigit n → m = n := by
    intro m n hm hn heq
    have hvalue := (Pub.hexit_hex_digit ⟨m, hm⟩).2
    rw [show Pub.hexDigit (⟨m, hm⟩ : Fin 16) = Pub.hexDigit (⟨n, hn⟩ : Fin 16) from heq,
      (Pub.hexit_hex_digit ⟨n, hn⟩).2] at hvalue
    exact hvalue.symm
  have hdiv : c.toNat / 16 = d.toNat / 16 := hdigit (by omega) (by omega) hhigh
  have hmod : c.toNat % 16 = d.toNat % 16 := hdigit (by omega) (by omega) hlow
  exact UInt8.toNat_inj.mp (by omega)

/-- A hexadecimal digit is no colon. -/
theorem colon_not_mem_hex_byte (c : UInt8) : 58 ∉ hexByte c := by
  have hc := c.toNat_lt
  have hdigit : ∀ n : Fin 16, (58 : UInt8) ≠ Pub.hexDigit n := by decide
  intro h
  rcases List.mem_pair.mp h with heq | heq
  · exact hdigit ⟨c.toNat / 16, by omega⟩ heq
  · exact hdigit ⟨c.toNat % 16, by omega⟩ heq

/-- The text of a hardware address tells which address it is. -/
theorem mac_text_inj {as bs : Bytes} (has : as ≠ []) (hbs : bs ≠ [])
    (h : macText as = macText bs) : as = bs :=
  intercalate_inj hex_byte_injective colon_not_mem_hex_byte has hbs h

/-- The text of an IP address tells which address it is. -/
theorem inet_ntop_inj {as bs : Bytes} (has : as ≠ []) (hbs : bs ≠ [])
    (h : inetNtop as = inetNtop bs) : as = bs := by
  refine intercalate_inj (fun c d heq => ?_) (fun c hmem => ?_) has hbs h
  · have hparse := congrArg parseDecimal heq
    rw [parse_decimal, parse_decimal] at hparse
    exact UInt8.toNat_inj.mp (Option.some.inj hparse)
  · exact absurd (isdigit_of_mem_decimal hmem) (by decide)

end UnixNet.SockRaw
