import Qing.Lib.DottedQuad

/-!
# Addresses

`Address` with its three constructors, and `Util::getHostByName`. What the platform gives is
a record of functions, and `Platform.Lawful` is what is known of `inet_pton`, `inet_ntop`
and the conversions to and from network order. The buffer of `ipString` is longer than any
text, and all of it becomes the string. So the string is never the text of the address
(`ipString_ne_text`), but the constructor reads no further than to the first zero of it, and
finds the address again.
-/

namespace Qing

open DottedQuad

/-- What is called of the C library. A text there has no zero in it. -/
structure Platform where
  htonl : UInt32 → UInt32
  ntohl : UInt32 → UInt32
  htons : UInt16 → UInt16
  ntohs : UInt16 → UInt16
  /-- `inet_pton` for `AF_INET`: the address, in network order, if it returns 1. -/
  inetPton : List Char → Option UInt32
  /-- What `inet_ntop` for `AF_INET` makes of the buffer it is given. -/
  inetNtop : UInt32 → List Char → List Char
  /-- The addresses that `getaddrinfo` finds, in network order, if it returns 0. -/
  getaddrinfo : List Char → Option (List UInt32)

def nul : Char := Char.ofNat 0

structure Platform.Lawful (P : Platform) : Prop where
  ntohl_htonl : ∀ a, P.ntohl (P.htonl a) = a
  htonl_ntohl : ∀ a, P.htonl (P.ntohl a) = a
  ntohs_htons : ∀ p, P.ntohs (P.htons p) = p
  htons_ntohs : ∀ p, P.htons (P.ntohs p) = p
  inetPton_text : ∀ a, P.inetPton (text a) = some (P.htonl a)
  /-- The text is written with a zero after it, if the buffer has the 16 characters that the
  longest one needs. -/
  inetNtop_text : ∀ a buf, 16 ≤ buf.length →
    (P.inetNtop (P.htonl a) buf).length = buf.length ∧
      ∃ rest, P.inetNtop (P.htonl a) buf = text a ++ nul :: rest

/-! ## The code -/

/-- What `s.c_str()` is as a text. -/
def cStr (s : List Char) : List Char := s.takeWhile (· != nul)

def afInet : UInt16 := 2
def inaddrAny : UInt32 := 0

/-- `sockaddr_in`, with the port and the address in network order. -/
structure SockAddrIn where
  family : UInt16
  port : UInt16
  addr : UInt32
  deriving DecidableEq, Repr

def Util.getHostByName (P : Platform) (host : List Char) : UInt32 :=
  match P.getaddrinfo (cStr host) with
  | none => 4294967295
  | some [] => 4294967295
  | some (cur :: _) => cur

structure Address where
  sockAddr : SockAddrIn
  deriving DecidableEq, Repr

namespace Address

variable (P : Platform)

def ofPort (port : UInt16) : Address := ⟨afInet, P.htons port, P.htonl inaddrAny⟩

def ofText (ip : List Char) (port : UInt16) : Address :=
  match P.inetPton (cStr ip) with
  | some addr => ⟨afInet, P.htons port, addr⟩
  | none =>
      let ret := Util.getHostByName P ip
      if ret ≠ 4294967295 then ⟨afInet, P.htons port, ret⟩
      else ⟨afInet, P.htons port, P.htonl inaddrAny⟩

def ofSockAddr (addr : SockAddrIn) : Address := ⟨addr⟩

def ip (x : Address) : UInt32 := P.ntohl x.sockAddr.addr

def port (x : Address) : UInt16 := P.ntohs x.sockAddr.port

/-- The 32 characters of the buffer. -/
def ipString (x : Address) : List Char :=
  (P.inetNtop x.sockAddr.addr (List.replicate 32 nul)).take 32

end Address

/-! ## Reading and writing -/

theorem cStr_append {s : List Char} (h : nul ∉ s) (rest : List Char) :
    cStr (s ++ rest) = s ++ cStr rest :=
  List.takeWhile_append_of_pos fun _ hc => bne_iff_ne.mpr (ne_of_mem_of_not_mem hc h)

theorem cStr_append_nul {s : List Char} (h : nul ∉ s) (rest : List Char) :
    cStr (s ++ nul :: rest) = s := by
  have hnul : cStr (nul :: rest) = [] := by simp [cStr]
  rw [cStr_append h, hnul, List.append_nil]

theorem cStr_text (a : UInt32) : cStr (text a) = text a := by
  have happend := cStr_append (nul_notMem_text a) []
  rw [List.append_nil] at happend
  exact happend.trans (List.append_nil _)

namespace Address

variable {P : Platform}

theorem ipString_eq (h : P.Lawful) (x : Address) :
    (x.ipString P).length = 32 ∧ ∃ rest, x.ipString P = text (x.ip P) ++ nul :: rest := by
  obtain ⟨hlen, rest, heq⟩ := h.inetNtop_text (x.ip P) (List.replicate 32 nul)
    (by rw [List.length_replicate]; decide)
  rw [ip, h.htonl_ntohl, List.length_replicate] at hlen
  rw [ip, h.htonl_ntohl] at heq
  have htake : x.ipString P = P.inetNtop x.sockAddr.addr (List.replicate 32 nul) :=
    List.take_of_length_le (Nat.le_of_eq hlen)
  rw [htake]
  exact ⟨hlen, rest, heq⟩

theorem cStr_ipString (h : P.Lawful) (x : Address) : cStr (x.ipString P) = text (x.ip P) := by
  obtain ⟨-, rest, heq⟩ := ipString_eq h x
  rw [heq, cStr_append_nul (nul_notMem_text _)]

/-- No text is as long as the string. -/
theorem ipString_ne_text (h : P.Lawful) (x : Address) (a : UInt32) : x.ipString P ≠ text a := by
  intro heq
  have hlen := (ipString_eq h x).1
  have hle := length_text_le a
  rw [← heq, hlen] at hle
  exact absurd hle (by decide)

theorem ofText_eq (h : P.Lawful) {s : List Char} {a : UInt32} (hs : cStr s = text a)
    (p : UInt16) : ofText P s p = ⟨afInet, P.htons p, P.htonl a⟩ := by
  rw [ofText, hs, h.inetPton_text]

theorem ip_ofText (h : P.Lawful) {s : List Char} {a : UInt32} (hs : cStr s = text a)
    (p : UInt16) : (ofText P s p).ip P = a := by
  rw [ofText_eq h hs]
  exact h.ntohl_htonl a

theorem port_ofText (h : P.Lawful) (s : List Char) (p : UInt16) :
    (ofText P s p).port P = p := by
  have hport : (ofText P s p).sockAddr.port = P.htons p := by
    rw [ofText]
    split
    · rfl
    · exact (apply_ite (fun x : Address => x.sockAddr.port) _ _ _).trans (ite_self _)
  rw [port, hport, h.ntohs_htons]

theorem ip_ofPort (h : P.Lawful) (p : UInt16) :
    (ofPort P p).ip P = inaddrAny ∧ (ofPort P p).port P = p :=
  ⟨h.ntohl_htonl inaddrAny, h.ntohs_htons p⟩

theorem ofSockAddr_sockAddr (x : Address) : ofSockAddr x.sockAddr = x := rfl

/-- The address and the port are found again, from the text of an address and from the string
of one. The string is not the text: it always has 32 characters, of which those before the
first zero are the text. -/
theorem text_roundTrip (h : P.Lawful) :
    (∀ a p, (ofText P (text a) p).ip P = a ∧ (ofText P (text a) p).port P = p ∧
      (ofText P (text a) p).ipString P ≠ text a) ∧
    (∀ x : Address, (x.ipString P).length = 32 ∧ cStr (x.ipString P) = text (x.ip P) ∧
      (ofText P (x.ipString P) (x.port P)).ip P = x.ip P ∧
      (ofText P (x.ipString P) (x.port P)).port P = x.port P) := by
  constructor
  · intro a p
    exact ⟨ip_ofText h (cStr_text a) p, port_ofText h _ p, ipString_ne_text h _ a⟩
  · intro x
    have htext := cStr_ipString h x
    exact ⟨(ipString_eq h x).1, htext, ip_ofText h htext _, port_ofText h _ _⟩

end Address

/-! ## A machine with the least significant byte first -/

def byteSwap (a : UInt32) : UInt32 :=
  UInt32.ofNat (a.toNat % 256 * 2 ^ 24 + a.toNat / 2 ^ 8 % 256 * 2 ^ 16 +
    a.toNat / 2 ^ 16 % 256 * 2 ^ 8 + a.toNat / 2 ^ 24)

def byteSwap16 (p : UInt16) : UInt16 := UInt16.ofNat (p.toNat % 256 * 256 + p.toNat / 256)

theorem toNat_byteSwap {a : UInt32} {w x y z : ℕ} (hw : w < 256) (hx : x < 256) (hy : y < 256)
    (hz : z < 256) (ha : a.toNat = w * 2 ^ 24 + x * 2 ^ 16 + y * 2 ^ 8 + z) :
    (byteSwap a).toNat = z * 2 ^ 24 + y * 2 ^ 16 + x * 2 ^ 8 + w := by
  have hz' : a.toNat % 256 = z := by omega
  have hy' : a.toNat / 2 ^ 8 % 256 = y := by omega
  have hx' : a.toNat / 2 ^ 16 % 256 = x := by omega
  have hw' : a.toNat / 2 ^ 24 = w := by omega
  rw [byteSwap, hz', hy', hx', hw', UInt32.toNat_ofNat']
  exact Nat.mod_eq_of_lt (by omega)

theorem byteSwap_byteSwap (a : UInt32) : byteSwap (byteSwap a) = a := by
  have hlt := a.toNat_lt
  have ha : a.toNat = a.toNat / 2 ^ 24 * 2 ^ 24 + a.toNat / 2 ^ 16 % 256 * 2 ^ 16 +
      a.toNat / 2 ^ 8 % 256 * 2 ^ 8 + a.toNat % 256 := by omega
  have hswap := toNat_byteSwap (by omega) (by omega) (by omega) (by omega) ha
  rw [← UInt32.toNat_inj, toNat_byteSwap (by omega) (by omega) (by omega) (by omega) hswap]
  exact ha.symm

theorem toNat_byteSwap16 (p : UInt16) :
    (byteSwap16 p).toNat = p.toNat % 256 * 256 + p.toNat / 256 := by
  have hp := p.toNat_lt
  rw [byteSwap16, UInt16.toNat_ofNat']
  exact Nat.mod_eq_of_lt (by omega)

theorem byteSwap16_byteSwap16 (p : UInt16) : byteSwap16 (byteSwap16 p) = p := by
  have hp := p.toNat_lt
  rw [← UInt16.toNat_inj, toNat_byteSwap16, toNat_byteSwap16]
  omega

def Platform.littleEndian : Platform where
  htonl := byteSwap
  ntohl := byteSwap
  htons := byteSwap16
  ntohs := byteSwap16
  inetPton s := (parse s).map byteSwap
  inetNtop a buf :=
    let s := text (byteSwap a)
    if s.length < buf.length then s ++ nul :: buf.drop (s.length + 1) else buf
  getaddrinfo _ := none

theorem Platform.lawful_littleEndian : Platform.littleEndian.Lawful where
  ntohl_htonl := byteSwap_byteSwap
  htonl_ntohl := byteSwap_byteSwap
  ntohs_htons := byteSwap16_byteSwap16
  htons_ntohs := byteSwap16_byteSwap16
  inetPton_text a := congrArg (Option.map byteSwap) (parse_text a)
  inetNtop_text a buf hbuf := by
    have hlt : (text a).length < buf.length :=
      Nat.lt_of_le_of_lt (length_text_le a) hbuf
    simp only [littleEndian, byteSwap_byteSwap, if_pos hlt]
    refine ⟨?_, _, rfl⟩
    rw [List.length_append, List.length_cons, List.length_drop]
    omega

/-- The address 127.0.0.1. -/
theorem Address.text_roundTrip_localhost :
    (ofText .littleEndian (text 2130706433) 80).ip .littleEndian = 2130706433 :=
  ((text_roundTrip Platform.lawful_littleEndian).1 2130706433 80).1

/-- The string of 127.0.0.1 has more characters than its text. -/
theorem Address.not_text_roundTrip :
    ¬ ∀ P : Platform, P.Lawful →
      (∀ a p, (ofText P (text a) p).ip P = a ∧ (ofText P (text a) p).port P = p ∧
        (ofText P (text a) p).ipString P = text a) ∧
      (∀ x : Address, (ofText P (x.ipString P) (x.port P)).ip P = x.ip P ∧
        (ofText P (x.ipString P) (x.port P)).port P = x.port P) := by
  intro hall
  have heq := ((hall _ Platform.lawful_littleEndian).1 2130706433 80).2.2
  exact ipString_ne_text Platform.lawful_littleEndian _ _ heq

end Qing
