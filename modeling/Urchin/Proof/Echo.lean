import Urchin.Proof.Checksum
import Urchin.Proof.Ethernet

/-!
# Echo replies

The two echo handlers do the same with different headers: they take a length from
the request, get a transmit buffer for it, store headers, copy the request's bytes
from a fixed offset to the end the length claims, and sum up. `Echo` names the parts,
`EchoOK` what they do:
* a claimed end inside the request's slice gives a reply, and `source` says which of
  the request's bytes it carries where (`sent`);
* a claimed end outside it panics (`panics`).

Nothing else decides whether a handler panics (`echo_safe_iff`).
-/

namespace Urchin

open Exec Inet

/-! ## The common part -/

/-- An echo handler: the size of the frame it answers with; the answer it builds in a
transmit buffer; and which byte of the request a byte of the answer is, if it is one. -/
structure Echo where
  size : Buffer → UInt64
  build : Netif → Buffer → Buffer → Except Panic Buffer
  source : Buffer → ℕ → Option ℕ

namespace Echo

variable (E : Echo)

/-- The end of the frame, as the request claims it. -/
def stop (b : Buffer) : ℕ := (E.size b).toNat

/-- The answer, built in a buffer served with a block. -/
def reply (blk : Block) (netif : Netif) (b : Buffer) : Except Panic Buffer := do
  let respbuff ← VirtioNet.preXmit (E.size b) blk
  E.build netif b respbuff

/-- What a handler does with an echo request. -/
def answer (heap : ℕ → Block) (w : World) (f : DataFromNetif) : Outcome World :=
  attempt w (VirtioNet.preXmit (E.size f.buffer) (heap w.allocs)) fun respbuff =>
    attempt { w with allocs := w.allocs + 1 } (E.build f.netif f.buffer respbuff) fun respbuff =>
      .ok (World.xmit { w with allocs := w.allocs + 1 } f.netif respbuff)

end Echo

/-- What an echo handler's parts do. -/
structure EchoOK (E : Echo) : Prop where
  fits : ∀ netif b r, 4084 ≤ b.sliceLen → 4084 ≤ r.sliceLen → E.stop b ≤ b.sliceLen →
    E.stop b ≤ r.sliceLen → ∃ r', E.build netif b r = .ok r' ∧ r.Alike r' ∧
      ∀ j < E.stop b, ∀ i ∈ E.source b j, r'.peek j = b.peek i
  overruns : ∀ netif b r, 4084 ≤ b.sliceLen → b.sliceLen < E.stop b → ∃ p, E.build netif b r = .error p

namespace EchoOK

variable {E : Echo} {b : Buffer}

/-- A claimed end inside the slice: the reply carries the request's bytes. -/
theorem sent (h : EchoOK E) (hb : VirtioNet.Received b) (hstop : E.stop b ≤ b.sliceLen) (blk : Block)
    (netif : Netif) : ∃ r, E.reply blk netif b = .ok r ∧ r.position = 12 ∧
      r.getSize.toUInt32.toNat = E.stop b + 12 ∧ ∀ j < E.stop b, ∀ i ∈ E.source b j, r.peek j = b.peek i := by
  have hlen := hb.sliceLen
  have hnat : (E.size b).toNat = E.stop b := rfl
  obtain ⟨r, hr, hpos, hsize, hfit, hpage, -⟩ := preXmit_ok (E.size b) (by omega) blk
  obtain ⟨r', hr', halike, hcopy⟩ := h.fits netif b r (by omega) hpage hstop hfit
  refine ⟨r', bind_eq_ok.2 ⟨r, hr, hr'⟩, halike.position.trans hpos, ?_, hcopy⟩
  unfold Buffer.getSize at hsize ⊢
  rw [halike.size, hsize, UInt64.toNat_toUInt32, UInt64.toNat_add, hnat]
  simp only [UInt64.reduceToNat]
  omega

/-- A claimed end behind the slice: the handler panics. -/
theorem panics (h : EchoOK E) (hb : VirtioNet.Received b) (hstop : b.sliceLen < E.stop b) (blk : Block)
    (netif : Netif) : ∃ p, E.reply blk netif b = .error p := by
  have hlen := hb.sliceLen
  cases he : E.reply blk netif b with
  | error p => exact ⟨p, rfl⟩
  | ok r' =>
    obtain ⟨r, -, hr⟩ := bind_eq_ok.1 he
    obtain ⟨p, hp⟩ := h.overruns netif b r (by omega) hstop
    rw [hp] at hr
    cases hr

/-- **A handler replies exactly if the claimed end is inside the slice.** -/
theorem reply_iff (h : EchoOK E) (hb : VirtioNet.Received b) (blk : Block) (netif : Netif) :
    (∃ r, E.reply blk netif b = .ok r) ↔ E.stop b ≤ b.sliceLen := by
  constructor
  · rintro ⟨r, hr⟩
    by_contra hlt
    obtain ⟨p, hp⟩ := h.panics hb (by omega) blk netif
    rw [hr] at hp
    cases hp
  · intro hle
    obtain ⟨r, hr, -⟩ := h.sent hb hle blk netif
    exact ⟨r, hr⟩

theorem answer_isOk (h : EchoOK E) {f : DataFromNetif} (hf : VirtioNet.Received f.buffer)
    (heap : ℕ → Block) (w : World) :
    (E.answer heap w f).isOk = true ↔ E.stop f.buffer ≤ f.buffer.sliceLen := by
  rw [← h.reply_iff hf (heap w.allocs) f.netif]
  unfold Echo.answer Echo.reply
  cases VirtioNet.preXmit (E.size f.buffer) (heap w.allocs) with
  | error p => simp [bind, Except.bind, Outcome.isOk]
  | ok r =>
    simp only [attempt_ok, bind, Except.bind]
    cases E.build f.netif f.buffer r with
    | error p => simp [Outcome.isOk]
    | ok r' => simp [Outcome.isOk]

end EchoOK

/-- The Ethernet header of a reply. -/
def etherHeader (netif : Netif) (b : Buffer) (frameType : List UInt8) : List UInt8 :=
  List.ofFn (b.field 6 6) ++ List.ofFn netif.macaddr.getArray ++ frameType

/-- The bytes of a reply without its checksums: its headers, and then those of the request. -/
def laid (headers : List UInt8) (b : Buffer) (j : ℕ) : UInt8 :=
  if j < headers.length then headers.getD j 0 else b.peek j

/-- Headers stored, and the bytes behind them copied. -/
theorem copyLoop_laid {b r : Buffer} {headers : List UInt8} {n stop : ℕ} (hn : n = headers.length)
    (h1 : stop ≤ b.sliceLen) (h2 : stop ≤ r.sliceLen) :
    ∃ r₁, copyLoop b n stop (r.poke 0 headers) = .ok r₁ ∧ r.Alike r₁ ∧ r.SameFront r₁ ∧
      ∀ j, j < n ∨ j < stop → r₁.peek j = laid headers b j := by
  obtain ⟨r₁, hr₁, halike, hfront, hpeek⟩ := copyLoop_ok (r := r.poke 0 headers) n h1 h2
  have hfront₀ : r.SameFront (r.poke 0 headers) := Buffer.SameFront.poke (fun _ _ => rfl) (.refl r) 0 headers
  refine ⟨r₁, hr₁, (r.alike_poke 0 headers).trans halike,
    fun k hk => (hfront k hk).trans (hfront₀ k hk), fun j hj => ?_⟩
  rw [hpeek, Buffer.peek_poke]
  unfold laid
  by_cases hlt : j < headers.length
  · rw [if_neg (by omega), if_pos (by omega), if_pos hlt, Nat.sub_zero]
  · rw [if_pos (by omega), if_neg hlt]

/-- A length field of two bytes. -/
theorem lengthField_toNat (x y : UInt8) :
    (x.toUInt64 <<< 8 ||| y.toUInt64).toNat = 256 * x.toNat + y.toNat := by
  have h1 := x.toNat_lt
  have h2 := y.toNat_lt
  rw [UInt64.toNat_or, UInt64.toNat_shiftLeft, UInt8.toNat_toUInt64, UInt8.toNat_toUInt64]
  simp only [UInt64.reduceToNat, Nat.reduceMod]
  rw [Nat.mod_eq_of_lt (by rw [Nat.shiftLeft_eq]; omega), Nat.shiftLeft_eq, mul_comm]
  exact (Nat.two_pow_add_eq_or_of_lt (i := 8) h2 x.toNat).symm

/-! ## ICMPv4 -/

namespace Icmpv4InLocal

theorem headerLen_toNat (b : Buffer) : (headerLen b).toNat = 4 * (b.peek 14 &&& 0x0f).toNat := by
  have h := (b.peek 14 &&& 0x0f).toNat_lt
  unfold headerLen
  rw [UInt64.toNat_mul, UInt8.toNat_toUInt64]
  simp only [UInt64.reduceToNat]
  omega

theorem headerLen_le (b : Buffer) : (headerLen b).toNat ≤ 60 := by
  have h : (b.peek 14 &&& 0x0f).toNat ≤ 15 := by
    rw [UInt8.toNat_and]
    exact Nat.and_le_right
  rw [headerLen_toNat]
  omega

/-- The reply carries the addresses, exchanged; the identifier and the sequence number
from behind the header length the request claims; and the data from a fixed place. -/
def source (b : Buffer) (j : ℕ) : Option ℕ :=
  if 26 ≤ j ∧ j < 30 then some (j + 4)
  else if 30 ≤ j ∧ j < 34 then some (j - 4)
  else if 38 ≤ j ∧ j < 42 then some (14 + (headerLen b).toNat + (j - 34))
  else if 42 ≤ j then some j
  else none

/-- The handler, as an `Echo`. -/
def echo : Echo := ⟨fun b => 14 + 20 + length b, echoReply, source⟩

/-- The IP header of the reply. -/
def ipv4Header (b : Buffer) : List UInt8 :=
  [0x45, 0] ++ List.ofFn (b.field 16 2) ++ leBytes 0 ++ leBytes 0x0040 ++ [64, 0x01] ++ leBytes 0 ++
    List.ofFn (b.field 30 4) ++ List.ofFn (b.field 26 4)

/-- The ICMP header of the reply, before its checksum is known. -/
def icmpHeader (b : Buffer) : List UInt8 :=
  [0x00, 0x00] ++ leBytes 0 ++ [b.peek (14 + (headerLen b).toNat + 4), b.peek (14 + (headerLen b).toNat + 5),
    b.peek (14 + (headerLen b).toNat + 6), b.peek (14 + (headerLen b).toNat + 7)]

/-- The three headers of the reply. -/
def headers (netif : Netif) (b : Buffer) : List UInt8 :=
  etherHeader netif b [0x08, 0x00] ++ ipv4Header b ++ icmpHeader b

theorem headers_length (netif : Netif) (b : Buffer) : (headers netif b).length = 42 := by
  simp [headers, etherHeader, ipv4Header, icmpHeader, leBytes]

/-- What the headers and the copied data are the request's bytes of. -/
theorem laid_source (netif : Netif) {b : Buffer} {i j : ℕ} (hi : i ∈ source b j) :
    laid (headers netif b) b j = b.peek i := by
  unfold laid
  rw [headers_length]
  unfold source at hi
  -- the addresses, the identifier and the sequence number, and the data
  split at hi
  · rename_i h
    obtain rfl := Option.some.inj hi
    obtain ⟨h1, h2⟩ := h
    rw [if_pos (by omega)]
    interval_cases j <;> rfl
  · split at hi
    · rename_i h
      obtain rfl := Option.some.inj hi
      obtain ⟨h1, h2⟩ := h
      rw [if_pos (by omega)]
      interval_cases j <;> rfl
    · split at hi
      · rename_i h
        obtain rfl := Option.some.inj hi
        obtain ⟨h1, h2⟩ := h
        rw [if_pos (by omega)]
        interval_cases j <;> rfl
      · split at hi
        · obtain rfl := Option.some.inj hi
          rw [if_neg (by omega)]
        · cases hi

/-- **The reply** to a request whose claimed end is inside both slices: the ICMP checksum
is over the words from 17 on, the IP checksum over those from 7 on, to the end. -/
theorem echoReply_eq (netif : Netif) {b r : Buffer} (hb : 42 ≤ b.sliceLen) (hr : 42 ≤ r.sliceLen)
    (h1 : echo.stop b ≤ b.sliceLen) (h2 : echo.stop b ≤ r.sliceLen) :
    ∃ (r₁ : Buffer) (c₁ c₂ : UInt32), r.Alike r₁ ∧ r.SameFront r₁ ∧
      (∀ j, j < 42 ∨ j < echo.stop b → r₁.peek j = laid (headers netif b) b j) ∧
      c₁.toNat = wordSum r₁.peek 17 (echo.stop b / 2) % 2 ^ 32 ∧
      c₂.toNat = wordSum (r₁.poke 36 (csumBytes c₁)).peek 7 (echo.stop b / 2) % 2 ^ 32 ∧
      echoReply netif b r = .ok ((r₁.poke 36 (csumBytes c₁)).poke 24 (csumBytes c₂)) := by
  have hstop : (14 + 20 + length b).toNat = echo.stop b := rfl
  have hhalf : ((14 + 20 + length b) / 2).toNat = echo.stop b / 2 := by
    rw [UInt64.toNat_div, hstop]; rfl
  obtain ⟨r₁, hcopy, halike, hfront, hlaid⟩ := copyLoop_laid (headers_length netif b).symm h1 h2
  have hlen := halike.sliceLen
  obtain ⟨c₁, hc₁, hsum₁⟩ := csumLoop_ok 17 (show echo.stop b / 2 * 2 ≤ r₁.sliceLen by omega) 0
  obtain ⟨c₂, hc₂, hsum₂⟩ := csumLoop_ok (r := r₁.poke 36 (csumBytes c₁)) 7
    (show echo.stop b / 2 * 2 ≤ r₁.sliceLen by omega) 0
  have hether : List.ofFn (MacAddress.new (b.field 6 6)).getArray ++ List.ofFn netif.macaddr.getArray ++
      [0x08, 0x00] = etherHeader netif b [0x08, 0x00] := rfl
  refine ⟨r₁, c₁, c₂, halike, hfront, hlaid, by simpa using hsum₁, by simpa using hsum₂, ?_⟩
  unfold echoReply generateEtherHeader generateIpv4Header
  simp only [hstop, hhalf, Buffer.array_ok (show 6 + 6 ≤ b.sliceLen by omega), bind, Except.bind,
    Ipv4Address.getArray_fromArray, hether]
  -- the headers are laid one behind the other
  rw [Buffer.overlay_ok (by omega)]
  simp only
  rw [Buffer.overlay_next r (by simp [etherHeader]) (by omega)]
  simp only
  rw [Buffer.overlay_next r (by simp [etherHeader, leBytes]) (by omega)]
  change Except.bind (copyLoop b 42 (echo.stop b) (r.poke 0 (headers netif b))) _ = _
  rw [hcopy]
  simp only [Except.bind, hc₁, leBytes_csumField, hc₂]
  rw [Buffer.write_ok (by rw [Buffer.poke_sliceLen]; omega)]
  simp only
  rw [Buffer.write_ok (by rw [Buffer.poke_sliceLen, Buffer.poke_sliceLen]; omega), Buffer.poke_poke _ (by simp)]
  rfl

/-- The reply carries the request's bytes. -/
theorem echoReply_ok (netif : Netif) {b r : Buffer} (hb : 42 ≤ b.sliceLen) (hr : 42 ≤ r.sliceLen)
    (h1 : echo.stop b ≤ b.sliceLen) (h2 : echo.stop b ≤ r.sliceLen) :
    ∃ r', echoReply netif b r = .ok r' ∧ r.Alike r' ∧
      ∀ j < echo.stop b, ∀ i ∈ source b j, r'.peek j = b.peek i := by
  obtain ⟨r₁, c₁, c₂, halike, -, hlaid, -, -, hreply⟩ := echoReply_eq netif hb hr h1 h2
  refine ⟨_, hreply, halike.trans ⟨rfl, rfl, rfl, rfl⟩, fun j hj i hi => ?_⟩
  -- the checksums are behind and in front of the addresses
  have hne : j ≠ 24 ∧ j ≠ 25 ∧ j ≠ 36 ∧ j ≠ 37 := by
    refine ⟨?_, ?_, ?_, ?_⟩ <;> rintro rfl <;> simp [source] at hi
  rw [Buffer.peek_poke, if_neg (by simp; omega), Buffer.peek_poke, if_neg (by simp; omega), hlaid j (.inr hj)]
  exact laid_source netif hi

/-- No reply is made for a claimed end behind the request's slice. -/
theorem echoReply_error (netif : Netif) {b r : Buffer} (hb : 42 ≤ b.sliceLen) (h : b.sliceLen < echo.stop b) :
    ∃ p, echoReply netif b r = .error p := by
  cases he : echoReply netif b r with
  | error p => exact ⟨p, rfl⟩
  | ok r' =>
    -- a reply would have copied the byte behind the end of the slice
    unfold echoReply at he
    obtain ⟨_, -, he⟩ := bind_eq_ok.1 he
    obtain ⟨_, -, he⟩ := bind_eq_ok.1 he
    obtain ⟨_, -, he⟩ := bind_eq_ok.1 he
    obtain ⟨r₀, -, he⟩ := bind_eq_ok.1 he
    obtain ⟨r₁, hcopy, -⟩ := bind_eq_ok.1 he
    exact absurd hcopy (copyLoop_ne_ok hb h)

theorem echo_ok : EchoOK echo :=
  ⟨fun netif _ _ hb hr h1 h2 => echoReply_ok netif (by omega) (by omega) h1 h2,
    fun netif _ _ hb hstop => echoReply_error netif (by omega) hstop⟩

/-- On an echo request, the node answers. -/
theorem processFrame_request (heap : ℕ → Block) (w : World) {f : DataFromNetif}
    (hf : 14 + (headerLen f.buffer).toNat < f.buffer.sliceLen)
    (ht : f.buffer.peek (14 + (headerLen f.buffer).toNat) = 0x08) :
    processFrame heap w f = echo.answer heap w f := by
  unfold processFrame
  simp only [Buffer.read_ok (show 14 < f.buffer.sliceLen by omega), Buffer.read_ok hf, attempt_ok, ht, if_true]
  rfl

theorem processFrame_echo (heap : ℕ → Block) (w : World) {f : DataFromNetif}
    (hf : VirtioNet.Received f.buffer) (ht : f.buffer.peek (14 + (headerLen f.buffer).toNat) = 0x08) :
    processFrame heap w f = echo.answer heap w f := by
  have hlen := hf.sliceLen
  have hhdr := headerLen_le f.buffer
  exact processFrame_request heap w (by omega) ht

theorem totalLen_toNat (b : Buffer) : (totalLen b).toNat = 256 * (b.peek 16).toNat + (b.peek 17).toNat :=
  lengthField_toNat _ _

theorem totalLen_lt (b : Buffer) : (totalLen b).toNat < 65536 := by
  have h1 := (b.peek 16).toNat_lt
  have h2 := (b.peek 17).toNat_lt
  rw [totalLen_toNat]
  omega

/-- The claimed end: the subtraction and the addition wrap. -/
theorem stop_toNat (b : Buffer) :
    echo.stop b = (34 + (2 ^ 64 + (totalLen b).toNat - (headerLen b).toNat) % 2 ^ 64) % 2 ^ 64 := by
  have h : echo.stop b = (14 + 20 + length b).toNat := rfl
  have h1 := headerLen_le b
  rw [h, UInt64.toNat_add]
  unfold length
  rw [UInt64.toNat_sub]
  have h34 : ((14 : UInt64) + 20).toNat = 34 := rfl
  rw [h34]
  congr 3
  omega

/-- The claimed end, when the sum of the two wrapped steps is one. -/
theorem stop_eq {b : Buffer} (h : (headerLen b).toNat ≤ (totalLen b).toNat + 34) :
    echo.stop b = (totalLen b).toNat + 34 - (headerLen b).toNat := by
  have h1 := headerLen_le b
  have h2 := totalLen_lt b
  rw [stop_toNat]
  omega

/-- Otherwise it is far behind every slice. -/
theorem stop_underflow {b : Buffer} (h : (totalLen b).toNat + 34 < (headerLen b).toNat) :
    2 ^ 63 < echo.stop b := by
  have h1 := headerLen_le b
  rw [stop_toNat]
  omega

/-- The reply fits if and only if the subtraction does not wrap and its result fits. -/
theorem stop_le_iff {b : Buffer} (hb : b.sliceLen ≤ 2 ^ 63) : echo.stop b ≤ b.sliceLen ↔
    (headerLen b).toNat ≤ (totalLen b).toNat + 34 ∧ (totalLen b).toNat + 34 - (headerLen b).toNat ≤ b.sliceLen := by
  by_cases hle : (headerLen b).toNat ≤ (totalLen b).toNat + 34
  · rw [stop_eq hle]
    omega
  · have := stop_underflow (b := b) (by omega)
    omega

end Icmpv4InLocal

/-! ## ICMPv6 -/

namespace Icmpv6InLocal

/-- The reply carries the code, the identifier, the sequence number and the data from
where they are in the request. The addresses of the request are in front of its type. -/
def source (_ : Buffer) (j : ℕ) : Option ℕ := if j = 55 ∨ 58 ≤ j then some j else none

/-- The handler, as an `Echo`. -/
def echo : Echo := ⟨fun b => 14 + 40 + length b, echoReply, source⟩

/-- The IP header of the reply: its source address is a fixed one. -/
def ipv6Header (b : Buffer) : List UInt8 :=
  [0x60, 0, 0, 0] ++ List.ofFn (b.field 18 2) ++ [58, 0x80] ++ List.replicate 16 0x02 ++ List.ofFn (b.field 22 16)

/-- The ICMP header of the reply, before its checksum is known. -/
def icmpHeader (b : Buffer) : List UInt8 :=
  [0x81, b.peek 55] ++ leBytes 0 ++ [b.peek 58, b.peek 59, b.peek 60, b.peek 61]

/-- The three headers of the reply. -/
def headers (netif : Netif) (b : Buffer) : List UInt8 :=
  etherHeader netif b [0x86, 0xdd] ++ ipv6Header b ++ icmpHeader b

theorem headers_length (netif : Netif) (b : Buffer) : (headers netif b).length = 62 := by
  simp [headers, etherHeader, ipv6Header, icmpHeader, leBytes]

/-- What the headers and the copied data are the request's bytes of. -/
theorem laid_source (netif : Netif) {b : Buffer} {i j : ℕ} (hi : i ∈ source b j) :
    laid (headers netif b) b j = b.peek i := by
  unfold source at hi
  split at hi
  · rename_i h
    obtain rfl := Option.some.inj hi
    unfold laid
    rw [headers_length]
    by_cases hdata : 62 ≤ j
    · rw [if_neg (by omega)]
    · rw [if_pos (by omega)]
      have hj : j = 55 ∨ j = 58 ∨ j = 59 ∨ j = 60 ∨ j = 61 := by omega
      rcases hj with rfl | rfl | rfl | rfl | rfl <;> rfl
  · cases hi

/-- **The reply** to a request whose claimed end is inside both slices: the checksum is
over the pseudo header and the words from 27 to the end. -/
theorem echoReply_eq (netif : Netif) {b r : Buffer} (hb : 62 ≤ b.sliceLen) (hr : 62 ≤ r.sliceLen)
    (h1 : echo.stop b ≤ b.sliceLen) (h2 : echo.stop b ≤ r.sliceLen) :
    ∃ (r₁ : Buffer) (c₁ : UInt32), r.Alike r₁ ∧ r.SameFront r₁ ∧
      (∀ j, j < 62 ∨ j < echo.stop b → r₁.peek j = laid (headers netif b) b j) ∧
      c₁.toNat = ((pseudoHeader b).toNat + wordSum r₁.peek 27 (echo.stop b / 2)) % 2 ^ 32 ∧
      echoReply netif b r = .ok (r₁.poke 56 (csumBytes c₁)) := by
  have hstop : (14 + 40 + length b).toNat = echo.stop b := rfl
  have hhalf : ((14 + 40 + length b) / 2).toNat = echo.stop b / 2 := by
    rw [UInt64.toNat_div, hstop]; rfl
  obtain ⟨r₁, hcopy, halike, hfront, hlaid⟩ := copyLoop_laid (headers_length netif b).symm h1 h2
  have hlen := halike.sliceLen
  obtain ⟨c₁, hc₁, hsum₁⟩ := csumLoop_ok 27 (show echo.stop b / 2 * 2 ≤ r₁.sliceLen by omega) (pseudoHeader b)
  have hether : List.ofFn (MacAddress.new (b.field 6 6)).getArray ++ List.ofFn netif.macaddr.getArray ++
      [0x86, 0xdd] = etherHeader netif b [0x86, 0xdd] := rfl
  refine ⟨r₁, c₁, halike, hfront, hlaid, hsum₁, ?_⟩
  unfold echoReply generateEtherHeader generateIpv6Header
  simp only [hstop, hhalf, Buffer.array_ok (show 6 + 6 ≤ b.sliceLen by omega), bind, Except.bind,
    Ipv6Address.getArray_fromArray, List.ofFn_const, hether]
  -- the headers are laid one behind the other
  rw [Buffer.overlay_ok (by omega)]
  simp only
  rw [Buffer.overlay_next r (by simp [etherHeader]) (by omega)]
  simp only
  rw [Buffer.overlay_next r (by simp [etherHeader]) (by omega)]
  change Except.bind (copyLoop b 62 (echo.stop b) (r.poke 0 (headers netif b))) _ = _
  rw [hcopy]
  simp only [Except.bind, hc₁, leBytes_csumField]

/-- The reply carries the request's bytes. -/
theorem echoReply_ok (netif : Netif) {b r : Buffer} (hb : 62 ≤ b.sliceLen) (hr : 62 ≤ r.sliceLen)
    (h1 : echo.stop b ≤ b.sliceLen) (h2 : echo.stop b ≤ r.sliceLen) :
    ∃ r', echoReply netif b r = .ok r' ∧ r.Alike r' ∧
      ∀ j < echo.stop b, ∀ i ∈ source b j, r'.peek j = b.peek i := by
  obtain ⟨r₁, c₁, halike, -, hlaid, -, hreply⟩ := echoReply_eq netif hb hr h1 h2
  refine ⟨_, hreply, halike.trans ⟨rfl, rfl, rfl, rfl⟩, fun j hj i hi => ?_⟩
  have hne : j ≠ 56 ∧ j ≠ 57 := by
    refine ⟨?_, ?_⟩ <;> rintro rfl <;> simp [source] at hi
  rw [Buffer.peek_poke, if_neg (by simp; omega), hlaid j (.inr hj)]
  exact laid_source netif hi

/-- No reply is made for a claimed end behind the request's slice. -/
theorem echoReply_error (netif : Netif) {b r : Buffer} (hb : 62 ≤ b.sliceLen) (h : b.sliceLen < echo.stop b) :
    ∃ p, echoReply netif b r = .error p := by
  cases he : echoReply netif b r with
  | error p => exact ⟨p, rfl⟩
  | ok r' =>
    unfold echoReply at he
    obtain ⟨_, -, he⟩ := bind_eq_ok.1 he
    obtain ⟨_, -, he⟩ := bind_eq_ok.1 he
    obtain ⟨_, -, he⟩ := bind_eq_ok.1 he
    obtain ⟨r₀, -, he⟩ := bind_eq_ok.1 he
    obtain ⟨r₁, hcopy, -⟩ := bind_eq_ok.1 he
    exact absurd hcopy (copyLoop_ne_ok hb h)

theorem echo_ok : EchoOK echo :=
  ⟨fun netif _ _ hb hr h1 h2 => echoReply_ok netif (by omega) (by omega) h1 h2,
    fun netif _ _ hb hstop => echoReply_error netif (by omega) hstop⟩

/-- On an echo request, the node answers. -/
theorem processFrame_request (heap : ℕ → Block) (w : World) {f : DataFromNetif} (hf : 54 < f.buffer.sliceLen)
    (ht : f.buffer.peek 54 = 0x80) : processFrame heap w f = echo.answer heap w f := by
  unfold processFrame
  simp only [Buffer.read_ok (show 14 < f.buffer.sliceLen by omega), Buffer.read_ok hf, attempt_ok, ht, if_true]
  rfl

theorem processFrame_echo (heap : ℕ → Block) (w : World) {f : DataFromNetif}
    (hf : VirtioNet.Received f.buffer) (ht : f.buffer.peek 54 = 0x80) :
    processFrame heap w f = echo.answer heap w f := by
  have hlen := hf.sliceLen
  exact processFrame_request heap w (by omega) ht

theorem length_toNat (b : Buffer) : (length b).toNat = 256 * (b.peek 18).toNat + (b.peek 19).toNat :=
  lengthField_toNat _ _

theorem stop_eq (b : Buffer) : echo.stop b = 54 + (length b).toNat := by
  have h1 := (b.peek 18).toNat_lt
  have h2 := (b.peek 19).toNat_lt
  have hs : echo.stop b = (14 + 40 + length b).toNat := rfl
  have h54 : ((14 : UInt64) + 40).toNat = 54 := rfl
  rw [hs, UInt64.toNat_add, h54, length_toNat]
  omega

end Icmpv6InLocal

/-! ## Both handlers -/

/-- An ICMPv4 echo request with four bytes of data, followed by `rest`. -/
def pingFrame (rest : List UInt8) : DataFromNetif :=
  .ofBytes ⟨0, .new ![2, 0, 0, 0, 0, 1]⟩
    ([2, 0, 0, 0, 0, 1, 4, 0, 0, 0, 0, 9, 0x08, 0x00] ++
      [0x45, 0, 0, 32, 0, 0, 0x40, 0, 64, 1, 0, 0, 192, 168, 0, 20, 192, 168, 0, 10] ++
      [8, 0, 0, 0, 1, 2, 3, 4] ++ rest)

/-- An ICMPv6 echo request with four bytes of data. -/
def ping6Frame : DataFromNetif :=
  .ofBytes ⟨0, .new ![2, 0, 0, 0, 0, 1]⟩
    ([2, 0, 0, 0, 0, 1, 4, 0, 0, 0, 0, 9, 0x86, 0xdd] ++ [0x60, 0, 0, 0, 0, 12, 58, 64] ++
      List.replicate 32 0xfe ++ [0x80, 0, 0, 0, 1, 2, 3, 4, 100, 101, 102, 103])

/-- An ICMPv4 echo request with a header length of 60 bytes and a total length of
zero. -/
def crashFrame : DataFromNetif :=
  .ofBytes ⟨0, .new ![2, 0, 0, 0, 0, 1]⟩
    ([2, 0, 0, 0, 0, 1, 4, 0, 0, 0, 0, 9, 0x08, 0x00] ++ [0x4f, 0, 0, 0] ++ List.replicate 56 0 ++ [8])

/-- **When echo requests are safe to process.** For received frames of any content:
* ICMPv4 echo requests are processed without an underflow of the length subtraction
  and without a panic if and only if each claims a total length of at least its
  header length and at most what the slice has room for;
* ICMPv6 echo requests are processed without a panic if and only if the payload
  length each claims ends inside its slice. -/
theorem echo_safe_iff (heap : ℕ → Block) (w : World) (v4 v6 : List DataFromNetif)
    (h4 : ∀ f ∈ v4, VirtioNet.Received f.buffer ∧
      f.buffer.peek (14 + (Icmpv4InLocal.headerLen f.buffer).toNat) = 0x08)
    (h6 : ∀ f ∈ v6, VirtioNet.Received f.buffer ∧ f.buffer.peek 54 = 0x80) :
    (((∀ f ∈ v4, (Icmpv4InLocal.headerLen f.buffer).toNat ≤ (Icmpv4InLocal.totalLen f.buffer).toNat) ∧
        (Icmpv4InLocal.process heap w v4).isOk = true) ↔
      ∀ f ∈ v4, (Icmpv4InLocal.headerLen f.buffer).toNat ≤ (Icmpv4InLocal.totalLen f.buffer).toNat ∧
        34 + ((Icmpv4InLocal.totalLen f.buffer).toNat - (Icmpv4InLocal.headerLen f.buffer).toNat) ≤
          f.buffer.sliceLen) ∧
    ((Icmpv6InLocal.process heap w v6).isOk = true ↔
      ∀ f ∈ v6, 54 + (Icmpv6InLocal.length f.buffer).toNat ≤ f.buffer.sliceLen) := by
  have hok4 : (Icmpv4InLocal.process heap w v4).isOk = true ↔
      ∀ f ∈ v4, Icmpv4InLocal.echo.stop f.buffer ≤ f.buffer.sliceLen := by
    refine forEach_isOk v4 (fun f hf w => ?_) w
    obtain ⟨hrx, ht⟩ := h4 f hf
    rw [Icmpv4InLocal.processFrame_echo heap w hrx ht]
    exact Icmpv4InLocal.echo_ok.answer_isOk hrx heap w
  have hok6 : (Icmpv6InLocal.process heap w v6).isOk = true ↔
      ∀ f ∈ v6, Icmpv6InLocal.echo.stop f.buffer ≤ f.buffer.sliceLen := by
    refine forEach_isOk v6 (fun f hf w => ?_) w
    obtain ⟨hrx, ht⟩ := h6 f hf
    rw [Icmpv6InLocal.processFrame_echo heap w hrx ht]
    exact Icmpv6InLocal.echo_ok.answer_isOk hrx heap w
  constructor
  · rw [hok4]
    constructor
    · rintro ⟨hle, hstop⟩ f hf
      have hs := hstop f hf
      have hl := hle f hf
      rw [Icmpv4InLocal.stop_eq (by omega)] at hs
      exact ⟨hl, by omega⟩
    · intro h
      refine ⟨fun f hf => (h f hf).1, fun f hf => ?_⟩
      obtain ⟨hl, hs⟩ := h f hf
      rw [Icmpv4InLocal.stop_eq (by omega)]
      omega
  · rw [hok6]
    simp only [Icmpv6InLocal.stop_eq]

/-- Two pings are answered. -/
theorem echo_safe_pings :
    (Icmpv4InLocal.process pages World.empty [pingFrame [100, 101, 102, 103]]).isOk = true ∧
    (Icmpv6InLocal.process pages World.empty [ping6Frame]).isOk = true := by
  obtain ⟨h4, h6⟩ := echo_safe_iff pages World.empty [pingFrame [100, 101, 102, 103]] [ping6Frame]
    (List.forall_mem_singleton.2 ⟨DataFromNetif.ofBytes_received _ _, by decide +kernel⟩)
    (List.forall_mem_singleton.2 ⟨DataFromNetif.ofBytes_received _ _, by decide +kernel⟩)
  exact ⟨(h4.2 (List.forall_mem_singleton.2 (by decide +kernel))).2,
    h6.2 (List.forall_mem_singleton.2 (by decide +kernel))⟩

/-- **A request that halts the kernel.** The length subtraction wraps, the transmit
buffer gets no memory at all, and clearing its header is out of bounds. -/
theorem echo_crash : VirtioNet.Received crashFrame.buffer ∧
    crashFrame.buffer.peek (14 + (Icmpv4InLocal.headerLen crashFrame.buffer).toNat) = 0x08 ∧
    (Icmpv4InLocal.totalLen crashFrame.buffer).toNat < (Icmpv4InLocal.headerLen crashFrame.buffer).toNat ∧
    (Icmpv4InLocal.process pages World.empty [crashFrame]).isOk = false :=
  ⟨DataFromNetif.ofBytes_received _ _, by decide +kernel, by decide +kernel, by decide +kernel⟩

end Urchin
