import Urchin.Proof.Echo

/-!
# The bytes of an echo reply

The bytes of a reply are the headers and the request's bytes with the checksums stored in
them (`replyBytes`), and a well-formed request is answered with one frame of exactly these
(`processFrame_reply`). Summed up without a last odd byte, the ICMP message is zero modulo
`0xffff` (`icmp_dvd`), and so is the IPv4 header (`ipv4_dvd`).
-/

namespace Urchin

open Exec Inet

/-! ## Transmitted frames -/

/-- The bytes of a transmitted frame: what the device reads behind the virtio header. -/
def sentFrame (r : Buffer) : List UInt8 := (wire r).drop 12

/-- `n` bytes of a frame from offset `i` on. -/
def part (frame : List UInt8) (i n : ℕ) : List UInt8 := (frame.drop i).take n

/-- The big-endian field of two bytes at offset `i`. -/
def field16 (frame : List UInt8) (i : ℕ) : ℕ := 256 * (frame.getD i 0).toNat + (frame.getD (i + 1) 0).toNat

/-- The state after the frames `out` have been transmitted, each in a buffer of its own. -/
def World.replied (w : World) (out : List (Netif × Buffer)) : World :=
  { w with allocs := w.allocs + out.length, sent := w.sent ++ out }

/-- The device reads a cleared virtio header and the `n` bytes `g` from the buffer. -/
structure Transmits (r : Buffer) (g : ℕ → UInt8) (n : ℕ) : Prop where
  virtio : (wire r).take 12 = List.replicate 12 0
  frame : sentFrame r = bytes g 0 n

namespace Transmits

variable {r : Buffer} {g : ℕ → UInt8} {n : ℕ}

theorem of_peek (hpos : r.position = 12) (hsize : r.getSize.toUInt32.toNat = n + 12) (hmem : ∀ k < 12, r.mem k = 0)
    (hpeek : ∀ j < n, r.peek j = g j) : Transmits r g n := by
  have hwire : wire r = bytes r.mem 0 (n + 12) := by
    unfold wire bytes
    rw [hsize, List.range_eq_range']
  refine ⟨?_, ?_⟩
  · have htake := take_drop_bytes r.mem (show 0 + 12 ≤ n + 12 by omega)
    rw [List.drop_zero] at htake
    have hzero : bytes r.mem 0 12 = bytes (fun _ => 0) 0 12 := bytes_congr fun k hk => hmem (0 + k) (by omega)
    rw [hwire, htake, hzero]
    rfl
  · have hdrop := take_drop_bytes r.mem (show 12 + n ≤ n + 12 by omega)
    rw [List.take_of_length_le (by simp)] at hdrop
    unfold sentFrame
    rw [hwire, hdrop]
    apply bytes_congr
    intro k hk
    rw [Nat.zero_add, ← hpeek k hk]
    unfold Buffer.peek
    rw [hpos]
    rfl

theorem length (h : Transmits r g n) : (sentFrame r).length = n := by
  rw [h.frame, bytes_length]

theorem part_eq (h : Transmits r g n) {i k : ℕ} (hk : i + k ≤ n) : part (sentFrame r) i k = bytes g i k := by
  unfold part
  rw [h.frame, take_drop_bytes g hk]

/-- Where the bytes are those of a list, a part of the frame is that part of the list. -/
theorem part_eq_part (h : Transmits r g n) {l : List UInt8} {i k : ℕ} (hn : i + k ≤ n) (hl : i + k ≤ l.length)
    (hg : ∀ j < k, g (i + j) = l.getD (i + j) 0) : part (sentFrame r) i k = part l i k := by
  rw [h.part_eq hn]
  unfold part
  rw [← bytes_getD hl]
  exact bytes_congr hg

theorem drop_eq (h : Transmits r g n) {i : ℕ} (hi : i ≤ n) : (sentFrame r).drop i = bytes g i (n - i) := by
  rw [← take_drop_bytes g (show i + (n - i) ≤ n by omega), h.frame, List.take_of_length_le (by simp)]

theorem getD_eq (h : Transmits r g n) {j : ℕ} (hj : j < n) : (sentFrame r).getD j 0 = g j := by
  rw [h.frame, List.getD_eq_getElem _ _ (by rw [bytes_length]; exact hj)]
  simp [bytes]

end Transmits

/-- **A handler's answer**, if its bytes are known for every buffer it may be built in. -/
theorem Echo.answer_eq (E : Echo) {f : DataFromNetif} {g : ℕ → UInt8} (hsize : E.stop f.buffer ≤ 2 ^ 17)
    (h : ∀ r : Buffer, 4084 ≤ r.sliceLen → E.stop f.buffer ≤ r.sliceLen →
      ∃ r', E.build f.netif f.buffer r = .ok r' ∧ r.Alike r' ∧ r.SameFront r' ∧
        ∀ j < E.stop f.buffer, r'.peek j = g j) (heap : ℕ → Block) (w : World) :
    ∃ r, E.answer heap w f = .ok (w.replied [(f.netif, r)]) ∧ Transmits r g (E.stop f.buffer) := by
  have hnat : (E.size f.buffer).toNat = E.stop f.buffer := rfl
  obtain ⟨r, hr, hpos, hlen, hfit, hpage, hmem⟩ := preXmit_ok (E.size f.buffer) (by omega) (heap w.allocs)
  obtain ⟨r', hr', halike, hfront, hpeek⟩ := h r hpage hfit
  refine ⟨r', ?_, .of_peek (halike.position.trans hpos) ?_ (fun k hk => ?_) hpeek⟩
  · unfold Echo.answer
    rw [hr, attempt_ok, hr', attempt_ok]
    rfl
  · unfold Buffer.getSize at hlen ⊢
    rw [halike.size, hlen, UInt64.toNat_toUInt32, UInt64.toNat_add, hnat]
    simp only [UInt64.reduceToNat]
    omega
  · rw [hfront k (by rw [hpos]; exact hk)]
    exact hmem k hk

/-- **A batch of requests**: if a node answers each with one frame on its interface, the
frames go out in the order of the requests. -/
theorem forEach_replies {node : World → DataFromNetif → Outcome World} {R : DataFromNetif → Buffer → Prop}
    (fs : List DataFromNetif)
    (h : ∀ f ∈ fs, ∀ w, ∃ r, node w f = .ok (World.replied w [(f.netif, r)]) ∧ R f r) (w : World) :
    ∃ out, forEach node w fs = .ok (w.replied out) ∧
      List.Forall₂ (fun f s => s.1 = f.netif ∧ R f s.2) fs out := by
  induction fs generalizing w with
  | nil => exact ⟨[], by simp [forEach, World.replied], .nil⟩
  | cons f fs ih =>
    obtain ⟨r, hr, hR⟩ := h f List.mem_cons_self w
    obtain ⟨out, hout, hrel⟩ := ih (fun g hg => h g (List.mem_cons_of_mem _ hg)) (w.replied [(f.netif, r)])
    refine ⟨(f.netif, r) :: out, ?_, .cons ⟨rfl, hR⟩ hrel⟩
    unfold forEach
    rw [hr, Outcome.bind_ok, hout]
    simp only [World.replied, List.length_cons, List.length_nil, List.append_assoc, List.singleton_append]
    rw [show w.allocs + (0 + 1) + out.length = w.allocs + (out.length + 1) by omega]

/-- What goes out for a single request is its reply. -/
theorem replies_singleton {R : DataFromNetif → Netif × Buffer → Prop} {f : DataFromNetif}
    {out : List (Netif × Buffer)} (h : List.Forall₂ R [f] out) : ∀ s ∈ out, R f s := by
  cases h with
  | cons hs hnil =>
    cases hnil
    exact List.forall_mem_singleton.2 hs

/-! ## ICMPv4 -/

namespace Icmpv4InLocal

/-- The header length of a request, in words of four bytes. -/
def ihl (b : Buffer) : ℕ := (b.peek 14 &&& 0x0f).toNat

/-- A well-formed echo request: a header of at least five words, and a total length that
has room for the ICMP header and ends inside the slice. -/
structure IsRequest (f : DataFromNetif) : Prop where
  type : f.buffer.peek (14 + 4 * ihl f.buffer) = 0x08
  header : 5 ≤ ihl f.buffer
  total : 4 * ihl f.buffer + 8 ≤ (totalLen f.buffer).toNat
  fits : 14 + (totalLen f.buffer).toNat ≤ f.buffer.sliceLen

/-- The bytes of a reply: the ICMP checksum is stored in word 18, and then the IP checksum
in word 12. -/
def replyBytes (netif : Netif) (b : Buffer) : ℕ → UInt8 :=
  store 0 (store 0 (laid (headers netif b) b) 18 17 (echo.stop b / 2)) 12 7 (echo.stop b / 2)

theorem IsRequest.stop_eq {f : DataFromNetif} (h : IsRequest f) :
    echo.stop f.buffer = 34 + ((totalLen f.buffer).toNat - 4 * ihl f.buffer) := by
  have hlen : (headerLen f.buffer).toNat = 4 * ihl f.buffer := headerLen_toNat f.buffer
  have htotal := h.total
  rw [Icmpv4InLocal.stop_eq (by omega), hlen]
  omega

theorem IsRequest.stop_bounds {f : DataFromNetif} (h : IsRequest f) :
    42 ≤ echo.stop f.buffer ∧ echo.stop f.buffer ≤ 2 ^ 17 ∧ echo.stop f.buffer ≤ f.buffer.sliceLen := by
  have h1 := h.header
  have h2 := h.total
  have h3 := h.fits
  have h4 := totalLen_lt f.buffer
  rw [h.stop_eq]
  omega

/-- Everything but the checksums is as laid out. -/
theorem replyBytes_of_ne (netif : Netif) (b : Buffer) {j : ℕ} (h : j ≠ 24 ∧ j ≠ 25 ∧ j ≠ 36 ∧ j ≠ 37) :
    replyBytes netif b j = laid (headers netif b) b j := by
  unfold replyBytes
  rw [store_of_ne (by omega) (by omega), store_of_ne (by omega) (by omega)]

theorem replyBytes_header (netif : Netif) (b : Buffer) {j : ℕ} (hj : j < 42)
    (h : j ≠ 24 ∧ j ≠ 25 ∧ j ≠ 36 ∧ j ≠ 37) : replyBytes netif b j = (headers netif b).getD j 0 := by
  rw [replyBytes_of_ne netif b h]
  unfold laid
  rw [headers_length, if_pos hj]

theorem replyBytes_source (netif : Netif) {b : Buffer} {i j : ℕ} (h : i ∈ source b j) :
    replyBytes netif b j = b.peek i := by
  have hne : j ≠ 24 ∧ j ≠ 25 ∧ j ≠ 36 ∧ j ≠ 37 := by
    refine ⟨?_, ?_, ?_, ?_⟩ <;> rintro rfl <;> simp [source] at h
  rw [replyBytes_of_ne netif b hne]
  exact laid_source netif h

/-- A part of the headers that has no checksum in it goes out as it is. -/
theorem part_header {netif : Netif} {b r : Buffer} {n : ℕ} (h : Transmits r (replyBytes netif b) n)
    (hn : 42 ≤ n) {i k : ℕ} (hk : i + k ≤ 42) (h1 : i + k ≤ 24 ∨ 26 ≤ i) (h2 : i + k ≤ 36 ∨ 38 ≤ i) :
    part (sentFrame r) i k = part (headers netif b) i k := by
  have hlen := headers_length netif b
  exact h.part_eq_part (by omega) (by omega) fun j hj => replyBytes_header netif b (by omega) (by omega)

/-- The sums do not overflow, so the buffer has the bytes of `replyBytes`. -/
theorem echoReply_bytes (netif : Netif) {b r : Buffer} (hb : 42 ≤ b.sliceLen) (hr : 42 ≤ r.sliceLen)
    (h1 : echo.stop b ≤ b.sliceLen) (h2 : echo.stop b ≤ r.sliceLen) (hsize : echo.stop b ≤ 2 ^ 17) :
    ∃ r', echoReply netif b r = .ok r' ∧ r.Alike r' ∧ r.SameFront r' ∧
      ∀ j < echo.stop b, r'.peek j = replyBytes netif b j := by
  obtain ⟨r₁, c₁, c₂, halike, hfront, hlaid, hc₁, hc₂, hreply⟩ := echoReply_eq netif hb hr h1 h2
  have hle := wordSum_le r₁.peek 17 (echo.stop b / 2)
  have hle' := wordSum_le (r₁.poke 36 (csumBytes c₁)).peek 7 (echo.stop b / 2)
  rw [Nat.mod_eq_of_lt (by omega)] at hc₁ hc₂
  have hp₁ : (r₁.poke 36 (csumBytes c₁)).peek = store 0 r₁.peek 18 17 (echo.stop b / 2) :=
    peek_poke_csumBytes (by rw [hc₁, Nat.zero_add]) 18
  have hp₂ : ((r₁.poke 36 (csumBytes c₁)).poke 24 (csumBytes c₂)).peek =
      store 0 (r₁.poke 36 (csumBytes c₁)).peek 12 7 (echo.stop b / 2) :=
    peek_poke_csumBytes (by rw [hc₂, Nat.zero_add]) 12
  refine ⟨_, hreply, halike.trans ⟨rfl, rfl, rfl, rfl⟩,
    (hfront.poke halike 36 _).poke (halike.trans ⟨rfl, rfl, rfl, rfl⟩) 24 _, ?_⟩
  rw [hp₂, hp₁]
  exact store_congr (by omega) (store_congr (by omega) fun j hj => hlaid j (.inr hj))

/-- **A well-formed request is answered** with one frame. -/
theorem processFrame_reply (heap : ℕ → Block) (w : World) {f : DataFromNetif} (h : IsRequest f) :
    ∃ r, processFrame heap w f = .ok (w.replied [(f.netif, r)]) ∧
      Transmits r (replyBytes f.netif f.buffer) (echo.stop f.buffer) := by
  have hlen : (headerLen f.buffer).toNat = 4 * ihl f.buffer := headerLen_toNat f.buffer
  have htotal := h.total
  have hfits := h.fits
  obtain ⟨h42, h17, hslice⟩ := h.stop_bounds
  rw [processFrame_request heap w (by rw [hlen]; omega) (by rw [hlen]; exact h.type)]
  exact echo.answer_eq h17 (fun r hr hstop => echoReply_bytes f.netif (by omega) (by omega) hslice hstop h17) heap w

/-! ### The checksums -/

section

variable {netif : Netif} {b : Buffer}

theorem laid_zero (netif : Netif) (b : Buffer) :
    word (laid (headers netif b) b) 18 = 0 ∧ word (laid (headers netif b) b) 12 = 0 := by
  unfold word laid
  rw [headers_length]
  exact ⟨rfl, rfl⟩

/-- The ICMP message, without a last odd byte, sums up to zero modulo `0xffff`. -/
theorem icmp_dvd (h1 : 42 ≤ echo.stop b) (h2 : echo.stop b ≤ 2 ^ 17) :
    0xffff ∣ wordSum (replyBytes netif b) 17 (echo.stop b / 2) ∧
      0 < wordSum (replyBytes netif b) 17 (echo.stop b / 2) := by
  have hle := wordSum_le (laid (headers netif b) b) 17 (echo.stop b / 2)
  have h := dvd_wordSum_store (c := 0) (k := 18) (show 17 ≤ 18 by omega) (show 18 < echo.stop b / 2 by omega)
    (laid_zero netif b).1 (by omega)
  rw [Nat.zero_add] at h
  unfold replyBytes
  rw [wordSum_store_of_le (by omega)]
  exact h

/-- **The IP header checks by itself**: its checksum is summed over the whole packet, but
what the ICMP message adds is a multiple of `0xffff`. -/
theorem ipv4_dvd (h1 : 42 ≤ echo.stop b) (h2 : echo.stop b ≤ 2 ^ 17) :
    0xffff ∣ wordSum (replyBytes netif b) 7 17 ∧ 0 < wordSum (replyBytes netif b) 7 17 := by
  have hicmp : 0xffff ∣ wordSum (replyBytes netif b) 17 (echo.stop b / 2) := (icmp_dvd h1 h2).1
  set inner := store 0 (laid (headers netif b) b) 18 17 (echo.stop b / 2) with hinner
  have hzero : word inner 12 = 0 := by
    rw [← (laid_zero netif b).2, hinner]
    unfold word
    rw [store_of_ne (by omega) (by omega), store_of_ne (by omega) (by omega)]
  have hle := wordSum_le inner 7 (echo.stop b / 2)
  have hwhole := (dvd_wordSum_store (c := 0) (k := 12) (show 7 ≤ 12 by omega)
    (show 12 < echo.stop b / 2 by omega) hzero (by omega)).1
  rw [Nat.zero_add] at hwhole
  constructor
  · have hsplit : wordSum (replyBytes netif b) 7 (echo.stop b / 2) =
        wordSum (replyBytes netif b) 7 17 + wordSum (replyBytes netif b) 17 (echo.stop b / 2) :=
      wordSum_append (by omega) (by omega)
    exact (Nat.dvd_add_left hicmp).1 (hsplit ▸ hwhole)
  · refine wordSum_pos (show 7 ≤ 7 by omega) (by omega) ?_
    unfold word
    rw [replyBytes_header netif b (by omega) (by omega), replyBytes_header netif b (by omega) (by omega)]
    exact Nat.lt_of_lt_of_le (by decide) (Nat.le_add_right (256 * 69) _)

end

end Icmpv4InLocal

/-! ## ICMPv6 -/

namespace Icmpv6InLocal

/-- A well-formed echo request: a payload length that has room for the ICMP header and
ends inside the slice. -/
structure IsRequest (f : DataFromNetif) : Prop where
  type : f.buffer.peek 54 = 0x80
  payload : 8 ≤ (length f.buffer).toNat
  fits : 54 + (length f.buffer).toNat ≤ f.buffer.sliceLen

/-- The bytes of a reply: the checksum is stored in word 28. -/
def replyBytes (netif : Netif) (b : Buffer) : ℕ → UInt8 :=
  store (pseudoHeader b).toNat (laid (headers netif b) b) 28 27 (echo.stop b / 2)

theorem length_lt (b : Buffer) : (length b).toNat < 65536 := by
  have h1 := (b.peek 18).toNat_lt
  have h2 := (b.peek 19).toNat_lt
  rw [length_toNat]
  omega

theorem IsRequest.stop_bounds {f : DataFromNetif} (h : IsRequest f) :
    62 ≤ echo.stop f.buffer ∧ echo.stop f.buffer ≤ 54 + 65535 ∧ echo.stop f.buffer ≤ f.buffer.sliceLen := by
  have h1 := h.payload
  have h2 := h.fits
  have h3 := length_lt f.buffer
  rw [stop_eq]
  omega

/-- Everything but the checksum is as laid out. -/
theorem replyBytes_of_ne (netif : Netif) (b : Buffer) {j : ℕ} (h : j ≠ 56 ∧ j ≠ 57) :
    replyBytes netif b j = laid (headers netif b) b j := by
  unfold replyBytes
  rw [store_of_ne (by omega) (by omega)]

theorem replyBytes_header (netif : Netif) (b : Buffer) {j : ℕ} (hj : j < 62) (h : j ≠ 56 ∧ j ≠ 57) :
    replyBytes netif b j = (headers netif b).getD j 0 := by
  rw [replyBytes_of_ne netif b h]
  unfold laid
  rw [headers_length, if_pos hj]

theorem replyBytes_source (netif : Netif) {b : Buffer} {i j : ℕ} (h : i ∈ source b j) :
    replyBytes netif b j = b.peek i := by
  have hne : j ≠ 56 ∧ j ≠ 57 := by
    refine ⟨?_, ?_⟩ <;> rintro rfl <;> simp [source] at h
  rw [replyBytes_of_ne netif b hne]
  exact laid_source netif h

/-- A part of the headers that has no checksum in it goes out as it is. -/
theorem part_header {netif : Netif} {b r : Buffer} {n : ℕ} (h : Transmits r (replyBytes netif b) n)
    (hn : 62 ≤ n) {i k : ℕ} (hk : i + k ≤ 62) (h1 : i + k ≤ 56 ∨ 58 ≤ i) :
    part (sentFrame r) i k = part (headers netif b) i k := by
  have hlen := headers_length netif b
  exact h.part_eq_part (by omega) (by omega) fun j hj => replyBytes_header netif b (by omega) (by omega)

/-! ### The pseudo header -/

/-- A sum over a range, in 32 bits. -/
theorem foldl_range_toNat (f : ℕ → UInt32) (c : UInt32) (n : ℕ) :
    ((List.range n).foldl (fun c i => c + f i) c).toNat = (c.toNat + ∑ i ∈ Finset.range n, (f i).toNat) % 2 ^ 32 := by
  induction n with
  | zero => simp [Nat.mod_eq_of_lt c.toNat_lt]
  | succ n ih =>
    rw [List.range_succ, List.foldl_append, List.foldl_cons, List.foldl_nil, UInt32.toNat_add, ih,
      Finset.sum_range_succ, Nat.mod_add_mod, Nat.add_assoc]

/-- The sum of the pseudo header does not overflow. -/
theorem pseudoHeader_toNat (b : Buffer) :
    (pseudoHeader b).toNat = 8 * 0x0202 + wordSum b.peek 11 19 + (length b).toNat + 58 := by
  have hfixed : ((List.range 8).foldl (fun csum _ => csum + ((0x2 : UInt32) <<< 8 ||| 0x02)) 0).toNat =
      8 * 0x0202 := by decide
  have hsrc : ∑ i ∈ Finset.range 8,
      ((b.peek (22 + i * 2)).toUInt32 <<< 8 ||| (b.peek (22 + i * 2 + 1)).toUInt32).toNat = wordSum b.peek 11 19 := by
    unfold wordSum
    rw [Finset.sum_Ico_eq_sum_range]
    apply Finset.sum_congr rfl
    intro i _
    unfold word
    rw [csumWord_toNat, show (11 + i) * 2 = 22 + i * 2 by omega]
  have hlen := length_lt b
  have hlen' : (length b).toUInt32.toNat = (length b).toNat := by
    rw [UInt64.toNat_toUInt32]
    omega
  have hle := wordSum_le b.peek 11 19
  unfold pseudoHeader
  simp only
  rw [UInt32.toNat_add, UInt32.toNat_add, foldl_range_toNat, hfixed, hsrc, hlen']
  simp only [UInt32.reduceToNat]
  omega

theorem pseudoHeader_le (b : Buffer) : (pseudoHeader b).toNat ≤ 600000 := by
  have hlen := length_lt b
  have hle := wordSum_le b.peek 11 19
  rw [pseudoHeader_toNat]
  omega

/-- The sums do not overflow, so the buffer has the bytes of `replyBytes`. -/
theorem echoReply_bytes (netif : Netif) {b r : Buffer} (hb : 62 ≤ b.sliceLen) (hr : 62 ≤ r.sliceLen)
    (h1 : echo.stop b ≤ b.sliceLen) (h2 : echo.stop b ≤ r.sliceLen) (hsize : echo.stop b ≤ 54 + 65535) :
    ∃ r', echoReply netif b r = .ok r' ∧ r.Alike r' ∧ r.SameFront r' ∧
      ∀ j < echo.stop b, r'.peek j = replyBytes netif b j := by
  obtain ⟨r₁, c₁, halike, hfront, hlaid, hc₁, hreply⟩ := echoReply_eq netif hb hr h1 h2
  have hle := wordSum_le r₁.peek 27 (echo.stop b / 2)
  have hpseudo := pseudoHeader_le b
  rw [Nat.mod_eq_of_lt (by omega)] at hc₁
  have hp₁ : (r₁.poke 56 (csumBytes c₁)).peek =
      store (pseudoHeader b).toNat r₁.peek 28 27 (echo.stop b / 2) := peek_poke_csumBytes hc₁ 28
  refine ⟨_, hreply, halike.trans ⟨rfl, rfl, rfl, rfl⟩, hfront.poke halike 56 _, ?_⟩
  rw [hp₁]
  exact store_congr (by omega) fun j hj => hlaid j (.inr hj)

/-- **A well-formed request is answered** with one frame. -/
theorem processFrame_reply (heap : ℕ → Block) (w : World) {f : DataFromNetif} (h : IsRequest f) :
    ∃ r, processFrame heap w f = .ok (w.replied [(f.netif, r)]) ∧
      Transmits r (replyBytes f.netif f.buffer) (echo.stop f.buffer) := by
  obtain ⟨h62, h17, hslice⟩ := h.stop_bounds
  rw [processFrame_request heap w (by omega) h.type]
  exact echo.answer_eq (by omega)
    (fun r hr hstop => echoReply_bytes f.netif (by omega) (by omega) hslice hstop h17) heap w

/-- The pseudo header and the ICMP message, without a last odd byte, sum up to zero
modulo `0xffff`. -/
theorem icmp_dvd {netif : Netif} {b : Buffer} (h1 : 62 ≤ echo.stop b) (h2 : echo.stop b ≤ 54 + 65535) :
    0xffff ∣ (pseudoHeader b).toNat + wordSum (replyBytes netif b) 27 (echo.stop b / 2) ∧
      0 < (pseudoHeader b).toNat + wordSum (replyBytes netif b) 27 (echo.stop b / 2) := by
  have hle := wordSum_le (laid (headers netif b) b) 27 (echo.stop b / 2)
  have hpseudo := pseudoHeader_le b
  refine dvd_wordSum_store (by omega) (by omega) ?_ (by omega)
  unfold word laid
  rw [headers_length]
  rfl

end Icmpv6InLocal

end Urchin
