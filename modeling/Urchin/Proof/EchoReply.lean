import Urchin.Proof.Advertisement
import Urchin.Proof.Reply

/-!
# What an echo reply is worth to the requester

For batches of well-formed requests of any content:
* an ICMPv4 reply to a request without options has the addresses exchanged, the request's
  length and data, and an IP header that checks (`icmpv4_echo_reply`);
* ICMP messages of even length check (`echo_checksums`), those of odd length exactly if
  their last byte is zero, since it is left out of the sum (`odd_checksums_iff`);
* with options, the data and the length field are right for no request
  (`options_reply_iff`);
* an ICMPv6 reply comes from a fixed address, which is right only for requests to that
  address (`icmpv6_echo_reply_iff`).
-/

namespace Urchin

open Exec Inet

/-! ## ICMPv4 without options -/

namespace Icmpv4InLocal

/-- The reply to a request without options, as the requester expects it. -/
structure Answers (f : DataFromNetif) (r : Buffer) : Prop where
  virtio : (wire r).take 12 = List.replicate 12 0
  size : (sentFrame r).length = 14 + (totalLen f.buffer).toNat
  etherDest : part (sentFrame r) 0 6 = bytes f.buffer.peek 6 6
  etherSrc : part (sentFrame r) 6 6 = List.ofFn f.netif.macaddr.getArray
  total : field16 (sentFrame r) 16 = (totalLen f.buffer).toNat
  srcIp : part (sentFrame r) 26 4 = bytes f.buffer.peek 30 4
  destIp : part (sentFrame r) 30 4 = bytes f.buffer.peek 26 4
  typeCode : part (sentFrame r) 34 2 = [0, 0]
  -- the identifier, the sequence number and the payload
  data : (sentFrame r).drop 38 = bytes f.buffer.peek 38 ((totalLen f.buffer).toNat - 24)
  header : Verifies (part (sentFrame r) 14 20)

/-- The length field of the reply is that of the request, whatever is sent. -/
theorem field16_total {f : DataFromNetif} (hf : IsRequest f) {r : Buffer}
    (hr : Transmits r (replyBytes f.netif f.buffer) (echo.stop f.buffer)) :
    field16 (sentFrame r) 16 = (totalLen f.buffer).toNat := by
  obtain ⟨h42, -, -⟩ := hf.stop_bounds
  unfold field16
  rw [hr.getD_eq (by omega), hr.getD_eq (by omega), replyBytes_header _ _ (by omega) (by omega),
    replyBytes_header _ _ (by omega) (by omega), totalLen_toNat]
  rfl

theorem answers {f : DataFromNetif} (hf : IsRequest f) (hihl : ihl f.buffer = 5) {r : Buffer}
    (hr : Transmits r (replyBytes f.netif f.buffer) (echo.stop f.buffer)) : Answers f r := by
  obtain ⟨h42, h17, -⟩ := hf.stop_bounds
  have htotal := hf.total
  have hstop : echo.stop f.buffer = 14 + (totalLen f.buffer).toNat := by
    rw [hf.stop_eq]
    omega
  have hsrc : ∀ i j, i ∈ source f.buffer j → replyBytes f.netif f.buffer j = f.buffer.peek i :=
    fun i j h => replyBytes_source f.netif h
  constructor
  case virtio => exact hr.virtio
  case size => rw [hr.length, hstop]
  case etherDest => rw [part_header hr h42 (by omega) (by omega) (by omega)]; rfl
  case etherSrc => rw [part_header hr h42 (by omega) (by omega) (by omega)]; rfl
  case total => exact field16_total hf hr
  case srcIp => rw [part_header hr h42 (by omega) (by omega) (by omega)]; rfl
  case destIp => rw [part_header hr h42 (by omega) (by omega) (by omega)]; rfl
  case typeCode => rw [part_header hr h42 (by omega) (by omega) (by omega)]; rfl
  case data =>
    rw [hr.drop_eq (by omega), hstop, show 14 + (totalLen f.buffer).toNat - 38 = (totalLen f.buffer).toNat - 24 by omega]
    refine bytes_congr fun k hk => hsrc _ _ ?_
    -- without options, the ICMP header of the request is where that of the reply is
    have hlen : (headerLen f.buffer).toNat = 20 := by
      rw [headerLen_toNat]
      unfold ihl at hihl
      omega
    unfold source
    rw [if_neg (by omega), if_neg (by omega), hlen]
    by_cases h : 38 ≤ 38 + k ∧ 38 + k < 42
    · rw [if_pos h]
      exact congrArg some (by omega)
    · rw [if_neg h, if_pos (by omega)]
      rfl
  case header =>
    rw [hr.part_eq (by omega), verifies_iff]
    have hsum := words_bytes_even (replyBytes f.netif f.buffer) 7 10
    rw [hsum]
    exact ipv4_dvd h42 h17

/-- **ICMPv4 echo replies without options.** A batch of echo requests with a header of five
words, of any content, is answered with one frame for each, on the interface it came from:
the cleared virtio header and a frame of the request's length, with the Ethernet and IP
addresses exchanged, type and code zero, the request's identifier, sequence number and
payload, and an IP header that checks. -/
theorem icmpv4_echo_reply (heap : ℕ → Block) (w : World) (fs : List DataFromNetif)
    (h : ∀ f ∈ fs, IsRequest f ∧ ihl f.buffer = 5) :
    ∃ out, process heap w fs = .ok (w.replied out) ∧
      List.Forall₂ (fun f s => s.1 = f.netif ∧ Answers f s.2) fs out := by
  refine forEach_replies fs (fun f hf w => ?_) w
  obtain ⟨hreq, hihl⟩ := h f hf
  obtain ⟨r, hr, htx⟩ := processFrame_reply heap w hreq
  exact ⟨r, hr, answers hreq hihl htx⟩

/-- One ping, with four bytes of data. -/
theorem pingFrame_isRequest : IsRequest (pingFrame [100, 101, 102, 103]) :=
  ⟨by decide +kernel, by decide +kernel, by decide +kernel, by decide +kernel⟩

theorem icmpv4_echo_reply_ping : ∃ out, process pages World.empty [pingFrame [100, 101, 102, 103]] =
    .ok (World.empty.replied out) ∧ out.length = 1 ∧ ∀ s ∈ out, Answers (pingFrame [100, 101, 102, 103]) s.2 := by
  obtain ⟨out, hout, hrel⟩ := icmpv4_echo_reply pages World.empty [pingFrame [100, 101, 102, 103]]
    (List.forall_mem_singleton.2 ⟨pingFrame_isRequest, by decide +kernel⟩)
  exact ⟨out, hout, hrel.length_eq.symm, fun s hs => (replies_singleton hrel s hs).2⟩

/-! ## Checksums -/

/-- The words of the ICMP message of a reply, without a last odd byte. -/
theorem verifies_even {f : DataFromNetif} (hf : IsRequest f) {r : Buffer}
    (hr : Transmits r (replyBytes f.netif f.buffer) (echo.stop f.buffer)) (heven : Even (echo.stop f.buffer)) :
    Verifies ((sentFrame r).drop 34) := by
  obtain ⟨h42, h17, -⟩ := hf.stop_bounds
  obtain ⟨n, hn⟩ := heven
  have hsum := words_bytes_even (replyBytes f.netif f.buffer) 17 (n - 17)
  rw [hr.drop_eq (by omega), show echo.stop f.buffer - 34 = (n - 17) * 2 by omega, verifies_iff, hsum,
    show 17 + (n - 17) = echo.stop f.buffer / 2 by omega]
  exact icmp_dvd h42 h17

/-- A last odd byte is not in the sum: the message checks only if it is zero. -/
theorem verifies_odd_iff {f : DataFromNetif} (hf : IsRequest f) {r : Buffer}
    (hr : Transmits r (replyBytes f.netif f.buffer) (echo.stop f.buffer)) (hodd : Odd (echo.stop f.buffer)) :
    Verifies ((sentFrame r).drop 34) ↔ replyBytes f.netif f.buffer (echo.stop f.buffer - 1) = 0 := by
  obtain ⟨h42, h17, -⟩ := hf.stop_bounds
  obtain ⟨n, hn⟩ := hodd
  have hsum := words_bytes_odd (replyBytes f.netif f.buffer) 17 (n - 17)
  rw [hr.drop_eq (by omega), show echo.stop f.buffer - 34 = (n - 17) * 2 + 1 by omega, verifies_iff, hsum,
    show 17 + (n - 17) = echo.stop f.buffer / 2 by omega,
    show echo.stop f.buffer - 1 = echo.stop f.buffer / 2 * 2 by omega]
  exact dvd_add_lastByte_iff (icmp_dvd h42 h17)

end Icmpv4InLocal

namespace Icmpv6InLocal

/-- The pseudo header of a frame, from its own addresses and payload length. -/
def pseudoHeaderOf (frame : List UInt8) : List UInt8 :=
  part frame 22 16 ++ part frame 38 16 ++ ([0, 0] ++ part frame 18 2) ++ [0, 0, 0, 58]

/-- What the handler sums up separately is the pseudo header of the frame it sends. -/
theorem words_pseudoHeaderOf {f : DataFromNetif} (hf : IsRequest f) {r : Buffer}
    (hr : Transmits r (replyBytes f.netif f.buffer) (echo.stop f.buffer)) :
    (pseudoHeaderOf (sentFrame r)).length = 40 ∧
      (words (pseudoHeaderOf (sentFrame r))).sum = (pseudoHeader f.buffer).toNat := by
  obtain ⟨h62, -, -⟩ := hf.stop_bounds
  have hsrc : part (sentFrame r) 22 16 = List.replicate 16 0x02 := by
    rw [part_header hr h62 (by omega) (by omega)]; rfl
  have hdest : part (sentFrame r) 38 16 = bytes f.buffer.peek 22 16 := by
    rw [part_header hr h62 (by omega) (by omega)]; rfl
  have hlen : part (sentFrame r) 18 2 = bytes f.buffer.peek 18 2 := by
    rw [part_header hr h62 (by omega) (by omega)]; rfl
  unfold pseudoHeaderOf
  rw [hsrc, hdest, hlen]
  refine ⟨rfl, ?_⟩
  have haddr : (words (bytes f.buffer.peek 22 16)).sum = wordSum f.buffer.peek 11 19 :=
    words_bytes_even f.buffer.peek 11 8
  have hpayload := words_bytes_even f.buffer.peek 9 1
  have hword : wordSum f.buffer.peek 9 (9 + 1) = 256 * (f.buffer.peek 18).toNat + (f.buffer.peek 19).toNat := by
    simp [wordSum, word]
  -- the constant parts
  have hfixed : (words (List.replicate 16 0x02)).sum = 8 * 0x0202 := by decide
  have hproto : (words [0, 0, 0, 58]).sum = 58 := by decide
  have hzero : (words [0, 0]).sum = 0 := by decide
  rw [words_append (by simp; decide), words_append (by simp; decide), words_append (by simp; decide),
    words_append (by decide), List.sum_append, List.sum_append, List.sum_append, List.sum_append,
    pseudoHeader_toNat, haddr, hpayload, length_toNat, hword, hfixed, hproto, hzero]
  omega

theorem words_message {f : DataFromNetif} (hf : IsRequest f) {r : Buffer}
    (hr : Transmits r (replyBytes f.netif f.buffer) (echo.stop f.buffer)) :
    (words (pseudoHeaderOf (sentFrame r) ++ (sentFrame r).drop 54)).sum = (pseudoHeader f.buffer).toNat +
      (words (bytes (replyBytes f.netif f.buffer) 54 (echo.stop f.buffer - 54))).sum := by
  obtain ⟨h62, -, -⟩ := hf.stop_bounds
  obtain ⟨hlen, hsum⟩ := words_pseudoHeaderOf hf hr
  rw [words_append (by rw [hlen]; decide), List.sum_append, hsum, hr.drop_eq (by omega)]

theorem verifies_even {f : DataFromNetif} (hf : IsRequest f) {r : Buffer}
    (hr : Transmits r (replyBytes f.netif f.buffer) (echo.stop f.buffer)) (heven : Even (echo.stop f.buffer)) :
    Verifies (pseudoHeaderOf (sentFrame r) ++ (sentFrame r).drop 54) := by
  obtain ⟨h62, h17, -⟩ := hf.stop_bounds
  obtain ⟨n, hn⟩ := heven
  have hsum := words_bytes_even (replyBytes f.netif f.buffer) 27 (n - 27)
  rw [verifies_iff, words_message hf hr, show echo.stop f.buffer - 54 = (n - 27) * 2 by omega, hsum,
    show 27 + (n - 27) = echo.stop f.buffer / 2 by omega]
  exact icmp_dvd h62 h17

theorem verifies_odd_iff {f : DataFromNetif} (hf : IsRequest f) {r : Buffer}
    (hr : Transmits r (replyBytes f.netif f.buffer) (echo.stop f.buffer)) (hodd : Odd (echo.stop f.buffer)) :
    Verifies (pseudoHeaderOf (sentFrame r) ++ (sentFrame r).drop 54) ↔
      replyBytes f.netif f.buffer (echo.stop f.buffer - 1) = 0 := by
  obtain ⟨h62, h17, -⟩ := hf.stop_bounds
  obtain ⟨n, hn⟩ := hodd
  have hsum := words_bytes_odd (replyBytes f.netif f.buffer) 27 (n - 27)
  rw [verifies_iff, words_message hf hr, show echo.stop f.buffer - 54 = (n - 27) * 2 + 1 by omega, hsum,
    show 27 + (n - 27) = echo.stop f.buffer / 2 by omega,
    show echo.stop f.buffer - 1 = echo.stop f.buffer / 2 * 2 by omega, ← Nat.add_assoc]
  exact dvd_add_lastByte_iff (icmp_dvd h62 h17)

end Icmpv6InLocal

/-- A checksum loop whose sum stays below 32 bits is exact after every round. -/
theorem csumLoop_exact {r : Buffer} {k : ℕ} (lo : ℕ) (c : UInt32) (hr : k * 2 ≤ r.sliceLen)
    (h : c.toNat + (k - lo) * 0xffff < 2 ^ 32) :
    ∃ c', csumLoop r lo k c = .ok c' ∧ c'.toNat = c.toNat + wordSum r.peek lo k := by
  obtain ⟨c', hc', hsum⟩ := csumLoop_ok lo hr c
  have hle := wordSum_le r.peek lo k
  exact ⟨c', hc', by rw [hsum, Nat.mod_eq_of_lt (by omega)]⟩

/-- **ICMP checksums of even messages check.** For batches of ICMPv4 echo requests with a
header of five words and of ICMPv6 echo requests, all with ICMP messages of even length and
of any content:
* every reply's ICMP message checks, the ICMPv6 one together with the pseudo header of the
  reply;
* whatever bytes are summed up, no round of a checksum loop overflows;
* two foldings bring every sum down to 16 bits. -/
theorem echo_checksums (heap : ℕ → Block) (w : World) (v4 v6 : List DataFromNetif)
    (h4 : ∀ f ∈ v4, Icmpv4InLocal.IsRequest f ∧ Icmpv4InLocal.ihl f.buffer = 5 ∧
      Even ((Icmpv4InLocal.totalLen f.buffer).toNat - 20))
    (h6 : ∀ f ∈ v6, Icmpv6InLocal.IsRequest f ∧ Even (Icmpv6InLocal.length f.buffer).toNat) :
    (∃ out, Icmpv4InLocal.process heap w v4 = .ok (w.replied out) ∧
      List.Forall₂ (fun f s => s.1 = f.netif ∧ Verifies ((sentFrame s.2).drop 34)) v4 out) ∧
    (∃ out, Icmpv6InLocal.process heap w v6 = .ok (w.replied out) ∧
      List.Forall₂ (fun f s => s.1 = f.netif ∧
        Verifies (Icmpv6InLocal.pseudoHeaderOf (sentFrame s.2) ++ (sentFrame s.2).drop 54)) v6 out) ∧
    (∀ f ∈ v4, ∀ (r : Buffer) (k : ℕ), k ≤ (14 + (Icmpv4InLocal.totalLen f.buffer).toNat) / 2 →
      k * 2 ≤ r.sliceLen → ∃ c, csumLoop r 17 k 0 = .ok c ∧ c.toNat = wordSum r.peek 17 k) ∧
    (∀ f ∈ v6, ∀ (r : Buffer) (k : ℕ), k ≤ (54 + (Icmpv6InLocal.length f.buffer).toNat) / 2 →
      k * 2 ≤ r.sliceLen → ∃ c, csumLoop r 27 k (Icmpv6InLocal.pseudoHeader f.buffer) = .ok c ∧
        c.toNat = 8 * 0x0202 + wordSum f.buffer.peek 11 19 + (Icmpv6InLocal.length f.buffer).toNat + 58 +
          wordSum r.peek 27 k) ∧
    ∀ c : UInt32, (~~~csumFold c).toNat ≤ 0xffff := by
  refine ⟨?_, ?_, ?_, ?_, csumFold_le⟩
  · refine forEach_replies (R := fun _ r => Verifies ((sentFrame r).drop 34)) v4 (fun f hf w => ?_) w
    obtain ⟨hreq, hihl, heven⟩ := h4 f hf
    obtain ⟨r, hr, htx⟩ := Icmpv4InLocal.processFrame_reply heap w hreq
    refine ⟨r, hr, Icmpv4InLocal.verifies_even hreq htx ?_⟩
    rw [hreq.stop_eq, hihl]
    exact Even.add (by decide) heven
  · refine forEach_replies (R := fun _ r => Verifies (Icmpv6InLocal.pseudoHeaderOf (sentFrame r) ++
      (sentFrame r).drop 54)) v6 (fun f hf w => ?_) w
    obtain ⟨hreq, heven⟩ := h6 f hf
    obtain ⟨r, hr, htx⟩ := Icmpv6InLocal.processFrame_reply heap w hreq
    refine ⟨r, hr, Icmpv6InLocal.verifies_even hreq htx ?_⟩
    rw [Icmpv6InLocal.stop_eq]
    exact Even.add (by decide) heven
  · -- 32 bits hold the sum of as many words as a total length allows
    intro f _ r k hk hr
    have hlt := Icmpv4InLocal.totalLen_lt f.buffer
    have hzero : (0 : UInt32).toNat = 0 := rfl
    obtain ⟨c, hc, hsum⟩ := csumLoop_exact 17 0 hr (by omega)
    exact ⟨c, hc, by omega⟩
  · intro f _ r k hk hr
    have hlt := Icmpv6InLocal.length_lt f.buffer
    have hle := Icmpv6InLocal.pseudoHeader_le f.buffer
    obtain ⟨c, hc, hsum⟩ := csumLoop_exact 27 (Icmpv6InLocal.pseudoHeader f.buffer) hr (by omega)
    exact ⟨c, hc, by rw [hsum, Icmpv6InLocal.pseudoHeader_toNat]⟩

theorem ping6Frame_isRequest : Icmpv6InLocal.IsRequest ping6Frame :=
  ⟨by decide +kernel, by decide +kernel, by decide +kernel⟩

/-- Two pings of even length. -/
theorem echo_checksums_pings :
    (∃ out, Icmpv4InLocal.process pages World.empty [pingFrame [100, 101, 102, 103]] =
      .ok (World.empty.replied out) ∧ ∀ s ∈ out, Verifies ((sentFrame s.2).drop 34)) ∧
    ∃ out, Icmpv6InLocal.process pages World.empty [ping6Frame] = .ok (World.empty.replied out) ∧
      ∀ s ∈ out, Verifies (Icmpv6InLocal.pseudoHeaderOf (sentFrame s.2) ++ (sentFrame s.2).drop 54) := by
  obtain ⟨⟨out4, hout4, hrel4⟩, ⟨out6, hout6, hrel6⟩, -⟩ := echo_checksums pages World.empty
    [pingFrame [100, 101, 102, 103]] [ping6Frame]
    (List.forall_mem_singleton.2 ⟨Icmpv4InLocal.pingFrame_isRequest, by decide +kernel, by decide +kernel⟩)
    (List.forall_mem_singleton.2 ⟨ping6Frame_isRequest, by decide +kernel⟩)
  refine ⟨⟨out4, hout4, fun s hs => ?_⟩, out6, hout6, fun s hs => ?_⟩
  · exact (replies_singleton hrel4 s hs).2
  · exact (replies_singleton hrel6 s hs).2

/-- **When ICMP checksums of odd messages check.** For batches of ICMPv4 echo requests with
a header of five words and of ICMPv6 echo requests, all with ICMP messages of odd length and
of any content: every request is answered, and a reply's ICMP message checks if and only if
the last byte of the request's message is zero. -/
theorem odd_checksums_iff (heap : ℕ → Block) (w : World) (v4 v6 : List DataFromNetif)
    (h4 : ∀ f ∈ v4, Icmpv4InLocal.IsRequest f ∧ Icmpv4InLocal.ihl f.buffer = 5 ∧
      Odd ((Icmpv4InLocal.totalLen f.buffer).toNat - 20))
    (h6 : ∀ f ∈ v6, Icmpv6InLocal.IsRequest f ∧ Odd (Icmpv6InLocal.length f.buffer).toNat) :
    (∃ out, Icmpv4InLocal.process heap w v4 = .ok (w.replied out) ∧
      List.Forall₂ (fun f s => s.1 = f.netif ∧ (Verifies ((sentFrame s.2).drop 34) ↔
        f.buffer.peek (14 + (Icmpv4InLocal.totalLen f.buffer).toNat - 1) = 0)) v4 out) ∧
    ∃ out, Icmpv6InLocal.process heap w v6 = .ok (w.replied out) ∧
      List.Forall₂ (fun f s => s.1 = f.netif ∧
        (Verifies (Icmpv6InLocal.pseudoHeaderOf (sentFrame s.2) ++ (sentFrame s.2).drop 54) ↔
          f.buffer.peek (54 + (Icmpv6InLocal.length f.buffer).toNat - 1) = 0)) v6 out := by
  constructor
  · refine forEach_replies (R := fun f r => Verifies ((sentFrame r).drop 34) ↔
      f.buffer.peek (14 + (Icmpv4InLocal.totalLen f.buffer).toNat - 1) = 0) v4 (fun f hf w => ?_) w
    obtain ⟨hreq, hihl, hodd⟩ := h4 f hf
    obtain ⟨r, hr, htx⟩ := Icmpv4InLocal.processFrame_reply heap w hreq
    have htotal := hreq.total
    have hstop : Icmpv4InLocal.echo.stop f.buffer = 34 + ((Icmpv4InLocal.totalLen f.buffer).toNat - 20) := by
      rw [hreq.stop_eq, hihl]
    have hodd' : Odd (Icmpv4InLocal.echo.stop f.buffer) := by
      rw [hstop]
      exact Even.add_odd (by decide) hodd
    obtain ⟨n, hn⟩ := hodd
    refine ⟨r, hr, ?_⟩
    rw [Icmpv4InLocal.verifies_odd_iff hreq htx hodd', Icmpv4InLocal.replyBytes_source (i := Icmpv4InLocal.echo.stop f.buffer - 1)]
    · rw [show Icmpv4InLocal.echo.stop f.buffer - 1 = 14 + (Icmpv4InLocal.totalLen f.buffer).toNat - 1 by omega]
    · -- the last byte is one of the data
      unfold Icmpv4InLocal.source
      rw [if_neg (by omega), if_neg (by omega), if_neg (by omega), if_pos (by omega)]
      rfl
  · refine forEach_replies (R := fun f r => Verifies (Icmpv6InLocal.pseudoHeaderOf (sentFrame r) ++
      (sentFrame r).drop 54) ↔ f.buffer.peek (54 + (Icmpv6InLocal.length f.buffer).toNat - 1) = 0) v6 (fun f hf w => ?_) w
    obtain ⟨hreq, hodd⟩ := h6 f hf
    obtain ⟨r, hr, htx⟩ := Icmpv6InLocal.processFrame_reply heap w hreq
    have hpayload := hreq.payload
    have hstop := Icmpv6InLocal.stop_eq f.buffer
    have hodd' : Odd (Icmpv6InLocal.echo.stop f.buffer) := by
      rw [hstop]
      exact Even.add_odd (by decide) hodd
    refine ⟨r, hr, ?_⟩
    rw [Icmpv6InLocal.verifies_odd_iff hreq htx hodd', Icmpv6InLocal.replyBytes_source (i := Icmpv6InLocal.echo.stop f.buffer - 1)]
    · rw [hstop]
    · unfold Icmpv6InLocal.source
      rw [if_pos (by omega)]
      rfl

/-- An ICMPv4 echo request with one byte of data. -/
def oddFrame (last : UInt8) : DataFromNetif :=
  .ofBytes ⟨0, .new ![2, 0, 0, 0, 0, 1]⟩
    ([2, 0, 0, 0, 0, 1, 4, 0, 0, 0, 0, 9, 0x08, 0x00] ++
      [0x45, 0, 0, 29, 0, 0, 0x40, 0, 64, 1, 0, 0, 192, 168, 0, 20, 192, 168, 0, 10] ++
      [8, 0, 0, 0, 1, 2, 3, 4, last])

/-- An ICMPv6 echo request with one byte of data. -/
def oddFrame6 (last : UInt8) : DataFromNetif :=
  .ofBytes ⟨0, .new ![2, 0, 0, 0, 0, 1]⟩
    ([2, 0, 0, 0, 0, 1, 4, 0, 0, 0, 0, 9, 0x86, 0xdd] ++ [0x60, 0, 0, 0, 0, 9, 58, 64] ++
      List.replicate 32 0xfe ++ [0x80, 0, 0, 0, 1, 2, 3, 4, last])

/-- A last byte of zero passes by accident. -/
theorem odd_checksums_iff_zero :
    (∃ out, Icmpv4InLocal.process pages World.empty [oddFrame 0] = .ok (World.empty.replied out) ∧
      ∀ s ∈ out, Verifies ((sentFrame s.2).drop 34)) ∧
    ∃ out, Icmpv6InLocal.process pages World.empty [oddFrame6 0] = .ok (World.empty.replied out) ∧
      ∀ s ∈ out, Verifies (Icmpv6InLocal.pseudoHeaderOf (sentFrame s.2) ++ (sentFrame s.2).drop 54) := by
  obtain ⟨⟨out4, hout4, hrel4⟩, out6, hout6, hrel6⟩ := odd_checksums_iff pages World.empty [oddFrame 0] [oddFrame6 0]
    (List.forall_mem_singleton.2 ⟨⟨by decide +kernel, by decide +kernel, by decide +kernel, by decide +kernel⟩,
      by decide +kernel, by decide +kernel⟩)
    (List.forall_mem_singleton.2 ⟨⟨by decide +kernel, by decide +kernel, by decide +kernel⟩, by decide +kernel⟩)
  refine ⟨⟨out4, hout4, fun s hs => ?_⟩, out6, hout6, fun s hs => ?_⟩
  · exact (replies_singleton hrel4 s hs).2.2 (by decide +kernel)
  · exact (replies_singleton hrel6 s hs).2.2 (by decide +kernel)

/-- **A last byte of one does not.** -/
theorem odd_checksums_fail :
    Icmpv4InLocal.IsRequest (oddFrame 1) ∧ Icmpv4InLocal.ihl (oddFrame 1).buffer = 5 ∧
    Icmpv6InLocal.IsRequest (oddFrame6 1) ∧
    ((Icmpv4InLocal.process pages World.empty [oddFrame 1]).state.sent.map
      fun s => decide (Verifies ((sentFrame s.2).drop 34))) = [false] ∧
    ((Icmpv6InLocal.process pages World.empty [oddFrame6 1]).state.sent.map
      fun s => decide (Verifies (Icmpv6InLocal.pseudoHeaderOf (sentFrame s.2) ++ (sentFrame s.2).drop 54))) = [false] :=
  ⟨⟨by decide +kernel, by decide +kernel, by decide +kernel, by decide +kernel⟩, by decide +kernel,
    ⟨by decide +kernel, by decide +kernel, by decide +kernel⟩, by decide +kernel, by decide +kernel⟩

/-! ## ICMPv4 with options -/

namespace Icmpv4InLocal

/-- The reply carries the request's ICMP payload, and its length field says how many bytes
follow the Ethernet header. -/
structure Carries (f : DataFromNetif) (r : Buffer) : Prop where
  payload : (sentFrame r).drop 42 = bytes f.buffer.peek (14 + 4 * ihl f.buffer + 8)
    ((totalLen f.buffer).toNat - 4 * ihl f.buffer - 8)
  total : field16 (sentFrame r) 16 = 20 + ((totalLen f.buffer).toNat - 4 * ihl f.buffer)
  size : (sentFrame r).length = 14 + field16 (sentFrame r) 16

/-- **When replies to requests with options are right.** For every batch of well-formed
echo requests with headers of five to fifteen words and any content: every request is
answered, and the reply carries the request's payload under the right length if and only
if the header has five words, so that there are no options. -/
theorem options_reply_iff (heap : ℕ → Block) (w : World) (fs : List DataFromNetif) (h : ∀ f ∈ fs, IsRequest f) :
    ∃ out, process heap w fs = .ok (w.replied out) ∧
      List.Forall₂ (fun f s => s.1 = f.netif ∧ (Carries f s.2 ↔ ihl f.buffer = 5)) fs out := by
  refine forEach_replies (R := fun f r => Carries f r ↔ ihl f.buffer = 5) fs (fun f hf w => ?_) w
  have hreq := h f hf
  have htotal := hreq.total
  have hheader := hreq.header
  have hstop := hreq.stop_eq
  obtain ⟨r, hr, htx⟩ := processFrame_reply heap w hreq
  have hfield := field16_total hreq htx
  refine ⟨r, hr, ?_, ?_⟩
  · -- the length field is that of the request, options included
    intro hcarries
    have := hcarries.total
    omega
  · intro hihl
    refine ⟨?_, by omega, by rw [htx.length]; omega⟩
    rw [htx.drop_eq (by omega), hstop, hihl,
      show 34 + ((totalLen f.buffer).toNat - 4 * 5) - 42 = (totalLen f.buffer).toNat - 4 * 5 - 8 by omega]
    refine bytes_congr fun k _ => replyBytes_source _ ?_
    unfold source
    rw [if_neg (by omega), if_neg (by omega), if_neg (by omega), if_pos (by omega)]
    rfl

/-- A request without options. -/
theorem options_reply_iff_ping : ∃ out, process pages World.empty [pingFrame [100, 101, 102, 103]] =
    .ok (World.empty.replied out) ∧ ∀ s ∈ out, Carries (pingFrame [100, 101, 102, 103]) s.2 := by
  obtain ⟨out, hout, hrel⟩ := options_reply_iff pages World.empty [pingFrame [100, 101, 102, 103]]
    (List.forall_mem_singleton.2 pingFrame_isRequest)
  exact ⟨out, hout, fun s hs => (replies_singleton hrel s hs).2.2 (by decide +kernel)⟩

/-- An ICMPv4 echo request with a header of six words and four bytes of data. -/
def optionsFrame : DataFromNetif :=
  .ofBytes ⟨0, .new ![2, 0, 0, 0, 0, 1]⟩
    ([2, 0, 0, 0, 0, 1, 4, 0, 0, 0, 0, 9, 0x08, 0x00] ++
      [0x46, 0, 0, 36, 0, 0, 0x40, 0, 64, 1, 0, 0, 192, 168, 0, 20, 192, 168, 0, 10, 1, 1, 1, 1] ++
      [8, 0, 0, 0, 1, 2, 3, 4, 100, 101, 102, 103])

/-- **A reply to a request with options**: 32 bytes follow the Ethernet header, but the
length field says 36; and the payload is the identifier and the sequence number. -/
theorem options_reply_wrong : IsRequest optionsFrame ∧ ihl optionsFrame.buffer = 6 ∧
    bytes optionsFrame.buffer.peek (14 + 4 * 6 + 8) 4 = [100, 101, 102, 103] ∧
    ((process pages World.empty [optionsFrame]).state.sent.map fun s =>
      (field16 (sentFrame s.2) 16, (sentFrame s.2).length, (sentFrame s.2).drop 42)) = [(36, 46, [1, 2, 3, 4])] :=
  ⟨⟨by decide +kernel, by decide +kernel, by decide +kernel, by decide +kernel⟩, by decide +kernel,
    by decide +kernel, by decide +kernel⟩

end Icmpv4InLocal

/-! ## ICMPv6 -/

namespace Icmpv6InLocal

/-- The reply to a request, as the requester expects it: it comes from the address the
request was sent to. -/
structure Answers (f : DataFromNetif) (r : Buffer) : Prop where
  size : (sentFrame r).length = 54 + (length f.buffer).toNat
  srcIp : part (sentFrame r) 22 16 = bytes f.buffer.peek 38 16
  destIp : part (sentFrame r) 38 16 = bytes f.buffer.peek 22 16
  payload : field16 (sentFrame r) 18 = (length f.buffer).toNat
  nexthdr : part (sentFrame r) 20 1 = [58]
  type : part (sentFrame r) 54 1 = [129]
  -- the identifier, the sequence number and the data
  data : (sentFrame r).drop 58 = bytes f.buffer.peek 58 ((length f.buffer).toNat - 4)

/-- **When ICMPv6 echo replies are right.** For every batch of well-formed echo requests of
any content: every request is answered with one frame on the interface it came from, and
that frame is the expected answer if and only if the request was sent to the address of
sixteen bytes `0x02`. In no run of a router is that address found local. -/
theorem icmpv6_echo_reply_iff (heap : ℕ → Block) (w : World) (fs : List DataFromNetif)
    (h : ∀ f ∈ fs, IsRequest f) :
    (∃ out, process heap w fs = .ok (w.replied out) ∧
      List.Forall₂ (fun f s => s.1 = f.netif ∧
        (Answers f s.2 ↔ bytes f.buffer.peek 38 16 = List.replicate 16 0x02)) fs out) ∧
    ∀ (ifs : List Interface) (w₀ : World), World.start ifs = .ok w₀ → ∀ batches : List (List DataFromNetif),
      findIpv6Fib (w₀.after heap batches).ipv6Fib (.fromArray fun _ => 0x02) 128 = .ok none := by
  constructor
  · refine forEach_replies (R := fun f r => Answers f r ↔ bytes f.buffer.peek 38 16 = List.replicate 16 0x02) fs
      (fun f hf w => ?_) w
    have hreq := h f hf
    have hpayload := hreq.payload
    have hstop := stop_eq f.buffer
    obtain ⟨h62, -, -⟩ := hreq.stop_bounds
    obtain ⟨r, hr, htx⟩ := processFrame_reply heap w hreq
    have hsrc : part (sentFrame r) 22 16 = List.replicate 16 0x02 := by
      rw [part_header htx h62 (by omega) (by omega)]; rfl
    -- the source is fixed, and all the rest is always as expected
    refine ⟨r, hr, fun hans => hans.srcIp.symm.trans hsrc, fun hdest => ?_⟩
    constructor
    case size => rw [htx.length, hstop]
    case srcIp => rw [hsrc, hdest]
    case destIp => rw [part_header htx h62 (by omega) (by omega)]; rfl
    case payload =>
      unfold field16
      rw [htx.getD_eq (by omega), htx.getD_eq (by omega), replyBytes_header _ _ (by omega) (by omega),
        replyBytes_header _ _ (by omega) (by omega), length_toNat]
      rfl
    case nexthdr => rw [part_header htx h62 (by omega) (by omega)]; rfl
    case type => rw [part_header htx h62 (by omega) (by omega)]; rfl
    case data =>
      rw [htx.drop_eq (by omega), hstop,
        show 54 + (length f.buffer).toNat - 58 = (length f.buffer).toNat - 4 by omega]
      refine bytes_congr fun k _ => replyBytes_source _ ?_
      unfold source
      rw [if_pos (by omega)]
      rfl
  · intro ifs w₀ hstart batches
    refine findIpv6Fib_firstByte heap hstart batches ?_ ?_
    all_goals
      rw [Ipv6Address.firstByte, Ipv6Address.getArray_fromArray]
      decide

/-- An ICMPv6 echo request without data, to the address of sixteen bytes `x`. -/
def ping6To (x : UInt8) : DataFromNetif :=
  .ofBytes ⟨0, .new ![2, 0, 0, 0, 0, 1]⟩
    ([2, 0, 0, 0, 0, 1, 4, 0, 0, 0, 0, 9, 0x86, 0xdd] ++ [0x60, 0, 0, 0, 0, 8, 58, 64] ++
      List.replicate 16 0xfe ++ List.replicate 16 x ++ [0x80, 0, 0, 0, 1, 2, 3, 4])

/-- A request to the fixed address. -/
theorem icmpv6_echo_reply_iff_fixed : ∃ out, process pages World.empty [ping6To 0x02] =
    .ok (World.empty.replied out) ∧ ∀ s ∈ out, Answers (ping6To 0x02) s.2 := by
  obtain ⟨out, hout, hrel⟩ := (icmpv6_echo_reply_iff pages World.empty [ping6To 0x02]
    (List.forall_mem_singleton.2 ⟨by decide +kernel, by decide +kernel, by decide +kernel⟩)).1
  exact ⟨out, hout, fun s hs => (replies_singleton hrel s hs).2.2 (by decide +kernel)⟩

/-- An ICMPv6 echo request without data, to the link-local address of the first interface
of `start_rust`. -/
def ping6Local : DataFromNetif :=
  .ofBytes ⟨0, .new ![2, 0, 0, 0, 0, 1]⟩
    ([2, 0, 0, 0, 0, 1, 4, 0, 0, 0, 0, 9, 0x86, 0xdd] ++ [0x60, 0, 0, 0, 0, 8, 58, 64] ++
      [0xfe, 0x80, 0, 0, 0, 0, 0, 0, 6, 0, 0, 0xff, 0xfe, 0, 0, 9] ++
      [0xfe, 0x80, 0, 0, 0, 0, 0, 0, 2, 0, 0, 0xff, 0xfe, 0, 0, 1] ++ [0x80, 0, 0, 0, 1, 2, 3, 4])

/-- **A ping of a local address** is answered from `202:202:202:202:202:202:202:202`. -/
theorem icmpv6_echo_reply_fixed_source : IsRequest ping6Local ∧ World.start World.testIfs = .ok World.test ∧
    (findIpv6Fib World.test.ipv6Fib (.fromArray (ping6Local.buffer.field 38 16)) 128).map
      (Option.map ForwardInformationBase.fibType) = .ok (some .Local) ∧
    ((process pages World.test [ping6Local]).state.sent.map fun s => part (sentFrame s.2) 22 16) =
      [List.replicate 16 0x02] ∧
    bytes ping6Local.buffer.peek 38 16 ≠ List.replicate 16 0x02 :=
  ⟨⟨by decide +kernel, by decide +kernel, by decide +kernel⟩, World.test_eq, by decide +kernel,
    by decide +kernel, by decide +kernel⟩

end Icmpv6InLocal

end Urchin
