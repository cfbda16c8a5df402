import Urchin.Proof.Echo

/-!
# What echo replies disclose

A handler is given the whole receive buffer and not told how much of it was received.
So a reply carries bytes that were never received whenever the request makes it carry
bytes from behind the received part.

`Agree n` relates two buffers with the same first `n` bytes. Each store, copy and sum
of a handler takes buffers that agree to buffers that agree, so the transmitted frame
is determined by the request's bytes that it carries (`EchoNodeOK.same`) and differs
as soon as one of them does (`EchoOK.sent`). Together: the frames are the same for all
contents of the rest of the buffer exactly if all these bytes, and the type, were
received; or, where a request gets no reply, exactly if no other content of the rest
gets one (`transmitted_iff_covered`, `transmitted_iff_silent`). `echo_discloses_iff`
says what that is for the two handlers.
-/

namespace Urchin

open Exec

/-! ## Buffers that agree -/

/-- The buffers agree on their first `n` bytes, the virtio header included. -/
structure Buffer.Agree (n : ℕ) (b b' : Buffer) : Prop extends b.Alike b' where
  mem : ∀ k < n, b'.mem k = b.mem k

/-- The byte at index `i` of the slice, replaced. -/
def Buffer.set (b : Buffer) (i : ℕ) (v : UInt8) : Buffer :=
  { b with mem := Function.update b.mem (b.position.toNat + i) v }

namespace Buffer

variable {n : ℕ} {b b' : Buffer}

theorem Agree.refl (n : ℕ) (b : Buffer) : b.Agree n b := ⟨.refl b, fun _ _ => rfl⟩

theorem Agree.received (h : b.Agree n b') (hb : VirtioNet.Received b) : VirtioNet.Received b' := by
  unfold VirtioNet.Received
  rw [h.position, h.layout]
  exact hb

theorem Agree.peek (h : b.Agree n b') {j : ℕ} (hj : b.position.toNat + j < n) : b'.peek j = b.peek j := by
  unfold Buffer.peek
  rw [h.position]
  exact h.mem _ hj

theorem Agree.field (h : b.Agree n b') {i N : ℕ} (hi : b.position.toNat + i + N ≤ n) :
    b'.field i N = b.field i N := by
  funext j
  exact h.peek (by omega)

theorem Agree.read (h : b.Agree n b') {j : ℕ} (hj : b.position.toNat + j < n) : b'.read j = b.read j := by
  unfold Buffer.read
  rw [h.sliceLen, h.peek hj]

theorem Agree.array (h : b.Agree n b') {i N : ℕ} (hi : b.position.toNat + i + N ≤ n) :
    b'.array i N = b.array i N := by
  unfold Buffer.array
  rw [h.sliceLen, h.field hi]

theorem peek_set_self (b : Buffer) (i : ℕ) (v : UInt8) : (b.set i v).peek i = v :=
  Function.update_self _ _ _

theorem peek_set_of_ne (b : Buffer) {i j : ℕ} (h : j ≠ i) (v : UInt8) : (b.set i v).peek j = b.peek j :=
  Function.update_of_ne (show b.position.toNat + j ≠ b.position.toNat + i by omega) _ _

theorem Agree.set (h : b.Agree n b') {i : ℕ} (hi : n ≤ b.position.toNat + i) (v : UInt8) :
    b.Agree n (b'.set i v) := by
  refine ⟨⟨h.bufferPtr, h.size, h.position, h.layout⟩, fun k hk => ?_⟩
  unfold Buffer.set
  rw [h.position]
  exact (Function.update_of_ne (by omega) _ _).trans (h.mem k hk)

end Buffer

/-! ## Stores, copies and sums -/

/-- The slices have the same first `m` bytes, and the same bytes are in front of them. -/
def Buffer.SameTo (m : ℕ) (r r' : Buffer) : Prop := r.Agree (r.position.toNat + m) r'

section

variable {m : ℕ} {r r' : Buffer}

theorem Buffer.SameTo.poke (h : r.SameTo m r') {i : ℕ} {l l' : List UInt8}
    (hl : ∀ k, i + k < m → l'.getD k 0 = l.getD k 0) (hlen : l'.length = l.length) :
    (r.poke i l).SameTo m (r'.poke i l') := by
  refine ⟨⟨h.bufferPtr, h.size, h.position, h.layout⟩, fun k hk => ?_⟩
  rw [Buffer.poke_position] at hk
  unfold Buffer.poke
  simp only [h.position, hlen]
  by_cases hin : r.position.toNat + i ≤ k ∧ k < r.position.toNat + i + l.length
  · rw [if_pos hin, if_pos hin]
    exact hl _ (by omega)
  · rw [if_neg hin, if_neg hin]
    exact h.mem k hk

theorem Buffer.SameTo.poke_same (h : r.SameTo m r') (i : ℕ) (l : List UInt8) :
    (r.poke i l).SameTo m (r'.poke i l) := h.poke (fun _ _ => rfl) rfl

/-- Storing headers that have the same bytes as far as these matter. -/
theorem Buffer.SameTo.overlay (h : r.SameTo m r') {i : ℕ} {l l' : List UInt8}
    (hl : ∀ k, i + k < m → l'.getD k 0 = l.getD k 0) (hlen : l'.length = l.length) :
    Both (Buffer.SameTo m) (r.overlay i l) (r'.overlay i l') := by
  unfold Buffer.overlay
  rw [h.sliceLen]
  split
  · exact .ok (h.poke hl hlen)
  · rintro _ _ ⟨⟩

theorem Buffer.SameTo.overlay_same (h : r.SameTo m r') (i : ℕ) (l : List UInt8) :
    Both (Buffer.SameTo m) (r.overlay i l) (r'.overlay i l) := h.overlay (fun _ _ => rfl) rfl

theorem Buffer.SameTo.write (h : r.SameTo m r') (i : ℕ) (v : UInt8) :
    Both (Buffer.SameTo m) (r.write i v) (r'.write i v) := by
  unfold Buffer.write
  rw [h.sliceLen]
  split
  · exact .ok (h.poke_same i [v])
  · rintro _ _ ⟨⟩

/-- Copying a range on which the sources have the same bytes. -/
theorem Buffer.SameTo.copyLoop (h : r.SameTo m r') {b b' : Buffer} {lo hi : ℕ}
    (hb : ∀ j, lo ≤ j → j < hi → b'.read j = b.read j) :
    Both (Buffer.SameTo m) (copyLoop b lo hi r) (copyLoop b' lo hi r') := by
  refine Both.forRange h fun i x x' h1 h2 hx => ?_
  refine (Both.of_eq (hb i h1 h2)).bind ?_
  rintro v _ rfl
  exact hx.write i v

theorem Buffer.SameTo.csumLoop (h : r.SameTo m r') (lo : ℕ) {hi : ℕ} (hhi : hi * 2 ≤ m) (c : UInt32) :
    Both Eq (csumLoop r lo hi c) (csumLoop r' lo hi c) := by
  have hread : ∀ j < m, r'.read j = r.read j := by
    intro j hj
    unfold Buffer.read
    rw [h.sliceLen, Buffer.Agree.peek h (by omega)]
  refine Both.of_eq (forRange_congr (fun i s _ hi' => ?_) c)
  rw [hread _ (by omega), hread _ (by omega)]

end

/-! ## What goes out -/

/-- The frames transmitted so far: the interface and the bytes. -/
def transmitted (o : Outcome World) : List (Netif × List UInt8) :=
  o.state.sent.map fun x => (x.1, wire x.2)

/-- Every byte up to the size of a buffer goes out. -/
theorem mem_of_wire_eq {r r' : Buffer} (h : wire r' = wire r) {k : ℕ} (hk : k < r.getSize.toUInt32.toNat) :
    r'.mem k = r.mem k := by
  have hlen := congrArg List.length h
  have hget := congrArg (fun l : List UInt8 => l[k]?) h
  unfold wire at hlen hget
  rw [List.length_map, List.length_map, List.length_range, List.length_range] at hlen
  simp only [List.getElem?_map, hlen, List.getElem?_range hk, Option.map_some, Option.some.injEq] at hget
  exact hget

/-- A node that answers echo requests: where it finds the type of a packet, and the
type it answers. -/
structure EchoNode where
  echo : Echo
  node : (ℕ → Block) → ProcessingNode
  typeAt : Buffer → ℕ
  request : UInt8

namespace EchoNode

variable (E : EchoNode)

def IsRequest (b : Buffer) : Prop := b.peek (E.typeAt b) = E.request

instance (b : Buffer) : Decidable (E.IsRequest b) := inferInstanceAs (Decidable (_ = _))

/-- The type of the request, and all its bytes that the answer carries, are among the
first `n`. -/
def Covered (n : ℕ) (b : Buffer) : Prop :=
  12 + E.typeAt b < n ∧ ∀ j < E.echo.stop b, ∀ i ∈ E.echo.source b j, 12 + i < n

/-- What goes out in answer to a packet, if anything. -/
def out (blk : Block) (netif : Netif) (b : Buffer) : Option (List UInt8) :=
  if E.IsRequest b then (E.echo.reply blk netif b).toOption.map wire else none

end EchoNode

/-- What such a node does with a packet. Everything in front of the type is read at
fixed places, the length among them; `same` says what determines the answer. -/
structure EchoNodeOK (E : EchoNode) : Prop where
  echo : EchoOK E.echo
  answers : ∀ heap w netif b, VirtioNet.Received b → E.IsRequest b →
    E.node heap w [⟨netif, b⟩] = E.echo.answer heap w ⟨netif, b⟩
  ignores : ∀ heap w netif b, VirtioNet.Received b → ¬ E.IsRequest b →
    (E.node heap w [⟨netif, b⟩]).state.sent = w.sent
  front : ∀ n b b', VirtioNet.Received b → E.IsRequest b → b.Agree n b' → 12 + E.typeAt b < n →
    E.typeAt b' = E.typeAt b ∧ E.echo.size b' = E.echo.size b ∧ E.echo.source b' = E.echo.source b
  typeAt_set : ∀ b v, E.IsRequest b → E.typeAt (b.set (E.typeAt b) v) = E.typeAt b
  same : ∀ n netif b b' r, VirtioNet.Received b → E.IsRequest b → b.Agree n b' → E.Covered n b →
    Both (Buffer.SameTo (E.echo.stop b)) (E.echo.build netif b r) (E.echo.build netif b' r)

namespace EchoNodeOK

variable {E : EchoNode} {b b' : Buffer} {n : ℕ}

theorem transmitted_eq (h : EchoNodeOK E) (hb : VirtioNet.Received b) (heap : ℕ → Block) (w : World)
    (netif : Netif) : transmitted (E.node heap w [⟨netif, b⟩]) =
      w.sent.map (fun x => (x.1, wire x.2)) ++
        (E.out (heap w.allocs) netif b).toList.map (fun l => (netif, l)) := by
  unfold transmitted EchoNode.out
  by_cases hreq : E.IsRequest b
  · rw [h.answers heap w netif b hb hreq, if_pos hreq]
    unfold Echo.answer Echo.reply
    cases VirtioNet.preXmit (E.echo.size b) (heap w.allocs) with
    | error p => simp [bind, Except.bind, Except.toOption]
    | ok r =>
      simp only [attempt_ok, bind, Except.bind]
      cases E.echo.build netif b r with
      | error p => simp [Except.toOption]
      | ok r' => simp [Except.toOption, World.xmit]
  · rw [h.ignores heap w netif b hb hreq, if_neg hreq]
    simp

/-- The transmitted frames are the same exactly if the answers are. -/
theorem transmitted_eq_iff (h : EchoNodeOK E) (hb : VirtioNet.Received b) (hb' : VirtioNet.Received b')
    (heap : ℕ → Block) (w : World) (netif : Netif) :
    transmitted (E.node heap w [⟨netif, b'⟩]) = transmitted (E.node heap w [⟨netif, b⟩]) ↔
      E.out (heap w.allocs) netif b' = E.out (heap w.allocs) netif b := by
  rw [h.transmitted_eq hb, h.transmitted_eq hb', List.append_cancel_left_eq]
  constructor
  · intro hmap
    have hinj : Function.Injective fun l : List UInt8 => (netif, l) := fun x y hxy => (Prod.mk.inj hxy).2
    have hlist := hinj.list_map hmap
    cases h1 : E.out (heap w.allocs) netif b' <;> cases h2 : E.out (heap w.allocs) netif b <;> simp_all
  · intro hout
    rw [hout]

/-- Nothing goes out for a packet that is no request, or claims an end behind the slice. -/
theorem out_none_iff (h : EchoNodeOK E) (hb : VirtioNet.Received b) (blk : Block) (netif : Netif) :
    E.out blk netif b = none ↔ (E.IsRequest b → b.sliceLen < E.echo.stop b) := by
  unfold EchoNode.out
  by_cases hreq : E.IsRequest b
  · rw [if_pos hreq]
    have hiff := h.echo.reply_iff hb blk netif
    cases hr : E.echo.reply blk netif b with
    | ok r =>
      have hle := hiff.1 ⟨r, hr⟩
      simp only [Except.toOption, Option.map_some, reduceCtorEq, false_iff]
      exact fun hlt => absurd (hlt hreq) (by omega)
    | error p =>
      have hlt : ¬ E.echo.stop b ≤ b.sliceLen := fun hle => by
        obtain ⟨r, hr'⟩ := hiff.2 hle
        rw [hr] at hr'
        cases hr'
      simp only [Except.toOption, Option.map_none, true_iff]
      exact fun _ => by omega
  · rw [if_neg hreq]
    exact ⟨fun _ hr => absurd hr hreq, fun _ => rfl⟩

/-- A request whose type was received is a request whatever the rest is. -/
theorem isRequest_of_agree (h : EchoNodeOK E) (hb : VirtioNet.Received b) (hreq : E.IsRequest b)
    (hagree : b.Agree n b') (hn : 12 + E.typeAt b < n) : E.IsRequest b' := by
  have hpos : b.position.toNat = 12 := by rw [hb.1]; rfl
  unfold EchoNode.IsRequest
  rw [(h.front n b b' hb hreq hagree hn).1, hagree.peek (by omega)]
  exact hreq

/-- **An answer is determined by the bytes it carries**, and the type. -/
theorem out_of_covered (h : EchoNodeOK E) (hb : VirtioNet.Received b) (hreq : E.IsRequest b)
    (hstop : E.echo.stop b ≤ b.sliceLen) (hcov : E.Covered n b) (hagree : b.Agree n b') (blk : Block)
    (netif : Netif) : E.out blk netif b' = E.out blk netif b := by
  obtain ⟨-, hsize, -⟩ := h.front n b b' hb hreq hagree hcov.1
  have hreq' := h.isRequest_of_agree hb hreq hagree hcov.1
  have hstop' : E.echo.stop b' = E.echo.stop b := congrArg UInt64.toNat hsize
  unfold EchoNode.out
  rw [if_pos hreq, if_pos hreq']
  obtain ⟨x, hx, hxpos, hxsize, -⟩ := h.echo.sent hb hstop blk netif
  obtain ⟨x', hx', -, hxsize', -⟩ := h.echo.sent (hagree.received hb) (by
    rw [hstop', hagree.sliceLen]; exact hstop) blk netif
  -- both are built in the same buffer
  obtain ⟨r, hr, hbuild⟩ := bind_eq_ok.1 hx
  obtain ⟨r', hr', hbuild'⟩ := bind_eq_ok.1 hx'
  rw [hsize, hr] at hr'
  obtain rfl := Except.ok.inj hr'
  have hsame := h.same n netif b b' r hb hreq hagree hcov x x' hbuild hbuild'
  have hx12 : x.position.toNat = 12 := by rw [hxpos]; rfl
  rw [hx, hx']
  simp only [Except.toOption, Option.map_some, Option.some.injEq]
  unfold wire
  rw [hxsize, hxsize', hstop']
  refine List.map_congr_left fun k hk => hsame.mem k ?_
  rw [List.mem_range] at hk
  omega

/-- A reply differs as soon as the type of the request or one of the bytes it carries
does. -/
theorem covered_of_out (h : EchoNodeOK E) (hb : VirtioNet.Received b) (hreq : E.IsRequest b)
    (hstop : E.echo.stop b ≤ b.sliceLen) {blk : Block} {netif : Netif}
    (hall : ∀ b', b.Agree n b' → E.out blk netif b' = E.out blk netif b) : E.Covered n b := by
  have hpos : b.position.toNat = 12 := by rw [hb.1]; rfl
  have hsome : E.out blk netif b ≠ none := by
    rw [Ne, h.out_none_iff hb]
    exact fun hlt => absurd (hlt hreq) (by omega)
  have htype : 12 + E.typeAt b < n := by
    by_contra hlt
    -- the same packet with another type gets no reply
    have hagree := (Buffer.Agree.refl n b).set (i := E.typeAt b) (by omega) (E.request + 1)
    refine hsome ((hall _ hagree).symm.trans ((h.out_none_iff (hagree.received hb) blk netif).2 fun hreq' => ?_))
    unfold EchoNode.IsRequest at hreq'
    rw [h.typeAt_set b _ hreq, Buffer.peek_set_self] at hreq'
    exact absurd hreq' (by simp)
  refine ⟨htype, fun j hj i hi => ?_⟩
  by_contra hlt
  -- another value of a carried byte goes out as well
  have hagree := (Buffer.Agree.refl n b).set (i := i) (by omega) (b.peek i + 1)
  have hrx' := hagree.received hb
  have hreq' := h.isRequest_of_agree hb hreq hagree htype
  obtain ⟨-, hsize, hsource⟩ := h.front n b _ hb hreq hagree htype
  have hstop' : E.echo.stop (b.set i (b.peek i + 1)) = E.echo.stop b := congrArg UInt64.toNat hsize
  obtain ⟨x, hx, hxpos, hxsize, hcarry⟩ := h.echo.sent hb hstop blk netif
  obtain ⟨x', hx', hxpos', -, hcarry'⟩ := h.echo.sent hrx' (by
    rw [hstop', hagree.sliceLen]; exact hstop) blk netif
  have hwire : wire x' = wire x := by
    have hout := hall _ hagree
    unfold EchoNode.out at hout
    rw [if_pos hreq, if_pos hreq', hx, hx'] at hout
    exact Option.some.inj hout
  have hmem := mem_of_wire_eq hwire (k := 12 + j) (by omega)
  have h1 : x.mem (12 + j) = b.peek i := by
    rw [← hcarry j hj i hi]
    unfold Buffer.peek
    rw [hxpos]
    rfl
  have h2 : x'.mem (12 + j) = b.peek i + 1 := by
    rw [← b.peek_set_self i (b.peek i + 1), ← hcarry' j (by omega) i (by rw [hsource]; exact hi)]
    unfold Buffer.peek
    rw [hxpos']
    rfl
  rw [h1, h2] at hmem
  exact absurd hmem (by simp)

/-- **A request that gets a reply**: the transmitted frames depend on the received bytes
only exactly if what the reply carries was received. -/
theorem transmitted_iff_covered (h : EchoNodeOK E) (hb : VirtioNet.Received b) (hreq : E.IsRequest b)
    (hstop : E.echo.stop b ≤ b.sliceLen) (n : ℕ) (heap : ℕ → Block) (w : World) (netif : Netif) :
    (∀ b', b.Agree n b' →
      transmitted (E.node heap w [⟨netif, b'⟩]) = transmitted (E.node heap w [⟨netif, b⟩])) ↔
    E.Covered n b := by
  rw [forall₂_congr fun b' hagree => h.transmitted_eq_iff hb (hagree.received hb) heap w netif]
  exact ⟨h.covered_of_out hb hreq hstop, fun hcov b' hagree =>
    h.out_of_covered hb hreq hstop hcov hagree _ _⟩

/-- **A request that gets no reply**: the transmitted frames depend on the received
bytes only exactly if no other content of the rest gets one. -/
theorem transmitted_iff_silent (h : EchoNodeOK E) (hb : VirtioNet.Received b)
    (hstop : b.sliceLen < E.echo.stop b) (n : ℕ) (heap : ℕ → Block) (w : World) (netif : Netif) :
    (∀ b', b.Agree n b' →
      transmitted (E.node heap w [⟨netif, b'⟩]) = transmitted (E.node heap w [⟨netif, b⟩])) ↔
    ∀ b', b.Agree n b' → E.IsRequest b' → b.sliceLen < E.echo.stop b' := by
  have hnone : E.out (heap w.allocs) netif b = none := (h.out_none_iff hb _ _).2 fun _ => hstop
  refine forall₂_congr fun b' hagree => ?_
  rw [h.transmitted_eq_iff hb (hagree.received hb), hnone, h.out_none_iff (hagree.received hb),
    hagree.sliceLen]

end EchoNodeOK

/-! ## ICMPv4 -/

namespace Icmpv4InLocal

def echoNode : EchoNode := ⟨echo, process, fun b => 14 + (headerLen b).toNat, 0x08⟩

variable {n : ℕ} {b b' : Buffer}

/-- A request does not claim a header length of zero: its first byte would have to be
its type as well. -/
theorem headerLen_pos (h : echoNode.IsRequest b) : 4 ≤ (headerLen b).toNat := by
  have hmul := headerLen_toNat b
  by_contra hlt
  have h0 : (headerLen b).toNat = 0 := by omega
  have htype : b.peek (14 + (headerLen b).toNat) = 0x08 := h
  rw [h0] at htype
  rw [h0, show b.peek 14 = 0x08 from htype] at hmul
  exact absurd hmul (by decide)

theorem headerLen_congr (h : b'.peek 14 = b.peek 14) : headerLen b' = headerLen b := by
  unfold headerLen
  rw [h]

theorem totalLen_congr (h1 : b'.peek 16 = b.peek 16) (h2 : b'.peek 17 = b.peek 17) :
    totalLen b' = totalLen b := by
  unfold totalLen
  rw [h1, h2]

/-- Everything in front of the type is received with it. -/
theorem front_eq (hb : VirtioNet.Received b) (hagree : b.Agree n b') (hn : 30 ≤ n) :
    headerLen b' = headerLen b ∧ length b' = length b := by
  have hpos : b.position.toNat = 12 := by rw [hb.1]; rfl
  have hh : headerLen b' = headerLen b := headerLen_congr (hagree.peek (by omega))
  refine ⟨hh, ?_⟩
  unfold length
  rw [hh, totalLen_congr (hagree.peek (by omega)) (hagree.peek (by omega))]

theorem ipv4Header_agree (hb : VirtioNet.Received b) (hagree : b.Agree n b') (hn : 30 ≤ n)
    (hcov : ∀ j < echo.stop b, ∀ i ∈ source b j, 12 + i < n) (k : ℕ) (hk : 14 + k < echo.stop b) :
    (ipv4Header b').getD k 0 = (ipv4Header b).getD k 0 := by
  have hpos : b.position.toNat = 12 := by rw [hb.1]; rfl
  have hlow : ∀ i < 18, b'.peek i = b.peek i := fun i hi => hagree.peek (by omega)
  have hsrc : ∀ i j, j < echo.stop b → i ∈ source b j → b'.peek i = b.peek i :=
    fun i j hj hi => hagree.peek (by have := hcov j hj i hi; omega)
  rcases Nat.lt_or_ge k 20 with hlt | hge
  · rcases Nat.lt_or_ge k 12 with hfixed | haddr
    · interval_cases k
      case «2» => exact hlow 16 (by omega)
      case «3» => exact hlow 17 (by omega)
      all_goals rfl
    · -- the addresses are carried
      interval_cases k <;> exact hsrc _ _ hk rfl
  · rw [List.getD_eq_default _ _ (by simpa [ipv4Header, leBytes] using hge),
      List.getD_eq_default _ _ (by simpa [ipv4Header, leBytes] using hge)]

theorem icmpHeader_agree (hb : VirtioNet.Received b) (hagree : b.Agree n b') (hn : 30 ≤ n)
    (hcov : ∀ j < echo.stop b, ∀ i ∈ source b j, 12 + i < n) (k : ℕ) (hk : 34 + k < echo.stop b) :
    (icmpHeader b').getD k 0 = (icmpHeader b).getD k 0 := by
  have hpos : b.position.toNat = 12 := by rw [hb.1]; rfl
  have hsrc : ∀ i j, j < echo.stop b → i ∈ source b j → b'.peek i = b.peek i :=
    fun i j hj hi => hagree.peek (by have := hcov j hj i hi; omega)
  unfold icmpHeader
  rw [(front_eq hb hagree hn).1]
  rcases Nat.lt_or_ge k 8 with hlt | hge
  · rcases Nat.lt_or_ge k 4 with hfixed | hcarried
    · interval_cases k <;> rfl
    · interval_cases k <;> exact hsrc _ _ hk rfl
  · rw [List.getD_eq_default _ _ (by simpa [leBytes] using hge),
      List.getD_eq_default _ _ (by simpa [leBytes] using hge)]

/-- **The reply is determined by the bytes it carries.** -/
theorem echoReply_same (netif : Netif) (r : Buffer) (hb : VirtioNet.Received b) (hagree : b.Agree n b')
    (hn : 30 ≤ n) (hcov : ∀ j < echo.stop b, ∀ i ∈ source b j, 12 + i < n) :
    Both (Buffer.SameTo (echo.stop b)) (echoReply netif b r) (echoReply netif b' r) := by
  have hpos : b.position.toNat = 12 := by rw [hb.1]; rfl
  have hstop : (14 + 20 + length b).toNat = echo.stop b := rfl
  have hhalf : ((14 + 20 + length b) / 2).toNat * 2 ≤ echo.stop b := by
    rw [UInt64.toNat_div, hstop]
    exact Nat.div_mul_le_self _ 2
  obtain ⟨hheader, hlength⟩ := front_eq hb hagree hn
  have hdata : ∀ j, 42 ≤ j → j < echo.stop b → b'.read j = b.read j := by
    intro j h1 h2
    have hj : source b j = some j := by
      unfold source
      rw [if_neg (by omega), if_neg (by omega), if_neg (by omega), if_pos h1]
    exact hagree.read (by have := hcov j h2 j hj; omega)
  have h₀ : r.SameTo (echo.stop b) r := .refl _ r
  unfold echoReply generateEtherHeader generateIpv4Header
  simp only [Ipv4Address.getArray_fromArray, hlength, hstop]
  -- the two replies, part by part
  refine (Both.of_eq (hagree.array (by omega))).bind ?_
  rintro mac _ rfl
  refine (h₀.overlay_same 0 _).bind fun r₁ r₁' h₁ => ?_
  refine (h₁.overlay (ipv4Header_agree hb hagree hn hcov) rfl).bind fun r₂ r₂' h₂ => ?_
  refine (h₂.overlay (icmpHeader_agree hb hagree hn hcov) rfl).bind fun r₃ r₃' h₃ => ?_
  refine (h₃.copyLoop hdata).bind fun r₄ r₄' h₄ => ?_
  refine (h₄.csumLoop 17 hhalf 0).bind ?_
  rintro c₁ _ rfl
  have h₅ := h₄.poke_same 36 (leBytes (csumField (csumFold c₁)))
  refine (h₅.csumLoop 7 hhalf 0).bind ?_
  rintro c₂ _ rfl
  exact (h₅.write 24 _).bind fun r₆ r₆' h₆ => h₆.write 25 _

theorem echoNode_ok : EchoNodeOK echoNode where
  echo := echo_ok
  answers heap w netif b hb hreq := by
    show process heap w [⟨netif, b⟩] = _
    unfold process
    rw [forEach_singleton]
    exact processFrame_echo heap w hb hreq
  ignores heap w netif b hb hreq := by
    have hlen := hb.sliceLen
    have hhdr := headerLen_le b
    show (process heap w [⟨netif, b⟩]).state.sent = _
    unfold process
    rw [forEach_singleton]
    unfold processFrame
    simp only [Buffer.read_ok (show 14 < b.sliceLen by omega),
      Buffer.read_ok (show 14 + (headerLen b).toNat < b.sliceLen by omega), attempt_ok]
    rw [if_neg (show ¬ b.peek (14 + (headerLen b).toNat) = 0x08 from hreq), Outcome.state_ok]
  front n b b' hb hreq hagree hn := by
    have hhdr := headerLen_pos hreq
    have hn' : 12 + (14 + (headerLen b).toNat) < n := hn
    obtain ⟨hheader, hlength⟩ := front_eq hb hagree (by omega)
    refine ⟨congrArg (fun x => 14 + x.toNat) hheader, congrArg (14 + 20 + ·) hlength, ?_⟩
    funext j
    show source b' j = source b j
    unfold source
    rw [hheader]
  typeAt_set b v hreq := by
    have hhdr := headerLen_pos hreq
    refine congrArg (fun x => 14 + x.toNat) (headerLen_congr (b.peek_set_of_ne ?_ v))
    show 14 ≠ 14 + (headerLen b).toNat
    omega
  same n netif b b' r hb hreq hagree hcov := by
    have hhdr := headerLen_pos hreq
    have hn' : 12 + (14 + (headerLen b).toNat) < n := hcov.1
    exact echoReply_same netif r hb hagree (by omega) hcov.2

/-- A request stays one with another total length. -/
theorem isRequest_set (hreq : echoNode.IsRequest b) {i : ℕ} (hi : i = 16 ∨ i = 17) (v : UInt8) :
    echoNode.IsRequest (b.set i v) ∧ headerLen (b.set i v) = headerLen b := by
  have hhdr : headerLen (b.set i v) = headerLen b := headerLen_congr (b.peek_set_of_ne (by omega) v)
  refine ⟨?_, hhdr⟩
  show (b.set i v).peek (14 + (headerLen (b.set i v)).toNat) = 0x08
  rw [hhdr, b.peek_set_of_ne (by have := headerLen_toNat b; omega)]
  exact hreq

/-- If the first byte of the total length is small enough, some second byte makes the
length one that gets a reply. -/
theorem exists_reply_set (hb : 4084 ≤ b.sliceLen) (hreq : echoNode.IsRequest b)
    (h : 34 + 256 * (b.peek 16).toNat ≤ b.sliceLen + (headerLen b).toNat) :
    ∃ y, echoNode.IsRequest (b.set 17 y) ∧ echo.stop (b.set 17 y) ≤ b.sliceLen := by
  have hhdr := headerLen_le b
  -- the header length itself, or any length with that first byte
  obtain ⟨y, h1, h2⟩ : ∃ y : UInt8, (headerLen b).toNat ≤ 256 * (b.peek 16).toNat + y.toNat ∧
      256 * (b.peek 16).toNat + y.toNat + 34 ≤ b.sliceLen + (headerLen b).toNat := by
    by_cases h0 : (b.peek 16).toNat = 0
    · refine ⟨UInt8.ofNat (headerLen b).toNat, ?_⟩
      rw [UInt8.toNat_ofNat', h0]
      omega
    · exact ⟨0, by omega, by simpa [add_comm] using h⟩
  obtain ⟨hreq', hheader⟩ := isRequest_set hreq (.inr rfl) y
  refine ⟨y, hreq', ?_⟩
  have htotal := totalLen_toNat (b.set 17 y)
  rw [b.peek_set_self, b.peek_set_of_ne (by omega)] at htotal
  rw [stop_eq (by rw [hheader]; omega), hheader]
  omega

/-- Whether a request that gets no reply would get one with other bytes behind the
received ones: not if its total length was received, or the first byte of it alone is
too large. -/
theorem silent_iff (hb : VirtioNet.Received b) (hreq : echoNode.IsRequest b)
    (hstop : b.sliceLen < echo.stop b) :
    (∀ b', b.Agree n b' → echoNode.IsRequest b' → b.sliceLen < echo.stop b') ↔
      30 ≤ n ∨ 29 ≤ n ∧ b.sliceLen + (headerLen b).toNat < 34 + 256 * (b.peek 16).toNat := by
  have hpos : b.position.toNat = 12 := by rw [hb.1]; rfl
  have hlen := hb.sliceLen
  have hhdr := headerLen_le b
  constructor
  · intro hall
    by_contra hn
    push Not at hn
    by_cases h29 : 29 ≤ n
    · obtain ⟨y, hreq', hle⟩ := exists_reply_set (by omega) hreq (hn.2 h29)
      exact absurd (hall _ ((Buffer.Agree.refl n b).set (by omega) y) hreq') (by omega)
    · -- both bytes of the length are free
      have hagree := (Buffer.Agree.refl n b).set (i := 16) (by omega) 0
      obtain ⟨hreq₁, hheader⟩ := isRequest_set hreq (.inl rfl) 0
      have hlen₁ := hagree.sliceLen
      obtain ⟨y, hreq', hle⟩ := exists_reply_set (b := b.set 16 0) (by omega) hreq₁ (by
        rw [b.peek_set_self]
        simp
        omega)
      exact absurd (hall _ (hagree.set (by omega) y) hreq') (by omega)
  · rintro (hn | ⟨hn, hbig⟩) b' hagree -
    · have hs : echo.stop b' = echo.stop b :=
        congrArg (fun x => (14 + 20 + x : UInt64).toNat) (front_eq hb hagree hn).2
      rw [hs]
      exact hstop
    · have hheader : headerLen b' = headerLen b := headerLen_congr (hagree.peek (by omega))
      have htotal := totalLen_toNat b'
      rw [hagree.peek (j := 16) (by omega)] at htotal
      rw [stop_eq (by rw [hheader]; omega), hheader]
      omega

end Icmpv4InLocal

/-! ## ICMPv6 -/

namespace Icmpv6InLocal

def echoNode : EchoNode := ⟨echo, process, fun _ => 54, 0x80⟩

variable {n : ℕ} {b b' : Buffer}

theorem length_congr (h1 : b'.peek 18 = b.peek 18) (h2 : b'.peek 19 = b.peek 19) : length b' = length b := by
  unfold length
  rw [h1, h2]

theorem pseudoHeader_congr (hpos : b.position.toNat = 12) (hagree : b.Agree n b') (hn : 67 ≤ n)
    (hlength : length b' = length b) : pseudoHeader b' = pseudoHeader b := by
  have hsum : ∀ i ∈ List.range 8, ∀ csum : UInt32,
      csum + ((b'.peek (22 + i * 2)).toUInt32 <<< 8 ||| (b'.peek (22 + i * 2 + 1)).toUInt32) =
      csum + ((b.peek (22 + i * 2)).toUInt32 <<< 8 ||| (b.peek (22 + i * 2 + 1)).toUInt32) := by
    intro i hi csum
    rw [List.mem_range] at hi
    rw [hagree.peek (by omega), hagree.peek (by omega)]
  unfold pseudoHeader
  simp only [hlength]
  rw [List.foldl_ext _ _ _ fun csum i hi => hsum i hi csum]

/-- **The reply is determined by the bytes it carries.** -/
theorem echoReply_same (netif : Netif) (r : Buffer) (hb : VirtioNet.Received b) (hagree : b.Agree n b')
    (hn : 67 ≤ n) (hcov : ∀ j < echo.stop b, ∀ i ∈ source b j, 12 + i < n) :
    Both (Buffer.SameTo (echo.stop b)) (echoReply netif b r) (echoReply netif b' r) := by
  have hpos : b.position.toNat = 12 := by rw [hb.1]; rfl
  have hstop : (14 + 40 + length b).toNat = echo.stop b := rfl
  have hhalf : ((14 + 40 + length b) / 2).toNat * 2 ≤ echo.stop b := by
    rw [UInt64.toNat_div, hstop]
    exact Nat.div_mul_le_self _ 2
  have hlength : length b' = length b := length_congr (hagree.peek (by omega)) (hagree.peek (by omega))
  have hdata : ∀ j, 55 ≤ j → j ≠ 56 → j ≠ 57 → j < echo.stop b → 12 + j < n := by
    intro j h1 h2 h3 h4
    exact hcov j h4 j (if_pos (by omega))
  have hicmp : ∀ k, 54 + k < echo.stop b →
      ([0x81, b'.peek 55] ++ leBytes 0 ++ [b'.peek 58, b'.peek 59, b'.peek 60, b'.peek 61]).getD k 0 =
        ([0x81, b.peek 55] ++ leBytes 0 ++ [b.peek 58, b.peek 59, b.peek 60, b.peek 61]).getD k 0 := by
    intro k hk
    rcases Nat.lt_or_ge k 8 with hlt | hge
    · interval_cases k
      all_goals first
        | rfl
        | exact hagree.peek (by have := hdata _ (by omega) (by omega) (by omega) hk; omega)
    · rw [List.getD_eq_default _ _ (by simpa [leBytes] using hge),
        List.getD_eq_default _ _ (by simpa [leBytes] using hge)]
  have h₀ : r.SameTo (echo.stop b) r := .refl _ r
  unfold echoReply generateEtherHeader generateIpv6Header
  simp only [hlength, hstop, pseudoHeader_congr hpos hagree hn hlength,
    hagree.field (i := 18) (N := 2) (by omega), hagree.field (i := 22) (N := 16) (by omega)]
  refine (Both.of_eq (hagree.array (by omega))).bind ?_
  rintro mac _ rfl
  refine (h₀.overlay_same 0 _).bind fun r₁ r₁' h₁ => ?_
  refine (h₁.overlay_same 14 _).bind fun r₂ r₂' h₂ => ?_
  refine (h₂.overlay hicmp rfl).bind fun r₃ r₃' h₃ => ?_
  refine (h₃.copyLoop fun j h1 h2 => hagree.read (by
    have := hdata j (by omega) (by omega) (by omega) h2; omega)).bind fun r₄ r₄' h₄ => ?_
  refine (h₄.csumLoop 27 hhalf _).bind ?_
  rintro c _ rfl
  exact .ok (h₄.poke_same 56 _)

/-- A neighbor advertisement is not answered. -/
theorem neighborAdvertisement_sent (w : World) (f : DataFromNetif) :
    (neighborAdvertisement w f).state.sent = w.sent := by
  obtain ⟨p, hp⟩ := neighborAdvertisement_panics w f
  rw [hp, Outcome.state_panic]

theorem echoNode_ok : EchoNodeOK echoNode where
  echo := echo_ok
  answers heap w netif b hb hreq := by
    show process heap w [⟨netif, b⟩] = _
    unfold process
    rw [forEach_singleton]
    exact processFrame_echo heap w hb hreq
  ignores heap w netif b hb hreq := by
    have hlen := hb.sliceLen
    show (process heap w [⟨netif, b⟩]).state.sent = _
    unfold process
    rw [forEach_singleton]
    unfold processFrame
    simp only [Buffer.read_ok (show 14 < b.sliceLen by omega),
      Buffer.read_ok (show 54 < b.sliceLen by omega), attempt_ok]
    rw [if_neg (show ¬ b.peek 54 = 0x80 from hreq)]
    split
    · exact neighborAdvertisement_sent w _
    · rfl
  front n b b' hb hreq hagree hn := by
    have hpos : b.position.toNat = 12 := by rw [hb.1]; rfl
    have hn' : 12 + 54 < n := hn
    exact ⟨rfl, congrArg (14 + 40 + ·) (length_congr (hagree.peek (by omega)) (hagree.peek (by omega))), rfl⟩
  typeAt_set b v hreq := rfl
  same n netif b b' r hb hreq hagree hcov := echoReply_same netif r hb hagree hcov.1 hcov.2

theorem isRequest_set (hreq : echoNode.IsRequest b) {i : ℕ} (hi : i = 18 ∨ i = 19) (v : UInt8) :
    echoNode.IsRequest (b.set i v) :=
  (b.peek_set_of_ne (show 54 ≠ i by omega) v).trans hreq

/-- As for ICMPv4, with the payload length. -/
theorem silent_iff (hb : VirtioNet.Received b) (hreq : echoNode.IsRequest b)
    (hstop : b.sliceLen < echo.stop b) :
    (∀ b', b.Agree n b' → echoNode.IsRequest b' → b.sliceLen < echo.stop b') ↔
      32 ≤ n ∨ 31 ≤ n ∧ b.sliceLen < 54 + 256 * (b.peek 18).toNat := by
  have hpos : b.position.toNat = 12 := by rw [hb.1]; rfl
  have hlen := hb.sliceLen
  constructor
  · intro hall
    by_contra hn
    push Not at hn
    by_cases h31 : 31 ≤ n
    · have hlt := hall _ ((Buffer.Agree.refl n b).set (i := 19) (by omega) 0) (isRequest_set hreq (.inr rfl) 0)
      have hle := hn.2 h31
      rw [stop_eq, length_toNat, b.peek_set_self, b.peek_set_of_ne (by omega)] at hlt
      simp at hlt
      omega
    · -- both bytes of the length are free
      have hagree := ((Buffer.Agree.refl n b).set (i := 18) (by omega) 0).set (i := 19) (by omega) 0
      have hlt := hall _ hagree (isRequest_set (isRequest_set hreq (.inl rfl) 0) (.inr rfl) 0)
      rw [stop_eq, length_toNat, Buffer.peek_set_self, Buffer.peek_set_of_ne _ (by omega),
        Buffer.peek_set_self] at hlt
      simp at hlt
      omega
  · rintro (hn | ⟨hn, hbig⟩) b' hagree -
    · rw [stop_eq, length_congr (hagree.peek (by omega)) (hagree.peek (by omega)), ← stop_eq]
      exact hstop
    · rw [stop_eq, length_toNat, hagree.peek (j := 18) (by omega)]
      omega

end Icmpv6InLocal

/-! ## Both handlers -/

/-- What has to be received of an ICMPv4 echo request:
* if it gets a reply, of as many bytes as its lengths claim: its type, and all its
  bytes that the reply carries;
* if it gets none: its total length, or the first byte of it, if that alone claims an
  end behind the slice. -/
def Icmpv4InLocal.Enough (n : ℕ) (b : Buffer) : Prop :=
  if (headerLen b).toNat ≤ (totalLen b).toNat + 34 ∧
      (totalLen b).toNat + 34 - (headerLen b).toNat ≤ b.sliceLen then
    26 + (headerLen b).toNat < n ∧
      ∀ j < (totalLen b).toNat + 34 - (headerLen b).toNat, ∀ i ∈ source b j, 12 + i < n
  else 30 ≤ n ∨ 29 ≤ n ∧ b.sliceLen + (headerLen b).toNat < 34 + 256 * (b.peek 16).toNat

/-- What has to be received of an ICMPv6 echo request. -/
def Icmpv6InLocal.Enough (n : ℕ) (b : Buffer) : Prop :=
  if 54 + (length b).toNat ≤ b.sliceLen then
    66 < n ∧ ∀ j < 54 + (length b).toNat, ∀ i ∈ source b j, 12 + i < n
  else 32 ≤ n ∨ 31 ≤ n ∧ b.sliceLen < 54 + 256 * (b.peek 18).toNat

/-- **When a reply discloses bytes that were not received.** For a received frame of
any content, of which the first `n` bytes arrived, and which the buffer's content
makes an echo request: the transmitted frames are the same for all contents of the
rest of the buffer if and only if enough of the request was received. -/
theorem echo_discloses_iff (heap : ℕ → Block) (w : World) (netif : Netif) {b : Buffer}
    (hb : VirtioNet.Received b) (n : ℕ) :
    (b.peek (14 + (Icmpv4InLocal.headerLen b).toNat) = 0x08 →
      ((∀ b', b.Agree n b' → transmitted (Icmpv4InLocal.process heap w [⟨netif, b'⟩]) =
          transmitted (Icmpv4InLocal.process heap w [⟨netif, b⟩])) ↔ Icmpv4InLocal.Enough n b)) ∧
    (b.peek 54 = 0x80 →
      ((∀ b', b.Agree n b' → transmitted (Icmpv6InLocal.process heap w [⟨netif, b'⟩]) =
          transmitted (Icmpv6InLocal.process heap w [⟨netif, b⟩])) ↔ Icmpv6InLocal.Enough n b)) := by
  have hlen := hb.sliceLen
  constructor
  · intro hreq
    unfold Icmpv4InLocal.Enough
    have hiff := Icmpv4InLocal.stop_le_iff (b := b) (by omega)
    by_cases hstop : Icmpv4InLocal.echo.stop b ≤ b.sliceLen
    · have hle := hiff.1 hstop
      rw [if_pos hle, ← Icmpv4InLocal.stop_eq hle.1, show 26 = 12 + 14 by rfl, add_assoc]
      exact Icmpv4InLocal.echoNode_ok.transmitted_iff_covered hb hreq hstop n heap w netif
    · have hlt : b.sliceLen < Icmpv4InLocal.echo.stop b := by omega
      rw [if_neg fun h => hstop (hiff.2 h), ← Icmpv4InLocal.silent_iff hb hreq hlt]
      exact Icmpv4InLocal.echoNode_ok.transmitted_iff_silent hb hlt n heap w netif
  · intro hreq
    unfold Icmpv6InLocal.Enough
    rw [← Icmpv6InLocal.stop_eq]
    by_cases hstop : Icmpv6InLocal.echo.stop b ≤ b.sliceLen
    · rw [if_pos hstop]
      exact Icmpv6InLocal.echoNode_ok.transmitted_iff_covered hb hreq hstop n heap w netif
    · have hlt : b.sliceLen < Icmpv6InLocal.echo.stop b := by omega
      rw [if_neg hstop, ← Icmpv6InLocal.silent_iff hb hreq hlt]
      exact Icmpv6InLocal.echoNode_ok.transmitted_iff_silent hb hlt n heap w netif

/-- A ping that was received whole is answered the same whatever is behind it. -/
theorem echo_discloses_ping :
    transmitted (Icmpv4InLocal.process pages World.empty [pingFrame [100, 101, 102, 103, 7]]) =
      transmitted (Icmpv4InLocal.process pages World.empty [pingFrame [100, 101, 102, 103]]) := by
  have hb : VirtioNet.Received (pingFrame [100, 101, 102, 103]).buffer :=
    DataFromNetif.ofBytes_received _ _
  have hagree : ∀ k : Fin 58, (pingFrame [100, 101, 102, 103, 7]).buffer.mem k =
      (pingFrame [100, 101, 102, 103]).buffer.mem k := by decide +kernel
  obtain ⟨h, -⟩ := echo_discloses_iff pages World.empty ⟨0, .new ![2, 0, 0, 0, 0, 1]⟩ hb 58
  refine (h (by decide +kernel)).2 ?_ _ ⟨⟨rfl, rfl, rfl, rfl⟩, fun k hk => hagree ⟨k, hk⟩⟩
  unfold Icmpv4InLocal.Enough
  decide +kernel

/-- **A request of which only the headers were received.** The four bytes of data the
reply carries are what the buffer held before. -/
theorem stale_bytes_sent : VirtioNet.Received (pingFrame []).buffer ∧
    (pingFrame []).buffer.peek (14 + (Icmpv4InLocal.headerLen (pingFrame []).buffer).toNat) = 0x08 ∧
    (pingFrame []).buffer.Agree 54 (pingFrame [100, 101, 102, 103]).buffer ∧
    transmitted (Icmpv4InLocal.process pages World.empty [pingFrame [100, 101, 102, 103]]) ≠
      transmitted (Icmpv4InLocal.process pages World.empty [pingFrame []]) := by
  refine ⟨DataFromNetif.ofBytes_received _ _, by decide +kernel, ⟨⟨rfl, rfl, rfl, rfl⟩, ?_⟩,
    by decide +kernel⟩
  have h : ∀ k : Fin 54, (pingFrame [100, 101, 102, 103]).buffer.mem k = (pingFrame []).buffer.mem k := by
    decide +kernel
  exact fun k hk => h ⟨k, hk⟩

end Urchin
