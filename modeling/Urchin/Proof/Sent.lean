import Urchin.Proof.Ethernet

/-!
# What the nodes have in common

`ethernetIn_leaves` reduces a property of a whole batch to the four things that touch the
state: a source address learnt, an ARP packet, an ICMP packet of either version. The log
of frames handed to the transmit queues only grows (`ethernetIn_sent`).
-/

namespace Urchin

open Exec

/-- One frame changes nothing but the MAC table, if anything. -/
theorem EthernetIn.processFrame_world (s : EthernetIn.LoopState) (f : DataFromNetif) :
    (EthernetIn.processFrame s f).state.world = s.world ∨
      (EthernetIn.processFrame s f).state.world = EthernetIn.learn s.world f := by
  unfold EthernetIn.processFrame attempt
  cases f.buffer.read 0 with
  | error p => exact .inl rfl
  | ok v =>
    right
    simp only
    split
    · rw [Outcome.state_ok, EthernetIn.procFrame_world]
      rfl
    · split
      · split
        · rw [Outcome.state_ok, EthernetIn.procFrame_world]
          rfl
        · rfl
      · rfl

section

variable {P : World → Prop}

theorem ProcessingNode.call_inv {node : ProcessingNode} {w : World} {b : List DataFromNetif}
    (h : P w → P (node w b).state) (hw : P w) : P (node.call w b).state := by
  unfold ProcessingNode.call
  split
  · exact h hw
  · exact hw

variable {icmpIn : ProcessingNode} (h : ∀ w b, P w → P (icmpIn w b).state)

include h

theorem IpLoopState.handOver_inv {s : IpLoopState} (hs : P s.world) : P (s.handOver icmpIn).state.world := by
  have hcall := ProcessingNode.call_inv (b := s.icmpPkts) (h s.world s.icmpPkts) hs
  unfold IpLoopState.handOver
  split
  · rename_i w hw
    rw [hw] at hcall
    exact hcall
  · rename_i p w hw
    rw [hw] at hcall
    exact hcall

/-- The IP nodes keep what the node behind them keeps. -/
theorem Ipv4In.process_inv {w : World} (b : List DataFromNetif) (hw : P w) :
    P (Ipv4In.process icmpIn w b).state := by
  unfold Ipv4In.process
  rw [IpLoopState.finish_state]
  refine forEach_inv (P := fun s : IpLoopState => P s.world) b (fun f _ s hs => ?_) ⟨w, []⟩ hw
  unfold Ipv4In.processFrame
  refine attempt_inv (P := fun s : IpLoopState => P s.world) hs fun v _ => ?_
  simp only
  split
  · exact hs
  · refine IpLoopState.handOver_inv h ?_
    -- whatever is collected, the state is the same
    split
    · split
      · split
        · exact hs
        · exact hs
      all_goals exact hs
    · exact hs

theorem Ipv6In.process_inv {w : World} (b : List DataFromNetif) (hw : P w) :
    P (Ipv6In.process icmpIn w b).state := by
  unfold Ipv6In.process
  rw [IpLoopState.finish_state]
  refine forEach_inv (P := fun s : IpLoopState => P s.world) b (fun f _ s hs => ?_) ⟨w, []⟩ hw
  unfold Ipv6In.processFrame
  refine attempt_inv (P := fun s : IpLoopState => P s.world) hs fun v _ => ?_
  simp only
  split
  · exact hs
  · refine attempt_inv (P := fun s : IpLoopState => P s.world) hs fun found _ => ?_
    refine IpLoopState.handOver_inv h ?_
    split
    · split
      · split
        · exact hs
        · exact hs
      all_goals exact hs
    · exact hs

end

/-- **Invariant rule for a batch, from the leaves of the graph.** -/
theorem ethernetIn_leaves {P : World → Prop} (heap : ℕ → Block) (buff : List DataFromNetif)
    (hmac : ∀ f w, P w → P (EthernetIn.learn w f))
    (harp : ∀ f w, P w → P (ArpIn.processFrame heap w f).state)
    (h4 : ∀ f w, P w → P (Icmpv4InLocal.processFrame heap w f).state)
    (h6 : ∀ f w, P w → P (Icmpv6InLocal.processFrame heap w f).state) {w : World} (hw : P w) :
    P (ethernetIn heap w buff).state := by
  have hloop : P (forEach EthernetIn.processFrame ⟨w, [], [], []⟩ buff).state.world := by
    refine forEach_inv (P := fun s : EthernetIn.LoopState => P s.world) buff (fun f _ s hs => ?_) _ hw
    rcases EthernetIn.processFrame_world s f with he | he
    · rw [he]
      exact hs
    · rw [he]
      exact hmac f s.world hs
  have hicmp4 : ∀ w b, P w → P (Icmpv4InLocal.process heap w b).state := fun w b hw =>
    forEach_inv b (fun f _ w hw => h4 f w hw) w hw
  have hicmp6 : ∀ w b, P w → P (Icmpv6InLocal.process heap w b).state := fun w b hw =>
    forEach_inv b (fun f _ w hw => h6 f w hw) w hw
  unfold ethernetIn EthernetIn.process
  split
  · rename_i p s hs
    rw [hs] at hloop
    exact hloop
  · rename_i s hs
    rw [hs] at hloop
    refine Outcome.bind_inv (Outcome.bind_inv ?_ fun w hw => ?_) fun w hw => ?_
    · exact ProcessingNode.call_inv (fun hw => forEach_inv s.arpPkts (fun f _ w hw => harp f w hw) _ hw) hloop
    · exact ProcessingNode.call_inv (Ipv4In.process_inv hicmp4 _) hw
    · exact ProcessingNode.call_inv (Ipv6In.process_inv hicmp6 _) hw

/-- What was sent stays sent, also when a later frame makes the kernel panic. -/
theorem ethernetIn_sent (heap : ℕ → Block) (w : World) (buff : List DataFromNetif) :
    w.sent <+: (ethernetIn heap w buff).state.sent := by
  refine ethernetIn_leaves (P := fun w' => w.sent <+: w'.sent) heap buff (fun _ _ h => h) ?_ ?_ ?_ List.prefix_rfl
  · intro f w' h
    unfold ArpIn.processFrame
    refine attempt_inv (P := fun w' : World => w.sent <+: w'.sent) h fun _ _ => ?_
    simp only
    split
    · split
      · split
        · unfold ArpIn.reply
          refine attempt_inv (P := fun w' : World => w.sent <+: w'.sent) h fun _ _ => ?_
          refine attempt_inv (P := fun w' : World => w.sent <+: w'.sent) h fun _ _ => ?_
          exact h.trans (List.prefix_append _ _)
        · exact h
      · exact h
    · exact h
  · intro f w' h
    unfold Icmpv4InLocal.processFrame
    refine attempt_inv (P := fun w' : World => w.sent <+: w'.sent) h fun _ _ => ?_
    refine attempt_inv (P := fun w' : World => w.sent <+: w'.sent) h fun _ _ => ?_
    split
    · refine attempt_inv (P := fun w' : World => w.sent <+: w'.sent) h fun _ _ => ?_
      refine attempt_inv (P := fun w' : World => w.sent <+: w'.sent) h fun _ _ => ?_
      exact h.trans (List.prefix_append _ _)
    · exact h
  · intro f w' h
    unfold Icmpv6InLocal.processFrame
    refine attempt_inv (P := fun w' : World => w.sent <+: w'.sent) h fun _ _ => ?_
    refine attempt_inv (P := fun w' : World => w.sent <+: w'.sent) h fun _ _ => ?_
    split
    · refine attempt_inv (P := fun w' : World => w.sent <+: w'.sent) h fun _ _ => ?_
      refine attempt_inv (P := fun w' : World => w.sent <+: w'.sent) h fun _ _ => ?_
      exact h.trans (List.prefix_append _ _)
    · split
      · obtain ⟨p, hp⟩ := Icmpv6InLocal.neighborAdvertisement_panics w' f
        rw [hp]
        exact h
      · exact h

end Urchin
