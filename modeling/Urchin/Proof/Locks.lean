import Urchin.Spec.Locks

/-!
# The kernel's locks do not deadlock

Every function takes its locks in the order of `KernelLock.rank`, one lemma a function;
`KernelLock.no_deadlock` is what the order gives for any number of processors.
-/

namespace Urchin

open Locking Code

namespace KernelLock

theorem rank_le (l : KernelLock) : rank l ≤ 6 := by
  cases l <;> simp [rank]

theorem ranked_all {low : ℕ} {l : List (Code KernelLock)} (h : ∀ a ∈ l, a.Ranked rank low) : (all l).Ranked rank low := by
  induction l with
  | nil => trivial
  | cons a l ih => exact ⟨h a List.mem_cons_self, ih fun b hb => h b (List.mem_cons_of_mem _ hb)⟩

theorem ranked_heap {low : ℕ} (h : low ≤ 6) : heap.Ranked rank low := ⟨h, trivial⟩

/-- A guard under which only the heap is used. -/
theorem ranked_guard {low : ℕ} {l : KernelLock} (h : low ≤ rank l) (hl : rank l < 6) :
    (Code.locked l heap).Ranked rank low := ⟨h, ranked_heap hl⟩

theorem ranked_registerIpv4Adjacent : registerIpv4Adjacent.Ranked rank 3 := ranked_guard (le_refl 3) (by decide)

theorem ranked_registerIpv6Adjacent : registerIpv6Adjacent.Ranked rank 3 := ranked_guard (le_refl 3) (by decide)

theorem ranked_registerMacaddress : registerMacaddress.Ranked rank 2 := ranked_guard (le_refl 2) (by decide)

theorem ranked_xmit (netif : ℕ) : (xmit netif).Ranked rank 4 := by
  refine ⟨le_refl 4, ranked_heap (by simp [rank]), Ranked.maybe ?_⟩
  exact ⟨le_refl 5, trivial⟩

theorem ranked_reply : reply.Ranked rank 4 := fun netif => ⟨ranked_heap (by decide), ranked_xmit netif⟩

theorem ranked_fillRxQueue (netif : ℕ) : (fillRxQueue netif).Ranked rank 4 := by
  refine ⟨le_refl 4, Ranked.maybe ⟨ranked_heap (by simp [rank]), ?_⟩⟩
  exact ⟨le_refl 5, trivial⟩

/-- The table comes before the queue that the reply goes to. -/
theorem ranked_arpIn : arpIn.Ranked rank 3 := by
  apply ranked_all
  intro a ha
  simp only [List.mem_cons, List.not_mem_nil, or_false] at ha
  rcases ha with rfl | rfl | rfl
  · exact ranked_heap (by decide)
  · exact ranked_registerIpv4Adjacent
  · exact ⟨le_refl 3, Ranked.maybe ranked_reply⟩

theorem ranked_icmpv4InLocal : icmpv4InLocal.Ranked rank 3 := Ranked.maybe (ranked_reply.mono (by decide))

theorem ranked_ipv4In : ipv4In.Ranked rank 3 :=
  ⟨ranked_heap (by decide), ranked_heap (by decide), Ranked.maybe ranked_icmpv4InLocal⟩

theorem ranked_icmpv6InLocal : icmpv6InLocal.Ranked rank 3 := by
  refine Ranked.maybe (Ranked.either (ranked_reply.mono (by decide)) ⟨?_, ranked_registerIpv6Adjacent⟩)
  exact ranked_heap (by decide)

theorem ranked_ipv6In : ipv6In.Ranked rank 3 :=
  ⟨ranked_heap (by decide), ranked_heap (by decide), Ranked.maybe ranked_icmpv6InLocal⟩

theorem ranked_ethernetIn : ethernetIn.Ranked rank 2 := by
  apply ranked_all
  intro a ha
  simp only [List.mem_cons, List.not_mem_nil, or_false] at ha
  rcases ha with rfl | rfl | rfl | rfl | rfl | rfl
  · exact ranked_heap (by decide)
  · exact ⟨ranked_registerMacaddress, ranked_guard (le_refl 2) (by decide)⟩
  · exact Ranked.maybe (ranked_arpIn.mono (by decide))
  · exact Ranked.maybe (ranked_ipv4In.mono (by decide))
  · exact Ranked.maybe (ranked_ipv6In.mono (by decide))
  · exact ranked_heap (by decide)

/-- No lock is held from one stage of the handler to the next. -/
theorem ranked_interruptHandler (netif : ℕ) : (interruptHandler netif).Ranked rank 2 := by
  refine ⟨⟨by simp [rank], trivial⟩, Ranked.maybe (ranked_all fun a ha => ?_)⟩
  simp only [List.mem_cons, List.not_mem_nil, or_false] at ha
  rcases ha with rfl | rfl | rfl | rfl | rfl
  · exact (ranked_fillRxQueue netif).mono (by decide)
  · exact ranked_guard (by simp [rank]) (by simp [rank])
  · exact ranked_heap (by decide)
  · exact Ranked.maybe ranked_ethernetIn
  · exact ranked_heap (by decide)

theorem ranked_checkTimerfutures : checkTimerfutures.Ranked rank 1 := by
  refine ⟨Ranked.maybe fun timer => ?_, ranked_heap (by decide)⟩
  exact ranked_guard (le_refl 1) (by simp [rank])

theorem ranked_taskPoll : taskPoll.Ranked rank 1 := by
  refine ⟨ranked_heap (by decide), fun timer => Ranked.maybe ?_⟩
  exact ranked_guard (le_refl 1) (by simp [rank])

theorem ranked_run : run.Ranked rank 0 :=
  ⟨fun _ => ⟨le_refl 0, Ranked.maybe ranked_taskPoll⟩, ranked_heap (by decide)⟩

/-- **All that the kernel does takes its locks in one order.** -/
theorem ranked_kernel : kernel.Ranked rank 0 := by
  refine Ranked.either ranked_run (Ranked.either ?_ fun netif => ?_)
  · exact ranked_checkTimerfutures.mono (Nat.zero_le 1)
  · exact (ranked_interruptHandler netif).mono (Nat.zero_le 2)

/-- **No deadlock.** Any number of contexts, on processors of their own, each with any run
of the kernel's code (the executor, the timer's interrupts, the interrupts of any
interfaces, in any order), interleaved in any way: in every state that is reached
* a lock has one holder at most, and nobody waits for a lock of its own;
* as long as somebody is not done, somebody can go on;
* who is done holds no lock. -/
theorem no_deadlock {ι : Type*} [DecidableEq ι] {runs : ι → List (Locking.Event KernelLock)}
    (hruns : ∀ i, Runs kernel (runs i)) {s : System ι KernelLock} (h : (System.start runs).Reaches s) :
    (∀ i j l, l ∈ s.held i → l ∈ s.held j → i = j) ∧
    (∀ i l t, s.todo i = .take l :: t → l ∉ s.held i) ∧
    ((∃ i, s.todo i ≠ []) → ∃ s', s.Step s') ∧
    ∀ i, s.todo i = [] → s.held i = [] := by
  have hstart : SystemOK rank (System.start runs) := by
    refine .start fun i => ?_
    have hord : Ordered rank [] (runs i ++ []) :=
      (hruns i).ordered ranked_kernel (fun _ hk => absurd hk List.not_mem_nil) rfl
    rwa [List.append_nil] at hord
  have hok := hstart.reach h
  exact ⟨hok.alone, fun i l t => hok.not_self, hok.progress rank_le, fun i => hok.done⟩

/-- An interrupt that is not for the device. -/
theorem runs_other : Runs kernel [.take (.virtio 0), .release (.virtio 0)] := by
  have hguard : Runs (.locked (virtio 0) .skip) [.take (virtio 0), .release (virtio 0)] := .locked .skip
  have hhandler : Runs (interruptHandler 0) ([.take (virtio 0), .release (virtio 0)] ++ []) :=
    .seq hguard (.right .skip)
  exact .again (.right (.right (.any 0 hhandler))) .done

/-- Of two processors with an interrupt of the same device, one waits for the other. -/
theorem no_deadlock_two : ∃ s : System (Fin 2) KernelLock, .virtio 0 ∈ s.held 0 ∧
    s.todo 1 = [.take (.virtio 0), .release (.virtio 0)] ∧ .virtio 0 ∉ s.held 1 ∧ ∃ s', s.Step s' := by
  have hstep := System.Step.take (s := System.start fun _ : Fin 2 => [.take (KernelLock.virtio 0), .release (.virtio 0)])
    (i := 0) rfl fun _ => List.not_mem_nil
  obtain ⟨-, hself, hgo, -⟩ := no_deadlock (fun _ => runs_other) (.single hstep)
  exact ⟨_, List.mem_cons_self, rfl, hself 1 _ _ rfl, hgo ⟨1, by simp [System.start]⟩⟩

end KernelLock

end Urchin
