import Mathlib

/-!
# Code that may panic

Two shapes of it. `Except Panic α` is a computation whose state is thrown away
when it panics. `Outcome σ` keeps the state in both cases: a kernel that panics
halts with its tables as they were at that moment, so a statement about every
state of a run also has to hold there.

* `attempt`: the first kind called from the second.
* `forRange`: the loop `for i in lo..hi` with a body that may panic.
* `forEach`: the loop `for x in list` over a kept state.
* `forRange_ok`, `forRange_inv`, `forEach_ok`, `forEach_inv`: their invariant rules.
* `attempt_key`, `forEach_key`: a part of the state that nothing changes.
* `Both`: two computations of the first kind side by side, with its rules.
* `reached`: the elements a `forEach` gets to before it panics, with an exact rule
  (`forEach_iff`).
* `concat_split`: where an event stands in a history that has grown.
* `Reach`: the states of a system whose steps may panic, with its invariant rule.
-/

namespace Urchin.Exec

/-- Why a computation stopped: an index outside its slice, or an explicit
`panic!` with its text. -/
inductive Panic where
  | bounds
  | explicit (msg : String)
  deriving DecidableEq, Repr

/-- How a piece of stateful code ended, with the state it left. -/
inductive Outcome (σ : Type*) where
  | ok (s : σ)
  | panic (p : Panic) (s : σ)

variable {σ α : Type*}

/-- The state left behind, whichever way the code ended. -/
def Outcome.state : Outcome σ → σ
  | .ok s => s
  | .panic _ s => s

/-- The code ran to its end. -/
def Outcome.isOk : Outcome σ → Bool
  | .ok _ => true
  | .panic _ _ => false

/-- Sequencing: what follows a panic is not executed. -/
def Outcome.bind (o : Outcome σ) (f : σ → Outcome σ) : Outcome σ :=
  match o with
  | .ok s => f s
  | .panic p s => .panic p s

/-- A computation whose own state does not matter, in the middle of stateful code:
if it panics, the code stops in the state `s` it was called from. -/
def attempt (s : σ) (e : Except Panic α) (k : α → Outcome σ) : Outcome σ :=
  match e with
  | .ok a => k a
  | .error p => .panic p s

/-- The loop `for x in list`. -/
def forEach (f : σ → α → Outcome σ) : σ → List α → Outcome σ
  | s, [] => .ok s
  | s, x :: xs => (f s x).bind fun s' => forEach f s' xs

/-- `n` rounds of a loop body, from index `i` on. -/
def rounds (f : ℕ → σ → Except Panic σ) : ℕ → ℕ → σ → Except Panic σ
  | 0, _, s => .ok s
  | n + 1, i, s => (f i s).bind (rounds f n (i + 1))

/-- The loop `for i in lo..hi`; no round at all when `hi ≤ lo`. -/
def forRange (lo hi : ℕ) (f : ℕ → σ → Except Panic σ) (s : σ) : Except Panic σ :=
  rounds f (hi - lo) lo s

@[simp] theorem Outcome.state_ok (s : σ) : (Outcome.ok s).state = s := rfl

@[simp] theorem Outcome.state_panic (p : Panic) (s : σ) : (Outcome.panic p s).state = s := rfl

theorem Outcome.eq_ok_of_isOk {o : Outcome σ} (h : o.isOk = true) : o = .ok o.state := by
  cases o with
  | ok s => rfl
  | panic p s => cases h

@[simp] theorem Outcome.bind_ok (s : σ) (f : σ → Outcome σ) : (Outcome.ok s).bind f = f s := rfl

@[simp] theorem Outcome.bind_panic (p : Panic) (s : σ) (f : σ → Outcome σ) :
    (Outcome.panic p s).bind f = .panic p s := rfl

@[simp] theorem attempt_ok (s : σ) (a : α) (k : α → Outcome σ) : attempt s (.ok a) k = k a := rfl

@[simp] theorem attempt_error (s : σ) (p : Panic) (k : α → Outcome σ) :
    attempt s (.error p) k = .panic p s := rfl

/-- A sequence ends well exactly if both parts do. -/
theorem bind_eq_ok.{u} {γ δ : Type u} {e : Except Panic γ} {f : γ → Except Panic δ} {b : δ} :
    (e >>= f) = .ok b ↔ ∃ a, e = .ok a ∧ f a = .ok b := by
  cases e with
  | ok a =>
    refine ⟨fun h => ⟨a, rfl, h⟩, ?_⟩
    rintro ⟨_, ⟨⟩, h⟩
    exact h
  | error p =>
    refine ⟨fun h => (by cases h), ?_⟩
    rintro ⟨_, ⟨⟩, -⟩

theorem map_eq_ok.{u, v} {γ : Type u} {δ : Type v} {e : Except Panic γ} {f : γ → δ} {b : δ} :
    e.map f = .ok b ↔ ∃ a, e = .ok a ∧ f a = b := by
  cases e with
  | ok a =>
    refine ⟨fun h => ⟨a, rfl, Except.ok.inj h⟩, ?_⟩
    rintro ⟨_, ⟨⟩, h⟩
    rw [← h]
    rfl
  | error p =>
    refine ⟨fun h => (by cases h), ?_⟩
    rintro ⟨_, ⟨⟩, -⟩

theorem attempt_inv {P : σ → Prop} {s : σ} {e : Except Panic α} {k : α → Outcome σ} (hs : P s)
    (hk : ∀ a, e = .ok a → P (k a).state) : P (attempt s e k).state := by
  cases e with
  | ok a => exact hk a rfl
  | error p => exact hs

/-- A part of the state that nothing changes. -/
theorem attempt_key {β : Type*} {g : σ → β} {x : β} {s : σ} {e : Except Panic α} {k : α → Outcome σ}
    (hs : g s = x) (hk : ∀ a, e = .ok a → g (k a).state = x) : g (attempt s e k).state = x :=
  attempt_inv (P := fun s => g s = x) hs hk

/-- A property that both parts keep is kept by the sequence. -/
theorem Outcome.bind_inv {P : σ → Prop} {o : Outcome σ} {f : σ → Outcome σ} (ho : P o.state)
    (hf : ∀ s, P s → P (f s).state) : P (o.bind f).state := by
  cases o with
  | ok s => exact hf s ho
  | panic p s => exact ho

theorem forEach_cons (f : σ → α → Outcome σ) (s : σ) (x : α) (xs : List α) :
    forEach f s (x :: xs) = (f s x).bind fun s' => forEach f s' xs := rfl

theorem forEach_singleton (f : σ → α → Outcome σ) (s : σ) (x : α) : forEach f s [x] = f s x := by
  unfold forEach
  cases f s x <;> rfl

/-- A loop over two lists, one after the other. -/
theorem forEach_append (f : σ → α → Outcome σ) (l l' : List α) :
    ∀ s, forEach f s (l ++ l') = (forEach f s l).bind fun s' => forEach f s' l' := by
  induction l with
  | nil => intro s; rfl
  | cons x xs ih =>
    intro s
    rw [List.cons_append, forEach_cons, forEach_cons]
    cases f s x with
    | ok s₁ => exact ih s₁
    | panic p s₁ => rfl

/-- A loop over lists is one over all their elements. -/
theorem forEach_flatten (f : σ → α → Outcome σ) (l : List (List α)) :
    ∀ s, forEach (forEach f) s l = forEach f s l.flatten := by
  induction l with
  | nil => intro s; rfl
  | cons x xs ih =>
    intro s
    rw [forEach_cons, List.flatten_cons, forEach_append]
    simp only [ih]

/-- **Invariant rule for `forEach`.** A property that the body keeps, for the
elements of the list, holds when the loop is over, also if it panicked. -/
theorem forEach_inv {P : σ → Prop} {f : σ → α → Outcome σ} (l : List α)
    (hf : ∀ x ∈ l, ∀ s, P s → P (f s x).state) : ∀ s, P s → P (forEach f s l).state := by
  induction l with
  | nil => intro s hs; exact hs
  | cons x xs ih =>
    intro s hs
    exact Outcome.bind_inv (hf x List.mem_cons_self s hs)
      (fun s' hs' => ih (fun y hy => hf y (List.mem_cons_of_mem _ hy)) s' hs')

/-- A part of the state that no round changes. -/
theorem forEach_key {β : Type*} {g : σ → β} {f : σ → α → Outcome σ} (hf : ∀ s x, g (f s x).state = g s)
    (s : σ) (l : List α) : g (forEach f s l).state = g s :=
  forEach_inv (P := fun s' => g s' = g s) l (fun x _ s' h => (hf s' x).trans h) s rfl

/-- **Total rule for `forEach`.** If every round ends well and keeps what is known of the
elements so far, the loop ends well, and it is known of the whole list. -/
theorem forEach_ok {P : List α → σ → Prop} {f : σ → α → Outcome σ} (l : List α)
    (hf : ∀ x ∈ l, ∀ before s, P before s → ∃ s', f s x = .ok s' ∧ P (before ++ [x]) s') :
    ∀ before s, P before s → ∃ s', forEach f s l = .ok s' ∧ P (before ++ l) s' := by
  induction l with
  | nil => intro before s hs; exact ⟨s, rfl, by rw [List.append_nil]; exact hs⟩
  | cons x xs ih =>
    intro before s hs
    obtain ⟨s₁, h₁, hs₁⟩ := hf x List.mem_cons_self before s hs
    obtain ⟨s₂, h₂, hs₂⟩ := ih (fun y hy => hf y (List.mem_cons_of_mem _ hy)) (before ++ [x]) s₁ hs₁
    refine ⟨s₂, ?_, by rw [List.append_cons]; exact hs₂⟩
    unfold forEach
    rw [h₁]
    exact h₂

/-- **Invariant rule for `forRange`.** If every round from a state satisfying
the invariant succeeds and keeps it, the loop succeeds and ends in it. -/
theorem forRange_ok {P : ℕ → σ → Prop} {lo hi : ℕ} {f : ℕ → σ → Except Panic σ} (hle : lo ≤ hi)
    (hf : ∀ i s, lo ≤ i → i < hi → P i s → ∃ s', f i s = .ok s' ∧ P (i + 1) s') {s : σ}
    (hs : P lo s) : ∃ s', forRange lo hi f s = .ok s' ∧ P hi s' := by
  have key : ∀ n i s, lo ≤ i → i + n = hi → P i s → ∃ s', rounds f n i s = .ok s' ∧ P hi s' := by
    intro n
    induction n with
    | zero => intro i s _ hi' hP; exact ⟨s, rfl, by rw [← hi']; exact hP⟩
    | succ n ih =>
      intro i s hlo hi' hP
      obtain ⟨s₁, h₁, hP₁⟩ := hf i s hlo (by omega) hP
      obtain ⟨s₂, h₂, hP₂⟩ := ih (i + 1) s₁ (by omega) (by omega) hP₁
      exact ⟨s₂, by simp only [rounds, h₁, Except.bind]; exact h₂, hP₂⟩
  exact key (hi - lo) lo s le_rfl (by omega) hs

/-- **Partial rule for `forRange`.** A property that every round keeps if it does not
panic holds when the loop has ended well. -/
theorem forRange_inv {P : σ → Prop} {lo hi : ℕ} {f : ℕ → σ → Except Panic σ}
    (hf : ∀ i s s', P s → f i s = .ok s' → P s') {s s' : σ} (hs : P s)
    (h : forRange lo hi f s = .ok s') : P s' := by
  have key : ∀ n i s, P s → rounds f n i s = .ok s' → P s' := by
    intro n
    induction n with
    | zero => intro i s hs h; rw [← Except.ok.inj h]; exact hs
    | succ n ih =>
      intro i s hs h
      unfold rounds at h
      cases hr : f i s with
      | error p => rw [hr] at h; cases h
      | ok s₁ =>
        rw [hr] at h
        exact ih (i + 1) s₁ (hf i s s₁ hs hr) h
  exact key (hi - lo) lo s hs h

/-- A loop that ends well has ended every round well. -/
theorem forRange_round {lo hi : ℕ} {f : ℕ → σ → Except Panic σ} {s s' : σ}
    (h : forRange lo hi f s = .ok s') {k : ℕ} (hk : lo ≤ k) (hkh : k < hi) :
    ∃ s₁ s₂, f k s₁ = .ok s₂ := by
  have key : ∀ n i s, rounds f n i s = .ok s' → i ≤ k → k < i + n → ∃ s₁ s₂, f k s₁ = .ok s₂ := by
    intro n
    induction n with
    | zero => intro i s _ h1 h2; omega
    | succ n ih =>
      intro i s hr h1 h2
      unfold rounds at hr
      cases hf : f i s with
      | error p => rw [hf] at hr; cases hr
      | ok s₁ =>
        rw [hf] at hr
        rcases Nat.eq_or_lt_of_le h1 with h | h
        · subst h; exact ⟨s, s₁, hf⟩
        · exact ih (i + 1) s₁ hr h (by omega)
  exact key (hi - lo) lo s h hk (by omega)

/-- Loops whose bodies agree on the range are the same. -/
theorem forRange_congr {lo hi : ℕ} {f g : ℕ → σ → Except Panic σ}
    (h : ∀ i s, lo ≤ i → i < hi → f i s = g i s) (s : σ) : forRange lo hi f s = forRange lo hi g s := by
  have key : ∀ n i s, lo ≤ i → i + n ≤ hi → rounds f n i s = rounds g n i s := by
    intro n
    induction n with
    | zero => intro i s _ _; rfl
    | succ n ih =>
      intro i s h1 h2
      unfold rounds
      rw [h i s h1 (by omega)]
      cases g i s with
      | error p => rfl
      | ok s₁ => exact ih (i + 1) s₁ (by omega) (by omega)
  rcases Nat.lt_or_ge hi lo with hlt | hle
  · unfold forRange
    rw [show hi - lo = 0 by omega]
    rfl
  · exact key (hi - lo) lo s le_rfl (by omega)

/-! ## Two computations side by side -/

section

universe u

variable {γ δ : Type u}

/-- If both computations end well, they end in related values. -/
def Both (R : γ → γ → Prop) (e e' : Except Panic γ) : Prop := ∀ a a', e = .ok a → e' = .ok a' → R a a'

theorem Both.ok {R : γ → γ → Prop} {a a' : γ} (h : R a a') : Both R (.ok a) (.ok a') := by
  intro x x' hx hx'
  rw [← Except.ok.inj hx, ← Except.ok.inj hx']
  exact h

/-- Equal computations end in equal values. -/
theorem Both.of_eq {e e' : Except Panic γ} (h : e' = e) : Both Eq e e' := by
  intro a a' ha ha'
  rw [h, ha] at ha'
  exact Except.ok.inj ha'

/-- **Relational rule for sequences.** -/
theorem Both.bind {R : γ → γ → Prop} {Q : δ → δ → Prop} {e e' : Except Panic γ} {f f' : γ → Except Panic δ}
    (he : Both R e e') (hf : ∀ a a', R a a' → Both Q (f a) (f' a')) : Both Q (e >>= f) (e' >>= f') := by
  intro x x' hx hx'
  obtain ⟨a, ha, hx⟩ := bind_eq_ok.1 hx
  obtain ⟨a', ha', hx'⟩ := bind_eq_ok.1 hx'
  exact hf a a' (he a a' ha ha') x x' hx hx'

/-- **Relational rule for `forRange`.** -/
theorem Both.forRange {R : γ → γ → Prop} {lo hi : ℕ} {f f' : ℕ → γ → Except Panic γ} {s s' : γ}
    (hs : R s s') (hf : ∀ i x x', lo ≤ i → i < hi → R x x' → Both R (f i x) (f' i x')) :
    Both R (forRange lo hi f s) (forRange lo hi f' s') := by
  have key : ∀ n i s s', lo ≤ i → i + n ≤ hi → R s s' → Both R (rounds f n i s) (rounds f' n i s') := by
    intro n
    induction n with
    | zero => intro i s s' _ _ hR; exact .ok hR
    | succ n ih =>
      intro i s s' hlo hhi hR
      exact (hf i s s' hlo (by omega) hR).bind fun t t' ht => ih (i + 1) t t' (by omega) (by omega) ht
  unfold Exec.forRange
  rcases Nat.lt_or_ge hi lo with hlt | hle
  · rw [show hi - lo = 0 by omega]
    exact .ok hs
  · exact key (hi - lo) lo s s' le_rfl (by omega) hs

end

/-! ## What a `forEach` gets to -/

/-- The elements a `forEach` gets to: all of them, or those up to the one that
panics. -/
def reached (f : σ → α → Outcome σ) : σ → List α → List α
  | _, [] => []
  | s, x :: xs =>
    x :: match f s x with
      | .ok s' => reached f s' xs
      | .panic _ _ => []

theorem mem_of_mem_reached {f : σ → α → Outcome σ} {x : α} (l : List α) :
    ∀ {s : σ}, x ∈ reached f s l → x ∈ l := by
  induction l with
  | nil => intro s h; exact h
  | cons y ys ih =>
    intro s h
    unfold reached at h
    rcases List.mem_cons.1 h with h | h
    · rw [h]; exact List.mem_cons_self
    · split at h
      · exact List.mem_cons_of_mem _ (ih h)
      · cases h

theorem reached_of_ok {f : σ → α → Outcome σ} (l : List α) :
    ∀ {s s' : σ}, forEach f s l = .ok s' → reached f s l = l := by
  induction l with
  | nil => intro s s' _; rfl
  | cons x xs ih =>
    intro s s' h
    unfold forEach at h
    unfold reached
    cases hx : f s x with
    | panic p s₁ => rw [hx] at h; cases h
    | ok s₁ =>
      rw [hx] at h
      simp only [ih h]

/-- A sequence adds what its parts add at most. -/
theorem Outcome.bind_count {m : σ → ℕ} {o : Outcome σ} {f : σ → Outcome σ} {a b : ℕ} (ho : m o.state ≤ a)
    (hf : ∀ s, m (f s).state ≤ m s + b) : m (o.bind f).state ≤ a + b := by
  cases o with
  | ok s => exact (hf s).trans (Nat.add_le_add_right ho b)
  | panic p s => exact ho.trans (Nat.le_add_right a b)

/-- **Counting rule for `forEach`.** What a round adds at most, summed up. -/
theorem forEach_count {f : σ → α → Outcome σ} {m : σ → ℕ} {c : α → ℕ}
    (hf : ∀ s x, m (f s x).state ≤ m s + c x) (l : List α) :
    ∀ s, m (forEach f s l).state ≤ m s + (l.map c).sum := by
  induction l with
  | nil => intro s; simp [forEach]
  | cons x xs ih =>
    intro s
    have hx := hf s x
    rw [List.map_cons, List.sum_cons]
    unfold forEach
    cases ho : f s x with
    | panic p s₁ =>
      rw [ho] at hx
      exact hx.trans (by omega)
    | ok s₁ =>
      rw [ho] at hx
      exact (ih s₁).trans (by rw [Outcome.state_ok] at hx; omega)

/-- A loop that ends well has ended every round well. -/
theorem forEach_round {f : σ → α → Outcome σ} {x : α} (l : List α) :
    ∀ {s s' : σ}, forEach f s l = .ok s' → x ∈ l → ∃ s₁ s₂, f s₁ x = .ok s₂ := by
  induction l with
  | nil => intro s s' _ hx; cases hx
  | cons y ys ih =>
    intro s s' h hx
    unfold forEach at h
    cases hy : f s y with
    | panic p s₁ => rw [hy] at h; cases h
    | ok s₁ =>
      rw [hy] at h
      rcases List.mem_cons.1 hx with rfl | hx
      · exact ⟨s, s₁, hy⟩
      · exact ih h hx

/-- **Exact rule for `forEach`.** If every round of the loop keeps `Q` exactly when
the element has `C`, the loop keeps it exactly when the elements it gets to do. -/
theorem forEach_iff {I Q : σ → Prop} {C : α → Prop} {f : σ → α → Outcome σ} (l : List α)
    (hf : ∀ x ∈ l, ∀ s, I s → I (f s x).state ∧ (Q (f s x).state ↔ Q s ∧ C x)) :
    ∀ s, I s → (Q (forEach f s l).state ↔ Q s ∧ ∀ x ∈ reached f s l, C x) := by
  induction l with
  | nil => intro s _; simp [forEach, reached]
  | cons x xs ih =>
    intro s hs
    obtain ⟨hI, hQ⟩ := hf x List.mem_cons_self s hs
    unfold forEach reached
    cases hx : f s x with
    | panic p s₁ =>
      rw [hx] at hQ
      simpa using hQ
    | ok s₁ =>
      rw [hx] at hI hQ
      simp only [Outcome.bind_ok, List.forall_mem_cons]
      rw [ih (fun y hy => hf y (List.mem_cons_of_mem _ hy)) s₁ hI]
      rw [Outcome.state_ok] at hQ
      rw [hQ, and_assoc]

/-- A loop whose rounds do not depend on the state for ending well. -/
theorem forEach_isOk {C : α → Prop} {f : σ → α → Outcome σ} (l : List α)
    (hf : ∀ x ∈ l, ∀ s, (f s x).isOk = true ↔ C x) : ∀ s, (forEach f s l).isOk = true ↔ ∀ x ∈ l, C x := by
  induction l with
  | nil => intro s; simp [forEach, Outcome.isOk]
  | cons x xs ih =>
    intro s
    have hx := hf x List.mem_cons_self s
    unfold forEach
    rw [List.forall_mem_cons]
    cases ho : f s x with
    | panic p s₁ =>
      rw [ho] at hx
      simp only [Outcome.bind_panic, Outcome.isOk, Bool.false_eq_true, false_iff] at hx ⊢
      exact fun h => hx h.1
    | ok s₁ =>
      rw [ho] at hx
      rw [Outcome.bind_ok, ih (fun y hy => hf y (List.mem_cons_of_mem _ hy)) s₁, ← hx]
      simp [Outcome.isOk]

/-! ## Histories -/

/-- Where an event stands in a history that has just grown by one: it is the new one,
or it was there before. -/
theorem concat_split {l a b : List α} {x e : α} :
    l ++ [e] = a ++ x :: b ↔ (a = l ∧ x = e ∧ b = []) ∨ ∃ b', b = b' ++ [e] ∧ l = a ++ x :: b' := by
  refine ⟨fun h => ?_, ?_⟩
  · rcases List.eq_nil_or_concat b with hb | ⟨b', y, hb⟩
    · subst hb
      obtain ⟨h1, h2⟩ := List.append_inj' h rfl
      exact .inl ⟨h1.symm, (List.singleton_inj.1 h2).symm, rfl⟩
    · subst hb
      rw [List.concat_eq_append, ← List.cons_append, ← List.append_assoc] at h
      obtain ⟨h1, h2⟩ := List.append_inj' h rfl
      rw [List.singleton_inj.1 h2]
      exact .inr ⟨b', List.concat_eq_append, h1⟩
  · rintro (⟨rfl, rfl, rfl⟩ | ⟨b', rfl, rfl⟩)
    · rfl
    · simp

/-! ## Systems -/

/-- The states reached from `s₀` by steps that are allowed in the state they are
taken in and do not panic. -/
inductive Reach {ο : Type*} (step : σ → ο → Except Panic σ) (allowed : σ → ο → Prop) (s₀ : σ) :
    σ → Prop
  | start : Reach step allowed s₀ s₀
  | next {s s' : σ} {o : ο} : Reach step allowed s₀ s → allowed s o → step s o = .ok s' →
      Reach step allowed s₀ s'

/-- **Invariant rule for `Reach`.** -/
theorem Reach.inv {ο : Type*} {step : σ → ο → Except Panic σ} {allowed : σ → ο → Prop} {s₀ s : σ}
    {P : σ → Prop} (h0 : P s₀)
    (hs : ∀ s o s', P s → allowed s o → step s o = .ok s' → P s')
    (h : Reach step allowed s₀ s) : P s := by
  induction h with
  | start => exact h0
  | next _ ha he ih => exact hs _ _ _ ih ha he

/-- Runs under a condition are runs under a weaker one. -/
theorem Reach.mono {ο : Type*} {step : σ → ο → Except Panic σ} {allowed allowed' : σ → ο → Prop}
    {s₀ s : σ} (ha : ∀ s o, allowed s o → allowed' s o) (h : Reach step allowed s₀ s) :
    Reach step allowed' s₀ s := by
  induction h with
  | start => exact .start
  | next _ ho he ih => exact ih.next (ha _ _ ho) he

/-- A run given by its list of steps, if all of them are allowed and none panics. -/
def runIf {ο : Type*} (step : σ → ο → Except Panic σ) (allowed : σ → ο → Prop)
    [∀ s o, Decidable (allowed s o)] : σ → List ο → Option σ
  | s, [] => some s
  | s, o :: os =>
    if allowed s o then
      match step s o with
      | .ok s' => runIf step allowed s' os
      | .error _ => none
    else none

theorem Reach.of_runIf {ο : Type*} {step : σ → ο → Except Panic σ} {allowed : σ → ο → Prop}
    [∀ s o, Decidable (allowed s o)] {s₀ s : σ} (os : List ο) (h : runIf step allowed s₀ os = some s) :
    Reach step allowed s₀ s := by
  have key : ∀ (os : List ο) (s₁ : σ), Reach step allowed s₀ s₁ → runIf step allowed s₁ os = some s →
      Reach step allowed s₀ s := by
    intro os
    induction os with
    | nil => intro s₁ h₁ he; rw [← Option.some.inj he]; exact h₁
    | cons o os ih =>
      intro s₁ h₁ he
      simp only [runIf] at he
      split at he
      · rename_i ha
        split at he
        · rename_i s₂ hs
          exact ih s₂ (h₁.next ha hs) he
        · cases he
      · cases he
  exact key os s₀ .start h

end Urchin.Exec
