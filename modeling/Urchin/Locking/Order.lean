import Mathlib

/-!
# Locks taken in an order

`Code` is what code does with locks: a lock is held for the length of a body, and
conditions are choices. `Code.Ranked` asks that inside of a body only locks of higher rank
are taken. A `System` is any number of contexts, each with the takes and releases that are
left of its run, and a lock is taken when no context holds it.

* `Code.Runs.ordered`: the runs of ranked code take their locks in the order of the ranks.
* `SystemOK.reach`: in a system of such runs no lock has two holders.
* `SystemOK.progress`: somebody can always go on.
-/

namespace Urchin.Locking

variable {L : Type*}

inductive Event (L : Type*) where
  | take (l : L)
  | release (l : L)
  deriving DecidableEq

/-! ## Code -/

inductive Code (L : Type*) where
  | skip
  | locked (l : L) (body : Code L)
  | seq (first second : Code L)
  | any (choices : ℕ → Code L)
  | loop (body : Code L)

namespace Code

/-- One of two. -/
def either (a b : Code L) : Code L := .any fun
  | 0 => a
  | _ + 1 => b

/-- The body, or nothing. -/
def maybe (a : Code L) : Code L := either a .skip

/-- The runs of code. -/
inductive Runs : Code L → List (Event L) → Prop
  | skip : Runs .skip []
  | locked {l : L} {body : Code L} {t : List (Event L)} (h : Runs body t) :
      Runs (.locked l body) (.take l :: (t ++ [.release l]))
  | seq {a b : Code L} {t t' : List (Event L)} (ha : Runs a t) (hb : Runs b t') : Runs (.seq a b) (t ++ t')
  | any {choices : ℕ → Code L} (k : ℕ) {t : List (Event L)} (h : Runs (choices k) t) : Runs (.any choices) t
  | done {body : Code L} : Runs (.loop body) []
  | again {body : Code L} {t t' : List (Event L)} (h : Runs body t) (hrest : Runs (.loop body) t') :
      Runs (.loop body) (t ++ t')

theorem Runs.left {a b : Code L} {t : List (Event L)} (h : Runs a t) : Runs (either a b) t := .any 0 h

theorem Runs.right {a b : Code L} {t : List (Event L)} (h : Runs b t) : Runs (either a b) t := .any 1 h

/-- Every lock has at least rank `low`, and what is taken while it is held a higher one. -/
def Ranked (rank : L → ℕ) : ℕ → Code L → Prop
  | _, .skip => True
  | low, .locked l body => low ≤ rank l ∧ Ranked rank (rank l + 1) body
  | low, .seq a b => Ranked rank low a ∧ Ranked rank low b
  | low, .any choices => ∀ k, Ranked rank low (choices k)
  | low, .loop body => Ranked rank low body

theorem Ranked.either {rank : L → ℕ} {low : ℕ} {a b : Code L} (ha : a.Ranked rank low) (hb : b.Ranked rank low) :
    (either a b).Ranked rank low := by
  intro k
  cases k with
  | zero => exact ha
  | succ k => exact hb

theorem Ranked.maybe {rank : L → ℕ} {low : ℕ} {a : Code L} (ha : a.Ranked rank low) : (maybe a).Ranked rank low :=
  ha.either trivial

/-- A bound that is lower still holds. -/
theorem Ranked.mono {rank : L → ℕ} {a : Code L} : ∀ {low low' : ℕ}, a.Ranked rank low → low' ≤ low →
    a.Ranked rank low' := by
  induction a with
  | skip => exact fun _ _ => trivial
  | locked l body _ => exact fun h hle => ⟨hle.trans h.1, h.2⟩
  | seq a b iha ihb => exact fun h hle => ⟨iha h.1 hle, ihb h.2 hle⟩
  | any choices ih => exact fun h hle k => ih k (h k) hle
  | loop body ih => exact fun h hle => ih h hle

end Code

/-! ## Runs -/

/-- What is left of a run: with the locks `held`, the last one first, every take is of a
higher rank, every release of the last one, and none is left at the end. -/
def Ordered (rank : L → ℕ) : List L → List (Event L) → Prop
  | held, [] => held = []
  | held, .take l :: t => (∀ k ∈ held, rank k < rank l) ∧ Ordered rank (l :: held) t
  | held, .release l :: t => ∃ rest, held = l :: rest ∧ Ordered rank rest t

/-- **The runs of ranked code are ordered**, inside of what holds locks of lower rank. -/
theorem Code.Runs.ordered {rank : L → ℕ} {a : Code L} {t : List (Event L)} (h : Runs a t) :
    ∀ {low : ℕ} {held : List L} {after : List (Event L)}, a.Ranked rank low → (∀ k ∈ held, rank k < low) →
      Ordered rank held after → Ordered rank held (t ++ after) := by
  induction h with
  | skip => exact fun _ _ hafter => hafter
  | @locked l body t _ ih =>
    intro low held after hr hheld hafter
    refine ⟨fun k hk => (hheld k hk).trans_le hr.1, ?_⟩
    show Ordered rank (l :: held) (t ++ [.release l] ++ after)
    rw [List.append_assoc]
    refine ih hr.2 (fun k hk => ?_) ⟨held, rfl, hafter⟩
    rcases List.mem_cons.1 hk with rfl | hk
    · exact Nat.lt_succ_self _
    · have hlt := hheld k hk
      have hle := hr.1
      omega
  | seq _ _ iha ihb =>
    intro low held after hr hheld hafter
    rw [List.append_assoc]
    exact iha hr.1 hheld (ihb hr.2 hheld hafter)
  | any k _ ih => exact fun hr hheld hafter => ih (hr k) hheld hafter
  | done => exact fun _ _ hafter => hafter
  | again _ _ ih ihrest =>
    intro low held after hr hheld hafter
    rw [List.append_assoc]
    exact ih hr hheld (ihrest hr hheld hafter)

/-! ## Systems -/

/-- Contexts, with what is left to do and the locks they hold, the last one first. -/
structure System (ι L : Type*) where
  todo : ι → List (Event L)
  held : ι → List L

namespace System

variable {ι : Type*}

/-- Nobody holds a lock yet. -/
def start (runs : ι → List (Event L)) : System ι L := ⟨runs, fun _ => []⟩

/-- Nobody holds the lock. -/
def Free (s : System ι L) (l : L) : Prop := ∀ i, l ∉ s.held i

/-- A context takes a free lock, or releases one. -/
inductive Step [DecidableEq ι] (s : System ι L) : System ι L → Prop
  | take {i : ι} {l : L} {t : List (Event L)} (h : s.todo i = .take l :: t) (hfree : s.Free l) :
      Step s ⟨Function.update s.todo i t, Function.update s.held i (l :: s.held i)⟩
  | release {i : ι} {l : L} {t : List (Event L)} {rest : List L} (h : s.todo i = .release l :: t)
      (hheld : s.held i = l :: rest) : Step s ⟨Function.update s.todo i t, Function.update s.held i rest⟩

/-- What any number of steps reaches. -/
def Reaches [DecidableEq ι] : System ι L → System ι L → Prop := Relation.ReflTransGen Step

end System

/-- The invariant. -/
structure SystemOK {ι : Type*} (rank : L → ℕ) (s : System ι L) : Prop where
  ordered : ∀ i, Ordered rank (s.held i) (s.todo i)
  alone : ∀ i j l, l ∈ s.held i → l ∈ s.held j → i = j

namespace SystemOK

variable {ι : Type*} {rank : L → ℕ} {s s' : System ι L}

theorem start {runs : ι → List (Event L)} (h : ∀ i, Ordered rank [] (runs i)) : SystemOK rank (.start runs) :=
  ⟨h, fun _ _ _ hl => absurd hl List.not_mem_nil⟩

/-- **Every step keeps the invariant.** -/
theorem step [DecidableEq ι] (h : SystemOK rank s) (hs : s.Step s') : SystemOK rank s' := by
  cases hs with
  | @take i l t htodo hfree =>
    have hord := h.ordered i
    rw [htodo] at hord
    refine ⟨fun j => ?_, fun j k m hj hk => ?_⟩
    · by_cases hji : j = i
      · subst hji
        simpa only [Function.update_self] using hord.2
      · simpa only [Function.update_of_ne hji] using h.ordered j
    · by_cases hji : j = i <;> by_cases hki : k = i
      · rw [hji, hki]
      · -- a lock that somebody else holds was not free
        subst hji
        simp only [Function.update_self] at hj
        simp only [Function.update_of_ne hki] at hk
        rcases List.mem_cons.1 hj with rfl | hj
        · exact absurd hk (hfree k)
        · exact h.alone _ _ _ hj hk
      · subst hki
        simp only [Function.update_self] at hk
        simp only [Function.update_of_ne hji] at hj
        rcases List.mem_cons.1 hk with rfl | hk
        · exact absurd hj (hfree j)
        · exact h.alone _ _ _ hj hk
      · simp only [Function.update_of_ne hji] at hj
        simp only [Function.update_of_ne hki] at hk
        exact h.alone _ _ _ hj hk
  | @release i l t rest htodo hheld =>
    have hord := h.ordered i
    rw [htodo, hheld] at hord
    obtain ⟨rest', hrest, hord⟩ := hord
    obtain rfl := (List.cons.inj hrest).2
    have hsub : ∀ j m, m ∈ Function.update s.held i rest j → m ∈ s.held j := by
      intro j m hm
      by_cases hji : j = i
      · subst hji
        rw [Function.update_self] at hm
        rw [hheld]
        exact List.mem_cons_of_mem _ hm
      · rwa [Function.update_of_ne hji] at hm
    refine ⟨fun j => ?_, fun j k m hj hk => h.alone j k m (hsub j m hj) (hsub k m hk)⟩
    by_cases hji : j = i
    · subst hji
      simpa only [Function.update_self] using hord
    · simpa only [Function.update_of_ne hji] using h.ordered j

theorem reach [DecidableEq ι] (h : SystemOK rank s) (hs : s.Reaches s') : SystemOK rank s' := by
  induction hs with
  | refl => exact h
  | tail _ hstep ih => exact ih.step hstep

/-- Nobody waits for a lock of its own. -/
theorem not_self (h : SystemOK rank s) {i : ι} {l : L} {t : List (Event L)} (hi : s.todo i = .take l :: t) :
    l ∉ s.held i := by
  intro hl
  have hord := h.ordered i
  rw [hi] at hord
  exact lt_irrefl _ (hord.1 l hl)

/-- Who has a lock has something left to do. -/
theorem busy (h : SystemOK rank s) {i : ι} {l : L} (hl : l ∈ s.held i) : s.todo i ≠ [] := by
  intro hdone
  have hord := h.ordered i
  rw [hdone] at hord
  have hnone : s.held i = [] := hord
  rw [hnone] at hl
  exact List.not_mem_nil hl

/-- If nobody can go on, everybody who is not done waits for a lock that is not free. -/
theorem waits [DecidableEq ι] (h : SystemOK rank s) (hstuck : ¬ ∃ s', s.Step s') {i : ι} (hi : s.todo i ≠ []) :
    ∃ l t, s.todo i = .take l :: t ∧ ¬ s.Free l := by
  obtain ⟨e, t, htodo⟩ := List.exists_cons_of_ne_nil hi
  have hord := h.ordered i
  rw [htodo] at hord
  cases e with
  | take l => exact ⟨l, t, htodo, fun hfree => hstuck ⟨_, .take htodo hfree⟩⟩
  | release l =>
    obtain ⟨rest, hheld, -⟩ := hord
    exact absurd ⟨_, .release htodo hheld⟩ hstuck

/-- **Somebody can go on**, if the ranks are bounded: else whoever holds a lock that is
waited for waits for one of higher rank. -/
theorem progress [DecidableEq ι] (h : SystemOK rank s) {top : ℕ} (htop : ∀ l, rank l ≤ top)
    (hleft : ∃ i, s.todo i ≠ []) : ∃ s', s.Step s' := by
  by_contra hstuck
  have hchain : ∀ n l, ¬ s.Free l → n + rank l = top → False := by
    intro n
    induction n using Nat.strong_induction_on with
    | _ n ih =>
      intro l hl hn
      simp only [System.Free, not_forall, not_not] at hl
      obtain ⟨j, hj⟩ := hl
      obtain ⟨k, t, htodo, hk⟩ := h.waits hstuck (h.busy hj)
      have hord := h.ordered j
      rw [htodo] at hord
      have hlt := hord.1 l hj
      have hle := htop k
      exact ih (top - rank k) (by omega) k hk (by omega)
  obtain ⟨i, hi⟩ := hleft
  obtain ⟨l, t, -, hl⟩ := h.waits hstuck hi
  exact hchain (top - rank l) l hl (Nat.sub_add_cancel (htop l))

/-- Who is done holds no lock. -/
theorem done (h : SystemOK rank s) {i : ι} (hi : s.todo i = []) : s.held i = [] := by
  have hord := h.ordered i
  rw [hi] at hord
  exact hord

end SystemOK

end Urchin.Locking
