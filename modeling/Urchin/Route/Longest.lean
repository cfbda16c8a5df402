import Mathlib

/-!
# Longest match over one table per length

A routing table kept as one keyed table per prefix length, filled by a sequence of
registrations and searched from some length downwards.

* `Latest p l r`: `r` is the last element of the list `l` with property `p`.
* `Tables.ofList_some`, `Tables.ofList_none`: after a sequence of registrations a
  cell holds the value of the last registration of that cell.
* `Longest m l r`: `r` is the last registration, among those of the greatest length,
  with property `m`. There is one as soon as some registration has the property
  (`Longest.exists`).
* `descend_some`, `descend_none`: the downward search, whatever key it looks up at
  each length, finds the longest registration whose key is the one looked up at its
  length.
-/

namespace Urchin.Route

/-! ## The last element with a property -/

/-- `r` is the last element of `l` that has the property `p`. -/
def Latest {ρ : Type*} (p : ρ → Prop) (l : List ρ) (r : ρ) : Prop :=
  ∃ pre post, l = pre ++ r :: post ∧ p r ∧ ∀ x ∈ post, ¬ p x

variable {ρ : Type*} {p : ρ → Prop} {l : List ρ} {r r' : ρ}

theorem Latest.mem (h : Latest p l r) : r ∈ l := by
  obtain ⟨pre, post, rfl, -, -⟩ := h
  simp

theorem Latest.prop (h : Latest p l r) : p r := by
  obtain ⟨pre, post, -, hr, -⟩ := h
  exact hr

/-- Appending an element: it is the last one if it has the property, and else
changes nothing. -/
theorem latest_concat {x : ρ} :
    Latest p (l ++ [x]) r ↔ (p x ∧ r = x) ∨ (¬ p x ∧ Latest p l r) := by
  constructor
  · rintro ⟨pre, post, he, hr, hpost⟩
    rcases List.eq_nil_or_concat post with rfl | ⟨post', y, rfl⟩
    · obtain ⟨-, hx⟩ := List.append_inj' he rfl
      simp only [List.cons.injEq, and_true] at hx
      subst hx
      exact .inl ⟨hr, rfl⟩
    · rw [List.concat_eq_append, ← List.cons_append, ← List.append_assoc] at he
      obtain ⟨hl, hx⟩ := List.append_inj' he rfl
      simp only [List.cons.injEq, and_true] at hx
      subst hx
      refine .inr ⟨hpost x (by simp), pre, post', hl, hr, ?_⟩
      intro z hz
      exact hpost z (by simp [hz])
  · rintro (⟨hx, rfl⟩ | ⟨hx, pre, post, rfl, hr, hpost⟩)
    · exact ⟨l, [], rfl, hx, by simp⟩
    · refine ⟨pre, post ++ [x], by simp, hr, ?_⟩
      intro z hz
      rcases List.mem_append.1 hz with hz | hz
      · exact hpost z hz
      · rw [List.mem_singleton.1 hz]; exact hx

theorem Latest.exists (hr : r ∈ l) (hp : p r) : ∃ r', Latest p l r' := by
  induction l using List.reverseRecOn with
  | nil => cases hr
  | append_singleton l x ih =>
    by_cases hx : p x
    · exact ⟨x, latest_concat.2 (.inl ⟨hx, rfl⟩)⟩
    · rcases List.mem_append.1 hr with hr | hr
      · obtain ⟨r', h⟩ := ih hr
        exact ⟨r', latest_concat.2 (.inr ⟨hx, h⟩)⟩
      · rw [List.mem_singleton.1 hr] at hp
        exact absurd hp hx

theorem Latest.eq (h : Latest p l r) (h' : Latest p l r') : r = r' := by
  induction l using List.reverseRecOn with
  | nil => exact absurd h.mem (by simp)
  | append_singleton l x ih =>
    rcases latest_concat.1 h with ⟨hx, rfl⟩ | ⟨hx, h⟩
    · rcases latest_concat.1 h' with ⟨-, rfl⟩ | ⟨hx', -⟩
      · rfl
      · exact absurd hx hx'
    · rcases latest_concat.1 h' with ⟨hx', -⟩ | ⟨-, h'⟩
      · exact absurd hx' hx
      · exact ih h h'

theorem Latest.congr {q : ρ → Prop} (hpq : ∀ x ∈ l, p x ↔ q x) (h : Latest p l r) : Latest q l r := by
  obtain ⟨pre, post, rfl, hr, hpost⟩ := h
  refine ⟨pre, post, rfl, (hpq r (by simp)).1 hr, ?_⟩
  intro x hx hq
  exact hpost x hx ((hpq x (by simp [hx])).2 hq)

/-- The last element with a property is the last one with a stronger property, if it has
it. -/
theorem Latest.strengthen {q : ρ → Prop} (hqp : ∀ x ∈ l, q x → p x) (h : Latest p l r) (hr : q r) :
    Latest q l r := by
  obtain ⟨pre, post, rfl, -, hpost⟩ := h
  refine ⟨pre, post, rfl, hr, ?_⟩
  intro x hx hq
  exact hpost x hx (hqp x (by simp [hx]) hq)

theorem Latest.map {τ : Type*} {p : τ → Prop} {f : ρ → τ} (h : Latest (fun x => p (f x)) l r) :
    Latest p (l.map f) (f r) := by
  obtain ⟨pre, post, rfl, hr, hpost⟩ := h
  refine ⟨pre.map f, post.map f, by simp, hr, ?_⟩
  intro x hx
  obtain ⟨y, hy, rfl⟩ := List.mem_map.1 hx
  exact hpost y hy

theorem Latest.of_map {τ : Type*} {p : τ → Prop} {f : ρ → τ} {t : τ} (h : Latest p (l.map f) t) :
    ∃ r, f r = t ∧ Latest (fun x => p (f x)) l r := by
  obtain ⟨r₀, hr₀, rfl⟩ := List.mem_map.1 h.mem
  obtain ⟨r, hr⟩ := Latest.exists (p := fun x => p (f x)) hr₀ h.prop
  exact ⟨r, hr.map.eq h, hr⟩

/-! ## Tables -/

/-- A registration: its length, its key and the value stored. -/
structure Reg (κ ν : Type*) where
  len : ℕ
  key : κ
  val : ν

/-- One keyed table per length. -/
abbrev Tables (κ ν : Type*) := ℕ → κ → Option ν

variable {κ ν : Type*}

def Tables.empty : Tables κ ν := fun _ _ => none

def Tables.insert [DecidableEq κ] (T : Tables κ ν) (r : Reg κ ν) : Tables κ ν :=
  Function.update T r.len (Function.update (T r.len) r.key (some r.val))

/-- The tables after a sequence of registrations. -/
def Tables.ofList [DecidableEq κ] (regs : List (Reg κ ν)) : Tables κ ν :=
  regs.foldl Tables.insert Tables.empty

section

variable [DecidableEq κ] {regs : List (Reg κ ν)} {i : ℕ} {k : κ} {v : ν}

theorem Tables.insert_apply (T : Tables κ ν) (r : Reg κ ν) (i : ℕ) (k : κ) :
    T.insert r i k = if r.len = i ∧ r.key = k then some r.val else T i k := by
  unfold Tables.insert
  by_cases hi : r.len = i
  · subst hi
    by_cases hk : r.key = k
    · subst hk; simp
    · simp [hk, Function.update_of_ne (Ne.symm hk)]
  · simp [hi, Function.update_of_ne (Ne.symm hi)]

theorem Tables.ofList_concat (regs : List (Reg κ ν)) (r : Reg κ ν) :
    Tables.ofList (regs ++ [r]) = (Tables.ofList regs).insert r := by
  simp [Tables.ofList, List.foldl_append]

/-- **A cell holds the value of its last registration.** -/
theorem Tables.ofList_some :
    Tables.ofList regs i k = some v ↔ ∃ r, Latest (fun r => r.len = i ∧ r.key = k) regs r ∧ r.val = v := by
  induction regs using List.reverseRecOn with
  | nil =>
    constructor
    · intro h; cases h
    · rintro ⟨r, h, -⟩; exact absurd h.mem (by simp)
  | append_singleton regs x ih =>
    rw [Tables.ofList_concat, Tables.insert_apply]
    split
    · rename_i hx
      simp only [latest_concat, hx, and_self, true_and, not_true_eq_false, false_and, or_false,
        exists_eq_left, Option.some.injEq]
    · rename_i hx
      simp only [latest_concat, hx, false_and, not_false_eq_true, true_and, false_or]
      exact ih

theorem Tables.ofList_none :
    Tables.ofList regs i k = none ↔ ∀ r ∈ regs, ¬ (r.len = i ∧ r.key = k) := by
  constructor
  · intro h r hr hrik
    obtain ⟨r', hr'⟩ := Latest.exists (p := fun r : Reg κ ν => r.len = i ∧ r.key = k) hr hrik
    rw [Tables.ofList_some.2 ⟨r', hr', rfl⟩] at h
    cases h
  · intro h
    cases hv : Tables.ofList regs i k with
    | none => rfl
    | some v =>
      obtain ⟨r, hr, -⟩ := Tables.ofList_some.1 hv
      exact absurd hr.prop (h r hr.mem)

end

/-! ## The longest match -/

/-- `r` is the last registration of the greatest length among those with property
`m`. -/
structure Longest (m : Reg κ ν → Prop) (regs : List (Reg κ ν)) (r : Reg κ ν) : Prop where
  latest : Latest (fun x => m x ∧ x.len = r.len) regs r
  greatest : ∀ x ∈ regs, m x → x.len ≤ r.len

section

variable {m : Reg κ ν → Prop} {regs : List (Reg κ ν)} {r : Reg κ ν}

theorem Longest.mem (h : Longest m regs r) : r ∈ regs := h.latest.mem

theorem Longest.prop (h : Longest m regs r) : m r := h.latest.prop.1

end

/-! ## The downward search -/

/-- Look up at length `n`, then at `n - 1`, down to `0`. -/
def descend (look : ℕ → Option ν) : ℕ → Option ν
  | 0 => look 0
  | n + 1 =>
    match look (n + 1) with
    | some v => some v
    | none => descend look n

theorem descend_eq_none {look : ℕ → Option ν} {n : ℕ} : descend look n = none ↔ ∀ i ≤ n, look i = none := by
  induction n with
  | zero => simp [descend]
  | succ n ih =>
    unfold descend
    cases hl : look (n + 1) with
    | some v =>
      simp only [reduceCtorEq, false_iff]
      intro h
      rw [h _ le_rfl] at hl
      cases hl
    | none =>
      simp only [ih]
      constructor
      · intro h i hi
        rcases Nat.lt_or_ge n i with hi' | hi'
        · rw [show i = n + 1 by omega]; exact hl
        · exact h i hi'
      · intro h i hi
        exact h i (by omega)

theorem descend_eq_some {look : ℕ → Option ν} {n : ℕ} {v : ν} :
    descend look n = some v ↔ ∃ i ≤ n, look i = some v ∧ ∀ j, i < j → j ≤ n → look j = none := by
  induction n with
  | zero =>
    constructor
    · intro h; exact ⟨0, le_rfl, h, by omega⟩
    · rintro ⟨i, hi, h, -⟩; obtain rfl : i = 0 := by omega
      exact h
  | succ n ih =>
    unfold descend
    cases hl : look (n + 1) with
    | some w =>
      simp only [Option.some.injEq]
      constructor
      · rintro rfl; exact ⟨n + 1, le_rfl, hl, by omega⟩
      · rintro ⟨i, hi, h, hj⟩
        rcases Nat.eq_or_lt_of_le hi with rfl | hi'
        · rw [hl] at h; exact Option.some.inj h
        · rw [hj (n + 1) hi' le_rfl] at hl; cases hl
    | none =>
      simp only [ih]
      constructor
      · rintro ⟨i, hi, h, hj⟩
        refine ⟨i, by omega, h, fun j h1 h2 => ?_⟩
        rcases Nat.eq_or_lt_of_le h2 with rfl | h2'
        · exact hl
        · exact hj j h1 (by omega)
      · rintro ⟨i, hi, h, hj⟩
        rcases Nat.eq_or_lt_of_le hi with rfl | hi'
        · rw [hl] at h; cases h
        · exact ⟨i, by omega, h, fun j h1 h2 => hj j h1 (by omega)⟩

/-- A search that finds nothing on its way ends at length zero. -/
theorem descend_zero {look : ℕ → Option ν} {n : ℕ} (h : ∀ i, 1 ≤ i → i ≤ n → look i = none) :
    descend look n = look 0 := by
  induction n with
  | zero => rfl
  | succ n ih =>
    unfold descend
    rw [h (n + 1) (by omega) le_rfl]
    exact ih fun i h1 h2 => h i h1 (by omega)

section

variable {regs : List (Reg κ ν)} (key : ℕ → κ) (n : ℕ)

theorem descend_none [DecidableEq κ] :
    descend (fun i => Tables.ofList regs i (key i)) n = none ↔
      ∀ r ∈ regs, ¬ (r.key = key r.len ∧ r.len ≤ n) := by
  rw [descend_eq_none]
  simp only [Tables.ofList_none]
  constructor
  · rintro h r hr ⟨hk, hn⟩
    exact h r.len hn r hr ⟨rfl, hk⟩
  · rintro h i hi r hr ⟨rfl, hk⟩
    exact h r hr ⟨hk, hi⟩

/-- **The search finds the longest registration** whose key is the one looked up at
its length. -/
theorem descend_some [DecidableEq κ] {v : ν} :
    descend (fun i => Tables.ofList regs i (key i)) n = some v ↔
      ∃ r, Longest (fun r => r.key = key r.len ∧ r.len ≤ n) regs r ∧ r.val = v := by
  rw [descend_eq_some]
  constructor
  · rintro ⟨i, hi, h, hj⟩
    obtain ⟨r, hr, hv⟩ := Tables.ofList_some.1 h
    obtain ⟨rfl, hk⟩ := hr.prop
    -- at the length where the search stops, the same registrations are meant
    refine ⟨r, ⟨hr.congr fun x _ => ?_, ?_⟩, hv⟩
    · constructor
      · rintro ⟨h1, h2⟩; exact ⟨⟨by rw [h2, h1], by omega⟩, h1⟩
      · rintro ⟨⟨h1, -⟩, h2⟩; exact ⟨h2, by rw [h1, h2]⟩
    · rintro x hx ⟨hxk, hxn⟩
      by_contra hlt
      exact Tables.ofList_none.1 (hj x.len (by omega) hxn) x hx ⟨rfl, hxk⟩
  · rintro ⟨r, ⟨hr, hmax⟩, hv⟩
    obtain ⟨⟨hk, hn⟩, -⟩ := hr.prop
    refine ⟨r.len, hn, Tables.ofList_some.2 ⟨r, hr.congr fun x _ => ?_, hv⟩, ?_⟩
    · constructor
      · rintro ⟨⟨h1, -⟩, h2⟩; exact ⟨h2, by rw [h1, h2]⟩
      · rintro ⟨h1, h2⟩; exact ⟨⟨by rw [h2, h1], by omega⟩, h1⟩
    · intro j hj hjn
      refine Tables.ofList_none.2 ?_
      rintro x hx ⟨rfl, hxk⟩
      have := hmax x hx ⟨hxk, hjn⟩
      omega

/-- The longest match is the last registration of its key and length. -/
theorem Longest.latest_key {r : Reg κ ν}
    (h : Longest (fun r => r.key = key r.len ∧ r.len ≤ n) regs r) :
    Latest (fun x => x.key = r.key ∧ x.len = r.len) regs r := by
  obtain ⟨hk, hn⟩ := h.prop
  refine h.latest.congr fun x _ => ?_
  constructor
  · rintro ⟨⟨hxk, -⟩, hxl⟩
    exact ⟨by rw [hxk, hxl, hk], hxl⟩
  · rintro ⟨hxk, hxl⟩
    exact ⟨⟨by rw [hxk, hxl, hk], by omega⟩, hxl⟩

/-- There is a longest match as soon as there is a match. -/
theorem Longest.exists [DecidableEq κ] {r : Reg κ ν} (hr : r ∈ regs) (hk : r.key = key r.len) (hn : r.len ≤ n) :
    ∃ r', Longest (fun r => r.key = key r.len ∧ r.len ≤ n) regs r' := by
  cases h : descend (fun i => Tables.ofList regs i (key i)) n with
  | none => exact absurd ⟨hk, hn⟩ ((descend_none key n).1 h r hr)
  | some v =>
    obtain ⟨r', hr', -⟩ := (descend_some key n).1 h
    exact ⟨r', hr'⟩

end

end Urchin.Route
