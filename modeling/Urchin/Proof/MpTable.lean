import Urchin.Spec.MpTable

/-!
# The processors of the table are reported

`processors_of_entries`: a table of whole entries is reported exactly.
`processors_entries`: whatever the memory holds, the loop reads it as entries, up to the
one that reaches the length, and ends. `getMpTable_reports` adds how the table is found.
-/

namespace Urchin

open Stack

namespace MpTable

variable {m : Memory} {a : BitVec 64}

theorem size_cons (e : Entry) (entries : List Entry) : size (e :: entries) = e.size + size entries := rfl

theorem Entry.size_pos (e : Entry) : 0 < e.size := by
  cases e with
  | processor localApicId => exact Nat.succ_pos 19
  | other entryType => exact Nat.succ_pos 7

/-- One round of the loop, on an entry. -/
theorem processors_cons {e : Entry} (h : e.At m a) {n : ℤ} (hn : 0 < n) :
    processors m n a = e.apicId.toList ++ processors m (n - e.size) (a + BitVec.ofNat 64 e.size) := by
  rw [processors, if_pos hn]
  cases e with
  | processor localApicId =>
    obtain ⟨hzero, hid⟩ := h
    rw [if_pos hzero, hid]
    rfl
  | other entryType =>
    have hne : m a ≠ 0 := by
      rw [show m a = entryType from h]
      exact entryType.2
    rw [if_neg hne]
    rfl

theorem processors_done {n : ℤ} (hn : n ≤ 0) : processors m n a = [] := by
  rw [processors, if_neg (not_lt.2 hn)]

/-- Every byte begins an entry. -/
theorem entry_exists (m : Memory) (a : BitVec 64) : ∃ e : Entry, e.At m a := by
  by_cases h : m a = 0
  · exact ⟨.processor (m (a + 1)), h, rfl⟩
  · exact ⟨.other ⟨m a, h⟩, rfl⟩

/-- **A table of whole entries.** -/
theorem processors_of_entries (entries : List Entry) :
    ∀ a, EntriesAt m a entries → processors m (size entries) a = entries.filterMap Entry.apicId := by
  induction entries with
  | nil => exact fun a _ => processors_done (le_refl 0)
  | cons e entries ih =>
    rintro a ⟨he, hrest⟩
    have hpos := e.size_pos
    rw [size_cons, processors_cons he (by omega), Nat.cast_add, add_sub_cancel_left, ih _ hrest]
    cases e with
    | processor localApicId => rfl
    | other entryType => rfl

/-- **Any memory**: the loop reads entries, the last of which reaches the length. -/
theorem processors_entries (m : Memory) (n : ℕ) : ∀ a, ∃ entries, EntriesAt m a entries ∧
    processors m n a = entries.filterMap Entry.apicId ∧ n ≤ size entries ∧ size entries < n + 20 ∧
    (n = 0 → entries = []) := by
  induction n using Nat.strong_induction_on with
  | _ n ih =>
    intro a
    rcases Nat.eq_zero_or_pos n with rfl | hn
    · exact ⟨[], trivial, processors_done (le_refl 0), le_refl 0, Nat.succ_pos 19, fun _ => rfl⟩
    · obtain ⟨e, he⟩ := entry_exists m a
      have hpos := e.size_pos
      have hle : e.size ≤ 20 := by
        cases e with
        | processor localApicId => exact le_refl 20
        | other entryType => exact Nat.le_add_right 8 12
      obtain ⟨entries, hat, hids, hlow, hhigh, hdone⟩ := ih (n - e.size) (by omega) (a + BitVec.ofNat 64 e.size)
      refine ⟨e :: entries, ⟨he, hat⟩, ?_, ?_, ?_, fun hz => by omega⟩
      · have hrest : processors m ((n : ℤ) - e.size) (a + BitVec.ofNat 64 e.size) = entries.filterMap Entry.apicId := by
          rcases Nat.lt_or_ge n e.size with hlt | hge
          · -- the last entry is longer than what is left
            rw [← hids, processors_done (by omega), processors_done (by omega)]
          · rw [← hids, Nat.cast_sub hge]
        rw [processors_cons he (by omega), hrest]
        cases e with
        | processor localApicId => rfl
        | other entryType => rfl
      · rw [size_cons]
        omega
      · rw [size_cons]
        rcases Nat.lt_or_ge n e.size with hlt | hge
        · have hempty : size entries = 0 := by
            rw [hdone (by omega)]
            rfl
          omega
        · omega

/-! ## Finding the table -/

/-- The first that a search over a range finds. -/
theorem findSome?_range {α : Type*} (f : ℕ → Option α) (n : ℕ) (x : α) :
    (List.range n).findSome? f = some x ↔ ∃ i < n, f i = some x ∧ ∀ j < i, f j = none := by
  induction n with
  | zero => simp
  | succ n ih =>
    rw [List.range_succ, List.findSome?_append, Option.or_eq_some_iff, ih, List.findSome?_eq_none_iff]
    simp only [List.mem_range, List.findSome?_singleton]
    constructor
    · rintro (⟨i, hi, hx⟩ | ⟨hnone, hx⟩)
      · exact ⟨i, by omega, hx⟩
      · exact ⟨n, by omega, hx, hnone⟩
    · rintro ⟨i, hi, hx, hnone⟩
      rcases Nat.eq_or_lt_of_le (Nat.lt_succ_iff.1 hi) with rfl | hlt
      · exact .inr ⟨hnone, hx⟩
      · exact .inl ⟨i, hlt, hx, hnone⟩

/-- The first candidate of an area with a table. -/
def FirstIn (m : Memory) (baseAddr : BitVec 32) (table : BitVec 64) : Prop :=
  ∃ i < 64, candidate m baseAddr i = some table ∧ ∀ j < i, candidate m baseAddr j = none

/-- The table that the kernel goes by: the last kilobyte of base memory comes first. -/
def Located (m : Memory) (table : BitVec 64) : Prop :=
  FirstIn m LAST_KB_IN_BASE_MEMORY_ADDR table ∨
    ((∀ i < 64, candidate m LAST_KB_IN_BASE_MEMORY_ADDR i = none) ∧ FirstIn m FIRST_KB_IN_BASE_MEMORY_ADDR table)

theorem findMpTable_eq_some (m : Memory) (baseAddr : BitVec 32) (table : BitVec 64) :
    findMpTable m baseAddr MP_FIND_LENGTH = some table ↔ FirstIn m baseAddr table :=
  findSome?_range _ 64 _

theorem findMpTable_eq_none (m : Memory) (baseAddr : BitVec 32) :
    findMpTable m baseAddr MP_FIND_LENGTH = none ↔ ∀ i < 64, candidate m baseAddr i = none := by
  have hlen : MP_FIND_LENGTH / 16 = 64 := rfl
  unfold findMpTable
  rw [hlen, List.findSome?_eq_none_iff]
  simp only [List.mem_range]

theorem getMpTable_eq_some (m : Memory) (report : Report) : getMpTable m = some report ↔
    ∃ table, Located m table ∧ report =
      ⟨bytes m (table + 8) 8, bytes m (table + 16) 12, processors m (length m table - 44).toNat (table + 44)⟩ := by
  unfold getMpTable Located
  simp only [← findMpTable_eq_some, ← findMpTable_eq_none]
  cases hlast : findMpTable m LAST_KB_IN_BASE_MEMORY_ADDR MP_FIND_LENGTH with
  | some table =>
    simp only [Option.map_some, Option.some.injEq, reduceCtorEq, false_and, or_false]
    constructor
    · rintro rfl
      exact ⟨table, rfl, rfl⟩
    · rintro ⟨_, rfl, rfl⟩
      rfl
  | none =>
    simp only [Option.map_eq_some_iff, reduceCtorEq, true_and, false_or]
    exact exists_congr fun table => and_congr_right fun _ => eq_comm

end MpTable

open MpTable in
/-- **The processors of the table are reported.** For every content of the memory:
* there is no report exactly if neither area has a candidate that names a table;
* else the report is about the first candidate, of the last kilobyte of base memory if it
  has one; the loop ends, and what it reports is the processors of the entries that the
  memory holds, in their order, up to the first entry that reaches the length;
* so that a table whose length is that of its header and its entries is reported exactly. -/
theorem MpTable.getMpTable_reports (m : Memory) :
    (getMpTable m = none ↔ ∀ i < 64, candidate m LAST_KB_IN_BASE_MEMORY_ADDR i = none ∧
      candidate m FIRST_KB_IN_BASE_MEMORY_ADDR i = none) ∧
    ∀ report, getMpTable m = some report → ∃ table, Located m table ∧
      report.oemId = bytes m (table + 8) 8 ∧ report.productId = bytes m (table + 16) 12 ∧
      (∃ entries, EntriesAt m (table + 44) entries ∧ report.cpus = entries.filterMap Entry.apicId ∧
        (length m table - 44).toNat ≤ size entries ∧ size entries < (length m table - 44).toNat + 20) ∧
      ∀ entries, EntriesAt m (table + 44) entries → (length m table).toNat = 44 + size entries →
        report.cpus = entries.filterMap Entry.apicId := by
  refine ⟨?_, fun report hreport => ?_⟩
  · unfold getMpTable
    rw [Option.map_eq_none_iff]
    cases hlast : findMpTable m LAST_KB_IN_BASE_MEMORY_ADDR MP_FIND_LENGTH with
    | some table =>
      have hne : findMpTable m LAST_KB_IN_BASE_MEMORY_ADDR MP_FIND_LENGTH ≠ none := by
        rw [hlast]
        exact Option.some_ne_none table
      rw [Ne, findMpTable_eq_none] at hne
      exact ⟨fun he => (nomatch he), fun hall => absurd (fun i hi => (hall i hi).1) hne⟩
    | none =>
      rw [findMpTable_eq_none]
      have hnone := (findMpTable_eq_none m LAST_KB_IN_BASE_MEMORY_ADDR).1 hlast
      exact ⟨fun hall i hi => ⟨hnone i hi, hall i hi⟩, fun hall i hi => (hall i hi).2⟩
  · obtain ⟨table, hlocated, rfl⟩ := (getMpTable_eq_some m report).1 hreport
    refine ⟨table, hlocated, rfl, rfl, ?_, ?_⟩
    · obtain ⟨entries, hat, hids, hlow, hhigh, -⟩ :=
        processors_entries m (length m table - 44).toNat (table + 44)
      exact ⟨entries, hat, hids, hlow, hhigh⟩
    · intro entries hat hlen
      have hsize : (length m table - 44).toNat = size entries := by
        have hlt := (length m table).isLt
        rw [BitVec.toNat_sub, hlen, show (44 : BitVec 16).toNat = 44 from rfl]
        omega
      show processors m (length m table - 44).toNat (table + 44) = _
      rw [hsize]
      exact processors_of_entries entries _ hat

end Urchin
