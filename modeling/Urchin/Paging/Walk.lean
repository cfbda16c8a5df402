import Urchin.Stack.Memory

/-!
# Page walks of long mode

A virtual address of 48 bits goes through four tables of 512 entries, from level 3 down to
level 0; an entry with the page-size bit ends the walk at level 2 or 1. A walk gives the
physical address, what may be done there, and the entries it has read, which the processor
marks as accessed, and the last one as dirty when it writes.

* `walk_next`, `walk_large`, `walk_absent`: one level of a walk.
* `Walk.Marked`: the processor has nothing to write back.
-/

namespace Urchin.Paging

open Stack

/-! ## Entries -/

abbrev Entry := BitVec 64

namespace Entry

def present (e : Entry) : Bool := e.getLsbD 0

def writable (e : Entry) : Bool := e.getLsbD 1

def user (e : Entry) : Bool := e.getLsbD 2

def accessed (e : Entry) : Bool := e.getLsbD 5

def dirty (e : Entry) : Bool := e.getLsbD 6

def large (e : Entry) : Bool := e.getLsbD 7

def noExecute (e : Entry) : Bool := e.getLsbD 63

/-- The bits of the address, up to 52, with the lowest `shift` of them zero. -/
def frame (e : Entry) (shift : ℕ) : ℕ := e.toNat / 2 ^ shift % 2 ^ (52 - shift) * 2 ^ shift

/-- The bits between those of the flags and the address of a large page. -/
def reserved (e : Entry) (shift : ℕ) : ℕ := e.toNat / 2 ^ 13 % 2 ^ (shift - 13)

end Entry

/-! ## Walks -/

structure Rights where
  write : Bool
  user : Bool
  execute : Bool
  deriving DecidableEq

def Rights.all : Rights := ⟨true, true, true⟩

/-- What is left of the rights behind an entry. -/
def Rights.meet (r : Rights) (e : Entry) : Rights :=
  ⟨r.write && e.writable, r.user && e.user, r.execute && !e.noExecute⟩

/-- Where a walk ends, and the entries it has read. -/
structure Walk where
  addr : BitVec 64
  rights : Rights
  entries : List Entry
  deriving DecidableEq

/-- The first bit of the address that a table of this level does not decide. -/
def shift (level : ℕ) : ℕ := 12 + 9 * level

/-- The entry of the table at `table` for an address. -/
def entry (m : Memory) (va : BitVec 64) (level table : ℕ) : Entry :=
  load 64 m (BitVec.ofNat 64 (table + 8 * (va.toNat / 2 ^ shift level % 512)))

/-- The address on the page of an entry. -/
def Entry.page (e : Entry) (va : BitVec 64) (level : ℕ) : BitVec 64 :=
  BitVec.ofNat 64 (e.frame (shift level) + va.toNat % 2 ^ shift level)

/-- A walk from the table at `table`, with what the tables above have left. -/
def walk (m : Memory) (va : BitVec 64) (level table : ℕ) (rights : Rights) (entries : List Entry) : Option Walk :=
  let e := entry m va level table
  if e.present then
    match level with
    | 0 => some ⟨e.page va 0, rights.meet e, entries ++ [e]⟩
    | level + 1 =>
      if e.large then
        if level + 1 ≤ 2 ∧ e.reserved (shift (level + 1)) = 0 then
          some ⟨e.page va (level + 1), rights.meet e, entries ++ [e]⟩
        else none
      else walk m va level (e.frame 12) (rights.meet e) (entries ++ [e])
  else none

/-- An address of 48 bits, with its sign. -/
def Canonical (va : BitVec 64) : Prop := va.toNat < 2 ^ 47 ∨ 2 ^ 64 - 2 ^ 47 ≤ va.toNat

instance (va : BitVec 64) : Decidable (Canonical va) := inferInstanceAs (Decidable (_ ∨ _))

/-- What the processor makes of a virtual address. -/
def resolve (m : Memory) (cr3 va : BitVec 64) : Option Walk :=
  if Canonical va then walk m va 3 (Entry.frame cr3 12) .all [] else none

/-- Every entry is marked already, also for a write. -/
def Walk.Marked (w : Walk) : Prop := (∀ e ∈ w.entries, e.accessed) ∧ ∀ e ∈ w.entries.getLast?, e.dirty

/-! ## One level -/

variable {m : Memory} {va : BitVec 64} {level table : ℕ} {rights : Rights} {entries : List Entry}

theorem walk_absent (h : (entry m va level table).present = false) : walk m va level table rights entries = none := by
  unfold walk
  simp only [h, Bool.false_eq_true, if_false]

theorem walk_next (hp : (entry m va (level + 1) table).present) (hl : (entry m va (level + 1) table).large = false) :
    walk m va (level + 1) table rights entries =
      walk m va level ((entry m va (level + 1) table).frame 12) (rights.meet (entry m va (level + 1) table))
        (entries ++ [entry m va (level + 1) table]) := by
  rw [walk]
  simp only [hp, hl, Bool.false_eq_true, if_true, if_false]

theorem walk_large (hp : (entry m va (level + 1) table).present) (hl : (entry m va (level + 1) table).large)
    (hlevel : level + 1 ≤ 2) (hr : (entry m va (level + 1) table).reserved (shift (level + 1)) = 0) :
    walk m va (level + 1) table rights entries = some ⟨(entry m va (level + 1) table).page va (level + 1),
      rights.meet (entry m va (level + 1) table), entries ++ [entry m va (level + 1) table]⟩ := by
  rw [walk]
  simp only [hp, hl, if_true, if_pos (And.intro hlevel hr)]

end Urchin.Paging
