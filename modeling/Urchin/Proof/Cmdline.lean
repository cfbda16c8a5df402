import Urchin.Spec.Cmdline

/-!
# Devices on the command line

The search for the key phrase passes tokens that do not contain it, and stops after exactly
one occurrence more in each round. What follows is cut at the first `@0x`, the first `:`
and the first space (`Reads`), and each part is read by its digits; the accumulators
compute the values modulo their width.

So a device list comes back as it was rendered, for every index but the largest, which makes
`idx + 1` zero (`cmdline_round_trip_iff`). Conversely a success tells where the parts were
found and what they stand for, not that they are well formed (`cmdline_reads_token`).
-/

namespace Urchin

open Text

namespace VirtioMmio

/-! ## The accumulators -/

/-- An accumulator that wraps computes the value modulo its width. -/
theorem foldl_wraps {σ : Type} (wrap : ℕ → σ) {step : σ → Char → σ} {value : ℕ → Char → ℕ}
    (h : ∀ v c, step (wrap v) c = wrap (value v c)) (text : List Char) (v : ℕ) :
    text.foldl step (wrap v) = wrap (text.foldl value v) := by
  induction text generalizing v with
  | nil => rfl
  | cons c text ih => rw [List.foldl_cons, List.foldl_cons, h, ih]

/-- The value of a size, after one more character. -/
def sizeStepValue (v : ℕ) (c : Char) : ℕ :=
  match decimal c, unit c with
  | some d, _ => v * 10 + d
  | none, some u => v * u
  | none, none => v

/-- The value of a size: digits and units from left to right. -/
def sizeValue (text : List Char) : ℕ := text.foldl sizeStepValue 0

theorem foldl_sizeStep (text : List Char) : text.foldl sizeStep 0 = UInt64.ofNat (sizeValue text) := by
  refine foldl_wraps UInt64.ofNat (fun v c => ?_) text 0
  unfold sizeStep sizeStepValue
  cases decimal c with
  | some d => simp
  | none =>
    cases unit c with
    | some u => simp
    | none => rfl

theorem foldl_addrStep (text : List Char) :
    text.foldl addrStep 0 = UInt64.ofNat (digitsValue 16 hexadecimal text) := by
  refine foldl_wraps UInt64.ofNat (fun v c => ?_) text 0
  unfold addrStep
  cases hexadecimal c with
  | some d => simp
  | none => rfl

theorem foldl_irqStep (text : List Char) : text.foldl irqStep 0 = UInt8.ofNat (digitsValue 10 decimal text) := by
  refine foldl_wraps UInt8.ofNat (fun v c => ?_) text 0
  unfold irqStep
  cases decimal c with
  | some d => simp
  | none => rfl

/-! ## Cutting the text -/

/-- `new` after its search for the key phrase. -/
def readAt (mem : UInt64 → UInt32) (cmdline : List Char) (sizeIdx : ℕ) : Except String VirtioMmio := do
  let addrIdx ← findAfter cmdline sizeIdx "@0x"
  let irqIdx ← findAfter cmdline addrIdx ":"
  let tailIdx := findTail cmdline irqIdx
  let sizeVal := (slice cmdline sizeIdx (addrIdx - 3)).foldl sizeStep 0
  let addrVal := (slice cmdline addrIdx (irqIdx - 1)).foldl addrStep 0
  let irqVal := (slice cmdline irqIdx tailIdx).foldl irqStep 0
  if mem addrVal ≠ 0x74726976 then .error "Invalid virtio-mmio device"
  else if mem (addrVal + 4) ≠ 2 then .error "Invalid virtio-mmio device"
  else .ok ⟨addrVal, sizeVal, irqVal, false, false⟩

theorem new_eq (mem : UInt64 → UInt32) (cmdline : List Char) (idx : UInt64) :
    new mem cmdline idx = (keySearch cmdline (idx + 1).toNat 0).bind (readAt mem cmdline) := rfl

/-- The text is cut into a size, an address and an interrupt line, and what is left. -/
structure Reads (text size addr irq after : List Char) : Prop where
  eq : text = size ++ ("@0x".toList ++ (addr ++ ':' :: (irq ++ after)))
  first : find "@0x".toList text = some size.length
  colon : ':' ∉ addr
  space : ' ' ∉ irq
  ends : after = [] ∨ after.head? = some ' '

section Cut

variable {mem : UInt64 → UInt32} {cmdline size addr irq after : List Char} {k : ℕ}

theorem find_singleton {c : Char} {a r : List Char} (h : c ∉ a) : find [c] (a ++ c :: r) = some a.length :=
  find_head h

theorem slice_drop {a r : List Char} (h : cmdline.drop k = a ++ r) : slice cmdline k (k + a.length) = a := by
  rw [slice, h, Nat.add_sub_cancel_left, List.take_left]

/-- The last part ends at a space or at the end of the line. -/
theorem slice_tail (h : cmdline.drop k = irq ++ after) (hspace : ' ' ∉ irq)
    (hends : after = [] ∨ after.head? = some ' ') : slice cmdline k (findTail cmdline k) = irq := by
  have hpat : " ".toList = [' '] := rfl
  rcases hends with rfl | hhead
  · have hnone : find " ".toList (cmdline.drop k) = none := by
      rw [find_eq_none_iff, h, List.append_nil, hpat]
      exact fun hin => hspace (hin.subset List.mem_cons_self)
    rw [findTail, hnone, slice, ← List.length_drop, List.take_length, h, List.append_nil]
  · obtain ⟨r, rfl⟩ : ∃ r, after = ' ' :: r := by
      cases after with
      | nil => cases hhead
      | cons c r => exact ⟨r, by rw [Option.some.inj hhead]⟩
    rw [findTail, h, hpat, find_singleton hspace]
    exact slice_drop h

/-- The device that is made from the three parts. -/
def ofParts (size addr irq : List Char) : VirtioMmio :=
  ⟨UInt64.ofNat (digitsValue 16 hexadecimal addr), UInt64.ofNat (sizeValue size),
    UInt8.ofNat (digitsValue 10 decimal irq), false, false⟩

/-- **What is read from a text that is cut so.** -/
theorem Reads.readAt_ok_iff (h : Reads (cmdline.drop k) size addr irq after) {v : VirtioMmio} :
    readAt mem cmdline k = .ok v ↔
      IsVirtio mem (UInt64.ofNat (digitsValue 16 hexadecimal addr)) ∧ v = ofParts size addr irq := by
  have haddrIdx : findAfter cmdline k "@0x" = .ok (k + size.length + 3) := by
    rw [findAfter, h.first]
    rfl
  have haddr : cmdline.drop (k + size.length + 3) = addr ++ ':' :: (irq ++ after) := by
    rw [← List.drop_drop, ← List.drop_drop, h.eq, List.drop_left]
    rfl
  have hirqIdx : findAfter cmdline (k + size.length + 3) ":" = .ok (k + size.length + 3 + addr.length + 1) := by
    rw [findAfter, haddr, show ":".toList = [':'] from rfl, find_singleton h.colon]
    rfl
  have hirq : cmdline.drop (k + size.length + 3 + addr.length + 1) = irq ++ after := by
    rw [← List.drop_drop, ← List.drop_drop, haddr, List.drop_left]
    rfl
  have hsizeText : slice cmdline k (k + size.length + 3 - 3) = size := slice_drop h.eq
  have haddrText : slice cmdline (k + size.length + 3) (k + size.length + 3 + addr.length + 1 - 1) = addr :=
    slice_drop haddr
  have hirqText : slice cmdline (k + size.length + 3 + addr.length + 1)
      (findTail cmdline (k + size.length + 3 + addr.length + 1)) = irq := slice_tail hirq h.space h.ends
  rw [readAt, haddrIdx]
  change (findAfter cmdline (k + size.length + 3) ":").bind _ = .ok v ↔ _
  rw [hirqIdx]
  simp only [Except.bind, hsizeText, haddrText, hirqText, foldl_sizeStep, foldl_addrStep, foldl_irqStep]
  unfold IsVirtio
  split
  · rename_i hmagic
    exact ⟨fun he => (nomatch he), fun he => absurd he.1.1 hmagic⟩
  · rename_i hmagic
    split
    · rename_i hversion
      exact ⟨fun he => (nomatch he), fun he => absurd he.1.2 hversion⟩
    · rename_i hversion
      rw [Except.ok.injEq, ofParts]
      exact ⟨fun he => ⟨⟨not_not.1 hmagic, not_not.1 hversion⟩, he.symm⟩, fun he => he.2.symm⟩

/-- Where the offset search finds something, the text is cut there. -/
theorem findAfter_ok {pat : String} {k' : ℕ} (h : findAfter cmdline k pat = .ok k') : ∃ a r,
    cmdline.drop k = a ++ (pat.toList ++ r) ∧ find pat.toList (cmdline.drop k) = some a.length ∧
      k' = k + a.length + pat.toList.length ∧ cmdline.drop k' = r := by
  unfold findAfter at h
  split at h
  · rename_i i hi
    obtain rfl := Except.ok.inj h
    have hle := (find_eq_some_iff.1 hi).2.2
    have hlen : ((cmdline.drop k).take i).length = i := by rw [List.length_take, min_eq_left hle]
    refine ⟨(cmdline.drop k).take i, (cmdline.drop k).drop (i + pat.toList.length), find_split hi, ?_, ?_, ?_⟩
    · rw [hlen]
      exact hi
    · rw [hlen]
    · rw [List.drop_drop, add_assoc]
  · cases h

theorem not_mem_of_find {c : Char} {a r : List Char} (h : find [c] (a ++ ([c] ++ r)) = some a.length) : c ∉ a := by
  intro hin
  obtain ⟨x, y, rfl⟩ := List.append_of_mem hin
  obtain ⟨-, hfirst, -⟩ := find_eq_some_iff.1 h
  refine hfirst x.length (by rw [List.length_append, List.length_cons]; omega) ?_
  rw [List.append_assoc, List.drop_left]
  exact ⟨y ++ ([c] ++ r), rfl⟩

/-- A text up to its first space. -/
theorem exists_token (text : List Char) : ∃ token after, text = token ++ after ∧ ' ' ∉ token ∧
    (after = [] ∨ after.head? = some ' ') := by
  induction text with
  | nil => exact ⟨[], [], rfl, List.not_mem_nil, .inl rfl⟩
  | cons c text ih =>
    by_cases hc : c = ' '
    · exact ⟨[], c :: text, rfl, List.not_mem_nil, .inr (by rw [hc]; rfl)⟩
    · obtain ⟨token, after, rfl, htoken, hafter⟩ := ih
      refine ⟨c :: token, after, rfl, ?_, hafter⟩
      rw [List.mem_cons, not_or]
      exact ⟨Ne.symm hc, htoken⟩

/-- **A success has cut the text.** -/
theorem readAt_ok {v : VirtioMmio} (h : readAt mem cmdline k = .ok v) :
    ∃ size addr irq after, Reads (cmdline.drop k) size addr irq after := by
  unfold readAt at h
  cases haddrIdx : findAfter cmdline k "@0x" with
  | error e => rw [haddrIdx] at h; cases h
  | ok addrIdx =>
    rw [haddrIdx] at h
    replace h : (findAfter cmdline addrIdx ":").bind _ = .ok v := h
    cases hirqIdx : findAfter cmdline addrIdx ":" with
    | error e => rw [hirqIdx] at h; cases h
    | ok irqIdx =>
      obtain ⟨size, rest, hsize, hfirst, -, hrest⟩ := findAfter_ok haddrIdx
      obtain ⟨addr, rest', haddr, hcolon, -, -⟩ := findAfter_ok hirqIdx
      obtain ⟨irq, after, rfl, hspace, hends⟩ := exists_token rest'
      refine ⟨size, addr, irq, after, ?_, hfirst, ?_, hspace, hends⟩
      · rw [hsize, ← hrest, haddr]
        rfl
      · rw [haddr] at hcolon
        exact not_mem_of_find hcolon

end Cut

/-! ## The search for the key phrase -/

section Search

variable {cmdline : List Char} {k n : ℕ}

/-- What follows a token: nothing, or a space and the other tokens. -/
def following : List Token → List Char
  | [] => []
  | t :: tokens => ' ' :: render (t :: tokens)

theorem render_cons (t : Token) (tokens : List Token) : render (t :: tokens) = t.text ++ following tokens := by
  cases tokens with
  | nil => exact (List.append_nil _).symm
  | cons t' tokens => rfl

theorem following_ends (tokens : List Token) : following tokens = [] ∨ (following tokens).head? = some ' ' := by
  cases tokens with
  | nil => exact .inl rfl
  | cons t tokens => exact .inr rfl

theorem drop_token {t r : List Char} (h : cmdline.drop k = t ++ ' ' :: r) : cmdline.drop (k + (t.length + 1)) = r := by
  rw [← add_assoc, ← List.drop_drop, ← List.drop_drop, h, List.drop_left]
  rfl

/-- A text without the key phrase is passed over. -/
theorem keySearch_skip {t r : List Char} (h : cmdline.drop k = t ++ ' ' :: r) (ht : ¬ keyphrase <:+: t) (n : ℕ) :
    keySearch cmdline (n + 1) k = keySearch cmdline (n + 1) (k + (t.length + 1)) := by
  rw [keySearch, keySearch, h, drop_token h, find_token ht (by decide)]
  cases find keyphrase r with
  | none => rfl
  | some j =>
    simp only [Option.map_some]
    congr 1
    omega

/-- From offset `k` on, the search finds the `n`-th of these devices, and nothing if there are
fewer. -/
structure Finds (cmdline : List Char) (ds : List DeviceToken) (n k : ℕ) : Prop where
  found : ∀ d, ds[n]? = some d → ∃ k' after, keySearch cmdline (n + 1) k = .ok k' ∧
    cmdline.drop k' = d.body ++ after ∧ (after = [] ∨ after.head? = some ' ')
  missing : ds.length ≤ n → keySearch cmdline (n + 1) k = .error "virtio-mmio is not found"

theorem Finds.pass {tokens : List Token} {t : List Char} (h : cmdline.drop k = t ++ following tokens)
    (ht : ¬ keyphrase <:+: t)
    (ih : ∀ k, cmdline.drop k = render tokens → Finds cmdline (devices tokens) n k) :
    Finds cmdline (devices tokens) n k := by
  cases tokens with
  | nil =>
    have hnone : find keyphrase (cmdline.drop k) = none := by
      rw [find_eq_none_iff, h, following, List.append_nil]
      exact ht
    refine ⟨fun d hd => (by cases hd), fun _ => ?_⟩
    rw [keySearch, hnone]
  | cons t' tokens =>
    have hskip := keySearch_skip h ht n
    obtain ⟨hfound, hmissing⟩ := ih _ (drop_token h)
    exact ⟨by rwa [← hskip] at hfound, by rwa [← hskip] at hmissing⟩

theorem not_mem_of_digits {digit : Char → Option ℕ} {text : List Char} (h : ∀ c ∈ text, (digit c).isSome) {c : Char}
    (hc : digit c = none) : c ∉ text := by
  intro hin
  have hsome := h c hin
  rw [hc] at hsome
  cases hsome

theorem not_mem_sizeText (d : DeviceToken) {c : Char} (h1 : decimal c = none) (h2 : unit c = none) :
    c ∉ d.size ++ d.sizeUnit.toList := by
  rw [List.mem_append, not_or, Option.mem_toList]
  refine ⟨not_mem_of_digits d.sizeDigits h1, fun hin => ?_⟩
  have hsome := d.unitLetter c hin
  rw [h2] at hsome
  cases hsome

/-- The text of a device has digits, units and delimiters only. -/
theorem not_mem_body (d : DeviceToken) {c : Char} (h1 : decimal c = none) (h2 : unit c = none)
    (h3 : hexadecimal c = none) (h4 : c ∉ "@0x:".toList) : c ∉ d.body := by
  intro hc
  rcases List.mem_append.1 hc with hsize | hc
  · exact not_mem_sizeText d h1 h2 hsize
  rcases List.mem_append.1 hc with hdelim | hc
  · exact h4 (List.mem_append_left [':'] hdelim)
  rcases List.mem_append.1 hc with haddr | hc
  · exact not_mem_of_digits d.addrDigits h3 haddr
  rcases List.mem_cons.1 hc with hcolon | hirq
  · exact h4 (hcolon ▸ List.mem_append_right "@0x".toList List.mem_cons_self)
  · exact not_mem_of_digits d.irqDigits h1 hirq

/-- It does not contain the key phrase: it has no `v`. -/
theorem keyphrase_not_infix_body (d : DeviceToken) : ¬ keyphrase <:+: d.body := by
  intro hin
  have hv : 'v' ∈ d.body := hin.subset (by decide)
  exact not_mem_body d rfl rfl rfl (by decide) hv

/-- **The search finds the devices, in order.** -/
theorem finds_render (tokens : List Token) : ∀ n k, cmdline.drop k = render tokens →
    Finds cmdline (devices tokens) n k := by
  induction tokens with
  | nil =>
    intro n k h
    have hnone : find keyphrase (cmdline.drop k) = none := by rw [h]; rfl
    refine ⟨fun d hd => (by cases hd), fun _ => ?_⟩
    rw [keySearch, hnone]
  | cons t tokens ih =>
    intro n k h
    rw [render_cons] at h
    cases t with
    | other text hspace hkey =>
      change Finds cmdline (devices tokens) n k
      exact Finds.pass h hkey (ih n)
    | device d =>
      have hfind : find keyphrase (cmdline.drop k) = some 0 := by
        rw [h]
        exact find_at_start ⟨d.body ++ following tokens, (List.append_assoc _ _ _).symm⟩
      have hrest : cmdline.drop (k + (0 + keyphrase.length)) = d.body ++ following tokens := by
        rw [Nat.zero_add, ← List.drop_drop, h, Token.text, List.append_assoc, List.drop_left]
      have hstep : ∀ n, keySearch cmdline (n + 1) k = keySearch cmdline n (k + (0 + keyphrase.length)) := by
        intro n
        rw [keySearch, hfind]
      -- the phrase counts once, and the search goes on behind it
      cases n with
      | zero =>
        refine ⟨fun d' hd' => ?_, fun hle => absurd hle (Nat.not_succ_le_zero _)⟩
        obtain rfl : d = d' := Option.some.inj hd'
        exact ⟨_, following tokens, hstep 0, hrest, following_ends tokens⟩
      | succ n =>
        obtain ⟨hfound, hmissing⟩ := Finds.pass hrest (keyphrase_not_infix_body d) (ih n)
        refine ⟨fun d' hd' => ?_, fun hle => ?_⟩
        · rw [hstep]
          exact hfound d' hd'
        · rw [hstep]
          exact hmissing (Nat.le_of_succ_le_succ hle)

end Search

/-! ## What the text of a device stands for -/

theorem body_reads (d : DeviceToken) {after : List Char} (h : after = [] ∨ after.head? = some ' ') :
    Reads (d.body ++ after) (d.size ++ d.sizeUnit.toList) d.addr d.irq after where
  eq := by simp [DeviceToken.body]
  first := by
    have hat : '@' ∉ d.size ++ d.sizeUnit.toList := not_mem_sizeText d rfl rfl
    rw [DeviceToken.body, show "@0x".toList = '@' :: ['0', 'x'] from rfl,
      List.append_assoc (d.size ++ d.sizeUnit.toList), List.append_assoc ['@', '0', 'x']]
    exact find_head hat
  colon := not_mem_of_digits d.addrDigits rfl
  space := not_mem_of_digits d.irqDigits rfl
  ends := h

theorem unit_not_decimal {c : Char} (h : (unit c).isSome) : decimal c = none := by
  unfold unit at h
  split at h
  · rfl
  · rfl
  · rfl
  · rfl
  · cases h

theorem sizeValue_text (d : DeviceToken) : sizeValue (d.size ++ d.sizeUnit.toList) = d.sizeBytes := by
  have hdigits : d.size.foldl sizeStepValue 0 = digitsValue 10 decimal d.size := by
    refine List.foldl_ext _ _ 0 fun v c hc => ?_
    obtain ⟨n, hn⟩ := Option.isSome_iff_exists.1 (d.sizeDigits c hc)
    simp only [sizeStepValue, hn, Option.map_some, Option.getD_some]
  rw [sizeValue, List.foldl_append, hdigits, DeviceToken.sizeBytes]
  cases hu : d.sizeUnit with
  | none => exact (Nat.mul_one _).symm
  | some c =>
    have hunit := d.unitLetter c hu
    obtain ⟨u, hc⟩ := Option.isSome_iff_exists.1 hunit
    simp only [Option.toList_some, List.foldl_cons, List.foldl_nil, sizeStepValue, unit_not_decimal hunit, hc,
      Option.bind_some, Option.getD_some]

theorem hexadecimal_lt {c : Char} {d : ℕ} (h : hexadecimal c = some d) : d < 16 := by
  unfold hexadecimal at h
  split at h <;> cases h <;> decide

/-- A value of `n` digits. -/
theorem digitsValue_lt (text : List Char) : digitsValue 16 hexadecimal text < 16 ^ text.length := by
  have hfold : ∀ v, text.foldl (fun v c => ((hexadecimal c).map fun d => v * 16 + d).getD v) v <
      (v + 1) * 16 ^ text.length := by
    induction text with
    | nil => intro v; simp
    | cons c text ih =>
      intro v
      rw [List.foldl_cons, List.length_cons]
      have hstep : ((hexadecimal c).map fun d => v * 16 + d).getD v + 1 ≤ (v + 1) * 16 := by
        cases hc : hexadecimal c with
        | none => simp only [Option.map_none, Option.getD_none]; omega
        | some d =>
          have hd := hexadecimal_lt hc
          simp only [Option.map_some, Option.getD_some]
          omega
      refine lt_of_lt_of_le (ih _) ((Nat.mul_le_mul_right _ hstep).trans_eq ?_)
      ring
  have h := hfold 0
  rwa [Nat.zero_add, Nat.one_mul] at h

theorem addrValue_lt (d : DeviceToken) : d.addrValue < 2 ^ 64 :=
  calc d.addrValue < 16 ^ d.addr.length := digitsValue_lt d.addr
    _ ≤ 16 ^ 16 := Nat.pow_le_pow_right (by decide) d.addrLength.2
    _ = 2 ^ 64 := by norm_num

/-- The device is the one the token describes. -/
structure Describes (v : VirtioMmio) (d : DeviceToken) : Prop where
  addr : v.addr.toNat = d.addrValue
  size : v.size.toNat = d.sizeBytes
  irq : v.irq.toNat = d.irqValue

/-- The text of a device is read as this device. -/
theorem readAt_body {mem : UInt64 → UInt32} {cmdline after : List Char} {k : ℕ} (d : DeviceToken)
    (h : cmdline.drop k = d.body ++ after) (hends : after = [] ∨ after.head? = some ' ')
    (hmem : IsVirtio mem (UInt64.ofNat d.addrValue)) : ∃ v, readAt mem cmdline k = .ok v ∧ Describes v d := by
  have hreads := body_reads d hends
  rw [← h] at hreads
  refine ⟨_, hreads.readAt_ok_iff.2 ⟨hmem, rfl⟩, ?_, ?_, ?_⟩
  · exact UInt64.toNat_ofNat_of_lt' (addrValue_lt d)
  · rw [ofParts, sizeValue_text]
    exact UInt64.toNat_ofNat_of_lt' d.sizeFits
  · exact UInt8.toNat_ofNat_of_lt' (Nat.lt_succ_of_le d.irqFits)

end VirtioMmio

/-! ## The round trip -/

/-- For index `i`, the device list of a command line comes back: the `i`-th device if there is
one in memory, and an error past the end. -/
structure RoundTrips (mem : UInt64 → UInt32) (tokens : List Token) (i : UInt64) : Prop where
  found : ∀ d, (devices tokens)[i.toNat]? = some d → IsVirtio mem (UInt64.ofNat d.addrValue) →
    ∃ v, VirtioMmio.new mem (render tokens) i = .ok v ∧ v.Describes d
  missing : (devices tokens).length ≤ i.toNat → ∃ e, VirtioMmio.new mem (render tokens) i = .error e

/-- The command line, read from its start and not after a key phrase, has the delimiters, and
the digits between them are the address of a device. -/
def DeviceAtStart (mem : UInt64 → UInt32) (cmdline : List Char) : Prop :=
  ∃ size addr irq after, VirtioMmio.Reads cmdline size addr irq after ∧
    IsVirtio mem (UInt64.ofNat (digitsValue 16 hexadecimal addr))

theorem devices_length_le (tokens : List Token) : (devices tokens).length ≤ (render tokens).length := by
  induction tokens with
  | nil => exact le_rfl
  | cons t tokens ih =>
    have hrest : (render tokens).length ≤ (VirtioMmio.following tokens).length := by
      cases tokens with
      | nil => exact le_rfl
      | cons t' tokens => exact Nat.le_succ _
    rw [VirtioMmio.render_cons, List.length_append]
    cases t with
    | device d =>
      have hkey : 0 < (Token.device d).text.length := by
        rw [Token.text, List.length_append]
        exact Nat.lt_of_lt_of_le (by decide) (Nat.le_add_right _ _)
      have hlen : (devices (.device d :: tokens)).length = (devices tokens).length + 1 := rfl
      omega
    | other text hspace hkey =>
      have hlen : (devices (.other text hspace hkey :: tokens)).length = (devices tokens).length := rfl
      omega

theorem toNat_succ {i : UInt64} (hi : i.toNat ≠ 2 ^ 64 - 1) : (i + 1).toNat = i.toNat + 1 := by
  have hlt := i.toNat_lt
  rw [UInt64.toNat_add]
  exact Nat.mod_eq_of_lt (by change i.toNat + 1 < 2 ^ 64; omega)

/-- **The device list on the command line round-trips**, for every list of devices, any other
tokens around them and every index: exactly if the index is not the largest `usize`, which
makes `idx + 1` zero so that no key phrase is searched, or there is no device to be read from
the start of the line. No string has `2 ^ 63` bytes. -/
theorem cmdline_round_trip_iff (mem : UInt64 → UInt32) (tokens : List Token) (i : UInt64)
    (hlen : (render tokens).length < 2 ^ 63) :
    RoundTrips mem tokens i ↔ (i.toNat = 2 ^ 64 - 1 → ¬ DeviceAtStart mem (render tokens)) := by
  have hdevices := devices_length_le tokens
  by_cases hi : i.toNat = 2 ^ 64 - 1
  · -- no search is made, and the line is read from its start
    have hzero : (i + 1).toNat = 0 := by
      rw [UInt64.toNat_add, hi]
      rfl
    have hnew : VirtioMmio.new mem (render tokens) i = VirtioMmio.readAt mem (render tokens) 0 := by
      rw [VirtioMmio.new_eq, hzero]
      rfl
    constructor
    · rintro ⟨-, hmissing⟩ - ⟨size, addr, irq, after, hreads, hmem⟩
      obtain ⟨e, he⟩ := hmissing (by omega)
      rw [hnew, (VirtioMmio.Reads.readAt_ok_iff (k := 0) hreads).2 ⟨hmem, rfl⟩] at he
      cases he
    · intro hstart
      refine ⟨fun d hd _ => ?_, fun _ => ?_⟩
      · have hlt := (List.getElem?_eq_some_iff.1 hd).1
        omega
      · cases he : VirtioMmio.readAt mem (render tokens) 0 with
        | error e => exact ⟨e, hnew.trans he⟩
        | ok v =>
          obtain ⟨size, addr, irq, after, hreads⟩ := VirtioMmio.readAt_ok he
          exact absurd ⟨size, addr, irq, after, hreads, (hreads.readAt_ok_iff.1 he).1⟩ (hstart hi)
  · have hsucc := toNat_succ hi
    obtain ⟨hfound, hmissing⟩ := VirtioMmio.finds_render tokens i.toNat 0
      (show (render tokens).drop 0 = render tokens from rfl)
    refine ⟨fun _ he => absurd he hi, fun _ => ⟨fun d hd hmem => ?_, fun hle => ?_⟩⟩
    · obtain ⟨k', after, hkey, hdrop, hends⟩ := hfound d hd
      obtain ⟨v, hv, hdescribes⟩ := VirtioMmio.readAt_body d hdrop hends hmem
      refine ⟨v, ?_, hdescribes⟩
      rw [VirtioMmio.new_eq, hsucc, hkey]
      exact hv
    · refine ⟨"virtio-mmio is not found", ?_⟩
      rw [VirtioMmio.new_eq, hsucc, hmissing hle]
      rfl

/-- `4k@0xd0000000:5`. -/
def firstDevice : DeviceToken where
  size := "4".toList
  sizeUnit := some 'k'
  addr := "d0000000".toList
  irq := "5".toList
  sizeDigits := List.all_eq_true.1 (by decide)
  unitLetter := fun c hc => by cases hc; rfl
  addrDigits := List.all_eq_true.1 (by decide)
  irqDigits := List.all_eq_true.1 (by decide)
  addrLength := by decide
  sizeFits := by decide
  irqFits := by decide

/-- A device is at `0xd0000000`. -/
def oneDevice (addr : UInt64) : UInt32 :=
  if addr = 0xd0000000 then 0x74726976 else if addr = 0xd0000004 then 2 else 0

theorem cmdline_round_trip_quiet : ∃ v,
    VirtioMmio.new oneDevice "quiet virtio_mmio.device=4k@0xd0000000:5".toList 0 = .ok v ∧ v.addr.toNat = 0xd0000000 ∧
      v.size.toNat = 4096 ∧ v.irq.toNat = 5 := by
  have htrip := (cmdline_round_trip_iff oneDevice [.other "quiet".toList (by decide) (by decide), .device firstDevice] 0
    (by decide)).2 fun he => absurd he (by decide)
  obtain ⟨v, hv, hdescribes⟩ := htrip.found firstDevice rfl ⟨by decide, by decide⟩
  exact ⟨v, hv, hdescribes.addr, hdescribes.size, hdescribes.irq⟩

/-- **Index `usize::MAX` on a command line with one device**: the device is returned. -/
theorem cmdline_last_index :
    VirtioMmio.new oneDevice (render [.device firstDevice]) 0xffffffffffffffff =
      .ok ⟨0xd0000000, 4096, 5, false, false⟩ ∧
    ¬ RoundTrips oneDevice [.device firstDevice] 0xffffffffffffffff := by
  have hnew : VirtioMmio.new oneDevice (render [.device firstDevice]) 0xffffffffffffffff =
      .ok ⟨0xd0000000, 4096, 5, false, false⟩ := by decide +kernel
  refine ⟨hnew, fun h => ?_⟩
  obtain ⟨e, he⟩ := h.missing (by decide)
  rw [hnew] at he
  cases he

/-! ## What a success tells -/

theorem VirtioMmio.keySearch_count {cmdline : List Char} {n : ℕ} : ∀ {k k' : ℕ},
    keySearch cmdline (n + 1) k = .ok k' → ∃ p, k' = p + keyphrase.length ∧ keyphrase <+: cmdline.drop p ∧
      count keyphrase cmdline p = count keyphrase cmdline k + n := by
  have hborder : NoBorder keyphrase := by decide
  induction n with
  | zero =>
    intro k k' h
    unfold keySearch at h
    split at h
    · rename_i j hj
      obtain rfl := Except.ok.inj h
      have hat := (find_eq_some_iff.1 hj).1
      rw [List.drop_drop] at hat
      exact ⟨k + j, (add_assoc k j _).symm, hat, (count_find hborder (by decide) hj).1⟩
    · cases h
  | succ n ih =>
    intro k k' h
    rw [keySearch] at h
    split at h
    · rename_i j hj
      obtain ⟨p, hp, hat, hcount⟩ := ih h
      refine ⟨p, hp, hat, ?_⟩
      rw [hcount, (count_find hborder (by decide) hj).2]
      omega
    · cases h

/-- **What a success of `new` tells.** The text after the `i`-th key phrase has an `@0x` and
after it a `:`. The address is the value of the hexadecimal digits between the first of
them; the size the value of the decimal digits and units before, and the interrupt line
that of the decimal digits from the `:` to the next space, in their order, where these
values fit. Other characters there are skipped, and those elsewhere play no part. -/
theorem cmdline_reads_token {mem : UInt64 → UInt32} {cmdline : List Char} {i : UInt64} {v : VirtioMmio}
    (hi : i.toNat ≠ 2 ^ 64 - 1) (h : VirtioMmio.new mem cmdline i = .ok v) :
    ∃ before text size addr irq after, cmdline = before ++ (VirtioMmio.keyphrase ++ text) ∧
      count VirtioMmio.keyphrase cmdline before.length = i.toNat ∧
      VirtioMmio.Reads text size addr irq after ∧ IsVirtio mem v.addr ∧
      (digitsValue 16 hexadecimal addr < 2 ^ 64 → v.addr.toNat = digitsValue 16 hexadecimal addr) ∧
      (VirtioMmio.sizeValue size < 2 ^ 64 → v.size.toNat = VirtioMmio.sizeValue size) ∧
      (digitsValue 10 decimal irq < 2 ^ 8 → v.irq.toNat = digitsValue 10 decimal irq) := by
  rw [VirtioMmio.new_eq, toNat_succ hi] at h
  cases hkey : VirtioMmio.keySearch cmdline (i.toNat + 1) 0 with
  | error e => rw [hkey] at h; cases h
  | ok sizeIdx =>
    rw [hkey] at h
    replace h : VirtioMmio.readAt mem cmdline sizeIdx = .ok v := h
    obtain ⟨p, rfl, ⟨text, htext⟩, hcount⟩ := VirtioMmio.keySearch_count hkey
    obtain ⟨size, addr, irq, after, hreads⟩ := VirtioMmio.readAt_ok h
    obtain ⟨hmem, rfl⟩ := hreads.readAt_ok_iff.1 h
    have hdrop : cmdline.drop (p + VirtioMmio.keyphrase.length) = text := by
      rw [← List.drop_drop, ← htext, List.drop_left]
    have hle : p ≤ cmdline.length := by
      by_contra hlt
      rw [List.drop_eq_nil_of_le (by omega)] at htext
      exact absurd htext (List.append_ne_nil_of_left_ne_nil (by decide) text)
    rw [hdrop] at hreads
    refine ⟨cmdline.take p, text, size, addr, irq, after, ?_, ?_, hreads, hmem, fun hlt => ?_, fun hlt => ?_,
      fun hlt => ?_⟩
    · rw [htext, List.take_append_drop]
    · rw [List.length_take, min_eq_left hle, hcount]
      exact Nat.zero_add _
    · exact UInt64.toNat_ofNat_of_lt' hlt
    · exact UInt64.toNat_ofNat_of_lt' hlt
    · exact UInt8.toNat_ofNat_of_lt' hlt

theorem cmdline_reads_token_second : ∃ before text size addr irq after,
    "virtio_mmio.device=1M@0xd0001000:6 virtio_mmio.device=4k@0xd0000000:5".toList =
      before ++ (VirtioMmio.keyphrase ++ text) ∧ VirtioMmio.Reads text size addr irq after ∧
    (digitsValue 10 decimal irq < 2 ^ 8 → 5 = digitsValue 10 decimal irq) := by
  have hnew : VirtioMmio.new oneDevice
      "virtio_mmio.device=1M@0xd0001000:6 virtio_mmio.device=4k@0xd0000000:5".toList 1 =
      .ok ⟨0xd0000000, 4096, 5, false, false⟩ := by decide +kernel
  obtain ⟨before, text, size, addr, irq, after, heq, -, hreads, -, -, -, hirq⟩ :=
    cmdline_reads_token (by decide : (1 : UInt64).toNat ≠ 2 ^ 64 - 1) hnew
  exact ⟨before, text, size, addr, irq, after, heq, hreads, hirq⟩

/-- **Texts that are no device are accepted**: a `q` in the size is skipped, and the delimiters
are found in the next token. -/
theorem malformed_token_accepted :
    (VirtioMmio.new oneDevice "virtio_mmio.device=4kq@0xd0000000:5".toList 0 =
        .ok ⟨0xd0000000, 4096, 5, false, false⟩ ∧
      ∀ d : DeviceToken, d.body ≠ "4kq@0xd0000000:5".toList) ∧
    (VirtioMmio.new oneDevice "virtio_mmio.device=4k @0xd0000000:5".toList 0 =
        .ok ⟨0xd0000000, 4096, 5, false, false⟩ ∧
      ∀ d : DeviceToken, d.body ≠ "4k".toList) := by
  refine ⟨⟨by decide +kernel, fun d hd => ?_⟩, by decide +kernel, fun d hd => ?_⟩
  · have hq : 'q' ∉ d.body := VirtioMmio.not_mem_body d rfl rfl rfl (by decide)
    rw [hd] at hq
    exact hq (by decide)
  · have hat : '@' ∈ d.body := List.mem_append_right _ (List.mem_append_left _ (by decide))
    rw [hd] at hat
    exact absurd hat (by decide)

end Urchin
