import Urchin.Spec.Fib

/-!
# The adjacency tables

What a sequence of registrations leaves for a key, in closed form: the first permanent
registration of the key, or else the last one (`foldl_registerAdjacent`). The three tables
of the source have the same rule; the MAC table stores the key as the address
(`adjacency_registration_law`).
-/

namespace Urchin

section

variable {κ : Type} [DecidableEq κ] {t : AdjacentTable κ} {key : κ} {info : AdjacentInformation}

/-! ## One registration -/

theorem registerAdjacent_permanent {adj : AdjacentInformation} (h : t key = some adj)
    (hp : adj.expireTime = none) : registerAdjacent t key info = t := by
  unfold registerAdjacent
  rw [h]
  simp only [hp]

theorem registerAdjacent_replaces (h : ∀ adj, t key = some adj → adj.expireTime ≠ none) :
    registerAdjacent t key info = Function.update t key (some info) := by
  unfold registerAdjacent
  cases hk : t key with
  | none => rfl
  | some adj =>
    cases he : adj.expireTime with
    | none => exact absurd he (h adj hk)
    | some e => simp only [he]

theorem registerAdjacent_of_ne {x : κ} (h : x ≠ key) : registerAdjacent t key info x = t x := by
  by_cases hp : ∃ adj, t key = some adj ∧ adj.expireTime = none
  · obtain ⟨adj, hk, he⟩ := hp
    rw [registerAdjacent_permanent hk he]
  · rw [registerAdjacent_replaces fun adj hk he => hp ⟨adj, hk, he⟩, Function.update_of_ne h]

/-- The entry of a key depends on the entry it had. -/
theorem registerAdjacent_self (t : AdjacentTable κ) (key : κ) (info : AdjacentInformation) :
    registerAdjacent t key info key =
      match t key with
      | some adj => if adj.expireTime = none then some adj else some info
      | none => some info := by
  cases h : t key with
  | none => rw [registerAdjacent_replaces (by rw [h]; simp), Function.update_self]
  | some adj =>
    simp only
    split
    · rename_i he
      rw [registerAdjacent_permanent h he, h]
    · rename_i he
      rw [registerAdjacent_replaces (by rw [h]; rintro _ ⟨⟩; exact he), Function.update_self]

/-- Registrations of different keys commute. -/
theorem registerAdjacent_comm (t : AdjacentTable κ) {a b : κ} (h : a ≠ b) (i j : AdjacentInformation) :
    registerAdjacent (registerAdjacent t a i) b j = registerAdjacent (registerAdjacent t b j) a i := by
  funext x
  by_cases hb : x = b
  · subst hb
    rw [registerAdjacent_self, registerAdjacent_of_ne (Ne.symm h), registerAdjacent_of_ne (Ne.symm h),
      registerAdjacent_self]
  · rw [registerAdjacent_of_ne hb]
    by_cases ha : x = a
    · subst ha
      rw [registerAdjacent_self, registerAdjacent_self, registerAdjacent_of_ne hb]
    · rw [registerAdjacent_of_ne ha, registerAdjacent_of_ne ha, registerAdjacent_of_ne hb]

end

/-! ## Sequences of registrations -/

/-- The arguments of a registration. -/
structure Registration (κ : Type) where
  key : κ
  macAddress : MacAddress
  netif : Netif
  isLocal : Bool
  expireTime : Option UInt64

section

variable {κ : Type} [DecidableEq κ]

/-- The registrations of `k`, in order. -/
def registrationsOf (k : κ) (regs : List (Registration κ)) : List (Registration κ) :=
  regs.filter fun r => r.key = k

/-- The registration of `k` that counts: the first permanent one, or else the last. -/
def lastingRegistration (k : κ) (regs : List (Registration κ)) : Option (Registration κ) :=
  ((registrationsOf k regs).find? fun r => r.expireTime = none).or (registrationsOf k regs).getLast?

variable {step : AdjacentTable κ → Registration κ → AdjacentTable κ} {entry : Registration κ → AdjacentInformation}

/-- **The closed form**, by induction over the registrations. -/
theorem foldl_registerAdjacent (hstep : ∀ t r, step t r = registerAdjacent t r.key (entry r))
    (hentry : ∀ r, (entry r).expireTime = r.expireTime) (regs : List (Registration κ)) (k : κ) :
    regs.foldl step (fun _ => none) k = (lastingRegistration k regs).map entry := by
  induction regs using List.reverseRecOn with
  | nil => rfl
  | append_singleton regs r ih =>
    rw [List.foldl_append, List.foldl_cons, List.foldl_nil, hstep]
    by_cases hk : r.key = k
    · subst hk
      have hregs : registrationsOf r.key (regs ++ [r]) = registrationsOf r.key regs ++ [r] := by
        simp [registrationsOf]
      rw [registerAdjacent_self, ih]
      unfold lastingRegistration
      rw [hregs, List.find?_append, List.getLast?_concat]
      cases hfind : (registrationsOf r.key regs).find? fun r => r.expireTime = none with
      | some p =>
        -- a permanent entry stays
        have hp : p.expireTime = none := by simpa using List.find?_some hfind
        simp [hentry, hp]
      | none =>
        -- the last entry, if there is one, may be replaced
        have hall : ∀ q ∈ registrationsOf r.key regs, q.expireTime ≠ none := by simpa using hfind
        have hnew : (([r].find? fun r => r.expireTime = none).or (some r)) = some r := by
          rw [List.find?_singleton]
          split <;> rfl
        rw [Option.none_or, Option.none_or, hnew]
        cases hlast : (registrationsOf r.key regs).getLast? with
        | none => rfl
        | some q =>
          have hq := hall q (List.mem_of_getLast? hlast)
          simp [hentry, hq]
    · have hregs : registrationsOf k (regs ++ [r]) = registrationsOf k regs := by
        simp [registrationsOf, hk]
      rw [registerAdjacent_of_ne (Ne.symm hk), ih]
      unfold lastingRegistration
      rw [hregs]

/-- What a registration function does over a sequence of registrations: the entry of a key
is that of the registration that counts; registrations of different keys commute; and a
permanent entry stays. -/
structure RegistrationLaw (step : AdjacentTable κ → Registration κ → AdjacentTable κ)
    (entry : Registration κ → AdjacentInformation) : Prop where
  closed : ∀ regs k, regs.foldl step (fun _ => none) k = (lastingRegistration k regs).map entry
  comm : ∀ t a b, a.key ≠ b.key → step (step t a) b = step (step t b) a
  permanent : ∀ (t : AdjacentTable κ) (k : κ) (adj : AdjacentInformation) (regs : List (Registration κ)),
    t k = some adj → adj.expireTime = none → regs.foldl step t k = some adj

theorem registrationLaw (hstep : ∀ t r, step t r = registerAdjacent t r.key (entry r))
    (hentry : ∀ r, (entry r).expireTime = r.expireTime) : RegistrationLaw step entry := by
  refine ⟨foldl_registerAdjacent hstep hentry, fun t a b h => ?_, fun t k adj regs => ?_⟩
  · rw [hstep, hstep, hstep, hstep]
    exact registerAdjacent_comm t h _ _
  · induction regs generalizing t with
    | nil => intro hk _; exact hk
    | cons r regs ih =>
      intro hk hp
      refine ih (step t r) ?_ hp
      rw [hstep]
      by_cases hr : k = r.key
      · subst hr
        rw [registerAdjacent_permanent hk hp]
        exact hk
      · rw [registerAdjacent_of_ne hr]
        exact hk

end

/-- **The registration law**, for each of the three tables and every sequence of
registrations from the empty table. The MAC table stores its key as the address. -/
theorem adjacency_registration_law :
    RegistrationLaw (fun t r => registerIpv4Adjacent t r.key r.macAddress r.netif r.isLocal r.expireTime)
      (fun r => ⟨r.macAddress, r.netif, r.isLocal, r.expireTime⟩) ∧
    RegistrationLaw (fun t r => registerIpv6Adjacent t r.key r.macAddress r.netif r.isLocal r.expireTime)
      (fun r => ⟨r.macAddress, r.netif, r.isLocal, r.expireTime⟩) ∧
    RegistrationLaw (fun t r => registerMacaddress t r.key r.netif r.isLocal r.expireTime)
      (fun r => ⟨r.key, r.netif, r.isLocal, r.expireTime⟩) :=
  ⟨registrationLaw (fun _ _ => rfl) fun _ => rfl, registrationLaw (fun _ _ => rfl) fun _ => rfl,
    registrationLaw (fun _ _ => rfl) fun _ => rfl⟩

end Urchin
