import Mathlib
import PackedGraph.Memory.Ledger
import PackedGraph.Relation.Topology

/-!
# Accounts of held blocks

A ledger accounts for some blocks when every charge counts the holders of its block, and every
counter stands at the bytes of the blocks that somebody holds. This stays so when a block is
charged, held by somebody else, or dropped, and then no more bytes are taken off a counter than it
holds.
-/

namespace PackedGraph

/-- A block of a graph, whose bytes may be charged to an account. -/
inductive Block where
  | topology (topology : Topology)
  | values (table : ValueTable)

namespace Block

def charge : Block → Option Nat
  | .topology stored => stored.charge
  | .values table => table.charge

def sizeInBytes : Block → Nat
  | .topology stored => stored.sizeInBytes
  | .values table => table.sizeInBytes

end Block

/-- The bytes that a charge keeps on a counter. -/
def Charge.owed (charge : Charge) (counter : Nat) : Nat :=
  if charge.account = some counter ∧ charge.holders ≠ 0 then charge.bytes.toNat else 0

theorem sum_map_set {α : Type} (f : α → Nat) {l : List α} {i : Nat} {a : α} (h : l[i]? = some a)
    (b : α) : ((l.set i b).map f).sum + f a = (l.map f).sum + f b := by
  induction l generalizing i with
  | nil => exact absurd h nofun
  | cons first l ih =>
    cases i with
    | zero =>
      obtain rfl := Option.some.inj h
      simp only [List.set_cons_zero, List.map_cons, List.sum_cons]
      omega
    | succ i =>
      have hrest := ih (i := i) h
      simp only [List.set_cons_succ, List.map_cons, List.sum_cons]
      omega

theorem modify_eq_setIfInBounds {α : Type} {xs : Array α} {i : Nat} {a : α} (h : xs[i]? = some a)
    (f : α → α) : xs.modify i f = xs.setIfInBounds i (f a) := by
  apply Array.ext_getElem?
  intro j
  rw [Array.getElem?_modify, Array.getElem?_setIfInBounds]
  by_cases hij : i = j
  · subst hij
    obtain ⟨hlt, _⟩ := Array.getElem?_eq_some_iff.mp h
    rw [if_pos rfl, if_pos rfl, if_pos hlt, h, Option.map_some]
  · rw [if_neg hij, if_neg hij]

namespace Ledger

/-- The bytes that all charges keep on a counter. -/
def owed (ledger : Ledger) (counter : Nat) : Nat :=
  (ledger.charges.toList.map (Charge.owed · counter)).sum

/-- The same ledger with another charge under a number. -/
def setCharge (ledger : Ledger) (number : Nat) (charge : Charge) : Ledger :=
  { ledger with charges := ledger.charges.setIfInBounds number charge }

theorem owed_setCharge {ledger : Ledger} {number : Nat} {charge : Charge}
    (h : ledger.charges[number]? = some charge) (other : Charge) (counter : Nat) :
    (ledger.setCharge number other).owed counter + charge.owed counter =
      ledger.owed counter + other.owed counter := by
  rw [owed, setCharge, Array.toList_setIfInBounds]
  rw [← Array.getElem?_toList] at h
  exact sum_map_set _ h other

theorem getElem?_setCharge {ledger : Ledger} {number : Nat} {charge : Charge}
    (h : ledger.charges[number]? = some charge) (other : Charge) (i : Nat) :
    (ledger.setCharge number other).charges[i]? =
      if i = number then some other else ledger.charges[i]? := by
  obtain ⟨hlt, _⟩ := Array.getElem?_eq_some_iff.mp h
  rw [setCharge, Array.getElem?_setIfInBounds]
  by_cases hi : number = i
  · rw [if_pos hi, if_pos hi.symm, if_pos hlt]
  · rw [if_neg hi, if_neg (Ne.symm hi)]

theorem charges_add (ledger : Ledger) (account : Account) (bytes : UInt64) :
    (ledger.add account bytes).charges = ledger.charges := by
  cases account <;> rfl

theorem size_counters_add (ledger : Ledger) (account : Account) (bytes : UInt64) :
    (ledger.add account bytes).counters.size = ledger.counters.size := by
  cases account with
  | none => rfl
  | some counter => exact Array.size_modify

/-- What a charge of some bytes to an account adds to a counter. -/
def share (account : Account) (bytes counter : Nat) : UInt64 :=
  if account = some counter then UInt64.ofNat bytes else 0

theorem share_zero (account : Account) (counter : Nat) : share account 0 counter = 0 := by
  rw [share]
  split_ifs <;> rfl

theorem share_add (account : Account) (a b counter : Nat) :
    share account (a + b) counter = share account a counter + share account b counter := by
  rw [share, share, share]
  split_ifs
  · exact UInt64.ofNat_add a b
  · exact (UInt64.add_zero 0).symm

theorem getElem?_counters_charge (ledger : Ledger) (account : Account) (bytes counter : Nat) :
    (ledger.charge account (UInt64.ofNat bytes)).1.counters[counter]? =
      ledger.counters[counter]?.map (· + share account bytes counter) := by
  rw [charge, share]
  cases account with
  | none => simp [add]
  | some other =>
    simp only [add, Array.getElem?_modify, Option.some_inj]
    split_ifs
    · rfl
    · simp

theorem balance_charge_le (ledger : Ledger) (account : Account) (bytes : UInt64) :
    ((ledger.charge account bytes).1.balance account).toNat ≤
      (ledger.balance account).toNat + bytes.toNat := by
  cases account with
  | none => exact Nat.zero_le _
  | some counter =>
    unfold charge balance add
    rw [Option.bind_some, Option.bind_some, Array.getElem?_modify, if_pos rfl]
    cases ledger.counters[counter]? with
    | none => exact Nat.zero_le _
    | some value =>
      rw [Option.map_some, Option.getD_some, Option.getD_some, UInt64.toNat_add]
      exact Nat.mod_le _ _

/-- No charge is forgotten, and none changes its account or its bytes. -/
structure Extends (later earlier : Ledger) : Prop where
  charge : ∀ (number : Nat) (charge : Charge), earlier.charges[number]? = some charge →
    ∃ kept : Charge, later.charges[number]? = some kept ∧ kept.account = charge.account ∧
      kept.bytes = charge.bytes
  size_counters : earlier.counters.size ≤ later.counters.size

theorem Extends.refl (ledger : Ledger) : ledger.Extends ledger :=
  ⟨fun _ charge h ↦ ⟨charge, h, rfl, rfl⟩, le_rfl⟩

theorem Extends.trans {first second third : Ledger} (h : third.Extends second)
    (h' : second.Extends first) : third.Extends first := by
  refine ⟨fun number charge hcharge ↦ ?_, h'.size_counters.trans h.size_counters⟩
  obtain ⟨kept, hkept, haccount, hbytes⟩ := h'.charge number charge hcharge
  obtain ⟨last, hlast, haccount', hbytes'⟩ := h.charge number kept hkept
  exact ⟨last, hlast, haccount'.trans haccount, hbytes'.trans hbytes⟩

theorem extends_setCharge {ledger : Ledger} {number : Nat} {charge : Charge}
    (h : ledger.charges[number]? = some charge) (holders : Nat) :
    (ledger.setCharge number { charge with holders }).Extends ledger := by
  refine ⟨fun i other hother ↦ ?_, le_rfl⟩
  rw [getElem?_setCharge h]
  by_cases hi : i = number
  · subst hi
    obtain rfl := Option.some.inj (h.symm.trans hother)
    exact ⟨_, if_pos rfl, rfl, rfl⟩
  · exact ⟨other, by rw [if_neg hi, hother], rfl, rfl⟩

/-- A ledger accounts for the blocks that are held, each of them as often as it has holders. -/
structure Accounts (ledger : Ledger) (held : List Block) : Prop where
  holders_eq : ∀ (number : Nat) (charge : Charge), ledger.charges[number]? = some charge →
    charge.holders = held.countP (·.charge = some number)
  charged : ∀ block ∈ held, ∀ number, block.charge = some number →
    ∃ charge : Charge, ledger.charges[number]? = some charge ∧
      charge.bytes.toNat = block.sizeInBytes
  unique : ∀ block ∈ held, ∀ other ∈ held, ∀ number, block.charge = some number →
    other.charge = some number → block = other
  account_lt : ∀ (number : Nat) (charge : Charge), ledger.charges[number]? = some charge →
    ∀ counter, charge.account = some counter → counter < ledger.counters.size
  counter_eq : ∀ (counter : Nat) (value : UInt64), ledger.counters[counter]? = some value →
    value.toNat = ledger.owed counter

namespace Accounts

variable {ledger : Ledger} {held other : List Block} {block : Block}

theorem empty : Ledger.empty.Accounts [] where
  holders_eq := by simp [Ledger.empty]
  charged := nofun
  unique := nofun
  account_lt := by simp [Ledger.empty]
  counter_eq := by simp [Ledger.empty]

/-- Only the number of holders of each block counts. -/
theorem congr (h : ledger.Accounts held) (hsub : ∀ block ∈ other, block ∈ held)
    (hcount : ∀ number, held.countP (·.charge = some number) =
      other.countP (·.charge = some number)) : ledger.Accounts other where
  holders_eq := fun number charge hcharge ↦
    (h.holders_eq number charge hcharge).trans (hcount number)
  charged := fun block hblock ↦ h.charged block (hsub block hblock)
  unique := fun block hblock other hother ↦
    h.unique block (hsub block hblock) other (hsub other hother)
  account_lt := h.account_lt
  counter_eq := h.counter_eq

theorem perm (h : ledger.Accounts held) (hperm : held.Perm other) : ledger.Accounts other :=
  h.congr (fun _ hblock ↦ hperm.mem_iff.mpr hblock) fun _ ↦ hperm.countP_eq _

theorem balance_eq (h : ledger.Accounts held) {counter : Nat}
    (hcounter : counter < ledger.counters.size) :
    (ledger.balance (some counter)).toNat = ledger.owed counter := by
  have hvalue := Array.getElem?_eq_getElem hcounter
  rw [← h.counter_eq counter _ hvalue, balance, Option.bind_some, hvalue, Option.getD_some]

/-- Changing the number of holders of a block, along with the counter of its charge. -/
theorem setHolders (h : ledger.Accounts held) {number : Nat} {charge : Charge}
    (hcharge : ledger.charges[number]? = some charge) {now : List Block} {holders : Nat}
    (hholders : holders = now.countP (·.charge = some number))
    (hothers : ∀ i ≠ number, held.countP (·.charge = some i) = now.countP (·.charge = some i))
    (hsub : ∀ block ∈ now, block ∈ held) {counters : Array UInt64}
    (hsize : counters.size = ledger.counters.size)
    (hcounters : ∀ (counter : Nat) (value : UInt64), counters[counter]? = some value →
      value.toNat + charge.owed counter =
        ledger.owed counter + ({ charge with holders } : Charge).owed counter) :
    Accounts ⟨counters, (ledger.setCharge number { charge with holders }).charges⟩ now where
  holders_eq := by
    intro i other hother
    rw [getElem?_setCharge hcharge] at hother
    split_ifs at hother with hi
    · obtain rfl := Option.some.inj hother
      rw [hi]
      exact hholders
    · rw [h.holders_eq i other hother, hothers i hi]
  charged := by
    intro block hblock i hi
    obtain ⟨other, hother, hbytes⟩ := h.charged block (hsub block hblock) i hi
    obtain ⟨kept, hkept, _, hkeptBytes⟩ := (extends_setCharge hcharge holders).charge i other hother
    exact ⟨kept, hkept, hkeptBytes ▸ hbytes⟩
  unique := fun block hblock other hother ↦
    h.unique block (hsub block hblock) other (hsub other hother)
  account_lt := by
    intro i other hother
    rw [getElem?_setCharge hcharge] at hother
    rw [hsize]
    split_ifs at hother with hi
    · obtain rfl := Option.some.inj hother
      exact h.account_lt number charge hcharge
    · exact h.account_lt i other hother
  counter_eq := by
    intro counter value hvalue
    have hset := owed_setCharge hcharge { charge with holders } counter
    have hcounter := hcounters counter value hvalue
    change _ = (ledger.setCharge number { charge with holders }).owed counter
    omega

theorem countP_cons_of_ne {number i : Nat} (hcharge : block.charge = some number)
    (hi : i ≠ number) : (block :: held).countP (·.charge = some i) =
      held.countP (·.charge = some i) := by
  apply List.countP_cons_of_neg
  simpa [hcharge] using Ne.symm hi

/-- Somebody else may hold a block that is held already. -/
theorem hold (h : ledger.Accounts held) (hblock : block ∈ held) :
    (block.charge.elim ledger ledger.hold).Accounts (block :: held) ∧
      (block.charge.elim ledger ledger.hold).Extends ledger := by
  have hsub : ∀ other ∈ block :: held, other ∈ held :=
    List.forall_mem_cons.mpr ⟨hblock, fun _ hother ↦ hother⟩
  cases hcharge : block.charge with
  | none =>
    refine ⟨h.congr hsub fun number ↦ ?_, .refl ledger⟩
    rw [List.countP_cons_of_neg (by simp [hcharge])]
  | some number =>
    obtain ⟨charge, hnumber, _⟩ := h.charged block hblock number hcharge
    have hhold : ledger.hold number =
        ledger.setCharge number { charge with holders := charge.holders + 1 } := by
      rw [Ledger.hold, modify_eq_setIfInBounds hnumber, setCharge]
    have hpos : charge.holders ≠ 0 := by
      rw [h.holders_eq number charge hnumber, ← Nat.pos_iff_ne_zero, List.countP_pos_iff]
      exact ⟨block, hblock, by simpa using hcharge⟩
    rw [Option.elim_some, hhold]
    refine ⟨h.setHolders hnumber ?_ ?_ hsub rfl ?_, extends_setCharge hnumber _⟩
    · rw [h.holders_eq number charge hnumber, List.countP_cons_of_pos (by simpa using hcharge)]
    · intro i hi
      rw [countP_cons_of_ne hcharge hi]
    · intro counter value hvalue
      rw [h.counter_eq counter value hvalue]
      simp only [Charge.owed, hpos, Nat.succ_ne_zero, ne_eq, not_false_eq_true]

/-- Opening a counter. -/
theorem openCounter (h : ledger.Accounts held) :
    ledger.openCounter.1.Accounts held ∧ ledger.openCounter.1.Extends ledger := by
  have hsize : ledger.openCounter.1.counters.size = ledger.counters.size + 1 :=
    Array.size_push 0
  refine ⟨⟨h.holders_eq, h.charged, h.unique, fun number charge hcharge counter hcounter ↦ ?_,
    fun counter value hvalue ↦ ?_⟩, fun _ charge hcharge ↦ ⟨charge, hcharge, rfl, rfl⟩, ?_⟩
  · have hlt := h.account_lt number charge hcharge counter hcounter
    omega
  · rw [Ledger.openCounter, Array.getElem?_push] at hvalue
    split_ifs at hvalue with hcounter
    · obtain rfl := Option.some.inj hvalue
      symm
      apply List.sum_eq_zero
      intro bytes hbytes
      obtain ⟨charge, hcharge, rfl⟩ := List.mem_map.mp hbytes
      obtain ⟨number, hnumber⟩ := Array.mem_iff_getElem?.mp (Array.mem_toList_iff.mp hcharge)
      apply if_neg
      rintro ⟨haccount, _⟩
      exact absurd (h.account_lt number charge hnumber counter haccount) (by omega)
    · exact h.counter_eq counter value hvalue
  · omega

/-- Dropping a block never takes more bytes off a counter than it holds. -/
theorem drop (h : ledger.Accounts (block :: held)) :
    ∃ after, block.charge.elim (ledger, .ok ()) ledger.drop = (after, .ok ()) ∧
      after.Accounts held ∧ after.Extends ledger := by
  have hsub : ∀ other ∈ held, other ∈ block :: held := fun _ ↦ List.mem_cons_of_mem _
  cases hcharge : block.charge with
  | none =>
    refine ⟨ledger, rfl, h.congr hsub fun number ↦ ?_, .refl ledger⟩
    rw [List.countP_cons_of_neg (by simp [hcharge])]
  | some number =>
    obtain ⟨⟨account, bytes, holders⟩, hnumber, _⟩ :=
      h.charged block List.mem_cons_self number hcharge
    have hholders := h.holders_eq number _ hnumber
    rw [List.countP_cons_of_pos (by simpa using hcharge)] at hholders
    obtain rfl : holders = _ + 1 := hholders
    have hothers : ∀ i ≠ number, (block :: held).countP (·.charge = some i) =
        held.countP (·.charge = some i) := fun i hi ↦ countP_cons_of_ne hcharge hi
    generalize hcount : held.countP (·.charge = some number) = holders at hnumber
    have hextends := extends_setCharge hnumber holders
    rw [Option.elim_some, Ledger.drop, hnumber]
    change ∃ after, (if holders = 0 then
      (ledger.setCharge number ⟨account, bytes, holders⟩).remove account bytes
      else (ledger.setCharge number ⟨account, bytes, holders⟩, .ok ())) = (after, .ok ()) ∧ _
    by_cases hlast : holders = 0
    · rw [if_pos hlast]
      cases account with
      | none =>
        refine ⟨_, rfl, h.setHolders hnumber hcount.symm hothers hsub rfl ?_, hextends⟩
        intro counter value hvalue
        rw [h.counter_eq counter value hvalue]
        simp [Charge.owed]
      | some counter =>
        have hset := owed_setCharge hnumber ⟨some counter, bytes, holders⟩ counter
        have hle : bytes ≤ ledger.balance (some counter) := by
          rw [UInt64.le_iff_toNat_le, h.balance_eq (h.account_lt number _ hnumber counter rfl)]
          simp only [Charge.owed, hlast] at hset
          simp at hset
          omega
        rw [Ledger.remove]
        refine ⟨_, if_pos hle, h.setHolders hnumber hcount.symm hothers hsub Array.size_modify ?_,
          hextends.charge, Array.size_modify.ge⟩
        intro other value hvalue
        change (ledger.counters.modify counter (· - bytes))[other]? = some value at hvalue
        rw [Array.getElem?_modify] at hvalue
        split_ifs at hvalue with hother
        · subst hother
          obtain ⟨before, hbefore, rfl⟩ := Option.map_eq_some_iff.mp hvalue
          rw [balance, Option.bind_some, hbefore, Option.getD_some] at hle
          rw [UInt64.toNat_sub_of_le _ _ hle, ← h.counter_eq counter before hbefore]
          have hbytes := UInt64.le_iff_toNat_le.mp hle
          simp only [Charge.owed, hlast]
          simp
          omega
        · rw [h.counter_eq other value hvalue]
          simp [Charge.owed, hother]
    · rw [if_neg hlast]
      refine ⟨_, rfl, h.setHolders hnumber hcount.symm hothers hsub rfl ?_, hextends⟩
      intro counter value hvalue
      rw [h.counter_eq counter value hvalue]
      simp [Charge.owed, hlast]

theorem ne_of_charged (h : ledger.Accounts held) (hblock : block ∈ held) :
    block.charge ≠ some ledger.charges.size := by
  intro hcharge
  obtain ⟨charge, hnumber, _⟩ := h.charged block hblock _ hcharge
  rw [Array.getElem?_size] at hnumber
  exact absurd hnumber nofun

/-- Adding bytes to an account that has room for them. -/
theorem counters_add (h : ledger.Accounts held) {account : Account} {bytes : UInt64}
    (hfits : (ledger.balance account).toNat + bytes.toNat < 2 ^ 64) {counter : Nat} {value : UInt64}
    (hvalue : (ledger.add account bytes).counters[counter]? = some value) :
    value.toNat =
      ledger.owed counter + ({ account, bytes, holders := 1 } : Charge).owed counter := by
  cases account with
  | none =>
    rw [h.counter_eq counter value hvalue]
    simp [Charge.owed]
  | some other =>
    rw [Ledger.add, Array.getElem?_modify] at hvalue
    split_ifs at hvalue with hother
    · subst hother
      obtain ⟨before, hbefore, rfl⟩ := Option.map_eq_some_iff.mp hvalue
      rw [balance, Option.bind_some, hbefore, Option.getD_some] at hfits
      rw [UInt64.toNat_add, Nat.mod_eq_of_lt hfits, h.counter_eq other before hbefore]
      simp [Charge.owed]
    · rw [h.counter_eq counter value hvalue]
      simp [Charge.owed, hother]

/-- Charging a new block to an account that has room for it. -/
theorem charge (h : ledger.Accounts held) {account : Account}
    (haccount : ∀ counter, account = some counter → counter < ledger.counters.size)
    (hfits : (ledger.balance account).toNat + block.sizeInBytes < 2 ^ 64)
    (hcharge : block.charge = some ledger.charges.size) :
    (ledger.charge account (UInt64.ofNat block.sizeInBytes)).1.Accounts (block :: held) ∧
      (ledger.charge account (UInt64.ofNat block.sizeInBytes)).1.Extends ledger := by
  have hbytes : (UInt64.ofNat block.sizeInBytes).toNat = block.sizeInBytes := by
    rw [UInt64.toNat_ofNat', Nat.mod_eq_of_lt]
    omega
  generalize UInt64.ofNat block.sizeInBytes = bytes at hbytes
  have hsize := ledger.size_counters_add account bytes
  have hcharges (number : Nat) : (ledger.charge account bytes).1.charges[number]? =
      if number = ledger.charges.size then some ⟨account, bytes, 1⟩
      else ledger.charges[number]? := by
    rw [Ledger.charge, Array.getElem?_push, charges_add]
  have hold {number : Nat} {charge : Charge} (hnumber : ledger.charges[number]? = some charge) :
      (ledger.charge account bytes).1.charges[number]? = some charge := by
    obtain ⟨hlt, _⟩ := Array.getElem?_eq_some_iff.mp hnumber
    rw [hcharges, if_neg hlt.ne, hnumber]
  refine ⟨⟨?_, ?_, ?_, ?_, ?_⟩, fun _ charge hnumber ↦ ⟨charge, hold hnumber, rfl, rfl⟩, hsize.ge⟩
  · intro number charge hnumber
    rw [hcharges] at hnumber
    split_ifs at hnumber with heq
    · obtain rfl := Option.some.inj hnumber
      rw [heq, List.countP_cons_of_pos (by simpa using hcharge), eq_comm, Nat.add_eq_right,
        List.countP_eq_zero]
      intro other hother
      simpa using h.ne_of_charged hother
    · rw [countP_cons_of_ne hcharge heq]
      exact h.holders_eq number charge hnumber
  · rw [List.forall_mem_cons]
    refine ⟨fun number hnumber ↦ ⟨⟨account, bytes, 1⟩, ?_, hbytes⟩,
      fun other hother number hnumber ↦ ?_⟩
    · obtain rfl := Option.some.inj (hcharge.symm.trans hnumber)
      rw [hcharges, if_pos rfl]
    · obtain ⟨charge, hkept, hkeptBytes⟩ := h.charged other hother number hnumber
      exact ⟨charge, hold hkept, hkeptBytes⟩
  · intro first hfirst second hsecond number hnumber hnumber'
    rcases List.mem_cons.mp hfirst with rfl | hfirstHeld <;>
      rcases List.mem_cons.mp hsecond with rfl | hsecondHeld
    · rfl
    · exact absurd (hnumber'.trans (hnumber.symm.trans hcharge)) (h.ne_of_charged hsecondHeld)
    · exact absurd (hnumber.trans (hnumber'.symm.trans hcharge)) (h.ne_of_charged hfirstHeld)
    · exact h.unique first hfirstHeld second hsecondHeld number hnumber hnumber'
  · intro number charge hnumber
    rw [hcharges] at hnumber
    change ∀ counter, _ → counter < (ledger.add account bytes).counters.size
    rw [hsize]
    split_ifs at hnumber with heq
    · obtain rfl := Option.some.inj hnumber
      exact haccount
    · exact h.account_lt number charge hnumber
  · intro counter value hvalue
    rw [h.counters_add (hbytes.symm ▸ hfits) hvalue]
    simp [Ledger.owed, Ledger.charge, charges_add]

end Accounts

/-! ## What a counter stands at -/

/-- The bytes of a block are charged to an account. -/
def Charges (ledger : Ledger) (account : Account) (block : Block) : Prop :=
  ∃ number charge, block.charge = some number ∧ ledger.charges[number]? = some charge ∧
    charge.account = account

theorem Charges.account_eq {ledger : Ledger} {account other : Account} {block : Block}
    (h : ledger.Charges account block) (hother : ledger.Charges other block) :
    account = other := by
  obtain ⟨number, charge, hnumber, hcharge, rfl⟩ := h
  obtain ⟨number', charge', hnumber', hcharge', rfl⟩ := hother
  obtain rfl := Option.some.inj (hnumber.symm.trans hnumber')
  rw [Option.some.inj (hcharge.symm.trans hcharge')]

/-- A later ledger charges a block to the same account. -/
theorem Extends.charges {later earlier : Ledger} (h : later.Extends earlier) {account : Account}
    {block : Block} (hblock : earlier.Charges account block) : later.Charges account block := by
  obtain ⟨number, charge, hnumber, hcharge, haccount⟩ := hblock
  obtain ⟨kept, hkept, hkeptAccount, _⟩ := h.charge number charge hcharge
  exact ⟨number, kept, hnumber, hkept, hkeptAccount.trans haccount⟩

/-- The held block of a charge to a counter, if there is one. -/
def held? (ledger : Ledger) (held : List Block) (counter number : Nat) : Option Block :=
  if ledger.charges[number]?.map Charge.account = some (some counter) then
    held.find? (·.charge = some number)
  else none

theorem held?_eq_some {ledger : Ledger} {held : List Block} {counter number : Nat} {block : Block}
    (h : ledger.held? held counter number = some block) :
    block ∈ held ∧ block.charge = some number ∧ ledger.Charges (some counter) block := by
  rw [held?] at h
  split_ifs at h with haccount
  obtain ⟨charge, hcharge, hcounter⟩ := Option.map_eq_some_iff.mp haccount
  have hnumber : block.charge = some number := by simpa using List.find?_some h
  exact ⟨List.mem_of_find?_eq_some h, hnumber, number, charge, hnumber, hcharge, hcounter⟩

theorem sum_map_filterMap {α β : Type} (f : α → Option β) (g : β → Nat) (l : List α) :
    ((l.filterMap f).map g).sum = (l.map fun a ↦ (f a).elim 0 g).sum := by
  induction l with
  | nil => rfl
  | cons a l ih =>
    rw [List.map_cons, List.sum_cons, ← ih]
    cases ha : f a with
    | none => rw [List.filterMap_cons_none ha, Option.elim_none, Nat.zero_add]
    | some b => rw [List.filterMap_cons_some ha, List.map_cons, List.sum_cons, Option.elim_some]

namespace Accounts

variable {ledger : Ledger} {held : List Block}

theorem owed_eq (h : ledger.Accounts held) {counter number : Nat} {charge : Charge}
    (hcharge : ledger.charges[number]? = some charge) :
    charge.owed counter = (ledger.held? held counter number).elim 0 Block.sizeInBytes := by
  rw [Charge.owed, held?, hcharge, Option.map_some]
  by_cases haccount : charge.account = some counter
  · rw [if_pos (congrArg some haccount), h.holders_eq number charge hcharge]
    cases hfind : held.find? (·.charge = some number) with
    | none =>
      rw [List.find?_eq_none, ← List.countP_eq_zero] at hfind
      rw [hfind, if_neg fun hnot ↦ hnot.2 rfl, Option.elim_none]
    | some block =>
      have hnumber : block.charge = some number := by simpa using List.find?_some hfind
      have hmem := List.mem_of_find?_eq_some hfind
      have hpos : held.countP (·.charge = some number) ≠ 0 :=
        (List.countP_pos_iff.mpr ⟨block, hmem, by simpa using hnumber⟩).ne'
      obtain ⟨kept, hkept, hbytes⟩ := h.charged block hmem number hnumber
      obtain rfl := Option.some.inj (hkept.symm.trans hcharge)
      rw [if_pos ⟨haccount, hpos⟩, Option.elim_some, hbytes]
  · rw [if_neg fun hnot ↦ haccount hnot.1, if_neg fun hnot ↦ haccount (Option.some.inj hnot),
      Option.elim_none]

/-- A counter stands at the bytes of the held blocks that are charged to it, where each of them is
counted once. -/
theorem balance_eq_sum (h : ledger.Accounts held) {counter : Nat}
    (hcounter : counter < ledger.counters.size) :
    ∃ blocks : List Block, blocks.Nodup ∧
      (∀ block, block ∈ blocks ↔ block ∈ held ∧ ledger.Charges (some counter) block) ∧
      (ledger.balance (some counter)).toNat = (blocks.map Block.sizeInBytes).sum := by
  refine ⟨(List.range ledger.charges.size).filterMap (ledger.held? held counter), ?_, ?_, ?_⟩
  · apply List.Nodup.filterMap _ List.nodup_range
    intro number other block hblock hother
    obtain ⟨_, hnumber, _⟩ := held?_eq_some hblock
    obtain ⟨_, hnumber', _⟩ := held?_eq_some hother
    exact Option.some.inj (hnumber.symm.trans hnumber')
  · intro block
    rw [List.mem_filterMap]
    constructor
    · rintro ⟨number, _, hblock⟩
      obtain ⟨hmem, _, hcharged⟩ := held?_eq_some hblock
      exact ⟨hmem, hcharged⟩
    · rintro ⟨hmem, number, charge, hnumber, hcharge, haccount⟩
      obtain ⟨hlt, _⟩ := Array.getElem?_eq_some_iff.mp hcharge
      refine ⟨number, List.mem_range.mpr hlt, ?_⟩
      cases hheld : ledger.held? held counter number with
      | none =>
        rw [held?, hcharge, Option.map_some, haccount, if_pos rfl, List.find?_eq_none] at hheld
        exact absurd hnumber (by simpa using hheld block hmem)
      | some other =>
        obtain ⟨hother, hotherNumber, _⟩ := held?_eq_some hheld
        rw [h.unique other hother block hmem number hotherNumber hnumber]
  · rw [h.balance_eq hcounter, sum_map_filterMap, owed]
    congr 1
    apply List.ext_getElem
    · rw [List.length_map, List.length_map, List.length_range, Array.length_toList]
    · intro number hnumber _
      rw [List.length_map, Array.length_toList] at hnumber
      rw [List.getElem_map, List.getElem_map, List.getElem_range, Array.getElem_toList]
      exact h.owed_eq (Array.getElem?_eq_getElem hnumber)

end Accounts

end Ledger

end PackedGraph
