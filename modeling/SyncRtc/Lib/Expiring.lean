import Mathlib.Data.Option.Basic
import Mathlib.Logic.Function.Basic

/-!
# Values that run out

A store of single values, each with a time after which it is gone or with none. Writing a value clears
its time, so a value and its time are two writes.
-/

set_option autoImplicit false

namespace SyncRtc

/-- A value, and the last instant it can be read at, if there is one. -/
structure Expiring.Entry (α : Type) where
  value : α
  expireAt : Option Nat
deriving DecidableEq, Repr

/-- A store: what was last written under each key. -/
abbrev Expiring (κ α : Type) := κ → Option (Expiring.Entry α)

namespace Expiring

variable {κ α : Type} [DecidableEq κ]

def empty : Expiring κ α := fun _ => none

/-- Whether the entry can still be read. -/
def Entry.live (e : Entry α) (now : Nat) : Bool := e.expireAt.all (now ≤ ·)

def get (s : Expiring κ α) (now : Nat) (k : κ) : Option α := ((s k).filter (·.live now)).map (·.value)

def set (s : Expiring κ α) (k : κ) (v : α) : Expiring κ α := Function.update s k (some ⟨v, none⟩)

/-- Write a value together with its time. -/
def setFor (s : Expiring κ α) (now : Nat) (k : κ) (v : α) (time : Nat) : Expiring κ α :=
  Function.update s k (some ⟨v, some (now + time)⟩)

/-- Give what the key holds a time from now on, if it still holds something. -/
def expire (s : Expiring κ α) (now : Nat) (k : κ) (time : Nat) : Expiring κ α :=
  Function.update s k (((s k).filter (·.live now)).map ({ · with expireAt := some (now + time) }))

variable {s : Expiring κ α} {now later : Nat} {k k' : κ} {v : α}

theorem Entry.live_iff (e : Entry α) : e.live now = true ↔ ∀ x ∈ e.expireAt, now ≤ x := by
  unfold Entry.live
  cases e.expireAt with
  | none => simp
  | some x => simp

omit [DecidableEq κ] in
theorem get_eq_some : s.get now k = some v ↔ ∃ x?, s k = some ⟨v, x?⟩ ∧ ∀ x ∈ x?, now ≤ x := by
  unfold get
  constructor
  · intro h
    obtain ⟨e, he, rfl⟩ := Option.map_eq_some_iff.mp h
    obtain ⟨hk, hlive⟩ := Option.filter_eq_some_iff.mp he
    exact ⟨e.expireAt, hk, e.live_iff.mp hlive⟩
  · rintro ⟨x?, hk, hx⟩
    exact Option.map_eq_some_iff.mpr ⟨⟨v, x?⟩, Option.filter_eq_some_iff.mpr ⟨hk, (Entry.live_iff _).mpr hx⟩, rfl⟩

omit [DecidableEq κ] in
/-- What can be read later can be read now. -/
theorem get_earlier (h : s.get later k = some v) (hle : now ≤ later) : s.get now k = some v := by
  obtain ⟨x?, hk, hx⟩ := get_eq_some.mp h
  exact get_eq_some.mpr ⟨x?, hk, fun x hmem => Nat.le_trans hle (hx x hmem)⟩

@[simp] theorem set_self : s.set k v k = some ⟨v, none⟩ := Function.update_self ..

theorem set_of_ne (h : k' ≠ k) : s.set k v k' = s k' := Function.update_of_ne h ..

theorem get_set_self : (s.set k v).get now k = some v :=
  get_eq_some.mpr ⟨none, set_self, nofun⟩

theorem get_set_of_ne (h : k' ≠ k) : (s.set k v).get now k' = s.get now k' := by
  rw [get, set_of_ne h, get]

theorem expire_self (h : s k = some ⟨v, none⟩) (time : Nat) :
    s.expire now k time k = some ⟨v, some (now + time)⟩ := by
  rw [expire, Function.update_self, h]
  rfl

theorem expire_of_ne (h : k' ≠ k) (time : Nat) : s.expire now k time k' = s k' := Function.update_of_ne h ..

theorem get_expire_of_ne (h : k' ≠ k) (time : Nat) : (s.expire now k time).get later k' = s.get later k' := by
  rw [get, expire_of_ne h, get]

end Expiring

end SyncRtc
