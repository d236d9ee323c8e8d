import Mathlib.Data.List.Basic

/-!
# Decoders that read a stream piece by piece

A **splitter** takes the first item off the front of a stream, as soon as all of it is there: what follows does
not change the item. Splitting as often as possible decodes a stream into its items and a rest without a complete
one. Decoding is independent of how the stream arrives: the items of `xs ++ ys` are those of `xs` and those of the
rest of `xs` with `ys` behind it (`decode_append`).
-/

set_option autoImplicit false

namespace SyncRtc

/-- How to take the first item off a stream. -/
structure Splitter (α β : Type) where
  split : List α → Option (β × List α)
  shorter : ∀ {xs : List α} {b : β} {ys : List α}, split xs = some (b, ys) → ys.length < xs.length
  stable : ∀ {xs : List α} {b : β} {ys : List α} (zs : List α), split xs = some (b, ys) →
    split (xs ++ zs) = some (b, ys ++ zs)

namespace Splitter

variable {α β : Type} (S : Splitter α β)

/-- The complete items of a stream, and what is left of it. -/
def decode (xs : List α) : List β × List α :=
  match _h : S.split xs with
  | none => ([], xs)
  | some (b, ys) => (b :: (decode ys).1, (decode ys).2)
termination_by xs.length
decreasing_by all_goals exact S.shorter _h

variable {S} {xs ys : List α} {b : β}

theorem decode_of_none (h : S.split xs = none) : S.decode xs = ([], xs) := by
  rw [decode]
  split
  · rfl
  · next hs => exact nomatch h.symm.trans hs

theorem decode_of_some (h : S.split xs = some (b, ys)) :
    S.decode xs = (b :: (S.decode ys).1, (S.decode ys).2) := by
  rw [decode]
  split
  · next hs => exact nomatch h.symm.trans hs
  · next c zs hs =>
    cases h.symm.trans hs
    rfl

/-- To prove something of a stream, prove it of a rest without an item and carry it over an item. -/
theorem induction_on {P : List α → Prop} (none : ∀ xs, S.split xs = none → P xs)
    (some : ∀ xs b ys, S.split xs = some (b, ys) → P ys → P xs) (xs : List α) : P xs := by
  induction hn : xs.length using Nat.strongRecOn generalizing xs with
  | ind n ih =>
    cases hs : S.split xs with
    | none => exact none xs hs
    | some p =>
      obtain ⟨b, ys⟩ := p
      exact some xs b ys hs (ih ys.length (hn ▸ S.shorter hs) ys rfl)

/-- The rest holds no item. -/
theorem split_rest (xs : List α) : S.split (S.decode xs).2 = none := by
  induction xs using S.induction_on with
  | none xs hs =>
    rw [decode_of_none hs]
    exact hs
  | some xs b ys hs ih =>
    rw [decode_of_some hs]
    exact ih

/-- Decoding does not depend on where a stream is cut. -/
theorem decode_append (xs zs : List α) : S.decode (xs ++ zs) =
    ((S.decode xs).1 ++ (S.decode ((S.decode xs).2 ++ zs)).1, (S.decode ((S.decode xs).2 ++ zs)).2) := by
  induction xs using S.induction_on with
  | none xs hs => rw [decode_of_none hs, List.nil_append]
  | some xs b ys hs ih => rw [decode_of_some hs, decode_of_some (S.stable zs hs), ih, List.cons_append]

end Splitter

end SyncRtc
