import Mathlib.Data.Rat.Floor
import Mathlib.Algebra.Order.Floor.Ring

/-!
# JSON values as the servers read them

The servers parse payloads with jsoncpp. What this module models is the part of `Json::Value` the
handlers use: the type tests (`isString`, `isUInt64`, ...), the conversions that throw
(`asString`, `asUInt64`), member lookup, and `std::stoull`, which accepts a leading blank and sign
and stops at the first character that is no digit.

The parser itself is jsoncpp's: a payload is what the parser makes of it (`Payload`), and one
payload is parsed up to three times on its way through the server, with the same outcome.
-/

set_option autoImplicit false

namespace SyncRtc

/-- A parsed JSON value. `int` is jsoncpp's `intValue` and `uintValue`, `real` its `realValue`. -/
inductive Json where
  | null
  | bool (b : Bool)
  | int (i : Int)
  | real (q : Rat)
  | str (s : String)
  | arr (items : List Json)
  | obj (fields : List (String × Json))

namespace Json

def isNull : Json → Bool
  | .null => true
  | _ => false

def isObject : Json → Bool
  | .obj _ => true
  | _ => false

def isString : Json → Bool
  | .str _ => true
  | _ => false

/-- `root.isMember(name)` on an object. -/
def isMember (j : Json) (name : String) : Bool :=
  match j with
  | .obj fields => fields.any fun f => f.1 = name
  | _ => false

/-- `root[name]`: a missing member reads as null. -/
def get (j : Json) (name : String) : Json :=
  match j with
  | .obj fields => (fields.find? fun f => f.1 = name).elim .null Prod.snd
  | _ => .null

/-- The integer a number is, when it is one. -/
def integral? : Json → Option Int
  | .int i => some i
  | .real q => if q.den = 1 then some q.num else none
  | _ => none

/-- A number that is an integer in the half-open interval. -/
def inRange (lo hi : Int) (j : Json) : Bool :=
  match j.integral? with
  | some i => decide (lo ≤ i) && decide (i < hi)
  | none => false

def isInt : Json → Bool := inRange (-2 ^ 31) (2 ^ 31)

def isUInt : Json → Bool := inRange 0 (2 ^ 32)

def isInt64 : Json → Bool := inRange (-2 ^ 63) (2 ^ 63)

def isUInt64 : Json → Bool := inRange 0 (2 ^ 64)

/-- `asString`: arrays and objects throw (`none`). The text of a number is jsoncpp's own; the
handlers use `asString` on a number for one lookup only, where any text will do. -/
def asString : Json → Option String
  | .null => some ""
  | .bool b => some (if b then "true" else "false")
  | .int i => some (toString i)
  | .real q => some (toString q)
  | .str s => some s
  | .arr _ => none
  | .obj _ => none

/-- `asUInt64`: a number out of range and a value that is no number throw (`none`); a fraction is
truncated. -/
def asUInt64 : Json → Option Nat
  | .null => some 0
  | .bool b => some (if b then 1 else 0)
  | .int i => if 0 ≤ i ∧ i < 2 ^ 64 then some i.toNat else none
  | .real q => if 0 ≤ q ∧ q ≤ 2 ^ 64 then some ⌊q⌋.toNat else none
  | .str _ => none
  | .arr _ => none
  | .obj _ => none

/-- `asInt`, with the same conventions. -/
def asInt : Json → Option Int
  | .null => some 0
  | .bool b => some (if b then 1 else 0)
  | .int i => if -2 ^ 31 ≤ i ∧ i < 2 ^ 31 then some i else none
  | .real q => if -2 ^ 31 ≤ q ∧ q ≤ 2 ^ 31 - 1 then some (if 0 ≤ q then ⌊q⌋ else ⌈q⌉) else none
  | .str _ => none
  | .arr _ => none
  | .obj _ => none

end Json

/-! ## Numbers in text -/

/-- `isspace` in the C locale. -/
private def isBlank (c : Char) : Bool :=
  c = ' ' || c = '\t' || c = '\n' || c = '\r' || c = Char.ofNat 11 || c = Char.ofNat 12

/-- The value and the number of the leading decimal digits. -/
private def leadingDigits : List Char → Nat → Nat → Nat × Nat
  | [], value, count => (value, count)
  | c :: cs, value, count =>
    if c.isDigit then leadingDigits cs (value * 10 + (c.toNat - '0'.toNat)) (count + 1)
    else (value, count)

/-- `std::stoull(text, &length)`: the value and the number of characters consumed. `none` stands
for both exceptions, no digit at all and a magnitude over 64 bits. A minus sign negates modulo
`2 ^ 64`. -/
def stoull (text : String) : Option (Nat × Nat) :=
  let chars := text.toList
  let rest := chars.dropWhile isBlank
  let (negative, digits) := match rest with
    | '-' :: cs => (true, cs)
    | '+' :: cs => (false, cs)
    | cs => (false, cs)
  let (value, count) := leadingDigits digits 0 0
  if count = 0 ∨ 2 ^ 64 ≤ value then none
  else some (if negative then (2 ^ 64 - value) % 2 ^ 64 else value,
    chars.length - digits.length + count)

/-- `stoull` on a text all of whose characters take part. -/
def stoullWhole (text : String) : Option Nat :=
  match stoull text with
  | some (value, length) => if length = text.toList.length then some value else none
  | none => none

private theorem leadingDigits_of_digits {digits : List Char} (h : ∀ c ∈ digits, c.isDigit = true)
    (value count : Nat) :
    leadingDigits digits value count = (Nat.ofDigitChars 10 digits value, count + digits.length) := by
  induction digits generalizing value count with
  | nil => simp [leadingDigits]
  | cons c cs ih =>
    rw [leadingDigits, if_pos (h c (List.mem_cons_self ..)), ih fun d hd => h d (List.mem_cons_of_mem _ hd)]
    rw [Nat.ofDigitChars_cons, Nat.mul_comm, List.length_cons, Nat.add_assoc, Nat.add_comm 1]

private theorem digit_plain {c : Char} (h : c.isDigit = true) : isBlank c = false ∧ c ≠ '-' ∧ c ≠ '+' := by
  have hrange : 48 ≤ c.toNat ∧ c.toNat ≤ 57 := by
    simp only [Char.isDigit, Bool.and_eq_true, decide_eq_true_eq] at h
    exact ⟨h.1, h.2⟩
  have hne : ∀ d : Char, d.toNat < 48 → c ≠ d := by
    rintro d hd rfl
    omega
  refine ⟨?_, hne '-' (by decide), hne '+' (by decide)⟩
  simp only [isBlank, Bool.or_eq_false_iff, decide_eq_false_iff_not]
  exact ⟨⟨⟨⟨⟨hne ' ' (by decide), hne _ (by decide)⟩, hne _ (by decide)⟩, hne _ (by decide)⟩, hne _ (by decide)⟩,
    hne _ (by decide)⟩

/-- The text a number is written as is read as the number. -/
theorem stoullWhole_toString {n : Nat} (h : n < 2 ^ 64) : stoullWhole (toString n) = some n := by
  have htext : (toString n).toList = Nat.toDigits 10 n := Nat.toList_repr
  have hdigits : ∀ c ∈ Nat.toDigits 10 n, c.isDigit = true := fun c hc =>
    Nat.isDigit_of_mem_toDigits (b := 10) (by decide) (by decide) hc
  have hvalue : Nat.ofDigitChars 10 (Nat.toDigits 10 n) 0 = n := Nat.ofDigitChars_ten_toDigits
  have hpos : (Nat.toDigits 10 n).length ≠ 0 := Nat.pos_iff_ne_zero.mp Nat.length_toDigits_pos
  simp only [stoullWhole, stoull, htext]
  revert hdigits hvalue hpos
  generalize Nat.toDigits 10 n = digits
  intro hdigits hvalue hpos
  cases digits with
  | nil => exact absurd rfl hpos
  | cons c cs =>
    obtain ⟨hblank, hminus, hplus⟩ := digit_plain (hdigits c (List.mem_cons_self ..))
    have hdrop : (c :: cs).dropWhile isBlank = c :: cs := List.dropWhile_cons_of_neg (by simp [hblank])
    rw [hdrop]
    have hsign : (match c :: cs with
        | '-' :: rest => (true, rest)
        | '+' :: rest => (false, rest)
        | rest => (false, rest)) = (false, c :: cs) := by
      split
      · next heq => exact absurd (List.cons.inj heq).1 hminus
      · next heq => exact absurd (List.cons.inj heq).1 hplus
      · rfl
    rw [hsign]
    dsimp only
    rw [leadingDigits_of_digits hdigits, hvalue]
    have hfits : ¬ (0 + (c :: cs).length = 0 ∨ 2 ^ 64 ≤ n) := by
      rw [List.length_cons]
      omega
    rw [if_neg hfits]
    simp

/-- `ReadUInt64Value`: a number that is not negative, or a text that is a number as a whole. -/
def readUInt64Value (value : Json) : Option Nat :=
  if value.isUInt64 || value.isUInt || value.isInt64 || value.isInt then
    if (value.isInt && value.asInt.any (· < 0)) || (value.isInt64 && value.integral?.any (· < 0)) then none
    else value.asUInt64
  else match value with
    | .str text => stoullWhole text
    | _ => none

/-! ## Payloads -/

/-- What jsoncpp makes of a frame's payload: it throws (values nested deeper than its limit), finds
the text malformed, or yields a value. -/
inductive Payload where
  | throws
  | malformed
  | value (root : Json)

/-- The `meeting_id` member as the handlers that take it as a text read it: the whole text is a
number, and not zero. -/
def Json.meetingIdText (root : Json) : Option Nat :=
  match root.get "meeting_id" with
  | .str text => (stoullWhole text).filter (· ≠ 0)
  | _ => none

end SyncRtc
