import SyncRtc.Net.Frame
import Mathlib.Data.List.AList

/-!
# Query strings

`HttpConnection` decodes the query of a request by hand. A string is a list of bytes, and a step that
C++ leaves undefined, or that ends the process, is a fault: an assertion that does not hold, a read past
the terminator of a string, a digit that was never assigned.
-/

set_option autoImplicit false

namespace SyncRtc.GateServer

open Net (Bytes)

/-- How the server was built: an assertion is checked in a debug build only. -/
inductive BuildType
  | debug
  | release
deriving DecidableEq, Repr

inductive Fault
  | assertion
  | outOfRange
  | uninitialised
deriving DecidableEq, Repr

/-- `assert`. -/
def assertThat (build : BuildType) (holds : Bool) : Except Fault Unit :=
  if build = .debug ∧ holds = false then .error .assertion else .ok ()

/-- `str[i]`: the terminator may be read, nothing behind it. -/
def charAt (str : Bytes) (i : Nat) : Except Fault UInt8 :=
  if h : i < str.length then .ok str[i]
  else if i = str.length then .ok 0
  else .error .outOfRange

/-- `isalnum`, in the locale a C++ program starts with. -/
def isalnum (c : UInt8) : Bool :=
  ('A'.toUInt8 ≤ c && c ≤ 'Z'.toUInt8) || ('a'.toUInt8 ≤ c && c ≤ 'z'.toUInt8) ||
    ('0'.toUInt8 ≤ c && c ≤ '9'.toUInt8)

/-! ## The codec -/

/-- `ToHex`. -/
def toHex (x : UInt8) : UInt8 := if x > 9 then x + 55 else x + 48

/-- `FromHex`: every letter is a digit here, also the ones behind F. -/
def fromHex (build : BuildType) (x : UInt8) : Except Fault UInt8 :=
  if 'A'.toUInt8 ≤ x ∧ x ≤ 'Z'.toUInt8 then .ok (x - 'A'.toUInt8 + 10)
  else if 'a'.toUInt8 ≤ x ∧ x ≤ 'z'.toUInt8 then .ok (x - 'a'.toUInt8 + 10)
  else if '0'.toUInt8 ≤ x ∧ x ≤ '9'.toUInt8 then .ok (x - '0'.toUInt8)
  else do
    assertThat build false
    .error .uninitialised

/-- What `UrlEncode` writes for one byte. -/
def encodeByte (c : UInt8) : Bytes :=
  if isalnum c ∨ c = '-'.toUInt8 ∨ c = '_'.toUInt8 ∨ c = '.'.toUInt8 ∨ c = '~'.toUInt8 then [c]
  else if c = ' '.toUInt8 then ['+'.toUInt8]
  else ['%'.toUInt8, toHex (c >>> 4), toHex (c &&& 0x0F)]

/-- `UrlEncode`. -/
def urlEncode (str : Bytes) : Bytes := str.flatMap encodeByte

/-- `UrlDecode`, on what its loop has not read yet. -/
def urlDecode (build : BuildType) : Bytes → Except Fault Bytes
  | [] => .ok []
  | c :: rest =>
    if c = '+'.toUInt8 then (' '.toUInt8 :: ·) <$> urlDecode build rest
    else if c = '%'.toUInt8 then
      match rest with
      | first :: second :: rest => do
        let high ← fromHex build first
        let low ← fromHex build second
        ((high * 16 + low) :: ·) <$> urlDecode build rest
      | short => do
        assertThat build false
        let high ← fromHex build (← charAt short 0)
        let low ← fromHex build (← charAt short 1)
        -- the index is behind the string by now
        .ok [high * 16 + low]
    else (c :: ·) <$> urlDecode build rest

/-! ## The query -/

/-- What `PreParseGetParam` reads and writes. -/
structure HttpConnection where
  target : Bytes
  m_get_url : Bytes := []
  m_get_params : AList fun _ : Bytes => Bytes := ∅

/-- One pair of the query; one without '=' is skipped. -/
def storePair (build : BuildType) (params : AList fun _ : Bytes => Bytes) (pair : Bytes) :
    Except Fault (AList fun _ : Bytes => Bytes) :=
  match pair.idxOf? '='.toUInt8 with
  | none => .ok params
  | some eqPos => do
    let key ← urlDecode build (pair.take eqPos)
    let value ← urlDecode build (pair.drop (eqPos + 1))
    .ok (params.insert key value)

/-- The loop over the pairs that end in '&', and the last pair behind it. -/
def storePairs (build : BuildType) (params : AList fun _ : Bytes => Bytes) (query : Bytes) :
    Except Fault (AList fun _ : Bytes => Bytes) :=
  match h : query.idxOf? '&'.toUInt8 with
  | some pos => do
    let params ← storePair build params (query.take pos)
    storePairs build params (query.drop (pos + 1))
  | none => if query.isEmpty then .ok params else storePair build params query
termination_by query.length
decreasing_by
  have := (List.idxOf?_eq_some_iff.mp h).choose
  simp only [List.length_drop]
  omega

/-- `PreParseGetParam`. -/
def HttpConnection.preParseGetParam (build : BuildType) (self : HttpConnection) :
    Except Fault HttpConnection :=
  match self.target.idxOf? '?'.toUInt8 with
  | none => .ok { self with m_get_url := self.target }
  | some queryPos => do
    let params ← storePairs build self.m_get_params (self.target.drop (queryPos + 1))
    .ok { self with m_get_url := self.target.take queryPos, m_get_params := params }

end SyncRtc.GateServer
