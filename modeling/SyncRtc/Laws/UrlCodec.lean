import SyncRtc.GateServer.HttpConnection

/-!
# What the query parser reads

Two laws. What `urlEncode` writes is read back, byte by byte and pair by pair, so a query that a client
built with it arrives as it was meant. And reading ends without a fault exactly when every '%' that is
decoded has two letters or digits behind it: nothing else in a request is looked at before this step, so
a request with any other '%' ends the process.
-/

set_option autoImplicit false

namespace SyncRtc.GateServer

open Net (Bytes)

variable {build : BuildType}

/-! ## Cutting a string at a byte -/

section Cutting

theorem idxOf?_append_cons {a b : Bytes} {c : UInt8} (h : c ∉ a) : (a ++ c :: b).idxOf? c = some a.length := by
  induction a with
  | nil => simp [List.idxOf?_cons]
  | cons x a ih =>
    have hx : x ≠ c := fun e => h (e ▸ List.mem_cons_self)
    simp [List.idxOf?_cons, hx, ih fun hm => h (List.mem_cons_of_mem x hm)]

/-- The first `c` of a string cuts it in two, and the left part has none. -/
theorem cut_of_idxOf? {s : Bytes} {c : UInt8} {pos : Nat} (h : s.idxOf? c = some pos) :
    s = s.take pos ++ c :: s.drop (pos + 1) ∧ c ∉ s.take pos := by
  obtain ⟨hpos, hc, hfirst⟩ := List.idxOf?_eq_some_iff.mp h
  constructor
  · rw [← hc, List.getElem_cons_drop, List.take_append_drop]
  · intro hmem
    obtain ⟨i, hi, e⟩ := List.mem_take_iff_getElem.mp hmem
    exact hfirst i (by omega) e

/-- The loop of `PreParseGetParam` stores the pieces between the '&' one by one. -/
theorem storePairs_eq (params : AList fun _ : Bytes => Bytes) (query : Bytes) :
    storePairs build params query = (query.splitOn '&'.toUInt8).foldlM (storePair build) params := by
  induction hn : query.length using Nat.strongRecOn generalizing params query with
  | _ n ih =>
    rw [storePairs]
    split
    next pos h =>
      obtain ⟨hcut, hfirst⟩ := cut_of_idxOf? h
      obtain ⟨hpos, -⟩ := List.idxOf?_eq_some_iff.mp h
      have hpieces : query.splitOn '&'.toUInt8 =
          query.take pos :: (query.drop (pos + 1)).splitOn '&'.toUInt8 := by
        conv_lhs => rw [hcut]
        exact List.splitOn_append_cons_self_of_not_mem hfirst _
      rw [hpieces, List.foldlM_cons]
      congr 1
      funext next
      exact ih _ (by rw [List.length_drop]; omega) next _ rfl
    next h =>
      rw [List.splitOn_eq_singleton (List.idxOf?_eq_none_iff.mp h), List.foldlM_cons]
      simp only [List.foldlM_nil, bind_pure]
      split
      next hnil =>
        rw [List.isEmpty_iff.mp hnil]
        rfl
      next => rfl

end Cutting

/-! ## One byte -/

section Digits

theorem fromHex_toHex {x : UInt8} (h : x < 16) : fromHex build (toHex x) = .ok x := by
  have hall : ∀ n < 16, fromHex build (toHex (UInt8.ofNat n)) = .ok (UInt8.ofNat n) := by
    cases build <;> decide
  have := hall x.toNat (UInt8.lt_iff_toNat_lt.mp h)
  rwa [UInt8.ofNat_toNat] at this

theorem isalnum_toHex {x : UInt8} (h : x < 16) : isalnum (toHex x) := by
  have hall : ∀ n < 16, isalnum (toHex (UInt8.ofNat n)) := by decide
  have := hall x.toNat (UInt8.lt_iff_toNat_lt.mp h)
  rwa [UInt8.ofNat_toNat] at this

/-- The digits are the letters and the decimal digits, and nothing else has a value. -/
theorem fromHex_ok_iff {x : UInt8} : (∃ y, fromHex build x = .ok y) ↔ isalnum x := by
  unfold fromHex isalnum
  by_cases hupper : 'A'.toUInt8 ≤ x ∧ x ≤ 'Z'.toUInt8
  · simp [hupper]
  · by_cases hlower : 'a'.toUInt8 ≤ x ∧ x ≤ 'z'.toUInt8
    · simp [hupper, hlower]
    · by_cases hdigit : '0'.toUInt8 ≤ x ∧ x ≤ '9'.toUInt8
      · simp [hupper, hlower, hdigit]
      · have hfault : ∀ y, (do assertThat build false; .error .uninitialised : Except Fault UInt8) ≠ .ok y := by
          cases build <;> exact fun _ e => nomatch e
        simp only [hupper, hlower, hdigit, if_false, hfault, exists_false, false_iff]
        simp only [Bool.or_eq_true, Bool.and_eq_true, decide_eq_true_eq, not_or]
        exact ⟨⟨hupper, hlower⟩, hdigit⟩

/-- A byte is its upper half times sixteen and its lower half. -/
theorem halves (c : UInt8) : (c >>> 4) * 16 + (c &&& 0x0F) = c := by
  apply UInt8.toNat_inj.mp
  have hc : c.toNat < 256 := c.toNat_lt
  have hmask : c.toNat &&& 15 = c.toNat % 16 := Nat.and_two_pow_sub_one_eq_mod c.toNat 4
  simp [hmask, Nat.shiftRight_eq_div_pow]
  omega

theorem high_lt (c : UInt8) : c >>> 4 < 16 := by
  have hc : c.toNat < 256 := c.toNat_lt
  simp [UInt8.lt_iff_toNat_lt, Nat.shiftRight_eq_div_pow]
  omega

theorem low_lt (c : UInt8) : c &&& 0x0F < 16 := by
  rw [UInt8.lt_iff_toNat_lt, UInt8.toNat_and]
  exact Nat.lt_of_le_of_lt Nat.and_le_right (by decide)

/-! The three ways `UrlDecode` goes on. -/

theorem urlDecode_plus (rest : Bytes) :
    urlDecode build ('+'.toUInt8 :: rest) = (' '.toUInt8 :: ·) <$> urlDecode build rest := by
  cases rest with
  | nil => rfl
  | cons x rest => cases rest <;> rfl

theorem urlDecode_plain {c : UInt8} (hplus : c ≠ '+'.toUInt8) (hpercent : c ≠ '%'.toUInt8) (rest : Bytes) :
    urlDecode build (c :: rest) = (c :: ·) <$> urlDecode build rest := by
  rw [urlDecode.eq_def]
  simp only [if_neg hplus, if_neg hpercent]

theorem urlDecode_escape (first second : UInt8) (rest : Bytes) :
    urlDecode build ('%'.toUInt8 :: first :: second :: rest) =
      (do
        let high ← fromHex build first
        let low ← fromHex build second
        ((high * 16 + low) :: ·) <$> urlDecode build rest) := rfl

/-- What is written for a byte is read as that byte, whatever comes behind it. -/
theorem urlDecode_encodeByte (c : UInt8) (rest : Bytes) :
    urlDecode build (encodeByte c ++ rest) = (c :: ·) <$> urlDecode build rest := by
  unfold encodeByte
  split
  next hplain =>
    refine urlDecode_plain ?_ ?_ rest
    · rintro rfl
      revert hplain
      decide
    · rintro rfl
      revert hplain
      decide
  · split
    next hspace => rw [hspace, List.singleton_append, urlDecode_plus]
    next =>
      simp only [List.cons_append, List.nil_append]
      rw [urlDecode_escape, fromHex_toHex (high_lt c), fromHex_toHex (low_lt c)]
      change (((c >>> 4) * 16 + (c &&& 0x0F)) :: ·) <$> urlDecode build rest = _
      rw [halves]

theorem urlDecode_urlEncode (s : Bytes) : urlDecode build (urlEncode s) = .ok s := by
  induction s with
  | nil => rfl
  | cons c s ih =>
    rw [urlEncode, List.flatMap_cons, urlDecode_encodeByte]
    change (c :: ·) <$> urlDecode build (urlEncode s) = _
    rw [ih]
    rfl

/-- A byte that separates pairs is never written. -/
theorem encodeByte_clear (c : UInt8) {sep : UInt8} (h : sep = '&'.toUInt8 ∨ sep = '='.toUInt8) :
    sep ∉ encodeByte c := by
  have hsep : isalnum sep = false ∧ sep ≠ '-'.toUInt8 ∧ sep ≠ '_'.toUInt8 ∧ sep ≠ '.'.toUInt8 ∧
      sep ≠ '~'.toUInt8 ∧ sep ≠ '+'.toUInt8 ∧ sep ≠ '%'.toUInt8 := by
    rcases h with rfl | rfl <;> decide
  obtain ⟨halnum, hdash, hunder, hdot, htilde, hplus, hpercent⟩ := hsep
  have hdigit : ∀ x < 16, sep ≠ toHex x := by
    rintro x hx rfl
    rw [isalnum_toHex hx] at halnum
    cases halnum
  unfold encodeByte
  split
  next hplain =>
    rw [List.mem_singleton]
    rintro rfl
    rcases hplain with h | h | h | h | h
    · rw [h] at halnum
      cases halnum
    · exact hdash h
    · exact hunder h
    · exact hdot h
    · exact htilde h
  · split
    · rwa [List.mem_singleton]
    · simp only [List.mem_cons, List.not_mem_nil, or_false, not_or]
      exact ⟨hpercent, hdigit _ (high_lt c), hdigit _ (low_lt c)⟩

theorem urlEncode_clear (s : Bytes) {sep : UInt8} (h : sep = '&'.toUInt8 ∨ sep = '='.toUInt8) :
    sep ∉ urlEncode s := by
  intro hmem
  obtain ⟨c, -, hc⟩ := List.mem_flatMap.mp hmem
  exact encodeByte_clear c h hc

end Digits

/-! ## A query written with the codec -/

section Written

/-- One pair as a client writes it. -/
def encodePair (pair : Bytes × Bytes) : Bytes := urlEncode pair.1 ++ '='.toUInt8 :: urlEncode pair.2

/-- The pairs, joined by '&'. -/
def encodeQuery (pairs : List (Bytes × Bytes)) : Bytes := ['&'.toUInt8].intercalate (pairs.map encodePair)

theorem encodePair_clear (pair : Bytes × Bytes) : '&'.toUInt8 ∉ encodePair pair := by
  intro hmem
  rcases List.mem_append.mp hmem with h | h
  · exact urlEncode_clear pair.1 (.inl rfl) h
  · rcases List.mem_cons.mp h with h | h
    · exact absurd h (by decide)
    · exact urlEncode_clear pair.2 (.inl rfl) h

/-- The first '=' of a written pair is the one between its key and its value. -/
theorem storePair_encodePair (params : AList fun _ : Bytes => Bytes) (pair : Bytes × Bytes) :
    storePair build params (encodePair pair) = .ok (params.insert pair.1 pair.2) := by
  have hpos : (encodePair pair).idxOf? '='.toUInt8 = some (urlEncode pair.1).length :=
    idxOf?_append_cons (urlEncode_clear pair.1 (.inr rfl))
  have hkey : (encodePair pair).take (urlEncode pair.1).length = urlEncode pair.1 := List.take_left
  have hvalue : (encodePair pair).drop ((urlEncode pair.1).length + 1) = urlEncode pair.2 := by
    rw [encodePair, List.drop_append]
    simp
  simp only [storePair, hpos, hkey, hvalue, urlDecode_urlEncode]
  rfl

theorem storePairs_encodeQuery (params : AList fun _ : Bytes => Bytes) (pairs : List (Bytes × Bytes)) :
    storePairs build params (encodeQuery pairs) =
      .ok (pairs.foldl (fun stored pair => stored.insert pair.1 pair.2) params) := by
  have hfold : ∀ params, (pairs.map encodePair).foldlM (storePair build) params =
      .ok (pairs.foldl (fun stored pair => stored.insert pair.1 pair.2) params) := by
    induction pairs with
    | nil => exact fun _ => rfl
    | cons pair pairs ih =>
      intro params
      rw [List.map_cons, List.foldlM_cons, storePair_encodePair, List.foldl_cons, ← ih]
      rfl
  rw [storePairs_eq, ← hfold]
  cases pairs with
  | nil => rfl
  | cons pair pairs =>
    rw [encodeQuery, List.splitOn_intercalate]
    · intro piece hpiece
      obtain ⟨pair, -, rfl⟩ := List.mem_map.mp hpiece
      exact encodePair_clear pair
    · exact List.cons_ne_nil _ _

/-- Storing pairs of distinct keys keeps each of them, and what was stored under other keys. -/
theorem lookup_stored {pairs : List (Bytes × Bytes)} (hkeys : (pairs.map Prod.fst).Nodup)
    (params : AList fun _ : Bytes => Bytes) (key value : Bytes) :
    (pairs.foldl (fun stored pair => stored.insert pair.1 pair.2) params).lookup key = some value ↔
      (key, value) ∈ pairs ∨ key ∉ pairs.map Prod.fst ∧ params.lookup key = some value := by
  induction pairs generalizing params with
  | nil => simp
  | cons pair pairs ih =>
    obtain ⟨hfresh, hkeys⟩ := List.nodup_cons.mp hkeys
    rw [List.foldl_cons, ih hkeys, List.mem_cons, List.map_cons, List.mem_cons]
    by_cases hk : key = pair.1
    · subst hk
      have hnot : (pair.1, value) ∉ pairs := fun h => hfresh (List.mem_map.mpr ⟨_, h, rfl⟩)
      simp [hfresh, hnot, Prod.ext_iff, eq_comm]
    · have hne : (key, value) ≠ pair := fun e => hk (congrArg Prod.fst e)
      simp [hk, hne, AList.lookup_insert_ne hk]

/-- **The codec and the parser round trip**, for every byte and every number of pairs. -/
theorem query_round_trip (build : BuildType) (path : Bytes) (pairs : List (Bytes × Bytes))
    (hpath : '?'.toUInt8 ∉ path) (hkeys : (pairs.map Prod.fst).Nodup) :
    (∀ s, urlDecode build (urlEncode s) = .ok s) ∧
      ∃ parsed, HttpConnection.preParseGetParam build { target := path ++ '?'.toUInt8 :: encodeQuery pairs } =
          .ok parsed ∧
        parsed.m_get_url = path ∧
        ∀ key value, parsed.m_get_params.lookup key = some value ↔ (key, value) ∈ pairs := by
  refine ⟨urlDecode_urlEncode, ?_⟩
  have hurl : (path ++ '?'.toUInt8 :: encodeQuery pairs).take path.length = path := List.take_left
  have hquery : (path ++ '?'.toUInt8 :: encodeQuery pairs).drop (path.length + 1) = encodeQuery pairs := by
    rw [List.drop_append]
    simp
  simp only [HttpConnection.preParseGetParam, idxOf?_append_cons hpath, hurl, hquery, storePairs_encodeQuery]
  refine ⟨_, rfl, rfl, fun key value => ?_⟩
  rw [lookup_stored hkeys, AList.lookup_empty]
  simp

/-- Two pairs: an empty one, and one whose bytes all have to be escaped. -/
def awkwardPairs : List (Bytes × Bytes) := [([], []), ([61, 200], [38, 37, 43, 32])]

theorem query_round_trip_awkward :
    ∃ parsed, HttpConnection.preParseGetParam .debug
        { target := [47, 103] ++ '?'.toUInt8 :: encodeQuery awkwardPairs } = .ok parsed ∧
      parsed.m_get_url = [47, 103] ∧
      ∀ key value, parsed.m_get_params.lookup key = some value ↔ (key, value) ∈ awkwardPairs :=
  (query_round_trip .debug [47, 103] awkwardPairs (by decide) (by decide)).2

end Written

/-! ## Which queries are read to the end -/

section Total

/-- Every '%' has two letters or digits behind it. -/
def Escaped (s : Bytes) : Prop :=
  ∀ i, s[i]? = some '%'.toUInt8 → (s[i + 1]?).any isalnum ∧ (s[i + 2]?).any isalnum

theorem escaped_nil : Escaped [] := by
  intro i h
  cases h

theorem escaped_cons {c : UInt8} {rest : Bytes} :
    Escaped (c :: rest) ↔
      (c = '%'.toUInt8 → (rest[0]?).any isalnum ∧ (rest[1]?).any isalnum) ∧ Escaped rest := by
  constructor
  · intro h
    exact ⟨fun e => h 0 (congrArg some e), fun i => h (i + 1)⟩
  · rintro ⟨hfirst, hrest⟩ i hi
    cases i with
    | zero => exact hfirst (Option.some.inj hi)
    | succ i => exact hrest i hi

/-- A byte that is no letter, no digit and no '%' can be cut out. -/
theorem escaped_append_cons {sep : UInt8} (hsep : isalnum sep = false) (hpercent : sep ≠ '%'.toUInt8)
    (a b : Bytes) : Escaped (a ++ sep :: b) ↔ Escaped a ∧ Escaped b := by
  induction a with
  | nil => simp [escaped_cons, hpercent, escaped_nil]
  | cons c a ih =>
    have hnext : ((a ++ sep :: b)[0]?).any isalnum = (a[0]?).any isalnum := by
      cases a <;> simp [hsep]
    have hafter : (a[0]?).any isalnum → ((a ++ sep :: b)[1]?).any isalnum = (a[1]?).any isalnum := by
      intro h
      cases a with
      | nil => cases h
      | cons x a => cases a <;> simp [hsep]
    rw [List.cons_append, escaped_cons, escaped_cons, ih, hnext]
    constructor
    · rintro ⟨h, ha, hb⟩
      exact ⟨⟨fun e => ⟨(h e).1, hafter (h e).1 ▸ (h e).2⟩, ha⟩, hb⟩
    · rintro ⟨⟨h, ha⟩, hb⟩
      exact ⟨fun e => ⟨(h e).1, (hafter (h e).1).symm ▸ (h e).2⟩, ha, hb⟩

theorem escaped_escape {first second : UInt8} {rest : Bytes} :
    Escaped ('%'.toUInt8 :: first :: second :: rest) ↔
      isalnum first ∧ isalnum second ∧ Escaped rest := by
  have hclear : ∀ {c : UInt8}, isalnum c → c ≠ '%'.toUInt8 := by
    rintro c h rfl
    revert h
    decide
  rw [escaped_cons, escaped_cons, escaped_cons]
  constructor
  · rintro ⟨h, -, -, hrest⟩
    exact ⟨(h rfl).1, (h rfl).2, hrest⟩
  · rintro ⟨hfirst, hsecond, hrest⟩
    exact ⟨fun _ => ⟨hfirst, hsecond⟩, fun e => absurd e (hclear hfirst), fun e => absurd e (hclear hsecond), hrest⟩

theorem map_ok_iff {α β : Type} (f : α → β) (x : Except Fault α) :
    (∃ r, f <$> x = .ok r) ↔ ∃ a, x = .ok a := by
  cases x with
  | error e => exact ⟨fun ⟨_, h⟩ => (nomatch h), fun ⟨_, h⟩ => (nomatch h)⟩
  | ok a => exact ⟨fun _ => ⟨a, rfl⟩, fun _ => ⟨f a, rfl⟩⟩

theorem bind_ok_iff {α β : Type} (f : α → Except Fault β) (x : Except Fault α) :
    (∃ r, x >>= f = .ok r) ↔ ∃ a, x = .ok a ∧ ∃ r, f a = .ok r := by
  cases x with
  | error e => exact ⟨fun ⟨_, h⟩ => (nomatch h), fun ⟨_, h, _⟩ => (nomatch h)⟩
  | ok a =>
    constructor
    · exact fun h => ⟨a, rfl, h⟩
    · rintro ⟨_, h, hr⟩
      cases h
      exact hr

/-- Behind a '%' that ends a string, or stands right before its end, the terminator is read as a digit. -/
theorem urlDecode_short {short : Bytes} (h : short.length < 2) (r : Bytes) :
    urlDecode build ('%'.toUInt8 :: short) ≠ .ok r := by
  have hzero : ∀ y, fromHex build 0 ≠ .ok y := by
    intro y hy
    have hdigit := fromHex_ok_iff.mp ⟨y, hy⟩
    revert hdigit
    decide
  intro hr
  match short with
  | [] =>
    obtain ⟨_, _, hr⟩ := (bind_ok_iff _ _).mp ⟨r, hr⟩
    obtain ⟨terminator, hterminator, hr⟩ := (bind_ok_iff _ _).mp hr
    cases hterminator
    obtain ⟨high, hhigh, _⟩ := (bind_ok_iff _ _).mp hr
    exact hzero high hhigh
  | [first] =>
    obtain ⟨_, _, hr⟩ := (bind_ok_iff _ _).mp ⟨r, hr⟩
    obtain ⟨_, _, hr⟩ := (bind_ok_iff _ _).mp hr
    obtain ⟨_, _, hr⟩ := (bind_ok_iff _ _).mp hr
    -- the second digit
    obtain ⟨terminator, hterminator, hr⟩ := (bind_ok_iff _ _).mp hr
    cases hterminator
    obtain ⟨low, hlow, _⟩ := (bind_ok_iff _ _).mp hr
    exact hzero low hlow
  | _ :: _ :: _ =>
    simp only [List.length_cons] at h
    omega

/-- Decoding ends without a fault exactly when every '%' has its two digits. -/
theorem urlDecode_ok_iff (s : Bytes) : (∃ r, urlDecode build s = .ok r) ↔ Escaped s := by
  induction s using urlDecode.induct with
  | case1 => exact ⟨fun _ => escaped_nil, fun _ => ⟨[], rfl⟩⟩
  | case2 rest ih =>
    rw [urlDecode_plus, map_ok_iff, ih, escaped_cons]
    exact ⟨fun h => ⟨fun e => absurd e (by decide), h⟩, fun h => h.2⟩
  | case3 first second rest _ ih =>
    rw [urlDecode_escape, bind_ok_iff, escaped_escape, ← @fromHex_ok_iff build,
      ← @fromHex_ok_iff build, ← ih]
    simp only [bind_ok_iff, map_ok_iff]
    constructor
    · rintro ⟨high, hhigh, low, hlow, hrest⟩
      exact ⟨⟨high, hhigh⟩, ⟨low, hlow⟩, hrest⟩
    · rintro ⟨⟨high, hhigh⟩, ⟨low, hlow⟩, hrest⟩
      exact ⟨high, hhigh, low, hlow, hrest⟩
  | case4 short hshort _ =>
    have hlen : short.length < 2 := by
      match short with
      | [] => exact Nat.zero_lt_two
      | [_] => exact Nat.one_lt_two
      | first :: second :: rest => exact absurd rfl (hshort first second rest)
    constructor
    · rintro ⟨r, hr⟩
      exact absurd hr (urlDecode_short hlen r)
    · intro h
      have hsecond := ((escaped_cons.mp h).1 rfl).2
      rw [List.getElem?_eq_none (by omega)] at hsecond
      cases hsecond
  | case5 c rest hplus hpercent ih =>
    rw [urlDecode_plain hplus hpercent, map_ok_iff, ih, escaped_cons]
    exact ⟨fun h => ⟨fun e => absurd e hpercent, h⟩, fun h => h.2⟩

/-- Only a pair with an '=' is decoded. -/
theorem storePair_ok_iff (params : AList fun _ : Bytes => Bytes) (pair : Bytes) :
    (∃ r, storePair build params pair = .ok r) ↔ ('='.toUInt8 ∈ pair → Escaped pair) := by
  unfold storePair
  split
  next h => exact ⟨fun _ hm => absurd hm (List.idxOf?_eq_none_iff.mp h), fun _ => ⟨params, rfl⟩⟩
  next eqPos h =>
    obtain ⟨hcut, -⟩ := cut_of_idxOf? h
    have hmem : '='.toUInt8 ∈ pair := by
      rw [hcut]
      exact List.mem_append_right _ List.mem_cons_self
    have hboth : Escaped pair ↔ Escaped (pair.take eqPos) ∧ Escaped (pair.drop (eqPos + 1)) := by
      conv_lhs => rw [hcut]
      exact escaped_append_cons (by decide) (by decide) _ _
    simp only [bind_ok_iff, hmem, forall_const, hboth, ← @urlDecode_ok_iff build]
    constructor
    · rintro ⟨key, hkey, value, hvalue, -⟩
      exact ⟨⟨key, hkey⟩, ⟨value, hvalue⟩⟩
    · rintro ⟨⟨key, hkey⟩, ⟨value, hvalue⟩⟩
      exact ⟨key, hkey, value, hvalue, _, rfl⟩

theorem storePairs_ok_iff (params : AList fun _ : Bytes => Bytes) (query : Bytes) :
    (∃ r, storePairs build params query = .ok r) ↔
      ∀ pair ∈ query.splitOn '&'.toUInt8, '='.toUInt8 ∈ pair → Escaped pair := by
  rw [storePairs_eq]
  induction query.splitOn '&'.toUInt8 generalizing params with
  | nil => exact ⟨fun _ _ h => absurd h List.not_mem_nil, fun _ => ⟨params, rfl⟩⟩
  | cons pair pieces ih =>
    rw [List.foldlM_cons, bind_ok_iff, List.forall_mem_cons, ← storePair_ok_iff params]
    constructor
    · rintro ⟨stored, hstored, hr⟩
      exact ⟨⟨stored, hstored⟩, (ih stored).mp hr⟩
    · rintro ⟨⟨stored, hstored⟩, h⟩
      exact ⟨stored, hstored, (ih stored).mpr h⟩

/-- The query of a target is read to its end: what is decoded of it is escaped. -/
def QueryEscaped (target : Bytes) : Prop :=
  ∀ path query, target = path ++ '?'.toUInt8 :: query → '?'.toUInt8 ∉ path →
    ∀ pair ∈ query.splitOn '&'.toUInt8, '='.toUInt8 ∈ pair → Escaped pair

/-- **Decoding is total on escaped input only**: any other '%' is a fault, however the server was built. -/
theorem decoded_iff (build : BuildType) :
    (∀ s, (∃ r, urlDecode build s = .ok r) ↔ Escaped s) ∧
      ∀ self : HttpConnection, (∃ parsed, self.preParseGetParam build = .ok parsed) ↔ QueryEscaped self.target := by
  refine ⟨urlDecode_ok_iff, fun self => ?_⟩
  unfold HttpConnection.preParseGetParam
  split
  next h =>
    refine ⟨fun _ path query e => ?_, fun _ => ⟨_, rfl⟩⟩
    refine absurd ?_ (List.idxOf?_eq_none_iff.mp h)
    rw [e]
    exact List.mem_append_right _ List.mem_cons_self
  next pos h =>
    obtain ⟨hcut, hfirst⟩ := cut_of_idxOf? h
    rw [bind_ok_iff]
    constructor
    · rintro ⟨params, hparams, -⟩ path query e hpath
      -- the first '?' is where the parser cuts
      have hpos : path.length = pos := by
        rw [e, idxOf?_append_cons hpath] at h
        exact Option.some.inj h
      have hquery : self.target.drop (pos + 1) = query := by
        rw [e, ← hpos, List.drop_append]
        simp
      rw [← hquery]
      exact (storePairs_ok_iff _ _).mp ⟨params, hparams⟩
    · intro hquery
      obtain ⟨params, hparams⟩ := (storePairs_ok_iff self.m_get_params _).mpr (hquery _ _ hcut hfirst)
      exact ⟨params, hparams, _, rfl⟩

/-- `GET /?a=%` stops the assertion of a debug build; a release build goes on with a digit never assigned. -/
theorem lonely_percent :
    HttpConnection.preParseGetParam .debug { target := [47, 63, 97, 61, 37] } = .error .assertion ∧
      HttpConnection.preParseGetParam .release { target := [47, 63, 97, 61, 37] } = .error .uninitialised := by
  have hstored : ∀ build, storePairs build ∅ [97, 61, 37] = storePair build ∅ [97, 61, 37] := by
    intro build
    rw [storePairs_eq]
    exact bind_pure _
  constructor
  · change (do let params ← storePairs .debug ∅ [97, 61, 37]; _ : Except Fault HttpConnection) = _
    rw [hstored]
    rfl
  · change (do let params ← storePairs .release ∅ [97, 61, 37]; _ : Except Fault HttpConnection) = _
    rw [hstored]
    rfl

end Total

end SyncRtc.GateServer
