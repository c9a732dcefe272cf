import KongGateway.Kong.Tools.Ip.Groups

/-!
# Ip — normal forms

What `normalize_ip` returns is in a normal form for its type: four decimal
numbers, eight lower-case groups of four digits, or the name as it was.
`format_host` writes a normal form so that `normalize_ip` reads the same
table again. An address in brackets with a colon and nothing behind it is
the only one that raises an error.
-/

namespace KongGateway.Kong.Tools.Ip

open Bytes Numerals LuaPattern

/-! ## Types -/

def isAddressChar (c : Byte) : Bool := isDigit c || c = 46

theorem hostnameType_eq (s : Text) :
    hostnameType s = if 1 < s.count 58 then .ipv6
      else if s.filter (· ≠ 58) ≠ [] ∧ ∀ c ∈ s.filter (· ≠ 58), isAddressChar c = true then .ipv4
      else .name := by
  have hplus : (matchAll [Item.plus fun c => isDigit c || c = 46] (s.filter (· ≠ 58))).isSome = true
      ↔ s.filter (· ≠ 58) ≠ [] ∧ ∀ c ∈ s.filter (· ≠ 58), isAddressChar c = true := by
    rw [matchAll_isSome_iff, takes_plus_iff]
    rfl
  unfold hostnameType
  simp only [hplus, gt_iff_lt]

theorem hostnameType_eq_ipv4 {s : Text} (hcount : s.count 58 ≤ 1)
    (hne : s.filter (· ≠ 58) ≠ []) (hall : ∀ c ∈ s, isAddressChar c = true ∨ c = 58) :
    hostnameType s = .ipv4 := by
  rw [hostnameType_eq, if_neg (by omega), if_pos]
  refine ⟨hne, fun c hc => ?_⟩
  obtain ⟨hmem, hcolon⟩ := List.mem_filter.mp hc
  exact (hall c hmem).resolve_right (of_decide_eq_true hcolon)

theorem hostnameType_eq_name_iff {s : Text} :
    hostnameType s = .name ↔ s.count 58 ≤ 1
      ∧ (s.filter (· ≠ 58) = [] ∨ ∃ c ∈ s, isAddressChar c = false ∧ c ≠ 58) := by
  rw [hostnameType_eq]
  constructor
  · intro h
    split at h
    · cases h
    · rename_i hcount
      split at h
      · cases h
      · rename_i hall
        refine ⟨by omega, ?_⟩
        by_contra hnone
        push Not at hnone
        refine hall ⟨hnone.1, fun c hc => ?_⟩
        obtain ⟨hmem, hcolon⟩ := List.mem_filter.mp hc
        by_contra hc'
        exact of_decide_eq_true hcolon (hnone.2 c hmem (Bool.eq_false_iff.mpr hc'))
  · rintro ⟨hcount, h⟩
    rw [if_neg (by omega), if_neg]
    rintro ⟨hne, hall⟩
    rcases h with hnil | ⟨c, hc, hclass, hcolon⟩
    · exact hne hnil
    · rw [hall c (List.mem_filter.mpr ⟨hc, decide_eq_true hcolon⟩)] at hclass
      cases hclass

theorem hostnameType_eq_ipv6_iff {s : Text} : hostnameType s = .ipv6 ↔ 1 < s.count 58 := by
  rw [hostnameType_eq]
  constructor
  · intro h
    by_contra hcount
    rw [if_neg hcount] at h
    split at h <;> cases h
  · intro h
    rw [if_pos h]

/-! ## Ports -/

theorem suffix_portArg (port : Option Nat) :
    (portArg port).suffix = match port with
      | none => []
      | some n => 58 :: decimal n := by
  cases port <;> rfl

theorem decimal_takes (n : Nat) : (Item.plus isDigit).Takes (decimal n) :=
  takes_plus_iff.mpr ⟨decimal_ne_nil n, fun _ hc => isDigit_of_mem_decimal hc⟩

theorem matchAll_colonPort (n : Nat) : matchAll colonPort (58 :: decimal n) = some [decimal n] :=
  matchAll_lit_capture_eq_some_iff.mpr ⟨decimal n, rfl, decimal_takes n, rfl⟩

theorem colon_notMem_of_isDigit {s : Text} (h : ∀ c ∈ s, isDigit c = true) : (58 : Byte) ∉ s := by
  intro hmem
  have hcolon := h 58 hmem
  revert hcolon
  decide

/-! ## IPv4 -/

theorem decimal_octet {n : Nat} (h : n ≤ 255) : octet.Takes (decimal n) := by
  refine ⟨fun c hc => isDigit_of_mem_decimal hc, ?_, ?_⟩
  · exact List.length_pos_iff.mpr (decimal_ne_nil n)
  · intro hi hhi
    obtain rfl : 3 = hi := Option.some.inj hhi
    exact length_decimal_le (by decide) (by omega)

/-- Four numbers below 256, and a port. -/
structure Ipv4Form (octets : List Nat) (port : Option Nat) : Prop where
  length : octets.length = 4
  octet_le : ∀ n ∈ octets, n ≤ 255
  port_le : ∀ n ∈ port, n ≤ 65535

theorem normalizeIpv4_eq_ok {address host : Text} {port : Option Nat}
    (h : normalizeIpv4 address = .ok (host, port)) :
    ∃ octets, Ipv4Form octets port ∧ host = [46].intercalate (octets.map decimal) := by
  unfold normalizeIpv4 at h
  split at h
  · rename_i a b c d ports _
    dsimp only at h
    split at h
    · cases h
    · rename_i hle
      have hle' : ∀ n ∈ [a, b, c, d].map decimalNumber, n ≤ 255 := by
        intro n hn
        by_contra hgt
        exact hle (List.any_eq_true.mpr ⟨n, hn, decide_eq_true (by omega)⟩)
      split at h
      · split at h
        · cases h
        · rename_i hport
          cases h
          refine ⟨_, ⟨by simp, hle', ?_⟩, rfl⟩
          intro n hn
          cases hn
          omega
      · cases h
        exact ⟨_, ⟨by simp, hle', fun n hn => by cases hn⟩, rfl⟩
  · cases h

theorem isAddressChar_of_mem_octets {octets : List Nat} {c : Byte}
    (h : c ∈ [46].intercalate (octets.map decimal)) : isAddressChar c = true := by
  rcases Joined.mem_intercalate h with rfl | ⟨part, hpart, hc⟩
  · decide
  · obtain ⟨n, -, rfl⟩ := List.mem_map.mp hpart
    rw [isAddressChar, isDigit_of_mem_decimal hc, Bool.true_or]

theorem colon_notMem_octets (octets : List Nat) :
    (58 : Byte) ∉ [46].intercalate (octets.map decimal) := by
  intro hmem
  have hcolon := isAddressChar_of_mem_octets hmem
  revert hcolon
  decide

theorem matchIpv4_format {octets : List Nat} {port : Option Nat} (h : Ipv4Form octets port) :
    matchIpv4 ([46].intercalate (octets.map decimal) ++ (portArg port).suffix)
      = some (octets.map decimal ++ port.toList.map decimal) := by
  have hlength : (octets.map decimal).length = 4 := by rw [List.length_map, h.length]
  have htakes : ∀ part ∈ octets.map decimal, octet.Takes part := by
    intro part hpart
    obtain ⟨n, hn, rfl⟩ := List.mem_map.mp hpart
    exact decimal_octet (h.octet_le n hn)
  unfold matchIpv4
  cases port with
  | none =>
    rw [suffix_portArg, if_neg (by simpa using colon_notMem_octets octets), List.append_nil]
    have hmatch := (matchAll_fields_eq_some_iff (by decide : octet.cls 46 = false)).mpr
      ⟨hlength, htakes, rfl⟩
    rw [hmatch, Option.toList_none, List.map_nil, List.append_nil]
  | some n =>
    rw [suffix_portArg, if_pos (by simp)]
    have hmatch := matchThen_fields (by decide : octet.cls 46 = false) htakes
      (b := 58 :: decimal n) (fun c hc => by cases hc; decide) (matchAll_colonPort n)
    rwa [hlength] at hmatch

theorem normalizeIpv4_format {octets : List Nat} {port : Option Nat} (h : Ipv4Form octets port) :
    normalizeIpv4 ([46].intercalate (octets.map decimal) ++ (portArg port).suffix)
      = .ok ([46].intercalate (octets.map decimal), port) := by
  have hmatch := matchIpv4_format h
  obtain ⟨a, b, c, d, hoctets⟩ : ∃ a b c d, octets = [a, b, c, d] := by
    have hlength := h.length
    match octets, hlength with
    | [a, b, c, d], _ => exact ⟨a, b, c, d, rfl⟩
  have hback : [a, b, c, d].map (decimalNumber ∘ decimal) = [a, b, c, d] := by
    simp [decimalNumber_decimal]
  have hle : ¬ ([a, b, c, d].any (· > 255)) = true := by
    intro hany
    obtain ⟨n, hn, hgt⟩ := List.any_eq_true.mp hany
    have hn' := h.octet_le n (hoctets ▸ hn)
    have hgt' : n > 255 := of_decide_eq_true hgt
    omega
  subst hoctets
  unfold normalizeIpv4
  rw [hmatch]
  simp only [List.map_cons, List.map_nil, List.cons_append, List.nil_append,
    decimalNumber_decimal, hle, Bool.false_eq_true, if_false]
  cases port with
  | none => rfl
  | some n =>
    have hn := h.port_le n rfl
    simp only [Option.toList_some, List.map_cons, List.head?_cons, Option.map_some,
      decimalNumber_decimal]
    rw [if_neg (by omega)]

theorem hostnameType_ipv4_format {octets : List Nat} {port : Option Nat}
    (h : Ipv4Form octets port) :
    hostnameType ([46].intercalate (octets.map decimal) ++ (portArg port).suffix) = .ipv4 := by
  have hhost := colon_notMem_octets octets
  have hne : [46].intercalate (octets.map decimal) ≠ [] := by
    match octets, h.length with
    | [a, b, c, d], _ => simp [List.intercalate_cons_cons, decimal_ne_nil]
  have hfilter : ([46].intercalate (octets.map decimal)).filter (· ≠ 58)
      = [46].intercalate (octets.map decimal) := by
    refine List.filter_eq_self.mpr fun c hc => decide_eq_true ?_
    rintro rfl
    exact hhost hc
  apply hostnameType_eq_ipv4
  · rw [List.count_append, List.count_eq_zero_of_not_mem hhost, Nat.zero_add, suffix_portArg]
    cases port with
    | none => exact Nat.zero_le 1
    | some n =>
      have hport := colon_notMem_of_isDigit fun c hc => isDigit_of_mem_decimal (n := n) hc
      rw [List.count_cons_self, List.count_eq_zero_of_not_mem hport]
  · rw [List.filter_append, hfilter]
    exact List.append_ne_nil_of_left_ne_nil hne _
  · intro c hc
    rcases List.mem_append.mp hc with hc | hc
    · exact Or.inl (isAddressChar_of_mem_octets hc)
    · rw [suffix_portArg] at hc
      cases port with
      | none => cases hc
      | some n =>
        rcases List.mem_cons.mp hc with rfl | hc
        · exact Or.inr rfl
        · left
          rw [isAddressChar, isDigit_of_mem_decimal hc, Bool.true_or]

/-! ## Names -/

theorem checkName_eq_ok_iff {address name name' : Text} {port port' : Option Nat} :
    checkName address name port = .ok (name', port')
      ↔ ((name ≠ [] ∧ ∀ c ∈ name, isNameChar c = true)
        ∧ ((name.splitOn 46).zipIdx.any (badSegment (name.splitOn 46).length)) = false)
        ∧ name' = name ∧ port' = port := by
  have hplus : (matchAll [Item.plus isNameChar] name).isNone = true
      ↔ ¬ (name ≠ [] ∧ ∀ c ∈ name, isNameChar c = true) := by
    rw [← takes_plus_iff, ← matchAll_isSome_iff, Option.isSome_iff_ne_none, not_not,
      Option.isNone_iff_eq_none]
  unfold checkName
  by_cases hname : name ≠ [] ∧ ∀ c ∈ name, isNameChar c = true
  · rw [if_neg (fun h => hplus.mp h hname)]
    cases hbad : (name.splitOn 46).zipIdx.any (badSegment (name.splitOn 46).length) with
    | true =>
      dsimp only
      rw [hbad, if_pos rfl]
      constructor
      · intro h
        cases h
      · rintro ⟨⟨-, h⟩, -⟩
        cases h
    | false =>
      dsimp only
      rw [hbad, if_neg Bool.false_ne_true]
      constructor
      · intro h
        cases h
        exact ⟨⟨hname, rfl⟩, rfl, rfl⟩
      · rintro ⟨-, rfl, rfl⟩
        rfl
  · rw [if_pos (hplus.mpr hname)]
    constructor
    · intro h
      cases h
    · intro h
      exact absurd h.1.1 hname

/-- A name that is in order, with its port. -/
structure NameForm (name : Text) (port : Option Nat) : Prop where
  ne_nil : name ≠ []
  chars : ∀ c ∈ name, isNameChar c = true
  segments : (name.splitOn 46).zipIdx.any (badSegment (name.splitOn 46).length) = false
  port_le : ∀ n ∈ port, n ≤ 65535

theorem NameForm.colon_notMem {name : Text} {port : Option Nat} (h : NameForm name port) :
    (58 : Byte) ∉ name := by
  intro hmem
  have hcolon := h.chars 58 hmem
  revert hcolon
  decide

theorem portSuffix_eq_some {s port : Text} (h : portSuffix s = some port) :
    ∃ name, s = name ++ 58 :: port ∧ port ≠ [] ∧ ∀ c ∈ port, isDigit c = true := by
  induction s with
  | nil => cases h
  | cons c s ih =>
    rw [portSuffix] at h
    split at h
    · rename_i digits hmatch
      cases h
      obtain ⟨part, hs, hpart, hm⟩ := matchAll_lit_capture_eq_some_iff.mp hmatch
      cases hm
      obtain ⟨hne, hdigits⟩ := takes_plus_iff.mp hpart
      exact ⟨[], hs, hne, hdigits⟩
    · obtain ⟨name, hs, hport⟩ := ih h
      exact ⟨c :: name, by rw [hs, List.cons_append], hport⟩

theorem portSuffix_cons_of_ne {c : Byte} {s : Text} (hc : c ≠ 58) :
    portSuffix (c :: s) = portSuffix s := by
  rw [portSuffix]
  split
  · rename_i digits hmatch
    obtain ⟨part, hs, -, -⟩ := matchAll_lit_capture_eq_some_iff.mp hmatch
    exact absurd (List.cons.inj hs).1 hc
  · rfl

theorem portSuffix_append {name s : Text} (h : (58 : Byte) ∉ name) :
    portSuffix (name ++ s) = portSuffix s := by
  induction name with
  | nil => rfl
  | cons c name ih =>
    have hc : c ≠ 58 := fun heq => h (heq ▸ List.mem_cons_self)
    rw [List.cons_append, portSuffix_cons_of_ne hc]
    exact ih fun hmem => h (List.mem_cons_of_mem c hmem)

theorem portSuffix_suffix (port : Option Nat) :
    portSuffix (portArg port).suffix = port.map decimal := by
  rw [suffix_portArg]
  cases port with
  | none => rfl
  | some n => simp only [portSuffix, matchAll_colonPort n, Option.map_some]

theorem checkHostname_eq_ok {address name : Text} {port : Option Nat}
    (h : checkHostname address = .ok (name, port)) :
    NameForm name port ∧ ∃ rest, address = name ++ rest
      ∧ ∀ c ∈ rest, isDigit c = true ∨ c = 58 := by
  unfold checkHostname at h
  split at h
  · obtain ⟨⟨⟨hne, hchars⟩, hsegments⟩, rfl, rfl⟩ := checkName_eq_ok_iff.mp h
    refine ⟨⟨hne, hchars, hsegments, fun n hn => by cases hn⟩, [], (List.append_nil _).symm, ?_⟩
    intro c hc
    cases hc
  · rename_i digits hport
    split at h
    · cases h
    · rename_i hle
      obtain ⟨prior, hs, -, hdigits⟩ := portSuffix_eq_some hport
      have htake : address.take (address.length - (digits.length + 1)) = prior := by
        rw [hs, List.length_append, List.length_cons, Nat.add_sub_cancel_right, List.take_left]
      rw [htake] at h
      obtain ⟨⟨⟨hne, hchars⟩, hsegments⟩, rfl, rfl⟩ := checkName_eq_ok_iff.mp h
      refine ⟨⟨hne, hchars, hsegments, ?_⟩, 58 :: digits, hs, ?_⟩
      · intro n hn
        cases hn
        omega
      · intro c hc
        rcases List.mem_cons.mp hc with rfl | hc
        · exact Or.inr rfl
        · exact Or.inl (hdigits c hc)

theorem checkHostname_format {name : Text} {port : Option Nat} (h : NameForm name port) :
    checkHostname (name ++ (portArg port).suffix) = .ok (name, port) := by
  unfold checkHostname
  rw [portSuffix_append h.colon_notMem, portSuffix_suffix]
  cases port with
  | none =>
    rw [suffix_portArg, Option.map_none, List.append_nil]
    exact checkName_eq_ok_iff.mpr ⟨⟨⟨h.ne_nil, h.chars⟩, h.segments⟩, rfl, rfl⟩
  | some n =>
    have hn := h.port_le n rfl
    have htake : (name ++ (portArg (some n)).suffix).take
        ((name ++ (portArg (some n)).suffix).length - ((decimal n).length + 1)) = name := by
      rw [suffix_portArg, List.length_append, List.length_cons, Nat.add_sub_cancel_right,
        List.take_left]
    simp only [Option.map_some, decimalNumber_decimal]
    rw [if_neg (by omega), htake]
    exact checkName_eq_ok_iff.mpr ⟨⟨⟨h.ne_nil, h.chars⟩, h.segments⟩, rfl, rfl⟩

theorem hostnameType_name_format {name rest : Text} {port : Option Nat} (h : NameForm name port)
    (hclass : (name ++ rest).filter (· ≠ 58) = []
      ∨ ∃ c ∈ name ++ rest, isAddressChar c = false ∧ c ≠ 58)
    (hrest : ∀ c ∈ rest, isDigit c = true ∨ c = 58) :
    hostnameType (name ++ (portArg port).suffix) = .name := by
  rw [hostnameType_eq_name_iff]
  constructor
  · rw [List.count_append, List.count_eq_zero_of_not_mem h.colon_notMem, Nat.zero_add,
      suffix_portArg]
    cases port with
    | none => exact Nat.zero_le 1
    | some n =>
      have hport := colon_notMem_of_isDigit fun c hc => isDigit_of_mem_decimal (n := n) hc
      rw [List.count_cons_self, List.count_eq_zero_of_not_mem hport]
  · right
    rcases hclass with hnil | ⟨c, hc, hother, hcolon⟩
    · obtain ⟨c, name, rfl⟩ := List.exists_cons_of_ne_nil h.ne_nil
      have hc : c ≠ 58 := fun heq => h.colon_notMem (heq ▸ List.mem_cons_self)
      have hmem : c ∈ (c :: name ++ rest).filter (· ≠ 58) :=
        List.mem_filter.mpr ⟨List.mem_cons_self, decide_eq_true hc⟩
      rw [hnil] at hmem
      cases hmem
    · rcases List.mem_append.mp hc with hname | hmem
      · exact ⟨c, List.mem_append_left _ hname, hother, hcolon⟩
      · have hdigit := (hrest c hmem).resolve_right hcolon
        rw [isAddressChar, hdigit, Bool.true_or] at hother
        cases hother

/-! ## IPv6 -/

theorem closeBracket_append {depth : Nat} {s taken rest : Text}
    (h : closeBracket depth s = some (taken, rest)) : s = taken ++ rest := by
  induction s generalizing depth taken rest with
  | nil => cases h
  | cons c s ih =>
    unfold closeBracket at h
    split at h
    · cases depth with
      | zero =>
        cases h
        rfl
      | succ depth =>
        obtain ⟨found, hfound, heq⟩ := Option.map_eq_some_iff.mp h
        cases heq
        rw [ih hfound, List.cons_append]
    · obtain ⟨found, hfound, heq⟩ := Option.map_eq_some_iff.mp h
      cases heq
      rw [ih hfound, List.cons_append]

theorem bracketed_append {s check rest : Text} (h : bracketed s = some (check, rest)) :
    s = check ++ rest := by
  cases s with
  | nil => cases h
  | cons c s =>
    rw [bracketed] at h
    split at h
    · obtain ⟨⟨taken, rest'⟩, hfound, heq⟩ := Option.map_eq_some_iff.mp h
      cases heq
      rw [closeBracket_append hfound, List.cons_append]
    · cases h

theorem bracketed_text {a rest : Text} (hopen : (91 : Byte) ∉ a) (hclose : (93 : Byte) ∉ a) :
    bracketed (91 :: a ++ 93 :: rest) = some (91 :: a ++ [93], rest) := by
  have htaken : closeBracket 0 (a ++ 93 :: rest) = some (a ++ [93], rest) := by
    induction a with
    | nil => rfl
    | cons c a ih =>
      have hc : c ≠ 93 := fun heq => hclose (heq ▸ List.mem_cons_self)
      have hc' : c ≠ 91 := fun heq => hopen (heq ▸ List.mem_cons_self)
      have hrest := ih (fun hmem => hopen (List.mem_cons_of_mem c hmem))
        fun hmem => hclose (List.mem_cons_of_mem c hmem)
      rw [List.cons_append, closeBracket, if_neg hc]
      simp only [hc', if_false, hrest, Option.map_some, List.cons_append]
  rw [List.cons_append, bracketed, if_pos rfl, htaken]
  rfl

theorem matchAll_bracketPort_eq_some_iff {rest : Text} {m : List Text} :
    matchAll [Item.lit 58, (Item.star isDigit).capture] rest = some m
      ↔ ∃ port, rest = 58 :: port ∧ (∀ c ∈ port, isDigit c = true) ∧ m = [port] := by
  simp only [matchAll_lit_capture_eq_some_iff, takes_star_iff]

/-- Only a colon with nothing behind it, behind the brackets, raises an error. -/
theorem normalizeIpv6_ok_iff (address : Text) :
    (∃ result, normalizeIpv6 address = .ok result)
      ↔ ∀ check, bracketed address ≠ some (check, [58]) := by
  unfold normalizeIpv6
  cases hbracketed : bracketed address with
  | none =>
    constructor
    · rintro - check h
      cases h
    · exact fun _ => ⟨_, rfl⟩
  | some found =>
    obtain ⟨check, rest⟩ := found
    dsimp only
    by_cases hrest : rest = []
    · rw [if_pos hrest]
      constructor
      · rintro - other h
        cases h
        cases hrest
      · exact fun _ => ⟨_, rfl⟩
    · rw [if_neg hrest]
      split
      · rename_i port hmatch
        obtain ⟨digits, rfl, -, hm⟩ := matchAll_bracketPort_eq_some_iff.mp hmatch
        cases hm
        by_cases hport : port = []
        · rw [if_pos hport, hport]
          constructor
          · rintro ⟨_, h⟩
            cases h
          · exact fun h => absurd rfl (h check)
        · rw [if_neg hport]
          constructor
          · rintro - other h
            cases h
            exact hport rfl
          · intro _
            split
            · exact ⟨_, rfl⟩
            · exact ⟨_, rfl⟩
      · rename_i hmatch
        constructor
        · rintro - other h
          cases h
          exact hmatch [] (matchAll_bracketPort_eq_some_iff.mpr
            ⟨[], rfl, fun c hc => absurd hc List.not_mem_nil, rfl⟩)
        · exact fun _ => ⟨_, rfl⟩

theorem normalizeIpv6_eq_ok {address host : Text} {port : Option Nat}
    (h : normalizeIpv6 address = .ok (.ok (host, port))) :
    (∃ row, CanonicalRow row ∧ host = [58].intercalate row) ∧ ∀ n ∈ port, n ≤ 65535 := by
  have hgroups : ∀ {check : Text} {port' : Option Nat},
      normalizeGroups address check port' = .ok (host, port) →
      (∃ row, CanonicalRow row ∧ host = [58].intercalate row) ∧ port = port' := by
    intro check port' hok
    obtain ⟨groups, haccepted, hhost, hport⟩ := normalizeGroups_eq_ok_iff.mp hok
    obtain ⟨hlength, hhextets⟩ := haccepted.hextets
    exact ⟨⟨_, canonicalRow_map hlength hhextets, hhost⟩, hport⟩
  unfold normalizeIpv6 at h
  split at h
  · obtain ⟨hrow, rfl⟩ := hgroups (Except.ok.inj h)
    exact ⟨hrow, fun n hn => by cases hn⟩
  · dsimp only at h
    split at h
    · obtain ⟨hrow, rfl⟩ := hgroups (Except.ok.inj h)
      exact ⟨hrow, fun n hn => by cases hn⟩
    · split at h
      · split at h
        · cases h
        · split at h
          · cases h
          · rename_i hle
            obtain ⟨hrow, rfl⟩ := hgroups (Except.ok.inj h)
            refine ⟨hrow, fun n hn => ?_⟩
            cases hn
            omega
      · cases h

theorem CanonicalRow.notMem {row : List Text} (h : CanonicalRow row) {c : Byte} (hc : c ≠ 58)
    (hhex : isLowerHex c = false) : c ∉ [58].intercalate row := by
  intro hmem
  rcases Joined.mem_intercalate hmem with heq | ⟨g, hg, hcg⟩
  · exact hc heq
  · rw [h.lower g hg c hcg] at hhex
    cases hhex

theorem CanonicalRow.count {row : List Text} (h : CanonicalRow row) :
    ([58].intercalate row).count 58 = 7 := by
  have hne : row ≠ [] := by
    rintro rfl
    cases h.length
  have hcount := Joined.count_intercalate hne fun g hg => (h.hextet g hg).colon_notMem
  rw [h.length] at hcount
  omega

theorem normalizeGroups_canonical {row : List Text} (h : CanonicalRow row) (address : Text)
    (port : Option Nat) :
    normalizeGroups address ([58].intercalate row) port = .ok ([58].intercalate row, port) :=
  normalizeGroups_eq_ok_iff.mpr
    ⟨row, accepted_row h.length h.hextet, by rw [h.map_normalGroup], rfl⟩

theorem normalizeIpv6_format {row : List Text} {port : Option Nat} (h : CanonicalRow row)
    (hport : ∀ n ∈ port, n ≤ 65535) :
    normalizeIpv6 (91 :: [58].intercalate row ++ 93 :: (portArg port).suffix)
      = .ok (.ok ([58].intercalate row, port)) := by
  have hbracketed := @bracketed_text ([58].intercalate row) (portArg port).suffix
    (h.notMem (by decide) (by decide)) (h.notMem (by decide) (by decide))
  have hcheck : ((91 :: [58].intercalate row ++ [93]).drop 1).dropLast = [58].intercalate row := by
    rw [List.cons_append, List.drop_one, List.tail_cons, List.dropLast_concat]
  rw [normalizeIpv6, hbracketed]
  dsimp only
  rw [hcheck, suffix_portArg]
  cases port with
  | none => rw [if_pos rfl, normalizeGroups_canonical h]
  | some n =>
    have hmatch : matchAll [Item.lit 58, (Item.star isDigit).capture] (58 :: decimal n)
        = some [decimal n] := matchAll_bracketPort_eq_some_iff.mpr
          ⟨decimal n, rfl, fun c hc => isDigit_of_mem_decimal hc, rfl⟩
    have hn := hport n rfl
    dsimp only
    rw [if_neg (List.cons_ne_nil _ _), hmatch]
    dsimp only
    rw [if_neg (decimal_ne_nil n), decimalNumber_decimal, if_neg (by omega),
      normalizeGroups_canonical h]

theorem formatTyped_ipv6 {row : List Text} (h : CanonicalRow row) (port : Port) :
    formatTyped .ipv6 ([58].intercalate row) port
      = .ok (.ok (91 :: [58].intercalate row ++ 93 :: port.suffix)) := by
  have hopen : (91 : Byte) ∉ [58].intercalate row := h.notMem (by decide) (by decide)
  rw [formatTyped, if_pos ⟨rfl, hopen⟩, normalizeIpv6, bracketed_of_notMem hopen]
  dsimp only
  rw [normalizeGroups_canonical h]

/-! ## Addresses -/

/-- An address that is normalised, and whose normal form is read as it is
written. -/
def Canonical (s : Text) : Prop :=
  ∃ result, normalizeIp s = .ok result
    ∧ ∀ t, result = .ok t →
      ∃ text, formatHost t.arg .absent = .ok (.ok text) ∧ normalizeIp text = .ok (.ok t)

/-- Colons in brackets, and a colon with nothing behind it. -/
def EmptyPort (s : Text) : Prop :=
  ∃ check, bracketed s = some (check, [58]) ∧ 58 ∈ check

theorem formatHost_arg (t : Host) :
    formatHost t.arg .absent = formatTyped t.type t.host (portArg t.port) := by
  have hport : (if portArg t.port = .absent then .absent else portArg t.port) = portArg t.port := by
    split
    · rename_i h
      exact h.symm
    · rfl
  simp only [formatHost, Host.arg, hport, Option.getD_some]

theorem normalizeIp_of_type {s : Text} {typ : HostType} (h : hostnameType s = typ) {host : Text}
    {port : Option Nat} (hverify : verifyTypes typ s = .ok (.ok (host, port))) :
    normalizeIp s = .ok (.ok ⟨typ, host, port⟩) := by
  unfold normalizeIp
  dsimp only
  rw [h, hverify]
  rfl

theorem normalizeIp_eq_ok {s : Text} {t : Host} (h : normalizeIp s = .ok (.ok t)) :
    hostnameType s = t.type ∧ verifyTypes t.type s = .ok (.ok (t.host, t.port)) := by
  unfold normalizeIp at h
  dsimp only at h
  cases hverify : verifyTypes (hostnameType s) s with
  | error raised =>
    rw [hverify] at h
    cases h
  | ok verified =>
    rw [hverify] at h
    cases verified with
    | error err => cases h
    | ok found =>
      cases h
      exact ⟨rfl, hverify⟩

theorem exists_normalizeIp_iff {s : Text} :
    (∃ result, normalizeIp s = .ok result) ↔ ¬ EmptyPort s := by
  have hverify : (∃ result, normalizeIp s = .ok result)
      ↔ ∃ verified, verifyTypes (hostnameType s) s = .ok verified := by
    unfold normalizeIp
    dsimp only
    cases verifyTypes (hostnameType s) s with
    | error raised =>
      constructor
      · rintro ⟨_, h⟩
        cases h
      · rintro ⟨_, h⟩
        cases h
    | ok verified => exact ⟨fun _ => ⟨verified, rfl⟩, fun _ => ⟨_, rfl⟩⟩
  have hcount : ∀ check, bracketed s = some (check, [58]) →
      s.count 58 = check.count 58 + 1 := by
    intro check hcheck
    rw [bracketed_append hcheck, List.count_append]
    rfl
  rw [hverify]
  by_cases htype : hostnameType s = .ipv6
  · have hcolons := hostnameType_eq_ipv6_iff.mp htype
    rw [htype]
    refine (normalizeIpv6_ok_iff s).trans ⟨?_, ?_⟩
    · rintro hnone ⟨check, hcheck, -⟩
      exact hnone check hcheck
    · intro hempty check hcheck
      have hsum := hcount check hcheck
      exact hempty ⟨check, hcheck, List.count_pos_iff.mp (by omega)⟩
  · have hcolons : s.count 58 ≤ 1 := by
      by_contra hmore
      exact htype (hostnameType_eq_ipv6_iff.mpr (by omega))
    constructor
    · rintro - ⟨check, hcheck, hmem⟩
      have hsum := hcount check hcheck
      have hpos := List.count_pos_iff.mpr hmem
      omega
    · intro _
      cases htyp : hostnameType s with
      | ipv4 => exact ⟨_, rfl⟩
      | ipv6 => exact absurd htyp htype
      | name => exact ⟨_, rfl⟩

theorem normalizeIp_format {s : Text} {t : Host} (h : normalizeIp s = .ok (.ok t)) :
    ∃ text, formatHost t.arg .absent = .ok (.ok text) ∧ normalizeIp text = .ok (.ok t) := by
  obtain ⟨htype, hverify⟩ := normalizeIp_eq_ok h
  rw [formatHost_arg]
  obtain ⟨typ, host, port⟩ := t
  cases typ with
  | ipv4 =>
    obtain ⟨octets, hform, rfl⟩ := normalizeIpv4_eq_ok (Except.ok.inj hverify)
    refine ⟨_, rfl, normalizeIp_of_type (hostnameType_ipv4_format hform) ?_⟩
    exact congrArg Except.ok (normalizeIpv4_format hform)
  | ipv6 =>
    obtain ⟨⟨row, hrow, rfl⟩, hport⟩ := normalizeIpv6_eq_ok hverify
    refine ⟨_, formatTyped_ipv6 hrow _, normalizeIp_of_type ?_ (normalizeIpv6_format hrow hport)⟩
    rw [hostnameType_eq_ipv6_iff]
    simp only [List.cons_append, List.count_cons, List.count_append, hrow.count]
    omega
  | name =>
    obtain ⟨hform, rest, rfl, hrest⟩ := checkHostname_eq_ok (Except.ok.inj hverify)
    refine ⟨_, rfl, normalizeIp_of_type ?_ (congrArg Except.ok (checkHostname_format hform))⟩
    exact hostnameType_name_format hform (hostnameType_eq_name_iff.mp htype).2 hrest

/-- An address is normalised for good unless it is in brackets with an empty port. -/
theorem normalizeIp_canonical_iff (s : Text) : Canonical s ↔ ¬ EmptyPort s := by
  rw [← exists_normalizeIp_iff]
  constructor
  · rintro ⟨result, hresult, -⟩
    exact ⟨result, hresult⟩
  · rintro ⟨result, hresult⟩
    refine ⟨result, hresult, ?_⟩
    rintro t rfl
    exact normalizeIp_format hresult

/-- `[::1]:` raises an error. -/
theorem empty_port_not_canonical : ¬ Canonical (ofText "[::1]:") := by
  rintro ⟨result, hresult, -⟩
  have hempty : EmptyPort (ofText "[::1]:") := ⟨ofText "[::1]", by decide, by decide⟩
  exact exists_normalizeIp_iff.mp ⟨result, hresult⟩ hempty

end KongGateway.Kong.Tools.Ip
