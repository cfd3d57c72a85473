import ComputePool.Worker.Outbound

/-!
# The outbound URL gate

The pool coordinator's gate for its HTTP and WebSocket endpoints, beside the worker's:
TLS is accepted to any host, plain text to a loopback host only.  What the gate takes
for the host is compared with the host a URI names by its generic syntax.
-/

namespace ComputePool
namespace PoolCoordinator
namespace Outbound

open RustStd
open Worker.Outbound (OutboundUrlError)

/-- `host_of`: the host in the part after `scheme://`. -/
def hostOf (rest : List Char) : Option (List Char) :=
  let authority := rest.takeWhile fun c => !(c == '/' || c == '?' || c == '#')
  -- an empty host or userinfo fails closed
  if authority = [] ∨ '@' ∈ authority then none
  else
    match stripPrefix ['['] authority with
    | some v6 =>
        -- the literal is inside the brackets
        (splitOnce [']'] v6).bind fun (inside, after) =>
          if after = [] ∨ after.head? = some ':' then some inside else none
    | none =>
        -- at most one colon, and a port behind it
        match authority.splitOn ':' with
        | [host] => if host = [] then none else some host
        | [host, port] =>
            if parseU16 port = none then none else if host = [] then none else some host
        | _ => none

/-- `is_loopback_host`: only the literal `localhost` and loopback IP literals qualify. -/
def isLoopbackHost (host : List Char) : Bool :=
  if host.map Char.toLower = "localhost".toList then true
  else
    match Ipv4Addr.parse host with
    | some v4 => v4.isLoopback
    | none =>
        match Ipv6Addr.parse host with
        | some v6 => v6.isLoopback
        | none => false

/-- The two gates of the crate, for their two pairs of schemes. -/
def gate (tls plain : List Char) (url : String) (allowInsecure : Bool) :
    Except OutboundUrlError Unit :=
  match splitOnce "://".toList url.toList with
  | none => .error (.unsupportedScheme url)
  | some (scheme, rest) =>
      if scheme.map Char.toLower = tls then
        match hostOf rest with
        | none => .error (.malformed url)
        | some _ => .ok ()
      else if scheme.map Char.toLower = plain then
        match hostOf rest with
        | none => .error (.malformed url)
        | some host =>
            if isLoopbackHost host then .ok ()
            else if allowInsecure then .ok ()
            else .error (.plaintextNonLoopback url)
      else .error (.unsupportedScheme url)

def validateOutboundUrlWith (url : String) (allowInsecure : Bool) :
    Except OutboundUrlError Unit :=
  gate "https".toList "http".toList url allowInsecure

def validateOutboundWsUrlWith (url : String) (allowInsecure : Bool) :
    Except OutboundUrlError Unit :=
  gate "wss".toList "ws".toList url allowInsecure

/-! ## What the gates should agree on -/

/-- A verdict without the URL it repeats. -/
inductive Verdict where
  | accepted
  | unsupportedScheme
  | plaintextNonLoopback
  | malformed
  deriving DecidableEq

/-- The verdict of a gate. -/
def verdict : Except OutboundUrlError Unit → Verdict
  | .ok () => .accepted
  | .error (.unsupportedScheme _) => .unsupportedScheme
  | .error (.plaintextNonLoopback _) => .plaintextNonLoopback
  | .error (.malformed _) => .malformed

/-- The HTTP scheme for a WebSocket scheme, and the other way around. -/
def mapScheme (scheme : List Char) : List Char :=
  if scheme.map Char.toLower = "ws".toList then "http".toList
  else if scheme.map Char.toLower = "wss".toList then "https".toList
  else if scheme.map Char.toLower = "http".toList then "ws".toList
  else if scheme.map Char.toLower = "https".toList then "wss".toList
  else scheme

/-- A URL with its scheme mapped. -/
def mapUrl (url : String) : String :=
  match splitOnce "://".toList url.toList with
  | none => url
  | some (scheme, rest) => String.ofList (mapScheme scheme ++ ("://".toList ++ rest))

/-- The URL uses TLS. -/
def UsesTls (url : String) : Prop :=
  ∃ scheme rest, url.toList = scheme ++ ("://".toList ++ rest) ∧ ':' ∉ scheme ∧
    scheme.map Char.toLower = "https".toList

/-- By the generic syntax the URL names a loopback literal, and no user. -/
def NamesLoopback (url : String) : Prop :=
  ∃ scheme rest host port, url.toList = scheme ++ ("://".toList ++ rest) ∧ ':' ∉ scheme ∧
    Uri.ReadsAuthority (Uri.authorityOf rest) none host port ∧ host.IsLoopback

/-- What the gates should do with a URL. -/
structure Gates (url : String) : Prop where
  parity : ∀ allow, Worker.Outbound.validateOutboundUrlWith url allow =
    validateOutboundUrlWith url allow
  websocket : ∀ allow, verdict (validateOutboundWsUrlWith url allow) =
    verdict (validateOutboundUrlWith (mapUrl url) allow)
  safe : validateOutboundUrlWith url false = .ok () → UsesTls url ∨ NamesLoopback url

/-- The part after `http://`. -/
def PlainHttp (url : String) (rest : List Char) : Prop :=
  ∃ scheme, splitOnce "://".toList url.toList = some (scheme, rest) ∧
    scheme.map Char.toLower = "http".toList

/-- A loopback host in brackets that is no IPv6 address, or has something else than
digits for its port. -/
def BracketSlip (authority : List Char) : Prop :=
  ∃ inside after, authority = '[' :: inside ++ ']' :: after ∧ '@' ∉ authority ∧ ']' ∉ inside ∧
    (after = [] ∨ after.head? = some ':') ∧ isLoopbackHost inside = true ∧
    ¬ ((Ipv6Addr.parse inside).isSome ∧ ∀ c ∈ after.tail, (toDigit 10 c).isSome)

/-- A loopback host whose port has a plus sign. -/
def PlusSlip (authority : List Char) : Prop :=
  ∃ host port, authority = host ++ ':' :: '+' :: port ∧ ':' ∉ host ∧
    isLoopbackHost host = true ∧ (parseU16 ('+' :: port)).isSome

/-! ## The gates and each other -/

theorem hostOf_eq (rest : List Char) : Worker.Outbound.hostOf rest = hostOf rest := rfl

theorem isLoopbackHost_eq (host : List Char) :
    Worker.Outbound.isLoopbackHost host = isLoopbackHost host := rfl

theorem parity (url : String) (allow : Bool) :
    Worker.Outbound.validateOutboundUrlWith url allow = validateOutboundUrlWith url allow := by
  unfold Worker.Outbound.validateOutboundUrlWith validateOutboundUrlWith gate
  simp only [hostOf_eq, isLoopbackHost_eq]
  rfl

/-- A gate looks at the scheme only to compare it with its own two. -/
theorem gate_of_split {tls plain scheme rest : List Char} {url : String} (allow : Bool)
    (h : splitOnce "://".toList url.toList = some (scheme, rest)) :
    verdict (gate tls plain url allow) =
      if scheme.map Char.toLower = tls then
        (hostOf rest).elim .malformed fun _ => .accepted
      else if scheme.map Char.toLower = plain then
        (hostOf rest).elim .malformed fun host =>
          if isLoopbackHost host || allow then .accepted else .plaintextNonLoopback
      else .unsupportedScheme := by
  unfold gate
  rw [h]
  dsimp only
  split
  · cases hostOf rest <;> rfl
  · split
    · cases hostOf rest with
      | none => rfl
      | some host =>
          cases hloop : isLoopbackHost host with
          | true => simp [hloop, verdict]
          | false => cases allow <;> simp [hloop, verdict]
    · rfl

theorem gate_of_none {tls plain : List Char} {url : String} (allow : Bool)
    (h : splitOnce "://".toList url.toList = none) :
    verdict (gate tls plain url allow) = .unsupportedScheme := by
  unfold gate
  rw [h]
  rfl

theorem splitOnce_scheme {scheme rest : List Char} (h : ':' ∉ scheme) :
    splitOnce "://".toList (scheme ++ ("://".toList ++ rest)) = some (scheme, rest) :=
  splitOnce_append h rest

/-- Mapping the scheme swaps the two pairs, and keeps what follows. -/
theorem mapUrl_split {url : String} {scheme rest : List Char}
    (h : splitOnce "://".toList url.toList = some (scheme, rest)) :
    splitOnce "://".toList (mapUrl url).toList = some (mapScheme scheme, rest) := by
  have hurl : (mapUrl url).toList = mapScheme scheme ++ ("://".toList ++ rest) := by
    unfold mapUrl
    rw [h]
    exact String.toList_ofList
  rw [hurl]
  unfold mapScheme
  split
  · exact splitOnce_scheme (by decide)
  · split
    · exact splitOnce_scheme (by decide)
    · split
      · exact splitOnce_scheme (by decide)
      · split
        · exact splitOnce_scheme (by decide)
        · rw [← splitOnce_eq_some h]
          exact h

theorem mapScheme_lower {scheme : List Char} :
    ((mapScheme scheme).map Char.toLower = "https".toList ↔
        scheme.map Char.toLower = "wss".toList) ∧
      ((mapScheme scheme).map Char.toLower = "http".toList ↔
        scheme.map Char.toLower = "ws".toList) := by
  unfold mapScheme
  split
  · rename_i h
    rw [h]
    decide
  · rename_i hws
    split
    · rename_i h
      rw [h]
      decide
    · rename_i hwss
      split
      · simp only [hws, hwss, iff_false]
        decide
      · rename_i hhttp
        split
        · simp only [hws, hwss, iff_false]
          decide
        · rename_i hhttps
          simp only [hws, hwss, hhttp, hhttps, iff_self, and_self]

/-- The WebSocket gate is the HTTP gate with the schemes mapped. -/
theorem websocket (url : String) (allow : Bool) :
    verdict (validateOutboundWsUrlWith url allow) =
      verdict (validateOutboundUrlWith (mapUrl url) allow) := by
  unfold validateOutboundWsUrlWith validateOutboundUrlWith
  cases h : splitOnce "://".toList url.toList with
  | none =>
      have hsame : mapUrl url = url := by
        unfold mapUrl
        rw [h]
      rw [hsame, gate_of_none allow h, gate_of_none allow h]
  | some split =>
      obtain ⟨scheme, rest⟩ := split
      have hlower := @mapScheme_lower scheme
      rw [gate_of_split allow h, gate_of_split allow (mapUrl_split h)]
      simp only [hlower.1, hlower.2]

/-! ## Loopback hosts -/

/-- The text is `localhost`, in any case. -/
def IsLocalhost (host : List Char) : Prop := host.map Char.toLower = "localhost".toList

theorem IsLocalhost.alpha {host : List Char} {c : Char} (h : IsLocalhost host) (hc : c ∈ host) :
    c.isAlpha = true := by
  have hin : c.toLower ∈ "localhost".toList := h ▸ List.mem_map_of_mem hc
  by_cases hupper : c.isUpper = true
  · simp [Char.isAlpha, hupper]
  · have hsame : c.toLower = c := by
      unfold Char.toLower
      simp only [Char.isUpper, decide_eq_true_eq] at hupper
      exact dif_neg hupper
    rw [hsame] at hin
    have hletters : c ∈ ['l', 'o', 'c', 'a', 'l', 'h', 'o', 's', 't'] := hin
    simp only [List.mem_cons, List.not_mem_nil, or_false] at hletters
    rcases hletters with rfl | rfl | rfl | rfl | rfl | rfl | rfl | rfl | rfl <;> rfl

theorem isLoopbackHost_cases {host : List Char} (h : isLoopbackHost host = true) :
    IsLocalhost host ∨ (∃ addr, Ipv4Addr.parse host = some addr ∧ addr.isLoopback = true) ∨
      ∃ addr, Ipv6Addr.parse host = some addr ∧ addr.isLoopback = true := by
  unfold isLoopbackHost at h
  split at h
  · rename_i hname
    exact .inl hname
  · split at h
    · rename_i addr hparse
      exact .inr (.inl ⟨addr, hparse, h⟩)
    · split at h
      · rename_i addr hparse
        exact .inr (.inr ⟨addr, hparse, h⟩)
      · cases h

/-- A loopback host that is no IPv6 literal has no colon. -/
theorem colon_not_mem {host : List Char} (h : IsLocalhost host ∨
    ∃ addr, Ipv4Addr.parse host = some addr ∧ addr.isLoopback = true) : ':' ∉ host := by
  intro hc
  rcases h with hname | ⟨addr, hparse, -⟩
  · exact absurd (hname.alpha hc) (by decide)
  · rcases (Uri.ipv4_parse_sound hparse).mem hc with hdot | hdigit
    · exact absurd hdot (by decide)
    · exact absurd hdigit (by decide)

/-- What a loopback host is written with. -/
theorem loopback_char {host : List Char} {c : Char} (h : isLoopbackHost host = true)
    (hc : c ∈ host) : c.isAlpha = true ∨ Uri.IsGroupChar c := by
  rcases isLoopbackHost_cases h with hname | ⟨addr, hparse, -⟩ | ⟨addr, hparse, -⟩
  · exact .inl (hname.alpha hc)
  · rcases (Uri.ipv4_parse_sound hparse).mem hc with hdot | hdigit
    · exact .inr (.inr (.inl hdot))
    · exact .inr (.inr (.inr (Uri.hex_of_decimal hdigit)))
  · exact .inr ((Uri.ipv6_parse_sound hparse).mem hc)

/-- Neither an at sign nor a bracket is part of a loopback host. -/
theorem loopback_not_mem {host : List Char} (h : isLoopbackHost host = true) {c : Char}
    (hchar : c.isAlpha = false ∧ c ≠ ':' ∧ c ≠ '.' ∧ toDigit 16 c = none) : c ∉ host := by
  intro hc
  obtain ⟨halpha, hcolon, hdot, hdigit⟩ := hchar
  rcases loopback_char h hc with hletter | hgroup | hgroup | hgroup
  · rw [halpha] at hletter
    cases hletter
  · exact hcolon hgroup
  · exact hdot hgroup
  · rw [hdigit] at hgroup
    cases hgroup

theorem loopback_ne_nil {host : List Char} (h : isLoopbackHost host = true) : host ≠ [] := by
  rintro rfl
  exact absurd h (by decide)

theorem not_alpha_of_digit {c : Char} (h : (toDigit 10 c).isSome) : c.isAlpha = false := by
  have hrange : 48 ≤ c.toNat ∧ c.toNat ≤ 57 := by
    unfold toDigit hexValue at h
    by_cases hdigit : 48 ≤ c.toNat ∧ c.toNat ≤ 57
    · exact hdigit
    · exfalso
      dsimp only at h
      rw [if_neg hdigit] at h
      split at h
      · have hlarge : ¬ c.toNat - 87 < 10 := by omega
        simp [hlarge] at h
      · split at h
        · have hlarge : ¬ c.toNat - 55 < 10 := by omega
          simp [hlarge] at h
        · cases h
  have hupper : ¬ (65 : UInt32) ≤ c.val := by
    intro hle
    have hnat : 65 ≤ c.toNat := UInt32.le_iff_toNat_le.mp hle
    omega
  have hlower : ¬ (97 : UInt32) ≤ c.val := by
    intro hle
    have hnat : 97 ≤ c.toNat := UInt32.le_iff_toNat_le.mp hle
    omega
  simp [Char.isAlpha, Char.isUpper, Char.isLower, hupper, hlower]

/-- A name like `localhost` is a `reg-name`. -/
theorem IsLocalhost.readsHost {host : List Char} (h : IsLocalhost host) :
    Uri.ReadsHost host (.regName host) := by
  have hencoded : ∀ name : List Char, (∀ c ∈ name, c.isAlpha = true) →
      Uri.encoded Uri.isNameChar name = true := by
    intro name
    induction name with
    | nil => exact fun _ => rfl
    | cons c name ih =>
        intro hall
        have hc := hall c List.mem_cons_self
        have hpercent : c ≠ '%' := by
          rintro rfl
          exact absurd hc (by decide)
        have hrest := ih fun d hd => hall d (List.mem_cons_of_mem _ hd)
        rw [Uri.encoded]
        · simp [Uri.isNameChar, Char.isAlphanum, hc, hrest]
        · rintro hi lo rest rfl
          exact absurd rfl hpercent
  refine .regName (hencoded host fun c hc => h.alpha hc) fun octets haddr => ?_
  -- an address has only digits and dots
  cases hhost : host with
  | nil => rw [hhost] at h; cases h
  | cons c rest =>
      have hc : c ∈ host := hhost ▸ List.mem_cons_self
      have halpha := h.alpha hc
      rcases haddr.mem hc with rfl | hdigit
      · exact absurd halpha (by decide)
      · rw [not_alpha_of_digit hdigit] at halpha
        cases halpha

/-- A loopback host outside brackets is a loopback literal of the generic syntax. -/
theorem readsHost_of_loopback {host : List Char} (h : isLoopbackHost host = true)
    (hcolon : ':' ∉ host) : ∃ named, Uri.ReadsHost host named ∧ named.IsLoopback := by
  rcases isLoopbackHost_cases h with hname | ⟨addr, hparse, hloop⟩ | ⟨addr, hparse, -⟩
  · exact ⟨_, hname.readsHost, hname⟩
  · refine ⟨_, .ipv4 (Uri.ipv4_parse_sound hparse), ?_⟩
    have hfirst : addr.a = 127 := eq_of_beq hloop
    show some addr.a.toNat = some 127
    rw [hfirst]
    rfl
  · exact absurd (Uri.ipv6_parse_sound hparse).colon hcolon

/-- One in brackets is one if it is an IPv6 address. -/
theorem readsHost_of_brackets {inside : List Char} (h : isLoopbackHost inside = true)
    (hparse : (Ipv6Addr.parse inside).isSome) :
    ∃ named, Uri.ReadsHost ('[' :: inside ++ [']']) named ∧ named.IsLoopback := by
  obtain ⟨addr, haddr⟩ := Option.isSome_iff_exists.mp hparse
  have hcolon := (Uri.ipv6_parse_sound haddr).colon
  rcases isLoopbackHost_cases h with hname | hv4 | ⟨addr', haddr', hloop⟩
  · exact absurd hcolon (colon_not_mem (.inl hname))
  · exact absurd hcolon (colon_not_mem (.inr hv4))
  · refine ⟨_, .ipv6 (Uri.ipv6_parse_sound haddr'), ?_⟩
    have hone : addr' = ⟨0, 0, 0, 0, 0, 0, 0, 1⟩ := eq_of_beq hloop
    rw [hone]
    rfl

/-! ## The host the gate takes -/

theorem parseU16_char {port : List Char} (h : (parseU16 port).isSome) {c : Char} (hc : c ∈ port) :
    c = '+' ∨ (toDigit 10 c).isSome := by
  unfold parseU16 at h
  dsimp only at h
  split at h
  · rename_i hall
    cases hplus : stripPrefix ['+'] port with
    | none =>
        rw [hplus] at hall
        exact .inr (List.all_eq_true.mp hall.2.1 c hc)
    | some digits =>
        rw [hplus] at hall
        rw [stripPrefix_eq_some.mp hplus] at hc
        rcases List.mem_cons.mp hc with rfl | hc
        · exact .inl rfl
        · exact .inr (List.all_eq_true.mp hall.2.1 c hc)
  · cases h

/-- A port without a plus sign is all digits. -/
theorem parseU16_digits {port : List Char} (h : (parseU16 port).isSome)
    (hplus : port.head? ≠ some '+') : ∀ c ∈ port, (toDigit 10 c).isSome := by
  have hnone : stripPrefix ['+'] port = none := by
    rw [Option.eq_none_iff_forall_ne_some]
    intro rest hrest
    exact hplus (by rw [stripPrefix_eq_some.mp hrest]; rfl)
  unfold parseU16 at h
  rw [hnone] at h
  dsimp only at h
  split at h
  · rename_i hall
    exact List.all_eq_true.mp hall.2.1
  · cases h

theorem hostOf_eq_none {rest : List Char}
    (h : Uri.authorityOf rest = [] ∨ '@' ∈ Uri.authorityOf rest) : hostOf rest = none := by
  unfold hostOf
  exact if_pos h

/-- The host of a bracketed authority is what the brackets hold. -/
theorem hostOf_brackets {rest inside after : List Char}
    (htext : Uri.authorityOf rest = '[' :: inside ++ ']' :: after)
    (hat : '@' ∉ Uri.authorityOf rest) (hclose : ']' ∉ inside)
    (hafter : after = [] ∨ after.head? = some ':') : hostOf rest = some inside := by
  have hne : ¬ (Uri.authorityOf rest = [] ∨ '@' ∈ Uri.authorityOf rest) := by
    rw [htext] at hat ⊢
    simp at hat ⊢
    exact hat
  have hstrip : stripPrefix ['['] (Uri.authorityOf rest) = some (inside ++ ']' :: after) :=
    stripPrefix_eq_some.mpr htext
  have hsplit : splitOnce [']'] (inside ++ ']' :: after) = some (inside, after) :=
    splitOnce_append hclose after
  unfold hostOf
  show (if Uri.authorityOf rest = [] ∨ '@' ∈ Uri.authorityOf rest then none else
    match stripPrefix ['['] (Uri.authorityOf rest) with
    | some v6 => (splitOnce [']'] v6).bind fun (inside, after) =>
        if after = [] ∨ after.head? = some ':' then some inside else none
    | none => _) = some inside
  rw [if_neg hne, hstrip]
  dsimp only
  rw [hsplit]
  exact if_pos hafter

/-- Without brackets the host ends at the only colon, behind which is a port. -/
theorem hostOf_open {rest host port : List Char}
    (htext : Uri.authorityOf rest = host ++ ':' :: port) (hat : '@' ∉ Uri.authorityOf rest)
    (hopen : host.head? ≠ some '[') (hhost : ':' ∉ host) (hport : ':' ∉ port) :
    hostOf rest = if parseU16 port = none then none else if host = [] then none else some host := by
  have hne : ¬ (Uri.authorityOf rest = [] ∨ '@' ∈ Uri.authorityOf rest) := by
    rw [htext] at hat ⊢
    simp at hat ⊢
    exact hat
  have hstrip : stripPrefix ['['] (Uri.authorityOf rest) = none := by
    rw [Option.eq_none_iff_forall_ne_some]
    intro inner hinner
    rw [stripPrefix_eq_some, htext] at hinner
    cases host with
    | nil => exact absurd (List.cons.inj hinner).1 (by decide)
    | cons c host => exact hopen (by rw [(List.cons.inj hinner).1]; rfl)
  have hsplit : (Uri.authorityOf rest).splitOn ':' = [host, port] := by
    rw [htext, List.splitOn_append_cons_self_of_not_mem hhost, List.splitOn_eq_singleton hport]
  unfold hostOf
  show (if Uri.authorityOf rest = [] ∨ '@' ∈ Uri.authorityOf rest then none else
    match stripPrefix ['['] (Uri.authorityOf rest) with
    | some v6 => _
    | none => match (Uri.authorityOf rest).splitOn ':' with
        | [host] => if host = [] then none else some host
        | [host, port] =>
            if parseU16 port = none then none else if host = [] then none else some host
        | _ => none) = _
  rw [if_neg hne, hstrip, hsplit]

/-- What the gate takes for the host is in brackets, or free of colons and alone or
before a port. -/
theorem hostOf_cases {rest host : List Char} (h : hostOf rest = some host) :
    '@' ∉ Uri.authorityOf rest ∧
      ((∃ after, Uri.authorityOf rest = '[' :: host ++ ']' :: after ∧ ']' ∉ host ∧
          (after = [] ∨ after.head? = some ':')) ∨
        (':' ∉ host ∧ (Uri.authorityOf rest = host ∨
          ∃ port, Uri.authorityOf rest = host ++ ':' :: port ∧ (parseU16 port).isSome))) := by
  have hsafe : ¬ (Uri.authorityOf rest = [] ∨ '@' ∈ Uri.authorityOf rest) := fun hbad => by
    rw [hostOf_eq_none hbad] at h
    cases h
  refine ⟨fun hat => hsafe (.inr hat), ?_⟩
  unfold hostOf at h
  change (if Uri.authorityOf rest = [] ∨ '@' ∈ Uri.authorityOf rest then none else
    match stripPrefix ['['] (Uri.authorityOf rest) with
    | some v6 => (splitOnce [']'] v6).bind fun (inside, after) =>
        if after = [] ∨ after.head? = some ':' then some inside else none
    | none => match (Uri.authorityOf rest).splitOn ':' with
        | [host] => if host = [] then none else some host
        | [host, port] =>
            if parseU16 port = none then none else if host = [] then none else some host
        | _ => none) = some host at h
  rw [if_neg hsafe] at h
  generalize Uri.authorityOf rest = authority at h
  cases hstrip : stripPrefix ['['] authority with
  | some v6 =>
      rw [hstrip] at h
      obtain ⟨⟨inside, after⟩, hsplit, h⟩ := Option.bind_eq_some_iff.mp h
      dsimp only at h
      split at h
      · rename_i hafter
        cases h
        refine .inl ⟨after, ?_, not_mem_of_splitOnce hsplit, hafter⟩
        rw [stripPrefix_eq_some.mp hstrip, splitOnce_eq_some hsplit]
        rfl
      · cases h
  | none =>
      rw [hstrip] at h
      dsimp only at h
      by_cases hcolon : ':' ∈ authority
      · obtain ⟨front, back, rfl, hfront⟩ := List.eq_append_cons_of_mem hcolon
        rw [List.splitOn_append_cons_self_of_not_mem hfront] at h
        by_cases hmore : ':' ∈ back
        · obtain ⟨middle, last, rfl, hmiddle⟩ := List.eq_append_cons_of_mem hmore
          rw [List.splitOn_append_cons_self_of_not_mem hmiddle] at h
          obtain ⟨piece, pieces, hlast⟩ := List.exists_cons_of_ne_nil
            (List.splitOn_ne_nil ':' last)
          rw [hlast] at h
          cases h
        · rw [List.splitOn_eq_singleton hmore] at h
          dsimp only at h
          split at h
          · cases h
          rename_i hport
          split at h
          · cases h
          cases h
          exact .inr ⟨hfront, .inr ⟨back, rfl, Option.isSome_iff_ne_none.mpr hport⟩⟩
      · rw [List.splitOn_eq_singleton hcolon] at h
        dsimp only at h
        split at h
        · cases h
        · cases h
          exact .inr ⟨hcolon, .inl rfl⟩

/-! ## What the gate accepts -/

theorem verdict_accepted {r : Except OutboundUrlError Unit} : verdict r = .accepted ↔ r = .ok () := by
  cases r with
  | ok _ => exact ⟨fun _ => rfl, fun _ => rfl⟩
  | error e => cases e <;> simp [verdict]

/-- Without the override the gate accepts TLS with some host, and plain text to a
loopback host. -/
theorem accepted_cases {url : String} (h : validateOutboundUrlWith url false = .ok ()) :
    UsesTls url ∨ ∃ rest host, PlainHttp url rest ∧ hostOf rest = some host ∧
      isLoopbackHost host = true := by
  cases hsplit : splitOnce "://".toList url.toList with
  | none =>
      have hverdict := @gate_of_none "https".toList "http".toList url false hsplit
      rw [show gate _ _ url false = _ from h] at hverdict
      cases hverdict
  | some split =>
      obtain ⟨scheme, rest⟩ := split
      have hverdict := @gate_of_split "https".toList "http".toList scheme rest url false hsplit
      rw [show gate _ _ url false = _ from h] at hverdict
      have hurl := splitOnce_eq_some hsplit
      split at hverdict
      · rename_i htls
        refine .inl ⟨scheme, rest, hurl, ?_, htls⟩
        intro hcolon
        have hlower : ':' ∈ scheme.map Char.toLower := List.mem_map.mpr ⟨':', hcolon, rfl⟩
        rw [htls] at hlower
        exact absurd hlower (by decide)
      · split at hverdict
        · rename_i hplain
          cases hhost : hostOf rest with
          | none => rw [hhost] at hverdict; cases hverdict
          | some host =>
              rw [hhost] at hverdict
              refine .inr ⟨rest, host, ⟨scheme, hsplit, hplain⟩, hhost, ?_⟩
              by_contra hloop
              simp [hloop, verdict] at hverdict
        · cases hverdict

theorem accepted_of_loopback {url : String} {rest host : List Char} (hplain : PlainHttp url rest)
    (hhost : hostOf rest = some host) (hloop : isLoopbackHost host = true) :
    validateOutboundUrlWith url false = .ok () := by
  obtain ⟨scheme, hsplit, hscheme⟩ := hplain
  apply verdict_accepted.mp
  unfold validateOutboundUrlWith
  rw [gate_of_split false hsplit, hscheme, hhost]
  simp [hloop]

/-- A plain URL is no TLS URL, and its authority is read behind its only scheme. -/
theorem PlainHttp.unique {url : String} {rest scheme rest' : List Char} (h : PlainHttp url rest)
    (hurl : url.toList = scheme ++ ("://".toList ++ rest')) (hcolon : ':' ∉ scheme) :
    scheme.map Char.toLower = "http".toList ∧ rest' = rest := by
  obtain ⟨scheme', hsplit, hplain⟩ := h
  rw [hurl, splitOnce_scheme hcolon] at hsplit
  cases hsplit
  exact ⟨hplain, rfl⟩

/-- Where the text has no slip, the host the gate took is the one the URI names. -/
theorem named_of_no_slip {url : String} {rest host : List Char} (hplain : PlainHttp url rest)
    (hhost : hostOf rest = some host) (hloop : isLoopbackHost host = true)
    (hbracket : ¬ BracketSlip (Uri.authorityOf rest)) (hplus : ¬ PlusSlip (Uri.authorityOf rest)) :
    NamesLoopback url := by
  obtain ⟨scheme, hsplit, hscheme⟩ := hplain
  have hcolon : ':' ∉ scheme := by
    intro hcolon
    have hlower : ':' ∈ scheme.map Char.toLower := List.mem_map.mpr ⟨':', hcolon, rfl⟩
    rw [hscheme] at hlower
    exact absurd hlower (by decide)
  suffices h : ∃ named port, Uri.ReadsAuthority (Uri.authorityOf rest) none named port ∧
      named.IsLoopback by
    obtain ⟨named, port, hauth, hnamed⟩ := h
    exact ⟨scheme, rest, named, port, splitOnce_eq_some hsplit, hcolon, hauth, hnamed⟩
  obtain ⟨hat, ⟨after, htext, hclose, hafter⟩ | ⟨hhostcolon, halone | ⟨port, htext, hport⟩⟩⟩ :=
    hostOf_cases hhost
  · -- in brackets: an IPv6 address and digits, or it is a slip
    have hgood : (Ipv6Addr.parse host).isSome ∧ ∀ c ∈ after.tail, (toDigit 10 c).isSome := by
      by_contra hbad
      exact hbracket ⟨host, after, htext, hat, hclose, hafter, hloop, hbad⟩
    obtain ⟨named, hreads, hnamed⟩ := readsHost_of_brackets hloop hgood.1
    rcases hafter with rfl | hhead
    · refine ⟨named, none, ⟨nofun, nofun, '[' :: host ++ [']'], hreads, ?_⟩, hnamed⟩
      rw [htext]
      simp
    · obtain ⟨port, rfl⟩ : ∃ port, after = ':' :: port := by
        cases after with
        | nil => cases hhead
        | cons c port => exact ⟨port, by cases hhead; rfl⟩
      refine ⟨named, some port, ⟨nofun, ?_, '[' :: host ++ [']'], hreads, ?_⟩, hnamed⟩
      · rintro p hp
        cases hp
        exact hgood.2
      · rw [htext]
        simp
  · obtain ⟨named, hreads, hnamed⟩ := readsHost_of_loopback hloop hhostcolon
    refine ⟨named, none, ⟨nofun, nofun, host, hreads, ?_⟩, hnamed⟩
    rw [halone]
    simp
  · obtain ⟨named, hreads, hnamed⟩ := readsHost_of_loopback hloop hhostcolon
    have hdigits : ∀ c ∈ port, (toDigit 10 c).isSome := by
      apply parseU16_digits hport
      intro hhead
      cases port with
      | nil => cases hhead
      | cons c port =>
          cases hhead
          exact hplus ⟨host, port, htext, hhostcolon, hloop, hport⟩
    refine ⟨named, some port, ⟨nofun, ?_, host, hreads, ?_⟩, hnamed⟩
    · rintro p hp
      cases hp
      exact hdigits
    · rw [htext]
      simp

/-- A loopback literal of the generic syntax is an IPv6 address in brackets, or has
neither a bracket nor a colon. -/
theorem loopback_text {name : List Char} {named : Uri.Host} (h : Uri.ReadsHost name named)
    (hloop : named.IsLoopback) :
    (∃ text groups, name = '[' :: text ++ [']'] ∧ Uri.Ipv6address text groups) ∨
      (name ≠ [] ∧ '[' ∉ name ∧ ':' ∉ name) := by
  cases h with
  | ipv6 haddr => exact .inl ⟨_, _, rfl, haddr⟩
  | ipvFuture _ _ _ _ => exact absurd hloop id
  | ipv4 haddr =>
      have hnot : ∀ c, c ≠ '.' → toDigit 10 c = none → c ∉ name := by
        intro c hdot hdigit hc
        rcases haddr.mem hc with h | h
        · exact hdot h
        · rw [hdigit] at h
          cases h
      refine .inr ⟨?_, hnot _ (by decide) (by decide), hnot _ (by decide) (by decide)⟩
      exact List.ne_nil_of_mem haddr.dot
  | regName _ _ =>
      have hname : IsLocalhost name := hloop
      refine .inr ⟨?_, fun hc => ?_, fun hc => ?_⟩
      · rintro rfl
        cases hname
      · exact absurd (hname.alpha hc) (by decide)
      · exact absurd (hname.alpha hc) (by decide)

/-- A bracketed host with a slip is not the host a URI names. -/
theorem not_named_of_bracketSlip {authority : List Char} {named : Uri.Host}
    {port : Option (List Char)} (hslip : BracketSlip authority)
    (hauth : Uri.ReadsAuthority authority none named port) (hnamed : named.IsLoopback) : False := by
  obtain ⟨inside, after, htext, -, hclose, -, hloop, hbad⟩ := hslip
  obtain ⟨name, hreads, hname⟩ := hauth.text
  rw [htext] at hname
  rcases loopback_text hreads hnamed with ⟨text, groups, rfl, haddr⟩ | ⟨hne, hopen, -⟩
  · have htextclose : ']' ∉ text := by
      intro hc
      rcases haddr.mem hc with h | h | h
      · exact absurd h (by decide)
      · exact absurd h (by decide)
      · exact absurd h (by decide)
    have hsame : inside ++ ']' :: after = text ++ ']' :: (port.elim [] fun p => ':' :: p) := by
      simpa using hname
    obtain ⟨rfl, rfl⟩ := Framing.append_sep_inj hclose htextclose hsame
    -- the text in the brackets has a colon, so the gate has parsed it as IPv6
    have hparse : (Ipv6Addr.parse inside).isSome := by
      rcases isLoopbackHost_cases hloop with hlocal | hv4 | ⟨addr, haddr', -⟩
      · exact absurd haddr.colon (colon_not_mem (.inl hlocal))
      · exact absurd haddr.colon (colon_not_mem (.inr hv4))
      · rw [haddr']
        rfl
    refine hbad ⟨hparse, ?_⟩
    cases port with
    | none => exact fun _ hc => absurd hc List.not_mem_nil
    | some p => exact hauth.port_digits p rfl
  · obtain ⟨c, rest, rfl⟩ := List.exists_cons_of_ne_nil hne
    have hhead : '[' = c := (List.cons.inj (by simpa using hname)).1
    exact hopen (hhead ▸ List.mem_cons_self)

theorem not_named_of_plusSlip {authority : List Char} {named : Uri.Host}
    {port : Option (List Char)} (hslip : PlusSlip authority)
    (hauth : Uri.ReadsAuthority authority none named port) (hnamed : named.IsLoopback) : False := by
  obtain ⟨host, port', htext, hcolon, hloop, -⟩ := hslip
  obtain ⟨name, hreads, hname⟩ := hauth.text
  rw [htext] at hname
  rcases loopback_text hreads hnamed with ⟨text, groups, rfl, -⟩ | ⟨-, -, hnamecolon⟩
  · obtain ⟨c, rest, rfl⟩ := List.exists_cons_of_ne_nil (loopback_ne_nil hloop)
    have hhead : c = '[' := (List.cons.inj (by simpa using hname)).1
    exact absurd List.mem_cons_self (hhead ▸ loopback_not_mem hloop (by decide))
  · cases port with
    | none =>
        have hsame : host ++ ':' :: '+' :: port' = name := by simpa using hname
        exact hnamecolon (hsame ▸ List.mem_append_right _ List.mem_cons_self)
    | some p =>
        have hsame : host ++ ':' :: ('+' :: port') = name ++ ':' :: p := by simpa using hname
        obtain ⟨-, rfl⟩ := Framing.append_sep_inj hcolon hnamecolon hsame
        exact absurd (hauth.port_digits _ rfl '+' List.mem_cons_self) (by decide)

/-- The gate accepts an authority with a slip. -/
theorem accepted_of_slip {url : String} {rest : List Char} (hplain : PlainHttp url rest)
    (hslip : BracketSlip (Uri.authorityOf rest) ∨ PlusSlip (Uri.authorityOf rest)) :
    validateOutboundUrlWith url false = .ok () := by
  rcases hslip with ⟨inside, after, htext, hat, hclose, hafter, hloop, -⟩ |
    ⟨host, port, htext, hcolon, hloop, hport⟩
  · exact accepted_of_loopback hplain (hostOf_brackets htext hat hclose hafter) hloop
  · have hportchar : ∀ c, c ≠ '+' → toDigit 10 c = none → c ∉ '+' :: port := by
      intro c hplus hdigit hc
      rcases parseU16_char hport hc with h | h
      · exact hplus h
      · rw [hdigit] at h
        cases h
    have hat : '@' ∉ Uri.authorityOf rest := by
      rw [htext, List.mem_append, List.mem_cons]
      rintro (hin | hin | hin)
      · exact loopback_not_mem hloop (by decide) hin
      · exact absurd hin (by decide)
      · exact hportchar _ (by decide) (by decide) hin
    have hopen : host.head? ≠ some '[' := by
      intro hhead
      exact loopback_not_mem hloop (by decide) (List.mem_of_mem_head? hhead)
    have hhost := hostOf_open htext hat hopen hcolon (hportchar _ (by decide) (by decide))
    rw [if_neg (Option.isSome_iff_ne_none.mp hport), if_neg (loopback_ne_nil hloop)] at hhost
    exact accepted_of_loopback hplain hhost hloop

/-- A plain URL whose authority has a slip is accepted for a host it does not name. -/
theorem not_gates_of_slip {url : String} {rest : List Char} (hplain : PlainHttp url rest)
    (hslip : BracketSlip (Uri.authorityOf rest) ∨ PlusSlip (Uri.authorityOf rest)) :
    ¬ Gates url := by
  intro hgates
  rcases hgates.safe (accepted_of_slip hplain hslip) with ⟨scheme, rest', hurl, hcolon, htls⟩ |
    ⟨scheme, rest', named, port, hurl, hcolon, hauth, hnamed⟩
  · rw [(hplain.unique hurl hcolon).1] at htls
    exact absurd htls (by decide)
  · rw [(hplain.unique hurl hcolon).2] at hauth
    rcases hslip with hslip | hslip
    · exact not_named_of_bracketSlip hslip hauth hnamed
    · exact not_named_of_plusSlip hslip hauth hnamed

/-- **The outbound gate.**  The gates agree, and plain text goes to the loopback host the
URI names, exactly for the URLs without a slip in the text of a plain-text authority. -/
theorem outbound_gate_iff (url : String) :
    Gates url ↔ ∀ rest, PlainHttp url rest →
      ¬ BracketSlip (Uri.authorityOf rest) ∧ ¬ PlusSlip (Uri.authorityOf rest) := by
  constructor
  · exact fun hgates rest hplain =>
      not_or.mp fun hslip => not_gates_of_slip hplain hslip hgates
  · intro hclean
    refine ⟨parity url, websocket url, fun haccepted => ?_⟩
    rcases accepted_cases haccepted with htls | ⟨rest, host, hplain, hhost, hloop⟩
    · exact .inl htls
    · obtain ⟨hbracket, hplus⟩ := hclean rest hplain
      exact .inr (named_of_no_slip hplain hhost hloop hbracket hplus)

theorem plainHttp_ofList (rest : List Char) :
    PlainHttp (String.ofList ('h' :: 't' :: 't' :: 'p' :: ':' :: '/' :: '/' :: rest)) rest := by
  have hcolon : ':' ∉ ['h', 't', 't', 'p'] := by decide
  refine ⟨['h', 't', 't', 'p'], ?_, by decide⟩
  have htext : (String.ofList ('h' :: 't' :: 't' :: 'p' :: ':' :: '/' :: '/' :: rest)).toList =
      ['h', 't', 't', 'p'] ++ ("://".toList ++ rest) := String.toList_ofList
  rw [htext]
  exact splitOnce_scheme hcolon

/-- Three URLs that the gate accepts though they name no loopback literal: a name in
brackets, a port that is no number, and a signed port. -/
theorem gate_accepts_slips :
    ¬ Gates "http://[localhost]/" ∧ ¬ Gates "http://[::1]:rpc" ∧ ¬ Gates "http://localhost:+80" := by
  refine ⟨?_, ?_, ?_⟩
  · have hslip : BracketSlip (Uri.authorityOf ['[', 'l', 'o', 'c', 'a', 'l', 'h', 'o', 's', 't',
        ']', '/']) := by
      refine ⟨['l', 'o', 'c', 'a', 'l', 'h', 'o', 's', 't'], [], by decide, by decide, by decide,
        .inl rfl, by decide +kernel, fun h => ?_⟩
      exact absurd h.1 (by decide +kernel)
    exact not_gates_of_slip (plainHttp_ofList _) (.inl hslip)
  · have hslip : BracketSlip (Uri.authorityOf ['[', ':', ':', '1', ']', ':', 'r', 'p', 'c']) := by
      refine ⟨[':', ':', '1'], [':', 'r', 'p', 'c'], by decide, by decide, by decide, .inr rfl,
        by decide +kernel, fun h => ?_⟩
      exact absurd (h.2 'r' List.mem_cons_self) (by decide)
    exact not_gates_of_slip (plainHttp_ofList _) (.inl hslip)
  · have hslip : PlusSlip (Uri.authorityOf ['l', 'o', 'c', 'a', 'l', 'h', 'o', 's', 't', ':',
        '+', '8', '0']) :=
      ⟨['l', 'o', 'c', 'a', 'l', 'h', 'o', 's', 't'], ['8', '0'], by decide, by decide,
        by decide +kernel, by decide +kernel⟩
    exact not_gates_of_slip (plainHttp_ofList _) (.inr hslip)

end Outbound
end PoolCoordinator
end ComputePool
