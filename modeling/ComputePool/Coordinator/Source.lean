import ComputePool.Coordinator.State
import ComputePool.Lib.Framing
import ComputePool.Rust.Net

/-!
# Where a request came from

The source of a request is the address of its peer, or, behind the local proxy, the
address the proxy wrote; its group is what caps and no-shows are charged to.  The
group is computed from the text of the source.
-/

namespace ComputePool
namespace Coordinator
namespace Source

open RustStd Framing

/-- The headers of a request: their names in lower case, and their values. -/
abbrev Headers := List (String × List UInt8)

/-- `HeaderMap::get`: the first value under a name. -/
def Headers.get (headers : Headers) (name : String) : Option (List UInt8) :=
  (headers.find? fun header => header.1 == name).map Prod.snd

/-- `HeaderValue::to_str`: visible ASCII characters, spaces and tabs only. -/
def toStr (value : List UInt8) : Option (List Char) :=
  if value.all fun b => b == 9 || (32 ≤ b && b < 127) then
    some (value.map fun b => Char.ofNat b.toNat)
  else none

/-- The address the local proxy wrote: the rightmost entry of `X-Forwarded-For`. -/
def forwardedFor (headers : Headers) : Option IpAddr := do
  let value ← headers.get "x-forwarded-for"
  let text ← toStr value
  let entry ← (text.splitOn ',').getLast?
  IpAddr.parse (trim entry)

/-- The address a request is charged to. -/
def chargedIp (peer : Option SocketAddr) (headers : Headers) : Option IpAddr :=
  match peer with
  | some p =>
      if p.ip.isLoopback = false then some p.ip
      else (forwardedFor headers).or (some (.v4 ⟨127, 0, 0, 1⟩))
  | none => none

/-- `{:x}` of a segment. -/
def hexText (segment : UInt16) : List Char := Nat.toDigits 16 segment.toNat

/-- Where a request came from, for the per-source identity cap. -/
def sourceOf (peer : Option SocketAddr) (headers : Headers) : String :=
  match chargedIp peer headers with
  | some (.v6 v6) =>
      String.ofList (hexText v6.s0 ++ ':' :: (hexText v6.s1 ++ ':' :: (hexText v6.s2 ++
        ':' :: (hexText v6.s3 ++ "::/64".toList))))
  | some (.v4 v4) => String.ofList v4.display
  | none => "unknown"

/-- The group of a request's source. -/
def groupOf (peer : Option SocketAddr) (headers : Headers) : String :=
  sourceGroup (sourceOf peer headers)

/-! ## What a group stands for -/

/-- The IPv4 address an IPv6 address writes, `::ffff:a.b.c.d`. -/
def mapped (addr : Ipv6Addr) : Option Ipv4Addr :=
  if addr.s0 = 0 ∧ addr.s1 = 0 ∧ addr.s2 = 0 ∧ addr.s3 = 0 ∧ addr.s4 = 0 ∧ addr.s5 = 0xffff then
    some ⟨(addr.s6 >>> 8).toUInt8, addr.s6.toUInt8, (addr.s7 >>> 8).toUInt8, addr.s7.toUInt8⟩
  else none

/-- The network of a peer: its IPv4 address, written either way, or its IPv6 /48. -/
inductive Network where
  | ipv4 (addr : Ipv4Addr)
  | ipv6 (s0 s1 s2 : UInt16)
  deriving DecidableEq

/-- The network a peer address belongs to. -/
def network : IpAddr → Network
  | .v4 addr => .ipv4 addr
  | .v6 addr => (mapped addr).elim (.ipv6 addr.s0 addr.s1 addr.s2) .ipv4

/-- The IPv4 address behind an IPv4-mapped peer address. -/
def mappedIn : IpAddr → Option Ipv4Addr
  | .v4 _ => none
  | .v6 addr => mapped addr

/-- The other peer is told from, or taken for, the IPv4-mapped address as it should be:
it is another native IPv4 address, the same mapped one, or a true IPv6 address outside
the /48 of the mapped ones. -/
def Apart (addr : Ipv4Addr) : IpAddr → Prop
  | .v4 other => other ≠ addr
  | .v6 other => mapped other = some addr ∨
      (mapped other = none ∧ ¬ (other.s0 = 0 ∧ other.s1 = 0 ∧ other.s2 = 0))

/-- Grouping two peers by their text is grouping them by their network. -/
def GroupsByNetwork (p q : SocketAddr) : Prop :=
  ∀ headers headers', groupOf (some p) headers = groupOf (some p) headers' ∧
    (groupOf (some p) headers = groupOf (some q) headers' ↔ network p.ip = network q.ip)

/-! ## The text of a group -/

theorem colon_not_mem_hexText (segment : UInt16) : ':' ∉ hexText segment :=
  not_mem_toDigits (by decide) (by decide) (by decide)

theorem hexText_injective : Function.Injective hexText := fun _ _ h =>
  UInt16.toNat_inj.mp (toDigits_injective (by decide) (by decide) h)

/-- The text of an IPv6 group. -/
def siteText (s0 s1 s2 : UInt16) : List Char :=
  hexText s0 ++ ':' :: (hexText s1 ++ ':' :: (hexText s2 ++ "::/48".toList))

theorem siteText_inj {a b c a' b' c' : UInt16} :
    siteText a b c = siteText a' b' c' ↔ a = a' ∧ b = b' ∧ c = c' := by
  constructor
  swap
  · rintro ⟨rfl, rfl, rfl⟩
    rfl
  intro h
  unfold siteText at h
  obtain ⟨ha, h⟩ := append_sep_inj (colon_not_mem_hexText _) (colon_not_mem_hexText _) h
  obtain ⟨hb, h⟩ := append_sep_inj (colon_not_mem_hexText _) (colon_not_mem_hexText _) h
  obtain ⟨hc, -⟩ := append_inj_of_tail h rfl
  exact ⟨hexText_injective ha, hexText_injective hb, hexText_injective hc⟩

theorem stripSuffix_eq_some {suffix s front : List Char} :
    stripSuffix suffix s = some front ↔ s = front ++ suffix := by
  unfold stripSuffix
  constructor
  · intro h
    obtain ⟨rest, hrest, rfl⟩ := Option.map_eq_some_iff.mp h
    have hs := congrArg List.reverse (stripPrefix_eq_some.mp hrest)
    simpa using hs
  · rintro rfl
    rw [List.reverse_append, stripPrefix_append]
    simp

/-- A text that does not end as a /64 is its own group. -/
theorem sourceGroup_of_none {source : String} {text : List Char} (htext : source.toList = text)
    (hstrip : stripSuffix "::/64".toList text = none) : sourceGroup source = source := by
  unfold sourceGroup
  rw [htext, hstrip]

theorem sourceGroup_of_strip {source : String} {text front a b c d : List Char}
    (htext : source.toList = text) (hstrip : stripSuffix "::/64".toList text = some front)
    (hsplit : front.splitOn ':' = [a, b, c, d]) :
    sourceGroup source = String.ofList (a ++ [':'] ++ b ++ [':'] ++ c ++ "::/48".toList) := by
  unfold sourceGroup
  rw [htext, hstrip]
  dsimp only
  rw [hsplit]

/-- An IPv6 source is widened to its /48. -/
theorem sourceGroup_v6 (addr : Ipv6Addr) :
    sourceGroup (String.ofList (hexText addr.s0 ++ ':' :: (hexText addr.s1 ++ ':' ::
      (hexText addr.s2 ++ ':' :: (hexText addr.s3 ++ "::/64".toList))))) =
      String.ofList (siteText addr.s0 addr.s1 addr.s2) := by
  have hstrip : stripSuffix "::/64".toList (hexText addr.s0 ++ ':' :: (hexText addr.s1 ++ ':' ::
      (hexText addr.s2 ++ ':' :: (hexText addr.s3 ++ "::/64".toList)))) =
      some (hexText addr.s0 ++ ':' :: (hexText addr.s1 ++ ':' ::
        (hexText addr.s2 ++ ':' :: hexText addr.s3))) := by
    rw [stripSuffix_eq_some]
    simp
  have hsplit : (hexText addr.s0 ++ ':' :: (hexText addr.s1 ++ ':' ::
      (hexText addr.s2 ++ ':' :: hexText addr.s3))).splitOn ':' =
      [hexText addr.s0, hexText addr.s1, hexText addr.s2, hexText addr.s3] := by
    have hfree : ∀ l ∈ [hexText addr.s0, hexText addr.s1, hexText addr.s2, hexText addr.s3],
        ':' ∉ l := by
      simp [colon_not_mem_hexText]
    have hjoin := List.splitOn_intercalate ':' hfree (List.cons_ne_nil _ _)
    simpa [List.intercalate] using hjoin
  rw [sourceGroup_of_strip String.toList_ofList hstrip hsplit]
  simp [siteText]

/-- An IPv4 source stands for itself. -/
theorem sourceGroup_v4 (addr : Ipv4Addr) :
    sourceGroup (String.ofList addr.display) = String.ofList addr.display := by
  have hstrip : stripSuffix "::/64".toList addr.display = none := by
    rw [Option.eq_none_iff_forall_ne_some]
    intro front hfront
    have hcolon : ':' ∈ addr.display := by
      rw [stripSuffix_eq_some.mp hfront]
      simp
    rcases Ipv4Addr.mem_display hcolon with hdot | hdigit
    · exact absurd hdot (by decide)
    · exact absurd hdigit (by decide)
  exact sourceGroup_of_none String.toList_ofList hstrip

/-- The group of a peer that is not loopback, whatever the headers. -/
theorem groupOf_direct {p : SocketAddr} (hp : p.ip.isLoopback = false) (headers : Headers) :
    groupOf (some p) headers = match p.ip with
      | .v4 addr => String.ofList addr.display
      | .v6 addr => String.ofList (siteText addr.s0 addr.s1 addr.s2) := by
  unfold groupOf sourceOf chargedIp
  dsimp only
  rw [if_pos hp]
  cases p.ip with
  | v4 addr => exact sourceGroup_v4 addr
  | v6 addr => exact sourceGroup_v6 addr

/-- A written IPv4 address is no written /48. -/
theorem display_ne_siteText (addr : Ipv4Addr) (a b c : UInt16) :
    addr.display ≠ siteText a b c := by
  intro h
  have hcolon : ':' ∈ addr.display := by
    rw [h]
    simp [siteText]
  rcases Ipv4Addr.mem_display hcolon with hdot | hdigit
  · exact absurd hdot (by decide)
  · exact absurd hdigit (by decide)

/-! ## Which peers share a group -/

theorem ofList_inj {s t : List Char} : String.ofList s = String.ofList t ↔ s = t :=
  String.ofList_inj

/-- An IPv4-mapped address lies in `0:0:0::/48` and is given back by its last two
segments. -/
theorem mapped_eq_some {addr : Ipv6Addr} {v4 : Ipv4Addr} (h : mapped addr = some v4) :
    addr.s0 = 0 ∧ addr.s1 = 0 ∧ addr.s2 = 0 := by
  unfold mapped at h
  split at h
  · rename_i hz
    exact ⟨hz.1, hz.2.1, hz.2.2.1⟩
  · cases h

/-- Two peers that are not loopback are grouped by their networks exactly if an
IPv4-mapped one among them is told from the other as it should be. -/
theorem source_group_iff {p q : SocketAddr} (hp : p.ip.isLoopback = false)
    (hq : q.ip.isLoopback = false) :
    GroupsByNetwork p q ↔
      (∀ addr, mappedIn p.ip = some addr → Apart addr q.ip) ∧
        (∀ addr, mappedIn q.ip = some addr → Apart addr p.ip) := by
  unfold GroupsByNetwork
  simp only [groupOf_direct hp, groupOf_direct hq, true_and, forall_const]
  cases p.ip with
  | v4 a =>
      cases q.ip with
      | v4 b =>
          have hiff : a.display = b.display ↔ a = b := Ipv4Addr.display_injective.eq_iff
          simp [mappedIn, network, ofList_inj, hiff]
      | v6 b =>
          have hne := display_ne_siteText a b.s0 b.s1 b.s2
          cases hb : mapped b with
          | none => simp [mappedIn, network, ofList_inj, hne, hb]
          | some w => simp [mappedIn, network, ofList_inj, hne, hb, Apart]
  | v6 a =>
      cases q.ip with
      | v4 b =>
          have hne := (display_ne_siteText b a.s0 a.s1 a.s2).symm
          cases ha : mapped a with
          | none => simp [mappedIn, network, ofList_inj, hne, ha]
          | some v => simp [mappedIn, network, ofList_inj, hne, ha, Apart, eq_comm (a := v)]
      | v6 b =>
          cases ha : mapped a with
          | none =>
              cases hb : mapped b with
              | none => simp [mappedIn, network, ofList_inj, siteText_inj, ha, hb]
              | some w =>
                  have hzero := mapped_eq_some hb
                  simp [mappedIn, network, ofList_inj, siteText_inj, ha, hb, Apart, hzero]
          | some v =>
              have hzero := mapped_eq_some ha
              cases hb : mapped b with
              | none =>
                  simp [mappedIn, network, ofList_inj, siteText_inj, ha, hb, Apart, hzero,
                    eq_comm (a := (0 : UInt16))]
              | some w =>
                  have hzero' := mapped_eq_some hb
                  simp [mappedIn, network, ha, hb, Apart, hzero, hzero',
                    eq_comm (a := v)]

/-- A native IPv4 peer and an IPv6 one. -/
theorem source_group_iff_two :
    (IpAddr.v4 ⟨203, 0, 113, 5⟩).isLoopback = false ∧
      GroupsByNetwork ⟨.v4 ⟨203, 0, 113, 5⟩, 1⟩ ⟨.v6 ⟨0x2001, 0xdb8, 1, 2, 0xaaaa, 0, 0, 1⟩, 1⟩ :=
  ⟨rfl, (source_group_iff rfl rfl).mpr ⟨by simp [mappedIn], by simp [mappedIn, mapped]⟩⟩

/-- 192.0.2.1, as an IPv4 listener reports it. -/
def nativePeer : SocketAddr := ⟨.v4 ⟨192, 0, 2, 1⟩, 40000⟩

/-- 192.0.2.1, as a dual-stack listener reports it. -/
def mappedPeer : SocketAddr := ⟨.v6 ⟨0, 0, 0, 0, 0, 0xffff, 0xc000, 0x0201⟩, 40000⟩

/-- 198.51.100.7, as a dual-stack listener reports it. -/
def otherMappedPeer : SocketAddr := ⟨.v6 ⟨0, 0, 0, 0, 0, 0xffff, 0xc633, 0x6407⟩, 40000⟩

/-- One IPv4 client has two groups, and two IPv4 clients share one. -/
theorem mapped_peers_misgrouped :
    nativePeer.ip.isLoopback = false ∧ mappedPeer.ip.isLoopback = false ∧
      otherMappedPeer.ip.isLoopback = false ∧
      network nativePeer.ip = network mappedPeer.ip ∧
      groupOf (some nativePeer) [] ≠ groupOf (some mappedPeer) [] ∧
      network mappedPeer.ip ≠ network otherMappedPeer.ip ∧
      groupOf (some mappedPeer) [] = groupOf (some otherMappedPeer) [] ∧
      ¬ GroupsByNetwork nativePeer mappedPeer ∧ ¬ GroupsByNetwork mappedPeer otherMappedPeer := by
  have hsplit : groupOf (some nativePeer) [] ≠ groupOf (some mappedPeer) [] := by
    rw [groupOf_direct rfl, groupOf_direct rfl]
    exact fun h => display_ne_siteText _ _ _ _ (ofList_inj.mp h)
  have hmerged : groupOf (some mappedPeer) [] = groupOf (some otherMappedPeer) [] := by
    rw [groupOf_direct rfl, groupOf_direct rfl]
    rfl
  have hsame : network nativePeer.ip = network mappedPeer.ip := by decide
  have hdiffer : network mappedPeer.ip ≠ network otherMappedPeer.ip := by decide
  refine ⟨rfl, rfl, rfl, hsame, hsplit, hdiffer, hmerged, fun h => ?_, fun h => ?_⟩
  · exact hsplit ((h [] []).2.mpr hsame)
  · exact hdiffer ((h [] []).2.mp hmerged)

end Source
end Coordinator
end ComputePool
