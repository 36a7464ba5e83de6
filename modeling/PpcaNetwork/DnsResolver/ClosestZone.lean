import PpcaNetwork.DnsResolver.Codec
import PpcaNetwork.DnsResolver.Rounds

/-!
# The closest zone

`get_nameservers` looks for the closest zone of a name whose servers are known.  It pushes an
empty label behind the labels of the name before it joins them, so the zones it looks up have
a dot too many, all but the root.

* `nsIpsOf` — `get_ns_ips` of a zone, at one instant.
* `zonesBelowRoot` — the zones of a name; `lookedUp` — the names that are looked up for them.
* `firstServers` — the servers of the first zone that has any.
* `getNameservers_eq` — what `get_nameservers` returns.
* `closest_zone_iff` — when that is the servers of the closest zone.
-/

namespace PpcaNetwork.Dns

/-! ## The servers of a zone -/

/-- A resolver whose clock stands still. -/
def World.still (cache : DnsCache) (now : Instant) : World where
  cache := cache
  now := now
  delays := []
  upstream := []
  log := []

/-- `cache.get_ns_ips` of a zone, at one instant. -/
def nsIpsOf (cache : DnsCache) (now : Instant) (zone : Text) : List Server :=
  (getNsIps zone (.still cache now)).1

/-- The entries under a key that have not expired. -/
def DnsCache.liveAt (c : DnsCache) (key : CacheKey) (now : Instant) : List CacheEntry :=
  (c.entriesAt key).filter fun e => now < e.expires

/-- The clocks stand still, and the same entries have not expired. -/
structure World.SameLive (w w' : World) : Prop where
  delays : w.delays = []
  delays' : w'.delays = []
  now : w'.now = w.now
  live : ∀ key, w'.cache.liveAt key w.now = w.cache.liveAt key w.now

namespace World.SameLive

variable {w w' w'' : World}

theorem refl (h : w.delays = []) : w.SameLive w := ⟨h, h, rfl, fun _ => rfl⟩

theorem trans (h : w.SameLive w') (h' : w'.SameLive w'') : w.SameLive w'' where
  delays := h.delays
  delays' := h'.delays'
  now := h'.now.trans h.now
  live := by
    intro key
    rw [← h.live, ← h.now, h'.live]

end World.SameLive

/-- A lookup in the cache drops entries that have expired, and no others. -/
theorem World.sameLive_get {w : World} (h : w.delays = []) (name : Text) (qtype : UInt16) :
    w.SameLive (w.get name qtype).2 := by
  have htick : w.tick = w := by simp [World.tick, h]
  refine ⟨h, ?_, ?_, ?_⟩
  · show w.tick.delays = []
    rw [htick, h]
  · show w.tick.now = w.now
    rw [htick]
  · intro key
    show (w.tick.cache.get name qtype classIn w.tick.now).2.liveAt key w.now = _
    rw [htick, DnsCache.liveAt, DnsCache.liveAt, DnsCache.entriesAt_get]
    split
    · rename_i hkey
      rw [hkey, List.filter_filter]
      simp only [Bool.and_self]
    · rfl

/-- Worlds with the same live entries as `w` are not told apart by a lookup. -/
theorem lockstep_get_live (w : World) (name : Text) (qtype : UInt16) :
    Lockstep (fun s t => w.SameLive s ∧ w.SameLive t) fun s => s.get name qtype := by
  rintro s t ⟨hs, ht⟩
  have hfst : ∀ {u : World}, w.SameLive u → (u.get name qtype).1 = (w.get name qtype).1 := by
    intro u hu
    have hlive := hu.live (cacheKey name qtype classIn)
    have htick : ∀ {v : World}, v.delays = [] → v.tick = v := fun h => by simp [World.tick, h]
    show (u.tick.cache.get name qtype classIn u.tick.now).1 =
      (w.tick.cache.get name qtype classIn w.tick.now).1
    rw [htick hu.delays', htick hu.delays, DnsCache.get_fst, DnsCache.get_fst, hu.now]
    simp only [DnsCache.liveAt] at hlive
    simp only [hlive]
  exact ⟨(hfst hs).trans (hfst ht).symm, hs.trans (World.sameLive_get hs.delays' ..),
    ht.trans (World.sameLive_get ht.delays' ..)⟩

/-- Looking for the servers of one zone does not change those of another. -/
theorem getNsIps_of_sameLive {cache : DnsCache} {now : Instant} {w : World}
    (h : (World.still cache now).SameLive w) (zone : Text) :
    (getNsIps zone w).1 = nsIpsOf cache now zone ∧
      (World.still cache now).SameLive (getNsIps zone w).2 := by
  have hlockstep := lockstep_getNsIps (lockstep_get_live (.still cache now)) zone w
    (.still cache now) ⟨h, .refl rfl⟩
  exact ⟨hlockstep.1, hlockstep.2.1⟩

/-! ## The first zone with servers -/

/-- The servers of the first of the zones that has any. -/
def firstServers (nsIps : Text → List Server) (zones : List Text) : Option (List Server) :=
  (zones.map nsIps).find? fun servers => !servers.isEmpty

/-- The loop of `get_nameservers` returns the servers of the first zone that has any. -/
theorem firstNameservers_eq {cache : DnsCache} {now : Instant} (name : Text) (zones : List Text)
    {w : World} (h : (World.still cache now).SameLive w) :
    (firstNameservers name zones w).1 =
      match firstServers (nsIpsOf cache now) zones with
      | some servers => .ok servers
      | none => .error (.noNsRecords name) := by
  induction zones generalizing w with
  | nil => rfl
  | cons zone zones ih =>
    obtain ⟨hservers, hnext⟩ := getNsIps_of_sameLive h zone
    simp only [firstNameservers, hservers, firstServers, List.map_cons, List.find?_cons]
    cases hempty : (nsIpsOf cache now zone).isEmpty with
    | true => exact ih hnext
    | false => rfl

/-! ## The zones that are looked up -/

/-- The zones of a name, from the name itself up, without the root. -/
def zonesBelowRoot : List Text → List Text
  | [] => []
  | label :: labels => nameOf (label :: labels) :: zonesBelowRoot labels

/-- The names that `get_nameservers` looks up before the root: each zone with a dot too many. -/
def lookedUp (labels : List Text) : List Text :=
  (if labels.isEmpty then [rootName] else zonesBelowRoot labels).map (· ++ [dot])

/-- Labels and an empty one behind them, joined. -/
theorem joinText_concat_nil (labels : List Text) (hne : labels ≠ []) :
    joinText [dot] (labels ++ [[]]) ++ [dot] = nameOf labels ++ [dot] := by
  rw [nameOf_of_ne_nil hne]
  induction labels with
  | nil => exact absurd rfl hne
  | cons label labels ih =>
    rw [List.cons_append, joinText_cons label (by simp)]
    by_cases hlast : labels = []
    · subst hlast
      simp [joinText]
    · have hrest := List.append_cancel_right (ih hlast)
      rw [hrest, joinText_cons label hlast]
      simp

theorem zonesBelowRoot_eq (labels : List Text) :
    zonesBelowRoot labels = (List.range labels.length).map fun i => nameOf (labels.drop i) := by
  induction labels with
  | nil => rfl
  | cons label labels ih =>
    rw [zonesBelowRoot, ih, List.length_cons, List.range_succ_eq_map, List.map_cons, List.map_map]
    rfl

/-- No zone is looked up under its own name, but for the root. -/
theorem zonesOf_nameOf {labels : List Text} (h : ∀ label ∈ labels, IsPlain label) :
    zonesOf (nameOf labels) = lookedUp labels ++ [rootName] := by
  by_cases hne : labels = []
  · subst hne
    decide
  · have hsplit : (trimEndMatches dot (nameOf labels)).splitOn dot = labels := by
      rw [trimEndMatches_nameOf h, splitOn_joinText h hne]
    have hlen : (labels ++ [[]]).length = labels.length + 1 := by simp
    rw [zonesOf, hsplit, hlen, lookedUp, if_neg (by simpa using hne), zonesBelowRoot_eq,
      List.range_succ, List.map_append, List.map_map]
    congr 1
    · refine List.map_congr_left fun i hi => ?_
      have hi : i < labels.length := List.mem_range.mp hi
      rw [if_neg (by omega), List.drop_append_of_le_length (by omega), Function.comp_apply]
      refine joinText_concat_nil _ ?_
      intro hnil
      have hdrop := List.drop_eq_nil_iff.mp hnil
      omega
    · simp

/-- **What `get_nameservers` returns.** -/
theorem getNameservers_eq {labels : List Text} (h : ∀ label ∈ labels, IsPlain label)
    (cache : DnsCache) (now : Instant) :
    (getNameservers (nameOf labels) (.still cache now)).1 =
      match firstServers (nsIpsOf cache now) (lookedUp labels ++ [rootName]) with
      | some servers => .ok servers
      | none => .error (.noNsRecords (nameOf labels)) := by
  rw [getNameservers, zonesOf_nameOf h]
  exact firstNameservers_eq _ _ (.refl rfl)

/-! ## When it is the closest zone -/

/-- The servers of the closest zone with servers, the root included. -/
def closestServers (nsIps : Text → List Server) (labels : List Text) : Option (List Server) :=
  firstServers nsIps (zonesBelowRoot labels ++ [rootName])

/-- The result is the servers of the closest zone, or an error if no zone has any. -/
def FindsClosest (nsIps : Text → List Server) (labels : List Text)
    (result : Except ResolveError (List Server)) : Prop :=
  (∀ servers, closestServers nsIps labels = some servers → result = .ok servers) ∧
    ((∃ e, result = .error e) ↔ closestServers nsIps labels = none)

/-- What is looked up leads to the right servers: neither a zone below the root nor a name with
a dot too many has servers, or the servers that they have happen to be the same. -/
def SameServers (nsIps : Text → List Server) (labels : List Text) : Prop :=
  match firstServers nsIps (zonesBelowRoot labels), firstServers nsIps (lookedUp labels) with
  | none, none => True
  | some servers, none => servers = nsIps rootName
  | none, some servers => servers = nsIps rootName
  | some servers, some servers' => servers = servers'

theorem firstServers_append (nsIps : Text → List Server) (zones : List Text) :
    firstServers nsIps (zones ++ [rootName]) =
      (firstServers nsIps zones).or (firstServers nsIps [rootName]) := by
  rw [firstServers, firstServers, firstServers, List.map_append, List.find?_append]

theorem firstServers_root (nsIps : Text → List Server) :
    firstServers nsIps [rootName] =
      if (nsIps rootName).isEmpty then none else some (nsIps rootName) := by
  simp only [firstServers, List.map_cons, List.map_nil, List.find?_cons, List.find?_nil]
  cases (nsIps rootName).isEmpty <;> rfl

theorem ne_nil_of_firstServers {nsIps : Text → List Server} {zones : List Text}
    {servers : List Server} (h : firstServers nsIps zones = some servers) : servers ≠ [] := by
  have hfound := List.find?_some h
  rintro rfl
  exact absurd hfound (by simp)

/-- Two searches end with the same servers. -/
theorem sameServers_iff (nsIps : Text → List Server) (labels : List Text) :
    SameServers nsIps labels ↔
      firstServers nsIps (lookedUp labels ++ [rootName]) = closestServers nsIps labels := by
  unfold SameServers
  rw [closestServers, firstServers_append, firstServers_append, firstServers_root]
  cases hzones : firstServers nsIps (zonesBelowRoot labels) with
  | none =>
    cases hlooked : firstServers nsIps (lookedUp labels) with
    | none => simp
    | some servers =>
      have hne := ne_nil_of_firstServers hlooked
      cases hroot : nsIps rootName with
      | nil => simp [hne]
      | cons server rest => simp
  | some servers =>
    have hne := ne_nil_of_firstServers hzones
    cases hlooked : firstServers nsIps (lookedUp labels) with
    | none =>
      cases hroot : nsIps rootName with
      | nil => simp [hne]
      | cons server rest => simpa using eq_comm
    | some servers' => simpa using eq_comm

/-- **When the closest zone is found.**  Take any name in normal form, any cache and any
instant.  `get_nameservers` returns the servers of the closest zone of the name that has any,
and an error exactly if none has, if and only if what it looks up happens to lead to the same
servers. -/
theorem closest_zone_iff (labels : List Text) (h : ∀ label ∈ labels, IsPlain label)
    (cache : DnsCache) (now : Instant) :
    FindsClosest (nsIpsOf cache now) labels
        (getNameservers (nameOf labels) (.still cache now)).1 ↔
      SameServers (nsIpsOf cache now) labels := by
  rw [getNameservers_eq h, sameServers_iff, FindsClosest]
  generalize firstServers (nsIpsOf cache now) (lookedUp labels ++ [rootName]) = found
  generalize closestServers (nsIpsOf cache now) labels = closest
  cases found with
  | none => cases closest <;> simp
  | some servers => cases closest <;> simp

/-- The demo resolver's cache after a referral to the servers of `com.`. -/
def demoReferredCache : DnsCache :=
  (demoCache.put (demoRr "com." typeNs (.ns (utf8 "a.gtld-servers.net."))) 0).put
    (demoRr "a.gtld-servers.net." typeA (.a ⟨192, 5, 6, 30⟩)) 0

/-- The demo resolver's cache where the root server is a server of `com.` as well. -/
def demoSharedCache : DnsCache :=
  demoCache.put (demoRr "com." typeNs (.ns (utf8 "a.root-servers.net."))) 0

/-- The servers of `com.` are in the cache, and what is looked up in their place leads to them. -/
theorem demo_zone_found :
    closestServers (nsIpsOf demoSharedCache 0) [utf8 "www", utf8 "com"] =
        some [(utf8 "a.root-servers.net.", demoRootAddr)] ∧
      FindsClosest (nsIpsOf demoSharedCache 0) [utf8 "www", utf8 "com"]
        (getNameservers (nameOf [utf8 "www", utf8 "com"]) (.still demoSharedCache 0)).1 := by
  have hplain : ∀ label ∈ [utf8 "www", utf8 "com"], IsPlain label := by
    intro label hlabel
    simp only [List.mem_cons, List.not_mem_nil, or_false] at hlabel
    rcases hlabel with rfl | rfl
    · exact ⟨by decide, by decide⟩
    · exact ⟨by decide, by decide⟩
  have hzones : firstServers (nsIpsOf demoSharedCache 0)
      (zonesBelowRoot [utf8 "www", utf8 "com"]) =
        some [(utf8 "a.root-servers.net.", demoRootAddr)] := by
    decide +kernel
  have hlooked : firstServers (nsIpsOf demoSharedCache 0)
      (lookedUp [utf8 "www", utf8 "com"]) = none := by
    decide +kernel
  refine ⟨by decide +kernel,
    (closest_zone_iff [utf8 "www", utf8 "com"] hplain demoSharedCache 0).mpr ?_⟩
  rw [SameServers, hzones, hlooked]
  show [(utf8 "a.root-servers.net.", demoRootAddr)] = nsIpsOf demoSharedCache 0 rootName
  decide +kernel

/-- **The closest zone is overlooked.**  The servers of `com.` are in the cache, and
`www.com.` is looked up with the root servers all the same. -/
theorem demo_zone_overlooked :
    closestServers (nsIpsOf demoReferredCache 0) [utf8 "www", utf8 "com"] =
        some [(utf8 "a.gtld-servers.net.", ⟨192, 5, 6, 30⟩)] ∧
      zonesOf (utf8 "www.com.") = [utf8 "www.com..", utf8 "com..", utf8 "."] ∧
      (getNameservers (utf8 "www.com.") (.still demoReferredCache 0)).1 =
        .ok [(utf8 "a.root-servers.net.", demoRootAddr)] := by
  decide +kernel

end PpcaNetwork.Dns
