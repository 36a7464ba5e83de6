import PpcaNetwork.Minicaddy.Config
import PpcaNetwork.Minicaddy.KeepAlive

/-!
# Virtual hosts

Which of the sites behind a listener answers a request.

* `listenerSites` — the sites of a configuration that share a listener.
* `requestHost` — the host name of a request, without the port.
* `ServedRight` — the site with that name answers, or else the first without a name, or
  else an error response.
* `servedRight_iff` — when that is so.
-/

namespace PpcaNetwork.Minicaddy

open Http1

/-! ## Listeners -/

/-- The bytes of a text. -/
def Caddyfile.bytes (s : Caddyfile.Chars) : Text := utf8 (String.ofList s)

/-- The settings of a parsed site that are used to answer a request. -/
def Caddyfile.Site.served {F : Type} (site : Caddyfile.Site F) : SiteConfig where
  host := site.host.map Caddyfile.bytes
  root := site.root.map Caddyfile.bytes
  fileServer := site.fileServer
  gzip := site.gzip
  reverseProxy := site.reverseProxy.map Caddyfile.bytes
  basicAuth := site.basicAuth.map fun auth => (Caddyfile.bytes auth.1, Caddyfile.bytes auth.2)

/-- The sites that `run_all` groups under an address. -/
def listenerSites {F : Type} (addr : Caddyfile.Chars) (sites : List (Caddyfile.Site F)) :
    List SiteConfig :=
  (sites.filter (·.listenAddr = addr)).map Caddyfile.Site.served

/-! ## The host name of a request -/

/-- The value of the first `Host` field. -/
def hostField (headers : List Header) : Option Text :=
  (headers.find? fun h => SameText h.name (utf8 "Host")).map (·.value)

/-- What stands behind the last colon. -/
def behindColon (v : Text) : Text := v.rtakeWhile (· ≠ 0x3A)

/-- What stands before the last colon. -/
def beforeColon (v : Text) : Text := (v.rdropWhile (· ≠ 0x3A)).dropLast

/-- The value has a port: behind the last colon there are only digits, and the colon is not part
of an address without brackets. -/
def HasPort (v : Text) : Prop :=
  0x3A ∈ v ∧ (∀ b ∈ behindColon v, 0x30 ≤ b ∧ b ≤ 0x39) ∧
    (0x3A ∈ beforeColon v → (beforeColon v).getLast? = some 0x5D)

instance (v : Text) : Decidable (HasPort v) := inferInstanceAs (Decidable (_ ∧ _))

/-- The host name in the value of a `Host` field. -/
def hostName (v : Text) : Text := if HasPort v then beforeColon v else v

/-- The host name of a request; without a `Host` field it is the default of `handle_request`. -/
def requestHost (headers : List Header) : Text :=
  match hostField headers with
  | some v => hostName v
  | none => utf8 "localhost"

/-- The text that `handle_request` compares with the hosts of the sites. -/
def lookedUp (headers : List Header) : Text :=
  (getHeader headers (utf8 "Host")).getD (utf8 "localhost")

/-- The `Host` field, if there is one, is text without a port. -/
def BareHost (headers : List Header) : Prop :=
  ∀ v, hostField headers = some v → isUtf8 v = true ∧ ¬ HasPort v

/-- The site has the name, in whatever case. -/
def SiteNamed (site : SiteConfig) (name : Text) : Prop :=
  ∃ host, site.host = some host ∧ SameText host name

/-- The request is answered by a site with its host name, or else by the first site without a
name, or else with an error response. -/
structure ServedRight (server : Server) (world : World) (req : HttpRequest) (body : List UInt8) :
    Prop where
  named : (∃ site ∈ server.sites, SiteNamed site (requestHost req.headers)) →
    ∃ site ∈ server.sites, siteOf server.sites req.headers = some site ∧
      SiteNamed site (requestHost req.headers)
  catchAll : (∀ site ∈ server.sites, ¬ SiteNamed site (requestHost req.headers)) →
    (∃ site ∈ server.sites, site.host = none) →
      siteOf server.sites req.headers = server.sites.find? fun site => site.host = none
  refused : (∀ site ∈ server.sites, ¬ SiteNamed site (requestHost req.headers)) →
    (∀ site ∈ server.sites, site.host ≠ none) →
      siteOf server.sites req.headers = none ∧
        (respond server world req body).written ≠ [] ∧
        (respond server world req body).ending ≠ .panicked

/-! ## Looking the host up -/

theorem eq_beforeColon_append {v : Text} (h : 0x3A ∈ v) :
    v = beforeColon v ++ 0x3A :: behindColon v := by
  have hne : v.rdropWhile (· ≠ 0x3A) ≠ [] := by
    intro hnil
    have := List.rdropWhile_eq_nil_iff.mp hnil 0x3A h
    simp at this
  have hlast : (v.rdropWhile (· ≠ 0x3A)).getLast hne = 0x3A := by
    have := List.rdropWhile_last_not (· ≠ 0x3A) v hne
    simpa using this
  have hbefore : v.rdropWhile (· ≠ 0x3A) = beforeColon v ++ [0x3A] := by
    conv_lhs => rw [← List.dropLast_append_getLast hne, hlast]
    rfl
  have hsplit := List.rdropWhile_append_rtakeWhile (p := (· ≠ (0x3A : UInt8))) (l := v)
  rw [hbefore, List.append_assoc, List.singleton_append] at hsplit
  exact hsplit.symm

theorem hostName_of_port {v : Text} (h : HasPort v) :
    v = hostName v ++ 0x3A :: behindColon v := by
  rw [hostName, if_pos h]
  exact eq_beforeColon_append h.1

/-- A name that a value with a port holds in some case is shorter than the value. -/
theorem not_sameText_of_port {v : Text} (h : HasPort v) : ¬ SameText v (hostName v) := by
  intro hsame
  have hlength := congrArg List.length hsame
  rw [toAsciiLowercase, toAsciiLowercase, List.length_map, List.length_map] at hlength
  conv_lhs at hlength => rw [hostName_of_port h]
  rw [List.length_append, List.length_cons] at hlength
  omega

theorem localhost_ascii : ∀ b ∈ utf8 "localhost", b < 0x80 := by decide +kernel

/-- A value whose name is the default one in some case is text. -/
theorem isUtf8_of_hostName {v : Text} (h : SameText (utf8 "localhost") (hostName v)) :
    isUtf8 v = true := by
  have hname := ascii_of_sameText h.symm localhost_ascii
  by_cases hport : HasPort v
  · have hdigit : ∀ b ∈ behindColon v, b < 0x80 :=
      fun b hb => UInt8.lt_of_le_of_lt (hport.2.1 b hb).2 (by decide)
    rw [hostName_of_port hport]
    refine isUtf8_of_ascii (List.forall_mem_append.mpr ⟨hname, ?_⟩)
    exact List.forall_mem_cons.mpr ⟨by decide, hdigit⟩
  · rw [hostName, if_neg hport] at hname
    exact isUtf8_of_ascii hname

theorem lookedUp_eq (headers : List Header) :
    lookedUp headers =
      match hostField headers with
      | some v => if isUtf8 v then v else utf8 "localhost"
      | none => utf8 "localhost" := by
  rw [lookedUp, getHeader, hostField]
  cases headers.find? fun h => SameText h.name (utf8 "Host") with
  | none => rfl
  | some h =>
    dsimp only [Option.map_some]
    split <;> rfl

theorem lookedUp_eq_of_bareHost {headers : List Header} (h : BareHost headers) :
    lookedUp headers = requestHost headers := by
  rw [lookedUp_eq, requestHost]
  cases hv : hostField headers with
  | none => rfl
  | some v =>
    obtain ⟨htext, hport⟩ := h v hv
    dsimp only
    rw [if_pos htext, hostName, if_neg hport]

/-- The two agree, in whatever case, only if there is no port to leave out. -/
theorem bareHost_of_sameText {headers : List Header}
    (h : SameText (lookedUp headers) (requestHost headers)) : BareHost headers := by
  intro v hv
  rw [lookedUp_eq, requestHost, hv] at h
  dsimp only at h
  split at h
  · next htext => exact ⟨htext, fun hport => not_sameText_of_port hport h⟩
  · next htext => exact absurd (isUtf8_of_hostName h) htext

/-! ## Selecting the site -/

/-- The site that `siteOf` finds: one with the text looked up, or else the first without a
name. -/
theorem siteOf_cases (sites : List SiteConfig) (headers : List Header) :
    (∃ site ∈ sites, siteOf sites headers = some site ∧ site.host = some (lookedUp headers)) ∨
      ((∀ site ∈ sites, site.host ≠ some (lookedUp headers)) ∧
        siteOf sites headers = sites.find? fun site => site.host = none) := by
  rw [siteOf, ← lookedUp, selectSite]
  cases hfind : sites.find? fun site => site.host = some (lookedUp headers) with
  | some site =>
    exact .inl ⟨site, List.mem_of_find?_eq_some hfind, rfl, by simpa using List.find?_some hfind⟩
  | none =>
    refine .inr ⟨fun site hsite => ?_, rfl⟩
    simpa using List.find?_eq_none.mp hfind site hsite

theorem respond_of_none {server : Server} {world : World} {req : HttpRequest}
    {body : List UInt8} (hallowed : world.allowed = true)
    (h : siteOf server.sites req.headers = none) :
    respond server world req body = ⟨[], .panicked⟩ := by
  rw [respond, if_pos hallowed, h]

/-- **Which requests reach the right site**: those whose `Host` has no port and names a site
letter for letter, and those that name none where there is a site for all. -/
theorem servedRight_iff {server : Server} {world : World} {req : HttpRequest}
    {body : List UInt8} (hallowed : world.allowed = true) :
    ServedRight server world req body ↔
      (BareHost req.headers ∧
          ∃ site ∈ server.sites, site.host = some (requestHost req.headers)) ∨
        ((∀ site ∈ server.sites, ¬ SiteNamed site (requestHost req.headers)) ∧
          (∃ site ∈ server.sites, site.host = none) ∧
          ∀ site ∈ server.sites, site.host ≠ some (lookedUp req.headers)) := by
  constructor
  · intro h
    by_cases hnamed : ∃ site ∈ server.sites, SiteNamed site (requestHost req.headers)
    · left
      obtain ⟨chosen, hmem, hchosen, host, hhost, hsame⟩ := h.named hnamed
      rcases siteOf_cases server.sites req.headers with ⟨site, hsite, heq, hlooked⟩ | ⟨-, heq⟩
      · rw [heq, Option.some.injEq] at hchosen
        subst hchosen
        rw [hlooked, Option.some.injEq] at hhost
        subst hhost
        have hbare := bareHost_of_sameText hsame
        exact ⟨hbare, site, hsite, by rw [hlooked, lookedUp_eq_of_bareHost hbare]⟩
      · rw [heq] at hchosen
        have hnone := List.find?_some hchosen
        simp [hhost] at hnone
    · right
      have hnot : ∀ site ∈ server.sites, ¬ SiteNamed site (requestHost req.headers) :=
        fun site hsite hsame => hnamed ⟨site, hsite, hsame⟩
      by_cases hcatch : ∃ site ∈ server.sites, site.host = none
      · refine ⟨hnot, hcatch, ?_⟩
        have hsite := h.catchAll hnot hcatch
        rcases siteOf_cases server.sites req.headers with ⟨site, -, heq, hlooked⟩ | ⟨hall, -⟩
        · rw [heq] at hsite
          have hnone := List.find?_some hsite.symm
          simp [hlooked] at hnone
        · exact hall
      · obtain ⟨hnone, hwritten, -⟩ :=
          h.refused hnot fun site hsite hno => hcatch ⟨site, hsite, hno⟩
        rw [respond_of_none hallowed hnone] at hwritten
        exact absurd rfl hwritten
  · rintro (⟨hbare, site, hsite, hhost⟩ | ⟨hnot, hcatch, hall⟩)
    · have hname : SiteNamed site (requestHost req.headers) := ⟨_, hhost, SameText.refl _⟩
      refine ⟨fun _ => ?_, fun hnot => absurd hname (hnot site hsite),
        fun hnot => absurd hname (hnot site hsite)⟩
      rcases siteOf_cases server.sites req.headers with ⟨chosen, hchosen, heq, hlooked⟩ | ⟨hall, -⟩
      · refine ⟨chosen, hchosen, heq, _, hlooked, ?_⟩
        rw [lookedUp_eq_of_bareHost hbare]
        exact SameText.refl _
      · exact absurd (lookedUp_eq_of_bareHost hbare ▸ hhost) (hall site hsite)
    · obtain ⟨catchAll, hmem, hno⟩ := hcatch
      refine ⟨fun ⟨site, hsite, hsame⟩ => absurd hsame (hnot site hsite), fun _ _ => ?_,
        fun _ hnone => absurd hno (hnone catchAll hmem)⟩
      rcases siteOf_cases server.sites req.headers with ⟨site, hsite, -, hlooked⟩ | ⟨-, heq⟩
      · exact absurd hlooked (hall site hsite)
      · exact heq

/-- A site that is named letter for letter. -/
theorem demo_served_right : ServedRight demoServer demoWorld demoGet [] := by
  refine (servedRight_iff rfl).mpr (.inl ⟨fun v hv => ?_, _, List.mem_singleton_self _, ?_⟩)
  · have hhost : hostField demoGet.headers = some (utf8 "localhost") := by decide +kernel
    rw [hhost, Option.some.injEq] at hv
    subst hv
    decide +kernel
  · decide +kernel

/-- Two of the sites of the sample configuration. -/
def demoVirtualHosts : Caddyfile.Chars :=
  ":8080 \x7b\n    root ./www\n\x7d\nvh.localhost:8080 \x7b\n    root ./sites/vh\n\x7d\n".toList

/-- A request with the port of the listener in its `Host`. -/
def demoPortGet : HttpRequest :=
  { demoGet with
    headers := [⟨utf8 "Host", utf8 "vh.localhost:8080"⟩]
    headers_valid := by
      intro f hf
      rw [List.mem_singleton.mp hf]
      exact ⟨by decide +kernel, by decide +kernel⟩ }

/-- The sites of the demo as they are parsed. -/
def demoParsed : List (Caddyfile.Site Unit) :=
  [Caddyfile.described Caddyfile.noNumber ":8080".toList [["root".toList, "./www".toList]],
    Caddyfile.described Caddyfile.noNumber "vh.localhost:8080".toList
      [["root".toList, "./sites/vh".toList]]]

/-- The server behind the listener of the sites. -/
def demoHostServer : Server :=
  { demoServer with sites := listenerSites "0.0.0.0:8080".toList demoParsed }

/-- The same server without its first site. -/
def demoNamedServer : Server := { demoHostServer with sites := demoHostServer.sites.drop 1 }

/-- **With the port in its `Host`** a request misses the site that it names: the first site without
a name answers it, and if there is none the task panics. -/
theorem demo_port_misses :
    Caddyfile.fromCaddyfile Caddyfile.noNumber demoVirtualHosts = .returns demoParsed ∧
      requestHost demoPortGet.headers = utf8 "vh.localhost" ∧
      (siteOf demoHostServer.sites demoPortGet.headers).map (·.host) = some none ∧
      ¬ ServedRight demoHostServer demoWorld demoPortGet [] ∧
      respond demoNamedServer demoWorld demoPortGet [] = ⟨[], .panicked⟩ := by
  have hname : requestHost demoPortGet.headers = utf8 "vh.localhost" := by decide +kernel
  have hnone : (siteOf demoHostServer.sites demoPortGet.headers).map (·.host) = some none := by
    decide +kernel
  have hsite : ∃ site ∈ demoHostServer.sites, site.host = some (utf8 "vh.localhost") := by
    decide +kernel
  refine ⟨by decide +kernel, hname, hnone, fun h => ?_, respond_of_none rfl ?_⟩
  · obtain ⟨site, hmem, hhost⟩ := hsite
    obtain ⟨chosen, -, hchosen, host, hchost, -⟩ :=
      h.named ⟨site, hmem, _, hhost, hname ▸ SameText.refl _⟩
    rw [hchosen, Option.map_some, hchost] at hnone
    simp at hnone
  · refine Option.isNone_iff_eq_none.mp ?_
    decide +kernel

end PpcaNetwork.Minicaddy
