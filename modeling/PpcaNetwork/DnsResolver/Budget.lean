import PpcaNetwork.DnsResolver.Rounds

/-!
# How many queries a resolution makes

`resolve_iterative` calls itself for name servers without an address, inside a loop, and
what the servers reply decides how often.  Here everything of a resolution is written down
that its number of queries depends on.

* `activity` — the server lists that a resolution uses, the queries that it makes and the
  responses that it gets, those of the resolutions within it included.
* `Activity.Within` — the bounds on the lists and on the responses.
* `queryBudget` — how many queries are enough.
* `lookup_uses` — a resolution takes as much of what upstream has to give as it makes
  queries.
* `queries_le_budget` — it makes no more than the budget allows.
-/

namespace PpcaNetwork.Dns

/-- Something that a resolution does. -/
inductive Activity where
  /-- `query_best_server` is called with these servers. -/
  | servers (servers : List Server)
  /-- `send_query` is called. -/
  | query (server : SocketAddr) (name : Text) (qtype : UInt16)
  /-- `send_query` returns a response. -/
  | response (reply : DnsMessage)
  deriving DecidableEq, Repr

/-- It is a query to a server. -/
def Activity.isQuery : Activity → Bool
  | .query .. => true
  | _ => false

/-- The number of calls of `send_query`. -/
def queries (activity : List Activity) : Nat := activity.countP (·.isQuery)

@[simp] theorem queries_query (server : SocketAddr) (name : Text) (qtype : UInt16)
    (xs : List Activity) : queries (.query server name qtype :: xs) = queries xs + 1 :=
  List.countP_cons_of_pos rfl

@[simp] theorem queries_append (xs ys : List Activity) :
    queries (xs ++ ys) = queries xs + queries ys := List.countP_append

/-! ## What a resolution does -/

/-- The loop of `query_best_server`. -/
def queryActivity (name : Text) (qtype : UInt16) : List Server → World → List Activity
  | [], _ => []
  | (_, ip) :: servers, w =>
    .query ⟨ip, dnsPort⟩ name qtype ::
      match sendQuery ⟨ip, dnsPort⟩ name qtype w with
      | (.ok reply, _) => [.response reply]
      | (.error _, w) => queryActivity name qtype servers w

/-- What the resolution of a name server does; nothing, where there is none. -/
abbrev NsActivity := Text → World → List Activity

/-- The body of the loop of `extract_referral`. -/
def addActivity (glue : List Server) (nsActivity : NsActivity) (w : World) (ns : Text) :
    List Activity :=
  match glue.find? (·.1 = ns) with
  | some _ => []
  | none =>
    match w.get ns typeA with
    | (some _, _) => []
    | (none, w) => nsActivity ns w

/-- The loop of `extract_referral`. -/
def referralActivity (glue : List Server) (resolveNs : ResolveNs) (nsActivity : NsActivity) :
    List Text → List Server × World → List Activity
  | [], _ => []
  | ns :: nsNames, acc =>
    addActivity glue nsActivity acc.2 ns ++
      referralActivity glue resolveNs nsActivity nsNames (addReferral glue resolveNs acc ns)

/-- One round of the loop of `resolve_iterative`. -/
def Lookup.activity (resolveNs : ResolveNs) (nsActivity : NsActivity) (qtype : UInt16)
    (s : Lookup) : List Activity :=
  match s.world.get s.currentName qtype with
  | (some _, _) => []
  | (none, w) =>
    .servers s.servers :: queryActivity s.currentName qtype s.servers w ++
      match queryBestServer s.currentName qtype s.servers w with
      | (.error _, _) => []
      | (.ok sections, w) =>
        if sections.answers.isEmpty then
          referralActivity (glueOf sections.additionals) resolveNs nsActivity
            (nsNamesOf sections.authorities) ([], w)
        else []

/-- The body of `resolve_iterative`. -/
def activityWith (resolveNs : ResolveNs) (nsActivity : NsActivity) (name : Text) (qtype : UInt16)
    (w : World) : List Activity :=
  match getNameservers rootName w with
  | (.error _, _) => []
  | (.ok servers, w) =>
    (Loop.rounds (Lookup.round resolveNs name qtype) maxIterations
      (.start name servers w)).flatMap (Lookup.activity resolveNs nsActivity qtype)

/-- What `lookup` does. -/
def activity : (glueLeft : Nat) → (name : Text) → (qtype : UInt16) → World → List Activity
  | 0, name, qtype, w => activityWith none (fun _ _ => []) name qtype w
  | glueLeft + 1, name, qtype, w =>
    activityWith (some fun ns w =>
      let o := lookup glueLeft ns typeA w
      (o.result, o.world)) (fun ns w => activity glueLeft ns typeA w) name qtype w

/-! ## Queries use up what upstream has to give -/

namespace World

/-- From `w` to `w'` the activity has used up one outcome for each query. -/
def Uses (w : World) (activity : List Activity) (w' : World) : Prop :=
  w'.upstream = w.upstream.drop (queries activity)

theorem Uses.nil (w : World) : w.Uses [] w := rfl

theorem Uses.append {w w' w'' : World} {xs ys : List Activity} (h : w.Uses xs w')
    (h' : w'.Uses ys w'') : w.Uses (xs ++ ys) w'' := by
  rw [Uses, h', h, List.drop_drop, queries_append]

theorem Uses.of_upstream_eq {w w' : World} (h : w'.upstream = w.upstream) : w.Uses [] w' := h

@[simp] theorem upstream_tick (w : World) : w.tick.upstream = w.upstream := by
  unfold tick
  split <;> rfl

@[simp] theorem upstream_get (w : World) (name : Text) (qtype : UInt16) :
    (w.get name qtype).2.upstream = w.upstream := w.upstream_tick

@[simp] theorem upstream_put (w : World) (rr : DnsRR) : (w.put rr).upstream = w.upstream :=
  w.upstream_tick

@[simp] theorem upstream_putAll (w : World) (rrs : List DnsRR) :
    (w.putAll rrs).upstream = w.upstream := by
  induction rrs generalizing w with
  | nil => rfl
  | cons rr rrs ih => exact (ih (w.put rr)).trans (w.upstream_put rr)

@[simp] theorem upstream_putNxdomain (w : World) (name : Text) (qtype : UInt16) (ttl : UInt32) :
    (w.putNxdomain name qtype ttl).upstream = w.upstream := w.upstream_tick

end World

theorem upstream_getNsIps (zone : Text) (w : World) :
    (getNsIps zone w).2.upstream = w.upstream := by
  refine (Loop.foldl_rule (R := fun w w' : World => w'.upstream = w.upstream) (fun _ => rfl)
    (fun h h' => h'.trans h) ?_ _ ([], _)).trans (w.upstream_get ..)
  intro acc ns
  unfold addNsIps
  split
  · exact World.upstream_get ..
  · rfl

theorem upstream_firstNameservers (name : Text) (zones : List Text) (w : World) :
    (firstNameservers name zones w).2.upstream = w.upstream := by
  induction zones generalizing w with
  | nil => rfl
  | cons zone zones ih =>
    simp only [firstNameservers]
    split
    · exact (ih _).trans (upstream_getNsIps zone w)
    · exact upstream_getNsIps zone w

theorem upstream_getNameservers (name : Text) (w : World) :
    (getNameservers name w).2.upstream = w.upstream := upstream_firstNameservers ..

theorem upstream_sendQuery (server : SocketAddr) (name : Text) (qtype : UInt16) (w : World) :
    (sendQuery server name qtype w).2.upstream = w.upstream.drop 1 := by
  unfold sendQuery
  split
  · rename_i hnone
    simp only [hnone, List.drop_nil]
  · rename_i hfailed
    simp only [hfailed, List.drop_one, List.tail_cons]
  · rename_i hreceived
    simp only
    split <;> simp only [hreceived, List.drop_one, List.tail_cons]

theorem queryServers_uses (name : Text) (qtype : UInt16) (servers : List Server)
    (lastErr : ResolveError) (w : World) :
    w.Uses (queryActivity name qtype servers w) (queryServers name qtype servers lastErr w).2 := by
  induction servers generalizing lastErr w with
  | nil => exact World.Uses.nil w
  | cons server servers ih =>
    obtain ⟨nsName, ip⟩ := server
    have hupstream := upstream_sendQuery ⟨ip, dnsPort⟩ name qtype w
    have hsent : w.Uses [.query ⟨ip, dnsPort⟩ name qtype]
        (sendQuery ⟨ip, dnsPort⟩ name qtype w).2 := hupstream
    simp only [queryActivity, queryServers]
    cases hquery : sendQuery ⟨ip, dnsPort⟩ name qtype w with
    | mk result w' =>
      rw [hquery] at hsent
      cases result with
      | ok reply =>
        have hput : ∀ {w'' : World}, w''.upstream = w'.upstream → w'.Uses [.response reply] w'' :=
          fun h => h
        refine hsent.append (hput ?_)
        simp only [World.upstream_putAll]
      | error e => exact hsent.append (ih (.server nsName e) w')

/-- The activity is that of the resolution of name servers. -/
def ResolveNs.Does (resolveNs : ResolveNs) (nsActivity : NsActivity) : Prop :=
  match resolveNs with
  | none => ∀ ns w, nsActivity ns w = []
  | some resolve => ∀ ns (w : World), w.Uses (nsActivity ns w) (resolve ns w).2

section Uses

variable {resolveNs : ResolveNs} {nsActivity : NsActivity} (hns : resolveNs.Does nsActivity)

include hns

theorem addReferral_uses (glue : List Server) (acc : List Server × World) (ns : Text) :
    acc.2.Uses (addActivity glue nsActivity acc.2 ns) (addReferral glue resolveNs acc ns).2 := by
  unfold addActivity addReferral
  cases glue.find? (·.1 = ns) with
  | some server => exact World.Uses.nil _
  | none =>
    have hget := acc.2.upstream_get ns typeA
    cases hcached : acc.2.get ns typeA with
    | mk cached w =>
      rw [hcached] at hget
      cases cached with
      | some aRecords => exact World.Uses.of_upstream_eq hget
      | none =>
        cases resolveNs with
        | none =>
          have hnone : nsActivity ns w = [] := hns ns w
          simp only [hnone]
          exact World.Uses.of_upstream_eq hget
        | some resolve =>
          have hresolve : w.Uses (nsActivity ns w) (resolve ns w).2 := hns ns w
          have huses := (World.Uses.of_upstream_eq hget).append hresolve
          simp only
          cases hresult : resolve ns w with
          | mk result w' =>
            rw [hresult] at huses
            cases result <;> exact huses

theorem foldl_addReferral_uses (glue : List Server) (nsNames : List Text)
    (acc : List Server × World) :
    acc.2.Uses (referralActivity glue resolveNs nsActivity nsNames acc)
      (nsNames.foldl (addReferral glue resolveNs) acc).2 := by
  induction nsNames generalizing acc with
  | nil => exact World.Uses.nil _
  | cons ns nsNames ih => exact (addReferral_uses hns glue acc ns).append (ih _)

theorem extractReferral_uses (authorities additionals : List DnsRR) (w : World) :
    w.Uses (referralActivity (glueOf additionals) resolveNs nsActivity (nsNamesOf authorities)
      ([], w)) (extractReferral authorities additionals resolveNs w).2 := by
  rw [extractReferral_world]
  exact foldl_addReferral_uses hns (glueOf additionals) (nsNamesOf authorities) ([], w)

end Uses

namespace Lookup

/-- The world at the end of a round. -/
def endOf : Round Lookup Outcome → World
  | .done o => o.world
  | .next s => s.world

theorem upstream_onAnswers (qtype : UInt16) (s : Lookup) (answers : List DnsRR) (w : World) :
    (endOf (s.onAnswers qtype answers w)).upstream = w.upstream := by
  unfold onAnswers
  simp only
  split
  · rfl
  · split
    · rfl
    · split
      · rfl
      · rename_i rr target _
        split
        · rfl
        · have hservers := upstream_getNameservers target w
          split
          · rename_i hlost
            rw [hlost] at hservers
            exact hservers
          · rename_i hfound
            rw [hfound] at hservers
            exact hservers

theorem endOf_onReferral (s : Lookup) (servers : List Server) (w : World) :
    endOf (s.onReferral servers w) = w := by
  unfold onReferral
  split
  · rfl
  · simp only
    split <;> rfl

variable {resolveNs : ResolveNs} {nsActivity : NsActivity}

theorem onNoAnswers_uses (hns : resolveNs.Does nsActivity) (name : Text) (qtype : UInt16)
    (s : Lookup) (authorities additionals : List DnsRR) (w : World) :
    w.Uses (referralActivity (glueOf additionals) resolveNs nsActivity (nsNamesOf authorities)
      ([], w)) (endOf (s.onNoAnswers resolveNs name qtype authorities additionals w)) := by
  have huses := extractReferral_uses hns authorities additionals w
  unfold onNoAnswers
  split
  · rename_i servers w' hreferral
    rw [hreferral] at huses
    rwa [endOf_onReferral]
  · rename_i w' hreferral
    rw [hreferral] at huses
    split
    · exact (w'.upstream_putNxdomain ..).trans huses
    · exact huses

theorem round_uses (hns : resolveNs.Does nsActivity) (name : Text) (qtype : UInt16) (s : Lookup) :
    s.world.Uses (s.activity resolveNs nsActivity qtype)
      (endOf (s.round resolveNs name qtype)) := by
  have hget := s.world.upstream_get s.currentName qtype
  unfold Lookup.activity Lookup.round
  cases hcached : s.world.get s.currentName qtype with
  | mk cached w =>
    rw [hcached] at hget
    cases cached with
    | some rrs => exact World.Uses.of_upstream_eq hget
    | none =>
      -- the lookup, the server list and the queries of the round
      have hlist : w.Uses [.servers s.servers] w := World.Uses.nil w
      have hasked := ((World.Uses.of_upstream_eq hget).append hlist).append
        (queryServers_uses s.currentName qtype s.servers .noServer w)
      simp only
      cases hquery : queryBestServer s.currentName qtype s.servers w with
      | mk result w' =>
        have hw' : (queryServers s.currentName qtype s.servers .noServer w).2 = w' :=
          congrArg Prod.snd hquery
        rw [hw'] at hasked
        cases result with
        | error e => exact hasked.append (World.Uses.nil w')
        | ok sections =>
          refine hasked.append ?_
          simp only
          split
          · exact onNoAnswers_uses hns name qtype s _ _ w'
          · exact World.Uses.of_upstream_eq (upstream_onAnswers qtype s _ w')

end Lookup

theorem lookupWith_uses {resolveNs : ResolveNs} {nsActivity : NsActivity}
    (hns : resolveNs.Does nsActivity) (name : Text) (qtype : UInt16) (w : World) :
    w.Uses (activityWith resolveNs nsActivity name qtype w)
      (lookupWith resolveNs name qtype w).world := by
  have hroot := upstream_getNameservers rootName w
  unfold activityWith lookupWith
  cases hservers : getNameservers rootName w with
  | mk result w' =>
    rw [hservers] at hroot
    cases result with
    | error e => exact World.Uses.of_upstream_eq hroot
    | ok servers =>
      have hdone : ∀ s o, Lookup.round resolveNs name qtype s = .done o →
          s.world.Uses (s.activity resolveNs nsActivity qtype) o.world := by
        intro s o h
        simpa only [h, Lookup.endOf] using Lookup.round_uses hns name qtype s
      have hnext : ∀ s s', Lookup.round resolveNs name qtype s = .next s' →
          s.world.Uses (s.activity resolveNs nsActivity qtype) s'.world := by
        intro s s' h
        simpa only [h, Lookup.endOf] using Lookup.round_uses hns name qtype s
      exact (World.Uses.of_upstream_eq hroot).append
        (Loop.bounded_observe World.Uses.nil World.Uses.append hdone hnext (fun _ => rfl)
          maxIterations (.start name servers w'))

/-- **What a resolution takes.**  One outcome for each of its queries. -/
theorem lookup_uses (glueLeft : Nat) (name : Text) (qtype : UInt16) (w : World) :
    w.Uses (activity glueLeft name qtype w) (lookup glueLeft name qtype w).world := by
  induction glueLeft generalizing name qtype w with
  | zero =>
    have hns : ResolveNs.Does none fun _ _ => [] := fun _ _ => rfl
    exact lookupWith_uses hns name qtype w
  | succ glueLeft ih =>
    have hns : ResolveNs.Does
        (some fun ns w =>
          let o := lookup glueLeft ns typeA w
          (o.result, o.world)) (fun ns w => activity glueLeft ns typeA w) :=
      fun ns w => ih ns typeA w
    exact lookupWith_uses hns name qtype w

/-! ## The budget -/

/-- No server list has more than `S` entries, and no response names more than `N` name
servers. -/
def Activity.Within (S N : Nat) : Activity → Prop
  | .servers list => list.length ≤ S
  | .query .. => True
  | .response reply => (nsNamesOf reply.authorities).length ≤ N

instance (S N : Nat) (a : Activity) : Decidable (a.Within S N) :=
  match a with
  | .servers list => inferInstanceAs (Decidable (list.length ≤ S))
  | .query .. => inferInstanceAs (Decidable True)
  | .response reply => inferInstanceAs (Decidable ((nsNamesOf reply.authorities).length ≤ N))

/-- Within the bounds, the activity has no more queries than `budget`. -/
def Affordable (S N budget : Nat) (activity : List Activity) : Prop :=
  (∀ a ∈ activity, a.Within S N) → queries activity ≤ budget

section Budget

variable {S N budget : Nat}

theorem Affordable.append {xs ys : List Activity} {budget' : Nat}
    (hxs : Affordable S N budget xs) (hys : Affordable S N budget' ys) :
    Affordable S N (budget + budget') (xs ++ ys) := by
  intro hwithin
  rw [queries_append]
  exact Nat.add_le_add (hxs fun a ha => hwithin a (List.mem_append_left _ ha))
    (hys fun a ha => hwithin a (List.mem_append_right _ ha))

/-- So many affordable parts. -/
theorem Affordable.flatMap {α : Type} {f : α → List Activity} {xs : List α} {n : Nat}
    (hf : ∀ x ∈ xs, Affordable S N budget (f x)) (hlen : xs.length ≤ n) :
    Affordable S N (n * budget) (xs.flatMap f) := by
  refine fun hwithin => le_trans ?_ (Nat.mul_le_mul_right budget hlen)
  clear hlen
  induction xs with
  | nil => exact Nat.zero_le _
  | cons x xs ih =>
    have hrest : Affordable S N (xs.length * budget) (xs.flatMap f) :=
      fun h => ih (fun y hy => hf y (List.mem_cons_of_mem _ hy)) h
    have hboth := (hf x List.mem_cons_self).append hrest
    rw [List.flatMap_cons] at hwithin ⊢
    have hsum := hboth hwithin
    rw [List.length_cons, Nat.succ_mul]
    omega

theorem queries_queryActivity_le (name : Text) (qtype : UInt16) (servers : List Server)
    (w : World) : queries (queryActivity name qtype servers w) ≤ servers.length := by
  induction servers generalizing w with
  | nil => exact Nat.zero_le _
  | cons server servers ih =>
    obtain ⟨nsName, ip⟩ := server
    rw [queryActivity, queries_query, List.length_cons]
    refine Nat.succ_le_succ ?_
    cases sendQuery ⟨ip, dnsPort⟩ name qtype w with
    | mk result w' =>
      cases result with
      | ok reply => exact Nat.zero_le _
      | error e => exact ih w'

/-- What a query returns is what is made of a response. -/
theorem mem_queryActivity {name : Text} {qtype : UInt16} {servers : List Server}
    {lastErr : ResolveError} {w w' : World} {sections : Sections}
    (h : queryServers name qtype servers lastErr w = (.ok sections, w')) :
    ∃ reply, .response reply ∈ queryActivity name qtype servers w ∧
      sectionsOf reply = sections := by
  induction servers generalizing lastErr w with
  | nil => exact absurd h (by simp [queryServers])
  | cons server servers ih =>
    obtain ⟨nsName, ip⟩ := server
    simp only [queryServers] at h
    simp only [queryActivity]
    cases hquery : sendQuery ⟨ip, dnsPort⟩ name qtype w with
    | mk result w₁ =>
      rw [hquery] at h
      cases result with
      | ok reply =>
        refine ⟨reply, by simp, ?_⟩
        exact Except.ok.inj (congrArg Prod.fst h)
      | error e =>
        obtain ⟨reply, hreply, hsections⟩ := ih h
        exact ⟨reply, List.mem_cons_of_mem _ hreply, hsections⟩

variable {resolveNs : ResolveNs} {nsActivity : NsActivity}
  (hns : ∀ ns w, Affordable S N budget (nsActivity ns w))

include hns

theorem affordable_addActivity (glue : List Server) (w : World) (ns : Text) :
    Affordable S N budget (addActivity glue nsActivity w ns) := by
  unfold addActivity
  split
  · exact fun _ => Nat.zero_le _
  · split
    · exact fun _ => Nat.zero_le _
    · exact hns ns _

theorem affordable_referralActivity (glue : List Server) (nsNames : List Text)
    (acc : List Server × World) :
    Affordable S N (nsNames.length * budget)
      (referralActivity glue resolveNs nsActivity nsNames acc) := by
  induction nsNames generalizing acc with
  | nil => exact fun _ => Nat.zero_le _
  | cons ns nsNames ih =>
    rw [List.length_cons, Nat.succ_mul, Nat.add_comm]
    exact (affordable_addActivity hns glue acc.2 ns).append (ih _)

/-- A round asks each server once at most, and resolves each name server once at most. -/
theorem affordable_round (qtype : UInt16) (s : Lookup) :
    Affordable S N (S + N * budget) (s.activity resolveNs nsActivity qtype) := by
  unfold Lookup.activity
  split
  · exact fun _ => Nat.zero_le _
  · rename_i w _
    intro hwithin
    have hlist : s.servers.length ≤ S := hwithin (.servers s.servers) (by simp)
    have hasked :
        queries (.servers s.servers :: queryActivity s.currentName qtype s.servers w) ≤ S :=
      (queries_queryActivity_le s.currentName qtype s.servers w).trans hlist
    rw [queries_append]
    refine Nat.add_le_add hasked ?_
    cases hquery : queryBestServer s.currentName qtype s.servers w with
    | mk result w' =>
      rw [hquery] at hwithin
      cases result with
      | error e => exact Nat.zero_le _
      | ok sections =>
        obtain ⟨reply, hreply, rfl⟩ := mem_queryActivity hquery
        have hnames : (nsNamesOf reply.authorities).length ≤ N :=
          hwithin (.response reply) (List.mem_append_left _ (List.mem_cons_of_mem _ hreply))
        simp only at hwithin ⊢
        split
        · rename_i hempty
          rw [if_pos hempty] at hwithin
          refine le_trans (affordable_referralActivity hns _ _ _ fun a ha => hwithin a ?_)
            (Nat.mul_le_mul_right budget hnames)
          exact List.mem_append_right _ ha
        · exact Nat.zero_le _

theorem affordable_activityWith (name : Text) (qtype : UInt16) (w : World) :
    Affordable S N (maxIterations * (S + N * budget))
      (activityWith resolveNs nsActivity name qtype w) := by
  unfold activityWith
  split
  · exact fun _ => Nat.zero_le _
  · exact Affordable.flatMap (fun s _ => affordable_round hns qtype s)
      (Loop.length_rounds_le ..)

end Budget

/-- The queries that are enough for a resolution with `glueLeft` more levels below it: in
each of its rounds one for every server, and the budget of the next level for every name
server. -/
def queryBudget (S N : Nat) : (glueLeft : Nat) → Nat
  | 0 => maxIterations * S
  | glueLeft + 1 => maxIterations * (S + N * queryBudget S N glueLeft)

theorem affordable_activity {S N : Nat} (glueLeft : Nat) (name : Text) (qtype : UInt16)
    (w : World) :
    Affordable S N (queryBudget S N glueLeft) (activity glueLeft name qtype w) := by
  induction glueLeft generalizing name qtype w with
  | zero =>
    have hnothing : ∀ (ns : Text) (w : World),
        Affordable S N 0 ((fun _ _ => [] : NsActivity) ns w) := fun _ _ _ => le_refl 0
    have hlast : Affordable S N (maxIterations * (S + N * 0))
        (activityWith none (fun _ _ => []) name qtype w) :=
      affordable_activityWith hnothing name qtype w
    rwa [Nat.mul_zero, Nat.add_zero] at hlast
  | succ glueLeft ih => exact affordable_activityWith (fun ns w => ih ns typeA w) name qtype w

/-- **The query budget.**  Whatever is in the cache and whatever the servers reply, a
resolution at glue depth `MAX_GLUE_DEPTH - glueLeft` makes no more queries than the budget
allows for lists of `S` servers and responses with `N` name servers, and takes that many
outcomes from upstream. -/
theorem queries_le_budget (S N glueLeft : Nat) (name : Text) (qtype : UInt16) (w : World)
    (hwithin : ∀ a ∈ activity glueLeft name qtype w, a.Within S N) :
    queries (activity glueLeft name qtype w) ≤ queryBudget S N glueLeft ∧
      (lookup glueLeft name qtype w).world.upstream =
        w.upstream.drop (queries (activity glueLeft name qtype w)) := by
  exact ⟨affordable_activity glueLeft name qtype w hwithin, lookup_uses glueLeft name qtype w⟩

/-- The root server refers to a name server without its address, which is asked for in a resolution
of its own, and the name server knows the answer. -/
def demoGlueless : List DnsMessage :=
  [demoReply 0 [] [demoRr "com." typeNs (.ns (utf8 "ns.host."))] [],
    demoReply 0 [demoRr "ns.host." typeA (.a ⟨192, 5, 6, 30⟩)] [] [],
    demoReply 0 [demoRr "example.com." typeA (.a ⟨93, 184, 216, 34⟩)] [] []]

/-- The demo resolver makes three queries, one of them for the address of the name server. -/
theorem demo_queries_le_budget :
    let w := demoWorld demoGlueless
    let act := activity maxGlueDepth (utf8 "example.com.") typeA w
    queries act = 3 ∧ queries act ≤ queryBudget 1 1 maxGlueDepth ∧
      (lookup maxGlueDepth (utf8 "example.com.") typeA w).world.upstream =
        w.upstream.drop (queries act) :=
  ⟨by decide +kernel,
    queries_le_budget 1 1 maxGlueDepth (utf8 "example.com.") typeA (demoWorld demoGlueless)
      (by decide +kernel)⟩

end PpcaNetwork.Dns
