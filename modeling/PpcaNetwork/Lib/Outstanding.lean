import PpcaNetwork.Lib.Net

/-!
# Outstanding requests

Requests are issued one at a time, each under a key of its own, and entered in a table with
the time; an answer takes the entry of its key out of the table and is recorded, and
entries that have become too old expire.  The two sides take their steps in any order,
except that no answer is looked up while its request is still being issued.

* `Outstanding` — the state; `Outstanding.Step` — what either side may do.
* `Outstanding.Inv` — the invariant; `Outstanding.Inv.step` is the step lemma.
* `Outstanding.Inv.recorded_le` — no more answers are recorded than requests are counted.
* `Outstanding.Inv.recorded_once` — a request that is answered in time is recorded once and
  does not expire.
-/

namespace PpcaNetwork

/-- What happens to the requests, with the time of their issue and of an answer. -/
inductive RequestEvent (κ : Type*) where
  | issued (k : κ) (t : Instant)
  | answered (k : κ) (t : Instant)
  | recorded (k : κ)
  | expired (k : κ)
  deriving DecidableEq

/-- The request that is being issued. -/
inductive Issuing (κ : Type*) where
  | none
  /-- It has been sent. -/
  | issued (k : κ)
  /-- It has been entered in the table. -/
  | entered (k : κ)
  deriving DecidableEq

/-- The answer that is being handled. -/
inductive Answering (κ : Type*) where
  | none
  /-- It has been read. -/
  | read (k : κ)
  /-- The entry of its request has been taken. -/
  | taken (k : κ)
  deriving DecidableEq

/-- The books about requests: what the parties have entered in them. -/
structure Outstanding (κ : Type*) where
  entry : κ → Option Instant
  /-- The requests whose issue is over. -/
  counted : List κ
  issuing : Issuing κ
  answering : Answering κ
  /-- No more answers are read. -/
  closed : Bool
  now : Instant
  log : List (RequestEvent κ)

namespace Outstanding

variable {κ : Type*}

/-- An answer to `k` is read, no later than `timeout` after its issue. -/
def AnsweredInTime (timeout : Duration) (log : List (RequestEvent κ)) (k : κ) : Prop :=
  ∃ l t t', l ++ [.answered k t'] <+: log ∧ .issued k t ∈ l ∧ t' ≤ t + timeout

/-- The entry of the request has been made. -/
def Entered (o : Outstanding κ) (k : κ) : Prop := k ∈ o.counted ∨ o.issuing = .entered k

/-- What either side may do. -/
inductive Step [DecidableEq κ] (timeout : Duration) : Outstanding κ → Outstanding κ → Prop
  | tick {o} (t : Instant) (h : o.now ≤ t) : Step timeout o { o with now := t }
  | issue {o} (k : κ) (hidle : o.issuing = .none) (hfresh : k ∉ o.counted) :
      Step timeout o { o with issuing := .issued k, log := o.log ++ [.issued k o.now] }
  | enter {o} (k : κ) (hissued : o.issuing = .issued k) :
      Step timeout o { o with
        issuing := .entered k, entry := Function.update o.entry k (some o.now) }
  | count {o} (k : κ) (hentered : o.issuing = .entered k) :
      Step timeout o { o with issuing := .none, counted := o.counted ++ [k] }
  | read {o} (k : κ) (hidle : o.answering = .none) (hopen : o.closed = false) :
      Step timeout o { o with answering := .read k, log := o.log ++ [.answered k o.now] }
  | take {o} (k : κ) (hread : o.answering = .read k) (hentry : o.entry k ≠ none)
      (hissued : o.issuing ≠ .issued k) (hentered : o.issuing ≠ .entered k) :
      Step timeout o { o with answering := .taken k, entry := Function.update o.entry k none }
  | miss {o} (k : κ) (hread : o.answering = .read k) (hentry : o.entry k = none)
      (hissued : o.issuing ≠ .issued k) (hentered : o.issuing ≠ .entered k) :
      Step timeout o { o with answering := .none }
  | record {o} (k : κ) (htaken : o.answering = .taken k) :
      Step timeout o { o with answering := .none, log := o.log ++ [.recorded k] }
  | expire {o} (ks : List κ) (hidle : o.answering = .none)
      (hold : ∀ k ∈ ks, ∃ e, o.entry k = some e ∧ (e + timeout < o.now ∨ o.closed = true)) :
      Step timeout o { o with
        entry := fun k => if k ∈ ks then none else o.entry k
        log := o.log ++ ks.map .expired }
  | close {o} (hidle : o.answering = .none) : Step timeout o { o with closed := true }

/-- Of a request at any time. -/
structure Inv [DecidableEq κ] (timeout : Duration) (o : Outstanding κ) : Prop where
  counted_nodup : o.counted.Nodup
  issuing_fresh : ∀ k, o.issuing = .issued k ∨ o.issuing = .entered k → k ∉ o.counted
  issued : ∀ k t, .issued k t ∈ o.log →
    (k ∈ o.counted ∨ o.issuing = .issued k ∨ o.issuing = .entered k) ∧ t ≤ o.now
  entry_entered : ∀ k, o.entry k ≠ none → o.Entered k
  /-- An entry is made after its request has been issued. -/
  entry_le : ∀ k t e, o.entry k = some e → .issued k t ∈ o.log → t ≤ e
  recorded_counted : ∀ k, .recorded k ∈ o.log ∨ o.answering = .taken k → k ∈ o.counted
  expired_entered : ∀ k, .expired k ∈ o.log → o.Entered k
  /-- A request with an entry is still outstanding. -/
  entry_fresh : ∀ k, o.entry k ≠ none →
    .recorded k ∉ o.log ∧ o.answering ≠ .taken k ∧ .expired k ∉ o.log
  taken_fresh : ∀ k, o.answering = .taken k → .recorded k ∉ o.log
  recorded_le_one : ∀ k, o.log.count (.recorded k) ≤ 1
  /-- A request is outstanding, recorded or expired. -/
  covered : ∀ k, o.Entered k → o.entry k ≠ none ∨ .recorded k ∈ o.log ∨
    o.answering = .taken k ∨ .expired k ∈ o.log
  late : ∀ k t, .expired k ∈ o.log → .issued k t ∈ o.log → t + timeout < o.now ∨ o.closed = true
  closed_idle : o.closed = true → o.answering = .none
  /-- An answer in time is being handled or has been recorded. -/
  answered : ∀ k, AnsweredInTime timeout o.log k → .expired k ∉ o.log ∧
    (o.answering = .read k ∨ o.answering = .taken k ∨ .recorded k ∈ o.log)

/-! ## Answers in time -/

theorem answeredInTime_append_singleton {timeout : Duration} {log : List (RequestEvent κ)}
    {e : RequestEvent κ} {k : κ} : AnsweredInTime timeout (log ++ [e]) k ↔
      AnsweredInTime timeout log k ∨
        ∃ t t', e = .answered k t' ∧ .issued k t ∈ log ∧ t' ≤ t + timeout := by
  constructor
  · rintro ⟨l, t, t', hprefix, hissued, hle⟩
    rcases List.prefix_concat_iff.mp hprefix with heq | hprefix
    · obtain ⟨rfl, hlast⟩ := List.append_inj' heq rfl
      exact .inr ⟨t, t', (List.singleton_inj.mp hlast).symm, hissued, hle⟩
    · exact .inl ⟨l, t, t', hprefix, hissued, hle⟩
  · rintro (⟨l, t, t', hprefix, hissued, hle⟩ | ⟨t, t', rfl, hissued, hle⟩)
    · exact ⟨l, t, t', hprefix.trans (List.prefix_append _ _), hissued, hle⟩
    · exact ⟨log, t, t', List.prefix_refl _, hissued, hle⟩

/-- An event that is no answer answers nothing. -/
theorem answeredInTime_append_of_ne {timeout : Duration} {log : List (RequestEvent κ)}
    {e : RequestEvent κ} {k : κ} (he : ∀ t, e ≠ .answered k t) :
    AnsweredInTime timeout (log ++ [e]) k ↔ AnsweredInTime timeout log k := by
  rw [answeredInTime_append_singleton]
  exact or_iff_left fun ⟨_, t', heq, _⟩ => he t' heq

theorem answeredInTime_append_expired {timeout : Duration} {log : List (RequestEvent κ)}
    {ks : List κ} {k : κ} :
    AnsweredInTime timeout (log ++ ks.map .expired) k ↔ AnsweredInTime timeout log k := by
  induction ks using List.reverseRecOn with
  | nil => rw [List.map_nil, List.append_nil]
  | append_singleton ks k' ih =>
    rw [List.map_append, ← List.append_assoc, List.map_singleton,
      answeredInTime_append_of_ne (by simp), ih]

/-- What is answered has been issued. -/
theorem AnsweredInTime.issued {timeout : Duration} {log : List (RequestEvent κ)} {k : κ}
    (h : AnsweredInTime timeout log k) : ∃ t, .issued k t ∈ log := by
  obtain ⟨l, t, t', hprefix, hissued, -⟩ := h
  exact ⟨t, hprefix.subset (List.mem_append_left _ hissued)⟩

/-! ## One lemma for each step -/

section Steps

variable [DecidableEq κ] {timeout : Duration} {o : Outstanding κ} {k : κ}

theorem Inv.tick (h : o.Inv timeout) {t : Instant} (ht : o.now ≤ t) :
    Inv timeout { o with now := t } :=
  { h with
    issued := fun k t' hk => ⟨(h.issued k t' hk).1, (h.issued k t' hk).2.trans ht⟩
    late := fun k t' hexpired hk => (h.late k t' hexpired hk).imp_left fun hlt => hlt.trans_le ht }

/-- A request that is issued has left no trace before. -/
theorem Inv.issue (h : o.Inv timeout) (hidle : o.issuing = .none) (hfresh : k ∉ o.counted) :
    Inv timeout { o with issuing := .issued k, log := o.log ++ [.issued k o.now] } := by
  have hentered : ∀ k', o.Entered k' → k' ≠ k := by
    rintro k' (hk' | hk') rfl
    · exact hfresh hk'
    · rw [hidle] at hk'
      cases hk'
  have hkeeps : ∀ k', o.Entered k' →
      Entered { o with issuing := .issued k, log := o.log ++ [.issued k o.now] } k' := by
    rintro k' (hk' | hk')
    · exact .inl hk'
    · rw [hidle] at hk'
      cases hk'
  constructor
  case counted_nodup => exact h.counted_nodup
  case issuing_fresh =>
    rintro k' (⟨⟨⟩⟩ | ⟨⟨⟩⟩)
    exact hfresh
  case issued =>
    intro k' t hk'
    rcases List.mem_append.mp hk' with hk' | hk'
    · obtain ⟨hold, ht⟩ := h.issued k' t hk'
      simp only [hidle, reduceCtorEq, or_false] at hold
      exact ⟨.inl hold, ht⟩
    · cases List.mem_singleton.mp hk'
      exact ⟨.inr (.inl rfl), Nat.le_refl _⟩
  case entry_entered => exact fun k' hk' => hkeeps k' (h.entry_entered k' hk')
  case entry_le =>
    intro k' t e hentry hk'
    have hne := hentered k' (h.entry_entered k' (ne_of_eq_of_ne hentry (Option.some_ne_none e)))
    simp only [List.mem_append, List.mem_singleton, RequestEvent.issued.injEq, hne, false_and,
      or_false] at hk'
    exact h.entry_le k' t e hentry hk'
  case recorded_counted => simpa using h.recorded_counted
  case expired_entered => exact fun k' hk' => hkeeps k' (h.expired_entered k' (by simpa using hk'))
  case entry_fresh => simpa using h.entry_fresh
  case taken_fresh => simpa using h.taken_fresh
  case recorded_le_one => simpa [List.count_append] using h.recorded_le_one
  case covered =>
    intro k' hk'
    have hold : o.Entered k' := hk'.imp_right nofun
    simpa using h.covered k' hold
  case late =>
    intro k' t hexpired hk'
    simp only [List.mem_append, List.mem_singleton, reduceCtorEq, or_false] at hexpired
    have hne := hentered k' (h.expired_entered k' hexpired)
    simp only [List.mem_append, List.mem_singleton, RequestEvent.issued.injEq, hne, false_and,
      or_false] at hk'
    exact h.late k' t hexpired hk'
  case closed_idle => exact h.closed_idle
  case answered =>
    intro k' hk'
    rw [answeredInTime_append_of_ne (by simp)] at hk'
    simpa using h.answered k' hk'

/-- A request that is entered has left no trace but its issue. -/
theorem Inv.enter (h : o.Inv timeout) (hissued : o.issuing = .issued k) :
    Inv timeout
      { o with issuing := .entered k, entry := Function.update o.entry k (some o.now) } := by
  have hfresh : ¬ o.Entered k := by
    rintro (hk | hk)
    · exact h.issuing_fresh k (.inl hissued) hk
    · rw [hissued] at hk
      cases hk
  have hentered : ∀ k', Entered
      { o with issuing := .entered k, entry := Function.update o.entry k (some o.now) } k' ↔
        o.Entered k' ∨ k' = k := by
    intro k'
    unfold Entered
    simp only [hissued, Issuing.entered.injEq, reduceCtorEq, or_false, eq_comm]
  constructor
  case counted_nodup => exact h.counted_nodup
  case issuing_fresh =>
    rintro k' (⟨⟨⟩⟩ | ⟨⟨⟩⟩)
    exact h.issuing_fresh k (.inl hissued)
  case issued =>
    intro k' t hk'
    obtain ⟨hold, ht⟩ := h.issued k' t hk'
    simp only [hissued, Issuing.issued.injEq, reduceCtorEq, or_false] at hold
    exact ⟨hold.imp_right fun heq => .inr (by rw [heq]), ht⟩
  case entry_entered =>
    intro k' hk'
    rw [hentered]
    by_cases hkey : k' = k
    · exact .inr hkey
    · exact .inl (h.entry_entered k' (by simpa [hkey] using hk'))
  case entry_le =>
    intro k' t e hentry hk'
    by_cases hkey : k' = k
    · subst hkey
      simp only [Function.update_self, Option.some.injEq] at hentry
      exact hentry ▸ (h.issued k' t hk').2
    · exact h.entry_le k' t e (by simpa [hkey] using hentry) hk'
  case recorded_counted => exact h.recorded_counted
  case expired_entered => exact fun k' hk' => (hentered k').mpr (.inl (h.expired_entered k' hk'))
  case entry_fresh =>
    intro k' hk'
    by_cases hkey : k' = k
    · subst hkey
      exact ⟨fun hr => hfresh (.inl (h.recorded_counted k' (.inl hr))),
        fun ht => hfresh (.inl (h.recorded_counted k' (.inr ht))),
        fun he => hfresh (h.expired_entered k' he)⟩
    · exact h.entry_fresh k' (by simpa [hkey] using hk')
  case taken_fresh => exact h.taken_fresh
  case recorded_le_one => exact h.recorded_le_one
  case covered =>
    intro k' hk'
    by_cases hkey : k' = k
    · subst hkey
      exact .inl (by simp)
    · have hold := ((hentered k').mp hk').resolve_right hkey
      simpa [hkey] using h.covered k' hold
  case late => exact h.late
  case closed_idle => exact h.closed_idle
  case answered => exact h.answered

theorem Inv.count (h : o.Inv timeout) (hentered : o.issuing = .entered k) :
    Inv timeout { o with issuing := .none, counted := o.counted ++ [k] } := by
  have hsame : ∀ k', Entered { o with issuing := .none, counted := o.counted ++ [k] } k' ↔
      o.Entered k' := by
    intro k'
    unfold Entered
    simp only [hentered, List.mem_append, List.mem_singleton, Issuing.entered.injEq, reduceCtorEq,
      or_false, eq_comm]
  constructor
  case counted_nodup =>
    have hfresh := h.issuing_fresh k (.inr hentered)
    rw [List.nodup_append]
    refine ⟨h.counted_nodup, List.nodup_singleton k, ?_⟩
    rintro a ha b hb rfl
    rw [List.mem_singleton.mp hb] at ha
    exact hfresh ha
  case issuing_fresh => rintro k' (⟨⟨⟩⟩ | ⟨⟨⟩⟩)
  case issued =>
    intro k' t hk'
    obtain ⟨hold, ht⟩ := h.issued k' t hk'
    simp only [hentered, Issuing.entered.injEq, reduceCtorEq, false_or] at hold
    exact ⟨.inl (List.mem_append.mpr (hold.imp_right fun heq => by simp [heq])), ht⟩
  case entry_entered => exact fun k' hk' => (hsame k').mpr (h.entry_entered k' hk')
  case entry_le => exact h.entry_le
  case recorded_counted =>
    exact fun k' hk' => List.mem_append_left _ (h.recorded_counted k' hk')
  case expired_entered => exact fun k' hk' => (hsame k').mpr (h.expired_entered k' hk')
  case entry_fresh => exact h.entry_fresh
  case taken_fresh => exact h.taken_fresh
  case recorded_le_one => exact h.recorded_le_one
  case covered => exact fun k' hk' => h.covered k' ((hsame k').mp hk')
  case late => exact h.late
  case closed_idle => exact h.closed_idle
  case answered => exact h.answered

/-- An answer that is read in time comes before its request expires. -/
theorem Inv.read (h : o.Inv timeout) (hidle : o.answering = .none) (hopen : o.closed = false) :
    Inv timeout { o with answering := .read k, log := o.log ++ [.answered k o.now] } := by
  constructor
  case counted_nodup => exact h.counted_nodup
  case issuing_fresh => exact h.issuing_fresh
  case issued => simpa using h.issued
  case entry_entered => exact h.entry_entered
  case entry_le => simpa using h.entry_le
  case recorded_counted => simpa [hidle] using h.recorded_counted
  case expired_entered => exact fun k' hk' => h.expired_entered k' (by simpa using hk')
  case entry_fresh => simpa [hidle] using h.entry_fresh
  case taken_fresh => simp
  case recorded_le_one => simpa [List.count_append] using h.recorded_le_one
  case covered =>
    intro k' hk'
    have hold := h.covered k' hk'
    simpa [hidle] using hold
  case late => simpa using h.late
  case closed_idle => simp [hopen]
  case answered =>
    intro k' hk'
    simp only [List.mem_append, List.mem_singleton, reduceCtorEq, or_false, false_or]
    rcases answeredInTime_append_singleton.mp hk' with hold | ⟨t, t', heq, hissued, hle⟩
    · obtain ⟨hexpired, hhandled⟩ := h.answered k' hold
      simp only [hidle, reduceCtorEq, false_or] at hhandled
      exact ⟨hexpired, .inr hhandled⟩
    · cases heq
      refine ⟨fun hexpired => ?_, .inl rfl⟩
      rcases h.late k t hexpired hissued with hlate | hclosed
      · exact absurd hle (Nat.not_le.mpr hlate)
      · rw [hopen] at hclosed
        cases hclosed

/-- The entry of a request whose issue is over is taken. -/
theorem Inv.take (h : o.Inv timeout) (hread : o.answering = .read k) (hentry : o.entry k ≠ none)
    (hentered : o.issuing ≠ .entered k) :
    Inv timeout { o with answering := .taken k, entry := Function.update o.entry k none } := by
  have hcounted : k ∈ o.counted := (h.entry_entered k hentry).resolve_right hentered
  obtain ⟨hrecorded, -, hexpired⟩ := h.entry_fresh k hentry
  constructor
  case counted_nodup => exact h.counted_nodup
  case issuing_fresh => exact h.issuing_fresh
  case issued => exact h.issued
  case entry_entered =>
    intro k' hk'
    by_cases hkey : k' = k
    · exact .inl (hkey ▸ hcounted)
    · exact h.entry_entered k' (by simpa [hkey] using hk')
  case entry_le =>
    intro k' t e hk' hissued
    by_cases hkey : k' = k
    · simp [hkey] at hk'
    · exact h.entry_le k' t e (by simpa [hkey] using hk') hissued
  case recorded_counted =>
    rintro k' (hk' | ⟨⟨⟩⟩)
    · exact h.recorded_counted k' (.inl hk')
    · exact hcounted
  case expired_entered => exact h.expired_entered
  case entry_fresh =>
    intro k' hk'
    by_cases hkey : k' = k
    · simp [hkey] at hk'
    · obtain ⟨hr, -, he⟩ := h.entry_fresh k' (by simpa [hkey] using hk')
      exact ⟨hr, by simpa using Ne.symm hkey, he⟩
  case taken_fresh =>
    rintro k' ⟨⟩
    exact hrecorded
  case recorded_le_one => exact h.recorded_le_one
  case covered =>
    intro k' hk'
    by_cases hkey : k' = k
    · exact .inr (.inr (.inl (by rw [hkey])))
    · have hold := h.covered k' hk'
      simp only [hread, reduceCtorEq, false_or] at hold
      simpa [hkey, Ne.symm hkey] using hold
  case late => exact h.late
  case closed_idle =>
    intro hclosed
    rw [h.closed_idle hclosed] at hread
    cases hread
  case answered =>
    intro k' hk'
    obtain ⟨hexpired', hhandled⟩ := h.answered k' hk'
    refine ⟨hexpired', ?_⟩
    simp only [hread, Answering.read.injEq, reduceCtorEq, false_or] at hhandled
    rcases hhandled with rfl | hrecorded'
    · exact .inr (.inl rfl)
    · exact .inr (.inr hrecorded')

/-- An answer finds nothing only if its request has been recorded or has expired before. -/
theorem Inv.miss (h : o.Inv timeout) (hread : o.answering = .read k) (hentry : o.entry k = none)
    (hissued : o.issuing ≠ .issued k) (hentered : o.issuing ≠ .entered k) :
    Inv timeout { o with answering := .none } := by
  constructor
  case counted_nodup => exact h.counted_nodup
  case issuing_fresh => exact h.issuing_fresh
  case issued => exact h.issued
  case entry_entered => exact h.entry_entered
  case entry_le => exact h.entry_le
  case recorded_counted =>
    exact fun k' hk' => h.recorded_counted k' (.inl (hk'.resolve_right nofun))
  case expired_entered => exact h.expired_entered
  case entry_fresh =>
    exact fun k' hk' => ⟨(h.entry_fresh k' hk').1, nofun, (h.entry_fresh k' hk').2.2⟩
  case taken_fresh => exact fun _ => nofun
  case recorded_le_one => exact h.recorded_le_one
  case covered =>
    intro k' hk'
    have hold := h.covered k' hk'
    simpa [hread] using hold
  case late => exact h.late
  case closed_idle => exact fun _ => rfl
  case answered =>
    intro k' hk'
    obtain ⟨hexpired, hhandled⟩ := h.answered k' hk'
    refine ⟨hexpired, .inr (.inr ?_)⟩
    simp only [hread, Answering.read.injEq, reduceCtorEq, false_or] at hhandled
    rcases hhandled with rfl | hrecorded
    · obtain ⟨t, ht⟩ := hk'.issued
      have hcounted : k ∈ o.counted :=
        (h.issued k t ht).1.resolve_right (not_or.mpr ⟨hissued, hentered⟩)
      rcases h.covered k (.inl hcounted) with hsome | hrecorded | htaken | hold
      · exact absurd hentry hsome
      · exact hrecorded
      · rw [hread] at htaken
        cases htaken
      · exact absurd hold hexpired
    · exact hrecorded

theorem Inv.record (h : o.Inv timeout) (htaken : o.answering = .taken k) :
    Inv timeout { o with answering := .none, log := o.log ++ [.recorded k] } := by
  have hcounted : k ∈ o.counted := h.recorded_counted k (.inr htaken)
  have hmem : ∀ k', .recorded k' ∈ o.log ++ [.recorded k] ↔ .recorded k' ∈ o.log ∨ k' = k := by
    simp
  constructor
  case counted_nodup => exact h.counted_nodup
  case issuing_fresh => exact h.issuing_fresh
  case issued => simpa using h.issued
  case entry_entered => exact h.entry_entered
  case entry_le => simpa using h.entry_le
  case recorded_counted =>
    rintro k' (hk' | ⟨⟨⟩⟩)
    rcases (hmem k').mp hk' with hk' | rfl
    · exact h.recorded_counted k' (.inl hk')
    · exact hcounted
  case expired_entered => exact fun k' hk' => h.expired_entered k' (by simpa using hk')
  case entry_fresh =>
    intro k' hk'
    obtain ⟨hr, ht, he⟩ := h.entry_fresh k' hk'
    refine ⟨fun hk'' => ?_, nofun, by simpa using he⟩
    rcases (hmem k').mp hk'' with hk'' | rfl
    · exact hr hk''
    · exact ht htaken
  case taken_fresh => exact fun _ => nofun
  case recorded_le_one =>
    intro k'
    rw [List.count_append]
    by_cases hkey : k' = k
    · subst hkey
      rw [List.count_eq_zero.mpr (h.taken_fresh k' htaken)]
      simp
    · simpa [Ne.symm hkey] using h.recorded_le_one k'
  case covered =>
    intro k' hk'
    have hold := h.covered k' hk'
    simp only [htaken, Answering.taken.injEq] at hold
    rcases hold with hentry | hr | rfl | he
    · exact .inl hentry
    · exact .inr (.inl ((hmem k').mpr (.inl hr)))
    · exact .inr (.inl ((hmem k).mpr (.inr rfl)))
    · exact .inr (.inr (.inr (by simpa using he)))
  case late => simpa using h.late
  case closed_idle => exact fun _ => rfl
  case answered =>
    intro k' hk'
    rw [answeredInTime_append_of_ne (by simp)] at hk'
    obtain ⟨hexpired, hhandled⟩ := h.answered k' hk'
    refine ⟨by simpa using hexpired, .inr (.inr ((hmem k').mpr ?_))⟩
    simp only [htaken, Answering.taken.injEq, reduceCtorEq, false_or] at hhandled
    exact hhandled.symm.imp_right Eq.symm

/-- What expires has not been answered in time. -/
theorem Inv.expire (h : o.Inv timeout) {ks : List κ} (hidle : o.answering = .none)
    (hold : ∀ k ∈ ks, ∃ e, o.entry k = some e ∧ (e + timeout < o.now ∨ o.closed = true)) :
    Inv timeout { o with
      entry := fun k => if k ∈ ks then none else o.entry k
      log := o.log ++ ks.map .expired } := by
  have hsome : ∀ k ∈ ks, o.entry k ≠ none := by
    intro k hk
    obtain ⟨e, he, -⟩ := hold k hk
    rw [he]
    exact Option.some_ne_none e
  have hentry : ∀ k', (if k' ∈ ks then none else o.entry k') ≠ none ↔
      k' ∉ ks ∧ o.entry k' ≠ none := by
    intro k'
    by_cases hk' : k' ∈ ks <;> simp [hk']
  have hmem : ∀ k', .expired k' ∈ o.log ++ ks.map .expired ↔ .expired k' ∈ o.log ∨ k' ∈ ks := by
    simp
  constructor
  case counted_nodup => exact h.counted_nodup
  case issuing_fresh => exact h.issuing_fresh
  case issued => simpa using h.issued
  case entry_entered => exact fun k' hk' => h.entry_entered k' ((hentry k').mp hk').2
  case entry_le =>
    intro k' t e hk' hissued
    have hnot : k' ∉ ks := ((hentry k').mp (ne_of_eq_of_ne hk' (Option.some_ne_none e))).1
    exact h.entry_le k' t e (by simpa [hnot] using hk') (by simpa using hissued)
  case recorded_counted => simpa using h.recorded_counted
  case expired_entered =>
    intro k' hk'
    rcases (hmem k').mp hk' with hk' | hk'
    · exact h.expired_entered k' hk'
    · exact h.entry_entered k' (hsome k' hk')
  case entry_fresh =>
    intro k' hk'
    obtain ⟨hnot, hk'⟩ := (hentry k').mp hk'
    obtain ⟨hr, ht, he⟩ := h.entry_fresh k' hk'
    exact ⟨by simpa using hr, ht, fun hk'' => ((hmem k').mp hk'').elim he hnot⟩
  case taken_fresh => simpa using h.taken_fresh
  case recorded_le_one =>
    intro k'
    have hzero : (ks.map RequestEvent.expired).count (.recorded k') = 0 :=
      List.count_eq_zero.mpr (by simp)
    rw [List.count_append, hzero]
    exact h.recorded_le_one k'
  case covered =>
    intro k' hk'
    by_cases hin : k' ∈ ks
    · exact .inr (.inr (.inr ((hmem k').mpr (.inr hin))))
    · have hcovered := h.covered k' hk'
      simpa [hin] using hcovered
  case late =>
    intro k' t hexpired hissued
    have hissued' : .issued k' t ∈ o.log := by simpa using hissued
    rcases (hmem k').mp hexpired with hexpired | hin
    · exact h.late k' t hexpired hissued'
    · obtain ⟨e, he, hlate⟩ := hold k' hin
      have hle := h.entry_le k' t e he hissued'
      exact hlate.imp_left fun hlt => (Nat.add_le_add_right hle timeout).trans_lt hlt
  case closed_idle => exact h.closed_idle
  case answered =>
    intro k' hk'
    rw [answeredInTime_append_expired] at hk'
    obtain ⟨hexpired, hhandled⟩ := h.answered k' hk'
    simp only [hidle, reduceCtorEq, false_or] at hhandled
    refine ⟨fun hk'' => ?_, .inr (.inr (List.mem_append_left _ hhandled))⟩
    rcases (hmem k').mp hk'' with hold' | hin
    · exact hexpired hold'
    · exact (h.entry_fresh k' (hsome k' hin)).1 hhandled

theorem Inv.close (h : o.Inv timeout) (hidle : o.answering = .none) :
    Inv timeout { o with closed := true } :=
  { h with
    late := fun _ _ _ _ => .inr rfl
    closed_idle := fun _ => hidle }

/-- Whatever either side does keeps the invariant. -/
theorem Inv.step {o' : Outstanding κ} (h : o.Inv timeout) (hstep : Step timeout o o') :
    o'.Inv timeout := by
  cases hstep with
  | tick t ht => exact h.tick ht
  | issue k hidle hfresh => exact h.issue hidle hfresh
  | enter k hissued => exact h.enter hissued
  | count k hentered => exact h.count hentered
  | read k hidle hopen => exact h.read hidle hopen
  | take k hread hentry _ hentered => exact h.take hread hentry hentered
  | miss k hread hentry hissued hentered => exact h.miss hread hentry hissued hentered
  | record k htaken => exact h.record htaken
  | expire ks hidle hold => exact h.expire hidle hold
  | close hidle => exact h.close hidle

end Steps

/-! ## What the invariant says -/

/-- The requests that have been recorded. -/
def recorded (log : List (RequestEvent κ)) : List κ :=
  log.filterMap fun
    | .recorded k => some k
    | _ => none

theorem recorded_append (log es : List (RequestEvent κ)) :
    recorded (log ++ es) = recorded log ++ recorded es := List.filterMap_append

theorem recorded_map_expired (ks : List κ) : recorded (ks.map .expired) = [] := by
  simp [recorded, List.filterMap_map]

section Results

variable [DecidableEq κ] {timeout : Duration} {o : Outstanding κ} {k : κ}

theorem count_recorded (log : List (RequestEvent κ)) (k : κ) :
    (recorded log).count k = log.count (.recorded k) := by
  induction log with
  | nil => rfl
  | cons e log ih =>
    unfold recorded at ih ⊢
    cases e <;> simp [ih, List.count_cons]

/-- No more requests are recorded than counted. -/
theorem Inv.recorded_le (h : o.Inv timeout) : (recorded o.log).length ≤ o.counted.length := by
  have hnodup : (recorded o.log).Nodup := by
    rw [List.nodup_iff_count_le_one]
    intro k
    rw [count_recorded]
    exact h.recorded_le_one k
  refine (List.subperm_of_subset hnodup fun k hk => ?_).length_le
  have hcount : 0 < o.log.count (.recorded k) := by
    rw [← count_recorded]
    exact List.count_pos_iff.mpr hk
  exact h.recorded_counted k (.inl (List.count_pos_iff.mp hcount))

/-- A request that is answered in time never expires, and is recorded once when the answer
has been handled. -/
theorem Inv.recorded_once (h : o.Inv timeout) (hk : AnsweredInTime timeout o.log k) :
    .expired k ∉ o.log ∧ o.log.count (.recorded k) ≤ 1 ∧
    (o.answering ≠ .read k → o.answering ≠ .taken k → o.log.count (.recorded k) = 1) := by
  obtain ⟨hexpired, hhandled⟩ := h.answered k hk
  refine ⟨hexpired, h.recorded_le_one k, fun hread htaken => ?_⟩
  have hrecorded := (hhandled.resolve_left hread).resolve_left htaken
  exact Nat.le_antisymm (h.recorded_le_one k) (List.count_pos_iff.mpr hrecorded)

end Results

end Outstanding
end PpcaNetwork
