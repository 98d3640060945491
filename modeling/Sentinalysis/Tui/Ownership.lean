/-
# Sentinalysis.Tui.Ownership — whose entries are on screen.

A source is a kind and a name; the cache knows names only.  A virtual host and a system log may have
the same name, and then share a place in the cache.  A load puts there what belongs to the source
that is switched to; one that fails leaves there what the other source has left.
-/
import Sentinalysis.Tui.HostList
import Sentinalysis.Tui.ViewerState

namespace Sentinalysis.Tui.Ownership

open Lib Db LogScanner

/-- The viewer, and for each source every entry that the data source has returned for it. -/
structure State where
  viewer : Viewer
  returned : Source → List DisplayLogEntry := fun _ => []

/-- What the data source answers to the question of an action, and for which source. -/
def answer (viewer : Viewer) (action : Action) (moment : Moment) :
    Option (Source × List DisplayLogEntry) :=
  if viewer.filterMode then none
  else match action with
    | .Refresh => match viewer.refreshTarget with
      | none => none
      | some source => match moment.data.recent source maxEntriesPerHost with
        | .ok entries => some (source, entries)
        | .error _ => none
    | .Tick => match viewer.pollTarget moment.now with
      | none => none
      | some source => match viewer.logEntries source.name with
        | some (newest :: _) =>
          match moment.data.newer source newest.timestamp newest.id newEntriesPerPoll with
          | .ok entries => some (source, entries)
          | .error _ => none
        | _ => none
    | _ => none

/-- An answer is remembered. -/
def remember (returned : Source → List DisplayLogEntry) :
    Option (Source × List DisplayLogEntry) → Source → List DisplayLogEntry
  | none => returned
  | some (source, entries) => Function.update returned source (returned source ++ entries)

/-- A viewer after `init`, which asks for the first virtual host. -/
def opened (pollInterval : ℕ) (sources : Except SentinelError (List SourceInfo))
    (data : LogDataSource) : State :=
  let viewer := ((Viewer.new.withPollInterval pollInterval).init sources data).2
  { viewer := viewer
    returned := match viewer.selectedSource with
      | none => fun _ => []
      | some source => match data.recent source maxEntriesPerHost with
        | .ok entries => remember (fun _ => []) (some (source, entries))
        | .error _ => fun _ => [] }

/-- A session that is watched. -/
def watched (u : Unicode) : Machine State Label where
  step s
    | .action action moment => some
      { viewer := s.viewer.handleAction action moment
        returned := remember s.returned (answer s.viewer action moment) }
    | .draw => some { s with viewer := s.viewer.draw u }

/-- Watching changes nothing of the session. -/
theorem session_of_watched {u : Unicode} {s t : State} {labels : List Label}
    (hrun : (watched u).Run s labels t) : (session u).Run s.viewer labels t.viewer := by
  induction hrun with
  | nil => exact .nil
  | @snoc labels t label after _ hstep ih =>
    refine ih.snoc (a := label) ?_
    cases label with
    | action action moment =>
      obtain rfl := Option.some.inj hstep
      rfl
    | draw =>
      obtain rfl := Option.some.inj hstep
      rfl

/-- Every entry that is cached for the selected source was returned for it. -/
def OwnEntries (s : State) : Prop :=
  ∀ source, s.viewer.selectedSource = some source →
    ∀ entry ∈ s.viewer.cached source, entry ∈ s.returned source

/-- A switch whose load fails finds nothing in the cache that was not returned for its source. -/
def FindsOwn (s : State) : Label → Prop
  | .action .Refresh moment => s.viewer.filterMode = false →
    ∀ source, s.viewer.refreshTarget = some source →
      ∀ e, moment.data.recent source maxEntriesPerHost = .error e →
        ∀ entry ∈ s.viewer.cached source, entry ∈ s.returned source
  | _ => True

/-! ## What is remembered -/

theorem subset_remember (returned : Source → List DisplayLogEntry)
    (answer : Option (Source × List DisplayLogEntry)) (source : Source) :
    returned source ⊆ remember returned answer source := by
  cases answer with
  | none => exact List.Subset.refl _
  | some pair =>
    obtain ⟨asked, entries⟩ := pair
    by_cases hsource : source = asked
    · subst hsource
      simp only [remember, Function.update_self]
      exact List.subset_append_left _ _
    · simp only [remember, Function.update_of_ne hsource]
      exact List.Subset.refl _

theorem mem_remember (returned : Source → List DisplayLogEntry) (source : Source)
    {entries : List DisplayLogEntry} {entry : DisplayLogEntry} (h : entry ∈ entries) :
    entry ∈ remember returned (some (source, entries)) source := by
  simp only [remember, Function.update_self]
  exact List.mem_append_right _ h

section Answers

variable {viewer : Viewer} {moment : Moment} {source : Source}

theorem answer_switch (hmode : viewer.filterMode = false)
    (htarget : viewer.refreshTarget = some source) : answer viewer .Refresh moment
      = match moment.data.recent source maxEntriesPerHost with
        | .ok entries => some (source, entries)
        | .error _ => none := by
  unfold answer
  rw [hmode, if_neg Bool.false_ne_true]
  simp only [htarget]

theorem answer_poll (hmode : viewer.filterMode = false)
    (htarget : viewer.pollTarget moment.now = some source) {newest : DisplayLogEntry}
    {rest entries : List DisplayLogEntry}
    (hcached : viewer.logEntries source.name = some (newest :: rest))
    (hnewer : moment.data.newer source newest.timestamp newest.id newEntriesPerPoll = .ok entries) :
    answer viewer .Tick moment = some (source, entries) := by
  unfold answer
  rw [hmode, if_neg Bool.false_ne_true]
  simp only [htarget, hcached, hnewer]

end Answers

/-! ## One step -/

/-- A step that finds its own entries keeps them. -/
theorem OwnEntries.step {u : Unicode} {s t : State} {label : Label} (hown : OwnEntries s)
    (hfinds : FindsOwn s label) (hstep : (watched u).step s label = some t) : OwnEntries t := by
  cases label with
  | draw =>
    obtain rfl := Option.some.inj hstep
    exact hown
  | action action moment =>
    obtain rfl := Option.some.inj hstep
    intro shown hshown entry hentry
    dsimp only at hshown hentry ⊢
    rcases s.viewer.handleAction_cases action moment with
      hmoves | ⟨source, rfl, hmode, htarget, heq⟩ | ⟨source, rfl, hmode, htarget, heq⟩
    · rw [hmoves.selectedSource] at hshown
      rw [LogViewer.cached, hmoves.logEntries] at hentry
      exact subset_remember _ _ _ (hown shown hshown entry hentry)
    · rw [heq] at hshown hentry
      rw [answer_switch hmode htarget]
      rcases s.viewer.switchTo_cases moment.data source with
        ⟨e, hrecent, heq⟩ | ⟨entries, hrecent, heq⟩
      · -- the load failed, the cache is as it was
        rw [heq] at hshown hentry
        obtain rfl : source = shown := Option.some.inj hshown
        exact subset_remember _ _ _ (hfinds hmode source htarget e hrecent entry hentry)
      · rw [heq] at hshown hentry
        obtain rfl : source = shown := Option.some.inj hshown
        simp only [LogViewer.cached, Function.update_self, Option.getD_some] at hentry
        rw [hrecent]
        exact mem_remember _ _ hentry
    · have hselected := Viewer.selectedSource_of_pollTarget htarget
      rw [heq] at hshown hentry
      rcases s.viewer.poll_cases moment source with
        ⟨heq, -⟩ | ⟨newest, rest, entries, hcached, hnewer, heq⟩
      · rw [heq] at hshown hentry
        exact subset_remember _ _ _ (hown shown hshown entry hentry)
      · rw [heq] at hshown hentry
        obtain rfl : source = shown := Option.some.inj (hselected.symm.trans hshown)
        simp only [LogViewer.cached, Function.update_self, Option.getD_some] at hentry
        rw [answer_poll hmode htarget hcached hnewer]
        rcases List.mem_append.mp (List.mem_of_mem_take hentry) with hnew | hold
        · exact mem_remember _ _ hnew
        · refine subset_remember _ _ _ (hown source hselected entry ?_)
          rw [LogViewer.cached, hcached]
          exact hold

/-- A switch that shows own entries only has found them. -/
theorem findsOwn_of_ownEntries {u : Unicode} {s t : State} {label : Label}
    (hstep : (watched u).step s label = some t) (hown : OwnEntries t) : FindsOwn s label := by
  unfold FindsOwn
  split
  · rename_i moment
    obtain rfl := Option.some.inj hstep
    intro hmode source htarget e hrecent entry hentry
    have hswitch : s.viewer.handleAction .Refresh moment = s.viewer.switchTo moment.data source := by
      unfold Viewer.handleAction
      rw [hmode, if_neg Bool.false_ne_true]
      simp only [htarget]
    have hfailed : s.viewer.switchTo moment.data source
        = { s.viewer with selectedSource := some source, logState := some 0 } := by
      rcases s.viewer.switchTo_cases moment.data source with ⟨_, -, heq⟩ | ⟨entries, hok, -⟩
      · exact heq
      · rw [hrecent] at hok
        cases hok
    have hreturned := hown source
    dsimp only at hreturned
    rw [hswitch, hfailed, answer_switch hmode htarget, hrecent] at hreturned
    exact hreturned rfl entry hentry
  · trivial

/-! ## Sessions -/

/-- After `init` the list is what the first load returned. -/
theorem ownEntries_opened (pollInterval : ℕ) (sources : Except SentinelError (List SourceInfo))
    (data : LogDataSource) : OwnEntries (opened pollInterval sources data) := by
  intro source hselected entry hentry
  unfold opened at hselected hentry ⊢
  dsimp only at hselected hentry ⊢
  rw [hselected]
  obtain ⟨virtualHosts, systemLogs, -, heq | ⟨first, -, heq⟩⟩ :=
    Viewer.init_cases pollInterval sources data
  · rw [heq] at hselected
    cases hselected
  · rw [heq] at hselected hentry
    rcases Viewer.switchTo_cases _ data first.source with ⟨e, -, heq⟩ | ⟨entries, hrecent, heq⟩
    · -- nothing was cached before
      rw [heq] at hentry
      exact absurd hentry List.not_mem_nil
    · rw [heq] at hselected hentry
      obtain rfl : first.source = source := Option.some.inj hselected
      simp only [LogViewer.cached, Function.update_self, Option.getD_some] at hentry
      simp only [hrecent]
      exact mem_remember _ _ hentry

/-! ## When no name is used twice -/

/-- Sources of the same name are the same. -/
def NoNamesakes (infos : List SourceInfo) : Prop :=
  ∀ a ∈ infos, ∀ b ∈ infos, a.source.name = b.source.name → a.source = b.source

instance (infos : List SourceInfo) : Decidable (NoNamesakes infos) :=
  inferInstanceAs (Decidable (∀ a ∈ infos, ∀ b ∈ infos, _))

/-- The names tell the listed sources apart, the one that is selected is listed, and what is cached
for each of them was returned for it. -/
structure OwnCache (s : State) : Prop where
  noNamesakes : NoNamesakes s.viewer.listed
  selected : ∀ source, s.viewer.selectedSource = some source →
    ∃ info ∈ s.viewer.listed, info.source = source
  own : ∀ info ∈ s.viewer.listed, ∀ entry ∈ s.viewer.cached info.source,
    entry ∈ s.returned info.source

section OwnCache

variable {u : Unicode} {s t : State} {info : SourceInfo}

theorem OwnCache.ownEntries (h : OwnCache s) : OwnEntries s := by
  intro source hselected
  obtain ⟨info, hinfo, rfl⟩ := h.selected source hselected
  exact h.own info hinfo

/-- The cache is as it was. -/
theorem OwnCache.of_eq (h : OwnCache s) (hlisted : t.viewer.listed = s.viewer.listed)
    (hcache : t.viewer.logEntries = s.viewer.logEntries)
    (hselected : ∀ source, t.viewer.selectedSource = some source →
      ∃ info ∈ s.viewer.listed, info.source = source)
    (hreturned : ∀ source, s.returned source ⊆ t.returned source) : OwnCache t where
  noNamesakes := hlisted ▸ h.noNamesakes
  selected := hlisted ▸ hselected
  own other hother entry hentry := by
    rw [hlisted] at hother
    rw [LogViewer.cached, hcache] at hentry
    exact hreturned _ (h.own other hother entry hentry)

/-- One list is replaced by what was returned for its source: it is the list of no other source. -/
theorem OwnCache.of_update (h : OwnCache s) (hinfo : info ∈ s.viewer.listed)
    {entries : List DisplayLogEntry} (hlisted : t.viewer.listed = s.viewer.listed)
    (hcache : t.viewer.logEntries
      = Function.update s.viewer.logEntries info.source.name (some entries))
    (hselected : t.viewer.selectedSource = some info.source)
    (hreturned : ∀ source, s.returned source ⊆ t.returned source)
    (hentries : entries ⊆ t.returned info.source) : OwnCache t where
  noNamesakes := hlisted ▸ h.noNamesakes
  selected source hsource :=
    ⟨info, hlisted ▸ hinfo, Option.some.inj (hselected.symm.trans hsource)⟩
  own other hother entry hentry := by
    rw [hlisted] at hother
    rw [LogViewer.cached, hcache] at hentry
    by_cases hname : other.source.name = info.source.name
    · rw [h.noNamesakes other hother info hinfo hname, Function.update_self,
        Option.getD_some] at hentry
      rw [h.noNamesakes other hother info hinfo hname]
      exact hentries hentry
    · rw [Function.update_of_ne hname] at hentry
      exact hreturned _ (h.own other hother entry hentry)

/-- A switch to a source that is listed, when what its load returns is remembered. -/
theorem OwnCache.switchTo (h : OwnCache s) (hinfo : info ∈ s.viewer.listed) (data : LogDataSource)
    {returned : Source → List DisplayLogEntry}
    (hreturned : ∀ source, s.returned source ⊆ returned source)
    (hentries : ∀ entries, data.recent info.source maxEntriesPerHost = .ok entries →
      entries ⊆ returned info.source) :
    OwnCache ⟨s.viewer.switchTo data info.source, returned⟩ := by
  rcases s.viewer.switchTo_cases data info.source with ⟨e, -, heq⟩ | ⟨entries, hrecent, heq⟩
  · rw [heq]
    refine h.of_eq rfl rfl (fun source hsource => ⟨info, hinfo, ?_⟩) hreturned
    exact Option.some.inj hsource
  · rw [heq]
    exact h.of_update hinfo rfl rfl rfl hreturned (hentries entries hrecent)

theorem OwnCache.step {label : Label} (h : OwnCache s)
    (hstep : (watched u).step s label = some t) : OwnCache t := by
  cases label with
  | draw =>
    obtain rfl := Option.some.inj hstep
    exact h.of_eq rfl rfl h.selected fun _ => List.Subset.refl _
  | action action moment =>
    obtain rfl := Option.some.inj hstep
    have hreturned := subset_remember s.returned (answer s.viewer action moment)
    rcases s.viewer.handleAction_cases action moment with
      hmoves | ⟨source, rfl, hmode, htarget, heq⟩ | ⟨source, rfl, hmode, htarget, heq⟩
    · refine h.of_eq ?_ hmoves.logEntries ?_ hreturned
      · show _ ++ _ = _ ++ _
        rw [hmoves.virtualHosts, hmoves.systemLogs]
      · rw [hmoves.selectedSource]
        exact h.selected
    · obtain ⟨info, hinfo, rfl⟩ := Viewer.exists_listed_of_refreshTarget htarget
      rw [heq]
      refine h.switchTo hinfo moment.data hreturned fun entries hrecent entry hentry => ?_
      rw [answer_switch hmode htarget, hrecent]
      exact mem_remember _ _ hentry
    · have hselected := Viewer.selectedSource_of_pollTarget htarget
      obtain ⟨info, hinfo, rfl⟩ := h.selected source hselected
      rw [heq]
      rcases s.viewer.poll_cases moment info.source with
        ⟨heq, -⟩ | ⟨newest, rest, entries, hcached, hnewer, heq⟩
      · rw [heq]
        exact h.of_eq rfl rfl h.selected hreturned
      · rw [heq]
        refine h.of_update hinfo rfl rfl hselected hreturned fun entry hentry => ?_
        rcases List.mem_append.mp (List.mem_of_mem_take hentry) with hnew | hold
        · rw [answer_poll hmode htarget hcached hnewer]
          exact mem_remember _ _ hnew
        · refine hreturned _ (h.own info hinfo entry ?_)
          rw [LogViewer.cached, hcached]
          exact hold

theorem ownCache_opened {pollInterval : ℕ} {sources : Except SentinelError (List SourceInfo)}
    (data : LogDataSource) (hnames : NoNamesakes (sources.toOption.getD [])) :
    OwnCache (opened pollInterval sources data) := by
  obtain ⟨virtualHosts, systemLogs, hsubset, hinit⟩ :=
    Viewer.init_cases pollInterval sources data
  have hnew : OwnCache ⟨{ Viewer.new.withPollInterval pollInterval with
      virtualHosts := virtualHosts, systemLogs := systemLogs }, fun _ => []⟩ :=
    ⟨fun a ha b hb => hnames a (hsubset ha) b (hsubset hb), fun _ h => (by cases h),
      fun _ _ _ h => (by cases h)⟩
  unfold opened
  rcases hinit with heq | ⟨first, hfirst, heq⟩
  · rw [heq]
    exact hnew
  · have hselected : (Viewer.switchTo { Viewer.new.withPollInterval pollInterval with
        virtualHosts := virtualHosts, systemLogs := systemLogs } data first.source).selectedSource
          = some first.source := by
      rcases Viewer.switchTo_cases _ data first.source with ⟨e, -, hswitch⟩ | ⟨_, -, hswitch⟩ <;>
        rw [hswitch]
    simp only [heq, hselected]
    refine hnew.switchTo (List.mem_append_left _ hfirst) data (fun _ => List.nil_subset _) ?_
    intro entries hrecent entry hentry
    simp only [hrecent]
    exact mem_remember _ _ hentry

end OwnCache

/-- **The viewer shows what belongs to its source** throughout a session exactly when no load fails
that would have had to replace the entries of another source.  So it is in every session over
sources of different names. -/
theorem ownEntries_iff_findsOwn {u : Unicode} {pollInterval : ℕ}
    {sources : Except SentinelError (List SourceInfo)} {data : LogDataSource}
    {labels : List Label} {s : State}
    (hrun : (watched u).Run (opened pollInterval sources data) labels s) :
    ((watched u).Always OwnEntries (opened pollInterval sources data) labels ↔
      (watched u).Along FindsOwn (opened pollInterval sources data) labels) ∧
    (NoNamesakes (sources.toOption.getD []) →
      (watched u).Always OwnEntries (opened pollInterval sources data) labels) := by
  constructor
  · refine hrun.always_iff_along_of_keep (J := OwnEntries)
      (ownEntries_opened pollInterval sources data) ?_ (fun _ => id) ?_
    · intro labels before label after _ hown hfinds hstep
      exact hown.step hfinds hstep
    · intro labels before label after _ hstep hown
      exact findsOwn_of_ownEntries hstep hown
  · intro hnames before after t _ hbefore
    exact (hbefore.invariant (ownCache_opened data hnames)
      fun _ _ _ h hstep => h.step hstep).ownEntries

/-! ## A virtual host and a system log of the same name -/

/-- Both are called `auth.log`; there is an entry for the first of them. -/
def namesakes : Except SentinelError (List SourceInfo) :=
  .ok [⟨.vhost "auth.log", 1⟩, ⟨.systemLog "auth.log", 0⟩]

/-- A data source that does not answer. -/
def silentData : LogDataSource where
  recent _ _ := .error (.DatabaseError "connection closed")
  newer _ _ _ _ := .error (.DatabaseError "connection closed")

/-- The user goes down to the system log and opens it. -/
def openSystemLog (data : LogDataSource) : List Label :=
  [.action .SelectDown ⟨data, 0, 0⟩, .action .SelectDown ⟨data, 0, 0⟩,
    .action .SelectDown ⟨data, 0, 0⟩, .action .Refresh ⟨data, 0, 0⟩]

/-- The virtual host has another name. -/
def toldApart : Except SentinelError (List SourceInfo) :=
  .ok [⟨.vhost "shop.example.com", 1⟩, ⟨.systemLog "auth.log", 0⟩]

/-- As long as its load succeeds all is well, and with different names also when it fails. -/
theorem ownEntries_namesakes :
    (watched .ascii).Always OwnEntries (opened 0 namesakes (Viewer.shopData [1]))
      (openSystemLog (Viewer.shopData [2])) ∧
    (watched .ascii).Always OwnEntries (opened 0 toldApart (Viewer.shopData [1]))
      (openSystemLog silentData) := by
  obtain ⟨s, hrun⟩ := Machine.exists_run (M := watched .ascii)
    (s := opened 0 namesakes (Viewer.shopData [1])) (l := openSystemLog (Viewer.shopData [2])) rfl
  obtain ⟨t, hrun'⟩ := Machine.exists_run (M := watched .ascii)
    (s := opened 0 toldApart (Viewer.shopData [1])) (l := openSystemLog silentData) rfl
  refine ⟨(ownEntries_iff_findsOwn hrun).1.mpr ⟨trivial, trivial, trivial, ?_, trivial⟩,
    (ownEntries_iff_findsOwn hrun').2 (by decide)⟩
  intro _ source _ e hfailed
  cases hfailed

/-- When it fails, the entry of the virtual host is shown as the system log's. -/
theorem not_ownEntries_namesakes : ¬ (watched .ascii).Always OwnEntries
    (opened 0 namesakes (Viewer.shopData [1])) (openSystemLog silentData) := by
  have hexec : ((watched .ascii).exec (opened 0 namesakes (Viewer.shopData [1]))
      (openSystemLog silentData)).any (fun s =>
        s.viewer.selectedSource = some (.systemLog "auth.log") ∧
        Viewer.shopEntry 1 ∈ s.viewer.cached (.systemLog "auth.log") ∧
        Viewer.shopEntry 1 ∉ s.returned (.systemLog "auth.log")) = true := by
    decide +kernel
  obtain ⟨s, hrun, h⟩ := Machine.exists_run_any hexec
  obtain ⟨hselected, hcached, hreturned⟩ := of_decide_eq_true h
  intro halways
  exact hreturned (halways.last hrun _ hselected _ hcached)

end Sentinalysis.Tui.Ownership
