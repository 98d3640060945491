/-
# Sentinalysis.Web.KeyGate — the key of the dashboard, in the tabs of a browser.

A tab shows the dashboard once a key was verified, and the gate before.  The key is kept for the tab
or, when it is to be remembered, for all tabs; a tab asks its own storage first.  A request that is
refused clears both storages, and so does locking; only the tab in which that happens goes back to
the gate.  Requests and verifications take time, and all tabs go on meanwhile.
-/
import Mathlib.Data.List.Basic
import Mathlib.Logic.Function.Basic
import Sentinalysis.Lib.Transition

namespace Sentinalysis.Web

open Lib

/-! ## The client -/

/-- What comes back for a request: a status, or nothing. -/
inductive Fetched
  | status (code : ℕ)
  | unreachable
  deriving DecidableEq, Repr

/-- `Verify`. -/
inductive Verify
  | ok
  | invalid
  | unreachable
  deriving DecidableEq, Repr

/-- `verifyKey`, once its call has come back. -/
def verifyKey : Fetched → Verify
  | .status code =>
    if code = 200 then .ok else if code = 401 ∨ code = 403 then .invalid else .unreachable
  | .unreachable => .unreachable

/-- How `request` ends: with an `AuthError`, another error, or the data. -/
inductive Requested
  | unauthorized
  | failed
  | data
  deriving DecidableEq, Repr

/-- `request`, once its call has come back; `ok` is a status from 200 to 299. -/
def request : Fetched → Requested
  | .status code =>
    if code = 401 ∨ code = 403 then .unauthorized
    else if 200 ≤ code ∧ code < 300 then .data
    else .failed
  | .unreachable => .failed

/-! ## Tabs -/

abbrev TabId := ℕ

/-- A request under way: its key, and whether the query that asked is still in the cache. -/
structure Pending where
  key : String
  current : Bool
  deriving DecidableEq, Repr

/-- A tab: its storage, whether it shows the dashboard, the keys it verifies with `remember`, its
requests, and the keys with which the data in its cache was fetched. -/
structure Tab where
  sessionKey : Option String := none
  unlocked : Bool
  verifying : List (String × Bool) := []
  requests : List Pending := []
  data : List String := []
  deriving DecidableEq, Repr

/-- What is told of keys: one was verified, stored, or sent with a request by a tab, and the
storages were cleared by a tab, or the tab went away with its own; a tab has found no key and shows
the gate. -/
inductive Entry
  | verified (tab : TabId) (key : String)
  | stored (tab : TabId) (key : String) (remember : Bool)
  | sent (tab : TabId) (key : String)
  | cleared (tab : TabId)
  | closed (tab : TabId)
  | gated (tab : TabId)
  deriving DecidableEq, Repr

/-- The browser: the storage that its tabs share, and the tabs. -/
structure Browser where
  localKey : Option String := none
  tabs : TabId → Option Tab := fun _ => none
  log : List Entry := []

namespace Browser

/-- `getKey`. -/
def getKey (b : Browser) (tab : Tab) : Option String := tab.sessionKey.or b.localKey

def setTab (b : Browser) (i : TabId) (tab : Tab) : Browser :=
  { b with tabs := Function.update b.tabs i (some tab) }

def record (b : Browser) (entry : Entry) : Browser := { b with log := b.log ++ [entry] }

/-- `App`, when the page is loaded: without a key it shows the gate. -/
def load (b : Browser) (i : TabId) (sessionKey : Option String) : Browser :=
  let tab : Tab := { sessionKey := sessionKey, unlocked := false }
  if (b.getKey tab).isSome then b.setTab i { tab with unlocked := true }
  else (b.record (.gated i)).setTab i tab

/-- `storeKey`. -/
def storeKey (b : Browser) (i : TabId) (tab : Tab) (key : String) (remember : Bool) : Browser :=
  let b := b.record (.stored i key remember)
  if remember then { b.setTab i tab with localKey := some key }
  else b.setTab i { tab with sessionKey := some key }

/-- `clearKey`, with what the `LOCK_EVENT` does in the tab. -/
def clearKey (b : Browser) (i : TabId) (tab : Tab) : Browser :=
  let b := b.record (.cleared i)
  { b.setTab i
    { tab with
      sessionKey := none
      unlocked := false
      requests := tab.requests.map fun pending => { pending with current := false }
      data := [] } with
    localKey := none }

/-- `submit`, when the verification is over: nothing is stored on failure. -/
def verified (b : Browser) (i : TabId) (tab : Tab) (key : String) (remember : Bool)
    (fetched : Fetched) : Browser :=
  match verifyKey fetched with
  | .ok => (b.record (.verified i key)).storeKey i { tab with unlocked := true } key remember
  | .invalid | .unreachable => b.setTab i tab

/-- A query of the dashboard is run: without a key nothing is sent. -/
def fetch (b : Browser) (i : TabId) (tab : Tab) : Browser :=
  match b.getKey tab with
  | none => b
  | some key =>
    if key = "" then b
    else (b.record (.sent i key)).setTab i
      { tab with requests := tab.requests ++ [⟨key, true⟩] }

/-- The answer to a request: a query that is no longer in the cache does not get it. -/
def answered (b : Browser) (i : TabId) (tab : Tab) (pending : Pending) (fetched : Fetched) :
    Browser :=
  match request fetched with
  | .unauthorized => b.clearKey i tab
  | .failed => b.setTab i tab
  | .data =>
    b.setTab i (if pending.current then { tab with data := tab.data ++ [pending.key] } else tab)

end Browser

/-- What can happen: a tab is opened, loaded again or closed; a key is submitted, or forgotten; a
query is run; the tab is locked; a call comes back. -/
inductive Label
  | opened (i : TabId)
  | reload (i : TabId)
  | close (i : TabId)
  | submit (i : TabId) (key : String) (remember : Bool)
  | verified (i : TabId) (place : ℕ) (fetched : Fetched)
  | fetch (i : TabId)
  | answered (i : TabId) (place : ℕ) (fetched : Fetched)
  | lock (i : TabId)
  | forget (i : TabId)

/-- The dashboard in a browser; `trim` is that of the language. -/
def dashboard (trim : String → String) : Machine Browser Label where
  step b
    | .opened i => match b.tabs i with
      | none => some (b.load i none)
      | some _ => none
    | .reload i => (b.tabs i).map fun tab => b.load i tab.sessionKey
    | .close i => (b.tabs i).map fun _ =>
        { b.record (.closed i) with tabs := Function.update b.tabs i none }
    | .submit i key remember => do
      let tab ← b.tabs i
      if tab.unlocked ∨ key = "" then none
      else some (b.setTab i { tab with verifying := tab.verifying ++ [(trim key, remember)] })
    | .verified i place fetched => do
      let tab ← b.tabs i
      let (key, remember) ← tab.verifying[place]?
      some (b.verified i { tab with verifying := tab.verifying.eraseIdx place } key remember
        fetched)
    | .fetch i => do
      let tab ← b.tabs i
      if tab.unlocked then some (b.fetch i tab) else none
    | .answered i place fetched => do
      let tab ← b.tabs i
      let pending ← tab.requests[place]?
      some (b.answered i { tab with requests := tab.requests.eraseIdx place } pending fetched)
    | .lock i => do
      let tab ← b.tabs i
      if tab.unlocked then some (b.clearKey i tab) else none
    | .forget i => do
      let tab ← b.tabs i
      if tab.unlocked then none else some (b.clearKey i tab)

/-! ## What the log says of keys -/

/-- The entries are in the log, one after the other, and nothing of a kind came after them. -/
def Since (log entries : List Entry) (Ends : Entry → Prop) : Prop :=
  ∃ before after, log = before ++ entries ++ after ∧ ∀ entry ∈ after, ¬ Ends entry

section Since

variable {log entries : List Entry} {entry : Entry} {Ends : Entry → Prop}

theorem Since.append (h : Since log entries Ends) (hentry : ¬ Ends entry) :
    Since (log ++ [entry]) entries Ends := by
  obtain ⟨before, after, rfl, hafter⟩ := h
  refine ⟨before, after ++ [entry], List.append_assoc _ _ _, ?_⟩
  rw [List.forall_mem_append, List.forall_mem_singleton]
  exact ⟨hafter, hentry⟩

theorem since_append_self (log entries : List Entry) (Ends : Entry → Prop) :
    Since (log ++ entries) entries Ends :=
  ⟨log, [], (List.append_nil _).symm, by simp⟩

end Since

/-- A key that is kept for a tab goes when that tab clears it or is closed. -/
def EndsSession (i : TabId) (entry : Entry) : Prop := entry = .cleared i ∨ entry = .closed i

/-- A tab comes to the gate when it clears its key or finds none, and is gone when it is closed. -/
def ReachesGate (i : TabId) (entry : Entry) : Prop := EndsSession i entry ∨ entry = .gated i

/-- A key that is kept for all tabs goes when any of them clears it. -/
def EndsLocal (entry : Entry) : Prop := ∃ i, entry = .cleared i

/-- The key was verified and stored, for this tab or for all, and was not cleared since. -/
def Kept (log : List Entry) (i : TabId) (key : String) : Prop :=
  Since log [.verified i key, .stored i key false] (EndsSession i) ∨
    ∃ j, Since log [.verified j key, .stored j key true] EndsLocal

/-- Every key that was sent was kept at that moment. -/
def OnlyKeptSent (log : List Entry) : Prop :=
  ∀ before i key after, log = before ++ .sent i key :: after → Kept before i key

theorem OnlyKeptSent.append {log : List Entry} {entry : Entry} (h : OnlyKeptSent log)
    (hentry : ∀ i key, entry = .sent i key → Kept log i key) : OnlyKeptSent (log ++ [entry]) := by
  intro before i key after hlog
  rcases List.eq_nil_or_concat after with rfl | ⟨rest, last, rfl⟩
  · obtain ⟨rfl, hlast⟩ := List.append_inj' hlog rfl
    exact hentry i key (List.cons.inj hlast).1
  · rw [List.concat_eq_append, ← List.cons_append, ← List.append_assoc] at hlog
    exact h before i key rest (List.append_inj' hlog rfl).1

/-- A tab keeps a key of its own as long as nothing ended that; at the gate it has no data and waits
for none; and what it has, it asked for since it was last at the gate. -/
structure Tab.Sound (log : List Entry) (i : TabId) (tab : Tab) : Prop where
  session : ∀ key ∈ tab.sessionKey,
    Since log [.verified i key, .stored i key false] (EndsSession i)
  gate : tab.unlocked = false → tab.data = [] ∧ ∀ pending ∈ tab.requests, pending.current = false
  data : ∀ key ∈ tab.data, Since log [.sent i key] (ReachesGate i)
  requests : ∀ pending ∈ tab.requests, pending.current = true →
    Since log [.sent i pending.key] (ReachesGate i)

/-- What holds in every browser that is reached. -/
structure Browser.Sound (b : Browser) : Prop where
  local_kept : ∀ key ∈ b.localKey, ∃ j,
    Since b.log [.verified j key, .stored j key true] EndsLocal
  tabs : ∀ i tab, b.tabs i = some tab → tab.Sound b.log i
  sent : OnlyKeptSent b.log

section Steps

variable {b : Browser} {i : TabId} {tab : Tab}

theorem Tab.Sound.append {log : List Entry} {entry : Entry} (h : tab.Sound log i)
    (hentry : ¬ ReachesGate i entry) : tab.Sound (log ++ [entry]) i where
  session := fun key hkey => (h.session key hkey).append fun hends => hentry (.inl hends)
  gate := h.gate
  data := fun key hkey => (h.data key hkey).append hentry
  requests := fun pending hmem hcurrent => (h.requests pending hmem hcurrent).append hentry

namespace Browser

@[simp] theorem tabs_setTab (b : Browser) (i : TabId) (tab : Tab) :
    (b.setTab i tab).tabs = Function.update b.tabs i (some tab) := rfl

theorem Sound.setTab (h : b.Sound) (htab : tab.Sound b.log i) : (b.setTab i tab).Sound where
  local_kept := h.local_kept
  tabs := by
    intro j other hother
    rw [tabs_setTab] at hother
    by_cases hj : j = i
    · subst hj
      rw [Function.update_self] at hother
      exact Option.some.inj hother ▸ htab
    · rw [Function.update_of_ne hj] at hother
      exact h.tabs j other hother
  sent := h.sent

/-- An entry that ends nothing. -/
theorem Sound.record {entry : Entry} (h : b.Sound) (hlocal : ¬ EndsLocal entry)
    (hsession : ∀ i, ¬ ReachesGate i entry)
    (hsent : ∀ i key, entry = .sent i key → Kept b.log i key) : (b.record entry).Sound where
  local_kept := by
    intro key hkey
    obtain ⟨j, hsince⟩ := h.local_kept key hkey
    exact ⟨j, hsince.append hlocal⟩
  tabs := fun i tab htab => (h.tabs i tab htab).append (hsession i)
  sent := h.sent.append hsent

/-- A key that a tab finds is kept. -/
theorem Sound.kept_of_getKey {key : String} (h : b.Sound) (htab : tab.Sound b.log i)
    (hkey : b.getKey tab = some key) : Kept b.log i key := by
  rcases Option.or_eq_some_iff.mp hkey with hsession | ⟨-, hlocal⟩
  · exact Or.inl (htab.session key hsession)
  · exact Or.inr (h.local_kept key hlocal)

/-- A key that was verified is stored. -/
theorem Sound.storeKey {key : String} {remember : Bool} (h : b.Sound) (htab : tab.Sound b.log i)
    (hunlocked : tab.unlocked = true) :
    ((b.record (.verified i key)).storeKey i tab key remember).Sound := by
  have hsession : ∀ entry, entry = .verified i key ∨ entry = .stored i key remember →
      ∀ j, ¬ ReachesGate j entry := by
    rintro _ (rfl | rfl) j ((h | h) | h) <;> cases h
  have hlocal : ∀ entry, entry = .verified i key ∨ entry = .stored i key remember →
      ¬ EndsLocal entry := by
    rintro _ (rfl | rfl) ⟨j, h⟩ <;> cases h
  have hb := (h.record (hlocal _ (.inl rfl)) (hsession _ (.inl rfl))
    (fun _ _ heq => by cases heq)).record (hlocal _ (.inr rfl)) (hsession _ (.inr rfl))
    (fun _ _ heq => by cases heq)
  have htab' := (htab.append (hsession _ (.inl rfl) i)).append (hsession _ (.inr rfl) i)
  have hstored : ∀ Ends, Since ((b.log ++ [.verified i key]) ++ [.stored i key remember])
      [.verified i key, .stored i key remember] Ends := by
    intro Ends
    rw [List.append_assoc]
    exact since_append_self _ _ _
  unfold Browser.storeKey
  cases remember with
  | true =>
    have hset := hb.setTab htab'
    refine { hset with local_kept := ?_ }
    rintro _ ⟨⟩
    exact ⟨i, hstored _⟩
  | false =>
    refine hb.setTab { htab' with session := ?_, gate := ?_ }
    · rintro _ ⟨⟩
      exact hstored _
    · intro hlocked
      rw [hunlocked] at hlocked
      cases hlocked

/-- After clearing, a tab is at the gate with nothing of its own. -/
theorem Sound.clearKey (h : b.Sound) : (b.clearKey i tab).Sound where
  local_kept := by
    intro key hkey
    cases hkey
  tabs := by
    intro j other hother
    simp only [Browser.clearKey, tabs_setTab, Browser.record] at hother ⊢
    by_cases hj : j = i
    · subst hj
      rw [Function.update_self] at hother
      obtain rfl := Option.some.inj hother
      refine ⟨by simp, fun _ => ⟨rfl, ?_⟩, by simp, ?_⟩
      · intro pending hmem
        obtain ⟨_, -, rfl⟩ := List.mem_map.mp hmem
        rfl
      · intro pending hmem hcurrent
        obtain ⟨_, -, rfl⟩ := List.mem_map.mp hmem
        cases hcurrent
    · rw [Function.update_of_ne hj] at hother
      refine (h.tabs j other hother).append ?_
      rintro ((heq | heq) | heq)
      · exact hj (Entry.cleared.inj heq).symm
      · cases heq
      · cases heq
  sent := h.sent.append fun _ _ heq => by cases heq

theorem Sound.close (h : b.Sound) (i : TabId) :
    Sound { b.record (.closed i) with tabs := Function.update b.tabs i none } where
  local_kept := by
    intro key hkey
    obtain ⟨j, hsince⟩ := h.local_kept key hkey
    refine ⟨j, hsince.append ?_⟩
    rintro ⟨k, heq⟩
    cases heq
  tabs := by
    intro j other hother
    by_cases hj : j = i
    · subst hj
      simp at hother
    · simp only [Function.update_of_ne hj] at hother
      refine (h.tabs j other hother).append ?_
      rintro ((heq | heq) | heq)
      · cases heq
      · exact hj (Entry.closed.inj heq).symm
      · cases heq
  sent := h.sent.append fun _ _ heq => by cases heq

/-- A page that is loaded has no data and has asked for none. -/
theorem Sound.load {sessionKey : Option String} (h : b.Sound)
    (hsession : ∀ key ∈ sessionKey,
      Since b.log [.verified i key, .stored i key false] (EndsSession i)) :
    (b.load i sessionKey).Sound := by
  unfold Browser.load
  dsimp only
  split
  · exact h.setTab ⟨hsession, fun _ => ⟨rfl, by simp⟩, by simp, by simp⟩
  · refine ⟨?_, ?_, h.sent.append fun _ _ heq => by cases heq⟩
    · intro key hkey
      obtain ⟨j, hsince⟩ := h.local_kept key hkey
      refine ⟨j, hsince.append ?_⟩
      rintro ⟨k, heq⟩
      cases heq
    · intro j other hother
      rw [tabs_setTab] at hother
      by_cases hj : j = i
      · subst hj
        rw [Function.update_self] at hother
        obtain rfl := Option.some.inj hother
        refine ⟨fun key hkey => (hsession key hkey).append ?_, fun _ => ⟨rfl, by simp⟩, by simp,
          by simp⟩
        rintro (heq | heq) <;> cases heq
      · rw [Browser.record, Function.update_of_ne hj] at hother
        refine (h.tabs j other hother).append ?_
        rintro ((heq | heq) | heq)
        · cases heq
        · cases heq
        · exact hj (Entry.gated.inj heq).symm

/-- A query is run with a key that is kept. -/
theorem Sound.fetch (h : b.Sound) (htab : tab.Sound b.log i) (hunlocked : tab.unlocked = true) :
    (b.fetch i tab).Sound := by
  unfold Browser.fetch
  cases hkey : b.getKey tab with
  | none => exact h
  | some key =>
    dsimp only
    split
    · exact h
    · have hsession : ∀ j, ¬ ReachesGate j (.sent i key) := by
        rintro j ((heq | heq) | heq) <;> cases heq
      have hrecord : (b.record (.sent i key)).Sound := by
        refine h.record ?_ hsession ?_
        · rintro ⟨j, heq⟩
          cases heq
        · rintro j other ⟨⟩
          exact h.kept_of_getKey htab hkey
      have htab' := htab.append (hsession i)
      refine hrecord.setTab { htab' with gate := ?_, requests := ?_ }
      · intro hlocked
        rw [hunlocked] at hlocked
        cases hlocked
      · intro pending hmem hcurrent
        rcases List.mem_append.mp hmem with hmem | hmem
        · exact htab'.requests pending hmem hcurrent
        · rw [List.mem_singleton.mp hmem]
          exact since_append_self _ _ _

/-- The data of an answer goes to the query that asked. -/
theorem Sound.answered {pending : Pending} (h : b.Sound) (htab : tab.Sound b.log i)
    (hpending : pending.current = true →
      tab.unlocked = true ∧ Since b.log [.sent i pending.key] (ReachesGate i))
    (fetched : Fetched) : (b.answered i tab pending fetched).Sound := by
  unfold Browser.answered
  cases request fetched with
  | unauthorized => exact h.clearKey
  | failed => exact h.setTab htab
  | data =>
    refine h.setTab ?_
    split
    · next hcurrent =>
      obtain ⟨hunlocked, hsince⟩ := hpending hcurrent
      refine { htab with gate := ?_, data := ?_ }
      · intro hlocked
        rw [hunlocked] at hlocked
        cases hlocked
      · intro key hkey
        rcases List.mem_append.mp hkey with hkey | hkey
        · exact htab.data key hkey
        · rw [List.mem_singleton.mp hkey]
          exact hsince
    · exact htab

theorem Sound.verified {key : String} {remember : Bool} (h : b.Sound) (htab : tab.Sound b.log i)
    (fetched : Fetched) : (b.verified i tab key remember fetched).Sound := by
  unfold Browser.verified
  cases verifyKey fetched with
  | ok => exact h.storeKey { htab with gate := fun hlocked => by cases hlocked } rfl
  | invalid | unreachable => exact h.setTab htab

/-- Every step keeps it. -/
theorem Sound.step {trim : String → String} {t : Browser} {a : Label} (h : b.Sound)
    (hstep : (dashboard trim).step b a = some t) : t.Sound := by
  cases a with
  | opened i =>
    simp only [dashboard] at hstep
    split at hstep
    · obtain rfl := Option.some.inj hstep
      exact h.load (by simp)
    · cases hstep
  | reload i =>
    obtain ⟨tab, htab, rfl⟩ := Option.map_eq_some_iff.mp hstep
    exact h.load (h.tabs i tab htab).session
  | close i =>
    obtain ⟨tab, -, rfl⟩ := Option.map_eq_some_iff.mp hstep
    exact h.close i
  | submit i key remember =>
    obtain ⟨tab, htab, hstep⟩ := Option.bind_eq_some_iff.mp hstep
    simp only [Option.ite_none_left_eq_some] at hstep
    obtain rfl := Option.some.inj hstep.2
    exact h.setTab { h.tabs i tab htab with }
  | verified i place fetched =>
    obtain ⟨tab, htab, hstep⟩ := Option.bind_eq_some_iff.mp hstep
    obtain ⟨⟨key, remember⟩, -, hstep⟩ := Option.bind_eq_some_iff.mp hstep
    obtain rfl := Option.some.inj hstep
    refine h.verified ?_ fetched
    exact { h.tabs i tab htab with }
  | fetch i =>
    obtain ⟨tab, htab, hstep⟩ := Option.bind_eq_some_iff.mp hstep
    simp only [Option.ite_none_right_eq_some] at hstep
    obtain ⟨hunlocked, hstep⟩ := hstep
    obtain rfl := Option.some.inj hstep
    exact h.fetch (h.tabs i tab htab) hunlocked
  | answered i place fetched =>
    obtain ⟨tab, htab, hstep⟩ := Option.bind_eq_some_iff.mp hstep
    obtain ⟨pending, hpending, hstep⟩ := Option.bind_eq_some_iff.mp hstep
    obtain rfl := Option.some.inj hstep
    have hsound := h.tabs i tab htab
    have hmem := List.mem_of_getElem? hpending
    refine h.answered ?_ ?_ fetched
    · refine { hsound with gate := ?_, requests := ?_ }
      · intro hlocked
        obtain ⟨hdata, hall⟩ := hsound.gate hlocked
        exact ⟨hdata, fun other hother => hall other (List.mem_of_mem_eraseIdx hother)⟩
      · exact fun other hother => hsound.requests other (List.mem_of_mem_eraseIdx hother)
    · intro hcurrent
      refine ⟨?_, hsound.requests pending hmem hcurrent⟩
      by_contra hlocked
      rw [Bool.not_eq_true] at hlocked
      rw [(hsound.gate hlocked).2 pending hmem] at hcurrent
      cases hcurrent
  | lock i =>
    obtain ⟨tab, -, hstep⟩ := Option.bind_eq_some_iff.mp hstep
    simp only [Option.ite_none_right_eq_some] at hstep
    obtain rfl := Option.some.inj hstep.2
    exact h.clearKey
  | forget i =>
    obtain ⟨tab, -, hstep⟩ := Option.bind_eq_some_iff.mp hstep
    simp only [Option.ite_none_left_eq_some] at hstep
    obtain rfl := Option.some.inj hstep.2
    exact h.clearKey

end Browser

end Steps

/-- **Only keys that were verified, and not cleared since, leave the browser**, and what a tab shows
it asked for since it was last at the gate. -/
theorem sound_of_run {trim : String → String} {labels : List Label} {b : Browser}
    (h : (dashboard trim).Run {} labels b) : b.Sound := by
  have hstart : Browser.Sound {} := by
    refine { local_kept := ?_, tabs := ?_, sent := ?_ }
    · intro key hkey
      cases hkey
    · intro i tab htab
      cases htab
    · intro before i key after hlog
      simp at hlog
  exact h.invariant hstart fun _ _ _ hsound hstep => hsound.step hstep

/-- Two tabs with the same key; the one is locked while a request of the other is under way, and the
other finds no key when it is loaded again. -/
def twoTabs : List Label := [
  .opened 0, .submit 0 "snt_key" true, .verified 0 0 (.status 200), .opened 1, .fetch 0, .fetch 1,
  .lock 0, .answered 1 0 (.status 200), .answered 0 0 (.status 200), .fetch 1, .reload 1]

theorem sound_of_run_twoTabs : ∃ b, (dashboard id).Run {} twoTabs b ∧
    b.log.getLast? = some (.gated 1) ∧ b.Sound := by
  have hexec : ((dashboard id).exec {} twoTabs).any (fun b => b.log.getLast? = some (.gated 1))
      = true := by
    decide +kernel
  obtain ⟨b, hrun, hlast⟩ := Machine.exists_run_any hexec
  exact ⟨b, hrun, of_decide_eq_true hlast, sound_of_run hrun⟩

end Sentinalysis.Web
