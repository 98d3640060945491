/-
# Sentinalysis.Tui.Keys — what keys do, and typing into the filter.

A key is bound to an action whatever the viewer is doing.  While the filter box is active, the
characters that are bound to an action of their own are not typed into it: they close the box or
the program.
-/
import Sentinalysis.Tui.Viewer

namespace Sentinalysis.Tui

open Lib

/-- `KeyCode`: the codes with a binding, and the others. -/
inductive KeyCode
  | Char (c : Char)
  | Up
  | Down
  | Tab
  | Enter
  | Esc
  | Backspace
  | PageUp
  | PageDown
  | Home
  | End
  | Other
  deriving DecidableEq, Repr

/-- `Event`. -/
inductive Event
  | Tick
  | Key (code : KeyCode)
  | FocusLost
  | FocusGained
  | Resize (width height : ℕ)
  | Mouse
  deriving DecidableEq, Repr

/-- `key_to_action`: a key without a binding is ignored. -/
def keyToAction : KeyCode → Option Action
  | .Char c =>
    if c = 'q' then some .Quit
    else if c = '/' then some .ToggleFilter
    else if c = 'r' then some .Refresh
    else some (.FilterInput c)
  | .Up => some .SelectUp
  | .Down => some .SelectDown
  | .Tab => some .ToggleFocus
  | .Enter => some .Refresh
  | .Esc => some .ClearFilter
  | .Backspace => some .FilterBackspace
  | .PageUp => some .PageUp
  | .PageDown => some .PageDown
  | .Home => some .ScrollToTop
  | .End => some .ScrollToBottom
  | .Other => none

/-- `event_to_action`. -/
def eventToAction : Event → Option Action
  | .Key code => keyToAction code
  | .Tick => some .Tick
  | _ => none

/-- The characters with a binding of their own. -/
def boundChars : List Char := ['q', '/', 'r']

/-- The other characters are input. -/
theorem keyToAction_char {c : Char} (h : c ∉ boundChars) :
    keyToAction (.Char c) = some (.FilterInput c) := by
  simp only [boundChars, List.mem_cons, List.not_mem_nil, or_false, not_or] at h
  rw [keyToAction, if_neg h.1, if_neg h.2.1, if_neg h.2.2]

/-- What a character is bound to. -/
theorem keyToAction_char_cases (c : Char) :
    (c ∉ boundChars ∧ keyToAction (.Char c) = some (.FilterInput c)) ∨
      (c ∈ boundChars ∧ ∃ action ∈ [Action.Quit, .ToggleFilter, .Refresh],
        keyToAction (.Char c) = some action) := by
  by_cases h : c ∈ boundChars
  · refine Or.inr ⟨h, ?_⟩
    rcases List.mem_cons.mp h with rfl | h
    · exact ⟨.Quit, by decide, rfl⟩
    rcases List.mem_cons.mp h with rfl | h
    · exact ⟨.ToggleFilter, by decide, rfl⟩
    obtain rfl := List.mem_singleton.mp h
    exact ⟨.Refresh, by decide, rfl⟩
  · exact Or.inl ⟨h, keyToAction_char h⟩

/-- Input comes from the other characters only. -/
theorem eventToAction_filterInput {event : Event} {c : Char}
    (h : eventToAction event = some (.FilterInput c)) : event = .Key (.Char c) ∧ c ∉ boundChars := by
  cases event with
  | Key code =>
    cases code with
    | Char d =>
      rcases keyToAction_char_cases d with ⟨hd, haction⟩ | ⟨-, action, hbound, haction⟩
      · obtain rfl := Action.FilterInput.inj (Option.some.inj (haction.symm.trans h))
        exact ⟨rfl, hd⟩
      · obtain rfl := Option.some.inj (haction.symm.trans h)
        simp at hbound
    | _ => cases h
  | _ => cases h

/-! ## The filter text -/

namespace Viewer

variable {viewer : Viewer} {moment : Moment}

@[simp] theorem filterText_settle (r : Except SentinelError LogViewer) :
    (viewer.settle r).filterText = viewer.filterText := by
  cases r <;> rfl

theorem filterText_switchTo (data : LogDataSource) (source : LogScanner.Source) :
    (viewer.switchTo data source).filterText = viewer.filterText := by
  unfold switchTo
  rw [filterText_settle]

theorem filterText_poll (source : LogScanner.Source) :
    (viewer.poll moment source).filterText = viewer.filterText := by
  unfold poll
  rw [filterText_settle]

/-- Outside the filter box, the filter text is left alone or cleared. -/
theorem filterText_handleAction (hmode : viewer.filterMode = false) (action : Action) :
    (viewer.handleAction action moment).filterText = viewer.filterText ∨
      action = .ClearFilter ∧ (viewer.handleAction action moment).filterText = "" := by
  unfold handleAction
  rw [if_neg (by simp [hmode])]
  cases action with
  | ClearFilter => exact Or.inr ⟨rfl, rfl⟩
  | Refresh =>
    left
    dsimp only
    split
    · exact filterText_switchTo _ _
    · rfl
  | Tick =>
    left
    dsimp only
    split
    · exact filterText_poll _
    · rfl
  | SelectUp | SelectDown =>
    left
    dsimp only
    unfold moveSelection
    split <;> rfl
  | ScrollToBottom =>
    left
    dsimp only
    split <;> rfl
  | _ => exact Or.inl rfl

/-- Only a character of input makes the filter text longer, and by itself only. -/
theorem length_filterText_handleAction (viewer : Viewer) (action : Action) (moment : Moment) :
    (viewer.handleAction action moment).filterText.toList.length ≤ viewer.filterText.toList.length ∨
      (∃ c, action = .FilterInput c) ∧
        (viewer.handleAction action moment).filterText.toList.length
          = viewer.filterText.toList.length + 1 := by
  cases hmode : viewer.filterMode with
  | false =>
    left
    rcases filterText_handleAction hmode action with h | ⟨-, h⟩
    · rw [h]
    · rw [h]
      exact Nat.zero_le _
  | true =>
    have hfilter : viewer.handleAction action moment = viewer.handleFilterAction action :=
      if_pos hmode
    rw [hfilter]
    cases action with
    | FilterInput c =>
      refine Or.inr ⟨⟨c, rfl⟩, ?_⟩
      show (viewer.filterText.push c).toList.length = _
      rw [String.toList_push, List.length_append, List.length_singleton]
    | FilterBackspace =>
      left
      show (String.ofList viewer.filterText.toList.dropLast).toList.length ≤ _
      rw [String.toList_ofList, List.length_dropLast]
      exact Nat.sub_le _ _
    | ClearFilter => exact Or.inl (Nat.zero_le _)
    | _ => exact Or.inl (Nat.le_refl _)

end Viewer

/-! ## The event loop -/

/-- An event, and what its action meets. -/
structure Input where
  event : Event
  moment : Moment

/-- `Tui::run`: what is left of the application is its viewer. -/
structure TuiLoop where
  viewer : Viewer
  running : Bool := true

namespace TuiLoop

/-- One round: the viewer is drawn, then an event is handled. -/
def run (u : Unicode) : Machine TuiLoop Input where
  step tui input :=
    if tui.running then
      let viewer := tui.viewer.draw u
      match eventToAction input.event with
      | none => some { viewer := viewer }
      | some .Quit => some { viewer := viewer, running := false }
      | some action => some { viewer := viewer.handleAction action input.moment }
    else none

/-- The keys that are pressed. -/
def pressed (inputs : List Input) : List KeyCode :=
  inputs.filterMap fun input => match input.event with
    | .Key code => some code
    | _ => none

variable {u : Unicode} {tui next : TuiLoop} {input : Input} {inputs : List Input}

/-- What a round comes to. -/
theorem step_cases (h : (run u).step tui input = some next) :
    (eventToAction input.event = none ∧ next = { viewer := tui.viewer.draw u }) ∨
      (eventToAction input.event = some .Quit ∧
        next = { viewer := tui.viewer.draw u, running := false }) ∨
      ∃ action, eventToAction input.event = some action ∧
        next = { viewer := (tui.viewer.draw u).handleAction action input.moment } := by
  simp only [run, Option.ite_none_right_eq_some] at h
  obtain ⟨-, h⟩ := h
  split at h
  · exact Or.inl ⟨‹_›, (Option.some.inj h).symm⟩
  · exact Or.inr (Or.inl ⟨‹_›, (Option.some.inj h).symm⟩)
  · exact Or.inr (Or.inr ⟨_, ‹_›, (Option.some.inj h).symm⟩)

/-- An action other than `Quit` is handled. -/
theorem step_of_action {action : Action} (hrunning : tui.running = true)
    (haction : eventToAction input.event = some action) (hquit : action ≠ .Quit) :
    (run u).step tui input
      = some { viewer := (tui.viewer.draw u).handleAction action input.moment } := by
  simp only [run, hrunning, if_true, haction]

/-! ## Typing -/

theorem pressed_cons_of_key {code : KeyCode} (h : input.event = .Key code) (inputs : List Input) :
    pressed (input :: inputs) = code :: pressed inputs := by
  unfold pressed
  rw [List.filterMap_cons, h]

theorem pressed_cons_of_not_key (h : ∀ code, input.event ≠ .Key code) (inputs : List Input) :
    pressed (input :: inputs) = pressed inputs := by
  unfold pressed
  rw [List.filterMap_cons]
  cases hevent : input.event with
  | Key code => exact absurd hevent (h code)
  | _ => rfl

/-- The filter box is active, and this is in it. -/
structure Editing (tui : TuiLoop) (text : String) : Prop where
  running : tui.running = true
  filterMode : tui.viewer.filterMode = true
  filterText : tui.viewer.filterText = text

/-- In the filter box, whatever is no key changes nothing. -/
theorem Editing.step_of_not_key {text : String} (h : Editing tui text)
    (hevent : ∀ code, input.event ≠ .Key code) :
    ∃ next, (run u).step tui input = some next ∧ Editing next text := by
  have hdrawn : Editing { viewer := tui.viewer.draw u } text := ⟨rfl, h.filterMode, h.filterText⟩
  have htick : (tui.viewer.draw u).handleAction .Tick input.moment = tui.viewer.draw u :=
    if_pos h.filterMode
  refine ⟨_, ?_, hdrawn⟩
  cases hcase : input.event with
  | Key code => exact absurd hcase (hevent code)
  | Tick => rw [step_of_action h.running (by rw [hcase]; rfl) (by decide), htick]
  | _ => simp only [run, h.running, if_true, hcase, eventToAction]

/-- In the filter box, a character of input is typed. -/
theorem Editing.step_of_char {text : String} (h : Editing tui text) {c : Char}
    (hc : c ∉ boundChars) (hevent : input.event = .Key (.Char c)) :
    ∃ next, (run u).step tui input = some next ∧ Editing next (text.push c) := by
  have haction : eventToAction input.event = some (.FilterInput c) := by
    rw [hevent]
    exact keyToAction_char hc
  refine ⟨_, step_of_action h.running haction (by simp), ?_⟩
  have hpush : (tui.viewer.draw u).handleAction (.FilterInput c) input.moment
      = { tui.viewer.draw u with filterText := tui.viewer.filterText.push c } :=
    if_pos h.filterMode
  rw [hpush, h.filterText]
  exact ⟨rfl, h.filterMode, rfl⟩

/-- **Without bound characters, what is typed is appended.**  The induction is on the events. -/
theorem Editing.run_of_unbound {text : String} (h : Editing tui text) {w : List Char}
    (hkeys : pressed inputs = w.map .Char) (hw : ∀ c ∈ w, c ∉ boundChars) :
    ∃ last, (run u).Run tui inputs last ∧ Editing last (text ++ String.ofList w) := by
  induction inputs generalizing tui text w with
  | nil =>
    obtain rfl : w = [] := List.map_eq_nil_iff.mp hkeys.symm
    exact ⟨tui, .nil, by simpa using h⟩
  | cons input inputs ih =>
    by_cases hkey : ∃ code, input.event = .Key code
    · -- the key is the first character of what is left to type
      obtain ⟨code, hevent⟩ := hkey
      rw [pressed_cons_of_key hevent] at hkeys
      obtain ⟨c, rest, rfl, rfl, hrest⟩ := List.map_eq_cons_iff.mp hkeys.symm
      obtain ⟨hc, hunbound⟩ := List.forall_mem_cons.mp hw
      obtain ⟨next, hstep, hnext⟩ := h.step_of_char (u := u) hc hevent
      obtain ⟨last, hrun, hlast⟩ := ih hnext hrest.symm hunbound
      refine ⟨last, hrun.cons hstep, ?_⟩
      have happend : text ++ String.ofList (c :: rest) = text.push c ++ String.ofList rest := by
        rw [← String.toList_inj]
        simp
      rwa [happend]
    · have hnot : ∀ code, input.event ≠ .Key code := fun code h => hkey ⟨code, h⟩
      rw [pressed_cons_of_not_key hnot] at hkeys
      obtain ⟨next, hstep, hnext⟩ := h.step_of_not_key (u := u) hnot
      obtain ⟨last, hrun, hlast⟩ := ih hnext hkeys hw
      exact ⟨last, hrun.cons hstep, hlast⟩

/-- A round makes the filter text longer by a character of input or not at all. -/
theorem length_filterText_step (h : (run u).step tui input = some next) :
    next.viewer.filterText.toList.length ≤ tui.viewer.filterText.toList.length ∨
      (∃ c, input.event = .Key (.Char c) ∧ c ∉ boundChars) ∧
        next.viewer.filterText.toList.length = tui.viewer.filterText.toList.length + 1 := by
  rcases step_cases h with ⟨-, rfl⟩ | ⟨-, rfl⟩ | ⟨action, haction, rfl⟩
  · exact Or.inl (Nat.le_refl _)
  · exact Or.inl (Nat.le_refl _)
  · rcases (tui.viewer.draw u).length_filterText_handleAction action input.moment with
      hle | ⟨⟨c, rfl⟩, hlength⟩
    · exact Or.inl hle
    · exact Or.inr ⟨⟨c, eventToAction_filterInput haction⟩, hlength⟩

/-- The filter text grows by no more than the characters of input. -/
theorem length_filterText_run {w : List Char} (hrun : (run u).Run tui inputs next)
    (hkeys : pressed inputs = w.map .Char) :
    next.viewer.filterText.toList.length
      ≤ tui.viewer.filterText.toList.length + (w.filter (· ∉ boundChars)).length := by
  induction inputs generalizing tui w with
  | nil =>
    rw [hrun.of_nil]
    exact Nat.le_add_right _ _
  | cons input inputs ih =>
    obtain ⟨middle, hstep, hrest⟩ := hrun.of_cons
    by_cases hkey : ∃ code, input.event = .Key code
    · obtain ⟨code, hevent⟩ := hkey
      rw [pressed_cons_of_key hevent] at hkeys
      obtain ⟨c, rest, rfl, rfl, hmap⟩ := List.map_eq_cons_iff.mp hkeys.symm
      have hle := ih hrest hmap.symm
      rw [List.filter_cons]
      rcases length_filterText_step hstep with hsame | ⟨⟨d, hinput, hd⟩, hmore⟩
      · split
        · rw [List.length_cons]
          omega
        · omega
      · -- the character that was typed is the one that was pressed
        obtain rfl : c = d := KeyCode.Char.inj (Event.Key.inj (hevent.symm.trans hinput))
        rw [if_pos (decide_eq_true hd), List.length_cons]
        omega
    · have hnot : ∀ code, input.event ≠ .Key code := fun code h => hkey ⟨code, h⟩
      rw [pressed_cons_of_not_key hnot] at hkeys
      have hle := ih hrest hkeys
      rcases length_filterText_step hstep with hsame | ⟨⟨d, hinput, -⟩, -⟩
      · omega
      · exact absurd hinput (hnot _)

/-- The event of the key `/`. -/
def slash (moment : Moment) : Input where
  event := .Key (.Char '/')
  moment := moment

/-- From a viewer outside the filter box: `/`, then the events, after which the text typed stands
behind what was there. -/
def TypesLiterally (u : Unicode) (viewer : Viewer) (moment : Moment) (inputs : List Input)
    (w : String) : Prop :=
  ∃ last, (run u).Run { viewer := viewer } (slash moment :: inputs) last ∧
    Editing last (viewer.filterText ++ w)

/-- **What is typed is literal exactly when no character of it is bound.** -/
theorem typesLiterally_iff {viewer : Viewer} (hmode : viewer.filterMode = false) (moment : Moment)
    {w : String} (hkeys : pressed inputs = w.toList.map .Char) :
    TypesLiterally u viewer moment inputs w ↔ ∀ c ∈ w.toList, c ∉ boundChars := by
  have hopened : ∃ next, (run u).step { viewer := viewer } (slash moment) = some next ∧
      Editing next viewer.filterText := by
    have hopens : (viewer.draw u).handleAction .ToggleFilter moment
        = { viewer.draw u with filterMode := true } := by
      unfold Viewer.handleAction
      exact if_neg (by simp [Viewer.draw, hmode])
    refine ⟨_, step_of_action rfl rfl (by decide), rfl, ?_, ?_⟩
    · rw [slash, hopens]
    · rw [slash, hopens]
      rfl
  obtain ⟨opened, hstep, hediting⟩ := hopened
  constructor
  · rintro ⟨last, hrun, hlast⟩
    obtain ⟨next, hfirst, hrest⟩ := hrun.of_cons
    obtain rfl : opened = next := Option.some.inj (hstep.symm.trans hfirst)
    -- the filter text has grown by all that was pressed, and it grows by input only
    have hle := length_filterText_run hrest hkeys
    rw [hlast.filterText, hediting.filterText, String.toList_append, List.length_append] at hle
    have hall : (w.toList.filter (· ∉ boundChars)).length = w.toList.length :=
      Nat.le_antisymm (List.length_filter_le _ _) (Nat.le_of_add_le_add_left hle)
    intro c hc
    exact of_decide_eq_true (List.length_filter_eq_length_iff.mp hall c hc)
  · intro hw
    obtain ⟨last, hrun, hlast⟩ := hediting.run_of_unbound (u := u) hkeys hw
    rw [String.ofList_toList] at hlast
    exact ⟨last, hrun.cons hstep, hlast⟩

/-- The keys of a text, one after the other. -/
def keysOf (w : String) (moment : Moment) : List Input :=
  w.toList.map fun c => { event := .Key (.Char c), moment := moment }

theorem pressed_keysOf (w : String) (moment : Moment) :
    pressed (keysOf w moment) = w.toList.map .Char := by
  unfold pressed keysOf
  rw [List.filterMap_map]
  exact congrFun (List.filterMap_eq_map (f := KeyCode.Char)) w.toList

private def idle : Moment := ⟨memoryLogDataSource fun _ => none, 0, 0⟩

/-- Not so `sql`: its second character ends the program. -/
theorem not_typesLiterally_sql :
    ¬ TypesLiterally .ascii .new idle (keysOf "sql" idle) "sql" := by
  rintro ⟨last, hrun, -⟩
  have hnone : (run .ascii).exec { viewer := .new } (slash idle :: keysOf "sql" idle) = none := rfl
  rw [Machine.run_iff_exec, hnone] at hrun
  cases hrun

theorem typesLiterally_iff_log : TypesLiterally .ascii .new idle (keysOf "log" idle) "log" := by
  refine (typesLiterally_iff rfl idle (pressed_keysOf "log" idle)).mpr ?_
  have hall : ("log".toList.all fun c => decide (c ∉ boundChars)) = true := by decide
  exact fun c hc => of_decide_eq_true (List.all_eq_true.mp hall c hc)

end TuiLoop

end Sentinalysis.Tui
