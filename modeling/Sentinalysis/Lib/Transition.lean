/-
# Sentinalysis.Lib.Transition — executable machines, their runs, and the rules that prove
invariants of runs.

A `Machine` is a partial step function: every choice the environment makes (which message arrives,
whether a write fails, what the clock shows) is part of the label, so one label has at most one
outcome and a run can be replayed by `Machine.exec`.

Two ways of speaking about a run are kept side by side.  `Run` is the inductive relation the
invariant rules are stated over; `exec` computes, so that a concrete run can be checked by
evaluation.  `Along` says that every step of a run meets a condition on the state before the step
and its label; `Run.invariant_along` is the rule for invariants that only hold on such runs.
`Always` says that every state on the way is a good one, and `Run.always_iff_along` is the rule that
shows a condition on the steps to be exact for it.
-/
import Mathlib.Data.List.Induction

namespace Sentinalysis.Lib

universe u v

/-- A partial step function over states `σ`, driven by labels `α`. -/
structure Machine (σ : Type u) (α : Type v) where
  step : σ → α → Option σ

namespace Machine

variable {σ : Type u} {α : Type v} (M : Machine σ α)

/-- `M.Run s l t`: the labels `l`, taken in order from `s`, are all enabled and lead to `t`. -/
inductive Run (s : σ) : List α → σ → Prop
  | nil : Run s [] s
  | snoc {l : List α} {t : σ} {a : α} {u : σ} :
      Run s l t → M.step t a = some u → Run s (l ++ [a]) u

/-- Replays a list of labels; `none` as soon as one of them is not enabled. -/
def exec (s : σ) : List α → Option σ
  | [] => some s
  | a :: l => match M.step s a with
    | some t => exec t l
    | none => none

/-- Every step of the run of `l` from `s` meets `P` on its label and the state before it. -/
def Along (P : σ → α → Prop) (s : σ) : List α → Prop
  | [] => True
  | a :: l => P s a ∧ match M.step s a with
    | some t => Along P t l
    | none => True

instance decidableAlong (P : σ → α → Prop) [∀ s a, Decidable (P s a)] :
    ∀ (s : σ) (l : List α), Decidable (M.Along P s l)
  | _, [] => inferInstanceAs (Decidable True)
  | s, a :: l =>
    match h : M.step s a with
    | some t =>
      have := decidableAlong P t l
      decidable_of_iff (P s a ∧ M.Along P t l) (by simp only [Along, h])
    | none => decidable_of_iff (P s a) (by simp only [Along, h, and_true])

variable {M}

namespace Run

theorem cons {s t u : σ} {a : α} {l : List α} (hstep : M.step s a = some t)
    (hrun : M.Run t l u) : M.Run s (a :: l) u := by
  induction hrun with
  | nil => exact snoc nil hstep
  | snoc _ hlast ih => exact snoc ih hlast

theorem append {s t u : σ} {l₁ l₂ : List α} (h₁ : M.Run s l₁ t) (h₂ : M.Run t l₂ u) :
    M.Run s (l₁ ++ l₂) u := by
  induction h₂ with
  | nil => simpa using h₁
  | snoc _ hlast ih => rw [← List.append_assoc]; exact snoc ih hlast

/-- The last step of a non-empty run. -/
theorem of_snoc {s u : σ} {l : List α} {a : α} (h : M.Run s (l ++ [a]) u) :
    ∃ t, M.Run s l t ∧ M.step t a = some u := by
  generalize hl : l ++ [a] = l' at h
  cases h with
  | nil => simp at hl
  | snoc hrun hstep =>
    obtain ⟨rfl, rfl⟩ := List.append_singleton_inj.mp hl
    exact ⟨_, hrun, hstep⟩

theorem of_nil {s t : σ} (h : M.Run s [] t) : t = s := by
  generalize hl : ([] : List α) = l at h
  cases h with
  | nil => rfl
  | snoc _ _ => simp at hl

theorem of_append {s u : σ} {l₁ l₂ : List α} (h : M.Run s (l₁ ++ l₂) u) :
    ∃ t, M.Run s l₁ t ∧ M.Run t l₂ u := by
  induction l₂ using List.reverseRecOn generalizing u with
  | nil => exact ⟨u, by simpa using h, nil⟩
  | append_singleton l₂ a ih =>
    rw [← List.append_assoc] at h
    obtain ⟨v, hrun, hstep⟩ := h.of_snoc
    obtain ⟨t, h₁, h₂⟩ := ih hrun
    exact ⟨t, h₁, snoc h₂ hstep⟩

theorem of_cons {s u : σ} {a : α} {l : List α} (h : M.Run s (a :: l) u) :
    ∃ t, M.step s a = some t ∧ M.Run t l u := by
  obtain ⟨t, h₁, h₂⟩ := of_append (show M.Run s ([a] ++ l) u from h)
  obtain ⟨s', h₀, hstep⟩ := of_snoc (l := []) h₁
  rw [h₀.of_nil] at hstep
  exact ⟨t, hstep, h₂⟩

/-- **Invariant rule with history.**  What holds of the start and the empty history, and is kept by
every step while the history grows by that step's label, holds of every run. -/
theorem invariant_history {I : List α → σ → Prop} {s t : σ} {l : List α} (h : M.Run s l t)
    (init : I [] s) (keep : ∀ l t a u, I l t → M.step t a = some u → I (l ++ [a]) u) : I l t := by
  induction h with
  | nil => exact init
  | snoc _ hstep ih => exact keep _ _ _ _ ih hstep

/-- **Invariant rule.**  What holds of the start and is kept by every step holds of every state
reached. -/
theorem invariant {I : σ → Prop} {s t : σ} {l : List α} (h : M.Run s l t) (init : I s)
    (keep : ∀ t a u, I t → M.step t a = some u → I u) : I t :=
  h.invariant_history (I := fun _ t => I t) init fun _ t a u => keep t a u

/-- **Invariant rule for runs of some labels.**  What holds of the start and is kept by every step
whose label meets a condition holds at the end of every run of such labels. -/
theorem invariant_of_forall {P : α → Prop} {I : σ → Prop} {s t : σ} {l : List α} (h : M.Run s l t)
    (hP : ∀ a ∈ l, P a) (init : I s)
    (keep : ∀ t a u, I t → P a → M.step t a = some u → I u) : I t := by
  refine h.invariant_history (I := fun l t => (∀ a ∈ l, P a) → I t) (fun _ => init) ?_ hP
  intro l t a u ih hstep hl
  rw [List.forall_mem_append, List.forall_mem_singleton] at hl
  exact keep t a u (ih hl.1) hl.2 hstep

end Run

@[simp] theorem exec_nil (s : σ) : M.exec s [] = some s := rfl

@[simp] theorem exec_cons (s : σ) (a : α) (l : List α) :
    M.exec s (a :: l) = (M.step s a).bind fun t => M.exec t l := by
  cases h : M.step s a <;> simp [exec, h]

/-- A replayed run is a run. -/
theorem run_of_exec {s t : σ} {l : List α} (h : M.exec s l = some t) : M.Run s l t := by
  induction l generalizing s with
  | nil =>
    obtain rfl : s = t := by simpa using h
    exact Run.nil
  | cons a l ih =>
    rw [exec_cons, Option.bind_eq_some_iff] at h
    obtain ⟨v, hstep, hrest⟩ := h
    exact Run.cons hstep (ih hrest)

/-- Labels that can be replayed make a run. -/
theorem exists_run {s : σ} {l : List α} (h : (M.exec s l).isSome = true) : ∃ t, M.Run s l t := by
  obtain ⟨t, ht⟩ := Option.isSome_iff_exists.mp h
  exact ⟨t, run_of_exec ht⟩

/-- A replay whose end passes a test makes a run whose end does. -/
theorem exists_run_any {test : σ → Bool} {s : σ} {l : List α}
    (h : (M.exec s l).any test = true) : ∃ t, M.Run s l t ∧ test t = true := by
  obtain ⟨t, ht, htest⟩ := (Option.any_eq_true _ _).mp h
  exact ⟨t, run_of_exec ht, htest⟩

/-- A machine run is exactly a successful replay. -/
theorem run_iff_exec {s t : σ} {l : List α} : M.Run s l t ↔ M.exec s l = some t := by
  refine ⟨fun h => ?_, run_of_exec⟩
  induction l generalizing s with
  | nil => rw [h.of_nil]; rfl
  | cons a l ih =>
    obtain ⟨v, hstep, hrest⟩ := h.of_cons
    rw [exec_cons, hstep]
    exact ih hrest

/-- A run has one end. -/
theorem Run.unique {s t u : σ} {l : List α} (h₁ : M.Run s l t) (h₂ : M.Run s l u) : t = u := by
  rw [run_iff_exec] at h₁ h₂
  exact Option.some.inj (h₁.symm.trans h₂)

variable {P : σ → α → Prop}

@[simp] theorem along_nil (s : σ) : M.Along P s [] := trivial

theorem along_cons {s : σ} {a : α} {l : List α} :
    M.Along P s (a :: l) ↔ P s a ∧ ∀ t, M.step s a = some t → M.Along P t l := by
  cases h : M.step s a <;> simp [Along, h]

/-- A run meets `P` throughout exactly when its part before the last step does and the last step
does too. -/
theorem along_snoc {s t : σ} {l : List α} {a : α} (h : M.Run s l t) :
    M.Along P s (l ++ [a]) ↔ M.Along P s l ∧ P t a := by
  induction l generalizing s with
  | nil =>
    rw [h.of_nil, List.nil_append, along_cons]
    exact ⟨fun ⟨hp, _⟩ => ⟨trivial, hp⟩, fun ⟨_, hp⟩ => ⟨hp, fun _ _ => trivial⟩⟩
  | cons b l ih =>
    obtain ⟨v, hstep, hrest⟩ := h.of_cons
    rw [List.cons_append, along_cons, along_cons]
    constructor
    · rintro ⟨hp, hall⟩
      have hv := (ih hrest).mp (hall v hstep)
      refine ⟨⟨hp, fun w hw => ?_⟩, hv.2⟩
      obtain rfl : v = w := Option.some.inj (hstep.symm.trans hw)
      exact hv.1
    · rintro ⟨⟨hp, hall⟩, hlast⟩
      refine ⟨hp, fun w hw => ?_⟩
      obtain rfl : v = w := Option.some.inj (hstep.symm.trans hw)
      exact (ih hrest).mpr ⟨hall v hstep, hlast⟩

/-- **Simulation rule.**  When two states are related, and every step of the one is matched by a step
of the other that relates them again, every run is matched by a run of the same labels. -/
theorem Run.simulation {τ : Type*} {N : Machine τ α} {R : σ → τ → Prop} {s t : σ} {s' : τ}
    {l : List α} (h : M.Run s l t) (init : R s s')
    (keep : ∀ t a u t', R t t' → M.step t a = some u → ∃ u', N.step t' a = some u' ∧ R u u') :
    ∃ t', N.Run s' l t' ∧ R t t' := by
  induction h with
  | nil => exact ⟨s', .nil, init⟩
  | snoc _ hstep ih =>
    obtain ⟨t', hrun, hrelated⟩ := ih
    obtain ⟨u', hmatched, hrelated⟩ := keep _ _ _ t' hrelated hstep
    exact ⟨u', hrun.snoc hmatched, hrelated⟩

/-- **Invariant rule for conditioned runs.**  What holds of the start and is kept by every step
that meets `P` holds at the end of every run that meets `P` throughout. -/
theorem Run.invariant_along {I : List α → σ → Prop} {s t : σ} {l : List α} (h : M.Run s l t)
    (hP : M.Along P s l) (init : I [] s)
    (keep : ∀ l t a u, I l t → P t a → M.step t a = some u → I (l ++ [a]) u) : I l t := by
  induction h with
  | nil => exact init
  | snoc hrun hstep ih =>
    obtain ⟨hbefore, hlast⟩ := (along_snoc hrun).mp hP
    exact keep _ _ _ _ (ih hbefore) hlast hstep

/-- The condition met along a whole run is met along each of its beginnings. -/
theorem Along.of_append {s : σ} {l₁ l₂ : List α} (h : M.Along P s (l₁ ++ l₂)) :
    M.Along P s l₁ := by
  induction l₁ generalizing s with
  | nil => exact trivial
  | cons a l₁ ih =>
    rw [List.cons_append, along_cons] at h
    exact along_cons.mpr ⟨h.1, fun t ht => ih (h.2 t ht)⟩

/-- Conditions that agree on every step agree along every run. -/
theorem along_congr {Q : σ → α → Prop} (h : ∀ s a, P s a ↔ Q s a) {s : σ} {l : List α} :
    M.Along P s l ↔ M.Along Q s l := by
  induction l generalizing s with
  | nil => exact Iff.rfl
  | cons a l ih =>
    rw [along_cons, along_cons, h]
    exact and_congr_right fun _ => forall₂_congr fun _ _ => ih

/-- Two conditions are met along a run when each of them is. -/
theorem along_and {Q : σ → α → Prop} {s : σ} {l : List α} :
    M.Along (fun s a => P s a ∧ Q s a) s l ↔ M.Along P s l ∧ M.Along Q s l := by
  induction l generalizing s with
  | nil => exact ⟨fun _ => ⟨trivial, trivial⟩, fun _ => trivial⟩
  | cons a l ih =>
    simp only [along_cons, ih]
    constructor
    · rintro ⟨⟨hp, hq⟩, hrest⟩
      exact ⟨⟨hp, fun t ht => (hrest t ht).1⟩, hq, fun t ht => (hrest t ht).2⟩
    · rintro ⟨⟨hp, hrest⟩, hq, hrest'⟩
      exact ⟨⟨hp, hq⟩, fun t ht => ⟨hrest t ht, hrest' t ht⟩⟩

/-! ## Every state on the way -/

/-- `Good` holds of every state that a run of `l` from `s` goes through, the ends included. -/
def Always (M : Machine σ α) (Good : σ → Prop) (s : σ) (l : List α) : Prop :=
  ∀ l₁ l₂ t, l = l₁ ++ l₂ → M.Run s l₁ t → Good t

variable {Good : σ → Prop}

/-- What always holds holds at the end. -/
theorem Always.last {s t : σ} {l : List α} (h : M.Always Good s l) (hrun : M.Run s l t) : Good t :=
  h l [] t (List.append_nil l).symm hrun

theorem Always.of_append {s : σ} {l₁ l₂ : List α} (h : M.Always Good s (l₁ ++ l₂)) :
    M.Always Good s l₁ := by
  intro k₁ k₂ t hl hrun
  exact h k₁ (k₂ ++ l₂) t (by rw [hl, List.append_assoc]) hrun

/-- **Rule for conditions that are exact**, for the beginnings of one run.  When every beginning that
meets `P` throughout ends well, and a step of the run that ends well meets `P`, then the run is
always well exactly when it meets `P` throughout. -/
theorem Run.always_iff_along_upto {s t : σ} {l : List α} (hrun : M.Run s l t)
    (sound : ∀ l₁ l₂ t, l = l₁ ++ l₂ → M.Run s l₁ t → M.Along P s l₁ → Good t)
    (complete : ∀ l₁ a l₂ t u, l = l₁ ++ a :: l₂ → M.Run s l₁ t → M.step t a = some u → Good u →
      P t a) :
    M.Always Good s l ↔ M.Along P s l := by
  constructor
  · intro halways
    -- the condition is met along every beginning, step by step
    have hbeginning : ∀ l₁ l₂, l = l₁ ++ l₂ → M.Along P s l₁ := by
      intro l₁
      induction l₁ using List.reverseRecOn with
      | nil => exact fun _ _ => along_nil s
      | append_singleton l₁ a ih =>
        intro l₂ hl
        obtain ⟨u, hreached, -⟩ := of_append (hl ▸ hrun)
        obtain ⟨v, hbefore, hstep⟩ := hreached.of_snoc
        have hl' : l = l₁ ++ a :: l₂ := by rw [hl, List.append_assoc, List.singleton_append]
        have hgood := halways (l₁ ++ [a]) l₂ u hl hreached
        exact (along_snoc hbefore).mpr
          ⟨ih (a :: l₂) hl', complete l₁ a l₂ v u hl' hbefore hstep hgood⟩
    exact hbeginning l [] (List.append_nil l).symm
  · intro halong l₁ l₂ u hl hreached
    exact sound l₁ l₂ u hl hreached (Along.of_append (hl ▸ halong))

/-- **Rule for conditions that are exact.**  When every run that meets `P` throughout ends well, and
a step that ends well from a state that was reached meets `P`, then a run is always well exactly
when it meets `P` throughout. -/
theorem Run.always_iff_along {s t : σ} {l : List α} (hrun : M.Run s l t)
    (sound : ∀ l t, M.Run s l t → M.Along P s l → Good t)
    (complete : ∀ l t a u, M.Run s l t → M.step t a = some u → Good u → P t a) :
    M.Always Good s l ↔ M.Along P s l :=
  hrun.always_iff_along_upto (fun l₁ _ u _ => sound l₁ u)
    fun l₁ a _ v u _ => complete l₁ v a u

/-- **Rule for conditions that are exact**, with an invariant.  When the start meets `J`, steps that
meet `P` keep it, it makes a state a good one, and a step that ends well meets `P`, then a run is
always well exactly when it meets `P` throughout. -/
theorem Run.always_iff_along_of_keep {J : σ → Prop} {s t : σ} {l : List α} (hrun : M.Run s l t)
    (init : J s)
    (keep : ∀ l t a u, M.Run s l t → J t → P t a → M.step t a = some u → J u)
    (good : ∀ t, J t → Good t)
    (complete : ∀ l t a u, M.Run s l t → M.step t a = some u → Good u → P t a) :
    M.Always Good s l ↔ M.Along P s l := by
  refine hrun.always_iff_along (fun l t hreached halong => good t ?_) complete
  have hboth : M.Run s l t ∧ J t := by
    refine hreached.invariant_along (I := fun l t => M.Run s l t ∧ J t) halong ⟨.nil, init⟩ ?_
    rintro l t a u ⟨hbefore, hj⟩ hp hstep
    exact ⟨hbefore.snoc hstep, keep l t a u hbefore hj hp hstep⟩
  exact hboth.2

end Machine

end Sentinalysis.Lib
