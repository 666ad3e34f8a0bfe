import LinuxLearning.Speller.Moves
import LinuxLearning.Speller.Focus
/-!
# What the destructor leaves registered

The constructor registers `GUI_EVENT_WIDGET_VIEW_CHANGE` always (`:156`), the toggle event if there is one
(`:191-195`), and `focusGained` the seven `HK_MAIN` events. The destructor looks at the last two only: its
comment says that the widget was registered "only in case of FocusGained or a valid ToggleLayoutEvent".

* `step_viewChange` — no event takes back the registration for the view change;
* `destructor_law` — nothing stays registered if and only if the speller has the focus in the end or a toggle
  event is configured.
-/

namespace Speller

variable {p : Platform} {props : Props} {es : List Event} {s s' : State}

theorem viewChange_not_hkMain : EventId.WIDGET_VIEW_CHANGE ∉ hkMain := by decide

/-- Only `focusLost` takes registrations back, and only its own. -/
theorem step_viewChange (h : InRange s) {e : Event} (hs : step p e s = some s') :
    .WIDGET_VIEW_CHANGE ∈ s'.registered ↔ .WIDGET_VIEW_CHANGE ∈ s.registered := by
  rw [(step_moved h hs).registered viewChange_not_hkMain, written_registered]

theorem viewChange_constructor (p : Platform) (props : Props) :
    .WIDGET_VIEW_CHANGE ∈ (constructor p props).registered := by
  rw [(constructor_moved p props).registered viewChange_not_hkMain]
  show _ ∈ (initial p props).registered
  unfold initial
  cases p.nToggleLayoutEvent with
  | none => simp
  | some e => simp

/-- **The view change stays registered** in every state of a run. -/
theorem viewChange_run (h : Run.exec (step p) es (constructor p props) = some s) :
    .WIDGET_VIEW_CHANGE ∈ s.registered := by
  have hrun : InRange s ∧ .WIDGET_VIEW_CHANGE ∈ s.registered := by
    refine Run.invariant' (I := fun s => InRange s ∧ .WIDGET_VIEW_CHANGE ∈ s.registered) ?_ ?_ h
    · rintro e s s' ⟨hin, hview⟩ hs
      exact ⟨step_inRange hin hs, (step_viewChange hin hs).2 hview⟩
    · exact ⟨inRange_constructor p props, viewChange_constructor p props⟩
  exact hrun.2

/-- **The destructor.** No event is registered for the widget any more if and only if the speller has the
focus when it is destroyed or a toggle event is configured. -/
theorem destructor_law (h : Run.exec (step p) es (constructor p props) = some s) :
    (∀ e, e ∉ (destructor p s).registered) ↔ s.bGotFocus = true ∨ p.nToggleLayoutEvent ≠ none := by
  unfold destructor
  by_cases hcond : s.bGotFocus = true ∨ p.nToggleLayoutEvent ≠ none
  · rw [if_pos hcond]
    simp [hcond]
  · rw [if_neg hcond]
    constructor
    · exact fun hnone => absurd (viewChange_run h) (hnone _)
    · exact fun hcond' => absurd hcond' hcond

/-- A speller that is destroyed while it has the focus. -/
theorem destructor_law_sample : ∃ s,
    Run.exec (step numPad) [request 7 true] (constructor numPad allKeys) = some s ∧
      .HK_MAIN_POS ∈ s.registered ∧ ∀ e, e ∉ (destructor numPad s).registered := by
  have h : (Run.exec (step numPad) [request 7 true] (constructor numPad allKeys)).map
      (fun s => (s.bGotFocus, decide (.HK_MAIN_POS ∈ s.registered))) = some (true, true) := by
    decide +kernel
  obtain ⟨s, hs, he⟩ := Option.map_eq_some_iff.1 h
  simp only [Prod.mk.injEq, decide_eq_true_eq] at he
  exact ⟨s, hs, he.2, (destructor_law hs).2 (.inl he.1)⟩

/-- The keys without a toggle event. -/
def noToggle : Platform := { numPad with IN_EVENT_toggle_layout := none }

/-- Created and destroyed, the speller is still registered for the view change. -/
theorem viewChange_left : ∃ s, Run.exec (step noToggle) [] (constructor noToggle allKeys) = some s ∧
    WellSized noToggle ∧ .WIDGET_VIEW_CHANGE ∈ (destructor noToggle s).registered :=
  ⟨_, rfl, by decide +kernel, by decide +kernel⟩

end Speller
