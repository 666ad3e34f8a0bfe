import LinuxLearning.Speller.Focus
/-!
# Typing with the hardware key

`press` publishes the character of the button it finds under `nPressed` and does not look at its flag.
With the hardware key that button is the one under the cursor, and the cursor of an enabled speller is
on an enabled button. When the speller is disabled the cursor stays where it is (`:41-44`), every
button is disabled, and the key still types: touch asks for `bEnabled` first (`:1166`), `press` does not.

* `Typed` — what `HK_MAIN_PRESS` publishes is the character of an enabled button;
* `typing_law` — the key types enabled buttons in a run if and only if the speller is enabled each time
  it is pressed on a button with a letter.
-/

namespace Speller

open Lua (index wp wp_bind wp_mono Keeps)

variable {p : Platform} {props : Props} {es : List Event} {s s' : State} {n : ℕ}

/-- The values of `PressedCharacter` set between two states. -/
def published (s s' : State) : List ℕ :=
  (s'.log.drop s.log.length).filterMap fun
    | .pressedCharacter value => some value
    | _ => none

/-- The character under the cursor, 0 without a cursor. -/
def State.character (s : State) : ℕ := ((s.nCursor.bind s.buttonDef?).map ButtonDef.nCharacter).getD 0

def Event.isMainPress : Event → Bool
  | .onMessage m => m.eventid == .HK_MAIN_PRESS
  | _ => false

/-- `HK_MAIN_PRESS` with the duration that publishes a character. -/
def Event.isTyping : Event → Bool
  | .onMessage m => m.eventid == .HK_MAIN_PRESS && m.param1 == .duration .PRESS
  | _ => false

/-- If `HK_MAIN_PRESS` publishes a character that is not 0, it is the one of the pressed button, and
this button is enabled in the current layout. -/
def Typed (p : Platform) (e : Event) (s : State) : Prop :=
  e.isMainPress → ∀ value ∈ published s (Lua.run (handle p e) s).2, value ≠ p.CID_OFFSET_CHARACTER →
    ∃ b d, (Lua.run (handle p e) s).2.nPressed = some b ∧
      (Lua.run (handle p e) s).2.buttonDef? b = some d ∧
      value = (d.nCharacter &&& p.CID_DATA_MASK) + p.CID_OFFSET_CHARACTER ∧ d.bEnabled = true

/-- When the key is pressed on a button with a letter, the speller is enabled. -/
def TypesEnabled (p : Platform) (e : Event) (s : State) : Prop :=
  e.isTyping → s.character &&& p.CID_DATA_MASK ≠ 0 → s.bEnabled = true

instance (e : Event) (s : State) : Decidable (TypesEnabled p e s) := by
  unfold TypesEnabled
  infer_instance

theorem published_append {log : List Effect} (h : s'.log = s.log ++ log) :
    published s s' = log.filterMap fun
      | .pressedCharacter value => some value
      | _ => none := by
  unfold published
  rw [h, List.drop_left]

/-- The pressed button exists when the cursor does. -/
theorem pressedCharacter_wp (hcursor : ∀ c, s.nPressed = some c → ∃ d, s.buttonDef? c = some d)
    {E : Error → State → Prop} :
    wp pressedCharacter
      (fun nCharacter s' => s' = s ∧
        nCharacter = ((s.nPressed.bind s.buttonDef?).map ButtonDef.nCharacter).getD 0) E s := by
  unfold pressedCharacter
  rw [wp_bind, Lua.wp_get]
  cases hc : s.nPressed with
  | none => exact ⟨rfl, rfl⟩
  | some c =>
    obtain ⟨d, hd⟩ := hcursor c hc
    simp only [hd, Lua.orRaise_some, wp_bind, Lua.wp_pure, Option.bind_some, Option.map_some,
      Option.getD_some, and_self]

/-- The press publishes the character of the pressed button, if that exists. -/
theorem press_wp (hpressed : ∀ c, s.nPressed = some c → ∃ d, s.buttonDef? c = some d) :
    wp (press p (.duration .PRESS))
      (fun _ s' => s'.nPressed = s.nPressed ∧ s'.shape = s.shape ∧ s'.log = s.log ++
        [.pressedCharacter ((((s.nPressed.bind s.buttonDef?).map ButtonDef.nCharacter).getD 0 &&&
          p.CID_DATA_MASK) + p.CID_OFFSET_CHARACTER),
        .performPropertyAction "OUT_EVENT_pressed", .widgetInvalidate]) (fun _ _ => False) s := by
  unfold press
  simp only [wp_bind, Lua.wp_modify]
  refine wp_mono (pressedCharacter_wp (s := { s with bPressed := true }) hpressed) ?_ (fun _ _ h => h)
  rintro _ s' ⟨rfl, rfl⟩
  refine ⟨rfl, rfl, ?_⟩
  simp only [List.append_assoc]
  rfl

theorem pressedCharacter_missing {c : ℤ} (hc : s.nPressed = some c) (hnone : s.buttonDef? c = none) :
    wp pressedCharacter (fun _ _ => False) (fun e _ => e = .pressedButton) s := by
  unfold pressedCharacter
  simp only [wp_bind, Lua.wp_get, hc, hnone, Lua.orRaise_none, Lua.wp_throw]

/-- A press of a button that does not exist raises. -/
theorem press_missing {c : ℤ} (hc : s.nPressed = some c) (hnone : s.buttonDef? c = none) :
    wp (press p (.duration .PRESS)) (fun _ _ => False) (fun e _ => e = .pressedButton) s := by
  unfold press
  simp only [wp_bind, Lua.wp_modify]
  have hmissing := pressedCharacter_missing (s := { s with bPressed := true }) hc hnone
  exact wp_mono hmissing (fun _ _ h => h.elim) (fun _ _ h => h)

/-- What `HK_MAIN_PRESS` does in `s`: it publishes the character under the cursor. -/
structure Pressed (p : Platform) (param1 : Param) (s s' : State) : Prop where
  nPressed : s'.nPressed = s.nCursor
  shape : s'.shape = s.shape
  published : published s s' = if param1 = .duration .PRESS then
    [(s.character &&& p.CID_DATA_MASK) + p.CID_OFFSET_CHARACTER] else []

theorem onMainPress_wp (h : Good p n s) (param1 : Param) :
    wp (onMainPress p param1) (fun _ s' => Pressed p param1 s s') (fun _ _ => False) s := by
  unfold onMainPress
  rw [wp_bind, Lua.wp_modify]
  cases param1 with
  | nil => exact ⟨rfl, rfl, by simp [published]⟩
  | number k => exact ⟨rfl, rfl, by simp [published]⟩
  | userdata link => exact ⟨rfl, rfl, by simp [published]⟩
  | duration d =>
    cases d with
    | PRESS =>
      refine wp_mono (press_wp ?_) ?_ (fun _ _ h => h)
      · intro c hc
        obtain ⟨d, hd, -⟩ := h.cursor c hc
        exact ⟨d, hd⟩
      · rintro _ s' ⟨hnPressed, hshape, hlog⟩
        refine ⟨hnPressed, hshape, ?_⟩
        rw [published_append (s := s) hlog]
        rfl
    | LONGPRESS => exact ⟨rfl, rfl, by rw [published_append rfl]; rfl⟩
    | REPEAT => exact ⟨rfl, rfl, by rw [published_append rfl]; rfl⟩
    | SHORTRELEASE => exact ⟨rfl, rfl, by rw [published_append rfl]; rfl⟩
    | RELEASE =>
      refine ⟨rfl, rfl, ?_⟩
      rw [published_append]
      rotate_left
      · simp only [List.append_assoc]
        rfl
      · rfl

/-- The handler of `HK_MAIN_PRESS` is `onMainPress`. -/
theorem mainPress_run (h : Good p n s) {m : Message} (hm : m.eventid = .HK_MAIN_PRESS) :
    Pressed p m.param1 s (Lua.run (handle p (.onMessage m)) s).2 := by
  have hrun : handle p (.onMessage m) = (onMainPress p m.param1 >>= fun _ => pure 1) >>= fun _ => pure () := by
    unfold handle onMessage
    simp only [hm]
  rw [hrun]
  apply Lua.state_of_wp
  simp only [wp_bind, Lua.wp_pure]
  exact wp_mono (onMainPress_wp h m.param1) (fun _ _ h => h) (fun _ _ h => h.elim)

/-- A state with a letter under the cursor. -/
theorem exists_character (h : s.character &&& p.CID_DATA_MASK ≠ 0) :
    ∃ c d, s.nCursor = some c ∧ s.buttonDef? c = some d ∧ s.character = d.nCharacter := by
  unfold State.character at h ⊢
  cases hc : s.nCursor with
  | none => simp [hc] at h
  | some c =>
    cases hd : s.buttonDef? c with
    | none => simp [hc, hd] at h
    | some d => exact ⟨c, d, rfl, hd, by simp [hd]⟩

/-- **One press.** It publishes the character of an enabled button if and only if the speller is enabled
or there is no letter under the cursor. -/
theorem typed_iff (h : Good p n s) (e : Event) : Typed p e s ↔ TypesEnabled p e s := by
  by_cases hpress : e.isMainPress
  · cases e with
    | onMessage m =>
      have hm : m.eventid = .HK_MAIN_PRESS := by simpa [Event.isMainPress] using hpress
      obtain ⟨hnPressed, hshape, hpub⟩ := mainPress_run h hm
      unfold Typed TypesEnabled
      rw [hpub, hnPressed]
      by_cases hparam : m.param1 = .duration .PRESS
      · have htyping : Event.isTyping (.onMessage m) := by simp [Event.isTyping, hm, hparam]
        simp only [hpress, htyping, hparam, if_true, true_implies, List.mem_singleton, forall_eq]
        constructor
        · intro htyped hchar
          obtain ⟨b, d, hb, hd, -, hon⟩ := htyped (by omega)
          rw [buttonDef?_of_shape hshape] at hd
          -- all buttons of a disabled speller are disabled
          cases hen : s.bEnabled with
          | true => rfl
          | false =>
            obtain ⟨l, hl, hbutton⟩ := Option.bind_eq_some_iff.1 hd
            have hoff := (h.disabled hen).1 l (Lua.mem_of_index hl) d (Lua.mem_of_index hbutton)
            unfold Off at hoff
            rw [hon] at hoff
            simp at hoff
        · intro hcond hvalue
          have hchar : s.character &&& p.CID_DATA_MASK ≠ 0 := by
            intro hzero
            rw [hzero, Nat.zero_add] at hvalue
            exact hvalue rfl
          obtain ⟨c, d, hc, hd, hcd⟩ := exists_character hchar
          obtain ⟨d', hd', hon⟩ := h.cursor c hc
          rw [hd, Option.some.injEq] at hd'
          subst hd'
          exact ⟨c, d, hc, by rw [buttonDef?_of_shape hshape, hd], by rw [hcd], hon (hcond hchar)⟩
      · have htyping : Event.isTyping (.onMessage m) = false := by simp [Event.isTyping, hparam]
        simp [hparam, htyping]
    | _ => simp [Event.isMainPress] at hpress
  · have htyping : e.isTyping = false := by
      cases e with
      | onMessage m =>
        have hm : m.eventid ≠ .HK_MAIN_PRESS := by simpa [Event.isMainPress] using hpress
        simp [Event.isTyping, hm]
      | _ => rfl
    simp [Typed, TypesEnabled, hpress, htyping]

/-- **Typing.** In a run of a well-sized speller every press of the hardware key publishes the character of
an enabled button, if it publishes one, if and only if the speller is enabled each time the key is
pressed on a button with a letter. -/
theorem typing_law (hp : WellSized p) (props : Props) (es : List Event) :
    Run.Along (step p) (Typed p) es (constructor p props) ↔
      Run.Along (step p) (TypesEnabled p) es (constructor p props) := by
  have hstep : ∀ (e : Event) (s s' : State), (∃ n, Good p n s) → step p e s = some s' → ∃ n, Good p n s' :=
    fun e s s' ⟨n, h⟩ hs => ⟨_, step_good e s s' n h hs⟩
  have hstart : ∃ n, Good p n (constructor p props) := ⟨0, good_constructor hp props⟩
  constructor
  · intro htyped
    exact Run.along_of_invariant (fun e s s' _ => hstep e s s')
      (fun e s h ⟨n, hgood⟩ => (typed_iff hgood e).1 h) htyped hstart
  · intro hcond
    exact Run.along_of_invariant (fun e s s' _ => hstep e s s')
      (fun e s h ⟨n, hgood⟩ => (typed_iff hgood e).2 h) hcond hstart

/-- `HK_MAIN_PRESS` with `DURATION_PRESS`. -/
def pressKey : Event := send .HK_MAIN_PRESS (.duration .PRESS)

theorem typing_law_sample : Run.Along (step numPad) (Typed numPad)
    [request 7 true, pressKey, send .HK_MAIN_POS .nil, pressKey] (constructor numPad allKeys) :=
  (typing_law numPad_wellSized allKeys _).2 (by decide +kernel)

/-- The speller is disabled while it has the focus. -/
def disableFocused : List Event := [request 7 true, .changeProps ⟨some "", some 1, some 0⟩, .onDataUpdate 0]

/-- A disabled speller types: the key publishes `1`, the character of a disabled button. -/
theorem disabled_types : ∃ s d,
    Run.exec (step numPad) disableFocused (constructor numPad allKeys) = some s ∧
      s.props.Enabled = some 0 ∧
      published s (Lua.run (handle numPad pressKey) s).2 = [0x10000 + 49] ∧
      ((Lua.run (handle numPad pressKey) s).2.nPressed.bind
        (Lua.run (handle numPad pressKey) s).2.buttonDef?) = some d ∧ d.bEnabled = false ∧
      ¬ Typed numPad pressKey s := by
  have h : (Run.exec (step numPad) disableFocused (constructor numPad allKeys)).map
      (fun s => (s.props.Enabled, published s (Lua.run (handle numPad pressKey) s).2,
        (Lua.run (handle numPad pressKey) s).2.nPressed.bind (Lua.run (handle numPad pressKey) s).2.buttonDef?)) =
      some (some 0, [0x10000 + 49], some ⟨false, 49, "1", false⟩) := by
    decide +kernel
  obtain ⟨s, hs, he⟩ := Option.map_eq_some_iff.1 h
  simp only [Prod.mk.injEq] at he
  refine ⟨s, _, hs, he.1, he.2.1, he.2.2, rfl, fun htyped => ?_⟩
  unfold Typed at htyped
  rw [he.2.1] at htyped
  obtain ⟨b, d, hb, hd, -, hon⟩ := htyped rfl (0x10000 + 49) List.mem_cons_self (by decide)
  have hbind := he.2.2
  rw [hb, Option.bind_some, hd, Option.some.injEq] at hbind
  rw [hbind] at hon
  simp at hon

end Speller
