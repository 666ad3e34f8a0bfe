import LinuxLearning.Lib.Run
/-!
# `SourceInterface.cpp`: from attribute changes to `ResourceUpdate`

| here | there (`SampleCallBack/SourceInterface.cpp`) |
| --- | --- |
| `Attribute`, `Receiver`    | the attributes of the two proxies and the `Receive…` functions bound to them |
| `Receiver.receive`         | `ReceiveActiveAudioSource`, `ReceiveEntSourceList` (`:125-153`), `ReceiveTREBLE` … `ReceiveSCV` (`:233-291`) |
| `Init`                     | `SourceInterface::Init` (`:24-64`), with the result of `buildProxy` for each proxy |
| `statusEventListenerAudioControl` | `:66-80` |
| `statusEventListenerAudioSettings` | `:292-311` |
| `step`                     | CommonAPI delivers a status or a change to the listeners subscribed to it |

CommonAPI is outside the repository: `subscribe` adds a listener, an event calls every listener once in the
order of subscription, and nothing here unsubscribes. A value is what the receiver puts into the `QVariant`.

The two attributes of the controls proxy are subscribed once, in `Init`. The six of the settings proxy are
subscribed each time the service becomes available, so after the `n`-th time a change calls its receiver
`n` times (`settings_updates`).
-/

namespace SampleCallBack

inductive AvailabilityStatus
  | UNKNOWN | AVAILABLE | NOT_AVAILABLE
deriving DecidableEq, Repr

inductive Proxy
  | audioControlsProxy | audioSettingsProxy
deriving DecidableEq, Repr

inductive Attribute
  | EntSourceList | ActiveAudioSource
  | Treble | Mid | Bass | Balance | Fade | AVCMode
deriving DecidableEq, Repr

def Attribute.proxy : Attribute → Proxy
  | .EntSourceList | .ActiveAudioSource => .audioControlsProxy
  | _ => .audioSettingsProxy

/-- The functions bound to changed events. -/
inductive Receiver
  | ReceiveEntSourceList | ReceiveActiveAudioSource
  | ReceiveTREBLE | ReceiveMIDRANGE | ReceiveBASS | ReceiveBALANCE | ReceiveFADE | ReceiveSCV
deriving DecidableEq, Repr

/-- The functions bound to proxy status events. -/
inductive StatusListener
  | statusEventListenerAudioControl | statusEventListenerAudioSettings
deriving DecidableEq, Repr

/-- The new value of an attribute, and the contents of a `QVariant`. -/
inductive Value
  | number (n : ℤ)
  /-- the source list, or a `QVariantMap` -/
  | map (entries : List (ℤ × ℤ))
deriving DecidableEq, Repr

/-- The signal `ResourceUpdate`. -/
structure ResourceUpdate where
  propertyName : String
  value : Value
deriving DecidableEq, Repr

/-- What a receiver emits. `ReceiveActiveAudioSource` sends a map in which it has put nothing. -/
def Receiver.receive (data : Value) : Receiver → ResourceUpdate
  | .ReceiveEntSourceList => ⟨"STR_ENTSOURCELIST", data⟩
  | .ReceiveActiveAudioSource => ⟨"STR_ACTIVEAUDIOSOURCE", .map []⟩
  | .ReceiveTREBLE => ⟨"STR_TREBLE", data⟩
  | .ReceiveMIDRANGE => ⟨"STR_MIDRANGE", data⟩
  | .ReceiveBASS => ⟨"STR_BASS", data⟩
  | .ReceiveBALANCE => ⟨"STR_BALANCE", data⟩
  | .ReceiveFADE => ⟨"STR_FADE", data⟩
  | .ReceiveSCV => ⟨"STR_SCV", data⟩

/-- The object with its proxies (`nullptr` or not), the listeners CommonAPI has for it, and the signals it
has emitted. -/
structure SourceInterface where
  audioControlsProxy : Bool
  audioSettingsProxy : Bool
  audioControlsAvailable : Bool
  settingsProxyAvailable : Bool
  statusListeners : Proxy → List StatusListener
  changedListeners : Attribute → List Receiver
  signals : List ResourceUpdate

namespace SourceInterface

/-- `getChangedEvent().subscribe(…)` -/
def subscribe (s : SourceInterface) (a : Attribute) (r : Receiver) : SourceInterface :=
  { s with changedListeners := Function.update s.changedListeners a (s.changedListeners a ++ [r]) }

/-- `getProxyStatusEvent().subscribe(…)` -/
def subscribeStatus (s : SourceInterface) (p : Proxy) (l : StatusListener) : SourceInterface :=
  { s with statusListeners := Function.update s.statusListeners p (s.statusListeners p ++ [l]) }

/-- The object when the members are constructed. -/
def empty : SourceInterface := ⟨false, false, false, false, fun _ => [], fun _ => [], []⟩

/-- `controls`, `settings`: `buildProxy` gives a proxy; without `CONNECT_SERVICES` there is none. -/
def Init (controls settings : Bool) : SourceInterface :=
  let s := { empty with audioControlsProxy := controls }
  let s := if s.audioControlsProxy then
    ((s.subscribeStatus .audioControlsProxy .statusEventListenerAudioControl).subscribe
      .EntSourceList .ReceiveEntSourceList).subscribe .ActiveAudioSource .ReceiveActiveAudioSource
  else s
  let s := { s with audioSettingsProxy := settings }
  if s.audioSettingsProxy then
    s.subscribeStatus .audioSettingsProxy .statusEventListenerAudioSettings
  else s

def statusEventListenerAudioControl (s : SourceInterface) (status : AvailabilityStatus) : SourceInterface :=
  { s with audioControlsAvailable := status == .AVAILABLE }

def statusEventListenerAudioSettings (s : SourceInterface) (status : AvailabilityStatus) : SourceInterface :=
  if status = .AVAILABLE then
    let s := { s with settingsProxyAvailable := true }
    if s.audioSettingsProxy then
      (((((s.subscribe .Treble .ReceiveTREBLE).subscribe .Mid .ReceiveMIDRANGE).subscribe
        .Bass .ReceiveBASS).subscribe .Balance .ReceiveBALANCE).subscribe
        .Fade .ReceiveFADE).subscribe .AVCMode .ReceiveSCV
    else s
  else { s with settingsProxyAvailable := false }

def status (s : SourceInterface) (status : AvailabilityStatus) : StatusListener → SourceInterface
  | .statusEventListenerAudioControl => s.statusEventListenerAudioControl status
  | .statusEventListenerAudioSettings => s.statusEventListenerAudioSettings status

/-- The signals that a change causes. -/
def updates (s : SourceInterface) (a : Attribute) (data : Value) : List ResourceUpdate :=
  (s.changedListeners a).map (Receiver.receive data)

end SourceInterface

open SourceInterface

inductive Event
  | proxyStatus (p : Proxy) (status : AvailabilityStatus)
  | changed (a : Attribute) (data : Value)
deriving DecidableEq, Repr

def step : Event → SourceInterface → Option SourceInterface
  | .proxyStatus p status, s => some ((s.statusListeners p).foldl (fun s l => s.status status l) s)
  | .changed a data, s => some { s with signals := s.signals ++ s.updates a data }

/-! ## How often an attribute is subscribed -/

variable {s s' : SourceInterface} {a : Attribute} {controls settings : Bool} {es : List Event}

/-- The receiver an attribute is bound to. -/
def Attribute.receiver : Attribute → Receiver
  | .EntSourceList => .ReceiveEntSourceList
  | .ActiveAudioSource => .ReceiveActiveAudioSource
  | .Treble => .ReceiveTREBLE
  | .Mid => .ReceiveMIDRANGE
  | .Bass => .ReceiveBASS
  | .Balance => .ReceiveBALANCE
  | .Fade => .ReceiveFADE
  | .AVCMode => .ReceiveSCV

/-- How often the event calls `statusEventListenerAudioSettings` with `AVAILABLE`. -/
def madeAvailable (e : Event) (s : SourceInterface) : ℕ :=
  if e = .proxyStatus .audioSettingsProxy .AVAILABLE then
    (s.statusListeners .audioSettingsProxy).count .statusEventListenerAudioSettings
  else 0

/-- After `n` calls with `AVAILABLE` every settings attribute has its receiver `n` times, every controls
attribute of an existing proxy once. -/
structure Subscribed (controls settings : Bool) (n : ℕ) (s : SourceInterface) : Prop where
  proxy : s.audioSettingsProxy = settings
  controlsStatus : s.statusListeners .audioControlsProxy =
    if controls then [.statusEventListenerAudioControl] else []
  settingsStatus : s.statusListeners .audioSettingsProxy =
    if settings then [.statusEventListenerAudioSettings] else []
  controls : ∀ a : Attribute, a.proxy = .audioControlsProxy →
    s.changedListeners a = if controls then [a.receiver] else []
  settings : ∀ a : Attribute, a.proxy = .audioSettingsProxy →
    s.changedListeners a = List.replicate n a.receiver

theorem subscribed_Init (controls settings : Bool) : Subscribed controls settings 0 (Init controls settings) := by
  constructor
  · cases controls <;> cases settings <;> rfl
  · cases controls <;> cases settings <;> rfl
  · cases controls <;> cases settings <;> rfl
  · intro a ha
    cases a <;> cases controls <;> cases settings <;> first | rfl | cases ha
  · intro a ha
    cases a <;> cases controls <;> cases settings <;> first | rfl | cases ha

/-- The settings become available: six more subscriptions. -/
theorem subscribed_available {n : ℕ} (h : Subscribed controls true n s) :
    Subscribed controls true (n + 1) (s.statusEventListenerAudioSettings .AVAILABLE) := by
  unfold statusEventListenerAudioSettings
  simp only [if_true, h.proxy]
  refine ⟨rfl, h.controlsStatus, h.settingsStatus, ?_, ?_⟩
  · intro a ha
    rw [← h.controls a ha]
    cases a <;> first | rfl | cases ha
  · intro a ha
    rw [List.replicate_succ', ← h.settings a ha]
    cases a <;> first | rfl | cases ha

theorem subscribed_step (e : Event) (s s' : SourceInterface) (n : ℕ) (h : Subscribed controls settings n s)
    (hs : step e s = some s') : Subscribed controls settings (n + madeAvailable e s) s' := by
  cases e with
  | changed a data =>
    cases hs
    exact ⟨h.proxy, h.controlsStatus, h.settingsStatus, h.controls, h.settings⟩
  | proxyStatus p status =>
    simp only [step, Option.some.injEq] at hs
    subst hs
    cases p with
    | audioControlsProxy =>
      have hzero : madeAvailable (.proxyStatus .audioControlsProxy status) s = 0 := by simp [madeAvailable]
      rw [hzero, h.controlsStatus]
      cases controls with
      | false => exact h
      | true => exact ⟨h.proxy, h.controlsStatus, h.settingsStatus, h.controls, h.settings⟩
    | audioSettingsProxy =>
      unfold madeAvailable
      rw [h.settingsStatus]
      cases settings with
      | false => simpa using h
      | true =>
        by_cases hstatus : status = .AVAILABLE
        · subst hstatus
          exact subscribed_available h
        · simp only [Event.proxyStatus.injEq, true_and, hstatus, if_false, Nat.add_zero]
          simp only [if_true, List.foldl_cons, List.foldl_nil, SourceInterface.status,
            statusEventListenerAudioSettings, hstatus, if_false]
          exact ⟨h.proxy, h.controlsStatus, h.settingsStatus, h.controls, h.settings⟩

/-- How often the settings were made available in a run. -/
def availabilities (controls settings : Bool) (es : List Event) : ℕ :=
  Run.count step madeAvailable es (Init controls settings)

theorem subscribed_run (h : Run.exec step es (Init controls settings) = some s) :
    Subscribed controls settings (availabilities controls settings es) s := by
  have hrun := Run.counted subscribed_step (subscribed_Init controls settings) h
  rwa [Nat.zero_add] at hrun

/-- **Every change of a settings attribute is reported once for each time the settings were made
available.** -/
theorem settings_updates (h : Run.exec step es (Init controls settings) = some s)
    (ha : a.proxy = .audioSettingsProxy) (data : Value) :
    s.updates a data = List.replicate (availabilities controls settings es) (a.receiver.receive data) := by
  unfold updates
  rw [(subscribed_run h).settings a ha, List.map_replicate]

/-- The attributes subscribed in `Init` are reported once. -/
theorem controls_updates (h : Run.exec step es (Init true settings) = some s)
    (ha : a.proxy = .audioControlsProxy) (data : Value) : s.updates a data = [a.receiver.receive data] := by
  unfold updates
  rw [(subscribed_run h).controls a ha]
  rfl

/-- **One change, one update.** A change of a settings attribute emits exactly one signal if and only if the
settings have been made available exactly once. -/
theorem one_update_iff (h : Run.exec step es (Init controls settings) = some s)
    (ha : a.proxy = .audioSettingsProxy) (data : Value) :
    ∃ s', step (.changed a data) s = some s' ∧
      (s'.signals = s.signals ++ [a.receiver.receive data] ↔ availabilities controls settings es = 1) := by
  refine ⟨_, rfl, ?_⟩
  rw [List.append_cancel_left_eq, settings_updates h ha]
  constructor
  · intro hone
    have hlen := congrArg List.length hone
    simpa using hlen
  · intro hone
    rw [hone]
    rfl

/-- The settings are available once, then the bass changes. -/
theorem one_update_iff_sample : ∃ s s',
    Run.exec step [.proxyStatus .audioSettingsProxy .AVAILABLE] (Init true true) = some s ∧
      step (.changed .Bass (.number 3)) s = some s' ∧ s'.signals = s.signals ++ [⟨"STR_BASS", .number 3⟩] := by
  have hrun : Run.exec step [.proxyStatus .audioSettingsProxy .AVAILABLE] (Init true true) =
      some ((Init true true).statusEventListenerAudioSettings .AVAILABLE) := rfl
  have hbass : Attribute.Bass.proxy = .audioSettingsProxy := rfl
  obtain ⟨s', hs', hiff⟩ := one_update_iff hrun hbass (.number 3)
  exact ⟨_, s', hrun, hs', hiff.2 (by decide)⟩

/-- The service is restarted before the treble changes. -/
def restarted : List Event :=
  [.proxyStatus .audioSettingsProxy .AVAILABLE, .proxyStatus .audioSettingsProxy .NOT_AVAILABLE,
    .proxyStatus .audioSettingsProxy .AVAILABLE, .changed .Treble (.number 3)]

/-- One change, two updates. -/
theorem updated_twice : (Run.exec step restarted (Init true true)).map SourceInterface.signals =
    some [⟨"STR_TREBLE", .number 3⟩, ⟨"STR_TREBLE", .number 3⟩] := by
  decide

end SampleCallBack
