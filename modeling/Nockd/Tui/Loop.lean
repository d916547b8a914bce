import Nockd.Api.Call
import Nockd.Config.Ansi
import Nockd.Config.Icon
import Nockd.Data.Lines
import Nockd.Interleaving.Machine

/-!
# The terminal dashboard

A turn of the event loop polls the daemon if a second has passed, draws a frame, and takes the
next key. What the daemon answers, the keys and the clock are the turn's own.
-/

namespace Nockd

namespace Tui

open Api Config Interleaving Supervisor

structure AppStatus where
  name : String
  desiredStatus : String
  artifactHash : String
  kernelHash : String
  endpoint : Option String
  restartPolicy : String
  statusLabel : Option String
  verified : String
  runtime : Option RuntimeStatus

structure State where
  apps : List AppStatus := []
  selected : ℕ := 0
  logs : String := ""
  statusMsg : String := "connecting…"

inductive KeyCode where
  | char (c : Char)
  | esc
  | down
  | up
  | other
deriving DecidableEq

structure KeyEvent where
  code : KeyCode
  press : Bool

/-- What a turn meets. Instants are in milliseconds. -/
structure Turn where
  polledAt : ℤ
  list : Except String (List AppStatus)
  logs : String → Except String String
  refreshedAt : ℤ
  height : UInt16
  event : Option KeyEvent
  answer : Except String Unit
  pressedAt : ℤ

/-! ## Frames -/

/-- `{:?}`, in lower case -/
def stateWord : RunState → String
  | .running => "running"
  | .stopping => "stopping"
  | .stopped => "stopped"
  | .crashed => "crashed"
  | .backoff => "backoff"

def healthWord : HealthState → String
  | .serving => "serving"
  | .notServing => "notserving"
  | .unreachable => "unreachable"
  | .unknown => "unknown"

inductive Color where
  | green
  | red
  | gray
deriving DecidableEq

def stateColor (st : String) : Color :=
  if st = "running" then .green
  else if st = "crashed" ∨ st = "backoff" then .red
  else .gray

/-- A row of the fleet table. -/
structure Row where
  app : String
  state : String
  color : Color
  health : String
  pid : String
  restarts : String
  endpoint : String
  metric : String
  highlighted : Bool
deriving DecidableEq

def metricOf (a : AppStatus) : String :=
  match a.runtime.bind (·.statusLine) with
  | none => "—"
  | some line =>
    let label := String.ofList (trim (a.statusLabel.getD "").toList)
    if label = "" then line else label ++ " " ++ line

def rowOf (selected i : ℕ) (a : AppStatus) : Row :=
  let st := match a.runtime with
    | some rt => stateWord rt.state
    | none => a.desiredStatus
  { app := a.name
    state := st
    color := stateColor st
    health := (a.runtime.map fun rt => healthWord rt.health).getD "unknown"
    pid := ((a.runtime.bind (·.pid)).map toString).getD "—"
    restarts := (a.runtime.map fun rt => toString rt.restarts.toNat).getD "0"
    endpoint := a.endpoint.getD "—"
    metric := metricOf a
    highlighted := i = selected }

/-- `logs.lines().count()` -/
def lineCount (logs : List Char) : ℕ :=
  (Lines.whole '\n' logs).length + if Lines.rest '\n' logs = [] then 0 else 1

/-- Scroll so that the tail of the log is visible, less the borders of the pane. -/
def logScroll (logs : String) (height : UInt16) : UInt16 :=
  UInt16.ofNat ((UInt16.ofNat (lineCount logs.toList)).toNat - (height.toNat - 2))

structure Frame where
  rows : List Row
  logTitle : String
  logs : String
  scroll : UInt16
  footer : String

def ui (s : State) (height : UInt16) : Frame where
  rows := s.apps.zipIdx.map fun (a, i) => rowOf s.selected i a
  logTitle := match s.apps[s.selected]? with
    | some a => " logs — " ++ a.name ++ " "
    | none => " logs "
  logs := if s.logs = "" then "(no output yet)" else s.logs
  scroll := logScroll s.logs height
  footer := s.statusMsg

/-! ## The loop -/

/-- `refresh` -/
def State.refresh (s : State) (list : Except String (List AppStatus))
    (logs : String → Except String String) : State :=
  match list with
  | .error e => { s with statusMsg := "daemon unreachable: " ++ e }
  | .ok apps =>
    let selected := if apps.length ≤ s.selected then apps.length - 1 else s.selected
    match apps[selected]? with
    -- the list is empty, and the selection is left where it is
    | none => { s with apps, statusMsg := "", logs := "" }
    | some a =>
      let text := match logs a.name with
        | .ok text => text
        | .error _ => ""
      { apps, selected, statusMsg := "", logs := String.ofList (stripAnsi text.toList) }

/-- The app that an action goes to. -/
def State.target (s : State) : Option String := s.apps[s.selected]?.map (·.name)

/-- `action`, with the answer of the daemon. -/
def State.action (s : State) (verb : String) (answer : Except String Unit) : State :=
  match s.target with
  | none => s
  | some name =>
    match answer with
    | .ok _ => { s with statusMsg := verb ++ " " ++ name }
    | .error e => { s with statusMsg := verb ++ " " ++ name ++ " failed: " ++ e }

/-- The action of a key. -/
def KeyCode.verb : KeyCode → Option String
  | .char 'r' => some "restart"
  | .char 's' => some "stop"
  | .char 'x' => some "start"
  | _ => none

def KeyCode.quits (k : KeyCode) : Bool := k = .char 'q' || k = .esc

/-- What a key does to the state. -/
def State.press (s : State) (k : KeyCode) (answer : Except String Unit) : State :=
  match k with
  | .down | .char 'j' =>
    if s.apps.isEmpty then s else { s with selected := min (s.selected + 1) (s.apps.length - 1) }
  | .up | .char 'k' => { s with selected := s.selected - 1 }
  | k =>
    match k.verb with
    | some verb => s.action verb answer
    | none => s

/-- The loop at its top. No instant is before `earliest`. -/
structure Loop where
  state : State := {}
  lastPoll : ℤ
  earliest : ℤ

/-- `now.checked_sub(10 s).unwrap_or(now)` -/
def rewound (earliest now : ℤ) : ℤ := if earliest ≤ now - 10000 then now - 10000 else now

def Loop.due (s : Loop) (t : Turn) : Bool := s.lastPoll + 1000 ≤ t.polledAt

/-- The state that is drawn. -/
def Loop.drawn (s : Loop) (t : Turn) : State :=
  if s.due t then s.state.refresh t.list t.logs else s.state

def Loop.frame (s : Loop) (t : Turn) : Frame := ui (s.drawn t) t.height

/-- The key that is pressed in a turn. -/
def Turn.key (t : Turn) : Option KeyCode := (t.event.filter (·.press)).map (·.code)

/-- The request that a key sends, its verb and its app. -/
def Loop.sent (s : Loop) (t : Turn) : Option (String × String) :=
  (t.key.bind KeyCode.verb).bind fun verb => (s.drawn t).target.map fun name => (verb, name)

/-- One turn, unless it ends the loop. -/
def Loop.turn (s : Loop) (t : Turn) : Option Loop :=
  let polled := if s.due t then t.refreshedAt else s.lastPoll
  match t.key with
  | none => some { s with state := s.drawn t, lastPoll := polled }
  | some k =>
    if k.quits then none
    else
      some
        { s with
          state := (s.drawn t).press k t.answer
          lastPoll := if k.verb.isSome then rewound s.earliest t.pressedAt else polled }

/-! ## The highlighted row -/

def Frame.highlighted (f : Frame) : List Row := f.rows.filter (·.highlighted)

theorem filter_zipIdx {α : Type} (xs : List α) (i n : ℕ) :
    (xs.zipIdx n).filter (fun p => p.2 = n + i) = xs[i]?.toList.map fun x => (x, n + i) := by
  induction xs generalizing i n with
  | nil => rfl
  | cons x xs ih =>
      rw [List.zipIdx_cons]
      cases i with
      | zero =>
          have hlater : (xs.zipIdx (n + 1)).filter (fun p => p.2 = n + 0) = [] := by
            rw [List.filter_eq_nil_iff]
            intro p hp
            have hle := List.le_snd_of_mem_zipIdx hp
            simp only [decide_eq_true_eq]
            omega
          rw [List.filter_cons, hlater]
          simp
      | succ i =>
          have hnext : n + (i + 1) = n + 1 + i := by omega
          rw [List.filter_cons, if_neg (by simp), hnext, ih]
          rfl

theorem highlighted_ui (s : State) (height : UInt16) :
    (ui s height).highlighted = s.apps[s.selected]?.toList.map (rowOf s.selected s.selected) := by
  have hfilter := filter_zipIdx s.apps s.selected 0
  rw [Nat.zero_add] at hfilter
  unfold Frame.highlighted ui
  rw [List.filter_map]
  change (s.apps.zipIdx.filter fun p => p.2 = s.selected).map _ = _
  rw [hfilter, List.map_map]
  rfl

/-- The selection is in the list, unless this is empty. -/
def State.InRange (s : State) : Prop := s.apps ≠ [] → s.selected < s.apps.length

variable {s : State} {l l' : Loop} {t : Turn}

theorem inRange_refresh (h : s.InRange) (list : Except String (List AppStatus))
    (logs : String → Except String String) : (s.refresh list logs).InRange := by
  unfold State.refresh
  cases list with
  | error e => exact h
  | ok apps =>
      simp only
      split
      case h_1 hnone =>
        intro hne
        have hpos : 0 < apps.length := List.length_pos_iff.2 hne
        rw [List.getElem?_eq_none_iff] at hnone
        split at hnone <;> omega
      case h_2 a hsome => exact fun _ => (List.getElem?_eq_some_iff.1 hsome).1

/-- An action changes the message only. -/
theorem action_eq (s : State) (verb : String) (answer : Except String Unit) :
    ∃ statusMsg, s.action verb answer = { s with statusMsg } := by
  unfold State.action
  split
  · exact ⟨s.statusMsg, rfl⟩
  · split
    · exact ⟨_, rfl⟩
    · exact ⟨_, rfl⟩

theorem inRange_press (h : s.InRange) (k : KeyCode) (answer : Except String Unit) :
    (s.press k answer).InRange := by
  unfold State.press
  split
  case h_1 | h_2 =>
    split
    case isTrue => exact h
    case isFalse =>
      intro hne
      have hpos : 0 < s.apps.length := List.length_pos_iff.2 hne
      simp only
      omega
  case h_3 | h_4 =>
    intro hne
    have hlt := h hne
    simp only
    omega
  case h_5 =>
    split
    · obtain ⟨statusMsg, heq⟩ := action_eq s _ answer
      rw [heq]
      exact h
    · exact h

theorem inRange_drawn (h : l.state.InRange) (t : Turn) : (l.drawn t).InRange := by
  unfold Loop.drawn
  split
  · exact inRange_refresh h _ _
  · exact h

theorem inRange_turn (h : l.state.InRange) (hturn : l.turn t = some l') : l'.state.InRange := by
  unfold Loop.turn at hturn
  simp only at hturn
  split at hturn
  · cases hturn
    exact inRange_drawn h t
  · split at hturn
    · cases hturn
    · cases hturn
      exact inRange_press (inRange_drawn h t) _ _

/-- The loop at its start. -/
def Started (l : Loop) : Prop :=
  ∃ now earliest, l = { lastPoll := rewound earliest now, earliest }

theorem inRange_reachable (h : Reachable Loop.turn Started l) : l.state.InRange := by
  refine h.invariant (I := fun l => l.state.InRange) ?_ fun l t l' hin _ hturn =>
    inRange_turn hin hturn
  rintro _ ⟨now, earliest, rfl⟩
  exact fun hne => absurd rfl hne

/-- The row of the app that an action goes to is the one that is highlighted. -/
theorem target_eq (l : Loop) (t : Turn) :
    (l.drawn t).target = (l.frame t).highlighted.head?.map (·.app) := by
  unfold Loop.frame State.target
  rw [highlighted_ui]
  cases (l.drawn t).apps[(l.drawn t).selected]? <;> rfl

/-- A poll that gets the list fetches the log of the app that it leaves selected. -/
theorem logs_refresh (apps : List AppStatus) (logs : String → Except String String) {name : String}
    (h : (s.refresh (.ok apps) logs).target = some name) :
    (s.refresh (.ok apps) logs).logs =
      String.ofList (stripAnsi ((logs name).toOption.getD "").toList) := by
  unfold State.refresh at h ⊢
  simp only at h ⊢
  split at h
  case h_1 hnone =>
    rw [List.getElem?_eq_none_iff] at hnone
    have hnil : apps = [] := by
      by_contra hne
      have hpos : 0 < apps.length := List.length_pos_iff.2 hne
      split at hnone <;> omega
    rw [State.target, hnil] at h
    cases h
  case h_2 a hsome =>
    rw [State.target, hsome] at h
    cases h
    cases logs a.name <;> rfl

/-- In every frame of a run one row is highlighted, if there are rows. The log pane is titled
with its app, and shows its log if the list has just been fetched. A key that
acts sends its request for this app, and for no other. -/
theorem acts_on_highlighted (h : Reachable Loop.turn Started l) (t : Turn) :
    let frame := l.frame t
    (frame.highlighted = [] ↔ frame.rows = []) ∧ frame.highlighted.length ≤ 1 ∧
      l.sent t = (t.key.bind KeyCode.verb).bind (fun verb =>
        frame.highlighted.head?.map fun row => (verb, row.app)) ∧
      ∀ row ∈ frame.highlighted, frame.logTitle = " logs — " ++ row.app ++ " " ∧
        (l.due t = true → t.list.isOk = true → (l.drawn t).logs =
          String.ofList (stripAnsi ((t.logs row.app).toOption.getD "").toList)) := by
  intro frame
  have hrange := inRange_drawn (inRange_reachable h) t
  have hhighlighted : frame.highlighted = _ := highlighted_ui (l.drawn t) t.height
  have htarget : (l.drawn t).target = frame.highlighted.head?.map (·.app) := target_eq l t
  refine ⟨?_, ?_, ?_, fun row hrow => ⟨?_, fun hdue hlist => ?_⟩⟩
  · have hrows : frame.rows = [] ↔ (l.drawn t).apps = [] := by simp [frame, Loop.frame, ui]
    rw [hrows, hhighlighted, List.map_eq_nil_iff]
    constructor
    · intro hnone
      by_contra hne
      rw [List.getElem?_eq_getElem (hrange hne)] at hnone
      cases hnone
    · intro hnil
      rw [hnil]
      rfl
  · rw [hhighlighted, List.length_map]
    cases (l.drawn t).apps[(l.drawn t).selected]? <;> simp
  · unfold Loop.sent
    rw [htarget]
    refine congrArg _ (funext fun verb => ?_)
    cases frame.highlighted.head? <;> rfl
  · rw [hhighlighted] at hrow
    obtain ⟨a, ha, rfl⟩ := List.mem_map.1 hrow
    change (ui (l.drawn t) t.height).logTitle = _
    rw [ui, Option.mem_toList.1 ha]
    rfl
  · rw [hhighlighted] at hrow
    obtain ⟨a, ha, rfl⟩ := List.mem_map.1 hrow
    have hname : (l.drawn t).target = some a.name := congrArg _ (Option.mem_toList.1 ha)
    unfold Loop.drawn at hname ⊢
    rw [if_pos hdue] at hname ⊢
    cases hanswer : t.list with
    | error e =>
        rw [hanswer] at hlist
        cases hlist
    | ok apps =>
        rw [hanswer] at hname
        exact logs_refresh apps t.logs hname

section StopSecond

def appNamed (name : String) : AppStatus where
  name := name
  desiredStatus := "running"
  artifactHash := ""
  kernelHash := ""
  endpoint := none
  restartPolicy := "on-failure"
  statusLabel := none
  verified := "unverified"
  runtime := none

/-- A key, with two apps in the list. -/
def keyTurn (now : ℤ) (code : KeyCode) : Turn where
  polledAt := now
  list := .ok [appNamed "a", appNamed "b"]
  logs _ := .ok ""
  refreshedAt := now
  height := 10
  event := some { code, press := true }
  answer := .error "no such app"
  pressedAt := now

def opened : Loop where
  lastPoll := rewound 0 20000
  earliest := 0

/-- The second app has been selected. -/
def movedDown : Loop where
  state := { apps := [appNamed "a", appNamed "b"], selected := 1, statusMsg := "" }
  lastPoll := 20000
  earliest := 0

theorem turn_opened : opened.turn (keyTurn 20000 .down) = some movedDown := rfl

theorem acts_on_highlighted_movedDown :
    movedDown.sent (keyTurn 20200 (.char 's')) = some ("stop", "b") :=
  (acts_on_highlighted (.step (.start ⟨20000, 0, rfl⟩) trivial turn_opened)
    (keyTurn 20200 (.char 's'))).2.2.1.trans rfl

end StopSecond

/-! ## Messages -/

/-- The daemon has answered the latest poll, or why it has not. -/
def Silent (msg : String) : Prop := msg = "" ∨ ∃ e, msg = "daemon unreachable: " ++ e

/-- The readings of the clock do not go back, and ten seconds ago can be told. -/
structure Turn.Orderly (t : Turn) (earliest now : ℤ) : Prop where
  polled : now ≤ t.polledAt
  pressed : t.polledAt ≤ t.pressedAt
  told : earliest + 10000 ≤ t.polledAt

/-- The latest reading of the clock, after a turn. -/
def Turn.endedAt (t : Turn) : ℤ := max t.refreshedAt t.pressedAt

/-- The loop, with the latest reading of the clock. -/
def clocked : Loop × ℤ → Turn → Option (Loop × ℤ) :=
  ghostStep Loop.turn fun _ t _ => t.endedAt

def ClockedStart (l : Loop × ℤ) : Prop :=
  ∃ now earliest, earliest + 10000 ≤ now ∧
    l = ({ lastPoll := rewound earliest now, earliest }, now)

/-- What is to be shown is silent, or the next turn polls before it draws. -/
def Quiet (l : Loop × ℤ) : Prop := Silent l.1.state.statusMsg ∨ l.1.lastPoll + 1000 ≤ l.2

theorem silent_refresh (s : State) (list : Except String (List AppStatus))
    (logs : String → Except String String) : Silent (s.refresh list logs).statusMsg := by
  unfold State.refresh
  cases list with
  | error e => exact Or.inr ⟨e, rfl⟩
  | ok apps =>
      simp only
      split <;> exact Or.inl rfl

theorem silent_drawn {now : ℤ} (h : Quiet (l, now)) (ht : t.Orderly l.earliest now) :
    Silent (l.drawn t).statusMsg := by
  unfold Loop.drawn
  split
  case isTrue => exact silent_refresh _ _ _
  case isFalse hdue =>
    refine h.resolve_right fun hlate => hdue ?_
    have hpolled := ht.polled
    simp only at hlate
    simp only [Loop.due, decide_eq_true_eq]
    omega

theorem press_statusMsg {k : KeyCode} (h : k.verb = none) (s : State)
    (answer : Except String Unit) :
    (s.press k answer).statusMsg = s.statusMsg := by
  unfold State.press
  split
  case h_1 | h_2 => split <;> rfl
  case h_3 | h_4 => rfl
  case h_5 => rw [h]

theorem Quiet.turn {l l' : Loop × ℤ} (h : Quiet l) (ht : t.Orderly l.1.earliest l.2)
    (hturn : clocked l t = some l') : Quiet l' := by
  obtain ⟨hstep, hnow⟩ := ghostStep_eq_some hturn
  have hdrawn := silent_drawn h ht
  unfold Loop.turn at hstep
  simp only at hstep
  split at hstep
  case h_1 =>
    obtain ⟨l', now'⟩ := l'
    cases hstep
    exact Or.inl hdrawn
  case h_2 k hkey =>
    split at hstep
    · cases hstep
    · obtain ⟨l', now'⟩ := l'
      cases hstep
      cases hverb : k.verb with
      | none => exact Or.inl ((press_statusMsg hverb _ _).symm ▸ hdrawn)
      | some verb =>
          -- the last poll is set back, so that the next turn polls
          refine Or.inr ?_
          have hpressed := ht.pressed
          have htold := ht.told
          have hlater : t.pressedAt ≤ now' := (le_max_right _ _).trans hnow.symm.le
          simp only [Option.isSome_some, if_true, rewound]
          split <;> omega

theorem quiet_reachable {l : Loop × ℤ}
    (h : ReachableWhen clocked ClockedStart (fun l t => t.Orderly l.1.earliest l.2) l) :
    Quiet l := by
  refine h.invariant ?_ fun l t l' hquiet ht hturn => hquiet.turn ht hturn
  rintro _ ⟨now, earliest, htold, rfl⟩
  refine Or.inr ?_
  simp only [rewound]
  split <;> omega

/-- No frame shows what came of an action, or that the loop is still connecting: the
message is dropped by the poll that comes before the next frame. -/
theorem outcome_never_shown {l : Loop × ℤ}
    (h : ReachableWhen clocked ClockedStart (fun l t => t.Orderly l.1.earliest l.2) l)
    (ht : t.Orderly l.1.earliest l.2) : Silent (l.1.frame t).footer :=
  silent_drawn (quiet_reachable h) ht

theorem orderly_keyTurn {now later : ℤ} (h : now ≤ later) (hlate : 10000 ≤ later)
    (code : KeyCode) : (keyTurn later code).Orderly 0 now :=
  ⟨h, le_rfl, (zero_add _).trans_le hlate⟩

def stopFailed : Loop where
  state := { movedDown.state with statusMsg := "stop b failed: no such app" }
  lastPoll := 10200
  earliest := 0

theorem clocked_movedDown :
    clocked (movedDown, 20000) (keyTurn 20200 (.char 's')) = some (stopFailed, 20200) := rfl

/-- A stop that fails is not heard of. -/
theorem outcome_never_shown_stopFailed :
    Silent (stopFailed.frame (keyTurn 20400 .other)).footer := by
  have hopened : ClockedStart (opened, 20000) := ⟨20000, 0, by decide, rfl⟩
  have hmoved : clocked (opened, 20000) (keyTurn 20000 .down) = some (movedDown, 20000) := rfl
  refine outcome_never_shown (.step (.step (.start hopened) ?_ hmoved) ?_ clocked_movedDown) ?_
  all_goals exact orderly_keyTurn (by decide) (by decide) _

end Tui

end Nockd
