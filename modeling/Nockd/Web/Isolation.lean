import Nockd.Data.Related
import Nockd.Web.Inert

/-!
# What is put into a view stays in its place

The tags of a view, and the names of their attributes, are those of its templates. No name, no
status line and no URL adds one or takes one away: they are inert where they are put.
-/

namespace Nockd

namespace Web

open Api Registry Skeleton Store

variable {b : Browser} {a a' : AppV1}

/-! ## What the tags depend on -/

/-- What of an app the tags depend on. -/
structure Flags where
  icon : Bool
  link : Bool
  hot : Bool
  kernel : Bool
  prev : Bool
  verified : Bool
  drift : Bool
  rss : ℕ
deriving DecidableEq

def flagsOf (a : AppV1) : Flags where
  icon := a.hasIcon
  link := (a.port.filter (· ≠ 0)).isSome
  hot := 3 < a.restartCount.toNat
  kernel := (present a.kernelHash).isSome
  prev := (present a.prevArtifact).isSome
  verified := utf16 a.verified = js "verified"
  drift := utf16 a.verified = js "drift"
  rss := rssOf a

/-- The tags of a view depend on this only. -/
inductive Outline where
  | fleet (tiles : Bool) (apps : List Flags)
  | detail (a : Flags)
  | history (current : List Bool)
  | timeline (count : ℕ)
  | endpoints (eps : List (Bool × ℕ))
  | metrics (apps : List Flags)

def View.outline : View → Outline
  | fleet tiles apps => .fleet tiles (apps.map flagsOf)
  | detail a => .detail (flagsOf a)
  | history hist => .history (hist.map (·.current))
  | timeline events => .timeline events.length
  | endpoints eps => .endpoints (eps.map fun e => (e.height.isSome, e.attachedApps.length))
  | metrics apps => .metrics (apps.map flagsOf)

/-- The hashes hold no markup; they are put in as they are. -/
structure Hashed (a : AppV1) : Prop where
  artifact : HtmlInert (utf16 a.artifactHash)
  prev : ∀ hash ∈ present a.prevArtifact, HtmlInert hash

/-- The browser writes numbers without markup. -/
structure Browser.Numeric (b : Browser) : Prop where
  toFixed : ∀ cpu, HtmlInert (b.toFixed cpu)
  sumFixed : ∀ cpus, HtmlInert (b.sumFixed cpus)
  lagPct : ∀ lag, HtmlInert (b.lagPct lag)

/-! ## Parts of templates -/

theorem alike_glyph (s t : JsString) : HtmlAlike .text .text (glyph s) (glyph t) :=
  alike_litValue rfl <| alike_inertValue (inert_statusClass s) (inert_statusClass t) <|
  alike_litEnd rfl

theorem alike_vfy {v w : JsString}
    (hverified : decide (v = js "verified") = decide (w = js "verified"))
    (hdrift : decide (v = js "drift") = decide (w = js "drift")) :
    HtmlAlike .text .text (vfy v) (vfy w) := by
  rw [decide_eq_decide] at hverified hdrift
  unfold vfy
  simp only [hverified, hdrift]
  split
  · exact alike_lit rfl
  · split
    · exact alike_lit rfl
    · exact alike_lit rfl

theorem alike_appIcon (hicon : a.hasIcon = a'.hasIcon) {cls : JsString} (hcls : HtmlInert cls) :
    HtmlAlike .text .text (appIcon a cls) (appIcon a' cls) := by
  unfold appIcon
  rw [hicon]
  split
  · refine alike_litValue rfl <| alike_inertValue hcls hcls <| alike_litValue rfl ?_
    refine alike_inertValue (inert_encodeURIComponent _) (inert_encodeURIComponent _) <|
      alike_litValue rfl ?_
    exact alike_inertValue (inert_integer _) (inert_integer _) <| alike_litEnd rfl
  · exact .nil .text

/-- Both apps have a link, or neither has. -/
theorem appLink_cases (b : Browser)
    (hlink : (a.port.filter (· ≠ 0)).isSome = (a'.port.filter (· ≠ 0)).isSome) :
    (∃ link link', appLink b a = some link ∧ appLink b a' = some link') ∨
      appLink b a = none ∧ appLink b a' = none := by
  unfold appLink
  generalize a.port.filter (· ≠ 0) = port, a'.port.filter (· ≠ 0) = port' at hlink
  cases port <;> cases port' <;> simp_all

theorem alike_miniLink
    (hlink : (a.port.filter (· ≠ 0)).isSome = (a'.port.filter (· ≠ 0)).isSome) :
    HtmlAlike .text .text (miniLink b a) (miniLink b a') := by
  unfold miniLink
  rcases appLink_cases b hlink with ⟨link, link', heq, heq'⟩ | ⟨heq, heq'⟩
  · rw [heq, heq']
    refine alike_litValue rfl <| alike_inertValue (inert_esc link) (inert_esc link') <|
      alike_litValue rfl ?_
    exact alike_inertValue (inert_esc link) (inert_esc link') <| alike_litEnd rfl
  · rw [heq, heq']
    exact .nil .text

theorem alike_detailLink
    (hlink : (a.port.filter (· ≠ 0)).isSome = (a'.port.filter (· ≠ 0)).isSome) :
    HtmlAlike .text .text (detailLink b a) (detailLink b a') := by
  unfold detailLink
  rcases appLink_cases b hlink with ⟨link, link', heq, heq'⟩ | ⟨heq, heq'⟩
  · rw [heq, heq']
    refine alike_litValue rfl <| alike_inertValue (inert_esc link) (inert_esc link') <|
      alike_litValue rfl ?_
    exact alike_inertValue (inert_esc link) (inert_esc link') <| alike_litEnd rfl
  · rw [heq, heq']
    exact .nil .text

theorem alike_pageLink
    (hlink : (a.port.filter (· ≠ 0)).isSome = (a'.port.filter (· ≠ 0)).isSome) :
    HtmlAlike .text .text (pageLink b a) (pageLink b a') := by
  unfold pageLink
  rcases appLink_cases b hlink with ⟨link, link', heq, heq'⟩ | ⟨heq, heq'⟩
  · rw [heq, heq']
    refine alike_litValue rfl <| alike_inertValue (inert_esc link) (inert_esc link') <|
      alike_litText rfl ?_
    exact alike_inertText (inert_esc link) (inert_esc link') <| alike_litEnd rfl
  · rw [heq, heq']
    exact alike_lit rfl

theorem alike_restarts
    (hhot : decide (3 < a.restartCount.toNat) = decide (3 < a'.restartCount.toNat)) :
    HtmlAlike .text .text (restarts a) (restarts a') := by
  rw [decide_eq_decide] at hhot
  unfold restarts
  simp only [hhot]
  split
  · exact alike_litText rfl <| alike_inertText (inert_digits _) (inert_digits _) <| alike_litEnd rfl
  · exact .inert (inert_digits _) (inert_digits _) (by decide)

theorem inert_idleClass (a : AppV1) : HtmlInert (idleClass a) := by
  unfold idleClass
  split
  · exact inert_lit rfl
  · exact inert_nil

theorem inert_metricCell (a : AppV1) : HtmlInert (metricCell a) := by
  unfold metricCell
  split
  · exact inert_esc _
  · exact inert_dash

/-! ## Fleet -/

theorem alike_fleetStats {apps apps' : List AppV1} :
    HtmlAlike .text .text (fleetStats apps) (fleetStats apps') := by
  refine alike_litText rfl <| alike_inertText (inert_digits _) (inert_digits _) <|
    alike_litText rfl ?_
  refine alike_inertText (inert_digits _) (inert_digits _) <| alike_litText rfl ?_
  refine alike_inertText (inert_digits _) (inert_digits _) <| alike_litText rfl ?_
  refine alike_inertText (inert_digits _) (inert_digits _) <| alike_litText rfl ?_
  exact alike_inertText (inert_digits _) (inert_digits _) <| alike_litEnd rfl

theorem alike_fleetBar (tiles : Bool) {apps apps' : List AppV1} :
    HtmlAlike .text .text (fleetBar tiles apps) (fleetBar tiles apps') := by
  have hclass (tiles : Bool) : HtmlInert (if tiles then js "active" else []) := by
    split
    · exact inert_lit rfl
    · exact inert_nil
  have hother (tiles : Bool) : HtmlInert (if tiles then [] else js "active") := by
    split
    · exact inert_nil
    · exact inert_lit rfl
  refine alike_litText rfl <| alike_inertText (inert_digits _) (inert_digits _) <|
    alike_litText rfl ?_
  refine alike_inertText (inert_digits _) (inert_digits _) <| alike_litText rfl ?_
  refine alike_inertText (inert_digits _) (inert_digits _) <| alike_litText rfl ?_
  refine alike_inertText (inert_digits _) (inert_digits _) <| alike_litText rfl ?_
  refine alike_inertText (inert_digits _) (inert_digits _) <| alike_litValue rfl ?_
  refine alike_inertValue (hother tiles) (hother tiles) <| alike_litValue rfl ?_
  exact alike_inertValue (hclass tiles) (hclass tiles) <| alike_litEnd rfl

theorem alike_fleetLegend : HtmlAlike .text .text fleetLegend fleetLegend := by
  refine alike_litText rfl <| (alike_glyph _ _).cons <| alike_litText rfl ?_
  refine (alike_glyph _ _).cons <| alike_litText rfl <| (alike_glyph _ _).cons <|
    alike_litText rfl ?_
  exact (alike_glyph _ _).cons <| alike_litEnd rfl

theorem alike_fleetRow (h : flagsOf a = flagsOf a') (ha : Hashed a) (ha' : Hashed a') :
    HtmlAlike .text .text (fleetRow b a) (fleetRow b a') := by
  have hicon : a.hasIcon = a'.hasIcon := congrArg Flags.icon h
  refine alike_litValue rfl <| alike_inertValue (inert_idleClass a) (inert_idleClass a') <|
    alike_litText rfl ?_
  refine (alike_glyph _ _).cons <| alike_litText rfl ?_
  refine (alike_appIcon hicon inert_nil).cons <| alike_inertText (inert_esc _) (inert_esc _) ?_
  refine (alike_miniLink (congrArg Flags.link h)).cons <| alike_litText rfl ?_
  refine alike_inertText (inert_shortHash ha.artifact) (inert_shortHash ha'.artifact) <|
    alike_litText rfl ?_
  refine alike_inertText (inert_esc _) (inert_esc _) <| alike_litText rfl ?_
  refine alike_inertText (inert_fmtUptime _) (inert_fmtUptime _) <| alike_litText rfl ?_
  refine (alike_restarts (congrArg Flags.hot h)).cons <| alike_litText rfl ?_
  refine alike_inertText (inert_esc _) (inert_esc _) <| alike_litText rfl ?_
  refine (alike_vfy (congrArg Flags.verified h) (congrArg Flags.drift h)).cons <|
    alike_litText rfl ?_
  refine alike_inertText (inert_metricCell a) (inert_metricCell a') <| alike_litValue rfl ?_
  refine alike_inertValue (inert_statusClass _) (inert_statusClass _) <| alike_litText rfl ?_
  exact alike_inertText (inert_esc _) (inert_esc _) <| alike_litEnd rfl

theorem inert_bandText (a : AppV1) : HtmlInert (bandText a) := by
  unfold bandText
  split
  · exact inert_esc _
  · split
    · exact inert_two (inert_digits _) (inert_lit rfl)
    · exact inert_fmtUptime _

theorem alike_fleetTile (h : flagsOf a = flagsOf a') :
    HtmlAlike .text .text (fleetTile b a) (fleetTile b a') := by
  have hicon : a.hasIcon = a'.hasIcon := congrArg Flags.icon h
  refine alike_litValue rfl <| alike_inertValue (inert_idleClass a) (inert_idleClass a') <|
    alike_litValue rfl ?_
  refine alike_inertValue (inert_statusClass _) (inert_statusClass _) <| alike_litText rfl ?_
  refine (alike_glyph _ _).cons <| alike_litText rfl ?_
  refine alike_inertText (inert_esc _) (inert_esc _) <| alike_litText rfl ?_
  refine alike_inertText (inert_bandText a) (inert_bandText a') <| alike_litText rfl ?_
  refine (alike_appIcon hicon inert_nil).cons <| alike_inertText (inert_esc _) (inert_esc _) ?_
  refine (alike_miniLink (congrArg Flags.link h)).cons <| alike_litText rfl ?_
  refine alike_inertText (inert_esc _) (inert_esc _) <| alike_litText rfl ?_
  refine alike_inertText (inert_esc _) (inert_esc _) <| alike_litText rfl ?_
  refine alike_inertText (inert_fmtUptime _) (inert_fmtUptime _) <| alike_litText rfl ?_
  exact (alike_vfy (congrArg Flags.verified h) (congrArg Flags.drift h)).cons <| alike_litEnd rfl

/-! ## App detail -/

theorem inert_reloadTitle (a : AppV1) : HtmlInert (reloadTitle a) := by
  unfold reloadTitle
  split
  · exact inert_three (inert_lit rfl) (inert_esc _) (inert_lit rfl)
  · exact inert_lit rfl

theorem inert_prevHash (ha : Hashed a) : HtmlInert (prevHash a) := by
  refine inert_getD (fun hash hmem => ?_) inert_dash
  obtain ⟨prev, hprev, rfl⟩ := Option.mem_map.1 hmem
  exact inert_shortHash (ha.prev prev hprev)

theorem inert_rollbackTitle (ha : Hashed a) : HtmlInert (rollbackTitle a) := by
  unfold rollbackTitle
  split
  case h_1 prev hprev =>
    exact inert_three (inert_lit rfl) (inert_shortHash (ha.prev prev hprev)) (inert_lit rfl)
  case h_2 => exact inert_lit rfl

theorem inert_pid (a : AppV1) : HtmlInert ((a.pid.map digits).getD dash) := by
  refine inert_getD (fun pid hmem => ?_) inert_dash
  obtain ⟨n, -, rfl⟩ := Option.mem_map.1 hmem
  exact inert_digits n

theorem inert_statusText (a : AppV1) :
    HtmlInert (if (present a.statusLine).isSome then js " · " ++ esc (metricStr a) else []) := by
  split
  · exact (inert_lit rfl).append (inert_esc _)
  · exact inert_nil

set_option maxRecDepth 2000 in
theorem alike_detailHead (h : flagsOf a = flagsOf a') (ha : Hashed a) (ha' : Hashed a') :
    HtmlAlike .text .text (detailHead b a) (detailHead b a') := by
  have hicon : a.hasIcon = a'.hasIcon := congrArg Flags.icon h
  refine alike_litText rfl <| (alike_glyph _ _).cons <| alike_litText rfl ?_
  refine (alike_appIcon hicon (inert_lit rfl)).cons <| alike_litText rfl ?_
  refine alike_inertText (inert_esc _) (inert_esc _) <| alike_litText rfl ?_
  refine alike_inertText (inert_esc _) (inert_esc _) <| alike_litText rfl ?_
  refine alike_inertText (inert_fmtUptime _) (inert_fmtUptime _) <| alike_litText rfl ?_
  refine alike_inertText (inert_pid a) (inert_pid a') ?_
  refine alike_inertText (inert_statusText a) (inert_statusText a') <| alike_litText rfl ?_
  refine (alike_detailLink (congrArg Flags.link h)).cons <| alike_litValue rfl ?_
  refine alike_inertValue (inert_reloadTitle a) (inert_reloadTitle a') <| alike_litValue rfl ?_
  refine alike_inertValue (inert_esc _) (inert_esc _) <| alike_litValue rfl ?_
  refine alike_inertValue (inert_prevHash ha) (inert_prevHash ha') <| alike_litValue rfl ?_
  exact alike_inertValue (inert_rollbackTitle ha) (inert_rollbackTitle ha') <| alike_litEnd rfl

/-- Both values are present, or neither is. -/
theorem present_cases {x y : Option JsString} (h : x.isSome = y.isSome) :
    (∃ s t, x = some s ∧ y = some t) ∨ x = none ∧ y = none := by
  cases x <;> cases y <;> simp_all

theorem alike_kernelLine (h : (present a.kernelHash).isSome = (present a'.kernelHash).isSome) :
    HtmlAlike .text .text (kernelLine a) (kernelLine a') := by
  unfold kernelLine
  rcases present_cases h with ⟨s, t, heq, heq'⟩ | ⟨heq, heq'⟩
  · rw [heq, heq']
    exact alike_litText rfl <| alike_inertText (inert_esc s) (inert_esc t) <| alike_litEnd rfl
  · rw [heq, heq']
    exact alike_lit rfl

theorem alike_rollbackLine
    (h : (present a.prevArtifact).isSome = (present a'.prevArtifact).isSome) :
    HtmlAlike .text .text (rollbackLine a) (rollbackLine a') := by
  unfold rollbackLine
  rcases present_cases h with ⟨s, t, heq, heq'⟩ | ⟨heq, heq'⟩
  · rw [heq, heq']
    exact alike_litText rfl <| alike_inertText (inert_esc _) (inert_esc _) <| alike_litEnd rfl
  · rw [heq, heq']
    exact .nil .text

theorem inert_cpuText (hb : b.Numeric) (a : AppV1) : HtmlInert (cpuText b a) := by
  refine inert_getD (fun cpu hmem => ?_) inert_dash
  obtain ⟨bits, -, rfl⟩ := Option.mem_map.1 hmem
  exact (hb.toFixed bits).append (inert_lit rfl)

theorem inert_rssText (a : AppV1) : HtmlInert (rssText a) := by
  refine inert_getD (fun rss hmem => ?_) inert_dash
  obtain ⟨n, -, rfl⟩ := Option.mem_map.1 hmem
  exact inert_fmtBytes _

set_option maxRecDepth 2000 in
theorem alike_detailBody (hb : b.Numeric) (h : flagsOf a = flagsOf a') :
    HtmlAlike .text .text (detailBody b a) (detailBody b a') := by
  refine alike_litText rfl <| alike_inertText (inert_esc _) (inert_esc _) <| alike_litText rfl ?_
  refine (alike_kernelLine (congrArg Flags.kernel h)).cons <| alike_litText rfl <|
    alike_litText rfl ?_
  refine alike_inertText (inert_esc _) (inert_esc _) <| alike_litText rfl ?_
  refine (alike_rollbackLine (congrArg Flags.prev h)).cons <| alike_litText rfl <|
    alike_litText rfl ?_
  refine alike_inertText (inert_esc _) (inert_esc _) <| alike_litText rfl <| alike_litText rfl ?_
  refine alike_inertText (inert_esc _) (inert_esc _) <| alike_litText rfl <| alike_litText rfl ?_
  refine (alike_pageLink (congrArg Flags.link h)).cons <| alike_litText rfl ?_
  refine alike_inertText (inert_cpuText hb a) (inert_cpuText hb a') <| alike_litText rfl ?_
  exact alike_inertText (inert_rssText a) (inert_rssText a') <| alike_litEnd rfl

theorem alike_historyRow {h h' : DeployHistoryRow} (hcurrent : h.current = h'.current) :
    HtmlAlike .text .text (historyRow b h) (historyRow b h') := by
  have hclass (h : DeployHistoryRow) : HtmlInert (if h.current then js " cur" else []) := by
    split
    · exact inert_lit rfl
    · exact inert_nil
  have hvcls (h : DeployHistoryRow) : HtmlInert (if h.verifiedStatus = some "verified" then js "ok"
      else if h.verifiedStatus = some "drift" then js "bad" else js "muted") := by
    split
    · exact inert_lit rfl
    · split
      · exact inert_lit rfl
      · exact inert_lit rfl
  have hmark : HtmlAlike .text .text
      (if h.current then js "<span class=\"hcur\">current</span>" else [])
      (if h'.current then js "<span class=\"hcur\">current</span>" else []) := by
    rw [hcurrent]
    split
    · exact alike_lit rfl
    · exact .nil .text
  refine alike_litValue rfl <| alike_inertValue (hclass h) (hclass h') <| alike_litValue rfl ?_
  refine alike_inertValue (hvcls h) (hvcls h') <| alike_litText rfl ?_
  refine alike_inertText (inert_esc _) (inert_esc _) <| alike_litText rfl <| hmark.cons <|
    alike_litText rfl ?_
  exact alike_inertText (inert_esc _) (inert_esc _) <| alike_litEnd rfl

theorem alike_eventRow (ev ev' : EventRow) :
    HtmlAlike .text .text (eventRow b ev) (eventRow b ev') := by
  refine alike_litValue rfl <| alike_inertValue (inert_esc _) (inert_esc _) <| alike_litText rfl ?_
  refine alike_inertText (inert_esc _) (inert_esc _) <| alike_litText rfl ?_
  refine alike_inertText (inert_esc _) (inert_esc _) <| alike_litText rfl ?_
  exact alike_inertText (inert_esc _) (inert_esc _) <| alike_litEnd rfl

/-! ## Endpoints -/

theorem inert_epStatus (e : EndpointV1) : HtmlInert (epStatus e) := by
  unfold epStatus
  split
  · exact inert_lit rfl
  · split
    · exact inert_lit rfl
    · exact inert_lit rfl

theorem inert_epLabel (s : JsString) : HtmlInert (epLabel s) := by
  unfold epLabel
  split
  · exact inert_lit rfl
  · split
    · exact inert_lit rfl
    · exact inert_lit rfl

theorem inert_lag (e : EndpointV1) :
    HtmlInert (if e.reachable then (e.lagMs.map fun lag => digits lag.toNat ++ js "ms").getD []
      else js "timeout") := by
  split
  · refine inert_getD (fun lag hmem => ?_) inert_nil
    obtain ⟨n, -, rfl⟩ := Option.mem_map.1 hmem
    exact (inert_digits _).append (inert_lit rfl)
  · exact inert_lit rfl

theorem inert_barFill (hb : b.Numeric) (e : EndpointV1) : HtmlInert (barFill b e) := by
  unfold barFill
  split
  · exact (inert_lit rfl).append (inert_lit rfl)
  · rw [List.flatten_cons]
    refine (inert_lit rfl).append (inert_three (hb.lagPct _) (inert_lit rfl) ?_)
    split
    · exact inert_lit rfl
    · exact inert_lit rfl

theorem inert_behindText (e : EndpointV1) : HtmlInert (behindText e) := by
  unfold behindText
  split
  · exact inert_three (inert_lit rfl) (inert_digits _) (inert_lit rfl)
  · exact inert_lit rfl

theorem alike_heightLine {e e' : EndpointV1} (h : e.height.isSome = e'.height.isSome) :
    HtmlAlike .text .text (heightLine e) (heightLine e') := by
  unfold heightLine
  generalize e.height = height, e'.height = height' at h
  cases height with
  | none =>
      cases height' with
      | none => exact .nil .text
      | some n => cases h
  | some n =>
      cases height' with
      | none => cases h
      | some n' =>
          refine alike_litText rfl <| alike_inertText (inert_digits _) (inert_digits _) ?_
          exact alike_inertText (inert_behindText e) (inert_behindText e') <| alike_litEnd rfl

theorem alike_chip (app app' : String) : HtmlAlike .text .text (chip app) (chip app') :=
  alike_litText rfl <| alike_inertText (inert_esc _) (inert_esc _) <| alike_litEnd rfl

/-- As many chips have as many tags. -/
theorem alike_intercalate {apps apps' : List String} (h : apps.length = apps'.length) :
    HtmlAlike .text .text ((js " ").intercalate (apps.map chip))
      ((js " ").intercalate (apps'.map chip)) := by
  have hsep : HtmlAlike .text .text (js " ") (js " ") := alike_lit rfl
  induction apps generalizing apps' with
  | nil =>
      rw [List.length_eq_zero_iff.1 h.symm]
      exact .nil .text
  | cons app apps ih =>
      cases apps' with
      | nil => cases h
      | cons app' apps' =>
          have hrest := ih (Nat.succ.inj h)
          have hchip := alike_chip app app'
          cases apps with
          | nil =>
              rw [List.length_eq_zero_iff.1 (Nat.succ.inj h).symm]
              simpa using hchip
          | cons next apps =>
              cases apps' with
              | nil => cases h
              | cons next' apps' =>
                  simp only [List.map_cons, List.intercalate_cons_cons] at hrest ⊢
                  exact (hchip.append hsep).append hrest

theorem alike_chips {e e' : EndpointV1} (h : e.attachedApps.length = e'.attachedApps.length) :
    HtmlAlike .text .text (chips e) (chips e') := by
  have hnil : e.attachedApps = [] ↔ e'.attachedApps = [] := by
    rw [← List.length_eq_zero_iff, h, List.length_eq_zero_iff]
  unfold chips
  simp only [hnil]
  split
  · exact alike_lit rfl
  · exact alike_intercalate h

theorem alike_endpointStats {eps eps' : List EndpointV1} :
    HtmlAlike .text .text (endpointStats eps) (endpointStats eps') := by
  refine alike_litText rfl <| alike_inertText (inert_digits _) (inert_digits _) <|
    alike_litText rfl ?_
  refine alike_inertText (inert_digits _) (inert_digits _) <| alike_litText rfl ?_
  refine alike_inertText (inert_digits _) (inert_digits _) <| alike_litText rfl ?_
  exact alike_inertText (inert_digits _) (inert_digits _) <| alike_litEnd rfl

set_option maxRecDepth 2000 in
theorem alike_endpointTile (hb : b.Numeric) {e e' : EndpointV1}
    (hheight : e.height.isSome = e'.height.isSome)
    (happs : e.attachedApps.length = e'.attachedApps.length) :
    HtmlAlike .text .text (endpointTile b e) (endpointTile b e') := by
  refine alike_litValue rfl <| alike_inertValue (inert_epStatus e) (inert_epStatus e') <|
    alike_litText rfl ?_
  refine (alike_glyph _ _).cons <| alike_litText rfl ?_
  refine alike_inertText (inert_epLabel _) (inert_epLabel _) <| alike_litText rfl ?_
  refine alike_inertText (inert_lag e) (inert_lag e') <| alike_litText rfl ?_
  refine alike_inertText (inert_esc _) (inert_esc _) <| alike_litText rfl ?_
  refine alike_inertText (inert_esc _) (inert_esc _) <| alike_litText rfl ?_
  refine alike_inertText (inert_esc _) (inert_esc _) <| alike_litText rfl ?_
  refine (alike_heightLine hheight).cons <| alike_litText rfl <| alike_litValue rfl ?_
  refine alike_inertValue (inert_barFill hb e) (inert_barFill hb e') <| alike_litText rfl ?_
  refine alike_inertText (inert_digits _) (inert_digits _) <| alike_litText rfl ?_
  exact (alike_chips happs).cons <| alike_litEnd rfl

/-! ## Metrics -/

theorem alike_metricsStats (hb : b.Numeric) {apps apps' : List AppV1} :
    HtmlAlike .text .text (metricsStats b apps) (metricsStats b apps') := by
  have hname (x : Option AppV1) :
      HtmlInert ((x.map fun a => esc (utf16 a.name)).getD dash) := by
    refine inert_getD (fun name hmem => ?_) inert_dash
    obtain ⟨a, -, rfl⟩ := Option.mem_map.1 hmem
    exact inert_esc _
  have hsize (x : Option AppV1) : HtmlInert ((x.map fun a => fmtBytes (rssOf a)).getD dash) := by
    refine inert_getD (fun size hmem => ?_) inert_dash
    obtain ⟨a, -, rfl⟩ := Option.mem_map.1 hmem
    exact inert_fmtBytes _
  refine alike_litText rfl <| alike_inertText (inert_digits _) (inert_digits _) <|
    alike_litText rfl ?_
  refine alike_inertText (inert_fmtBytes _) (inert_fmtBytes _) <| alike_litText rfl ?_
  refine alike_inertText (hb.sumFixed _) (hb.sumFixed _) <| alike_litText rfl ?_
  refine alike_inertText (hname _) (hname _) <| alike_litText rfl ?_
  exact alike_inertText (hsize _) (hsize _) <| alike_litEnd rfl

theorem alike_metricsRow (hb : b.Numeric) (hicon : a.hasIcon = a'.hasIcon)
    (apps apps' : List AppV1) :
    HtmlAlike .text .text (metricsRow b apps a) (metricsRow b apps' a') := by
  refine alike_litValue rfl <| alike_inertValue (inert_idleClass a) (inert_idleClass a') <|
    alike_litText rfl ?_
  refine (alike_glyph _ _).cons <| alike_litText rfl ?_
  refine (alike_appIcon hicon inert_nil).cons <| alike_inertText (inert_esc _) (inert_esc _) ?_
  refine alike_litText rfl <| alike_inertText (inert_cpuText hb a) (inert_cpuText hb a') <|
    alike_litText rfl ?_
  refine alike_inertText (inert_rssText a) (inert_rssText a') <| alike_litValue rfl ?_
  refine alike_inertValue (inert_digits _) (inert_digits _) <| alike_litValue rfl ?_
  refine alike_inertValue (inert_statusClass _) (inert_statusClass _) <| alike_litText rfl ?_
  exact alike_inertText (inert_esc _) (inert_esc _) <| alike_litEnd rfl

/-! ## Views -/

/-- The hashes that a view puts in as they are. -/
def View.Hashed : View → Prop
  | fleet _ apps => ∀ a ∈ apps, Web.Hashed a
  | detail a => Web.Hashed a
  | _ => True

theorem forall₂_of_map_eq {α κ : Type} {f : α → κ} {xs ys : List α}
    (h : xs.map f = ys.map f) : List.Forall₂ (fun x y => f x = f y) xs ys := by
  have heq : List.Forall₂ Eq (xs.map f) (ys.map f) := h ▸ List.forall₂_refl _
  exact List.forall₂_map_right_iff.1 (List.forall₂_map_left_iff.1 heq)

/-- Fragments that are made alike of parts with equal outlines. -/
theorem alike_map {α κ : Type} {f : α → κ} {g g' : α → JsString} {xs ys : List α}
    (h : xs.map f = ys.map f)
    (hg : ∀ x ∈ xs, ∀ y ∈ ys, f x = f y → HtmlAlike .text .text (g x) (g' y)) :
    List.Forall₂ (HtmlAlike .text .text) (xs.map g) (ys.map g') := by
  induction xs generalizing ys with
  | nil =>
      rw [List.map_eq_nil_iff.1 h.symm]
      exact .nil
  | cons x xs ih =>
      cases ys with
      | nil => cases h
      | cons y ys =>
          obtain ⟨hhead, htail⟩ := List.cons.inj h
          refine .cons (hg x List.mem_cons_self y List.mem_cons_self hhead) (ih htail ?_)
          exact fun x' hx' y' hy' =>
            hg x' (List.mem_cons_of_mem x hx') y' (List.mem_cons_of_mem y hy')

set_option maxRecDepth 2000 in
theorem alike_fleetView (tiles : Bool) {apps apps' : List AppV1}
    (h : apps.map flagsOf = apps'.map flagsOf) (ha : ∀ a ∈ apps, Hashed a)
    (ha' : ∀ a ∈ apps', Hashed a) :
    List.Forall₂ (HtmlAlike .text .text) (fleetView b tiles apps) (fleetView b tiles apps') := by
  have hnil : apps = [] ↔ apps' = [] := by
    rw [← List.map_eq_nil_iff (f := flagsOf), h, List.map_eq_nil_iff]
  refine List.rel_append (List.rel_append ?_ ?_) (.cons alike_fleetLegend .nil)
  · exact .cons alike_fleetStats (.cons (alike_fleetBar tiles) .nil)
  · cases tiles with
    | true =>
        refine .cons (alike_lit rfl) (List.rel_append ?_ (.cons (alike_lit rfl) .nil))
        exact alike_map h fun a _ a' _ hflags => alike_fleetTile hflags
    | false =>
        refine .cons (alike_litText rfl (alike_litEnd rfl)) ?_
        simp only [hnil]
        split
        · exact .cons (alike_lit rfl) .nil
        · exact alike_map h fun a hmem a' hmem' hflags =>
            alike_fleetRow hflags (ha a hmem) (ha' a' hmem')

theorem alike_detailView (hb : b.Numeric) (h : flagsOf a = flagsOf a') (ha : Hashed a)
    (ha' : Hashed a') :
    List.Forall₂ (HtmlAlike .text .text) (detailView b a) (detailView b a') :=
  .cons (alike_detailHead h ha ha') (.cons (alike_detailBody hb h) .nil)

theorem alike_historyView {hist hist' : List DeployHistoryRow}
    (h : hist.map (·.current) = hist'.map (·.current)) :
    List.Forall₂ (HtmlAlike .text .text) (historyView b hist) (historyView b hist') := by
  have hnil : hist = [] ↔ hist' = [] := by
    rw [← List.map_eq_nil_iff (f := (·.current)), h, List.map_eq_nil_iff]
  unfold historyView
  simp only [hnil]
  split
  · exact .cons (alike_lit rfl) .nil
  · exact alike_map h fun _ _ _ _ => alike_historyRow

theorem alike_timelineView {events events' : List EventRow} (h : events.length = events'.length) :
    List.Forall₂ (HtmlAlike .text .text) (timelineView b events) (timelineView b events') := by
  have hnil : events = [] ↔ events' = [] := by
    rw [← List.length_eq_zero_iff, h, List.length_eq_zero_iff]
  have hmap : events.map (fun _ => ()) = events'.map fun _ => () := by
    rw [List.map_const', List.map_const', h]
  unfold timelineView
  simp only [hnil]
  split
  · exact .cons (alike_lit rfl) .nil
  · exact alike_map hmap fun ev _ ev' _ _ => alike_eventRow ev ev'

theorem alike_endpointsView (hb : b.Numeric) {eps eps' : List EndpointV1}
    (h : eps.map (fun e => (e.height.isSome, e.attachedApps.length)) =
      eps'.map fun e => (e.height.isSome, e.attachedApps.length)) :
    List.Forall₂ (HtmlAlike .text .text) (endpointsView b eps) (endpointsView b eps') := by
  have hnil : eps = [] ↔ eps' = [] := by
    rw [← List.map_eq_nil_iff, h, List.map_eq_nil_iff]
  refine List.rel_append ?_ ?_
  · refine .cons alike_endpointStats (.cons ?_ (.cons (alike_lit rfl) .nil))
    exact alike_twoLits rfl rfl
  · simp only [hnil]
    split
    · exact .cons (alike_twoLits rfl rfl) .nil
    · refine .cons (alike_lit rfl) (alike_map h fun e _ e' _ heq => ?_)
      exact alike_endpointTile hb (congrArg Prod.fst heq) (congrArg Prod.snd heq)

/-- The order by size depends on the outline only. -/
theorem heaviestFirst_map {apps apps' : List AppV1} (h : apps.map flagsOf = apps'.map flagsOf) :
    (heaviestFirst apps).map flagsOf = (heaviestFirst apps').map flagsOf := by
  have hrss (a a' : AppV1) (heq : flagsOf a = flagsOf a') : rssOf a = rssOf a' :=
    congrArg Flags.rss heq
  have hsorted : List.Forall₂ (fun a a' => flagsOf a = flagsOf a') (heaviestFirst apps)
      (heaviestFirst apps') :=
    Related.insertionSort (fun a a' c c' heq heq' => by rw [hrss a a' heq, hrss c c' heq'])
      (forall₂_of_map_eq h)
  rw [← List.forall₂_eq_eq_eq, List.forall₂_map_left_iff, List.forall₂_map_right_iff]
  exact hsorted

set_option maxRecDepth 2000 in
theorem alike_metricsView (hb : b.Numeric) {apps apps' : List AppV1}
    (h : apps.map flagsOf = apps'.map flagsOf) :
    List.Forall₂ (HtmlAlike .text .text) (metricsView b apps) (metricsView b apps') := by
  refine List.rel_append ?_ (alike_map (heaviestFirst_map h) fun a _ a' _ heq => ?_)
  · refine .cons (alike_metricsStats hb) (.cons ?_ (.cons ?_ .nil))
    · exact alike_twoLits rfl rfl
    · exact alike_twoLits rfl rfl
  · exact alike_metricsRow hb (congrArg Flags.icon heq) apps apps'

/-- Whatever a view shows, the tags of its HTML are those of any other with the same outline: no
name, no text of a status line, no URL and no event brings in a tag or an attribute. -/
theorem tags_of_outline (hb : b.Numeric) {v v' : View} (hv : v.Hashed) (hv' : v'.Hashed)
    (h : v.outline = v'.outline) :
    List.Forall₂ (HtmlAlike .text .text) (v.fragments b) (v'.fragments b) := by
  cases v with
  | fleet tiles apps =>
      cases v' with
      | fleet tiles' apps' =>
          obtain ⟨rfl, happs⟩ := Outline.fleet.inj h
          exact alike_fleetView tiles happs hv hv'
      | _ => cases h
  | detail a =>
      cases v' with
      | detail a' => exact alike_detailView hb (Outline.detail.inj h) hv hv'
      | _ => cases h
  | history hist =>
      cases v' with
      | history hist' => exact alike_historyView (Outline.history.inj h)
      | _ => cases h
  | timeline events =>
      cases v' with
      | timeline events' => exact alike_timelineView (Outline.timeline.inj h)
      | _ => cases h
  | endpoints eps =>
      cases v' with
      | endpoints eps' => exact alike_endpointsView hb (Outline.endpoints.inj h)
      | _ => cases h
  | metrics apps =>
      cases v' with
      | metrics apps' => exact alike_metricsView hb (Outline.metrics.inj h)
      | _ => cases h

section Script

def localBrowser : Browser where
  protocol := js "http:"
  hostname := js "localhost"
  toLocaleString := integer
  toLocaleTimeString := integer
  toFixed cpu := digits cpu.toNat
  sumFixed cpus := digits (cpus.map UInt32.toNat).sum
  lagPct := digits
  rssPct rss _ := rss

theorem numeric_localBrowser : localBrowser.Numeric :=
  ⟨fun _ => inert_digits _, fun _ => inert_digits _, fun _ => inert_digits _⟩

def script : String := "\"><script>alert(1)</script>"

/-- An event that tells of an app. -/
def eventOf (detail : String) : EventRow :=
  { id := 1, ts := 0, appName := "a", kind := "start", detail }

theorem tags_of_outline_script :
    List.Forall₂ (HtmlAlike .text .text)
      ((View.timeline [eventOf "up"]).fragments localBrowser)
      ((View.timeline [eventOf script]).fragments localBrowser) :=
  tags_of_outline numeric_localBrowser trivial trivial rfl

end Script

end Web

end Nockd
